import AliosThings.Lib.Assoc
import AliosThings.Lib.Run

/-!
# Services and their sensors (`service_mgr.c`, `abs_data_model.c`)

The services are the first `g_service_cnt` entries of an array. `uData_service_unregister` clears
the entry it finds and makes the array shorter by one: the entry that is lost is the last one,
whichever was cleared.
-/

namespace AliosThings.Udata

open Lib List Function

/-- The size of the payload of a report. -/
def dataSize : Nat := 64

/-- `udata_type_e`; `UDATA_MAX_CNT` is 33. -/
abbrev UdataType := Fin 33

/-- `uData_service_t`, without the payload. Callbacks are given by their addresses. -/
structure Service where
  type : UdataType
  tag : Nat
  subscribe : Bool
  running : Bool
  odr : Nat
  range : Nat
  serviceProcessCb : Option Nat
  serviceIoctlCb : Option Nat
  deriving DecidableEq

/-- The record that `memset` leaves. -/
def Service.zero : Service := ⟨0, 0, false, false, 0, 0, none, none⟩

/-- `g_service_db` and `g_service_cnt`. -/
structure Registry where
  db : Nat → Service
  cnt : Nat

open Registry

/-! ## The calls -/

/-- `uData_find_service` -/
def uDataFindService (s : Registry) (type : UdataType) : Option Nat :=
  (range s.cnt).find? fun index => (s.db index).type = type

/-- `uData_service_register`; whether the memory for the record is there and the device opens. -/
def uDataServiceRegister (s : Registry) (service : Service) (malloc opened : Bool) :
    Int × Registry :=
  if malloc then
    let entry := { service with subscribe := false, running := opened }
    if opened then (0, ⟨update s.db s.cnt entry, s.cnt + 1⟩)
    else (-1, { s with db := update s.db s.cnt entry })
  else (-1, s)

/-- `uData_service_unregister`; whether the device is closed. -/
def uDataServiceUnregister (s : Registry) (type : UdataType) (closed : Bool) : Int × Registry :=
  match uDataFindService s type with
  | none => (-1, s)
  | some index =>
    if closed then
      (0, ⟨update s.db index .zero, if s.cnt > 0 then s.cnt - 1 else s.cnt⟩)
    else (-1, s)

/-- `uData_service_subscribe`; whether the device is opened. -/
def uDataServiceSubscribe (s : Registry) (type : UdataType) (opened : Bool) : Int × Registry :=
  match uDataFindService s type with
  | none => (-1, s)
  | some index =>
    if (s.db index).running ≠ true ∧ ¬ opened then (-1, s)
    else
      let entry := { s.db index with subscribe := true, running := true }
      (0, { s with db := update s.db index entry })

/-- `uData_service_unsubscribe`; whether the device is closed. -/
def uDataServiceUnsubscribe (s : Registry) (type : UdataType) (closed : Bool) : Int × Registry :=
  match uDataFindService s type with
  | none => (-1, s)
  | some index =>
    if (s.db index).running ≠ false ∧ ¬ closed then (-1, s)
    else
      let entry := { s.db index with subscribe := false }
      (0, { s with db := update s.db index entry })

/-- The loop of `uData_service_process`: the entries whose callback is run, and what is returned.
`size` is what the callbacks return; a report that does not fit in the payload ends the loop. -/
def processLoop (s : Registry) (tag : Nat) (size : Nat → Nat) : List Nat → List Nat × Int
  | [] => ([], 0)
  | index :: rest =>
    if (s.db index).tag = tag ∧ (s.db index).serviceProcessCb ≠ none then
      if size index ≠ 0 ∧ dataSize < size index then ([index], -1)
      else
        let (run, ret) := processLoop s tag size rest
        (index :: run, ret)
    else processLoop s tag size rest

/-- `uData_service_process` -/
def uDataServiceProcess (s : Registry) (tag : Nat) (size : Nat → Nat) : List Nat × Int :=
  processLoop s tag size (range s.cnt)

/-! ## The map -/

abbrev ServiceMap := UdataType → Option Service

inductive ServiceCall where
  | register (service : Service) (malloc opened : Bool)
  | unregister (type : UdataType) (closed : Bool)
  | subscribe (type : UdataType) (opened : Bool)
  | unsubscribe (type : UdataType) (closed : Bool)

def ServiceCall.run (s : Registry) : ServiceCall → Int × Registry
  | register service malloc opened => uDataServiceRegister s service malloc opened
  | unregister type closed => uDataServiceUnregister s type closed
  | subscribe type opened => uDataServiceSubscribe s type opened
  | unsubscribe type closed => uDataServiceUnsubscribe s type closed

/-- The map after a call that has succeeded. -/
def ServiceCall.note (map : ServiceMap) : ServiceCall → ServiceMap
  | register service _ _ =>
    update map service.type (some { service with subscribe := false, running := true })
  | unregister type _ => update map type none
  | subscribe type _ => update map type
      ((map type).map fun service => { service with subscribe := true, running := true })
  | unsubscribe type _ => update map type
      ((map type).map fun service => { service with subscribe := false })

/-- The registry beside the map. No type is registered twice. -/
def registry : System (Registry × ServiceMap) ServiceCall where
  init p := p.1.cnt = 0 ∧ p.2 = fun _ => none
  allowed p call :=
    match call with
    | .register service _ _ => p.2 service.type = none
    | _ => True
  step p call := ((call.run p.1).2, if (call.run p.1).1 = 0 then call.note p.2 else p.2)

/-- A service is unregistered only if it is the last one. -/
def ServiceCall.LastFirst (s : Registry) : ServiceCall → Prop
  | unregister type closed => closed → ∀ index ∈ uDataFindService s type, index + 1 = s.cnt
  | _ => True

instance (p : Registry × ServiceMap) (call : ServiceCall) :
    Decidable (registry.allowed p call) := by
  cases call <;> unfold registry <;> infer_instance

instance (s : Registry) (call : ServiceCall) : Decidable (call.LastFirst s) := by
  cases call <;> unfold ServiceCall.LastFirst <;> infer_instance

/-- The first entries of the array are the map. -/
structure RefinesMap (s : Registry) (map : ServiceMap) : Prop where
  find : ∀ type, (uDataFindService s type).isSome ↔ (map type).isSome
  entry : ∀ type index, uDataFindService s type = some index →
    map type = some (s.db index) ∧ (s.db index).type = type
  /-- Each callback for the tag is run once, if no report is too long. -/
  process : ∀ tag size, (∀ index, size index ≤ dataSize) →
    ((uDataServiceProcess s tag size).1.map fun index => (s.db index).type).Nodup ∧
      ∀ type, type ∈ (uDataServiceProcess s tag size).1.map (fun index => (s.db index).type) ↔
        ∃ service, map type = some service ∧ service.tag = tag ∧ service.serviceProcessCb ≠ none

/-! ## The invariant -/

/-- The entry at an index, under its type. -/
def Registry.row (s : Registry) (index : Nat) : List (UdataType × Service) :=
  [((s.db index).type, s.db index)]

def Registry.entries (s : Registry) : List (UdataType × Service) := rows s.row s.cnt

variable {s : Registry} {map : ServiceMap} {type : UdataType} {index n : Nat}

/-- The services of the table, by their type. -/
theorem mem_entries {service : Service} :
    (type, service) ∈ s.entries ↔ ∃ i < s.cnt, (s.db i).type = type ∧ s.db i = service := by
  simp [entries, rows, row, eq_comm]

theorem entries_types : s.entries.map Prod.fst = (range s.cnt).map fun i => (s.db i).type := by
  rw [entries, rows, map_flatMap, map_eq_flatMap]
  rfl

/-- The entry behind the last one does not count. -/
theorem entries_update (db : Nat → Service) (n : Nat) (cell : Service) :
    (mk (update db n cell) n).entries = (mk db n).entries := by
  refine flatMap_congr fun i mem => ?_
  simp [row, Nat.ne_of_lt (mem_range.mp mem)]

theorem entries_succ (db : Nat → Service) (n : Nat) :
    (mk db (n + 1)).entries = (mk db n).entries ++ [((db n).type, db n)] := by
  simp [entries, rows, range_succ]
  rfl

/-- The service that is found has the type. -/
theorem uDataFindService_some (found : uDataFindService s type = some index) :
    index < s.cnt ∧ (s.db index).type = type := by
  have inside := mem_of_find?_eq_some found
  have same := find?_some found
  exact ⟨mem_range.mp inside, of_decide_eq_true same⟩

section

variable (rep : Represents s.entries map)
include rep

/-- It is the service that the map has. -/
theorem uDataFindService_eq (found : uDataFindService s type = some index) :
    map type = some (s.db index) := by
  obtain ⟨inside, same⟩ := uDataFindService_some found
  exact (rep.mem _ _).mp (mem_entries.mpr ⟨index, inside, same, rfl⟩)

/-- The subscription of an entry changes. -/
theorem modify_entries (found : uDataFindService s type = some index) (f : Service → Service)
    (keeps : ∀ service, (f service).type = service.type) :
    Represents { s with db := update s.db index (f (s.db index)) }.entries
      (update map type ((map type).map f)) := by
  rw [uDataFindService_eq rep found]
  obtain ⟨inside, rfl⟩ := uDataFindService_some found
  have absent : (s.db index).type ∉ (otherRows s.row s.cnt index).map Prod.fst := by
    have split := (rep.perm (rows_perm inside)).nodup
    exact (nodup_cons.mp split).1
  refine rep.exchanged (exchanged_rows inside (fun j other => ?_) absent
    ⟨s.row index, [], .refl _, ?_, not_mem_nil, ?_⟩)
  · simp [row, other]
  · simp [row]
  · simp [row, keeps]

/-- A new service is entered at the end. -/
theorem register_entries (new : Service) (fresh : map new.type = none) :
    Represents (mk (update s.db s.cnt new) (s.cnt + 1)).entries
      (update map new.type (some new)) := by
  have absent : new.type ∉ s.entries.map Prod.fst := by
    intro mem
    obtain ⟨⟨k, v⟩, inEntries, rfl⟩ := mem_map.mp mem
    rw [(rep.mem _ _).mp inEntries] at fresh
    cases fresh
  rw [entries_succ, entries_update, update_self]
  have moved : ([(new.type, new)] ++ s.entries).Perm (s.entries ++ [(new.type, new)]) :=
    perm_append_comm
  exact (rep.insert absent new).perm moved

/-- The last service leaves the table. -/
theorem unregister_entries (last : s.cnt = n + 1) (cell : Service) :
    Represents (mk (update s.db n cell) n).entries
      (update map (s.db n).type none) := by
  have split : s.entries = (mk s.db n).entries ++ [((s.db n).type, s.db n)] := by
    rw [← entries_succ, ← last]
  rw [split] at rep
  have front := rep.perm perm_append_comm
  rw [entries_update]
  refine front.remove (fun e mem => ?_) (nodup_cons.mp front.nodup).1
  rw [mem_singleton.mp mem]

end

/-! ## Runs -/

/-- Every call keeps table and map in step. -/
theorem registry_step (rep : Represents s.entries map) {call : ServiceCall}
    (may : registry.allowed (s, map) call) (last : call.LastFirst s) :
    Represents (registry.step (s, map) call).1.entries (registry.step (s, map) call).2 := by
  cases call with
  | register service malloc opened =>
    have fresh : map service.type = none := may
    cases malloc
    case false => exact rep
    cases opened with
    | true =>
      exact register_entries rep { service with subscribe := false, running := true } fresh
    | false => exact (entries_update s.db s.cnt _).symm ▸ rep
  | unregister type closed =>
    simp only [registry, ServiceCall.run, uDataServiceUnregister]
    cases found : uDataFindService s type
    case none => exact rep
    case some index =>
    cases closed with
    | false => exact rep
    | true =>
      have cnt := (last rfl index found).symm
      obtain ⟨-, rfl⟩ := uDataFindService_some found
      have removed := unregister_entries rep cnt .zero
      simpa [cnt, ServiceCall.note] using removed
  | subscribe type =>
    simp only [registry, ServiceCall.run, uDataServiceSubscribe]
    cases found : uDataFindService s type with
    | none => exact rep
    | some =>
      dsimp only
      split
      · exact rep
      · exact modify_entries rep found (fun service =>
          { service with subscribe := true, running := true }) fun _ => rfl
  | unsubscribe type =>
    simp only [registry, ServiceCall.run, uDataServiceUnsubscribe]
    cases found : uDataFindService s type with
    | none => exact rep
    | some =>
      dsimp only
      split
      · exact rep
      · exact modify_entries rep found (fun service => { service with subscribe := false })
          fun _ => rfl

/-- The callbacks that run are those of the tag. -/
theorem processLoop_run (tag : Nat) {size : Nat → Nat} (fits : ∀ index, size index ≤ dataSize)
    (indices : List Nat) : (processLoop s tag size indices).1 = indices.filter fun index =>
      (s.db index).tag = tag ∧ (s.db index).serviceProcessCb ≠ none := by
  induction indices with
  | nil => rfl
  | cons index rest ih =>
    have short : ¬ (size index ≠ 0 ∧ dataSize < size index) := by
      have := fits index
      omega
    rw [processLoop, if_neg short]
    split
    · next runs =>
      rw [filter_cons_of_pos (by simpa using runs), ← ih]
    · next skips =>
      rw [filter_cons_of_neg (by simpa using skips), ← ih]

theorem refinesMap_of_represents (rep : Represents s.entries map) : RefinesMap s map where
  find type := by
    cases found : uDataFindService s type with
    | some => simp [uDataFindService_eq rep found]
    | none =>
      refine iff_of_false nofun fun live => ?_
      obtain ⟨service, is⟩ := Option.isSome_iff_exists.mp live
      obtain ⟨i, inside, same, -⟩ := mem_entries.mp ((rep.mem type service).mpr is)
      have differs := find?_eq_none.mp found i (mem_range.mpr inside)
      exact differs (decide_eq_true same)
  entry type index found := ⟨uDataFindService_eq rep found, (uDataFindService_some found).2⟩
  process tag size fits := by
    have types := rep.nodup
    rw [entries_types] at types
    rw [uDataServiceProcess, processLoop_run tag fits]
    refine ⟨types.sublist (filter_sublist.map _), fun type => ?_⟩
    simp only [← rep.mem, mem_entries, mem_map, mem_filter, mem_range,
      decide_eq_true_eq]
    constructor
    · rintro ⟨i, ⟨inside, isTag, runs⟩, rfl⟩
      exact ⟨s.db i, ⟨i, inside, rfl, rfl⟩, isTag, runs⟩
    · rintro ⟨_, ⟨i, inside, rfl, rfl⟩, isTag, runs⟩
      exact ⟨i, ⟨inside, isTag, runs⟩, rfl⟩

/-- In every run in which services are unregistered in the reverse order of their registration. -/
theorem registry_refines_map {p : Registry × ServiceMap}
    (reach : (registry.restrict fun p call => call.LastFirst p.1).Reach p) :
    RefinesMap p.1 p.2 := by
  refine refinesMap_of_represents (reach.invariant
    (P := fun p => Represents p.1.entries p.2) ?_ ?_)
  · rintro ⟨s, map⟩ ⟨empty, rfl⟩
    have none_ : s.entries = [] := by simp [entries, rows, show s.cnt = 0 from empty]
    rw [none_]
    exact .nil
  · rintro ⟨s, map⟩ call rep ⟨may, last⟩
    exact registry_step rep may last

/-- A service of some type, on some sensor, with a callback. -/
def serviceOf (type : UdataType) (tag : Nat) : Service :=
  { Service.zero with type, tag, serviceProcessCb := some 1 }

/-- No service is registered. -/
def noService : Registry × ServiceMap := (⟨fun _ => .zero, 0⟩, fun _ => none)

/-- Three services are registered; the last one goes, and another one is subscribed. -/
theorem registry_refines_map_last :
    let p := registry.run noService [.register (serviceOf 5 2) true true,
      .register (serviceOf 6 2) true true, .register (serviceOf 7 2) true true,
      .unregister 7 true, .subscribe 6 true]
    (uDataServiceProcess p.1 2 fun _ => dataSize).1 = [0, 1] ∧ RefinesMap p.1 p.2 := by
  have start : (registry.restrict fun p call => call.LastFirst p.1).Reach noService :=
    .init ⟨rfl, rfl⟩
  exact ⟨by decide +kernel, registry_refines_map (start.run (by decide +kernel))⟩

/-- Of two services the first one goes, and the second one is lost. -/
theorem not_registry_refines_map : ¬ ∀ p : Registry × ServiceMap, registry.Reach p →
    RefinesMap p.1 p.2 := by
  intro refines
  have start : registry.Reach noService := .init ⟨rfl, rfl⟩
  have after := refines (registry.run noService [.register (serviceOf 5 2) true true,
    .register (serviceOf 6 2) true true, .unregister 5 true]) (start.run (by decide +kernel))
  exact absurd (after.find 6) (by decide +kernel)

/-! ## The sensors of the services

A sensor is opened when a service on it is registered, and powered off when a service on it is
unsubscribed. A service that has been opened stays `running`: to subscribe it again does not power
its sensor on, and nothing starts the timer again that `abs_data_close` has stopped. The devices
and the timer do what they are asked. -/

/-- `work_mode_e` -/
inductive WorkMode where
  | polling | int | dataReady | fifo | invalid
  deriving DecidableEq

/-- `g_abs_data_table`, and what the devices answer to `SENSOR_IOCTL_GET_SENSOR_MODE`. -/
structure DevTree where
  list : List Nat
  mode : Nat → WorkMode
  dataLen : Nat → Nat

/-- `abs_data_pkg_t`, as far as the calls read it. -/
structure AbsDataPkg where
  tag : Nat
  poweron : Bool

/-- `g_abs_data_db` and `abs_data_cnt` -/
structure AbsDataDb where
  db : Nat → AbsDataPkg := fun _ => ⟨0, false⟩
  cnt : Nat := 0

/-- The variables of the file, as `abs_data_model_init` leaves them. -/
structure AbsData where
  objs : AbsDataDb := {}
  /-- The descriptor in `g_sensor_node` is positive. -/
  opened : Nat → Bool := fun _ => false
  isTimerWork : Bool := true
  curInterval : Nat := 1000

/-! ### The calls -/

def hz2Interval (hz : Nat) : Nat := if hz ≠ 0 then 1000 / hz else 0

def absDataTimerStart (d : AbsData) : AbsData := { d with isTimerWork := true }

def absDataTimerStop (d : AbsData) : AbsData := { d with isTimerWork := false }

/-- `abs_data_timer_update` -/
def absDataTimerUpdate (d : AbsData) (interval : Nat) : Option AbsData :=
  if interval ≤ 0 then none
  else if interval > d.curInterval then some d
  else
    let d := if d.isTimerWork then absDataTimerStart (absDataTimerStop d) else d
    some { d with curInterval := interval }

/-- `abs_data_get_obj_index`, and the test of its result; `ABS_DATA_MAX_CNT` is 30. -/
def absDataGetObjIndex (o : AbsDataDb) (tag : Nat) : Option Nat :=
  ((range o.cnt).find? fun index => (o.db index).tag = tag).filter (· < 30)

/-- `SENSOR_IOCTL_SET_POWER` on the device of an object. -/
def AbsDataDb.setPower (o : AbsDataDb) (index : Nat) (poweron : Bool) : AbsDataDb :=
  { o with db := update o.db index { o.db index with poweron } }

/-- `abs_data_create_obj_ctx` -/
def absDataCreateObjCtx (o : AbsDataDb) (tag : Nat) : AbsDataDb :=
  ⟨update o.db o.cnt ⟨tag, true⟩, o.cnt + 1⟩

/-- `abs_data_open` -/
def absDataOpen (tree : DevTree) (d : AbsData) (service : Service) : Bool × AbsData :=
  if service.tag ∉ tree.list then (false, d)
  else
    match absDataTimerUpdate d (hz2Interval service.odr) with
    | none => (false, d)
    | some d =>
      match absDataGetObjIndex d.objs service.tag with
      | some index =>
        if (d.objs.db index).poweron then (true, d)
        else (true, { d with objs := d.objs.setPower index true })
      | none =>
        let d := { d with opened := update d.opened service.tag true }
        if tree.mode service.tag = .polling then
          match absDataTimerUpdate d (hz2Interval service.odr) with
          | none => (false, d)
          | some d => (true, { d with objs := absDataCreateObjCtx d.objs service.tag })
        else if tree.mode service.tag = .invalid ∨ tree.dataLen service.tag = 0 then (false, d)
        else (true, { d with objs := absDataCreateObjCtx d.objs service.tag })

/-- The loop of `abs_data_close`. -/
def closeLoop (d : AbsData) : List Nat → AbsData
  | [] => d
  | index :: rest => if (d.objs.db index).poweron then d else closeLoop (absDataTimerStop d) rest

/-- `abs_data_close` -/
def absDataClose (d : AbsData) (tag : Nat) : Bool × AbsData :=
  if d.opened tag then
    match absDataGetObjIndex d.objs tag with
    | none => (false, d)
    | some index =>
      (true, closeLoop { d with objs := d.objs.setPower index false } (range d.objs.cnt))
  else (false, d)

inductive SensorCall where
  | register (service : Service)
  | subscribe (type : UdataType)
  | unsubscribe (type : UdataType)

open SensorCall

/-- A call goes to the sensor of the service it finds if that one is, or is not, running. -/
def ifRunning (p : Registry × AbsData) (type : UdataType) (running : Bool)
    (go : Service → Bool × AbsData) : Bool × AbsData :=
  match uDataFindService p.1 type with
  | none => (true, p.2)
  | some index => if (p.1.db index).running = running then go (p.1.db index) else (true, p.2)

def SensorCall.run (tree : DevTree) (p : Registry × AbsData) : SensorCall → Registry × AbsData
  | register service =>
    let (opened, d) := absDataOpen tree p.2 service
    ((uDataServiceRegister p.1 service true opened).2, d)
  | subscribe type =>
    let (opened, d) := ifRunning p type false (absDataOpen tree p.2)
    ((uDataServiceSubscribe p.1 type opened).2, d)
  | unsubscribe type =>
    let (closed, d) := ifRunning p type true fun service => absDataClose p.2 service.tag
    ((uDataServiceUnsubscribe p.1 type closed).2, d)

/-- Any calls, one after the other. -/
def sensors (tree : DevTree) : System (Registry × AbsData) SensorCall where
  init p := p.1.cnt = 0 ∧ p.2 = {}
  allowed _ _ := True
  step p call := call.run tree p

instance (tree : DevTree) (p : Registry × AbsData) (call : SensorCall) :
    Decidable ((sensors tree).allowed p call) :=
  .isTrue trivial

/-! ### What is to hold -/

def AbsDataDb.Powered (o : AbsDataDb) (tag : Nat) : Prop :=
  ∃ i < o.cnt, (o.db i).tag = tag ∧ (o.db i).poweron = true

instance (o : AbsDataDb) (tag : Nat) : Decidable (o.Powered tag) :=
  inferInstanceAs (Decidable (∃ i < o.cnt, _))

structure PoweredAndPolled (tree : DevTree) (p : Registry × AbsData) : Prop where
  powered : ∀ i < p.1.cnt, (p.1.db i).subscribe = true → p.2.objs.Powered (p.1.db i).tag
  polled : ∀ tag, p.2.objs.Powered tag → tree.mode tag = .polling → p.2.isTimerWork = true

/-- The sensors on which a service has been unsubscribed. -/
def SensorCall.note (p : Registry × AbsData) (call : SensorCall) (left : List Nat) : List Nat :=
  match call with
  | unsubscribe type =>
    (uDataFindService p.1 type).elim left fun index => (p.1.db index).tag :: left
  | _ => left

/-- No service is subscribed on a sensor on which one has been unsubscribed. None is unsubscribed
on the sensor that was opened first, or on one with another subscribed service. -/
def SensorCall.Careful (p : (Registry × AbsData) × List Nat) : SensorCall → Prop
  | register _ => True
  | subscribe type => ∀ index ∈ uDataFindService p.1.1 type, (p.1.1.db index).tag ∉ p.2
  | unsubscribe type => ∀ index ∈ uDataFindService p.1.1 type,
      (p.1.2.objs.db 0).tag ≠ (p.1.1.db index).tag ∧ ∀ i < p.1.1.cnt, i ≠ index →
        (p.1.1.db i).subscribe = true → (p.1.1.db i).tag ≠ (p.1.1.db index).tag

instance (p : (Registry × AbsData) × List Nat) (call : SensorCall) :
    Decidable (call.Careful p) := by
  cases call <;> unfold SensorCall.Careful <;> infer_instance

/-! ### Opening and closing -/

variable {tree : DevTree} {d d' : AbsData} {o : AbsDataDb} {service : Service}
  {tag index interval n : Nat} {type : UdataType}

def AbsDataDb.FirstOn (o : AbsDataDb) : Prop := 0 < o.cnt → (o.db 0).poweron = true

theorem absDataGetObjIndex_some (found : absDataGetObjIndex o tag = some index) :
    index < o.cnt ∧ (o.db index).tag = tag := by
  have first := (Option.filter_eq_some_iff.mp found).1
  have same := find?_some first
  exact ⟨mem_range.mp (mem_of_find?_eq_some first), of_decide_eq_true same⟩

/-- What `abs_data_open` keeps, and what it leaves if it succeeds. -/
structure Opened (o : AbsDataDb) (tag : Nat) (r : Bool × AbsDataDb) : Prop where
  kept : ∀ {tag}, o.Powered tag → r.2.Powered tag
  first : o.FirstOn → r.2.FirstOn
  powered : r.1 = true → r.2.Powered tag

theorem Opened.failed : Opened o tag (false, o) := ⟨id, id, nofun⟩

/-- A device that is on stays on. -/
theorem Opened.already (found : absDataGetObjIndex o tag = some index)
    (live : (o.db index).poweron = true) : Opened o tag (true, o) := by
  obtain ⟨inside, same⟩ := absDataGetObjIndex_some found
  exact ⟨id, id, fun _ => ⟨index, inside, same, live⟩⟩

theorem Opened.setPower (found : absDataGetObjIndex o tag = some index) :
    Opened o tag (true, o.setPower index true) where
  kept := by
    rintro tag ⟨i, inside, same, live⟩
    by_cases i = index <;> exact ⟨i, inside, by simp_all [AbsDataDb.setPower]⟩
  first live some_ := by
    by_cases 0 = index <;> simp_all [AbsDataDb.setPower, AbsDataDb.FirstOn]
  powered _ := by
    obtain ⟨inside, same⟩ := absDataGetObjIndex_some found
    exact ⟨index, inside, by simp [AbsDataDb.setPower, same]⟩

/-- A new record is on. -/
theorem Opened.create : Opened o tag (true, absDataCreateObjCtx o tag) where
  kept := by
    rintro tag ⟨i, inside, live⟩
    exact ⟨i, Nat.lt_succ_of_lt inside, by simpa [absDataCreateObjCtx, Nat.ne_of_lt inside]⟩
  first live some_ := by
    by_cases none_ : 0 = o.cnt
    · simp [absDataCreateObjCtx, none_]
    · simpa [absDataCreateObjCtx, none_] using live (Nat.pos_of_ne_zero (Ne.symm none_))
  powered _ := ⟨o.cnt, Nat.lt_succ_self _, by simp [absDataCreateObjCtx]⟩

theorem absDataTimerUpdate_some (updated : absDataTimerUpdate d interval = some d') :
    d'.objs = d.objs ∧ d'.isTimerWork = d.isTimerWork := by
  unfold absDataTimerUpdate at updated
  split at updated
  · cases updated
  split at updated <;> cases updated
  · exact ⟨rfl, rfl⟩
  · cases works : d.isTimerWork
    · exact ⟨rfl, works⟩
    · exact ⟨rfl, rfl⟩

/-- An open leaves the timer alone and powers no device off. -/
theorem absDataOpen_spec (tree : DevTree) (d : AbsData) (service : Service) :
    (absDataOpen tree d service).2.isTimerWork = d.isTimerWork ∧
    Opened d.objs service.tag (Prod.map id AbsData.objs (absDataOpen tree d service)) := by
  unfold absDataOpen
  split
  · exact ⟨rfl, .failed⟩
  split
  · exact ⟨rfl, .failed⟩
  next d' updated =>
  obtain ⟨objs, timer⟩ := absDataTimerUpdate_some updated
  rw [← objs, ← timer]
  split
  · next found =>
    split
    · next live => exact ⟨rfl, .already found live⟩
    · exact ⟨rfl, .setPower found⟩
  dsimp only
  split
  · split
    · exact ⟨rfl, .failed⟩
    · next again =>
      obtain ⟨objs, timer⟩ := absDataTimerUpdate_some again
      exact ⟨timer, objs ▸ .create⟩
  · split
    · exact ⟨rfl, .failed⟩
    · exact ⟨rfl, .create⟩

/-- A close powers off one device at most. -/
theorem absDataClose_spec (first : d.objs.FirstOn) (other : (d.objs.db 0).tag ≠ tag) :
    absDataClose d tag = (false, d) ∨ ∃ d', absDataClose d tag = (true, d') ∧
      d'.isTimerWork = d.isTimerWork ∧ d'.objs.FirstOn ∧
      ∀ {sensor}, sensor ≠ tag → d.objs.Powered sensor → d'.objs.Powered sensor := by
  unfold absDataClose
  split
  · split
    · exact .inl rfl
    next index found =>
    obtain ⟨inside, same⟩ := absDataGetObjIndex_some found
    have zero : 0 ≠ index := by
      rintro rfl
      exact other same
    -- The loop ends at the first object.
    have live : ((d.objs.setPower index false).db 0).poweron = true := by
      simpa [AbsDataDb.setPower, zero] using first (Nat.zero_lt_of_lt inside)
    obtain ⟨n, cnt⟩ := Nat.exists_eq_add_one_of_ne_zero (Nat.ne_zero_of_lt inside)
    rw [cnt, range_succ_eq_map, closeLoop, if_pos live]
    refine .inr ⟨_, rfl, rfl, fun _ => live, ?_⟩
    rintro sensor differs ⟨i, inside, rfl, live⟩
    have another : i ≠ index := by
      rintro rfl
      exact differs same
    exact ⟨i, inside, by simp [AbsDataDb.setPower, another, live]⟩
  · exact .inl rfl

/-! ### Runs -/

/-- What holds of a registered service. -/
structure Service.Good (o : AbsDataDb) (left : List Nat) (service : Service) : Prop where
  running : service.running = true
  subscribed : service.subscribe = true → o.Powered service.tag
  kept : service.tag ∉ left → o.Powered service.tag

structure Sensible (p : Registry × AbsData) (left : List Nat) : Prop where
  timer : p.2.isTimerWork = true
  first : p.2.objs.FirstOn
  good : ∀ i, i < p.1.cnt → (p.1.db i).Good p.2.objs left

theorem good_update {db : Nat → Service} {o : AbsDataDb} {left : List Nat}
    (new : index < n → service.Good o left) (old : ∀ i, i ≠ index → i < n → (db i).Good o left) :
    ∀ i, i < n → (update db index service i).Good o left := by
  intro i inside
  by_cases same : i = index
  · subst same
    rw [update_self]
    exact new inside
  · rw [update_of_ne same]
    exact old i same inside

section

variable (tree) {p : Registry × AbsData} {left : List Nat} (inv : Sensible p left)
include inv

/-- A registration promises nothing yet. -/
theorem register_sensible : Sensible (run tree p (.register service)) left := by
  obtain ⟨timer, opened⟩ := absDataOpen_spec tree p.2 service
  have old : ∀ i, i ≠ p.1.cnt → i < p.1.cnt + 1 →
      (p.1.db i).Good (absDataOpen tree p.2 service).2.objs left := by
    intro i other inside
    obtain ⟨running, subscribed, kept⟩ := inv.good i (by omega)
    exact ⟨running, opened.kept ∘ subscribed, opened.kept ∘ kept⟩
  refine ⟨timer.trans inv.timer, opened.first inv.first, ?_⟩
  simp only [run, uDataServiceRegister, if_true]
  split
  · next success =>
    exact good_update (fun _ => ⟨success, nofun, fun _ => opened.powered success⟩) old
  · apply good_update (absurd · (Nat.lt_irrefl _))
    exact fun i other inside => old i other (Nat.lt_succ_of_lt inside)

/-- A subscription opens the device. -/
theorem subscribe_sensible (careful : SensorCall.Careful (p, left) (.subscribe type)) :
    Sensible (run tree p (.subscribe type)) left := by
  cases found : uDataFindService p.1 type with
  | none => simpa [run, ifRunning, uDataServiceSubscribe, found] using inv
  | some index =>
    have good := inv.good index (uDataFindService_some found).1
    have live := good.kept (careful index found)
    simp only [run, ifRunning, uDataServiceSubscribe, found, good.running]
    refine ⟨inv.timer, inv.first, good_update (fun _ => ⟨rfl, fun _ => live, fun _ => live⟩) ?_⟩
    exact fun i _ => inv.good i

/-- The end of a subscription leaves the others alone. -/
theorem unsubscribe_sensible (careful : SensorCall.Careful (p, left) (.unsubscribe type)) :
    Sensible (run tree p (.unsubscribe type))
      (note p (.unsubscribe type) left) := by
  cases found : uDataFindService p.1 type with
  | none =>
    simpa [run, note, ifRunning, uDataServiceUnsubscribe, found] using inv
  | some index =>
    have runs := (inv.good index (uDataFindService_some found).1).running
    obtain ⟨other, alone⟩ := careful index found
    simp only [run, note, ifRunning, uDataServiceUnsubscribe, found, runs,
      if_true, Option.elim]
    rcases absDataClose_spec inv.first other with failed | ⟨d, closed, timer, first, powered⟩
    · rw [failed]
      refine ⟨inv.timer, inv.first, fun i inside => ?_⟩
      obtain ⟨running, subscribed, kept⟩ := inv.good i inside
      exact ⟨running, subscribed, fun out => kept (not_mem_of_not_mem_cons out)⟩
    · rw [closed]
      refine ⟨timer.trans inv.timer, first, good_update (fun _ => ⟨rfl, nofun, ?_⟩) ?_⟩
      · exact fun out => absurd mem_cons_self out
      · intro i differs inside
        obtain ⟨running, subscribed, kept⟩ := inv.good i inside
        refine ⟨running, fun is => ?_, fun out => ?_⟩
        · exact powered (alone i inside differs is) (subscribed is)
        · exact powered (ne_of_not_mem_cons out) (kept (not_mem_of_not_mem_cons out))

end

/-- In every run that keeps to `Careful`. -/
theorem sensors_powered_and_polled {tree : DevTree} {p : (Registry × AbsData) × List Nat}
    (reach : (((sensors tree).observed [] note).restrict
      fun p call => call.Careful p).Reach p) : PoweredAndPolled tree p.1 := by
  have inv : Sensible p.1 p.2 := by
    apply reach.invariant
    · rintro ⟨⟨s, d⟩, left⟩ ⟨⟨empty, rfl⟩, rfl⟩
      exact ⟨rfl, nofun, fun i inside => absurd inside (empty ▸ Nat.not_lt_zero i)⟩
    · rintro ⟨p, left⟩ call inv ⟨-, careful⟩
      cases call with
      | register => exact register_sensible tree inv
      | subscribe => exact subscribe_sensible tree inv careful
      | unsubscribe => exact unsubscribe_sensible tree inv careful
  exact ⟨fun i inside => (inv.good i inside).subscribed, fun _ _ _ => inv.timer⟩

/-- Two sensors that are polled. -/
def polledSensors : DevTree := ⟨[0, 1], fun _ => .polling, fun _ => 0⟩

/-- A service that asks for ten reports a second. -/
def polledService (type : UdataType) (tag : Nat) : Service := { serviceOf type tag with odr := 10 }

/-- Two services share the first sensor, and a third one leaves the other sensor. -/
theorem sensors_powered_and_polled_shared :
    let p := ((sensors polledSensors).observed [] note).run ((noService.1, {}), [])
      [.register (polledService 5 0), .register (polledService 6 0), .register (polledService 7 1),
        .subscribe 5, .subscribe 6, .subscribe 7, .unsubscribe 7]
    (p.1.1.db 1).subscribe = true ∧ PoweredAndPolled polledSensors p.1 := by
  have start : (((sensors polledSensors).observed [] note).restrict
      fun p call => call.Careful p).Reach ((noService.1, {}), []) := .init ⟨⟨rfl, rfl⟩, rfl⟩
  exact ⟨by decide +kernel, sensors_powered_and_polled (start.run (by decide +kernel))⟩

/-- The service on the first sensor is subscribed again: its sensor is off. The other sensor is
on, and it is not polled. -/
theorem not_sensors_powered_and_polled : ∃ p, (sensors polledSensors).Reach p ∧
    ((p.1.db 0).subscribe = true ∧ ¬ p.2.objs.Powered (p.1.db 0).tag) ∧
      p.2.objs.Powered 1 ∧ p.2.isTimerWork = false := by
  have start : (sensors polledSensors).Reach (noService.1, {}) := .init ⟨rfl, rfl⟩
  refine ⟨(sensors polledSensors).run (noService.1, {}) [.register (polledService 5 0),
    .register (polledService 6 1), .subscribe 5, .unsubscribe 5, .subscribe 5], ?_, ?_⟩
  · exact start.run (by decide +kernel)
  · decide +kernel

end AliosThings.Udata
