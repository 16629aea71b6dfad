import AliosThings.Rhino.PriorityInheritance

/-!
# Event flags never leave a satisfied waiter blocked

`event_set` compares every waiter with the flags as they were before any waiter has cleared its
own, and stores that value for each waiter it wakes. A waiter it leaves was not satisfied by more
flags than remain, so it is not satisfied afterwards either.

The history kept beside the kernel holds, for each task, the request of its last
`krhino_event_get` and what is found at `actl_flags` when the request has been met.
-/

namespace AliosThings.Rhino

open Lib List Option KState KCall BitVec TaskView

/-- A call of `krhino_event_get` that has been granted or waits. -/
structure EventGet where
  obj : ObjId
  opt : EventOpt
  flags : BitVec 32
  actlFlags : Nat
  /-- The caller had to wait. -/
  blocked : Bool
  /-- What is found at `actl_flags` when the request has been met. -/
  reported : Option (BitVec 32)

/-- The request that a call is. -/
def ownGet (s : KState) : KCall → Option EventGet
  | .eventGet o flags opt actlFlags ticks =>
    let r := krhinoEventGet s o flags opt actlFlags ticks
    match EventOpt.ofByte opt, r.1 with
    | some waitOpt, .blocks => some ⟨o, waitOpt, flags, actlFlags, true, none⟩
    | some waitOpt, .ret .success =>
      some ⟨o, waitOpt, flags, actlFlags, false, some (r.2.load32 actlFlags)⟩
    | _, _ => none
  | _ => none

/-- The request of the task `t`, which is forgotten with the next call of the task. -/
def noteGet (s : KState) (c : KCall) (t : TaskId) (get : Option EventGet) : Option EventGet :=
  if c.createdTask = some t then none
  else if c.madeBy s t then ownGet s c
  else
    get.map fun g =>
      if t ∈ wokenFrom s (c.exec s).2 g.obj then
        { g with reported := some ((c.exec s).2.load32 g.actlFlags) }
      else g

/-- The caller's pointer is one to a `uint32_t`. -/
def KCall.AlignedReport : KCall → Prop
  | eventGet _ _ _ actlFlags _ => actlFlags % wordSize = 0
  | _ => True

instance : DecidablePred AlignedReport := fun c => by
  rcases c <;> unfold AlignedReport <;> infer_instance

/-- The kernel with the requests for event flags. -/
abbrev eventKernel : System (KState × (TaskId → Option EventGet)) KCall :=
  ((kernel.restrict NoStaleDelete).restrict fun _ c => c.AlignedReport).observed
    (fun _ => none) fun s c gets t => noteGet s c t (gets t)

/-- The flags `cur` meet the request of the task. -/
def Ktask.metBy (k : Ktask) (cur : BitVec 32) : Bool := eventMet k.pendOption cur k.pendFlags

/-- The flags that the tasks of `list` ask to be cleared. -/
def clearedBy (s : KState) (list : List TaskId) : BitVec 32 :=
  list.foldr (fun t cleared =>
    if (s.tasks t).pendOption.clearMask then (s.tasks t).pendFlags ||| cleared else cleared) 0#32

/-- The flags of `o` that a call of `krhino_event_set` asks for. -/
def setFlags (old flags : BitVec 32) (opt : Nat) : BitVec 32 :=
  if EventOpt.ofByte opt = some .and then old &&& flags else old ||| flags

structure EventsServed (s : KState) (gets : TaskId → Option EventGet) : Prop where
  noneMet : ∀ o, (s.blk o).objType = .event → ∀ t ∈ (s.blk o).blkList,
    (s.tasks t).metBy (s.events o).flags = false
  /-- A get waits with its own request, or has come back; if it returns success, it has reported
  flags that meet the request. -/
  result : ∀ t g, gets t = some g → (s.tasks t).Live →
    g.blocked = true ∧ t ∈ (s.blk g.obj).blkList ∧ (s.tasks t).pendOption = g.opt ∧
        (s.tasks t).pendFlags = g.flags ∧ (s.tasks t).pendInfo = g.actlFlags ∨
      ((s.tasks t).taskState = .rdy ∨ (s.tasks t).taskState = .suspended) ∧
        ((g.blocked = true → pendStateEndProc (s.tasks t) = .success) →
          ∃ v, g.reported = some v ∧ eventMet g.opt v g.flags = true)
  /-- A set leaves the new flags, without those that the waiters it wakes have cleared. -/
  cleared : ∀ o flags opt, ((KCall.eventSet o flags opt).exec s).1 = .ret .success →
    (((KCall.eventSet o flags opt).exec s).2.events o).flags =
      setFlags (s.events o).flags flags opt &&&
        ~~~ clearedBy s (wokenFrom s ((KCall.eventSet o flags opt).exec s).2 o)

/-! ## Words in memory -/

variable {s s' : KState} {a b : Nat} {v cur flags mask : BitVec 32} {list : List TaskId} {o : ObjId}

/-- A store of the same value elsewhere. -/
theorem load32_store32_of_eq (alignedA : a % wordSize = 0) (alignedB : b % wordSize = 0)
    (there : s.load32 b = v) : (s.store32 a v.toNat).load32 b = v := by
  rcases eq_or_ne a b with rfl | apart
  · exact load32_store32 s a v
  have same : (s.mem.writeBytes a (leBytes wordSize v.toNat)).readBytes b wordSize =
      s.mem.readBytes b wordSize := Mem.readBytes_writeBytes_disjoint (by
    rw [leBytes_length]
    simp only [wordSize] at *
    omega)
  unfold load32 store32
  rw [same]
  exact there

/-! ## Fewer flags meet fewer requests -/

theorem eventMet_of_and {opt : EventOpt} (met : eventMet opt (cur &&& mask) flags = true) :
    eventMet opt cur flags = true := by
  unfold eventMet at met ⊢
  have swap : cur &&& mask &&& flags = mask &&& (cur &&& flags) := by
    rw [BitVec.and_comm cur mask, BitVec.and_assoc]
  split at met <;> rename_i isAnd <;> simp only [decide_eq_true_eq] at met
  · rw [if_pos isAnd, decide_eq_true_eq]
    calc cur &&& flags = cur &&& (cur &&& mask &&& flags) := by rw [met]
      _ = cur &&& mask &&& flags := by rw [BitVec.and_assoc, ← BitVec.and_assoc, BitVec.and_self]
      _ = flags := met
  · rw [if_neg isAnd, decide_eq_true_eq]
    intro zero
    rw [swap, zero] at met
    exact met and_zero

theorem Ktask.metBy_and {k : Ktask} (notMet : k.metBy cur = false) (mask : BitVec 32) :
    k.metBy (cur &&& mask) = false := by
  cases met : k.metBy (cur &&& mask) with
  | false => rfl
  | true => rw [Ktask.metBy, eventMet_of_and met] at notMet; cases notMet

/-! ## The loop of `event_set` -/

/-- The loop has gone over `list`. -/
structure FlagsServed (o : ObjId) (cur : BitVec 32) (list : List TaskId) (s s' : KState) :
    Prop where
  woken : ∀ t ∈ list, (s.tasks t).metBy cur = true → ∃ st, (st = .rdy ∨ st = .suspended) ∧
    s'.view.task t = (s.view.task t).released st .finish
  others : ∀ t, (t ∈ list → (s.tasks t).metBy cur = false) → s'.view.task t = s.view.task t
  flags : (s'.events o).flags = (s.events o).flags &&&
    ~~~ clearedBy s (list.filter fun t => (s.tasks t).metBy cur)
  keeps : ∀ a, a % wordSize = 0 → s.load32 a = cur → s'.load32 a = cur
  stored : ∀ t ∈ list, (s.tasks t).metBy cur = true → s'.load32 (s.tasks t).pendInfo = cur

theorem FlagsServed.coreSched (served : FlagsServed o cur list s s') :
    FlagsServed o cur list s (coreSched s') := by
  obtain ⟨active, corrupt, same⟩ := coreSched_quiet s'
  rw [same]
  exact ⟨served.woken, served.others, served.flags, served.keeps, served.stored⟩

theorem clearedBy_congr (same : ∀ t ∈ list, s'.tasks t = s.tasks t) :
    clearedBy s' list = clearedBy s list := by
  induction list with
  | nil => rfl
  | cons t _ ih =>
    have tail := ih fun u inRest => same u (mem_cons_of_mem t inRest)
    unfold clearedBy at tail ⊢
    simp only [foldr_cons]
    rw [tail, same t mem_cons_self]

theorem clearedBy_nil (s : KState) (x : BitVec 32) : x &&& ~~~ clearedBy s [] = x := by
  show x &&& ~~~ 0#32 = x
  rw [not_zero, and_allOnes]

theorem clearedBy_cons (s : KState) (t : TaskId) (list : List TaskId) :
    clearedBy s (t :: list) = clearedBy s [t] ||| clearedBy s list := by
  unfold clearedBy
  simp only [foldr_cons, foldr_nil]
  split
  · rw [or_zero]
  · rw [zero_or]

variable {t : TaskId}

/-- What `event_set` does for a waiter that the flags satisfy. -/
def eventServe (o : ObjId) (cur : BitVec 32) (s : KState) (t : TaskId) : KState :=
  let k := s.tasks t
  let s := pendTaskWakeup (s.store32 k.pendInfo cur.toNat) t
  if k.pendOption.clearMask then
    s.modEvent o fun e => { e with flags := e.flags &&& ~~~ k.pendFlags }
  else s

theorem eventSetLoop_cons (rest : List TaskId) :
    eventSetLoop o cur (t :: rest) s =
      eventSetLoop o cur rest (if (s.tasks t).metBy cur then eventServe o cur s t else s) := by
  by_cases met : (s.tasks t).metBy cur = true
  · rw [if_pos met, eventSetLoop]
    exact if_pos met
  · rw [if_neg met, eventSetLoop]
    exact if_neg met

/-- The state after a waiter has been served. -/
structure Serves (o : ObjId) (cur : BitVec 32) (t : TaskId) (s s' : KState) : Prop where
  core : Core s'
  woken : ∃ st, (st = .rdy ∨ st = .suspended) ∧
    s'.view.task t = (s.view.task t).released st .finish
  others : ∀ u, u ≠ t → s'.tasks u = s.tasks u
  flags : (s'.events o).flags = (s.events o).flags &&& ~~~ clearedBy s [t]
  mem : s'.mem = (s.store32 (s.tasks t).pendInfo cur.toNat).mem

/-- A waiter gets the flags it asked for. -/
theorem eventServe_serves (cur : BitVec 32) (h : Core s) (linked : (s.tasks t).taskList = .blk o) :
    Serves o cur t s (eventServe o cur s t) := by
  have core : Core (s.store32 (s.tasks t).pendInfo cur.toNat) := h.congr rfl
  obtain ⟨st, state, view⟩ := pendTaskEnd_view .finish core linked
  have after := (pendTaskEnd_kept (X := ∅) .finish core linked).core
  have others := fun u (other : u ≠ t) => pendTaskEnd_other .finish core linked other
  unfold eventServe pendTaskWakeup
  simp only
  generalize pendTaskEnd .finish (s.store32 _ _) t = woken at view after others ⊢
  have task : woken.view.task t = (s.view.task t).released st .finish := by
    rw [view]
    exact View.put_self ..
  have events : woken.events = s.events := congrArg View.events view
  have mem : woken.mem = (s.store32 (s.tasks t).pendInfo cur.toNat).mem := congrArg View.mem view
  split
  · next clear =>
    refine ⟨after.congr rfl, ⟨st, state, task⟩, others, ?_, mem⟩
    have own : clearedBy s [t] = (s.tasks t).pendFlags := by simp [clearedBy, clear]
    rw [own]
    simp [modEvent, events]
  · next keep =>
    refine ⟨after, ⟨st, state, task⟩, others, ?_, mem⟩
    have nothing : clearedBy s [t] = clearedBy s [] := by simp [clearedBy, keep]
    rw [events, nothing, clearedBy_nil]

/-- All waiters whose flags match are served. -/
theorem eventSetLoop_flags (cur : BitVec 32) (h : Core s) (nodup : list.Nodup)
    (linked : ∀ t ∈ list, (s.tasks t).taskList = .blk o)
    (aligned : ∀ t ∈ list, (s.tasks t).pendInfo % wordSize = 0) :
    FlagsServed o cur list s (eventSetLoop o cur list s) := by
  induction list generalizing s with
  | nil =>
    refine ⟨fun t inNil => (not_mem_nil inNil).elim, fun _ _ => rfl, ?_,
      fun _ _ there => there, fun t inNil => (not_mem_nil inNil).elim⟩
    exact (clearedBy_nil s _).symm
  | cons t rest ih =>
    obtain ⟨notIn, nodupRest⟩ := nodup_cons.mp nodup
    have others : ∀ u ∈ rest, u ≠ t := fun u inRest same => notIn (same ▸ inRest)
    rw [eventSetLoop_cons]
    cases met : (s.tasks t).metBy cur with
    | false =>
      have tail := ih h nodupRest (fun u inRest => linked u (mem_cons_of_mem t inRest))
        fun u inRest => aligned u (mem_cons_of_mem t inRest)
      have ofMet : ∀ u ∈ t :: rest, (s.tasks u).metBy cur = true → u ∈ rest := by
        intro u inList metU
        rcases mem_cons.mp inList with rfl | inRest
        · rw [met] at metU
          cases metU
        · exact inRest
      refine ⟨fun u inList metU => tail.woken u (ofMet u inList metU) metU,
        fun u notMet => tail.others u fun inRest => notMet (mem_cons_of_mem t inRest), ?_,
        tail.keeps, fun u inList metU => tail.stored u (ofMet u inList metU) metU⟩
      rw [filter_cons_of_neg (by simp [met])]
      exact tail.flags
    | true =>
      rw [if_pos rfl]
      have serves := eventServe_serves cur h (linked t mem_cons_self)
      generalize eventServe o cur s t = s₁ at serves
      have same u (inRest : u ∈ rest) : s₁.tasks u = s.tasks u := serves.others u (others u inRest)
      have tail := ih serves.core nodupRest
        (fun u inRest => (same u inRest).symm ▸ linked u (mem_cons_of_mem t inRest))
        fun u inRest => (same u inRest).symm ▸ aligned u (mem_cons_of_mem t inRest)
      have metRest : rest.filter (fun u => (s₁.tasks u).metBy cur) =
          rest.filter fun u => (s.tasks u).metBy cur :=
        filter_congr fun u inRest => by rw [same u inRest]
      have load : ∀ a, s₁.load32 a = (s.store32 (s.tasks t).pendInfo cur.toNat).load32 a :=
        fun a => by rw [load32, serves.mem, load32]
      have alignedHead := aligned t mem_cons_self
      refine ⟨fun u inList metU => ?_, fun u notMet => ?_, ?_, fun a alignedA there => ?_,
        fun u inList metU => ?_⟩
      · rcases mem_cons.mp inList with rfl | inRest
        · obtain ⟨st, state, eq⟩ := serves.woken
          exact ⟨st, state, (tail.others u fun inRest => absurd inRest notIn).trans eq⟩
        · obtain ⟨st, state, eq⟩ := tail.woken u inRest (by rw [same u inRest]; exact metU)
          refine ⟨st, state, eq.trans ?_⟩
          rw [show s₁.view.task u = s.view.task u from congrArg Ktask.view (same u inRest)]
      · have other : u ≠ t := fun isHead => by
          have unmet := notMet (isHead ▸ mem_cons_self)
          rw [isHead, met] at unmet
          cases unmet
        refine (tail.others u fun inRest => ?_).trans (congrArg Ktask.view (serves.others u other))
        rw [same u inRest]
        exact notMet (mem_cons_of_mem t inRest)
      · rw [tail.flags, serves.flags, metRest, filter_cons_of_pos (by simp [met]),
          clearedBy_congr fun u inList => same u (mem_of_mem_filter inList),
          clearedBy_cons s t (rest.filter _), BitVec.not_or, BitVec.and_assoc]
      · exact tail.keeps a alignedA
          ((load a).trans (load32_store32_of_eq alignedHead alignedA there))
      · rcases mem_cons.mp inList with rfl | inRest
        · exact tail.keeps _ alignedHead ((load _).trans (load32_store32 ..))
        · have stored := tail.stored u inRest (by rw [same u inRest]; exact metU)
          rwa [same u inRest] at stored

/-! ## The calls on an event -/

/-- A waiter of `o`: the flags do not meet its request, and it has given a proper pointer. -/
structure EventWait (s : KState) (o : ObjId) (t : TaskId) : Prop where
  notMet : (s.tasks t).metBy (s.events o).flags = false
  aligned : (s.tasks t).pendInfo % wordSize = 0

variable {opt : Nat}

/-- The request of a waiter is read off what its record shows. -/
theorem EventWait.of_request (ok : EventWait s o t)
    (request : (s.view.task t).SameRequest (s'.view.task t))
    (fewer : ∃ mask, (s'.events o).flags = (s.events o).flags &&& mask) : EventWait s' o t := by
  obtain ⟨mask, fewer⟩ := fewer
  have option : (s'.tasks t).pendOption = (s.tasks t).pendOption := request.pendOption
  have wanted : (s'.tasks t).pendFlags = (s.tasks t).pendFlags := request.pendFlags
  have info : (s'.tasks t).pendInfo = (s.tasks t).pendInfo := request.pendInfo
  refine ⟨?_, info ▸ ok.aligned⟩
  have fewerMet := Ktask.metBy_and ok.notMet mask
  rw [Ktask.metBy, option, wanted, fewer]
  exact fewerMet

/-- A deleted event tells its waiters. -/
theorem eventDel_cases (inv : KInv s) (flag : AllocFlag) :
    (eventDel flag s o).2 = s ∨ ((eventDel flag s o).2.blk o).objType = .none ∧
      ∀ t ∈ (s.blk o).blkList, ((eventDel flag s o).2.view.task t).blkState = .del :=
  objDel_cases inv (fun _ => rfl) fun _ => rfl

/-- `krhino_event_set` is refused, takes flags away, or adds flags and serves the waiters. -/
theorem krhinoEventSet_cases (flags : BitVec 32) (h : Core s) (opt : Nat)
    (ok : ∀ t, (s.view.task t).phase = .waiting o → EventWait s o t) :
    (∃ e, e ≠ .success ∧ krhinoEventSet s o flags opt = (.ret e, s)) ∨
      EventOpt.ofByte opt = some .and ∧ krhinoEventSet s o flags opt =
        (.ret .success, s.modEvent o fun e => { e with flags := e.flags &&& flags }) ∨
      EventOpt.ofByte opt = some .or ∧
        FlagsServed o ((s.events o).flags ||| flags) (s.blk o).blkList
          (s.modEvent o fun e => { e with flags := (s.events o).flags ||| flags })
          (krhinoEventSet s o flags opt).2 := by
  unfold krhinoEventSet
  split
  · next isAnd =>
    unfold eventSet
    split
    · exact .inl ⟨_, by decide, rfl⟩
    · exact .inr (.inl ⟨isAnd, rfl⟩)
  · next isOr =>
    unfold eventSet
    split
    · exact .inl ⟨_, by decide, rfl⟩
    refine .inr (.inr ⟨isOr, ?_⟩)
    have served := eventSetLoop_flags ((s.events o).flags ||| flags)
      (s := s.modEvent o fun e => { e with flags := (s.events o).flags ||| flags })
      (h.congr rfl) (h.blk.nodup o)
      (fun t waits => (h.blk.mem t o).mp waits)
      fun t waits => (ok t ((h.waiting_iff t o).mpr waits)).aligned
    exact served.coreSched
  · exact .inl ⟨_, by decide, rfl⟩

theorem krhinoEventSet_type (success : (krhinoEventSet s o flags opt).1 = .ret .success) :
    (s.blk o).objType = .event := by
  by_contra wrong
  unfold krhinoEventSet eventSet at success
  rw [if_pos wrong, if_pos wrong] at success
  split at success <;> cases success

/-- The waiters that the loop wakes are those whose requests were met. -/
theorem FlagsServed.wokenFrom {f : Kevent → Kevent} (h : Core s)
    (served : FlagsServed o cur (s.blk o).blkList (s.modEvent o f) s') :
    wokenFrom s s' o = (s.blk o).blkList.filter fun t => (s.tasks t).metBy cur := by
  refine filter_congr fun t waits => ?_
  cases met : (s.tasks t).metBy cur with
  | true =>
    obtain ⟨st, state, eq⟩ := served.woken t waits met
    rw [eq, released_phase_free state]
    simp [released]
  | false =>
    have same : s'.view.task t = s.view.task t := served.others t fun _ => met
    rw [same, (h.waiting_iff t o).mpr waits]
    simp

/-! ## One call -/

variable {c : KCall} {g : EventGet}

/-- The calls on events keep what holds of the waiters. -/
theorem exec_event_waits (inv : KInv s) (aligned : c.AlignedReport)
    (type' : ((c.exec s).2.blk o).objType = .event) (on : c.object = some o)
    (expects : c.kind = some .event)
    (ok : ∀ t, (s.view.task t).phase = .waiting o → EventWait s o t)
    (waits : ((c.exec s).2.view.task t).phase = .waiting o) : EventWait (c.exec s).2 o t := by
  have h := inv.core
  have deleted : ∀ flag, (c.exec s).2 = (eventDel flag s o).2 → EventWait (c.exec s).2 o t := by
    intro flag call
    rcases eventDel_cases inv flag with same | ⟨gone, -⟩
    · rw [call.trans same] at waits ⊢
      exact ok t waits
    · rw [call, gone] at type'
      cases type'
  cases c with
  | eventGet a flags opt actlFlags ticks =>
    obtain rfl := some.inj on
    simp only [exec] at waits ⊢
    rcases krhinoEventGet_cases inv a flags opt actlFlags ticks with
      ⟨e, -, eq⟩ | ⟨waitOpt, -, -, ⟨-, eq⟩ | ⟨notMet, blocks⟩⟩
    · rw [eq] at waits ⊢
      exact ok t waits
    · rw [eq] at waits ⊢
      refine (ok t waits).of_request (.refl _) ?_
      cases waitOpt.clearMask with
      | true => exact ⟨~~~ flags, by simp [modEvent, store32]⟩
      | false =>
        refine ⟨allOnes 32, ?_⟩
        rw [and_allOnes]
        simp [modEvent, store32]
    · have flagsSame : (krhinoEventGet s a flags opt actlFlags ticks).2.events a = s.events a :=
        (blocks.sameObject a).event
      rcases eq_or_ne t s.active with rfl | other
      · -- the caller itself
        have record := blocks.task_active
        generalize (krhinoEventGet s a flags opt actlFlags ticks).2 = r at record flagsSame
        have option : (r.tasks s.active).pendOption = waitOpt := congrArg pendOption record
        have wanted : (r.tasks s.active).pendFlags = flags := congrArg pendFlags record
        have info : (r.tasks s.active).pendInfo = actlFlags := congrArg pendInfo record
        refine ⟨?_, ?_⟩
        · rw [Ktask.metBy, option, wanted, flagsSame]
          exact notMet
        · rw [info]
          exact aligned
      · have same := blocks.task_other other
        rw [same] at waits
        refine (ok t waits).of_request (same ▸ .refl _) ⟨allOnes 32, ?_⟩
        rw [flagsSame, and_allOnes]
  | eventSet a flags opt =>
    obtain rfl := some.inj on
    simp only [exec] at waits ⊢
    rcases krhinoEventSet_cases flags h opt ok with ⟨e, -, eq⟩ | ⟨-, eq⟩ | ⟨-, served⟩
    · rw [eq] at waits ⊢
      exact ok t waits
    · rw [eq] at waits ⊢
      exact (ok t waits).of_request (.refl _) ⟨flags, by simp [modEvent]⟩
    -- a waiter that is left was not satisfied by all the flags
    generalize (krhinoEventSet s a flags opt).2 = r at waits served ⊢
    have left : (s.tasks t).metBy ((s.events a).flags ||| flags) = false ∧
        r.view.task t = s.view.task t := by
      cases met : (s.tasks t).metBy ((s.events a).flags ||| flags)
      case false => exact ⟨rfl, served.others t fun _ => met⟩
      by_cases inList : t ∈ (s.blk a).blkList
      · obtain ⟨st, state, eq⟩ := served.woken t inList met
        rw [eq, released_phase_free state] at waits
        cases waits
      · have same : r.view.task t = s.view.task t := served.others t (absurd · inList)
        rw [same, h.waiting_iff] at waits
        exact absurd waits inList
    obtain ⟨notMet, same⟩ := left
    have unmet : EventWait
        (s.modEvent a fun e => { e with flags := (s.events a).flags ||| flags }) a t :=
      ⟨by simpa [modEvent] using notMet, (ok t (same ▸ waits)).aligned⟩
    exact unmet.of_request (same ▸ .refl _) ⟨_, served.flags⟩
  | eventDel | eventDynDel =>
    cases on
    exact deleted _ rfl
  | _ => cases expects

/-- What a call on another object leaves of a waiter. -/
theorem exec_eventWait (legal : Legal s c) (aligned : c.AlignedReport)
    (ok : ∀ o, (s.blk o).objType = .event →
      ∀ t, (s.view.task t).phase = .waiting o → EventWait s o t)
    (type' : ((c.exec s).2.blk o).objType = .event)
    (waits : ((c.exec s).2.view.task t).phase = .waiting o) : EventWait (c.exec s).2 o t := by
  have inv' := exec_inv legal.inv legal.may
  have step := exec_calls legal
  rcases step.type o with same | none | names
  · have type : (s.blk o).objType = .event := same.symm.trans type'
    by_cases concerns : c.object = some o ∧ c.kind = some .event
    · exact exec_event_waits legal.inv aligned type' concerns.1 concerns.2 (ok o type) waits
    have undisturbed := exec_unconcerned legal type (by decide) (by decide) concerns
    obtain ⟨before, request⟩ := undisturbed.stays t waits
    have flags : (c.exec s).2.events o = s.events o := undisturbed.object.event
    refine (ok o type t before).of_request request ⟨allOnes 32, ?_⟩
    rw [flags, and_allOnes]
  · rw [none] at type'
    cases type'
  · have inList := (inv'.core.waiting_iff t o).mp waits
    rw [createdObj_blkList legal.inv legal.may names] at inList
    exact (not_mem_nil inList).elim

/-- A waiter that is woken finds flags at its pointer that meet its request. -/
theorem woken_event (legal : Legal s c) (type : (s.blk o).objType = .event)
    (ok : ∀ t, (s.view.task t).phase = .waiting o → EventWait s o t)
    (woken : t ∈ wokenFrom s (c.exec s).2 o) :
    (s.tasks t).metBy ((c.exec s).2.load32 (s.tasks t).pendInfo) = true := by
  have h := legal.inv.core
  obtain ⟨inList, free, finish⟩ := mem_wokenFrom.mp woken
  have waits := (h.waiting_iff t o).mpr inList
  -- whoever has not been touched is not woken
  have asBefore : (c.exec s).2.view.task t = s.view.task t → False := fun same => by
    rw [same, waits] at free
    cases free
  by_cases concerns : c.object = some o ∧ c.kind = some .event
  case neg =>
    rw [(exec_unconcerned legal type (by decide) (by decide) concerns).wokenFrom h] at woken
    exact (not_mem_nil woken).elim
  obtain ⟨on, expects⟩ := concerns
  have deleted : ∀ flag, (c.exec s).2 = (eventDel flag s o).2 → False := by
    intro flag call
    rcases eventDel_cases legal.inv flag with same | ⟨-, told⟩
    · exact asBefore (by rw [call.trans same])
    · rw [call, told t inList] at finish
      cases finish
  cases c with
  | eventGet a flags opt actlFlags ticks =>
    obtain rfl := some.inj on
    refine (asBefore ?_).elim
    show (krhinoEventGet s a flags opt actlFlags ticks).2.view.task t = _
    rcases krhinoEventGet_cases legal.inv a flags opt actlFlags ticks with
      ⟨e, -, eq⟩ | ⟨waitOpt, -, -, ⟨-, eq⟩ | ⟨-, blocks⟩⟩
    · rw [eq]
    · rw [eq]
      rfl
    · refine blocks.task_other fun running => ?_
      rw [running, blocks.free] at waits
      cases waits
  | eventSet a flags opt =>
    obtain rfl := some.inj on
    simp only [exec] at asBefore ⊢
    rcases krhinoEventSet_cases flags h opt ok with ⟨e, -, eq⟩ | ⟨-, eq⟩ | ⟨-, served⟩
    · exact (asBefore (by rw [eq])).elim
    · exact (asBefore (by rw [eq]; rfl)).elim
    cases met : (s.tasks t).metBy ((s.events a).flags ||| flags) with
    | false => exact (asBefore (served.others t fun _ => met)).elim
    | true =>
      have stored : (krhinoEventSet s a flags opt).2.load32 (s.tasks t).pendInfo =
          (s.events a).flags ||| flags := served.stored t inList met
      rw [stored]
      exact met
  | eventDel | eventDynDel =>
    cases on
    exact (deleted _ rfl).elim
  | _ => cases expects

/-! ## What a get is told -/

/-- A task that has called `krhino_event_get` waits with its request, has come back, or has been
deleted. -/
inductive GetOk (s : KState) (t : TaskId) (g : EventGet) : Prop where
  | waits (phase : (s.view.task t).phase = .waiting g.obj) (type : (s.blk g.obj).objType = .event)
    (blocked : g.blocked = true) (opt : (s.tasks t).pendOption = g.opt)
    (flags : (s.tasks t).pendFlags = g.flags) (actlFlags : (s.tasks t).pendInfo = g.actlFlags)
  | back (phase : (s.view.task t).phase = .free)
    (told : (g.blocked = true → (s.view.task t).blkState = .finish) →
      ∃ v, g.reported = some v ∧ eventMet g.opt v g.flags = true)
  | gone (phase : (s.view.task t).phase = .absent)

/-- The own call of a task. -/
theorem ownGet_ok (inv : KInv s) (byTask : s.intrptNested = 0) (noted : ownGet s c = some g) :
    GetOk (c.exec s).2 s.active g := by
  cases c with
  | eventGet o flags opt actlFlags ticks =>
    rw [ownGet] at noted
    show GetOk (krhinoEventGet s o flags opt actlFlags ticks).2 s.active g
    rcases krhinoEventGet_cases inv o flags opt actlFlags ticks with
      ⟨e, error, eq⟩ | ⟨waitOpt, isOpt, type, ⟨met, eq⟩ | ⟨notMet, blocks⟩⟩
    · simp only [eq] at noted
      split at noted
      · next ret => cases ret
      · next ret => exact absurd (KRet.ret.inj ret) error
      · cases noted
    · simp only [isOpt, eq, some.injEq] at noted
      rw [eq]
      subst noted
      have free := running_free inv byTask
      refine .back free fun _ => ⟨_, rfl, ?_⟩
      have stored : ((s.store32 actlFlags (s.events o).flags.toNat).modEvent o fun e =>
          { e with flags := if waitOpt.clearMask then e.flags &&& ~~~ flags else e.flags }).load32
            actlFlags = (s.events o).flags := load32_store32 ..
      rw [stored]
      exact met
    · simp only [isOpt, blocks.ret, some.injEq] at noted
      subst noted
      have record := blocks.task_active
      exact .waits blocks.phase_active ((blocks.sameObject o).type.trans type) rfl
        (congrArg pendOption record) (congrArg pendFlags record)
        (congrArg pendInfo record)
  | _ => cases noted

/-- The requests that are under way stay in order. -/
theorem exec_getOk (legal : Legal s c)
    (waiters : ∀ o, (s.blk o).objType = .event → ∀ t, (s.view.task t).phase = .waiting o →
      EventWait s o t)
    {get : Option EventGet} (ok : ∀ g, get = some g → GetOk s t g)
    (after : noteGet s c t get = some g) : GetOk (c.exec s).2 t g := by
  have h := legal.inv.core
  have step := exec_calls legal
  unfold noteGet at after
  split at after
  · cases after
  next notMade =>
  split at after
  · next byTask =>
    rw [byTask.1]
    exact ownGet_ok legal.inv byTask.2.1 after
  next notBy =>
  obtain ⟨before, had, eq⟩ := map_eq_some_iff.mp after
  cases ok before had with
  | gone absent => exact .gone (step.of_absent absent notMade)
  | back free told =>
    rw [if_neg (not_mem_wokenFrom h free)] at eq
    subst eq
    rcases step.of_free free (ne_active_of_not_madeBy notBy) with ⟨free', same, -⟩ | absent
    · exact .back free' (same ▸ told)
    · exact .gone absent
  | waits waits type blocked opt flags actlFlags =>
    rcases exec_waiter legal type (by decide) waits with
      ⟨still, request, type', notIn⟩ | ⟨free, finished⟩ | absent
    · rw [if_neg notIn] at eq
      subst eq
      exact .waits still type' blocked (request.pendOption.trans opt)
        (request.pendFlags.trans flags) (request.pendInfo.trans actlFlags)
    · by_cases woken : t ∈ wokenFrom s (c.exec s).2 before.obj
      · rw [if_pos woken] at eq
        subst eq
        refine .back free fun _ => ⟨_, rfl, ?_⟩
        have met := woken_event legal type (waiters before.obj type) woken
        rw [Ktask.metBy, opt, flags, actlFlags] at met
        exact met
      · rw [if_neg woken] at eq
        subst eq
        exact .back free fun finish => absurd (finished.mp (finish blocked)) woken
    · rw [← eq]
      split <;> exact .gone absent

/-! ## Every run -/

/-- The flags that a set leaves. -/
theorem krhinoEventSet_cleared (h : Core s)
    (ok : ∀ t, (s.view.task t).phase = .waiting o → EventWait s o t)
    (success : (krhinoEventSet s o flags opt).1 = .ret .success) :
    ((krhinoEventSet s o flags opt).2.events o).flags = setFlags (s.events o).flags flags opt &&&
      ~~~ clearedBy s (wokenFrom s (krhinoEventSet s o flags opt).2 o) := by
  rcases krhinoEventSet_cases flags h opt ok with
    ⟨e, error, eq⟩ | ⟨isAnd, eq⟩ | ⟨isOr, served⟩
  · rw [eq] at success
    exact absurd (KRet.ret.inj success) error
  · have none : wokenFrom s (krhinoEventSet s o flags opt).2 o = [] :=
      wokenFrom_of_task h (by rw [eq]; rfl)
    rw [none, clearedBy_nil, setFlags, if_pos isAnd, eq]
    simp [modEvent]
  · rw [served.flags, served.wokenFrom h, setFlags, if_neg (by rw [isOr]; decide)]
    simp [modEvent, clearedBy]
    rfl

structure EventOk (s : KState) (gets : TaskId → Option EventGet) : Prop where
  waiters : ∀ o, (s.blk o).objType = .event →
    ∀ t, (s.view.task t).phase = .waiting o → EventWait s o t
  gets : ∀ t g, gets t = some g → GetOk s t g

/-- Every call keeps account of the requests. -/
theorem exec_eventOk {gets : TaskId → Option EventGet} (legal : Legal s c)
    (aligned : c.AlignedReport) (ok : EventOk s gets) :
    EventOk (c.exec s).2 fun t => noteGet s c t (gets t) where
  waiters _ type' _ waits := exec_eventWait legal aligned ok.waiters type' waits
  gets t _ after := exec_getOk legal ok.waiters (ok.gets t) after

theorem initial_eventOk (mem : Mem) : EventOk (.initial mem) fun _ => none where
  waiters o type t waits := by
    have inList := ((initial_inv mem).core.waiting_iff t o).mp waits
    rw [initial_blkList] at inList
    exact (not_mem_nil inList).elim
  gets t g had := by cases had

/-- Every run keeps account of the requests. -/
theorem reach_eventOk {p : KState × (TaskId → Option EventGet)} (reach : eventKernel.Reach p) :
    (KInv p.1 ∧ InBalance p.1) ∧ EventOk p.1 p.2 := by
  obtain ⟨before, ok⟩ : ((kernel.restrict NoStaleDelete).restrict fun _ c =>
      c.AlignedReport).Reach p.1 ∧ EventOk p.1 p.2 := by
    refine System.Reach.observed ?_ ?_ reach
    · rintro s ⟨mem, rfl⟩
      exact initial_eventOk mem
    · intro s c gets before ok may
      obtain ⟨inv, bal⟩ := reach_inBalance before.of_restrict
      exact exec_eventOk ⟨inv, bal, may.1.1.2, may.1.2⟩ may.2 ok
  exact ⟨reach_inBalance before.of_restrict, ok⟩

/-- In every run no waiter is left whose request the flags meet, a get that returns success has
reported flags that meet its request, and a set leaves the new flags without exactly those that
the waiters it wakes ask to be cleared. -/
theorem events_served {p : KState × (TaskId → Option EventGet)} (reach : eventKernel.Reach p) :
    EventsServed p.1 p.2 := by
  obtain ⟨⟨inv, -⟩, ok⟩ := reach_eventOk reach
  have core := inv.core
  refine ⟨fun o type t inList => ?_, fun t g had live => ?_, fun o flags opt success => ?_⟩
  · exact (ok.waiters o type t ((core.waiting_iff t o).mpr inList)).notMet
  · cases ok.gets t g had with
    | waits phase _ blocked opt flags actlFlags =>
      exact .inl ⟨blocked, (core.waiting_iff t g.obj).mp phase, opt, flags, actlFlags⟩
    | back phase told =>
      refine .inr ⟨state_of_free phase, fun success => told fun blocked => ?_⟩
      exact (pendStateEndProc_success _).mp (success blocked)
    | gone phase => exact absurd phase (phase_of_live live)
  · exact krhinoEventSet_cleared core (ok.waiters o (krhinoEventSet_type success)) success

/-- Task 1 waits for flag 1 and task 2 for flag 2, both to be cleared; an interrupt sets three
flags. -/
def bothFlagsSet : List KCall :=
  [.eventCreate 5 0 .staticAlloc, .taskCreate 1 20 0 1 true .staticAlloc,
    .eventGet 5 1 3 64 100, .taskCreate 2 25 0 1 true .staticAlloc, .eventGet 5 2 1 68 100,
    .intrptEnter, .eventSet 5 7 0]

theorem events_served_bothFlagsSet :
    (((eventKernel.run (.initial fun _ => 0, fun _ => none) bothFlagsSet).1.events 5).flags = 4 ∧
      ((eventKernel.run (.initial fun _ => 0, fun _ => none) bothFlagsSet).2 1).map
        EventGet.reported = some (some 7)) ∧
      EventsServed (eventKernel.run (.initial fun _ => 0, fun _ => none) bothFlagsSet).1
        (eventKernel.run (.initial fun _ => 0, fun _ => none) bothFlagsSet).2 :=
  have start : eventKernel.Reach (.initial fun _ => 0, fun _ => none) := .init ⟨⟨_, rfl⟩, rfl⟩
  ⟨by decide +kernel, events_served (start.run (by decide +kernel))⟩

end AliosThings.Rhino
