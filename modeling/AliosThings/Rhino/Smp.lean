import AliosThings.Lib.Circle
import AliosThings.Rhino.Lists

/-!
# Several processors (`k_sched.c` with `RHINO_CONFIG_CPU_NUM > 1`)

The run queue is shared, and read and changed through its pointers here: `cur_list_item` of each
priority and the nodes of the tasks. `Represents` relates the pointers to the run queue as lists.
`preferred_cpu_ready_task_get` walks the lists from the highest priority on, each from its first
task until the pointers lead back to it, and ends at the first task that fits the processor, if
there is one. `task_sched_to_cpu` looks for the processor that runs the least urgent task, but
signals the one with the number that its loop variable ends with: the last.
-/

namespace AliosThings.Rhino

open Lib List Function

/-- `ktask_t` with the fields for several processors. -/
structure SmpTask extends Ktask where
  cpuBinded : Bool := false
  cpuNum : Fin (2 ^ 8) := 0
  /-- Whether a processor executes the task. -/
  curExc : Bool := false

/-- `runqueue_t`, and the `task_list` nodes of the tasks. -/
structure SmpRunqueue where
  curListItem : Nat → Option TaskId := fun _ => none
  taskList : Links TaskId := ⟨id, id⟩
  taskBitMap : Nat → BitVec 32 := fun _ => 0
  highestPri : Nat := priMax

structure Smp where
  tasks : TaskId → SmpTask
  rq : SmpRunqueue
  /-- `g_active_task`. -/
  activeTask : Nat → TaskId
  /-- `g_sys_stat == RHINO_RUNNING`. -/
  running : Bool

/-! ## Adding to the run queue -/

namespace SmpRunqueue

def readyListInit (rq : SmpRunqueue) (t : TaskId) (prio : Nat) : SmpRunqueue where
  curListItem := update rq.curListItem prio (some t)
  taskList := rq.taskList.single t
  taskBitMap := krhinoBitmapSet rq.taskBitMap prio
  highestPri := if prio < rq.highestPri then prio else rq.highestPri

/-- `_ready_list_add_tail`. -/
def addTail (rq : SmpRunqueue) (t : TaskId) (prio : Nat) : SmpRunqueue :=
  match rq.curListItem prio with
  | none => rq.readyListInit t prio
  | some head => { rq with taskList := rq.taskList.insertBefore head t }

/-- `_ready_list_add_head`. -/
def addHead (rq : SmpRunqueue) (t : TaskId) (prio : Nat) : SmpRunqueue :=
  match rq.curListItem prio with
  | none => rq.readyListInit t prio
  | some head =>
    { rq with
      taskList := rq.taskList.insertBefore head t
      curListItem := update rq.curListItem prio (some t) }

end SmpRunqueue

namespace Smp

variable (s : Smp)

def prio (t : TaskId) : Nat := (s.tasks t).prio

/-- The priority of the task that runs on a processor. -/
def activePrio (cpu : Nat) : Nat := s.prio (s.activeTask cpu)

/-- The variables of the loop of `task_sched_to_cpu`. -/
structure LowPri where
  i : Nat
  pri : Nat
  cpu : Nat
  deriving DecidableEq, Repr

def lowPriStep (v : LowPri) : LowPri :=
  if v.pri < s.activePrio (v.i + 1) then ⟨v.i + 1, s.activePrio (v.i + 1), v.i + 1⟩
  else { v with i := v.i + 1 }

variable (cpus : Nat)

/-- The variables after the loop. -/
def lowPri : LowPri :=
  (s.lowPriStep)^[cpus - 1] ⟨0, s.activePrio 0, 0⟩

/-- The processor that `task_sched_to_cpu` sends a signal to; `cpu_signal` takes a byte. -/
def taskSchedToCpu (t : TaskId) (cur : Nat) : Option Nat :=
  let k := s.tasks t
  if s.running then
    if k.cpuBinded then
      if k.cpuNum ≠ cur ∧ k.prio ≤ s.activePrio k.cpuNum then some k.cpuNum else none
    else
      let v := s.lowPri cpus
      if k.prio ≤ v.pri ∧ v.cpu ≠ cur then some (v.i % 2 ^ 8) else none
  else none

/-- `ready_list_add_head` and `ready_list_add_tail`, after what they do to the run queue. -/
def readyListAdded (cur : Nat) (t : TaskId) (rq : SmpRunqueue) :
    Option Nat × Smp :=
  (if cpus > 1 then taskSchedToCpu { s with rq } cpus t cur else none, { s with rq })

def readyListAddHead (cur : Nat) (t : TaskId) : Option Nat × Smp :=
  s.readyListAdded cpus cur t (s.rq.addHead t (s.prio t))

def readyListAddTail (cur : Nat) (t : TaskId) : Option Nat × Smp :=
  s.readyListAdded cpus cur t (s.rq.addTail t (s.prio t))

def readyListAdd (cur : Nat) (t : TaskId) : Option Nat × Smp :=
  if s.prio t = s.activePrio cur then s.readyListAddTail cpus cur t
  else s.readyListAddHead cpus cur t

/-! ## Choosing a task -/

/-- What `preferred_cpu_ready_task_get` looks for. -/
def Fits (cpu : Nat) (t : TaskId) : Prop :=
  s.activeTask cpu = t ∨ ((s.tasks t).curExc = false ∧ (s.tasks t).cpuBinded = false) ∨
    ((s.tasks t).curExc = false ∧ (s.tasks t).cpuBinded = true ∧ (s.tasks t).cpuNum = cpu)
  deriving Decidable

/-- The loop of `preferred_cpu_ready_task_get`: nothing if `fuel` runs out, if no bit is left in the
bitmap, or if there is no list for the bit. -/
def preferredFrom (s : Smp) (cpu : Nat) :
    Nat → TaskId → Nat → (Nat → BitVec 32) → Option TaskId
  | 0, _, _, _ => none
  | fuel + 1, iter, highestPri, taskBitMap =>
    if s.Fits cpu iter then some iter
    else if some (s.rq.taskList.next iter) = s.rq.curListItem highestPri then
      let taskBitMap := krhinoBitmapClear taskBitMap highestPri
      match krhinoFindFirstBit numWords taskBitMap with
      | none => none
      | some nr =>
        -- `highest_pri` is a byte
        match s.rq.curListItem (nr % 2 ^ 8) with
        | none => none
        | some iter => s.preferredFrom cpu fuel iter (nr % 2 ^ 8) taskBitMap
    else s.preferredFrom cpu fuel (s.rq.taskList.next iter) highestPri taskBitMap

def preferredCpuReadyTaskGet (fuel : Nat) (s : Smp) (cpu : Nat) : Option TaskId :=
  match s.rq.curListItem s.rq.highestPri with
  | none => none
  | some node => s.preferredFrom cpu fuel node s.rq.highestPri s.rq.taskBitMap

end Smp

/-! ## The pointers and the lists -/

/-- The pointers stand for a run queue. -/
structure SmpRunqueue.Represents (m : SmpRunqueue) (rq : Runqueue) : Prop where
  item : ∀ p, m.curListItem p = (rq.list p).head?
  circle : ∀ p, m.taskList.Circle (rq.list p)
  bits : m.taskBitMap = rq.taskBitMap
  highest : m.highestPri = rq.highestPri

/-! ## The task that a processor chooses -/

namespace Smp

/-- The run queue in memory is sound, and stands for `rq`. -/
structure ReadyOk (s : Smp) (rq : Runqueue) : Prop where
  rep : s.rq.Represents rq
  ok : RunqOk rq fun t => (s.tasks t).toKtask

/-- The idle task of a processor is ready, and no other processor executes it. -/
def IdleReady (s : Smp) (rq : Runqueue) (cpu : Nat) : Prop :=
  ∃ t p, t ∈ rq.list p ∧ (s.tasks t).cpuBinded = true ∧ (s.tasks t).cpuNum = cpu ∧
    (s.activeTask cpu = t ∨ (s.tasks t).curExc = false)

/-- The first task of the most urgent ones that fit a processor. -/
structure Preferred (s : Smp) (rq : Runqueue) (cpu : Nat) (t : TaskId) : Prop where
  ready : t ∈ rq.list (s.prio t)
  fits : s.Fits cpu t
  least : ∀ u p, u ∈ rq.list p → s.Fits cpu u → s.prio t ≤ s.prio u
  first : ∀ before after, rq.list (s.prio t) = before ++ t :: after →
    ∀ u ∈ before, ¬s.Fits cpu u

/-- Where the search is: nothing before `iter` fits, and the bits of the lists that are done are
cleared. -/
structure Searching (s : Smp) (rq : Runqueue) (cpu p : Nat) (bits : Nat → BitVec 32)
    (before : List TaskId) (iter : TaskId) (after : List TaskId) : Prop where
  list : rq.list p = before ++ iter :: after
  passed : ∀ u ∈ before, ¬s.Fits cpu u
  done : ∀ q, q < p → ∀ u ∈ rq.list q, ¬s.Fits cpu u
  bits : ∀ q, bitmapBit bits q = true ↔ p ≤ q ∧ rq.list q ≠ []
  left : ∃ u q, u ∈ rq.list q ∧ s.Fits cpu u

variable {s : Smp} {rq : Runqueue} {cpu p q : Nat} {bits : Nat → BitVec 32} {iter u b : TaskId}
  {before after rest : List TaskId}

theorem ReadyOk.prio_eq (ready : s.ReadyOk rq) (inList : u ∈ rq.list q) : s.prio u = q :=
  ready.ok.prio u q ((ready.ok.mem u q).mp inList)

/-- The first task that fits is the preferred one. -/
theorem Searching.preferred (search : s.Searching rq cpu p bits before iter after)
    (ready : s.ReadyOk rq) (fits : s.Fits cpu iter) : s.Preferred rq cpu iter := by
  have inList : iter ∈ rq.list p := by
    rw [search.list]
    exact mem_append_right _ mem_cons_self
  have at_ : s.prio iter = p := ready.prio_eq inList
  refine ⟨by rwa [at_], fits, fun u q among fitting => ?_, fun before' after' split u among => ?_⟩
  · rw [at_, ready.prio_eq among]
    exact Nat.not_lt.mp fun below => search.done q below u among fitting
  · rw [at_, search.list] at split
    have nodup := ready.ok.nodup p
    rw [search.list] at nodup
    have once := nodup_append.mp nodup
    have same := (append_cons_inj_of_notMem
      (fun inside => once.2.2 iter inside iter mem_cons_self rfl)
      (nodup_cons.mp once.2.1).1).mp split
    exact search.passed u (same.1 ▸ among)

/-- The next task of the list. -/
theorem Searching.next (search : s.Searching rq cpu p bits before iter (b :: rest))
    (ready : s.ReadyOk rq) (unfit : ¬s.Fits cpu iter) :
    s.rq.taskList.next iter = b ∧ some b ≠ s.rq.curListItem p ∧
      s.Searching rq cpu p bits (before ++ [iter]) b rest := by
  have circle := ready.rep.circle p
  have item := ready.rep.item p
  have nodup := ready.ok.nodup p
  rw [search.list] at circle item nodup
  refine ⟨circle.next_of_cons, fun isHead => ?_, ?_, fun u among => ?_, search.done, search.bits,
    search.left⟩
  · rw [item] at isHead
    cases before with
    | nil =>
      cases isHead
      exact (nodup_cons.mp nodup).1 mem_cons_self
    | cons =>
      cases isHead
      exact (nodup_cons.mp nodup).1 (mem_append_right _ (mem_cons_of_mem _ mem_cons_self))
  · rw [search.list, append_assoc, singleton_append]
  · rcases mem_append.mp among with earlier | now
    · exact search.passed u earlier
    · rwa [mem_singleton.mp now]

/-- The list is done, and the search goes on with the next one that is not empty. -/
theorem Searching.wraps (search : s.Searching rq cpu p bits before iter []) (ready : s.ReadyOk rq)
    (unfit : ¬s.Fits cpu iter) :
    some (s.rq.taskList.next iter) = s.rq.curListItem p ∧
      ∃ nr head rest, krhinoFindFirstBit numWords (krhinoBitmapClear bits p) = some nr ∧
        p < nr ∧ nr % 2 ^ 8 = nr ∧ s.rq.curListItem nr = some head ∧
        s.Searching rq cpu nr (krhinoBitmapClear bits p) [] head rest := by
  have circle := ready.rep.circle p
  have item := ready.rep.item p
  have cleared : ∀ q, bitmapBit (krhinoBitmapClear bits p) q = true ↔ p < q ∧ rq.list q ≠ [] := by
    intro q
    rw [bitmapBit_clear, Bool.and_eq_true, search.bits, Bool.not_eq_true', decide_eq_false_iff_not]
    constructor
    · rintro ⟨⟨le, nonempty⟩, differ⟩
      exact ⟨by omega, nonempty⟩
    · rintro ⟨lt, nonempty⟩
      exact ⟨⟨lt.le, nonempty⟩, by omega⟩
  have passed q (le : q ≤ p) : ∀ u ∈ rq.list q, ¬s.Fits cpu u := by
    intro u among
    rcases Nat.lt_or_eq_of_le le with below | rfl
    · exact search.done q below u among
    rw [search.list] at among
    rcases mem_append.mp among with earlier | now
    · exact search.passed u earlier
    · rwa [mem_singleton.mp now]
  have some_set : ∃ nr, nr < 32 * numWords ∧
      bitmapBit (krhinoBitmapClear bits p) nr = true := by
    obtain ⟨u, q, among, fits⟩ := search.left
    have nonempty : rq.list q ≠ [] := ne_nil_of_mem among
    have above : p < q := Nat.not_le.mp fun le => passed q le u among fits
    exact ⟨q, (ready.ok.bound q nonempty).trans_le (by decide), (cleared q).mpr
      ⟨above, nonempty⟩⟩
  obtain ⟨nr, found, set, least⟩ := krhinoFindFirstBit_spec _ numWords some_set
  obtain ⟨above, nonempty⟩ := (cleared nr).mp set
  obtain ⟨head, rest, list⟩ := exists_cons_of_ne_nil nonempty
  have between q (later : p < q) (below : q < nr) : rq.list q = [] := by
    by_contra ready
    have clear := least q below
    rw [(cleared q).mpr ⟨later, ready⟩] at clear
    cases clear
  constructor
  · rw [search.list] at circle
    rw [item, search.list]
    exact circle.append_comm.next_head.symm
  · refine ⟨nr, head, rest, found, above, Nat.mod_eq_of_lt ?_, ?_, list, nofun,
      fun q below u among =>
      ?_, fun q => ?_, search.left⟩
    · exact (ready.ok.bound nr nonempty).trans_le (by decide)
    · rw [ready.rep.item nr, list, head?_cons]
    · rcases Nat.lt_or_ge p q with later | le
      · rw [between q later below] at among
        cases among
      · exact passed q le u among
    · rw [cleared q]
      exact ⟨fun ⟨lt, ready⟩ => ⟨Nat.not_lt.mp fun below => ready (between q lt below), ready⟩,
        fun ⟨le, ready⟩ => ⟨above.trans_le le, ready⟩⟩

/-- The search ends with the task that is preferred, from some number of rounds on. -/
theorem Searching.ends (search : s.Searching rq cpu p bits before iter after)
    (ready : s.ReadyOk rq) :
    ∃ t n, (∀ fuel ≥ n, s.preferredFrom cpu fuel iter p bits = some t) ∧
      s.Preferred rq cpu t := by
  -- by the priorities left, and in a list by the tasks left
  induction rounds : priMax - p using Nat.strong_induction_on generalizing p bits before iter after
    with
  | _ rounds lists =>
    induction after generalizing before iter with
    | nil =>
      by_cases fits : s.Fits cpu iter
      · refine ⟨iter, 1, fun | fuel + 1, _ => ?_, search.preferred ready fits⟩
        simp only [preferredFrom, if_pos fits]
      obtain ⟨wraps, nr, head, rest, found, above, byte, item, next⟩ := search.wraps ready fits
      have bound := ready.ok.bound nr (by rw [next.list]; exact cons_ne_nil _ _)
      obtain ⟨t, n, ends, preferred⟩ := lists (priMax - nr) (by omega) next rfl
      refine ⟨t, n + 1, fun | fuel + 1, enough => ?_, preferred⟩
      simp only [preferredFrom, if_neg fits, if_pos wraps, found, byte, item]
      exact ends fuel (Nat.le_of_succ_le_succ enough)
    | cons b rest tasks =>
      by_cases fits : s.Fits cpu iter
      · refine ⟨iter, 1, fun | fuel + 1, _ => ?_, search.preferred ready fits⟩
        simp only [preferredFrom, if_pos fits]
      obtain ⟨next, inside, search'⟩ := search.next ready fits
      obtain ⟨t, n, ends, preferred⟩ := tasks search'
      refine ⟨t, n + 1, fun | fuel + 1, enough => ?_, preferred⟩
      simp only [preferredFrom, if_neg fits, next, if_neg inside]
      exact ends fuel (Nat.le_of_succ_le_succ enough)

theorem IdleReady.fits (idle : s.IdleReady rq cpu) : ∃ u q, u ∈ rq.list q ∧ s.Fits cpu u := by
  obtain ⟨t, p, among, binded, num, active | free⟩ := idle
  · exact ⟨t, p, among, .inl active⟩
  · exact ⟨t, p, among, .inr (.inr ⟨free, binded, num⟩)⟩

/-- `preferred_cpu_ready_task_get` ends, and returns the first of the most urgent tasks that fit. -/
theorem preferredCpuReadyTaskGet_preferred {s : Smp} {rq : Runqueue} {cpus : Nat}
    (ready : s.ReadyOk rq) (idle : ∀ cpu, cpu < cpus → s.IdleReady rq cpu) {cpu : Nat}
    (is : cpu < cpus) :
    ∃ t n, (∀ fuel ≥ n, preferredCpuReadyTaskGet fuel s cpu = some t) ∧
      s.Preferred rq cpu t := by
  obtain ⟨head, rest, list⟩ := exists_cons_of_ne_nil ready.ok.highest
  have search : s.Searching rq cpu rq.highestPri s.rq.taskBitMap [] head rest := by
    refine ⟨list, nofun, fun q below u among => ?_, fun q => ?_, (idle cpu is).fits⟩
    · rw [ready.ok.least q below] at among
      cases among
    · rw [ready.rep.bits, ready.ok.bits]
      refine ⟨fun nonempty => ⟨Nat.not_lt.mp fun below => ?_, nonempty⟩, And.right⟩
      exact nonempty (ready.ok.least q below)
  obtain ⟨t, n, ends, preferred⟩ := search.ends ready
  refine ⟨t, n, fun fuel enough => ?_, preferred⟩
  unfold preferredCpuReadyTaskGet
  rw [ready.rep.item, ready.rep.highest, list, head?_cons]
  exact ends fuel enough

/-- The idle tasks 0 and 1 of two processors, and two tasks of priority 5 of which processor 0
executes the first. -/
def twoCpus : Smp where
  tasks
    | 0 => { prio := 61, taskList := .ready 61, cpuBinded := true, cpuNum := 0 }
    | 1 => { prio := 61, taskList := .ready 61, cpuBinded := true, cpuNum := 1, curExc := true }
    | 2 => { prio := 5, taskList := .ready 5, cpuNum := 0, curExc := true }
    | 3 => { prio := 5, taskList := .ready 5 }
    | _ => {}
  rq :=
    { curListItem := fun p => if p = 5 then some 2 else if p = 61 then some 0 else none
      taskList :=
        let other := fun t => match t with | 0 => 1 | 1 => 0 | 2 => 3 | 3 => 2 | t => t
        ⟨other, other⟩
      taskBitMap := krhinoBitmapSet (krhinoBitmapSet (fun _ => 0) 61) 5
      highestPri := 5 }
  activeTask cpu := if cpu = 0 then 2 else 1
  running := true

def twoCpusLists : Runqueue where
  list p := if p = 5 then [2, 3] else if p = 61 then [0, 1] else []
  taskBitMap := krhinoBitmapSet (krhinoBitmapSet (fun _ => 0) 61) 5
  highestPri := 5

theorem twoCpus_ready : twoCpus.ReadyOk twoCpusLists := by
  have list : ∀ p, (p = 5 ∧ twoCpusLists.list p = [2, 3]) ∨
      (p = 61 ∧ twoCpusLists.list p = [0, 1]) ∨
      (p ≠ 5 ∧ p ≠ 61 ∧ twoCpusLists.list p = []) := by
    intro p
    by_cases five : p = 5
    · exact .inl ⟨five, if_pos five⟩
    · by_cases last : p = 61
      · exact .inr (.inl ⟨last, by simp only [twoCpusLists, if_neg five, if_pos last]⟩)
      · exact .inr (.inr ⟨five, last, by simp only [twoCpusLists, if_neg five, if_neg last]⟩)
  constructor
  · refine ⟨fun p => ?_, fun p => ?_, rfl, rfl⟩
    · rcases list p with ⟨rfl, eq⟩ | ⟨rfl, eq⟩ | ⟨five, last, eq⟩
      · rfl
      · rfl
      · rw [eq]
        simp only [twoCpus, if_neg five, if_neg last, head?_nil]
    · rcases list p with ⟨rfl, eq⟩ | ⟨rfl, eq⟩ | ⟨-, -, eq⟩ <;> rw [eq]
      · exact .cons_cons ⟨rfl, rfl⟩ (.cons_cons ⟨rfl, rfl⟩ (.singleton _))
      · exact .cons_cons ⟨rfl, rfl⟩ (.cons_cons ⟨rfl, rfl⟩ (.singleton _))
      · trivial
  · refine ⟨fun t p => ?_, fun p => ?_, fun t p => ?_, fun p => ?_, fun p => ?_, by decide,
      fun p below => ?_⟩
    · rcases t with _ | _ | _ | _ | t <;>
        rcases list p with ⟨rfl, eq⟩ | ⟨rfl, eq⟩ | ⟨five, last, eq⟩ <;>
        rw [eq] <;> simp [twoCpus] <;> omega
    · rcases list p with ⟨rfl, eq⟩ | ⟨rfl, eq⟩ | ⟨-, -, eq⟩ <;> rw [eq] <;> decide
    · rcases t with _ | _ | _ | _ | t <;> simp [twoCpus]
    · rcases list p with ⟨rfl, -⟩ | ⟨rfl, -⟩ | ⟨-, -, eq⟩
      · exact fun _ => by decide
      · exact fun _ => by decide
      · exact fun nonempty => absurd eq nonempty
    · rcases list p with ⟨rfl, eq⟩ | ⟨rfl, eq⟩ | ⟨five, last, eq⟩
      · decide
      · decide
      · simp only [twoCpusLists, bitmapBit_set, five, last, decide_false, Bool.false_or]
        simp [bitmapBit]
    · have below : p < 5 := below
      simp only [twoCpusLists, if_neg (Nat.ne_of_lt below), if_neg (show p ≠ 61 by omega)]

theorem preferredCpuReadyTaskGet_preferred_twoCpus :
    preferredCpuReadyTaskGet 10 twoCpus 1 = some 3 ∧
      ∃ t n, (∀ fuel ≥ n, preferredCpuReadyTaskGet fuel twoCpus 1 = some t) ∧
        twoCpus.Preferred twoCpusLists 1 t := by
  refine ⟨by decide +kernel, preferredCpuReadyTaskGet_preferred twoCpus_ready
    (fun cpu is => ?_) (show 1 < 2 by decide)⟩
  rcases cpu with _ | _ | cpu
  · exact ⟨0, 61, by decide, rfl, rfl, .inr rfl⟩
  · exact ⟨1, 61, by decide, rfl, rfl, .inl rfl⟩
  · omega

end Smp

/-! ## Signals to other processors -/

namespace Smp

/-- The processor runs a task of the lowest priority among those that run. -/
def Lowest (s : Smp) (cpus c : Nat) : Prop :=
  c < cpus ∧ ∀ d, d < cpus → s.activePrio d ≤ s.activePrio c

/-- The signal sent by `cur` for the task `t`, which is ready now, reaches who has to know. -/
structure WakesRight (s : Smp) (cpus cur : Nat) (t : TaskId) (signal : Option Nat) : Prop where
  unbound : (s.tasks t).cpuBinded = false → ∀ c, s.Lowest cpus c → c ≠ cur →
    s.prio t ≤ s.activePrio c → signal = some c
  bound : (s.tasks t).cpuBinded = true → ∀ c : Nat, (s.tasks t).cpuNum = c → c < cpus → c ≠ cur →
    s.prio t ≤ s.activePrio c → signal = some c
  /-- No other processor that runs the least urgent task goes on with it unaware. -/
  noneKept : ∀ c, s.Lowest cpus c → c ≠ cur →
    ((s.tasks t).cpuBinded = false ∨ (s.tasks t).cpuNum = c) → s.prio t < s.activePrio c →
    signal = some c

/-- The system runs, and a processor that has to know of a task that is not bound is the last one,
and the current one runs a more urgent task than it. -/
structure LastHasToKnow (s : Smp) (cpus cur : Nat) (t : TaskId) : Prop where
  unbound : (s.tasks t).cpuBinded = false → ∀ c, s.Lowest cpus c → c ≠ cur →
    s.prio t ≤ s.activePrio c →
    s.running = true ∧ c = (cpus - 1) % 2 ^ 8 ∧ ¬(s.Lowest cpus cur ∧ cur < c)
  bound : (s.tasks t).cpuBinded = true → ∀ c : Nat, (s.tasks t).cpuNum = c → c < cpus → c ≠ cur →
    s.prio t ≤ s.activePrio c → s.running = true

/-! ### The search for the lowest priority -/

/-- The loop has seen the processors up to `n`: `cpu` is the first with the lowest priority. -/
structure LowPri.Seen (s : Smp) (n : Nat) (v : LowPri) : Prop where
  index : v.i = n
  cpu : v.cpu ≤ n
  pri : v.pri = s.activePrio v.cpu
  lowest : ∀ d, d ≤ n → s.activePrio d ≤ v.pri
  first : ∀ d, d < v.cpu → s.activePrio d < v.pri

variable {s : Smp} {n cpus cur : Nat} {v : LowPri} {t : TaskId} {signal : Option Nat}

theorem LowPri.Seen.step (seen : v.Seen s n) : (s.lowPriStep v).Seen s (n + 1) := by
  have next : v.i + 1 = n + 1 := congrArg (· + 1) seen.index
  unfold lowPriStep
  rw [next]
  split
  · next higher =>
    refine ⟨rfl, le_rfl, rfl, fun d le => ?_, fun d below => ?_⟩
    · rcases Nat.lt_or_eq_of_le le with below | rfl
      · exact Nat.le_of_lt ((seen.lowest d (Nat.le_of_lt_succ below)).trans_lt higher)
      · exact le_rfl
    · exact (seen.lowest d (Nat.le_of_lt_succ below)).trans_lt higher
  · next notHigher =>
    refine ⟨rfl, Nat.le_succ_of_le seen.cpu, seen.pri, fun d le => ?_, seen.first⟩
    rcases Nat.lt_or_eq_of_le le with below | rfl
    · exact seen.lowest d (Nat.le_of_lt_succ below)
    · exact Nat.not_lt.mp notHigher

/-- The loop over the cores finds the lowest priority. -/
theorem lowPri_seen (s : Smp) (cpus : Nat) : (s.lowPri cpus).Seen s (cpus - 1) := by
  unfold lowPri
  induction cpus - 1 with
  | zero =>
    refine ⟨rfl, Nat.le_refl 0, rfl, fun d le => ?_,
      fun d below => absurd below (Nat.not_lt_zero d)⟩
    rw [Nat.le_zero.mp le]
    exact le_rfl
  | succ n ih =>
    rw [Function.iterate_succ_apply']
    exact ih.step

theorem lowest_iff (some : 0 < cpus) (c : Nat) :
    s.Lowest cpus c ↔ c < cpus ∧ s.activePrio c = (s.lowPri cpus).pri := by
  have seen := lowPri_seen s cpus
  refine and_congr_right fun is => ⟨fun lowest => ?_, fun eq d isCpu => ?_⟩
  · refine Nat.le_antisymm (seen.lowest c (by omega)) ?_
    rw [seen.pri]
    exact lowest _ (by have := seen.cpu; omega)
  · rw [eq]
    exact seen.lowest d (by omega)

/-- What is sent for a task that is not bound. -/
theorem taskSchedToCpu_unbound (unbound : (s.tasks t).cpuBinded = false) (cpus cur c : Nat) :
    s.taskSchedToCpu cpus t cur = some c ↔ s.running = true ∧ s.prio t ≤ (s.lowPri cpus).pri ∧
      (s.lowPri cpus).cpu ≠ cur ∧ c = (cpus - 1) % 2 ^ 8 := by
  have index := (lowPri_seen s cpus).index
  unfold taskSchedToCpu
  simp only [unbound, Bool.false_eq_true, if_false, index, Option.ite_none_right_eq_some,
    Option.some.injEq, and_assoc, prio, @eq_comm _ c]

/-- A bound task is sent to its core. -/
theorem taskSchedToCpu_bound (bound : (s.tasks t).cpuBinded = true) (cpus cur c : Nat) :
    s.taskSchedToCpu cpus t cur = some c ↔ s.running = true ∧ (s.tasks t).cpuNum = c ∧ c ≠ cur ∧
      s.prio t ≤ s.activePrio c := by
  unfold taskSchedToCpu
  simp only [bound, if_true, Option.ite_none_right_eq_some, Option.some.injEq]
  constructor
  · rintro ⟨running, both, rfl⟩
    exact ⟨running, rfl, both⟩
  · rintro ⟨running, rfl, both⟩
    exact ⟨running, both, rfl⟩

theorem WakesRight.of_two (unbound : (s.tasks t).cpuBinded = false → ∀ c, s.Lowest cpus c →
      c ≠ cur → s.prio t ≤ s.activePrio c → signal = some c)
    (bound : (s.tasks t).cpuBinded = true → ∀ c : Nat, (s.tasks t).cpuNum = c → c < cpus → c ≠ cur →
      s.prio t ≤ s.activePrio c → signal = some c) : s.WakesRight cpus cur t signal := by
  refine ⟨unbound, bound, fun c lowest other eligible urgent => ?_⟩
  cases binds : (s.tasks t).cpuBinded with
  | false => exact unbound binds c lowest other (urgent.le)
  | true =>
    have is := eligible.resolve_left (by rw [binds]; exact Bool.noConfusion)
    exact bound binds c is lowest.1 other (urgent.le)

/-- Adding `t` to the run queue sends the right signal exactly if the last processor is the one to
be sent it. -/
theorem readyListAdded_wakes_iff (s : Smp) {cpus : Nat} (cur : Fin cpus) (t : TaskId)
    (rq : SmpRunqueue) :
    s.WakesRight cpus cur t (s.readyListAdded cpus cur t rq).1 ↔ s.LastHasToKnow cpus cur t := by
  have positive : 0 < cpus := (Nat.zero_le cur).trans_lt cur.isLt
  have seen := lowPri_seen s cpus
  have same : (s.readyListAdded cpus cur t rq).1 =
      if cpus > 1 then s.taskSchedToCpu cpus t cur else none := rfl
  have several {c : Nat} (is : c < cpus) (other : c ≠ cur) : cpus > 1 := by
    have := cur.isLt
    omega
  have first {c : Nat} (lowPri : s.activePrio c = (s.lowPri cpus).pri) :
      (s.lowPri cpus).cpu ≤ c :=
    Nat.not_lt.mp fun above => Nat.lt_irrefl _ (lowPri ▸ seen.first c above)
  rw [same]
  constructor
  · intro wakes
    refine ⟨fun unbound c lowest other urgent => ?_, fun bound c num is other urgent => ?_⟩
    · have signals := wakes.unbound unbound
      simp only [if_pos (several lowest.1 other)] at signals
      obtain ⟨running, -, notCur, last⟩ :=
        (taskSchedToCpu_unbound unbound cpus cur c).mp (signals c lowest other urgent)
      refine ⟨running, last, fun ⟨curLowest, before⟩ => ?_⟩
      -- the first processor with the lowest priority would be before the current one
      have firstBefore : (s.lowPri cpus).cpu < cur :=
        Nat.lt_of_le_of_ne (first ((lowest_iff positive cur).mp curLowest).2) notCur
      have firstLowest : s.Lowest cpus (s.lowPri cpus).cpu :=
        (lowest_iff positive _).mpr ⟨by have := cur.isLt; omega, seen.pri.symm⟩
      have urgent' : s.prio t ≤ s.activePrio (s.lowPri cpus).cpu := by
        rw [← seen.pri, ← ((lowest_iff positive c).mp lowest).2]
        exact urgent
      have two := (signals _ firstLowest notCur urgent').symm.trans (signals c lowest other urgent)
      have := Option.some.inj two
      omega
    · have signals := wakes.bound bound c num is other urgent
      rw [if_pos (several is other)] at signals
      exact ((taskSchedToCpu_bound bound cpus cur c).mp signals).1
  · intro last
    refine .of_two (fun unbound c lowest other urgent => ?_) fun bound c num is other urgent => ?_
    · obtain ⟨running, isLast, notBoth⟩ := last.unbound unbound c lowest other urgent
      have lowPri := ((lowest_iff positive c).mp lowest).2
      rw [if_pos (several lowest.1 other)]
      refine (taskSchedToCpu_unbound unbound cpus cur c).mpr
        ⟨running, by rwa [← lowPri], ?_, isLast⟩
      intro isCur
      refine notBoth ⟨(lowest_iff positive cur).mpr ⟨cur.isLt, by rw [seen.pri, isCur]⟩, ?_⟩
      exact Nat.lt_of_le_of_ne (isCur ▸ first lowPri) other.symm
    · rw [if_pos (several is other)]
      exact (taskSchedToCpu_bound bound cpus cur c).mpr
        ⟨last.bound bound c num is other urgent, num, other, urgent⟩

/-- Making a task ready sends the right signal exactly if the last processor is the one to be sent
it. -/
theorem readyListAdd_wakes_iff (s : Smp) {cpus : Nat} (cur : Fin cpus) (t : TaskId) :
    (s.WakesRight cpus cur t (s.readyListAddHead cpus cur t).1 ∧
      s.WakesRight cpus cur t (s.readyListAddTail cpus cur t).1 ∧
      s.WakesRight cpus cur t (s.readyListAdd cpus cur t).1) ↔ s.LastHasToKnow cpus cur t := by
  have head := s.readyListAdded_wakes_iff cur t (s.rq.addHead t (s.prio t))
  have tail := s.readyListAdded_wakes_iff cur t (s.rq.addTail t (s.prio t))
  refine ⟨fun wakes => head.mp wakes.1, fun last => ⟨head.mpr last, tail.mpr last, ?_⟩⟩
  unfold readyListAdd
  split
  · exact tail.mpr last
  · exact head.mpr last

/-- Processors that run the tasks 0, 1 and so on, of the given priorities, and a further task of
priority 5 that is not bound. -/
def wakeUp (prios : List Nat) : Smp where
  tasks t := if t < prios.length then { prio := prios.getD t 0, curExc := true } else { prio := 5 }
  rq := {}
  activeTask cpu := cpu
  running := true

theorem readyListAdd_wakes_iff_lastLowest :
    (wakeUp [10, 60]).WakesRight 2 0 2 ((wakeUp [10, 60]).readyListAddHead 2 0 2).1 := by
  refine ((readyListAdd_wakes_iff (wakeUp [10, 60]) (0 : Fin 2) 2).mpr ⟨?_, nofun⟩).1
  intro _ c lowest other _
  obtain rfl : c = 1 := by have := lowest.1; have : c ≠ 0 := other; omega
  refine ⟨rfl, rfl, fun both => ?_⟩
  exact absurd (both.1.2 1 (by decide)) (by decide)

/-- Processor 1 runs the least urgent task, and processor 2 is signalled. -/
theorem not_readyListAdd_wakes :
    ((wakeUp [10, 60, 20]).readyListAddHead 3 0 3).1 = some 2 ∧
      ¬(wakeUp [10, 60, 20]).WakesRight 3 0 3 ((wakeUp [10, 60, 20]).readyListAddHead 3 0 3).1 := by
  refine ⟨by decide, fun wakes => ?_⟩
  have lowest : (wakeUp [10, 60, 20]).Lowest 3 1 := ⟨by decide, by decide⟩
  exact absurd (wakes.unbound rfl 1 lowest (by decide) (by decide)) (by decide)

end Smp

end AliosThings.Rhino
