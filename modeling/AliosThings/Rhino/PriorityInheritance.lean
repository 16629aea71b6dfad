import AliosThings.Rhino.Served

/-!
# Priority inheritance and the running task

In every run in which no task is deleted a second time while its record still has a list of
mutexes, every task has at all times the least of its base priority and the priorities of the tasks
that wait for a mutex it owns, and the most urgent ready task runs. Without that condition the
kernel loses both: the second `krhino_task_del` follows the list of the deleted task, takes a mutex
from its present owner and leaves the owner at the priority it had inherited.
-/

namespace AliosThings.Rhino

open Lib List KState

/-! ## Tasks come into being by creation only -/

variable {c : KCall}

/-- A call brings no task into being but the one it creates. -/
theorem exec_live {s : KState} (inv : KInv s) (may : c.Allowed s) :
    (c.exec s).2.live ⊆ s.live ∪ {t | t ∈ c.createdTask} := by
  intro t live
  by_contra neither
  obtain ⟨dead, notMade⟩ := not_or.mp neither
  have step : CallStep Set.univ Set.univ (c.stores s) s c (c.exec s) :=
    exec_callStep inv may (fun _ _ => trivial) (fun _ _ => trivial) (.inl fun _ => trivial)
  have absent : (s.view.task t).phase = .absent := by
    refine phase_absent ?_
    by_contra alive
    exact dead (not_or.mp alive)
  exact phase_of_live live (step.of_absent absent notMade)

/-- After a sequence of calls only the idle task and the tasks created by them can exist. -/
theorem run_live {labels : List KCall} {s : KState} (inv : KInv s) (may : kernel.Runs s labels) :
    (kernel.run s labels).live ⊆ s.live ∪ {t | t ∈ labels.filterMap KCall.createdTask} := by
  induction labels generalizing s with
  | nil => exact Set.subset_union_left
  | cons c _ ih =>
    refine (ih (exec_inv inv may.1.2) may.2).trans ?_
    rintro u (live | created)
    · rcases exec_live inv may.1.2 live with before | now
      · exact .inl before
      · exact .inr (mem_filterMap.mpr ⟨c, mem_cons_self, now⟩)
    · refine .inr ?_
      obtain ⟨d, inList, here⟩ := mem_filterMap.mp created
      exact mem_filterMap.mpr ⟨d, mem_cons_of_mem c inList, here⟩

/-! ## Whole runs -/

variable {s : KState}

/-- After the start nobody owns a mutex. -/
theorem initial_inBalance (mem : Mem) : InBalance (.initial mem) := by
  have noMutex m : ((initial mem).blk m).objType ≠ .mutex := by
    rcases eq_or_ne m gResSem with rfl | other <;> simp [initial, *]
  have notOwns : ∀ t m, ¬ Owns ∅ (.initial mem) t m := fun t m owns => noMutex m owns.1
  have idle t (live : t ∈ (initial mem).live) : t = idleTask := by
    by_contra other
    exact absurd (show Ktask.Live _ from live) (by simp [initial, other, Ktask.Live])
  have noList t : ((initial mem).tasks t).mutexList = none := by
    rcases eq_or_ne t idleTask with rfl | other <;> simp [initial, idleKtask, *]
  refine ⟨⟨⟨fun t m owns => absurd owns (notOwns t m), fun _ live => live, fun t live => ?_,
    fun m type => absurd type (noMutex m), fun m type => absurd type (noMutex m),
    fun m _ type => absurd type (noMutex m), rfl⟩, fun t _ => ?_, fun t _ => noList t⟩,
    fun t live => ?_⟩
  · rw [idle t live]
    decide
  · refine ⟨[], noList t, nodup_nil, fun m => iff_of_false not_mem_nil (notOwns t m)⟩
  · obtain rfl := idle t live
    refine .mk ?_ (fun w waits => absurd waits.choose_spec.1 (notOwns _ _)) (.inl ?_) <;>
      simp [initial, idleKtask]

/-- Every call of a run without stale deletions keeps the balance. -/
theorem exec_inBalance (inv : KInv s) (bal : InBalance s) (may : c.Allowed s)
    (fresh : c.NoStaleDelete s) : InBalance (c.exec s).2 := by
  have notIdle := may.idleRuns
  cases c with
  | taskCreate t prio ticks stackSize autorun flag =>
    obtain ⟨addr, dead⟩ := may.freshTask t rfl
    exact taskCreate_inBalance inv bal dead addr prio ticks stackSize autorun flag
  | taskPriChange t pri => exact krhinoTaskPriChange_inBalance inv bal t pri
  | taskWaitAbort t => exact krhinoTaskWaitAbort_inBalance inv bal t
  | taskDel => exact krhinoTaskDel_inBalance inv bal fresh
  | taskDynDel t => exact krhinoTaskDynDel_inBalance inv bal t
  | schedDisable => exact (krhinoSchedDisable_sameOwnership s).inBalance bal
  | schedEnable => exact (krhinoSchedEnable_sameOwnership s).inBalance bal
  | intrptEnter =>
    have same : SameOwnership s (krhinoIntrptEnter s).2 := .congr rfl
    exact same.inBalance bal
  | intrptExit => exact (krhinoIntrptExit_sameOwnership inv (may.exitNested rfl)).inBalance bal
  | tickProc => exact krhinoTickProc_inBalance inv.core bal
  | tickUpdate ticks => exact tickListUpdate_inBalance inv.core bal ticks
  | mutexCreate m flag =>
    obtain ⟨addr, none⟩ := may.freshObj m rfl
    exact mutexCreate_inBalance bal none addr flag
  | mutexDel m | mutexDynDel m => exact mutexDel_inBalance inv bal _ m
  | mutexLock m ticks => exact krhinoMutexLock_inBalance inv bal m ticks (notIdle trivial)
  | mutexUnlock m => exact krhinoMutexUnlock_inBalance inv bal m
  | _ => exact (exec_ordinary inv may rfl).quiet.inBalance bal

/-- The balance holds in every run. -/
theorem reach_inBalance (reach : (kernel.restrict KCall.NoStaleDelete).Reach s) :
    KInv s ∧ InBalance s := by
  refine reach.invariant (P := fun s => KInv s ∧ InBalance s) ?_ ?_
  · rintro s ⟨mem, rfl⟩
    exact ⟨initial_inv mem, initial_inBalance mem⟩
  · rintro s c ⟨inv, bal⟩ ⟨may, fresh⟩
    exact ⟨exec_inv inv may.2, exec_inBalance inv bal may.2 fresh⟩

/-! ## The property -/

/-- `w` is blocked on a mutex that `t` owns. -/
def BlockedBy (s : KState) (w t : TaskId) : Prop :=
  ∃ m, (s.blk m).objType = .mutex ∧ (s.mutexes m).mutexTask = some t ∧ w ∈ (s.blk m).blkList

/-- Every task that exists has the least of its base priority and the priorities of the tasks that
are blocked on the mutexes it owns. -/
def PriorityInherited (s : KState) : Prop :=
  ∀ t, (s.tasks t).Live →
    IsLeast (insert (s.tasks t).bPrio {p | ∃ w, BlockedBy s w t ∧ (s.tasks w).prio = p})
      (s.tasks t).prio

theorem blockedBy_iff (s : KState) (w t : TaskId) : BlockedBy s w t ↔ WaitsFor ∅ s w t := by
  unfold BlockedBy WaitsFor Owns
  simp [and_assoc]

/-- In every run without stale deletions priorities are inherited, along chains of owners that are
blocked themselves too, and no walk along such a chain fails to end. -/
theorem priority_inheritance {s : KState} (reach : (kernel.restrict KCall.NoStaleDelete).Reach s) :
    PriorityInherited s ∧
      (∀ w t, Relation.TransGen (BlockedBy s) w t → (s.tasks t).prio ≤ (s.tasks w).prio) ∧
      s.hung = false := by
  obtain ⟨-, bal⟩ := reach_inBalance reach
  have inherited : PriorityInherited s := fun t live => by
    simp only [blockedBy_iff]
    exact bal.prios t live
  refine ⟨inherited, fun w t chain => ?_, bal.own.hung⟩
  have direct : ∀ w t, BlockedBy s w t → (s.tasks t).prio ≤ (s.tasks w).prio := by
    intro w t blocked
    have waits := (blockedBy_iff s w t).mp blocked
    obtain ⟨m, owns, -⟩ := id waits
    exact (bal.prios t (bal.own.owner t m owns)).le_waiter waits
  induction chain with
  | single blocked => exact direct _ _ blocked
  | tail _ blocked ih => exact (direct _ _ blocked).trans ih

/-- Task 1 owns mutex 5, task 2 owns mutex 6 and waits for 5, task 3 waits for 6. -/
def chainOfOwners : List KCall :=
  [.mutexCreate 5 .staticAlloc, .mutexCreate 6 .staticAlloc,
    .taskCreate 1 20 0 1 true .staticAlloc, .mutexLock 5 100,
    .taskCreate 2 15 0 1 true .staticAlloc, .mutexLock 6 100, .mutexLock 5 100,
    .taskCreate 3 10 0 1 true .staticAlloc, .mutexLock 6 100]

theorem priority_inheritance_chainOfOwners :
    ((kernel.run (.initial fun _ => 0) chainOfOwners).tasks 1).prio = 10 ∧
      PriorityInherited (kernel.run (.initial fun _ => 0) chainOfOwners) :=
  have start : (kernel.restrict KCall.NoStaleDelete).Reach (.initial fun _ => 0) := .init ⟨_, rfl⟩
  ⟨by decide +kernel, (priority_inheritance (start.run (by decide +kernel))).1⟩

/-- Task 1 is deleted while it owns mutex 5, which task 2 then locks. Task 3 waits for it, and
task 2, which inherits the priority of task 3, deletes task 1 once more. -/
def deletedTwice : List KCall :=
  [.mutexCreate 5 .staticAlloc, .taskCreate 1 20 0 1 true .staticAlloc, .mutexLock 5 100,
    .taskDel none, .taskCreate 2 15 0 1 true .staticAlloc, .mutexLock 5 100,
    .taskCreate 3 10 0 1 true .staticAlloc, .mutexLock 5 100, .taskDel (some 1)]

/-- Task 2 owns no mutex any more, but keeps the priority of task 3. -/
theorem not_priorityInherited_deletedTwice :
    kernel.Reach (kernel.run (.initial fun _ => 0) deletedTwice) ∧
      ¬ PriorityInherited (kernel.run (.initial fun _ => 0) deletedTwice) := by
  have may : kernel.Runs (.initial fun _ => 0) deletedTwice := by decide +kernel
  have reach := (reach_initial fun _ => 0).run may
  have h := (reach_inv reach).core
  refine ⟨reach, fun inherited => ?_⟩
  rcases (inherited 2 (by decide +kernel)).1 with base | ⟨w, ⟨m, -, -, there⟩, -⟩
  · revert base
    decide +kernel
  -- whoever is blocked exists, and none of the tasks that exist is blocked
  have linked := (h.blk.mem w m).mp there
  have waiting := ((h.task w).of_blk linked).1
  have live := h.live_of_blk linked
  have known : w = idleTask ∨ w ∈ deletedTwice.filterMap KCall.createdTask := by
    refine (run_live (initial_inv _) may live).imp (fun initially => ?_) id
    by_contra other
    exact absurd (show Ktask.Live _ from initially) (by simp [initial, other, Ktask.Live])
  have none : ∀ w ∈ idleTask :: deletedTwice.filterMap KCall.createdTask,
      ((kernel.run (.initial fun _ => 0) deletedTwice).tasks w).taskState ≠ .pend ∧
      ((kernel.run (.initial fun _ => 0) deletedTwice).tasks w).taskState ≠ .pendSuspended := by
    decide +kernel
  have free := none w (mem_cons.mpr known)
  exact waiting.elim free.1 free.2

/-! ## The running task

Most calls that move a task end in `core_sched`; those that return without it rely on the inherited
priorities: an owner that gives back a mutex nobody waits for has the priority due to it without
the mutex already, so its place in the run queue stays. -/

/-- The head of the highest ready list runs, unless an interrupt or the lock defers the switch. -/
def SchedOk (s : KState) : Prop :=
  s.intrptNested = 0 → s.schedLock = 0 →
    (s.readyQueue.list s.readyQueue.highestPri).head? = some s.active

variable {r : KState} {t : TaskId} {m : ObjId}

theorem coreSched_schedOk (h : Core s) : SchedOk (coreSched s) := by
  intro nested lock
  obtain ⟨a, c, eq⟩ := coreSched_quiet s
  rw [eq] at nested lock
  obtain ⟨t, head, -, chosen⟩ := coreSched_eq h nested lock
  rw [chosen]
  exact head

theorem SchedOk.congr (ok : SchedOk s) (queue : r.readyQueue = s.readyQueue)
    (active : r.active = s.active) (lock : r.schedLock = s.schedLock)
    (nested : r.intrptNested = s.intrptNested) : SchedOk r := by
  unfold SchedOk
  rw [queue, active, lock, nested]
  exact ok

/-- The scheduler has been called. -/
theorem Ends.schedOk (ends : Ends s r) (ok : SchedOk s) : SchedOk r := by
  cases ends with
  | still done queue => exact ok.congr queue done.active done.schedLock done.intrptNested
  | resched done => exact coreSched_schedOk done.core

theorem krhinoSchedDisable_schedOk (ok : SchedOk s) : SchedOk (krhinoSchedDisable s).2 := by
  refine intrptNestedLevelChk_cases ok fun _ => ?_
  split
  · exact ok
  · exact fun _ lock => absurd lock (Nat.succ_ne_zero s.schedLock)

theorem krhinoSchedEnable_schedOk (inv : KInv s) (ok : SchedOk s) :
    SchedOk (krhinoSchedEnable s).2 := by
  refine intrptNestedLevelChk_cases ok fun _ => ?_
  split
  · exact ok
  simp only
  split
  · next locked => exact fun _ lock => absurd lock (Nat.pos_iff_ne_zero.mp locked)
  · exact coreSched_schedOk (inv.core.congr rfl)

/-- A priority change that is refused has met a control block without a task. -/
theorem krhinoTaskPriChange_schedOk (inv : KInv s) (bal : InBalance s) (ok : SchedOk s)
    (t : TaskId) (pri : Nat) : SchedOk (krhinoTaskPriChange s t pri).2 := by
  have does := krhinoTaskPriChange_does inv.core t pri
  generalize (krhinoTaskPriChange s t pri).2 = r at does ⊢
  cases does with
  | refuses => exact ok
  | hangs => exact ok.congr rfl rfl rfl rfl
  | walks _ may => exact (Ends.resched (may.done inv) fun stopped => stopped.elim).schedOk ok
  | fails limit may failed =>
    by_cases live : (s.tasks t).Live
    · obtain ⟨q, limited, due⟩ := mutexPriLimit_due inv.core bal.own live pri
      obtain rfl : q = limit := Option.some.inj (limited.symm.trans may.limited)
      exact absurd (taskPriChange_inBalance (may.based inv.core).core bal.own bal.prios live
        may.notIdle may.bounded due).1 failed
    · have done := may.done inv
      refine ok.congr ?_ done.active done.schedLock done.intrptNested
      rw [taskPriChange_seed (not_live_seed live may.alive)]
      rfl

/-- A deletion that is refused has met a control block without a task. -/
theorem krhinoTaskDel_schedOk (inv : KInv s) (bal : InBalance s) (ok : SchedOk s)
    {task : Option TaskId} (fresh : (KCall.taskDel task).NoStaleDelete s) :
    SchedOk (krhinoTaskDel s task).2 := by
  rcases krhinoTaskDel_cases inv task with ends | ⟨done, eq, dead⟩
  · exact ends.schedOk ok
  rcases fresh with live | none
  · have notIdle : task.getD s.active ≠ idleTask := by
      intro same
      rw [same] at dead
      exact dead (by simp [Ktask.Live, done.core.idleReady])
    have same := (taskDel_inBalance inv.core bal notIdle (.inl live)).2
    rw [eq, same] at dead
    exact absurd live dead
  · refine ok.congr ?_ done.active done.schedLock done.intrptNested
    rw [eq]
    unfold taskMutexFree taskMutexFreeLoop
    rw [none]

/-- An owner that nobody waits for has the priority due to it without the mutex. -/
theorem mutexRelease_readyQueue (h : Core s) (bal : InBalance s) (type : (s.blk m).objType = .mutex)
    (held : (s.mutexes m).mutexTask = some t) (empty : (s.blk m).blkList = []) :
    (mutexRelease s t (some m)).readyQueue = s.readyQueue := by
  have same : s.modBlk m id = s := by simp [KState.modBlk]
  have owns : Owns ∅ s t m := ⟨type, held, Set.notMem_empty m⟩
  have look := mutexPriLook_giveBack (same.symm ▸ h) bal owns rfl rfl
    (.inr ⟨rfl, type⟩)
  rw [same] at look
  obtain ⟨-, unsettled, l, moved⟩ := look
  have due : Due s.prios s.bases (WaitsFor {m} s) t
      (s.tasks t).prio := by
    refine (bal.prios t (bal.own.owner t m owns)).congr rfl (fun w => ?_) fun _ _ => rfl
    constructor
    · rintro ⟨a, held, there⟩
      exact ⟨a, ⟨held.1, held.2.1, Set.notMem_empty a⟩, there⟩
    · rintro ⟨a, held, there⟩
      refine ⟨a, ⟨held.1, held.2.1, ?_⟩, there⟩
      rintro rfl
      simp [empty] at there
  unfold mutexRelease
  simp only
  rw [if_neg, moved.rest]
  rw [moved.prio, unsettled.due.unique due]
  exact fun differ => differ rfl

theorem krhinoMutexUnlock_schedOk (inv : KInv s) (bal : InBalance s) (ok : SchedOk s) (m : ObjId) :
    SchedOk (krhinoMutexUnlock s m).2 := by
  rcases krhinoMutexUnlock_cases inv m with ends | ⟨done, type, held, empty, eq⟩
  · exact ends.schedOk ok
  refine ok.congr ?_ done.active done.schedLock done.intrptNested
  rw [eq]
  have counted : InBalance (s.modMutex m fun k => { k with ownerNested := 0 }) :=
    ownerNested_balanced bal 0
  exact mutexRelease_readyQueue (inv.core.modMutex m rfl) counted type
    (by simpa [KState.modMutex] using held) empty

/-- An interrupt handler does not switch. -/
theorem Done.schedOk {X : Set TaskId} (done : Done X s r) (nested : 0 < s.intrptNested) :
    SchedOk r := fun zero => by
  have := done.intrptNested
  omega

/-- After every call the running task is the first one. -/
theorem exec_schedOk {c : KCall} (inv : KInv s) (bal : InBalance s) (ok : SchedOk s)
    (may : c.Allowed s) (fresh : c.NoStaleDelete s) : SchedOk (c.exec s).2 := by
  cases c with
  | taskCreate t prio ticks stackSize autorun flag =>
    exact (taskCreate_ends inv (may.freshTask t rfl).2 prio ticks stackSize autorun flag).schedOk ok
  | taskPriChange t pri => exact krhinoTaskPriChange_schedOk inv bal ok t pri
  | taskWaitAbort t => exact (krhinoTaskWaitAbort_ends inv t).schedOk ok
  | taskDel => exact krhinoTaskDel_schedOk inv bal ok fresh
  | taskDynDel t => exact (krhinoTaskDynDel_ends inv t).schedOk ok
  | schedDisable => exact krhinoSchedDisable_schedOk ok
  | schedEnable => exact krhinoSchedEnable_schedOk inv ok
  | intrptEnter =>
    have room := may.enterNested rfl
    intro nested
    have level : (s.intrptNested + 1) % 2 ^ 8 = 0 := nested
    omega
  | intrptExit =>
    show SchedOk (krhinoIntrptExit s)
    exact coreSched_schedOk (inv.core.congr rfl)
  | tickProc =>
    exact ((krhinoTickProc_kept inv.core).done inv).schedOk (may.tickByIntrpt rfl)
  | tickUpdate ticks =>
    exact ((tickListUpdate_kept inv.core ticks).done inv).schedOk (may.tickByIntrpt rfl)
  | mutexCreate m flag => exact (mutexCreate_ends inv (may.freshObj m rfl).2 flag).schedOk ok
  | mutexDel m | mutexDynDel m => exact (mutexDel_ends inv _ m).schedOk ok
  | mutexLock m ticks =>
    exact (krhinoMutexLock_ends inv m ticks (may.idleRuns trivial)).schedOk ok
  | mutexUnlock m => exact krhinoMutexUnlock_schedOk inv bal ok m
  | _ => exact (exec_ordinary inv may rfl).ends.schedOk ok

theorem reach_schedOk (reach : (kernel.restrict KCall.NoStaleDelete).Reach s) :
    KInv s ∧ InBalance s ∧ SchedOk s := by
  refine reach.invariant (P := fun s => KInv s ∧ InBalance s ∧ SchedOk s) ?_ ?_
  · rintro s ⟨mem, rfl⟩
    exact ⟨initial_inv mem, initial_inBalance mem, fun _ _ => rfl⟩
  · rintro s c ⟨inv, bal, ok⟩ ⟨may, fresh⟩
    exact ⟨exec_inv inv may.2, exec_inBalance inv bal may.2 fresh,
      exec_schedOk inv bal ok may.2 fresh⟩

/-! ## The property -/

/-- At task level with the scheduler unlocked, the running task is ready and is the first of the
ready list of the least priority that a ready task has. -/
def RunsFirst (s : KState) : Prop :=
  s.intrptNested = 0 → s.schedLock = 0 → (s.tasks s.active).taskState = .rdy ∧
      ∃ p, IsLeast {q | ∃ t, (s.tasks t).taskState = .rdy ∧ (s.tasks t).prio = q} p ∧
        (s.readyQueue.list p).head? = some s.active

/-- The bitmap gives the highest ready priority. -/
theorem Core.isLeast_highestPri (h : Core s) :
    IsLeast {q | ∃ t, (s.tasks t).taskState = .rdy ∧ (s.tasks t).prio = q}
      s.readyQueue.highestPri := by
  have mem t q : t ∈ s.readyQueue.list q ↔
      (s.tasks t).taskState = .rdy ∧ (s.tasks t).prio = q :=
    (h.runq.mem t q).trans (h.ready_iff q)
  constructor
  · obtain ⟨t, there⟩ := exists_mem_of_ne_nil _ h.runq.highest
    exact ⟨t, (mem t _).mp there⟩
  · rintro q ⟨t, ready⟩
    by_contra below
    have empty := h.runq.least q (not_le.mp below)
    exact absurd ((mem t q).mpr ready) (empty ▸ not_mem_nil)

/-- In every run without stale deletions the scheduler has chosen the right task. -/
theorem runs_first {s : KState} (reach : (kernel.restrict KCall.NoStaleDelete).Reach s) :
    RunsFirst s := by
  obtain ⟨inv, -, ok⟩ := reach_schedOk reach
  intro nested lock
  exact ⟨inv.running (.inl nested), _, inv.core.isLeast_highestPri, ok nested lock⟩

/-- The owner of a mutex unlocks it while a more urgent task waits for it. -/
def urgentWaiter : List KCall :=
  [.mutexCreate 5 .staticAlloc, .taskCreate 1 20 0 1 true .staticAlloc, .mutexLock 5 100,
    .taskCreate 2 10 0 1 true .staticAlloc, .mutexLock 5 100, .mutexUnlock 5]

theorem runs_first_urgentWaiter :
    (kernel.run (.initial fun _ => 0) urgentWaiter).active = 2 ∧
      RunsFirst (kernel.run (.initial fun _ => 0) urgentWaiter) :=
  have start : (kernel.restrict KCall.NoStaleDelete).Reach (.initial fun _ => 0) := .init ⟨_, rfl⟩
  ⟨by decide +kernel, runs_first (start.run (by decide +kernel))⟩

/-- Task 1 is deleted while it owns mutex 5, which task 2 then locks. Task 3 waits for it, task 2
sleeps, and task 4 deletes task 1 once more. -/
def deletedByLowest : List KCall :=
  [.mutexCreate 5 .staticAlloc, .taskCreate 1 20 0 1 true .staticAlloc, .mutexLock 5 100,
    .taskDel none, .taskCreate 2 15 0 1 true .staticAlloc, .mutexLock 5 100,
    .taskCreate 3 10 0 1 true .staticAlloc, .mutexLock 5 100, .taskSleep 100,
    .taskCreate 4 30 0 1 true .staticAlloc, .taskDel (some 1)]

/-- Task 3 is ready, but task 4 goes on. -/
theorem not_runsFirst_deletedByLowest :
    kernel.Reach (kernel.run (.initial fun _ => 0) deletedByLowest) ∧
      ¬ RunsFirst (kernel.run (.initial fun _ => 0) deletedByLowest) := by
  have may : kernel.Runs (.initial fun _ => 0) deletedByLowest := by decide +kernel
  have reach := (reach_initial fun _ => 0).run may
  have h := (reach_inv reach).core
  refine ⟨reach, fun first => ?_⟩
  obtain ⟨-, p, least, head⟩ := first (by decide +kernel) (by decide +kernel)
  have below : p ≤ 10 := least.2 ⟨3, by decide +kernel, by decide +kernel⟩
  have linked := (h.runq.mem _ p).mp (mem_of_head? head)
  have prio := h.runq.prio _ p linked
  have runs : ((kernel.run (.initial fun _ => 0) deletedByLowest).tasks
      (kernel.run (.initial fun _ => 0) deletedByLowest).active).prio = 30 := by decide +kernel
  omega

end AliosThings.Rhino
