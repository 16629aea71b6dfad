import AliosThings.Rhino.MutexCalls

/-!
# The kernel's lists agree with the states of the tasks

The node `task_list` of a task is shared by the run queue and the blocked lists. In every state
the kernel reaches, through any sequence of calls, a task is in the list its state names, once,
and in no other, and it is in the tick list exactly when `tick_head` says so.
-/

namespace AliosThings.Rhino

open Lib List Function KState

/-- The invariant reads the lists, the running task and the nesting level. -/
theorem KInv.congr {s r : KState} (inv : KInv s)
    (running : r.intrptNested = 0 ∨ 0 < r.schedLock → (s.tasks r.active).taskState = .rdy)
    (level : r.intrptNested < 2 ^ 8) (same : r.lists = s.lists) : KInv r where
  core := inv.core.congr same
  dead o none := by
    have blk : r.blk = s.blk := congrArg (·.2.1) same
    rw [blk] at none ⊢
    exact inv.dead o none
  running level := by
    have tasks : r.tasks = s.tasks := congrArg (·.1) same
    rw [tasks]
    exact running level
  level := level

/-- The idle task is the only one, and it is ready. -/
theorem initial_blkList (mem : Mem) (o : ObjId) : ((initial mem).blk o).blkList = [] := by
  rcases eq_or_ne o gResSem with rfl | other <;> simp [initial, *]

theorem initial_core (mem : Mem) : Core (.initial mem) := by
  have others t (other : t ≠ idleTask) : (initial mem).tasks t = {} := by
    simp [initial, other]
  have idle : (initial mem).tasks idleTask = idleKtask := by simp [initial]
  have every : ∀ P : Ktask → Prop, P idleKtask → P {} → ∀ t, P ((initial mem).tasks t) := by
    intro P idleOk restOk t
    rcases eq_or_ne t idleTask with rfl | other
    · rwa [idle]
    · rwa [others t other]
  have empty := initial_blkList mem
  have notBlk t o : ((initial mem).tasks t).taskList ≠ .blk o :=
    every (fun k => k.taskList ≠ .blk o) (by simp [idleKtask]) (by simp) t
  have noTicks : (initial mem).tickList = [] := rfl
  have linked t p : ((initial mem).tasks t).taskList = .ready p ↔
      t = idleTask ∧ p = idlePri := by
    rcases eq_or_ne t idleTask with rfl | other
    · simp [idle, idleKtask, eq_comm]
    · simp [others t other, other]
  have list p : (initial mem).readyQueue.list p =
      if p = idlePri then [idleTask] else [] := by
    rcases eq_or_ne p idlePri with rfl | other <;> simp [initial, readyListInit, *]
  refine
    { runq := ⟨fun t p => ?_, fun p => ?_, fun t p at_ => ?_, fun p => ?_, fun p => ?_, ?_,
        fun p => ?_⟩
      blk := ⟨fun t o => by simp [empty, notBlk], fun o => by simp [empty],
        fun o _ => by simp [empty]⟩
      tick := ⟨fun t => by simp [every (fun k => k.tickHead = false) rfl rfl t, noTicks],
        noTicks ▸ nodup_nil⟩
      task := every TaskOk (by simp [TaskOk, idleKtask]) (by simp [TaskOk])
      prio := every (fun k => k.prio < priMax) (by decide) (by decide)
      bPrio := every (fun k => k.bPrio < priMax) (by decide) (by decide)
      owner := fun m _ waits => absurd (empty m) waits
      idleReady := by rw [idle]; rfl
      idlePrio := by rw [idle]; rfl
      idleOwns := fun m => by simp [initial]
      sound := rfl }
  · rw [list, linked]
    split <;> simp [*]
  · rw [list]
    split <;> simp
  · obtain ⟨rfl, rfl⟩ := (linked t p).mp at_
    rfl
  · rw [list]
    split
    · next here => exact fun _ => here ▸ by decide
    · exact fun some => absurd rfl some
  · have bits : bitmapBit (initial mem).readyQueue.taskBitMap p = decide (p = idlePri) := by
      show bitmapBit (krhinoBitmapSet (fun _ => 0) idlePri) p = _
      rw [bitmapBit_set]
      simp [bitmapBit]
    rw [list, bits]
    split <;> simp [*]
  · rw [list, if_pos]
    · simp
    · rfl
  · intro below
    rw [list, if_neg]
    rintro rfl
    have least : (initial mem).readyQueue.highestPri = idlePri := rfl
    exact absurd below (least ▸ lt_irrefl _)

/-- The invariant holds after the start. -/
theorem initial_inv (mem : Mem) : KInv (.initial mem) where
  core := initial_core mem
  dead o _ := initial_blkList mem o
  running _ := by simp [initial, idleKtask]
  level := by simp [initial]

/-! ## The scheduler's own calls -/

variable {s : KState} {c : KCall}

theorem krhinoSchedDisable_inv (inv : KInv s) : KInv (krhinoSchedDisable s).2 := by
  refine intrptNestedLevelChk_cases inv fun nested => ?_
  split
  · exact inv
  · exact inv.congr (fun _ => inv.running (.inl nested)) inv.level rfl

/-- The scheduler runs when the last lock of it is given back. -/
theorem krhinoSchedEnable_inv (inv : KInv s) : KInv (krhinoSchedEnable s).2 := by
  refine intrptNestedLevelChk_cases inv fun nested => ?_
  split
  · exact inv
  have unlocked : KInv { s with schedLock := s.schedLock - 1 } :=
    inv.congr (fun _ => inv.running (.inl nested)) inv.level rfl
  simp only
  split
  · exact unlocked
  · exact coreSched_inv unlocked.core unlocked.dead unlocked.level
      fun lock => unlocked.running (.inr lock)

theorem krhinoIntrptEnter_inv (inv : KInv s) (room : s.intrptNested < 2 ^ 8 - 1) :
    KInv (krhinoIntrptEnter s).2 := by
  have level : (s.intrptNested + 1) % 2 ^ 8 = s.intrptNested + 1 := by omega
  refine inv.congr (fun runs => inv.running (.inr ?_)) ?_ rfl
  · refine runs.resolve_left fun nested => ?_
    have : (s.intrptNested + 1) % 2 ^ 8 = 0 := nested
    omega
  · exact Nat.mod_lt _ (by decide)

/-- The last exit from an interrupt calls the scheduler. -/
theorem krhinoIntrptExit_eq (inv : KInv s) (nested : 0 < s.intrptNested) :
    krhinoIntrptExit s = coreSched { s with intrptNested := s.intrptNested - 1 } := by
  have byte := inv.level
  have level : (s.intrptNested + 2 ^ 8 - 1) % 2 ^ 8 = s.intrptNested - 1 := by omega
  unfold krhinoIntrptExit coreSched
  simp only [level]

theorem krhinoIntrptExit_inv (inv : KInv s) (nested : 0 < s.intrptNested) :
    KInv (krhinoIntrptExit s) := by
  have byte := inv.level
  rw [krhinoIntrptExit_eq inv nested]
  exact coreSched_inv (inv.core.congr rfl) inv.dead
    (show s.intrptNested - 1 < 2 ^ 8 by omega) fun lock => inv.running (.inr lock)

/-- A tick keeps the lists. -/
theorem krhinoTickProc_kept (h : Core s) : Kept ∅ s (krhinoTickProc s) := by
  have updated := tickListUpdate_kept h 1
  exact updated.trans (timeSliceUpdate_kept updated.core).1

/-! ## Whole runs -/

/-- The calls on objects other than mutexes, and those that move a task between lists without a
change of priorities. -/
def KCall.isPlain : KCall → Bool
  | taskCreate _ _ _ _ _ _ | taskPriChange _ _ | taskWaitAbort _ | taskDel _ | taskDynDel _
  | schedDisable | schedEnable | intrptEnter | intrptExit | tickProc | tickUpdate _
  | mutexCreate _ _ | mutexDel _ | mutexDynDel _ | mutexLock _ _ | mutexUnlock _ => false
  | _ => true

/-- The calls that leave the mutexes alone. -/
theorem exec_acts (inv : KInv s) (may : c.Allowed s) (plain : c.isPlain = true) :
    CallActs s c (c.exec s) := by
  cases c with
  | taskSleep ticks => exact krhinoTaskSleep_acts inv ticks
  | taskYield => exact krhinoTaskYield_acts inv (may.yieldByTask rfl)
  | taskSuspend t => exact krhinoTaskSuspend_acts inv t
  | taskResume t => exact krhinoTaskResume_acts inv t
  | taskTimeSliceSet t slice => exact krhinoTaskTimeSliceSet_acts inv t slice
  | schedPolicySet t policy => exact krhinoSchedPolicySet_acts inv t policy
  | semCreate o count flag =>
    exact .makes o rfl (objCreate_ordinary .sem inv (may.freshObj o rfl).2 (by decide) rfl) rfl rfl
      rfl (fun a other => ⟨congrArg BlkObj.objType (update_of_ne other _ _),
        update_of_ne other _ _, rfl, rfl, rfl⟩) rfl
  | semDel o | semDynDel o => exact .acts (objDel_acts inv (by decide) fun _ core => .refl core)
  | semGive o | semGiveAll o => exact .acts (semGive_acts inv o _)
  | semTake o ticks => exact krhinoSemTake_acts inv o ticks
  | semCountSet o count => exact krhinoSemCountSet_acts inv o count
  | eventCreate o flags flag =>
    exact .makes o rfl (objCreate_ordinary .event inv (may.freshObj o rfl).2 (by decide) rfl) rfl
      rfl rfl (fun a other => ⟨congrArg BlkObj.objType (update_of_ne other _ _), rfl,
        update_of_ne other _ _, rfl, rfl⟩) rfl
  | eventDel o | eventDynDel o =>
    exact .acts (objDel_acts inv (by decide) fun _ core => modEvent_touches core _)
  | eventGet o flags opt actlFlags ticks =>
    exact krhinoEventGet_acts inv o flags opt actlFlags ticks
  | eventSet o flags opt =>
    exact .acts (krhinoEventSet_acts inv flags opt fun t inList =>
      mem_append_left _ (mem_map_of_mem inList))
  | queueCreate o start msgNum flag =>
    show CallActs s _ (queueCreate s o start msgNum flag)
    unfold queueCreate
    split
    · exact .refl inv
    · exact .makes o rfl (objCreate_ordinary .queue inv (may.freshObj o rfl).2 (by decide) rfl) rfl
        rfl rfl (fun a other => ⟨congrArg BlkObj.objType (update_of_ne other _ _), rfl,
          rfl, update_of_ne other _ _, rfl⟩) rfl
  | queueDel o | queueDynDel o =>
    exact .acts (objDel_acts inv (by decide) fun _ core =>
      modQueue_touches core _ ⟨rfl, rfl, rfl, rfl⟩)
  | queueBackSend o msg | queueAllSend o msg =>
    exact .acts (msgSend_acts inv msg _ (by simp [KCall.stores]))
  | queueRecv o ticks msg => exact krhinoQueueRecv_acts inv o ticks msg
  | queueFlush o => exact krhinoQueueFlush_acts inv o
  | bufQueueCreate o buf size maxMsg flag type =>
    show CallActs s _ (bufQueueCreate s o buf size maxMsg flag type)
    unfold bufQueueCreate
    split
    · exact .refl inv
    split
    · exact .refl inv
    · exact .makes o rfl (objCreate_ordinary .bufQueue inv (may.freshObj o rfl).2 (by decide) rfl)
        rfl rfl rfl (fun a other => ⟨congrArg BlkObj.objType (update_of_ne other _ _), rfl,
          rfl, rfl, update_of_ne other _ _⟩) rfl
  | bufQueueDel o | bufQueueDynDel o =>
    exact .acts (objDel_acts inv (by decide) fun _ core =>
      modBufQueue_touches core _ ⟨rfl, rfl, rfl, rfl⟩)
  | bufQueueSend o msg msgSize => exact krhinoBufQueueSend_acts inv o msg msgSize
  | bufQueueRecv o ticks msg size => exact krhinoBufQueueRecv_acts inv o ticks msg size
  | bufQueueFlush o => exact krhinoBufQueueFlush_acts inv o
  | _ => cases plain

theorem exec_ordinary (inv : KInv s) (may : c.Allowed s) (plain : c.isPlain = true) :
    Ordinary s (c.exec s).2 :=
  (exec_acts inv may plain).ordinary may.idleRuns

/-- Every kernel call keeps the invariant. -/
theorem exec_inv (inv : KInv s) (may : c.Allowed s) : KInv (c.exec s).2 := by
  cases c with
  | taskCreate t prio ticks stackSize autorun flag =>
    exact (taskCreate_ends inv (may.freshTask t rfl).2 prio ticks stackSize autorun flag).inv inv
  | taskPriChange t pri => exact krhinoTaskPriChange_inv inv t pri
  | taskWaitAbort t => exact (krhinoTaskWaitAbort_ends inv t).inv inv
  | taskDel t =>
    rcases krhinoTaskDel_cases inv t with ends | ⟨done, -⟩
    · exact ends.inv inv
    · exact done.inv inv
  | taskDynDel t => exact (krhinoTaskDynDel_ends inv t).inv inv
  | schedDisable => exact krhinoSchedDisable_inv inv
  | schedEnable => exact krhinoSchedEnable_inv inv
  | intrptEnter => exact krhinoIntrptEnter_inv inv (may.enterNested rfl)
  | intrptExit => exact krhinoIntrptExit_inv inv (may.exitNested rfl)
  | tickProc => exact ((krhinoTickProc_kept inv.core).done inv).inv inv
  | tickUpdate ticks => exact ((tickListUpdate_kept inv.core ticks).done inv).inv inv
  | mutexCreate m flag => exact (mutexCreate_ends inv (may.freshObj m rfl).2 flag).inv inv
  | mutexDel m | mutexDynDel m => exact (mutexDel_ends inv _ m).inv inv
  | mutexLock m ticks =>
    exact (krhinoMutexLock_ends inv m ticks (may.idleRuns trivial)).inv inv
  | mutexUnlock m =>
    rcases krhinoMutexUnlock_cases inv m with ends | ⟨done, -⟩
    · exact ends.inv inv
    · exact done.inv inv
  | _ => exact (exec_ordinary inv may rfl).ends.inv inv

theorem reach_initial (mem : Mem) : kernel.Reach (.initial mem) := .init ⟨mem, rfl⟩

/-- The invariant holds in every run. -/
theorem reach_inv (reach : kernel.Reach s) : KInv s := by
  refine reach.invariant ?_ ?_
  · rintro s ⟨mem, rfl⟩
    exact initial_inv mem
  · intro s c inv may
    exact exec_inv inv may.2

/-! ## The lists and the states -/

/-- The lists of the kernel and the records of the tasks tell the same story. -/
structure ListsAgree (s : KState) : Prop where
  ready : ∀ t p, (s.readyQueue.list p).count t =
    if (s.tasks t).taskState = .rdy ∧ (s.tasks t).prio = p then 1 else 0
  blocked : ∀ t o, (s.blk o).blkList.count t =
    if ((s.tasks t).taskState = .pend ∨ (s.tasks t).taskState = .pendSuspended) ∧
      (s.tasks t).blkObj = some o then 1 else 0
  waits : ∀ t, (s.tasks t).taskState = .pend ∨ (s.tasks t).taskState = .pendSuspended →
    (s.tasks t).blkObj ≠ none
  ordered : ∀ o, (s.blk o).blkPolicy = .pri →
    (s.blk o).blkList.Pairwise fun u v => (s.tasks u).prio ≤ (s.tasks v).prio
  ticking : ∀ t, s.tickList.count t = if (s.tasks t).tickHead then 1 else 0
  asleep : ∀ t, (s.tasks t).taskState = .sleep ∨ (s.tasks t).taskState = .sleepSuspended →
    (s.tasks t).tickHead = true
  awake : ∀ t, (s.tasks t).taskState = .rdy ∨ (s.tasks t).taskState = .suspended ∨
    (s.tasks t).taskState = .deleted → (s.tasks t).tickHead = false
  /-- No list operation was ever applied to a node that was not where the code took it to be. -/
  sound : s.corrupt = false

variable {t : TaskId}

/-- A ready task is linked at its priority, and no other task is. -/
theorem Core.ready_iff (h : Core s) (p : Nat) :
    (s.tasks t).taskList = .ready p ↔ (s.tasks t).taskState = .rdy ∧ (s.tasks t).prio = p := by
  have ok := h.task t
  constructor
  · intro linked
    refine ⟨?_, h.runq.prio t p linked⟩
    unfold TaskOk at ok
    split at ok <;> simp_all
  · rintro ⟨state, rfl⟩
    exact (ok.of_rdy state).1

/-- The pending tasks are those linked at an object. -/
theorem Core.blk_iff (h : Core s) (o : ObjId) :
    (s.tasks t).taskList = .blk o ↔
      ((s.tasks t).taskState = .pend ∨ (s.tasks t).taskState = .pendSuspended) ∧
        (s.tasks t).blkObj = some o := by
  constructor
  · exact (h.task t).of_blk
  · rintro ⟨state, obj⟩
    obtain ⟨o', linked, obj'⟩ := (h.task t).of_waiting state
    rw [obj] at obj'
    exact Option.some.inj obj' ▸ linked

theorem count_eq_ite {l : List TaskId} {P : Prop} [Decidable P] (nodup : l.Nodup)
    (mem : t ∈ l ↔ P) : l.count t = if P then 1 else 0 := by
  rw [nodup.count]
  simp only [mem]

/-- Task 1 locks a mutex, task 2 waits for it with a timeout, task 1 sleeps. -/
def ownerSleeps : List KCall :=
  [.mutexCreate 5 .staticAlloc, .taskCreate 1 20 0 1 true .staticAlloc, .mutexLock 5 100,
    .taskCreate 2 15 0 1 true .staticAlloc, .mutexLock 5 100, .taskSleep 10]

/-- What callers promise who may also yield in an interrupt handler, and whose idle task may lock
a mutex as long as it does not wait for it. -/
def KCall.Tolerated (s : KState) : KCall → Prop
  | taskYield => True
  | mutexLock m ticks => ticks = noWait ∨ (mutexLock m ticks).Allowed s
  | c => c.Allowed s

instance (s : KState) (c : KCall) : Decidable (c.Tolerated s) := by
  rcases c <;> unfold KCall.Tolerated <;> infer_instance

def tolerantKernel : System KState KCall where
  init := kernel.init
  allowed s c := s.hung = false ∧ c.Tolerated s
  step := kernel.step

instance (s : KState) (c : KCall) : Decidable (tolerantKernel.allowed s c) :=
  inferInstanceAs (Decidable (s.hung = false ∧ c.Tolerated s))

/-- An interrupt handler suspends the task it interrupts, and yields. -/
def handlerYields : List KCall :=
  [.taskCreate 1 20 0 1 true .staticAlloc, .intrptEnter, .taskSuspend 1, .taskYield]

/-- The idle task, with the priority of the task that waits for its mutex, is suspended. -/
def idleLocks : List KCall :=
  [.mutexCreate 5 .staticAlloc, .mutexLock 5 noWait, .taskCreate 1 20 0 1 true .staticAlloc,
    .mutexLock 5 100, .taskSuspend idleTask]

end AliosThings.Rhino
