import AliosThings.Rhino.Lists

/-!
# The invariant every step of a kernel call keeps

`Core` is what holds between any two list operations of a kernel call: the lists agree with the
records of the tasks, and each record agrees with itself (`TaskOk`: its state says which list it
is in). A kernel call changes one record after another; `Core.change` is the one place where a
change of a record and of the lists around it is put together, and the specifications below give,
for each operation, the state it produces and `Core` of it.
-/

namespace AliosThings.Rhino

open Function

/-! ## Changing one record and the lists -/

/-- The record of `t` becomes `k`, and the lists become `rq`, `blk` and `ticks`. Every list
operation on a task has this form, and so has a sequence of them on one task. -/
def KState.put (s : KState) (t : TaskId) (k : Ktask) (rq : Runqueue) (blk : ObjId → BlkObj)
    (ticks : List TaskId) : KState :=
  { s with
    readyQueue := rq, blk := blk, tickList := ticks, tasks := update s.tasks t k }

section Put

variable (s : KState) (t : TaskId) (k : Ktask) (rq : Runqueue) (blk : ObjId → BlkObj)
  (ticks : List TaskId)

@[simp] theorem put_tasks : (s.put t k rq blk ticks).tasks = update s.tasks t k := rfl

@[simp] theorem put_readyQueue : (s.put t k rq blk ticks).readyQueue = rq := rfl

@[simp] theorem put_blk : (s.put t k rq blk ticks).blk = blk := rfl

@[simp] theorem put_tickList : (s.put t k rq blk ticks).tickList = ticks := rfl

@[simp] theorem put_mutexes : (s.put t k rq blk ticks).mutexes = s.mutexes := rfl

@[simp] theorem put_active : (s.put t k rq blk ticks).active = s.active := rfl

@[simp] theorem put_put (k' : Ktask) (rq' : Runqueue) (blk' : ObjId → BlkObj)
    (ticks' : List TaskId) :
    (s.put t k rq blk ticks).put t k' rq' blk' ticks' = s.put t k' rq' blk' ticks' := by
  simp [KState.put]

/-- A change to a record is a step of this form. -/
theorem modTask_eq (f : Ktask → Ktask) :
    s.modTask t f = s.put t (f (s.tasks t)) s.readyQueue s.blk s.tickList := rfl

@[simp] theorem put_modTask (f : Ktask → Ktask) :
    (s.put t k rq blk ticks).modTask t f = s.put t (f k) rq blk ticks := by
  simp [modTask_eq]

end Put

section Link

variable (k : Ktask) (l : Link)

@[simp] theorem Ktask.link_taskList : (k.link l).taskList = l := rfl

@[simp] theorem Ktask.link_taskState : (k.link l).taskState = k.taskState := rfl

@[simp] theorem Ktask.link_prio : (k.link l).prio = k.prio := rfl

@[simp] theorem Ktask.link_bPrio : (k.link l).bPrio = k.bPrio := rfl

@[simp] theorem Ktask.link_link (l' : Link) : (k.link l).link l' = k.link l' := rfl

end Link

/-! ## The invariant -/

/-- The state of a task says in which lists it is. -/
def TaskOk (k : Ktask) : Prop :=
  match k.taskState with
  | .rdy => k.taskList = .ready k.prio ∧ k.tickHead = false
  | .pend | .pendSuspended => ∃ o, k.taskList = .blk o ∧ k.blkObj = some o
  | .sleep | .sleepSuspended => k.taskList = .unlinked ∧ k.tickHead = true
  | .suspended | .seed | .deleted => k.taskList = .unlinked ∧ k.tickHead = false

structure Core (s : KState) : Prop where
  runq : RunqOk s.readyQueue s.tasks
  blk : BlkOk s.blk s.tasks
  tick : TickOk s.tickList s.tasks
  task : ∀ t, TaskOk (s.tasks t)
  prio : ∀ t, (s.tasks t).prio < priMax
  bPrio : ∀ t, (s.tasks t).bPrio < priMax
  /-- A mutex somebody waits for has an owner. -/
  owner : ∀ m, (s.blk m).objType = .mutex → (s.blk m).blkList ≠ [] →
    (s.mutexes m).mutexTask ≠ none
  idleReady : (s.tasks idleTask).taskState = .rdy
  idlePrio : (s.tasks idleTask).prio = idlePri
  idleOwns : ∀ m, (s.mutexes m).mutexTask ≠ some idleTask
  sound : s.corrupt = false

variable {s s' : KState} {t : TaskId} {k k' : Ktask} {q rq : Runqueue} {b : ObjId → BlkObj}
  {l : List TaskId} {o : ObjId}

/-- A ready task is in the list of its priority. -/
theorem TaskOk.rdy (state : k.taskState = .rdy) (link : k.taskList = .ready k.prio)
    (tick : k.tickHead = false) : TaskOk k := by
  unfold TaskOk
  rw [state]
  exact ⟨link, tick⟩

/-- A task that neither runs nor waits is in no list. -/
theorem TaskOk.off (state : k.taskState = .suspended ∨ k.taskState = .seed ∨ k.taskState = .deleted)
    (link : k.taskList = .unlinked) (tick : k.tickHead = false) : TaskOk k := by
  unfold TaskOk
  rcases state with state | state | state <;> rw [state] <;> exact ⟨link, tick⟩

/-- A sleeping task is on the tick list only. -/
theorem TaskOk.sleeping (state : k.taskState = .sleep ∨ k.taskState = .sleepSuspended)
    (link : k.taskList = .unlinked) (tick : k.tickHead = true) : TaskOk k := by
  unfold TaskOk
  rcases state with state | state <;> rw [state] <;> exact ⟨link, tick⟩

/-- A pending task is in the list of its object. -/
theorem TaskOk.waiting (state : k.taskState = .pend ∨ k.taskState = .pendSuspended)
    (link : k.taskList = .blk o) (obj : k.blkObj = some o) : TaskOk k := by
  unfold TaskOk
  rcases state with state | state <;> rw [state] <;> exact ⟨o, link, obj⟩

/-- A task in a blocked list waits for the object of that list. -/
theorem TaskOk.of_blk (h : TaskOk k) (linked : k.taskList = .blk o) :
    (k.taskState = .pend ∨ k.taskState = .pendSuspended) ∧ k.blkObj = some o := by
  unfold TaskOk at h
  split at h <;> simp_all

/-- The object that a pending task waits for. -/
theorem TaskOk.of_waiting (h : TaskOk k)
    (waiting : k.taskState = .pend ∨ k.taskState = .pendSuspended) :
    ∃ o, k.taskList = .blk o ∧ k.blkObj = some o := by
  unfold TaskOk at h
  rcases waiting with state | state <;> simpa [state] using h

/-- A ready task is not on the tick list. -/
theorem TaskOk.of_rdy (h : TaskOk k) (state : k.taskState = .rdy) :
    k.taskList = .ready k.prio ∧ k.tickHead = false := by
  unfold TaskOk at h
  simpa [state] using h

theorem TaskOk.of_sleeping (h : TaskOk k)
    (state : k.taskState = .sleep ∨ k.taskState = .sleepSuspended) :
    k.taskList = .unlinked ∧ k.tickHead = true := by
  unfold TaskOk at h
  rcases state with state | state <;> simpa [state] using h

theorem TaskOk.of_off (h : TaskOk k)
    (state : k.taskState = .suspended ∨ k.taskState = .seed ∨ k.taskState = .deleted) :
    k.taskList = .unlinked ∧ k.tickHead = false := by
  unfold TaskOk at h
  rcases state with state | state | state <;> simpa [state] using h

/-- The fields `TaskOk` reads. -/
theorem TaskOk.congr (h : TaskOk k) (state : k'.taskState = k.taskState)
    (link : k'.taskList = k.taskList) (prio : k'.prio = k.prio) (obj : k'.blkObj = k.blkObj)
    (tick : k'.tickHead = k.tickHead) : TaskOk k' := by
  unfold TaskOk
  rw [state, link, prio, obj, tick]
  exact h

/-- The idle task is always ready. -/
theorem Core.idleLink (h : Core s) : (s.tasks idleTask).taskList = .ready idlePri := by
  rw [← h.idlePrio]
  exact ((h.task idleTask).of_rdy h.idleReady).1

/-- The idle task never waits. -/
theorem Core.ne_idle_of_blk (h : Core s) (linked : (s.tasks t).taskList = .blk o) :
    t ≠ idleTask := by
  rintro rfl
  rw [h.idleLink] at linked
  cases linked

/-- Only tasks that exist wait. -/
theorem Core.live_of_blk (h : Core s) (linked : (s.tasks t).taskList = .blk o) :
    (s.tasks t).Live := by
  rcases ((h.task t).of_blk linked).1 with state | state <;> simp [Ktask.Live, state]

theorem Core.ne_idle_of_state (h : Core s) (state : (s.tasks t).taskState ≠ .rdy) :
    t ≠ idleTask := by
  rintro rfl
  exact state h.idleReady

/-- One record changes, and the lists with it. -/
theorem Core.change (h : Core s) {blk : ObjId → BlkObj} {ticks : List TaskId}
    (notIdle : t ≠ idleTask) (runq : RunqOk rq (update s.tasks t k))
    (blkOk : BlkOk blk (update s.tasks t k)) (tick : TickOk ticks (update s.tasks t k))
    (task : TaskOk k) (prio : k.prio < priMax) (bPrio : k.bPrio < priMax)
    (owner : ∀ m, (blk m).objType = .mutex → (blk m).blkList ≠ [] →
      (s.mutexes m).mutexTask ≠ none) : Core (s.put t k rq blk ticks) where
  runq := runq
  blk := blkOk
  tick := tick
  task := (forall_update_iff s.tasks fun _ k => TaskOk k).mpr ⟨task, fun u _ => h.task u⟩
  prio := (forall_update_iff s.tasks fun _ k => k.prio < priMax).mpr
    ⟨prio, fun u _ => h.prio u⟩
  bPrio := (forall_update_iff s.tasks fun _ k => k.bPrio < priMax).mpr
    ⟨bPrio, fun u _ => h.bPrio u⟩
  owner := owner
  idleReady := by
    show (update s.tasks t k idleTask).taskState = .rdy
    rw [update_of_ne notIdle.symm]
    exact h.idleReady
  idlePrio := by
    show (update s.tasks t k idleTask).prio = idlePri
    rw [update_of_ne notIdle.symm]
    exact h.idlePrio
  idleOwns := h.idleOwns
  sound := h.sound

/-- A change of a record that none of the lists depends on. -/
theorem Core.modTask (h : Core s) (t : TaskId) {f : Ktask → Ktask}
    (state : (f (s.tasks t)).taskState = (s.tasks t).taskState)
    (link : (f (s.tasks t)).taskList = (s.tasks t).taskList)
    (prio : (f (s.tasks t)).prio = (s.tasks t).prio)
    (obj : (f (s.tasks t)).blkObj = (s.tasks t).blkObj)
    (tick : (f (s.tasks t)).tickHead = (s.tasks t).tickHead)
    (bPrio : (f (s.tasks t)).bPrio < priMax) : Core (s.modTask t f) where
  runq := h.runq.update_same link prio
  blk := h.blk.update_same link prio
  tick := h.tick.update_same tick
  task := (forall_update_iff s.tasks fun _ k => TaskOk k).mpr
    ⟨(h.task t).congr state link prio obj tick, fun u _ => h.task u⟩
  prio := (forall_update_iff s.tasks fun _ k => k.prio < priMax).mpr
    ⟨prio ▸ h.prio t, fun u _ => h.prio u⟩
  bPrio := (forall_update_iff s.tasks fun _ k => k.bPrio < priMax).mpr
    ⟨bPrio, fun u _ => h.bPrio u⟩
  owner := h.owner
  idleReady := by
    show (update s.tasks t (f (s.tasks t)) idleTask).taskState = .rdy
    rcases eq_or_ne idleTask t with rfl | other
    · simpa [state] using h.idleReady
    · simpa [other] using h.idleReady
  idlePrio := by
    show (update s.tasks t (f (s.tasks t)) idleTask).prio = idlePri
    rcases eq_or_ne idleTask t with rfl | other
    · simpa [prio] using h.idlePrio
    · simpa [other] using h.idlePrio
  idleOwns := h.idleOwns
  sound := h.sound

/-- `Core` reads the tasks, the lists and the owners of the mutexes. -/
def KState.lists (s : KState) :=
  (s.tasks, s.blk, s.readyQueue, s.tickList, (fun m => (s.mutexes m).mutexTask), s.corrupt)

/-- The lists are all that is read. -/
theorem Core.congr (h : Core s) (same : s'.lists = s.lists) : Core s' := by
  simp only [KState.lists, Prod.mk.injEq] at same
  obtain ⟨tasks, blk, readyQueue, tickList, owner, corrupt⟩ := same
  have owner := congrFun owner
  exact {
    runq := by rw [readyQueue, tasks]; exact h.runq
    blk := by rw [blk, tasks]; exact h.blk
    tick := by rw [tickList, tasks]; exact h.tick
    task := tasks ▸ h.task
    prio := tasks ▸ h.prio
    bPrio := tasks ▸ h.bPrio
    owner := fun m => by rw [blk, owner]; exact h.owner m
    idleReady := tasks ▸ h.idleReady
    idlePrio := tasks ▸ h.idlePrio
    idleOwns := fun m => by rw [owner]; exact h.idleOwns m
    sound := corrupt.trans h.sound }

/-- A change of the data of a mutex other than its owner. -/
theorem Core.modMutex (h : Core s) (m : ObjId) {f : Kmutex → Kmutex}
    (same : (f (s.mutexes m)).mutexTask = (s.mutexes m).mutexTask) : Core (s.modMutex m f) := by
  have owner : (fun a => ((s.modMutex m f).mutexes a).mutexTask) =
      fun a => (s.mutexes a).mutexTask := by
    ext a
    rcases eq_or_ne a m with rfl | other <;> simp [KState.modMutex, *]
  refine h.congr ?_
  rw [KState.lists, owner]
  rfl

/-! ## What the list operations compute -/

theorem put_self (s : KState) (t : TaskId) :
    s.put t (s.tasks t) s.readyQueue s.blk s.tickList = s := by
  simp [KState.put]

/-- The task becomes the last one of its priority. -/
theorem put_readyListAddTail (free : k.taskList = .unlinked) :
    readyListAddTail (s.put t k q b l) t =
      s.put t (k.link (.ready k.prio)) (q.addTail t k.prio) b l := by
  unfold readyListAddTail readyListLink
  simp only [put_tasks, update_self, free, if_true]
  simp [modTask_eq, KState.put]

/-- The task becomes the first one of its priority. -/
theorem put_readyListAddHead (free : k.taskList = .unlinked) :
    readyListAddHead (s.put t k q b l) t =
      s.put t (k.link (.ready k.prio)) (q.addHead t k.prio) b l := by
  unfold readyListAddHead readyListLink
  simp only [put_tasks, update_self, free, if_true]
  simp [modTask_eq, KState.put]

/-- One of the two, depending on the running task. -/
theorem put_readyListAdd (free : k.taskList = .unlinked) :
    ∃ q', q.Added q' t k.prio ∧ readyListAdd (s.put t k q b l) t =
        s.put t (k.link (.ready k.prio)) q' b l := by
  unfold readyListAdd
  split
  · exact ⟨_, .inl rfl, put_readyListAddTail free⟩
  · exact ⟨_, .inr rfl, put_readyListAddHead free⟩

/-- The run queue without a task that is not the idle task. -/
theorem put_readyListRm (h : RunqOk q (update s.tasks t k)) (notIdle : t ≠ idleTask)
    (idle : (s.tasks idleTask).taskList = .ready idlePri) (linked : k.taskList = .ready k.prio) :
    ∃ q', (∀ k' : Ktask, (∀ p, k'.taskList ≠ .ready p) → RunqOk q' (update s.tasks t k')) ∧
      readyListRm (s.put t k q b l) t = s.put t (k.link .unlinked) q' b l := by
  obtain ⟨q', removed, -, ok⟩ := h.remove
    (by simpa using linked) notIdle.symm (by simpa [notIdle.symm] using idle)
  rw [update_self] at removed
  simp only [update_idem] at ok
  refine ⟨q', ok, ?_⟩
  simp only [readyListRm, put_tasks, update_self, linked, if_true, put_readyQueue, removed]
  simp [modTask_eq, KState.put]

/-- The task leaves the tick list. -/
theorem put_tickListRm (h : TickOk l (update s.tasks t k)) :
    tickListRm (s.put t k q b l) t =
      s.put t { k with tickHead := false } q b (l.erase t) := by
  unfold tickListRm
  have member := h.mem t
  rw [update_self] at member
  cases head : k.tickHead with
  | true =>
    have present := member.mpr head
    simp [head, present, modTask_eq, KState.put]
  | false =>
    have absent : t ∉ l := fun there => by
      rw [member, head] at there
      cases there
    have same : { k with tickHead := false } = k := by rw [← head]
    simp [head, List.erase_of_not_mem absent, same]

/-- The blocked lists with `l` as that of `o`. -/
abbrev blkWith (b : ObjId → BlkObj) (o : ObjId) (l : List TaskId) : ObjId → BlkObj :=
  update b o { b o with blkList := l }

/-- The blocked lists without `t`, which was in that of `o`. -/
abbrev blkWithout (b : ObjId → BlkObj) (o : ObjId) (t : TaskId) : ObjId → BlkObj :=
  blkWith b o ((b o).blkList.erase t)

/-- The task leaves the list of its object. -/
theorem put_blkListRm (linked : k.taskList = .blk o) : blkListRm (s.put t k q b l) t =
      s.put t (k.link .unlinked) q (blkWithout b o t) l := by
  simp only [blkListRm, put_tasks, update_self, linked]
  simp [modTask_eq, KState.modBlk, KState.put]

/-! ## A task stops waiting -/

/-- A task leaves its blocked list and the tick list. -/
theorem Core.unblocked (h : Core s) (linked : (s.tasks t).taskList = .blk o)
    (runq : RunqOk rq (update s.tasks t k)) (task : TaskOk k) (noBlk : ∀ a, k.taskList ≠ .blk a)
    (out : k.tickHead = false) (prio : k.prio = (s.tasks t).prio)
    (bPrio : k.bPrio = (s.tasks t).bPrio) :
    Core (s.put t k rq (blkWithout s.blk o t) (s.tickList.erase t)) := by
  refine h.change (h.ne_idle_of_blk linked) runq (h.blk.unlink linked noBlk) (h.tick.erase out)
    task (prio ▸ h.prio t) (bPrio ▸ h.bPrio t) fun m type waits => ?_
  rcases eq_or_ne m o with rfl | other
  · simp only [update_self] at type waits
    refine h.owner m type fun empty => waits ?_
    rw [empty]
    rfl
  · simp only [update_of_ne other] at type waits
    exact h.owner m type waits

theorem blk_ne_ready (linked : k.taskList = .blk o) (p : Nat) : k.taskList ≠ .ready p := by
  rw [linked]
  exact fun same => by cases same

/-- The record `pend_task_wakeup` and `pend_task_rm` leave. -/
def Ktask.woken (k : Ktask) (bs : BlkStat) : Ktask :=
  if k.taskState = .pend then
    { k with
      taskState := .rdy, taskList := .ready k.prio, tickHead := false, blkState := bs
      blkObj := none }
  else
    { k with
      taskState := .suspended, taskList := .unlinked, tickHead := false, blkState := bs
      blkObj := none }

open Ktask

@[simp] theorem Ktask.woken_prio (k : Ktask) (bs : BlkStat) : (k.woken bs).prio = k.prio := by
  unfold woken
  split <;> rfl

@[simp] theorem Ktask.woken_bPrio (k : Ktask) (bs : BlkStat) : (k.woken bs).bPrio = k.bPrio := by
  unfold woken
  split <;> rfl

/-- A task whose wait has ended waits for nothing. -/
theorem Ktask.woken_taskOk (k : Ktask) (bs : BlkStat) :
    TaskOk (k.woken bs) ∧ (k.woken bs).tickHead = false ∧
      ∀ a, (k.woken bs).taskList ≠ .blk a := by
  unfold woken
  split <;> simp [TaskOk]

/-- A wait ends, and the lists stay in order. -/
theorem pendTaskEnd_eq (bs : BlkStat) (h : Core s) (linked : (s.tasks t).taskList = .blk o) :
    ∃ rq, pendTaskEnd bs s t =
        s.put t ((s.tasks t).woken bs) rq (blkWithout s.blk o t) (s.tickList.erase t) ∧
      Core (pendTaskEnd bs s t) := by
  obtain ⟨taskOk, out, noBlk⟩ := (s.tasks t).woken_taskOk bs
  -- once the run queue agrees with the new record the rest follows
  suffices ∃ rq, pendTaskEnd bs s t =
        s.put t ((s.tasks t).woken bs) rq (blkWithout s.blk o t) (s.tickList.erase t) ∧
      RunqOk rq (update s.tasks t ((s.tasks t).woken bs)) by
    obtain ⟨rq, eq, runq⟩ := this
    refine ⟨rq, eq, ?_⟩
    rw [eq]
    exact h.unblocked linked runq taskOk noBlk out (by simp) (by simp)
  have low := h.prio t
  have self := put_self s t
  have waiting := ((h.task t).of_blk linked).1
  have notReady := blk_ne_ready linked
  have ticks : ∀ k : Ktask, k.tickHead = (s.tasks t).tickHead →
      TickOk s.tickList (update s.tasks t k) := fun k same => h.tick.update_same same
  conv in pendTaskEnd bs s t => rw [← self]
  generalize s.tasks t = k at linked low waiting ticks ⊢
  unfold pendTaskEnd pendTaskUnblock
  simp only [put_tasks, update_self, put_blkListRm linked]
  rcases waiting with state | state
  · obtain ⟨rq, added, eq⟩ := put_readyListAdd (s := s) (t := t)
      (k := k.link .unlinked) (q := s.readyQueue) (b := blkWithout s.blk o t) (l := s.tickList) rfl
    refine ⟨rq, ?_, ?_⟩
    · simp only [state, eq, put_modTask]
      rw [put_tickListRm]
      · simp [woken, link, state]
      · exact ticks _ rfl
    · exact h.runq.added (by simpa using added) notReady (by simp [woken, state])
        (by simpa using low)
  · refine ⟨s.readyQueue, ?_, ?_⟩
    · simp only [state, put_modTask]
      rw [put_tickListRm]
      · simp [woken, link, state]
      · exact ticks _ rfl
    · refine h.runq.update_not_ready notReady fun p => ?_
      simp [woken, state]

/-! ## A task starts waiting -/

/-- The list of a blocking object with one more task, at the place its policy says. -/
def BlkObj.placed (b : BlkObj) (prio : TaskId → Nat) (t : TaskId) : List TaskId :=
  match b.blkPolicy with
  | .fifo => b.blkList ++ [t]
  | .pri => pendListInsert prio t b.blkList

/-- A new waiter is added to the list. -/
theorem BlkObj.placed_perm (b : BlkObj) (prio : TaskId → Nat) (t : TaskId) :
    (b.placed prio t).Perm (t :: b.blkList) := by
  unfold BlkObj.placed
  split
  · exact List.perm_append_singleton t b.blkList
  · exact pendListInsert_perm prio t b.blkList

/-- A record with other values in the three fields of its timeout. -/
def Ktask.timed (k : Ktask) (tickMatch tickRemain : Nat) (tickHead : Bool) : Ktask :=
  { k with tickMatch := tickMatch, tickRemain := tickRemain, tickHead := tickHead }

/-- The record of a task that waits for `o`. -/
def Ktask.pended (k : Ktask) (o : ObjId) : Ktask :=
  { k with taskState := .pend, taskList := .blk o, blkObj := some o }

/-- Entering the tick list, unless the time is zero. -/
theorem put_tickListInsert (h : TickOk l (update s.tasks t k))
    (out : k.tickHead = false) (time : Nat) :
    ∃ l' tm tr th, (∀ k' : Ktask, k'.tickHead = th → TickOk l' (update s.tasks t k')) ∧
      (time > 0 → th = true) ∧
      tickListInsert (s.put t k q b l) t time = s.put t (k.timed tm tr th) q b l' := by
  have member := h.mem t
  rw [update_self, out] at member
  unfold tickListInsert
  by_cases pos : time > 0
  · have fresh : t ∉ l := fun there => by
      cases member.mp there
    refine ⟨tickListPriInsert
        (fun u => tickSub (update s.tasks t k u).tickMatch s.tickCount) time t l,
      (s.tickCount + time) % tickRange, time, true, fun k' into => ?_, fun _ => rfl, ?_⟩
    · simpa using h.insert fresh into (tickListPriInsert_perm _ time t l)
    · rw [if_pos pos, put_tickList, if_neg fresh]
      simp [modTask_eq, KState.put, timed]
  · rw [if_neg pos]
    refine ⟨l, k.tickMatch, k.tickRemain, k.tickHead, fun k' same => ?_,
      fun now => absurd now pos, rfl⟩
    simpa using h.update_same (t := t) (by simpa using same)

/-- The optional timeout of `pend_to_blk_obj`. -/
theorem put_pendTimeout (h : TickOk l (update s.tasks t k))
    (out : k.tickHead = false) (timeout : Nat) :
    ∃ l' tm tr th, (∀ k' : Ktask, k'.tickHead = th → TickOk l' (update s.tasks t k')) ∧
      (if timeout ≠ waitForever then tickListInsert (s.put t k q b l) t timeout
        else s.put t k q b l) = s.put t (k.timed tm tr th) q b l' := by
  split
  · obtain ⟨l', tm, tr, th, ok, -, eq⟩ :=
      put_tickListInsert h out timeout
    exact ⟨l', tm, tr, th, ok, eq⟩
  · refine ⟨l, k.tickMatch, k.tickRemain, k.tickHead, fun k' same => ?_, rfl⟩
    simpa using h.update_same (t := t) (by simpa using same)

/-- Linking a task that is in no list into the blocked list of `o`. -/
theorem put_blkListAdd (prio : TaskId → Nat) (free : k.taskList = .unlinked)
    (prioEq : ∀ u, (update s.tasks t k u).prio = prio u) :
    blkListAdd (s.put t k q b l) o t =
      s.put t (k.link (.blk o)) q (blkWith b o ((b o).placed prio t)) l := by
  obtain rfl : (fun u => (update s.tasks t k u).prio) = prio := funext prioEq
  unfold blkListAdd BlkObj.placed blkWith
  cases policy : (b o).blkPolicy <;>
    simp [pendListAdd, blkListLink, free, policy, modTask_eq, KState.modBlk, KState.put]

/-- The blocked list stays ordered when a task takes the place its policy says. -/
theorem BlkOk.placed {blk : ObjId → BlkObj} {tasks : TaskId → Ktask} {prio : TaskId → Nat}
    (h : BlkOk blk tasks) (free : ∀ a, (tasks t).taskList ≠ .blk a) (link : k.taskList = .blk o)
    (prioEq : ∀ u, (update tasks t k u).prio = prio u) :
    BlkOk (blkWith blk o ((blk o).placed prio t)) (update tasks t k) := by
  refine h.link free link ((blk o).placed_perm prio t) fun policy => ?_
  simp only [prioEq, BlkObj.placed, policy]
  refine pendListInsert_sorted prio t ((h.sorted o policy).imp_of_mem fun {u v} inU inV le => ?_)
  have other : ∀ w ∈ (blk o).blkList, w ≠ t :=
    fun w inW same => free o ((h.mem t o).mp (same ▸ inW))
  rwa [← prioEq, ← prioEq, update_of_ne (other u inU), update_of_ne (other v inV)]

/-- A wait begins, and the lists stay in order. -/
theorem pendToBlkObj_eq (h : Core s) (timeout : Nat) (notIdle : t ≠ idleTask)
    (state : (s.tasks t).taskState = .rdy)
    (owned : (s.blk o).objType = .mutex → (s.mutexes o).mutexTask ≠ none) :
    ∃ rq ticks tm tr th, pendToBlkObj s o t timeout =
      s.put t (((s.tasks t).timed tm tr th).pended o) rq
          (blkWith s.blk o ((s.blk o).placed (fun u => (s.tasks u).prio) t)) ticks ∧
      Core (pendToBlkObj s o t timeout) := by
  obtain ⟨link, out⟩ := (h.task t).of_rdy state
  have notBlk : ∀ a, (s.tasks t).taskList ≠ .blk a := fun a there => by
    rw [link] at there
    cases there
  have runq : ∀ k : Ktask, k.taskList = (s.tasks t).taskList → k.prio = (s.tasks t).prio →
      RunqOk s.readyQueue (update s.tasks t k) := fun k => h.runq.update_same
  have tickOk : ∀ k : Ktask, k.tickHead = (s.tasks t).tickHead →
      TickOk s.tickList (update s.tasks t k) := fun k => h.tick.update_same
  have prios : ∀ k : Ktask, k.prio = (s.tasks t).prio →
      ∀ u, (update s.tasks t k u).prio = (s.tasks u).prio := fun k same u => by
    rcases eq_or_ne u t with rfl | other <;> simp [*]
  -- the state after each operation, for the record `k` of the task
  have self := put_self s t
  obtain ⟨k, record⟩ : ∃ k, s.tasks t = k := ⟨_, rfl⟩
  rw [record] at self link out runq tickOk prios ⊢
  obtain ⟨ticks, tm, tr, th, tickOk', timed⟩ := put_pendTimeout (q := s.readyQueue) (b := s.blk)
    (tickOk { k with blkObj := some o } rfl) out timeout
  obtain ⟨rq, runq', removed⟩ := put_readyListRm (b := s.blk) (l := ticks)
    (runq { ({ k with blkObj := some o } : Ktask).timed tm tr th with taskState := .pend } rfl rfl)
    notIdle h.idleLink link
  have final : pendToBlkObj s o t timeout = s.put t ((k.timed tm tr th).pended o) rq
        (blkWith s.blk o ((s.blk o).placed (fun u => (s.tasks u).prio) t)) ticks := by
    conv_lhs => rw [← self]
    unfold pendToBlkObj
    simp only [put_modTask, timed, removed]
    refine (put_blkListAdd (fun u => (s.tasks u).prio) rfl fun u => ?_).trans rfl
    refine prios _ ?_ u
    rfl
  refine ⟨rq, ticks, tm, tr, th, final, ?_⟩
  rw [final]
  refine h.change notIdle (runq' _ fun p there => by cases there)
    (h.blk.placed notBlk rfl (prios _ rfl)) (tickOk' _ rfl) ⟨o, rfl, rfl⟩ ?_ ?_ ?_
  · exact record ▸ h.prio t
  · exact record ▸ h.bPrio t
  intro m type waits
  rcases eq_or_ne m o with rfl | other
  · exact owned (by simpa using type)
  · simp only [update_of_ne other] at type waits
    exact h.owner m type waits

end AliosThings.Rhino
