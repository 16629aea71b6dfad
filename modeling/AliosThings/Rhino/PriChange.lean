import AliosThings.Rhino.Core

/-!
# Priority changes keep the lists

`task_pri_change` gives a task another priority and moves its node to the place the new priority
dictates; `mutex_pri_look` only takes a mutex out of its owner's list. Whatever a walk along the
owners does, it is a sequence of these two, and `Reprioritised` is what such a sequence can
change: priorities, the order within lists, and `mutex_list` pointers.
-/

namespace AliosThings.Rhino

open List Function Ktask

/-! ## One task -/

/-- The record of a task whose priority becomes `p`; the node of a ready task moves along. -/
def Ktask.withPrio (k : Ktask) (p : Nat) : Ktask :=
  { k with
    prio := p
    taskList := match k.taskList with
      | .ready _ => .ready p
      | l => l }

variable {k : Ktask}

/-- A ready task moves to the list of its new priority. -/
theorem Ktask.withPrio_ready {q : Nat} (linked : k.taskList = .ready q) (p : Nat) :
    k.withPrio p = { k with prio := p, taskList := .ready p } := by
  simp only [withPrio, linked]

theorem Ktask.withPrio_unready (free : ∀ q, k.taskList ≠ .ready q) (p : Nat) :
    k.withPrio p = { k with prio := p } := by
  unfold withPrio
  split
  · exact absurd ‹_› (free _)
  · rfl

/-- The node and the state of a task still agree. -/
theorem Ktask.withPrio_taskOk (h : TaskOk k) (p : Nat) : TaskOk (k.withPrio p) := by
  unfold TaskOk at h ⊢
  have state : (k.withPrio p).taskState = k.taskState := rfl
  rw [state]
  revert h
  cases k.taskState with
  | pend | pendSuspended =>
    rintro ⟨o, link, obj⟩
    exact ⟨o, by simp only [withPrio, link], obj⟩
  | _ =>
    rintro ⟨link, tick⟩
    exact ⟨by simp only [withPrio, link], tick⟩

/-- The lists of `blk'` are those of `blk` up to their order. -/
structure SameWaiters (blk blk' : ObjId → BlkObj) : Prop where
  type : ∀ o, (blk' o).objType = (blk o).objType
  policy : ∀ o, (blk' o).blkPolicy = (blk o).blkPolicy
  perm : ∀ o, (blk' o).blkList.Perm (blk o).blkList

theorem SameWaiters.refl (blk : ObjId → BlkObj) : SameWaiters blk blk :=
  ⟨fun _ => rfl, fun _ => rfl, fun _ => Perm.refl _⟩

variable {b a c : ObjId → BlkObj}

theorem SameWaiters.trans (ab : SameWaiters a b) (bc : SameWaiters b c) : SameWaiters a c :=
  ⟨fun o => (bc.type o).trans (ab.type o), fun o => (bc.policy o).trans (ab.policy o),
    fun o => (bc.perm o).trans (ab.perm o)⟩

/-- A list with waiters keeps some. -/
theorem SameWaiters.nil_iff (ab : SameWaiters a b) (o : ObjId) :
    (b o).blkList = [] ↔ (a o).blkList = [] := by
  have perm := ab.perm o
  constructor
  · intro empty
    exact (empty ▸ perm).nil_eq.symm
  · intro empty
    exact (empty ▸ perm).eq_nil

variable {blk : ObjId → BlkObj} {o : ObjId} {l : List TaskId} {tasks : TaskId → Ktask}

theorem SameWaiters.update (perm : l.Perm (blk o).blkList) : SameWaiters blk (blkWith blk o l) := by
  refine ⟨fun a => ?_, fun a => ?_, fun a => ?_⟩ <;> rcases eq_or_ne a o with rfl | other <;>
    simp [*]

/-- A new priority for a task that is in no list ordered by priority. -/
theorem BlkOk.update_fifo (h : BlkOk blk tasks) {t : TaskId}
    (link : k.taskList = (tasks t).taskList)
    (fifo : ∀ o, (tasks t).taskList = .blk o → (blk o).blkPolicy = .fifo) :
    BlkOk blk (update tasks t k) where
  mem u o := by
    rcases eq_or_ne u t with rfl | other
    · simpa [link] using h.mem u o
    · simpa [other] using h.mem u o
  nodup := h.nodup
  sorted o policy := by
    have absent : ∀ u ∈ (blk o).blkList, u ≠ t := by
      rintro u there rfl
      rw [fifo o ((h.mem u o).mp there)] at policy
      cases policy
    refine (h.sorted o policy).imp_of_mem fun {u v} inU inV le => ?_
    rwa [update_of_ne (absent u inU), update_of_ne (absent v inV)]

/-- The list of a blocking object after `pend_list_reorder` for `t`. -/
def BlkObj.reordered (b : BlkObj) (prio : TaskId → Nat) (t : TaskId) : List TaskId :=
  match b.blkPolicy with
  | .fifo => b.blkList
  | .pri => pendListInsert prio t (b.blkList.erase t)

/-- `pend_list_reorder` loses no waiter. -/
theorem BlkObj.reordered_perm {b : BlkObj} {t : TaskId} (inList : t ∈ b.blkList)
    (prio : TaskId → Nat) : (b.reordered prio t).Perm b.blkList := by
  unfold BlkObj.reordered
  split
  · exact Perm.refl _
  · exact (pendListInsert_perm _ _ _).trans (perm_cons_erase inList).symm

/-- The list is in order again for the new priority. -/
theorem BlkOk.reordered {t : TaskId} {prio : TaskId → Nat} (h : BlkOk blk tasks)
    (linked : (tasks t).taskList = .blk o) (link : k.taskList = .blk o)
    (prioEq : ∀ u, (update tasks t k u).prio = prio u) :
    BlkOk (blkWith blk o ((blk o).reordered prio t)) (update tasks t k) := by
  cases policy : (blk o).blkPolicy with
  | fifo =>
    have fifo := h.update_fifo (link.trans linked.symm) fun a there => by
      obtain rfl := Link.blk.inj (linked.symm.trans there)
      exact policy
    simpa [BlkObj.reordered, policy] using fifo
  | pri =>
    have unlinked := h.unlink (k := k.link .unlinked) linked fun a there => by cases there
    have placed := unlinked.placed (t := t) (fun a => by simp) link
      (show ∀ u, _ = prio u by simpa using prioEq)
    simpa [BlkObj.placed, BlkObj.reordered, blkWith, policy] using placed

/-- What `pend_list_reorder` does to a state. -/
theorem put_pendListReorder {s : KState} {t : TaskId} {q : Runqueue}
    (linked : k.taskList = .blk o) (obj : k.blkObj = some o) :
    pendListReorder (s.put t k q b l) t =
      s.put t k q (blkWith b o
        ((b o).reordered (fun u => (update s.tasks t k u).prio) t)) l := by
  have prios u : (update s.tasks t (k.link .unlinked) u).prio =
      (update s.tasks t k u).prio := by
    rcases eq_or_ne u t with rfl | other <;> simp [*]
  have back : k.link (.blk o) = k := by rw [← linked]; rfl
  unfold pendListReorder
  simp only [put_tasks, update_self, obj, put_blk, put_blkListRm linked]
  cases policy : (b o).blkPolicy with
  | fifo => simp [BlkObj.reordered, policy]
  | pri =>
    simp only [pendListAdd, blkListLink, put_tasks, update_self, link_taskList,
      if_true, prios, put_blk]
    simp [modTask_eq, KState.modBlk, KState.put, BlkObj.reordered, blkWith, policy, back]

variable {s : KState} {t : TaskId} {p : Nat} {rq : Runqueue}

/-- What is left to show of a priority change: where the node goes. -/
theorem Core.withPrio (h : Core s) (notIdle : t ≠ idleTask) (low : p < priMax)
    (runq : RunqOk rq (update s.tasks t ((s.tasks t).withPrio p)))
    (blkOk : BlkOk blk (update s.tasks t ((s.tasks t).withPrio p))) (same : SameWaiters s.blk blk) :
    Core (s.put t ((s.tasks t).withPrio p) rq blk s.tickList) := by
  refine h.change notIdle runq blkOk (h.tick.update_same rfl) (withPrio_taskOk (h.task t) p)
    low (h.bPrio t) fun m type waits => ?_
  rw [same.type] at type
  exact h.owner m type (mt (same.nil_iff m).mpr waits)

/-- The case of a ready task. -/
theorem readyPriChange_eq (h : Core s) (notIdle : t ≠ idleTask) (low : p < priMax)
    (state : (s.tasks t).taskState = .rdy) :
    ∃ rq, readyPriChange s t p = s.put t ((s.tasks t).withPrio p) rq s.blk s.tickList ∧
      RunqOk rq (update s.tasks t ((s.tasks t).withPrio p)) := by
  have link := ((h.task t).of_rdy state).1
  have self := put_self s t
  have runq : RunqOk s.readyQueue (update s.tasks t (s.tasks t)) :=
    h.runq.update_same rfl rfl
  obtain ⟨k, record⟩ : ∃ k, s.tasks t = k := ⟨_, rfl⟩
  rw [record] at self link runq ⊢
  obtain ⟨rq, runq', removed⟩ := put_readyListRm (b := s.blk) (l := s.tickList) runq notIdle
    h.idleLink link
  have between := runq' (k.link .unlinked) fun q there => by cases there
  have added : ∀ rq', rq.Added rq' t p →
      RunqOk rq' (update s.tasks t (k.withPrio p)) := by
    intro rq' added
    have ok := between.added (k := k.withPrio p) added
      (fun q => by simp) (by simp [withPrio, link]) low
    rwa [update_idem] at ok
  have final : k.withPrio p = ({ k.link .unlinked with prio := p } : Ktask).link (.ready p) := by
    rw [withPrio_ready link]
    rfl
  conv in readyPriChange s t p => rw [← self]
  unfold readyPriChange
  simp only [removed, put_modTask, put_active]
  split
  · refine ⟨rq.addHead t p, ?_, added _ (.inr rfl)⟩
    rw [put_readyListAddHead rfl, final]
  · refine ⟨rq.addTail t p, ?_, added _ (.inl rfl)⟩
    rw [put_readyListAddTail rfl, final]

/-- The case of a task that waits for an object. -/
theorem pendPriChange_eq (h : Core s) (linked : (s.tasks t).taskList = .blk o) :
    ∃ blk, pendListReorder (s.modTask t fun k => { k with prio := p }) t =
        s.put t ((s.tasks t).withPrio p) s.readyQueue blk s.tickList ∧
      BlkOk blk (update s.tasks t ((s.tasks t).withPrio p)) ∧
      SameWaiters s.blk blk := by
  have obj := ((h.task t).of_blk linked).2
  have unready := withPrio_unready (blk_ne_ready linked) p
  have link : ((s.tasks t).withPrio p).taskList = .blk o := by rw [unready]; exact linked
  have start : (s.modTask t fun k => { k with prio := p }) =
      s.put t ((s.tasks t).withPrio p) s.readyQueue s.blk s.tickList := by rw [unready]; rfl
  rw [start, put_pendListReorder link obj]
  refine ⟨_, rfl, h.blk.reordered linked link fun u => rfl, SameWaiters.update ?_⟩
  exact BlkObj.reordered_perm ((h.blk.mem t o).mpr linked) _

/-- `r` is `s` with `t` where its new priority puts it. -/
abbrev Moved (s : KState) (t : TaskId) (p : Nat) (r : KState) : Prop :=
  ∃ rq blk, r = s.put t ((s.tasks t).withPrio p) rq blk s.tickList ∧ SameWaiters s.blk blk ∧
    RunqOk rq (update s.tasks t ((s.tasks t).withPrio p)) ∧
    BlkOk blk (update s.tasks t ((s.tasks t).withPrio p))

/-- One round of `task_pri_change` changes one task and keeps the lists. -/
theorem taskPriSet_eq (h : Core s) (notIdle : t ≠ idleTask) (live : (s.tasks t).Live)
    (low : p < priMax) :
    ∃ rq blk, taskPriSet s t p = s.put t ((s.tasks t).withPrio p) rq blk s.tickList ∧
      SameWaiters s.blk blk ∧ Core (taskPriSet s t p) := by
  suffices Moved s t p (taskPriSet s t p) by
    obtain ⟨rq, blk, eq, same, runq, blkOk⟩ := this
    refine ⟨rq, blk, eq, same, ?_⟩
    rw [eq]
    exact h.withPrio notIdle low runq blkOk same
  -- a task in no list just takes the priority
  have off : (s.tasks t).taskList = .unlinked →
      Moved s t p (s.modTask t fun k => { k with prio := p }) := by
    intro free
    unfold Moved
    rw [withPrio_unready fun q there => by rw [free] at there; cases there]
    refine ⟨s.readyQueue, s.blk, rfl, SameWaiters.refl _,
      h.runq.update_not_ready (fun q => by simp [free]) (fun q => by simp [free]),
      h.blk.update_not_blk (fun q => by simp [free]) (fun q => by simp [free])⟩
  have waiting : (s.tasks t).taskState = .pend ∨ (s.tasks t).taskState = .pendSuspended →
      Moved s t p (pendListReorder (s.modTask t fun k => { k with prio := p }) t) := by
    intro state
    obtain ⟨o, linked, -⟩ := (h.task t).of_waiting state
    obtain ⟨blk, eq, blkOk, same⟩ := pendPriChange_eq h linked
    refine ⟨s.readyQueue, blk, eq, same, ?_, blkOk⟩
    rw [withPrio_unready (blk_ne_ready linked)]
    exact h.runq.update_not_ready (blk_ne_ready linked) (blk_ne_ready linked)
  unfold taskPriSet
  cases state : (s.tasks t).taskState with
  | rdy =>
    obtain ⟨rq, eq, runq⟩ := readyPriChange_eq h notIdle low state
    refine ⟨rq, s.blk, eq, SameWaiters.refl _, runq, h.blk.update_not_blk ?_ ?_⟩ <;>
      simp [withPrio, ((h.task t).of_rdy state).1]
  | pend => exact waiting (.inl state)
  | pendSuspended => exact waiting (.inr state)
  | sleep => exact off ((h.task t).of_sleeping (.inl state)).1
  | sleepSuspended => exact off ((h.task t).of_sleeping (.inr state)).1
  | suspended => exact off ((h.task t).of_off (.inl state)).1
  | seed => exact absurd state live.1
  | deleted => exact absurd state live.2

/-! ## Walks along the owners -/

/-- `s'` is `s` after a number of priority changes and removals from lists of owned mutexes. -/
structure Reprioritised (s s' : KState) : Prop where
  rest : s' = { s with
    tasks := s'.tasks, blk := s'.blk, mutexes := s'.mutexes, readyQueue := s'.readyQueue
    hung := s'.hung }
  task : ∀ t, s'.tasks t = { s.tasks t with
    prio := (s'.tasks t).prio, taskList := (s'.tasks t).taskList
    mutexList := (s'.tasks t).mutexList }
  mutex : ∀ m, s'.mutexes m = { s.mutexes m with mutexList := (s'.mutexes m).mutexList }
  waiters : SameWaiters s.blk s'.blk

variable {s' s'' : KState} {pri fuel newPri : Nat}

theorem Reprioritised.refl (s : KState) : Reprioritised s s :=
  ⟨rfl, fun _ => rfl, fun _ => rfl, SameWaiters.refl _⟩

/-- Two walks are one. -/
theorem Reprioritised.trans (h : Reprioritised s s') (h' : Reprioritised s' s'') :
    Reprioritised s s'' where
  rest := by
    conv_lhs => rw [h'.rest, h.rest]
  task t := by
    conv_lhs => rw [h'.task, h.task]
  mutex m := by
    conv_lhs => rw [h'.mutex, h.mutex]
  waiters := h.waiters.trans h'.waiters

/-- A walk that does not end changes nothing else. -/
theorem Reprioritised.hang (s : KState) : Reprioritised s s.hang :=
  ⟨rfl, fun _ => rfl, fun _ => rfl, SameWaiters.refl _⟩

section

variable (h : Reprioritised s s')
include h

theorem Reprioritised.active : s'.active = s.active := by
  rw [h.rest]

theorem Reprioritised.schedLock : s'.schedLock = s.schedLock := by
  rw [h.rest]

theorem Reprioritised.intrptNested : s'.intrptNested = s.intrptNested := by
  rw [h.rest]

theorem Reprioritised.taskState (t : TaskId) : (s'.tasks t).taskState = (s.tasks t).taskState := by
  rw [h.task]

theorem Reprioritised.blkObj (t : TaskId) : (s'.tasks t).blkObj = (s.tasks t).blkObj := by
  rw [h.task]

theorem Reprioritised.bPrio (t : TaskId) : (s'.tasks t).bPrio = (s.tasks t).bPrio := by
  rw [h.task]

theorem Reprioritised.mutexTask (m : ObjId) :
    (s'.mutexes m).mutexTask = (s.mutexes m).mutexTask := by
  rw [h.mutex]

end

/-- A new priority for one task. -/
theorem Reprioritised.put (same : SameWaiters s.blk blk) :
    Reprioritised s (s.put t ((s.tasks t).withPrio p) rq blk s.tickList) where
  rest := rfl
  task u := by
    rcases eq_or_ne u t with rfl | other
    · simp [withPrio]
    · simp [other]
  mutex _ := rfl
  waiters := same

/-- A mutex leaves the list of its owner. -/
theorem Reprioritised.store (s : KState) (v : Option ObjId) (prev : MutexRef) :
    Reprioritised s (prev.store s v) := by
  cases prev with
  | task t =>
    refine ⟨rfl, fun u => ?_, fun _ => rfl, SameWaiters.refl _⟩
    rcases eq_or_ne u t with rfl | other <;> simp [MutexRef.store, modTask_eq, *]
  | mutex m =>
    refine ⟨rfl, fun _ => rfl, fun a => ?_, SameWaiters.refl _⟩
    rcases eq_or_ne a m with rfl | other <;> simp [MutexRef.store, KState.modMutex, *]

theorem Core.store (h : Core s) (v : Option ObjId) (prev : MutexRef) : Core (prev.store s v) := by
  cases prev with
  | task t =>
    exact h.modTask (f := fun k => { k with mutexList := v }) t rfl rfl rfl rfl rfl (h.bPrio t)
  | mutex m => exact h.modMutex (f := fun k => { k with mutexList := v }) m rfl

/-- The priority of the first waiter is in range. -/
theorem firstBlkPri_lt (h : Core s) (m : ObjId) (low : pri < priMax) :
    firstBlkPri s m pri < priMax := by
  unfold firstBlkPri
  split
  · exact low
  · exact h.prio _

/-- `mutex_pri_look` computes a priority in range and only unlinks a mutex. -/
theorem mutexPriLookLoop_core (rel : Option ObjId) {prev : MutexRef} (h : Core s)
    (low : pri < priMax) (newLow : newPri < priMax) :
    (mutexPriLookLoop rel fuel prev pri newPri s).1 < priMax ∧
      Core (mutexPriLookLoop rel fuel prev pri newPri s).2 ∧
      Reprioritised s (mutexPriLookLoop rel fuel prev pri newPri s).2 := by
  induction fuel generalizing prev pri newPri s with
  | zero =>
    unfold mutexPriLookLoop
    split
    · exact ⟨newLow, h, .refl s⟩
    · exact ⟨newLow, h.congr rfl, .hang s⟩
    · contradiction
  | succ fuel ih =>
    unfold mutexPriLookLoop
    split
    · exact ⟨newLow, h, .refl s⟩
    · contradiction
    rename_i m fuel' load same
    cases same
    split
    · obtain ⟨low', core, moved⟩ := ih (h.store (s.mutexes m).mutexList prev) low newLow
      exact ⟨low', core, (Reprioritised.store s _ prev).trans moved⟩
    have first := firstBlkPri_lt h m low
    refine ih h first ?_
    split
    · exact first
    · exact newLow

theorem mutexPriLook_core (rel : Option ObjId) (h : Core s) (t : TaskId) :
    (mutexPriLook s t rel).1 < priMax ∧ Core (mutexPriLook s t rel).2 ∧
      Reprioritised s (mutexPriLook s t rel).2 :=
  mutexPriLookLoop_core rel h (h.bPrio t) (h.bPrio t)

/-- The walk of `task_pri_change` keeps the lists, wherever it leads. -/
theorem taskPriChangeLoop_core (h : Core s) (notIdle : t ≠ idleTask) (low : p < priMax) :
    Core (taskPriChangeLoop fuel s t p).2 ∧ Reprioritised s (taskPriChangeLoop fuel s t p).2 := by
  induction fuel generalizing s t p with
  | zero => exact ⟨h.congr rfl, .hang s⟩
  | succ fuel ih =>
    unfold taskPriChangeLoop
    split
    · exact ⟨h, .refl s⟩
    have set : (s.tasks t).Live → Core (taskPriSet s t p) ∧ Reprioritised s (taskPriSet s t p) := by
      intro live
      obtain ⟨rq, blk, eq, same, core⟩ := taskPriSet_eq h notIdle live low
      exact ⟨core, eq ▸ Reprioritised.put same⟩
    have waiting : (s.tasks t).taskState = .pend ∨ (s.tasks t).taskState = .pendSuspended →
        ∃ o, (s.tasks t).blkObj = some o ∧ (s.blk o).blkList ≠ [] := fun state => by
      obtain ⟨o, linked, obj⟩ := (h.task t).of_waiting state
      exact ⟨o, obj, ne_nil_of_mem ((h.blk.mem t o).mpr linked)⟩
    split
    · exact ⟨h, .refl s⟩
    · exact ⟨h, .refl s⟩
    · exact set (by simp [Live, *])
    · exact set (by simp [Live, *])
    · exact set (by simp [Live, *])
    · exact set (by simp [Live, *])
    all_goals
      rename_i state
      obtain ⟨core, moved⟩ := set (by simp [Live, state])
      obtain ⟨o, obj, waits⟩ := waiting (by simp [state])
      simp only [moved.blkObj, obj]
      split
      · rename_i type
        cases owner : ((taskPriSet s t p).mutexes o).mutexTask
        case none =>
          refine absurd owner (core.owner o type ?_)
          exact mt (moved.waiters.nil_iff o).mp waits
        case some w =>
        have ownerNotIdle : w ≠ idleTask := fun same => core.idleOwns o (same ▸ owner)
        simp only
        split
        · obtain ⟨core', moved'⟩ := ih core ownerNotIdle low
          exact ⟨core', moved.trans moved'⟩
        split
        · obtain ⟨low', core', moved'⟩ := mutexPriLook_core none core w
          split
          · obtain ⟨core'', moved''⟩ := ih core' ownerNotIdle low'
            exact ⟨core'', (moved.trans moved').trans moved''⟩
          · exact ⟨core', moved.trans moved'⟩
        · exact ⟨core, moved⟩
      · exact ⟨core, moved⟩

/-- `task_pri_change` keeps the lists. -/
theorem taskPriChange_core (h : Core s) (notIdle : t ≠ idleTask) (low : p < priMax) :
    Core (taskPriChange s t p).2 ∧ Reprioritised s (taskPriChange s t p).2 :=
  taskPriChangeLoop_core h notIdle low

/-- `mutex_release` keeps the lists. -/
theorem mutexRelease_core (rel : Option ObjId) (h : Core s) (notIdle : t ≠ idleTask) :
    Core (mutexRelease s t rel) ∧ Reprioritised s (mutexRelease s t rel) := by
  obtain ⟨low, core, moved⟩ := mutexPriLook_core rel h t
  unfold mutexRelease
  generalize mutexPriLook s t rel = look at low core moved ⊢
  obtain ⟨newPri, s'⟩ := look
  simp only at low core moved ⊢
  split
  · obtain ⟨core', moved'⟩ := taskPriChange_core core notIdle low
    exact ⟨core', moved.trans moved'⟩
  · exact ⟨core, moved⟩

/-- `mutex_task_pri_reset` of a task that has just been taken out of the list of `o`. -/
theorem mutexTaskPriReset_core (h : Core s) (obj : (s.tasks t).blkObj = some o)
    (owned : (s.blk o).objType = .mutex → (s.mutexes o).mutexTask ≠ none) :
    Core (mutexTaskPriReset s t) ∧ Reprioritised s (mutexTaskPriReset s t) := by
  unfold mutexTaskPriReset
  simp only [obj]
  split
  · rename_i type
    cases owner : (s.mutexes o).mutexTask with
    | none => exact absurd owner (owned type)
    | some =>
      simp only
      split
      · exact mutexRelease_core none h fun same => h.idleOwns o (same ▸ owner)
      · exact ⟨h, .refl s⟩
  · exact ⟨h, .refl s⟩

end AliosThings.Rhino
