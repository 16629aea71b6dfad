import AliosThings.Rhino.PriorityInheritance

/-!
# Task deletions that fail

`krhino_task_del` hands on the mutexes of the task before it looks at the task's state. For a
task that does not exist it then answers an error, and what it has done to the mutexes remains.
The state is unchanged exactly when there was nothing to hand on. `krhino_task_dyn_del` makes all
its checks first; the only trace a failing call leaves is the entry it has put into `g_res_list`
when `krhino_sem_give` refuses.
-/

namespace AliosThings.Rhino

open Lib List KState

/-- The mutex has neither an owner nor a waiter. -/
def KState.MutexIdle (s : KState) (m : ObjId) : Prop :=
  (s.mutexes m).mutexTask = none ∧ (s.blk m).blkList = []
  deriving Decidable

/-- The mutexes the list of a task leads through. -/
def KState.mutexesFollowed (s : KState) (t : TaskId) : List ObjId :=
  follow s.nextMutex addrRange (s.tasks t).mutexList

/-- The tasks entered in `g_res_list` after `krhino_task_dyn_del`, where `res` were before: the
entry is made once the checks are passed, before `krhino_sem_give` is called. -/
def taskDynDelResList (s : KState) (task : Option TaskId) (res : List TaskId) : List TaskId :=
  let t := task.getD s.active
  if s.DelProceeds .dynAlloc t ∧ (s.tasks t).taskState ≠ .deleted then res ++ [t] else res

/-! ## What a turn of `task_mutex_free` does -/

variable {s s' s'' : KState} {t w : TaskId} {m : ObjId} {fuel : Nat} {cur : Option ObjId}

/-- The waiters of `s'` waited in `s`, and a mutex that was idle is so still. -/
structure Freed (s s' : KState) : Prop where
  core : Core s'
  waiters : ∀ o, (s'.blk o).blkList ⊆ (s.blk o).blkList
  idle : ∀ m, s.MutexIdle m → s'.MutexIdle m
  live : ∀ t, (s'.tasks t).Live ↔ (s.tasks t).Live

theorem Freed.refl (h : Core s) : Freed s s :=
  ⟨h, fun _ => List.Subset.refl _, fun _ idle => idle, fun _ => Iff.rfl⟩

theorem Freed.trans (h : Freed s s') (h' : Freed s' s'') : Freed s s'' where
  core := h'.core
  waiters o := List.Subset.trans (h'.waiters o) (h.waiters o)
  idle m idle := h'.idle m (h.idle m idle)
  live t := (h'.live t).trans (h.live t)

/-- The turn that hands the mutex to its first waiter. -/
theorem handOver_freed (h : Core s) {rest : List TaskId} (list : (s.blk m).blkList = w :: rest) :
    Freed s (mutexSetOwner (pendTaskWakeup s w) m w) ∧
      w ∉ ((mutexSetOwner (pendTaskWakeup s w) m w).blk m).blkList := by
  have linked := h.linked_head list
  have woke : Kept ∅ s (pendTaskWakeup s w) := pendTaskEnd_kept .finish h linked
  have owned : Kept ∅ _ _ := mutexSetOwner_kept (m := m) woke.core (h.ne_idle_of_blk linked)
  obtain ⟨rq, eq, -⟩ := pendTaskEnd_eq .finish h linked
  have blk (o : ObjId) : (mutexSetOwner (pendTaskWakeup s w) m w).blk o =
      blkWithout s.blk m w o := by
    show (pendTaskEnd .finish s w).blk o = _
    rw [eq]
    rfl
  have nodup : (s.blk m).blkList.Nodup := h.blk.nodup m
  refine ⟨⟨owned.core, fun o => ?_, fun a idle => ?_, fun u => ?_⟩, ?_⟩
  · rw [blk]
    rcases eq_or_ne o m with rfl | other
    · simpa using erase_subset
    · simp [blkWithout, other]
  · have other : a ≠ m := fun same => by simp [MutexIdle, same, list] at idle
    have mutexes : (pendTaskWakeup s w).mutexes = s.mutexes := by
      show (pendTaskEnd .finish s w).mutexes = _
      rw [eq]
      rfl
    refine ⟨?_, ?_⟩
    · simpa [mutexSetOwner, modMutex, modTask, setTask, other, mutexes] using idle.1
    · rw [blk]
      simpa [blkWithout, other] using idle.2
  · exact (mutexSetOwner_live u).trans (pendTaskEnd_live .finish h linked u)
  · rw [blk]
    simpa using fun inList => nodup.not_mem_erase inList

/-- The turn that finds no waiter. -/
theorem release_freed (h : Core s) (list : (s.blk m).blkList = []) :
    Freed s (s.modMutex m fun k => { k with mutexTask := none }) where
  core := h.setOwner (by simp) fun _ waits => absurd list waits
  waiters _ := List.Subset.refl _
  idle a idle := by
    refine ⟨?_, idle.2⟩
    rcases eq_or_ne a m with rfl | other
    · simp [modMutex]
    · simpa [modMutex, other] using idle.1
  live _ := Iff.rfl

theorem taskMutexFreeLoop_freed (h : Core s) : Freed s (taskMutexFreeLoop fuel cur s) := by
  refine taskMutexFreeLoop_rule (fun core turn before => before.trans ?_)
    (fun before => ⟨before.core.congr rfl, before.waiters, before.idle, before.live⟩) h (.refl h)
  cases turn with
  | handOver _ _ list => exact (handOver_freed core list).1
  | release list => exact release_freed core list

/-- A turn at an idle mutex does nothing. -/
theorem release_idle (idle : s.MutexIdle m) :
    (s.modMutex m fun k => { k with mutexTask := none }) = s := by
  have same : (fun k : Kmutex => { k with mutexTask := none }) (s.mutexes m) = s.mutexes m := by
    rw [← idle.1]
  show { s with mutexes := Function.update s.mutexes m _ } = s
  rw [same, Function.update_eq_self]

/-- Nothing is handed on where every mutex of the list is idle. -/
theorem taskMutexFreeLoop_idle (idle : ∀ m ∈ follow s.nextMutex fuel cur, s.MutexIdle m) :
    taskMutexFreeLoop fuel cur s = s ∨ (taskMutexFreeLoop fuel cur s).hung = true := by
  induction fuel generalizing cur with
  | zero =>
    cases cur with
    | none => exact .inl rfl
    | some => exact .inr rfl
  | succ _ ih =>
    cases cur with
    | none => exact .inl rfl
    | some m =>
      have here := idle m mem_cons_self
      unfold taskMutexFreeLoop
      simp only [here.2, release_idle here]
      exact ih fun a inRest => idle a (mem_cons_of_mem m inRest)

/-- Where a mutex of the list is not idle, the list is not followed in vain: its owner loses it,
or its first waiter is woken. -/
theorem taskMutexFreeLoop_changes (h : Core s) (same : taskMutexFreeLoop fuel cur s = s) :
    ∀ m ∈ follow s.nextMutex fuel cur, s.MutexIdle m := by
  induction fuel generalizing cur with
  | zero => simp [follow]
  | succ _ ih =>
    cases cur
    case none => simp [follow]
    case some m =>
    unfold taskMutexFreeLoop at same
    simp only at same
    have here : s.MutexIdle m := by
      split at same
      · next w rest list =>
        -- the woken waiter does not come back
        obtain ⟨turn, gone⟩ := handOver_freed h list
        have later : Freed _ _ := same ▸ taskMutexFreeLoop_freed turn.core
        exact absurd (later.waiters m (by rw [list]; exact mem_cons_self)) gone
      · next list =>
        have turn := release_freed h list
        have released : (s.modMutex m fun k => { k with mutexTask := none }).MutexIdle m :=
          ⟨by simp [modMutex], list⟩
        have later : Freed _ _ := same ▸ taskMutexFreeLoop_freed turn.core
        exact later.idle m released
    intro a inList
    rcases mem_cons.mp inList with rfl | inRest
    · exact here
    · simp only [here.2, release_idle here] at same
      exact ih same a inRest

/-! ## The calls -/

variable {e : Kstat} {task : Option TaskId}

/-- An error of `krhino_task_del`: a check has failed, or the task did not exist and the loop has
been run. -/
theorem krhinoTaskDel_error (inv : KInv s) (call : krhinoTaskDel s task = (.ret e, s'))
    (error : e ≠ .success) :
    ¬ s.DelProceeds .staticAlloc (task.getD s.active) ∧ s' = s ∨
      s.DelProceeds .staticAlloc (task.getD s.active) ∧
        ¬ (s.tasks (task.getD s.active)).Live ∧ s' = taskMutexFree s (task.getD s.active) := by
  have after : (krhinoTaskDel s task).2 = s' := congrArg Prod.snd call
  rw [← after]
  rcases krhinoTaskDel_does s task with refused | ⟨proceeds, ⟨dead, eq⟩ | ⟨⟨-, ret⟩, -⟩⟩
  · exact .inl refused
  · have freed : Freed s (taskMutexFree s (task.getD s.active)) := taskMutexFreeLoop_freed inv.core
    exact .inr ⟨proceeds, fun live => dead ((freed.live _).mpr live), eq⟩
  · exact absurd (KRet.ret.inj ((congrArg Prod.fst call).symm.trans ret)) error

/-- An error of `krhino_task_dyn_del`: a check has failed, or `krhino_sem_give` has. -/
theorem krhinoTaskDynDel_error (call : krhinoTaskDynDel s task = (.ret e, s'))
    (error : e ≠ .success) :
    s' = s ∧ (s.DelProceeds .dynAlloc (task.getD s.active) ∧
        (s.tasks (task.getD s.active)).taskState ≠ .deleted →
      (krhinoSemGive s gResSem).1 ≠ .ret .success) := by
  have after : (krhinoTaskDynDel s task).2 = s' := congrArg Prod.snd call
  rw [← after]
  rcases krhinoTaskDynDel_does s task with ⟨refused, same, -⟩ | ⟨-, ⟨failed, same, -⟩ | ⟨-, ret, -⟩⟩
  · exact ⟨same, fun proceeds => absurd proceeds refused⟩
  · have gives : (krhinoSemGive { s with schedLock := s.schedLock + 1 } gResSem).1 =
        (krhinoSemGive s gResSem).1 := by
      unfold krhinoSemGive semGive
      simp only
      split
      · rfl
      · split
        · split <;> rfl
        · rfl
    exact ⟨same, fun _ => by rwa [← gives]⟩
  · exact absurd (KRet.ret.inj ((congrArg Prod.fst call).symm.trans ret)) error

/-- Task 1 is deleted while it owns mutex 5, task 2 locks the mutex, and task 3 waits for it. -/
def mutexLeftBehind : List KCall :=
  [.mutexCreate 5 .staticAlloc, .taskCreate 1 20 0 1 true .staticAlloc, .mutexLock 5 100,
    .taskDel none, .taskCreate 2 15 0 1 true .staticAlloc, .mutexLock 5 100,
    .taskCreate 3 10 0 1 true .staticAlloc, .mutexLock 5 100]

end AliosThings.Rhino
