import AliosThings.Rhino.ObjectCalls

/-!
# The calls that change owners and priorities

Creation, timeouts, aborts and deletions of tasks, priority changes and the mutex calls: each of
them keeps the kernel's invariant, and all but three of their exits end as `Ends` says. The three
are a `krhino_task_del` of a task that is already deleted, a `krhino_mutex_unlock` that nobody
waits for, and a priority change that is refused; they return without looking at the scheduler.
-/

namespace AliosThings.Rhino

variable {f : Kmutex → Kmutex} {X : Set TaskId} {pri limit fuel high : Nat} {cur : Option ObjId}
  {s s' : KState} {m : ObjId} {t owner : TaskId}

/-! ## Owners -/

section

variable (h : Core s) (notIdle : (f (s.mutexes m)).mutexTask ≠ some idleTask)
  (owned : (s.blk m).objType = .mutex → (s.blk m).blkList ≠ [] →
    (f (s.mutexes m)).mutexTask ≠ none)
include h notIdle owned

theorem Core.setOwner : Core (s.modMutex m f) := { h with
    owner := fun a type waits => by
      rcases eq_or_ne a m with rfl | other
      · simpa [KState.modMutex] using owned type waits
      · simpa [KState.modMutex, other] using h.owner a type waits
    idleOwns := fun a => by
      rcases eq_or_ne a m with rfl | other
      · simpa [KState.modMutex] using notIdle
      · simpa [KState.modMutex, other] using h.idleOwns a }

theorem Kept.setOwner : Kept X s (s.modMutex m f) :=
  ⟨h.setOwner notIdle owned, fun _ => rfl, fun _ _ empty => empty, rfl, rfl, rfl,
    fun _ _ state => state⟩

end

/-- A change to a mutex that keeps its owner. -/
theorem Kept.modMutex (h : Core s) (same : (f (s.mutexes m)).mutexTask = (s.mutexes m).mutexTask) :
    Kept X s (s.modMutex m f) :=
  ⟨h.modMutex m same, fun _ => rfl, fun _ _ empty => empty, rfl, rfl, rfl, fun _ _ state => state⟩

/-- A mutex gets an owner, at the head of its list. -/
theorem mutexSetOwner_kept (h : Core s) (notIdle : t ≠ idleTask) :
    Kept X s (mutexSetOwner s m t) := by
  have owned : Kept X s (s.modMutex m fun k =>
      { k with mutexTask := some t, mutexList := (s.tasks t).mutexList }) :=
    .setOwner h (by simpa using notIdle) fun _ _ => by simp
  exact owned.trans (.modTask (f := fun k => { k with mutexList := some m }) owned.core t rfl rfl
    rfl rfl rfl (h.bPrio t))

/-- A turn of `task_mutex_free` at the mutex `m`: it goes to its first waiter, or to nobody. -/
inductive FreeTurn (m : ObjId) (s : KState) : KState → Prop where
  | handOver (t : TaskId) (rest : List TaskId) (list : (s.blk m).blkList = t :: rest) :
    FreeTurn m s (mutexSetOwner (pendTaskWakeup s t) m t)
  | release (list : (s.blk m).blkList = []) :
    FreeTurn m s (s.modMutex m fun k => { k with mutexTask := none })

/-- A turn of `task_mutex_free` keeps the lists. -/
theorem FreeTurn.kept (h : Core s) (turn : FreeTurn m s s') : Kept ∅ s s' := by
  cases turn with
  | handOver t _ list =>
    have linked := h.linked_head list
    have woke : Kept ∅ s (pendTaskWakeup s t) := pendTaskEnd_kept .finish h linked
    exact woke.trans (mutexSetOwner_kept woke.core (h.ne_idle_of_blk linked))
  | release list => exact .setOwner h (by simp) fun _ waits => absurd list waits

/-- What every turn keeps, `task_mutex_free` keeps, wherever the list leads. -/
theorem taskMutexFreeLoop_rule {P : KState → Prop}
    (turn : ∀ {m s s'}, Core s → FreeTurn m s s' → P s → P s') (hang : ∀ {s}, P s → P s.hang)
    (h : Core s) (start : P s) : P (taskMutexFreeLoop fuel cur s) := by
  induction fuel generalizing cur s with
  | zero =>
    cases cur with
    | none => exact start
    | some => exact hang start
  | succ _ ih =>
    cases cur
    case none => exact start
    case some m =>
    unfold taskMutexFreeLoop
    split
    · next t rest list =>
      have here : FreeTurn m s _ := .handOver t rest list
      exact ih (here.kept h).core (turn h here start)
    · next list =>
      have here : FreeTurn m s _ := .release list
      exact ih (here.kept h).core (turn h here start)

/-- `task_mutex_free` keeps the lists. -/
theorem taskMutexFree_kept (h : Core s) (t : TaskId) : Kept ∅ s (taskMutexFree s t) :=
  taskMutexFreeLoop_rule (fun h turn before => before.trans (turn.kept h))
    (fun before => before.trans (.congr before.core rfl rfl rfl rfl)) h (.refl h)

/-! ## Timeouts -/

/-- The expiry of any number of tasks keeps the lists. -/
theorem tickListUpdateLoop_kept {list : List TaskId} (h : Core s) :
    Kept ∅ s (tickListUpdateLoop list s) := by
  induction list generalizing s with
  | nil => exact .refl h
  | cons t _ ih =>
    unfold tickListUpdateLoop
    split
    · have kept := tickExpire_kept h t
      exact kept.trans (ih kept.core)
    · exact .refl h

theorem tickListUpdate_kept (h : Core s) (ticks : Int) : Kept ∅ s (tickListUpdate s ticks) := by
  have counted : Kept ∅ s { s with tickCount := ((s.tickCount + ticks) % tickRange).toNat } :=
    .congr h rfl rfl rfl rfl
  exact counted.trans (tickListUpdateLoop_kept counted.core)

/-- Round robin only moves a ready task behind its peers. -/
theorem timeSliceUpdate_kept (h : Core s) :
    Kept ∅ s (timeSliceUpdate s) ∧ SameOwnership s (timeSliceUpdate s) := by
  unfold timeSliceUpdate
  split
  · exact ⟨.refl h, .refl s⟩
  · next t rest list =>
    have linked := (h.runq.mem t _).mp (by rw [list]; exact List.mem_cons_self)
    simp only
    split
    · exact ⟨.refl h, .refl s⟩
    split
    · exact ⟨.refl h, .refl s⟩
    generalize (if (s.tasks t).timeSlice > 0 then (s.tasks t).timeSlice - 1
      else (s.tasks t).timeSlice) = left
    have counted : Untouched s (s.modTask t fun k => { k with timeSlice := left }) :=
      .modTask h t fun _ => rfl
    split
    · exact ⟨counted.kept, counted.same⟩
    have rdy : ((s.modTask t fun k => { k with timeSlice := left }).tasks t).taskState =
        .rdy := by
      have ok := h.task t
      unfold TaskOk at ok
      simp only [modTask_eq, put_tasks, Function.update_self]
      split at ok <;> simp_all
    obtain ⟨kept, same⟩ := readyListHeadToTail_kept counted.kept.core rdy
    have rotated := counted.kept.trans kept
    have renewed := Untouched.modTask (f := fun k => { k with timeSlice := k.timeTotal })
      rotated.core t fun _ => rfl
    exact ⟨rotated.trans renewed.kept, (counted.same.trans same).trans renewed.same⟩

/-! ## Creation -/

/-- A new task is suspended, or ready and scheduled. -/
theorem taskCreate_ends (inv : KInv s) (dead : ¬ (s.tasks t).Live)
    (prio ticks stackSize : Nat) (autorun : Bool) (flag : AllocFlag) :
    Ends s (taskCreate s t prio ticks stackSize autorun flag).2 := by
  have h := inv.core
  have refused : Ends s s := .still (.refl inv) rfl
  have off : (s.tasks t).taskList = .unlinked ∧ (s.tasks t).tickHead = false :=
    (h.task t).of_off (.inr (by
      unfold Ktask.Live at dead
      tauto))
  have notRdy : (s.tasks t).taskState ≠ .rdy := fun rdy => dead (by simp [Ktask.Live, rdy])
  have notIdle : t ≠ idleTask := h.ne_idle_of_state notRdy
  -- the new record with its node in no list
  have created : ∀ (k : Ktask) (rq : Runqueue), TaskOk k → (∀ a, k.taskList ≠ .blk a) →
      k.tickHead = false → k.prio < priMax → k.bPrio < priMax →
      RunqOk rq (Function.update s.tasks t k) → Done ∅ s (s.put t k rq s.blk s.tickList) :=
    fun k rq task after tick low bLow runq => (Kept.put (h.change notIdle runq
      (h.blk.update_not_blk (unlinked_ne_blk off.1) after)
      (h.tick.update_same (tick.trans off.2.symm)) task low bLow h.owner) (fun _ => rfl)
      (fun _ _ empty => empty) (.inr fun rdy => absurd rdy notRdy)).done inv
  unfold taskCreate
  split
  · exact refused
  split
  · exact refused
  next low =>
  refine intrptNestedLevelChk_cases refused fun _ => ?_
  split
  · exact refused
  cases autorun with
  | true =>
    refine .resched (X := ∅) ?_ fun stopped => stopped.elim
    refine (congrArg (Done ∅ s) (put_readyListAddTail rfl)).mpr ?_
    refine created _ _ (.rdy rfl rfl rfl) (fun a => by simp) rfl (by simpa using low)
      (by simpa using low) ?_
    refine h.runq.added (.inl rfl) (fun p => ?_) rfl (by simpa using low)
    simp [off.1]
  | false =>
    refine .still (created _ s.readyQueue (.off (.inl rfl) rfl rfl) (fun a => by simp) rfl
      (by simpa using low) (by simpa using low) ?_) rfl
    exact h.runq.update_not_ready (fun p => by simp [off.1]) (fun p => by simp)

/-! ## Aborts and deletions of tasks -/

/-- A wait for an object is aborted, or no mutex is concerned. -/
theorem krhinoTaskWaitAbort_cases (inv : KInv s) (t : TaskId) :
    Ordinary s (krhinoTaskWaitAbort s t).2 ∨
      ∃ s', Left s t .rdy s' ∧ (krhinoTaskWaitAbort s t).2 = coreSched (s'.clearBlkObj t) := by
  have h := inv.core
  refine intrptNestedLevelChk_cases (P := fun r => Ordinary s r ∨
    ∃ s', Left s t .rdy s' ∧ r = coreSched (s'.clearBlkObj t)) (.inl (.refl inv)) fun _ => ?_
  have abort : (s.tasks t).taskState = .pend ∨ (s.tasks t).taskState = .pendSuspended →
      ∃ s', Left s t .rdy s' ∧
        coreSched ((mutexTaskPriReset ((readyListAdd (blkListRm (tickListRm s t) t) t).modTask t
          fun k => { k with taskState := .rdy, blkState := .abort }) t).modTask t
          fun k => { k with blkObj := none }) = coreSched (s'.clearBlkObj t) := by
    intro state
    obtain ⟨o, linked, -⟩ := (h.task t).of_waiting state
    obtain ⟨rq, eq, core⟩ := leaveReady_eq .abort h linked
    refine ⟨_, ⟨o, rq, .abort, linked, core, rfl⟩, ?_⟩
    rw [← eq]
    rfl
  have awake : (s.tasks t).taskState = .sleep ∨ (s.tasks t).taskState = .sleepSuspended →
      Ordinary s (coreSched ((readyListAdd (tickListRm s t) t).modTask t
        fun k => { k with taskState := .rdy, blkState := .abort })) := by
    intro state
    refine Relisted.ordinary inv (abortSleep_relisted state h fun _ => ⟨.of_eq rfl, rfl⟩) ?_
      (by decide)
      fun _ _ differ => absurd rfl differ
    rcases state with state | state <;> simp [Ktask.Live, state]
  split
  · exact .inl (Untouched.resched inv ⟨.refl h, .refl s, rfl⟩)
  · next state =>
    exact .inl (Relisted.ordinary inv (readyListAdd_relisted h state fun _ => ⟨.of_eq rfl, rfl⟩)
      (by simp [Ktask.Live, state])
      (by decide) fun _ _ differ => absurd rfl differ)
  · next state => exact .inl (awake (.inl state))
  · next state => exact .inl (awake (.inr state))
  · next state => exact .inr (abort (.inl state))
  · next state => exact .inr (abort (.inr state))
  · exact .inl (.refl inv)
  · exact .inl (.refl inv)

theorem krhinoTaskWaitAbort_ends (inv : KInv s) (t : TaskId) :
    Ends s (krhinoTaskWaitAbort s t).2 := by
  rcases krhinoTaskWaitAbort_cases inv t with ordinary | ⟨s', left, eq⟩
  · exact ordinary.ends
  · rw [eq]
    exact .resched ((left.clear_kept inv.core (.inl rfl)).done inv) fun stopped => stopped.elim

/-- The state in which `krhino_task_dyn_del` deletes the task: `g_res_sem` has been given. -/
def KState.resGiven (s : KState) : KState :=
  { (krhinoSemGive { s with schedLock := s.schedLock + 1 } gResSem).2 with
    schedLock := (krhinoSemGive { s with schedLock := s.schedLock + 1 } gResSem).2.schedLock - 1 }

/-- Giving `g_res_sem` keeps the lists and the mutexes. -/
theorem resGiven_kept (h : Core s) : Kept ∅ s s.resGiven ∧ SameOwnership s s.resGiven := by
  obtain ⟨kept, same⟩ := semGive_locked (s := { s with schedLock := s.schedLock + 1 })
    (h.congr rfl) (Nat.succ_pos _) gResSem false
  have lock := kept.schedLock
  unfold KState.resGiven krhinoSemGive
  generalize (semGive { s with schedLock := s.schedLock + 1 } gResSem false).2 = s'
    at kept same lock ⊢
  refine ⟨⟨kept.core.congr rfl, kept.type, kept.dead, kept.active,
    ?_, kept.intrptNested, kept.ready⟩, ?_⟩
  · show s'.schedLock - 1 = s.schedLock
    rw [lock]
    rfl
  · exact ⟨same.prio, same.bPrio, same.mutexList, same.live, same.seed, same.type, same.waiters,
      same.mutexes,
      same.hung⟩

/-- The checks `krhino_task_del` and `krhino_task_dyn_del` share: a task of the allocation kind
`flag` goes on to be deleted. -/
def KState.DelProceeds (s : KState) (flag : AllocFlag) (t : TaskId) : Prop :=
  s.intrptNested = 0 ∧ (s.tasks t).prio ≠ idlePri ∧ (s.tasks t).mmAllocFlag = flag ∧
    ¬ (t = s.active ∧ s.schedLock > 0)
  deriving Decidable

/-- What the two deletions have checked before they go on with the task `t`. -/
structure Deletable (s : KState) (t : TaskId) : Prop where
  notIdle : t ≠ idleTask
  unlocked : t = s.active → s.schedLock = 0

/-- The checks of the two deletions. -/
theorem KState.DelProceeds.deletable {flag : AllocFlag} (may : s.DelProceeds flag t) (h : Core s) :
    Deletable s t where
  notIdle := ne_idle_of_prio h may.2.1
  unlocked same := Nat.eq_zero_of_not_pos fun lock => may.2.2.2 ⟨same, lock⟩

/-- `krhino_task_del` is refused by a check, or hands the mutexes of the task on and deletes it if
it exists. -/
theorem krhinoTaskDel_does (s : KState) (task : Option TaskId) :
    ¬ s.DelProceeds .staticAlloc (task.getD s.active) ∧ (krhinoTaskDel s task).2 = s ∨
      s.DelProceeds .staticAlloc (task.getD s.active) ∧
        (¬ ((taskMutexFree s (task.getD s.active)).tasks (task.getD s.active)).Live ∧
            (krhinoTaskDel s task).2 = taskMutexFree s (task.getD s.active) ∨
          (((taskMutexFree s (task.getD s.active)).tasks (task.getD s.active)).Live ∧
              (krhinoTaskDel s task).1 = .ret .success) ∧
            (krhinoTaskDel s task).2 = coreSched
              (taskDelUnlink (taskMutexFree s (task.getD s.active)) (task.getD s.active))) := by
  unfold krhinoTaskDel intrptNestedLevelChk
  split
  · next nested => exact .inl ⟨fun may => absurd nested (by have := may.1; omega), rfl⟩
  next byTask =>
  simp only
  split
  · next prio => exact .inl ⟨fun may => may.2.1 prio, rfl⟩
  next prio =>
  split
  · next flag => exact .inl ⟨fun may => flag may.2.2.1, rfl⟩
  next flag =>
  split
  · next locked => exact .inl ⟨fun may => may.2.2.2 locked, rfl⟩
  next unlocked =>
  refine .inr ⟨⟨by omega, prio, not_not.mp flag, unlocked⟩, ?_⟩
  split
  · next state => exact .inl ⟨fun live => live.1 state, rfl⟩
  · next state => exact .inl ⟨fun live => live.2 state, rfl⟩
  · next notSeed notDeleted => exact .inr ⟨⟨⟨notSeed, notDeleted⟩, rfl⟩, rfl⟩

/-- `krhino_task_dyn_del` is refused by a check or by `g_res_sem`, or deletes the task once it has
given `g_res_sem`. -/
theorem krhinoTaskDynDel_does (s : KState) (task : Option TaskId) :
    ¬ (s.DelProceeds .dynAlloc (task.getD s.active) ∧
          (s.tasks (task.getD s.active)).taskState ≠ .deleted) ∧
        (krhinoTaskDynDel s task).2 = s ∧ (krhinoTaskDynDel s task).1 ≠ .ret .success ∨
      (s.DelProceeds .dynAlloc (task.getD s.active) ∧
          (s.tasks (task.getD s.active)).taskState ≠ .deleted) ∧
        ((krhinoSemGive { s with schedLock := s.schedLock + 1 } gResSem).1 ≠ .ret .success ∧
            (krhinoTaskDynDel s task).2 = s ∧ (krhinoTaskDynDel s task).1 ≠ .ret .success ∨
          (krhinoSemGive { s with schedLock := s.schedLock + 1 } gResSem).1 = .ret .success ∧
            (krhinoTaskDynDel s task).1 = .ret .success ∧ (krhinoTaskDynDel s task).2 = coreSched
              (taskDelUnlink (taskMutexFree s.resGiven (task.getD s.active))
                (task.getD s.active))) := by
  unfold krhinoTaskDynDel intrptNestedLevelChk
  split
  · next nested =>
    exact .inl ⟨fun may => absurd nested (by have := may.1.1; omega), rfl, by simp⟩
  next byTask =>
  simp only
  split
  · next prio => exact .inl ⟨fun may => may.1.2.1 prio, rfl, by simp⟩
  next prio =>
  split
  · next flag => exact .inl ⟨fun may => flag may.1.2.2.1, rfl, by simp⟩
  next flag =>
  split
  · next locked => exact .inl ⟨fun may => may.1.2.2.2 locked, rfl, by simp⟩
  next unlocked =>
  split
  · next state => exact .inl ⟨fun may => may.2 state, rfl, by simp⟩
  next alive =>
  refine .inr ⟨⟨⟨by omega, prio, not_not.mp flag, unlocked⟩, alive⟩, ?_⟩
  split
  · next failed =>
    refine .inl ⟨failed, ?_, failed⟩
    rw [show (krhinoSemGive { s with schedLock := s.schedLock + 1 } gResSem).2 = _ from
      semGive_refused failed]
    rfl
  · next given => exact .inr ⟨not_not.mp given, rfl, rfl⟩

/-- `krhino_task_dyn_del` does nothing, or deletes a task that has not been deleted. -/
theorem krhinoTaskDynDel_deletes (s : KState) (task : Option TaskId) :
    (krhinoTaskDynDel s task).2 = s ∨ (s.DelProceeds .dynAlloc (task.getD s.active) ∧
        (s.tasks (task.getD s.active)).taskState ≠ .deleted) ∧
      (krhinoTaskDynDel s task).2 = coreSched
        (taskDelUnlink (taskMutexFree s.resGiven (task.getD s.active)) (task.getD s.active)) := by
  rcases krhinoTaskDynDel_does s task with ⟨-, same, -⟩ | ⟨may, ⟨-, same, -⟩ | ⟨-, -, eq⟩⟩
  · exact .inl same
  · exact .inl same
  · exact .inr ⟨may, eq⟩

/-- A deletion with the mutexes of the task handed on. -/
theorem taskDel_ends (inv : KInv s) (kept : Kept ∅ s s') (may : Deletable s t) :
    Ends s (coreSched (taskDelUnlink (taskMutexFree s' t) t)) := by
  have freed := kept.trans (taskMutexFree_kept kept.core t)
  have unlinked := taskDelUnlink_kept freed.core may.notIdle
  exact .resched (((freed.mono (Set.empty_subset _)).trans unlinked).done inv)
    fun same => may.unlocked same.symm

/-- `krhino_task_del` ends as it should, or it has followed the list of a deleted task. -/
theorem krhinoTaskDel_cases (inv : KInv s) (task : Option TaskId) :
    Ends s (krhinoTaskDel s task).2 ∨ Done ∅ s (krhinoTaskDel s task).2 ∧
        (krhinoTaskDel s task).2 = taskMutexFree s (task.getD s.active) ∧
        ¬ ((krhinoTaskDel s task).2.tasks (task.getD s.active)).Live := by
  rcases krhinoTaskDel_does s task with ⟨-, same⟩ | ⟨may, ⟨dead, eq⟩ | ⟨-, eq⟩⟩
  · rw [same]
    exact .inl (.still (.refl inv) rfl)
  · rw [eq]
    exact .inr ⟨(taskMutexFree_kept inv.core _).done inv, rfl, dead⟩
  · rw [eq]
    exact .inl (taskDel_ends inv (.refl inv.core) (may.deletable inv.core))

/-- `krhino_task_dyn_del` gives `g_res_sem` before it deletes. -/
theorem krhinoTaskDynDel_ends (inv : KInv s) (task : Option TaskId) :
    Ends s (krhinoTaskDynDel s task).2 := by
  rcases krhinoTaskDynDel_deletes s task with same | ⟨⟨may, -⟩, eq⟩
  · rw [same]
    exact .still (.refl inv) rfl
  · rw [eq]
    exact taskDel_ends inv (resGiven_kept inv.core).1 (may.deletable inv.core)

/-! ## Priorities -/

/-- The limit is not above the priority asked for. -/
theorem mutexPriLimitLoop_le (eq : mutexPriLimitLoop s fuel cur pri high = some limit) :
    limit ≤ high := by
  induction fuel generalizing cur pri high with
  | zero =>
    cases cur with
    | none => exact (Option.some.inj eq).ge
    | some => cases eq
  | succ fuel ih =>
    cases cur with
    | none => exact (Option.some.inj eq).ge
    | some m =>
      refine (ih eq).trans ?_
      split <;> omega

/-- The base priority of a task takes a new value. -/
def KState.rebased (s : KState) (t : TaskId) (pri : Nat) : KState :=
  s.modTask t fun k => { k with bPrio := pri }

/-- A priority change that is not refused, and the priority that the mutexes of the task allow. -/
structure PriChanges (s : KState) (t : TaskId) (pri limit : Nat) : Prop where
  alive : (s.tasks t).taskState ≠ .deleted
  notIdle : t ≠ idleTask
  low : pri < priMax
  limited : mutexPriLimit s t pri = some limit

/-- What `krhino_task_pri_change` does. -/
inductive PriChangeDoes (s : KState) (t : TaskId) (pri : Nat) : KState → Prop where
  | refuses : PriChangeDoes s t pri s
  | hangs (alive : (s.tasks t).taskState ≠ .deleted) (endless : mutexPriLimit s t pri = none) :
    PriChangeDoes s t pri s.hang
  | walks (limit : Nat) (may : PriChanges s t pri limit)
    (success : (taskPriChange (s.rebased t pri) t limit).1 = .success) :
    PriChangeDoes s t pri (coreSched (taskPriChange (s.rebased t pri) t limit).2)
  | fails (limit : Nat) (may : PriChanges s t pri limit)
    (failed : (taskPriChange (s.rebased t pri) t limit).1 ≠ .success) :
    PriChangeDoes s t pri (taskPriChange (s.rebased t pri) t limit).2

/-- Every branch of `krhino_task_pri_change` is listed. -/
theorem krhinoTaskPriChange_does (h : Core s) (t : TaskId) (pri : Nat) :
    PriChangeDoes s t pri (krhinoTaskPriChange s t pri).2 := by
  unfold krhinoTaskPriChange
  split
  · exact .refuses
  next high =>
  split
  · exact .refuses
  next low =>
  split
  · exact .refuses
  next alive =>
  refine intrptNestedLevelChk_cases .refuses fun _ => ?_
  cases limited : mutexPriLimit s t pri
  case none => exact .hangs alive limited
  case some limit =>
  have may : PriChanges s t pri limit := ⟨alive, ne_idle_of_prio h fun same => high (by omega),
    (Nat.not_le.mp low).trans (by decide), limited⟩
  have walks := PriChangeDoes.walks limit may
  have fails := PriChangeDoes.fails limit may
  unfold KState.rebased at walks fails
  simp only
  split
  · next eq =>
    rw [eq] at walks
    exact walks rfl
  · next failed eq =>
    rw [eq] at fails
    exact fails failed

section

variable (may : PriChanges s t pri limit)
include may

theorem PriChanges.bounded : limit < priMax := (mutexPriLimitLoop_le may.limited).trans_lt may.low

theorem PriChanges.based (h : Core s) :
    Kept ∅ s (s.rebased t pri) := .modTask h t rfl rfl rfl rfl rfl may.low

/-- The walk after the new base priority keeps the lists. -/
theorem PriChanges.core (h : Core s) : Core (taskPriChange (s.rebased t pri) t limit).2 ∧
      Reprioritised (s.rebased t pri) (taskPriChange (s.rebased t pri) t limit).2 :=
  taskPriChange_core (may.based h).core may.notIdle may.bounded

theorem PriChanges.done (inv : KInv s) : Done ∅ s (taskPriChange (s.rebased t pri) t limit).2 := by
  obtain ⟨core, moved⟩ := may.core inv.core
  exact ((may.based inv.core).trans (moved.kept core)).done inv

end

/-- `krhino_task_pri_change` keeps the invariant. -/
theorem krhinoTaskPriChange_inv (inv : KInv s) (t : TaskId) (pri : Nat) :
    KInv (krhinoTaskPriChange s t pri).2 := by
  have does := krhinoTaskPriChange_does inv.core t pri
  generalize (krhinoTaskPriChange s t pri).2 = r at does ⊢
  cases does with
  | refuses => exact inv
  | hangs =>
    have hung : Kept ∅ s s.hang := .congr inv.core rfl rfl rfl rfl
    exact (hung.done inv).inv inv
  | walks _ may => exact (Ends.resched (may.done inv) fun stopped => stopped.elim).inv inv
  | fails _ may => exact (may.done inv).inv inv

/-! ## The mutex calls -/

/-- A new mutex has no owner and no waiter. -/
theorem mutexCreate_ends (inv : KInv s) (fresh : (s.blk m).objType = .none) (flag : AllocFlag) :
    Ends s (mutexCreate s m flag).2 := by
  have created := objCreate_done inv fresh .mutex
  have owned : Kept ∅ (s.modBlk m fun _ => { blkList := [], blkPolicy := .pri, objType := .mutex })
      (mutexCreate s m flag).2 :=
    .setOwner
      (f := fun k => { k with mutexTask := none, mutexList := none, mmAllocFlag := flag })
      created.core (by simp) fun _ waits => absurd (by simp [KState.modBlk]) waits
  exact .still (created.trans (owned.done (created.inv inv))) rfl

/-- The owner of a mutex that is deleted loses it. -/
theorem mutexOwnerRelease_kept (h : Core s) (m : ObjId) : Kept ∅ s (mutexOwnerRelease s m) := by
  unfold mutexOwnerRelease
  split
  · next owner eq =>
    obtain ⟨core, moved⟩ := mutexRelease_core (some m) h
      fun same => h.idleOwns m (same ▸ eq)
    exact moved.kept core
  · exact .refl h

/-- `krhino_mutex_del` wakes the waiters. -/
theorem mutexDel_ends (inv : KInv s) (flag : AllocFlag) (m : ObjId) :
    Ends s (mutexDel flag s m).2 := by
  have refused : Ends s s := .still (.refl inv) rfl
  refine intrptNestedLevelChk_cases refused fun _ => ?_
  split
  · exact refused
  split
  · exact refused
  have unlisted := inv.core.modBlk_none m
  have released := mutexOwnerRelease_kept unlisted m
  obtain ⟨woke, empty⟩ := blkListForEach_woke (W := []) (pendTaskEnd_wakes .del m) released.core
  exact .resched (objDel_done inv (released.trans woke.kept) empty) fun stopped => stopped.elim

/-- The owner of a mutex has the priority of the running task, if that is more urgent. -/
def KState.raisedFor (s : KState) (owner : TaskId) : KState :=
  if (s.tasks s.active).prio < (s.tasks owner).prio then
    (taskPriChange s owner (s.tasks s.active).prio).2
  else s

/-- The owner is raised to the priority of the caller. -/
theorem raisedFor_core (h : Core s) (held : (s.mutexes m).mutexTask = some owner) :
    Core (s.raisedFor owner) ∧ Reprioritised s (s.raisedFor owner) := by
  unfold KState.raisedFor
  split
  · exact taskPriChange_core h (fun same => h.idleOwns m (same ▸ held)) (h.prio s.active)
  · exact ⟨h, .refl s⟩

/-- What `krhino_mutex_lock` can do. -/
inductive LockDoes (s : KState) (m : ObjId) (ticks : Nat) : KRet × KState → Prop where
  | refuses (e : Kstat) (error : e ≠ .success ∧ e ≠ .mutexOwnerNested) :
    LockDoes s m ticks (.ret e, s)
  | relocks (type : (s.blk m).objType = .mutex) (mine : (s.mutexes m).mutexTask = some s.active)
    (room : (s.mutexes m).ownerNested ≠ mutexNestedMax) :
    LockDoes s m ticks
      (.ret .mutexOwnerNested, s.modMutex m fun k => { k with ownerNested := k.ownerNested + 1 })
  | takes (nested : s.intrptNested = 0) (type : (s.blk m).objType = .mutex)
    (free : (s.mutexes m).mutexTask = none) :
    LockDoes s m ticks
      (.ret .success, (mutexSetOwner s m s.active).modMutex m fun k => { k with ownerNested := 1 })
  | waits (owner : TaskId) (nested : s.intrptNested = 0) (type : (s.blk m).objType = .mutex)
    (held : (s.mutexes m).mutexTask = some owner) (differ : s.active ≠ owner)
    (patient : ticks ≠ noWait) (unlocked : s.schedLock = 0) :
    LockDoes s m ticks (.blocks, coreSched (pendToBlkObj (s.raisedFor owner) m s.active ticks))

/-- Every branch of `krhino_mutex_lock` is listed. -/
theorem krhinoMutexLock_does (h : Core s) (m : ObjId) (ticks : Nat) :
    LockDoes s m ticks (krhinoMutexLock s m ticks) := by
  unfold krhinoMutexLock intrptNestedLevelChk
  split
  · exact .refuses _ (by decide)
  next level =>
  have nested : s.intrptNested = 0 := by omega
  split
  · exact .refuses _ (by decide)
  next same =>
  have type := not_ne_iff.mp same
  split
  · next mine =>
    split
    · exact .refuses _ (by decide)
    · next room => exact .relocks type mine room
  next notMine =>
  split
  · next free => exact .takes nested type free
  · next owner held =>
    split
    · exact .refuses _ (by decide)
    next patient =>
    split
    · exact .refuses _ (by decide)
    next lock =>
    have turn : LockDoes s m ticks _ := .waits owner nested type held
      (fun same => notMine (same ▸ held)) patient (Nat.eq_zero_of_not_pos lock)
    rw [← (raisedFor_core h held).2.active] at turn
    exact turn

theorem krhinoMutexLock_ends (inv : KInv s) (m : ObjId) (ticks : Nat)
    (notIdle : s.intrptNested = 0 → s.active ≠ idleTask) :
    Ends s (krhinoMutexLock s m ticks).2 := by
  have h := inv.core
  have does := krhinoMutexLock_does h m ticks
  generalize krhinoMutexLock s m ticks = r at does ⊢
  cases does with
  | refuses => exact .still (.refl inv) rfl
  | relocks =>
    refine .still (Kept.done inv ?_) rfl
    exact .modMutex (f := fun k => { k with ownerNested := k.ownerNested + 1 }) h rfl
  | takes nested =>
    have owned := mutexSetOwner_kept (m := m) (X := ∅) h (notIdle nested)
    have counted : Kept ∅ (mutexSetOwner s m s.active)
        ((mutexSetOwner s m s.active).modMutex m fun k => { k with ownerNested := 1 }) :=
      .modMutex owned.core rfl
    exact .still ((owned.trans counted).done inv) rfl
  | waits owner nested type held differ patient unlocked =>
    obtain ⟨core, moved⟩ := raisedFor_core h held
    have kept : Kept {s.active} s (s.raisedFor owner) := moved.kept core
    have pended := pendToBlkObj_kept ticks core (notIdle nested)
      ((moved.taskState _).trans (inv.running (.inl nested)))
      (by rw [moved.waiters.type, type]; decide)
      (fun _ => by rw [moved.mutexTask, held]; simp)
    exact .resched ((kept.trans pended).done inv) fun _ => unlocked

/-- The running task has undone its last lock of `m`. -/
def KState.unlocked (s : KState) (m : ObjId) : KState :=
  mutexRelease (s.modMutex m fun k => { k with ownerNested := 0 }) s.active (some m)

/-- The mutex has left the list of its owner. -/
theorem unlocked_core (h : Core s) (held : (s.mutexes m).mutexTask = some s.active) :
    Core (s.unlocked m) ∧
      Reprioritised (s.modMutex m fun k => { k with ownerNested := 0 }) (s.unlocked m) :=
  mutexRelease_core (some m) (h.modMutex m rfl) fun same => h.idleOwns m (same ▸ held)

/-- What `krhino_mutex_unlock` can do. -/
inductive UnlockDoes (s : KState) (m : ObjId) : KRet × KState → Prop where
  | refuses (e : Kstat) (error : e ≠ .success ∧ e ≠ .mutexOwnerNested) : UnlockDoes s m (.ret e, s)
  | counts (left : Nat) (type : (s.blk m).objType = .mutex)
    (held : (s.mutexes m).mutexTask = some s.active)
    (count : ((s.mutexes m).ownerNested + 2 ^ 32 - 1) % 2 ^ 32 = left) (more : left > 0) :
    UnlockDoes s m (.ret .mutexOwnerNested, s.modMutex m fun k => { k with ownerNested := left })
  | frees (nested : s.intrptNested = 0) (type : (s.blk m).objType = .mutex)
    (held : (s.mutexes m).mutexTask = some s.active)
    (count : ((s.mutexes m).ownerNested + 2 ^ 32 - 1) % 2 ^ 32 = 0)
    (list : ((s.unlocked m).blk m).blkList = []) :
    UnlockDoes s m (.ret .success, (s.unlocked m).modMutex m fun k => { k with mutexTask := none })
  | passes (t : TaskId) (rest : List TaskId) (nested : s.intrptNested = 0)
    (type : (s.blk m).objType = .mutex) (held : (s.mutexes m).mutexTask = some s.active)
    (count : ((s.mutexes m).ownerNested + 2 ^ 32 - 1) % 2 ^ 32 = 0)
    (list : ((s.unlocked m).blk m).blkList = t :: rest) :
    UnlockDoes s m (.ret .success, coreSched
      ((mutexSetOwner (pendTaskWakeup (s.unlocked m) t) m t).modMutex m
        fun k => { k with ownerNested := 1 }))

/-- Every branch of `krhino_mutex_unlock` is listed. -/
theorem krhinoMutexUnlock_does (s : KState) (m : ObjId) :
    UnlockDoes s m (krhinoMutexUnlock s m) := by
  unfold krhinoMutexUnlock intrptNestedLevelChk
  split
  · exact .refuses _ (by decide)
  next level =>
  have nested : s.intrptNested = 0 := by omega
  split
  · exact .refuses _ (by decide)
  next same =>
  have type := not_ne_iff.mp same
  split
  · exact .refuses _ (by decide)
  next owns =>
  have held := not_ne_iff.mp owns
  simp only
  generalize count : ((s.mutexes m).ownerNested + 2 ^ 32 - 1) % 2 ^ 32 = left
  split
  · next more => exact .counts left type held count more
  next zero =>
  obtain rfl : left = 0 := by omega
  split
  · next list => exact .frees nested type held count list
  · next t rest list => exact .passes t rest nested type held count list

/-- `krhino_mutex_unlock` ends as it should, or it has released a mutex nobody waits for. -/
theorem krhinoMutexUnlock_cases (inv : KInv s) (m : ObjId) :
    Ends s (krhinoMutexUnlock s m).2 ∨
      Done ∅ s (krhinoMutexUnlock s m).2 ∧ (s.blk m).objType = .mutex ∧
        (s.mutexes m).mutexTask = some s.active ∧ (s.blk m).blkList = [] ∧
        (krhinoMutexUnlock s m).2 =
          (mutexRelease (s.modMutex m fun k => { k with ownerNested := 0 }) s.active
            (some m)).modMutex m fun k => { k with mutexTask := none } := by
  have h := inv.core
  have counted count : Kept ∅ s (s.modMutex m fun k => { k with ownerNested := count }) :=
      .modMutex h rfl
  have does := krhinoMutexUnlock_does s m
  generalize krhinoMutexUnlock s m = r at does ⊢
  cases does with
  | refuses => exact .inl (.still (.refl inv) rfl)
  | counts left => exact .inl (.still ((counted left).done inv) rfl)
  | frees _ type held _ list =>
    obtain ⟨core, moved⟩ := unlocked_core h held
    have freed : Kept ∅ s _ := ((counted 0).trans (moved.kept core)).trans
      ((FreeTurn.release list).kept core)
    exact .inr ⟨freed.done inv, type, held, (moved.waiters.nil_iff m).mp list, rfl⟩
  | passes t rest _ _ held _ list =>
    obtain ⟨core, moved⟩ := unlocked_core h held
    have owned : Kept ∅ s _ := ((counted 0).trans (moved.kept core)).trans
      ((FreeTurn.handOver t rest list).kept core)
    have nestedOnce := owned.trans (.modMutex (m := m) (f := fun k => { k with ownerNested := 1 })
      owned.core rfl)
    exact .inl (.resched (nestedOnce.done inv) fun stopped => stopped.elim)

end AliosThings.Rhino
