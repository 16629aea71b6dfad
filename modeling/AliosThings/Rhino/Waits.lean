import AliosThings.Rhino.Balance

/-!
# What a kernel call does to the waits of the tasks

Every call is a step of the waits, unless it is a tick, creates a task or puts its caller to sleep
(`CallStep`).
-/

namespace AliosThings.Rhino

open Lib

/-! ## Waits that end -/

variable {M X : Set ObjId} {W : List (Nat × Nat)} {s : KState}

/-- A timeout ends one wait. -/
theorem tickExpire_waits (h : Core s) (t : TaskId) : s.view.Step M X W (tickExpire s t).view := by
  have state := (s.tasks t).taskState.expired_cases
  rcases tickExpire_view h t with ⟨same, -⟩ | ⟨asleep, eq⟩ | ⟨⟨o, waits⟩, eq⟩
  · rw [same]
    exact .refl _
  · rw [eq]
    exact .rise .finish asleep state
  · rw [eq]
    exact .quit waits state (.inl rfl)

theorem tickListUpdateLoop_waits {list : List TaskId} (h : Core s) :
    s.view.Step M X W (tickListUpdateLoop list s).view := by
  induction list generalizing s with
  | nil => exact .refl _
  | cons t _ ih =>
    unfold tickListUpdateLoop
    split
    · exact (tickExpire_waits h t).trans (ih (tickExpire_kept h t).core)
    · exact .refl _

/-- An abort ends one wait. -/
theorem krhinoTaskWaitAbort_waits (h : Core s) (t : TaskId) :
    s.view.Step M X W (krhinoTaskWaitAbort s t).2.view := by
  rcases krhinoTaskWaitAbort_view h t with same | ⟨state, eq⟩ | ⟨asleep | ⟨o, waits⟩, eq⟩
  · exact .of_eq same
  · rw [eq]
    refine .put (.rests ?_ rfl ⟨rfl, rfl, rfl, rfl, rfl, rfl⟩ rfl) (List.Sublist.refl _)
    exact (phase_free (.inr state)).symm
  · rw [eq]
    exact .rise .abort asleep (.inl rfl)
  · rw [eq]
    exact .quit waits (.inl rfl) (.inr rfl)

/-! ## Deletions -/

variable {s' r : KState} {t : TaskId} {m : ObjId} {fuel : Nat} {cur : Option ObjId} {c : KCall}

/-- A mutex that is freed goes to a waiter. -/
theorem FreeTurn.waits (h : Core s) (turn : FreeTurn m s s') (dealt : m ∈ X ∪ M) :
    s.view.Step M X W s'.view := by
  cases turn with
  | handOver _ _ list =>
    rw [mutexSetOwner_view]
    exact pendTaskEnd_waits .finish h (h.linked_head list) dealt
  | release => exact .of_eq rfl

/-- So does each mutex of a task that is deleted. -/
theorem taskMutexFreeLoop_waits {l : List ObjId} (h : Core s) (chain : Chain s.nextMutex cur l)
    (nodup : l.Nodup) (enough : l.length ≤ fuel) (dealt : ∀ m ∈ l, m ∈ M) :
    s.view.Step M X W (taskMutexFreeLoop fuel cur s).view := by
  refine (taskMutexFreeLoop_chain (P := fun rest r => s.view.Step M X W r.view ∧ ∀ m ∈ rest, m ∈ M)
    (fun {m rest r r'} core _ turn ⟨before, dealt⟩ => ?_) h chain nodup enough ⟨.refl _, dealt⟩).1
  obtain ⟨here, dealtRest⟩ := List.forall_mem_cons.mp dealt
  exact ⟨before.trans (turn.waits core (.inr here)), dealtRest⟩

/-- Whatever the lists lead to. -/
theorem taskMutexFreeLoop_waits_any (all : ∀ o, o ∈ M) (h : Core s) :
    s.view.Step M X W (taskMutexFreeLoop fuel cur s).view :=
  taskMutexFreeLoop_rule (P := fun r => s.view.Step M X W r.view)
    (fun core turn before => before.trans (turn.waits core (.inr (all _)))) (fun before => before) h
    (.refl _)

/-- `task_mutex_free` deals with mutexes only, unless it follows the list of a task that does not
exist. -/
theorem taskMutexFree_waits (h : Core s) (mutexes : ∀ m, (s.blk m).objType = .mutex → m ∈ M)
    (free : (∀ o, o ∈ M) ∨ InBalance s ∧ ((s.tasks t).Live ∨ (s.tasks t).mutexList = none)) :
    s.view.Step M X W (taskMutexFree s t).view := by
  rcases free with all | ⟨bal, live | none⟩
  · exact taskMutexFreeLoop_waits_any all h
  · obtain ⟨l, holds⟩ := bal.own.holds t live
    exact taskMutexFreeLoop_waits h holds.chain holds.nodup (bal.own.enough holds)
      fun a inList => mutexes a (holds.types a inList)
  · unfold taskMutexFree taskMutexFreeLoop
    rw [none]
    exact .refl _

theorem taskDelUnlink_waits (h : Core s) (t : TaskId) :
    s.view.Step M X W (taskDelUnlink s t).view := by
  by_cases live : (s.tasks t).Live
  · rw [taskDelUnlink_view h live]
    exact .die _
  · rw [taskDelUnlink_dead live]
    exact .refl _

/-- A deletion ends the wait of the task, and serves those for its mutexes. -/
theorem krhinoTaskDel_waits (inv : KInv s) (task : Option TaskId)
    (mutexes : ∀ m, (s.blk m).objType = .mutex → m ∈ M)
    (free : (∀ o, o ∈ M) ∨ InBalance s ∧ (KCall.taskDel task).NoStaleDelete s) :
    s.view.Step M X W (krhinoTaskDel s task).2.view := by
  have freed := taskMutexFree_waits (X := X) (W := W) inv.core mutexes free
  rcases krhinoTaskDel_does s task with ⟨-, same⟩ | ⟨-, ⟨-, eq⟩ | ⟨-, eq⟩⟩
  · rw [same]
    exact .refl _
  · rw [eq]
    exact freed
  · rw [eq, coreSched_view]
    exact freed.trans (taskDelUnlink_waits (taskMutexFree_kept inv.core _).core _)

/-! ## Mutexes -/

/-- A deleted mutex frees its waiters. -/
theorem mutexDel_waits (inv : KInv s) (flag : AllocFlag) (dealt : m ∈ X) :
    s.view.Step M X W (mutexDel flag s m).2.view := by
  refine intrptNestedLevelChk_cases (P := fun r => s.view.Step M X _ r.view) (.refl _) fun _ => ?_
  split
  · exact .refl _
  split
  · exact .refl _
  rw [coreSched_view]
  have unnamed : s.view.Step M X W (s.modBlk m fun b => { b with objType := .none }).view :=
    modBlk_waits dealt fun _ => rfl
  have released := mutexOwnerRelease_kept (m := m) (inv.core.modBlk_none m)
  exact (unnamed.trans (.of_eq (mutexOwnerRelease_view _ m))).trans
    ((blkListForEach_woke (pendTaskEnd_wakes .del m) released.core).1.step dealt)

/-- An unlock serves at most one waiter. -/
theorem krhinoMutexUnlock_waits (inv : KInv s) (dealt : m ∈ X) :
    s.view.Step M X W (krhinoMutexUnlock s m).2.view := by
  have released : s.view.Step M X W (s.unlocked m).view := .of_eq (mutexRelease_view ..)
  have does := krhinoMutexUnlock_does s m
  generalize krhinoMutexUnlock s m = r at does ⊢
  cases does with
  | refuses => exact .refl _
  | counts => exact .of_eq rfl
  | frees => exact released
  | passes w rest _ _ held _ list =>
    have handed := FreeTurn.waits (M := M) (W := W) (unlocked_core inv.core held).1
      (.handOver w rest list) (.inl dealt)
    rw [coreSched_view]
    exact released.trans handed

/-- A lock is granted or refused, or its caller waits. -/
theorem krhinoMutexLock_calls (inv : KInv s) (o : ObjId) (ticks : Nat) :
    s.view.Step M X W (krhinoMutexLock s o ticks).2.view ∨
      ∃ g, Blocks s (.mutexLock o ticks) g (krhinoMutexLock s o ticks) := by
  have does := krhinoMutexLock_does inv.core o ticks
  generalize krhinoMutexLock s o ticks = r at does ⊢
  cases does
  case refuses e error => exact .inl (.refl _)
  case relocks type mine room => exact .inl (.of_eq rfl)
  case takes nested type free => exact .inl (.of_eq (mutexSetOwner_view s s.active o))
  case waits owner nested type held differ patient unlocked =>
  have view : (s.raisedFor owner).view = s.view := by
    unfold KState.raisedFor
    split
    · exact taskPriChange_view ..
    · rfl
  have rdy := ((raisedFor_core inv.core held).2.taskState s.active).trans
    (inv.running (.inl nested))
  refine .inr ⟨fun w => { w with taskState := .pend, obj := some o }, rfl, nested,
    running_free inv nested, ?_, fun _ => rfl, fun _ => rfl, fun _ => rfl, ?_⟩
  · rw [coreSched_view, pendToBlkObj_view rdy, view]
    exact View.block_eq s.view o s.active ticks
  · exact timeout_ne_zero patient

/-! ## Every call -/

/-- What a call does to the waits of the tasks, where it deals with the objects of `X`. -/
inductive CallStep (M X : Set ObjId) (W : List (Nat × Nat)) (s : KState) (c : KCall)
    (r : KRet × KState) : Prop where
  | quiet (step : s.view.Step M X W r.2.view)
  | ticks (n : Nat) (tick : c.isTick) (step : { s.view with tickCount := n }.Step M X W r.2.view)
  | makes (o : ObjId) (names : c.createdObj = some o) (task : r.2.view.task = s.view.task)
    (ticks : r.2.view.tickList = s.view.tickList)
    (tickCount : r.2.view.tickCount = s.view.tickCount)
    (object : ∀ a, a ≠ o → s.view.SameObject r.2.view a) (mem : r.2.view.mem = s.view.mem)
  | creates (t : TaskId) (w : TaskView) (names : c.createdTask = some t)
    (absent : (s.view.task t).phase = .absent) (free : w.phase = .free)
    (view : r.2.view = s.view.put t w s.view.tickList)
  | blocks (g : TaskView → TaskView) (blocks : Blocks s c g r)

theorem CallActs.callStep {r : KRet × KState} (h : CallActs s c r) (dealt : ∀ o ∈ c.object, o ∈ X) :
    CallStep M X (c.stores s) s c r := by
  cases h with
  | acts acts => exact .quiet (acts.step dealt)
  | makes o names _ task ticks tickCount object mem =>
    exact .makes o names task ticks tickCount object mem
  | parks g parks => exact .blocks g parks.toBlocks

variable {o : ObjId}

/-- A new task waits for nothing. -/
theorem taskCreate_calls (prio ticks stackSize : Nat) (autorun : Bool) (flag : AllocFlag)
    (fresh : ¬ (s.tasks t).Live) :
    CallStep M X W s (.taskCreate t prio ticks stackSize autorun flag)
      (taskCreate s t prio ticks stackSize autorun flag) := by
  have absent : (s.view.task t).phase = .absent := by
    refine phase_absent ?_
    by_contra live
    exact fresh (not_or.mp live)
  unfold taskCreate
  split
  · exact .quiet (.refl _)
  split
  · exact .quiet (.refl _)
  unfold intrptNestedLevelChk
  split
  · exact .quiet (.refl _)
  split
  · exact .quiet (.refl _)
  have view (k : Ktask) : (s.setTask t k).view = s.view.put t k.view s.view.tickList :=
    modTask_view s t fun _ => k
  cases autorun with
  | true =>
    exact .creates t _ rfl absent (by rfl)
      ((coreSched_view _).trans ((readyListAddTail_view _ t).trans (view _)))
  | false => exact .creates t _ rfl absent (by rfl) (view _)

/-- The deletion of a task that is not `K_DELETED`, in a state `r` that has the mutexes of `s`. -/
theorem taskDel_waits (kept : Kept ∅ s r) (same : SameOwnership s r)
    (mutexes : ∀ m, (s.blk m).objType = .mutex → m ∈ M) (free : (∀ o, o ∈ M) ∨ InBalance s)
    (alive : (s.tasks t).taskState ≠ .deleted) :
    r.view.Step M X W (coreSched (taskDelUnlink (taskMutexFree r t) t)).view := by
  rw [coreSched_view]
  refine View.Step.trans (taskMutexFree_waits kept.core
    (fun m type => mutexes m (kept.type m ▸ type)) (free.imp id fun bal => ?_))
    (taskDelUnlink_waits (taskMutexFree_kept kept.core _).core _)
  refine ⟨same.inBalance bal, ?_⟩
  rw [same.live, same.mutexList]
  by_cases seed : (s.tasks t).taskState = .seed
  · exact .inr (bal.own.seed _ seed)
  · exact .inl ⟨seed, alive⟩

theorem krhinoTaskDynDel_waits (inv : KInv s) (task : Option TaskId) (dealt : gResSem ∈ X)
    (mutexes : ∀ m, (s.blk m).objType = .mutex → m ∈ M) (free : (∀ o, o ∈ M) ∨ InBalance s) :
    s.view.Step M X W (krhinoTaskDynDel s task).2.view := by
  rcases krhinoTaskDynDel_deletes s task with unchanged | ⟨⟨-, alive⟩, eq⟩
  · rw [unchanged]
    exact .refl _
  have given : s.view.Step M X W s.resGiven.view :=
    View.Step.trans (.of_eq rfl) (semGive_waits (s := { s with schedLock := s.schedLock + 1 })
      (inv.core.congr rfl) dealt false)
  obtain ⟨kept, same⟩ := resGiven_kept inv.core
  rw [eq]
  exact given.trans (taskDel_waits kept same mutexes free alive)

theorem krhinoIntrptExit_view (s : KState) : (krhinoIntrptExit s).view = s.view := by
  unfold krhinoIntrptExit
  simp only
  split
  · rfl
  split
  · rfl
  · exact switchToPreferred_view _

/-- Priorities do not show. -/
theorem krhinoTaskPriChange_view (h : Core s) (t : TaskId) (pri : Nat) :
    (krhinoTaskPriChange s t pri).2.view = s.view := by
  have walked (limit : Nat) : (taskPriChange (s.rebased t pri) t limit).2.view = s.view :=
    (taskPriChange_view ..).trans (modTask_view_same fun _ => rfl)
  have does := krhinoTaskPriChange_does h t pri
  generalize (krhinoTaskPriChange s t pri).2 = r at does ⊢
  cases does with
  | refuses | hangs => rfl
  | walks limit => exact (coreSched_view _).trans (walked limit)
  | fails limit => exact walked limit

/-- A call is a step of the waits, a tick, the creation of a task, or puts its caller to sleep. -/
theorem exec_callStep (inv : KInv s) (may : c.Allowed s)
    (mutexes : ∀ m, (s.blk m).objType = .mutex → m ∈ M) (dealt : ∀ o ∈ c.object, o ∈ X)
    (free : (∀ o, o ∈ M) ∨ InBalance s ∧ c.NoStaleDelete s) :
    CallStep M X (c.stores s) s c (c.exec s) := by
  have h := inv.core
  cases c with
  | taskCreate t prio ticks stackSize autorun flag =>
    exact taskCreate_calls prio ticks stackSize autorun flag (may.freshTask t rfl).2
  | taskPriChange t pri => exact .quiet (.of_eq (krhinoTaskPriChange_view h t pri))
  | taskWaitAbort t => exact .quiet (krhinoTaskWaitAbort_waits h t)
  | taskDel task => exact .quiet (krhinoTaskDel_waits inv task mutexes free)
  | taskDynDel task =>
    exact .quiet (krhinoTaskDynDel_waits inv task (dealt gResSem rfl) mutexes
      (free.imp id fun bal => bal.1))
  | schedDisable =>
    refine .quiet (intrptNestedLevelChk_cases (P := fun r => s.view.Step M X _ r.view) (.refl _)
      fun _ => ?_)
    split <;> exact .of_eq rfl
  | schedEnable =>
    refine .quiet (intrptNestedLevelChk_cases (P := fun r => s.view.Step M X _ r.view) (.refl _)
      fun _ => ?_)
    split
    · exact .refl _
    simp only
    split
    · exact .of_eq rfl
    · exact .of_eq (coreSched_view _)
  | intrptEnter => exact .quiet (.of_eq rfl)
  | intrptExit => exact .quiet (.of_eq (krhinoIntrptExit_view s))
  | tickProc =>
    refine .ticks _ rfl (View.Step.trans (tickListUpdateLoop_waits (s := { s with
      tickCount := ((s.tickCount + (1 : Int)) % tickRange).toNat })
      (h.congr rfl)) (.of_eq (timeSliceUpdate_view _)))
  | tickUpdate ticks =>
    exact .ticks _ rfl (tickListUpdateLoop_waits (s := { s with
      tickCount := ((s.tickCount + ticks) % tickRange).toNat })
      (h.congr rfl))
  | mutexCreate m =>
    exact .makes m rfl rfl rfl rfl (fun a other =>
      ⟨congrArg BlkObj.objType (Function.update_of_ne other _ _), rfl, rfl, rfl, rfl⟩) rfl
  | mutexDel m => exact .quiet (mutexDel_waits inv .staticAlloc (dealt m rfl))
  | mutexDynDel m => exact .quiet (mutexDel_waits inv .dynAlloc (dealt m rfl))
  | mutexLock m ticks =>
    rcases krhinoMutexLock_calls inv m ticks with step | ⟨g, blocks⟩
    · exact .quiet step
    · exact .blocks g blocks
  | mutexUnlock m => exact .quiet (krhinoMutexUnlock_waits inv (dealt m rfl))
  | _ => exact (exec_acts inv may rfl).callStep dealt

end AliosThings.Rhino
