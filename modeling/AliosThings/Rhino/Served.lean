import AliosThings.Rhino.Waits

/-!
# What other calls leave alone, and how waiters are served

For an object that is not a mutex, a call on another object changes nothing but that waiters may
give up (`exec_undisturbed`), and so does a call that expects an object of another kind
(`exec_wrong_kind`). What remains for each kind of object are its own calls; the loops in which
they serve all waiters are described here once.
-/

namespace AliosThings.Rhino

open Lib List Option KState KCall

/-- The kind of object a call expects to find. -/
def KCall.kind : KCall → Option KobjType
  | mutexDel _ | mutexDynDel _ | mutexLock _ _ | mutexUnlock _ => some .mutex
  | semDel _ | semDynDel _ | semGive _ | semGiveAll _ | semTake _ _ | semCountSet _ _
  | taskDynDel _ => some .sem
  | eventDel _ | eventDynDel _ | eventGet _ _ _ _ _ | eventSet _ _ _ => some .event
  | queueDel _ | queueDynDel _ | queueBackSend _ _ | queueAllSend _ _ | queueRecv _ _ _
  | queueFlush _ => some .queue
  | bufQueueDel _ | bufQueueDynDel _ | bufQueueSend _ _ _ | bufQueueRecv _ _ _ _
  | bufQueueFlush _ => some .bufQueue
  | _ => none

variable {c : KCall}

/-- A call on an object creates it or expects an object of some kind. -/
theorem KCall.object_cases {o : ObjId} (on : c.object = some o) :
    c.createdObj = some o ∨ ∃ kind, c.kind = some kind := by
  cases c <;> first | exact .inl on | exact .inr ⟨_, rfl⟩

variable {kind : KobjType} {s : KState} {o : ObjId} {flag objFlag : AllocFlag}
  {reset : KState → KState}

theorem objDel_wrong_kind {type : KobjType} (wrong : (s.blk o).objType ≠ type) :
    (objDel type flag objFlag reset s o).2 = s := by
  refine intrptNestedLevelChk_cases (P := fun r => r = s) rfl fun _ => ?_
  rw [if_pos wrong]

/-- Without `g_res_sem` no allocated task can be deleted. -/
theorem krhinoTaskDynDel_wrong_kind {task : Option TaskId}
    (wrong : (s.blk gResSem).objType ≠ .sem) :
    (krhinoTaskDynDel s task).2 = s := by
  have refused : krhinoSemGive { s with schedLock := s.schedLock + 1 } gResSem =
      (.ret .kobjTypeErr, { s with schedLock := s.schedLock + 1 }) := if_pos wrong
  refine intrptNestedLevelChk_cases (P := fun r => r = s) rfl fun _ => ?_
  simp only [refused]
  split
  · rfl
  split
  · rfl
  split
  · rfl
  split
  · rfl
  · rfl

/-- A call on an object of the wrong kind does nothing. -/
theorem exec_wrong_kind (expects : c.kind = some kind) (on : c.object = some o)
    (wrong : (s.blk o).objType ≠ kind) : (c.exec s).2 = s := by
  have chk {body : KRet × KState} (same : body.2 = s) : (intrptNestedLevelChk s body).2 = s :=
    intrptNestedLevelChk_cases (P := fun r => r = s) rfl fun _ => same
  cases c <;> cases expects <;> cases on
  case mutexDel | mutexDynDel | mutexLock | mutexUnlock | semTake | semCountSet | queueFlush |
      bufQueueFlush =>
    exact chk (by rw [if_pos wrong])
  case semDel | semDynDel | eventDel | eventDynDel | queueDel | queueDynDel | bufQueueDel |
      bufQueueDynDel =>
    exact objDel_wrong_kind wrong
  case semGive | semGiveAll | queueBackSend | queueAllSend | bufQueueSend =>
    exact congrArg Prod.snd (if_pos wrong)
  case taskDynDel task => exact krhinoTaskDynDel_wrong_kind wrong
  case eventGet flags opt actlFlags ticks =>
    show (krhinoEventGet s o flags opt actlFlags ticks).2 = s
    unfold krhinoEventGet
    split
    · rfl
    · exact chk (by rw [if_pos wrong])
  case eventSet flags opt =>
    show (krhinoEventSet s o flags opt).2 = s
    unfold krhinoEventSet eventSet
    split
    · rw [if_pos wrong]
    · rw [if_pos wrong]
    · rfl
  case queueRecv ticks msg =>
    show (krhinoQueueRecv s o ticks msg).2 = s
    unfold krhinoQueueRecv
    split <;> rfl
  case bufQueueRecv ticks msg size =>
    show (krhinoBufQueueRecv s o ticks msg size).2 = s
    unfold krhinoBufQueueRecv
    split <;> rfl

/-! ## Calls that do not concern an object -/

/-- The object `o` has its data and its waiters, except for those that have given up or died. -/
structure Undisturbed (o : ObjId) (v v' : View) : Prop where
  object : v.SameObject v' o
  stays : ∀ t, (v'.task t).phase = .waiting o →
    (v.task t).phase = .waiting o ∧ (v.task t).SameRequest (v'.task t)
  leaves : ∀ t, (v.task t).phase = .waiting o → (v'.task t).phase = .waiting o ∨
    (v'.task t).phase = .free ∧ ((v'.task t).blkState = .timeout ∨ (v'.task t).blkState = .abort) ∨
    (v'.task t).phase = .absent

variable {r : KRet × KState} {M X : Set ObjId} {W : List (Nat × Nat)} {v v' : View} {t : TaskId}

theorem Undisturbed.refl (o : ObjId) (v : View) : Undisturbed o v v :=
  ⟨.refl _ _, fun _ waits => ⟨waits, .refl _⟩, fun _ waits => .inl waits⟩

/-- What a step that does not deal with `o` does to a task. -/
theorem TaskView.Passive.undisturbed {w w' : TaskView} (h : w.Passive X w') (out : o ∉ X) :
    (w'.phase = .waiting o → w.phase = .waiting o ∧ w.SameRequest w') ∧
      (w.phase = .waiting o → w'.phase = .waiting o ∨
        w'.phase = .free ∧ (w'.blkState = .timeout ∨ w'.blkState = .abort) ∨
        w'.phase = .absent) := by
  cases h with
  | rests phase _ request =>
    exact ⟨fun waits => ⟨phase ▸ waits, request⟩, fun waits => .inl (phase.trans waits)⟩
  | quits _ _ free blkState =>
    exact ⟨fun waits' => (by rw [free] at waits'; cases waits'),
      fun _ => .inr (.inl ⟨free, blkState⟩)⟩
  | served a dealt waits free =>
    refine ⟨fun waits' => (by rw [free] at waits'; cases waits'), fun waits' => ?_⟩
    rw [waits] at waits'
    cases waits'
    exact absurd dealt out
  | rises asleep free =>
    refine ⟨fun waits' => (by rw [free] at waits'; cases waits'), fun waits' => ?_⟩
    rw [asleep] at waits'
    cases waits'
  | dies absent =>
    exact ⟨fun waits' => (by rw [absent] at waits'; cases waits'),
      fun _ => .inr (.inr absent)⟩

theorem View.Step.undisturbed (h : v.Step M X W v') (out : o ∉ X) (noMutex : o ∉ M) :
    Undisturbed o v v' :=
  have outside : o ∉ X ∪ M := fun inside => inside.elim out noMutex
  ⟨h.object o out, fun t => ((h.task t).undisturbed outside).1,
    fun t => ((h.task t).undisturbed outside).2⟩

/-- The mutexes. -/
def KState.mutexSet (s : KState) : Set ObjId := {m | (s.blk m).objType = .mutex}

/-- The call `c` may be made in `s`, which is as a run without stale deletions leaves it. -/
structure Legal (s : KState) (c : KCall) : Prop where
  inv : KInv s
  bal : InBalance s
  may : c.Allowed s
  fresh : c.NoStaleDelete s

theorem exec_calls (legal : Legal s c) :
    CallStep s.mutexSet {o | o ∈ c.object} (c.stores s) s c (c.exec s) :=
  exec_callStep legal.inv legal.may (fun _ type => type) (fun _ on => on)
    (.inr ⟨legal.bal, legal.fresh⟩)

theorem KCall.object_of_createdObj (names : c.createdObj = some o) : c.object = some o := by
  cases c <;> first | exact names | cases names

/-- The data of an object are changed by calls on it only. -/
theorem CallStep.sameObject (h : CallStep M X W s c r) (out : o ∉ X) (other : c.object ≠ some o) :
    s.view.SameObject r.2.view o := by
  cases h with
  | quiet step => exact step.object o out
  | ticks _ _ step =>
    have same := step.object o out
    exact ⟨same.type, same.sem, same.event, same.queue, same.bufQueue⟩
  | makes _ names _ _ _ object =>
    exact object o fun same => other (object_of_createdObj (same ▸ names))
  | creates _ _ _ _ _ view => exact view ▸ ⟨rfl, rfl, rfl, rfl, rfl⟩
  | blocks g blocks => exact blocks.sameObject o

/-- What a call does to a task happens without its doing, unless the call creates it or puts it to
sleep. -/
theorem CallStep.task (h : CallStep M X W s c r) (t : TaskId) :
    (s.view.task t).Passive (X ∪ M) (r.2.view.task t) ∨
      (c.createdTask = some t ∧ (s.view.task t).phase = .absent ∧ (r.2.view.task t).phase = .free) ∨
      t = s.active ∧ ∃ g, Blocks s c g r := by
  cases h with
  | quiet step | ticks _ _ step => exact .inl (step.task t)
  | makes _ _ task =>
    rw [task]
    exact .inl (.refl _)
  | creates u _ names absent _ view =>
    rw [view]
    rcases eq_or_ne t u with rfl | ne
    · exact .inr (.inl ⟨names, absent, by rwa [View.put_self]⟩)
    · rw [View.put_of_ne _ _ _ ne]
      exact .inl (.refl _)
  | blocks g blocks =>
    rcases eq_or_ne t s.active with running | ne
    · exact .inr (.inr ⟨running, g, blocks⟩)
    · rw [blocks.task_other ne]
      exact .inl (.refl _)

/-- A call that does not deal with `o` leaves it undisturbed. -/
theorem CallStep.undisturbed (h : CallStep M X W s c r) (out : o ∉ X) (noMutex : o ∉ M)
    (other : c.object ≠ some o) : Undisturbed o s.view r.2.view := by
  have outside : o ∉ X ∪ M := fun inside => inside.elim out noMutex
  refine ⟨h.sameObject out other, fun u waits => ?_, fun u waits => ?_⟩
  · rcases h.task u with step | ⟨-, -, free⟩ | ⟨rfl, g, blocks⟩
    · exact (step.undisturbed outside).1 waits
    · rw [waits] at free
      cases free
    · rw [blocks.phase_active, sleepPhase] at waits
      split at waits
      · next a on => exact absurd (on.trans (congrArg some (Phase.waiting.inj waits))) other
      · cases waits
  · rcases h.task u with step | ⟨-, absent, -⟩ | ⟨rfl, g, blocks⟩
    · exact (step.undisturbed outside).2 waits
    · rw [waits] at absent
      cases absent
    · rw [blocks.free] at waits
      cases waits

/-- A call on another object. -/
theorem exec_undisturbed (legal : Legal s c) (type : (s.blk o).objType ≠ .mutex)
    (other : c.object ≠ some o) : Undisturbed o s.view (c.exec s).2.view :=
  (exec_calls legal).undisturbed other type other

/-- A call that does not expect an object of the kind of `o` is on another object or does
nothing. -/
theorem exec_outside (may : c.Allowed s) (type : (s.blk o).objType = kind)
    (isObject : kind ≠ .none) (out : ¬ (c.object = some o ∧ c.kind = some kind)) :
    c.object ≠ some o ∨ (c.exec s).2 = s := by
  by_cases on : c.object = some o
  · rcases object_cases on with names | ⟨other, expects⟩
    · exact absurd (type.symm.trans (may.freshObj o names).2) isObject
    · refine .inr (exec_wrong_kind expects on fun same => out ⟨on, ?_⟩)
      rw [expects, ← same, type]
  · exact .inl on

theorem exec_unconcerned (legal : Legal s c) (type : (s.blk o).objType = kind)
    (isObject : kind ≠ .none) (noMutex : kind ≠ .mutex)
    (out : ¬ (c.object = some o ∧ c.kind = some kind)) :
    Undisturbed o s.view (c.exec s).2.view := by
  rcases exec_outside legal.may type isObject out with other | same
  · exact exec_undisturbed legal (type ▸ noMutex) other
  · rw [same]
    exact .refl o _

/-- An object comes into being by its creation only. -/
theorem CallStep.type (h : CallStep M X W s c r) (o : ObjId) :
    (r.2.blk o).objType = (s.blk o).objType ∨ (r.2.blk o).objType = .none ∨
      c.createdObj = some o := by
  cases h with
  | quiet step | ticks _ _ step => exact (step.type o).imp id .inl
  | makes a names _ _ _ object =>
    rcases eq_or_ne o a with rfl | other
    · exact .inr (.inr names)
    · exact .inl (object o other).type
  | creates _ _ _ _ _ view => exact .inl (congrFun (congrArg View.type view) o)
  | blocks g blocks => exact .inl (blocks.sameObject o).type

/-- The call is made by the task `t`, and not by an interrupt. -/
def KCall.madeBy (s : KState) (t : TaskId) (c : KCall) : Prop :=
  t = s.active ∧ s.intrptNested = 0 ∧ c ≠ .intrptEnter
  deriving Decidable

theorem ne_active_of_not_madeBy (not : ¬ c.madeBy s t) (g : TaskView → TaskView)
    (blocks : Blocks s c g (c.exec s)) : t ≠ s.active := by
  intro running
  refine not ⟨running, blocks.nested, fun enter => ?_⟩
  subst enter
  exact KRet.noConfusion blocks.ret

/-- A task that is free keeps the result of its last wait until it waits again or is deleted. -/
theorem CallStep.of_free (h : CallStep M X W s c r) (free : (s.view.task t).phase = .free)
    (passive : ∀ g, Blocks s c g r → t ≠ s.active) :
    (r.2.view.task t).phase = .free ∧ (r.2.view.task t).blkState = (s.view.task t).blkState ∧
        (s.view.task t).SameRequest (r.2.view.task t) ∨ (r.2.view.task t).phase = .absent := by
  rcases h.task t with step | ⟨-, absent, -⟩ | ⟨running, g, blocks⟩
  · exact step.of_free free
  · rw [free] at absent
    cases absent
  · exact absurd running (passive g blocks)

/-- Where a waiter can be after a call that it has not made. -/
theorem CallStep.of_waiting (h : CallStep M X W s c r)
    (waits : (s.view.task t).phase = .waiting o) :
    (r.2.view.task t).phase = .waiting o ∧ (s.view.task t).SameRequest (r.2.view.task t) ∨
      (r.2.view.task t).phase = .free ∨ (r.2.view.task t).phase = .absent := by
  rcases h.task t with step | ⟨-, absent, -⟩ | ⟨rfl, g, blocks⟩
  · exact step.of_waiting waits
  · rw [waits] at absent
    cases absent
  · rw [blocks.free] at waits
    cases waits

/-- A task that does not exist stays so until it is created. -/
theorem CallStep.of_absent (h : CallStep M X W s c r) (absent : (s.view.task t).phase = .absent)
    (notMade : c.createdTask ≠ some t) : (r.2.view.task t).phase = .absent := by
  rcases h.task t with step | ⟨names, -⟩ | ⟨rfl, g, blocks⟩
  · exact step.of_absent absent
  · exact absurd names notMade
  · rw [blocks.free] at absent
    cases absent

/-! ## Waiters that are woken -/

/-- The waiters of `o` in `s` that have been woken with `BLK_FINISH` in `s'`. -/
def wokenFrom (s s' : KState) (o : ObjId) : List TaskId :=
  (s.blk o).blkList.filter fun t =>
    (s'.view.task t).phase = .free ∧ (s'.view.task t).blkState = .finish

variable {s' : KState}

theorem mem_wokenFrom : t ∈ wokenFrom s s' o ↔ t ∈ (s.blk o).blkList ∧
    (s'.view.task t).phase = .free ∧ (s'.view.task t).blkState = .finish := by
  simp [wokenFrom]

/-- Waiters that give up or die are not woken. -/
theorem Undisturbed.wokenFrom (h : Core s) (same : Undisturbed o s.view s'.view) :
    wokenFrom s s' o = [] := by
  refine eq_nil_iff_forall_not_mem.mpr fun t woken => ?_
  obtain ⟨waits, free, finish⟩ := mem_wokenFrom.mp woken
  rcases same.leaves t ((h.waiting_iff t o).mpr waits) with still | ⟨-, gaveUp⟩ | absent
  · rw [free] at still
    cases still
  · rw [finish] at gaveUp
    rcases gaveUp with gaveUp | gaveUp <;> cases gaveUp
  · rw [free] at absent
    cases absent

/-- Nobody joins. -/
theorem Undisturbed.blkList_nil (h : Core s) (h' : Core s') (same : Undisturbed o s.view s'.view)
    (empty : (s.blk o).blkList = []) : (s'.blk o).blkList = [] := by
  refine eq_nil_iff_forall_not_mem.mpr fun t waits => ?_
  have before := (h.waiting_iff t o).mp (same.stays t ((h'.waiting_iff t o).mpr waits)).1
  rw [empty] at before
  exact not_mem_nil before

/-- Nobody waits for `o` where nobody did, if the records of the tasks are the same. -/
theorem blkList_nil_of_task (h : Core s) (h' : Core s') (task : s'.view.task = s.view.task)
    (empty : (s.blk o).blkList = []) : (s'.blk o).blkList = [] := by
  refine eq_nil_iff_forall_not_mem.mpr fun t waits => ?_
  have there := (h'.waiting_iff t o).mpr waits
  rw [task, h.waiting_iff, empty] at there
  exact not_mem_nil there

theorem wokenFrom_of_task (h : Core s) (task : s'.view.task = s.view.task) :
    wokenFrom s s' o = [] := by
  refine eq_nil_iff_forall_not_mem.mpr fun t woken => ?_
  obtain ⟨waits, free, -⟩ := mem_wokenFrom.mp woken
  rw [task, (h.waiting_iff t o).mpr waits] at free
  cases free

/-- A caller that goes to sleep wakes nobody. -/
theorem Blocks.wokenFrom {g : TaskView → TaskView} (blocks : Blocks s c g r) (h : Core s) :
    wokenFrom s r.2 o = [] := by
  refine eq_nil_iff_forall_not_mem.mpr fun t woken => ?_
  obtain ⟨waits, free, -⟩ := mem_wokenFrom.mp woken
  have there := (h.waiting_iff t o).mpr waits
  have other : t ≠ s.active := fun same => by
    rw [same, blocks.free] at there
    cases there
  rw [blocks.task_other other, there] at free
  cases free

theorem createdObj_task (names : c.createdObj = some o) : (c.exec s).2.view.task = s.view.task := by
  cases c with
  | mutexCreate | semCreate | eventCreate => rfl
  | queueCreate =>
    simp only [exec, queueCreate]
    split <;> rfl
  | bufQueueCreate =>
    simp only [exec, bufQueueCreate]
    split
    · rfl
    split <;> rfl
  | _ => cases names

/-- The kind of the object that a call creates. -/
def KCall.makesKind : KCall → KobjType
  | mutexCreate _ _ => .mutex
  | semCreate _ _ _ => .sem
  | eventCreate _ _ _ => .event
  | queueCreate _ _ _ _ => .queue
  | bufQueueCreate _ _ _ _ _ _ => .bufQueue
  | _ => .none

theorem createdObj_kind (names : c.createdObj = some o)
    (new : ((c.exec s).2.blk o).objType ≠ (s.blk o).objType) :
    ((c.exec s).2.blk o).objType = c.makesKind := by
  cases c with
  | mutexCreate | semCreate | eventCreate =>
    cases names
    simp [exec, mutexCreate, semCreate, eventCreate, modBlk, modMutex, modSem, modEvent, makesKind]
  | queueCreate =>
    cases names
    simp only [exec, queueCreate] at new ⊢
    split at new
    · exact absurd rfl new
    · next some => simp [some, modBlk, modQueue, makesKind]
  | bufQueueCreate _ _ size =>
    cases names
    simp only [exec, bufQueueCreate] at new ⊢
    split at new
    · exact absurd rfl new
    next some =>
    split at new
    · exact absurd rfl new
    · next size => simp [some, size, modBlk, modBufQueue, makesKind]
  | _ => cases names

/-- An object that was of another kind before has just been created. -/
theorem createdObj_makes (names : c.createdObj = some o) (before : (s.blk o).objType ≠ kind)
    (type' : ((c.exec s).2.blk o).objType = kind) : c.makesKind = kind :=
  (createdObj_kind names (type' ▸ before.symm)).symm.trans type'

/-- Nobody waits for an object that has just been created. -/
theorem createdObj_blkList (inv : KInv s) (may : c.Allowed s) (names : c.createdObj = some o) :
    ((c.exec s).2.blk o).blkList = [] :=
  blkList_nil_of_task inv.core (exec_inv inv may).core (createdObj_task names)
    (inv.dead o (may.freshObj o names).2)

/-- Who still waits waits for an object of the same kind. -/
theorem still_kind (legal : Legal s c) (type : (s.blk o).objType = kind) (isObject : kind ≠ .none)
    (waits : ((c.exec s).2.view.task t).phase = .waiting o) :
    ((c.exec s).2.blk o).objType = kind := by
  have inv' := exec_inv legal.inv legal.may
  rcases (exec_calls legal).type o with same | none | names
  · exact same.trans type
  · have inList := (inv'.core.waiting_iff t o).mp waits
    rw [inv'.dead o none] at inList
    exact (not_mem_nil inList).elim
  · exact absurd (type.symm.trans (legal.may.freshObj o names).2) isObject

/-- Where a waiter is after a call that it has not made: it still waits for an object of that kind,
it has come back, with `BLK_FINISH` exactly if it was woken, or it has died. -/
theorem exec_waiter (legal : Legal s c) (type : (s.blk o).objType = kind) (isObject : kind ≠ .none)
    (waits : (s.view.task t).phase = .waiting o) : (((c.exec s).2.view.task t).phase = .waiting o ∧
        (s.view.task t).SameRequest ((c.exec s).2.view.task t) ∧
        ((c.exec s).2.blk o).objType = kind ∧ t ∉ wokenFrom s (c.exec s).2 o) ∨
      ((c.exec s).2.view.task t).phase = .free ∧
        (((c.exec s).2.view.task t).blkState = .finish ↔ t ∈ wokenFrom s (c.exec s).2 o) ∨
      ((c.exec s).2.view.task t).phase = .absent := by
  rcases (exec_calls legal).of_waiting waits with ⟨still, request⟩ | free | absent
  · refine .inl ⟨still, request, still_kind legal type isObject still, fun woken => ?_⟩
    rw [(mem_wokenFrom.mp woken).2.1] at still
    cases still
  · refine .inr (.inl ⟨free, ?_⟩)
    rw [mem_wokenFrom]
    exact ⟨fun finish => ⟨(legal.inv.core.waiting_iff t o).mp waits, free, finish⟩,
      fun woken => woken.2.2⟩
  · exact .inr (.inr absent)

theorem not_mem_wokenFrom (h : Core s) (free : (s.view.task t).phase = .free) :
    t ∉ wokenFrom s s' o := fun woken => by
  rw [(h.waiting_iff t o).mpr (mem_wokenFrom.mp woken).1] at free
  cases free

/-! ## Serving all waiters -/

/-- `f` ends the wait of a waiter of `o`, whose record becomes `F`. -/
def EndsWait (o : ObjId) (f : KState → TaskId → KState) (F : TaskStat → TaskView → TaskView) :
    Prop :=
  ∀ s t, Core s → (s.tasks t).taskList = .blk o → ∃ st, (st = .rdy ∨ st = .suspended) ∧
    (f s t).view = s.view.put t (F st (s.view.task t)) (s.tickList.erase t)

/-- All waiters of `o` have been served, and nothing else has happened. -/
structure ServedAll (F : TaskStat → TaskView → TaskView) (list : List TaskId) (v v' : View) :
    Prop where
  served : ∀ t ∈ list, ∃ st, (st = .rdy ∨ st = .suspended) ∧ v'.task t = F st (v.task t)
  others : ∀ t, t ∉ list → v'.task t = v.task t
  object : ∀ a, v.SameObject v' a
  mem : v'.mem = v.mem
  overrun : v'.overrun = v.overrun

/-- One waiter is served. -/
theorem servedOne {F : TaskStat → TaskView → TaskView} {st : TaskStat} {ticks : List TaskId}
    (state : st = .rdy ∨ st = .suspended) (view : v' = v.put t (F st (v.task t)) ticks) :
    ServedAll F [t] v v' := by
  subst view
  refine ⟨fun u inList => ?_, fun u out => ?_, fun a => ⟨rfl, rfl, rfl, rfl, rfl⟩, rfl, rfl⟩
  · obtain rfl := mem_singleton.mp inList
    exact ⟨st, state, View.put_self ..⟩
  · exact View.put_of_ne _ _ _ fun same => out (mem_singleton.mpr same)

/-- The waiters that have been served are those that were woken: the first, or all of them. -/
theorem ServedAll.wokenFrom_eq {F : TaskStat → TaskView → TaskView} {wakeAll : Bool}
    {rest : List TaskId} (served : ServedAll F (if wakeAll then t :: rest else [t]) v s'.view)
    (h : Core s) (list : (s.blk o).blkList = t :: rest) (task : v.task = s.view.task)
    (ends : ∀ st w, st = .rdy ∨ st = .suspended →
      (F st w).phase = .free ∧ (F st w).blkState = .finish) :
    wokenFrom s s' o = if wakeAll then t :: rest else [t] := by
  have woken : wokenFrom s s' o =
      (s.blk o).blkList.filter (· ∈ if wakeAll then t :: rest else [t]) := by
    refine filter_congr fun u waits => ?_
    by_cases inList : u ∈ if wakeAll then t :: rest else [t]
    · obtain ⟨st, state, eq⟩ := served.served u inList
      rw [eq]
      simp [inList, ends st _ state]
    · rw [served.others u inList, task, (h.waiting_iff u o).mpr waits]
      simp [inList]
  rw [woken, list]
  have nodup := h.blk.nodup o
  rw [list] at nodup
  cases wakeAll with
  | true => exact filter_eq_self.mpr fun u inList => by simpa using inList
  | false =>
    have others : ∀ u ∈ rest, u ≠ t := fun u inRest same =>
      (nodup_cons.mp nodup).1 (same ▸ inRest)
    simpa using others

variable {f : KState → TaskId → KState} {F : TaskStat → TaskView → TaskView}

theorem blkListDrain_served (wakes : Wakes [] o f) (ends : EndsWait o f F) {fuel : Nat}
    (h : Core s) (enough : (s.blk o).blkList.length ≤ fuel) :
    ServedAll F (s.blk o).blkList s.view (blkListDrain f o fuel s).view := by
  induction fuel generalizing s with
  | zero =>
    have empty := eq_nil_of_length_eq_zero (Nat.le_zero.mp enough)
    unfold blkListDrain
    rw [empty]
    exact ⟨fun t inNil => (not_mem_nil inNil).elim, fun _ _ => rfl, .refl _, rfl, rfl⟩
  | succ _ ih =>
    unfold blkListDrain
    cases list : (s.blk o).blkList
    case nil => exact ⟨fun t inNil => (not_mem_nil inNil).elim, fun _ _ => rfl, .refl _, rfl, rfl⟩
    case cons t rest =>
    have linked := h.linked_head list
    obtain ⟨woke, erased⟩ := wakes s t h linked
    obtain ⟨st, state, view⟩ := ends s t h linked
    have nodup := h.blk.nodup o
    rw [list, erase_cons_head] at erased
    rw [list] at nodup enough
    obtain ⟨notIn, -⟩ := nodup_cons.mp nodup
    have after := ih woke.kept.core (by rw [erased]; exact Nat.le_of_succ_le_succ enough)
    rw [erased, view] at after
    refine ⟨fun u inList => ?_, fun u out => ?_, fun a => ?_, after.mem, after.overrun⟩
    · rcases mem_cons.mp inList with rfl | inRest
      · exact ⟨st, state, (after.others u notIn).trans (View.put_self ..)⟩
      · obtain ⟨st', state', eq⟩ := after.served u inRest
        have ne : u ≠ t := fun same => notIn (same ▸ inRest)
        exact ⟨st', state', eq.trans (congrArg (F st') (View.put_of_ne _ _ _ ne))⟩
    · have ne : u ≠ t := fun same => out (same ▸ mem_cons_self)
      exact (after.others u fun inRest => out (mem_cons_of_mem t inRest)).trans
        (View.put_of_ne _ _ _ ne)
    · have same := after.object a
      exact ⟨same.type, same.sem, same.event, same.queue, same.bufQueue⟩

theorem blkListForEach_served (wakes : Wakes [] o f) (ends : EndsWait o f F) (h : Core s) :
    ServedAll F (s.blk o).blkList s.view (blkListForEach f o s).view :=
  blkListDrain_served wakes ends h le_rfl

theorem pendTaskEnd_endsWait (bs : BlkStat) (o : ObjId) :
    EndsWait o (pendTaskEnd bs) fun st w => w.released st bs := by
  intro s t h linked
  obtain ⟨st, state, view⟩ := pendTaskEnd_view bs h linked
  exact ⟨st, state, view⟩

/-- A deletion is refused, or the object is gone and its waiters are told so. -/
theorem objDel_cases {type : KobjType} (inv : KInv s)
    (task : ∀ s, (reset s).view.task = s.view.task)
    (types : ∀ s, (reset s).view.type = s.view.type) : (objDel type flag objFlag reset s o).2 = s ∨
      ((objDel type flag objFlag reset s o).2.blk o).objType = .none ∧ ∀ t ∈ (s.blk o).blkList,
          ((objDel type flag objFlag reset s o).2.view.task t).blkState = .del := by
  refine intrptNestedLevelChk_cases (P := fun r => r = s ∨ (r.blk o).objType = .none ∧
    ∀ t ∈ (s.blk o).blkList, (r.view.task t).blkState = .del) (.inl rfl) fun _ => ?_
  split
  · exact .inl rfl
  split
  · exact .inl rfl
  have waiters : ((s.modBlk o fun b => { b with objType := .none }).blk o).blkList =
      (s.blk o).blkList := by simp [modBlk]
  have unnamed : ((s.modBlk o fun b => { b with objType := .none }).blk o).objType = .none := by
    simp [modBlk]
  have served := blkListForEach_served (pendTaskEnd_wakes .del o) (pendTaskEnd_endsWait .del o)
    (inv.core.modBlk_none o)
  rw [waiters] at served
  refine .inr ⟨?_, fun t inList => ?_⟩
  · show (coreSched _).view.type o = _
    rw [coreSched_view, types]
    exact (served.object o).type.trans unnamed
  · obtain ⟨st, -, eq⟩ := served.served t inList
    rw [coreSched_view, task]
    exact congrArg TaskView.blkState eq

end AliosThings.Rhino
