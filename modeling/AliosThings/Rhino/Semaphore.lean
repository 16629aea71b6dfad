import AliosThings.Rhino.TaskDelete

/-!
# Semaphores conserve their tokens

A token that is given is either counted or handed to a waiter, and a waiter can leave the list by
other routes as well. The history kept beside the kernel counts, for each semaphore since it was
created or its count was set, the tokens given and the takes that have succeeded, and follows for
each task the blocking take it has last begun.
-/

namespace AliosThings.Rhino

open Lib Option KState KCall

/-- The state in which the waiters that a call has woken are seen. `krhino_task_dyn_del` may
delete the task that its own call of `krhino_sem_give` has just woken. -/
def KCall.wakes (s : KState) : KCall → KState
  | taskDynDel task =>
    let t := task.getD s.active
    if s.DelProceeds .dynAlloc t ∧ (s.tasks t).taskState ≠ .deleted then
      (krhinoSemGive { s with schedLock := s.schedLock + 1 } gResSem).2
    else s
  | c => (c.exec s).2

/-- The takes on `o` that succeed in a call: its own, or those of the waiters it wakes. -/
def KCall.takes (s : KState) (o : ObjId) (c : KCall) : Nat :=
  (wokenFrom s (c.wakes s) o).length +
    match c with
    | semTake a _ => if a = o ∧ (c.exec s).1 = .ret .success then 1 else 0
    | _ => 0

/-- The tokens given to `o` in a call; `krhino_sem_give_all` gives one to each waiter. -/
def KCall.gives (s : KState) (o : ObjId) (c : KCall) : Nat :=
  match c with
  | semGive a => if a = o ∧ (c.exec s).1 = .ret .success then 1 else 0
  | semGiveAll a =>
    if a = o ∧ (c.exec s).1 = .ret .success then max 1 (wokenFrom s (c.wakes s) o).length else 0
  | taskDynDel _ => if gResSem = o ∧ (c.exec s).1 = .ret .success then 1 else 0
  | _ => 0

/-- The count a call gives `o`, by creating it or by `krhino_sem_count_set`. -/
def KCall.setsCount (s : KState) (o : ObjId) (c : KCall) : Option Nat :=
  match c with
  | semCreate a count _ => if a = o then some count else none
  | semCountSet a count => if a = o ∧ (c.exec s).1 = .ret .success then some count else none
  | _ => none

/-- The tokens of a semaphore since its count was `base`. -/
structure Tokens where
  base : Nat := 0
  given : Nat := 0
  taken : Nat := 0

def Tokens.note (s : KState) (c : KCall) (o : ObjId) (k : Tokens) : Tokens :=
  match c.setsCount s o with
  | some count => { base := count }
  | none => { k with given := k.given + c.gives s o, taken := k.taken + c.takes s o }

/-- The blocking take a task is in or has come back from: its semaphore, and whether the task has
been handed a token. It is forgotten with the next call of the task. -/
def noteTake (s : KState) (c : KCall) (t : TaskId) (take : Option (ObjId × Bool)) :
    Option (ObjId × Bool) :=
  if c.createdTask = some t then none
  else if c.madeBy s t then
    match c with
    | .semTake o _ => if (c.exec s).1 = .blocks then some (o, false) else none
    | _ => none
  else
    match take with
    | some (o, token) => some (o, token || decide (t ∈ wokenFrom s (c.wakes s) o))
    | none => none

structure SemHistory where
  tokens : ObjId → Tokens := fun _ => {}
  take : TaskId → Option (ObjId × Bool) := fun _ => none

def SemHistory.note (s : KState) (c : KCall) (h : SemHistory) : SemHistory where
  tokens o := (h.tokens o).note s c o
  take t := noteTake s c t (h.take t)

/-- The kernel with the history of its semaphores. -/
abbrev semKernel : System (KState × SemHistory) KCall :=
  (kernel.restrict NoStaleDelete).observed {} SemHistory.note

/-- Tokens are neither lost nor made up. -/
structure TokensConserved (s : KState) (h : SemHistory) : Prop where
  /-- Nobody waits for a semaphore that has tokens. -/
  noWaiter : ∀ o, (s.blk o).objType = .sem → (s.sems o).count > 0 → (s.blk o).blkList = []
  balance : ∀ o, (s.blk o).objType = .sem →
    (h.tokens o).taken + (s.sems o).count = (h.tokens o).base + (h.tokens o).given
  /-- A blocking take has a token exactly if it succeeds. -/
  result : ∀ t o token, h.take t = some (o, token) → (s.tasks t).Live →
    t ∈ (s.blk o).blkList ∧ token = false ∨
      ((s.tasks t).taskState = .rdy ∨ (s.tasks t).taskState = .suspended) ∧
        (pendStateEndProc (s.tasks t) = .success ↔ token = true)

/-! ## Waiters that are woken -/

variable {s s' m : KState} {o : ObjId} {t : TaskId} {c : KCall} {task : Option TaskId}

/-- A call that is not one on the semaphore `o` does not count. -/
theorem not_counted (out : ¬ (c.object = some o ∧ c.kind = some .sem))
    (notMade : c.createdObj ≠ some o) : c.gives s o = 0 ∧ c.setsCount s o = none ∧
      c.takes s o = (wokenFrom s (c.wakes s) o).length := by
  cases c <;> simp_all [gives, KCall.setsCount, takes, object, kind, createdObj]

/-! ## Giving -/

/-- What `sem_give` does with a semaphore: nothing when the count is at its limit, else the token
is counted or handed out. -/
theorem semGive_cases (h : Core s) (type : (s.blk o).objType = .sem) (wakeAll : Bool) :
    semGive s o wakeAll = (.ret .semOvf, s) ∧ (s.blk o).blkList = [] ∨
      (semGive s o wakeAll).1 = .ret .success ∧ (s.blk o).blkList = [] ∧
        ((semGive s o wakeAll).2.sems o).count = (s.sems o).count + 1 ∧
        (semGive s o wakeAll).2.view.task = s.view.task ∨
      (semGive s o wakeAll).1 = .ret .success ∧ ∃ t rest, (s.blk o).blkList = t :: rest ∧
        ServedAll (fun st w => w.released st .finish) (if wakeAll then t :: rest else [t]) s.view
          (semGive s o wakeAll).2.view := by
  unfold semGive
  rw [if_neg (not_not.mpr type)]
  cases list : (s.blk o).blkList with
  | nil =>
    simp only
    split
    · exact .inl ⟨rfl, trivial⟩
    · exact .inr (.inl ⟨rfl, trivial, by simp [modSem], rfl⟩)
  | cons t rest =>
    refine .inr (.inr ⟨rfl, t, rest, rfl, ?_⟩)
    simp only [coreSched_view]
    cases wakeAll with
    | true =>
      have served := blkListForEach_served (pendTaskEnd_wakes .finish o)
        (pendTaskEnd_endsWait .finish o) h
      rw [list] at served
      exact served
    | false =>
      obtain ⟨st, state, view⟩ := pendTaskEnd_view .finish h (h.linked_head list)
      exact servedOne state view

/-! ## One call on a semaphore -/

/-- A call has accounted for the tokens of `o`. -/
structure SemStep (s : KState) (c : KCall) (o : ObjId) (s' : KState) : Prop where
  noWaiter : (s'.sems o).count > 0 → (s'.blk o).blkList = []
  count : match c.setsCount s o with
    | some count => (s'.sems o).count = count
    | none => c.takes s o + (s'.sems o).count = (s.sems o).count + c.gives s o

/-- A call that changes neither the semaphore nor the waits. -/
theorem SemStep.same (h : Core s) (ok : (s.sems o).count > 0 → (s.blk o).blkList = [])
    (same : s' = s) (wakes : c.wakes s = s) (sets : c.setsCount s o = none)
    (gives : c.gives s o = 0) (takes : c.takes s o = (wokenFrom s (c.wakes s) o).length) :
    SemStep s c o s' := by
  subst same
  refine ⟨ok, ?_⟩
  rw [sets]
  rw [takes, wakes, wokenFrom_of_task h rfl, gives]
  simp

/-- `sem_give` counts the token or hands it out; with `wakeAll` each waiter gets one. -/
theorem semGive_accounts {wakeAll : Bool} (h : Core s) (h' : Core (semGive s o wakeAll).2)
    (ok : (s.sems o).count > 0 → (s.blk o).blkList = []) (type : (s.blk o).objType = .sem) :
    (((semGive s o wakeAll).2.sems o).count > 0 → ((semGive s o wakeAll).2.blk o).blkList = []) ∧
      (wokenFrom s (semGive s o wakeAll).2 o).length + ((semGive s o wakeAll).2.sems o).count =
        (s.sems o).count + if (semGive s o wakeAll).1 = .ret .success then
          (if wakeAll then max 1 (wokenFrom s (semGive s o wakeAll).2 o).length else 1) else 0 := by
  rcases semGive_cases h type wakeAll with ⟨refused, empty⟩ | ⟨ret, empty, counted, task⟩ |
    ⟨ret, t, rest, list, served⟩
  · rw [refused, wokenFrom_of_task h rfl]
    exact ⟨fun _ => empty, by simp⟩
  · refine ⟨fun _ => blkList_nil_of_task h h' task empty, ?_⟩
    rw [if_pos ret, wokenFrom_of_task h task, counted]
    simp
  -- the tokens go to waiters, and the count stays at zero
  have count : (semGive s o wakeAll).2.sems o = s.sems o := (served.object o).sem
  have zero : (s.sems o).count = 0 := Nat.eq_zero_of_not_pos fun pos => by
    rw [ok pos] at list
    cases list
  have woken := served.wokenFrom_eq h list rfl fun st w state =>
    ⟨released_phase_free state .finish, rfl⟩
  refine ⟨fun pos => ?_, ?_⟩
  · rw [count, zero] at pos
    cases pos
  · rw [if_pos ret, count, zero, woken]
    cases wakeAll <;> simp

theorem krhinoSemTake_semStep {ticks : Nat} (inv : KInv s)
    (ok : (s.sems o).count > 0 → (s.blk o).blkList = []) :
    SemStep s (.semTake o ticks) o (krhinoSemTake s o ticks).2 := by
  have h := inv.core
  have takes : (semTake o ticks).takes s o = (wokenFrom s (krhinoSemTake s o ticks).2 o).length +
      if (krhinoSemTake s o ticks).1 = .ret .success then 1 else 0 := by
    simp [takes, wakes, exec]
  rcases krhinoSemTake_cases inv o ticks with ⟨e, error, eq⟩ | ⟨pos, eq⟩ | ⟨-, zero, blocks⟩
  · have same : (krhinoSemTake s o ticks).2 = s := congrArg Prod.snd eq
    refine .same h ok same same rfl rfl (takes.trans ?_)
    rw [eq, if_neg fun both => error (KRet.ret.inj both)]
    exact congrArg (fun r : KRet × KState => (wokenFrom s r.2 o).length) eq.symm
  · have task : (krhinoSemTake s o ticks).2.view.task = s.view.task := by
      rw [eq]
      rfl
    refine ⟨fun _ => ?_, ?_⟩
    · rw [eq]
      exact ok pos
    · show (semTake o ticks).takes s o + _ = (s.sems o).count + 0
      rw [takes, wokenFrom_of_task h task, eq]
      simp [modSem]
      omega
  -- the caller blocks, and it is not one of the waiters
  have count : (krhinoSemTake s o ticks).2.sems o = s.sems o := (blocks.sameObject o).sem
  have none : wokenFrom s (krhinoSemTake s o ticks).2 o = [] := blocks.wokenFrom h
  refine ⟨fun pos => absurd (count ▸ pos) (by omega), ?_⟩
  show (semTake o ticks).takes s o + _ = (s.sems o).count + 0
  rw [takes, none, count, blocks.ret]
  simp

theorem krhinoSemCountSet_semStep {count : Nat} (h : Core s)
    (ok : (s.sems o).count > 0 → (s.blk o).blkList = []) (type : (s.blk o).objType = .sem) :
    SemStep s (.semCountSet o count) o (krhinoSemCountSet s o count).2 := by
  have sets : (semCountSet o count).setsCount s o =
      if (krhinoSemCountSet s o count).1 = .ret .success then some count else none := by
    simp [KCall.setsCount, exec]
  have refused : ∀ e, krhinoSemCountSet s o count = (.ret e, s) → e ≠ .success →
      SemStep s (.semCountSet o count) o (krhinoSemCountSet s o count).2 := by
    intro e eq error
    have same : (krhinoSemCountSet s o count).2 = s := congrArg Prod.snd eq
    refine .same h ok same same ?_ rfl rfl
    rw [sets, eq, if_neg fun both => error (KRet.ret.inj both)]
  obtain ⟨r, eq⟩ : ∃ r, krhinoSemCountSet s o count = r := ⟨_, rfl⟩
  have eq' := eq
  unfold krhinoSemCountSet intrptNestedLevelChk at eq'
  rw [if_neg (not_not.mpr type)] at eq'
  split at eq'
  · exact refused _ (eq.trans eq'.symm) (by decide)
  split at eq'
  · exact refused _ (eq.trans eq'.symm) (by decide)
  · next noWaiter =>
    have set : krhinoSemCountSet s o count = _ := eq.trans eq'.symm
    refine ⟨fun _ => ?_, ?_⟩
    · rw [set]
      by_contra waits
      exact noWaiter ⟨Nat.eq_zero_of_not_pos fun pos => waits (ok pos), waits⟩
    · rw [sets, set]
      simp [modSem]

/-- A call on another object. -/
theorem SemStep.elsewhere (h : Core s) (h' : Core (c.wakes s))
    (ok : (s.sems o).count > 0 → (s.blk o).blkList = [])
    (out : ¬ (c.object = some o ∧ c.kind = some .sem)) (notMade : c.createdObj ≠ some o)
    (same : Undisturbed o s.view (c.wakes s).view) : SemStep s c o (c.wakes s) := by
  obtain ⟨gives, sets, takes⟩ := not_counted out notMade
  have count : (c.wakes s).sems o = s.sems o := same.object.sem
  refine ⟨fun pos => same.blkList_nil h h' (ok (count ▸ pos)), ?_⟩
  rw [sets]
  rw [takes, same.wokenFrom h, gives, count]
  simp

/-- What comes after the hand-over of the tokens does not concern the semaphore. -/
theorem SemStep.then (step : SemStep s c o m) (h : Core m) (h' : Core s')
    (same : Undisturbed o m.view s'.view) : SemStep s c o s' := by
  have count : s'.sems o = m.sems o := same.object.sem
  refine ⟨fun pos => same.blkList_nil h h' (step.noWaiter (count ▸ pos)), ?_⟩
  rw [count]
  exact step.count

/-- `krhino_task_dyn_del` leaves the kernel as it is, or gives `g_res_sem` and goes on with what
concerns mutexes only. -/
theorem krhinoTaskDynDel_gives (inv : KInv s) (bal : InBalance s) (task : Option TaskId) :
    ((taskDynDel task).wakes s).view = s.view ∧ (krhinoTaskDynDel s task).2 = s ∧
        (krhinoTaskDynDel s task).1 ≠ .ret .success ∨
      (taskDynDel task).wakes s =
          (semGive { s with schedLock := s.schedLock + 1 } gResSem false).2 ∧
        (semGive { s with schedLock := s.schedLock + 1 } gResSem false).1 = .ret .success ∧
        (krhinoTaskDynDel s task).1 = .ret .success ∧ Core ((taskDynDel task).wakes s) ∧
        s.view.Step ∅ {gResSem} [] ((taskDynDel task).wakes s).view ∧
        ((taskDynDel task).wakes s).view.Step s.mutexSet ∅ []
          (krhinoTaskDynDel s task).2.view := by
  rcases krhinoTaskDynDel_does s task with ⟨refused, same⟩ | ⟨may, outcome⟩
  · exact .inl ⟨congrArg KState.view (if_neg refused), same⟩
  have wakes : (taskDynDel task).wakes s =
      (semGive { s with schedLock := s.schedLock + 1 } gResSem false).2 := if_pos may
  rcases outcome with ⟨failed, same⟩ | ⟨given, ret, eq⟩
  · refine .inl ⟨?_, same⟩
    rw [wakes, semGive_refused failed]
    rfl
  obtain ⟨kept, same⟩ := resGiven_kept inv.core
  refine .inr ⟨wakes, given, ret, ?_, ?_, ?_⟩
  · rw [wakes]
    exact kept.core.congr rfl
  · have locked : Core { s with schedLock := s.schedLock + 1 } := inv.core.congr rfl
    rw [wakes]
    exact semGive_waits locked (Set.mem_singleton _) false
  · have deleted := taskDel_waits (X := ∅) (W := []) kept same
      (fun _ type => type) (.inr bal) may.2
    rw [wakes, eq]
    exact deleted

theorem notMem_mutexSet (type : (s.blk o).objType = .sem) : o ∉ s.mutexSet := fun mutex => by
  cases type.symm.trans mutex

theorem wakes_eq (notDynDel : ∀ task, c ≠ .taskDynDel task) : c.wakes s = (c.exec s).2 := by
  cases c <;> first | rfl | exact absurd rfl (notDynDel _)

/-- `krhino_task_dyn_del` accounts for the token it gives to `g_res_sem`. -/
theorem krhinoTaskDynDel_semStep (inv : KInv s) (bal : InBalance s)
    (may : (taskDynDel task).Allowed s) (type : (s.blk o).objType = .sem)
    (ok : (s.sems o).count > 0 → (s.blk o).blkList = []) :
    SemStep s (.taskDynDel task) o (krhinoTaskDynDel s task).2 := by
  have h := inv.core
  have h' : Core (krhinoTaskDynDel s task).2 := (exec_inv inv may).core
  rcases krhinoTaskDynDel_gives inv bal task with ⟨view, same, error⟩ |
    ⟨wakes, given, ret, core, step, deleted⟩
  · rw [same]
    refine ⟨ok, ?_⟩
    show (wokenFrom s ((taskDynDel task).wakes s) o).length + 0 + (s.sems o).count =
      (s.sems o).count + if gResSem = o ∧ (krhinoTaskDynDel s task).1 = .ret .success then 1 else 0
    rw [wokenFrom_of_task h (congrArg View.task view), if_neg fun both => error both.2]
    simp
  -- the deletion goes ahead: a token is given to `g_res_sem` first
  suffices gave : SemStep s (.taskDynDel task) o ((taskDynDel task).wakes s) from
    gave.then core h' (deleted.undisturbed (Set.notMem_empty o) (notMem_mutexSet type))
  by_cases res : gResSem = o
  · subst res
    have locked : Core { s with schedLock := s.schedLock + 1 } := h.congr rfl
    obtain ⟨noWaiter, count⟩ := semGive_accounts locked (wakes ▸ core) ok type
    rw [if_pos given] at count
    rw [← wakes] at noWaiter count
    refine ⟨noWaiter, ?_⟩
    show (wokenFrom s ((taskDynDel task).wakes s) gResSem).length + 0 + _ = (s.sems gResSem).count +
      if gResSem = gResSem ∧ (krhinoTaskDynDel s task).1 = .ret .success then 1 else 0
    rw [if_pos ⟨rfl, ret⟩]
    exact count
  · exact .elsewhere h core ok (fun both => res (some.inj both.1)) nofun
      (step.undisturbed (fun same => res same.symm) (Set.notMem_empty o))

/-- Every call accounts for the tokens of a semaphore. -/
theorem exec_semStep (legal : Legal s c) (type : (s.blk o).objType = .sem)
    (type' : ((c.exec s).2.blk o).objType = .sem)
    (ok : (s.sems o).count > 0 → (s.blk o).blkList = []) : SemStep s c o (c.exec s).2 := by
  have h := legal.inv.core
  have h' : Core (c.exec s).2 := (exec_inv legal.inv legal.may).core
  by_cases dynDel : ∃ task, c = .taskDynDel task
  · obtain ⟨task, rfl⟩ := dynDel
    exact krhinoTaskDynDel_semStep legal.inv legal.bal legal.may type ok
  have wakes : c.wakes s = (c.exec s).2 := wakes_eq fun task same => dynDel ⟨task, same⟩
  by_cases concerns : c.object = some o ∧ c.kind = some .sem
  · obtain ⟨on, expects⟩ := concerns
    have deleted flag (call : (c.exec s).2 = (semDel flag s o).2) (gives : c.gives s o = 0)
        (sets : c.setsCount s o = none)
        (takes : c.takes s o = (wokenFrom s (c.wakes s) o).length) :
        SemStep s c o (c.exec s).2 := by
      have gone : (semDel flag s o).2 = s ∨ ((semDel flag s o).2.blk o).objType = .none :=
        (objDel_cases legal.inv (fun _ => rfl) fun _ => rfl).imp id And.left
      rcases gone with same | gone
      · exact .same h ok (call.trans same) (wakes.trans (call.trans same)) sets gives takes
      · rw [call, gone] at type'
        cases type'
    cases c with
    | semGive a | semGiveAll a =>
      obtain rfl := some.inj on
      obtain ⟨noWaiter, count⟩ := semGive_accounts h h' ok type
      refine ⟨noWaiter, ?_⟩
      simpa [KCall.setsCount, takes, gives, wakes, exec, krhinoSemGive, krhinoSemGiveAll]
        using count
    | semTake =>
      cases on
      exact krhinoSemTake_semStep legal.inv ok
    | semCountSet =>
      cases on
      exact krhinoSemCountSet_semStep h ok type
    | semDel | semDynDel =>
      cases on
      exact deleted _ rfl rfl rfl rfl
    | taskDynDel => exact absurd ⟨_, rfl⟩ dynDel
    | _ => cases expects
  · have undisturbed := exec_unconcerned legal type (by decide) (by decide) concerns
    rw [← wakes] at undisturbed h' ⊢
    refine .elsewhere h h' ok concerns (fun names => ?_) undisturbed
    exact absurd (type.symm.trans (legal.may.freshObj o names).2) (by decide)

/-! ## What a blocking take is told -/

/-- A task that has begun a blocking take of `o` waits for it, has come back with a token exactly if
its wait has ended with `BLK_FINISH`, or has been deleted. -/
inductive TakeOk (s : KState) (t : TaskId) (o : ObjId) (token : Bool) : Prop where
  | waits (phase : (s.view.task t).phase = .waiting o) (type : (s.blk o).objType = .sem)
    (none : token = false)
  | back (phase : (s.view.task t).phase = .free)
    (told : (s.view.task t).blkState = .finish ↔ token = true)
  | gone (phase : (s.view.task t).phase = .absent)

/-- What `krhino_task_dyn_del` tells the waiters of a semaphore. -/
theorem krhinoTaskDynDel_takeOk (inv : KInv s) (bal : InBalance s) (type : (s.blk o).objType = .sem)
    (type' : ((krhinoTaskDynDel s task).2.view.task t).phase = .waiting o →
      ((krhinoTaskDynDel s task).2.blk o).objType = .sem)
    (waits : (s.view.task t).phase = .waiting o) :
    TakeOk (krhinoTaskDynDel s task).2 t o
      (decide (t ∈ wokenFrom s ((taskDynDel task).wakes s) o)) := by
  have h := inv.core
  have inList := (h.waiting_iff t o).mp waits
  have notWoken : (((taskDynDel task).wakes s).view.task t).phase ≠ .free →
      decide (t ∈ wokenFrom s ((taskDynDel task).wakes s) o) = false :=
    fun notFree => decide_eq_false fun woken => notFree (mem_wokenFrom.mp woken).2.1
  rcases krhinoTaskDynDel_gives inv bal task with ⟨view, same, -⟩ | ⟨-, -, -, core, given, deleted⟩
  · rw [same]
    refine .waits waits type (notWoken ?_)
    rw [view, waits]
    exact Phase.noConfusion
  rcases (given.task t).of_waiting waits with ⟨still, -⟩ | free | absent
  · -- not woken by the give, and what follows is no business of the semaphore
    have none := notWoken (by rw [still]; exact Phase.noConfusion)
    rcases (deleted.undisturbed (Set.notMem_empty o) (notMem_mutexSet type)).leaves t still with
      still' | ⟨free, gaveUp⟩ | absent
    · exact .waits still' (type' still') none
    · refine .back free ?_
      rw [none]
      rcases gaveUp with gaveUp | gaveUp <;> simp [gaveUp]
    · exact .gone absent
  · rcases (deleted.task t).of_free free with ⟨free', told, -⟩ | absent
    · refine .back free' ?_
      rw [told, decide_eq_true_iff, mem_wokenFrom]
      exact ⟨fun finish => ⟨inList, free, finish⟩, fun woken => woken.2.2⟩
    · exact .gone absent
  · exact .gone ((deleted.task t).of_absent absent)

/-- The blocking takes that are under way stay in order. -/
theorem exec_takeOk (legal : Legal s c) {take : Option (ObjId × Bool)}
    (ok : ∀ o token, take = some (o, token) → TakeOk s t o token) {token : Bool}
    (after : noteTake s c t take = some (o, token)) : TakeOk (c.exec s).2 t o token := by
  have h := legal.inv.core
  have step := exec_calls legal
  unfold noteTake at after
  split at after
  · cases after
  next notMade =>
  split at after
  · next byTask =>
    -- its own call
    split at after
    · next a ticks =>
      split at after
      · next blocked =>
        cases after
        rcases krhinoSemTake_cases legal.inv o ticks with
          ⟨e, -, eq⟩ | ⟨-, eq⟩ | ⟨type, -, blocks⟩
        · cases (congrArg Prod.fst eq).symm.trans blocked
        · cases (congrArg Prod.fst eq).symm.trans blocked
        · have waits := blocks.phase_active
          rw [byTask.1]
          exact .waits waits ((blocks.sameObject o).type.trans type) rfl
      · cases after
    · cases after
  next notBy =>
  split at after
  case h_2 => cases after
  next a had =>
  cases after
  cases ok _ _ rfl with
  | gone absent => exact .gone (step.of_absent absent notMade)
  | back free told =>
    rcases step.of_free free (ne_active_of_not_madeBy notBy) with ⟨free', same, -⟩ | absent
    · refine .back free' ?_
      rw [same, decide_eq_false (not_mem_wokenFrom h free), Bool.or_false]
      exact told
    · exact .gone absent
  | waits waits type none =>
    subst none
    rw [Bool.false_or]
    by_cases dynDel : ∃ task, c = .taskDynDel task
    · obtain ⟨task, rfl⟩ := dynDel
      exact krhinoTaskDynDel_takeOk legal.inv legal.bal type
        (still_kind legal type (by decide)) waits
    rw [wakes_eq fun task same => dynDel ⟨task, same⟩]
    rcases exec_waiter legal type (by decide) waits with
      ⟨still, -, type', notIn⟩ | ⟨free, told⟩ | absent
    · exact .waits still type' (decide_eq_false notIn)
    · refine .back free ?_
      rw [decide_eq_true_iff]
      exact told
    · exact .gone absent

/-! ## Every run -/

variable {h : SemHistory}

/-- The accounts of every semaphore, and of the takes that are under way. -/
structure SemOk (s : KState) (h : SemHistory) : Prop where
  noWaiter : ∀ o, (s.blk o).objType = .sem → (s.sems o).count > 0 → (s.blk o).blkList = []
  balance : ∀ o, (s.blk o).objType = .sem →
    (h.tokens o).taken + (s.sems o).count = (h.tokens o).base + (h.tokens o).given
  take : ∀ t o token, h.take t = some (o, token) → TakeOk s t o token

theorem exec_semOk (legal : Legal s c) (ok : SemOk s h) : SemOk (c.exec s).2 (h.note s c) := by
  have accounts : ∀ o, ((c.exec s).2.blk o).objType = .sem →
      (((c.exec s).2.sems o).count > 0 → ((c.exec s).2.blk o).blkList = []) ∧
        ((h.tokens o).note s c o).taken + ((c.exec s).2.sems o).count =
          ((h.tokens o).note s c o).base + ((h.tokens o).note s c o).given := by
    intro o type'
    by_cases type : (s.blk o).objType = .sem
    · have step := exec_semStep legal type type' (ok.noWaiter o type)
      have balance := ok.balance o type
      have count := step.count
      refine ⟨step.noWaiter, ?_⟩
      unfold Tokens.note
      cases sets : c.setsCount s o with
      | some =>
        rw [sets] at count
        simpa using count
      | none =>
        rw [sets] at count
        simp only at count ⊢
        omega
    · rcases (exec_calls legal).type o with same | none | names
      · exact absurd (same.symm.trans type') type
      · rw [type'] at none
        cases none
      · have makes := createdObj_makes names type type'
        cases c with
        | semCreate =>
          cases names
          refine ⟨fun _ => ?_, ?_⟩
          · simp [exec, semCreate, modBlk, modSem]
          · simp [Tokens.note, KCall.setsCount, exec, semCreate, modSem]
        | _ => cases makes
  refine ⟨fun o type => (accounts o type).1, fun o type => (accounts o type).2, ?_⟩
  intro t o token after
  exact exec_takeOk legal (fun o token => ok.take t o token) after

theorem initial_semOk (mem : Mem) : SemOk (.initial mem) {} where
  noWaiter o _ _ := initial_blkList mem o
  balance o type := by
    rcases eq_or_ne o gResSem with rfl | other <;> simp [initial, *]
  take t o token had := by cases had

/-- In every run tokens are conserved: since a semaphore was created or its count was set, the takes
that have succeeded and the count make up the count it had then and the tokens given; nobody waits
while tokens are left; and a blocking take returns success exactly if it was handed a token. -/
theorem tokens_conserved {p : KState × SemHistory} (reach : semKernel.Reach p) :
    TokensConserved p.1 p.2 := by
  obtain ⟨before, ok⟩ : (kernel.restrict NoStaleDelete).Reach p.1 ∧ SemOk p.1 p.2 := by
    refine System.Reach.observed ?_ ?_ reach
    · rintro s ⟨mem, rfl⟩
      exact initial_semOk mem
    · intro s c h before ok may
      obtain ⟨inv, bal⟩ := reach_inBalance before
      exact exec_semOk ⟨inv, bal, may.1.2, may.2⟩ ok
  have core := (reach_inBalance before).1.core
  refine ⟨ok.noWaiter, ok.balance, fun t o token had live => ?_⟩
  cases ok.take t o token had with
  | waits phase _ none => exact .inl ⟨(core.waiting_iff t o).mp phase, none⟩
  | back phase told =>
    refine .inr ⟨state_of_free phase, ?_⟩
    rw [← told]
    exact pendStateEndProc_success _
  | gone phase => exact absurd phase (phase_of_live live)

/-- Tasks 1 and 2 wait for semaphore 5. The wait of task 2 times out, and an interrupt gives a
token, which task 1 gets. -/
def oneTokenForTwo : List KCall :=
  [.semCreate 5 0 .staticAlloc, .taskCreate 1 20 0 1 true .staticAlloc, .semTake 5 100,
    .taskCreate 2 25 0 1 true .staticAlloc, .semTake 5 2, .intrptEnter, .tickProc, .tickProc,
    .semGive 5]

theorem tokens_conserved_oneTokenForTwo :
    (((semKernel.run (.initial fun _ => 0, {}) oneTokenForTwo).2.tokens 5).taken = 1 ∧
      (semKernel.run (.initial fun _ => 0, {}) oneTokenForTwo).2.take 1 = some (5, true) ∧
      (semKernel.run (.initial fun _ => 0, {}) oneTokenForTwo).2.take 2 = some (5, false)) ∧
      TokensConserved (semKernel.run (.initial fun _ => 0, {}) oneTokenForTwo).1
        (semKernel.run (.initial fun _ => 0, {}) oneTokenForTwo).2 :=
  have start : semKernel.Reach (.initial fun _ => 0, {}) := .init ⟨⟨_, rfl⟩, rfl⟩
  ⟨by decide +kernel, tokens_conserved (start.run (by decide +kernel))⟩

end AliosThings.Rhino
