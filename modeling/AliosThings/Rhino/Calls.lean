import AliosThings.Rhino.Steps

/-!
# How kernel calls end

`KInv` holds between kernel calls. A call leaves the run queue alone, or ends in `core_sched`
(`Ends`); most calls leave the mutexes alone too (`Ordinary`). A call that does so, and is a step
of the waits of the tasks, is one that `Acts`; a call that puts its caller to sleep `Parks` it.
-/

namespace AliosThings.Rhino

open Lib Function KState

/-- What holds between kernel calls. -/
structure KInv (s : KState) : Prop where
  core : Core s
  /-- Nobody waits for an object that does not exist. -/
  dead : ∀ o, (s.blk o).objType = .none → (s.blk o).blkList = []
  /-- Only an interrupt handler can stop the running task without a switch. -/
  running : s.intrptNested = 0 ∨ 0 < s.schedLock → (s.tasks s.active).taskState = .rdy
  level : s.intrptNested < 2 ^ 8

/-- What a call has done when only the choice of the next task is left; the tasks in `X` may have
stopped being ready. -/
structure Done (X : Set TaskId) (s s' : KState) : Prop where
  core : Core s'
  dead : ∀ o, (s'.blk o).objType = .none → (s'.blk o).blkList = []
  active : s'.active = s.active
  schedLock : s'.schedLock = s.schedLock
  intrptNested : s'.intrptNested = s.intrptNested
  ready : ∀ u, u ∉ X → (s.tasks u).taskState = .rdy → (s'.tasks u).taskState = .rdy

/-- How a call ends: without a change of the run queue, or with a call of the scheduler. -/
inductive Ends (s : KState) : KState → Prop where
  | still {r} (done : Done ∅ s r) (queue : r.readyQueue = s.readyQueue) : Ends s r
  | resched {X s'} (done : Done X s s') (running : s.active ∈ X → s.schedLock = 0) :
    Ends s (coreSched s')

/-- A call that does not concern the mutexes. -/
structure Ordinary (s r : KState) : Prop where
  ends : Ends s r
  quiet : SameOwnership s r

variable {X Y : Set TaskId} {s s' r : KState}

/-- Where the lists are kept, only the choice is left. -/
theorem Kept.done (inv : KInv s) (h : Kept X s s') : Done X s s' :=
  { h with dead := fun o none => h.dead o (h.type o ▸ none) (inv.dead o (h.type o ▸ none)) }

theorem Done.refl (inv : KInv s) : Done X s s := Kept.done inv (.refl inv.core)

theorem Done.trans (h : Done X s s') (h' : Done X s' r) : Done X s r where
  core := h'.core
  dead := h'.dead
  active := h'.active.trans h.active
  schedLock := h'.schedLock.trans h.schedLock
  intrptNested := h'.intrptNested.trans h.intrptNested
  ready u out state := h'.ready u out (h.ready u out state)

theorem Done.mono (h : Done X s s') (sub : X ⊆ Y) : Done Y s s' :=
  { h with ready := fun u out => h.ready u fun inX => out (sub inX) }

/-- A call that has stopped no task leaves the invariant. -/
theorem Done.inv (h : Done ∅ s r) (inv : KInv s) : KInv r where
  core := h.core
  dead := h.dead
  running level := by
    rw [h.intrptNested, h.schedLock] at level
    rw [h.active]
    exact h.ready _ (Set.notMem_empty _) (inv.running level)
  level := h.intrptNested.symm ▸ inv.level

/-- The scheduler only chooses the next task. -/
theorem coreSched_quiet (s : KState) :
    ∃ a c, coreSched s = { s with active := a, corrupt := c } := by
  unfold coreSched switchToPreferred
  split
  · exact ⟨_, _, rfl⟩
  · split
    · exact ⟨_, _, rfl⟩
    · split <;> exact ⟨_, _, rfl⟩

/-- The head of the list of the highest priority runs. -/
theorem coreSched_eq (h : Core s) (nested : s.intrptNested = 0) (lock : s.schedLock = 0) :
    ∃ t, (s.readyQueue.list s.readyQueue.highestPri).head? = some t ∧
      (s.tasks t).taskState = .rdy ∧ coreSched s = { s with active := t } := by
  unfold coreSched switchToPreferred
  cases list : s.readyQueue.list s.readyQueue.highestPri with
  | nil => exact absurd list h.runq.highest
  | cons t rest =>
    have linked := (h.runq.mem t _).mp (by rw [list]; exact List.mem_cons_self)
    refine ⟨t, rfl, ?_, by simp [nested, lock]⟩
    have ok := h.task t
    unfold TaskOk at ok
    split at ok <;> simp_all

/-- In an interrupt, and with the scheduler locked, nothing is chosen. -/
theorem coreSched_idle (locked : 0 < s.intrptNested ∨ 0 < s.schedLock) : coreSched s = s := by
  unfold coreSched
  rcases locked with nested | lock
  · rw [if_pos nested]
  · rw [if_pos lock]
    split <;> rfl

theorem Core.withActive (h : Core s) (t : TaskId) : Core { s with active := t } := h.congr rfl

/-- The scheduler restores what an interrupt handler may have broken. -/
theorem coreSched_inv (h : Core s) (dead : ∀ o, (s.blk o).objType = .none → (s.blk o).blkList = [])
    (level : s.intrptNested < 2 ^ 8)
    (locked : 0 < s.schedLock → (s.tasks s.active).taskState = .rdy) : KInv (coreSched s) := by
  by_cases idle : 0 < s.intrptNested ∨ 0 < s.schedLock
  · rw [coreSched_idle idle]
    refine ⟨h, dead, fun runs => locked ?_, level⟩
    rcases runs with nested | lock
    · exact idle.resolve_left (by omega)
    · exact lock
  · obtain ⟨t, -, state, eq⟩ := coreSched_eq h (by omega) (by omega)
    rw [eq]
    exact ⟨h.withActive t, dead, fun _ => state, level⟩

/-- A call that ends in one of these ways keeps the invariant. -/
theorem Ends.inv (h : Ends s r) (inv : KInv s) : KInv r := by
  cases h with
  | still done => exact done.inv inv
  | @resched _ _ done running =>
    refine coreSched_inv done.core done.dead (done.intrptNested.symm ▸ inv.level) fun lock => ?_
    rw [done.schedLock] at lock
    rw [done.active]
    refine done.ready _ (fun stopped => ?_) (inv.running (.inr lock))
    exact absurd (running stopped) (Nat.pos_iff_ne_zero.mp lock)

theorem SameOwnership.coreSched (h : SameOwnership s s') : SameOwnership s (coreSched s') := by
  obtain ⟨a, c, eq⟩ := coreSched_quiet s'
  rw [eq]
  exact h.trans (.congr rfl)

/-! ## Steps that change neither lists nor mutexes -/

/-- Only the data of objects and messages differ. -/
def Quiet (s r : KState) : Prop :=
  r = { s with
    sems := r.sems, events := r.events, queues := r.queues, bufQueues := r.bufQueues
    mem := r.mem, overrun := r.overrun }

variable {d : Option ObjId} {W : List (Nat × Nat)} {o : ObjId} {f : Ktask → Ktask}

/-- Data of objects do not matter for the lists. -/
theorem Quiet.kept (h : Quiet s r) (core : Core s) : Kept X s r := by
  rw [h]
  exact .congr core rfl rfl rfl rfl

/-- Nor for the mutexes. -/
theorem Quiet.sameOwnership (h : Quiet s r) : SameOwnership s r := by
  rw [h]
  exact .congr rfl

/-- `s'` is `s` up to data that neither the lists nor the mutexes depend on. -/
structure Untouched (s s' : KState) : Prop where
  kept : Kept ∅ s s'
  same : SameOwnership s s'
  queue : s'.readyQueue = s.readyQueue

theorem Quiet.untouched (h : Quiet s r) (core : Core s) : Untouched s r :=
  ⟨h.kept core, h.sameOwnership, by rw [h]⟩

/-- What the invariants read of a record. -/
def Ktask.standing (k : Ktask) := (k.listed, k.taskState, k.blkObj)

theorem Ktask.of_standing {k k' : Ktask} (same : k'.standing = k.standing) :
    k'.Alike k ∧ k'.taskState = k.taskState ∧ k'.blkObj = k.blkObj := by
  simp only [standing, Prod.mk.injEq] at same
  exact ⟨.of_eq same.1, same.2⟩

/-- A change of a record in fields that no list depends on. -/
theorem Untouched.modTask (core : Core s) (t : TaskId)
    (same : ∀ k, (f k).standing = k.standing) : Untouched s (s.modTask t f) := by
  obtain ⟨alike, state, obj⟩ := Ktask.of_standing (same (s.tasks t))
  refine ⟨.modTask core t state alike.taskList alike.prio obj alike.tickHead
    (by rw [alike.bPrio]; exact core.bPrio t), ?_, rfl⟩
  exact .put alike.prio alike.bPrio alike.mutexList (by simp [Ktask.Live, state])
    (by simp [state]) (fun _ => rfl) (fun _ _ => rfl)

theorem Untouched.inv (h : Untouched s r) (inv : KInv s) : KInv r := (h.kept.done inv).inv inv

/-- Such a step is an ordinary call. -/
theorem Untouched.ordinary (h : Untouched s r) (inv : KInv s) : Ordinary s r :=
  ⟨.still (h.kept.done inv) h.queue, h.same⟩

theorem Ordinary.refl (inv : KInv s) : Ordinary s s :=
  Untouched.ordinary ⟨.refl inv.core, .refl s, rfl⟩ inv

/-- A call that leaves the mutexes alone and ends waits for the object `d` only; it writes to the
memory in `W`. -/
structure Acts (d : Option ObjId) (W : List (Nat × Nat)) (s r : KState) : Prop where
  ordinary : Ordinary s r
  step : ∀ {M X : Set ObjId}, (∀ o ∈ d, o ∈ X) → s.view.Step M X W r.view

/-- Only data of the object `d` and memory in `W` differ, and what does not show in the view. -/
structure Touches (d : Option ObjId) (W : List (Nat × Nat)) (s s' : KState) : Prop
    extends Untouched s s' where
  step : ∀ {M X : Set ObjId}, (∀ o ∈ d, o ∈ X) → s.view.Step M X W s'.view

theorem Acts.refl (inv : KInv s) : Acts d W s s := ⟨.refl inv, fun _ => .refl _⟩

theorem Touches.refl (core : Core s) : Touches d W s s :=
  ⟨⟨.refl core, .refl s, rfl⟩, fun _ => .refl _⟩

/-- Two such steps are one. -/
theorem Touches.trans (h : Touches d W s s') (h' : Touches d W s' r) : Touches d W s r where
  kept := h.kept.trans h'.kept
  same := h.same.trans h'.same
  queue := h'.queue.trans h.queue
  step dealt := (h.step dealt).trans (h'.step dealt)

/-- Data and memory may change within a call. -/
theorem Touches.acts (h : Touches d W s r) (inv : KInv s) : Acts d W s r :=
  ⟨h.toUntouched.ordinary inv, h.step⟩

/-- A call whose first step changes only such data. -/
theorem Untouched.then (h : Untouched s s') (inv : KInv s) (next : Ordinary s' r) :
    Ordinary s r := by
  obtain ⟨ends, quiet⟩ := next
  have done := h.kept.done inv
  refine ⟨?_, h.same.trans quiet⟩
  cases ends with
  | still done' queue => exact .still (done.trans done') (queue.trans h.queue)
  | resched done' running =>
    refine .resched ((done.mono (Set.empty_subset _)).trans done') fun stopped => ?_
    rw [← h.kept.schedLock]
    exact running (h.kept.active.symm ▸ stopped)

/-- A call may go on after them. -/
theorem Touches.then (h : Touches d W s s') (inv : KInv s) (next : KInv s' → Acts d W s' r) :
    Acts d W s r := by
  obtain ⟨ordinary, step⟩ := next (h.toUntouched.inv inv)
  exact ⟨h.toUntouched.then inv ordinary, fun dealt => (h.step dealt).trans (step dealt)⟩

/-- Here nobody has been woken. -/
theorem Touches.woke (h : Touches (some o) W s s') : Woke W o s s' :=
  ⟨h.kept, fun _ => h.same, fun dealt => h.step fun _ same => Option.some.inj same ▸ dealt⟩

section

variable (core : Core s)
include core

theorem modSem_touches (f : Ksem → Ksem) : Touches (some o) W s (s.modSem o f) :=
  ⟨Quiet.untouched rfl core, fun dealt => .one (dealt o rfl) rfl rfl rfl (fun _ => .inl rfl)
    (fun _ other => ⟨rfl, update_of_ne other _ _, rfl, rfl, rfl⟩) ⟨.refl _, .refl _⟩ rfl⟩

theorem modEvent_touches (f : Kevent → Kevent) : Touches (some o) W s (s.modEvent o f) :=
  ⟨Quiet.untouched rfl core, fun dealt => .one (dealt o rfl) rfl rfl rfl (fun _ => .inl rfl)
    (fun _ other => ⟨rfl, rfl, update_of_ne other _ _, rfl, rfl⟩) ⟨.refl _, .refl _⟩ rfl⟩

/-- The ring of a queue keeps its place in memory. -/
theorem modQueue_touches (f : Kqueue → Kqueue)
    (shape : KRingbuf.SameShape (s.queues o).ringbuf (f (s.queues o)).ringbuf) :
    Touches (some o) W s (s.modQueue o f) :=
  ⟨Quiet.untouched rfl core, fun dealt => .one (dealt o rfl) rfl rfl rfl (fun _ => .inl rfl)
    (fun _ other => ⟨rfl, rfl, rfl, update_of_ne other _ _, rfl⟩)
    ⟨by simpa [modQueue, view] using shape, .refl _⟩ rfl⟩

theorem modBufQueue_touches (f : KbufQueue → KbufQueue)
    (shape : KRingbuf.SameShape (s.bufQueues o).ringbuf (f (s.bufQueues o)).ringbuf) :
    Touches (some o) W s (s.modBufQueue o f) :=
  ⟨Quiet.untouched rfl core, fun dealt => .one (dealt o rfl) rfl rfl rfl (fun _ => .inl rfl)
    (fun _ other => ⟨rfl, rfl, rfl, rfl, update_of_ne other _ _⟩)
    ⟨.refl _, by simpa [modBufQueue, view] using shape⟩ rfl⟩

/-- A change of the memory. -/
theorem mem_touches {mem : Mem} (same : s.mem.SameOutside W mem) :
    Touches d W s { s with mem := mem } :=
  ⟨Quiet.untouched rfl core, fun _ => .store same _⟩

/-- A store to the memory that the call may write. -/
theorem store32_touches {a v : Nat} (stores : (a, wordSize) ∈ W) : Touches d W s (s.store32 a v) :=
  mem_touches core (Mem.sameOutside_writeBytes s.mem (by rwa [leBytes_length]))

theorem overflow_touches : Touches d W s s.overflow :=
  ⟨Quiet.untouched rfl core, fun _ => .store (.refl _ _) _⟩

/-- A change of a record that does not show. -/
theorem Touches.modTask (t : TaskId) (same : ∀ k, (f k).standing = k.standing)
    (view : ∀ k, (f k).view = k.view) : Touches d W s (s.modTask t f) :=
  ⟨.modTask core t same, fun _ => .of_eq (modTask_view_same view)⟩

end

/-! ## Waking, blocking and moving tasks -/

variable {t u : TaskId} {st : TaskStat} {type : KobjType} {ticks : Nat}

/-- Calls are refused in an interrupt. -/
theorem intrptNestedLevelChk_cases {P : KState → Prop} {body : KRet × KState} (refused : P s)
    (called : s.intrptNested = 0 → P body.2) : P (intrptNestedLevelChk s body).2 := by
  unfold intrptNestedLevelChk
  split
  · exact refused
  · exact called (by omega)

/-- Waiters have been woken and the scheduler is called. -/
theorem Woke.acts (inv : KInv s) (woke : Woke W o s s') (is : (s.blk o).objType = type)
    (kind : type ≠ .mutex) : Acts (some o) W s (coreSched s') where
  ordinary := ⟨.resched (woke.kept.done inv) fun stopped => stopped.elim,
    (woke.quiet (is ▸ kind)).coreSched⟩
  step dealt := by
    rw [coreSched_view]
    exact woke.step (dealt o rfl)

theorem Untouched.resched (inv : KInv s) (h : Untouched s s') : Ordinary s (coreSched s') :=
  ⟨.resched (h.kept.done inv) fun stopped => stopped.elim, h.same.coreSched⟩

/-- The scheduler after a change of data. -/
theorem Touches.resched (inv : KInv s) (h : Touches d W s s') : Acts d W s (coreSched s') where
  ordinary := h.toUntouched.resched inv
  step dealt := by
    rw [coreSched_view]
    exact h.step dealt

section

variable (inv : KInv s) (h : Relisted s t st s')
  (live : st ≠ .seed ∧ st ≠ .deleted ↔ (s.tasks t).Live)
include inv h live

/-- The scheduler after a task has changed lists. -/
theorem Relisted.ordinary (notSeed : st ≠ .seed)
    (running : t = s.active → (s.tasks t).taskState = .rdy → st ≠ .rdy → s.schedLock = 0) :
    Ordinary s (coreSched s') := by
  refine ⟨?_, (h.sameOwnership live notSeed).coreSched⟩
  by_cases stops : (s.tasks t).taskState = .rdy ∧ st ≠ .rdy
  · refine .resched ((h.kept (X := {t}) (.inl rfl)).done inv) fun same => ?_
    exact running same.symm stops.1 stops.2
  · refine .resched ((h.kept (X := ∅) (.inr fun rdy => ?_)).done inv) fun stopped => stopped.elim
    by_contra differ
    exact stops ⟨rdy, differ⟩

/-- A task changes its lists within its phase. -/
theorem Relisted.acts (notSeed : st ≠ .seed)
    (running : t = s.active → (s.tasks t).taskState = .rdy → st ≠ .rdy → s.schedLock = 0)
    (step : ∀ {M X : Set ObjId}, s.view.Step M X W s'.view) : Acts d W s (coreSched s') :=
  ⟨h.ordinary inv live notSeed running, fun _ => by rw [coreSched_view]; exact step⟩

end

/-- A wait for anything but a mutex leaves the mutexes alone. -/
theorem pendToBlkObj_sameOwnership (timeout : Nat) (h : Core s) (notIdle : t ≠ idleTask)
    (state : (s.tasks t).taskState = .rdy) (type : (s.blk o).objType ≠ .mutex) :
    SameOwnership s (pendToBlkObj s o t timeout) := by
  obtain ⟨rq, ticks, tm, tr, th, eq, -⟩ := pendToBlkObj_eq h timeout notIdle state
    fun mutex => absurd mutex type
  rw [eq]
  refine .put rfl rfl rfl ?_ (by simp [Ktask.pended]) (blkWith_type _ _ _) fun m mutex => ?_
  · simp [Ktask.Live, Ktask.pended, state]
  · have other : m ≠ o := fun same => type (same ▸ mutex)
    exact update_of_ne other _ _

/-- A call that blocks the running task on an object other than a mutex. -/
theorem blockActive_ordinary (inv : KInv s) (nested : s.intrptNested = 0) (lock : s.schedLock = 0)
    (notIdle : s.active ≠ idleTask) (alive : (s.blk o).objType ≠ .none)
    (type : (s.blk o).objType ≠ .mutex) (ticks : Nat) : Ordinary s (blockActive s o ticks).2 := by
  have rdy := inv.running (.inl nested)
  have kept := pendToBlkObj_kept ticks inv.core notIdle rdy alive fun mutex => absurd mutex type
  exact ⟨.resched (kept.done inv) fun _ => lock,
    (pendToBlkObj_sameOwnership ticks inv.core notIdle rdy type).coreSched⟩

/-- An object comes into being, with an empty list. -/
theorem Core.modBlk_empty (h : Core s) (empty : (s.blk o).blkList = []) (type : KobjType) :
    Core (s.modBlk o fun _ => { blkList := [], blkPolicy := .pri, objType := type }) := by
  refine { h with blk := ⟨fun u a => ?_, fun a => ?_, fun a policy => ?_⟩,
                  owner := fun a mutex waits => ?_ } <;> rcases eq_or_ne a o with rfl | other
  · simpa [modBlk, empty] using h.blk.mem u a
  · simpa [modBlk, other] using h.blk.mem u a
  · simp [modBlk]
  · simpa [modBlk, other] using h.blk.nodup a
  · simp [modBlk]
  · simp only [modBlk, update_of_ne other] at policy ⊢
    exact h.blk.sorted a policy
  · simp [modBlk] at waits
  · simp only [modBlk, update_of_ne other] at mutex waits
    exact h.owner a mutex waits

/-- A new object has no waiters. -/
theorem objCreate_done (inv : KInv s) (fresh : (s.blk o).objType = .none) (type : KobjType) :
    Done ∅ s (s.modBlk o fun _ => { blkList := [], blkPolicy := .pri, objType := type }) where
  core := inv.core.modBlk_empty (inv.dead o fresh) type
  dead a none := by
    rcases eq_or_ne a o with rfl | other
    · simp [modBlk]
    · simp only [modBlk, update_of_ne other] at none ⊢
      exact inv.dead a none
  active := rfl
  schedLock := rfl
  intrptNested := rfl
  ready _ _ state := state

/-- Objects that are not mutexes may change. -/
theorem SameOwnership.modBlk {f : BlkObj → BlkObj} (before : (s.blk o).objType ≠ .mutex)
    (after : (f (s.blk o)).objType ≠ .mutex) : SameOwnership s (s.modBlk o f) where
  prio _ := rfl
  bPrio _ := rfl
  mutexList _ := rfl
  live _ := Iff.rfl
  seed _ := id
  type m := by
    rcases eq_or_ne m o with rfl | other
    · simp [modBlk, before, after]
    · simp [KState.modBlk, other]
  waiters m mutex := by
    have other : m ≠ o := fun same => before (same ▸ mutex)
    simp [KState.modBlk, other]
  mutexes := rfl
  hung := rfl

/-- The creation of an object other than a mutex; `r` differs in the data of the object. -/
theorem objCreate_ordinary (type : KobjType) (inv : KInv s) (fresh : (s.blk o).objType = .none)
    (kind : type ≠ .mutex)
    (data : Quiet (s.modBlk o fun _ => { blkList := [], blkPolicy := .pri, objType := type }) r) :
    Ordinary s r := by
  have done := objCreate_done inv fresh type
  have after := (data.kept (X := ∅) done.core).done (done.inv inv)
  refine ⟨.still (done.trans after) (by rw [data]; rfl), ?_⟩
  exact (SameOwnership.modBlk (by rw [fresh]; decide) kind).trans data.sameOwnership

/-! ## Deleting objects -/

theorem Core.modBlk_none (h : Core s) (o : ObjId) :
    Core (s.modBlk o fun b => { b with objType := .none }) := by
  refine { h with blk := h.blk.congr_blk (fun a => ?_) (fun a => ?_),
                  owner := fun a mutex waits => ?_ } <;> rcases eq_or_ne a o with rfl | other
  · simp [modBlk]
  · simp [modBlk, other]
  · simp [modBlk]
  · simp [modBlk, other]
  · simp [modBlk] at mutex
  · simp only [modBlk, update_of_ne other] at mutex waits
    exact h.owner a mutex waits

/-- An object has lost its type, and then everybody who waited for it has been woken. -/
theorem objDel_done (inv : KInv s)
    (kept : Kept ∅ (s.modBlk o fun b => { b with objType := .none }) s')
    (empty : (s'.blk o).blkList = []) : Done ∅ s s' := by
  refine { kept with dead := fun a none => ?_ }
  rcases eq_or_ne a o with rfl | other
  · exact empty
  have before : ((s.modBlk o fun b => { b with objType := .none }).blk a) = s.blk a := by
    simp [modBlk, other]
  rw [kept.type, before] at none
  refine kept.dead a ?_ ?_ <;> rw [before]
  · exact none
  · exact inv.dead a none

/-- The deletions of semaphores, events and queues. -/
theorem objDel_acts {flag objFlag : AllocFlag} {reset : KState → KState} (inv : KInv s)
    (kind : type ≠ .mutex) (resets : ∀ s, Core s → Touches (some o) W s (reset s)) :
    Acts (some o) W s (objDel type flag objFlag reset s o).2 := by
  refine intrptNestedLevelChk_cases (.refl inv) fun _ => ?_
  split
  · exact .refl inv
  split
  · exact .refl inv
  · next same _ =>
    have before : (s.blk o).objType ≠ .mutex := by
      rw [not_ne_iff.mp same]
      exact kind
    obtain ⟨woke, empty⟩ := blkListForEach_woke (W := W) (pendTaskEnd_wakes .del o)
      (inv.core.modBlk_none o)
    have done := objDel_done inv woke.kept empty
    have same := woke.quiet (by simp [modBlk])
    have after := resets _ done.core
    refine ⟨⟨.resched (done.trans (after.kept.done (done.inv inv))) fun stopped => stopped.elim,
      ?_⟩, fun dealt => ?_⟩
    · exact ((SameOwnership.modBlk before (by simp)).trans (same.trans after.same)).coreSched
    · rw [coreSched_view]
      refine .trans ?_ ((woke.step (dealt o rfl)).trans (after.step dealt))
      exact modBlk_waits (dealt o rfl) fun _ => rfl

/-! ## Calls that put their caller to sleep -/

/-- The number of ticks after which a call gives up waiting. -/
def KCall.timeout : KCall → Option Nat
  | taskSleep ticks => some ticks
  | mutexLock _ ticks | semTake _ ticks | eventGet _ _ _ _ ticks | queueRecv _ ticks _
  | bufQueueRecv _ ticks _ _ => if ticks ≠ waitForever then some ticks else none
  | _ => none

/-- The object a call deals with; a task that was allocated is deleted by way of `g_res_sem`. -/
def KCall.object : KCall → Option ObjId
  | mutexCreate o _ | mutexDel o | mutexDynDel o | mutexLock o _ | mutexUnlock o
  | semCreate o _ _ | semDel o | semDynDel o | semGive o | semGiveAll o | semTake o _
  | semCountSet o _
  | eventCreate o _ _ | eventDel o | eventDynDel o | eventGet o _ _ _ _ | eventSet o _ _
  | queueCreate o _ _ _ | queueDel o | queueDynDel o | queueBackSend o _ | queueAllSend o _
  | queueRecv o _ _ | queueFlush o
  | bufQueueCreate o _ _ _ _ _ | bufQueueDel o | bufQueueDynDel o | bufQueueSend o _ _
  | bufQueueRecv o _ _ _ | bufQueueFlush o => some o
  | taskDynDel _ => some gResSem
  | _ => none

/-- The memory of a ring. -/
def KRingbuf.region (r : KRingbuf) : Nat × Nat := (r.buf, r.endp - r.buf)

/-- The length of what a pop hands out. -/
def ringPopped (r : KRingbuf) (mem : Mem) : Nat :=
  match ringbufPop wordSize r mem with
  | some (_, bs, _, _) => bs.length
  | none => 0

/-- The memory that a call writes through pointers of its callers: those it is given, and those that
waiters have left. -/
def KCall.callerStores (s : KState) : KCall → List (Nat × Nat)
  | eventGet _ _ _ actlFlags _ => [(actlFlags, wordSize)]
  | eventSet o _ _ => (s.blk o).blkList.map fun t => ((s.tasks t).pendInfo, wordSize)
  | queueRecv o _ msg => [(msg, ringPopped (s.queues o).ringbuf s.mem), (msg, wordSize)]
  | bufQueueSend o _ msgSize =>
    (s.blk o).blkList.head?.toList.map fun t => ((s.tasks t).msg, msgSize)
  | bufQueueRecv o _ msg size =>
    [(msg, ringPopped (s.bufQueues o).ringbuf s.mem), (size, wordSize)]
  | _ => []

/-- The memory that a call writes: that of its callers, or that of the ring it pushes to. -/
def KCall.stores (s : KState) (c : KCall) : List (Nat × Nat) :=
  c.callerStores s ++
    match c with
    | queueBackSend o _ | queueAllSend o _ => [(s.queues o).ringbuf.region]
    | bufQueueSend o _ _ => [(s.bufQueues o).ringbuf.region]
    | _ => []

/-- What the caller does when the call has put it to sleep. -/
def KCall.sleepPhase (c : KCall) : Phase :=
  match c.object with
  | some o => .waiting o
  | none => .asleep

/-- The timeout of the caller, if it has one, is armed. -/
def View.armed (v : View) (t : TaskId) : Option Nat → View
  | some n => v.arm t n
  | none => v

/-- The call has put its caller to sleep; `g` is what it has recorded of its request. -/
structure Blocks (s : KState) (c : KCall) (g : TaskView → TaskView) (r : KRet × KState) :
    Prop where
  ret : r.1 = .blocks
  nested : s.intrptNested = 0
  free : (s.view.task s.active).phase = .free
  view : r.2.view = (s.view.armed s.active c.timeout).mod s.active g
  phase : ∀ w, (g w).phase = c.sleepPhase
  tickMatch : ∀ w, (g w).tickMatch = w.tickMatch
  tickHead : ∀ w, (g w).tickHead = w.tickHead
  positive : c.timeout ≠ some 0

/-- The caller of an ordinary call has gone to sleep. -/
structure Parks (s : KState) (c : KCall) (g : TaskView → TaskView) (r : KRet × KState) : Prop
    extends Blocks s c g r where
  blocking : c.Blocking
  ordinary : s.active ≠ idleTask → Ordinary s r.2

/-- What the calls do that leave the mutexes and the priorities alone. -/
inductive CallActs (s : KState) (c : KCall) (r : KRet × KState) : Prop where
  | acts (acts : Acts c.object (c.stores s) s r.2)
  | makes (o : ObjId) (names : c.createdObj = some o) (ordinary : Ordinary s r.2)
    (task : r.2.view.task = s.view.task) (ticks : r.2.view.tickList = s.view.tickList)
    (tickCount : r.2.view.tickCount = s.view.tickCount)
    (object : ∀ a, a ≠ o → s.view.SameObject r.2.view a) (mem : r.2.view.mem = s.view.mem)
  | parks (g : TaskView → TaskView) (parks : Parks s c g r)

/-- The change of a record has nothing to do with the tick list. -/
def TickBlind (f : TaskView → TaskView) : Prop :=
  ∀ (w : TaskView) (m : Nat) (h : Bool),
    f { w with tickMatch := m, tickHead := h } = { f w with tickMatch := m, tickHead := h }

theorem TickBlind.tickMatch {f : TaskView → TaskView} (blind : TickBlind f) (w : TaskView) :
    (f w).tickMatch = w.tickMatch := by
  have same := congrArg TaskView.tickMatch (blind w w.tickMatch w.tickHead)
  exact same

theorem TickBlind.tickHead {f : TaskView → TaskView} (blind : TickBlind f) (w : TaskView) :
    (f w).tickHead = w.tickHead := by
  have same := congrArg TaskView.tickHead (blind w w.tickMatch w.tickHead)
  exact same

/-- The clock of a wait and its request are set in any order. -/
theorem View.arm_mod (v : View) (t : TaskId) (n : Nat) {f : TaskView → TaskView}
    (blind : TickBlind f) : (v.mod t f).arm t n = (v.arm t n).mod t f := by
  have remaining : (fun u => tickSub ((v.mod t f).task u).tickMatch (v.mod t f).tickCount) =
      fun u => tickSub (v.task u).tickMatch v.tickCount := by
    funext u
    rcases eq_or_ne u t with rfl | other
    · simp [View.mod, View.put, blind.tickMatch]
    · simp [View.mod, View.put, other]
  unfold View.arm
  rw [remaining]
  by_cases arms : n > 0 ∧ t ∉ v.tickList
  · rw [if_pos arms, if_pos (show n > 0 ∧ t ∉ (v.mod t f).tickList from arms), View.put_mod, blind]
    simp [View.mod, View.put]
  · rw [if_neg arms, if_neg (show ¬ (n > 0 ∧ t ∉ (v.mod t f).tickList) from arms)]

theorem View.mod_mod (v : View) (t : TaskId) (f g : TaskView → TaskView) :
    (v.mod t f).mod t g = v.mod t (g ∘ f) := by
  simp [View.mod, View.put]

/-- `pend_to_blk_obj` arms the clock unless the wait is forever. -/
theorem View.block_eq (v : View) (o : ObjId) (t : TaskId) (ticks : Nat) :
    v.block o t ticks = (v.armed t (if ticks ≠ waitForever then some ticks else none)).mod t
      fun w => { w with taskState := .pend, obj := some o } := by
  unfold View.block
  split <;> rfl

/-- The running task waits for nothing. -/
theorem running_free (inv : KInv s) (nested : s.intrptNested = 0) :
    (s.view.task s.active).phase = .free :=
  phase_free (.inl (inv.running (.inl nested)))

theorem timeout_ne_zero (waits : ticks ≠ noWait) :
    (if ticks ≠ waitForever then some ticks else none) ≠ some 0 := by
  split
  · exact fun zero => waits (Option.some.inj zero)
  · exact nofun

/-- The caller records its request and begins to wait for `o`. -/
theorem blockActive_parks {c : KCall} {g : TaskView → TaskView} (inv : KInv s)
    (nested : s.intrptNested = 0) (lock : ¬ s.schedLock > 0) (waits : ticks ≠ noWait)
    (blocking : c.Blocking) (is : (s.blk o).objType = type) (object : c.object = some o)
    (timeout : c.timeout = if ticks ≠ waitForever then some ticks else none)
    (kind : type ≠ .none ∧ type ≠ .mutex) (same : ∀ k, (f k).standing = k.standing)
    (shows : ∀ k, (f k).view = g k.view) (blind : TickBlind g) :
    Parks s c (fun w => { g w with taskState := .pend, obj := some o })
      (blockActive (s.modTask s.active f) o ticks) where
  ret := rfl
  nested := nested
  free := running_free inv nested
  view := by
    have rdy : ((s.modTask s.active f).tasks s.active).taskState = .rdy := by
      simp [modTask, setTask, (Ktask.of_standing (same _)).2.1,
        inv.running (.inl nested)]
    show (coreSched (pendToBlkObj (s.modTask s.active f) o s.active ticks)).view = _
    rw [coreSched_view, pendToBlkObj_view rdy, modTask_view_mod g shows, timeout]
    unfold View.block
    by_cases forever : ticks ≠ waitForever
    · rw [if_pos forever, if_pos forever, View.arm_mod _ _ _ blind, View.mod_mod]
      rfl
    · rw [if_neg forever, if_neg forever, View.mod_mod]
      rfl
  phase w := by
    unfold KCall.sleepPhase
    rw [object]
    rfl
  tickMatch := blind.tickMatch
  tickHead := blind.tickHead
  positive := timeout ▸ timeout_ne_zero waits
  blocking := blocking
  ordinary notIdle := by
    have touched := Untouched.modTask inv.core s.active same
    subst is
    exact touched.then inv (blockActive_ordinary (touched.inv inv) nested
      (Nat.eq_zero_of_not_pos lock) notIdle kind.1 kind.2 ticks)

theorem View.armed_put (v : View) (t : TaskId) (timeout : Option Nat) :
    ∃ w ticks, v.armed t timeout = v.put t w ticks := by
  have self : v = v.put t (v.task t) v.tickList := by
    rw [View.put, update_eq_self]
  unfold View.armed View.arm
  split
  · split
    · exact ⟨_, _, rfl⟩
    · exact ⟨_, _, self⟩
  · exact ⟨_, _, self⟩

variable {c : KCall} {g : TaskView → TaskView} {r : KRet × KState}

section

variable (h : Blocks s c g r)
include h

/-- The record of the caller and the tick list change. -/
theorem Blocks.put : ∃ w ticks, r.2.view = s.view.put s.active w ticks := by
  obtain ⟨w, ticks, armed⟩ := s.view.armed_put s.active c.timeout
  exact ⟨g w, ticks, by rw [h.view, armed, View.put_mod]⟩

/-- No other task is concerned. -/
theorem Blocks.task_other (other : u ≠ s.active) : r.2.view.task u = s.view.task u := by
  obtain ⟨w, ticks, view⟩ := h.put
  rw [view]
  exact View.put_of_ne _ _ _ other

/-- The caller's record has the clock and the request. -/
theorem Blocks.task_active :
    r.2.view.task s.active = g ((s.view.armed s.active c.timeout).task s.active) := by
  rw [h.view]
  exact View.put_self ..

/-- The caller sleeps, or waits for the object of the call. -/
theorem Blocks.phase_active : (r.2.view.task s.active).phase = c.sleepPhase := by
  rw [h.task_active]
  exact h.phase _

/-- The object is left as it was. -/
theorem Blocks.sameObject (o : ObjId) : s.view.SameObject r.2.view o := by
  obtain ⟨w, ticks, view⟩ := h.put
  rw [view]
  exact ⟨rfl, rfl, rfl, rfl, rfl⟩

theorem Blocks.mem : r.2.mem = s.mem := by
  obtain ⟨w, ticks, view⟩ := h.put
  exact congrArg View.mem view

theorem Blocks.tickCount : r.2.tickCount = s.tickCount := by
  obtain ⟨w, ticks, view⟩ := h.put
  exact congrArg View.tickCount view

end

theorem modTask_id (s : KState) (t : TaskId) : s.modTask t id = s := by
  simp [modTask, setTask]

variable {e : Kstat}

theorem CallActs.refl (inv : KInv s) : CallActs s c (.ret e, s) := .acts (.refl inv)

theorem CallActs.touches (h : Touches c.object (c.stores s) s s') (inv : KInv s) :
    CallActs s c (.ret e, s') := .acts (h.acts inv)

/-- Such a call does not concern the mutexes. -/
theorem CallActs.ordinary {r : KRet × KState} (h : CallActs s c r)
    (notIdle : c.Blocking → s.intrptNested = 0 → s.active ≠ idleTask) : Ordinary s r.2 := by
  cases h with
  | acts acts => exact acts.ordinary
  | makes _ _ ordinary => exact ordinary
  | parks g parks => exact parks.ordinary (notIdle parks.blocking parks.nested)

end AliosThings.Rhino
