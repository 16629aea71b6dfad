import AliosThings.Rhino.Kept

/-!
# The kernel as its objects see it

`KState.view` forgets priorities, the scheduler, the mutexes and the order of the blocked lists,
and keeps what decides how the wait of a task ends: the task's own record of its wait, the tick
list, and the data of the objects. Most of the kernel's work (the ready queue, the places in the
blocked lists, priority inheritance) does not show in the view; what does show is a change of one
task's record: the task begins to wait (`View.block`), or its wait ends (`View.release`).
-/

namespace AliosThings.Rhino

open Lib Function KState

/-- What the record of a task says of its wait. `obj` is the object of a waiting task. -/
structure TaskView where
  taskState : TaskStat
  blkState : BlkStat
  obj : Option ObjId
  tickMatch : Nat
  tickHead : Bool
  msg : Nat
  bqMsgSize : Nat
  pendFlags : BitVec 32
  pendInfo : Nat
  pendOption : EventOpt
  deriving DecidableEq

def Ktask.view (k : Ktask) : TaskView :=
  ⟨k.taskState, k.blkState,
    if k.taskState = .pend ∨ k.taskState = .pendSuspended then k.blkObj else none,
    k.tickMatch, k.tickHead, k.msg, k.bqMsgSize, k.pendFlags, k.pendInfo, k.pendOption⟩

structure View where
  task : TaskId → TaskView
  type : ObjId → KobjType
  sems : ObjId → Ksem
  events : ObjId → Kevent
  queues : ObjId → Kqueue
  bufQueues : ObjId → KbufQueue
  mem : Mem
  overrun : Bool
  tickList : List TaskId
  tickCount : Nat

def KState.view (s : KState) : View where
  task := Ktask.view ∘ s.tasks
  type o := (s.blk o).objType
  sems := s.sems
  events := s.events
  queues := s.queues
  bufQueues := s.bufQueues
  mem := s.mem
  overrun := s.overrun
  tickList := s.tickList
  tickCount := s.tickCount

open TaskView

/-- What a task is doing: it does not exist, it is ready or only suspended, it sleeps, or it waits
for an object. -/
inductive Phase where
  | absent
  | free
  | asleep
  | waiting (o : ObjId)
  deriving DecidableEq

def TaskView.phase (w : TaskView) : Phase :=
  match w.taskState with
  | .seed | .deleted => .absent
  | .rdy | .suspended => .free
  | .sleep | .sleepSuspended => .asleep
  | .pend | .pendSuspended => .waiting (w.obj.getD 0)

/-- The record of one task and the tick list change. -/
def View.put (v : View) (t : TaskId) (w : TaskView) (ticks : List TaskId) : View :=
  { v with task := update v.task t w, tickList := ticks }

/-- The record of one task changes. -/
def View.mod (v : View) (t : TaskId) (f : TaskView → TaskView) : View :=
  v.put t (f (v.task t)) v.tickList

/-- The record of a task whose wait or sleep has ended. -/
def TaskView.released (w : TaskView) (st : TaskStat) (bs : BlkStat) : TaskView :=
  { w with taskState := st, blkState := bs, obj := none, tickHead := false }

/-- The wait or sleep of a task ends. -/
def View.release (v : View) (t : TaskId) (st : TaskStat) (bs : BlkStat) : View :=
  v.put t ((v.task t).released st bs) (v.tickList.erase t)

/-- `tick_list_insert` of a task that is not in the list. -/
def View.arm (v : View) (t : TaskId) (time : Nat) : View :=
  if time > 0 ∧ t ∉ v.tickList then
    v.put t { v.task t with tickMatch := (v.tickCount + time) % tickRange, tickHead := true }
      (tickListPriInsert (fun u => tickSub (v.task u).tickMatch v.tickCount) time t v.tickList)
  else v

/-- A task begins to wait for `o`. -/
def View.block (v : View) (o : ObjId) (t : TaskId) (timeout : Nat) : View :=
  (if timeout ≠ waitForever then v.arm t timeout else v).mod t fun w =>
    { w with taskState := .pend, obj := some o }

section Basic

variable {s : KState} {t u : TaskId} {o : ObjId} {f : Ktask → Ktask}

/-- The view after a change to one task. -/
theorem modTask_view (s : KState) (t : TaskId) (f : Ktask → Ktask) :
    (s.modTask t f).view =
      { s.view with task := update s.view.task t (f (s.tasks t)).view } := by
  show View.mk _ _ _ _ _ _ _ _ _ _ = _
  congr 1
  exact comp_update Ktask.view s.tasks t (f (s.tasks t))

theorem modTask_view_mod (g : TaskView → TaskView) (shows : ∀ k, (f k).view = g k.view) :
    (s.modTask t f).view = s.view.mod t g := by
  rw [modTask_view, shows]
  rfl

/-- The view after a step that moves one task between lists. -/
theorem put_view {k : Ktask} {rq : Runqueue} {blk : ObjId → BlkObj} {ticks : List TaskId}
    (type : ∀ o, (blk o).objType = (s.blk o).objType) :
    (s.put t k rq blk ticks).view = s.view.put t k.view ticks := by
  have types : (fun o => (blk o).objType) = fun o => (s.blk o).objType := funext type
  have tasks := comp_update Ktask.view s.tasks t k
  show View.mk (Ktask.view ∘ update s.tasks t k) (fun o => (blk o).objType) _ _ _ _ _ _ _
    _ = _
  rw [types, tasks]
  rfl

/-- A change of a record that the view does not show. -/
theorem modTask_view_same (same : ∀ k, (f k).view = k.view) : (s.modTask t f).view = s.view := by
  rw [modTask_view, same]
  show { s.view with task := update s.view.task t (s.view.task t) } = s.view
  rw [update_eq_self]

/-- The view has of an object its type only. -/
theorem modBlk_view {f : BlkObj → BlkObj} (same : ∀ b, (f b).objType = b.objType) :
    (s.modBlk o f).view = s.view := by
  have type : (fun a => ((s.modBlk o f).blk a).objType) = fun a => (s.blk a).objType := by
    funext a
    rcases eq_or_ne a o with rfl | other <;> simp [modBlk, *]
  show View.mk _ _ _ _ _ _ _ _ _ _ = _
  rw [type]
  rfl

theorem modBlk_view_type {f : BlkObj → BlkObj} {type : KobjType}
    (becomes : ∀ b, (f b).objType = type) :
    (s.modBlk o f).view = { s.view with type := update s.view.type o type } := by
  have types : (fun a => ((s.modBlk o f).blk a).objType) =
      update (fun a => (s.blk a).objType) o type := by
    funext a
    rcases eq_or_ne a o with rfl | other <;> simp [modBlk, *]
  show View.mk _ _ _ _ _ _ _ _ _ _ = _
  rw [types]
  rfl

section Put

variable (v : View) (w : TaskView) (ticks : List TaskId)

@[simp] theorem View.put_self : (v.put t w ticks).task t = w := update_self ..

@[simp] theorem View.put_of_ne (other : u ≠ t) : (v.put t w ticks).task u = v.task u :=
  update_of_ne other ..

@[simp] theorem View.put_mod (f : TaskView → TaskView) :
    (v.put t w ticks).mod t f = v.put t (f w) ticks := by
  simp [View.mod, View.put]

end Put

end Basic

/-! ## What does not show -/

variable {fuel newPri pri : Nat}

section Hidden

variable (s : KState) (t : TaskId) (o : ObjId)

/-- The ready queue is not in the view. -/
theorem readyListLink_view (rq : Runqueue) : (readyListLink s t rq).view = s.view := by
  unfold readyListLink
  split
  · exact modTask_view_same fun _ => rfl
  · rfl

theorem readyListAddTail_view : (readyListAddTail s t).view = s.view := readyListLink_view ..

theorem readyListAddHead_view : (readyListAddHead s t).view = s.view := readyListLink_view ..

@[simp] theorem readyListAdd_view : (readyListAdd s t).view = s.view := by
  unfold readyListAdd
  split
  · exact readyListAddTail_view s t
  · exact readyListAddHead_view s t

@[simp] theorem readyListRm_view : (readyListRm s t).view = s.view := by
  unfold readyListRm
  simp only
  split
  · split
    · exact modTask_view_same fun _ => rfl
    · rfl
  · rfl

theorem readyListHeadToTail_view : (readyListHeadToTail s t).view = s.view := by
  unfold readyListHeadToTail
  simp only
  split <;> rfl

theorem switchToPreferred_view : (switchToPreferred s).view = s.view := by
  unfold switchToPreferred
  split <;> rfl

@[simp] theorem coreSched_view : (coreSched s).view = s.view := by
  unfold coreSched
  split
  · rfl
  split
  · rfl
  · exact switchToPreferred_view s

/-- Round robin does not show. -/
theorem timeSliceUpdate_view : (timeSliceUpdate s).view = s.view := by
  unfold timeSliceUpdate
  split
  · rfl
  simp only
  split
  · rfl
  split
  · rfl
  generalize (if (s.tasks _).timeSlice > 0 then _ else _) = left
  split
  · exact modTask_view_same fun _ => rfl
  · refine Eq.trans (modTask_view_same fun _ => rfl) ((readyListHeadToTail_view ..).trans ?_)
    exact modTask_view_same fun _ => rfl

/-- The lists of waiters are not in the view. -/
theorem blkListLink_view (l : List TaskId) : (blkListLink s o t l).view = s.view := by
  unfold blkListLink
  split
  · exact Eq.trans (modTask_view_same fun _ => rfl) (modBlk_view fun _ => rfl)
  · rfl

theorem blkListAdd_view : (blkListAdd s o t).view = s.view := by
  unfold blkListAdd
  split <;> exact blkListLink_view ..

@[simp] theorem blkListRm_view : (blkListRm s t).view = s.view := by
  unfold blkListRm
  split
  · exact Eq.trans (modTask_view_same fun _ => rfl) (modBlk_view fun _ => rfl)
  · rfl

theorem pendListReorder_view : (pendListReorder s t).view = s.view := by
  unfold pendListReorder
  split
  · rfl
  split
  · exact (blkListLink_view ..).trans (blkListRm_view s t)
  · rfl

theorem mutexRef_store_view (v : Option ObjId) (prev : MutexRef) :
    (prev.store s v).view = s.view := by
  cases prev with
  | task => exact modTask_view_same fun _ => rfl
  | mutex => rfl

/-- A walk over the mutexes of a task does not show. -/
theorem mutexPriLookLoop_view (rel : Option ObjId) {prev : MutexRef} {s : KState} :
    (mutexPriLookLoop rel fuel prev pri newPri s).2.view = s.view := by
  induction fuel generalizing prev pri newPri s with
  | zero =>
    unfold mutexPriLookLoop
    cases prev.load s <;> rfl
  | succ _ ih =>
    unfold mutexPriLookLoop
    cases prev.load s with
    | none => rfl
    | some =>
      simp only
      split
      · exact ih.trans (mutexRef_store_view s _ prev)
      · exact ih

/-- Priorities are not in the view. -/
theorem taskPriSet_view (newPri : Nat) : (taskPriSet s t newPri).view = s.view := by
  have priced : (s.modTask t fun k => { k with prio := newPri }).view = s.view :=
    modTask_view_same fun _ => rfl
  unfold taskPriSet
  split
  · unfold readyPriChange
    simp only
    split
    · exact (readyListAddHead_view ..).trans
        (Eq.trans (modTask_view_same fun _ => rfl) (readyListRm_view s t))
    · exact (readyListAddTail_view ..).trans
        (Eq.trans (modTask_view_same fun _ => rfl) (readyListRm_view s t))
  · exact (pendListReorder_view ..).trans priced
  · exact (pendListReorder_view ..).trans priced
  · exact priced

/-- A walk along the owners does not show. -/
theorem taskPriChangeLoop_view {s : KState} {t : TaskId} :
    (taskPriChangeLoop fuel s t newPri).2.view = s.view := by
  induction fuel generalizing s t newPri with
  | zero => rfl
  | succ _ ih =>
    have set := taskPriSet_view s t newPri
    unfold taskPriChangeLoop
    split
    · rfl
    split
    · rfl
    · rfl
    · exact set
    · exact set
    · exact set
    · exact set
    all_goals
      -- the loop goes on at the owner of the mutex the task waits for
      simp only
      split
      · exact set
      split
      · split
        · exact set
        · next owner _ =>
          split
          · exact ih.trans set
          split
          · have looked : (mutexPriLook (taskPriSet s t newPri) owner none).2.view = _ :=
              mutexPriLookLoop_view none
            split
            · exact ih.trans (looked.trans set)
            · exact looked.trans set
          · exact set
      · exact set

@[simp] theorem taskPriChange_view (newPri : Nat) : (taskPriChange s t newPri).2.view = s.view :=
  taskPriChangeLoop_view

@[simp] theorem mutexRelease_view (rel : Option ObjId) : (mutexRelease s t rel).view = s.view := by
  have looked : (mutexPriLook s t rel).2.view = s.view := mutexPriLookLoop_view rel
  unfold mutexRelease
  simp only
  split
  · exact (taskPriChange_view ..).trans looked
  · exact looked

@[simp] theorem mutexTaskPriReset_view : (mutexTaskPriReset s t).view = s.view := by
  unfold mutexTaskPriReset
  split
  · rfl
  split
  · split
    · rfl
    split
    · exact mutexRelease_view ..
    · rfl
  · rfl

theorem mutexOwnerRelease_view : (mutexOwnerRelease s o).view = s.view := by
  unfold mutexOwnerRelease
  split
  · exact mutexRelease_view ..
  · rfl

theorem mutexSetOwner_view : (mutexSetOwner s o t).view = s.view := by
  unfold mutexSetOwner
  exact modTask_view_same fun _ => rfl

end Hidden

/-! ## What shows -/

variable {st : TaskStat} {bs : BlkStat} {s : KState} {t : TaskId} {o : ObjId}

/-- A task leaves the tick list. -/
theorem tickListRm_view (h : Core s) (t : TaskId) :
    (tickListRm s t).view =
      s.view.put t { s.view.task t with tickHead := false } (s.tickList.erase t) := by
  rw [tickListRm_eq h, put_view fun _ => rfl]
  rfl

/-- A task leaves the tick list and its record shows a new state, as at the end of a wait. -/
theorem tickListRm_release (h : Core s) {f : TaskView → TaskView}
    (becomes : f { s.view.task t with tickHead := false } = (s.view.task t).released st bs) :
    (tickListRm s t).view.mod t f = s.view.release t st bs := by
  rw [tickListRm_view h, View.put_mod, becomes]
  rfl

/-- A task is released while it leaves the tick list. -/
theorem modTask_tickListRm_view (h : Core s) {f : Ktask → Ktask}
    (tick : (f (s.tasks t)).tickHead = (s.tasks t).tickHead)
    (becomes : (f (s.tasks t)).unticked.view = (s.view.task t).released st bs) :
    (tickListRm (s.modTask t f) t).view = s.view.release t st bs := by
  rw [tickListRm_modTask_eq h f tick, put_view fun _ => rfl, becomes]
  rfl

/-- The wait of a task ends with `bs`. -/
theorem pendTaskEnd_view (bs : BlkStat) (h : Core s) (linked : (s.tasks t).taskList = .blk o) :
    ∃ st, (st = .rdy ∨ st = .suspended) ∧
      (pendTaskEnd bs s t).view = s.view.release t st bs := by
  obtain ⟨rq, eq, -⟩ := pendTaskEnd_eq bs h linked
  rw [eq, put_view (blkWith_type _ _ _)]
  rcases ((h.task t).of_blk linked).1 with state | state
  · refine ⟨.rdy, .inl rfl, congrArg (s.view.put t · _) ?_⟩
    simp [Ktask.woken, state, Ktask.view, released, view]
  · refine ⟨.suspended, .inr rfl, congrArg (s.view.put t · _) ?_⟩
    simp [Ktask.woken, state, Ktask.view, released, view]

/-- A sleeping task is asleep in the view, suspended or not. -/
theorem phase_asleep
    (state : (s.tasks t).taskState = .sleep ∨ (s.tasks t).taskState = .sleepSuspended) :
    (s.view.task t).phase = .asleep := by
  rcases state with state | state <;> simp [view, Ktask.view, phase, state]

/-- A pending task waits for an object. -/
theorem phase_waiting
    (state : (s.tasks t).taskState = .pend ∨ (s.tasks t).taskState = .pendSuspended) :
    ∃ o, (s.view.task t).phase = .waiting o := by
  rcases state with state | state <;> simp [view, Ktask.view, phase, state]

/-- A ready or suspended task waits for nothing. -/
theorem phase_free (state : (s.tasks t).taskState = .rdy ∨ (s.tasks t).taskState = .suspended) :
    (s.view.task t).phase = .free := by
  rcases state with state | state <;> simp [view, Ktask.view, phase, state]

/-- A task that does not exist is absent. -/
theorem phase_absent (state : (s.tasks t).taskState = .seed ∨ (s.tasks t).taskState = .deleted) :
    (s.view.task t).phase = .absent := by
  rcases state with state | state <;> simp [view, Ktask.view, phase, state]

/-- Only these two states are free ones. -/
theorem state_of_free (free : (s.view.task t).phase = .free) :
    (s.tasks t).taskState = .rdy ∨ (s.tasks t).taskState = .suspended := by
  revert free
  simp only [view, Ktask.view, phase, comp]
  cases (s.tasks t).taskState <;> simp

theorem phase_of_live (live : (s.tasks t).Live) : (s.view.task t).phase ≠ .absent := by
  obtain ⟨notSeed, notDeleted⟩ := live
  simp only [view, Ktask.view, phase, comp]
  cases state : (s.tasks t).taskState <;> simp_all

/-- The waiters of an object are those in its blocked list. -/
theorem Core.waiting_iff (h : Core s) (t : TaskId) (o : ObjId) :
    (s.view.task t).phase = .waiting o ↔ t ∈ (s.blk o).blkList := by
  rw [h.blk.mem t o]
  have ok := h.task t
  constructor
  · intro waits
    have state : (s.tasks t).taskState = .pend ∨ (s.tasks t).taskState = .pendSuspended := by
      revert waits
      simp only [view, comp, Ktask.view, phase]
      cases (s.tasks t).taskState <;> simp
    obtain ⟨a, linked, obj⟩ := ok.of_waiting state
    rcases state with state | state <;>
      simpa [view, Ktask.view, phase, state, obj, linked] using waits
  · intro linked
    obtain ⟨state | state, obj⟩ := ok.of_blk linked <;>
      simp [view, Ktask.view, phase, state, obj]

/-- A task in the list of an object waits for it. -/
theorem Core.phase_of_blk (h : Core s) (linked : (s.tasks t).taskList = .blk o) :
    (s.view.task t).phase = .waiting o :=
  (h.waiting_iff t o).mpr ((h.blk.mem t o).mpr linked)

/-- A task that is not in the tick list is released by a change of its record alone. -/
theorem Core.release_eq (h : Core s) (out : (s.tasks t).tickHead = false) (st : TaskStat)
    (bs : BlkStat) :
    s.view.release t st bs =
      s.view.mod t fun w => { w with taskState := st, blkState := bs, obj := none } := by
  have absent : t ∉ s.tickList := fun there => by
    rw [(h.tick.mem t).mp there] at out
    cases out
  have record : (s.view.task t).released st bs =
      { s.view.task t with taskState := st, blkState := bs, obj := none } := by
    unfold released
    congr 1
    exact out.symm
  unfold View.release
  rw [record, show s.view.tickList.erase t = s.view.tickList from List.erase_of_not_mem absent]
  rfl

/-- The state of a task whose time has come: it stays suspended if it was. -/
def TaskStat.expired : TaskStat → TaskStat
  | .sleepSuspended | .pendSuspended => .suspended
  | _ => .rdy

/-- After a timeout a task is ready, or still suspended. -/
theorem TaskStat.expired_cases (st : TaskStat) : st.expired = .rdy ∨ st.expired = .suspended := by
  cases st <;> simp [TaskStat.expired]

/-- A sleeper or a waiter is released as `tick_list_update` does it. -/
theorem tickExpire_view (h : Core s) (t : TaskId) :
    tickExpire s t = s ∧ ((s.view.task t).phase = .free ∨ (s.view.task t).phase = .absent) ∨
      (s.view.task t).phase = .asleep ∧
        (tickExpire s t).view = s.view.release t (s.tasks t).taskState.expired .finish ∨
      (∃ o, (s.view.task t).phase = .waiting o) ∧
        (tickExpire s t).view = s.view.release t (s.tasks t).taskState.expired .timeout := by
  unfold tickExpire
  split
  · next state =>
    refine .inr (.inl ⟨phase_asleep (.inl state), ?_⟩)
    rw [readyListAdd_view, state]
    exact modTask_tickListRm_view h rfl rfl
  · next state =>
    refine .inr (.inr ⟨phase_waiting (.inl state), ?_⟩)
    rw [state, modTask_view_mod fun w => { w with obj := none }, mutexTaskPriReset_view,
      modTask_view_mod fun w => { w with blkState := .timeout, taskState := .rdy, obj := none },
      readyListAdd_view, blkListRm_view, tickListRm_view h, View.put_mod, View.put_mod]
    · rfl
    · exact fun _ => rfl
    · intro k
      simp [Ktask.view]
  · next state =>
    refine .inr (.inr ⟨phase_waiting (.inr state), ?_⟩)
    rw [state, modTask_view_mod fun w => { w with obj := none }, mutexTaskPriReset_view,
      modTask_view_mod fun w =>
        { w with blkState := .timeout, taskState := .suspended, obj := none },
      blkListRm_view, tickListRm_view h, View.put_mod, View.put_mod]
    · rfl
    · exact fun _ => rfl
    · intro k
      simp [Ktask.view]
  · next state =>
    refine .inr (.inl ⟨phase_asleep (.inr state), ?_⟩)
    rw [state]
    exact modTask_tickListRm_view h rfl rfl
  · next notSleep notPend notPendSuspended notSleepSuspended =>
    refine .inl ⟨rfl, ?_⟩
    cases state : (s.tasks t).taskState with
    | rdy => exact .inl (phase_free (.inl state))
    | suspended => exact .inl (phase_free (.inr state))
    | seed => exact .inr (phase_absent (.inl state))
    | deleted => exact .inr (phase_absent (.inr state))
    | sleep => exact absurd state notSleep
    | pend => exact absurd state notPend
    | pendSuspended => exact absurd state notPendSuspended
    | sleepSuspended => exact absurd state notSleepSuspended

/-- The task that is deleted is released from whatever it did. -/
theorem taskDelUnlink_view (h : Core s) (live : (s.tasks t).Live) :
    (taskDelUnlink s t).view = s.view.release t .deleted (s.tasks t).blkState := by
  have shows (r : KState) : (r.modTask t fun k => { k with taskState := .deleted }).view =
      r.view.mod t fun w => { w with taskState := .deleted, obj := none } :=
    modTask_view_mod _ fun _ => rfl
  unfold taskDelUnlink
  split
  · next state =>
    rw [h.release_eq ((h.task t).of_rdy state).2, shows, readyListRm_view]
    rfl
  · next state =>
    rw [h.release_eq ((h.task t).of_off (.inl state)).2, shows]
    rfl
  case h_3 | h_4 => exact (shows _).trans (tickListRm_release h rfl)
  case h_5 | h_6 =>
    simp only [mutexTaskPriReset_view, shows, blkListRm_view]
    exact tickListRm_release h rfl
  · next state => exact absurd state live.1
  · next state => exact absurd state live.2

/-- A call of `krhino_task_wait_abort`: nothing to abort, or the wait or sleep ends. -/
theorem krhinoTaskWaitAbort_view (h : Core s) (t : TaskId) :
    (krhinoTaskWaitAbort s t).2.view = s.view ∨ (s.tasks t).taskState = .suspended ∧
        (krhinoTaskWaitAbort s t).2.view = s.view.mod t (fun w => { w with taskState := .rdy }) ∨
      ((s.view.task t).phase = .asleep ∨ ∃ o, (s.view.task t).phase = .waiting o) ∧
        (krhinoTaskWaitAbort s t).2.view = s.view.release t .rdy .abort := by
  have shows (r : KState) :
      (r.modTask t fun k => { k with taskState := .rdy, blkState := .abort }).view =
        r.view.mod t fun w => { w with taskState := .rdy, blkState := .abort, obj := none } :=
    modTask_view_mod _ fun _ => rfl
  unfold krhinoTaskWaitAbort intrptNestedLevelChk
  split
  · exact .inl rfl
  split
  · exact .inl (coreSched_view s)
  · next state =>
    refine .inr (.inl ⟨state, ?_⟩)
    simp only [coreSched_view, readyListAdd_view]
    rw [modTask_view]
    refine congrArg (s.view.put t · s.view.tickList) ?_
    simp [Ktask.view, view, state]
  case h_3 state | h_4 state =>
    refine .inr (.inr ⟨.inl (phase_asleep (by simp [state])), ?_⟩)
    simp only [coreSched_view]
    rw [shows, readyListAdd_view]
    exact tickListRm_release h rfl
  case h_5 state | h_6 state =>
    refine .inr (.inr ⟨.inr (phase_waiting (by simp [state])), ?_⟩)
    simp only [coreSched_view]
    rw [modTask_view_mod (fun w => { w with obj := none }) (fun k => by simp [Ktask.view]),
      mutexTaskPriReset_view, shows, readyListAdd_view, blkListRm_view,
      tickListRm_view h, View.put_mod, View.put_mod]
    rfl
  · exact .inl rfl
  · exact .inl rfl

/-- A task is put on the tick list. -/
theorem tickListInsert_view (s : KState) (t : TaskId) (time : Nat) :
    (tickListInsert s t time).view = s.view.arm t time := by
  unfold tickListInsert View.arm
  split
  · next pos =>
    split
    · next there => rw [if_neg fun both => both.2 there]; rfl
    · next out =>
      rw [if_pos ⟨pos, out⟩]
      rw [modTask_view_mod fun w =>
        { w with tickMatch := (s.tickCount + time) % tickRange, tickHead := true }]
      · rfl
      · exact fun _ => rfl
  · next zero => rw [if_neg fun both => zero both.1]

/-- The object a task waits for stays. -/
theorem tickListInsert_blkObj (s : KState) (t : TaskId) (time : Nat) :
    ((tickListInsert s t time).tasks t).blkObj = (s.tasks t).blkObj := by
  unfold tickListInsert
  split
  · split
    · rfl
    · simp [modTask, setTask]
  · rfl

/-- A task begins to wait. -/
theorem pendToBlkObj_view (state : (s.tasks t).taskState = .rdy) (o : ObjId) (timeout : Nat) :
    (pendToBlkObj s o t timeout).view = s.view.block o t timeout := by
  have named : (s.modTask t fun k => { k with blkObj := some o }).view = s.view := by
    rw [modTask_view, show ({ s.tasks t with blkObj := some o } : Ktask).view = s.view.task t by
      simp [Ktask.view, view, state], update_eq_self]
  -- the record of `t` when its state is set
  have armed : ∀ r : KState, (r.tasks t).blkObj = some o →
      (r.modTask t fun k => { k with taskState := .pend }).view =
        r.view.mod t fun w => { w with taskState := .pend, obj := some o } := by
    intro r obj
    rw [modTask_view]
    refine congrArg (r.view.put t · r.view.tickList) ?_
    simp [Ktask.view, view, obj]
  have obj : ((s.modTask t fun k => { k with blkObj := some o }).tasks t).blkObj = some o := by
    simp [modTask, setTask]
  unfold pendToBlkObj View.block
  rw [blkListAdd_view, readyListRm_view]
  split
  · rw [armed _ (by rw [tickListInsert_blkObj, obj]), tickListInsert_view, named]
  · rw [armed _ obj, named]

end AliosThings.Rhino
