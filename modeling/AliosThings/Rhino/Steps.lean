import AliosThings.Rhino.RingbufFifo
import AliosThings.Rhino.View

/-!
# Steps of the waits

A call changes the waits of other tasks than its caller in few ways: a wait is given up after a
timeout or an abort, it is ended by a call on the object waited for, a sleep ends, or a task is
deleted. `View.Step` says that nothing else happens, and that the data of other objects and the
order of the tick list stay; it is transitive. The loops of wake-ups are such steps, and they
keep the kernel's lists in order (`Woke`).
-/

namespace AliosThings.Rhino

open Lib KRingbuf List Function

/-- What a task has asked for and been given: the parts of its record that a wait does not change
by itself. -/
structure TaskView.SameRequest (w w' : TaskView) : Prop where
  tickMatch : w'.tickMatch = w.tickMatch
  msg : w'.msg = w.msg
  bqMsgSize : w'.bqMsgSize = w.bqMsgSize
  pendFlags : w'.pendFlags = w.pendFlags
  pendInfo : w'.pendInfo = w.pendInfo
  pendOption : w'.pendOption = w.pendOption

/-- What can happen to a task that does not act itself, in a call that deals with the objects
of `X`. -/
inductive TaskView.Passive (X : Set ObjId) (w w' : TaskView) : Prop where
  | rests (phase : w'.phase = w.phase) (blkState : w'.blkState = w.blkState)
    (request : w.SameRequest w') (tick : w'.tickHead = w.tickHead)
  | quits (o : ObjId) (waits : w.phase = .waiting o) (free : w'.phase = .free)
    (blkState : w'.blkState = .timeout ∨ w'.blkState = .abort) (request : w.SameRequest w')
  | served (o : ObjId) (dealt : o ∈ X) (waits : w.phase = .waiting o) (free : w'.phase = .free)
  | rises (asleep : w.phase = .asleep) (free : w'.phase = .free)
  | dies (absent : w'.phase = .absent)

/-- The data of the object `o` are the same. -/
structure View.SameObject (v v' : View) (o : ObjId) : Prop where
  type : v'.type o = v.type o
  sem : v'.sems o = v.sems o
  event : v'.events o = v.events o
  queue : v'.queues o = v.queues o
  bufQueue : v'.bufQueues o = v.bufQueues o

/-- The rings of the queue `o` stay where they are. -/
structure View.SameRings (v v' : View) (o : ObjId) : Prop where
  queue : SameShape (v.queues o).ringbuf (v'.queues o).ringbuf
  bufQueue : SameShape (v.bufQueues o).ringbuf (v'.bufQueues o).ringbuf

/-- A step in which nobody begins to wait: the objects of `X` and the memory in `W` are changed, and
waiters of these objects and of the mutexes `M` are served. -/
structure View.Step (M X : Set ObjId) (W : List (Nat × Nat)) (v v' : View) : Prop where
  task : ∀ t, (v.task t).Passive (X ∪ M) (v'.task t)
  object : ∀ o, o ∉ X → v.SameObject v' o
  rings : ∀ o, v.SameRings v' o
  type : ∀ o, v'.type o = v.type o ∨ v'.type o = .none
  ticks : v'.tickList.Sublist v.tickList
  tickCount : v'.tickCount = v.tickCount
  mem : v.mem.SameOutside W v'.mem

variable {M X : Set ObjId} {W : List (Nat × Nat)} {v v' v'' : View} {w w' w'' : TaskView}
  {t u : TaskId} {o : ObjId} {st : TaskStat}

theorem TaskView.SameRequest.refl (w : TaskView) : w.SameRequest w := ⟨rfl, rfl, rfl, rfl, rfl, rfl⟩

theorem TaskView.SameRequest.trans (h : w.SameRequest w') (h' : w'.SameRequest w'') :
    w.SameRequest w'' :=
  ⟨h'.tickMatch.trans h.tickMatch, h'.msg.trans h.msg, h'.bqMsgSize.trans h.bqMsgSize,
    h'.pendFlags.trans h.pendFlags, h'.pendInfo.trans h.pendInfo,
    h'.pendOption.trans h.pendOption⟩

/-- The request of a task outlives its wait. -/
theorem TaskView.SameRequest.released (w : TaskView) (st : TaskStat) (bs : BlkStat) :
    w.SameRequest (w.released st bs) := ⟨rfl, rfl, rfl, rfl, rfl, rfl⟩

theorem TaskView.Passive.refl (w : TaskView) : w.Passive X w := .rests rfl rfl (.refl w) rfl

/-- A task that is free only rests or dies. -/
theorem TaskView.Passive.of_free (h : w.Passive X w') (free : w.phase = .free) :
    w'.phase = .free ∧ w'.blkState = w.blkState ∧ w.SameRequest w' ∨ w'.phase = .absent := by
  cases h with
  | rests phase blkState request => exact .inl ⟨phase.trans free, blkState, request⟩
  | quits o waits | served _ _ waits => rw [free] at waits; cases waits
  | rises asleep => rw [free] at asleep; cases asleep
  | dies absent => exact .inr absent

/-- A wait goes on, or is over. -/
theorem TaskView.Passive.of_waiting (h : w.Passive X w') (waits : w.phase = .waiting o) :
    w'.phase = .waiting o ∧ w.SameRequest w' ∨ w'.phase = .free ∨ w'.phase = .absent := by
  cases h with
  | rests phase _ request => exact .inl ⟨phase.trans waits, request⟩
  | quits a _ free | served a _ _ free | rises _ free => exact .inr (.inl free)
  | dies absent => exact .inr (.inr absent)

/-- Nobody is created. -/
theorem TaskView.Passive.of_absent (h : w.Passive X w') (absent : w.phase = .absent) :
    w'.phase = .absent := by
  cases h with
  | rests phase => exact phase.trans absent
  | quits o waits | served _ _ waits => rw [absent] at waits; cases waits
  | rises asleep => rw [absent] at asleep; cases asleep
  | dies absent => exact absent

/-- Two passive steps are one. -/
theorem TaskView.Passive.trans (h : w.Passive X w') (h' : w'.Passive X w'') : w.Passive X w'' := by
  cases h with
  | rests phase blkState request tick =>
    cases h' with
    | rests phase' blkState' request' tick' =>
      exact .rests (phase'.trans phase) (blkState'.trans blkState) (request.trans request')
        (tick'.trans tick)
    | quits o waits free blkState' request' =>
      exact .quits o (phase ▸ waits) free blkState' (request.trans request')
    | served o dealt waits free => exact .served o dealt (phase ▸ waits) free
    | rises asleep free => exact .rises (phase ▸ asleep) free
    | dies absent => exact .dies absent
  | quits o waits free _ request =>
    rcases h'.of_free free with ⟨free', blkState', request'⟩ | absent
    · exact .quits o waits free' (by rwa [blkState']) (request.trans request')
    · exact .dies absent
  | served o dealt waits free =>
    rcases h'.of_free free with ⟨free', -, -⟩ | absent
    · exact .served o dealt waits free'
    · exact .dies absent
  | rises asleep free =>
    rcases h'.of_free free with ⟨free', -, -⟩ | absent
    · exact .rises asleep free'
    · exact .dies absent
  | dies absent => exact .dies (h'.of_absent absent)

theorem View.SameObject.refl (v : View) (o : ObjId) : v.SameObject v o := ⟨rfl, rfl, rfl, rfl, rfl⟩

theorem View.SameObject.trans (h : v.SameObject v' o) (h' : v'.SameObject v'' o) :
    v.SameObject v'' o :=
  ⟨h'.type.trans h.type, h'.sem.trans h.sem, h'.event.trans h.event, h'.queue.trans h.queue,
    h'.bufQueue.trans h.bufQueue⟩

theorem View.SameRings.refl (v : View) (o : ObjId) : v.SameRings v o := ⟨.refl _, .refl _⟩

/-- The rings are part of an object. -/
theorem View.SameObject.rings (h : v.SameObject v' o) : v.SameRings v' o := by
  refine ⟨?_, ?_⟩
  · rw [h.queue]
    exact .refl _
  · rw [h.bufQueue]
    exact .refl _

theorem View.Step.refl (v : View) : v.Step M X W v :=
  ⟨fun t => .refl (v.task t), fun o _ => .refl v o, .refl v, fun _ => .inl rfl,
    Sublist.refl _, rfl, .refl _ _⟩

/-- Two steps are one. -/
theorem View.Step.trans (h : v.Step M X W v') (h' : v'.Step M X W v'') : v.Step M X W v'' where
  task t := (h.task t).trans (h'.task t)
  object o out := (h.object o out).trans (h'.object o out)
  rings o := ⟨(h.rings o).queue.trans (h'.rings o).queue,
    (h.rings o).bufQueue.trans (h'.rings o).bufQueue⟩
  type o := by
    rcases h'.type o with same | none
    · rw [same]
      exact h.type o
    · exact .inr none
  ticks := h'.ticks.trans h.ticks
  tickCount := h'.tickCount.trans h.tickCount
  mem := h.mem.trans h'.mem

theorem View.Step.of_eq (same : v' = v) : v.Step M X W v' := by
  rw [same]
  exact .refl v

/-- A step in which only the record of one task and the tick list change. -/
theorem View.Step.put {ticks : List TaskId} (task : (v.task t).Passive (X ∪ M) w)
    (sub : ticks.Sublist v.tickList) : v.Step M X W (v.put t w ticks) where
  task u := by
    rcases eq_or_ne u t with rfl | other
    · simpa using task
    · simpa [other] using .refl _
  object _ _ := ⟨rfl, rfl, rfl, rfl, rfl⟩
  rings _ := ⟨.refl _, .refl _⟩
  type _ := .inl rfl
  ticks := sub
  tickCount := rfl
  mem := .refl _ _

/-- A change of the memory alone. -/
theorem View.Step.store {mem : Mem} (same : v.mem.SameOutside W mem) (overrun : Bool) :
    v.Step M X W { v with mem := mem, overrun := overrun } :=
  ⟨fun _ => .refl _, fun _ _ => ⟨rfl, rfl, rfl, rfl, rfl⟩, fun _ => ⟨.refl _, .refl _⟩,
    fun _ => .inl rfl, .refl _, rfl, same⟩

/-- A change of the data of `o` alone. -/
theorem View.Step.one (dealt : o ∈ X) (task : v'.task = v.task) (ticks : v'.tickList = v.tickList)
    (tickCount : v'.tickCount = v.tickCount) (type : ∀ o, v'.type o = v.type o ∨ v'.type o = .none)
    (object : ∀ a, a ≠ o → v.SameObject v' a) (rings : v.SameRings v' o) (mem : v'.mem = v.mem) :
    v.Step M X W v' where
  task t := by
    rw [task]
    exact .refl _
  object a out := object a fun same => out (same ▸ dealt)
  rings a := by
    rcases eq_or_ne a o with rfl | other
    · exact rings
    · exact (object a other).rings
  type := type
  ticks := by rw [ticks]
  tickCount := tickCount
  mem := mem ▸ .refl _ _

/-- A released task waits for nothing. -/
theorem released_phase_free (state : st = .rdy ∨ st = .suspended) (bs : BlkStat) :
    (w.released st bs).phase = .free := by
  rcases state with rfl | rfl <;> rfl

/-- A wait may time out or be aborted. -/
theorem View.Step.quit {bs : BlkStat} (waits : (v.task t).phase = .waiting o)
    (state : st = .rdy ∨ st = .suspended) (blkState : bs = .timeout ∨ bs = .abort) :
    v.Step M X W (v.release t st bs) :=
  .put (.quits o waits (released_phase_free state bs) blkState (.released ..)) erase_sublist

/-- A waiter of an object of the call may be released. -/
theorem View.Step.serve (bs : BlkStat) (dealt : o ∈ X ∪ M) (waits : (v.task t).phase = .waiting o)
    (state : st = .rdy ∨ st = .suspended) : v.Step M X W (v.release t st bs) :=
  .put (.served o dealt waits (released_phase_free state bs)) erase_sublist

/-- A sleeper may be woken. -/
theorem View.Step.rise (bs : BlkStat) (asleep : (v.task t).phase = .asleep)
    (state : st = .rdy ∨ st = .suspended) : v.Step M X W (v.release t st bs) :=
  .put (.rises asleep (released_phase_free state bs)) erase_sublist

/-- A task may be deleted. -/
theorem View.Step.die (bs : BlkStat) : v.Step M X W (v.release t .deleted bs) :=
  .put (.dies rfl) erase_sublist

/-! ## Changes of one record -/

variable {s : KState} {f : Ktask → Ktask}

/-- The end of a wait is a step. -/
theorem pendTaskEnd_waits (bs : BlkStat) (h : Core s) (linked : (s.tasks t).taskList = .blk o)
    (dealt : o ∈ X ∪ M) : s.view.Step M X W (pendTaskEnd bs s t).view := by
  obtain ⟨st, state, eq⟩ := pendTaskEnd_view bs h linked
  rw [eq]
  exact .serve bs dealt (h.phase_of_blk linked) state

/-- A waiter is given a message and woken. -/
theorem deliver_view (linked : (s.tasks t).taskList = .blk o) (core : Core (s.modTask t f))
    (link : (f (s.tasks t)).taskList = (s.tasks t).taskList) :
    ∃ st, (st = .rdy ∨ st = .suspended) ∧ (pendTaskWakeup (s.modTask t f) t).view =
      s.view.put t ((f (s.tasks t)).view.released st .finish) (s.tickList.erase t) := by
  have linked' : ((s.modTask t f).tasks t).taskList = .blk o := by
    simp [KState.modTask, KState.setTask, link, linked]
  obtain ⟨st, state, eq⟩ := pendTaskEnd_view .finish core linked'
  refine ⟨st, state, Eq.trans eq ?_⟩
  rw [modTask_view]
  simp only [View.release, View.put, update_self, update_idem]
  rfl

/-- A change of state within a phase, by a suspension or a resumption. -/
theorem modTask_waits (phase : (f (s.tasks t)).view.phase = (s.view.task t).phase)
    (blkState : (f (s.tasks t)).blkState = (s.tasks t).blkState)
    (request : (s.view.task t).SameRequest (f (s.tasks t)).view)
    (tick : (f (s.tasks t)).tickHead = (s.tasks t).tickHead) :
    s.view.Step M X W (s.modTask t f).view := by
  rw [modTask_view]
  exact .put (.rests phase blkState request tick) (Sublist.refl _)

/-- So is the deletion of an object. -/
theorem modBlk_waits (dealt : o ∈ X) {f : BlkObj → BlkObj}
    (becomes : ∀ b, (f b).objType = .none) : s.view.Step M X W (s.modBlk o f).view := by
  rw [modBlk_view_type becomes]
  refine .one dealt rfl rfl rfl (fun a => ?_) (fun _ other =>
    ⟨update_of_ne other _ _, rfl, rfl, rfl, rfl⟩) ⟨.refl _, .refl _⟩ rfl
  rcases eq_or_ne a o with rfl | other
  · exact .inr (update_self ..)
  · exact .inl (update_of_ne other _ _)

/-! ## Loops of wake-ups -/

/-- Tasks that waited for `o` have been woken. -/
structure Woke (W : List (Nat × Nat)) (o : ObjId) (s s' : KState) : Prop where
  kept : Kept ∅ s s'
  quiet : (s.blk o).objType ≠ .mutex → SameOwnership s s'
  step : ∀ {M X : Set ObjId}, o ∈ X → s.view.Step M X W s'.view

variable {s' s'' : KState}

theorem Woke.refl (h : Core s) : Woke W o s s := ⟨.refl h, fun _ => .refl s, fun _ => .refl _⟩

theorem Woke.trans (h : Woke W o s s') (h' : Woke W o s' s'') : Woke W o s s'' where
  kept := h.kept.trans h'.kept
  quiet type := (h.quiet type).trans (h'.quiet (h.kept.type o ▸ type))
  step dealt := (h.step dealt).trans (h'.step dealt)

section

variable (bs : BlkStat) (h : Core s) (linked : (s.tasks t).taskList = .blk o)
include bs h linked

/-- One waiter has been woken. -/
theorem pendTaskEnd_woke : Woke W o s (pendTaskEnd bs s t) :=
  ⟨pendTaskEnd_kept bs h linked, pendTaskEnd_sameOwnership bs h linked, fun dealt =>
    pendTaskEnd_waits bs h linked (.inl dealt)⟩

/-- The woken task leaves the list. -/
theorem pendTaskEnd_blkList : ((pendTaskEnd bs s t).blk o).blkList = (s.blk o).blkList.erase t := by
  obtain ⟨rq, eq, -⟩ := pendTaskEnd_eq bs h linked
  rw [eq]
  simp

/-- The other tasks stay where they are. -/
theorem pendTaskEnd_other (other : u ≠ t) : (pendTaskEnd bs s t).tasks u = s.tasks u := by
  obtain ⟨rq, eq, -⟩ := pendTaskEnd_eq bs h linked
  rw [eq]
  simp [other]

end

/-- A wake-up of the first waiter of `o`, as the loops over a blocked list make it. -/
def Wakes (W : List (Nat × Nat)) (o : ObjId) (f : KState → TaskId → KState) : Prop :=
  ∀ s t, Core s → (s.tasks t).taskList = .blk o →
    Woke W o s (f s t) ∧ ((f s t).blk o).blkList = (s.blk o).blkList.erase t

theorem pendTaskEnd_wakes (bs : BlkStat) (o : ObjId) : Wakes W o (pendTaskEnd bs) :=
  fun _ _ h linked => ⟨pendTaskEnd_woke bs h linked, pendTaskEnd_blkList bs h linked⟩

/-- The first waiter is linked in the list it heads. -/
theorem Core.linked_head {rest : List TaskId} (h : Core s)
    (list : (s.blk o).blkList = t :: rest) : (s.tasks t).taskList = .blk o :=
  (h.blk.mem t o).mp (by rw [list]; exact mem_cons_self)

/-- A loop over the list wakes all waiters. -/
theorem blkListDrain_woke {f : KState → TaskId → KState} (wakes : Wakes W o f) {fuel : Nat}
    (h : Core s) (enough : (s.blk o).blkList.length ≤ fuel) :
    Woke W o s (blkListDrain f o fuel s) ∧ ((blkListDrain f o fuel s).blk o).blkList = [] := by
  induction fuel generalizing s with
  | zero =>
    have empty := eq_nil_of_length_eq_zero (Nat.le_zero.mp enough)
    unfold blkListDrain
    rw [empty]
    exact ⟨.refl h, empty⟩
  | succ _ ih =>
    unfold blkListDrain
    cases list : (s.blk o).blkList
    case nil => exact ⟨.refl h, list⟩
    case cons t rest =>
    obtain ⟨woke, erased⟩ := wakes s t h (h.linked_head list)
    rw [list, erase_cons_head] at erased
    obtain ⟨woke', empty⟩ := ih woke.kept.core (by
      rw [erased]
      rw [list] at enough
      exact Nat.le_of_succ_le_succ enough)
    exact ⟨woke.trans woke', empty⟩

theorem blkListForEach_woke {f : KState → TaskId → KState} (wakes : Wakes W o f) (h : Core s) :
    Woke W o s (blkListForEach f o s) ∧ ((blkListForEach f o s).blk o).blkList = [] :=
  blkListDrain_woke wakes h le_rfl

end AliosThings.Rhino
