import AliosThings.Rhino.Calls

/-!
# The calls on semaphores, event flags and queues, and on tasks

Each of them returns with at most the data of its object changed, or wakes tasks that wait for the
object, or blocks the caller on it.
-/

namespace AliosThings.Rhino

open Lib List KCall

variable {W : List (Nat × Nat)} {s : KState} {o : ObjId}

/-! ## Semaphores -/

/-- `sem_give` is refused, counts the token, or wakes waiters. -/
theorem semGive_does (s : KState) (o : ObjId) (wakeAll : Bool) :
    (∃ e, semGive s o wakeAll = (.ret e, s)) ∨
      (∃ f, semGive s o wakeAll = (.ret .success, s.modSem o f)) ∨
      ∃ s', (s.blk o).objType = .sem ∧ (Core s → Woke W o s s') ∧
        semGive s o wakeAll = (.ret .success, coreSched s') := by
  unfold semGive
  split
  · exact .inl ⟨_, rfl⟩
  next type =>
  split
  · split
    · exact .inl ⟨_, rfl⟩
    · exact .inr (.inl ⟨_, rfl⟩)
  · next t rest list =>
    refine .inr (.inr ⟨_, not_not.mp type, fun h => ?_, rfl⟩)
    cases wakeAll with
    | false => exact pendTaskEnd_woke .finish h (h.linked_head list)
    | true => exact (blkListForEach_woke (pendTaskEnd_wakes .finish o) h).1

theorem semGive_waits {M X : Set ObjId} (h : Core s) (dealt : o ∈ X) (wakeAll : Bool) :
    s.view.Step M X W (semGive s o wakeAll).2.view := by
  rcases semGive_does s o wakeAll with ⟨e, eq⟩ | ⟨f, eq⟩ | ⟨s', -, woke, eq⟩
  · rw [eq]
    exact .refl _
  · rw [eq]
    exact (modSem_touches h f).woke.step dealt
  · rw [eq, coreSched_view]
    exact (woke h).step dealt

/-- `krhino_sem_give` wakes waiters or counts up. -/
theorem semGive_acts (inv : KInv s) (o : ObjId) (wakeAll : Bool) :
    Acts (some o) W s (semGive s o wakeAll).2 := by
  rcases semGive_does s o wakeAll with ⟨e, eq⟩ | ⟨f, eq⟩ | ⟨s', type, woke, eq⟩
  · rw [eq]
    exact .refl inv
  · rw [eq]
    exact (modSem_touches inv.core f).acts inv
  · rw [eq]
    exact (woke inv.core).acts inv type (by decide)

/-- With the scheduler locked nothing but the wake-up happens. -/
theorem semGive_locked (h : Core s) (lock : 0 < s.schedLock) (o : ObjId) (wakeAll : Bool) :
    Kept ∅ s (semGive s o wakeAll).2 ∧ SameOwnership s (semGive s o wakeAll).2 := by
  rcases semGive_does (W := []) s o wakeAll with ⟨e, eq⟩ | ⟨f, eq⟩ | ⟨s', type, woke, eq⟩
  · rw [eq]
    exact ⟨.refl h, .refl s⟩
  · rw [eq]
    exact ⟨Quiet.kept rfl h, Quiet.sameOwnership rfl⟩
  · rw [eq, coreSched_idle (.inr ((woke h).kept.schedLock.symm ▸ lock))]
    exact ⟨(woke h).kept, (woke h).quiet (by rw [type]; decide)⟩

/-- A call that is refused changes nothing. -/
theorem semGive_refused {wakeAll : Bool} (refused : (semGive s o wakeAll).1 ≠ .ret .success) :
    (semGive s o wakeAll).2 = s := by
  rcases semGive_does (W := []) s o wakeAll with ⟨e, eq⟩ | ⟨f, eq⟩ | ⟨s', -, -, eq⟩
  · rw [eq]
  · exact absurd (congrArg Prod.fst eq) refused
  · exact absurd (congrArg Prod.fst eq) refused

/-- A take is refused, gets a token from the count, or waits for one. -/
theorem krhinoSemTake_cases (inv : KInv s) (o : ObjId) (ticks : Nat) :
    (∃ e, e ≠ .success ∧ krhinoSemTake s o ticks = (.ret e, s)) ∨
      (s.sems o).count > 0 ∧ krhinoSemTake s o ticks =
        (.ret .success, s.modSem o fun k => { k with count := k.count - 1 }) ∨
      (s.blk o).objType = .sem ∧ (s.sems o).count = 0 ∧ Parks s (.semTake o ticks)
        (fun w => { w with taskState := .pend, obj := some o }) (krhinoSemTake s o ticks) := by
  unfold krhinoSemTake intrptNestedLevelChk
  split
  · exact .inl ⟨_, by decide, rfl⟩
  next nested =>
  split
  · exact .inl ⟨_, by decide, rfl⟩
  next type =>
  split
  · next pos => exact .inr (.inl ⟨pos, rfl⟩)
  next zero =>
  split
  · exact .inl ⟨_, by decide, rfl⟩
  next waits =>
  split
  · exact .inl ⟨_, by decide, rfl⟩
  · next lock =>
    have parks := blockActive_parks (c := .semTake o ticks) (f := id) (g := id) inv (by omega)
      lock waits waits (not_not.mp type) rfl rfl (by decide) (fun _ => rfl) (fun _ => rfl)
      fun _ _ _ => rfl
    rw [modTask_id] at parks
    exact .inr (.inr ⟨not_not.mp type, by omega, parks⟩)

/-- `krhino_sem_take` counts down, or its caller waits. -/
theorem krhinoSemTake_acts (inv : KInv s) (o : ObjId) (ticks : Nat) :
    CallActs s (.semTake o ticks) (krhinoSemTake s o ticks) := by
  rcases krhinoSemTake_cases inv o ticks with ⟨e, -, eq⟩ | ⟨-, eq⟩ | ⟨-, -, parks⟩
  · rw [eq]
    exact .refl inv
  · rw [eq]
    exact .touches (modSem_touches inv.core _) inv
  · exact .parks _ parks

theorem krhinoSemCountSet_acts (inv : KInv s) (o : ObjId) (count : Nat) :
    CallActs s (.semCountSet o count) (krhinoSemCountSet s o count) := by
  unfold krhinoSemCountSet intrptNestedLevelChk
  split
  · exact .refl inv
  split
  · exact .refl inv
  split
  · exact .refl inv
  · exact .touches (modSem_touches inv.core _) inv

/-! ## Event flags -/

/-- `krhino_event_get` is refused, granted, or waits. -/
theorem krhinoEventGet_cases (inv : KInv s) (o : ObjId) (flags : BitVec 32)
    (opt actlFlags ticks : Nat) :
    (∃ e, e ≠ .success ∧ krhinoEventGet s o flags opt actlFlags ticks = (.ret e, s)) ∨
      ∃ waitOpt, EventOpt.ofByte opt = some waitOpt ∧ (s.blk o).objType = .event ∧
        (eventMet waitOpt (s.events o).flags flags = true ∧
            krhinoEventGet s o flags opt actlFlags ticks = (.ret .success,
              (s.store32 actlFlags (s.events o).flags.toNat).modEvent o fun e =>
                { e with
                  flags := if waitOpt.clearMask then e.flags &&& ~~~ flags else e.flags }) ∨
          eventMet waitOpt (s.events o).flags flags = false ∧
            Parks s (.eventGet o flags opt actlFlags ticks) (fun w => { w with
                pendOption := waitOpt, pendFlags := flags, pendInfo := actlFlags
                taskState := .pend, obj := some o })
              (krhinoEventGet s o flags opt actlFlags ticks)) := by
  unfold krhinoEventGet
  cases EventOpt.ofByte opt with
  | none => exact .inl ⟨_, by decide, rfl⟩
  | some waitOpt =>
  unfold intrptNestedLevelChk
  simp only
  split
  · exact .inl ⟨_, by decide, rfl⟩
  next nested =>
  split
  · exact .inl ⟨_, by decide, rfl⟩
  next type =>
  split
  · next met => exact .inr ⟨waitOpt, rfl, not_not.mp type, .inl ⟨met, rfl⟩⟩
  next notMet =>
  split
  · exact .inl ⟨_, by decide, rfl⟩
  next waits =>
  split
  · exact .inl ⟨_, by decide, rfl⟩
  · next lock =>
    refine .inr ⟨waitOpt, rfl, not_not.mp type, .inr ⟨Bool.not_eq_true _ ▸ notMet, ?_⟩⟩
    exact blockActive_parks (g := fun w =>
      { w with pendOption := waitOpt, pendFlags := flags, pendInfo := actlFlags }) inv (by omega)
      lock waits waits (not_not.mp type) rfl rfl (by decide) (fun _ => rfl) (fun _ => rfl)
      fun _ _ _ => rfl

/-- `krhino_event_get` is answered at once, or its caller waits. -/
theorem krhinoEventGet_acts (inv : KInv s) (o : ObjId) (flags : BitVec 32)
    (opt actlFlags ticks : Nat) : CallActs s (.eventGet o flags opt actlFlags ticks)
      (krhinoEventGet s o flags opt actlFlags ticks) := by
  rcases krhinoEventGet_cases inv o flags opt actlFlags ticks with
    ⟨e, -, eq⟩ | ⟨waitOpt, -, -, ⟨-, eq⟩ | ⟨-, parks⟩⟩
  · rw [eq]
    exact .refl inv
  · rw [eq]
    have stored : Touches (some o) [(actlFlags, wordSize)] s
        (s.store32 actlFlags (s.events o).flags.toNat) :=
      store32_touches inv.core (mem_singleton_self _)
    exact .touches (stored.trans (modEvent_touches stored.kept.core _)) inv
  · exact .parks _ parks

/-- The waiters whose flags match are woken. -/
theorem eventSetLoop_woke (cur : BitVec 32) {list : List TaskId} (h : Core s) (nodup : list.Nodup)
    (linked : ∀ t ∈ list, (s.tasks t).taskList = .blk o)
    (stores : ∀ t ∈ list, ((s.tasks t).pendInfo, wordSize) ∈ W) :
    Woke W o s (eventSetLoop o cur list s) := by
  induction list generalizing s with
  | nil => exact .refl h
  | cons t rest ih =>
    obtain ⟨notIn, nodupRest⟩ := nodup_cons.mp nodup
    unfold eventSetLoop
    simp only
    split
    · -- the flags are stored, and the task is woken
      have stored : Woke W o s (s.store32 (s.tasks t).pendInfo cur.toNat) :=
        (store32_touches h (stores t mem_cons_self)).woke
      have head : ((s.store32 (s.tasks t).pendInfo cur.toNat).tasks t).taskList = .blk o :=
        linked t mem_cons_self
      have woke := stored.trans (pendTaskEnd_woke .finish stored.kept.core head)
      have others := fun u (inRest : u ∈ rest) =>
        pendTaskEnd_other .finish stored.kept.core head fun same => notIn (same ▸ inRest)
      unfold pendTaskWakeup
      generalize pendTaskEnd .finish (s.store32 _ _) t = woken at woke others ⊢
      have linkedRest : ∀ u ∈ rest, (woken.tasks u).taskList = .blk o := fun u inRest => by
        rw [others u inRest]
        exact linked u (mem_cons_of_mem t inRest)
      have storesRest : ∀ u ∈ rest, ((woken.tasks u).pendInfo, wordSize) ∈ W := fun u inRest => by
        rw [others u inRest]
        exact stores u (mem_cons_of_mem t inRest)
      split
      · have cleared := woke.trans (modEvent_touches woke.kept.core fun e =>
          { e with flags := e.flags &&& ~~~ (s.tasks t).pendFlags }).woke
        exact cleared.trans (ih cleared.kept.core nodupRest linkedRest storesRest)
      · exact woke.trans (ih woke.kept.core nodupRest linkedRest storesRest)
    · exact ih h nodupRest (fun u inRest => linked u (mem_cons_of_mem t inRest))
        fun u inRest => stores u (mem_cons_of_mem t inRest)

theorem eventSet_acts (inv : KInv s) (flags : BitVec 32) (opt : EventOpt)
    (stores : ∀ t ∈ (s.blk o).blkList, ((s.tasks t).pendInfo, wordSize) ∈ W) :
    Acts (some o) W s (eventSet s o flags opt).2 := by
  unfold eventSet
  split
  · exact .refl inv
  split
  · exact (modEvent_touches inv.core fun e => { e with flags := e.flags &&& flags }).acts inv
  · next same _ =>
    have flagged := modEvent_touches (o := o) (W := W) inv.core fun e =>
      { e with flags := (s.events o).flags ||| flags }
    refine flagged.then inv fun inv' =>
      Woke.acts inv' ?_ (not_ne_iff.mp same) (by decide)
    exact eventSetLoop_woke _ inv'.core (inv.core.blk.nodup o)
      (fun t there => (inv.core.blk.mem t o).mp there) stores

/-- The flags are stored where the woken tasks asked for them. -/
theorem krhinoEventSet_acts (inv : KInv s) (flags : BitVec 32) (opt : Nat)
    (stores : ∀ t ∈ (s.blk o).blkList, ((s.tasks t).pendInfo, wordSize) ∈ W) :
    Acts (some o) W s (krhinoEventSet s o flags opt).2 := by
  unfold krhinoEventSet
  split
  · exact eventSet_acts inv flags .and stores
  · exact eventSet_acts inv flags .or stores
  · exact .refl inv

/-! ## Queues -/

/-- A field of the woken task is set before the wake-up. -/
theorem touchWake_wakes {f : Ktask → Ktask} (o : ObjId) (same : ∀ k, (f k).standing = k.standing) :
    Wakes W o fun s t => pendTaskWakeup (s.modTask t f) t := by
  intro s t h linked
  have touched := Untouched.modTask h t same
  have alike := (Ktask.of_standing (same (s.tasks t))).1
  have linked' : ((s.modTask t f).tasks t).taskList = .blk o := by
    simpa [modTask_eq, alike.taskList] using linked
  obtain ⟨kept, quiet, -⟩ := pendTaskEnd_woke (W := W) .finish touched.kept.core linked'
  refine ⟨⟨touched.kept.trans kept, fun type => touched.same.trans (quiet type), fun dealt => ?_⟩,
    pendTaskEnd_blkList .finish touched.kept.core linked'⟩
  obtain ⟨st, state, view⟩ := deliver_view linked touched.kept.core alike.taskList
  rw [view]
  exact .put (.served o (.inl dealt) (h.phase_of_blk linked) (released_phase_free state _))
    erase_sublist

theorem taskMsgRecv_wakes (msg : Nat) (o : ObjId) : Wakes W o (taskMsgRecv msg) :=
  touchWake_wakes o fun _ => rfl

/-- A push writes to the buffer of the ring only. -/
theorem ringbufPush_sameOutside {r r' : KRingbuf} {mem mem' : Mem} {data : Bytes} {len : Nat}
    {e : Kstat} (push : ringbufPush wordSize r mem data len = some (e, r', mem'))
    (stores : r.region ∈ W) : mem.SameOutside W mem' := fun x out => by
  have outside := out _ stores
  simp only [KRingbuf.region] at outside
  exact (ringbufPush_sameRegion push).outside x (by omega)

/-- A message goes into the ring. -/
theorem queuePush_touches (h : Core s) (msg : Nat) (stores : (s.queues o).ringbuf.region ∈ W) :
    Touches (some o) W s (queuePush s o msg) := by
  unfold queuePush
  split
  · exact overflow_touches h
  · next push =>
    have stored := mem_touches (d := some o) h (ringbufPush_sameOutside push stores)
    exact stored.trans (modQueue_touches stored.kept.core _
      (ringbufPush_sameRegion push).toSameShape)

/-- A message comes out of the ring. -/
theorem queuePop_touches (h : Core s) (msg : Nat)
    (stores : (msg, ringPopped (s.queues o).ringbuf s.mem) ∈ W) :
    Touches (some o) W s (queuePop s o msg) := by
  unfold queuePop
  split
  · exact overflow_touches h
  · next pop =>
    rw [ringPopped, pop] at stores
    have stored := mem_touches (d := some o) h (Mem.sameOutside_writeBytes s.mem stores)
    exact stored.trans (modQueue_touches stored.kept.core _ (ringbufPop_sameShape pop))

section

variable (inv : KInv s)
include inv

/-- A message goes to a waiter, to all of them, or into the ring. -/
theorem msgSend_acts (msg : Nat) (wakeAll : Bool) (stores : (s.queues o).ringbuf.region ∈ W) :
    Acts (some o) W s (msgSend s o msg wakeAll).2 := by
  unfold msgSend
  split
  · exact .refl inv
  next same =>
  split
  · exact .refl inv
  split
  · have counted := modQueue_touches (o := o) (W := W) inv.core (fun q =>
      { q with
        curNum := q.curNum + 1
        peakNum := if q.curNum + 1 > q.peakNum then q.curNum + 1 else q.peakNum }) (.refl _)
    have pushed := queuePush_touches (o := o) counted.kept.core msg
      (by simpa [KState.modQueue] using stores)
    exact (counted.trans pushed).acts inv
  · next t rest list =>
    refine Woke.acts inv ?_ (not_ne_iff.mp same) (by decide)
    cases wakeAll with
    | false => exact (taskMsgRecv_wakes msg o s t inv.core (inv.core.linked_head list)).1
    | true => exact (blkListForEach_woke (taskMsgRecv_wakes msg o) inv.core).1

/-- `krhino_queue_recv` is refused, gets a message from the ring, or waits. -/
theorem krhinoQueueRecv_cases (o : ObjId) (ticks msg : Nat) :
    (∃ e, e ≠ .success ∧ (krhinoQueueRecv s o ticks msg = (.ret e, s) ∨
        krhinoQueueRecv s o ticks msg = (.ret e, s.store32 msg 0))) ∨
      (s.queues o).curNum > 0 ∧ krhinoQueueRecv s o ticks msg =
        (.ret .success, (queuePop s o msg).modQueue o fun q => { q with curNum := q.curNum - 1 }) ∨
      (s.blk o).objType = .queue ∧ (s.queues o).curNum = 0 ∧ Parks s (.queueRecv o ticks msg)
        (fun w => { w with taskState := .pend, obj := some o })
        (krhinoQueueRecv s o ticks msg) := by
  unfold krhinoQueueRecv
  split
  · exact .inl ⟨_, by decide, .inl rfl⟩
  next byTask =>
  split
  · exact .inl ⟨_, by decide, .inl rfl⟩
  next type =>
  split
  · next pos => exact .inr (.inl ⟨pos, rfl⟩)
  next zero =>
  split
  · exact .inl ⟨_, by decide, .inr rfl⟩
  next waits =>
  split
  · exact .inl ⟨_, by decide, .inr rfl⟩
  · next lock =>
    have nested : s.intrptNested = 0 := Nat.eq_zero_of_not_pos fun pos => byTask ⟨pos, waits⟩
    have parks := blockActive_parks (c := .queueRecv o ticks msg) (f := id) (g := id) inv nested
      lock waits waits (not_not.mp type) rfl rfl (by decide) (fun _ => rfl) (fun _ => rfl)
      fun _ _ _ => rfl
    rw [modTask_id] at parks
    exact .inr (.inr ⟨not_not.mp type, by omega, parks⟩)

/-- `krhino_queue_recv` is answered at once, or its caller waits. -/
theorem krhinoQueueRecv_acts (o : ObjId) (ticks msg : Nat) :
    CallActs s (.queueRecv o ticks msg) (krhinoQueueRecv s o ticks msg) := by
  have h := inv.core
  rcases krhinoQueueRecv_cases inv o ticks msg with
    ⟨e, -, eq | eq⟩ | ⟨-, eq⟩ | ⟨-, -, parks⟩
  · rw [eq]
    exact .refl inv
  · rw [eq]
    exact .touches (store32_touches h (by simp [KCall.stores, callerStores])) inv
  · rw [eq]
    have popped := queuePop_touches (o := o) (W := (queueRecv o ticks msg).stores s) h msg
      (by simp [KCall.stores, callerStores])
    exact .touches (popped.trans (modQueue_touches popped.kept.core _ (.refl _))) inv
  · exact .parks _ parks

theorem krhinoQueueFlush_acts (o : ObjId) : CallActs s (.queueFlush o) (krhinoQueueFlush s o) := by
  unfold krhinoQueueFlush intrptNestedLevelChk
  split
  · exact .refl inv
  split
  · exact .refl inv
  · exact .touches (modQueue_touches inv.core _ ⟨rfl, rfl, rfl, rfl⟩) inv

/-- A message is copied to a waiter, or into the ring. -/
theorem krhinoBufQueueSend_acts (o : ObjId) (msg msgSize : Nat) :
    CallActs s (.bufQueueSend o msg msgSize) (krhinoBufQueueSend s o msg msgSize) := by
  unfold krhinoBufQueueSend
  split
  · exact .refl inv
  next same =>
  simp only
  split
  · exact .refl inv
  split
  · exact .refl inv
  split
  · split
    · exact .touches (overflow_touches inv.core) inv
    · next push =>
      have stored := mem_touches (d := some o)
        (W := (bufQueueSend o msg msgSize).stores s) inv.core
        (ringbufPush_sameOutside push (by simp [KCall.stores]))
      exact .touches (stored.trans (modBufQueue_touches stored.kept.core _
        (ringbufPush_sameRegion push).toSameShape)) inv
    · exact .refl inv
    · exact .refl inv
  · next t rest list =>
    have copied : s.mem.SameOutside ((bufQueueSend o msg msgSize).stores s)
        (s.mem.writeBytes (s.tasks t).msg (s.mem.readBytes msg msgSize)) :=
      Mem.sameOutside_writeBytes s.mem (by simp [KCall.stores, callerStores, list])
    refine .acts ((mem_touches inv.core copied).then inv fun inv' =>
      Woke.acts inv' ?_ (not_ne_iff.mp same) (by decide))
    exact (touchWake_wakes o (f := fun k => { k with bqMsgSize := msgSize }) (fun _ => rfl) _ t
      inv'.core (inv.core.linked_head list)).1

/-- `krhino_buf_queue_recv` is refused, gets a message from the ring, or waits. A pop that leaves
the buffer has no result. -/
theorem krhinoBufQueueRecv_cases (o : ObjId) (ticks msg size : Nat) :
    (∃ e, e ≠ .success ∧ (krhinoBufQueueRecv s o ticks msg size = (.ret e, s) ∨
        krhinoBufQueueRecv s o ticks msg size = (.ret e, s.store32 size 0))) ∨
      ringbufIsEmpty (s.bufQueues o).ringbuf = false ∧
        (ringbufPop wordSize (s.bufQueues o).ringbuf s.mem = none ∧
            krhinoBufQueueRecv s o ticks msg size = (.ret .success, s.overflow) ∨
          ∃ e bs len r, ringbufPop wordSize (s.bufQueues o).ringbuf s.mem = some (e, bs, len, r) ∧
            krhinoBufQueueRecv s o ticks msg size = (.ret .success,
              { s.modBufQueue o fun q => { q with ringbuf := r, curNum := q.curNum - 1 } with
                mem := s.mem.writeBytes msg bs }.store32 size len)) ∨
      (s.blk o).objType = .bufQueue ∧ ringbufIsEmpty (s.bufQueues o).ringbuf = true ∧
        Parks s (.bufQueueRecv o ticks msg size)
          (fun w => { w with msg := msg, taskState := .pend, obj := some o })
          (krhinoBufQueueRecv s o ticks msg size) := by
  unfold krhinoBufQueueRecv
  split
  · exact .inl ⟨_, by decide, .inl rfl⟩
  next byTask =>
  split
  · exact .inl ⟨_, by decide, .inl rfl⟩
  next type =>
  simp only
  split
  · next empty =>
    split
    · exact .inl ⟨_, by decide, .inr rfl⟩
    next waits =>
    split
    · exact .inl ⟨_, by decide, .inr rfl⟩
    · next lock =>
      have nested : s.intrptNested = 0 := Nat.eq_zero_of_not_pos fun pos => byTask ⟨pos, waits⟩
      refine .inr (.inr ⟨not_not.mp type, empty, ?_⟩)
      exact blockActive_parks (g := fun w => { w with msg := msg }) inv nested lock waits waits
        (not_not.mp type) rfl rfl (by decide) (fun _ => rfl) (fun _ => rfl) fun _ _ _ => rfl
  · next some =>
    refine .inr (.inl ⟨Bool.not_eq_true _ ▸ some, ?_⟩)
    split
    · next pop => exact .inl ⟨pop, rfl⟩
    · next e bs len r pop => exact .inr ⟨e, bs, len, r, pop, rfl⟩

/-- `krhino_buf_queue_recv` is answered at once, or its caller waits. -/
theorem krhinoBufQueueRecv_acts (o : ObjId) (ticks msg size : Nat) :
    CallActs s (.bufQueueRecv o ticks msg size) (krhinoBufQueueRecv s o ticks msg size) := by
  have h := inv.core
  have stores : (size, wordSize) ∈ (bufQueueRecv o ticks msg size).stores s := by
    simp [KCall.stores, callerStores]
  rcases krhinoBufQueueRecv_cases inv o ticks msg size with
    ⟨e, -, eq | eq⟩ | ⟨-, ⟨-, eq⟩ | ⟨e, bs, len, r, pop, eq⟩⟩ | ⟨-, -, parks⟩
  · rw [eq]
    exact .refl inv
  · rw [eq]
    exact .touches (store32_touches h stores) inv
  · rw [eq]
    exact .touches (overflow_touches h) inv
  · rw [eq]
    have pops : (msg, bs.length) ∈ (bufQueueRecv o ticks msg size).stores s := by
      simp [KCall.stores, callerStores, ringPopped, pop]
    have taken := modBufQueue_touches (W := (bufQueueRecv o ticks msg size).stores s)
      h (fun q => { q with ringbuf := r, curNum := q.curNum - 1 }) (ringbufPop_sameShape pop)
    have copied := taken.trans (mem_touches taken.kept.core (Mem.sameOutside_writeBytes _ pops))
    exact .touches (copied.trans (store32_touches copied.kept.core stores)) inv
  · exact .parks _ parks

theorem krhinoBufQueueFlush_acts (o : ObjId) :
    CallActs s (.bufQueueFlush o) (krhinoBufQueueFlush s o) := by
  unfold krhinoBufQueueFlush intrptNestedLevelChk
  split
  · exact .refl inv
  split
  · exact .refl inv
  · exact .touches (modBufQueue_touches inv.core _ ⟨rfl, rfl, rfl, rfl⟩) inv

end

/-! ## The calls that stop, start or delay a task -/

variable {t : TaskId}

/-! ### Sleep, yield, suspension -/

/-- The caller is put on the tick list. -/
theorem krhinoTaskSleep_acts (inv : KInv s) (ticks : Nat) :
    CallActs s (.taskSleep ticks) (krhinoTaskSleep s ticks) := by
  unfold krhinoTaskSleep intrptNestedLevelChk
  split
  · exact .refl inv
  next nonzero =>
  split
  · exact .refl inv
  next byTask =>
  have nested : s.intrptNested = 0 := by omega
  have rdy := inv.running (.inl nested)
  split
  · exact .refl inv
  · next lock =>
    refine .parks (fun w => { w with taskState := .sleep, obj := none }) ⟨⟨rfl, nested,
      running_free inv nested, ?_, fun _ => rfl, fun _ => rfl, fun _ => rfl,
      fun zero => nonzero (Option.some.inj zero)⟩, trivial, fun notIdle => ?_⟩
    · rw [coreSched_view, readyListRm_view, tickListInsert_view,
        modTask_view_mod fun w => { w with taskState := .sleep, obj := none }]
      · exact View.arm_mod _ _ _ fun _ _ _ => rfl
      · exact fun _ => rfl
    · have relisted := sleep_relisted (f := fun k => { k with taskState := .sleep }) inv.core
        notIdle rdy (Nat.pos_of_ne_zero nonzero) fun _ => ⟨.of_eq rfl, rfl⟩
      exact relisted.ordinary inv (by simp [Ktask.Live, rdy]) (by decide) fun _ _ _ => by omega

theorem readyListHeadToTail_kept (h : Core s) (rdy : (s.tasks t).taskState = .rdy) :
    Kept ∅ s (readyListHeadToTail s t) ∧ SameOwnership s (readyListHeadToTail s t) := by
  have linked := (h.runq.mem t _).mpr ((h.task t).of_rdy rdy).1
  unfold readyListHeadToTail
  cases list : s.readyQueue.list (s.tasks t).prio with
  | nil => simp [list] at linked
  | cons u rest =>
    simp only [list]
    refine ⟨⟨?_, fun _ => rfl, fun _ _ empty => empty, rfl, rfl, rfl, fun _ _ state => state⟩,
      .congr rfl⟩
    have runq := h.runq.permute
      (list ▸ List.perm_append_singleton u rest)
    exact { h with runq := runq }

/-- The caller goes behind its peers. -/
theorem krhinoTaskYield_acts (inv : KInv s) (nested : s.intrptNested = 0) :
    CallActs s .taskYield (krhinoTaskYield s) := by
  obtain ⟨kept, same⟩ := readyListHeadToTail_kept inv.core (inv.running (.inl nested))
  exact .acts ⟨⟨.resched (kept.done inv) fun stopped => stopped.elim, same.coreSched⟩, fun _ =>
    .of_eq ((coreSched_view _).trans (readyListHeadToTail_view s s.active))⟩

theorem ne_idle_of_prio (h : Core s) (prio : (s.tasks t).prio ≠ idlePri) : t ≠ idleTask := by
  rintro rfl
  exact prio h.idlePrio

/-- A task that sleeps or waits is suspended or resumed. -/
theorem restate_acts (inv : KInv s) (count : Nat) {c : KCall} {st : TaskStat}
    (alike : ((s.tasks t).taskState = .sleep ∨ (s.tasks t).taskState = .sleepSuspended) ∧
        (st = .sleep ∨ st = .sleepSuspended) ∨
      ((s.tasks t).taskState = .pend ∨ (s.tasks t).taskState = .pendSuspended) ∧
        (st = .pend ∨ st = .pendSuspended)) :
    CallActs s c (.ret .success,
      coreSched (s.modTask t fun k => { k with suspendCount := count, taskState := st })) := by
  have h := inv.core
  have notRdy : (s.tasks t).taskState ≠ .rdy := by
    rcases alike with ⟨was | was, -⟩ | ⟨was | was, -⟩ <;> simp [was]
  have task : TaskOk { s.tasks t with suspendCount := count, taskState := st } := by
    rcases alike with ⟨was, back⟩ | ⟨was, back⟩
    · obtain ⟨link, tick⟩ := (h.task t).of_sleeping was
      exact .sleeping back link tick
    · obtain ⟨o, link, obj⟩ := (h.task t).of_waiting was
      exact .waiting back link obj
  refine .acts (Relisted.acts inv (restate_relisted h (h.ne_idle_of_state notRdy) task
    fun _ => ⟨.of_eq rfl, rfl⟩) ?_ ?_ (fun _ rdy => absurd rdy notRdy)
    (modTask_waits ?_ rfl ⟨rfl, rfl, rfl, rfl, rfl, rfl⟩ rfl)) <;>
  rcases alike with ⟨was | was, rfl | rfl⟩ | ⟨was | was, rfl | rfl⟩ <;>
  simp [Ktask.Live, KState.view, Ktask.view, TaskView.phase, was]

/-- A task is suspended in any state, and counts how often. -/
theorem krhinoTaskSuspend_acts (inv : KInv s) (t : TaskId) :
    CallActs s (.taskSuspend t) (krhinoTaskSuspend s t) := by
  have h := inv.core
  unfold krhinoTaskSuspend
  split
  · exact .refl inv
  next prio =>
  have notIdle := ne_idle_of_prio h prio
  unfold taskSuspend
  split
  · exact .refl inv
  next guard =>
  have unlocked : t = s.active → s.schedLock = 0 := fun same =>
    Nat.eq_zero_of_not_pos fun lock => guard ⟨same, lock⟩
  have counts : CallActs s (.taskSuspend t) (if (s.tasks t).suspendCount = suspendNestedMax then
      (KRet.ret .suspendedCountOvf, s)
    else (.ret .success, coreSched (s.modTask t fun k =>
      { k with suspendCount := k.suspendCount + 1 }))) := by
    split
    · exact .refl inv
    · exact .acts (Touches.resched inv (.modTask h t (fun _ => rfl) fun _ => rfl))
  simp only
  split
  · next state =>
    have relisted := readyListRm_relisted (f := fun k =>
        { k with suspendCount := 1, taskState := .suspended }) h notIdle state
      fun _ => ⟨.of_eq rfl, rfl⟩
    refine .acts (relisted.acts inv (by simp [Ktask.Live, state]) (by decide)
      (fun same _ _ => unlocked same) ?_)
    rw [readyListRm_view]
    exact modTask_waits (phase_free (.inl state)).symm rfl ⟨rfl, rfl, rfl, rfl, rfl, rfl⟩ rfl
  · next state => exact restate_acts inv 1 (.inl ⟨.inl state, .inr rfl⟩)
  · next state => exact restate_acts inv 1 (.inr ⟨.inl state, .inr rfl⟩)
  · exact counts
  · exact counts
  · exact counts
  · exact .refl inv
  · exact .refl inv

/-- The last resumption makes a task ready or lets it wait on. -/
theorem krhinoTaskResume_acts (inv : KInv s) (t : TaskId) :
    CallActs s (.taskResume t) (krhinoTaskResume s t) := by
  have h := inv.core
  unfold krhinoTaskResume taskResume
  simp only
  split
  · exact .refl inv
  · exact .refl inv
  · exact .refl inv
  · next state =>
    split
    · refine .acts (Relisted.acts inv
        (readyListAdd_relisted h state fun _ => ⟨.of_eq rfl, rfl⟩)
        (by simp [Ktask.Live, state]) (by decide) (fun _ _ differ => absurd rfl differ) ?_)
      rw [readyListAdd_view]
      exact modTask_waits (phase_free (.inr state)).symm rfl ⟨rfl, rfl, rfl, rfl, rfl, rfl⟩ rfl
    · exact .acts (Touches.resched inv (.modTask h t (fun _ => rfl) fun _ => rfl))
  · next state => exact restate_acts inv _ (.inl ⟨.inr state, by split <;> simp⟩)
  · next state => exact restate_acts inv _ (.inr ⟨.inr state, by split <;> simp⟩)
  · exact .refl inv
  · exact .refl inv

theorem krhinoTaskTimeSliceSet_acts (inv : KInv s) (t : TaskId) (slice : Nat) :
    CallActs s (.taskTimeSliceSet t slice) (krhinoTaskTimeSliceSet s t slice) := by
  unfold krhinoTaskTimeSliceSet intrptNestedLevelChk
  split
  · exact .refl inv
  · exact .touches (.modTask inv.core t (fun _ => rfl) fun _ => rfl) inv

theorem krhinoSchedPolicySet_acts (inv : KInv s) (t : TaskId) (policy : Nat) :
    CallActs s (.schedPolicySet t policy) (krhinoSchedPolicySet s t policy) := by
  unfold krhinoSchedPolicySet intrptNestedLevelChk
  split
  · exact .refl inv
  split
  · exact .refl inv
  · exact .touches (.modTask inv.core t (fun _ => rfl) fun _ => rfl) inv

end AliosThings.Rhino
