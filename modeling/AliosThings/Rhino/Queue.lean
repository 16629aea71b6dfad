import AliosThings.Rhino.Mail

/-!
# Queues deliver every message once and in order

The ring of a queue and `cur_num` are separate counts of what is stored: they agree because the
queue refuses a message exactly when its ring is full, which rests on the size that the ring was
given when the queue was created.
-/

namespace AliosThings.Rhino

open Lib KRingbuf List Option KState

/-- The message that a call has sent to `o`, and the waiters it is due to: all of them for
`krhino_queue_all_send`. -/
def queuePosts (s : KState) (o : ObjId) (c : KCall) : Option (BitVec 32 × List (Option TaskId)) :=
  match c with
  | .queueBackSend a msg =>
    if a = o ∧ (c.exec s).1 = .ret .success then some (.ofNat 32 msg, []) else none
  | .queueAllSend a msg =>
    if a = o ∧ (c.exec s).1 = .ret .success then
      some (.ofNat 32 msg, (s.blk o).blkList.map some)
    else none
  | _ => none

/-- A queue of pointers. A waiter is given the pointer in its task record. -/
def queueMail : MailKind (BitVec 32) where
  kind := .queue
  receives
    | .queueRecv o _ _ => some o
    | _ => none
  got s t := .ofNat 32 (s.tasks t).msg
  Keeps w m := BitVec.ofNat 32 w.msg = m
  posts := queuePosts
  own s o c :=
    match c with
    | .queueRecv a _ msg =>
      if a = o ∧ (c.exec s).1 = .ret .success then [(s.caller, (c.exec s).2.load32 msg)] else []
    | _ => []
  flushes s o c :=
    match c with
    | .queueFlush a => decide (a = o ∧ (c.exec s).1 = .ret .success)
    | _ => false

/-- Messages are delivered once and in order. -/
structure QueuesDeliver (s : KState) (h : MailHistory (BitVec 32)) : Prop where
  noWaiter : ∀ o, (s.blk o).objType = .queue → (s.blk o).blkList ≠ [] → (s.queues o).curNum = 0
  /-- The ring contains the messages that have been sent and not dealt with, `cur_num` of them. -/
  delivers : ∀ o, (s.blk o).objType = .queue → ∃ pending : List (BitVec 32),
    (s.queues o).ringbuf.Holds s.mem (pending.map fun m => leBytes wordSize m.toNat).flatten ∧
      (s.queues o).curNum = pending.length ∧ (h.box o).Delivers pending
  /-- A blocked receive returns success exactly if it was given a message, and returns that. -/
  result : ∀ t o msg, h.recv t = some (o, msg) → (s.tasks t).Live →
    t ∈ (s.blk o).blkList ∧ msg = none ∨
      ((s.tasks t).taskState = .rdy ∨ (s.tasks t).taskState = .suspended) ∧
        ((queueRecvEnd (s.tasks t)).1 = .success ↔ msg ≠ none) ∧
        ∀ m, msg = some m → BitVec.ofNat 32 (queueRecvEnd (s.tasks t)).2 = m

/-- The ring of a queue that is created has room for its messages: its size does not wrap. -/
def Action.RoomForAll (a : Action) : Prop :=
  match a with
  | .call (.queueCreate _ _ msgNum _) => msgNum * wordSize < 2 ^ 32
  | _ => True

instance (a : Action) : Decidable a.RoomForAll := by
  unfold Action.RoomForAll
  split <;> infer_instance

/-! ## One queue -/

/-- The queue `o` contains exactly the messages `pending`. -/
structure QueueHolds (s : KState) (o : ObjId) (pending : List (BitVec 32)) : Prop where
  cells : ∃ base, Cells wordSize base (s.queues o).size (s.queues o).ringbuf s.mem
    (pending.map fun m => leBytes wordSize m.toNat)
  curNum : (s.queues o).curNum = pending.length

variable {msg ticks : Nat} {s s' : KState} {o : ObjId} {c : KCall} {pending : List (BitVec 32)}

/-- The queue is the same, and so are its bytes. -/
theorem QueueHolds.congr (holds : QueueHolds s o pending) (queue : s'.queues o = s.queues o)
    (bytes : (s.queues o).ringbuf.SameBytes s.mem s'.mem) : QueueHolds s' o pending := by
  obtain ⟨base, cells⟩ := holds.cells
  refine ⟨⟨base, ?_⟩, ?_⟩ <;> rw [queue]
  · exact cells.congr_mem bytes
  · exact holds.curNum

/-- Calls on other objects and calls that fail do nothing with messages. -/
theorem queueMail_silent
    (not : ¬ ((c.object = some o ∧ c.kind = some .queue) ∧ (c.exec s).1 = .ret .success)) :
    queueMail.Silent s o c := by
  cases c with
  | queueBackSend | queueAllSend =>
    exact ⟨if_neg fun on => not ⟨⟨congrArg some on.1, rfl⟩, on.2⟩, rfl, rfl⟩
  | queueRecv =>
    exact ⟨rfl, if_neg fun on => not ⟨⟨congrArg some on.1, rfl⟩, on.2⟩, rfl⟩
  | queueFlush =>
    exact ⟨rfl, rfl, decide_eq_false fun on => not ⟨⟨congrArg some on.1, rfl⟩, on.2⟩⟩
  | _ => exact ⟨rfl, rfl, rfl⟩

/-- A send pushes its message, or hands it to whom it is due. -/
theorem msgSend_queueStep (wakeAll : Bool) (exec : c.exec s = msgSend s o msg wakeAll)
    (h : Core s) (h' : Core (c.exec s).2)
    (posts : (c.exec s).1 = .ret .success → queueMail.posts s o c =
      some (.ofNat 32 msg, if wakeAll then (s.blk o).blkList.map some else []))
    (own : queueMail.own s o c = []) (flushes : queueMail.flushes s o c = false) :
    queueMail.Step QueueHolds s c o := by
  rcases msgSend_cases h o msg wakeAll with
    ⟨e, error, eq⟩ | ⟨notFull, nobody, eq⟩ | ⟨ret, t, rest, list, served⟩
  · rw [eq] at exec
    exact .undone h (queueMail_silent (by simp [exec, error])) (by rw [exec])
  · -- pushed: the ring has room because the queue is not full
    rw [eq] at exec
    have done := posts (by rw [exec])
    rw [nobody, map_nil, ite_self] at done
    have task (s : KState) : (queuePush s o msg).view.task = s.view.task := by
      unfold queuePush
      split <;> rfl
    refine .ofTask h h' (by rw [exec]; exact task _) fun pending box holds delivers => ?_
    obtain ⟨base, cells⟩ := holds.cells
    have room : (pending.map fun m => leBytes wordSize m.toNat).length < (s.queues o).size := by
      rw [length_map, ← holds.curNum]
      exact notFull
    have push := cells.push (w := wordSize) (leBytes wordSize msg)
      (by rw [leBytes_length]) wordSize
    rw [if_pos room] at push
    obtain ⟨r, mem, pushed, cells', -⟩ := push
    have whole : (leBytes wordSize msg).take wordSize = leBytes wordSize msg :=
      take_of_length_le (by rw [leBytes_length])
    rw [whole] at cells'
    refine ⟨pending ++ [.ofNat 32 msg], ⟨⟨base, ?_⟩, ?_⟩, fun _ waits => absurd nobody waits, ?_⟩
    · rw [exec]
      simp only [queuePush, modQueue, Function.update_self, pushed, map_append,
        map_cons, map_nil, leBytes_ofNat]
      exact cells'
    · rw [exec]
      simp only [queuePush, modQueue, Function.update_self, pushed, length_append,
        length_singleton, holds.curNum]
    · rw [done, own, flushes]
      exact delivers.post _
  · rw [← exec] at ret served
    have woken := served.wokenFrom_eq h list rfl fun st w state =>
      ⟨released_phase_free state .finish, rfl⟩
    have some : (s.blk o).blkList ≠ [] := by
      rw [list]
      exact cons_ne_nil _ _
    have done := posts ret
    rw [list] at done
    refine .handOver some woken ?_ done own flushes ?_ ?_ fun holds =>
      holds.congr (served.object o).queue fun x _ _ => congrFun served.mem x
    · cases wakeAll <;> simp
    · intro u inList
      obtain ⟨st, -, record⟩ := served.served u inList
      exact congrArg (fun w => BitVec.ofNat 32 (TaskView.msg w)) record
    · cases wakeAll with
      | true => simp [Fate.Fits, Function.comp_def]
      | false => exact ⟨Option.some t, rfl⟩

/-- A receive takes the oldest message, or waits where there is none. -/
theorem krhinoQueueRecv_queueStep (inv : KInv s) (h' : Core (krhinoQueueRecv s o ticks msg).2)
    (apart : Apart (msg, wordSize) (s.queues o).ringbuf.region) :
    queueMail.Step QueueHolds s (.queueRecv o ticks msg) o := by
  have h := inv.core
  have off : ∀ bs : Bytes, bs.length = wordSize →
      (s.queues o).ringbuf.SameBytes s.mem (s.mem.writeBytes msg bs) := fun bs length =>
    sameBytes_writeBytes _ (length ▸ apart)
  have call : (KCall.queueRecv o ticks msg).exec s = krhinoQueueRecv s o ticks msg := rfl
  rcases krhinoQueueRecv_cases inv o ticks msg with
    ⟨e, error, eq | eq⟩ | ⟨pos, eq⟩ | ⟨type, zero, blocks⟩
  · rw [eq] at call
    exact .undone h (queueMail_silent (by simp [call, error])) (by rw [call])
  · rw [eq] at call
    refine .kept h h' (queueMail_silent (by simp [call, error])) (by rw [call]; rfl) ?_
    intro pending holds
    rw [call]
    exact holds.congr rfl (off _ (leBytes_length _ _))
  · rw [eq] at call
    have task : (queuePop s o msg).view.task = s.view.task := by
      unfold queuePop
      split <;> rfl
    refine .ofTask h h' (by rw [call]; exact task) fun pending box holds delivers => ?_
    obtain ⟨base, cells⟩ := holds.cells
    cases pending
    case nil =>
      rw [holds.curNum] at pos
      cases pos
    case cons m rest =>
    obtain ⟨r, pop, cells', shape⟩ := cells.pop (w := wordSize)
    refine ⟨rest, ⟨⟨base, ?_⟩, ?_⟩, nofun, ?_⟩
    · rw [call]
      simp only [queuePop, pop, modQueue, Function.update_self]
      refine cells'.congr_mem fun x low high => ?_
      rw [shape.buf] at low
      rw [shape.endp] at high
      exact off _ (leBytes_length _ _) x low high
    · rw [call]
      simp only [queuePop, pop, modQueue, Function.update_self, holds.curNum,
        length_cons, Nat.add_sub_cancel]
    · have loaded : ((KCall.queueRecv o ticks msg).exec s).2.load32 msg = m := by
        rw [call]
        simp only [queuePop, pop]
        exact load32_store32 s msg m
      have own : queueMail.own s o (.queueRecv o ticks msg) = [(s.caller, m)] :=
        (if_pos ⟨rfl, by rw [call]⟩).trans (by rw [loaded])
      rw [own]
      exact delivers.take _
  · rw [← call] at blocks
    refine .waits h blocks.toBlocks queueMail_silent fun pending holds => ?_
    exact ⟨length_eq_zero_iff.mp (holds.curNum.symm.trans zero),
      holds.congr (blocks.sameObject o).queue fun x _ _ => congrFun blocks.mem x⟩

theorem krhinoQueueFlush_queueStep (h : Core s) (h' : Core (krhinoQueueFlush s o).2) :
    queueMail.Step QueueHolds s (.queueFlush o) o := by
  rcases krhinoQueueFlush_cases s o with ⟨e, error, eq⟩ | eq <;>
    replace eq : (KCall.queueFlush o).exec s = _ := eq
  · exact .undone h (queueMail_silent (by simp [eq, error])) (by rw [eq])
  · refine .ofTask h h' (by rw [eq]; rfl) fun pending box holds delivers => ?_
    obtain ⟨base, cells⟩ := holds.cells
    refine ⟨[], ⟨⟨base, ?_⟩, ?_⟩, fun _ _ => rfl, ?_⟩
    · rw [eq]
      simp only [modQueue, Function.update_self]
      exact cells.reset
    · rw [eq]
      simp [modQueue]
    · have flushes : queueMail.flushes s o (.queueFlush o) = true :=
        decide_eq_true ⟨rfl, by rw [eq]⟩
      rw [flushes]
      exact delivers.flush

/-- The calls on queues. -/
theorem exec_queueStep (inv : KInv s) (h' : Core (c.exec s).2)
    (apart : ∀ r w, s.ring o = some r → w ∈ c.callerStores s → Apart w r.region)
    (type : (s.blk o).objType = .queue) (type' : ((c.exec s).2.blk o).objType = .queue)
    (on : c.object = some o) (expects : c.kind = some .queue) :
    queueMail.Step QueueHolds s c o := by
  have h := inv.core
  have typed : ((c.exec s).2.blk o).objType ≠ .none := by
    rw [type']
    decide
  cases c with
  | queueBackSend | queueAllSend =>
    cases on
    exact msgSend_queueStep _ rfl h h' (fun ret => if_pos ⟨rfl, ret⟩) rfl rfl
  | queueRecv =>
    cases on
    refine krhinoQueueRecv_queueStep inv h' (apart _ _ (ring_of_queue type) ?_)
    simp [KCall.callerStores]
  | queueFlush =>
    cases on
    exact krhinoQueueFlush_queueStep h h'
  | queueDel | queueDynDel =>
    cases on
    exact .deleted h ⟨rfl, rfl, rfl⟩ (objDel_cases inv (fun _ => rfl) fun _ => rfl) typed
  | _ => cases expects

/-- A queue that has just been created is empty. -/
theorem createdObj_queueHolds (may : c.Allowed s) (room : (Action.call c).RoomForAll)
    (names : c.createdObj = some o) (type' : ((c.exec s).2.blk o).objType = .queue) :
    QueueHolds (c.exec s).2 o [] := by
  have refused : (s.blk o).objType ≠ .queue := by
    rw [(may.freshObj o names).2]
    decide
  have makes := createdObj_makes names refused type'
  cases c with
  | queueCreate a start msgNum flag =>
    cases names
    have some : msgNum ≠ 0 := fun zero => by
      simp only [KCall.exec, queueCreate, if_pos zero] at type'
      exact refused type'
    have size : msgNum * wordSize % 2 ^ 32 = wordSize * msgNum := by
      rw [Nat.mod_eq_of_lt room, Nat.mul_comm]
    refine ⟨⟨start, ?_⟩, ?_⟩
    · simp only [KCall.exec, queueCreate, if_neg some, modQueue, Function.update_self, size]
      exact Cells.init start msgNum (by decide)
    · simp [KCall.exec, queueCreate, some, modQueue]
  | _ => cases makes

/-! ## Every run -/

theorem queueMail_lawful : queueMail.Lawful QueueHolds fun _ a => a.RoomForAll where
  isObject := by decide
  blocks := by
    intro s c o inv receives blocked
    cases c with
    | queueRecv a ticks msg =>
      obtain rfl := some.inj receives
      rcases krhinoQueueRecv_cases inv a ticks msg with
        ⟨e, -, eq | eq⟩ | ⟨-, eq⟩ | ⟨type, -, blocks⟩
      · cases (congrArg Prod.fst eq).symm.trans blocked
      · cases (congrArg Prod.fst eq).symm.trans blocked
      · cases (congrArg Prod.fst eq).symm.trans blocked
      · exact ⟨type, rfl, _, blocks.toBlocks⟩
    | _ => cases receives
  keeps s t := rfl
  stable := by
    intro w w' m request keeps
    exact (congrArg (BitVec.ofNat 32) request.msg).trans keeps
  ring := by
    intro s o type
    exact ⟨_, ring_of_queue type⟩
  silent not := queueMail_silent not
  congr type holds same bytes := holds.congr same.queue (bytes _ (ring_of_queue type))
  made may room names type' := createdObj_queueHolds may room names type'
  step inv h' _ apart type type' on expects := exec_queueStep inv h' apart type type' on expects

/-- In every run in which the size of no ring wraps, messages are delivered once and in order:
`cur_num` is the number of messages in the ring, nobody waits while there are any, every message
whose send has returned success is read by whom it is due to or flushed, in the order of the sends,
and a blocked receive returns what it was given. -/
theorem queues_deliver {p : (KState × List ObjId) × MailHistory (BitVec 32)}
    (reach : (queueMail.system.restrict fun _ a => a.RoomForAll).Reach p) :
    QueuesDeliver p.1.1 p.2 := by
  obtain ⟨core, ok⟩ := reach_mailOk queueMail_lawful reach
  refine ⟨fun o type waits => ?_, fun o type => ?_, fun t o msg had live => ?_⟩
  · obtain ⟨pending, holds, -⟩ := ok.holds o type
    rw [holds.contains.curNum, holds.noWaiter waits]
    rfl
  · obtain ⟨pending, holds, delivers⟩ := ok.holds o type
    obtain ⟨base, cells⟩ := holds.contains.cells
    exact ⟨pending, cells.held, holds.contains.curNum, delivers⟩
  · rcases (ok.recv t o msg had).result core live Ktask.msg with waits | ⟨state, success, stored⟩
    · exact .inl waits
    · refine .inr ⟨state, success, fun m given => ?_⟩
      obtain ⟨value, keeps⟩ := stored m given
      rw [show (queueRecvEnd _).2 = _ from value]
      exact keeps

/-- Tasks 1 and 2 wait for queue 5, and a handler sends a message to both. It sends another, which
is stored, and takes it back itself. -/
def sentToBoth : List Action :=
  [.call (.queueCreate 5 1000 2 .staticAlloc), .call (.taskCreate 1 20 0 1 true .staticAlloc),
    .call (.queueRecv 5 100 64), .call (.taskCreate 2 25 0 1 true .staticAlloc),
    .call (.queueRecv 5 100 68), .call .intrptEnter, .call (.queueAllSend 5 9),
    .store 72 [1, 2, 3, 4], .call (.queueBackSend 5 7), .call (.queueRecv 5 noWait 72)]

theorem queues_deliver_sentToBoth :
    (((queueMail.system.run ((.initial fun _ => 0, []), {}) sentToBoth).2.box 5).sent =
        [(9, [some 1, some 2]), (7, [])] ∧
      (queueMail.system.run ((.initial fun _ => 0, []), {}) sentToBoth).1.1.load32 72 = 7 ∧
      (queueMail.system.run ((.initial fun _ => 0, []), {}) sentToBoth).2.recv 2 =
        some (5, some 9)) ∧
      QueuesDeliver (queueMail.system.run ((.initial fun _ => 0, []), {}) sentToBoth).1.1
        (queueMail.system.run ((.initial fun _ => 0, []), {}) sentToBoth).2 :=
  have start : (queueMail.system.restrict fun _ a => a.RoomForAll).Reach
      ((.initial fun _ => 0, []), {}) := .init ⟨⟨⟨_, rfl⟩, rfl⟩, rfl⟩
  ⟨by decide +kernel, queues_deliver (start.run (by decide +kernel))⟩

/-- `krhino_queue_dyn_create` for `2 ^ 30 + 1` messages allocates four bytes. -/
def sizeWraps : List Action :=
  [.call (.queueCreate 5 1000 (2 ^ 30 + 1) .dynAlloc), .call (.queueBackSend 5 7),
    .call (.queueBackSend 5 8)]

/-- The second message is accepted and lost: `cur_num` counts two, and the ring has room for one. -/
theorem not_queues_deliver : ¬ ∀ p, queueMail.system.Reach p → QueuesDeliver p.1.1 p.2 := by
  intro deliver
  have start : queueMail.system.Reach ((.initial fun _ => 0, []), {}) :=
    .init ⟨⟨⟨_, rfl⟩, rfl⟩, rfl⟩
  have ok := deliver _ (start.run (show queueMail.system.Runs _ sizeWraps by decide +kernel))
  obtain ⟨pending, holds, count, -⟩ := ok.delivers 5 (by decide +kernel)
  have free := holds.free
  have two : ((queueMail.system.run ((.initial fun _ => 0, []), {})
      sizeWraps).1.1.queues 5).curNum = 2 := by
    decide +kernel
  have four : ((queueMail.system.run ((.initial fun _ => 0, []), {})
        sizeWraps).1.1.queues 5).ringbuf.endp -
      ((queueMail.system.run ((.initial fun _ => 0, []), {})
        sizeWraps).1.1.queues 5).ringbuf.buf = 4 := by
    decide +kernel
  have used : ((pending.map fun m => leBytes wordSize m.toNat).flatten).length =
      wordSize * pending.length := by
    simp [length_flatten, Function.comp_def, Nat.mul_comm]
  rw [used, four, ← count, two] at free
  simp only [wordSize] at free
  omega

end AliosThings.Rhino
