import AliosThings.Rhino.Mail

/-!
# Buffer queues deliver the bytes that were sent

A message that finds a waiter is copied to the waiter's buffer with the size that the sender gave;
one that does not goes through a ring. A variable-length ring keeps the size with the message. A
fixed-length ring stores whole blocks and reports the size of a block, so the two ways agree only
for messages of that size.
-/

namespace AliosThings.Rhino

open Lib KRingbuf List Option KCall Mem

/-- A queue of byte messages. A waiter is given the bytes in its own buffer, and their number in
its task record. -/
def bufQueueMail : MailKind Bytes where
  kind := .bufQueue
  receives
    | .bufQueueRecv o _ _ _ => some o
    | _ => none
  got s t := s.mem.readBytes (s.tasks t).msg (s.tasks t).bqMsgSize
  Keeps w bs := w.bqMsgSize = bs.length
  posts s o c :=
    match c with
    | .bufQueueSend a msg msgSize =>
      if a = o ∧ (c.exec s).1 = .ret .success then some (s.mem.readBytes msg msgSize, []) else none
    | _ => none
  own s o c :=
    match c with
    | .bufQueueRecv a _ msg size =>
      if a = o ∧ (c.exec s).1 = .ret .success then
        [(s.caller, (c.exec s).2.mem.readBytes msg ((c.exec s).2.load32 size).toNat)]
      else []
    | _ => []
  flushes s o c :=
    match c with
    | .bufQueueFlush a => decide (a = o ∧ (c.exec s).1 = .ret .success)
    | _ => false

/-- A receiver's `size` does not lie in its buffer, and sizes are of type `size_t`. -/
def Action.ProperArgs (s : KState) (a : Action) : Prop :=
  match a with
  | .call (.bufQueueCreate _ _ _ maxMsg _ _) => maxMsg < 2 ^ 32
  | .call (.bufQueueRecv o _ msg size) =>
    Apart (msg, ringPopped (s.bufQueues o).ringbuf s.mem) (size, wordSize)
  | _ => True

instance (s : KState) (a : Action) : Decidable (a.ProperArgs s) := by
  unfold Action.ProperArgs
  split <;> infer_instance

/-- The program with the history of its buffer queues. -/
abbrev bufQueueKernel : System ((KState × List ObjId) × MailHistory Bytes) Action :=
  bufQueueMail.system.restrict fun p a => a.ProperArgs p.1.1

/-- A ring stores a message of `len` bytes as it is: a block of a fixed-length ring is filled, and
the size with its header does not wrap in a variable-length one. -/
def KRingbuf.StoresWhole (r : KRingbuf) (n len : Nat) : Prop :=
  match r.type with
  | .fix => n ≤ len
  | .dyn => wordSize + len < 2 ^ 32

instance (r : KRingbuf) (n len : Nat) : Decidable (r.StoresWhole n len) := by
  unfold KRingbuf.StoresWhole
  split <;> infer_instance

/-- Rings of blocks are a whole number of blocks, and a message that finds no waiter is stored as it
is. -/
def Action.SendsWhole (s : KState) (a : Action) : Prop :=
  match a with
  | .call (.bufQueueCreate _ _ size maxMsg _ type) => type = .fix → maxMsg ∣ size
  | .call (.bufQueueSend o _ msgSize) =>
    (s.blk o).objType = .bufQueue → (s.blk o).blkList = [] →
      (s.bufQueues o).ringbuf.StoresWhole (s.bufQueues o).maxMsgSize msgSize
  | _ => True

instance (s : KState) (a : Action) : Decidable (a.SendsWhole s) := by
  unfold Action.SendsWhole
  split <;> infer_instance

/-! ## Rings of messages -/

/-- The ring of a buffer queue for messages of up to `n` bytes contains the messages `q`. -/
inductive BufRing (n : Nat) (r : KRingbuf) (mem : Mem) (q : List Bytes) : Prop where
  | fix (base cap : Nat) (cells : Cells n base cap r mem q)
  | dyn (type : r.type = .dyn)
    (ok : ∀ msg ∈ q, 0 < msg.length ∧ wordSize + msg.length < 2 ^ 32)
    (held : r.Holds mem (queueBytes wordSize q))

/-- The bytes that were sent arrive, and `cur_num` is the number of messages stored. -/
structure BufQueuesDeliver (s : KState) (h : MailHistory Bytes) : Prop where
  delivers : ∀ o, (s.blk o).objType = .bufQueue → ∃ pending : List Bytes,
    BufRing (s.bufQueues o).maxMsgSize (s.bufQueues o).ringbuf s.mem pending ∧
      (s.bufQueues o).curNum = pending.length ∧ (h.box o).Delivers pending
  /-- A blocked receive returns success exactly if it was given a message, and returns its size. -/
  result : ∀ t o msg, h.recv t = some (o, msg) → (s.tasks t).Live →
    t ∈ (s.blk o).blkList ∧ msg = none ∨
      ((s.tasks t).taskState = .rdy ∨ (s.tasks t).taskState = .suspended) ∧
        ((bufQueueRecvEnd (s.tasks t)).1 = .success ↔ msg ≠ none) ∧
        ∀ bs, msg = some bs → (bufQueueRecvEnd (s.tasks t)).2 = bs.length

namespace BufRing

variable {n len base : Nat} {r : KRingbuf} {mem mem' : Mem} {q : List Bytes} {msg : Bytes}

theorem congr_mem (h : BufRing n r mem q) (same : r.SameBytes mem mem') : BufRing n r mem' q := by
  cases h with
  | fix base cap cells => exact .fix base cap (cells.congr_mem same)
  | dyn type ok held => exact .dyn type ok (held.congr_mem same)

theorem length_lt (h : BufRing n r mem q) (small : n < 2 ^ 32) (inQ : msg ∈ q) :
    msg.length < 2 ^ 32 := by
  cases h with
  | fix _ _ cells =>
    rw [cells.width msg inQ]
    exact small
  | dyn type ok held =>
    have bound := (ok msg inQ).2
    omega

theorem isEmpty_iff (h : BufRing n r mem q) : ringbufIsEmpty r = true ↔ q = [] := by
  cases h
  case fix base cap cells => exact cells.isEmpty_iff
  case dyn type ok held =>
  have free := held.free
  rw [queueBytes_length] at free
  simp only [ringbufIsEmpty, decide_eq_true_eq]
  cases q with
  | nil =>
    rw [queueSize_nil] at free
    exact iff_of_true (by omega) rfl
  | cons msg q =>
    have pos := (ok msg mem_cons_self).1
    rw [queueSize_cons] at free
    exact iff_of_false (by omega) (cons_ne_nil _ _)

/-- A push appends the message, or finds the ring full. -/
theorem push (h : BufRing n r mem q) (data : Bytes) (enough : max len r.blkSize ≤ data.length)
    (pos : 0 < len) (fits : len ≤ n) (whole : r.StoresWhole n len) :
    (∃ r' mem', ringbufPush wordSize r mem data len = some (.success, r', mem') ∧
      BufRing n r' mem' (q ++ [data.take len])) ∨
      ringbufPush wordSize r mem data len = some (.ringbufFull, r, mem) := by
  have width : (data.take len).length = len := by
    rw [length_take]
    omega
  cases h with
  | fix base cap cells =>
    have all : len = n := by
      simp only [StoresWhole, cells.type] at whole
      omega
    subst all
    have push := cells.push (w := wordSize) data (by omega) len
    split at push
    · obtain ⟨r', mem', push, cells', -⟩ := push
      exact .inl ⟨r', mem', push, .fix base cap cells'⟩
    · exact .inr push
  | dyn type ok held =>
    have small : wordSize + len < 2 ^ 32 := by
      simpa only [StoresWhole, type] using whole
    have push := ringbufPush_dyn (w := wordSize) (data.take len) data (by decide)
      held type (by rw [width]) (by omega) (by rw [width]; simp only [wordSize] at small; omega)
      (by rw [width]; exact small)
    rw [width] at push
    split at push
    · obtain ⟨r', mem', push, held', same⟩ := push
      refine .inl ⟨r', mem', push, .dyn (same.type.trans type) ?_ ?_⟩
      · intro m inQ
        rcases mem_append.mp inQ with old | new
        · exact ok m old
        · rw [mem_singleton.mp new, width]
          exact ⟨pos, small⟩
      · rw [queueBytes_snoc]
        exact held'
    · exact .inr push

/-- A pop returns the oldest message with its size. -/
theorem pop (h : BufRing n r mem (msg :: q)) :
    ∃ r', ringbufPop wordSize r mem = some (.success, msg, msg.length, r') ∧ BufRing n r' mem q ∧
      SameShape r r' := by
  cases h with
  | fix base cap cells =>
    obtain ⟨r', pop, cells', shape⟩ := cells.pop
    rw [← cells.width msg mem_cons_self] at pop
    exact ⟨r', pop, .fix base cap cells', shape⟩
  | dyn type ok held =>
    obtain ⟨pos, small⟩ := ok msg mem_cons_self
    rw [queueBytes_cons] at held
    obtain ⟨r', pop, held', shape⟩ := ringbufPop_dyn (by decide) held type pos
      (by simp only [wordSize] at small ⊢; omega)
    exact ⟨r', pop, .dyn (shape.type.trans type) (fun m inQ => ok m (mem_cons_of_mem _ inQ)) held',
      shape⟩

theorem reset (h : BufRing n r mem q) : BufRing n (ringbufReset r) mem [] := by
  cases h with
  | fix base cap cells => exact .fix base cap cells.reset
  | dyn type _ held =>
    have bounds := held.tailLow.trans held.tailHigh
    exact .dyn type (by simp) ⟨le_rfl, bounds, le_rfl, bounds,
      by simp [ringbufReset, queueBytes], RingHolds.nil, rfl⟩

theorem init {size : Nat} {type : RingbufType} (pos : 0 < n) (blocks : type = .fix → n ∣ size) :
    BufRing n (ringbufInit base size type n) mem [] := by
  cases type with
  | fix =>
    obtain ⟨cap, rfl⟩ := blocks rfl
    exact .fix base cap (Cells.init base cap pos)
  | dyn => exact .dyn rfl (by simp) (ringbufInit_spec base size n).held

end BufRing

/-! ## One queue -/

/-- The buffer queue `o` contains exactly the messages `pending`. -/
structure BufQueueHolds (s : KState) (o : ObjId) (pending : List Bytes) : Prop where
  ring : BufRing (s.bufQueues o).maxMsgSize (s.bufQueues o).ringbuf s.mem pending
  curNum : (s.bufQueues o).curNum = pending.length
  small : (s.bufQueues o).maxMsgSize < 2 ^ 32

variable {s s' : KState} {o : ObjId} {c : KCall} {pending : List Bytes}

/-- The queue is the same, and so are its bytes. -/
theorem BufQueueHolds.congr (holds : BufQueueHolds s o pending)
    (queue : s'.bufQueues o = s.bufQueues o)
    (bytes : (s.bufQueues o).ringbuf.SameBytes s.mem s'.mem) : BufQueueHolds s' o pending := by
  refine ⟨?_, ?_, ?_⟩ <;> rw [queue]
  · exact holds.ring.congr_mem bytes
  · exact holds.curNum
  · exact holds.small

/-- Calls on other objects and calls that fail do nothing with messages. -/
theorem bufQueueMail_silent
    (not : ¬ ((c.object = some o ∧ c.kind = some .bufQueue) ∧ (c.exec s).1 = .ret .success)) :
    bufQueueMail.Silent s o c := by
  cases c with
  | bufQueueSend =>
    exact ⟨if_neg fun on => not ⟨⟨congrArg some on.1, rfl⟩, on.2⟩, rfl, rfl⟩
  | bufQueueRecv =>
    exact ⟨rfl, if_neg fun on => not ⟨⟨congrArg some on.1, rfl⟩, on.2⟩, rfl⟩
  | bufQueueFlush =>
    exact ⟨rfl, rfl, decide_eq_false fun on => not ⟨⟨congrArg some on.1, rfl⟩, on.2⟩⟩
  | _ => exact ⟨rfl, rfl, rfl⟩

/-- A send stores its message, or copies it to the first waiter. -/
theorem krhinoBufQueueSend_bufQueueStep {msg msgSize : Nat} (h : Core s)
    (h' : Core (krhinoBufQueueSend s o msg msgSize).2)
    (whole : (s.blk o).objType = .bufQueue → (s.blk o).blkList = [] →
      (s.bufQueues o).ringbuf.StoresWhole (s.bufQueues o).maxMsgSize msgSize)
    (apart : ∀ t ∈ (s.blk o).blkList.head?,
      Apart ((s.tasks t).msg, msgSize) (s.bufQueues o).ringbuf.region) :
    bufQueueMail.Step BufQueueHolds s (.bufQueueSend o msg msgSize) o := by
  have call : (bufQueueSend o msg msgSize).exec s = krhinoBufQueueSend s o msg msgSize := rfl
  have posts (ret : ((bufQueueSend o msg msgSize).exec s).1 = .ret .success) :
      bufQueueMail.posts s o (.bufQueueSend o msg msgSize) =
        some (s.mem.readBytes msg msgSize, []) := if_pos ⟨rfl, ret⟩
  rcases krhinoBufQueueSend_cases h o msg msgSize with ⟨e, error, eq⟩ | ⟨type, pos, fits,
    ⟨nobody, stored⟩ | ⟨ret, t, rest, list, served⟩⟩
  · rw [eq] at call
    exact .undone h (bufQueueMail_silent (by simp [call, error])) (by rw [call])
  · -- stored: the push does not leave the buffer
    have task : (krhinoBufQueueSend s o msg msgSize).2.view.task = s.view.task := by
      rcases stored with ⟨-, eq⟩ | ⟨r, mem, -, eq⟩ <;> rw [eq] <;> rfl
    refine .ofTask h h' task fun pending box holds delivers => ?_
    have push := holds.ring.push
      (s.mem.readBytes msg (max msgSize (s.bufQueues o).ringbuf.blkSize))
      (by rw [readBytes_length]) pos fits (whole type nobody)
    rw [readBytes_take _ _ (le_max_left _ _)] at push
    rcases stored with ⟨none, -⟩ | ⟨r, mem, done, eq⟩
    · rw [none] at push
      rcases push with ⟨r', mem', done, -⟩ | full
      · cases done
      · cases full
    rw [done] at push
    obtain ⟨r', mem', pushed, ring⟩ := push.resolve_right nofun
    cases pushed
    rw [eq] at call
    refine ⟨pending ++ [s.mem.readBytes msg msgSize], ?_, fun _ waits => absurd nobody waits, ?_⟩
    · rw [call]
      refine ⟨?_, ?_, ?_⟩ <;> simp only [KState.modBufQueue, Function.update_self]
      · exact ring
      · rw [length_append, length_singleton, holds.curNum]
      · exact holds.small
    · rw [posts (by rw [call])]
      exact delivers.post _
  · have queue : (krhinoBufQueueSend s o msg msgSize).2.bufQueues o = s.bufQueues o :=
      (served.object o).bufQueue
    have mem : (krhinoBufQueueSend s o msg msgSize).2.mem =
      s.mem.writeBytes (s.tasks t).msg (s.mem.readBytes msg msgSize) := served.mem
    have first : ServedAll _ (if false then t :: rest else [t]) _ _ := served
    have woken := first.wokenFrom_eq h list rfl fun st w state =>
      ⟨released_phase_free state .finish, rfl⟩
    have given : bufQueueMail.got (krhinoBufQueueSend s o msg msgSize).2 t =
        s.mem.readBytes msg msgSize := by
      obtain ⟨st, -, record⟩ := served.served t (mem_singleton_self t)
      have buffer : ((krhinoBufQueueSend s o msg msgSize).2.tasks t).msg = (s.tasks t).msg :=
        congrArg TaskView.msg record
      have size : ((krhinoBufQueueSend s o msg msgSize).2.tasks t).bqMsgSize = msgSize :=
        congrArg TaskView.bqMsgSize record
      have back := readBytes_writeBytes s.mem (s.tasks t).msg (s.mem.readBytes msg msgSize)
      rw [readBytes_length] at back
      show readBytes _ _ _ = _
      rw [mem, buffer, size, back]
    refine .handOver (by rw [list]; exact cons_ne_nil _ _) woken (cons_ne_nil _ _)
      (posts ret) rfl rfl ?_ ⟨some t, rfl⟩ fun holds => holds.congr queue ?_
    · intro u inList
      rw [mem_singleton.mp inList]
      exact given
    show KRingbuf.SameBytes _ _ (krhinoBufQueueSend s o msg msgSize).2.mem
    rw [mem]
    apply sameBytes_writeBytes
    rw [readBytes_length]
    exact apart t (by rw [list]; rfl)

/-- A receive takes the oldest message, or waits where there is none. -/
theorem krhinoBufQueueRecv_bufQueueStep {ticks msg size : Nat} (inv : KInv s)
    (h' : Core (krhinoBufQueueRecv s o ticks msg size).2)
    (sizeApart : Apart (msg, ringPopped (s.bufQueues o).ringbuf s.mem) (size, wordSize))
    (msgOff : Apart (msg, ringPopped (s.bufQueues o).ringbuf s.mem) (s.bufQueues o).ringbuf.region)
    (sizeOff : Apart (size, wordSize) (s.bufQueues o).ringbuf.region) :
    bufQueueMail.Step BufQueueHolds s (.bufQueueRecv o ticks msg size) o := by
  have h := inv.core
  have call : (bufQueueRecv o ticks msg size).exec s =
    krhinoBufQueueRecv s o ticks msg size := rfl
  have sizeStored (mem : Mem) (len : Nat) : (s.bufQueues o).ringbuf.SameBytes mem
      (mem.writeBytes size (leBytes wordSize len)) := by
    apply sameBytes_writeBytes
    rw [leBytes_length]
    exact sizeOff
  rcases krhinoBufQueueRecv_cases inv o ticks msg size with
    ⟨e, error, eq | eq⟩ | ⟨some, popped⟩ | ⟨type, empty, blocks⟩
  · rw [eq] at call
    exact .undone h (bufQueueMail_silent (by simp [call, error])) (by rw [call])
  · rw [eq] at call
    refine .kept h h' (bufQueueMail_silent (by simp [call, error])) (by rw [call]; rfl) ?_
    intro pending holds
    rw [call]
    exact holds.congr rfl (sizeStored s.mem 0)
  · have task : (krhinoBufQueueRecv s o ticks msg size).2.view.task = s.view.task := by
      rcases popped with ⟨-, eq⟩ | ⟨e, bs, len, r, -, eq⟩ <;> rw [eq] <;> rfl
    refine .ofTask h h' task fun pending box holds delivers => ?_
    cases pending
    case nil => exact absurd (holds.ring.isEmpty_iff.mpr rfl) (by rw [some]; decide)
    case cons m rest =>
    obtain ⟨r, pop, ring, shape⟩ := holds.ring.pop
    rcases popped with ⟨none, -⟩ | ⟨e, bs, len, r', pop', eq⟩
    · rw [pop] at none
      cases none
    rw [pop] at pop'
    cases pop'
    rw [eq] at call
    rw [ringPopped, pop] at sizeApart msgOff
    have length := holds.ring.length_lt holds.small mem_cons_self
    refine ⟨rest, ?_, by simp, ?_⟩
    · rw [call]
      refine ⟨?_, ?_, ?_⟩ <;> simp only [KState.store32, KState.modBufQueue, Function.update_self]
      · refine ring.congr_mem fun x low high => ?_
        rw [shape.buf] at low
        rw [shape.endp] at high
        exact (sizeStored _ _ x low high).trans (sameBytes_writeBytes s.mem msgOff x low high)
      · rw [holds.curNum, length_cons, Nat.add_sub_cancel]
      · exact holds.small
    · have loaded : ((bufQueueRecv o ticks msg size).exec s).2.load32 size =
          BitVec.ofNat 32 m.length := by
        rw [call]
        exact load32_store32_ofNat ..
      have read : ((bufQueueRecv o ticks msg size).exec s).2.mem.readBytes msg m.length =
          m := by
        rw [call]
        show readBytes (writeBytes (writeBytes s.mem msg m) size _) _ _ = _
        rw [readBytes_writeBytes_disjoint]
        · exact readBytes_writeBytes s.mem msg m
        · rw [leBytes_length]
          exact sizeApart
      have own : bufQueueMail.own s o (.bufQueueRecv o ticks msg size) = [(s.caller, m)] :=
        (if_pos ⟨rfl, by rw [call]⟩).trans
          (by rw [loaded, BitVec.toNat_ofNat, Nat.mod_eq_of_lt length, read])
      rw [own]
      exact delivers.take _
  · refine .waits h blocks.toBlocks bufQueueMail_silent fun pending holds => ?_
    exact ⟨holds.ring.isEmpty_iff.mp empty,
      holds.congr (blocks.sameObject o).bufQueue fun x _ _ => congrFun blocks.mem x⟩

theorem krhinoBufQueueFlush_bufQueueStep (h : Core s) (h' : Core (krhinoBufQueueFlush s o).2) :
    bufQueueMail.Step BufQueueHolds s (.bufQueueFlush o) o := by
  rcases krhinoBufQueueFlush_cases s o with ⟨e, error, eq⟩ | eq <;>
    replace eq : (bufQueueFlush o).exec s = _ := eq
  · exact .undone h (bufQueueMail_silent (by simp [eq, error])) (by rw [eq])
  · refine .ofTask h h' (by rw [eq]; rfl) fun pending box holds delivers => ?_
    refine ⟨[], ?_, fun _ _ => rfl, ?_⟩
    · rw [eq]
      refine ⟨?_, ?_, ?_⟩ <;> simp only [KState.modBufQueue, Function.update_self]
      · exact holds.ring.reset
      · rfl
      · exact holds.small
    · have flushes : bufQueueMail.flushes s o (.bufQueueFlush o) = true :=
        decide_eq_true ⟨rfl, by rw [eq]⟩
      rw [flushes]
      exact delivers.flush

/-- The calls on buffer queues. -/
theorem exec_bufQueueStep (inv : KInv s) (h' : Core (c.exec s).2)
    (fits : (Action.call c).ProperArgs s ∧ (Action.call c).SendsWhole s)
    (apart : ∀ r w, s.ring o = some r → w ∈ c.callerStores s → Apart w r.region)
    (type : (s.blk o).objType = .bufQueue) (type' : ((c.exec s).2.blk o).objType = .bufQueue)
    (on : c.object = some o) (expects : c.kind = some .bufQueue) :
    bufQueueMail.Step BufQueueHolds s c o := by
  have h := inv.core
  have ring := ring_of_bufQueue type
  have typed : ((c.exec s).2.blk o).objType ≠ .none := by
    rw [type']
    decide
  cases c with
  | bufQueueSend =>
    cases on
    refine krhinoBufQueueSend_bufQueueStep h h' fits.2 fun t isHead => apart _ _ ring ?_
    exact mem_map_of_mem (mem_toList.mpr isHead)
  | bufQueueRecv =>
    cases on
    refine krhinoBufQueueRecv_bufQueueStep inv h' fits.1 (apart _ _ ring ?_) (apart _ _ ring ?_) <;>
      simp [callerStores]
  | bufQueueFlush =>
    cases on
    exact krhinoBufQueueFlush_bufQueueStep h h'
  | bufQueueDel | bufQueueDynDel =>
    cases on
    exact .deleted h ⟨rfl, rfl, rfl⟩ (objDel_cases inv (fun _ => rfl) fun _ => rfl) typed
  | _ => cases expects

/-- A buffer queue that has just been created is empty. -/
theorem createdObj_bufQueueHolds (may : c.Allowed s)
    (fits : (Action.call c).ProperArgs s ∧ (Action.call c).SendsWhole s)
    (names : c.createdObj = some o) (type' : ((c.exec s).2.blk o).objType = .bufQueue) :
    BufQueueHolds (c.exec s).2 o [] := by
  have refused : (s.blk o).objType ≠ .bufQueue := by
    rw [(may.freshObj o names).2]
    decide
  have makes := createdObj_makes names refused type'
  cases c with
  | bufQueueCreate _ _ size maxMsg =>
    cases names
    have pos : maxMsg ≠ 0 := fun zero => by
      simp only [exec, bufQueueCreate, if_pos zero] at type'
      exact refused type'
    have some : size ≠ 0 := fun zero => by
      simp only [exec, bufQueueCreate, if_neg pos, if_pos zero] at type'
      exact refused type'
    refine ⟨?_, ?_, ?_⟩ <;>
      simp only [exec, bufQueueCreate, if_neg pos, if_neg some, KState.modBufQueue,
        Function.update_self, length_nil]
    · exact BufRing.init (Nat.pos_of_ne_zero pos) fits.2
    · exact fits.1
  | _ => cases makes

/-! ## Every run -/

theorem bufQueueMail_lawful :
    bufQueueMail.Lawful BufQueueHolds fun s a => a.ProperArgs s ∧ a.SendsWhole s where
  isObject := by decide
  blocks := by
    intro s c o inv receives blocked
    cases c with
    | bufQueueRecv a ticks msg size =>
      obtain rfl := some.inj receives
      rcases krhinoBufQueueRecv_cases inv a ticks msg size with
        ⟨e, -, eq | eq⟩ | ⟨-, ⟨-, eq⟩ | ⟨e, bs, len, r, -, eq⟩⟩ | ⟨type, -, blocks⟩
      · cases (congrArg Prod.fst eq).symm.trans blocked
      · cases (congrArg Prod.fst eq).symm.trans blocked
      · cases (congrArg Prod.fst eq).symm.trans blocked
      · cases (congrArg Prod.fst eq).symm.trans blocked
      · exact ⟨type, rfl, _, blocks.toBlocks⟩
    | _ => cases receives
  keeps s t := (readBytes_length ..).symm
  stable := by
    intro w w' bs request keeps
    exact request.bqMsgSize.trans keeps
  ring := by
    intro s o type
    exact ⟨_, ring_of_bufQueue type⟩
  silent not := bufQueueMail_silent not
  congr type holds same bytes := holds.congr same.bufQueue (bytes _ (ring_of_bufQueue type))
  made may fits names type' := createdObj_bufQueueHolds may fits names type'
  step inv h' fits apart type type' on expects :=
    exec_bufQueueStep inv h' fits apart type type' on expects

/-- In every run in which messages are stored whole, the bytes that are sent arrive: each message
whose send has returned success is read by one receiver, with the size that it was sent with, or
flushed, in the order of the sends, whether it found a waiter or was stored; `cur_num` is the number
of messages stored; and a blocked receive returns the size of what it was given. -/
theorem bufQueues_deliver {p : (KState × List ObjId) × MailHistory Bytes}
    (reach : (bufQueueKernel.restrict fun p a => a.SendsWhole p.1.1).Reach p) :
    BufQueuesDeliver p.1.1 p.2 := by
  obtain ⟨core, ok⟩ := reach_mailOk bufQueueMail_lawful reach.restrict_and
  refine ⟨fun o type => ?_, fun t o msg had live => ?_⟩
  · obtain ⟨pending, holds, delivers⟩ := ok.holds o type
    exact ⟨pending, holds.contains.ring, holds.contains.curNum, delivers⟩
  · rcases (ok.recv t o msg had).result core live Ktask.bqMsgSize with waits |
      ⟨state, success, stored⟩
    · exact .inl waits
    · refine .inr ⟨state, success, fun bs given => ?_⟩
      obtain ⟨value, keeps⟩ := stored bs given
      rw [show (bufQueueRecvEnd _).2 = _ from value]
      exact keeps

/-- Task 1 waits for the variable-length queue 5. A handler writes three bytes and sends two of them
to it, then all three, which are stored, and receives them itself. -/
def sentBothWays : List Action :=
  [.call (.bufQueueCreate 5 1000 32 8 .staticAlloc .dyn),
    .call (.taskCreate 1 20 0 1 true .staticAlloc), .call (.bufQueueRecv 5 100 64 72),
    .call .intrptEnter, .store 80 [7, 8, 9], .call (.bufQueueSend 5 80 2),
    .call (.bufQueueSend 5 80 3), .call (.bufQueueRecv 5 noWait 96 104)]

theorem bufQueues_deliver_sentBothWays :
    ((bufQueueKernel.run ((.initial fun _ => 0, []), {}) sentBothWays).2.recv 1 =
        some (5, some [7, 8]) ∧
      (bufQueueKernel.run ((.initial fun _ => 0, []), {}) sentBothWays).1.1.mem.readBytes 96 3 =
        [7, 8, 9] ∧
      (bufQueueKernel.run ((.initial fun _ => 0, []), {}) sentBothWays).1.1.load32 104 = 3) ∧
      BufQueuesDeliver (bufQueueKernel.run ((.initial fun _ => 0, []), {}) sentBothWays).1.1
        (bufQueueKernel.run ((.initial fun _ => 0, []), {}) sentBothWays).2 :=
  have start : (bufQueueKernel.restrict fun p a => a.SendsWhole p.1.1).Reach
      ((.initial fun _ => 0, []), {}) := .init ⟨⟨⟨_, rfl⟩, rfl⟩, rfl⟩
  ⟨by decide +kernel, bufQueues_deliver (start.run (by decide +kernel))⟩

/-- Two bytes are sent through a fixed-length queue for messages of up to four bytes. -/
def shortMessage : List Action :=
  [.call (.bufQueueCreate 5 1000 16 4 .staticAlloc .fix), .store 80 [7, 8, 9, 10],
    .call (.bufQueueSend 5 80 2), .call (.bufQueueRecv 5 noWait 96 104)]

/-- Four bytes arrive. -/
theorem not_bufQueues_deliver : ¬ ∀ p, bufQueueKernel.Reach p → BufQueuesDeliver p.1.1 p.2 := by
  intro deliver
  have start : bufQueueKernel.Reach ((.initial fun _ => 0, []), {}) := .init ⟨⟨⟨_, rfl⟩, rfl⟩, rfl⟩
  have ok := deliver _ (start.run (show bufQueueKernel.Runs _ shortMessage by decide +kernel))
  obtain ⟨pending, -, count, done, sent, fates⟩ := ok.delivers 5 (by decide +kernel)
  have stored : ((bufQueueKernel.run ((.initial fun _ => 0, []), {}) shortMessage).1.1.bufQueues
      5).curNum = 0 := by decide +kernel
  have two : ((bufQueueKernel.run ((.initial fun _ => 0, []), {}) shortMessage).2.box 5).sent =
      [([7, 8], [])] := by decide +kernel
  have four : ((bufQueueKernel.run ((.initial fun _ => 0, []), {}) shortMessage).2.box 5).fates =
      [.received [(some idleTask, [7, 8, 9, 10])]] := by decide +kernel
  obtain rfl := length_eq_zero_iff.mp (count.symm.trans stored)
  rw [two, map_nil, append_nil] at sent
  rw [four, ← sent] at fates
  cases fates with
  | cons fits =>
    obtain ⟨r, same⟩ := fits
    simp at same

end AliosThings.Rhino
