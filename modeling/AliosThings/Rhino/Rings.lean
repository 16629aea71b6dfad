import AliosThings.Rhino.RingbufFix
import AliosThings.Rhino.PriorityInheritance

/-!
# The memory of the queues

A queue keeps its messages in memory that its creator has handed over, beside the memory of the
tasks and handlers that use it. The kernel writes to both: to the ring of a queue it pushes to, and
through the pointers of its callers. The steps of a program are the calls of the kernel and the
stores of the code around it; as long as neither writes to a ring through a pointer of its own, and
no two rings overlap, a call on one object leaves the messages of the others alone.
-/

namespace AliosThings.Rhino

open Lib KRingbuf List Option KState

/-! ## Programs -/

/-- Code outside the kernel calls it, or writes to memory. -/
inductive Action where
  | call (c : KCall)
  | store (a : Nat) (bs : Bytes)

def Action.exec (s : KState) : Action → KState
  | call c => (c.exec s).2
  | store a bs => { s with mem := s.mem.writeBytes a bs }

def Action.Allowed (s : KState) : Action → Prop
  | call c => kernel.allowed s c ∧ c.NoStaleDelete s
  | store _ _ => True

instance (s : KState) (a : Action) : Decidable (a.Allowed s) := by
  cases a <;> unfold Action.Allowed <;> infer_instance

/-- The ring of an object that has one. -/
def KState.ring (s : KState) (o : ObjId) : Option KRingbuf :=
  match (s.blk o).objType with
  | .queue => some (s.queues o).ringbuf
  | .bufQueue => some (s.bufQueues o).ringbuf
  | _ => none

/-- The memory that a call is given for a ring. -/
def KCall.newRing : KCall → List (Nat × Nat)
  | queueCreate _ start msgNum _ => [(start, msgNum * wordSize % 2 ^ 32)]
  | bufQueueCreate _ buf size _ _ _ => [(buf, size)]
  | _ => []

/-- The objects that have been created. -/
def noteMade (_ : KState) (a : Action) (made : List ObjId) : List ObjId :=
  match a with
  | .call c => c.createdObj.toList ++ made
  | .store _ _ => made

/-- The memory of all rings. -/
def ringRegions (s : KState) (made : List ObjId) : List (Nat × Nat) :=
  made.filterMap fun o => (s.ring o).map KRingbuf.region

def Apart (r r' : Nat × Nat) : Prop := r.1 + r.2 ≤ r'.1 ∨ r'.1 + r'.2 ≤ r.1
  deriving Decidable

/-- The memory a step writes to through pointers from outside the kernel, or takes over. -/
def Action.touches (s : KState) : Action → List (Nat × Nat)
  | call c => c.callerStores s ++ c.newRing
  | store a bs => [(a, bs.length)]

/-- A step keeps off the rings that are in use. -/
def Action.KeepsOff (p : KState × List ObjId) (a : Action) : Prop :=
  ∀ r ∈ a.touches p.1, ∀ r' ∈ ringRegions p.1 p.2, Apart r r'
  deriving Decidable

/-- The kernel and the code around it, which keeps off the rings. -/
abbrev program : System (KState × List ObjId) Action :=
  ({ init := kernel.init, allowed := fun s a => a.Allowed s, step := fun s a => a.exec s } :
    System KState Action).observed [] noteMade |>.restrict Action.KeepsOff

/-! ## Sending -/

variable {s : KState} {o : ObjId} {t : TaskId}

theorem taskMsgRecv_endsWait (msg : Nat) (o : ObjId) :
    EndsWait o (taskMsgRecv msg) fun st w => { w with msg := msg }.released st .finish := by
  intro s t h linked
  exact deliver_view linked (h.modTask t rfl rfl rfl rfl rfl (h.bPrio t)) rfl

/-- `msg_send` is refused, pushes the message, or hands it to waiters. -/
theorem msgSend_cases (h : Core s) (o : ObjId) (msg : Nat) (wakeAll : Bool) :
    (∃ e, e ≠ .success ∧ msgSend s o msg wakeAll = (.ret e, s)) ∨
      (s.queues o).curNum < (s.queues o).size ∧ (s.blk o).blkList = [] ∧
        msgSend s o msg wakeAll = (.ret .success,
          queuePush (s.modQueue o fun q =>
            { q with
              curNum := q.curNum + 1
              peakNum := if q.curNum + 1 > q.peakNum then q.curNum + 1 else q.peakNum }) o msg) ∨
      (msgSend s o msg wakeAll).1 = .ret .success ∧
        ∃ t rest, (s.blk o).blkList = t :: rest ∧
          ServedAll (fun st w => { w with msg := msg }.released st .finish)
            (if wakeAll then t :: rest else [t]) s.view (msgSend s o msg wakeAll).2.view := by
  unfold msgSend
  split
  · exact .inl ⟨_, by decide, rfl⟩
  next type =>
  split
  · exact .inl ⟨_, by decide, rfl⟩
  next notFull =>
  cases list : (s.blk o).blkList
  case nil => exact .inr (.inl ⟨by omega, rfl, rfl⟩)
  case cons t rest =>
  refine .inr (.inr ⟨rfl, t, rest, rfl, ?_⟩)
  simp only [coreSched_view]
  cases wakeAll with
  | true =>
    have served := blkListForEach_served (taskMsgRecv_wakes msg o) (taskMsgRecv_endsWait msg o) h
    rw [list] at served
    exact served
  | false =>
    obtain ⟨st, state, view⟩ := taskMsgRecv_endsWait msg o s t h (h.linked_head list)
    exact servedOne state view

/-- `buf_queue_send` is refused, pushes the message, or copies it to the first waiter. A push that
leaves the buffer has no result. -/
theorem krhinoBufQueueSend_cases (h : Core s) (o : ObjId) (msg msgSize : Nat) :
    (∃ e, e ≠ .success ∧ krhinoBufQueueSend s o msg msgSize = (.ret e, s)) ∨
      (s.blk o).objType = .bufQueue ∧ 0 < msgSize ∧ msgSize ≤ (s.bufQueues o).maxMsgSize ∧
        ((s.blk o).blkList = [] ∧ (ringbufPush wordSize (s.bufQueues o).ringbuf s.mem
              (s.mem.readBytes msg (max msgSize (s.bufQueues o).ringbuf.blkSize)) msgSize = none ∧
              krhinoBufQueueSend s o msg msgSize = (.ret .success, s.overflow) ∨
            ∃ r mem, ringbufPush wordSize (s.bufQueues o).ringbuf s.mem
              (s.mem.readBytes msg (max msgSize (s.bufQueues o).ringbuf.blkSize)) msgSize =
                some (.success, r, mem) ∧
              krhinoBufQueueSend s o msg msgSize = (.ret .success,
                { s with mem := mem }.modBufQueue o fun q =>
                  { q with
                    ringbuf := r
                    curNum := q.curNum + 1
                    peakNum := if q.peakNum < q.curNum + 1 then q.curNum + 1 else q.peakNum
                    minFreeBufSize :=
                      if q.minFreeBufSize > r.freesize then r.freesize else q.minFreeBufSize })) ∨
        (krhinoBufQueueSend s o msg msgSize).1 = .ret .success ∧
          ∃ t rest, (s.blk o).blkList = t :: rest ∧
            ServedAll (fun st w => { w with bqMsgSize := msgSize }.released st .finish) [t]
              { s.view with
                mem := s.mem.writeBytes (s.tasks t).msg (s.mem.readBytes msg msgSize) }
              (krhinoBufQueueSend s o msg msgSize).2.view) := by
  unfold krhinoBufQueueSend
  split
  · exact .inl ⟨_, by decide, rfl⟩
  next type =>
  simp only
  split
  · exact .inl ⟨_, by decide, rfl⟩
  next small =>
  split
  · exact .inl ⟨_, by decide, rfl⟩
  next pos =>
  cases list : (s.blk o).blkList with
  | nil =>
    simp only
    split
    · next push =>
      exact .inr ⟨not_not.mp type, by omega, by omega, .inl ⟨trivial, .inl ⟨push, rfl⟩⟩⟩
    · next r mem push =>
      exact .inr ⟨not_not.mp type, by omega, by omega, .inl ⟨trivial, .inr ⟨r, mem, push, rfl⟩⟩⟩
    · exact .inl ⟨_, by decide, rfl⟩
    · next e r mem notDone notFull push =>
      exact .inl ⟨e, fun done => notDone (by rw [done]), rfl⟩
  | cons t rest =>
    refine .inr ⟨not_not.mp type, by omega, by omega, .inr ⟨rfl, t, rest, rfl, ?_⟩⟩
    simp only [coreSched_view]
    have copied : Core { s with
        mem := s.mem.writeBytes (s.tasks t).msg (s.mem.readBytes msg msgSize) } :=
      h.congr rfl
    obtain ⟨st, state, view⟩ := deliver_view (f := fun k => { k with bqMsgSize := msgSize })
      (copied.linked_head list) (copied.modTask t rfl rfl rfl rfl rfl (h.bPrio t)) rfl
    exact servedOne state view

/-- A flush is refused, or empties the ring. -/
theorem krhinoQueueFlush_cases (s : KState) (o : ObjId) :
    (∃ e, e ≠ .success ∧ krhinoQueueFlush s o = (.ret e, s)) ∨
      krhinoQueueFlush s o = (.ret .success, s.modQueue o fun q =>
        { q with curNum := 0, ringbuf := ringbufReset q.ringbuf }) := by
  unfold krhinoQueueFlush intrptNestedLevelChk
  split
  · exact .inl ⟨_, by decide, rfl⟩
  split
  · exact .inl ⟨_, by decide, rfl⟩
  · exact .inr rfl

theorem krhinoBufQueueFlush_cases (s : KState) (o : ObjId) :
    (∃ e, e ≠ .success ∧ krhinoBufQueueFlush s o = (.ret e, s)) ∨
      krhinoBufQueueFlush s o =
        (.ret .success, s.modBufQueue o fun q =>
          { q with
            ringbuf := ringbufReset q.ringbuf, curNum := 0, peakNum := 0
            minFreeBufSize := (ringbufReset q.ringbuf).freesize }) := by
  unfold krhinoBufQueueFlush intrptNestedLevelChk
  split
  · exact .inl ⟨_, by decide, rfl⟩
  split
  · exact .inl ⟨_, by decide, rfl⟩
  · exact .inr rfl

/-! ## Rings are apart -/

/-- No two rings overlap. -/
structure RingsApart (s : KState) (made : List ObjId) : Prop where
  made : ∀ o r, s.ring o = some r → o ∈ made
  apart : ∀ a b r r', a ≠ b → s.ring a = some r → s.ring b = some r' → Apart r.region r'.region

variable {s' : KState} {c : KCall} {r r' : KRingbuf} {made : List ObjId}

variable {M X : Set ObjId} {W : List (Nat × Nat)}

/-- A call leaves the rings where they are, or creates the object. -/
theorem CallStep.rings {r : KRet × KState}
    (h : CallStep M X W s c r) (old : c.createdObj ≠ some o) : s.view.SameRings r.2.view o := by
  cases h with
  | quiet step => exact step.rings o
  | ticks _ _ step => exact ⟨(step.rings o).queue, (step.rings o).bufQueue⟩
  | makes _ names _ _ _ object same =>
    exact (object o fun same => old (same ▸ names)).rings
  | creates _ _ _ _ _ view =>
    rw [view]
    exact ⟨.refl _, .refl _⟩
  | blocks g blocks => exact (blocks.sameObject o).rings

theorem KRingbuf.SameShape.region (same : SameShape r r') : r'.region = r.region := by
  unfold KRingbuf.region
  rw [same.buf, same.endp]

/-- A ring belongs to a queue or a buffer queue. -/
theorem ring_cases (ring : s.ring o = some r) :
    (s.blk o).objType = .queue ∧ (s.queues o).ringbuf = r ∨
      (s.blk o).objType = .bufQueue ∧ (s.bufQueues o).ringbuf = r := by
  unfold KState.ring at ring
  split at ring
  · next type => exact .inl ⟨type, some.inj ring⟩
  · next type => exact .inr ⟨type, some.inj ring⟩
  · cases ring

theorem ring_of_queue (type : (s.blk o).objType = .queue) :
    s.ring o = some (s.queues o).ringbuf := by
  unfold KState.ring
  rw [type]

theorem ring_of_bufQueue (type : (s.blk o).objType = .bufQueue) :
    s.ring o = some (s.bufQueues o).ringbuf := by
  unfold KState.ring
  rw [type]

/-- The memory of the rings that have been made. -/
theorem mem_ringRegions (ring : s.ring o = some r) (inMade : o ∈ made) :
    r.region ∈ ringRegions s made :=
  mem_filterMap.mpr ⟨o, inMade, by rw [ring]; rfl⟩

theorem region_init (buf len : Nat) (type : RingbufType) (blockSize : Nat) :
    (ringbufInit buf len type blockSize).region = (buf, len) := by
  simp [KRingbuf.region, ringbufInit, ringbufReset]

/-- The ring of an object that has just been created is the memory that it was given. -/
theorem createdObj_ring (names : c.createdObj = some o) (none : (s.blk o).objType = .none)
    (ring : (c.exec s).2.ring o = some r) : r.region ∈ c.newRing := by
  have refused : s.ring o ≠ some r := fun had => by
    rcases ring_cases had with ⟨type, -⟩ | ⟨type, -⟩ <;> rw [none] at type <;> cases type
  cases c with
  | queueCreate =>
    cases names
    simp only [KCall.exec, queueCreate] at ring
    split at ring
    · exact absurd ring refused
    · simp only [KState.ring, modQueue, modBlk, Function.update_self, some.injEq] at ring
      rw [← ring, region_init]
      exact mem_singleton_self _
  | bufQueueCreate =>
    cases names
    simp only [KCall.exec, bufQueueCreate] at ring
    split at ring
    · exact absurd ring refused
    split at ring
    · exact absurd ring refused
    · simp only [KState.ring, modBufQueue, modBlk, Function.update_self, some.injEq] at ring
      rw [← ring, region_init]
      exact mem_singleton_self _
  | mutexCreate | semCreate | eventCreate =>
    cases names
    simp [KCall.exec, mutexCreate, semCreate, eventCreate, KState.ring, modBlk, modMutex, modSem,
      modEvent] at ring
  | _ => cases names

/-- A ring has been where it is, or is in the memory that its object was given. -/
theorem exec_ring (legal : Legal s c) (ring : (c.exec s).2.ring o = some r) :
    (∃ before, s.ring o = some before ∧ SameShape before r) ∨
      c.createdObj = some o ∧ r.region ∈ c.newRing := by
  have typed : ((c.exec s).2.blk o).objType ≠ .none := by
    rcases ring_cases ring with ⟨type, -⟩ | ⟨type, -⟩ <;> rw [type] <;> decide
  rcases (exec_calls legal).type o with same | none | names
  · have type : ((c.exec s).2.blk o).objType = (s.blk o).objType := same
    have old : c.createdObj ≠ some o := fun names =>
      typed (type.trans (legal.may.freshObj o names).2)
    have rings := (exec_calls legal).rings old
    rcases ring_cases ring with ⟨isQueue, eq⟩ | ⟨isBufQueue, eq⟩
    · exact .inl ⟨_, ring_of_queue (type.symm.trans isQueue), eq ▸ rings.queue⟩
    · exact .inl ⟨_, ring_of_bufQueue (type.symm.trans isBufQueue), eq ▸ rings.bufQueue⟩
  · exact absurd none typed
  · exact .inr ⟨names, createdObj_ring names (legal.may.freshObj o names).2 ring⟩

/-- The rings stay apart. -/
theorem exec_ringsApart (legal : Legal s c) (apart : RingsApart s made)
    (keeps : (Action.call c).KeepsOff (s, made)) :
    RingsApart (c.exec s).2 (noteMade s (.call c) made) := by
  have new : ∀ (a : ObjId) (r before : KRingbuf), r.region ∈ c.newRing → s.ring a = some before →
      Apart r.region before.region := fun a r before given ring =>
    keeps _ (mem_append_right _ given) _ (mem_ringRegions ring (apart.made a before ring))
  refine ⟨fun o r ring => ?_, fun a b r r' other ring ring' => ?_⟩
  · rcases exec_ring legal ring with ⟨before, had, -⟩ | ⟨names, -⟩
    · exact mem_append_right _ (apart.made o before had)
    · exact mem_append_left _ (mem_toList.mpr names)
  · rcases exec_ring legal ring with ⟨before, had, shape⟩ | ⟨names, given⟩ <;>
      rcases exec_ring legal ring' with ⟨before', had', shape'⟩ | ⟨names', given'⟩
    · rw [shape.region, shape'.region]
      exact apart.apart a b before before' other had had'
    · rw [shape.region]
      exact (new a r' before given' had).symm
    · rw [shape'.region]
      exact new b r before' given had'
    · exact absurd (some.inj (names.symm.trans names')) other

/-- Memory changes only where a call writes. -/
theorem CallStep.mem {r : KRet × KState}
    (h : CallStep M X W s c r) : s.mem.SameOutside W r.2.mem := by
  cases h with
  | quiet step | ticks _ _ step => exact step.mem
  | makes _ _ _ _ _ _ same =>
    have mem : r.2.mem = s.mem := same
    rw [mem]
    exact .refl _ _
  | creates _ _ _ _ _ view =>
    have mem : r.2.mem = s.mem := congrArg View.mem view
    rw [mem]
    exact .refl _ _
  | blocks g blocks =>
    rw [blocks.mem]
    exact .refl _ _

/-- The bytes of a ring. -/
def KRingbuf.SameBytes (r : KRingbuf) (mem mem' : Mem) : Prop :=
  ∀ x, r.buf ≤ x → x < r.endp → mem' x = mem x

/-- Writes that keep off a ring leave its bytes. -/
theorem KRingbuf.sameBytes_of_apart {mem mem' : Mem}
    (same : mem.SameOutside W mem') (apart : ∀ w ∈ W, Apart w r.region) : r.SameBytes mem mem' :=
  fun x low high => same x fun w writes => by
    have off := apart w writes
    unfold Apart KRingbuf.region at off
    omega

theorem KRingbuf.sameBytes_writeBytes {a : Nat} {bs : Bytes} (mem : Mem)
    (apart : Apart (a, bs.length) r.region) : r.SameBytes mem (mem.writeBytes a bs) := by
  refine sameBytes_of_apart (mem.sameOutside_writeBytes (mem_singleton_self _)) ?_
  intro w writes
  rw [mem_singleton.mp writes]
  exact apart

/-- A call on another object leaves the bytes of a ring. -/
theorem exec_sameBytes (legal : Legal s c) (apart : RingsApart s made)
    (keeps : (Action.call c).KeepsOff (s, made)) (ring : s.ring o = some r)
    (other : c.object ≠ some o) : r.SameBytes s.mem (c.exec s).2.mem := by
  have wrong : ∀ a kind, c.object = some a → c.kind = some kind → (s.blk a).objType ≠ kind →
      r.SameBytes s.mem (c.exec s).2.mem := fun a kind on expects type => by
    rw [exec_wrong_kind expects on type]
    exact fun _ _ _ => rfl
  have callers w (writes : w ∈ c.callerStores s) : Apart w r.region :=
    keeps w (mem_append_left _ writes) _ (mem_ringRegions ring (apart.made o r ring))
  have rings a before (had : s.ring a = some before) (ne : a ≠ o) : Apart before.region r.region :=
      apart.apart a o before r ne had ring
  have mem := (exec_calls legal).mem
  have only : c.stores s = c.callerStores s → r.SameBytes s.mem (c.exec s).2.mem := fun eq =>
    sameBytes_of_apart (eq ▸ mem) callers
  have push : ∀ a before, c.object = some a → s.ring a = some before →
      c.stores s = c.callerStores s ++ [before.region] → r.SameBytes s.mem (c.exec s).2.mem := by
    intro a before on had eq
    refine sameBytes_of_apart (eq ▸ mem) fun w writes => ?_
    rcases mem_append.mp writes with caller | own
    · exact callers w caller
    · rw [mem_singleton.mp own]
      exact rings a before had fun same => other (same ▸ on)
  cases c with
  | queueBackSend a | queueAllSend a =>
    by_cases type : (s.blk a).objType = .queue
    · exact push a _ rfl (ring_of_queue type) rfl
    · exact wrong a .queue rfl rfl type
  | bufQueueSend a =>
    by_cases type : (s.blk a).objType = .bufQueue
    · exact push a _ rfl (ring_of_bufQueue type) rfl
    · exact wrong a .bufQueue rfl rfl type
  | _ => exact only (append_nil _)

/-! ## Every run -/

/-- What holds in every state of a program. -/
structure ProgramOk (p : KState × List ObjId) : Prop where
  inv : KInv p.1
  bal : InBalance p.1
  apart : RingsApart p.1 p.2

/-- The program may store to its memory. -/
theorem store_inv (inv : KInv s) (mem : Mem) : KInv { s with mem := mem } :=
  ⟨inv.core.congr rfl, inv.dead, inv.running, inv.level⟩

theorem store_inBalance (bal : InBalance s) (mem : Mem) : InBalance { s with mem := mem } := by
  have same : SameOwnership s { s with mem := mem } :=
    ⟨fun _ => rfl, fun _ => rfl, fun _ => rfl, fun _ => .rfl, fun _ seed => seed, fun _ => .rfl,
      fun _ _ => rfl, rfl, rfl⟩
  exact same.inBalance bal

theorem initial_ring (mem : Mem) (o : ObjId) : (initial mem).ring o = none := by
  unfold KState.ring
  rcases eq_or_ne o gResSem with rfl | other <;> simp [initial, *]

/-- What holds in every run of a program. -/
theorem program_reach {p : KState × List ObjId} (reach : program.Reach p) : ProgramOk p := by
  refine reach.invariant ?_ ?_
  · rintro ⟨s, made⟩ ⟨⟨mem, rfl⟩, rfl⟩
    refine ⟨initial_inv mem, initial_inBalance mem, fun o r ring => ?_, fun a b r r' _ ring => ?_⟩
    · rw [initial_ring] at ring
      cases ring
    · rw [initial_ring] at ring
      cases ring
  · rintro ⟨s, made⟩ a ⟨inv, bal, apart⟩ ⟨may, keeps⟩
    cases a with
    | call c =>
      obtain ⟨⟨-, may⟩, fresh⟩ : kernel.allowed s c ∧ c.NoStaleDelete s := may
      exact ⟨exec_inv inv may, exec_inBalance inv bal may fresh,
        exec_ringsApart ⟨inv, bal, may, fresh⟩ apart keeps⟩
    | store =>
      exact ⟨store_inv inv _, store_inBalance bal _, apart.made, apart.apart⟩

end AliosThings.Rhino
