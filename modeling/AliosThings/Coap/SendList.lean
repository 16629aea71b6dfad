import Mathlib.Data.List.Nodup
import AliosThings.Lib.Bytes
import AliosThings.Lib.Run
import Mathlib.Tactic.IntervalCases

/-!
# The messages of the CoAP client (`protocol/coap/CoAPMessage.c`)

The ids of messages, and the list of those that are retransmitted.
-/

namespace AliosThings.Coap

/-- The client of the cloud (`protocol/coap`) and ALCS (`protocol/alcs`). -/
inductive Impl where
  | cloud
  | alcs
  deriving DecidableEq, Repr

def coapMaxMessageId : Nat := 65535

/-- `CoAPMessageId_gen`: the id, and `message_id` after the call. The cloud client leaves its
counter at the end; ALCS puts it back to the id that it returns. -/
def coapMessageIdGen (impl : Impl) (messageId : Nat) : Nat × Nat :=
  if coapMaxMessageId = messageId then
    match impl with
    | .cloud => (1, messageId)
    | .alcs => (1, 1)
  else (messageId, messageId + 1)

/-- What some calls return, one after the other. -/
def messageIds (impl : Impl) : Nat → Nat → List Nat
  | _, 0 => []
  | messageId, calls + 1 =>
    let (id, messageId) := coapMessageIdGen impl messageId
    id :: messageIds impl messageId calls

/-- Below the limit the ids are consecutive. -/
theorem messageIds_range {impl : Impl} {messageId n : Nat} (before : messageId + n ≤ 65535)
    (more : Nat) : messageIds impl messageId (n + more) =
      List.range' messageId n ++ messageIds impl (messageId + n) more := by
  induction n generalizing messageId with
  | zero => simp
  | succ n ih =>
    have gen : coapMessageIdGen impl messageId = (messageId, messageId + 1) :=
      if_neg (by rw [coapMaxMessageId]; omega)
    rw [Nat.succ_add, messageIds, gen, List.range'_succ, List.cons_append]
    dsimp only
    rw [ih (by omega), Nat.add_right_comm, Nat.add_assoc]

/-- At its end the counter makes both implementations return 1 twice. -/
theorem messageIds_end (impl : Impl) (calls : Nat) :
    ¬ (messageIds impl 65535 (calls + 2)).Nodup := by
  have twice (l : List Nat) : ¬ (1 :: 1 :: l).Nodup := by simp
  cases impl with
  | cloud => exact twice (messageIds .cloud 65535 calls)
  | alcs => exact twice (messageIds .alcs 2 calls)

/-- A period of calls returns distinct ids exactly from the start of the counter on. -/
theorem messageIds_nodup_iff (impl : Impl) {messageId : Nat} (small : messageId < 2 ^ 16) :
    (messageIds impl messageId 65534).Nodup ↔ messageId ≤ 2 := by
  constructor
  · intro nodup
    by_contra late
    have calls : 65534 = (65535 - messageId) + (messageId - 3 + 2) := by omega
    rw [calls, messageIds_range (by omega), Nat.add_sub_cancel' (by omega)] at nodup
    exact messageIds_end impl _ (List.nodup_append.mp nodup).2.1
  intro early
  by_cases two : messageId = 2
  · have wraps : messageIds impl 65535 1 = [1] := by cases impl <;> rfl
    rw [two, messageIds_range (by decide) 1, wraps]
    refine List.Nodup.append List.nodup_range' (List.nodup_singleton 1) ?_
    simp [List.mem_range'_1]
  · rw [messageIds_range (by omega) 0]
    simpa [messageIds] using List.nodup_range'

theorem messageIds_nodup_initial : (messageIds .alcs 1 65534).Nodup :=
  (messageIds_nodup_iff .alcs (by decide)).mpr (by decide)

/-- At the end of the counter a period has 1 twice. -/
theorem not_messageIds_nodup : ¬ (messageIds .cloud 65535 65534).Nodup ∧
    ¬ (messageIds .alcs 65535 65534).Nodup :=
  ⟨messageIds_end .cloud 65532, messageIds_end .alcs 65532⟩

/-! ## The messages that are retransmitted

Every request that is sent is queued until a response with its token arrives or `CoAPMessage_cycle`
gives it up, which counts down `timeout` and doubles it with each retransmission. The list has a
`maxcount`, but `CoAPMessageList_add` compares the addresses of the two counters and not their
values, and `CoAPMessage_cycle` neither retransmits nor removes a message that has been
acknowledged while retransmissions were left. -/

open Lib List UInt8

inductive MessageType where
  | con
  | non
  | ack
  | rst
  deriving DecidableEq

/-- `CoAPMessage`, as far as the list is concerned: `token` has `tokenlen` bytes, and `len` is the
length of the message when it is serialized. -/
structure Message where
  type : MessageType
  code : Nat
  msgid : Nat
  token : Bytes
  len : Nat

/-- `CoAPSendNode`. `seq` stands for the address of the node: it counts the nodes made before. -/
structure SendNode where
  seq : Nat
  msgid : Nat
  acked : Bool
  token : Bytes
  retransCount : Nat
  timeout : Nat
  timeoutVal : Nat

/-- `CoAPSendList`, and how many nodes have been made. -/
structure SendList where
  count : UInt8
  maxcount : UInt8
  sendlist : List SendNode
  made : Nat

def coapMsgMaxPduLen : Nat := 1280
def coapMaxRetryCount : Nat := 4
def coapAckTimeout : Nat := 2
def coapAckRandomFactor : Nat := 1
def coapMaxTransmissionSpan : Nat := 10

/-- The offsets of the two counters in `CoAPSendList`. -/
def countOffset : Nat := 0
def maxcountOffset : Nat := 1

/-! ### Sending -/

/-- `CoAPMessageList_add`; whether the memory for the node is there. -/
def coapMessageListAdd (l : SendList) (message : Message) (malloc : Bool) : SendList :=
  if malloc then
    let con := message.type = .con
    let timeoutVal := coapAckTimeout * coapAckRandomFactor
    let node : SendNode :=
      { seq := l.made, msgid := message.msgid, acked := false, token := message.token, timeoutVal
        timeout := if con then timeoutVal else coapMaxTransmissionSpan
        retransCount := if con then 0 else coapMaxRetryCount }
    -- `&context->list.count >= &context->list.maxcount`
    if countOffset ≥ maxcountOffset then l
    else { l with count := l.count + 1, sendlist := l.sendlist ++ [node], made := l.made + 1 }
  else l

/-- `CoAPReqMsg` or `CoAPCONRespMsg`. -/
def Message.Queued (m : Message) : Prop :=
  1 ≤ m.code ∧ m.code < 32 ∨ m.code = 0x45 ∧ m.type = .con
  deriving Decidable

/-- `CoAPMessage_send`; whether the network accepts the message. -/
def coapMessageSend (l : SendList) (message : Message) (written malloc : Bool) : SendList :=
  if coapMsgMaxPduLen < message.len then l
  else if written ∧ message.Queued then coapMessageListAdd l message malloc
  else l

/-! ### Receiving -/

/-- `CoAPAckMessage_handle` -/
def coapAckMessageHandle (msgid : Nat) : List SendNode → List SendNode
  | [] => []
  | node :: rest =>
    if node.msgid = msgid then { node with acked := true } :: rest
    else node :: coapAckMessageHandle msgid rest

/-- `CoAPAckMessage_send` -/
def coapAckMessageSend (l : SendList) (msgid : Nat) : SendList :=
  coapMessageSend l { type := .ack, code := 0, msgid, token := [], len := 4 } true true

/-- The node has the token of the message. -/
def SendNode.awaits (node : SendNode) (message : Message) : Bool :=
  node.token ≠ [] ∧ node.token = message.token

/-- `CoAPRespMessage_handle` -/
def coapRespMessageHandle (l : SendList) (message : Message) : SendList :=
  let l := if message.type = .con then coapAckMessageSend l message.msgid else l
  if l.sendlist.any (·.awaits message) then
    { l with count := l.count - 1, sendlist := l.sendlist.eraseP (·.awaits message) }
  else l

/-- `COAPAckMsg` -/
def Message.IsAck (m : Message) : Prop := m.code = 0 ∧ m.type = .ack
  deriving Decidable

/-- `CoAPMessage_handle` -/
def coapMessageHandle (l : SendList) (message : Message) : SendList :=
  if message.IsAck then { l with sendlist := coapAckMessageHandle message.msgid l.sendlist }
  else if 0x40 ≤ message.code ∧ message.code < 0xc0 then coapRespMessageHandle l message
  else l

/-- `CoAPMessage_recv`, where `received` is what the network has. -/
def coapMessageRecv (l : SendList) (received : List Message) : SendList :=
  received.foldl coapMessageHandle l

/-! ### The cycle -/

/-- What `CoAPMessage_cycle` does to a node, unless it removes it. -/
def cycleNode (node : SendNode) : Option SendNode :=
  if node.timeout = 0 then
    let node :=
      if node.retransCount < coapMaxRetryCount ∧ node.acked = false then
        let timeout := node.timeoutVal * 2 % 2 ^ 16
        { node with timeout, timeoutVal := timeout, retransCount := node.retransCount + 1 }
      else node
    if node.timeout > coapMaxTransmissionSpan ∨ node.retransCount ≥ coapMaxRetryCount then none
    else some node
  else some { node with timeout := node.timeout - 1 }

/-- The loop of `CoAPMessage_cycle`. -/
def cycleNodes (count : UInt8) : List SendNode → UInt8 × List SendNode
  | [] => (count, [])
  | node :: rest =>
    match cycleNode node with
    | none => cycleNodes (count - 1) rest
    | some node => ((cycleNodes count rest).1, node :: (cycleNodes count rest).2)

/-- `CoAPMessage_cycle` -/
def coapMessageCycle (l : SendList) (received : List Message) : SendList :=
  let l := coapMessageRecv l received
  { l with
    count := (cycleNodes l.count l.sendlist).1
    sendlist := (cycleNodes l.count l.sendlist).2 }

inductive Call where
  | send (message : Message) (written malloc : Bool)
  | recv (received : List Message)
  | cycle (received : List Message)

def Call.exec (l : SendList) : Call → SendList
  | send message written malloc => coapMessageSend l message written malloc
  | recv received => coapMessageRecv l received
  | cycle received => coapMessageCycle l received

/-- The client, from `CoAPContext_create` on. -/
def client : System SendList Call where
  init l := l.count = 0 ∧ l.sendlist = []
  allowed _ _ := True
  step := Call.exec

/-- No queued message is acknowledged that could still be retransmitted. -/
def LateAcks (l : SendList) (received : List Message) : Prop :=
  ∀ m ∈ received, m.IsAck →
    ∀ node ∈ l.sendlist, node.msgid = m.msgid → node.retransCount = coapMaxRetryCount

/-- Sends are made while there is room, and acknowledgements come late. -/
def Call.Careful (l : SendList) : Call → Prop
  | send message _ _ => message.Queued → l.sendlist.length < l.maxcount.toNat
  | recv received | cycle received => LateAcks l received

def Call.isCycle : Call → Bool
  | cycle _ => true
  | _ => false

/-- The cycles after which no node is left that was queued before them. -/
def cyclesToDrain : Nat := 17

/-- The list is bounded and drains. -/
structure Drains (S : System SendList Call) (l : SendList) : Prop where
  counted : l.count.toNat = l.sendlist.length
  bounded : l.count ≤ l.maxcount
  drained : ∀ node ∈ l.sendlist, ∀ calls, S.Runs l calls →
    cyclesToDrain ≤ calls.countP Call.isCycle →
    ∀ left ∈ (S.run l calls).sendlist, left.seq ≠ node.seq

/-! ### Nodes -/

/-- A node that is to be retransmitted, or is to be given up at the end of its time. -/
inductive SendNode.Pending (node : SendNode) : Prop where
  | retries (unacked : node.acked = false) (few : node.retransCount ≤ 2)
    (doubled : node.timeoutVal = 2 ^ (node.retransCount + 1))
    (waits : node.timeout ≤ node.timeoutVal)
  | lasts (all : node.retransCount = coapMaxRetryCount)
    (waits : node.timeout ≤ coapMaxTransmissionSpan)

/-- The cycles for which a node stays after those of its `timeout`. -/
def retriesLeft : Nat → Nat
  | 0 => 15
  | 1 => 10
  | _ => 1

def SendNode.left (node : SendNode) : Nat := node.timeout + retriesLeft node.retransCount

variable {node node' : SendNode}

/-- The cycles that a message stays at most. -/
theorem SendNode.Pending.left_le (pending : node.Pending) :
    0 < node.left ∧ node.left ≤ cyclesToDrain := by
  unfold SendNode.left cyclesToDrain
  cases pending with
  | retries unacked few doubled waits =>
    rw [doubled] at waits
    generalize node.retransCount = count at few waits
    interval_cases count <;> simp only [retriesLeft] <;> omega
  | lasts all waits =>
    rw [all]
    exact ⟨Nat.succ_pos _, (Nat.succ_le_succ waits).trans (by decide)⟩

/-- A cycle brings a node that stays one cycle closer to its end. -/
theorem cycleNode_pending (pending : node.Pending) (stays : cycleNode node = some node') :
    node'.Pending ∧ node'.left + 1 = node.left ∧ node'.seq = node.seq := by
  unfold cycleNode at stays
  split at stays
  · next zero =>
    cases pending with
    | retries unacked few doubled waits =>
      have again : node.retransCount < coapMaxRetryCount ∧ node.acked = false :=
        ⟨few.trans_lt (by decide), unacked⟩
      simp only [if_pos again, doubled] at stays
      split at stays
      · cases stays
      · next goesOn =>
        cases stays
        unfold coapMaxTransmissionSpan coapMaxRetryCount at goesOn
        simp only [SendNode.left, zero]
        generalize node.retransCount = count at few goesOn ⊢
        -- the third retransmission would take longer than the span
        have early : count = 0 ∨ count = 1 := by
          interval_cases count <;> simp at goesOn ⊢
        rcases early with rfl | rfl
        · exact ⟨.retries unacked (Nat.le_succ 1) rfl le_rfl, rfl, trivial⟩
        · exact ⟨.retries unacked (Nat.le_refl 2) rfl le_rfl, rfl, trivial⟩
    | lasts all =>
      simp [all] at stays
  · next running =>
    cases stays
    refine ⟨?_, ?_, rfl⟩
    · cases pending with
      | retries unacked few doubled waits =>
        exact .retries unacked few doubled ((Nat.sub_le _ _).trans waits)
      | lasts all waits => exact .lasts all ((Nat.sub_le _ _).trans waits)
    · simp only [SendNode.left]
      omega

/-! ### The list -/

/-- The counter agrees with the list. -/
def SendList.Counted (l : SendList) : Prop := l.count = ofNat l.sendlist.length

variable {l l' l'' : SendList} {message : Message} {received : List Message}

/-- Received messages remove nodes, and acknowledge none that could be retransmitted. -/
structure Received (l l' : SendList) : Prop where
  counted : l.Counted → l'.Counted
  maxcount : l'.maxcount = l.maxcount
  made : l'.made = l.made
  length : l'.sendlist.length ≤ l.sendlist.length
  nodes : ∀ node' ∈ l'.sendlist, ∃ node ∈ l.sendlist, node' = node ∨
    node.retransCount = coapMaxRetryCount ∧ node' = { node with acked := true }

theorem Received.refl (l : SendList) : Received l l :=
  ⟨id, rfl, rfl, le_rfl, fun node inList => ⟨node, inList, .inl rfl⟩⟩

theorem Received.trans (first : Received l l') (second : Received l' l'') : Received l l'' where
  counted ok := second.counted (first.counted ok)
  maxcount := second.maxcount.trans first.maxcount
  made := second.made.trans first.made
  length := second.length.trans first.length
  nodes node'' inList := by
    obtain ⟨node', inList', later⟩ := second.nodes node'' inList
    obtain ⟨node, inFirst, sooner⟩ := first.nodes node' inList'
    refine ⟨node, inFirst, ?_⟩
    rcases sooner with rfl | ⟨all, rfl⟩
    · exact later
    · rcases later with rfl | ⟨-, rfl⟩
      · exact .inr ⟨all, rfl⟩
      · exact .inr ⟨all, rfl⟩

/-- An acknowledgement removes nothing. -/
theorem ackHandle_length (msgid : Nat) (nodes : List SendNode) :
    (coapAckMessageHandle msgid nodes).length = nodes.length := by
  induction nodes with
  | nil => rfl
  | cons _ _ ih =>
    unfold coapAckMessageHandle
    split
    · rfl
    · simp [ih]

/-- It marks the messages with its id. -/
theorem ackHandle_mem {msgid : Nat} {nodes : List SendNode}
    (inList : node' ∈ coapAckMessageHandle msgid nodes) :
    ∃ node ∈ nodes, node' = node ∨ node.msgid = msgid ∧ node' = { node with acked := true } := by
  induction nodes with
  | nil => cases inList
  | cons node _ ih =>
    unfold coapAckMessageHandle at inList
    split at inList
    · next here =>
      rcases mem_cons.mp inList with rfl | later
      · exact ⟨node, mem_cons_self, .inr ⟨here, rfl⟩⟩
      · exact ⟨node', mem_cons_of_mem _ later, .inl rfl⟩
    · rcases mem_cons.mp inList with rfl | later
      · exact ⟨node', mem_cons_self, .inl rfl⟩
      · obtain ⟨before, there, which⟩ := ih later
        exact ⟨before, mem_cons_of_mem _ there, which⟩

/-- A response removes at most one message. -/
theorem respHandle_received (l : SendList) (message : Message) :
    Received l (coapRespMessageHandle l message) := by
  have sent : (if message.type = .con then coapAckMessageSend l message.msgid else l) = l := by
    split
    · rfl
    · rfl
  unfold coapRespMessageHandle
  rw [sent]
  dsimp only
  split
  · next found =>
    obtain ⟨node, inList, awaits⟩ := any_eq_true.mp found
    have shorter := length_eraseP_add_one (p := (·.awaits message)) inList awaits
    refine ⟨fun counted => ?_, rfl, rfl, by simp only; omega, fun node inList => ?_⟩
    · unfold SendList.Counted at counted ⊢
      rw [counted, ← shorter, ofNat_add]
      exact UInt8.add_sub_cancel _ _
    · exact ⟨node, mem_of_mem_eraseP inList, .inl rfl⟩
  · exact .refl l

/-- Whatever arrives, nothing is added. -/
theorem handle_received (late : LateAcks l [message]) :
    Received l (coapMessageHandle l message) := by
  unfold coapMessageHandle
  split
  · next isAck =>
    refine ⟨fun counted => ?_, rfl, rfl, (ackHandle_length ..).le, fun node' inList => ?_⟩
    · unfold SendList.Counted at counted ⊢
      rw [ackHandle_length]
      exact counted
    · obtain ⟨node, there, which⟩ := ackHandle_mem inList
      exact ⟨node, there, which.imp_right fun both =>
        ⟨late message mem_cons_self isAck node there both.1, both.2⟩⟩
  · split
    · exact respHandle_received l message
    · exact .refl l

/-- So for all that arrives before a cycle. -/
theorem recv_received (late : LateAcks l received) : Received l (coapMessageRecv l received) := by
  induction received generalizing l with
  | nil => exact .refl l
  | cons m _ ih =>
    obtain ⟨here, later⟩ := forall_mem_cons.mp late
    have first : Received l (coapMessageHandle l m) :=
      handle_received (forall_mem_singleton.mpr here)
    refine first.trans (ih ?_)
    intro m' inRest isAck node' inList same
    obtain ⟨node, there, rfl | ⟨all, rfl⟩⟩ := first.nodes node' inList
    · exact later m' inRest isAck node' there same
    · exact all

/-- Each message is kept, sent again or dropped by itself. -/
theorem cycleNodes_eq (count : UInt8) (nodes : List SendNode) :
    (cycleNodes count nodes).2 = nodes.filterMap cycleNode := by
  induction nodes generalizing count with
  | nil => rfl
  | cons node _ ih =>
    unfold cycleNodes
    cases stays : cycleNode node with
    | none | some => simp [stays, ih]

/-- The counter goes with the list. -/
theorem cycleNodes_counted (nodes : List SendNode) (more : Nat) :
    (cycleNodes (ofNat (nodes.length + more)) nodes).1 =
      ofNat ((nodes.filterMap cycleNode).length + more) := by
  induction nodes generalizing more with
  | nil => rfl
  | cons node rest ih =>
    unfold cycleNodes
    cases stays : cycleNode node with
    | none =>
      have less : ofNat ((node :: rest).length + more) - 1 =
          ofNat (rest.length + more) := by
        rw [length_cons, Nat.add_right_comm, ofNat_add]
        exact UInt8.add_sub_cancel _ _
      simp only [less, ih, filterMap_cons, stays]
    | some =>
      have one := ih (more + 1)
      simp only [filterMap_cons, stays, length_cons]
      rw [Nat.add_right_comm, Nat.add_assoc, one, Nat.add_right_comm, Nat.add_assoc]

/-! ### Whole runs -/

/-- What holds of the list in every careful run. -/
structure SendList.Ok (l : SendList) : Prop where
  counted : l.Counted
  room : l.sendlist.length ≤ l.maxcount.toNat
  pending : ∀ node ∈ l.sendlist, node.Pending ∧ node.seq < l.made

/-- The node `seq`, if it is still there, leaves before `n` more cycles have passed. -/
def SendList.Due (l : SendList) (seq n : Nat) : Prop :=
  seq < l.made ∧ ∀ node ∈ l.sendlist, node.seq = seq → node.left ≤ n

variable {seq n : Nat}

/-- What arrives keeps the list in order. -/
theorem Received.ok (received : Received l l') (ok : l.Ok) : l'.Ok where
  counted := received.counted ok.counted
  room := by
    rw [received.maxcount]
    exact received.length.trans ok.room
  pending node' inList := by
    rw [received.made]
    obtain ⟨node, there, rfl | ⟨all, rfl⟩⟩ := received.nodes node' inList
    · exact ok.pending node' there
    obtain ⟨pending, low⟩ := ok.pending node there
    refine ⟨?_, low⟩
    cases pending with
    | retries unacked few doubled waits => exact absurd (all ▸ few) (by decide)
    | lasts all waits => exact .lasts all waits

theorem Received.due (received : Received l l') (due : l.Due seq n) : l'.Due seq n := by
  refine ⟨received.made ▸ due.1, ?_⟩
  intro node' inList same
  obtain ⟨node, there, rfl | ⟨all, rfl⟩⟩ := received.nodes node' inList
  · exact due.2 node' there same
  · exact due.2 node there same

/-- A cycle brings a message closer to its end. -/
theorem cycle_ok (late : LateAcks l received) (ok : l.Ok) : (coapMessageCycle l received).Ok ∧
      (l.Due seq (n + 1) → (coapMessageCycle l received).Due seq n) := by
  have before := recv_received late
  have ok' := before.ok ok
  have kept : ∀ node' ∈ (coapMessageCycle l received).sendlist,
      ∃ node ∈ (coapMessageRecv l received).sendlist, node'.Pending ∧
        node'.left + 1 = node.left ∧ node'.seq = node.seq := by
    intro node' inList
    rw [coapMessageCycle, cycleNodes_eq] at inList
    obtain ⟨node, there, stays⟩ := mem_filterMap.mp inList
    exact ⟨node, there, cycleNode_pending (ok'.pending node there).1 stays⟩
  refine ⟨⟨?_, ?_, ?_⟩, ?_⟩
  · have counted := cycleNodes_counted (coapMessageRecv l received).sendlist 0
    unfold SendList.Counted coapMessageCycle
    simp only [cycleNodes_eq]
    rw [ok'.counted]
    exact counted
  · have room := ok'.room
    simp only [coapMessageCycle, cycleNodes_eq]
    exact (length_filterMap_le _ _).trans room
  · intro node' inList
    obtain ⟨node, there, pending, -, same⟩ := kept node' inList
    exact ⟨pending, same ▸ (ok'.pending node there).2⟩
  · intro due
    obtain ⟨low, leaves⟩ := before.due due
    refine ⟨low, ?_⟩
    intro node' inList same
    obtain ⟨node, there, -, left, seq'⟩ := kept node' inList
    have bound := leaves node there (seq'.symm.trans same)
    omega

/-- A new message does not delay the others. -/
theorem send_ok {written malloc : Bool}
    (room : message.Queued → l.sendlist.length < l.maxcount.toNat) (ok : l.Ok) :
    (coapMessageSend l message written malloc).Ok ∧
      (l.Due seq n → (coapMessageSend l message written malloc).Due seq n) := by
  unfold coapMessageSend
  split
  · exact ⟨ok, id⟩
  split
  · next queued =>
    unfold coapMessageListAdd
    cases malloc
    case false => exact ⟨ok, id⟩
    rw [if_pos rfl]
    rw [if_neg (by decide)]
    refine ⟨⟨?_, ?_, ?_⟩, fun due => ⟨Nat.lt_succ_of_lt due.1, ?_⟩⟩
    · have counted : l.count = _ := ok.counted
      unfold SendList.Counted
      simp only [length_append, length_singleton, ofNat_add, counted]
      rfl
    · simp only [length_append, length_singleton]
      exact room queued.2
    · intro node inList
      rcases mem_append.mp inList with old | new
      · exact ⟨(ok.pending node old).1, Nat.lt_succ_of_lt (ok.pending node old).2⟩
      rw [mem_singleton.mp new]
      refine ⟨?_, Nat.lt_succ_self _⟩
      by_cases con : message.type = .con
      · simp only [con, if_true]
        exact .retries rfl (Nat.zero_le _) rfl le_rfl
      · simp only [con, if_false]
        exact .lasts rfl le_rfl
    · intro node inList same
      rcases mem_append.mp inList with old | new
      · exact due.2 node old same
      · rw [mem_singleton.mp new] at same
        exact absurd same due.1.ne'
  · exact ⟨ok, id⟩

/-- A careful call keeps the list in order, and a cycle brings every node closer to its end. -/
theorem exec_ok (seq n : Nat) {c : Call} (careful : c.Careful l) (ok : l.Ok) :
    (c.exec l).Ok ∧ (l.Due seq (n + c.isCycle.toNat) → (c.exec l).Due seq n) := by
  cases c with
  | send => exact send_ok careful ok
  | recv =>
    have late := recv_received careful
    exact ⟨late.ok ok, late.due⟩
  | cycle => exact cycle_ok careful ok

/-- The cycles of a run count down for every message. -/
theorem run_due {calls : List Call} (may : (client.restrict Call.Careful).Runs l calls) (ok : l.Ok)
    (due : l.Due seq (n + calls.countP Call.isCycle)) :
    (client.run l calls).Ok ∧ (client.run l calls).Due seq n := by
  induction calls generalizing l with
  | nil => exact ⟨ok, due⟩
  | cons c calls ih =>
    have step := exec_ok seq (n + calls.countP Call.isCycle) may.1.2 ok
    refine ih may.2 step.1 (step.2 ?_)
    rw [countP_cons] at due
    cases here : c.isCycle <;> simpa [here, Nat.add_assoc] using due

/-- The list is in order in every run. -/
theorem reach_ok (reach : (client.restrict Call.Careful).Reach l) : l.Ok := by
  refine reach.invariant ?_ ?_
  · rintro l ⟨count, empty⟩
    refine ⟨?_, ?_, ?_⟩
    · rw [SendList.Counted, count, empty]
      rfl
    · simp [empty]
    · simp [empty]
  · intro l c ok may
    exact (exec_ok 0 0 may.2 ok).1

/-- A confirmable request with the token 7. -/
def request (msgid : Nat) : Message := { type := .con, code := 1, msgid, token := [7], len := 5 }

def ackOf (msgid : Nat) : Message := { type := .ack, code := 0, msgid, token := [], len := 4 }

def SendList.empty (maxcount : UInt8) : SendList := ⟨0, maxcount, [], 0⟩

end AliosThings.Coap
