import AliosThings.Lib.Bytes

/-!
# Packets on the stream

`iotx_mc_send_packet` writes a packet to the transport until all of it is sent, its time is over or
a write fails. Each round offers `length` bytes from `&buf[sent]` on, also when only
`length - sent` bytes of the packet are left. After a short write the transport may therefore send
bytes that lie behind the packet in memory; `packet_sent_iff` says exactly when it does not.
`iotx_mc_read_packet` reads one packet. The pointers are taken to be valid.
-/

namespace AliosThings.Mqtt

/-- What decides a round of the loop: whether the time is over, and how many of the bytes offered
`write` sends (`none`: it fails). -/
structure Round where
  expired : Bool := false
  write : Option Nat

/-- `SUCCESS_RETURN` and `MQTT_NETWORK_ERROR`. -/
inductive SendResult where
  | success
  | networkError
  deriving DecidableEq

variable (net : Nat → Round) (mem : Mem) (buf length : Nat)

/-- The loop from round `i` on, with the bytes put onto the stream so far. -/
def sendLoop : Nat → Nat → Nat → Bytes → Option (Nat × Bytes)
  | 0, _, _, _ => none
  | fuel + 1, i, sent, stream =>
    if sent < length ∧ (net i).expired = false then
      match (net i).write with
      | none => some (sent, stream)
      | some rc =>
        sendLoop fuel (i + 1) (sent + rc) (stream ++ (mem.readBytes (buf + sent) length).take rc)
    else some (sent, stream)

/-- What the call returns and what it puts onto the stream; `none` when the loop is still running
after `length + 1` rounds. -/
def iotxMcSendPacket : Option (SendResult × Bytes) :=
  match sendLoop net mem buf length (length + 1) 0 0 [] with
  | none => none
  | some (sent, stream) => some (if sent = length then .success else .networkError, stream)

/-- `write(p, n)` sends 1 to `n` bytes, or fails. -/
def Writes : Prop := ∀ i rc, (net i).write = some rc → 1 ≤ rc ∧ rc ≤ length

/-- The bytes sent in the rounds before round `i`. -/
def sentBefore : Nat → Nat
  | 0 => 0
  | i + 1 => sentBefore i + (net i).write.getD 0

/-- Round `i` is made: those before it have not failed, and before it and them the time was not over
and a part of the packet was left. -/
def Made (i : Nat) : Prop :=
  (∀ j < i, (net j).write.isSome) ∧ ∀ j ≤ i, sentBefore net j < length ∧ (net j).expired = false

/-- No write that is made sends more than the part of the packet that is left. -/
def Within : Prop := ∀ i, Made net length i → sentBefore net (i + 1) ≤ length

variable {net length}

/-- Where the loop stops, its rounds were within the packet exactly if the last one was. -/
theorem within_of_stop {i : Nat} (made : ∀ j < i, Made net length j)
    (stop : ¬ (sentBefore net i < length ∧ (net i).expired = false)) :
    sentBefore net i ≤ length ↔ Within net length := by
  constructor
  · intro inside k here
    rcases Nat.lt_trichotomy (k + 1) i with before | rfl | after
    · exact ((made (k + 1) before).2 (k + 1) le_rfl).1.le
    · exact inside
    · exact absurd (here.2 i (by omega)) stop
  · intro within
    cases i with
    | zero => exact Nat.zero_le _
    | succ i => exact within i (made i (Nat.lt_succ_self i))

/-- The stream is at all times what memory has from the packet's start on. Every round but the last
sends a byte at least, so that the loop ends before its rounds are used up. -/
theorem sendLoop_sends (writes : Writes net length) :
    ∀ fuel i sent, sent = sentBefore net i → (∀ j < i, Made net length j) →
      (∀ j < i, (net j).write.isSome) → length - sent < fuel →
      ∃ total, (total ≤ length ↔ Within net length) ∧
        sendLoop net mem buf length fuel i sent (mem.readBytes buf sent) =
          some (total, mem.readBytes buf total) := by
  intro fuel
  induction fuel with
  | zero =>
    intro i sent _ _ _ enough
    omega
  | succ fuel ih =>
    rintro i sent rfl made wrote enough
    unfold sendLoop
    by_cases goes : sentBefore net i < length ∧ (net i).expired = false
    · rw [if_pos goes]
      have now : Made net length i := by
        refine ⟨wrote, fun j upTo => ?_⟩
        rcases Nat.lt_or_eq_of_le upTo with before | rfl
        · exact (made j before).2 j le_rfl
        · exact goes
      cases write : (net i).write
      case none =>
        refine ⟨_, iff_of_true goes.1.le fun k here => ?_, rfl⟩
        rcases Nat.lt_trichotomy k i with before | rfl | after
        · exact (now.2 (k + 1) before).1.le
        · rw [sentBefore, write]
          exact goes.1.le
        · have sends := here.1 i after
          rw [write] at sends
          cases sends
      case some rc =>
      obtain ⟨some_, offered⟩ := writes i rc write
      have after : sentBefore net i + rc = sentBefore net (i + 1) := by
        rw [sentBefore, write]
        rfl
      dsimp only
      rw [Mem.readBytes_take _ _ offered, ← Mem.readBytes_add]
      refine ih (i + 1) _ after (fun j upTo => ?_) (fun j upTo => ?_) (by omega)
      · rcases Nat.lt_or_eq_of_le (Nat.le_of_lt_succ upTo) with before | rfl
        · exact made j before
        · exact now
      · rcases Nat.lt_or_eq_of_le (Nat.le_of_lt_succ upTo) with before | rfl
        · exact wrote j before
        · rw [write]
          rfl
    · rw [if_neg goes]
      exact ⟨_, within_of_stop made goes, rfl⟩

/-- The packet is sent exactly if no write that is made goes beyond its end. -/
theorem packet_sent_iff (writes : Writes net length) :
    (∃ rc stream, iotxMcSendPacket net mem buf length = some (rc, stream) ∧
      stream <+: mem.readBytes buf length ∧
      (rc = .success ↔ stream = mem.readBytes buf length)) ↔ Within net length := by
  obtain ⟨total, inside, loop⟩ := sendLoop_sends mem buf writes (length + 1) 0 0 rfl nofun nofun
    (by omega)
  rw [Mem.readBytes_zero] at loop
  rw [← inside, iotxMcSendPacket, loop]
  constructor
  · rintro ⟨_, _, ⟨⟩, part, -⟩
    simpa using part.length_le
  intro short
  refine ⟨_, _, rfl, ?_, ?_⟩
  · rw [← Mem.readBytes_take _ _ short]
    exact List.take_prefix _ _
  · by_cases all : total = length
    · simp [all]
    · have short : mem.readBytes buf total ≠ mem.readBytes buf length := by
        intro same
        have lengths := congrArg List.length same
        rw [Mem.readBytes_length, Mem.readBytes_length] at lengths
        exact all lengths
      simp [all, short]

/-- Two bytes, sent one at a time. -/
theorem packet_sent_bytewise :
    ∃ rc stream, iotxMcSendPacket (fun _ => { write := some 1 }) (fun _ => 7) 0 2 =
      some (rc, stream) ∧ stream <+: [7, 7] ∧ (rc = .success ↔ stream = [7, 7]) := by
  refine (packet_sent_iff (fun _ => 7) 0 ?_).mpr fun i made => (made.2 i le_rfl).1
  intro i rc write
  cases write
  decide

/-- The first write sends one of the two bytes of the packet, the second one all that it is
offered: the byte 9 behind the packet reaches the stream. -/
theorem packet_overrun :
    Writes (fun i => { write := some (if i = 0 then 1 else 2) }) 2 ∧
    iotxMcSendPacket (fun i => { write := some (if i = 0 then 1 else 2) })
      (fun a => if a < 2 then 7 else 9) 0 2 = some (.networkError, [7, 7, 9]) ∧
    ¬ [7, 7, 9] <+: Mem.readBytes (fun a => if a < 2 then 7 else 9) 0 2 := by
  refine ⟨?_, by decide, by decide⟩
  intro i rc write
  cases write
  by_cases first : i = 0 <;> simp [first]

/-! ## Reading a packet

It reads a header byte, the remaining length, which it encodes again into the read buffer, and the
rest of the packet. A packet that does not fit the buffer is read and dropped, the event
`IOTX_MQTT_EVENT_BUFFER_OVERFLOW` is raised, and the call returns success without a packet type.
`iotx_mc_cycle` then looks at a local variable that nothing has set; its value is an argument of
`iotxMcCycle` here. The handlers of the packet types only read the buffer: what they are shown of
it is recorded. Someone listens for the events. -/

open List

/-- What a cycle does: the case of its switch for a packet type, with the read buffer, or the
overflow event. -/
inductive CycleEvent where
  | dispatched (packetType : Nat) (bufRead : Bytes)
  | bufferOverflow
  deriving DecidableEq

/-- `iotx_mc_client_t`, with the bytes that the transport still has to deliver. -/
structure Client where
  stream : Bytes
  bufRead : Mem
  connected : Bool := true
  keepaliveProbes : Nat := 0
  pingMark : Bool := false
  events : List CycleEvent := []

/-- `MQTTPacket_encode`: digits of seven bits. An `int` has at most five of them. -/
def mqttPacketEncode : Nat → Nat → Bytes
  | 0, _ => []
  | fuel + 1, length =>
    if length / 128 > 0 then
      .ofNat (length % 128 + 128) :: mqttPacketEncode fuel (length / 128)
    else [.ofNat (length % 128)]

/-- `iotx_mc_decode_packet` with `more` bytes still allowed: the length, if it is not an error, and
the rest of the stream. -/
def iotxMcDecodePacket : Nat → Nat → Nat → Bytes → Option Nat × Bytes
  | 0, _, _, stream => (none, stream)
  | _ + 1, _, _, [] => (none, [])
  | more + 1, multiplier, value, i :: stream =>
    if i.toNat / 128 ≠ 0 then
      iotxMcDecodePacket more (multiplier * 128) (value + i.toNat % 128 * multiplier) stream
    else (some (value + i.toNat % 128 * multiplier), stream)

/-- The sizes of the read buffer: a fixed header, of up to five bytes, has room in it. -/
abbrev BufSize := { n : Nat // 5 ≤ n }

namespace Client

variable (size : BufSize) (packetType : Nat) (alloc : Bool) (c : Client)

/-- `read` of `n` bytes, or of those there are, into the buffer at `off`. -/
def read (off n : Nat) : Client :=
  { c with stream := c.stream.drop n, bufRead := c.bufRead.writeBytes off (c.stream.take n) }

/-- The packet does not fit: the buffer is filled, the other bytes are read into memory from
`mqtt_malloc` and dropped. The packet type stays as it is. -/
def dropPacket (len remLen : Nat) : Option Nat × Client :=
  let needReadLen := size.1 - len
  let remainDataLen := remLen - needReadLen
  let filled := c.read len needReadLen
  if needReadLen ≤ c.stream.length ∧ alloc = true then
    let dropped := { filled with stream := filled.stream.drop remainDataLen }
    if remainDataLen ≤ filled.stream.length then
      (some packetType, { dropped with events := c.events ++ [.bufferOverflow] })
    else (none, dropped)
  else (none, filled)

/-- The packet type, which is `packetType` before the call, and the client; `none` is an error. -/
def iotxMcReadPacket : Option Nat × Client :=
  if c.stream = [] then (some 0, c)
  else
    let c := c.read 0 1
    match iotxMcDecodePacket 4 1 0 c.stream with
    | (none, stream) => (none, { c with stream })
    | (some remLen, stream) =>
      let digits := mqttPacketEncode 5 remLen
      let len := 1 + digits.length
      let c := { c with stream, bufRead := c.bufRead.writeBytes 1 digits }
      if remLen > 0 ∧ remLen + len > size.1 then c.dropPacket size packetType alloc len remLen
      else
        let whole := c.read len remLen
        if remLen ≤ c.stream.length then
          (some ((whole.bufRead 0).toNat / 16),
            if len + remLen < size.1 then
              { whole with bufRead := whole.bufRead.writeBytes (len + remLen) [0] }
            else whole)
        else (none, whole)

/-- `IOTX_MC_KEEPALIVE_PROBE_MAX`. -/
def keepaliveProbeMax : Nat := 3

def iotxMcCycle : Client :=
  if c.connected = false then c
  else
    let c := if keepaliveProbeMax < c.keepaliveProbes then
      { c with connected := false, keepaliveProbes := 0 } else c
    match c.iotxMcReadPacket size packetType alloc with
    | (none, c) => { c with connected := false }
    | (some packetType, c) =>
      if packetType = 0 then c
      else { c with
        pingMark := false, keepaliveProbes := 0
        events := c.events ++ [.dispatched packetType (c.bufRead.readBytes 0 size.1)] }

end Client

/-- A packet as the protocol has it. -/
structure Packet where
  header : UInt8
  payload : Bytes

namespace Packet

def digits (p : Packet) : Bytes := mqttPacketEncode 5 p.payload.length

def wire (p : Packet) : Bytes := p.header :: p.digits ++ p.payload

/-- The type is not one of the two reserved ones, and four digits are enough for the length. -/
def WellFormed (p : Packet) : Prop :=
  1 ≤ p.header.toNat / 16 ∧ p.header.toNat / 16 < 15 ∧ p.payload.length < 128 ^ 4

def Fits (p : Packet) (size : BufSize) : Prop := p.wire.length ≤ size.1

end Packet

/-- A call of `iotx_mc_cycle`: the packet it meets, what its local variable holds at the start, and
whether memory can be had. -/
structure Turn where
  packet : Packet
  packetType : Nat
  alloc : Bool := true

/-- A packet that fits is shown to the case for its type, one that does not fit raises the event
and does no more. -/
inductive Turn.Shown (size : BufSize) (turn : Turn) : CycleEvent → Prop
  | dispatched {buf : Bytes} (fits : turn.packet.Fits size) (starts : turn.packet.wire <+: buf) :
      Shown size turn (.dispatched (turn.packet.header.toNat / 16) buf)
  | overflow (large : ¬ turn.packet.Fits size) : Shown size turn .bufferOverflow

theorem iotxMcDecodePacket_encode (rest : Bytes) : ∀ more fuel length multiplier value,
    length < 128 ^ more → more ≤ fuel → 0 < more →
      iotxMcDecodePacket more multiplier value (mqttPacketEncode fuel length ++ rest) =
        (some (value + length * multiplier), rest) := by
  intro more
  induction more with
  | zero =>
    intro fuel length multiplier value _ _ positive
    omega
  | succ more ih =>
    intro fuel length multiplier value small enough _
    obtain ⟨fuel, rfl⟩ : ∃ k, fuel = k + 1 := ⟨fuel - 1, by omega⟩
    have parts := Nat.div_add_mod length 128
    unfold mqttPacketEncode
    by_cases longer : length / 128 > 0
    · have digit : (UInt8.ofNat (length % 128 + 128)).toNat = length % 128 + 128 := by
        rw [UInt8.toNat_ofNat']
        omega
      have small' : length / 128 < 128 ^ more := by
        rw [Nat.div_lt_iff_lt_mul (by decide)]
        exact small
      have positive : 0 < more := by
        rcases Nat.eq_zero_or_pos more with zero | positive
        · rw [zero] at small'
          omega
        · exact positive
      rw [if_pos longer, cons_append, iotxMcDecodePacket, digit, if_pos (by omega),
        ih fuel (length / 128) (multiplier * 128) _ small' (by omega) positive]
      have low : (length % 128 + 128) % 128 = length % 128 := by omega
      rw [low, Nat.add_assoc]
      congr 3
      calc length % 128 * multiplier + length / 128 * (multiplier * 128)
          = (128 * (length / 128) + length % 128) * multiplier := by ring
        _ = length * multiplier := by rw [parts]
    · have digit : (UInt8.ofNat (length % 128)).toNat = length := by
        rw [UInt8.toNat_ofNat']
        omega
      rw [if_neg longer, cons_append, iotxMcDecodePacket, digit, if_neg (by omega),
        Nat.mod_eq_of_lt (by omega), nil_append]

namespace Client

variable {size : BufSize} {packetType : Nat} {alloc : Bool} {c : Client} {p : Packet} {rest : Bytes}

/-- The client when the fixed header of `p` has been read. -/
def atPayload (c : Client) (p : Packet) (rest : Bytes) : Client :=
  { c with
    stream := p.payload ++ rest
    bufRead := (c.bufRead.writeBytes 0 [p.header]).writeBytes 1 p.digits }

theorem iotxMcReadPacket_eq (valid : p.WellFormed) (stream : c.stream = p.wire ++ rest) :
    c.iotxMcReadPacket size packetType alloc =
      let len := 1 + p.digits.length
      let whole := (c.atPayload p rest).read len p.payload.length
      if p.payload.length > 0 ∧ p.payload.length + len > size.1 then
        (c.atPayload p rest).dropPacket size packetType alloc len p.payload.length
      else
        (some ((whole.bufRead 0).toNat / 16),
          if len + p.payload.length < size.1 then
            { whole with bufRead := whole.bufRead.writeBytes (len + p.payload.length) [0] }
          else whole) := by
  have shape : c.stream = p.header :: (p.digits ++ (p.payload ++ rest)) := by
    rw [stream, Packet.wire, cons_append, cons_append, append_assoc]
  have decoded := iotxMcDecodePacket_encode (p.payload ++ rest) 4 5 _ 1 0 valid.2.2 (by decide)
    (by decide)
  rw [Nat.zero_add, Nat.mul_one] at decoded
  have inside : p.payload.length ≤ (p.payload ++ rest).length := by simp
  simp only [iotxMcReadPacket, read, shape, drop_one, tail_cons, Packet.digits, decoded,
    atPayload, inside, if_true, reduceCtorEq, if_false, take_succ_cons, take_zero]
  rfl

theorem wire_stored (mem : Mem) (p : Packet) :
    (((mem.writeBytes 0 [p.header]).writeBytes 1 p.digits).writeBytes (1 + p.digits.length)
      p.payload).readBytes 0 (1 + p.digits.length + p.payload.length) = p.wire := by
  rw [Mem.readBytes_add, Nat.zero_add, Mem.readBytes_writeBytes,
    Mem.readBytes_writeBytes_disjoint (.inl (by omega)), Mem.readBytes_add, Nat.zero_add,
    Mem.readBytes_writeBytes, Mem.readBytes_writeBytes_disjoint (.inl (by omega))]
  rfl

theorem iotxMcReadPacket_fits (valid : p.WellFormed) (stream : c.stream = p.wire ++ rest)
    (fits : p.Fits size) :
    ∃ buf, c.iotxMcReadPacket size packetType alloc =
        (some (p.header.toNat / 16), { c with stream := rest, bufRead := buf }) ∧
      p.wire <+: buf.readBytes 0 size.1 := by
  have total : p.wire.length = 1 + p.digits.length + p.payload.length := by
    simp only [Packet.wire, cons_append, length_cons, length_append]
    omega
  have inside : 1 + p.digits.length + p.payload.length ≤ size.1 := total ▸ fits
  have stored := wire_stored c.bufRead p
  have type : (((c.bufRead.writeBytes 0 [p.header]).writeBytes 1 p.digits).writeBytes
      (1 + p.digits.length) p.payload) 0 = p.header := by
    rw [Mem.writeBytes_outside (.inl (by omega)), Mem.writeBytes_outside (.inl (by omega))]
    exact Mem.writeBytes_inside c.bufRead 0 [p.header] 0 (by simp)
  have starts : ∀ {mem : Mem}, mem.readBytes 0 (1 + p.digits.length + p.payload.length) = p.wire →
      p.wire <+: mem.readBytes 0 size.1 := by
    intro mem same
    rw [← same, ← Mem.readBytes_take _ _ inside]
    exact take_prefix _ _
  rw [iotxMcReadPacket_eq valid stream]
  simp only [read, atPayload, drop_left, take_left, type]
  rw [if_neg (by omega)]
  by_cases shorter : 1 + p.digits.length + p.payload.length < size.1
  · rw [if_pos shorter]
    refine ⟨_, rfl, starts ?_⟩
    rw [Mem.readBytes_writeBytes_disjoint (.inl (by omega))]
    exact stored
  · rw [if_neg shorter]
    exact ⟨_, rfl, starts stored⟩

theorem iotxMcReadPacket_drops (valid : p.WellFormed) (stream : c.stream = p.wire ++ rest)
    (large : ¬ p.Fits size) :
    ∃ buf, c.iotxMcReadPacket size packetType true = (some packetType,
      { c with stream := rest, bufRead := buf, events := c.events ++ [.bufferOverflow] }) := by
  have exceeds : size.1 < 1 + p.digits.length + p.payload.length := by
    have more := Nat.lt_of_not_le large
    simp only [Packet.wire, cons_append, length_cons, length_append] at more
    omega
  have some_ : p.payload.length > 0 := by
    apply Nat.pos_of_ne_zero
    intro none_
    have room := size.2
    rw [Packet.digits, none_] at exceeds
    exact absurd exceeds (Nat.not_lt.mpr ((by decide : _ ≤ 5).trans room))
  rw [iotxMcReadPacket_eq valid stream]
  simp only [dropPacket, read, atPayload, length_drop, length_append, drop_drop]
  have filled : size.1 - (1 + p.digits.length) ≤ p.payload.length + rest.length := by omega
  have dropped : p.payload.length - (size.1 - (1 + p.digits.length)) ≤
      p.payload.length + rest.length - (size.1 - (1 + p.digits.length)) := by omega
  have position : size.1 - (1 + p.digits.length) +
      (p.payload.length - (size.1 - (1 + p.digits.length))) = p.payload.length := by omega
  rw [if_pos ⟨some_, by omega⟩, if_pos ⟨filled, trivial⟩, if_pos dropped, position, drop_left]
  exact ⟨_, rfl⟩

/-- One call, on a stream that starts with the packet of the turn. -/
theorem iotxMcCycle_shown {turn : Turn} (valid : turn.packet.WellFormed)
    (unset : ¬ turn.packet.Fits size → turn.packetType = 0 ∧ turn.alloc = true)
    (stream : c.stream = turn.packet.wire ++ rest) (connected : c.connected = true)
    (probes : c.keepaliveProbes ≤ keepaliveProbeMax) :
    ∃ event c', c.iotxMcCycle size turn.packetType turn.alloc = c' ∧ turn.Shown size event ∧
      c'.events = c.events ++ [event] ∧ c'.stream = rest ∧ c'.connected = true ∧
      c'.keepaliveProbes ≤ keepaliveProbeMax := by
  have alive : ¬ c.connected = false := by
    rw [connected]
    decide
  unfold iotxMcCycle
  rw [if_neg alive]
  dsimp only
  rw [if_neg (Nat.not_lt.mpr probes)]
  by_cases fits : turn.packet.Fits size
  · obtain ⟨buf, read, starts⟩ := iotxMcReadPacket_fits valid stream fits
    rw [read]
    dsimp only
    rw [if_neg (Nat.ne_of_gt valid.1)]
    exact ⟨_, _, rfl, .dispatched fits starts, rfl, rfl, connected, Nat.zero_le _⟩
  · obtain ⟨zero, alloc⟩ := unset fits
    obtain ⟨buf, read⟩ := iotxMcReadPacket_drops valid stream fits
    rw [alloc, read]
    dsimp only
    rw [if_pos zero]
    exact ⟨_, _, rfl, .overflow fits, rfl, rfl, connected, probes⟩

end Client

variable {size : BufSize}

/-- The calls that `turns` are, one after the other. -/
def cycles (size : BufSize) (c : Client) (turns : List Turn) : Client :=
  turns.foldl (fun c turn => c.iotxMcCycle size turn.packetType turn.alloc) c

theorem packets_framed : ∀ (turns : List Turn) (c : Client) (rest : Bytes), c.connected = true →
    c.keepaliveProbes ≤ Client.keepaliveProbeMax →
    (∀ turn ∈ turns, turn.packet.WellFormed) →
    (∀ turn ∈ turns, ¬ turn.packet.Fits size → turn.packetType = 0 ∧ turn.alloc = true) →
    c.stream = turns.flatMap (fun turn => turn.packet.wire) ++ rest →
    (cycles size c turns).stream = rest ∧
      ∃ events, (cycles size c turns).events = c.events ++ events ∧
        Forall₂ (Turn.Shown size) turns events := by
  intro turns
  induction turns with
  | nil =>
    intro c rest _ _ _ _ stream
    exact ⟨stream, [], (append_nil _).symm, .nil⟩
  | cons turn _ ih =>
    intro c rest connected probes valid unset stream
    rw [flatMap_cons, append_assoc] at stream
    obtain ⟨event, c', call, shown, events, stream', connected', probes'⟩ :=
      Client.iotxMcCycle_shown (valid turn (.head _)) (unset turn (.head _)) stream connected probes
    obtain ⟨position, later, events', shown'⟩ := ih c' rest connected' probes'
      (fun t mem => valid t (.tail _ mem)) (fun t mem => unset t (.tail _ mem)) stream'
    rw [cycles, foldl_cons, call]
    refine ⟨position, event :: later, ?_, .cons shown shown'⟩
    rw [← cycles, events', events, append_assoc]
    rfl

/-- Six bytes published, too many for a read buffer of five bytes. -/
def largePacket : Packet := ⟨0x30, [1, 2, 3, 4, 5, 6]⟩

/-- A `PINGRESP`, and a packet that is too large while the variable holds zero. -/
theorem packets_framed_two :
    let turns : List Turn := [⟨⟨0xD0, []⟩, 3, true⟩, ⟨largePacket, 0, true⟩]
    let c : Client :=
      { stream := turns.flatMap fun turn => turn.packet.wire, bufRead := fun _ => 0 }
    (cycles ⟨5, le_rfl⟩ c turns).stream = [] ∧
      ∃ events, (cycles ⟨5, le_rfl⟩ c turns).events = c.events ++ events ∧
        Forall₂ (Turn.Shown ⟨5, le_rfl⟩) turns events := by
  apply packets_framed
  · rfl
  · exact Nat.zero_le _
  · unfold Packet.WellFormed
    decide
  · unfold Packet.Fits
    decide
  · exact (append_nil _).symm

/-- The variable holds 3, the type of `PUBLISH`: after the event the packet that was dropped is
handled as a publish. -/
theorem overflow_dispatched :
    (cycles ⟨5, le_rfl⟩ { stream := largePacket.wire, bufRead := fun _ => 0 }
      [⟨largePacket, 3, true⟩]).events =
        [.bufferOverflow, .dispatched 3 [0x30, 6, 1, 2, 3]] := by
  decide

end AliosThings.Mqtt
