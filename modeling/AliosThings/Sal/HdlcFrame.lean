import AliosThings.Sal.Hdlc

/-!
# A frame, encoded and decoded

What `encode_hdlc` writes is known exactly (`encodeHdlc_spec`), and so is what a decoder between
frames makes of it (`decodeAll_frame`): the payload goes into the raw ring, behind whatever earlier
frames left there, and as many bytes as the payload has are moved from the front of the raw ring to
the decoded ring. The round trip is thus exact when the raw ring was empty. It is not when an
earlier payload, or a part of it, had found no room in the decoded ring: the flag of the next frame
forgets how long that part is, and its bytes are delivered in place of the new ones.
-/

namespace AliosThings.Sal

open List Option UInt16 EncodeContext

/-! ## The checksum -/

/-- The index into the table is a byte. -/
theorem fcs16Byte_eq (fcs : UInt16) (byte : UInt8) :
    fcs16Byte fcs byte = (fcs >>> 8) ^^^ fcs16tab.getD (fcs.toUInt8 ^^^ byte).toNat 0 := by
  have index : ((fcs ^^^ byte.toUInt16) &&& 0xff).toNat = (fcs.toUInt8 ^^^ byte).toNat := by
    have low : (fcs ^^^ byte.toUInt16).toNat &&& 255 = (fcs ^^^ byte.toUInt16).toNat % 2 ^ 8 :=
      Nat.and_two_pow_sub_one_eq_mod _ 8
    have small : byte.toNat % 2 ^ 8 = byte.toNat := Nat.mod_eq_of_lt byte.toNat_lt
    rw [UInt16.toNat_and, UInt8.toNat_xor, UInt16.toNat_toUInt8]
    refine low.trans ?_
    rw [UInt16.toNat_xor, Nat.xor_mod_two_pow, UInt8.toNat_toUInt16, small]
  rw [fcs16Byte, index]

/-- The two bytes written after a payload. -/
def fcsBytes (fcs : UInt16) : Bytes :=
  [((fcs ^^^ 0xffff) &&& 0xff).toUInt8, ((fcs ^^^ 0xffff) >>> 8).toUInt8]

/-- The checksum of a payload and its own two bytes is `GOOD_FCS16`: only the entries 0xff and 0x87
of the table matter. -/
theorem fcs16_fcsBytes (fcs : UInt16) : fcs16 fcs (fcsBytes fcs) = goodFcs16 := by
  have low : ((fcs ^^^ 0xffff) &&& 0xff).toUInt8 = fcs.toUInt8 ^^^ 0xff := by
    rw [toUInt8_and, toUInt8_xor]
    exact UInt8.and_neg_one
  have high : ((fcs ^^^ 0xffff) >>> 8).toUInt8 = (fcs >>> 8).toUInt8 ^^^ 0xff := by
    rw [shiftRight_xor, toUInt8_xor]
    rfl
  have first : fcs16Byte fcs ((fcs ^^^ 0xffff) &&& 0xff).toUInt8 = fcs >>> 8 ^^^ 0x0f78 := by
    rw [fcs16Byte_eq, low, ← UInt8.xor_assoc, UInt8.xor_self, UInt8.zero_xor]
    rfl
  have index : (fcs >>> 8 ^^^ 0x0f78).toUInt8 ^^^ ((fcs ^^^ 0xffff) >>> 8).toUInt8 = 0x87 := by
    rw [high, toUInt8_xor, UInt8.xor_comm (fcs >>> 8).toUInt8, UInt8.xor_assoc,
      ← UInt8.xor_assoc (fcs >>> 8).toUInt8, UInt8.xor_self]
    rfl
  have gone : fcs >>> 8 >>> 8 = 0 := by
    have bound := fcs.toNat_lt
    apply UInt16.toNat_inj.mp
    simp only [UInt16.toNat_shiftRight, UInt16.reduceToNat, Nat.reduceMod,
      Nat.shiftRight_eq_div_pow]
    omega
  show fcs16Byte (fcs16Byte fcs _) _ = goodFcs16
  rw [first, fcs16Byte_eq, index, shiftRight_xor, gone]
  rfl

theorem fcs16_append (fcs : UInt16) (as bs : Bytes) :
    fcs16 fcs (as ++ bs) = fcs16 (fcs16 fcs as) bs :=
  foldl_append

/-! ## What the encoder writes -/

/-- The bytes with flags and escape characters escaped. -/
def stuff (bytes : Bytes) : Bytes := bytes.flatMap escape

theorem stuff_append (as bs : Bytes) : stuff (as ++ bs) = stuff as ++ stuff bs := flatMap_append

/-- Stuffing only adds bytes. -/
theorem length_le_stuff (bytes : Bytes) : bytes.length ≤ (stuff bytes).length := by
  induction bytes with
  | nil => exact le_rfl
  | cons byte _ ih =>
    have one : 1 ≤ (escape byte).length := by
      unfold escape
      split <;> simp
    rw [stuff, flatMap_cons, length_append, length_cons]
    exact Nat.add_comm 1 _ ▸ Nat.add_le_add one ih

variable {ctx ctx' e : EncodeContext} {bytes payload raw decoded bs : Bytes} {k : Nat}
  {p : HdlcPort} {ackreq : Bool} {seqno : UInt32}

theorem EncodeContext.encodeByte_spec {byte : UInt8} (encoded : ctx.encodeByte byte = some ctx') :
    ctx' = ⟨ctx.buf ++ stuff [byte], fcs16 ctx.fcs [byte]⟩ := by
  unfold encodeByte at encoded
  split at encoded
  · cases encoded
  · rw [← some.inj encoded, stuff, flatMap_singleton]

/-- The encoder stuffs the bytes and sums them up. -/
theorem EncodeContext.encodeBytes_spec (encoded : ctx.encodeBytes bytes = some ctx') :
    ctx' = ⟨ctx.buf ++ stuff bytes, fcs16 ctx.fcs bytes⟩ := by
  induction bytes generalizing ctx with
  | nil =>
    cases encoded
    simp [stuff, fcs16]
  | cons _ _ ih =>
    obtain ⟨next, first, rest⟩ := bind_eq_some_iff.mp encoded
    rw [ih rest, encodeByte_spec first, append_assoc, ← stuff_append, ← fcs16_append]
    rfl

/-- The frame of a payload. -/
def frame (payload : Bytes) (ackreq : Bool) (seqno : UInt32) : Bytes :=
  frameStart ackreq seqno ++ stuff (payload ++ fcsBytes (fcs16 initFcs16 payload)) ++
    [frameFlag ackreq]

theorem frame_eq (payload : Bytes) (ackreq : Bool) (seqno : UInt32) :
    frame payload ackreq seqno = frameStart ackreq seqno ++ stuff payload ++
      stuff [((fcs16 initFcs16 payload ^^^ 0xffff) &&& 0xff).toUInt8] ++
      stuff [((fcs16 initFcs16 payload ^^^ 0xffff) >>> 8).toUInt8] ++ [frameFlag ackreq] := by
  have both : stuff (fcsBytes (fcs16 initFcs16 payload)) = stuff [_] ++ stuff [_] :=
    stuff_append [_] [_]
  simp only [frame, stuff_append, both, append_assoc]

/-- A frame has at least four bytes around its payload. -/
theorem length_le_frame (payload : Bytes) (ackreq : Bool) (seqno : UInt32) :
    payload.length + 4 ≤ (frame payload ackreq seqno).length := by
  have contents := length_le_stuff (payload ++ fcsBytes (fcs16 initFcs16 payload))
  have start : 1 ≤ (frameStart ackreq seqno).length := by cases ackreq <;> simp [frameStart]
  simp only [fcsBytes, length_append, length_cons, length_nil] at contents
  simp only [frame, length_append, length_singleton, fcsBytes]
  omega

/-- The encoder writes the frame. -/
theorem encodeHdlc_spec (encoded : encodeHdlc payload ackreq seqno = some e) :
    e.buf = frame payload ackreq seqno ∧
      (frame payload ackreq seqno).length ≤ maxHdlcTxBufLen := by
  unfold encodeHdlc at encoded
  split at encoded
  · cases encoded
  obtain ⟨ctx, bytes, encoded⟩ := bind_eq_some_iff.mp encoded
  obtain ⟨ctx', low, encoded⟩ := bind_eq_some_iff.mp encoded
  obtain ⟨ctx'', high, encoded⟩ := bind_eq_some_iff.mp encoded
  obtain rfl := encodeBytes_spec bytes
  obtain rfl := encodeByte_spec low
  obtain rfl := encodeByte_spec high
  split at encoded
  · cases encoded
  rename_i room
  cases encoded
  rw [frame_eq]
  refine ⟨rfl, ?_⟩
  rw [length_append, length_singleton]
  exact Nat.not_le.mp room

/-! ## What the decoder makes of it -/

namespace DecodeContext

/-- The decoder is fed the bytes one by one and no acknowledgement is waited for. -/
def decodeAll (ctx : DecodeContext) : Bytes → DecodeContext × List HdlcEvent
  | [] => (ctx, [])
  | byte :: bytes =>
    let (ctx, events, _) := ctx.decodeInput byte
    let (ctx, events') := ctx.decodeAll bytes
    (ctx, events ++ events')

/-- Bytes are decoded one after the other. -/
theorem decodeAll_append (ctx : DecodeContext) (as bs : Bytes) :
    ctx.decodeAll (as ++ bs) = (((ctx.decodeAll as).1.decodeAll bs).1,
        (ctx.decodeAll as).2 ++ ((ctx.decodeAll as).1.decodeAll bs).2) := by
  induction as generalizing ctx with
  | nil => rfl
  | cons _ _ ih =>
    simp only [cons_append, decodeAll, ih, append_assoc]

/-- Between frames: what lies in the two rings. -/
structure Between (ctx : DecodeContext) (raw decoded : Bytes) : Prop where
  state : ctx.state = .noSync
  rawBuf : ctx.rawBuf.Holds raw
  decodedBuf : ctx.decodedBuf.Holds decoded

/-- Inside a frame that began in `start`: `got` has been collected behind `raw`. -/
structure InFrame (start ctx : DecodeContext) (ackreq : Bool) (seqno : UInt8) (raw got : Bytes) :
    Prop where
  rawBuf : ctx.rawBuf.Holds (raw ++ got)
  length : ctx.rawBuf.length = start.rawBuf.length
  len : ctx.len = got.length
  fcs : ctx.fcs = fcs16 initFcs16 got
  decodedBuf : ctx.decodedBuf = start.decodedBuf
  expectseq : ctx.expectseq = start.expectseq
  asks : ctx.ackreq = ackreq
  recvseq : ackreq = true → ctx.recvseq = seqno

variable {start ctx : DecodeContext}

theorem decodeByte_spec (holds : ctx.rawBuf.Holds bs) (fits : bs.length < ctx.rawBuf.length)
    (byte : UInt8) :
    ∃ rawBuf : Ringbuf, rawBuf.Holds (bs ++ [byte]) ∧ rawBuf.length = ctx.rawBuf.length ∧
      ctx.decodeByte byte = some { ctx with
        rawBuf
        fcs := fcs16 ctx.fcs [byte]
        len := (ctx.len + 1) % 65536
        undecodedLen := ctx.undecodedLen + 1 } := by
  obtain ⟨count, written, length⟩ := holds.write (cons_ne_nil byte []) fits
  refine ⟨(ctx.rawBuf.write [byte]).2, written, length, ?_⟩
  have one : ¬ (ctx.rawBuf.write [byte]).1 ≠ 1 := by simp [count]
  rw [decodeByte]
  dsimp only
  rw [if_neg one]

namespace InFrame

variable {seqno : UInt8} {got : Bytes}

section

variable (inFrame : InFrame start ctx ackreq seqno raw got)
include inFrame

theorem withState (state : RecvState) : InFrame start { ctx with state } ackreq seqno raw got :=
  ⟨inFrame.rawBuf, inFrame.length, inFrame.len, inFrame.fcs, inFrame.decodedBuf,
    inFrame.expectseq, inFrame.asks, inFrame.recvseq⟩

/-- A byte within a frame goes to the raw buffer. -/
theorem decodeByte (fits : raw.length + got.length < start.rawBuf.length)
    (small : got.length + 1 < 65536) (byte : UInt8) :
    ∃ ctx', ctx.decodeByte byte = some ctx' ∧ ctx'.state = ctx.state ∧
      InFrame start ctx' ackreq seqno raw (got ++ [byte]) := by
  obtain ⟨rawBuf, holds, length, eq⟩ := decodeByte_spec inFrame.rawBuf
    (by rwa [length_append, inFrame.length]) byte
  refine ⟨_, eq, rfl, ?_, length.trans inFrame.length, ?_, ?_, inFrame.decodedBuf,
    inFrame.expectseq, inFrame.asks, inFrame.recvseq⟩
  · rwa [append_assoc] at holds
  · show (ctx.len + 1) % 65536 = _
    rw [inFrame.len, Nat.mod_eq_of_lt small, length_append, length_singleton]
  · show fcs16 ctx.fcs [byte] = _
    rw [inFrame.fcs, fcs16_append]

/-- One byte of the frame's contents, escaped or not. -/
theorem escape (sync : ctx.state = .sync) (fits : raw.length + got.length < start.rawBuf.length)
    (small : got.length + 1 < 65536) (byte : UInt8) :
    ∃ ctx', ctx.decodeAll (escape byte) = (ctx', []) ∧ ctx'.state = .sync ∧
      InFrame start ctx' ackreq seqno raw (got ++ [byte]) := by
  unfold Sal.escape
  split
  case isTrue special =>
    have back : byte ^^^ 0x20 ^^^ 0x20 = byte := by
      rw [UInt8.xor_assoc, UInt8.xor_self, UInt8.xor_zero]
    obtain ⟨ctx', eq, -, next⟩ := (inFrame.withState .escaped).decodeByte fits small byte
    refine ⟨{ ctx' with state := .sync }, ?_, rfl, next.withState .sync⟩
    simp [decodeAll, decodeInput, sync, back, eq]
  case isFalse plain =>
    obtain ⟨ctx', eq, state, next⟩ := inFrame.decodeByte fits small byte
    refine ⟨ctx', ?_, state.trans sync, next⟩
    simp only [not_or] at plain
    simp [decodeAll, decodeInput, sync, plain, eq]

/-- The contents of a frame. -/
theorem stuff (sync : ctx.state = .sync)
    (fits : raw.length + got.length + bytes.length ≤ start.rawBuf.length)
    (small : got.length + bytes.length < 65536) :
    ∃ ctx', ctx.decodeAll (stuff bytes) = (ctx', []) ∧ ctx'.state = .sync ∧
      InFrame start ctx' ackreq seqno raw (got ++ bytes) := by
  induction bytes generalizing ctx got with
  | nil => exact ⟨ctx, rfl, sync, by rwa [append_nil]⟩
  | cons byte bytes ih =>
    rw [length_cons] at fits small
    obtain ⟨ctx₁, first, sync₁, inFrame₁⟩ := inFrame.escape sync (by omega) (by omega) byte
    have more : (got ++ [byte]).length = got.length + 1 := by simp
    obtain ⟨ctx₂, rest, sync₂, inFrame₂⟩ := ih inFrame₁ sync₁ (by omega) (by omega)
    refine ⟨ctx₂, ?_, sync₂, ?_⟩
    · show ctx.decodeAll (Sal.escape byte ++ Sal.stuff bytes) = _
      rw [decodeAll_append, first]
      simp only [rest, append_nil]
    · rwa [append_assoc] at inFrame₂

end

end InFrame

/-- The start of a frame. -/
theorem Between.frameStart (between : ctx.Between raw decoded) (ackreq : Bool) (seqno : UInt32) :
    ∃ ctx', ctx.decodeAll (frameStart ackreq seqno) = (ctx', []) ∧ ctx'.state = .sync ∧
      InFrame ctx ctx' ackreq seqno.toUInt8 raw [] := by
  have holds : ctx.rawBuf.Holds (raw ++ []) := by
    rw [append_nil]
    exact between.rawBuf
  cases ackreq with
  | false =>
    refine ⟨{ ctx with state := .sync, len := 0, fcs := initFcs16, ackreq := false }, ?_, rfl,
      holds, rfl, rfl, rfl, rfl, rfl, rfl, nofun⟩
    simp [Sal.frameStart, frameFlag, decodeAll, decodeInput, between.state, flagSequence,
      flagSequenceAckReq]
  | true =>
    let begun : DecodeContext := { ctx with
        state := .sync
        len := 0
        fcs := initFcs16
        ackreq := true
        recvseq := seqno.toUInt8 }
    refine ⟨begun, ?_, rfl, holds, rfl, rfl, rfl, rfl, rfl, rfl, fun _ => rfl⟩
    simp [Sal.frameStart, frameFlag, decodeAll, decodeInput, between.state, flagSequenceAckReq,
      begun]

/-- The end of a frame that is not a repetition: as many bytes as the payload has, if there is room
for them, go from the front of the raw ring to the decoded ring. -/
theorem InFrame.frameEnd {seqno : UInt8}
    (inFrame : InFrame start ctx ackreq seqno raw (payload ++ fcsBytes (fcs16 initFcs16 payload)))
    (holds : start.decodedBuf.Holds decoded) (some : payload ≠ [])
    (new : ackreq = true → seqno ≠ start.expectseq - 1)
    (small : payload.length ≤ Ringbuf.maxHdlcRxBufLen)
    (size : k = min payload.length (start.decodedBuf.length - decoded.length)) :
    ∃ ctx', ctx.frameEnd = (ctx', if ackreq then [.ackSent] else [], true) ∧
      ctx'.Between ((raw ++ payload).drop k) (decoded ++ (raw ++ payload).take k) := by
  have positive : 0 < payload.length := length_pos_iff.mpr some
  have len : ctx.len = payload.length + 2 := by rw [inFrame.len, length_append]; rfl
  have good : ctx.fcs = goodFcs16 := by rw [inFrame.fcs, fcs16_append, fcs16_fcsBytes]
  have fresh : ¬ (ctx.ackreq = true ∧ ctx.recvseq = ctx.expectseq - 1) := by
    rintro ⟨asks, repeated⟩
    rw [inFrame.asks] at asks
    rw [inFrame.recvseq asks, inFrame.expectseq] at repeated
    exact new asks repeated
  have raw' : (ctx.rawBuf.clearFromTail 2).Holds (raw ++ payload) := by
    have holds := inFrame.rawBuf
    rw [← append_assoc] at holds
    exact holds.clearFromTail
  have decoded' : ctx.decodedBuf.Holds decoded := by rwa [inFrame.decodedBuf]
  have size' : k = min payload.length (min (raw ++ payload).length
      (ctx.decodedBuf.length - decoded.length)) := by
    rw [inFrame.decodedBuf, length_append]
    omega
  obtain ⟨into, left⟩ := decoded'.move raw' positive small size'
  rw [DecodeContext.frameEnd, if_neg (by omega), if_neg (by simp [good, len]), if_neg fresh]
  dsimp only
  rw [if_neg (by rw [raw'.availableReadSpace_eq, len, length_append]; omega),
    moveFromRawToDecodedBuf, if_neg (by rw [len]; omega), len, Nat.add_sub_cancel, Nat.sub_zero]
  exact ⟨_, by rw [inFrame.asks], rfl, left, into⟩

/-- **A decoder between frames takes in a frame.** -/
theorem Between.frame (between : ctx.Between raw decoded) (some : payload ≠ [])
    (new : ackreq = true → seqno.toUInt8 ≠ ctx.expectseq - 1)
    (fits : raw.length + payload.length + 2 ≤ ctx.rawBuf.length)
    (small : payload.length + 2 ≤ Ringbuf.maxHdlcRxBufLen)
    (size : k = min payload.length (ctx.decodedBuf.length - decoded.length)) :
    ∃ ctx', ctx.decodeAll (frame payload ackreq seqno) = (ctx', if ackreq then [.ackSent] else []) ∧
      ctx'.Between ((raw ++ payload).drop k) (decoded ++ (raw ++ payload).take k) := by
  have length : (payload ++ fcsBytes (fcs16 initFcs16 payload)).length = payload.length + 2 := by
    rw [length_append]
    rfl
  unfold Ringbuf.maxHdlcRxBufLen at small
  obtain ⟨ctx₁, first, sync₁, inFrame₁⟩ := between.frameStart ackreq seqno
  obtain ⟨ctx₂, contents, sync₂, inFrame₂⟩ : ∃ ctx₂,
      ctx₁.decodeAll (stuff (payload ++ fcsBytes (fcs16 initFcs16 payload))) = (ctx₂, []) ∧
        ctx₂.state = .sync ∧ InFrame ctx ctx₂ ackreq seqno.toUInt8 raw
          (payload ++ fcsBytes (fcs16 initFcs16 payload)) :=
    inFrame₁.stuff sync₁ (by rw [length, length_nil]; omega) (by rw [length, length_nil]; omega)
  obtain ⟨ctx₃, last, between'⟩ := inFrame₂.frameEnd between.decodedBuf some new
    (by unfold Ringbuf.maxHdlcRxBufLen; omega) size
  have ends : ctx₂.decodeInput (frameFlag ackreq) =
      (ctx₃, if ackreq then [.ackSent] else [], true) := by
    rw [← last]
    cases ackreq <;>
      simp [decodeInput, sync₂, frameFlag, flagSequence, flagSequenceAckReq, escapeSequence]
  refine ⟨ctx₃, ?_, between'⟩
  rw [Sal.frame, decodeAll_append, decodeAll_append, first]
  simp only [contents, decodeAll, ends, nil_append, append_nil]

end DecodeContext

/-! ## The round trip -/

namespace HdlcPort

theorem decodeHdlcRingbuf_idle (idle : p.waitack = false) (byte : UInt8) :
    p.decodeHdlcRingbuf [byte] =
      (⟨(p.ctx.decodeInput byte).1, false, 0⟩, (p.ctx.decodeInput byte).2.1) := by
  have loop : p.ctx.decodeLoop [byte] =
      ((p.ctx.decodeInput byte).1, (p.ctx.decodeInput byte).2.1) := by
    rw [DecodeContext.decodeLoop]
    dsimp only
    split
    · simp [DecodeContext.decodeLoop]
    · rfl
  rw [decodeHdlcRingbuf, idle, if_neg Bool.false_ne_true, loop]

/-- A port that waits for no acknowledgement only decodes. -/
theorem feed_idle (idle : p.waitack = false) (bytes : Bytes) :
    (p.feed bytes).1.ctx = (p.ctx.decodeAll bytes).1 := by
  induction bytes generalizing p with
  | nil => rfl
  | cons byte _ ih =>
    have first := decodeHdlcRingbuf_idle idle byte
    have rest := ih (p := (p.decodeHdlcRingbuf [byte]).1) (by rw [first])
    rw [first] at rest
    simp only [feed, first, DecodeContext.decodeAll]
    exact rest

/-- **The round trip.**  A port between frames that waits for no acknowledgement is fed the encoded
payload: it is between frames again, and exactly the payload was appended to the decoded ring if
and only if it is what the raw ring then starts with, as it is when no earlier frame left bytes
there. -/
theorem decode_encode {p : HdlcPort} {raw decoded payload : Bytes} {ackreq : Bool} {seqno : UInt32}
    {e : EncodeContext} (between : p.ctx.Between raw decoded) (idle : p.waitack = false)
    (nonempty : payload ≠ []) (encoded : encodeHdlc payload ackreq seqno = some e)
    (new : ackreq = true → seqno.toUInt8 ≠ p.ctx.expectseq - 1)
    (rawRoom : raw.length + payload.length + 2 ≤ p.ctx.rawBuf.length)
    (decodedRoom : decoded.length + payload.length ≤ p.ctx.decodedBuf.length) :
    (p.feed e.buf).1.ctx.state = .noSync ∧
      ((p.feed e.buf).1.ctx.decodedBuf.Holds (decoded ++ payload) ↔
        payload <+: raw ++ payload) := by
  obtain ⟨buf, fits⟩ := encodeHdlc_spec encoded
  have small : payload.length + 2 ≤ Ringbuf.maxHdlcRxBufLen := by
    have := (length_le_frame payload ackreq seqno).trans fits
    unfold maxHdlcTxBufLen at this
    unfold Ringbuf.maxHdlcRxBufLen
    omega
  obtain ⟨ctx, eq, after⟩ := between.frame nonempty new rawRoom small
    (show payload.length = min payload.length _ by omega)
  have fed : (p.feed e.buf).1.ctx = ctx := by rw [buf, feed_idle idle, eq]
  rw [fed]
  refine ⟨after.state, fun holds => ?_, fun starts => ?_⟩
  · have same := append_cancel_left (holds.unique after.decodedBuf)
    exact prefix_iff_eq_take.mpr same
  · rw [← prefix_iff_eq_take.mp starts] at after
    exact after.decodedBuf

/-- A port with empty rings, which expects sequence number 5. -/
def atRest : HdlcPort where
  ctx :=
    { decodedBuf := ⟨fun _ => 0, 1024, 0, 0⟩
      rawBuf := ⟨fun _ => 0, 1024, 0, 0⟩
      state := .noSync
      len := 0
      fcs := initFcs16
      undecodedLen := 0
      ackreq := false
      recvseq := 4
      expectseq := 5 }
  waitack := false
  matchIndex := 0

theorem decode_encode_flags :
    (atRest.feed [0x7b, 0x7e, 0x7d, 0x5e, 0x7d, 0x5d, 0xf1, 0xcd, 0x7b]).1.ctx.decodedBuf.Holds
      [0x7e, 0x7d] := by
  have between : atRest.ctx.Between [] [] :=
    ⟨rfl, .clearAll atRest.ctx.rawBuf, .clearAll atRest.ctx.decodedBuf⟩
  have encoded : encodeHdlc [0x7e, 0x7d] true 0x7e =
      some ⟨[0x7b, 0x7e, 0x7d, 0x5e, 0x7d, 0x5d, 0xf1, 0xcd, 0x7b], 0xf0b8⟩ := rfl
  have trip := decode_encode between rfl (by decide) encoded (fun _ => by decide) (by decide)
    (by decide)
  exact trip.2.mpr prefix_rfl

/-- The decoded ring is full when the frame of the payload 1 ends, so the byte stays in the raw
ring; then the application reads the decoded ring empty. -/
def leftOver : HdlcPort :=
  let full : HdlcPort :=
    { atRest with ctx := { atRest.ctx with decodedBuf := ⟨fun _ => 0, 1024, 1, 0⟩ } }
  let p := (full.feed (frame [1] false 0)).1
  { p with ctx := { p.ctx with decodedBuf := (p.ctx.decodedBuf.read 1024).2 } }

/-- The decoder hands over what an earlier frame left. -/
theorem not_decode_encode :
    (leftOver.ctx.state = .noSync ∧ leftOver.waitack = false ∧
      leftOver.ctx.rawBuf.availableWriteSpace = 1023 ∧
      leftOver.ctx.decodedBuf.availableReadSpace = 0) ∧
    (encodeHdlc [2] false 0).map buf = some (frame [2] false 0) ∧
    ((leftOver.feed (frame [2] false 0)).1.ctx.decodedBuf.read 1024).1 = [1] := by
  decide +kernel

end HdlcPort

end AliosThings.Sal
