import AliosThings.Lib.Ring

/-!
# HDLC frames and the byte rings of the decoder

A `ringbuf_t` of `length` bytes lies in an array of one byte more, so that a full ring and an empty
one differ in `head` and `tail`. `Ringbuf.Holds` says which bytes are in it, from the oldest; each
operation is then an operation on that list.
-/

namespace AliosThings.Sal

open List

/-- `ringbuf_t`. -/
structure Ringbuf where
  buffer : Mem
  length : Nat
  head : Nat
  tail : Nat

namespace Ringbuf

variable (r : Ringbuf)

def availableReadSpace : Nat :=
  if r.head = r.tail then 0
  else if r.head < r.tail then r.tail - r.head
  else r.length + 1 - (r.head - r.tail)

def availableWriteSpace : Nat := r.length - r.availableReadSpace

def full : Bool := r.availableWriteSpace = 0

def empty : Bool := r.availableReadSpace = 0

def clearAll : Ringbuf := { r with head := 0, tail := 0 }

def clearFromTail (len : Nat) : Ringbuf :=
  if r.availableReadSpace < len then r.clearAll
  else { r with tail := (r.tail + (r.length + 1) - len) % (r.length + 1) }

/-- One byte at the tail. -/
def put (byte : UInt8) : Ringbuf :=
  { r with
    buffer := r.buffer.writeBytes r.tail [byte]
    tail := (r.tail + 1) % (r.length + 1) }

/-- The loop of `ringbuf_write`: it stops when the ring is full. -/
def writeLoop (r : Ringbuf) : Bytes → Nat × Ringbuf
  | [] => (0, r)
  | byte :: data =>
    if r.full then (0, r)
    else
      let (written, r) := (r.put byte).writeLoop data
      (written + 1, r)

/-- `ringbuf_write`: how many bytes were written; -1 for none to write. -/
def write (data : Bytes) : Int × Ringbuf :=
  if data = [] then (-1, r)
  else
    let (written, r) := (if r.empty then r.clearAll else r).writeLoop data
    (written, r)

def readLoop (r : Ringbuf) : Nat → Bytes × Ringbuf
  | 0 => ([], r)
  | size + 1 =>
    let (target, r') := ({ r with head := (r.head + 1) % (r.length + 1) } : Ringbuf).readLoop size
    (r.buffer r.head :: target, r')

/-- `ringbuf_read`: the bytes copied to the target. -/
def read (amount : Nat) : Bytes × Ringbuf := r.readLoop (min amount r.availableReadSpace)

/-- `MAX_HDLC_RX_BUF_LEN`. -/
def maxHdlcRxBufLen : Nat := 1024

/-- `ringbuf_move` to `r`: the size moved, and both rings. -/
def move (source : Ringbuf) (len : Nat) : Int × Ringbuf × Ringbuf :=
  if len = 0 then (-1, r, source)
  else
    let moveSize := min len (min source.availableReadSpace r.availableWriteSpace)
    if maxHdlcRxBufLen < moveSize then (-1, r, source)
    else if 0 < moveSize then
      let (ringbufTmp, source) := source.read moveSize
      (moveSize, (r.write ringbufTmp).2, source)
    else (moveSize, r, source)

/-! ## The bytes in a ring -/

/-- The ring holds the bytes `bs`, the oldest first. -/
structure Holds (r : Ringbuf) (bs : Bytes) : Prop where
  head : r.head ≤ r.length
  room : bs.length ≤ r.length
  tail : r.tail = (r.head + bs.length) % (r.length + 1)
  bytes : RingHolds r.buffer 0 (r.length + 1) r.head bs

namespace Holds

variable {r dest source : Ringbuf} {as bs held : Bytes}

/-- The tail has not wrapped, or it has wrapped once. -/
theorem tail_cases (holds : r.Holds bs) :
    r.tail = r.head + bs.length ∨
      r.length < r.head + bs.length ∧ r.tail + (r.length + 1) = r.head + bs.length := by
  have head := holds.head
  have room := holds.room
  have tail := holds.tail
  by_cases wraps : r.length < r.head + bs.length
  · have once : (r.head + bs.length) % (r.length + 1) = r.head + bs.length - (r.length + 1) := by
      rw [Nat.mod_eq_sub_mod (by omega), Nat.mod_eq_of_lt (by omega)]
    exact .inr ⟨wraps, by omega⟩
  · rw [Nat.mod_eq_of_lt (by omega)] at tail
    exact .inl tail

theorem availableReadSpace_eq (holds : r.Holds bs) : r.availableReadSpace = bs.length := by
  have head := holds.head
  have room := holds.room
  unfold availableReadSpace
  rcases holds.tail_cases with tail | ⟨wraps, tail⟩
  · split_ifs <;> omega
  · split_ifs <;> omega

theorem availableWriteSpace_eq (holds : r.Holds bs) :
    r.availableWriteSpace = r.length - bs.length := by
  rw [availableWriteSpace, holds.availableReadSpace_eq]

theorem clearAll (r : Ringbuf) : r.clearAll.Holds [] :=
  ⟨Nat.zero_le _, Nat.zero_le _, (Nat.zero_mod _).symm, .nil⟩

/-- The bytes written last are taken back. -/
theorem clearFromTail (holds : r.Holds (as ++ bs)) : (r.clearFromTail bs.length).Holds as := by
  have size := holds.availableReadSpace_eq
  have room := holds.room
  rw [length_append] at size room
  rw [Ringbuf.clearFromTail, if_neg (by omega)]
  refine ⟨holds.head, by dsimp only; omega, ?_, (RingHolds.append_iff.mp holds.bytes).1⟩
  dsimp only
  rcases holds.tail_cases with tail | ⟨wraps, tail⟩
  · rw [length_append] at tail
    rw [tail, ← Nat.add_mod_right (r.head + as.length) (r.length + 1)]
    congr 1
    omega
  · rw [length_append] at tail
    congr 1
    omega

theorem put (holds : r.Holds bs) (fits : bs.length < r.length) (byte : UInt8) :
    (r.put byte).Holds (bs ++ [byte]) := by
  have head := holds.head
  have tail : r.tail ≤ r.length := by
    rw [holds.tail]
    exact Nat.le_of_lt_succ (Nat.mod_lt _ (Nat.succ_pos _))
  refine ⟨head, by rw [length_append]; exact fits, ?_, ?_⟩
  · show (r.tail + 1) % (r.length + 1) = _
    rw [holds.tail, length_append, length_singleton, Nat.mod_add_mod, Nat.add_assoc]
    rfl
  · have extended : RingHolds (r.buffer.writeBytes (0 + r.tail) [byte]) 0 (r.length + 1) r.head
        (bs ++ [byte]) := by
      refine holds.bytes.push ?_ ?_ ?_
      · rw [holds.tail, Nat.mod_mod]
      · rw [length_singleton]
        omega
      · rw [length_singleton]
        omega
    rwa [Nat.zero_add] at extended

theorem writeLoop (holds : r.Holds bs) (fits : bs.length + as.length ≤ r.length) :
    (r.writeLoop as).1 = as.length ∧ (r.writeLoop as).2.Holds (bs ++ as) ∧
      (r.writeLoop as).2.length = r.length := by
  induction as generalizing r bs with
  | nil => exact ⟨rfl, by rwa [append_nil], rfl⟩
  | cons byte as ih =>
    rw [length_cons] at fits
    have room : r.full = false := by
      rw [full, holds.availableWriteSpace_eq]
      exact decide_eq_false (by omega)
    have next := ih (holds.put (by omega) byte)
      (by
        show (bs ++ [byte]).length + as.length ≤ r.length
        rw [length_append, length_singleton]
        omega)
    rw [append_assoc] at next
    simp only [Ringbuf.writeLoop, room, Bool.false_eq_true, if_false]
    exact ⟨by rw [next.1, length_cons], next.2⟩

/-- A write that fits appends. -/
theorem write (holds : r.Holds bs) (some : as ≠ []) (fits : bs.length + as.length ≤ r.length) :
    (r.write as).1 = as.length ∧ (r.write as).2.Holds (bs ++ as) ∧
      (r.write as).2.length = r.length := by
  rw [Ringbuf.write, if_neg some]
  dsimp only
  split
  case isTrue empty =>
    have none : bs = [] := by
      rw [Ringbuf.empty, holds.availableReadSpace_eq, decide_eq_true_eq] at empty
      exact length_eq_zero_iff.mp empty
    subst none
    have written := (clearAll r).writeLoop fits
    exact ⟨by rw [written.1], written.2⟩
  case isFalse =>
    have written := holds.writeLoop fits
    exact ⟨by rw [written.1], written.2⟩

theorem readLoop (holds : r.Holds (as ++ bs)) :
    (r.readLoop as.length).1 = as ∧ (r.readLoop as.length).2.Holds bs := by
  induction as generalizing r with
  | nil => exact ⟨rfl, holds⟩
  | cons byte as ih =>
    have first : r.buffer r.head = byte := by
      have held := holds.bytes 0 (by simp)
      rwa [Nat.add_zero, Nat.zero_add, Nat.mod_eq_of_lt (Nat.lt_succ_of_le holds.head)] at held
    have rest : ({ r with head := (r.head + 1) % (r.length + 1) } : Ringbuf).Holds (as ++ bs) := by
      have room := holds.room
      have bytes : RingHolds r.buffer 0 (r.length + 1) r.head ([byte] ++ (as ++ bs)) := holds.bytes
      refine ⟨Nat.le_of_lt_succ (Nat.mod_lt _ (Nat.succ_pos _)), ?_, ?_, ?_⟩
      · rw [cons_append, length_cons] at room
        exact Nat.le_of_succ_le room
      · rw [holds.tail, Nat.mod_add_mod, cons_append, length_cons, Nat.add_assoc, Nat.add_comm 1]
      · exact bytes.drop.congr_pos (Nat.mod_mod _ _)
    obtain ⟨target, left⟩ := ih rest
    refine ⟨?_, left⟩
    show r.buffer r.head :: _ = byte :: as
    rw [first, target]

/-- A move takes the oldest bytes: as many as asked for, as there are, and as there is room for. -/
theorem move (into : dest.Holds held) (from_ : source.Holds bs) {len k : Nat} (positive : 0 < len)
    (small : len ≤ maxHdlcRxBufLen)
    (size : k = min len (min bs.length (dest.length - held.length))) :
    (dest.move source len).2.1.Holds (held ++ bs.take k) ∧
      (dest.move source len).2.2.Holds (bs.drop k) := by
  have inside := into.room
  rw [Ringbuf.move, if_neg (by omega), from_.availableReadSpace_eq, into.availableWriteSpace_eq,
    ← size]
  dsimp only
  rw [if_neg (by omega)]
  split
  case isTrue some =>
    have taken : (bs.take k).length = k := by
      rw [length_take]
      omega
    rw [← take_append_drop k bs] at from_
    obtain ⟨target, left⟩ := from_.readLoop
    obtain ⟨-, written, -⟩ := into.write (ne_nil_of_length_pos (l := bs.take k) (by omega))
      (by omega)
    have all : source.read k = source.readLoop (bs.take k).length := by
      rw [Ringbuf.read, from_.availableReadSpace_eq, length_append, taken,
        Nat.min_eq_left (Nat.le_add_right _ _)]
    rw [all, target]
    exact ⟨written, left⟩
  case isFalse none =>
    obtain rfl : k = 0 := by omega
    exact ⟨by rwa [take_zero, append_nil], from_⟩

/-- A ring holds one list of bytes. -/
theorem unique (holds : r.Holds as) (holds' : r.Holds bs) : as = bs := by
  have length : as.length = bs.length := by
    rw [← holds.availableReadSpace_eq, ← holds'.availableReadSpace_eq]
  refine ext_getElem length fun i inside inside' => ?_
  rw [← holds.bytes i inside, ← holds'.bytes i inside']

end Holds

end Ringbuf

/-! ## Frames on the UART

`encode_hdlc` puts a payload between two flags, after a sequence number if an acknowledgement is
asked for, with a checksum of two bytes at its end; the flags and the escape character are escaped
in payload and checksum, not in the sequence number. `decode_hdlc_ringbuf` collects the bytes of a
frame in the raw ring, takes the checksum back when the frame ends, and moves the payload to the
decoded ring. While the sender waits for an acknowledgement the bytes are first matched against
`ACK!`. -/

def flagSequence : UInt8 := 0x7e

def flagSequenceAckReq : UInt8 := 0x7b

def escapeSequence : UInt8 := 0x7d

def initFcs16 : UInt16 := 0xffff

def goodFcs16 : UInt16 := 0xf0b8

def fcs16tab : List UInt16 := [
  0x0000, 0x1189, 0x2312, 0x329b, 0x4624, 0x57ad, 0x6536, 0x74bf, 0x8c48, 0x9dc1, 0xaf5a, 0xbed3,
  0xca6c, 0xdbe5, 0xe97e, 0xf8f7, 0x1081, 0x0108, 0x3393, 0x221a, 0x56a5, 0x472c, 0x75b7, 0x643e,
  0x9cc9, 0x8d40, 0xbfdb, 0xae52, 0xdaed, 0xcb64, 0xf9ff, 0xe876, 0x2102, 0x308b, 0x0210, 0x1399,
  0x6726, 0x76af, 0x4434, 0x55bd, 0xad4a, 0xbcc3, 0x8e58, 0x9fd1, 0xeb6e, 0xfae7, 0xc87c, 0xd9f5,
  0x3183, 0x200a, 0x1291, 0x0318, 0x77a7, 0x662e, 0x54b5, 0x453c, 0xbdcb, 0xac42, 0x9ed9, 0x8f50,
  0xfbef, 0xea66, 0xd8fd, 0xc974, 0x4204, 0x538d, 0x6116, 0x709f, 0x0420, 0x15a9, 0x2732, 0x36bb,
  0xce4c, 0xdfc5, 0xed5e, 0xfcd7, 0x8868, 0x99e1, 0xab7a, 0xbaf3, 0x5285, 0x430c, 0x7197, 0x601e,
  0x14a1, 0x0528, 0x37b3, 0x263a, 0xdecd, 0xcf44, 0xfddf, 0xec56, 0x98e9, 0x8960, 0xbbfb, 0xaa72,
  0x6306, 0x728f, 0x4014, 0x519d, 0x2522, 0x34ab, 0x0630, 0x17b9, 0xef4e, 0xfec7, 0xcc5c, 0xddd5,
  0xa96a, 0xb8e3, 0x8a78, 0x9bf1, 0x7387, 0x620e, 0x5095, 0x411c, 0x35a3, 0x242a, 0x16b1, 0x0738,
  0xffcf, 0xee46, 0xdcdd, 0xcd54, 0xb9eb, 0xa862, 0x9af9, 0x8b70, 0x8408, 0x9581, 0xa71a, 0xb693,
  0xc22c, 0xd3a5, 0xe13e, 0xf0b7, 0x0840, 0x19c9, 0x2b52, 0x3adb, 0x4e64, 0x5fed, 0x6d76, 0x7cff,
  0x9489, 0x8500, 0xb79b, 0xa612, 0xd2ad, 0xc324, 0xf1bf, 0xe036, 0x18c1, 0x0948, 0x3bd3, 0x2a5a,
  0x5ee5, 0x4f6c, 0x7df7, 0x6c7e, 0xa50a, 0xb483, 0x8618, 0x9791, 0xe32e, 0xf2a7, 0xc03c, 0xd1b5,
  0x2942, 0x38cb, 0x0a50, 0x1bd9, 0x6f66, 0x7eef, 0x4c74, 0x5dfd, 0xb58b, 0xa402, 0x9699, 0x8710,
  0xf3af, 0xe226, 0xd0bd, 0xc134, 0x39c3, 0x284a, 0x1ad1, 0x0b58, 0x7fe7, 0x6e6e, 0x5cf5, 0x4d7c,
  0xc60c, 0xd785, 0xe51e, 0xf497, 0x8028, 0x91a1, 0xa33a, 0xb2b3, 0x4a44, 0x5bcd, 0x6956, 0x78df,
  0x0c60, 0x1de9, 0x2f72, 0x3efb, 0xd68d, 0xc704, 0xf59f, 0xe416, 0x90a9, 0x8120, 0xb3bb, 0xa232,
  0x5ac5, 0x4b4c, 0x79d7, 0x685e, 0x1ce1, 0x0d68, 0x3ff3, 0x2e7a, 0xe70e, 0xf687, 0xc41c, 0xd595,
  0xa12a, 0xb0a3, 0x8238, 0x93b1, 0x6b46, 0x7acf, 0x4854, 0x59dd, 0x2d62, 0x3ceb, 0x0e70, 0x1ff9,
  0xf78f, 0xe606, 0xd49d, 0xc514, 0xb1ab, 0xa022, 0x92b9, 0x8330, 0x7bc7, 0x6a4e, 0x58d5, 0x495c,
  0x3de3, 0x2c6a, 0x1ef1, 0x0f78]

/-- One round of the loop of `fcs16`. -/
def fcs16Byte (fcs : UInt16) (byte : UInt8) : UInt16 :=
  (fcs >>> 8) ^^^ fcs16tab.getD ((fcs ^^^ byte.toUInt16) &&& 0xff).toNat 0

def fcs16 (fcs : UInt16) (cp : Bytes) : UInt16 := cp.foldl fcs16Byte fcs

/-! ## The encoder -/

/-- `MAX_HDLC_TX_BUF_LEN`. -/
def maxHdlcTxBufLen : Nat := 1024

/-- `encode_context_t`; `len` is the length of `buf`. -/
structure EncodeContext where
  buf : Bytes
  fcs : UInt16

/-- The bytes that stand for `byte` in a frame. -/
def escape (byte : UInt8) : Bytes :=
  if byte = flagSequence ∨ byte = flagSequenceAckReq ∨ byte = escapeSequence then
    [escapeSequence, byte ^^^ 0x20]
  else [byte]

def EncodeContext.encodeByte (ctx : EncodeContext) (byte : UInt8) : Option EncodeContext :=
  if maxHdlcTxBufLen ≤ ctx.buf.length + 1 then none
  else some ⟨ctx.buf ++ escape byte, fcs16 ctx.fcs [byte]⟩

def EncodeContext.encodeBytes (ctx : EncodeContext) : Bytes → Option EncodeContext
  | [] => some ctx
  | byte :: bytes => (ctx.encodeByte byte).bind fun ctx => ctx.encodeBytes bytes

/-- The flag at both ends of a frame. -/
def frameFlag (ackreq : Bool) : UInt8 := if ackreq then flagSequenceAckReq else flagSequence

/-- What stands before the payload. -/
def frameStart (ackreq : Bool) (seqno : UInt32) : Bytes :=
  if ackreq then [frameFlag ackreq, seqno.toUInt8] else [frameFlag ackreq]

def encodeHdlc (buf : Bytes) (ackreq : Bool) (seqno : UInt32) : Option EncodeContext :=
  if maxHdlcTxBufLen < (buf.length + 4) % 2 ^ 32 then none
  else do
    let ctx ← (⟨frameStart ackreq seqno, initFcs16⟩ : EncodeContext).encodeBytes buf
    let fcs := ctx.fcs ^^^ 0xffff
    let ctx ← ctx.encodeByte (fcs &&& 0xff).toUInt8
    let ctx ← ctx.encodeByte (fcs >>> 8).toUInt8
    if maxHdlcTxBufLen ≤ ctx.buf.length then none
    else some { ctx with buf := ctx.buf ++ [frameFlag ackreq] }

/-! ## The decoder -/

/-- `recv_state_t`. -/
inductive RecvState where
  | noSync
  | sync
  | escaped
  | seq
deriving DecidableEq, Repr

/-- `decode_context_t`. -/
structure DecodeContext where
  decodedBuf : Ringbuf
  rawBuf : Ringbuf
  state : RecvState
  len : Nat
  fcs : UInt16
  undecodedLen : Nat
  ackreq : Bool
  recvseq : UInt8
  expectseq : UInt8

inductive HdlcEvent where
  /-- `ACK!` is sent on the UART -/
  | ackSent
  /-- `acksem` is signalled -/
  | ackSignal
deriving DecidableEq, Repr

namespace DecodeContext

variable (ctx : DecodeContext)

def moveFromRawToDecodedBuf (len : Nat) : Int × DecodeContext :=
  if len = 0 then (-1, ctx)
  else
    let (moveSize, decodedBuf, rawBuf) := ctx.decodedBuf.move ctx.rawBuf len
    (moveSize, { ctx with decodedBuf, rawBuf })

/-- `ctx->len` is a `uint16_t` and `len` may be -1. -/
def decodeStateResetUndecoded (len : Int) : DecodeContext :=
  { ctx with
    len := (((ctx.len : Int) - len) % 65536).toNat
    fcs := initFcs16
    state := .noSync
    undecodedLen := 0
    ackreq := false }

def decodeStateReset : DecodeContext :=
  { ctx with len := 0, fcs := initFcs16, state := .noSync, undecodedLen := 0, ackreq := false }

/-- The reset when the raw ring is full or does not hold the frame. -/
def clearRaw : DecodeContext :=
  ({ ctx with rawBuf := ctx.rawBuf.clearAll } : DecodeContext).decodeStateReset

/-- The bytes of the present frame are taken back. -/
def dropFrame : DecodeContext :=
  ({ ctx with rawBuf := ctx.rawBuf.clearFromTail ctx.undecodedLen } :
    DecodeContext).decodeStateResetUndecoded ctx.undecodedLen

def decodeByte (byte : UInt8) : Option DecodeContext :=
  let (written, rawBuf) := ctx.rawBuf.write [byte]
  if written ≠ 1 then none
  else
    some { ctx with
      rawBuf
      fcs := fcs16 ctx.fcs [byte]
      len := (ctx.len + 1) % 65536
      undecodedLen := ctx.undecodedLen + 1 }

/-- A flag in state `RECV_STATE_SYNC`. The last component says whether the loop over the input
goes on. -/
def frameEnd : DecodeContext × List HdlcEvent × Bool :=
  if ctx.len = 0 then (ctx, [], true)
  else if ctx.fcs ≠ goodFcs16 ∨ ctx.len < 2 then (ctx.dropFrame, [], true)
  else if ctx.ackreq ∧ ctx.recvseq = ctx.expectseq - 1 then (ctx.dropFrame, [.ackSent], false)
  else
    let ctx : DecodeContext := { ctx with
        expectseq := if ctx.ackreq then ctx.recvseq + 1 else ctx.expectseq
        rawBuf := ctx.rawBuf.clearFromTail 2
        len := ctx.len - 2
        undecodedLen := 0 }
    if ctx.rawBuf.availableReadSpace < ctx.len then (ctx.clearRaw, [], false)
    else
      let (len, ctx) := ctx.moveFromRawToDecodedBuf (ctx.len - ctx.undecodedLen)
      (ctx.decodeStateResetUndecoded len, if ctx.ackreq then [.ackSent] else [], true)

/-- One round of the loop of `decode_hdlc_ringbuf`. -/
def decodeInput (byte : UInt8) : DecodeContext × List HdlcEvent × Bool :=
  match ctx.state with
  | .noSync =>
    if byte = flagSequence ∨ byte = flagSequenceAckReq then
      let ackreq : Bool := byte = flagSequenceAckReq
      ({ ctx with
          state := if ackreq then .seq else .sync
          len := 0
          fcs := initFcs16
          ackreq
          recvseq := if ackreq then 0 else ctx.recvseq }, [], true)
    else (ctx, [], true)
  | .seq => ({ ctx with recvseq := byte, state := .sync }, [], true)
  | .sync =>
    if byte = escapeSequence then ({ ctx with state := .escaped }, [], true)
    else if byte = flagSequenceAckReq ∨ byte = flagSequence then ctx.frameEnd
    else
      match ctx.decodeByte byte with
      | some ctx => (ctx, [], true)
      | none => (ctx.clearRaw, [], false)
  | .escaped =>
    match ctx.decodeByte (byte ^^^ 0x20) with
    | some ctx => ({ ctx with state := .sync }, [], true)
    | none => (ctx.clearRaw, [], false)

/-- The loop; `return -1` leaves the rest of the input. -/
def decodeLoop (ctx : DecodeContext) : Bytes → DecodeContext × List HdlcEvent
  | [] => (ctx, [])
  | byte :: input =>
    let (ctx, events, goesOn) := ctx.decodeInput byte
    if goesOn then
      let (ctx, events') := ctx.decodeLoop input
      (ctx, events ++ events')
    else (ctx, events)

end DecodeContext

/-! ## Acknowledgements -/

/-- `ack_str`, `ACK!`. -/
def ackStr : Bytes := [65, 67, 75, 33]

/-- `match_response`: whether the string is complete, and the new `match_index`. -/
def matchResponse (matchIndex : Nat) (buf : Bytes) : Bool × Nat :=
  let compareSize := min buf.length (ackStr.length - matchIndex)
  if buf.take compareSize = (ackStr.drop matchIndex).take compareSize then
    if matchIndex + compareSize = ackStr.length then (true, 0) else (false, matchIndex + 1)
  else (false, 0)

/-- The decoder's context with the variables it shares with the sender. -/
structure HdlcPort where
  ctx : DecodeContext
  waitack : Bool
  matchIndex : Nat

namespace HdlcPort

/-- `decode_hdlc_ringbuf`. -/
def decodeHdlcRingbuf (p : HdlcPort) (buf : Bytes) : HdlcPort × List HdlcEvent :=
  if p.waitack then
    let (complete, matchIndex) := matchResponse p.matchIndex buf
    if complete then ({ p with matchIndex }, [.ackSignal])
    else if p.matchIndex < matchIndex then ({ p with matchIndex }, [])
    else if 0 < p.matchIndex ∧ matchIndex = 0 then
      if ackStr.length < p.matchIndex + buf.length then ({ p with matchIndex }, [])
      else
        let (ctx, events) := p.ctx.decodeLoop (ackStr.take p.matchIndex ++ buf)
        ({ p with ctx, matchIndex }, events)
    else
      let (ctx, events) := p.ctx.decodeLoop buf
      ({ p with ctx, matchIndex }, events)
  else
    let (ctx, events) := p.ctx.decodeLoop buf
    ({ p with ctx, matchIndex := 0 }, events)

/-- The decoder is fed the bytes one by one. -/
def feed (p : HdlcPort) : Bytes → HdlcPort × List HdlcEvent
  | [] => (p, [])
  | byte :: bytes =>
    let (p, events) := p.decodeHdlcRingbuf [byte]
    let (p, events') := p.feed bytes
    (p, events ++ events')

end HdlcPort

end AliosThings.Sal
