import AliosThings.Lib.Bytes
import AliosThings.Rhino.Err

/-!
# The kernel ring buffer (`k_ringbuf.c`)

`k_ringbuf_t` holds four pointers into one byte buffer and a count of free
bytes. A fixed-length ring moves blocks of `blk_size` bytes; a dynamic-length
ring moves messages, each behind a header that is the `size_t` image of its
length. `w` below is `sizeof(size_t)`.

Every `memcpy` into or out of the buffer is checked: a copy that leaves
`[buf, end)` has no result (`none`), so that a theorem which says an operation
returns also says that each byte it copied lay inside the buffer.
-/

namespace AliosThings.Rhino

/-- `RINGBUF_TYPE_FIX` and `RINGBUF_TYPE_DYN`. -/
inductive RingbufType where
  | fix
  | dyn
  deriving DecidableEq, Repr

/-- `k_ringbuf_t`. `endp` is the field `end`, one past the last byte. -/
structure KRingbuf where
  buf : Nat
  endp : Nat
  head : Nat
  tail : Nat
  freesize : Nat
  type : RingbufType
  blkSize : Nat
  deriving Repr

/-- `RINGBUF_LEN_3BYTES_MAXVALUE`. -/
def ringbufLen3bytesMaxvalue : Nat := 0x3fffff

variable (r : KRingbuf) (mem : Mem)

namespace KRingbuf

/-- `memcpy(dst, src, n)` with `dst` in the buffer. -/
def copyIn (dst : Nat) (src : Bytes) : Option Mem :=
  if r.buf ≤ dst ∧ dst + src.length ≤ r.endp then some (mem.writeBytes dst src) else none

/-- `memcpy(dst, src, n)` with `src` in the buffer. -/
def copyOut (src n : Nat) : Option Bytes :=
  if r.buf ≤ src ∧ src + n ≤ r.endp then some (mem.readBytes src n) else none

end KRingbuf

/-- `ringbuf_reset`. -/
def ringbufReset : KRingbuf :=
  { r with head := r.buf, tail := r.buf, freesize := r.endp - r.buf }

/-- `ringbuf_init`. -/
def ringbufInit (buf len : Nat) (type : RingbufType) (blockSize : Nat) : KRingbuf :=
  ringbufReset
    { buf := buf, endp := buf + len, head := buf, tail := buf, freesize := 0,
      type := type, blkSize := blockSize }

/-- `ringbuf_is_empty`. -/
def ringbufIsEmpty : Bool :=
  decide (r.freesize = r.endp - r.buf)

/-- The lazy wrap of the tail: `if (tail == end) tail = buf`. -/
def KRingbuf.wrapTail : KRingbuf :=
  if r.tail = r.endp then { r with tail := r.buf } else r

/-- The lazy wrap of the head: `if (head == end) head = buf`. -/
def KRingbuf.wrapHead : KRingbuf :=
  if r.head = r.endp then { r with head := r.buf } else r

/-- One piece of a push: copy to the tail, advance it, and take the bytes from `freesize`. -/
def KRingbuf.put (src : Bytes) : Option (KRingbuf × Mem) := do
  let mem ← r.copyIn mem r.tail src
  return ({ r with tail := r.tail + src.length, freesize := r.freesize - src.length }, mem)

/-- One piece of a pop: copy from the head, advance it, and give the bytes to `freesize`. -/
def KRingbuf.get (n : Nat) : Option (Bytes × KRingbuf) := do
  let bs ← r.copyOut mem r.head n
  return (bs, { r with head := r.head + n, freesize := r.freesize + n })

/-- The copy of the length header in `ringbuf_push`. -/
def ringbufPushLen (w : Nat) (r : KRingbuf) (mem : Mem) (cLen : Bytes) :
    Option (KRingbuf × Mem) :=
  let splitLen := r.endp - r.tail
  if r.tail ≥ r.head ∧ splitLen < w ∧ splitLen > 0 then do
    let (r, mem) ← r.put mem (cLen.take splitLen)
    { r with tail := r.buf }.put mem (cLen.drop splitLen)
  else
    r.put mem cLen

/-- The copy of the payload in `ringbuf_push`; `len` is the length of `data`. -/
def ringbufPushData (data : Bytes) : Option (KRingbuf × Mem) :=
  let splitLen := r.endp - r.tail
  if r.tail ≥ r.head ∧ splitLen < data.length ∧ splitLen > 0 then do
    let (r, mem) ← r.put mem (data.take splitLen)
    { r with tail := r.buf }.put mem (data.drop splitLen)
  else
    r.put mem data

/-- `ringbuf_push`. `data` is the memory at the caller's pointer and `len` the length argument:
a fixed-length ring copies `blk_size` bytes of it and never reads `len`. -/
def ringbufPush (w : Nat) (r : KRingbuf) (mem : Mem) (data : Bytes) (len : Nat) :
    Option (Kstat × KRingbuf × Mem) :=
  match r.type with
  | .fix =>
    if r.freesize < r.blkSize then some (.ringbufFull, r, mem)
    else do
      let (r, mem) ← r.wrapTail.put mem (data.take r.blkSize)
      return (.success, r, mem)
  | .dyn =>
    -- `len >= (uint32_t)-1`
    if len = 0 ∨ len ≥ 0xffffffff then some (.invParam, r, mem)
    -- the sum is taken in `size_t`
    else if r.freesize < (w + len) % 256 ^ w then some (.ringbufFull, r, mem)
    else do
      let (r, mem) ← ringbufPushLen w r.wrapTail mem (leBytes w len)
      let (r, mem) ← ringbufPushData r.wrapTail mem (data.take len)
      return (.success, r, mem)

/-- The read of the length header in `ringbuf_pop`. -/
def ringbufPopLen (w : Nat) (r : KRingbuf) (mem : Mem) : Option (Bytes × KRingbuf) :=
  let splitLen := r.endp - r.head
  if splitLen < w ∧ splitLen > 0 then do
    let (low, r) ← r.get mem splitLen
    let (high, r) ← { r with head := r.buf }.get mem (w - splitLen)
    return (low ++ high, r)
  else
    r.get mem w

/-- The read of the payload in `ringbuf_pop`. -/
def ringbufPopData (len : Nat) : Option (Bytes × KRingbuf) :=
  let splitLen := r.endp - r.head
  if r.head > r.tail ∧ splitLen < len then do
    let (low, r) ← r.get mem splitLen
    let (high, r) ← { r with head := r.buf }.get mem (len - splitLen)
    return (low ++ high, r)
  else
    r.get mem len

/-- `ringbuf_pop`: the status, the bytes stored at `pdata`, the value of `*plen`, and the ring. -/
def ringbufPop (w : Nat) (r : KRingbuf) (mem : Mem) : Option (Kstat × Bytes × Nat × KRingbuf) :=
  if ringbufIsEmpty r then some (.ringbufEmpty, [], 0, r)
  else
    match r.type with
    | .fix => do
      let (bs, r) ← r.wrapHead.get mem r.blkSize
      return (.success, bs, r.blkSize, r)
    | .dyn => do
      let (cLen, r) ← ringbufPopLen w r.wrapHead mem
      let len := leNat cLen
      let (bs, r) ← ringbufPopData r.wrapHead mem len
      return (.success, bs, len, r)

end AliosThings.Rhino
