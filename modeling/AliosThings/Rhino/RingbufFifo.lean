import AliosThings.Lib.Ring
import AliosThings.Rhino.Ringbuf

/-!
# The dynamic ring buffer is a queue of messages

The representation has two levels. `Holds` says which byte string the ring
contains: it lies from `head` on, wrapping at `end`, and `tail` and `freesize`
are what its length makes them. `Queues` says which messages the byte string
is: each message behind the image of its length.

`put` and `get`, the contiguous pieces every push and pop is made of, are
specified once over `Holds`. The two branches of a copy that may wrap differ
only in how many pieces they use, so the case analysis of `ringbuf_push` and
`ringbuf_pop` is left with arithmetic: that each piece fits before `end`. That
push and pop decide about splitting with different conditions is where the
arithmetic lies (`tail_add_freesize_le`, `head_add_le_tail`).
-/

namespace AliosThings.Rhino

open List Option

variable {n t p : Nat} {r r' r₁ r₂ r₃ : KRingbuf} {mem mem' m₁ m₂ m₃ : Mem} {as bs src : Bytes}

namespace KRingbuf

/-- The ring contains exactly the byte string `bs`. -/
structure Holds (r : KRingbuf) (mem : Mem) (bs : Bytes) : Prop where
  headLow : r.buf ≤ r.head
  headHigh : r.head ≤ r.endp
  tailLow : r.buf ≤ r.tail
  tailHigh : r.tail ≤ r.endp
  free : r.freesize + bs.length = r.endp - r.buf
  held : RingHolds mem r.buf (r.endp - r.buf) (r.head - r.buf) bs
  tailAt : (r.tail - r.buf) % (r.endp - r.buf) =
    (r.head - r.buf + bs.length) % (r.endp - r.buf)

/-- Two offsets of one turn that agree modulo its size differ by a multiple of it. -/
private theorem offset_cases (high : t ≤ n) (bound : p ≤ 2 * n) (same : t % n = p % n) :
    t = p ∨ t + n = p ∨ t + 2 * n = p ∨ t = p + n := by
  rcases Nat.eq_zero_or_pos n with rfl | pos
  · omega
  have ht := Nat.div_add_mod t n
  have hp := Nat.div_add_mod p n
  have dt : t / n ≤ 1 := by
    rw [Nat.div_le_iff_le_mul_add_pred pos]
    omega
  have dp : p / n ≤ 2 := by
    rw [Nat.div_le_iff_le_mul_add_pred pos]
    omega
  rw [same] at ht
  generalize t / n = a at ht dt
  generalize p / n = b at hp dp
  have ca : a = 0 ∨ a = 1 := by omega
  have cb : b = 0 ∨ b = 1 ∨ b = 2 := by omega
  rcases ca with rfl | rfl <;> rcases cb with rfl | rfl | rfl <;> omega

namespace Holds

theorem tail_cases (h : Holds r mem bs) :
    r.tail - r.buf = r.head - r.buf + bs.length ∨
    r.tail - r.buf + (r.endp - r.buf) = r.head - r.buf + bs.length ∨
    r.tail - r.buf + 2 * (r.endp - r.buf) = r.head - r.buf + bs.length ∨
    r.tail - r.buf = r.head - r.buf + bs.length + (r.endp - r.buf) := by
  have hl := h.headHigh
  have ht := h.tailHigh
  have hf := h.free
  exact offset_cases (by omega) (by omega) h.tailAt

/-- With the tail before the head the free bytes are one block that ends at the head: why a push
need not split there. -/
theorem tail_add_freesize_le (h : Holds r mem bs) (before : r.tail < r.head) :
    r.tail + r.freesize ≤ r.head := by
  have cases' := h.tail_cases
  have tl := h.tailLow
  have hf := h.free
  omega

/-- With the head not past the tail and some byte free, the held bytes are one block that ends
at the tail: why a pop need not split there. -/
theorem head_add_le_tail (h : Holds r mem bs) (before : r.head ≤ r.tail)
    (some_held : 0 < bs.length) (some_free : 0 < r.freesize) : r.head + bs.length ≤ r.tail := by
  have cases' := h.tail_cases
  have hf := h.free
  omega

/-- A reset ring holds nothing. -/
theorem reset (bounds : r.buf ≤ r.endp) : Holds (ringbufReset r) mem [] where
  headLow := le_rfl
  headHigh := bounds
  tailLow := le_rfl
  tailHigh := bounds
  free := rfl
  held := RingHolds.nil
  tailAt := rfl

/-- A tail that rests at the end may be moved to the start. -/
theorem tailToBuf (h : Holds r mem bs) (rests : r.tail = r.endp) :
    Holds { r with tail := r.buf } mem bs := by
  refine { h with
    tailLow := le_rfl, tailHigh := h.headLow.trans h.headHigh, tailAt := ?_ }
  have at' := h.tailAt
  simp only [rests, Nat.mod_self] at at'
  simpa using at'

/-- A head that rests at the end may be moved to the start. -/
theorem headToBuf (h : Holds r mem bs) (rests : r.head = r.endp) :
    Holds { r with head := r.buf } mem bs := by
  refine { h with
    headLow := le_rfl, headHigh := h.tailLow.trans h.tailHigh
    held := h.held.congr_pos (by simp [rests]), tailAt := ?_ }
  have at' := h.tailAt
  rw [rests, Nat.add_mod_left] at at'
  simpa using at'

theorem wrapTail (h : Holds r mem bs) : Holds r.wrapTail mem bs := by
  unfold KRingbuf.wrapTail
  split
  · exact h.tailToBuf ‹_›
  · exact h

theorem wrapHead (h : Holds r mem bs) : Holds r.wrapHead mem bs := by
  unfold KRingbuf.wrapHead
  split
  · exact h.headToBuf ‹_›
  · exact h

end Holds

@[simp] theorem wrapTail_freesize (r : KRingbuf) : r.wrapTail.freesize = r.freesize := by
  unfold wrapTail; split <;> rfl

@[simp] theorem wrapHead_freesize (r : KRingbuf) : r.wrapHead.freesize = r.freesize := by
  unfold wrapHead; split <;> rfl

/-- A wrapped tail of a non-empty region is strictly before the end. -/
theorem wrapTail_lt (high : r.tail ≤ r.endp) (pos : r.buf < r.endp) : r.wrapTail.tail < r.endp := by
  unfold wrapTail
  split
  · exact pos
  · exact Nat.lt_of_le_of_ne high ‹_›

theorem wrapHead_lt (high : r.head ≤ r.endp) (pos : r.buf < r.endp) : r.wrapHead.head < r.endp := by
  unfold wrapHead
  split
  · exact pos
  · exact Nat.lt_of_le_of_ne high ‹_›

/-- What no push and no pop changes. -/
structure SameShape (r r' : KRingbuf) : Prop where
  buf : r'.buf = r.buf
  endp : r'.endp = r.endp
  type : r'.type = r.type
  blkSize : r'.blkSize = r.blkSize

theorem SameShape.refl (r : KRingbuf) : SameShape r r := ⟨rfl, rfl, rfl, rfl⟩

theorem SameShape.trans (first : SameShape r₁ r₂) (second : SameShape r₂ r₃) : SameShape r₁ r₃ :=
  ⟨second.buf.trans first.buf, second.endp.trans first.endp, second.type.trans first.type,
    second.blkSize.trans first.blkSize⟩

theorem SameShape.atHead (same : SameShape r r') (p : Nat) : SameShape r { r' with head := p } :=
  ⟨same.buf, same.endp, same.type, same.blkSize⟩

/-- What a step of a push leaves alone: the buffer's bounds, the type, and every byte outside. -/
structure SameRegion (r r' : KRingbuf) (mem mem' : Mem) : Prop extends SameShape r r' where
  head : r'.head = r.head
  outside : ∀ x, x < r.buf ∨ r.endp ≤ x → mem' x = mem x

theorem SameRegion.trans (first : SameRegion r₁ r₂ m₁ m₂) (second : SameRegion r₂ r₃ m₂ m₃) :
    SameRegion r₁ r₃ m₁ m₃ where
  toSameShape := first.toSameShape.trans second.toSameShape
  head := second.head.trans first.head
  outside x out := by
    rw [second.outside x (by rw [first.buf, first.endp]; exact out), first.outside x out]

theorem SameRegion.tail (h : SameRegion r r' mem mem') (t : Nat) :
    SameRegion r { r' with tail := t } mem mem' where
  toSameShape := ⟨h.buf, h.endp, h.type, h.blkSize⟩
  head := h.head
  outside := h.outside

theorem put_sameRegion (put : r.put mem src = some (r', mem')) : SameRegion r r' mem mem' := by
  unfold KRingbuf.put copyIn at put
  split at put
  · next inside =>
    cases put
    exact ⟨⟨rfl, rfl, rfl, rfl⟩, rfl, fun x out => Mem.writeBytes_outside (by omega)⟩
  · cases put

theorem sameRegion_wrapTail (r : KRingbuf) (mem : Mem) : SameRegion r r.wrapTail mem mem := by
  unfold wrapTail
  split <;> exact ⟨⟨rfl, rfl, rfl, rfl⟩, rfl, fun _ _ => rfl⟩

theorem get_sameShape (get : r.get mem n = some (bs, r')) : SameShape r r' := by
  obtain ⟨read, -, same⟩ := bind_eq_some_iff.mp get
  cases same
  exact ⟨rfl, rfl, rfl, rfl⟩

theorem sameShape_wrapHead (r : KRingbuf) : SameShape r r.wrapHead := by
  unfold wrapHead
  split <;> exact ⟨rfl, rfl, rfl, rfl⟩

/-- One contiguous piece of a push appends its bytes. -/
theorem Holds.put (h : Holds r mem bs) (src : Bytes) (room : r.tail + src.length ≤ r.endp)
    (fits : src.length ≤ r.freesize) :
    ∃ r' mem', r.put mem src = some (r', mem') ∧ Holds r' mem' (bs ++ src) ∧
      r'.tail = r.tail + src.length ∧ r'.freesize = r.freesize - src.length := by
  have tl := h.tailLow
  have hf := h.free
  have copied : r.copyIn mem r.tail src = some (mem.writeBytes r.tail src) := by
    simp [copyIn, tl, room]
  have place : r.tail = r.buf + (r.tail - r.buf) := by omega
  refine ⟨{ r with tail := r.tail + src.length, freesize := r.freesize - src.length },
    mem.writeBytes r.tail src, by simp [KRingbuf.put, copied], ?_, rfl, rfl⟩
  refine ⟨h.headLow, h.headHigh, ?_, room, ?_, ?_, ?_⟩
  · show r.buf ≤ r.tail + src.length
    omega
  · simp only [length_append]
    omega
  · show RingHolds (mem.writeBytes r.tail src) r.buf (r.endp - r.buf) (r.head - r.buf) _
    rw [place]
    exact h.held.push h.tailAt (by omega) (by omega)
  · simp only [length_append]
    have shift : r.tail + src.length - r.buf = r.tail - r.buf + src.length := by omega
    rw [shift, ← Nat.add_assoc]
    exact Nat.ModEq.add_right src.length h.tailAt

/-- One contiguous piece of a pop returns the first held bytes. -/
theorem Holds.get (h : Holds r mem (as ++ bs)) (room : r.head + as.length ≤ r.endp) :
    ∃ r', r.get mem as.length = some (as, r') ∧ Holds r' mem bs ∧
      r'.head = r.head + as.length ∧ r'.freesize = r.freesize + as.length := by
  have hl := h.headLow
  have hf := h.free
  simp only [length_append] at hf
  have place : r.head = r.buf + (r.head - r.buf) := by omega
  have read : mem.readBytes r.head as.length = as := by
    rw [place]
    exact (RingHolds.append_iff.mp h.held).1.readBytes_eq rfl (by omega)
  have copied : r.copyOut mem r.head as.length = some as := by
    simp [copyOut, hl, room, read]
  refine ⟨{ r with head := r.head + as.length, freesize := r.freesize + as.length },
    by simp [KRingbuf.get, copied], ?_, rfl, rfl⟩
  refine ⟨?_, room, h.tailLow, h.tailHigh, ?_, ?_, ?_⟩
  · show r.buf ≤ r.head + as.length
    omega
  · show r.freesize + as.length + bs.length = r.endp - r.buf
    omega
  · have rest := h.held.drop
    have shift : r.head - r.buf + as.length = r.head + as.length - r.buf := by omega
    rw [shift] at rest
    exact rest
  · have at' := h.tailAt
    simp only [length_append] at at'
    show (r.tail - r.buf) % (r.endp - r.buf) =
      (r.head + as.length - r.buf + bs.length) % (r.endp - r.buf)
    rw [at']
    congr 1
    omega

/-- A copy that fills the ring up to its end and goes on from the start appends both parts. -/
theorem Holds.putSplit (h : Holds r mem bs) (short : r.endp - r.tail < src.length)
    (fits : src.length ≤ r.freesize) :
    ∃ r₁ m₁ r' mem', r.put mem (src.take (r.endp - r.tail)) = some (r₁, m₁) ∧
      { r₁ with tail := r₁.buf }.put m₁ (src.drop (r.endp - r.tail)) = some (r', mem') ∧
      Holds r' mem' (bs ++ src) ∧ r'.freesize = r.freesize - src.length := by
  have th := h.tailHigh
  have hf := h.free
  have low : (src.take (r.endp - r.tail)).length = r.endp - r.tail := by
    rw [length_take]
    omega
  have high : (src.drop (r.endp - r.tail)).length = src.length - (r.endp - r.tail) := by
    rw [length_drop]
  obtain ⟨r₁, m₁, first, held₁, tail₁, free₁⟩ :=
    h.put (src.take (r.endp - r.tail)) (by omega) (by omega)
  have same₁ := put_sameRegion first
  have rests : r₁.tail = r₁.endp := by
    rw [tail₁, low, same₁.endp]
    omega
  obtain ⟨r', mem', second, held', -, free'⟩ :=
    (held₁.tailToBuf rests).put (src.drop (r.endp - r.tail)) (by
        show r₁.buf + _ ≤ r₁.endp
        rw [same₁.buf, same₁.endp]
        omega)
      (by
        show _ ≤ r₁.freesize
        omega)
  refine ⟨r₁, m₁, r', mem', first, second, ?_, ?_⟩
  · rw [append_assoc, take_append_drop] at held'
    exact held'
  · have step : r'.freesize = r₁.freesize - (src.drop (r.endp - r.tail)).length := free'
    omega

/-- A read that takes the ring up to its end and goes on from the start returns both parts. -/
theorem Holds.getSplit (h : Holds r mem (as ++ bs)) (short : r.endp - r.head < as.length) :
    ∃ low r₁ high r', r.get mem (r.endp - r.head) = some (low, r₁) ∧
      { r₁ with head := r₁.buf }.get mem (as.length - (r.endp - r.head)) = some (high, r') ∧
      low ++ high = as ∧ Holds r' mem bs ∧ r'.freesize = r.freesize + as.length := by
  have hh := h.headHigh
  have hf := h.free
  simp only [length_append] at hf
  have low : (as.take (r.endp - r.head)).length = r.endp - r.head := by
    rw [length_take]
    omega
  have high : (as.drop (r.endp - r.head)).length = as.length - (r.endp - r.head) := by
    rw [length_drop]
  have split : as.take (r.endp - r.head) ++ (as.drop (r.endp - r.head) ++ bs) = as ++ bs := by
    rw [← append_assoc, take_append_drop]
  rw [← split] at h
  obtain ⟨r₁, first, held₁, head₁, free₁⟩ := h.get (by omega)
  have shape := get_sameShape first
  rw [low] at first head₁ free₁
  have rests : r₁.head = r₁.endp := by
    rw [head₁, shape.endp]
    omega
  obtain ⟨r', second, held', -, free'⟩ := (held₁.headToBuf rests).get (by
      show r₁.buf + _ ≤ r₁.endp
      rw [shape.buf, shape.endp]
      omega)
  rw [high] at second free'
  refine ⟨_, r₁, _, r', first, second, take_append_drop _ _, held', ?_⟩
  have step : r'.freesize = r₁.freesize + (as.length - (r.endp - r.head)) := free'
  omega

end KRingbuf

open KRingbuf

variable {w len : Nat} {e : Kstat} {cLen data : Bytes}

/-- A push copies the header the way it copies a payload. -/
theorem ringbufPushLen_eq (r : KRingbuf) (mem : Mem) (width : cLen.length = w) :
    ringbufPushLen w r mem cLen = ringbufPushData r mem cLen := by
  subst width
  rfl

/-- The copy of a push appends what it copies. -/
theorem ringbufPushData_spec (data : Bytes) (h : Holds r mem bs) (before : r.tail < r.endp)
    (fits : data.length ≤ r.freesize) :
    ∃ r' mem', ringbufPushData r mem data = some (r', mem') ∧ Holds r' mem' (bs ++ data) ∧
      r'.freesize = r.freesize - data.length := by
  unfold ringbufPushData
  dsimp only
  split
  · rename_i wraps
    obtain ⟨r₁, m₁, r', mem', first, second, held, free⟩ := h.putSplit wraps.2.1 fits
    exact ⟨r', mem', by simp [first, second], held, free⟩
  rename_i whole
  have room : r.tail + data.length ≤ r.endp := by
    by_cases order : r.head ≤ r.tail
    · omega
    · have block := h.tail_add_freesize_le (by omega)
      have hh := h.headHigh
      omega
  obtain ⟨r', mem', put, held, -, free⟩ := h.put _ room fits
  exact ⟨r', mem', put, held, free⟩

theorem ringbufPushData_sameRegion (push : ringbufPushData r mem data = some (r', mem')) :
    SameRegion r r' mem mem' := by
  unfold ringbufPushData at push
  dsimp only at push
  split at push
  · obtain ⟨⟨r₁, m₁⟩, first, second⟩ := bind_eq_some_iff.mp push
    exact ((put_sameRegion first).tail r₁.buf).trans (put_sameRegion second)
  · exact put_sameRegion push

/-- A push that returns has written inside the buffer only, whatever the ring is. -/
theorem ringbufPush_sameRegion
    (push : ringbufPush w r mem data len = some (e, r', mem')) : SameRegion r r' mem mem' := by
  unfold ringbufPush at push
  split at push
  · split at push
    · cases push
      exact ⟨⟨rfl, rfl, rfl, rfl⟩, rfl, fun _ _ => rfl⟩
    · obtain ⟨⟨r₁, m₁⟩, put, same⟩ := bind_eq_some_iff.mp push
      cases same
      exact (sameRegion_wrapTail r mem).trans (put_sameRegion put)
  · split at push
    · cases push
      exact ⟨⟨rfl, rfl, rfl, rfl⟩, rfl, fun _ _ => rfl⟩
    split at push
    · cases push
      exact ⟨⟨rfl, rfl, rfl, rfl⟩, rfl, fun _ _ => rfl⟩
    obtain ⟨⟨r₁, m₁⟩, header, rest⟩ := bind_eq_some_iff.mp push
    obtain ⟨⟨r₂, m₂⟩, payload, same⟩ := bind_eq_some_iff.mp rest
    cases same
    rw [ringbufPushLen_eq _ _ (leBytes_length w len)] at header
    exact ((sameRegion_wrapTail r mem).trans (ringbufPushData_sameRegion header)).trans
      ((sameRegion_wrapTail r₁ m₁).trans (ringbufPushData_sameRegion payload))

/-- A pop reads in one piece, or in two of which the second lies at the start of the buffer. -/
theorem pieces_sameShape {split : Prop} [Decidable split]
    (pop : (if split then do
        let (low, r) ← r.get mem n
        let (high, r) ← { r with head := r.buf }.get mem (len - n)
        return (low ++ high, r)
      else r.get mem len) = some (bs, r')) : SameShape r r' := by
  split at pop
  · obtain ⟨⟨low, r₁⟩, first, rest⟩ := bind_eq_some_iff.mp pop
    obtain ⟨⟨high, r₂⟩, second, same⟩ := bind_eq_some_iff.mp rest
    cases same
    exact ((get_sameShape first).atHead r₁.buf).trans (get_sameShape second)
  · exact get_sameShape pop

theorem ringbufPop_sameShape (pop : ringbufPop w r mem = some (e, bs, len, r')) :
    SameShape r r' := by
  unfold ringbufPop at pop
  split at pop
  · cases pop
    exact .refl r
  split at pop
  · obtain ⟨⟨read, r₁⟩, get, same⟩ := bind_eq_some_iff.mp pop
    cases same
    exact (sameShape_wrapHead r).trans (get_sameShape get)
  obtain ⟨⟨cLen, r₁⟩, header, rest⟩ := bind_eq_some_iff.mp pop
  obtain ⟨⟨read, r₂⟩, payload, same⟩ := bind_eq_some_iff.mp rest
  cases same
  exact ((sameShape_wrapHead r).trans (pieces_sameShape header)).trans
    ((sameShape_wrapHead r₁).trans (pieces_sameShape payload))

/-- The header read of a pop returns the first `w` bytes. -/
theorem ringbufPopLen_spec (h : Holds r mem (cLen ++ bs)) (width : cLen.length = w)
    (before : r.head < r.endp) : ∃ r', ringbufPopLen w r mem = some (cLen, r') ∧ Holds r' mem bs ∧
      r'.freesize = r.freesize + w := by
  subst width
  unfold ringbufPopLen
  dsimp only
  split
  · rename_i wraps
    obtain ⟨low, r₁, high, r', first, second, both, held, free⟩ := h.getSplit wraps.1
    exact ⟨r', by simp [first, second, both], held, free⟩
  · rename_i whole
    obtain ⟨r', got, held, -, free⟩ := h.get (by omega)
    exact ⟨r', got, held, free⟩

/-- The payload read of a pop returns the payload. A byte is free by then, the header's. -/
theorem ringbufPopData_spec (h : Holds r mem (data ++ bs)) (some_data : 0 < data.length)
    (some_free : 0 < r.freesize) :
    ∃ r', ringbufPopData r mem data.length = some (data, r') ∧ Holds r' mem bs := by
  unfold ringbufPopData
  dsimp only
  split
  · rename_i wraps
    obtain ⟨low, r₁, high, r', first, second, both, held, -⟩ := h.getSplit wraps.2
    exact ⟨r', by simp [first, second, both], held⟩
  rename_i whole
  have room : r.head + data.length ≤ r.endp := by
    by_cases order : r.tail < r.head
    · omega
    have block := h.head_add_le_tail (by omega)
      (by simp only [length_append]; omega) some_free
    simp only [length_append] at block
    have th := h.tailHigh
    omega
  obtain ⟨r', got, held, -, -⟩ := h.get room
  exact ⟨r', got, held⟩

/-! ## Messages -/

/-- The image of a message in the ring: its length as a `size_t`, then its bytes. -/
def msgBytes (w : Nat) (msg : Bytes) : Bytes := leBytes w msg.length ++ msg

/-- The image of a queue of messages. -/
def queueBytes (w : Nat) (q : List Bytes) : Bytes := (q.map (msgBytes w)).flatten

/-- The bytes a queue takes: the sum of `sizeof(size_t) + length`. -/
def queueSize (w : Nat) (q : List Bytes) : Nat := (q.map fun msg => w + msg.length).sum

@[simp] theorem msgBytes_length (w : Nat) (msg : Bytes) :
    (msgBytes w msg).length = w + msg.length := by
  simp [msgBytes]

@[simp] theorem queueBytes_length (w : Nat) (q : List Bytes) :
    (queueBytes w q).length = queueSize w q := by
  simp [queueBytes, queueSize, length_flatten, Function.comp_def]

theorem queueBytes_snoc (w : Nat) (q : List Bytes) (msg : Bytes) :
    queueBytes w (q ++ [msg]) = queueBytes w q ++ msgBytes w msg := by
  simp [queueBytes]

theorem queueBytes_cons (w : Nat) (msg : Bytes) (q : List Bytes) :
    queueBytes w (msg :: q) = msgBytes w msg ++ queueBytes w q := by
  simp [queueBytes]

@[simp] theorem queueSize_nil (w : Nat) : queueSize w [] = 0 := rfl

@[simp] theorem queueSize_cons (w : Nat) (msg : Bytes) (q : List Bytes) :
    queueSize w (msg :: q) = w + msg.length + queueSize w q := by
  simp [queueSize]

/-- A message length the ring is specified for: 1 to `RINGBUF_LEN_3BYTES_MAXVALUE`. -/
def MsgOk (msg : Bytes) : Prop :=
  1 ≤ msg.length ∧ msg.length ≤ ringbufLen3bytesMaxvalue
  deriving Decidable

/-- The dynamic ring at `[base, base + cap)` contains exactly the messages `q`, oldest first. -/
structure Queues (w base cap : Nat) (r : KRingbuf) (mem : Mem) (q : List Bytes) : Prop where
  buf : r.buf = base
  endp : r.endp = base + cap
  type : r.type = .dyn
  ok : ∀ msg ∈ q, MsgOk msg
  held : Holds r mem (queueBytes w q)

/-- `sizeof(size_t)` on the targets of the kernel. -/
def SizeT (w : Nat) : Prop := w = 4 ∨ w = 8
  deriving Decidable

theorem MsgOk.fits {msg : Bytes} (width : SizeT w) (ok : MsgOk msg) : w + msg.length < 256 ^ w := by
  have bound := ok.2
  unfold ringbufLen3bytesMaxvalue at bound
  rcases width with rfl | rfl <;> norm_num <;> omega

theorem SizeT.pos (width : SizeT w) : 0 < w := by
  rcases width with rfl | rfl <;> decide

/-- A push to a dynamic ring appends the image of its message if there is room for it, and changes
nothing otherwise. -/
theorem ringbufPush_dyn (msg data : Bytes) (wpos : 0 < w) (h : Holds r mem bs)
    (type : r.type = .dyn) (reads : data.take msg.length = msg) (pos : 0 < msg.length)
    (bound : msg.length < 0xffffffff) (small : w + msg.length < 256 ^ w) :
    if w + msg.length ≤ r.freesize then
      ∃ r' mem', ringbufPush w r mem data msg.length = some (.success, r', mem') ∧
        Holds r' mem' (bs ++ msgBytes w msg) ∧ SameRegion r r' mem mem'
    else ringbufPush w r mem data msg.length = some (.ringbufFull, r, mem) := by
  have free := h.free
  have inRange : ¬(msg.length = 0 ∨ msg.length ≥ 0xffffffff) := by omega
  have noWrap := Nat.mod_eq_of_lt small
  split
  · rename_i room
    have nonempty : r.buf < r.endp := by omega
    have enough : ¬ r.freesize < w + msg.length := by omega
    have shape := sameRegion_wrapTail r mem
    obtain ⟨r₁, m₁, header, held₁, free₁⟩ := ringbufPushData_spec (leBytes w msg.length) h.wrapTail
        (by rw [shape.endp]; exact wrapTail_lt h.tailHigh nonempty)
        (by rw [wrapTail_freesize, leBytes_length]; omega)
    rw [wrapTail_freesize, leBytes_length] at free₁
    have same₁ := ringbufPushData_sameRegion header
    rw [← ringbufPushLen_eq _ _ (leBytes_length w msg.length)] at header
    have nonempty₁ : r₁.buf < r₁.endp := by
      rw [same₁.buf, same₁.endp, shape.buf, shape.endp]
      exact nonempty
    obtain ⟨r₂, m₂, payload, held₂, -⟩ := ringbufPushData_spec msg held₁.wrapTail
        (by rw [(sameRegion_wrapTail r₁ m₁).endp]; exact wrapTail_lt held₁.tailHigh nonempty₁)
        (by rw [wrapTail_freesize]; omega)
    have push : ringbufPush w r mem data msg.length = some (.success, r₂, m₂) := by
      simp only [ringbufPush, type, if_neg inRange, noWrap, if_neg enough]
      simp [header, payload, reads]
    refine ⟨r₂, m₂, push, ?_, ringbufPush_sameRegion push⟩
    rw [msgBytes, ← append_assoc]
    exact held₂
  · rename_i full
    have short : r.freesize < w + msg.length := by omega
    simp only [ringbufPush, type, if_neg inRange, noWrap, if_pos short]

/-- A pop of a dynamic ring returns the message whose image comes first. -/
theorem ringbufPop_dyn {msg : Bytes} (wpos : 0 < w) (h : Holds r mem (msgBytes w msg ++ bs))
    (type : r.type = .dyn) (pos : 0 < msg.length) (small : msg.length < 256 ^ w) :
    ∃ r', ringbufPop w r mem = some (.success, msg, msg.length, r') ∧ Holds r' mem bs ∧
      SameShape r r' := by
  have free := h.free
  simp only [length_append, msgBytes_length] at free
  have nonempty : r.buf < r.endp := by omega
  have occupied : ringbufIsEmpty r = false := by
    simp only [ringbufIsEmpty, decide_eq_false_iff_not]
    omega
  have held := h.wrapHead
  rw [msgBytes, append_assoc] at held
  obtain ⟨r₁, header, held₁, free₁⟩ := ringbufPopLen_spec held (leBytes_length w msg.length)
      (by rw [(sameShape_wrapHead r).endp]; exact wrapHead_lt h.headHigh nonempty)
  have length : leNat (leBytes w msg.length) = msg.length := leNat_leBytes small
  obtain ⟨r₂, payload, held₂⟩ :=
    ringbufPopData_spec held₁.wrapHead pos (by rw [wrapHead_freesize, free₁]; omega)
  have pop : ringbufPop w r mem = some (.success, msg, msg.length, r₂) := by
    simp [ringbufPop, occupied, type, header, length, payload]
  exact ⟨r₂, pop, held₂, ringbufPop_sameShape pop⟩

variable {base cap : Nat} {q : List Bytes} {msg : Bytes}

/-- The free count is what the queued messages leave. -/
theorem Queues.freesize_eq (h : Queues w base cap r mem q) : r.freesize + queueSize w q = cap := by
  have free := h.held.free
  rw [queueBytes_length, h.buf, h.endp] at free
  omega

/-- A push that fits appends its message; one that does not changes nothing. -/
theorem ringbufPush_spec (width : SizeT w) (h : Queues w base cap r mem q) (ok : MsgOk msg) :
    if queueSize w q + (w + msg.length) ≤ cap then
      ∃ r' mem', ringbufPush w r mem msg msg.length = some (.success, r', mem') ∧
        Queues w base cap r' mem' (q ++ [msg]) ∧
        ∀ x, x < base ∨ base + cap ≤ x → mem' x = mem x
    else ringbufPush w r mem msg msg.length = some (.ringbufFull, r, mem) := by
  have free := h.freesize_eq
  have bound : msg.length < 0xffffffff := by
    have high := ok.2
    unfold ringbufLen3bytesMaxvalue at high
    omega
  have push := ringbufPush_dyn msg msg width.pos h.held h.type take_length ok.1 bound
    (ok.fits width)
  split
  · rename_i room
    rw [if_pos (by omega)] at push
    obtain ⟨r', mem', push, held, same⟩ := push
    refine ⟨r', mem', push, ?_, fun x out => ?_⟩
    · refine ⟨same.buf.trans h.buf, same.endp.trans h.endp, same.type.trans h.type, ?_, ?_⟩
      · intro m mem'
        rcases mem_append.mp mem' with old | new
        · exact h.ok m old
        · rw [mem_singleton.mp new]
          exact ok
      · rw [queueBytes_snoc]
        exact held
    · apply same.outside
      rw [h.buf, h.endp]
      exact out
  · rename_i full
    rw [if_neg (by omega)] at push
    exact push

/-- A pop of an empty queue reports it and changes nothing. -/
theorem ringbufPop_nil (h : Queues w base cap r mem []) :
    ringbufPop w r mem = some (.ringbufEmpty, [], 0, r) := by
  have free := h.freesize_eq
  have empty : ringbufIsEmpty r = true := by
    simp only [ringbufIsEmpty, decide_eq_true_eq, h.buf, h.endp]
    simp only [queueSize_nil] at free
    omega
  simp [ringbufPop, empty]

/-- A pop of a non-empty queue returns the oldest message, whole, and removes it. -/
theorem ringbufPop_cons (width : SizeT w) (h : Queues w base cap r mem (msg :: q)) :
    ∃ r', ringbufPop w r mem = some (.success, msg, msg.length, r') ∧
      Queues w base cap r' mem q := by
  have ok := h.ok msg (mem_cons_self)
  have fits := ok.fits width
  obtain ⟨r', pop, held, shape⟩ :=
    ringbufPop_dyn width.pos (queueBytes_cons w msg q ▸ h.held) h.type
    ok.1 (by omega)
  exact ⟨r', pop, shape.buf.trans h.buf, shape.endp.trans h.endp, shape.type.trans h.type,
    fun m mem' => h.ok m (mem_cons_of_mem _ mem'), held⟩

/-- A reset empties the queue. -/
theorem ringbufReset_spec (h : Queues w base cap r mem q) :
    Queues w base cap (ringbufReset r) mem [] := by
  have bounds := h.held.tailLow.trans h.held.tailHigh
  exact ⟨h.buf, h.endp, h.type, by simp, .reset bounds⟩

theorem ringbufInit_spec (base cap blockSize : Nat) :
    Queues w base cap (ringbufInit base cap .dyn blockSize) mem [] :=
  ⟨rfl, rfl, rfl, by simp, .reset (Nat.le_add_right _ _)⟩

/-! ## Whole runs -/

/-- One call on a dynamic ring. -/
inductive RingbufOp where
  | push (msg : Bytes)
  | pop
  | reset
  deriving DecidableEq, Repr

/-- What one call returns. -/
inductive RingbufOut where
  | pushed (stat : Kstat)
  | popped (stat : Kstat) (data : Bytes) (len : Nat)
  | wasReset
  deriving DecidableEq, Repr

/-- A call with a message length in the specified range. -/
def RingbufOp.Ok : RingbufOp → Prop
  | .push msg => MsgOk msg
  | .pop | .reset => True

instance (op : RingbufOp) : Decidable op.Ok := by
  cases op <;> unfold RingbufOp.Ok <;> infer_instance

/-- One call of the code. -/
def ringbufStep (w : Nat) (r : KRingbuf) (mem : Mem) :
    RingbufOp → Option (RingbufOut × KRingbuf × Mem)
  | .push msg => do
    let (stat, r, mem) ← ringbufPush w r mem msg msg.length
    return (.pushed stat, r, mem)
  | .pop => do
    let (stat, data, len, r) ← ringbufPop w r mem
    return (.popped stat data len, r, mem)
  | .reset => some (.wasReset, ringbufReset r, mem)

/-- A sequence of calls of the code. -/
def ringbufRun (w : Nat) (r : KRingbuf) (mem : Mem) :
    List RingbufOp → Option (List RingbufOut × KRingbuf × Mem)
  | [] => some ([], r, mem)
  | op :: ops => do
    let (out, r, mem) ← ringbufStep w r mem op
    let (outs, r, mem) ← ringbufRun w r mem ops
    return (out :: outs, r, mem)

/-- One call on the queue a dynamic ring stands for: a queue of messages of bounded size. -/
def fifoStep (w cap : Nat) (q : List Bytes) : RingbufOp → RingbufOut × List Bytes
  | .push msg =>
    if queueSize w q + (w + msg.length) ≤ cap then (.pushed .success, q ++ [msg])
    else (.pushed .ringbufFull, q)
  | .pop =>
    match q with
    | [] => (.popped .ringbufEmpty [] 0, [])
    | msg :: rest => (.popped .success msg msg.length, rest)
  | .reset => (.wasReset, [])

/-- A sequence of calls on the queue. -/
def fifoRun (w cap : Nat) (q : List Bytes) : List RingbufOp → List RingbufOut × List Bytes
  | [] => ([], q)
  | op :: ops =>
    let (out, q) := fifoStep w cap q op
    let (outs, q) := fifoRun w cap q ops
    (out :: outs, q)

/-- The messages the code took: those of the pushes that returned success. -/
def acceptedMsgs : List RingbufOp → List RingbufOut → List Bytes
  | .push msg :: ops, .pushed .success :: outs => msg :: acceptedMsgs ops outs
  | _ :: ops, _ :: outs => acceptedMsgs ops outs
  | _, _ => []

/-- The messages the code handed out. -/
def deliveredMsgs : List RingbufOut → List Bytes
  | .popped .success data _ :: outs => data :: deliveredMsgs outs
  | _ :: outs => deliveredMsgs outs
  | [] => []

/-- One call of the code is one call on the queue. -/
theorem ringbufStep_refines (width : SizeT w) (h : Queues w base cap r mem q) {op : RingbufOp}
    (ok : op.Ok) :
    ∃ r' mem', ringbufStep w r mem op = some ((fifoStep w cap q op).1, r', mem') ∧
      Queues w base cap r' mem' (fifoStep w cap q op).2 ∧
      ∀ x, x < base ∨ base + cap ≤ x → mem' x = mem x := by
  cases op with
  | push msg =>
    have spec := ringbufPush_spec width h ok
    by_cases room : queueSize w q + (w + msg.length) ≤ cap
    · rw [if_pos room] at spec
      obtain ⟨r', mem', pushed, queues, outside⟩ := spec
      refine ⟨r', mem', ?_, ?_, outside⟩
      · simp [ringbufStep, fifoStep, room, pushed]
      · simpa [fifoStep, room] using queues
    · rw [if_neg room] at spec
      refine ⟨r, mem, ?_, ?_, fun _ _ => rfl⟩
      · simp [ringbufStep, fifoStep, room, spec]
      · simpa [fifoStep, room] using h
  | pop =>
    cases q with
    | nil => exact ⟨r, mem, by simp [ringbufStep, fifoStep, ringbufPop_nil h], h, fun _ _ => rfl⟩
    | cons =>
      obtain ⟨r', popped, queues⟩ := ringbufPop_cons width h
      exact ⟨r', mem, by simp [ringbufStep, fifoStep, popped], queues, fun _ _ => rfl⟩
  | reset => exact ⟨ringbufReset r, mem, rfl, ringbufReset_spec h, fun _ _ => rfl⟩

/-- Any sequence of calls of the code is that sequence on the queue. -/
theorem ringbufRun_refines (width : SizeT w) (ops : List RingbufOp) (ok : ∀ op ∈ ops, op.Ok)
    (h : Queues w base cap r mem q) :
    ∃ r' mem', ringbufRun w r mem ops = some ((fifoRun w cap q ops).1, r', mem') ∧
      Queues w base cap r' mem' (fifoRun w cap q ops).2 ∧
      ∀ x, x < base ∨ base + cap ≤ x → mem' x = mem x := by
  induction ops generalizing r mem q with
  | nil => exact ⟨r, mem, rfl, h, fun _ _ => rfl⟩
  | cons op _ ih =>
    obtain ⟨r₁, m₁, step, queues₁, out₁⟩ := ringbufStep_refines width h (ok op mem_cons_self)
    obtain ⟨r₂, m₂, run, queues₂, out₂⟩ :=
      ih (fun op' mem' => ok op' (mem_cons_of_mem _ mem')) queues₁
    refine ⟨r₂, m₂, ?_, queues₂, fun x out => (out₂ x out).trans (out₁ x out)⟩
    simp [ringbufRun, fifoRun, step, run]

/-- The queue conserves messages: what was queued and taken is what is handed out and queued. -/
theorem fifoRun_conserves (w cap : Nat) (q : List Bytes) (ops : List RingbufOp)
    (kept : .reset ∉ ops) :
    q ++ acceptedMsgs ops (fifoRun w cap q ops).1 =
      deliveredMsgs (fifoRun w cap q ops).1 ++ (fifoRun w cap q ops).2 := by
  induction ops generalizing q with
  | nil => simp [fifoRun, acceptedMsgs, deliveredMsgs]
  | cons op _ ih =>
    have rest := fun q => ih q (fun mem' => kept (mem_cons_of_mem _ mem'))
    cases op with
    | push msg =>
      by_cases room : queueSize w q + (w + msg.length) ≤ cap
      · simp only [fifoRun, fifoStep, if_pos room, acceptedMsgs, deliveredMsgs]
        rw [← rest, append_assoc, singleton_append]
      · simp only [fifoRun, fifoStep, if_neg room, acceptedMsgs, deliveredMsgs]
        exact rest q
    | pop =>
      cases q with
      | nil =>
        exact rest []
      | cons =>
        simp only [fifoRun, fifoStep, acceptedMsgs, deliveredMsgs, cons_append]
        rw [rest]
    | reset => exact absurd mem_cons_self kept

/-- **The dynamic ring buffer is a queue of messages.** Any sequence of calls from `ringbuf_init`
returns, which by the checked copies says that every byte it copied lay in `[buf, end)`, and
returns what the bounded queue returns: a pop hands out the oldest message with its exact bytes
and length, and a push is refused exactly when the bytes queued would exceed the capacity. The
free count is what the queued messages leave, memory outside the buffer is untouched, and a
refused push changes nothing. Without a reset the messages taken are those handed out, in
order, followed by those still queued. -/
theorem ringbuf_fifo (width : SizeT w) (base cap blockSize : Nat) (mem : Mem)
    (ops : List RingbufOp) (ok : ∀ op ∈ ops, op.Ok) :
    ∃ r' mem', ringbufRun w (ringbufInit base cap .dyn blockSize) mem ops =
        some ((fifoRun w cap [] ops).1, r', mem') ∧
      r'.freesize + queueSize w (fifoRun w cap [] ops).2 = cap ∧
      (∀ x, x < base ∨ base + cap ≤ x → mem' x = mem x) ∧
      (∀ msg, MsgOk msg → (queueSize w (fifoRun w cap [] ops).2 + (w + msg.length) ≤ cap ∧
          ∃ r'' mem'', ringbufPush w r' mem' msg msg.length = some (.success, r'', mem'')) ∨
        (cap < queueSize w (fifoRun w cap [] ops).2 + (w + msg.length) ∧
          ringbufPush w r' mem' msg msg.length = some (.ringbufFull, r', mem'))) ∧
      (.reset ∉ ops → acceptedMsgs ops (fifoRun w cap [] ops).1 =
          deliveredMsgs (fifoRun w cap [] ops).1 ++ (fifoRun w cap [] ops).2) := by
  obtain ⟨r', mem', run, queues, outside⟩ :=
    ringbufRun_refines width ops ok (ringbufInit_spec base cap blockSize)
  refine ⟨r', mem', run, queues.freesize_eq, outside, ?_, ?_⟩
  · intro msg msgOk
    have spec := ringbufPush_spec width queues msgOk
    by_cases room : queueSize w (fifoRun w cap [] ops).2 + (w + msg.length) ≤ cap
    · rw [if_pos room] at spec
      obtain ⟨r'', mem'', pushed, -, -⟩ := spec
      exact .inl ⟨room, r'', mem'', pushed⟩
    · rw [if_neg room] at spec
      exact .inr ⟨Nat.lt_of_not_le room, spec⟩
  · intro kept
    simpa using fifoRun_conserves w cap [] ops kept

/-- A run whose header and payload both wrap: three pushes and two pops in fifteen bytes. -/
theorem ringbuf_fifo_wraps :
    let ops : List RingbufOp := [.push [1, 2, 3], .pop, .push [4, 5, 6, 7, 8], .push [9], .pop]
    (fifoRun 4 15 [] ops).1 =
      [.pushed .success, .popped .success [1, 2, 3] 3, .pushed .success, .pushed .success,
        .popped .success [4, 5, 6, 7, 8] 5] ∧
    ∃ r' mem', ringbufRun 4 (ringbufInit 100 15 .dyn 0) (fun _ => 0) ops =
      some ((fifoRun 4 15 [] ops).1, r', mem') := by
  refine ⟨by decide, ?_⟩
  obtain ⟨r', mem', run, -⟩ := ringbuf_fifo (w := 4) (by decide) 100 15 0 (fun _ => 0)
    [.push [1, 2, 3], .pop, .push [4, 5, 6, 7, 8], .push [9], .pop] (by decide)
  exact ⟨r', mem', run⟩

end AliosThings.Rhino
