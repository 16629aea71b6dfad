import AliosThings.Rhino.RingbufFifo

/-!
# The fixed-length ring buffer is a queue of blocks

A ring of whole blocks never splits one: head and tail stay on multiples of the block size, so
that a block that is free or held lies before `end`. Without that, when the buffer is not a whole
number of blocks, a block at the end would leave the buffer.
-/

namespace AliosThings.Rhino

open KRingbuf List

/-- The fixed-length ring of `cap` blocks of `n` bytes at `base` contains exactly the blocks `q`,
oldest first. -/
structure Cells (n base cap : Nat) (r : KRingbuf) (mem : Mem) (q : List Bytes) : Prop where
  pos : 0 < n
  buf : r.buf = base
  endp : r.endp = base + n * cap
  type : r.type = .fix
  blkSize : r.blkSize = n
  width : ∀ cell ∈ q, cell.length = n
  aligned : n ∣ r.head - r.buf
  held : Holds r mem q.flatten

theorem KRingbuf.Holds.congr_mem {r : KRingbuf} {mem mem' : Mem} {bs : Bytes}
    (h : Holds r mem bs) (same : ∀ x, r.buf ≤ x → x < r.endp → mem' x = mem x) :
    Holds r mem' bs := by
  refine { h with held := fun i inside => ?_ }
  have free := h.free
  have place : (r.head - r.buf + i) % (r.endp - r.buf) < r.endp - r.buf := Nat.mod_lt _ (by omega)
  rw [same _ (by omega) (by omega)]
  exact h.held i inside

namespace Cells

variable {n base cap w p : Nat} {r : KRingbuf} {mem mem' : Mem} {q : List Bytes} {cell : Bytes}

section

variable (h : Cells n base cap r mem q)
include h

theorem congr_mem (same : ∀ x, r.buf ≤ x → x < r.endp → mem' x = mem x) :
    Cells n base cap r mem' q :=
  { h with held := h.held.congr_mem same }

/-- All blocks have one size. -/
theorem flatten_length : q.flatten.length = n * q.length := by
  rw [length_flatten, map_congr_left h.width, map_const']
  simp [Nat.mul_comm]

theorem region : r.endp - r.buf = n * cap := by
  rw [h.endp, h.buf]
  omega

/-- The free space is what the blocks leave. -/
theorem free : r.freesize + n * q.length = n * cap := by
  rw [← h.flatten_length, ← h.region]
  exact h.held.free

/-- Empty means no block. -/
theorem isEmpty_iff : ringbufIsEmpty r = true ↔ q = [] := by
  have free := h.free
  have region := h.region
  simp only [ringbufIsEmpty, decide_eq_true_eq, region]
  refine ⟨fun all => ?_, fun empty => ?_⟩
  · have none : n * q.length = 0 := by omega
    have pos := h.pos
    exact length_eq_zero_iff.mp ((Nat.mul_eq_zero.mp none).resolve_left (by omega))
  · rw [empty, length_nil, Nat.mul_zero] at free
    omega

/-- A place before the end of the buffer that is a whole number of blocks from its start has room
for a block. -/
theorem room (low : r.buf ≤ p) (before : p < r.endp) (aligned : n ∣ p - r.buf) :
    p + n ≤ r.endp := by
  obtain ⟨k, offset⟩ := aligned
  have region := h.region
  have inside : k < cap := Nat.lt_of_mul_lt_mul_left (a := n) (by omega)
  have room : n * (k + 1) ≤ n * cap := Nat.mul_le_mul_left n inside
  rw [Nat.mul_add, Nat.mul_one] at room
  omega

/-- Blocks are stored at multiples of their size. -/
theorem tail_aligned : n ∣ r.tail - r.buf := by
  have used : n ∣ q.flatten.length := h.flatten_length ▸ Nat.dvd_mul_right n _
  have turn : n ∣ r.endp - r.buf := h.region ▸ Nat.dvd_mul_right n _
  have sum := Nat.dvd_add h.aligned used
  rcases h.held.tail_cases with eq | eq | eq | eq
  · rw [eq]
    exact sum
  · exact (Nat.dvd_add_left turn).mp (eq ▸ sum)
  · exact (Nat.dvd_add_left (Nat.dvd_mul_left_of_dvd turn 2)).mp (eq ▸ sum)
  · rw [eq]
    exact Nat.dvd_add sum turn

/-- A push appends a block if the ring is not full, and changes nothing otherwise. -/
theorem push (data : Bytes) (long : n ≤ data.length) (len : Nat) : if q.length < cap then
      ∃ r' mem', ringbufPush w r mem data len = some (.success, r', mem') ∧
        Cells n base cap r' mem' (q ++ [data.take n]) ∧ SameRegion r r' mem mem'
    else ringbufPush w r mem data len = some (.ringbufFull, r, mem) := by
  have free := h.free
  have pos := h.pos
  have width : (data.take n).length = n := by
    rw [length_take]
    omega
  split
  · next notFull =>
    have more : n * (q.length + 1) ≤ n * cap := Nat.mul_le_mul_left n notFull
    rw [Nat.mul_add, Nat.mul_one] at more
    have region := h.region
    have before : r.wrapTail.tail < r.endp := wrapTail_lt h.held.tailHigh (by omega)
    have room : r.wrapTail.tail + n ≤ r.endp := by
      refine h.room ?_ before ?_
      · have low := h.held.wrapTail.tailLow
        rwa [(sameRegion_wrapTail r mem).buf] at low
      · unfold wrapTail
        split
        · simp
        · exact h.tail_aligned
    obtain ⟨r', mem', put, held, -, -⟩ := h.held.wrapTail.put (data.take n)
      (by rw [width, (sameRegion_wrapTail r mem).endp]; exact room)
      (by rw [width, wrapTail_freesize]; omega)
    have shape := (sameRegion_wrapTail r mem).trans (put_sameRegion put)
    refine ⟨r', mem', ?_, ?_, shape⟩
    · have enough : ¬ r.freesize < n := by omega
      simp only [ringbufPush, h.type, h.blkSize, if_neg enough]
      simp [put]
    · refine ⟨pos, shape.buf.trans h.buf, shape.endp.trans h.endp, shape.type.trans h.type,
        shape.blkSize.trans h.blkSize, fun c inQ => ?_, ?_, ?_⟩
      · rcases mem_append.mp inQ with old | new
        · exact h.width c old
        · rw [mem_singleton.mp new]
          exact width
      · rw [shape.head, shape.buf]
        exact h.aligned
      · simpa using held
  · next full =>
    have all : n * cap ≤ n * q.length := Nat.mul_le_mul_left n (Nat.le_of_not_lt full)
    have short : r.freesize < n := by omega
    simp only [ringbufPush, h.type, h.blkSize, if_pos short]

end

/-- A pop returns the oldest block. -/
theorem pop (h : Cells n base cap r mem (cell :: q)) :
    ∃ r', ringbufPop w r mem = some (.success, cell, n, r') ∧ Cells n base cap r' mem q ∧
      SameShape r r' := by
  have width := h.width cell mem_cons_self
  have free := h.free
  have pos := h.pos
  rw [length_cons, Nat.mul_add, Nat.mul_one] at free
  have occupied : ringbufIsEmpty r = false := by
    rw [Bool.eq_false_iff]
    exact fun empty => cons_ne_nil _ _ (h.isEmpty_iff.mp empty)
  have region := h.region
  have aligned : n ∣ r.wrapHead.head - r.buf := by
    unfold wrapHead
    split
    · simp
    · exact h.aligned
  have low : r.buf ≤ r.wrapHead.head := by
    have low := h.held.wrapHead.headLow
    rwa [(sameShape_wrapHead r).buf] at low
  have room : r.wrapHead.head + n ≤ r.endp :=
    h.room low (wrapHead_lt h.held.headHigh (by omega)) aligned
  have held := h.held.wrapHead
  obtain ⟨r', get, held', head, -⟩ :=
    held.get (by rw [width, (sameShape_wrapHead r).endp]; exact room)
  rw [width] at get head
  have shape := (sameShape_wrapHead r).trans (get_sameShape get)
  refine ⟨r', ?_, ?_, shape⟩
  · simp [ringbufPop, occupied, h.type, h.blkSize, get, shape.blkSize]
  · refine ⟨pos, shape.buf.trans h.buf, shape.endp.trans h.endp, shape.type.trans h.type,
      shape.blkSize.trans h.blkSize, fun c inQ => h.width c (mem_cons_of_mem _ inQ), ?_, held'⟩
    rw [head, shape.buf, Nat.sub_add_comm low]
    exact Nat.dvd_add aligned (Nat.dvd_refl n)

/-- After a reset the ring is empty. -/
theorem reset (h : Cells n base cap r mem q) : Cells n base cap (ringbufReset r) mem [] := { h with
    width := by simp
    aligned := by simp [ringbufReset]
    held := .reset (h.held.tailLow.trans h.held.tailHigh) }

theorem init (base cap : Nat) (pos : 0 < n) :
    Cells n base cap (ringbufInit base (n * cap) .fix n) mem [] where
  pos := pos
  buf := rfl
  endp := rfl
  type := rfl
  blkSize := rfl
  width := by simp
  aligned := by simp [ringbufInit, ringbufReset]
  held := .reset (Nat.le_add_right _ _)

end Cells

end AliosThings.Rhino
