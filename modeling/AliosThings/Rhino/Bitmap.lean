import AliosThings.Lib.BitScan

/-!
# The kernel's bitmaps

`k_bitmap.h` numbers the bits of a word array from the top of word 0, so that the first set bit
is found by counting leading zeros. The count is the usual five-step binary search. The
results say that the search finds the top set bit, and that `krhino_find_first_bit` returns the
least number that is set in the whole map.
-/

namespace AliosThings.Rhino

open Lib Function BitVec

/-! ## Counting zeros -/

/-- One round of the leading-zero search: skip the top `k` bits when they are clear. -/
def clzRound (mask : BitVec 32) (k : Nat) (st : BitVec 32 × Nat) : BitVec 32 × Nat :=
  if st.1 &&& mask = 0 then (st.1 <<< k, st.2 + k) else st

/-- The four shifting rounds of `krhino_find_first_bit`. -/
def clzRounds (x : BitVec 32) (n : Nat) : BitVec 32 × Nat :=
  clzRound 0xC0000000 2 (clzRound 0xF0000000 4 (clzRound 0xFF000000 8
    (clzRound 0xFFFF0000 16 (x, n))))

/-- The whole search from the count `n`; the last round need not shift. -/
def clzFrom (x : BitVec 32) (n : Nat) : Nat :=
  let st := clzRounds x n
  if st.1 &&& 0x80000000 = 0 then st.2 + 1 else st.2

/-- What the leading-zero search keeps: the word has been shifted by the count without loss,
and its value has reached `2 ^ j`. -/
structure ClzState (x : BitVec 32) (n₀ j : Nat) (st : BitVec 32 × Nat) : Prop where
  base : n₀ ≤ st.2
  shifted : st.1.toNat = x.toNat * 2 ^ (st.2 - n₀)
  reached : 2 ^ j ≤ st.1.toNat

variable {x : BitVec 32}

theorem ClzState.round {n₀ : Nat} {st : BitVec 32 × Nat} (mask : BitVec 32) (k : Nat)
    (held : ClzState x n₀ (32 - 2 * k) st) (small : 2 * k ≤ 32)
    (isMask : mask = allOnes 32 <<< (32 - k)) : ClzState x n₀ (32 - k) (clzRound mask k st) := by
  unfold clzRound
  have test := and_highMask_eq_zero_iff st.1 (32 - k)
  rw [← isMask] at test
  have split : 2 ^ (32 - k) * 2 ^ k = 2 ^ 32 := by rw [← pow_add]; congr 1; omega
  have half : 2 ^ (32 - 2 * k) * 2 ^ k = 2 ^ (32 - k) := by rw [← pow_add]; congr 1; omega
  by_cases clear : st.1 &&& mask = 0
  · have low := test.mp clear
    have room : st.1.toNat * 2 ^ k < 2 ^ 32 := by
      rw [← split]; exact Nat.mul_lt_mul_of_pos_right low (Nat.two_pow_pos k)
    rw [if_pos clear]
    refine ⟨Nat.le_add_right_of_le held.base, ?_, ?_⟩
    · rw [toNat_shiftLeft_of_lt _ room, held.shifted, Nat.mul_assoc, ← pow_add]
      have base := held.base
      congr 2
      omega
    · rw [toNat_shiftLeft_of_lt _ room, ← half]
      exact Nat.mul_le_mul_right _ held.reached
  · rw [if_neg clear]
    exact ⟨held.base, held.shifted, Nat.not_lt.mp fun low => clear (test.mpr low)⟩

/-- The rounds halve the part that is left. -/
theorem clzRounds_state (nonzero : x ≠ 0) (n₀ : Nat) : ClzState x n₀ 30 (clzRounds x n₀) := by
  have start : ClzState x n₀ (32 - 2 * 16) (x, n₀) :=
    ⟨le_rfl, by simp, Nat.one_le_iff_ne_zero.mpr fun zero =>
      nonzero (eq_of_toNat_eq zero)⟩
  have held := ClzState.round 0xFFFF0000 16 start (by decide) (by decide)
  have held := ClzState.round 0xFF000000 8 held (by decide) (by decide)
  have held := ClzState.round 0xF0000000 4 held (by decide) (by decide)
  exact ClzState.round 0xC0000000 2 held (by decide) (by decide)

/-- The search stops with the top set bit of a non-zero word moved to bit 31. -/
theorem clzFrom_spec (nonzero : x ≠ 0) (n₀ : Nat) :
    ∃ c, clzFrom x n₀ = n₀ + c ∧ 2 ^ 31 ≤ x.toNat * 2 ^ c ∧ x.toNat * 2 ^ c < 2 ^ 32 := by
  obtain ⟨base, shifted, reached⟩ := clzRounds_state nonzero n₀
  have last := and_highMask_eq_zero_iff (clzRounds x n₀).1 31
  have bound := (clzRounds x n₀).1.isLt
  unfold clzFrom
  generalize clzRounds x n₀ = st at base shifted reached last bound ⊢
  by_cases clear : st.1 &&& 0x80000000 = 0
  · have low := last.mp clear
    have doubled : x.toNat * 2 ^ (st.2 - n₀ + 1) = st.1.toNat * 2 := by
      rw [pow_succ, ← Nat.mul_assoc, shifted]
    refine ⟨st.2 - n₀ + 1, ?_, ?_, ?_⟩
    · simp only [clear, if_true]; omega
    · omega
    · omega
  · have high : 2 ^ 31 ≤ st.1.toNat := Nat.not_lt.mp fun low => clear (last.mpr low)
    refine ⟨st.2 - n₀, ?_, ?_, ?_⟩
    · simp only [clear, if_false]; omega
    · rw [← shifted]; exact high
    · rw [← shifted]; exact bound

/-- Bit `31 - c` is the top set bit of the word. -/
theorem top_bit_of_clz {c : Nat} (low : 2 ^ 31 ≤ x.toNat * 2 ^ c)
    (high : x.toNat * 2 ^ c < 2 ^ 32) :
    c < 32 ∧ x.getLsbD (31 - c) = true ∧ ∀ i, 31 - c < i → x.getLsbD i = false := by
  have positive : 0 < x.toNat := Nat.pos_of_ne_zero fun zero => by simp [zero] at low
  have fits : c < 32 := by
    refine (Nat.pow_lt_pow_iff_right (by omega : 1 < 2)).mp (lt_of_le_of_lt ?_ high)
    exact Nat.le_mul_of_pos_left _ positive
  have powLow : 2 ^ 31 = 2 ^ (31 - c) * 2 ^ c := by rw [← pow_add]; congr 1; omega
  have powHigh : 2 ^ 32 = 2 ^ (31 - c + 1) * 2 ^ c := by rw [← pow_add]; congr 1; omega
  rw [powLow] at low
  rw [powHigh] at high
  have atLeast := Nat.le_of_mul_le_mul_right low (Nat.two_pow_pos c)
  have below := Nat.lt_of_mul_lt_mul_right high
  refine ⟨fits, Nat.testBit_of_two_pow_le_and_two_pow_add_one_gt atLeast below, ?_⟩
  intro i above
  exact Nat.testBit_lt_two_pow (lt_of_lt_of_le below (Nat.pow_le_pow_right (by omega) above))

/-! ## Bitmaps over several words -/

/-- The bit that stands for `nr`, counted from the top of its word. -/
def bitmapMask (nr : Nat) : BitVec 32 := 1#32 <<< (31 - nr % 32)

def krhinoBitmapSet (bitmap : Nat → BitVec 32) (nr : Nat) : Nat → BitVec 32 :=
  update bitmap (nr / 32) (bitmap (nr / 32) ||| bitmapMask nr)

def krhinoBitmapClear (bitmap : Nat → BitVec 32) (nr : Nat) : Nat → BitVec 32 :=
  update bitmap (nr / 32) (bitmap (nr / 32) &&& ~~~ bitmapMask nr)

/-- The scan of `krhino_find_first_bit` from word `i` with `words` words left. The source has
no bound: a map without a set bit makes it read past the array, which is `none` here. -/
def findFirstBitFrom (bitmap : Nat → BitVec 32) : Nat → Nat → Option Nat
  | 0, _ => none
  | words + 1, i =>
    if bitmap i = 0 then findFirstBitFrom bitmap words (i + 1)
    else some (clzFrom (bitmap i) (32 * i))

def krhinoFindFirstBit (words : Nat) (bitmap : Nat → BitVec 32) : Option Nat :=
  findFirstBitFrom bitmap words 0

/-- Whether the number `nr` is set in a bitmap. -/
def bitmapBit (bitmap : Nat → BitVec 32) (nr : Nat) : Bool :=
  (bitmap (nr / 32)).getLsbD (31 - nr % 32)

@[simp] theorem getLsbD_bitmapMask (nr i : Nat) :
    (bitmapMask nr).getLsbD i = decide (i = 31 - nr % 32) := by
  unfold bitmapMask
  by_cases at' : i = 31 - nr % 32
  · subst at'; simp; omega
  · by_cases below : i < 31 - nr % 32
    · simp [below, at']
    · have off : i - (31 - nr % 32) ≠ 0 := by omega
      simp [at', getLsbD_one, off]

section

variable (bitmap : Nat → BitVec 32)
include bitmap

/-- One bit is set. -/
theorem bitmapBit_set (a nr : Nat) :
    bitmapBit (krhinoBitmapSet bitmap a) nr = (decide (nr = a) || bitmapBit bitmap nr) := by
  unfold bitmapBit krhinoBitmapSet
  by_cases word : nr / 32 = a / 32
  · rw [word, update_self, getLsbD_or, getLsbD_bitmapMask, Bool.or_comm]
    congr 1
    exact decide_eq_decide.mpr (by omega)
  · have differ : nr ≠ a := fun same => word (by rw [same])
    simp [update_of_ne word, differ]

/-- One bit is cleared. -/
theorem bitmapBit_clear (a nr : Nat) :
    bitmapBit (krhinoBitmapClear bitmap a) nr = (bitmapBit bitmap nr && !decide (nr = a)) := by
  unfold bitmapBit krhinoBitmapClear
  by_cases word : nr / 32 = a / 32
  · have bound : 31 - nr % 32 < 32 := by omega
    rw [word, update_self, getLsbD_and, getLsbD_not, getLsbD_bitmapMask,
      decide_eq_true bound, Bool.true_and]
    congr 2
    exact decide_eq_decide.mpr (by omega)
  · have differ : nr ≠ a := fun same => word (by rw [same])
    simp [update_of_ne word, differ]

theorem findFirstBitFrom_spec (words i : Nat)
    (below : ∀ nr, nr < 32 * i → bitmapBit bitmap nr = false)
    (some_set : ∃ nr, nr < 32 * (i + words) ∧ bitmapBit bitmap nr = true) :
    ∃ first, findFirstBitFrom bitmap words i = some first ∧ bitmapBit bitmap first = true ∧
      ∀ nr, nr < first → bitmapBit bitmap nr = false := by
  induction words generalizing i with
  | zero =>
    obtain ⟨nr, bound, set⟩ := some_set
    rw [below nr bound] at set
    cases set
  | succ words ih =>
    unfold findFirstBitFrom
    by_cases zero : bitmap i = 0
    · rw [if_pos zero]
      refine ih (i + 1) (fun nr bound => ?_) (by rwa [Nat.add_right_comm])
      by_cases earlier : nr < 32 * i
      · exact below nr earlier
      · have word : nr / 32 = i := by omega
        simp [bitmapBit, word, zero]
    · rw [if_neg zero]
      obtain ⟨c, count, low, high⟩ := clzFrom_spec zero (32 * i)
      obtain ⟨fits, top, clear⟩ := top_bit_of_clz low high
      have word : (32 * i + c) / 32 = i := by omega
      refine ⟨32 * i + c, congrArg some count, ?_, fun nr bound => ?_⟩
      · simp only [bitmapBit, word, show (32 * i + c) % 32 = c by omega, top]
      · by_cases earlier : nr < 32 * i
        · exact below nr earlier
        · have same : nr / 32 = i := by omega
          simp only [bitmapBit, same]
          exact clear _ (by omega)

/-- `krhino_find_first_bit` returns the least number set in the map. -/
theorem krhinoFindFirstBit_spec (words : Nat)
    (some_set : ∃ nr, nr < 32 * words ∧ bitmapBit bitmap nr = true) :
    ∃ first, krhinoFindFirstBit words bitmap = some first ∧ bitmapBit bitmap first = true ∧
      ∀ nr, nr < first → bitmapBit bitmap nr = false :=
  findFirstBitFrom_spec bitmap words 0 (fun nr bound => by omega) (by simpa using some_set)

end

end AliosThings.Rhino
