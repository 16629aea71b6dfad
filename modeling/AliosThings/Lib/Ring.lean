import AliosThings.Lib.Bytes
import Mathlib.Data.Nat.ModEq

/-!
# Circular regions of a byte memory

A circular region is `n` bytes at an address `base`, read modulo `n`.
`RingHolds` says that a byte string lies in it from an offset on, wrapping at
the end. Two rules carry every proof about a ring buffer:

- `RingHolds.push`: a contiguous write where the held bytes stop extends them;
- `RingHolds.readBytes_eq`: a contiguous read where the held bytes start
  returns their first part, and `RingHolds.drop` keeps the rest.

A copy that wraps is two contiguous ones, so it is two uses of the same rule.
Offsets are only compared modulo `n`: an offset that rests at `n` and one that
rests at `0` are the same place.
-/

namespace AliosThings

open List

/-- The bytes `bs` lie in the circular region of `n` bytes at `base`, from offset `pos`. -/
def RingHolds (mem : Mem) (base n pos : Nat) (bs : Bytes) : Prop :=
  ∀ i (h : i < bs.length), mem (base + (pos + i) % n) = bs[i]

namespace RingHolds

variable {mem : Mem} {base n pos q pos' : Nat} {as bs : Bytes}

theorem nil : RingHolds mem base n pos [] := by
  intro i h
  simp at h

/-- Offsets equal modulo the size of the region name the same place. -/
theorem congr_pos (same : pos' % n = pos % n) (h : RingHolds mem base n pos bs) :
    RingHolds mem base n pos' bs := by
  intro i inside
  have shift : (pos' + i) % n = (pos + i) % n := Nat.ModEq.add_right i same
  rw [shift]
  exact h i inside

theorem append_iff :
    RingHolds mem base n pos (as ++ bs) ↔
      RingHolds mem base n pos as ∧ RingHolds mem base n (pos + as.length) bs := by
  constructor
  · intro h
    refine ⟨?_, ?_⟩
    · intro i inside
      have := h i (by simp only [length_append]; omega)
      rwa [getElem_append_left inside] at this
    · intro i inside
      have := h (as.length + i) (by simp only [length_append]; omega)
      rw [getElem_append_right (by omega)] at this
      simpa [Nat.add_assoc] using this
  · rintro ⟨left, right⟩ i inside
    by_cases first : i < as.length
    · rw [getElem_append_left first]
      exact left i first
    simp only [length_append] at inside
    rw [getElem_append_right (by omega)]
    have := right (i - as.length) (by omega)
    have place : pos + as.length + (i - as.length) = pos + i := by omega
    rwa [place] at this

/-- What follows a held prefix is held from where the prefix stops. -/
theorem drop (h : RingHolds mem base n pos (as ++ bs)) :
    RingHolds mem base n (pos + as.length) bs :=
  (append_iff.mp h).2

/-- A contiguous read from the offset of held bytes returns them. -/
theorem readBytes_eq (h : RingHolds mem base n pos bs) (same : q % n = pos % n)
    (room : q + bs.length ≤ n) : mem.readBytes (base + q) bs.length = bs := by
  apply Mem.readBytes_eq_of_forall
  intro i inside
  have held := h i inside
  have place : (pos + i) % n = q + i := by
    rw [← Nat.mod_eq_of_lt (show q + i < n by omega)]
    exact Nat.ModEq.add_right i (Nat.ModEq.symm same)
  rw [place] at held
  rw [Nat.add_assoc]
  exact held

/-- A contiguous write where held bytes stop, with room for both, extends them. -/
theorem push (h : RingHolds mem base n pos as) (same : q % n = (pos + as.length) % n)
    (room : q + bs.length ≤ n) (total : as.length + bs.length ≤ n) :
    RingHolds (mem.writeBytes (base + q) bs) base n pos (as ++ bs) := by
  rw [append_iff]
  refine ⟨?_, ?_⟩
  · intro i inside
    rw [Mem.writeBytes_outside]
    · exact h i inside
    -- a held byte inside the written block would repeat within one turn of the region
    by_contra hit
    have low : q ≤ (pos + i) % n := by omega
    have high : (pos + i) % n < q + bs.length := by omega
    obtain ⟨j, hj⟩ := Nat.exists_eq_add_of_le low
    have turn : (pos + i) ≡ (pos + (as.length + j)) [MOD n] := by
      have first : (pos + i) ≡ q + j [MOD n] := by
        rw [← hj]
        exact (Nat.mod_modEq _ _).symm
      have second : q + j ≡ pos + as.length + j [MOD n] := Nat.ModEq.add_right j same
      rw [← Nat.add_assoc]
      exact first.trans second
    have apart : i ≡ as.length + j [MOD n] := Nat.ModEq.add_left_cancel' pos turn
    have eq := apart.eq_of_lt_of_lt (by omega) (by omega)
    omega
  · intro i inside
    have place : (pos + as.length + i) % n = q + i := by
      rw [← Nat.mod_eq_of_lt (show q + i < n by omega)]
      exact Nat.ModEq.add_right i (Nat.ModEq.symm same)
    rw [place, ← Nat.add_assoc]
    exact Mem.writeBytes_inside _ _ _ _ inside

end RingHolds

end AliosThings
