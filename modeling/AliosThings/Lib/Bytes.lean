import Mathlib.Data.List.Basic
import Mathlib.Tactic.Ring

/-!
# Byte memories and little-endian words

A byte memory is a total function from addresses to bytes. `readBytes` and
`writeBytes` are the two block copies every driver in this development is
written with; the laws here say how a block write meets a block read: on the
same block, on a part of it, and on a block it does not touch.

`leBytes` is the little-endian image of a number in a fixed count of bytes.
Reading it back recovers the number whenever it fits (`leNat_leBytes`), which
is the only fact a length header needs.
-/

namespace AliosThings

open List

abbrev Bytes := List UInt8

/-- A byte-addressed memory. -/
abbrev Mem := Nat → UInt8

variable {mem mem' mem'' : Mem} {a n b m x w : Nat} {bs : Bytes} {W : List (Nat × Nat)}

namespace Mem

/-- The `n` bytes from address `a`. -/
def readBytes (mem : Mem) (a n : Nat) : Bytes :=
  (range n).map fun i => mem (a + i)

/-- Store the bytes `bs` from address `a`. -/
def writeBytes (mem : Mem) (a : Nat) (bs : Bytes) : Mem := fun x =>
  if a ≤ x then
    match bs[x - a]? with
    | some b => b
    | none => mem x
  else mem x

@[simp] theorem readBytes_length (mem : Mem) (a n : Nat) : (mem.readBytes a n).length = n := by
  simp [readBytes]

@[simp] theorem readBytes_zero (mem : Mem) (a : Nat) : mem.readBytes a 0 = [] := rfl

theorem readBytes_getD (mem : Mem) (a : Nat) {i : Nat} (inside : i < n) :
    (mem.readBytes a n).getD i 0 = mem (a + i) := by
  simp [readBytes, inside]

theorem readBytes_getElem (mem : Mem) (a n i : Nat) (inside : i < (mem.readBytes a n).length) :
    (mem.readBytes a n)[i] = mem (a + i) := by
  simp [readBytes]

/-- A block is known once each of its bytes is. -/
theorem readBytes_eq_of_forall (each : ∀ i (h : i < bs.length), mem (a + i) = bs[i]) :
    mem.readBytes a bs.length = bs := by
  apply ext_getElem
  · simp
  · intro i _ inside
    rw [readBytes_getElem]
    exact each i inside

/-- A range is read in two parts. -/
theorem readBytes_add (mem : Mem) (a n m : Nat) :
    mem.readBytes a (n + m) = mem.readBytes a n ++ mem.readBytes (a + n) m := by
  simp [readBytes, range_add, Nat.add_assoc, Function.comp_def]

/-- The start of a longer read. -/
theorem readBytes_take (mem : Mem) (a : Nat) (shorter : n ≤ m) :
    (mem.readBytes a m).take n = mem.readBytes a n := by
  obtain ⟨rest, rfl⟩ := Nat.exists_eq_add_of_le shorter
  rw [readBytes_add]
  exact take_left' (readBytes_length mem a n)

theorem writeBytes_inside (mem : Mem) (a : Nat) (bs : Bytes) (i : Nat) (h : i < bs.length) :
    mem.writeBytes a bs (a + i) = bs[i] := by
  simp [writeBytes, h]

/-- A write changes its range only. -/
theorem writeBytes_outside (out : x < a ∨ a + bs.length ≤ x) : mem.writeBytes a bs x = mem x := by
  unfold writeBytes
  split
  · have past : bs.length ≤ x - a := by omega
    rw [getElem?_eq_none past]
  · rfl

/-- A write is read back whole. -/
theorem readBytes_writeBytes (mem : Mem) (a : Nat) (bs : Bytes) :
    (mem.writeBytes a bs).readBytes a bs.length = bs :=
  readBytes_eq_of_forall fun i h => writeBytes_inside mem a bs i h

/-- A read that a write does not touch is unchanged. -/
theorem readBytes_writeBytes_disjoint (apart : b + n ≤ a ∨ a + bs.length ≤ b) :
    (mem.writeBytes a bs).readBytes b n = mem.readBytes b n := by
  apply ext_getElem
  · simp
  · intro i inside _
    rw [readBytes_length] at inside
    rw [readBytes_getElem, readBytes_getElem]
    exact writeBytes_outside (by omega)

/-- A read inside a written block sees the matching part of the written bytes. -/
theorem readBytes_writeBytes_within (low : a ≤ b) (high : b + n ≤ a + bs.length) :
    (mem.writeBytes a bs).readBytes b n = (bs.drop (b - a)).take n := by
  apply ext_getElem
  · simp only [readBytes_length, length_take, length_drop]
    omega
  intro i inside _
  rw [readBytes_length] at inside
  rw [readBytes_getElem, getElem_take, getElem_drop]
  have place : b + i = a + (b - a + i) := by omega
  rw [place]
  exact writeBytes_inside mem a bs (b - a + i) (by omega)

/-- The memories differ at most in the ranges `W`, each given by its first address and length. -/
def SameOutside (W : List (Nat × Nat)) (mem mem' : Mem) : Prop :=
  ∀ x, (∀ r ∈ W, x < r.1 ∨ r.1 + r.2 ≤ x) → mem' x = mem x

theorem SameOutside.refl (W : List (Nat × Nat)) (mem : Mem) : SameOutside W mem mem :=
  fun _ _ => rfl

theorem SameOutside.trans (first : SameOutside W mem mem') (second : SameOutside W mem' mem'') :
    SameOutside W mem mem'' :=
  fun x out => (second x out).trans (first x out)

/-- A write within the ranges. -/
theorem sameOutside_writeBytes (mem : Mem) (inside : (a, bs.length) ∈ W) :
    SameOutside W mem (mem.writeBytes a bs) :=
  fun _ out => writeBytes_outside (out _ inside)

end Mem

/-! ## Little-endian words -/

/-- The low `w` bytes of `n`, least significant first. -/
def leBytes : Nat → Nat → Bytes
  | 0, _ => []
  | w + 1, n => UInt8.ofNat n :: leBytes w (n / 256)

/-- The number a little-endian byte string stands for. -/
def leNat : Bytes → Nat
  | [] => 0
  | b :: rest => b.toNat + 256 * leNat rest

@[simp] theorem leBytes_length (w n : Nat) : (leBytes w n).length = w := by
  induction w generalizing n with
  | zero => rfl
  | succ w ih => simp [leBytes, ih]

/-- Only the low `w` bytes count. -/
theorem leBytes_mod (w n : Nat) : leBytes w (n % 256 ^ w) = leBytes w n := by
  induction w generalizing n with
  | zero => rfl
  | succ w ih =>
    have low : UInt8.ofNat (n % 256 ^ (w + 1)) = UInt8.ofNat n := by
      apply UInt8.toNat_inj.mp
      simp only [UInt8.toNat_ofNat', Nat.reducePow]
      exact Nat.mod_mod_of_dvd n (Dvd.intro_left (256 ^ w) (Nat.pow_succ ..).symm)
    have high : n % 256 ^ (w + 1) / 256 = n / 256 % 256 ^ w := by
      rw [Nat.pow_succ, Nat.mul_comm]
      exact Nat.mod_mul_right_div_self n 256 (256 ^ w)
    simp only [leBytes, low, high, ih]

/-- A number that fits is read back. -/
theorem leNat_leBytes (fits : n < 256 ^ w) : leNat (leBytes w n) = n := by
  induction w generalizing n with
  | zero =>
    have : n = 0 := by simpa using fits
    simp [leBytes, leNat, this]
  | succ w ih =>
    have rest : n / 256 < 256 ^ w := by
      rw [Nat.div_lt_iff_lt_mul (by omega)]
      rw [pow_succ] at fits
      exact fits
    simp only [leBytes, leNat, ih rest, UInt8.toNat_ofNat']
    omega

end AliosThings
