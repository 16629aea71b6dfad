import AliosThings.Lib.Bytes
import Mathlib.Data.List.GetD

/-!
# Bytes in groups of fewer bits (`zconfig_protocol.c`)

Smart config sends a string as symbols of `bits` bits. `encode_chinese` writes the bits of the
string into an array and reads them off in groups of `bits`, `decode_chinese` goes the other way.
-/

namespace AliosThings.Awss

open List

/-- What a call does: it returns without writing, stores bytes and a zero after them, or has no
memory or writes or reads outside its array. -/
inductive Recoded where
  | nothing
  | stored (out : Bytes)
  | fails
  deriving DecidableEq

def bitOf (b : UInt8) (j : Nat) : UInt8 := b >>> .ofNat j &&& 1

/-- The array after `bit[i * width + j] = (in[i] >> j) & 0x01` for each `i` and `j`. -/
def toBits (width : Nat) (input : Bytes) : Bytes :=
  input.flatMap fun b => (range width).map (bitOf b)

/-- `out[i] |= bit[base + j] << j` for each `j` below `width`. -/
def fromBits (width : Nat) (bit : Bytes) (base : Nat) : UInt8 :=
  (range width).foldl (fun out j => out ||| bit.getD (base + j) 0 <<< .ofNat j) 0

def encodeChinese (input : Bytes) (bits : Nat) : Recoded :=
  let outputLen := (input.length * 8 + bits - 1) / bits % 2 ^ 8
  if bits = 0 ∨ bits > 7 then .nothing
  -- `bit` has `ZC_MAX_SSID_LEN * 8` bytes
  else if 33 * 8 < input.length * 8 ∨ 33 * 8 < outputLen * bits then .fails
  else .stored ((range outputLen).map fun i => fromBits bits (toBits 8 input) (i * bits))

/-- `memory` says whether `os_zalloc` succeeds. -/
def decodeChinese (memory : Bool) (input : Bytes) (bits : Nat) : Recoded :=
  let outputLen := input.length * bits / 8 % 2 ^ 8
  if bits = 0 ∨ bits > 7 ∨ input.length = 0 then .nothing
  else if memory = false then .fails
  else .stored ((range outputLen).map fun i => fromBits 8 (toBits bits input) (i * 8))

theorem toNat_toUInt8 (b : Bool) : b.toUInt8.toNat = b.toNat := by
  cases b <;> rfl

theorem bitOf_eq (b : UInt8) {j : Nat} (inByte : j < 8) :
    bitOf b j = (b.toNat.testBit j).toUInt8 := by
  apply UInt8.toNat_inj.mp
  rw [toNat_toUInt8, Nat.toNat_testBit, bitOf, UInt8.toNat_and, UInt8.toNat_shiftRight,
    UInt8.toNat_ofNat', Nat.mod_eq_of_lt (by omega : j < 2 ^ 8), Nat.mod_eq_of_lt inByte,
    Nat.shiftRight_eq_div_pow]
  exact Nat.and_one_is_mod _

section

variable {width : Nat} (positive : 0 < width) (narrow : width ≤ 8)
include narrow

/-- A symbol has the bits it was read off from, and no others. -/
theorem testBit_fromBits {bit : Bytes} {f : Nat → Bool} (isBit : ∀ k, bit.getD k 0 = (f k).toUInt8)
    (base j : Nat) :
    (fromBits width bit base).toNat.testBit j = (decide (j < width) && f (base + j)) := by
  induction width with
  | zero => exact Nat.zero_testBit j
  | succ n ih =>
    have last : ((f (base + n)).toUInt8 <<< UInt8.ofNat n).toNat.testBit j =
        (decide (n = j) && f (base + n)) := by
      have shifted : ∀ n < 8, ∀ b : Bool,
          (b.toUInt8 <<< UInt8.ofNat n).toNat = b.toNat * 2 ^ n := by decide
      rw [shifted n narrow]
      cases f (base + n) with
      | false => simp
      | true =>
        rw [Bool.toNat_true, Nat.one_mul, Nat.testBit_two_pow, Bool.and_true]
    rw [fromBits, range_succ, foldl_append, foldl_cons, foldl_nil, UInt8.toNat_or, Nat.testBit_or,
      ← fromBits, ih (by omega), isBit, last]
    by_cases same : n = j
    · simp [same]
    · simp [same, show j < n + 1 ↔ j < n by omega]

include positive

theorem getD_toBits (input : Bytes) (k : Nat) :
    (toBits width input).getD k 0 =
      ((input.getD (k / width) 0).toNat.testBit (k % width)).toUInt8 := by
  induction input generalizing k with
  | nil =>
    exact (congrArg Bool.toUInt8 (Nat.zero_testBit _)).symm
  | cons b input ih =>
    rw [toBits, flatMap_cons, ← toBits]
    rcases Nat.lt_or_ge k width with first | later
    · have inByte : k < 8 := by omega
      rw [getD_append _ _ _ _ (by simpa using first)]
      simp [first, Nat.div_eq_of_lt first, Nat.mod_eq_of_lt first, bitOf_eq b inByte]
    · obtain ⟨k, rfl⟩ := Nat.exists_eq_add_of_le' later
      rw [getD_append_right _ _ _ _ (by simp), Nat.add_div_right k positive, Nat.add_mod_right]
      simpa using ih k

end

/-- The bytes from symbols that hold all their bits. -/
theorem fromBits_toBits {bits m i : Nat} (positive : 0 < bits) (narrow : bits ≤ 8) {x : Bytes}
    (enough : i * 8 + 8 ≤ m * bits) :
    fromBits 8 (toBits bits ((range m).map fun i => fromBits bits (toBits 8 x) (i * bits)))
      (i * 8) = x.getD i 0 := by
  apply UInt8.toNat_inj.mp
  apply Nat.eq_of_testBit_eq
  intro j
  rw [testBit_fromBits le_rfl (getD_toBits positive narrow _)]
  by_cases inByte : j < 8
  · have inSymbols : (i * 8 + j) / bits < m := (Nat.div_lt_iff_lt_mul positive).mpr (by omega)
    have back : (i * 8 + j) / 8 = i ∧ (i * 8 + j) % 8 = j := by omega
    rw [getD_eq_getElem _ _ (by simpa using inSymbols), getElem_map, getElem_range,
      testBit_fromBits narrow (getD_toBits (by decide) le_rfl x), Nat.div_add_mod', back.1, back.2]
    simp [inByte, Nat.mod_lt _ positive]
  · have large := Nat.pow_le_pow_right (by decide : 0 < 2) (Nat.le_of_not_lt inByte)
    rw [Nat.testBit_lt_two_pow ((x.getD i 0).toNat_lt.trans_le large), decide_eq_false inByte,
      Bool.false_and]

/-- The symbols are below `2 ^ bits`, and what `decode_chinese` makes of them are the bytes. -/
theorem decodeChinese_encodeChinese {bits : Nat} (low : 2 ≤ bits) (high : bits ≤ 7) {x : Bytes}
    (some : 1 ≤ x.length) (short : x.length ≤ 32) :
    ∃ symbols, encodeChinese x bits = .stored symbols ∧ (∀ b ∈ symbols, b.toNat < 2 ^ bits) ∧
      ∀ memory, decodeChinese memory symbols bits = if memory then .stored x else .fails := by
  have positive : 0 < bits := by omega
  have last := Nat.mod_lt (x.length * 8 + bits - 1) positive
  have split := Nat.div_add_mod' (x.length * 8 + bits - 1) bits
  have most : (x.length * 8 + bits - 1) / bits ≤ (x.length * 8 + bits - 1) / 2 :=
    Nat.div_le_div_left low (by decide)
  unfold encodeChinese decodeChinese
  generalize (x.length * 8 + bits - 1) / bits = m at split most
  have nonzero : m ≠ 0 := by
    rintro rfl
    omega
  have small : m % 2 ^ 8 = m := Nat.mod_eq_of_lt (by omega)
  have all : m * bits / 8 % 2 ^ 8 = x.length := by omega
  simp only [small]
  refine ⟨_, by rw [if_neg (by omega), if_neg (by omega)], ?_, ?_⟩
  · intro b inSymbols
    obtain ⟨i, -, rfl⟩ := mem_map.mp inSymbols
    apply Nat.lt_pow_two_of_testBit
    intro j large
    rw [testBit_fromBits (by omega) (getD_toBits (by decide) le_rfl x),
      decide_eq_false (Nat.not_lt.mpr large), Bool.false_and]
  · intro memory
    rw [length_map, length_range, if_neg (by omega), all]
    cases memory with
    | false => rfl
    | true =>
      refine congrArg Recoded.stored (ext_getElem (by simp) ?_)
      intro i first second
      rw [getElem_map, getElem_range, fromBits_toBits positive (by omega) (by omega),
        getD_eq_getElem]

theorem decodeChinese_encodeChinese_wifi :
    ∃ symbols, encodeChinese [0xe6, 0x97] 6 = .stored symbols ∧ (∀ b ∈ symbols, b.toNat < 2 ^ 6) ∧
      decodeChinese true symbols 6 = .stored [0xe6, 0x97] :=
  have ⟨symbols, encoded, below, decoded⟩ := @decodeChinese_encodeChinese 6 (by decide) (by decide)
    [0xe6, 0x97] (by decide) (by decide)
  ⟨symbols, encoded, below, decoded true⟩

end AliosThings.Awss
