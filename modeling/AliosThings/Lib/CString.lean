import AliosThings.Lib.Bytes

/-!
# C strings

Bytes as the string functions of C see them: up to the first zero. `strncmpSame` is the case in
which `strncmp` finds no difference; it compares no further than a zero that both texts have.
-/

namespace AliosThings.Lib

open List

/-- The bytes before the first zero. -/
def cString (bytes : Bytes) : Bytes := bytes.takeWhile (· ≠ 0)

/-- Whether `strncmp` finds no difference within `n` characters. -/
def strncmpSame (a b : Bytes) (n : Nat) : Bool := cString (a.take n) = cString (b.take n)

/-- Distance of the first `c`, or nothing if the string ends before it. -/
def strchr (c : UInt8) : Bytes → Option Nat
  | [] => none
  | b :: text => if b = c then some 0 else if b = 0 then none else (strchr c text).map (· + 1)

theorem cString_append {a : Bytes} (text : (0 : UInt8) ∉ a) (b : Bytes) :
    cString (a ++ b) = a ++ cString b := by
  apply takeWhile_append_of_pos
  intro c inside
  have nonzero : c ≠ 0 := fun zero => text (zero ▸ inside)
  simpa using nonzero

theorem cString_of_text {a : Bytes} (text : (0 : UInt8) ∉ a) : cString a = a := by
  have whole := cString_append text []
  rwa [append_nil, show cString [] = [] from rfl, append_nil] at whole

/-- The rest of a text is a text. -/
theorem cString_drop (bytes : Bytes) {i : Nat} (inside : i ≤ (cString bytes).length) :
    cString (bytes.drop i) = (cString bytes).drop i := by
  induction bytes generalizing i with
  | nil => simp [cString]
  | cons c bytes ih =>
    cases i
    case zero => rfl
    case succ i =>
    by_cases zero : c = 0
    · rw [cString, takeWhile_cons_of_neg (by simp [zero])] at inside
      cases inside
    have text : cString (c :: bytes) = c :: cString bytes := by
      rw [cString, takeWhile_cons_of_pos (by simp [zero])]
      rfl
    rw [text] at inside ⊢
    exact ih (Nat.le_of_succ_le_succ inside)

/-- Against a text without zeros in its first `n` bytes nothing is overlooked. -/
theorem strncmpSame_iff {a b : Bytes} {n : Nat} (text : (0 : UInt8) ∉ b) (long : n ≤ b.length) :
    strncmpSame a b n = true ↔ a.take n = b.take n := by
  have inside : (0 : UInt8) ∉ b.take n := fun mem => text (mem_of_mem_take mem)
  rw [strncmpSame, decide_eq_true_iff, cString_of_text inside]
  constructor
  · intro same
    have front : cString (a.take n) <+: a.take n := takeWhile_prefix _
    rw [same] at front
    apply (front.eq_of_length_le _).symm
    rw [length_take, length_take]
    omega
  · intro same
    rw [same, cString_of_text inside]

end AliosThings.Lib
