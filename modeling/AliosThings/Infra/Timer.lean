import Mathlib.Tactic.Ring

/-!
# Countdown timers (`utils_timer.c`)

A timer holds the time of its end on a 32-bit clock. Each function that reads the clock takes what
it reads, so that two reads of one call may differ: `iotx_time_left` subtracts a second read from
the end after it has compared it with the first.
-/

namespace AliosThings.Infra

/-- `iotx_time_t` -/
structure IotxTime where
  time : UInt32
  deriving DecidableEq

def utilsTimeCountdownMs (timer : Option IotxTime) (clock millisecond : UInt32) : Option IotxTime :=
  timer.map fun _ => ⟨clock + millisecond⟩

def utilsTimeIsExpired (timer : Option IotxTime) (curTime : UInt32) : UInt32 :=
  match timer with
  | none => 1
  | some timer => if curTime - timer.time < 4294967295 / 2 then 1 else 0

def iotxTimeLeft (timer : Option IotxTime) (curTime now : UInt32) : UInt32 :=
  match timer with
  | none => 0
  | some timer => if utilsTimeIsExpired timer curTime ≠ 0 then 0 else timer.time - now

/-- Within half the range of the clock, a timer is expired from its end on. -/
theorem utilsTimeIsExpired_countdown (timer : IotxTime) (start : UInt32) {d : UInt32} {e : Nat}
    (short : d.toNat < 2 ^ 31 - 1) (within : e ≤ d.toNat + 2 ^ 31 - 2) :
    utilsTimeIsExpired (utilsTimeCountdownMs timer start d) (start + .ofNat e) =
      if d.toNat ≤ e then 1 else 0 := by
  have half : (4294967295 / 2 : UInt32).toNat = 2 ^ 31 - 1 := rfl
  refine if_congr ?_ rfl rfl
  rw [UInt32.lt_iff_toNat_lt, half, UInt32.toNat_sub, UInt32.toNat_add, UInt32.toNat_add,
    UInt32.toNat_ofNat']
  omega

/-- What is left is at most the countdown exactly if the end is not between the two reads. -/
theorem countdown_left_le_iff (timer : IotxTime) (start d : UInt32) (short : d.toNat < 2 ^ 31 - 1) :
    (∀ e < d.toNat,
      utilsTimeIsExpired (utilsTimeCountdownMs timer start d) (start + .ofNat e) = 0) ∧
    (∀ e, d.toNat ≤ e → e ≤ d.toNat + 2 ^ 31 - 2 →
      utilsTimeIsExpired (utilsTimeCountdownMs timer start d) (start + .ofNat e) = 1) ∧
    ∀ e e', e ≤ e' → e' ≤ d.toNat + 2 ^ 31 - 2 →
      (iotxTimeLeft (utilsTimeCountdownMs timer start d) (start + .ofNat e) (start + .ofNat e') ≤ d
        ↔ d.toNat ≤ e ∨ e' ≤ d.toNat) := by
  refine ⟨?_, ?_, ?_⟩
  · intro e before
    rw [utilsTimeIsExpired_countdown timer start short (by omega), if_neg (by omega)]
  · intro e after within
    rw [utilsTimeIsExpired_countdown timer start short within, if_pos after]
  · intro e e' order within
    have expired := utilsTimeIsExpired_countdown timer start short (by omega : e ≤ _)
    have left : iotxTimeLeft (utilsTimeCountdownMs timer start d) (start + .ofNat e)
        (start + .ofNat e') =
          if utilsTimeIsExpired (utilsTimeCountdownMs timer start d) (start + .ofNat e) ≠ 0 then 0
          else start + d - (start + .ofNat e') := rfl
    rw [left, expired]
    by_cases after : d.toNat ≤ e
    · simp [after]
    · rw [if_neg after, if_neg (not_not_intro rfl), UInt32.le_iff_toNat_le, UInt32.toNat_sub,
        UInt32.toNat_add, UInt32.toNat_add, UInt32.toNat_ofNat']
      omega

theorem countdown_left_wrap : iotxTimeLeft (utilsTimeCountdownMs (some ⟨0⟩) (-5) 10) 3 4 ≤ 10 :=
  ((countdown_left_le_iff ⟨0⟩ (-5) 10 (by decide)).2.2 8 9 (by decide) (by decide)).mpr
    (.inr (by decide))

/-- The end passes between the two reads. -/
theorem not_countdown_left :
    ¬iotxTimeLeft (utilsTimeCountdownMs (some ⟨0⟩) 0 10) 9 11 ≤ 10 := by
  decide

end AliosThings.Infra
