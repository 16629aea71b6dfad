import Mathlib.Tactic.Ring

/-!
# Milliseconds and ticks (`k_time.c`)

Both conversions round by adding to what they convert before they divide: one less than a unit of
the result has, as far as integer division tells. For `krhino_ms_to_ticks` that is rounding up
exactly if a tick is a whole number of milliseconds or a millisecond a whole number of ticks.
-/

namespace AliosThings.Rhino

/-- `RHINO_CONFIG_TICKS_PER_SECOND` is `rate`. The product of the last line is an `int`, which is
large enough up to a million ticks per second. -/
def krhinoMsToTicks (rate ms : Nat) : Nat :=
  let surplus := ms % 1000 % 2 ^ 16
  let ticks := ms / 1000 * rate % 2 ^ 64
  let padding := 1000 / rate % 2 ^ 16
  let padding := if padding > 0 then padding - 1 else 0
  (ticks + (surplus + padding) * rate / 1000) % 2 ^ 64

def krhinoTicksToMs (rate ticks : Nat) : Nat :=
  let surplus := ticks % rate % 2 ^ 32
  let time := ticks / rate * 1000 % 2 ^ 64
  let padding := rate / 1000 % 2 ^ 32
  let padding := if padding > 0 then padding - 1 else 0
  (time + (surplus + padding) * 1000 % 2 ^ 32 / rate) % 2 ^ 64

/-- The ticks last `ms` milliseconds, and less than one tick more. -/
def Covers (rate ms ticks : Nat) : Prop :=
  ms * rate ≤ ticks * 1000 ∧ ticks * 1000 < ms * rate + 1000

variable {rate ms : Nat}

/-- Whole units need no rounding, so that they may be divided with the rest. -/
theorem div_mul_add_mod_mul_div {unit : Nat} (positive : 0 < unit) (n padding factor : Nat) :
    n / unit * factor + (n % unit + padding) * factor / unit = (n + padding) * factor / unit := by
  have whole : (n + padding) * factor =
      unit * (n / unit * factor) + (n % unit + padding) * factor := by
    conv_lhs => rw [← Nat.div_add_mod n unit]
    ring
  rw [whole, Nat.mul_add_div positive]

theorem sub_one_eq (n : Nat) : (if n > 0 then n - 1 else 0) = n - 1 := by
  split <;> omega

/-- The result, if it is not too large for the type. -/
theorem krhinoMsToTicks_eq (low : 1 ≤ rate) (fits : ms * rate < 2 ^ 64) :
    krhinoMsToTicks rate ms = (ms + (1000 / rate - 1)) * rate / 1000 := by
  have most := Nat.div_le_self 1000 rate
  have tick := Nat.div_mul_le_self 1000 rate
  unfold krhinoMsToTicks
  simp only [sub_one_eq]
  rw [Nat.mod_eq_of_lt (by omega : ms % 1000 < _), Nat.mod_eq_of_lt (by omega : 1000 / rate < _),
    Nat.mod_add_mod, div_mul_add_mod_mul_div (by decide)]
  refine Nat.mod_eq_of_lt ?_
  rw [Nat.add_mul, Nat.sub_mul]
  omega

theorem krhinoTicksToMs_eq (low : 1 ≤ rate) (high : rate ≤ 1000000) (ticks : Nat) :
    krhinoTicksToMs rate ticks = (ticks + (rate / 1000 - 1)) * 1000 / rate % 2 ^ 64 := by
  have surplus := Nat.mod_lt ticks low
  unfold krhinoTicksToMs
  simp only [sub_one_eq]
  rw [Nat.mod_eq_of_lt (by omega : ticks % rate < _), Nat.mod_eq_of_lt (by omega : rate / 1000 < _),
    Nat.mod_eq_of_lt (by omega : (ticks % rate + (rate / 1000 - 1)) * 1000 < _), Nat.mod_add_mod,
    div_mul_add_mod_mul_div low]

/-- A tick has `q` milliseconds. -/
theorem covers_of_dvd {q : Nat} (whole : 1000 = rate * q) (fits : ms * rate < 2 ^ 64) :
    Covers rate ms (krhinoMsToTicks rate ms) := by
  have low : 1 ≤ rate := Nat.pos_of_ne_zero (by rintro rfl; omega)
  have most : rate ≤ 1000 := Nat.le_of_dvd (by decide) ⟨q, whole⟩
  rw [krhinoMsToTicks_eq low fits, whole, Nat.mul_div_cancel_left q low, ← whole, Nat.add_mul,
    Nat.sub_mul, Nat.mul_comm q, ← whole]
  generalize ticks : (ms * rate + (1000 - 1 * rate)) / 1000 = n
  have same : n * q * rate = n * 1000 := by
    rw [whole]
    ring
  have enough : ms * rate < (n * q + 1) * rate := by
    rw [Nat.succ_mul]
    omega
  have reached := Nat.mul_le_mul_right rate (Nat.le_of_lt_succ (Nat.lt_of_mul_lt_mul_right enough))
  exact ⟨by omega, by omega⟩

/-- A millisecond has `k` ticks. -/
theorem krhinoMsToTicks_mul {k : Nat} (low : 1 ≤ k) (fits : ms * (1000 * k) < 2 ^ 64) :
    krhinoMsToTicks (1000 * k) ms = ms * k := by
  have padding : 1000 / (1000 * k) - 1 = 0 := by
    rw [← Nat.div_div_eq_div_mul, Nat.div_self (by decide)]
    exact Nat.sub_eq_zero_of_le (Nat.div_le_self 1 k)
  rw [krhinoMsToTicks_eq (by omega) fits, padding, Nat.add_zero, Nat.mul_left_comm,
    Nat.mul_div_cancel_left _ (by decide)]

/-- More milliseconds are not fewer ticks; the ticks last as long as the milliseconds, and less than
a tick longer, exactly if a tick is a whole number of milliseconds or a millisecond a whole number
of ticks; and then `krhino_ticks_to_ms` returns their time, if its type is large enough. -/
theorem krhinoMsToTicks_covers_iff (low : 1 ≤ rate) (high : rate ≤ 1000000) :
    (∀ ms ms', ms ≤ ms' → ms' * rate < 2 ^ 64 →
      krhinoMsToTicks rate ms ≤ krhinoMsToTicks rate ms') ∧
    ((∀ ms, ms * rate < 2 ^ 64 → Covers rate ms (krhinoMsToTicks rate ms)) ↔
      rate ∣ 1000 ∨ 1000 ∣ rate) ∧
    (rate ∣ 1000 ∨ 1000 ∣ rate → ∀ ms, ms * rate < 2 ^ 64 →
      krhinoMsToTicks rate ms * 1000 < 2 ^ 64 * rate →
      krhinoTicksToMs rate (krhinoMsToTicks rate ms) * rate = krhinoMsToTicks rate ms * 1000) := by
  refine ⟨?_, ⟨?_, ?_⟩, ?_⟩
  · intro ms ms' le fits
    have fewer := Nat.mul_le_mul_right rate le
    rw [krhinoMsToTicks_eq low fits, krhinoMsToTicks_eq low (by omega)]
    exact Nat.div_le_div_right (Nat.mul_le_mul_right _ (by omega))
  · -- one millisecond must not be too short
    intro covers
    obtain ⟨enough, -⟩ := covers 1 (by omega)
    rw [krhinoMsToTicks_eq low (by omega)] at enough
    have tick := Nat.div_mul_le_self 1000 rate
    rcases Nat.eq_zero_or_pos (1000 / rate) with none | some
    · rw [none, Nat.add_zero] at enough
      exact .inr (Nat.dvd_of_mod_eq_zero (by omega))
    · rw [Nat.add_sub_of_le some] at enough
      refine .inl ⟨1000 / rate, ?_⟩
      rw [Nat.mul_comm]
      omega
  · rintro (⟨q, whole⟩ | ⟨k, rfl⟩) ms fits
    · exact covers_of_dvd whole fits
    · rw [krhinoMsToTicks_mul (by omega) fits, Covers, Nat.mul_left_comm ms, Nat.mul_comm 1000]
      exact ⟨le_rfl, Nat.lt_add_of_pos_right (by decide)⟩
  · rintro (⟨q, whole⟩ | ⟨k, rfl⟩) ms fits short
    · generalize krhinoMsToTicks rate ms = ticks at short ⊢
      have back : ticks * 1000 = ticks * q * rate := by
        rw [whole]
        ring
      have none : rate / 1000 - 1 = 0 := by
        have most := Nat.div_le_div_right (c := 1000) (Nat.le_of_dvd (by decide) ⟨q, whole⟩)
        omega
      rw [krhinoTicksToMs_eq low high, none, Nat.add_zero, back, Nat.mul_div_cancel _ low,
        Nat.mod_eq_of_lt (Nat.lt_of_mul_lt_mul_right (back ▸ short))]
    · have positive : 0 < k := by omega
      rw [krhinoMsToTicks_mul positive fits] at short ⊢
      rw [krhinoTicksToMs_eq low high, Nat.mul_div_cancel_left _ (by decide), Nat.mul_comm 1000,
        Nat.mul_div_mul_right _ _ (by decide), Nat.mul_comm ms, Nat.mul_add_div positive,
        Nat.div_eq_of_lt (by omega), Nat.add_zero, Nat.mod_eq_of_lt]
      · ring
      · refine Nat.lt_of_mul_lt_mul_right (a := 1000 * k) ?_
        omega

theorem krhinoMsToTicks_covers_hundred : Covers 100 15 (krhinoMsToTicks 100 15) :=
  (krhinoMsToTicks_covers_iff (by decide) (by decide)).2.1.mpr (.inl (by decide)) 15 (by decide)

/-- At three ticks per second a millisecond is no tick. -/
theorem not_covers_three :
    ¬Covers 3 1 (krhinoMsToTicks 3 1) ∧ krhinoTicksToMs 3 (krhinoMsToTicks 3 1) = 0 := by
  unfold Covers
  decide

end AliosThings.Rhino
