import AliosThings.Rhino.Task

/-!
# Times modulo the range of the tick counter

The tick list and the list of timers hold match times modulo `2 ^ 64`. Within half that range of
each other, an unsigned difference is the time that remains and its sign tells what is due.
-/

namespace AliosThings.Rhino

variable {now d a b : Nat}

theorem tickSub_of_le (later : now ≤ d) (near : d < now + tickRange) :
    tickSub (d % tickRange) (now % tickRange) = d - now := by
  simp only [tickSub, tickRange] at *
  omega

/-- A small difference is that of a time that has not passed. -/
theorem le_of_tickSub_lt (past : now < d + tickRange / 2)
    (small : tickSub (d % tickRange) (now % tickRange) < tickRange / 2) : now ≤ d := by
  simp only [tickSub, tickRange] at *
  omega

/-- The sign of the difference tells what is due, within half the range. -/
theorem tickExpired_iff (past : now < d + tickRange / 2) (future : d < now + tickRange / 2) :
    tickExpired (d % tickRange) (now % tickRange) = true ↔ d ≤ now := by
  unfold tickExpired tickSub
  rw [Bool.or_eq_true, decide_eq_true_iff, decide_eq_true_iff]
  simp only [tickRange] at *
  omega

/-- What is due is still due later, within half the range. -/
theorem tickExpired_later (near : tickSub d now < tickRange / 2) (short : a + b < tickRange / 2)
    (expired : tickExpired d ((now + a) % tickRange) = true) :
    tickExpired d ((now + a + b) % tickRange) = true := by
  unfold tickExpired at expired ⊢
  rw [Bool.or_eq_true, decide_eq_true_iff, decide_eq_true_iff] at expired ⊢
  simp only [tickSub, tickRange] at *
  omega

end AliosThings.Rhino
