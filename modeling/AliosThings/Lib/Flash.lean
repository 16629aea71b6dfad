import AliosThings.Lib.Bytes

/-!
# Flash memories and power cuts

A flash chip is a byte memory with two operations: a write stores bytes, an erase sets a range to
`0xFF`. A program that drives it leaves a list of operations behind; when the power is cut, the
chip holds what a beginning of that list leaves, the last operation of it possibly done in part.
-/

namespace AliosThings

variable {mem mem' mem₁ mem₂ mem₃ : Mem} {a n x b m : Nat}

namespace Mem

/-- Set the `n` bytes from address `a` to `0xFF`. -/
def erase (mem : Mem) (a n : Nat) : Mem := fun x => if a ≤ x ∧ x < a + n then 0xFF else mem x

theorem erase_inside (low : a ≤ x) (high : x < a + n) :
    mem.erase a n x = 0xFF := if_pos ⟨low, high⟩

theorem erase_outside (out : x < a ∨ a + n ≤ x) : mem.erase a n x = mem x := if_neg (by omega)

/-- Two memories agree on `n` bytes from `a`. -/
def SameOn (mem mem' : Mem) (a n : Nat) : Prop := ∀ x, a ≤ x → x < a + n → mem' x = mem x

/-- A smaller range. -/
theorem SameOn.mono (same : SameOn mem mem' a n) (low : a ≤ b) (high : b + m ≤ a + n) :
    SameOn mem mem' b m :=
  fun x from_ before => same x (low.trans from_) (before.trans_le high)

theorem SameOn.trans (first : SameOn mem₁ mem₂ a n) (second : SameOn mem₂ mem₃ a n) :
    SameOn mem₁ mem₃ a n :=
  fun x low high => (second x low high).trans (first x low high)

/-- What is the same is read alike. -/
theorem SameOn.readBytes_eq (same : SameOn mem mem' a n) :
    mem'.readBytes a n = mem.readBytes a n := by
  apply List.ext_getElem
  · simp
  · intro i inside _
    rw [readBytes_length] at inside
    rw [readBytes_getElem, readBytes_getElem]
    exact same _ (by omega) (by omega)

/-- A write elsewhere. -/
theorem writeBytes_sameOn {bs : Bytes} (apart : b + n ≤ a ∨ a + bs.length ≤ b) :
    SameOn mem (mem.writeBytes a bs) b n :=
  fun _ from_ before => writeBytes_outside (by omega)

/-- An erasure elsewhere. -/
theorem erase_sameOn (apart : b + n ≤ a ∨ a + m ≤ b) : SameOn mem (mem.erase a m) b n :=
  fun _ from_ before => erase_outside (by omega)

end Mem

/-! ## Operations -/

/-- What a flash chip is told to do. -/
inductive FlashOp where
  | write (a : Nat) (bs : Bytes)
  | erase (a n : Nat)
  deriving DecidableEq

namespace FlashOp

def run (op : FlashOp) (mem : Mem) : Mem :=
  match op with
  | write a bs => mem.writeBytes a bs
  | erase a n => mem.erase a n

end FlashOp

end AliosThings
