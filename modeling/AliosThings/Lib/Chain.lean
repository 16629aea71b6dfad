import Mathlib.Data.List.Nodup

/-!
# Singly linked lists

A list kept in memory as a start pointer and a `next` pointer in each of its cells. `Chain`
relates the pointers to the cells they lead through.
-/

namespace AliosThings.Lib

variable {α : Type*}

/-- From `start` the pointers lead through the cells of the list, and end. -/
def Chain (next : α → Option α) : Option α → List α → Prop
  | start, [] => start = none
  | start, a :: l => start = some a ∧ Chain next (next a) l

namespace Chain

variable {next next' : α → Option α} {start v : Option α} {l l' : List α} {a : α}

/-- Only the cells of the list matter. -/
theorem congr (same : ∀ a ∈ l, next' a = next a) (h : Chain next start l) :
    Chain next' start l := by
  induction l generalizing start with
  | nil => exact h
  | cons a _ ih =>
    refine ⟨h.1, ?_⟩
    rw [same a List.mem_cons_self]
    exact ih (fun b inRest => same b (List.mem_cons_of_mem a inRest)) h.2

theorem update [DecidableEq α] (out : a ∉ l) (h : Chain next start l) :
    Chain (Function.update next a v) start l := by
  refine h.congr fun b inList => ?_
  have other : b ≠ a := fun same => out (same ▸ inList)
  exact Function.update_of_ne other v next

/-- A new cell in front. -/
theorem cons [DecidableEq α] (out : a ∉ l) (h : Chain next start l) :
    Chain (Function.update next a start) (some a) (a :: l) := by
  refine ⟨rfl, ?_⟩
  rw [Function.update_self]
  exact h.update out

end Chain

/-- The cells that are met from `start` on, up to a number of steps. -/
def follow (next : α → Option α) : Nat → Option α → List α
  | fuel + 1, some a => a :: follow next fuel (next a)
  | _, _ => []

end AliosThings.Lib
