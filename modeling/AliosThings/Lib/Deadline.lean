import Mathlib.Data.List.Sort

/-!
# Lists in the order of deadlines

A newcomer is put before the first element that is later, that is, behind those with the same
deadline (`List.orderedInsert` with a strict comparison). The list stays in order, and a scan that
stops at the first element that is not due has seen all that are due.
-/

namespace AliosThings.Lib

open List

variable {α : Type*} {a : α} {l : List α} {key : α → Nat}

/-- The order is kept if `later` compares the keys. -/
theorem pairwise_orderedInsert {later : α → α → Prop} [DecidableRel later]
    (sorted : l.Pairwise fun x y => key x ≤ key y) (compares : ∀ b ∈ l, later a b ↔ key a < key b) :
    (l.orderedInsert later a).Pairwise fun x y => key x ≤ key y := by
  induction l with
  | nil => exact pairwise_singleton _ _
  | cons b l ih =>
    obtain ⟨first, rest⟩ := pairwise_cons.mp sorted
    have here := compares b mem_cons_self
    unfold orderedInsert
    split
    · next isLater =>
      have less : key a ≤ key b := (here.mp isLater).le
      refine pairwise_cons.mpr ⟨fun x inList => ?_, sorted⟩
      rcases mem_cons.mp inList with rfl | inRest
      · exact less
      · exact less.trans (first x inRest)
    · next notLater =>
      refine pairwise_cons.mpr ⟨fun x inList => ?_,
        ih rest fun c inRest => compares c (mem_cons_of_mem b inRest)⟩
      rcases (mem_orderedInsert later).mp inList with rfl | inRest
      · exact not_lt.mp (mt here.mpr notLater)
      · exact first x inRest

/-- Behind an element that is not due there is none that is. -/
theorem not_due_of_head {now : Nat} (sorted : (a :: l).Pairwise fun x y => key x ≤ key y)
    (notDue : now < key a) : ∀ b ∈ a :: l, now < key b := by
  intro b inList
  rcases mem_cons.mp inList with rfl | inRest
  · exact notDue
  · exact notDue.trans_le ((pairwise_cons.mp sorted).1 b inRest)

end AliosThings.Lib
