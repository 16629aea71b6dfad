import Mathlib.Data.List.Forall2

/-!
# Messages and what becomes of them

The history of a queue is the list of the messages it has accepted and the list of what has become
of them, both oldest first. `Delivers` compares the two position by position, so it says at once
that every message is dealt with once and that messages are dealt with in the order in which they
were sent; what is left over is what the queue has to hold.
-/

namespace AliosThings.Lib

open List

/-- What has become of a message: receivers have read a value, or it was thrown away. -/
inductive Fate (ρ α : Type) where
  | received (receipts : List (ρ × α))
  | discarded
  deriving DecidableEq

/-- The history of a queue with receivers `ρ` and messages `α`. -/
structure Mailbox (ρ α : Type) where
  /-- The messages accepted, each with the receivers it was due to at once; a message that is due
  to nobody goes to the first receiver that asks. -/
  sent : List (α × List ρ) := []
  fates : List (Fate ρ α) := []

variable {ρ α : Type}

/-- A message has gone to whom it was due to, and nobody has read anything else. -/
def Fate.Fits : Fate ρ α → α × List ρ → Prop
  | received receipts, (m, []) => ∃ r, receipts = [(r, m)]
  | received receipts, (m, due) => receipts = due.map fun r => (r, m)
  | discarded, (_, due) => due = []

namespace Mailbox

/-- The messages `pending` are those not dealt with, and the others were dealt with in turn. -/
def Delivers (box : Mailbox ρ α) (pending : List α) : Prop :=
  ∃ done, box.sent = done ++ pending.map (fun m => (m, [])) ∧ Forall₂ Fate.Fits box.fates done

/-- One step: perhaps a message is accepted, perhaps one is read, perhaps what is left is thrown
away. -/
def note (box : Mailbox ρ α) (post : Option (α × List ρ)) (receipts : List (ρ × α))
    (flush : Bool) : Mailbox ρ α :=
  let sent := box.sent ++ post.toList
  let fates := box.fates ++ if receipts.isEmpty then [] else [.received receipts]
  { sent := sent
    fates := fates ++ if flush then .replicate (sent.length - fates.length) .discarded else [] }

variable {box : Mailbox ρ α} {pending : List α} {m : α}

theorem delivers_nil : ({} : Mailbox ρ α).Delivers [] := ⟨[], rfl, .nil⟩

@[simp] theorem note_nothing (box : Mailbox ρ α) : box.note none [] false = box := by
  simp [note]

/-- A message is posted. -/
theorem Delivers.post (h : box.Delivers pending) (m : α) :
    (box.note (some (m, [])) [] false).Delivers (pending ++ [m]) := by
  obtain ⟨done, sent, fates⟩ := h
  exact ⟨done, by simp [note, sent], by simpa [note] using fates⟩

/-- The first message is taken. -/
theorem Delivers.take (h : box.Delivers (m :: pending)) (r : ρ) :
    (box.note none [(r, m)] false).Delivers pending := by
  obtain ⟨done, sent, fates⟩ := h
  refine ⟨done ++ [(m, [])], by simp [note, sent], ?_⟩
  simp only [note, isEmpty_cons, Bool.false_eq_true, if_false, append_nil]
  exact rel_append fates (.cons ⟨r, rfl⟩ .nil)

/-- A message that is read in the step in which it is accepted overtakes nobody. -/
theorem Delivers.handOver (h : box.Delivers []) {due : List ρ} {receipts : List (ρ × α)}
    (fits : (Fate.received receipts).Fits (m, due)) (read : receipts ≠ []) :
    (box.note (some (m, due)) receipts false).Delivers [] := by
  obtain ⟨done, sent, fates⟩ := h
  refine ⟨done ++ [(m, due)], by simp [note, sent], ?_⟩
  simp only [note, List.isEmpty_iff, if_neg read, Bool.false_eq_true, if_false, append_nil]
  exact rel_append fates (.cons fits .nil)

/-- All messages are dropped. -/
theorem Delivers.flush (h : box.Delivers pending) : (box.note none [] true).Delivers [] := by
  obtain ⟨done, sent, fates⟩ := h
  refine ⟨done ++ pending.map (fun m => (m, [])), by simp [note, sent], ?_⟩
  have left : box.sent.length - box.fates.length = pending.length := by
    rw [sent, fates.length_eq]
    simp
  have thrown : Forall₂ Fate.Fits (.replicate pending.length .discarded)
      (pending.map fun m : α => (m, ([] : List ρ))) := by
    clear left sent
    induction pending with
    | nil => exact .nil
    | cons _ _ ih => exact .cons rfl ih
  simp only [note, Option.toList_none, append_nil, isEmpty_nil, if_true, left]
  exact rel_append fates thrown

end Mailbox

end AliosThings.Lib
