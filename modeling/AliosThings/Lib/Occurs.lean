import Mathlib.Data.List.Infix

/-!
# Occurrences of a word, from left to right and without overlap

`occurrences p text` counts the places at which a reader who goes through `text` from the left,
and who skips each occurrence of `p` it finds, meets `p`; `residue p text` is what it did not skip.
`firstAt p text` is the place of the first occurrence.
A machine that sees the text one letter at a time keeps `Scanned`: how often it has met the word,
what it has passed for good, and the letters since the last occurrence, in which the word does not
occur.
-/

namespace AliosThings.Lib

open List

variable {α : Type*} [DecidableEq α] {c : α} {x : List α}

/-- Occurrences in the text after its first `skip` letters. -/
def occurrencesFrom (p : List α) : Nat → List α → Nat
  | _, [] => 0
  | skip + 1, _ :: text => occurrencesFrom p skip text
  | 0, c :: text =>
    if p <+: c :: text then 1 + occurrencesFrom p (p.length - 1) text
    else occurrencesFrom p 0 text

def residueFrom (p : List α) : Nat → List α → List α
  | _, [] => []
  | skip + 1, _ :: text => residueFrom p skip text
  | 0, c :: text =>
    if p <+: c :: text then residueFrom p (p.length - 1) text
    else c :: residueFrom p 0 text

/-- How often `p` occurs, reading from the left and without overlap. -/
def occurrences (p text : List α) : Nat := occurrencesFrom p 0 text

/-- The letters of the text outside these occurrences. -/
def residue (p text : List α) : List α := residueFrom p 0 text

theorem occurrencesFrom_drop (p : List α) (skip : Nat) (text : List α) :
    occurrencesFrom p skip text = occurrences p (text.drop skip) := by
  induction text generalizing skip with
  | nil => cases skip <;> rfl
  | cons _ _ ih =>
    cases skip with
    | zero => rfl
    | succ skip => exact ih skip

theorem residueFrom_drop (p : List α) (skip : Nat) (text : List α) :
    residueFrom p skip text = residue p (text.drop skip) := by
  induction text generalizing skip with
  | nil => cases skip <;> rfl
  | cons _ _ ih =>
    cases skip with
    | zero => rfl
    | succ skip => exact ih skip

/-! ## The first occurrence -/

section First

variable {p : List α}

/-- An occurrence is counted and passed over. -/
theorem occurrences_word (nonempty : p ≠ []) (more : List α) :
    occurrences p (p ++ more) = 1 + occurrences p more ∧
      residue p (p ++ more) = residue p more := by
  cases p
  case nil => exact absurd rfl nonempty
  case cons c p =>
  have here : c :: p <+: c :: (p ++ more) := ⟨more, rfl⟩
  refine ⟨?_, ?_⟩
  · show occurrencesFrom (c :: p) 0 (c :: (p ++ more)) = _
    rw [occurrencesFrom, if_pos here, occurrencesFrom_drop]
    simp
  · show residueFrom (c :: p) 0 (c :: (p ++ more)) = _
    rw [residueFrom, if_pos here, residueFrom_drop]
    simp

/-- An element at which none begins is kept. -/
theorem occurrences_skip {text : List α} (absent : ¬ p <+: c :: text) :
    occurrences p (c :: text) = occurrences p text ∧
      residue p (c :: text) = c :: residue p text := by
  refine ⟨?_, ?_⟩
  · show occurrencesFrom p 0 (c :: text) = _
    rw [occurrencesFrom, if_neg absent]
    rfl
  · show residueFrom p 0 (c :: text) = _
    rw [residueFrom, if_neg absent]
    rfl

omit [DecidableEq α] in
/-- A letter before the first occurrence does not begin the word. -/
theorem not_prefix_of_first (first : ¬ p <:+: (c :: x ++ p).dropLast) (more : List α) :
    ¬ p <+: c :: (x ++ p ++ more) := by
  intro here
  apply first
  have front := dropLast_prefix (c :: (x ++ p))
  have whole : (c :: (x ++ p)).dropLast <+: c :: (x ++ p ++ more) := front.trans ⟨more, by simp⟩
  have room : p.length ≤ (c :: (x ++ p)).dropLast.length := by
    simp
  exact (prefix_of_prefix_length_le here whole room).isInfix

omit [DecidableEq α] in
theorem first_tail (nonempty : p ≠ []) (first : ¬ p <:+: (c :: x ++ p).dropLast) :
    ¬ p <:+: (x ++ p).dropLast := by
  intro inside
  apply first
  have rest : x ++ p ≠ [] := by simp [nonempty]
  rw [cons_append, dropLast_cons_of_ne_nil rest]
  exact infix_cons inside

/-- Letters before the first occurrence are passed. The word occurs at the end of `x ++ p` and not
before. -/
theorem occurrences_first (nonempty : p ≠ []) (first : ¬ p <:+: (x ++ p).dropLast) (more : List α) :
    occurrences p (x ++ p ++ more) = 1 + occurrences p more ∧
      residue p (x ++ p ++ more) = x ++ residue p more := by
  induction x with
  | nil => simpa using occurrences_word nonempty more
  | cons c x ih =>
    have absent := not_prefix_of_first first more
    obtain ⟨count, left⟩ := ih (first_tail nonempty first)
    obtain ⟨count', left'⟩ := occurrences_skip absent
    refine ⟨?_, ?_⟩
    · rw [← count, ← count', cons_append, cons_append]
    · show residue p (c :: (x ++ p ++ more)) = c :: (x ++ residue p more)
      rw [left', left]

/-- No occurrence, nothing skipped. -/
theorem occurrences_absent {text : List α} (absent : ¬ p <:+: text) :
    occurrences p text = 0 ∧ residue p text = text := by
  induction text with
  | nil => exact ⟨rfl, rfl⟩
  | cons c text ih =>
    obtain ⟨count, left⟩ := ih fun inside => absent (infix_cons inside)
    obtain ⟨count', left'⟩ := occurrences_skip fun here : p <+: c :: text => absent here.isInfix
    exact ⟨count'.trans count, by rw [left', left]⟩

/-- Where the word occurs first. -/
def firstAt (p : List α) : List α → Option Nat
  | [] => if p <+: [] then some 0 else none
  | c :: text => if p <+: c :: text then some 0 else (firstAt p text).map (· + 1)

/-- The first occurrence is found. -/
theorem firstAt_first (nonempty : p ≠ []) (first : ¬ p <:+: (x ++ p).dropLast) (more : List α) :
    firstAt p (x ++ p ++ more) = some x.length := by
  induction x with
  | nil =>
    cases p with
    | nil => exact absurd rfl nonempty
    | cons c p =>
      have here : c :: p <+: c :: (p ++ more) := ⟨more, rfl⟩
      show firstAt (c :: p) (c :: (p ++ more)) = some 0
      rw [firstAt, if_pos here]
  | cons c x ih =>
    show firstAt p (c :: (x ++ p ++ more)) = some (x.length + 1)
    rw [firstAt, if_neg (not_prefix_of_first first more), ih (first_tail nonempty first)]
    rfl

theorem firstAt_some {text : List α} {i : Nat} (found : firstAt p text = some i) :
    p <+: text.drop i := by
  induction text generalizing i with
  | nil =>
    rw [firstAt] at found
    split at found
    · cases found
      assumption
    · cases found
  | cons c text ih =>
    rw [firstAt] at found
    split at found
    · cases found
      assumption
    · obtain ⟨j, there, rfl⟩ := Option.map_eq_some_iff.mp found
      exact ih there

end First

/-! ## One letter at a time -/

/-- After `text`: `count` occurrences, `left` passed, and `since` received after the last one. -/
structure Scanned (p text : List α) (count : Nat) (left since : List α) : Prop where
  absent : ¬ p <:+: since
  counts : ∀ more, occurrences p (text ++ more) = count + occurrences p (since ++ more)
  leaves : ∀ more, residue p (text ++ more) = left ++ residue p (since ++ more)

namespace Scanned

variable {p text left since : List α} {count : Nat}

theorem start (nonempty : p ≠ []) : Scanned p [] 0 [] [] where
  absent inside := nonempty (infix_nil.mp inside)
  counts more := by simp
  leaves more := by simp

section

variable (scanned : Scanned p text count left since)
include scanned

theorem nonempty : p ≠ [] := by
  rintro rfl
  exact scanned.absent nil_infix

theorem occurrences_eq : occurrences p text = count := by
  have counts := scanned.counts []
  rwa [append_nil, append_nil, (occurrences_absent scanned.absent).1] at counts

theorem residue_eq : residue p text = left ++ since := by
  have leaves := scanned.leaves []
  rwa [append_nil, append_nil, (occurrences_absent scanned.absent).2] at leaves

/-- The letter completes the word. -/
theorem found (ends : since ++ [c] = x ++ p) :
    Scanned p (text ++ [c]) (count + 1) (left ++ x) [] := by
  have first : ¬ p <:+: (x ++ p).dropLast := by
    rw [← ends, dropLast_concat]
    exact scanned.absent
  have next (more : List α) : since ++ ([c] ++ more) = x ++ p ++ more := by
    rw [← append_assoc, ends]
  refine ⟨fun inside => scanned.nonempty (infix_nil.mp inside), fun more => ?_,
    fun more => ?_⟩
  · rw [append_assoc, scanned.counts, next, (occurrences_first scanned.nonempty first more).1,
      nil_append]
    omega
  · rw [append_assoc, scanned.leaves, next, (occurrences_first scanned.nonempty first more).2,
      nil_append, append_assoc]

/-- The letter does not complete the word. -/
theorem passed (open_ : ¬ p <:+ since ++ [c]) :
    Scanned p (text ++ [c]) count left (since ++ [c]) where
  absent inside := by
    rcases infix_concat_iff.mp inside with ends | inside
    · exact open_ ends
    · exact scanned.absent inside
  counts more := by rw [append_assoc, scanned.counts, append_assoc]
  leaves more := by rw [append_assoc, scanned.leaves, append_assoc]

end

/-- Every text can be scanned. -/
theorem exists_scanned (nonempty : p ≠ []) (text : List α) :
    ∃ count left since, Scanned p text count left since := by
  induction text using reverseRecOn with
  | nil => exact ⟨0, [], [], .start nonempty⟩
  | append_singleton text c ih =>
    obtain ⟨count, left, since, scanned⟩ := ih
    by_cases ends : p <:+ since ++ [c]
    · obtain ⟨x, ends⟩ := ends
      exact ⟨count + 1, left ++ x, [], scanned.found ends.symm⟩
    · exact ⟨count, left, since ++ [c], scanned.passed ends⟩

end Scanned

/-- A letter completes an occurrence, which the residue loses; or it is added to the residue. -/
theorem occurrences_concat {p : List α} (nonempty : p ≠ []) (text : List α) (c : α) :
    occurrences p (text ++ [c]) = occurrences p text + 1 ∧
        residue p (text ++ [c]) ++ p = residue p text ++ [c] ∨
      occurrences p (text ++ [c]) = occurrences p text ∧
        residue p (text ++ [c]) = residue p text ++ [c] := by
  obtain ⟨count, left, since, scanned⟩ := Scanned.exists_scanned nonempty text
  rw [scanned.occurrences_eq, scanned.residue_eq]
  by_cases ends : p <:+ since ++ [c]
  · obtain ⟨x, ends⟩ := ends
    have next := scanned.found ends.symm
    rw [next.occurrences_eq, next.residue_eq, append_nil, append_assoc, append_assoc, ends]
    exact .inl ⟨rfl, rfl⟩
  · have next := scanned.passed ends
    rw [next.occurrences_eq, next.residue_eq]
    exact .inr ⟨rfl, (append_assoc ..).symm⟩

end AliosThings.Lib
