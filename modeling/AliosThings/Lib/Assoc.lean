import Mathlib.Data.List.Nodup

/-!
# Lists of entries that represent a finite map

A list of pairs represents a map if each key stands in it once and with its value. The order of
the pairs does not matter, so a structure may keep them in several rows: to change one row is to
change the front of the list and to leave the rest.
-/

namespace AliosThings.Lib

open List Function Option

variable {κ ν : Type*}

/-- Each key stands in the list at most once, with the value the map has for it. -/
structure Represents (entries : List (κ × ν)) (map : κ → Option ν) : Prop where
  nodup : (entries.map Prod.fst).Nodup
  mem : ∀ k v, (k, v) ∈ entries ↔ map k = some v

namespace Represents

variable {entries rest old : List (κ × ν)} {map : κ → Option ν} {k : κ} {v : ν}

theorem nil : Represents ([] : List (κ × ν)) fun _ => none where
  nodup := nodup_nil
  mem _ _ := ⟨nofun, nofun⟩

/-- The order of the pairs does not matter. -/
theorem perm {entries' : List (κ × ν)} (rep : Represents entries map)
    (same : entries.Perm entries') : Represents entries' map where
  nodup := (same.map Prod.fst).nodup_iff.mp rep.nodup
  mem k v := same.mem_iff.symm.trans (rep.mem k v)

theorem eq_none (rep : Represents entries map) (absent : k ∉ entries.map Prod.fst) :
    map k = none := by
  rw [eq_none_iff_forall_not_mem]
  intro v has
  exact absent (mem_map_of_mem ((rep.mem k v).mpr has))

variable [DecidableEq κ]

/-- What is left when the pairs of one key are taken out. -/
theorem remove (rep : Represents (old ++ rest) map) (only : ∀ e ∈ old, e.1 = k)
    (absent : k ∉ rest.map Prod.fst) : Represents rest (update map k none) where
  nodup := by
    have both := rep.nodup
    rw [map_append] at both
    exact (nodup_append.mp both).2.1
  mem k' v := by
    by_cases same : k' = k
    · subst same
      rw [update_self]
      exact ⟨fun mem => absurd (mem_map_of_mem mem) absent, nofun⟩
    · rw [update_of_ne same, ← rep.mem, mem_append]
      refine ⟨.inr, fun either => either.resolve_left fun mem => same (only _ mem)⟩

/-- A pair for a key that has none. -/
theorem insert (rep : Represents rest map) (absent : k ∉ rest.map Prod.fst) (v : ν) :
    Represents ((k, v) :: rest) (update map k (some v)) where
  nodup := nodup_cons.mpr ⟨absent, rep.nodup⟩
  mem k' v' := by
    rw [mem_cons, rep.mem]
    by_cases same : k' = k
    · subst same
      rw [update_self, rep.eq_none absent, Prod.mk.injEq, some.injEq]
      simp [eq_comm]
    · simp [same]

end Represents

/-- All pairs of one key make room for a new one, if there is a new one. -/
def Exchanged (entries entries' : List (κ × ν)) (k : κ) (new : Option ν) : Prop :=
  ∃ old rest, entries.Perm (old ++ rest) ∧ (∀ e ∈ old, e.1 = k) ∧ k ∉ rest.map Prod.fst ∧
    entries'.Perm ((new.map fun v => (k, v)).toList ++ rest)

variable {entries entries' more entries₁ entries₁' : List (κ × ν)} {map : κ → Option ν} {k : κ}
  {new : Option ν}

/-- The value of one key is exchanged. -/
theorem Represents.exchanged [DecidableEq κ] (rep : Represents entries map)
    (exchanged : Exchanged entries entries' k new) : Represents entries' (update map k new) := by
  obtain ⟨old, rest, before, only, absent, after⟩ := exchanged
  have without := (rep.perm before).remove only absent
  cases new with
  | none => exact without.perm after.symm
  | some v =>
    have with_ := without.insert absent v
    rw [update_idem] at with_
    exact with_.perm after.symm

section

variable (exchanged : Exchanged entries entries' k new)
include exchanged

theorem Exchanged.mem {e : κ × ν} (mem : e ∈ entries') : e.1 = k ∨ e ∈ entries := by
  obtain ⟨old, rest, before, only, absent, after⟩ := exchanged
  rcases mem_append.mp (after.mem_iff.mp mem) with new | rest
  · obtain ⟨v, -, rfl⟩ := map_eq_some_iff.mp (mem_toList.mp new)
    exact .inl rfl
  · exact .inr (before.mem_iff.mpr (mem_append_right _ rest))

theorem Exchanged.append (absent : k ∉ more.map Prod.fst) :
    Exchanged (entries ++ more) (entries' ++ more) k new := by
  obtain ⟨old, rest, before, only, absent', after⟩ := exchanged
  refine ⟨old, rest ++ more, ?_, only, ?_, ?_⟩
  · rw [← append_assoc]
    exact before.append_right more
  · rw [map_append, mem_append]
    exact fun either => either.elim absent' absent
  · rw [← append_assoc]
    exact after.append_right more

theorem Exchanged.perm (before : entries₁.Perm entries) (after : entries₁'.Perm entries') :
    Exchanged entries₁ entries₁' k new := by
  obtain ⟨old, rest, before', only, absent, after'⟩ := exchanged
  exact ⟨old, rest, before.trans before', only, absent, after.trans after'⟩

end

/-! ## Rows -/

/-- The rows below `n` one after the other. -/
def rows {α : Type*} (f : Nat → List α) (n : Nat) : List α := (range n).flatMap f

/-- The rows below `n` but one. -/
def otherRows {α : Type*} (f : Nat → List α) (n i : Nat) : List α :=
  ((range n).erase i).flatMap f

variable {α : Type*} {f g : Nat → List α} {n i : Nat}

/-- One row and the others. -/
theorem rows_perm (inside : i < n) : (rows f n).Perm (f i ++ otherRows f n i) :=
  (perm_cons_erase (mem_range.mpr inside)).flatMap_right f

theorem mem_otherRows {x : α} : x ∈ otherRows f n i ↔ ∃ j < n, j ≠ i ∧ x ∈ f j := by
  simp [otherRows, nodup_range.mem_erase_iff, and_left_comm, and_assoc]

/-- A change of one row leaves the others. -/
theorem otherRows_congr (same : ∀ j, j ≠ i → f j = g j) : otherRows f n i = otherRows g n i := by
  refine flatMap_congr fun j mem => ?_
  exact same j (nodup_range.mem_erase_iff.mp mem).1

/-- An exchange in one row, when no other row has the key. -/
theorem exchanged_rows {f g : Nat → List (κ × ν)} (inside : i < n) (same : ∀ j, j ≠ i → f j = g j)
    (absent : k ∉ (otherRows f n i).map Prod.fst) (exchanged : Exchanged (f i) (g i) k new) :
    Exchanged (rows f n) (rows g n) k new := by
  have both := exchanged.append absent
  refine both.perm (rows_perm inside) ?_
  rw [otherRows_congr same]
  exact rows_perm inside

end AliosThings.Lib
