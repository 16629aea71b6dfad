import Mathlib.Init

/-!
# Systems that take step after step

A system is a set of initial states, a total step function on labels, and the labels its
environment may choose in each state. An invariant that holds initially and is kept by every
allowed step holds in every reachable state; to restrict the environment is to restrict the
reachable states.
-/

namespace AliosThings.Lib

/-- States `σ`, labels `ι`. -/
structure System (σ ι : Type*) where
  init : σ → Prop
  allowed : σ → ι → Prop
  step : σ → ι → σ

namespace System

variable {σ ι γ : Type*}

inductive Reach (S : System σ ι) : σ → Prop where
  | init {s} (start : S.init s) : Reach S s
  | step {s} (before : Reach S s) {a} (may : S.allowed s a) : Reach S (S.step s a)

/-- The same system in an environment that also keeps `P`. -/
def restrict (S : System σ ι) (P : σ → ι → Prop) : System σ ι where
  init := S.init
  allowed s a := S.allowed s a ∧ P s a
  step := S.step

instance decidableRestrict (S : System σ ι) (P : σ → ι → Prop)
    [∀ s a, Decidable (S.allowed s a)] [∀ s a, Decidable (P s a)] (s : σ) (a : ι) :
    Decidable ((S.restrict P).allowed s a) :=
  inferInstanceAs (Decidable (_ ∧ _))

variable {S : System σ ι} {P Q : σ → ι → Prop} {s : σ} {labels : List ι}

/-- What holds initially and is kept by every step holds in every reachable state. -/
theorem Reach.invariant {P : σ → Prop} (start : ∀ s, S.init s → P s)
    (kept : ∀ s a, P s → S.allowed s a → P (S.step s a)) (reach : S.Reach s) : P s := by
  induction reach with
  | init initial => exact start _ initial
  | step _ may ih => exact kept _ _ ih may

/-- Every restricted run is a run. -/
theorem Reach.of_restrict (reach : (S.restrict P).Reach s) : S.Reach s := by
  induction reach with
  | init start => exact .init start
  | step _ may ih => exact ih.step may.1

theorem Reach.restrict_and (reach : ((S.restrict P).restrict Q).Reach s) :
    (S.restrict fun s a => P s a ∧ Q s a).Reach s := by
  induction reach with
  | init start => exact .init start
  | step _ may ih => exact ih.step ⟨may.1.1, may.1.2, may.2⟩

/-- The state after a sequence of steps. -/
def run (S : System σ ι) (s : σ) (labels : List ι) : σ := labels.foldl S.step s

theorem run_append (S : System σ ι) (s : σ) (labels labels' : List ι) :
    S.run s (labels ++ labels') = S.run (S.run s labels) labels' :=
  List.foldl_append

/-- The environment may choose these labels one after the other. -/
def Runs (S : System σ ι) : σ → List ι → Prop
  | _, [] => True
  | s, a :: labels => S.allowed s a ∧ S.Runs (S.step s a) labels

instance decidableRuns (S : System σ ι) [∀ s a, Decidable (S.allowed s a)] (s : σ) :
    (labels : List ι) → Decidable (S.Runs s labels)
  | [] => .isTrue trivial
  | a :: labels =>
    have := S.decidableRuns (S.step s a) labels
    inferInstanceAs (Decidable (_ ∧ _))

theorem Runs.restrict (more : ∀ s a, P s a → Q s a) (runs : (S.restrict P).Runs s labels) :
    (S.restrict Q).Runs s labels := by
  induction labels generalizing s with
  | nil => trivial
  | cons a _ ih => exact ⟨⟨runs.1.1, more s a runs.1.2⟩, ih runs.2⟩

/-- A run goes on. -/
theorem Reach.run (reach : S.Reach s) (may : S.Runs s labels) : S.Reach (S.run s labels) := by
  induction labels generalizing s with
  | nil => exact reach
  | cons _ _ ih => exact ih (reach.step may.1) may.2

/-- One step of the restricted system, and a run of which each step keeps `P`. -/
theorem Reach.step_restrict {a : ι}
    (reach : (S.restrict P).Reach s) (may : S.allowed s a) (keeps : P s a) :
    (S.restrict P).Reach (S.run s [a]) :=
  reach.step ⟨may, keeps⟩

theorem Reach.run_restrict (reach : (S.restrict Q).Reach s) (more : ∀ s a, P s a → Q s a)
    (may : (S.restrict P).Runs s labels) : (S.restrict Q).Reach (S.run s labels) :=
  reach.run (may.restrict more)

/-! ## History -/

/-- The system with a record of its history, which does not influence it. -/
def observed {γ : Type*} (S : System σ ι) (start : γ) (note : σ → ι → γ → γ) :
    System (σ × γ) ι where
  init p := S.init p.1 ∧ p.2 = start
  allowed p a := S.allowed p.1 a
  step p a := (S.step p.1 a, note p.1 a p.2)

instance decidableObserved {γ : Type*} (S : System σ ι) [∀ s a, Decidable (S.allowed s a)]
    (start : γ) (note : σ → ι → γ → γ) (p : σ × γ) (a : ι) :
    Decidable ((S.observed start note).allowed p a) :=
  inferInstanceAs (Decidable (S.allowed p.1 a))

/-- A property of states and histories that every step from a reachable state keeps. -/
theorem Reach.observed {start : γ} {note : σ → ι → γ → γ} {P : σ → γ → Prop}
    (initially : ∀ s, S.init s → P s start)
    (kept : ∀ s a g, S.Reach s → P s g → S.allowed s a → P (S.step s a) (note s a g)) {p : σ × γ}
    (reach : (S.observed start note).Reach p) : S.Reach p.1 ∧ P p.1 p.2 := by
  refine reach.invariant (P := fun p => S.Reach p.1 ∧ P p.1 p.2) ?_ ?_
  · rintro ⟨s, g⟩ ⟨init, rfl⟩
    exact ⟨.init init, initially s init⟩
  · rintro ⟨s, g⟩ a ⟨before, ok⟩ may
    exact ⟨before.step may, kept s a g before ok may⟩

end System

end AliosThings.Lib
