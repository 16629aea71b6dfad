import Mathlib.Data.Finset.Card
import Mathlib.Order.Bounds.Basic

/-!
# Inherited priorities

Tasks have base priorities, and a task inherits the priority of every task that waits for it; a
smaller value is a more urgent one. A task is settled when it runs at the priority due to it.
When one task takes a new priority, at most the task it waits for becomes unsettled, and only if
the new priority is more urgent than that task's, or the old one was equal to it; so a walk from a
task to the one it waits for restores the priorities of all. The walk ends although the waits may
form a cycle: going up it leaves every task it visits at the one new priority, and going down it
takes every task it visits away from the one old priority.
-/

namespace AliosThings.Lib

open Function

variable {T P : Type*} [LinearOrder P]

/-- `p` is the least of the base priority of `t` and the priorities of the tasks that wait for
it. -/
def Due (prio base : T → P) (waits : T → T → Prop) (t : T) (p : P) : Prop :=
  IsLeast (insert (base t) {q | ∃ w, waits w t ∧ prio w = q}) p

/-- Every task of `L` has the priority that is due to it. -/
def Settled (L : Set T) (prio base : T → P) (waits : T → T → Prop) : Prop :=
  ∀ t ∈ L, Due prio base waits t (prio t)

/-- Every task of `L` but `t` has the priority that is due to it, and `p` is due to `t`. -/
structure SettledBut (L : Set T) (prio base : T → P) (waits : T → T → Prop) (t : T) (p : P) :
    Prop where
  others : ∀ u ∈ L, u ≠ t → Due prio base waits u (prio u)
  due : Due prio base waits t p

variable {L : Set T} {prio base prio' base' : T → P} {waits waits' : T → T → Prop} {t o w u : T}
  {p q : P}

namespace Due

section

variable (h : Due prio base waits t p)
include h

theorem unique (h' : Due prio base waits t q) : p = q := IsLeast.unique h h'

theorem le_base : p ≤ base t := h.2 (Set.mem_insert _ _)

theorem le_waiter (waiter : waits w t) : p ≤ prio w :=
  h.2 (Set.mem_insert_of_mem _ ⟨w, waiter, rfl⟩)

theorem attained : p = base t ∨ ∃ w, waits w t ∧ prio w = p := h.1

end

theorem mk (base_le : p ≤ base t) (waiter_le : ∀ w, waits w t → p ≤ prio w)
    (attained : p = base t ∨ ∃ w, waits w t ∧ prio w = p) : Due prio base waits t p := by
  refine ⟨attained, ?_⟩
  rintro q (rfl | ⟨w, waiter, rfl⟩)
  · exact base_le
  · exact waiter_le w waiter

/-- The priorities of the waiters, and the base, are all that counts. -/
theorem congr (h : Due prio base waits t p) (baseEq : base' t = base t)
    (waitsEq : ∀ w, waits' w t ↔ waits w t) (prioEq : ∀ w, waits w t → prio' w = prio w) :
    Due prio' base' waits' t p := by
  refine mk (baseEq ▸ h.le_base) (fun w waiter => ?_) ?_
  · rw [prioEq w ((waitsEq w).mp waiter)]
    exact h.le_waiter ((waitsEq w).mp waiter)
  · rcases h.attained with eq | ⟨w, waiter, eq⟩
    · exact .inl (baseEq ▸ eq)
    · exact .inr ⟨w, (waitsEq w).mpr waiter, (prioEq w waiter).trans eq⟩

end Due

/-! ## One step of the walk -/

section Step

variable [DecidableEq T]

theorem Due.update_other (h : Due prio base waits o q) (free : ¬ waits t o) :
    Due (update prio t p) base waits o q :=
  h.congr rfl (fun _ => Iff.rfl) fun w waiter =>
    update_of_ne (fun same => free (by rwa [same] at waiter)) p prio

/-- The task that has moved is settled, and so is every task it does not wait for. -/
theorem SettledBut.updated (h : SettledBut L prio base waits t p) (irrefl : ¬ waits t t)
    (inL : u ∈ L) (free : ¬ waits t u) :
    Due (update prio t p) base waits u (update prio t p u) := by
  rcases eq_or_ne u t with rfl | other
  · rw [update_self]
    exact h.due.update_other irrefl
  · rw [update_of_ne other]
    exact (h.others u inL other).update_other free

/-- A task that waits for nobody ends the walk. -/
theorem SettledBut.settled_of_free (h : SettledBut L prio base waits t p)
    (free : ∀ u, ¬ waits t u) : Settled L (update prio t p) base waits :=
  fun u inL => h.updated (free t) inL (free u)

/-- Whatever is due to the task that is waited for, the others are settled. -/
theorem SettledBut.next (irrefl : ¬ waits t t) (only : ∀ u, waits t u → u = o)
    (h : SettledBut L prio base waits t p) (due : Due (update prio t p) base waits o q) :
    SettledBut L (update prio t p) base waits o q :=
  ⟨fun _ inL other => h.updated irrefl inL fun waits => other (only _ waits), due⟩

variable (irrefl : ¬ waits t t) (waiter : waits t o) (only : ∀ u, waits t u → u = o)
include irrefl waiter only

section

variable (h : SettledBut L prio base waits t p)
include h

theorem SettledBut.settled_of_next (due : Due (update prio t p) base waits o (prio o)) :
    Settled L (update prio t p) base waits := by
  have differ : o ≠ t := fun same => irrefl (by rwa [same] at waiter)
  intro u inL
  rcases eq_or_ne u o with rfl | other
  · rwa [update_of_ne differ]
  · exact h.updated irrefl inL fun waits => other (only u waits)

/-- The new priority is more urgent than that of the task waited for, which inherits it. -/
theorem SettledBut.raise (inL : o ∈ L) (urgent : p < prio o) :
    SettledBut L (update prio t p) base waits o p := by
  have differ : o ≠ t := fun same => irrefl (by rwa [same] at waiter)
  have before := h.others o inL differ
  refine h.next irrefl only (.mk (urgent.le.trans before.le_base) (fun w waits => ?_) ?_)
  · rcases eq_or_ne w t with rfl | other
    · rw [update_self]
    · rw [update_of_ne other]
      exact urgent.le.trans (before.le_waiter waits)
  · exact .inr ⟨t, waiter, update_self t p prio⟩

/-- The task waited for did not owe its priority to this one, and does not now. -/
theorem SettledBut.settled_of_ne (inL : o ∈ L) (notUrgent : prio o ≤ p)
    (notFrom : prio o ≠ prio t) : Settled L (update prio t p) base waits := by
  have differ : o ≠ t := fun same => irrefl (by rwa [same] at waiter)
  have before := h.others o inL differ
  refine h.settled_of_next irrefl waiter only (.mk before.le_base (fun w waits => ?_) ?_)
  · rcases eq_or_ne w t with rfl | other
    · rwa [update_self]
    · rw [update_of_ne other]
      exact before.le_waiter waits
  · rcases before.attained with eq | ⟨w, waits, eq⟩
    · exact .inl eq
    · have other : w ≠ t := fun same => notFrom (by rw [← eq, same])
      exact .inr ⟨w, waits, (update_of_ne other p prio).trans eq⟩

/-- When a priority becomes less urgent, what is due to the task waited for becomes less urgent
too, or stays. -/
theorem SettledBut.lower (inL : o ∈ L) (less : prio t ≤ p)
    (due : Due (update prio t p) base waits o q) : prio o ≤ q := by
  have differ : o ≠ t := fun same => irrefl (by rwa [same] at waiter)
  have before := h.others o inL differ
  rcases due.attained with eq | ⟨w, waits, eq⟩
  · exact eq ▸ before.le_base
  rcases eq_or_ne w t with rfl | other
  · rw [update_self] at eq
    exact (before.le_waiter waiter).trans (less.trans eq.le)
  · rw [update_of_ne other] at eq
    exact eq ▸ before.le_waiter waits

end

end Step

/-! ## The walk ends -/

omit [LinearOrder P] in
/-- A task that leaves the set of those the walk has still to visit makes it smaller. -/
theorem card_filter_update_lt [DecidableEq T] {F : Finset T} {C : P → Prop} [DecidablePred C]
    (inF : t ∈ F) (before : C (prio t)) (after : ¬ C p) :
    (F.filter fun u => C (update prio t p u)).card <
      (F.filter fun u => C (prio u)).card := by
  refine Finset.card_lt_card (Finset.ssubset_iff_of_subset ?_ |>.mpr ?_)
  · intro u there
    rw [Finset.mem_filter] at there ⊢
    rcases eq_or_ne u t with rfl | other
    · exact ⟨there.1, before⟩
    · rw [update_of_ne other] at there
      exact there
  · refine ⟨t, Finset.mem_filter.mpr ⟨inF, before⟩, fun there => after ?_⟩
    rw [Finset.mem_filter, update_self] at there
    exact there.2

end AliosThings.Lib
