import Mathlib.GroupTheory.Perm.Cycle.Concrete

/-!
# Circular doubly linked lists

A node points to the next and to the previous one, and the last node of a circle to the first.
`Links.Circle` relates the pointers to the list of the nodes from a chosen one on; inserting before
that node makes the new one the last.
-/

namespace AliosThings.Lib

open List Function

variable {α : Type*}

structure Links (α : Type*) where
  next : α → α
  prev : α → α

namespace Links

/-- A circle of its own. -/
def single [DecidableEq α] (L : Links α) (x : α) : Links α where
  next := update L.next x x
  prev := update L.prev x x

def insertBefore [DecidableEq α] (L : Links α) (head x : α) : Links α where
  next := update (update L.next x head) (L.prev head) x
  prev := update (update L.prev x (L.prev head)) head x

/-- The node keeps its own pointers. -/
def remove [DecidableEq α] (L : Links α) (x : α) : Links α where
  next := update L.next (L.prev x) (L.next x)
  prev := update L.prev (L.next x) (L.prev x)

def Joined (L : Links α) (a b : α) : Prop := L.next a = b ∧ L.prev b = a

def Circle (L : Links α) : List α → Prop
  | [] => True
  | head :: l => (head :: l ++ [head]).IsChain L.Joined

variable {L L' : Links α} {l l' before after : List α} {a head x b : α}

/-- A circle is a chain of cells joined in a ring. -/
theorem circle_iff_chain : L.Circle l ↔ Cycle.Chain L.Joined l := by
  cases l with
  | nil => exact iff_of_true trivial (Cycle.Chain.nil _)
  | cons => exact (Cycle.chain_coe_cons ..).symm

/-- Any node may be the first. -/
theorem Circle.append_comm (circle : L.Circle (l ++ l')) : L.Circle (l' ++ l) := by
  rw [circle_iff_chain] at circle ⊢
  rwa [← Cycle.coe_eq_coe.mpr isRotated_append]

theorem Circle.next_of_cons (circle : L.Circle (before ++ a :: b :: after)) : L.next a = b :=
  (isChain_cons_cons.mp circle.append_comm).1.1

theorem Circle.next_head (circle : L.Circle (head :: l)) :
    (l ++ [head]).head? = some (L.next head) := by
  cases l with
  | nil | cons => exact congrArg some (isChain_cons_cons.mp circle).1.1.symm

section Ring

variable [DecidableEq α]

/-- The nodes are joined along the cyclic permutation of the list. -/
def Ring (L : Links α) (l : List α) : Prop := ∀ a ∈ l, L.Joined a (l.formPerm a)

theorem Ring.circle (joined : L.Ring l) (nodup : l.Nodup) : L.Circle l := by
  cases l with
  | nil => trivial
  | cons head l =>
    have closed := joined _ (getLast_mem (cons_ne_nil head l))
    rw [formPerm_apply_getLast] at closed
    refine isChain_append.mpr ⟨isChain_iff_getElem.mpr fun i lt => ?_, .singleton _, ?_⟩
    · rw [← formPerm_apply_lt_getElem _ nodup i lt]
      exact joined _ (getElem_mem _)
    · simpa [getLast?_eq_some_getLast] using closed

/-- A ring may start at any of its cells. -/
theorem Ring.rotated (joined : L.Ring l) (nodup : l.Nodup) (turn : l ~r l') : L.Ring l' := by
  intro a among
  rw [← formPerm_eq_of_isRotated nodup turn]
  exact joined a (turn.mem_iff.mpr among)

theorem Ring.formPerm_prev (joined : L.Ring l) (among : a ∈ l) : l.formPerm (L.prev a) = a := by
  obtain ⟨b, rfl⟩ := l.formPerm.surjective a
  rw [(joined b (formPerm_mem_iff_mem.mp among)).2]

theorem Ring.prev_mem (joined : L.Ring l) (among : a ∈ l) : L.prev a ∈ l := by
  rwa [← formPerm_mem_iff_mem, joined.formPerm_prev among]

/-- A new cell is joined before the head. -/
theorem Ring.insertBefore (joined : L.Ring (head :: l)) (new : x ∉ head :: l) :
    (L.insertBefore head x).Ring (x :: head :: l) := by
  have fixed := formPerm_apply_of_notMem new
  have old b (among : b ∈ head :: l) : x ≠ b := fun same => new (same ▸ among)
  intro a among
  rw [formPerm_cons_cons, Equiv.Perm.mul_apply, Equiv.swap_apply_def]
  split_ifs with isNew ends
  · obtain rfl := (head :: l).formPerm.injective (isNew.trans fixed.symm)
    simp [Joined, Links.insertBefore, old _ (joined.prev_mem mem_cons_self)]
  · have next := joined a (formPerm_mem_iff_mem.mp (by simp [ends]))
    rw [ends] at next
    simp [Joined, Links.insertBefore, next.2, old head mem_cons_self]
  · have other : a ≠ x := fun same => isNew (same ▸ fixed)
    have notLast : a ≠ L.prev head := by
      rintro rfl
      exact ends (joined.formPerm_prev mem_cons_self)
    simpa [Joined, Links.insertBefore, other, notLast, isNew, ends] using
      joined a ((mem_cons.mp among).resolve_left other)

/-- A cell is taken out. -/
theorem Ring.remove (joined : L.Ring (x :: l)) (absent : x ∉ l) : (L.remove x).Ring l := by
  intro a among
  cases l
  case nil => cases among
  case cons head l =>
  have toHead := joined x mem_cons_self
  have next := joined a (mem_cons_of_mem x among)
  have last := joined.formPerm_prev mem_cons_self
  have other : (head :: l).formPerm a ≠ x := fun same =>
    absent (same ▸ formPerm_mem_iff_mem.mpr among)
  rw [formPerm_cons_cons, Equiv.Perm.mul_apply, Equiv.swap_apply_def] at toHead next last
  rw [if_pos (formPerm_apply_of_notMem absent)] at toHead
  rw [if_neg other] at next
  split_ifs at next with ends
  · simp [Joined, Links.remove, ends, next.2, toHead.1]
  · have notLast : a ≠ L.prev x := by
      rintro rfl
      rw [if_neg other, if_neg ends] at last
      exact other last
    simpa [Joined, Links.remove, notLast, toHead.1, ends] using next

/-- Rings of the nodes of one key each. -/
structure Rings {ι : Type*} (L : Links α) (key : α → ι) (ring : ι → List α) : Prop where
  joined : ∀ k, L.Ring (ring k)
  nodup : ∀ k, (ring k).Nodup
  only : ∀ k, ∀ a ∈ ring k, key a = k

namespace Rings

variable {ι : Type*} {key : α → ι} {ring : ι → List α} {k : ι} (rings : L.Rings key ring)
include rings

theorem circle (k : ι) : L.Circle (ring k) := (rings.joined k).circle (rings.nodup k)

variable [DecidableEq ι]

/-- One ring is exchanged. -/
theorem put (joined : L'.Ring l) (nodup : l.Nodup) (only : ∀ a ∈ l, key a = k)
    (same : ∀ a, key a ≠ k → L'.next a = L.next a ∧ L'.prev a = L.prev a) :
    L'.Rings key (update ring k l) where
  joined := by
    refine (forall_update_iff ring fun _ l => L'.Ring l).mpr ⟨joined, fun k' other a among => ?_⟩
    have kept b (among : b ∈ ring k') := same b (rings.only k' b among ▸ other)
    have next := rings.joined k' a among
    exact ⟨(kept a among).1.trans next.1, (kept _ (formPerm_mem_iff_mem.mpr among)).2.trans next.2⟩
  nodup := (forall_update_iff ring fun _ l => l.Nodup).mpr ⟨nodup, fun k _ => rings.nodup k⟩
  only := (forall_update_iff ring fun k l => ∀ a ∈ l, key a = k).mpr ⟨only, fun k _ => rings.only k⟩

/-- One ring is turned. -/
theorem rotated (turn : ring k ~r l) : L.Rings key (update ring k l) :=
  rings.put ((rings.joined k).rotated (rings.nodup k) turn) (turn.nodup_iff.mp (rings.nodup k))
    (fun a among => rings.only k a (turn.mem_iff.mpr among)) fun _ _ => ⟨rfl, rfl⟩

theorem single (x : α) : (L.single x).Rings key (update ring (key x) [x]) := by
  refine rings.put (fun a isNode => ?_) (nodup_singleton x) (by simp) fun a other => ?_
  · simp [mem_singleton.mp isNode, Joined, Links.single]
  · have differ : a ≠ x := fun same => other (same ▸ rfl)
    exact ⟨update_of_ne differ .., update_of_ne differ ..⟩

/-- The new node may stand anywhere between the last and the first one. -/
theorem insertBefore (list : ring (key x) = head :: l) (new : x ∉ head :: l)
    (turn : x :: head :: l ~r l') : (L.insertBefore head x).Rings key (update ring (key x) l') := by
  have joined := list ▸ rings.joined (key x)
  have only := list ▸ rings.only (key x)
  have nodup := nodup_cons.mpr ⟨new, list ▸ rings.nodup (key x)⟩
  refine rings.put ((joined.insertBefore new).rotated nodup turn) (turn.nodup_iff.mp nodup)
    (fun a among => ?_) fun a other => ?_
  · rcases mem_cons.mp (turn.mem_iff.mpr among) with rfl | old
    exacts [rfl, only a old]
  · have outside b (same : key b = key x) : a ≠ b := fun isNode => other (isNode ▸ same)
    simp [Links.insertBefore, outside x rfl, outside _ (only head mem_cons_self),
      outside _ (only _ (joined.prev_mem mem_cons_self))]

/-- A cell leaves its ring. -/
theorem erase (among : x ∈ ring k) : (L.remove x).Rings key (update ring k ((ring k).erase x)) := by
  have joined := rings.joined k
  have only := rings.only k
  have nodup := rings.nodup k
  refine rings.put ?_ (nodup.erase x) (fun a inside => only a (mem_of_mem_erase inside))
    fun a other => ?_
  · obtain ⟨before, after, list⟩ := append_of_mem among
    rw [list] at joined nodup ⊢
    obtain ⟨absent, nodup'⟩ := nodup_cons.mp (nodup_middle.mp nodup)
    have turned : L.Ring (x :: (after ++ before)) := joined.rotated nodup isRotated_append
    rw [erase_append_right _ fun inside => absent (mem_append_left _ inside), erase_cons_head]
    exact (turned.remove (mt perm_append_comm.mem_iff.mp absent)).rotated
      (perm_append_comm.nodup_iff.mp nodup') isRotated_append
  · have outside b (inside : b ∈ ring k) : a ≠ b := fun isNode => other (isNode ▸ only b inside)
    simp [Links.remove, (joined x among).1, outside _ (formPerm_mem_iff_mem.mpr among),
      outside _ (joined.prev_mem among)]

end Rings

end Ring

end Links

end AliosThings.Lib
