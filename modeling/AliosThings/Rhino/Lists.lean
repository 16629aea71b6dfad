import AliosThings.Lib.Deadline
import AliosThings.Rhino.System

/-!
# What holds of the kernel's lists

Three kinds of list name tasks: the run queue, the blocked list of each object and the tick
list. Each of them agrees with the field of the task that stands for the node: a task is a
member exactly when its own record says so, and only once. The run queue also keeps its bitmap
and its highest priority in step with the lists, and a blocked list that is ordered by priority
is ordered. This file says what linking and unlinking one task does to each agreement.
-/

namespace AliosThings.Rhino

open List Function

/-! ## The run queue -/

/-- The run queue agrees with the tasks. -/
structure RunqOk (rq : Runqueue) (tasks : TaskId → Ktask) : Prop where
  mem : ∀ t p, t ∈ rq.list p ↔ (tasks t).taskList = .ready p
  nodup : ∀ p, (rq.list p).Nodup
  prio : ∀ t p, (tasks t).taskList = .ready p → (tasks t).prio = p
  bound : ∀ p, rq.list p ≠ [] → p < priMax
  bits : ∀ p, bitmapBit rq.taskBitMap p = true ↔ rq.list p ≠ []
  highest : rq.list rq.highestPri ≠ []
  least : ∀ p, p < rq.highestPri → rq.list p = []

variable {rq rq' : Runqueue} {tasks tasks' : TaskId → Ktask}

/-- The run queue only depends on which tasks are linked in it and on their priorities. -/
theorem RunqOk.congr (h : RunqOk rq tasks)
    (link : ∀ t p, (tasks' t).taskList = .ready p ↔ (tasks t).taskList = .ready p)
    (prio : ∀ t p, (tasks t).taskList = .ready p → (tasks' t).prio = (tasks t).prio) :
    RunqOk rq tasks' := by
  refine { h with
    mem := fun t p => (h.mem t p).trans (link t p).symm
    prio := fun t p linked => ?_ }
  have linked := (link t p).mp linked
  rw [prio t p linked, h.prio t p linked]

variable {t u : TaskId} {k : Ktask}

/-- A change of one task that leaves its node in no ready list. -/
theorem RunqOk.update_not_ready (h : RunqOk rq tasks)
    (before : ∀ p, (tasks t).taskList ≠ .ready p) (after : ∀ p, k.taskList ≠ .ready p) :
    RunqOk rq (update tasks t k) := by
  refine h.congr (fun u p => ?_) (fun u p linked => ?_)
  · by_cases same : u = t
    · subst same
      simp [before p, after p]
    · simp [update_of_ne same]
  · have other : u ≠ t := fun same => before p (same ▸ linked)
    simp [update_of_ne other]

/-- A change of one task that keeps its node and its priority. -/
theorem RunqOk.update_same (h : RunqOk rq tasks) (link : k.taskList = (tasks t).taskList)
    (prio : k.prio = (tasks t).prio) : RunqOk rq (update tasks t k) := by
  refine h.congr (fun u p => ?_) (fun u p _ => ?_) <;>
    rcases eq_or_ne u t with rfl | other <;> simp [*]

variable {l : List TaskId} {bits : Nat → BitVec 32} {hi p : Nat}

section

variable (h : RunqOk rq tasks) (free : ∀ p, (tasks t).taskList ≠ .ready p)
  (link : k.taskList = .ready k.prio)
include h free link

/-- Adding a task: any list with the task as one more member will do. -/
theorem RunqOk.insert (low : k.prio < priMax) (perm : l.Perm (t :: rq.list k.prio))
    (bitsEq : ∀ p, bitmapBit bits p = true ↔ p = k.prio ∨ bitmapBit rq.taskBitMap p = true)
    (hiEq : hi = min k.prio rq.highestPri) :
    RunqOk ⟨update rq.list k.prio l, bits, hi⟩ (update tasks t k) := by
  have absent : ∀ p, t ∉ rq.list p := fun p member => free p ((h.mem t p).mp member)
  have nonempty : l ≠ [] := fun nil => by simpa [nil] using perm.length_eq
  have lists : ∀ p, update rq.list k.prio l p ≠ [] ↔ p = k.prio ∨ rq.list p ≠ [] := by
    intro p
    rcases eq_or_ne p k.prio with rfl | other
    · simp [nonempty]
    · simp [other]
  refine ⟨fun u p => ?_, fun p => ?_, fun u p linked => ?_, fun p ne => ?_, fun p => ?_, ?_,
    fun p below => ?_⟩
  · rcases eq_or_ne u t with rfl | other
    · rcases eq_or_ne p k.prio with rfl | differ
      · simp [perm.mem_iff, link]
      · simp [update_of_ne differ, absent p, link, differ.symm]
    · rcases eq_or_ne p k.prio with rfl | differ
      · simp [perm.mem_iff, other, h.mem]
      · simp [other, update_of_ne differ, h.mem]
  · rcases eq_or_ne p k.prio with rfl | differ
    · simp only [update_self]
      exact perm.nodup_iff.mpr (nodup_cons.mpr ⟨absent _, h.nodup _⟩)
    · simpa only [update_of_ne differ] using h.nodup p
  · rcases eq_or_ne u t with rfl | other
    · rw [update_self, link] at linked
      rw [update_self]
      exact Link.ready.inj linked
    · rw [update_of_ne other] at linked ⊢
      exact h.prio u p linked
  · rcases (lists p).mp ne with rfl | old
    · exact low
    · exact h.bound p old
  · rw [lists, bitsEq, h.bits]
  · refine (lists hi).mpr ?_
    rcases Nat.le_total k.prio rq.highestPri with le | le
    · exact .inl (hiEq.trans (Nat.min_eq_left le))
    · exact .inr (by rw [hiEq, Nat.min_eq_right le]; exact h.highest)
  · change p < hi at below
    refine not_not.mp fun ne => ?_
    rcases (lists p).mp ne with rfl | old
    · omega
    · exact old (h.least p (by omega))

/-- Adding to a list that is not empty changes neither the bitmap nor the highest priority. -/
theorem RunqOk.join (nonempty : rq.list k.prio ≠ []) (perm : l.Perm (t :: rq.list k.prio)) :
    RunqOk { rq with list := update rq.list k.prio l } (update tasks t k) := by
  have notBelow : ¬ k.prio < rq.highestPri := fun below => nonempty (h.least _ below)
  refine h.insert free link (h.bound _ nonempty) perm (fun p => ?_) (by omega)
  constructor
  · exact .inr
  · rintro (rfl | set)
    · exact (h.bits _).mpr nonempty
    · exact set

end

/-- `rq'` is `rq` with `t` added, at the tail or at the head of the list of `prio`. -/
def Runqueue.Added (rq rq' : Runqueue) (t : TaskId) (prio : Nat) : Prop :=
  rq' = rq.addTail t prio ∨ rq' = rq.addHead t prio

theorem RunqOk.added (h : RunqOk rq tasks) (added : rq.Added rq' t k.prio)
    (free : ∀ p, (tasks t).taskList ≠ .ready p) (link : k.taskList = .ready k.prio)
    (low : k.prio < priMax) : RunqOk rq' (update tasks t k) := by
  have first : rq.list k.prio = [] →
      RunqOk (readyListInit rq t k.prio) (update tasks t k) := by
    intro empty
    refine h.insert free link low (by rw [empty]) (fun p => ?_) ?_
    · simp [bitmapBit_set]
    · split <;> omega
  rcases added with rfl | rfl
  · unfold Runqueue.addTail
    split
    · rename_i empty
      exact first empty
    · rename_i u l cons
      refine h.join free link (by rw [cons]; exact cons_ne_nil u l) ?_
      rw [cons]
      exact perm_append_singleton t (u :: l)
  · unfold Runqueue.addHead
    split
    · rename_i empty
      exact first empty
    · rename_i u l cons
      exact h.join free link (by rw [cons]; exact cons_ne_nil u l) (by rw [cons])

/-- Rotating a list, or any change of its order. -/
theorem RunqOk.permute (h : RunqOk rq tasks) (perm : l.Perm (rq.list p)) :
    RunqOk { rq with list := update rq.list p l } tasks := by
  have perms q : (update rq.list p l q).Perm (rq.list q) := by
    rcases eq_or_ne q p with rfl | other
    · simpa using perm
    · simp [update_of_ne other]
  have nils q : update rq.list p l q = [] ↔ rq.list q = [] :=
    ⟨fun nil => nil_perm.mp (nil ▸ perms q), fun nil => perm_nil.mp (nil ▸ perms q)⟩
  exact ⟨fun t q => (perms q).mem_iff.trans (h.mem t q),
    fun q => (perms q).nodup_iff.mpr (h.nodup q), h.prio,
    fun q ne => h.bound q (mt (nils q).mpr ne), fun q => (h.bits q).trans (not_congr (nils q).symm),
    mt (nils _).mp h.highest, fun q below => (nils q).mpr (h.least q below)⟩

/-- The ready lists without `t`. -/
abbrev Runqueue.without (rq : Runqueue) (t : TaskId) (prio : Nat) : Nat → List TaskId :=
  update rq.list prio ((rq.list prio).erase t)

section

variable (h : RunqOk rq tasks) (linked : (tasks t).taskList = .ready (tasks t).prio)
include h linked

theorem RunqOk.mem_without (v : TaskId) (r : Nat) :
    v ∈ rq.without t (tasks t).prio r ↔ v ≠ t ∧ (tasks v).taskList = .ready r := by
  unfold Runqueue.without
  rcases eq_or_ne r (tasks t).prio with rfl | differ
  · rw [update_self, (h.nodup _).mem_erase_iff, h.mem]
  · rw [update_of_ne differ, h.mem]
    refine ⟨fun there => ⟨fun same => ?_, there⟩, And.right⟩
    rw [same, linked] at there
    exact differ (Link.ready.inj there).symm

/-- Without `t` the run queue is right with any bitmap and highest priority that fit the lists. -/
theorem RunqOk.build_without (after : ∀ p, k.taskList ≠ .ready p)
    (bitsOk : ∀ r, bitmapBit bits r = true ↔ rq.without t (tasks t).prio r ≠ [])
    (hiOk : rq.without t (tasks t).prio hi ≠ [])
    (leastOk : ∀ r, r < hi → rq.without t (tasks t).prio r = []) :
    RunqOk ⟨rq.without t (tasks t).prio, bits, hi⟩ (update tasks t k) := by
  refine ⟨fun v r => ?_, fun r => ?_, fun v r there => ?_, fun r ne => ?_, bitsOk, hiOk, leastOk⟩
  · change v ∈ rq.without t (tasks t).prio r ↔ _
    rw [h.mem_without linked]
    rcases eq_or_ne v t with rfl | differ
    · simp [after r]
    · simp [differ]
  · change (rq.without t (tasks t).prio r).Nodup
    rcases eq_or_ne r (tasks t).prio with rfl | differ
    · simpa only [update_self] using (h.nodup _).erase t
    · simpa only [update_of_ne differ] using h.nodup r
  · rcases eq_or_ne v t with rfl | differ
    · rw [update_self] at there
      exact absurd there (after r)
    · rw [update_of_ne differ] at there ⊢
      exact h.prio v r there
  · obtain ⟨v, member⟩ := exists_mem_of_ne_nil _ ne
    refine h.bound r (ne_nil_of_mem ((h.mem v r).mpr ?_))
    exact ((h.mem_without linked v r).mp member).2

/-- Taking out a task while another one stays: the bitmap is never searched in vain. -/
theorem RunqOk.remove (other : u ≠ t) (stays : (tasks u).taskList = .ready p) :
    ∃ rq', rq.remove t (tasks t).prio = some rq' ∧ rq'.list = rq.without t (tasks t).prio ∧
      ∀ k : Ktask, (∀ p, k.taskList ≠ .ready p) → RunqOk rq' (update tasks t k) := by
  have inQueue : rq.list (tasks t).prio ≠ [] := ne_nil_of_mem ((h.mem t _).mpr linked)
  have keep r (differ : r ≠ (tasks t).prio) : rq.without t (tasks t).prio r = rq.list r :=
      update_of_ne differ _ _
  unfold Runqueue.remove
  dsimp only
  split
  · -- others of the same priority stay: nothing but the list changes
    rename_i v l rest
    have same r : rq.without t (tasks t).prio r ≠ [] ↔ rq.list r ≠ [] := by
      rcases eq_or_ne r (tasks t).prio with rfl | differ
      · exact iff_of_true (ne_of_eq_of_ne rest (cons_ne_nil v l)) inQueue
      · rw [keep r differ]
    refine ⟨_, rfl, rfl, fun k after => h.build_without linked after
      (fun r => (h.bits r).trans (same r).symm) ((same _).mpr h.highest) fun r below => ?_⟩
    exact not_not.mp fun ne => (same r).mp ne (h.least r below)
  · rename_i rest
    have cleared r : bitmapBit (krhinoBitmapClear rq.taskBitMap (tasks t).prio) r = true ↔
        rq.without t (tasks t).prio r ≠ [] := by
      rw [bitmapBit_clear]
      rcases eq_or_ne r (tasks t).prio with rfl | differ
      · exact iff_of_false (by simp) (not_not.mpr rest)
      · simp [differ, h.bits r]
    by_cases top : (tasks t).prio = rq.highestPri
    · -- the next priority is searched for, and the task that stays is one to be found
      have atU : rq.without t (tasks t).prio p ≠ [] :=
        ne_nil_of_mem ((h.mem_without linked u p).mpr ⟨other, stays⟩)
      have bound : p < 32 * numWords := by
        have low := h.bound p (ne_nil_of_mem ((h.mem u p).mpr stays))
        simp only [numWords, priMax] at low ⊢
        omega
      obtain ⟨first, found, set, before⟩ :=
        krhinoFindFirstBit_spec _ numWords ⟨p, bound, (cleared p).mpr atU⟩
      rw [if_neg (not_not.mpr top), found]
      refine ⟨_, rfl, rfl, fun k after => h.build_without linked after cleared
        ((cleared _).mp set) fun r below => ?_⟩
      refine not_not.mp fun ne => ?_
      have clear := before r below
      rw [(cleared r).mpr ne] at clear
      cases clear
    · rw [if_pos top]
      refine ⟨_, rfl, rfl, fun k after => h.build_without linked after cleared ?_
        fun r below => ?_⟩
      · rw [keep _ (Ne.symm top)]
        exact h.highest
      · rw [keep r fun same => inQueue (h.least _ (same ▸ below))]
        exact h.least r below

end

/-! ## Blocked lists -/

/-- The blocked lists agree with the tasks. -/
structure BlkOk (blk : ObjId → BlkObj) (tasks : TaskId → Ktask) : Prop where
  mem : ∀ t o, t ∈ (blk o).blkList ↔ (tasks t).taskList = .blk o
  nodup : ∀ o, (blk o).blkList.Nodup
  sorted : ∀ o, (blk o).blkPolicy = .pri →
    (blk o).blkList.Pairwise fun u v => (tasks u).prio ≤ (tasks v).prio

variable {blk blk' : ObjId → BlkObj}

section

variable (h : BlkOk blk tasks) {o : ObjId}
include h

theorem BlkOk.congr (link : ∀ t o, (tasks' t).taskList = .blk o ↔ (tasks t).taskList = .blk o)
    (prio : ∀ t o, (tasks t).taskList = .blk o → (tasks' t).prio = (tasks t).prio) :
    BlkOk blk tasks' where
  mem t o := (h.mem t o).trans (link t o).symm
  nodup := h.nodup
  sorted o policy := by
    refine (h.sorted o policy).imp_of_mem fun {u v} inU inV le => ?_
    rwa [prio u o ((h.mem u o).mp inU), prio v o ((h.mem v o).mp inV)]

/-- A change of one task that leaves its node in no blocked list. -/
theorem BlkOk.update_not_blk (before : ∀ o, (tasks t).taskList ≠ .blk o)
    (after : ∀ o, k.taskList ≠ .blk o) : BlkOk blk (update tasks t k) := by
  refine h.congr (fun u o => ?_) (fun u o linked => ?_)
  · rcases eq_or_ne u t with rfl | other
    · simp [before o, after o]
    · simp [other]
  · have other : u ≠ t := fun same => before o (same ▸ linked)
    simp [other]

/-- A change of one task that keeps its node and its priority. -/
theorem BlkOk.update_same (link : k.taskList = (tasks t).taskList)
    (prio : k.prio = (tasks t).prio) : BlkOk blk (update tasks t k) := by
  refine h.congr (fun u o => ?_) (fun u o _ => ?_) <;>
    rcases eq_or_ne u t with rfl | other <;> simp [*]

/-- A change of the objects that keeps their lists and policies. -/
theorem BlkOk.congr_blk (list : ∀ o, (blk' o).blkList = (blk o).blkList)
    (policy : ∀ o, (blk' o).blkPolicy = (blk o).blkPolicy) : BlkOk blk' tasks where
  mem t o := by rw [list]; exact h.mem t o
  nodup o := by rw [list]; exact h.nodup o
  sorted o pri := by rw [list]; exact h.sorted o (policy o ▸ pri)

/-- The list of `o` and the record of `t` change, and `t` is in no other list. -/
theorem BlkOk.relist (elsewhere : ∀ a, a ≠ o → (tasks t).taskList ≠ .blk a ∧ k.taskList ≠ .blk a)
    (mem : ∀ u, u ∈ l ↔ (update tasks t k u).taskList = .blk o) (nodup : l.Nodup)
    (sorted : (blk o).blkPolicy = .pri →
      l.Pairwise fun u v => (update tasks t k u).prio ≤ (update tasks t k v).prio) :
    BlkOk (update blk o { blk o with blkList := l }) (update tasks t k) := by
  refine ⟨fun u a => ?_, fun a => ?_, fun a policy => ?_⟩ <;> rcases eq_or_ne a o with rfl | other
  · simpa using mem u
  · rcases eq_or_ne u t with rfl | differ
    · simp [other, h.mem, elsewhere a other]
    · simp [other, differ, h.mem]
  · simpa using nodup
  · simpa [other] using h.nodup a
  · rw [update_self] at policy ⊢
    exact sorted policy
  · rw [update_of_ne other] at policy ⊢
    refine (h.sorted a policy).imp_of_mem fun {u v} inU inV le => ?_
    have differ : ∀ w ∈ (blk a).blkList, w ≠ t := fun w inW same =>
      (elsewhere a other).1 (same ▸ (h.mem w a).mp inW)
    rwa [update_of_ne (differ u inU), update_of_ne (differ v inV)]

/-- A task leaves the list it is blocked in; what happens to its record besides is free as long
as its node is in no blocked list. -/
theorem BlkOk.unlink (linked : (tasks t).taskList = .blk o) (after : ∀ o, k.taskList ≠ .blk o) :
    BlkOk (update blk o { blk o with blkList := (blk o).blkList.erase t })
      (update tasks t k) := by
  have gone : t ∉ (blk o).blkList.erase t := (h.nodup o).not_mem_erase
  refine h.relist (fun a other => ⟨?_, after a⟩) (fun u => ?_) ((h.nodup o).erase t)
    fun policy => ?_
  · rw [linked]
    exact fun same => other (Link.blk.inj same).symm
  · rcases eq_or_ne u t with rfl | other
    · simp [gone, after o]
    · simp [other, mem_erase_of_ne other, h.mem]
  · refine ((h.sorted o policy).sublist erase_sublist).imp_of_mem fun {u v} inU inV le => ?_
    have other : ∀ w ∈ (blk o).blkList.erase t, w ≠ t := fun w inW same => gone (same ▸ inW)
    rwa [update_of_ne (other u inU), update_of_ne (other v inV)]

/-- A task enters the list of `o` at a place that keeps the order. -/
theorem BlkOk.link (free : ∀ a, (tasks t).taskList ≠ .blk a) (link : k.taskList = .blk o)
    (perm : l.Perm (t :: (blk o).blkList))
    (sorted : (blk o).blkPolicy = .pri →
      l.Pairwise fun u v => (update tasks t k u).prio ≤ (update tasks t k v).prio) :
    BlkOk (update blk o { blk o with blkList := l }) (update tasks t k) := by
  have absent : t ∉ (blk o).blkList := fun member => free o ((h.mem t o).mp member)
  refine h.relist (fun a other => ⟨free a, ?_⟩) (fun u => ?_)
    (perm.nodup_iff.mpr (nodup_cons.mpr ⟨absent, h.nodup o⟩)) sorted
  · rw [link]
    exact fun same => other (Link.blk.inj same).symm
  · rw [perm.mem_iff, mem_cons]
    rcases eq_or_ne u t with rfl | other
    · simp [link]
    · simp [other, h.mem]

end

theorem pendListInsert_eq (prio : TaskId → Nat) (t : TaskId) (l : List TaskId) :
    pendListInsert prio t l = l.orderedInsert (fun u v => prio u < prio v) t := by
  induction l with
  | nil => rfl
  | cons u l ih =>
    rw [pendListInsert, orderedInsert, ih]

theorem pendListInsert_perm (prio : TaskId → Nat) (t : TaskId) (l : List TaskId) :
    (pendListInsert prio t l).Perm (t :: l) := by
  rw [pendListInsert_eq]
  exact perm_orderedInsert ..

theorem pendListInsert_sorted (prio : TaskId → Nat) (t : TaskId)
    (sorted : l.Pairwise fun u v => prio u ≤ prio v) :
    (pendListInsert prio t l).Pairwise fun u v => prio u ≤ prio v := by
  rw [pendListInsert_eq]
  exact Lib.pairwise_orderedInsert sorted fun _ _ => Iff.rfl

/-! ## The tick list -/

/-- The tick list agrees with the tasks. -/
structure TickOk (list : List TaskId) (tasks : TaskId → Ktask) : Prop where
  mem : ∀ t, t ∈ list ↔ (tasks t).tickHead = true
  nodup : list.Nodup

variable {list : List TaskId}

theorem TickOk.congr (h : TickOk list tasks)
    (same : ∀ t, (tasks' t).tickHead = (tasks t).tickHead) : TickOk list tasks' where
  mem t := by rw [same]; exact h.mem t
  nodup := h.nodup

theorem TickOk.update_same (h : TickOk list tasks) (same : k.tickHead = (tasks t).tickHead) :
    TickOk list (update tasks t k) := by
  refine h.congr fun u => ?_
  rcases eq_or_ne u t with rfl | other <;> simp [*]

theorem TickOk.erase (h : TickOk list tasks) (out : k.tickHead = false) :
    TickOk (list.erase t) (update tasks t k) := by
  refine ⟨fun u => ?_, h.nodup.erase t⟩
  rcases eq_or_ne u t with rfl | other
  · simp [out, h.nodup.not_mem_erase]
  · simp [other, mem_erase_of_ne other, h.mem]

theorem tickListPriInsert_eq (remaining : TaskId → Nat) (val : Nat) (t : TaskId) (l : List TaskId) :
    tickListPriInsert remaining val t l = l.orderedInsert (fun _ u => remaining u > val) t := by
  induction l with
  | nil => rfl
  | cons u l ih =>
    rw [tickListPriInsert, orderedInsert, ih]

theorem tickListPriInsert_perm (remaining : TaskId → Nat) (val : Nat) (t : TaskId)
    (l : List TaskId) : (tickListPriInsert remaining val t l).Perm (t :: l) := by
  rw [tickListPriInsert_eq]
  exact perm_orderedInsert ..

theorem TickOk.insert (h : TickOk list tasks) (fresh : t ∉ list) (into : k.tickHead = true)
    (perm : l.Perm (t :: list)) : TickOk l (update tasks t k) := by
  refine ⟨fun u => ?_, perm.nodup_iff.mpr (nodup_cons.mpr ⟨fresh, h.nodup⟩)⟩
  rcases eq_or_ne u t with rfl | other
  · simp [into, perm.mem_iff]
  · simp [other, perm.mem_iff, h.mem]

end AliosThings.Rhino
