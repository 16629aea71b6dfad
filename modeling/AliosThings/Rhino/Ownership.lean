import AliosThings.Lib.Chain
import AliosThings.Lib.Inherit
import AliosThings.Rhino.MutexCalls

/-!
# Who owns which mutex

The mutexes of a task are the cells of the linked list that starts at its `mutex_list`. While a
mutex passes from one owner to the next it is in nobody's list for a moment although `mutex_task`
still names the old owner; `X` is the set of such mutexes. `L` is the set of the tasks whose lists
count: all that exist, except one that is being deleted.
-/

namespace AliosThings.Rhino

open Lib List KState

/-- `t` owns `m`. -/
def Owns (X : Set ObjId) (s : KState) (t : TaskId) (m : ObjId) : Prop :=
  (s.blk m).objType = .mutex ∧ (s.mutexes m).mutexTask = some t ∧ m ∉ X

/-- `w` waits for a mutex of `t`. -/
def WaitsFor (X : Set ObjId) (s : KState) (w t : TaskId) : Prop :=
  ∃ m, Owns X s t m ∧ w ∈ (s.blk m).blkList

/-- `next` pointers of the lists of owned mutexes. -/
def KState.nextMutex (s : KState) (m : ObjId) : Option ObjId := (s.mutexes m).mutexList

@[simp] theorem put_nextMutex (s : KState) (t : TaskId) (k : Ktask) (rq : Runqueue)
    (blk : ObjId → BlkObj) (ticks : List TaskId) :
    (s.put t k rq blk ticks).nextMutex = s.nextMutex := rfl

/-- The list of the mutexes of `t` is `l`. -/
structure Holds (X : Set ObjId) (s : KState) (t : TaskId) (l : List ObjId) : Prop where
  chain : Chain s.nextMutex (s.tasks t).mutexList l
  nodup : l.Nodup
  mem : ∀ m, m ∈ l ↔ Owns X s t m

/-- What holds of owners and waiters, the lists apart. -/
structure Owners (L : Set TaskId) (X : Set ObjId) (s : KState) : Prop where
  owner : ∀ t m, Owns X s t m → t ∈ L
  live : ∀ t ∈ L, (s.tasks t).Live
  taskAddr : ∀ t ∈ L, t < addrRange
  mutexAddr : ∀ m, (s.blk m).objType = .mutex → m < addrRange
  policy : ∀ m, (s.blk m).objType = .mutex → (s.blk m).blkPolicy = .pri
  /-- Nobody waits for a mutex of its own. -/
  noSelf : ∀ m w, (s.blk m).objType = .mutex → w ∈ (s.blk m).blkList →
    (s.mutexes m).mutexTask ≠ some w
  hung : s.hung = false

structure Ownership (L : Set TaskId) (X : Set ObjId) (s : KState) : Prop extends Owners L X s where
  holds : ∀ t ∈ L, ∃ l, Holds X s t l
  /-- A control block that was never used is zero. -/
  seed : ∀ t, (s.tasks t).taskState = .seed → (s.tasks t).mutexList = none

abbrev KState.prios (s : KState) : TaskId → Nat := fun t => (s.tasks t).prio

/-- The base priorities. -/
abbrev KState.bases (s : KState) : TaskId → Nat := fun t => (s.tasks t).bPrio

/-- The priorities of the tasks of `L` are those due to them. -/
def Inherited (L : Set TaskId) (X : Set ObjId) (s : KState) : Prop :=
  Settled L (fun t => (s.tasks t).prio) (fun t => (s.tasks t).bPrio) (WaitsFor X s)

variable {L : Set TaskId} {X : Set ObjId} {s s' s'' : KState} {t w u : TaskId} {pri newPri r : Nat}

/-- A task waits for one mutex at most, so for one owner. -/
theorem WaitsFor.unique (h : Core s) (one : WaitsFor X s w t) (two : WaitsFor X s w u) : u = t := by
  obtain ⟨m, owns, inList⟩ := one
  obtain ⟨a, owns', inList'⟩ := two
  have linked := (h.blk.mem w m).mp inList
  have linked' := (h.blk.mem w a).mp inList'
  obtain rfl := Link.blk.inj (linked.symm.trans linked')
  exact Option.some.inj (owns'.2.1.symm.trans owns.2.1)

/-- Nobody waits for itself. -/
theorem Owners.irrefl (h : Owners L X s) (t : TaskId) : ¬ WaitsFor X s t t := by
  rintro ⟨m, owns, inList⟩
  exact h.noSelf m t owns.1 inList owns.2.1

/-- A list of mutexes is shorter than the bound of the loops that follow it. -/
theorem length_le_addrRange {l : List ObjId} (nodup : l.Nodup)
    (addr : ∀ m ∈ l, m < addrRange) : l.length ≤ addrRange := by
  have bound : l ⊆ range addrRange := fun m inList => mem_range.mpr (addr m inList)
  simpa using (nodup.subperm bound).length_le

theorem Holds.types {l : List ObjId} (holds : Holds X s t l) (a : ObjId) (inList : a ∈ l) :
    (s.blk a).objType = .mutex := ((holds.mem a).mp inList).1

/-- No list of mutexes is longer than the memory. -/
theorem Owners.enough {l : List ObjId} (own : Owners L X s) (holds : Holds X s t l) :
    l.length ≤ addrRange :=
  length_le_addrRange holds.nodup fun a inList => own.mutexAddr a (holds.types a inList)

section

variable (same : SameOwnership s s')
include same

/-- A step that leaves the mutexes and the priorities alone. -/
theorem SameOwnership.owns (t : TaskId) (m : ObjId) : Owns X s' t m ↔ Owns X s t m := by
  unfold Owns
  rw [same.type, same.mutexes]

theorem SameOwnership.waitsFor (w t : TaskId) : WaitsFor X s' w t ↔ WaitsFor X s w t := by
  refine exists_congr fun m => ?_
  rw [same.owns]
  refine and_congr_right fun owns => ?_
  rw [same.waiters m owns.1]

/-- What no mutex is concerned with keeps the owners. -/
theorem SameOwnership.ownership (h : Ownership L X s) : Ownership L X s' where
  holds t inL := by
    obtain ⟨l, holds⟩ := h.holds t inL
    refine ⟨l, ?_, holds.nodup, fun m => (holds.mem m).trans (same.owns t m).symm⟩
    rw [same.mutexList]
    exact holds.chain.congr fun a _ => by rw [nextMutex, same.mutexes]; rfl
  seed t state := by
    rw [same.mutexList]
    exact h.seed t (same.seed t state)
  owner t m owns := h.owner t m ((same.owns t m).mp owns)
  live t inL := (same.live t).mpr (h.live t inL)
  taskAddr := h.taskAddr
  mutexAddr m type := h.mutexAddr m ((same.type m).mp type)
  policy m type := by
    rw [same.waiters m ((same.type m).mp type)]
    exact h.policy m ((same.type m).mp type)
  noSelf m w type inList := by
    rw [same.waiters m ((same.type m).mp type)] at inList
    rw [same.mutexes]
    exact h.noSelf m w ((same.type m).mp type) inList
  hung := same.hung.trans h.hung

/-- It keeps the inherited priorities. -/
theorem SameOwnership.inherited (h : Inherited L X s) : Inherited L X s' := by
  intro t inL
  have due := h t inL
  simp only [same.prio]
  exact due.congr (same.bPrio t) (fun w => same.waitsFor w t) fun w _ => rfl

end

section

variable (moved : Reprioritised s s')
include moved

/-- A walk along the owners changes neither owners nor waiters. -/
theorem Reprioritised.owns (t : TaskId) (m : ObjId) : Owns X s' t m ↔ Owns X s t m := by
  unfold Owns
  rw [moved.waiters.type, moved.mutexTask]

theorem Reprioritised.waitsFor (w t : TaskId) : WaitsFor X s' w t ↔ WaitsFor X s w t := by
  refine exists_congr fun m => ?_
  rw [moved.owns, (moved.waiters.perm m).mem_iff]

theorem Reprioritised.live (t : TaskId) : (s'.tasks t).Live ↔ (s.tasks t).Live := by
  unfold Ktask.Live
  rw [moved.taskState]

theorem Reprioritised.owners (hung : s'.hung = s.hung) (h : Owners L X s) : Owners L X s' where
  owner t m owns := h.owner t m ((moved.owns t m).mp owns)
  live t inL := (moved.live t).mpr (h.live t inL)
  taskAddr := h.taskAddr
  mutexAddr m type := h.mutexAddr m (moved.waiters.type m ▸ type)
  policy m type := by
    rw [moved.waiters.policy]
    exact h.policy m (moved.waiters.type m ▸ type)
  noSelf m w type inList := by
    rw [moved.mutexTask]
    exact h.noSelf m w (moved.waiters.type m ▸ type) ((moved.waiters.perm m).mem_iff.mp inList)
  hung := hung.trans h.hung

end

/-! ## Looking at the waiters -/

/-- The first waiter of a list that is ordered by priority has the least. -/
theorem firstBlkPri_spec (h : Core s) {m : ObjId} (policy : (s.blk m).blkPolicy = .pri)
    (pri : Nat) :
    (s.blk m).blkList = [] ∧ firstBlkPri s m pri = pri ∨
      IsLeast {q | ∃ w ∈ (s.blk m).blkList, (s.tasks w).prio = q} (firstBlkPri s m pri) := by
  have sorted := h.blk.sorted m policy
  unfold firstBlkPri
  cases list : (s.blk m).blkList with
  | nil => exact .inl ⟨rfl, rfl⟩
  | cons w =>
    rw [list, pairwise_cons] at sorted
    refine .inr ⟨⟨w, mem_cons_self, rfl⟩, ?_⟩
    rintro q ⟨u, inList, rfl⟩
    rcases mem_cons.mp inList with rfl | inRest
    · exact le_rfl
    · exact sorted.1 u inRest

/-- The priorities of the tasks that wait for a mutex of the list other than `rel`. -/
def waiterPrios (s : KState) (rel : Option ObjId) (l : List ObjId) : Set Nat :=
  {q | ∃ m ∈ l, some m ≠ rel ∧ ∃ w ∈ (s.blk m).blkList, (s.tasks w).prio = q}

/-- One more mutex: the least so far, and that of its first waiter. -/
theorem isLeast_waiterPrios_cons (h : Core s) {rel : Option ObjId} {m : ObjId} {l : List ObjId}
    (policy : (s.blk m).blkPolicy = .pri) (other : some m ≠ rel) (le : newPri ≤ pri)
    (least : IsLeast (insert (min newPri (firstBlkPri s m pri)) (waiterPrios s rel l)) r) :
    IsLeast (insert newPri (waiterPrios s rel (m :: l))) r := by
  have split : waiterPrios s rel (m :: l) =
      {q | ∃ w ∈ (s.blk m).blkList, (s.tasks w).prio = q} ∪ waiterPrios s rel l := by
    ext q
    simp [waiterPrios, other]
  rw [split]
  rcases firstBlkPri_spec h policy pri with ⟨empty, same⟩ | first
  · rw [same, min_eq_left le] at least
    simpa [empty] using least
  obtain ⟨mem, lower⟩ := least
  refine ⟨?_, ?_⟩
  · rcases mem with rfl | inRest
    · rcases min_choice newPri (firstBlkPri s m pri) with eq | eq <;> rw [eq]
      · exact Set.mem_insert _ _
      · exact Set.mem_insert_of_mem _ (.inl first.1)
    · exact Set.mem_insert_of_mem _ (.inr inRest)
  · have below := lower (Set.mem_insert _ _)
    rintro q (rfl | inFirst | inRest)
    · exact below.trans (min_le_left _ _)
    · exact below.trans ((min_le_right _ _).trans (first.2 inFirst))
    · exact lower (Set.mem_insert_of_mem _ inRest)

/-- Only `mutex_list` pointers differ: the one at `prev` and those in the cells of `l`. -/
structure Repointed (prev : MutexRef) (l : List ObjId) (s s' : KState) : Prop where
  rest : s' = { s with tasks := s'.tasks, mutexes := s'.mutexes }
  task : ∀ u, s'.tasks u = { s.tasks u with mutexList := (s'.tasks u).mutexList }
  mutex : ∀ m, s'.mutexes m = { s.mutexes m with mutexList := (s'.mutexes m).mutexList }
  tasks : ∀ u, prev ≠ .task u → s'.tasks u = s.tasks u
  cells : ∀ m, m ∉ l → prev ≠ .mutex m → s'.mutexes m = s.mutexes m

variable {prev prev' ref : MutexRef} {l l' : List ObjId} {fuel q : Nat}

theorem Repointed.refl (prev : MutexRef) (l : List ObjId) (s : KState) : Repointed prev l s s :=
  ⟨rfl, fun _ => rfl, fun _ => rfl, fun _ _ => rfl, fun _ _ _ => rfl⟩

/-- A pointer of a list is changed. -/
theorem Repointed.store (prev : MutexRef) (l : List ObjId) (s : KState) (v : Option ObjId) :
    Repointed prev l s (prev.store s v) := by
  cases prev with
  | task t =>
    refine ⟨rfl, fun u => ?_, fun _ => rfl, fun u differ => ?_, fun _ _ _ => rfl⟩
    · rcases eq_or_ne u t with rfl | other <;> simp [MutexRef.store, modTask_eq, *]
    · have other : u ≠ t := fun same => differ (same ▸ rfl)
      simp [MutexRef.store, modTask_eq, other]
  | mutex a =>
    refine ⟨rfl, fun _ => rfl, fun m => ?_, fun _ _ => rfl, fun m _ differ => ?_⟩
    · rcases eq_or_ne m a with rfl | other <;> simp [MutexRef.store, modMutex, *]
    · have other : m ≠ a := fun same => differ (same ▸ rfl)
      simp [MutexRef.store, modMutex, other]

section

variable (h : Repointed prev l s s')
include h

/-- First one pointer, then those further down the list. -/
theorem Repointed.trans (h' : Repointed prev' l' s' s'') (sub : l' ⊆ l)
    (down : prev' = prev ∨ ∃ m ∈ l, prev' = .mutex m) : Repointed prev l s s'' where
  rest := by
    conv_lhs => rw [h'.rest, h.rest]
  task u := by
    conv_lhs => rw [h'.task, h.task]
  mutex m := by
    conv_lhs => rw [h'.mutex, h.mutex]
  tasks u differ := by
    rw [h'.tasks u, h.tasks u differ]
    rcases down with rfl | ⟨m, -, rfl⟩
    · exact differ
    · exact MutexRef.noConfusion
  cells m out differ := by
    rw [h'.cells m (fun inList => out (sub inList)), h.cells m out differ]
    rcases down with rfl | ⟨a, inList, rfl⟩
    · exact differ
    · rintro ⟨⟩
      exact out inList

/-- That is what a walk may do. -/
theorem Repointed.reprioritised : Reprioritised s s' where
  rest := by
    conv_lhs => rw [h.rest]
    rw [h.rest]
  task t := by
    conv_lhs => rw [h.task]
    rw [h.task t]
  mutex := h.mutex
  waiters := by
    rw [h.rest]
    exact SameWaiters.refl _

theorem Repointed.hung : s'.hung = s.hung := by
  rw [h.rest]

/-- A pointer that is not one of those. -/
theorem Repointed.load (differ : ref ≠ prev) (apart : ∀ m ∈ l, ref ≠ .mutex m) :
    ref.load s' = ref.load s := by
  cases ref with
  | task t =>
    simp only [MutexRef.load]
    rw [h.tasks t differ.symm]
  | mutex m =>
    simp only [MutexRef.load]
    rw [h.cells m (fun inList => apart m inList rfl) differ.symm]

theorem Repointed.prio (t : TaskId) : (s'.tasks t).prio = (s.tasks t).prio := by
  rw [h.task]

theorem Repointed.blk : s'.blk = s.blk := by
  rw [h.rest]

theorem Repointed.waiterPrios (rel : Option ObjId) (cells : List ObjId) :
    waiterPrios s' rel cells = waiterPrios s rel cells := by
  unfold Rhino.waiterPrios
  simp only [h.blk, h.prio]

end

/-- What `mutex_pri_look` finds in a list, and what it leaves of it. -/
theorem mutexPriLookLoop_spec (rel : Option ObjId) (h : Core s)
    (chain : Chain s.nextMutex (prev.load s) l) (nodup : l.Nodup)
    (apart : ∀ m ∈ l, prev ≠ .mutex m) (enough : l.length ≤ fuel)
    (policy : ∀ m ∈ l, some m ≠ rel → (s.blk m).blkPolicy = .pri) (le : newPri ≤ pri) :
    IsLeast (insert newPri (waiterPrios s rel l)) (mutexPriLookLoop rel fuel prev pri newPri s).1 ∧
      Chain (mutexPriLookLoop rel fuel prev pri newPri s).2.nextMutex
        (prev.load (mutexPriLookLoop rel fuel prev pri newPri s).2)
        (l.filter fun m => some m ≠ rel) ∧
      Repointed prev l s (mutexPriLookLoop rel fuel prev pri newPri s).2 ∧
      (rel = none → (mutexPriLookLoop rel fuel prev pri newPri s).2 = s) := by
  induction l generalizing fuel prev pri newPri s with
  | nil =>
    have load : prev.load s = none := chain
    unfold mutexPriLookLoop
    rw [load]
    refine ⟨?_, chain, .refl _ _ s, fun _ => rfl⟩
    simp [waiterPrios]
  | cons m rest ih =>
    obtain _ | fuel := fuel
    · cases enough
    obtain ⟨notIn, nodupRest⟩ := nodup_cons.mp nodup
    have enough' : rest.length ≤ fuel := Nat.le_of_succ_le_succ enough
    obtain ⟨load, chainRest⟩ := chain
    unfold mutexPriLookLoop
    rw [load]
    simp only
    by_cases released : some m = rel
    · -- `*prev` now points past the released mutex
      have stored := Repointed.store prev (m :: rest) s (s.mutexes m).mutexList
      have apartRest a (inRest : a ∈ rest) : prev ≠ .mutex a :=
        apart a (mem_cons_of_mem m inRest)
      have next a (inRest : a ∈ rest) : (prev.store s (s.mutexes m).mutexList).nextMutex a =
          s.nextMutex a := by
        unfold nextMutex
        rw [(Repointed.store prev [] s _).cells a not_mem_nil (apartRest a inRest)]
      have loaded : prev.load (prev.store s (s.mutexes m).mutexList) = s.nextMutex m := by
        cases prev <;> simp [MutexRef.load, MutexRef.store, nextMutex, modTask_eq, modMutex]
      rw [if_pos released]
      obtain ⟨least, chain', moved, -⟩ := ih (h.store _ prev)
        (loaded ▸ chainRest.congr next) nodupRest apartRest enough'
        (fun a inRest => stored.blk ▸ policy a (mem_cons_of_mem m inRest)) le
      refine ⟨?_, ?_, stored.trans moved (subset_cons_self m rest) (.inl rfl), fun none =>
        by cases released.trans none⟩
      · rw [stored.waiterPrios] at least
        simpa [waiterPrios, released] using least
      · simpa [released] using chain'
    · have apartRest a (inRest : a ∈ rest) : MutexRef.mutex m ≠ .mutex a := by
        rintro ⟨⟩
        exact notIn inRest
      rw [if_neg released, ← min_def_lt, min_comm]
      have fromM : Chain s.nextMutex ((MutexRef.mutex m).load s) rest := chainRest
      obtain ⟨least, chain', moved, same⟩ := ih h fromM nodupRest apartRest enough'
        (fun a inRest => policy a (mem_cons_of_mem m inRest)) (min_le_right newPri _)
      have whole := (Repointed.refl prev (m :: rest) s).trans moved (subset_cons_self m rest)
        (.inr ⟨m, mem_cons_self, rfl⟩)
      refine ⟨?_, ?_, whole, same⟩
      · exact isLeast_waiterPrios_cons h (policy m mem_cons_self released) released le least
      · rw [filter_cons_of_pos (by simpa using released)]
        refine ⟨?_, chain'⟩
        rw [moved.load (apart m mem_cons_self) fun a inRest =>
          apart a (mem_cons_of_mem m inRest)]
        exact load

variable {m : ObjId}

/-- The least priority among the waiters is the one due. -/
theorem due_of_waiterPrios (rel : Option ObjId) (mem : ∀ a, a ∈ l ∧ some a ≠ rel ↔ Owns X s t a)
    (least : IsLeast (insert (s.tasks t).bPrio (waiterPrios s rel l)) q) :
    Due s.prios s.bases (WaitsFor X s) t q := by
  have same : waiterPrios s rel l = {q | ∃ w, WaitsFor X s w t ∧ (s.tasks w).prio = q} := by
    ext q
    constructor
    · rintro ⟨a, inList, other, w, inBlk, rfl⟩
      exact ⟨w, ⟨a, (mem a).mp ⟨inList, other⟩, inBlk⟩, rfl⟩
    · rintro ⟨w, ⟨a, owns, inBlk⟩, rfl⟩
      obtain ⟨inList, other⟩ := (mem a).mpr owns
      exact ⟨a, inList, other, w, inBlk, rfl⟩
  rw [same] at least
  exact least

/-- `mutex_pri_look` computes what is due to a task. -/
theorem mutexPriLook_due (h : Core s) (own : Ownership L X s) (inL : t ∈ L) :
    ∃ q, mutexPriLook s t none = (q, s) ∧
      Due s.prios s.bases (WaitsFor X s) t q := by
  obtain ⟨l, holds⟩ := own.holds t inL
  have chain : Chain s.nextMutex ((MutexRef.task t).load s) l := holds.chain
  obtain ⟨least, -, -, same⟩ := mutexPriLookLoop_spec none h chain holds.nodup
    (fun _ _ => MutexRef.noConfusion) (own.enough holds)
    (fun a inList _ => own.policy a (holds.types a inList)) (le_refl (s.tasks t).bPrio)
  refine ⟨_, Prod.ext rfl (same rfl), ?_⟩
  refine due_of_waiterPrios none (fun a => ?_) least
  rw [← holds.mem]
  simp

/-- `mutex_pri_look` takes the released mutex out of the list and computes what is due to the
owner without it. -/
theorem mutexPriLook_release (h : Core s) (own : Owners L X s) (inL : t ∈ L)
    (seed : ∀ u, (s.tasks u).taskState = .seed → (s.tasks u).mutexList = none)
    (others : ∀ u ∈ L, u ≠ t → ∃ l, Holds X s u l)
    (chain : Chain s.nextMutex (s.tasks t).mutexList l) (nodup : l.Nodup)
    (mem : ∀ a, a ∈ l ∧ a ≠ m ↔ Owns X s t a) (loose : ∀ u, ¬ Owns X s u m) (addr : m < addrRange) :
    Due s.prios s.bases (WaitsFor X s) t
        (mutexPriLook s t (some m)).1 ∧
      Ownership L X (mutexPriLook s t (some m)).2 ∧
      Repointed (.task t) l s (mutexPriLook s t (some m)).2 := by
  have types a (inList : a ∈ l) (other : a ≠ m) : (s.blk a).objType = .mutex :=
    ((mem a).mp ⟨inList, other⟩).1
  have enough := length_le_addrRange nodup fun a inList => by
    rcases eq_or_ne a m with rfl | other
    · exact addr
    · exact own.mutexAddr a (types a inList other)
  have chain' : Chain s.nextMutex ((MutexRef.task t).load s) l := chain
  obtain ⟨least, left, moved, -⟩ := mutexPriLookLoop_spec (some m) h chain' nodup
    (fun _ _ => MutexRef.noConfusion) enough
    (fun a inList other => own.policy a (types a inList fun same => other (same ▸ rfl)))
    (le_refl (s.tasks t).bPrio)
  have same := moved.reprioritised
  unfold mutexPriLook
  refine ⟨due_of_waiterPrios (some m) (fun a => ?_) least,
    { toOwners := same.owners moved.hung own, holds := fun u inL => ?_
      seed := fun u state => ?_ }, moved⟩
  · rw [← mem]
    simp
  rotate_left
  · rw [same.taskState] at state
    rw [moved.tasks u]
    · exact seed u state
    · rintro ⟨⟩
      exact (own.live t inL).1 state
  rcases eq_or_ne u t with rfl | other
  · refine ⟨_, left, nodup.filter _, fun a => ?_⟩
    rw [same.owns, ← mem]
    simp
  -- the lists of the other tasks share no cell with this one
  obtain ⟨lu, holds⟩ := others u inL other
  refine ⟨lu, ?_, holds.nodup, fun a => (holds.mem a).trans (same.owns u a).symm⟩
  rw [moved.tasks u fun eq => other (by cases eq; rfl)]
  refine holds.chain.congr fun a inList => ?_
  have owns := (holds.mem a).mp inList
  have apart : a ∉ l := fun inL' => by
    rcases eq_or_ne a m with rfl | differ
    · exact loose u owns
    · have owns' := (mem a).mp ⟨inL', differ⟩
      exact other (Option.some.inj (owns.2.1.symm.trans owns'.2.1))
  unfold nextMutex
  rw [moved.cells a apart MutexRef.noConfusion]

end AliosThings.Rhino
