import AliosThings.Rhino.PriWalk

/-!
# The steps that keep every priority at the value due to it

`Balanced L X s` says that the lists of owned mutexes are in order and that every task of `L` has
the priority due to it. The steps of the kernel calls that concern a mutex are shown here to keep
it: a waiter leaves, a mutex is given back, and somebody acquires it.
-/

namespace AliosThings.Rhino

open Lib List Function KState

structure Balanced (L : Set TaskId) (X : Set ObjId) (s : KState) : Prop where
  own : Ownership L X s
  prios : Inherited L X s

/-- The tasks that exist. -/
def KState.live (s : KState) : Set TaskId := {t | (s.tasks t).Live}

variable {L : Set TaskId} {X Y : Set ObjId} {s s' : KState} {t u : TaskId} {m : ObjId}
  {blk : ObjId → BlkObj} {f : BlkObj → BlkObj}

theorem SameOwnership.live_eq (same : SameOwnership s s') : s'.live = s.live :=
  Set.ext fun t => same.live t

theorem SameOwnership.balanced (same : SameOwnership s s') (h : Balanced L X s) : Balanced L X s' :=
  ⟨same.ownership h.own, same.inherited h.prios⟩

theorem PrioOnly.live_eq (moved : PrioOnly s s') : s'.live = s.live :=
  Set.ext fun t => moved.toReprioritised.live t

/-- Who may wait, and with which priority, is all that counts. -/
theorem Inherited.congr (h : Inherited L X s) (prio : ∀ t, (s'.tasks t).prio = (s.tasks t).prio)
    (bPrio : ∀ t ∈ L, (s'.tasks t).bPrio = (s.tasks t).bPrio)
    (waits : ∀ w, ∀ t ∈ L, WaitsFor Y s' w t ↔ WaitsFor X s w t) : Inherited L Y s' := by
  intro t inL
  have due := h t inL
  simp only [prio]
  exact due.congr (bPrio t inL) (fun w => waits w t inL) fun w _ => rfl

/-! ## Giving a task the priority due to it -/

/-- `mutex_release` without a mutex, after a waiter of `t` has gone. -/
theorem mutexRelease_none (h : Core s) (own : Ownership L ∅ s) (inL : t ∈ L)
    (notIdle : t ≠ idleTask)
    (others : ∀ u ∈ L, u ≠ t → Due s.prios s.bases (WaitsFor ∅ s) u (s.tasks u).prio) :
    PrioOnly s (mutexRelease s t none) ∧ Inherited L ∅ (mutexRelease s t none) := by
  obtain ⟨q, look, due⟩ := mutexPriLook_due h own inL
  have low : q < priMax := due.le_base.trans_lt (h.bPrio t)
  unfold mutexRelease
  rw [look]
  simp only
  split
  · obtain ⟨-, moved, settled⟩ := taskPriChange_settles h own inL notIdle low ⟨others, due⟩
    exact ⟨moved, settled⟩
  · next same =>
    refine ⟨.refl s, SettledBut.settled_self ⟨others, ?_⟩⟩
    exact not_ne_iff.mp same ▸ due

/-! ## A waiter leaves -/

section Leave

variable {L' : Set TaskId} {o : ObjId} {k : Ktask} {rq : Runqueue} {ticks : List TaskId}

theorem put_owns (type : ∀ a, (blk a).objType = (s.blk a).objType) (u : TaskId) (m : ObjId) :
    Owns X (s.put t k rq blk ticks) u m ↔ Owns X s u m := by
  unfold Owns
  rw [put_blk, type, put_mutexes]

/-- One record and the lists of waiters change, but nobody's mutexes. -/
theorem Ownership.put (own : Ownership L X s) (type : ∀ a, (blk a).objType = (s.blk a).objType)
    (policy : ∀ a, (blk a).blkPolicy = (s.blk a).blkPolicy)
    (waiters : ∀ a w, w ∈ (blk a).blkList → (s.blk a).objType = .mutex →
      (s.mutexes a).mutexTask ≠ some w)
    (sub : L' ⊆ L) (owner : ∀ u m, Owns X s u m → u ∈ L') (live : t ∈ L' → k.Live)
    (seed : k.taskState = .seed → (s.tasks t).taskState = .seed)
    (mutexList : k.mutexList = (s.tasks t).mutexList) :
    Ownership L' X (s.put t k rq blk ticks) where
  owner u m owns := owner u m ((put_owns type u m).mp owns)
  live u inL := by
    rcases eq_or_ne u t with rfl | other
    · simpa using live inL
    · simpa [other] using own.live u (sub inL)
  taskAddr u inL := own.taskAddr u (sub inL)
  mutexAddr m mutex := own.mutexAddr m ((type m).symm.trans mutex)
  policy m mutex := (policy m).trans (own.policy m ((type m).symm.trans mutex))
  noSelf m w mutex inList := waiters m w inList ((type m).symm.trans mutex)
  hung := own.hung
  holds u inL := by
    obtain ⟨l, holds⟩ := own.holds u (sub inL)
    refine ⟨l, ?_, holds.nodup, fun m => (holds.mem m).trans (put_owns type u m).symm⟩
    rcases eq_or_ne u t with rfl | other
    · simpa [mutexList] using holds.chain
    · simpa [other] using holds.chain
  seed u state := by
    rcases eq_or_ne u t with rfl | other
    · simp only [put_tasks, update_self] at state ⊢
      rw [mutexList]
      exact own.seed u (seed state)
    · simp only [put_tasks, update_of_ne other] at state ⊢
      exact own.seed u state

/-- The waits are those of the others. -/
theorem unblocked_waitsFor (h : Core s) (linked : (s.tasks t).taskList = .blk o) (w u : TaskId) :
    WaitsFor X (s.put t k rq (blkWithout s.blk o t) ticks) w u ↔ WaitsFor X s w u ∧ w ≠ t := by
  unfold WaitsFor
  rw [← exists_and_right]
  refine exists_congr fun m => ?_
  rw [put_owns (blkWith_type _ _ _), and_assoc, put_blk, blkWith_blkList]
  refine and_congr_right fun _ => ?_
  split
  · next same =>
    rw [(h.blk.nodup o).mem_erase_iff, same]
    exact and_comm
  · next differ =>
    refine ⟨fun there => ⟨there, ?_⟩, And.left⟩
    rintro rfl
    exact differ (Link.blk.inj (((h.blk.mem w m).mp there).symm.trans linked))

variable (rq ticks)

theorem unblocked_ownership (own : Ownership L X s) (sub : L' ⊆ L)
    (owner : ∀ u m, Owns X s u m → u ∈ L') (live : t ∈ L' → k.Live)
    (notSeed : k.taskState ≠ .seed) (mutexList : k.mutexList = (s.tasks t).mutexList) :
    Ownership L' X (s.put t k rq (blkWithout s.blk o t) ticks) := by
  refine own.put (blkWith_type _ _ _) (blkWith_policy _ _ _) (fun m w inList mutex => ?_) sub owner
    live (fun state => absurd state notSeed) mutexList
  refine own.noSelf m w mutex ?_
  rw [blkWith_blkList] at inList
  split at inList
  · next same => exact same ▸ mem_of_mem_erase inList
  · exact inList

/-- The waits of the others, and so what is due to a task that had no waiter leave. -/
theorem unblocked_due (h : Core s) (linked : (s.tasks t).taskList = .blk o)
    (prio : k.prio = (s.tasks t).prio) (bPrio : k.bPrio = (s.tasks t).bPrio)
    (due : Due s.prios s.bases (WaitsFor X s) u (s.prios u))
    (unaffected : ¬ WaitsFor X s t u ∨ s.prios u ≠ s.prios t) :
    Due (s.put t k rq (blkWithout s.blk o t) ticks).prios
      (s.put t k rq (blkWithout s.blk o t) ticks).bases
      (WaitsFor X (s.put t k rq (blkWithout s.blk o t) ticks)) u
      ((s.put t k rq (blkWithout s.blk o t) ticks).prios u) := by
  have prios : (s.put t k rq (blkWithout s.blk o t) ticks).prios = s.prios := by
    funext u
    rcases eq_or_ne u t with rfl | other <;> simp [KState.prios, *]
  have bases : (s.put t k rq (blkWithout s.blk o t) ticks).bases = s.bases := by
    funext u
    rcases eq_or_ne u t with rfl | other <;> simp [KState.bases, *]
  rw [prios, bases]
  refine .mk due.le_base (fun w waits => ?_) ?_
  · exact due.le_waiter ((unblocked_waitsFor h linked w u).mp waits).1
  rcases due.attained with eq | ⟨w, waits, eq⟩
  · exact .inl eq
  refine .inr ⟨w, (unblocked_waitsFor h linked w u).mpr ⟨waits, ?_⟩, eq⟩
  rintro rfl
  rcases unaffected with free | differ
  · exact free waits
  · exact differ eq.symm

omit rq ticks in
/-- The end of a wait, and the owner that hears of it. -/
theorem Left.balanced {st : TaskStat} (h : Core s) (bal : Balanced L ∅ s) (left : Left s t st s')
    (sub : L' ⊆ L) (owner : ∀ u m, Owns ∅ s u m → u ∈ L')
    (live : t ∈ L' → st ≠ .seed ∧ st ≠ .deleted) (notSeed : st ≠ .seed) : Balanced L' ∅ s' := by
  obtain ⟨o, rq, bs, linked, core, rfl⟩ := left
  have obj := ((h.task t).of_blk linked).2
  have own := unblocked_ownership (k := (s.tasks t).left st bs) (o := o) rq (s.tickList.erase t)
    bal.own sub owner live notSeed rfl
  have due := fun u (inL : u ∈ L') => unblocked_due (k := (s.tasks t).left st bs) rq
    (s.tickList.erase t) h linked rfl rfl (bal.prios u (sub inL))
  unfold mutexTaskPriReset
  have obj' : ((s.putLeft t o st bs rq).tasks t).blkObj = some o := by simpa [Ktask.left] using obj
  have waits := waitsFor_iff h linked
  simp only [obj', put_blk, blkWith_type, put_mutexes]
  split
  · next type =>
    cases held : (s.mutexes o).mutexTask
    case none =>
      exact absurd held (h.owner o type (ne_nil_of_mem ((h.blk.mem t o).mpr linked)))
    case some w =>
    have waiter := (waits w).mpr ⟨type, held⟩
    have wIn : w ∈ L' := owner w o ⟨type, held, Set.notMem_empty _⟩
    have other : w ≠ t := fun same => bal.own.irrefl t (by rwa [same] at waiter)
    have notOwner : ∀ u, u ≠ w → ¬ WaitsFor ∅ s t u := fun u differ waits' =>
      differ (waiter.unique h waits')
    simp only
    split
    · obtain ⟨moved, settled⟩ := mutexRelease_none core own wIn (waiter.ne_idle h)
        fun u inL differ => due u inL (.inl (notOwner u differ))
      exact ⟨moved.ownership own, settled⟩
    · next differ =>
      refine ⟨own, fun u inL => due u inL ?_⟩
      rcases eq_or_ne u w with rfl | notW
      · refine .inr fun same => differ ?_
        simpa [other, Ktask.left] using same
      · exact .inl (notOwner u notW)
  · next type =>
    exact ⟨own, fun u inL => due u inL (.inl fun waiter => type ((waits u).mp waiter).1)⟩

end Leave

/-! ## A mutex changes hands -/

/-- The first waiter of a mutex that is on its way to another owner is woken. -/
theorem wakeup_balanced (bs : BlkStat) (h : Core s) (bal : Balanced L X s)
    (linked : (s.tasks t).taskList = .blk m) (loose : m ∈ X) :
    Balanced L X (pendTaskEnd bs s t) := by
  obtain ⟨rq, eq, -⟩ := pendTaskEnd_eq bs h linked
  have live : ((s.tasks t).woken bs).Live := by
    unfold Ktask.woken Ktask.Live
    split <;> simp
  have mutexList : ((s.tasks t).woken bs).mutexList = (s.tasks t).mutexList := by
    unfold Ktask.woken
    split <;> rfl
  rw [eq]
  refine ⟨unblocked_ownership rq _ bal.own (fun _ inL => inL) bal.own.owner (fun _ => live) live.1
    mutexList, fun u inL => unblocked_due rq _ h linked (by simp) (by simp) (bal.prios u inL)
      (.inl ?_)⟩
  rintro ⟨a, owns, inList⟩
  obtain rfl := Link.blk.inj (((h.blk.mem t a).mp inList).symm.trans linked)
  exact owns.2.2 loose

/-- The state in which `t` owns `m`. -/
theorem mutexSetOwner_eq (s : KState) (m : ObjId) (t : TaskId) :
    mutexSetOwner s m t = { s with
        mutexes := update s.mutexes m
          { s.mutexes m with mutexTask := some t, mutexList := (s.tasks t).mutexList }
        tasks := update s.tasks t { s.tasks t with mutexList := some m } } := rfl

theorem mutexSetOwner_prio (u : TaskId) :
    ((mutexSetOwner s m t).tasks u).prio = (s.tasks u).prio := by
  rcases eq_or_ne u t with rfl | other <;> simp [mutexSetOwner_eq, *]

theorem mutexSetOwner_bPrio (u : TaskId) :
    ((mutexSetOwner s m t).tasks u).bPrio = (s.tasks u).bPrio := by
  rcases eq_or_ne u t with rfl | other <;> simp [mutexSetOwner_eq, *]

theorem mutexSetOwner_live (u : TaskId) :
    ((mutexSetOwner s m t).tasks u).Live ↔ (s.tasks u).Live := by
  unfold Ktask.Live
  rcases eq_or_ne u t with rfl | other <;> simp [mutexSetOwner_eq, *]

theorem mutexSetOwner_owns (type : (s.blk m).objType = .mutex) (loose : ∀ u, ¬ Owns X s u m)
    (u : TaskId) (a : ObjId) :
    Owns (X \ {m}) (mutexSetOwner s m t) u a ↔ Owns X s u a ∨ u = t ∧ a = m := by
  unfold Owns
  rcases eq_or_ne a m with rfl | other
  · have notBefore : ¬ ((s.mutexes a).mutexTask = some u ∧ a ∉ X) := fun held =>
      loose u ⟨type, held⟩
    simp only [mutexSetOwner_eq, type, notBefore]
    simp [eq_comm]
  · simp [mutexSetOwner_eq, other]

theorem mutexSetOwner_waitsFor (type : (s.blk m).objType = .mutex) (loose : ∀ u, ¬ Owns X s u m)
    (w u : TaskId) :
    WaitsFor (X \ {m}) (mutexSetOwner s m t) w u ↔
      WaitsFor X s w u ∨ u = t ∧ w ∈ (s.blk m).blkList := by
  unfold WaitsFor
  simp only [mutexSetOwner_owns type loose, or_and_right, exists_or]
  refine or_congr Iff.rfl ?_
  constructor
  · rintro ⟨a, ⟨rfl, rfl⟩, there⟩
    exact ⟨rfl, there⟩
  · rintro ⟨rfl, there⟩
    exact ⟨m, ⟨rfl, rfl⟩, there⟩

/-- Somebody acquires a mutex that nobody owns and that only tasks of no higher priority wait
for. -/
theorem mutexSetOwner_balanced (bal : Balanced L X s) (type : (s.blk m).objType = .mutex)
    (loose : ∀ u, ¬ Owns X s u m) (inL : t ∈ L)
    (waiters : ∀ w ∈ (s.blk m).blkList, w ≠ t ∧ (s.tasks t).prio ≤ (s.tasks w).prio) :
    Balanced L (X \ {m}) (mutexSetOwner s m t) := by
  have own := bal.own
  have apart : ∀ u l, Holds X s u l → m ∉ l := fun u l holds inList =>
    loose u ((holds.mem m).mp inList)
  have next : (mutexSetOwner s m t).nextMutex =
      update s.nextMutex m (s.tasks t).mutexList := by
    funext a
    rcases eq_or_ne a m with rfl | other <;> simp [mutexSetOwner_eq, nextMutex, *]
  refine ⟨⟨⟨?_, ?_, own.taskAddr, own.mutexAddr, own.policy, ?_, own.hung⟩, ?_, ?_⟩, ?_⟩
  · intro u a owns
    rcases (mutexSetOwner_owns type loose u a).mp owns with before | ⟨rfl, -⟩
    · exact own.owner u a before
    · exact inL
  · intro u uIn
    exact (mutexSetOwner_live u).mpr (own.live u uIn)
  · intro a w mutex inList
    rcases eq_or_ne a m with rfl | other
    · simpa [mutexSetOwner_eq, eq_comm] using (waiters w inList).1
    · simpa [mutexSetOwner_eq, other] using own.noSelf a w mutex inList
  · intro u uIn
    obtain ⟨l, holds⟩ := own.holds u uIn
    have out := apart u l holds
    rcases eq_or_ne u t with rfl | other
    · refine ⟨m :: l, ?_, nodup_cons.mpr ⟨out, holds.nodup⟩, fun a => ?_⟩
      · rw [next]
        simpa [mutexSetOwner_eq] using holds.chain.cons out
      · rw [mutexSetOwner_owns type loose, mem_cons, holds.mem]
        tauto
    · refine ⟨l, ?_, holds.nodup, fun a => ?_⟩
      · rw [next]
        simpa [mutexSetOwner_eq, other] using holds.chain.update out
      · rw [mutexSetOwner_owns type loose, holds.mem]
        tauto
  · intro u state
    rcases eq_or_ne u t with rfl | other
    · exact absurd (by simpa [mutexSetOwner_eq] using state) (own.live u inL).1
    · simp only [mutexSetOwner_eq, update_of_ne other] at state ⊢
      exact own.seed u state
  · intro u uIn
    have due := bal.prios u uIn
    simp only [mutexSetOwner_prio, mutexSetOwner_bPrio]
    refine .mk due.le_base (fun w waits => ?_) ?_
    · rcases (mutexSetOwner_waitsFor type loose w u).mp waits with before | ⟨rfl, there⟩
      · exact due.le_waiter before
      · exact (waiters w there).2
    · refine due.attained.imp id ?_
      rintro ⟨w, waits, eq⟩
      exact ⟨w, (mutexSetOwner_waitsFor type loose w u).mpr (.inl waits), eq⟩

/-- Objects change, but not who owns what, nor the links and waiters of a mutex that is owned. -/
theorem Balanced.congr (bal : Balanced L X s) (tasks : s'.tasks = s.tasks) (hung : s'.hung = s.hung)
    (owns : ∀ u a, Owns Y s' u a ↔ Owns X s u a)
    (owned : ∀ u a, Owns X s u a →
      s'.nextMutex a = s.nextMutex a ∧ (s'.blk a).blkList = (s.blk a).blkList)
    (mutex : ∀ a, (s'.blk a).objType = .mutex → a < addrRange ∧ (s'.blk a).blkPolicy = .pri ∧
      ∀ w ∈ (s'.blk a).blkList, (s'.mutexes a).mutexTask ≠ some w) : Balanced L Y s' := by
  have own := bal.own
  refine ⟨⟨⟨fun u a held => own.owner u a ((owns u a).mp held), tasks ▸ own.live, own.taskAddr,
    fun a type => (mutex a type).1, fun a type => (mutex a type).2.1,
    fun a w type => (mutex a type).2.2 w, hung.trans own.hung⟩, fun u inL => ?_, tasks ▸ own.seed⟩,
    bal.prios.congr (fun _ => by rw [tasks]) (fun _ _ => by rw [tasks]) fun w u _ => ?_⟩
  · obtain ⟨l, holds⟩ := own.holds u inL
    refine ⟨l, ?_, holds.nodup, fun a => (holds.mem a).trans (owns u a).symm⟩
    rw [tasks]
    exact holds.chain.congr fun a inList => (owned u a ((holds.mem a).mp inList)).1
  · refine exists_congr fun a => ?_
    rw [owns]
    refine and_congr_right fun held => ?_
    rw [(owned u a held).2]

/-- A mutex changes in a way that leaves every owner in place. -/
theorem modMutex_balanced {f : Kmutex → Kmutex} (bal : Balanced L X s)
    (list : (f (s.mutexes m)).mutexList = (s.mutexes m).mutexList)
    (owner : ∀ u, (f (s.mutexes m)).mutexTask = some u → (s.mutexes m).mutexTask = some u)
    (owns : ∀ u a, Owns Y (s.modMutex m f) u a ↔ Owns X s u a) : Balanced L Y (s.modMutex m f) := by
  refine bal.congr rfl rfl owns (fun u a _ => ⟨?_, rfl⟩) fun a type =>
    ⟨bal.own.mutexAddr a type, bal.own.policy a type, fun w there held =>
      bal.own.noSelf a w type there ?_⟩
  · unfold nextMutex
    rcases eq_or_ne a m with rfl | other <;> simp [modMutex, *]
  · rcases eq_or_ne a m with rfl | other
    · exact owner w (by simpa [modMutex] using held)
    · simpa [modMutex, other] using held

/-- The number of locks concerns nobody else. -/
theorem ownerNested_balanced (bal : Balanced L X s) (n : Nat) :
    Balanced L X (s.modMutex m fun k => { k with ownerNested := n }) := by
  refine modMutex_balanced bal rfl (fun _ held => held) fun u a => ?_
  unfold Owns
  rcases eq_or_ne a m with rfl | other <;> simp [modMutex, *]

/-- A mutex on its way to another owner ends up with none. -/
theorem freeMutex_balanced (bal : Balanced L X s) (loose : ∀ u, ¬ Owns X s u m) :
    Balanced L (X \ {m}) (s.modMutex m fun k => { k with mutexTask := none }) := by
  refine modMutex_balanced bal rfl (fun u held => by simp at held) fun u a => ?_
  rcases eq_or_ne a m with rfl | other
  · refine iff_of_false ?_ (loose u)
    rintro ⟨-, held, -⟩
    simp [modMutex] at held
  · simp [Owns, modMutex, other]

/-- A mutex on its way to another owner goes to the first task that waits for it. -/
theorem handOver_balanced {rest : List TaskId} (h : Core s) (bal : Balanced L X s)
    (type : (s.blk m).objType = .mutex) (loose : m ∈ X) (list : (s.blk m).blkList = t :: rest)
    (inL : t ∈ L) : Balanced L (X \ {m}) (mutexSetOwner (pendTaskWakeup s t) m t) := by
  have linked := h.linked_head list
  have sorted := h.blk.sorted m (bal.own.policy m type)
  have nodup := h.blk.nodup m
  rw [list] at sorted nodup
  have woke := pendTaskEnd_kept (X := ∅) .finish h linked
  have left : ((pendTaskWakeup s t).blk m).blkList = rest := by
    have erased := pendTaskEnd_blkList .finish h linked
    rwa [list, erase_cons_head] at erased
  refine mutexSetOwner_balanced (wakeup_balanced .finish h bal linked loose)
    ((woke.type m).trans type) (fun u owns => owns.2.2 loose) inL fun w waits => ?_
  rw [left] at waits
  have other : w ≠ t := fun same => (nodup_cons.mp nodup).1 (same ▸ waits)
  refine ⟨other, ?_⟩
  have sameHead : ((pendTaskWakeup s t).tasks t).prio = (s.tasks t).prio := by
    obtain ⟨rq, eq, -⟩ := pendTaskEnd_eq .finish h linked
    rw [show pendTaskWakeup s t = _ from eq]
    simp
  rw [sameHead, show (pendTaskWakeup s t).tasks w = _ from pendTaskEnd_other .finish h linked other]
  exact (pairwise_cons.mp sorted).1 w waits

section

variable (h : Core (s.modBlk m f)) (bal : Balanced L ∅ s) (owns : Owns ∅ s t m)
  (list : (f (s.blk m)).blkList = (s.blk m).blkList)
  (policy : (f (s.blk m)).blkPolicy = (s.blk m).blkPolicy)
include h bal owns list policy

/-- The owner of `m` is about to give it back: the mutex is no longer one, or it is on its way to
another owner. `mutex_pri_look` takes it out of the owner's list and computes what is due to the
owner without it. -/
theorem mutexPriLook_giveBack
    (how : X = ∅ ∧ (f (s.blk m)).objType ≠ .mutex ∨ X = {m} ∧ (f (s.blk m)).objType = .mutex) :
    Ownership L X (mutexPriLook (s.modBlk m f) t (some m)).2 ∧
      SettledBut L s.prios s.bases (WaitsFor X (s.modBlk m f)) t
        (mutexPriLook (s.modBlk m f) t (some m)).1 ∧
      ∃ l, Repointed (.task t) l (s.modBlk m f) (mutexPriLook (s.modBlk m f) t (some m)).2 := by
  have own := bal.own
  have inL := own.owner t m owns
  have lists a : ((s.modBlk m f).blk a).blkList = (s.blk a).blkList := by
    rcases eq_or_ne a m with rfl | other <;> simp [modBlk, *]
  have mutex a (type : ((s.modBlk m f).blk a).objType = .mutex) : (s.blk a).objType = .mutex := by
      rcases eq_or_ne a m with rfl | other
      · exact owns.1
      · simpa [modBlk, other] using type
  -- nothing but `m` has been let go
  have rest u a : Owns X (s.modBlk m f) u a ↔ Owns ∅ s u a ∧ a ≠ m := by
    unfold Owns
    rcases eq_or_ne a m with rfl | other
    · rcases how with ⟨rfl, none⟩ | ⟨rfl, -⟩ <;> simp [modBlk, *]
    · rcases how with ⟨rfl, -⟩ | ⟨rfl, -⟩ <;> simp [modBlk, other]
  have kept u a (other : u ≠ t) : (Owns X (s.modBlk m f) u a ↔ Owns ∅ s u a) := by
    refine (rest u a).trans (and_iff_left_of_imp ?_)
    rintro held rfl
    exact other (Option.some.inj (held.2.1.symm.trans owns.2.1))
  have owners : Owners L X (s.modBlk m f) :=
    { owner := fun u a held => own.owner u a ((rest u a).mp held).1
      live := own.live
      taskAddr := own.taskAddr
      mutexAddr := fun a type => own.mutexAddr a (mutex a type)
      policy := fun a type => by
        rw [← own.policy a (mutex a type)]
        rcases eq_or_ne a m with rfl | differ <;> simp [modBlk, *]
      noSelf := fun a w type waits => own.noSelf a w (mutex a type) (lists a ▸ waits)
      hung := own.hung }
  have otherLists u (uIn : u ∈ L) (other : u ≠ t) : ∃ l, Holds X (s.modBlk m f) u l := by
    obtain ⟨l, holds⟩ := own.holds u uIn
    exact ⟨l, holds.chain, holds.nodup, fun a => (holds.mem a).trans (kept u a other).symm⟩
  obtain ⟨l, holds⟩ := own.holds t inL
  obtain ⟨due, own', moved⟩ := mutexPriLook_release h owners inL own.seed otherLists holds.chain
    holds.nodup (fun a => by rw [rest, holds.mem]) (fun u held => ((rest u m).mp held).2 rfl)
    (own.mutexAddr m owns.1)
  refine ⟨own', ⟨fun u uIn other => ?_, due⟩, l, moved⟩
  refine (bal.prios u uIn).congr rfl (fun w => ?_) fun _ _ => rfl
  unfold WaitsFor
  simp only [kept u _ other, lists]

/-- The owner of `m` gives it back and falls to what is due to it without the mutex. The walk that
follows may start at a task that waits only if the mutex is no longer one. -/
theorem mutexRelease_balanced
    (how : X = ∅ ∧ (f (s.blk m)).objType ≠ .mutex ∨
      X = {m} ∧ (f (s.blk m)).objType = .mutex ∧ (s.tasks t).taskState = .rdy) :
    Balanced L X (mutexRelease (s.modBlk m f) t (some m)) := by
  obtain ⟨own', unsettled, l, moved⟩ := mutexPriLook_giveBack h bal owns list policy
    (how.imp id fun ⟨loose, type, _⟩ => ⟨loose, type⟩)
  have inL := bal.own.owner t m owns
  have notIdle : t ≠ idleTask := fun same => h.idleOwns m (same ▸ owns.2.1)
  have core := (mutexPriLook_core (some m) h t).2.1
  unfold mutexRelease
  generalize mutexPriLook (s.modBlk m f) t (some m) = look at own' unsettled moved core ⊢
  obtain ⟨q, s'⟩ := look
  simp only at own' unsettled moved core ⊢
  have same := moved.reprioritised
  have low : q < priMax := unsettled.due.le_base.trans_lt (h.bPrio t)
  -- pointers do not change what is due
  have unsettled' : SettledBut L s'.prios s'.bases (WaitsFor X s') t q := by
    have carry u r (due : Due s.prios s.bases (WaitsFor X (s.modBlk m f)) u r) :
        Due s'.prios s'.bases (WaitsFor X s') u r :=
      due.congr (same.bPrio u) (fun w => same.waitsFor w u) fun w _ => moved.prio w
    exact ⟨fun u inL differ => (congrArg (Due _ _ _ u) (moved.prio u)).mpr
      (carry u _ (unsettled.others u inL differ)), carry t q unsettled.due⟩
  split
  · have walked : PrioOnly s' (taskPriChange s' t q).2 ∧
        Inherited L X (taskPriChange s' t q).2 := by
      rcases how with ⟨rfl, -⟩ | ⟨-, -, rdy⟩
      · exact (taskPriChange_settles core own' inL notIdle low unsettled').2
      · exact taskPriChange_ready core own' inL notIdle ((same.taskState t).trans rdy) low
          unsettled'
    exact ⟨walked.1.ownership own', walked.2⟩
  · next eq => exact ⟨own', SettledBut.settled_self (not_ne_iff.mp eq ▸ unsettled')⟩

end

end AliosThings.Rhino
