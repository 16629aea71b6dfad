import AliosThings.Rhino.Inheritance
import AliosThings.Rhino.ListsAgree

/-!
# Every kernel call keeps the balance

In balance means: the lists of owned mutexes are those of the tasks that exist, and every such task
has the priority due to it. Each kernel call keeps that, with one exception: `krhino_task_del` of
a task that is already deleted follows the list the task had when it was deleted, and takes those
mutexes from the tasks that own them now.
-/

namespace AliosThings.Rhino

open Lib List Function Option KState Ktask Set

/-- All is in order between two calls. -/
def InBalance (s : KState) : Prop := Balanced s.live ∅ s

variable {st : TaskStat} {L : Set TaskId} {X : Set ObjId} {s s' r : KState} {t u w : TaskId}
  {m : ObjId}

/-- Steps that no mutex is concerned with keep the balance. -/
theorem SameOwnership.inBalance (same : SameOwnership s s') (bal : InBalance s) : InBalance s' := by
  unfold InBalance
  rw [same.live_eq]
  exact same.balanced bal

theorem coreSched_inBalance (bal : InBalance s) : InBalance (coreSched s) :=
  (SameOwnership.refl s).coreSched.inBalance bal

theorem pendTaskEnd_live (bs : BlkStat) (h : Core s) (linked : (s.tasks t).taskList = .blk m)
    (u : TaskId) : ((pendTaskEnd bs s t).tasks u).Live ↔ (s.tasks u).Live := by
  rcases eq_or_ne u t with rfl | other
  · obtain ⟨rq, eq, -⟩ := pendTaskEnd_eq bs h linked
    rw [eq, put_tasks, update_self]
    refine iff_of_true ?_ (h.live_of_blk linked)
    unfold woken Live
    split <;> simp
  · rw [pendTaskEnd_other bs h linked other]

/-! ## Scheduler and ticks -/

theorem krhinoSchedDisable_sameOwnership (s : KState) :
    SameOwnership s (krhinoSchedDisable s).2 := by
  refine intrptNestedLevelChk_cases (.refl s) fun _ => ?_
  split
  · exact .refl s
  · exact .congr rfl

theorem krhinoSchedEnable_sameOwnership (s : KState) : SameOwnership s (krhinoSchedEnable s).2 := by
  refine intrptNestedLevelChk_cases (.refl s) fun _ => ?_
  split
  · exact .refl s
  have unlocked : SameOwnership s { s with schedLock := s.schedLock - 1 } := .congr rfl
  simp only
  split
  · exact unlocked
  · exact unlocked.coreSched

theorem krhinoIntrptExit_sameOwnership (inv : KInv s) (nested : 0 < s.intrptNested) :
    SameOwnership s (krhinoIntrptExit s) := by
  rw [krhinoIntrptExit_eq inv nested]
  exact SameOwnership.coreSched (.congr rfl)

theorem Left.live (h : Core s) (left : Left s t st s') (other : u ≠ t) :
    (s'.tasks u).Live ↔ (s.tasks u).Live := by
  obtain ⟨o, rq, bs, -, moved, -⟩ := left.reprioritised h
  rw [moved.live]
  simp [other]

theorem clearBlkObj_sameOwnership (s : KState) (t : TaskId) : SameOwnership s (s.clearBlkObj t) :=
  .put rfl rfl rfl Iff.rfl id (fun _ => rfl) (fun _ _ => rfl)

section

variable (h : Core s) (bal : InBalance s)
include h bal

/-- A wait ends and the task goes on. -/
theorem Left.inBalance (left : Left s t st s') (live : st ≠ .seed ∧ st ≠ .deleted) :
    InBalance (s'.clearBlkObj t) := by
  refine (clearBlkObj_sameOwnership s' t).inBalance ?_
  have balanced := left.balanced h bal subset_rfl bal.own.owner (fun _ => live) live.1
  have same : s'.live = s.live := by
    ext u
    show (s'.tasks u).Live ↔ (s.tasks u).Live
    rcases eq_or_ne u t with rfl | other
    · obtain ⟨o, rq, bs, linked, -⟩ := left.reprioritised h
      refine iff_of_true ?_ (h.live_of_blk linked)
      unfold Live
      rwa [left.taskState h]
    · exact left.live h other
  unfold InBalance
  rwa [same]

/-- A timeout keeps the balance. -/
theorem tickExpire_inBalance (t : TaskId) : InBalance (tickExpire s t) := by
  rcases tickExpire_cases h t with same | ⟨st, out, ⟨live, relisted⟩ | ⟨s', left, eq⟩⟩
  · rwa [same]
  · have next : st ≠ .seed ∧ st ≠ .deleted := by rcases out with rfl | rfl <;> decide
    exact (relisted.sameOwnership (iff_of_true next live) next.1).inBalance bal
  · rw [eq]
    exact left.inBalance h bal (by rcases out with rfl | rfl <;> decide)

theorem tickListUpdateLoop_inBalance {list : List TaskId} :
    InBalance (tickListUpdateLoop list s) := by
  induction list generalizing s with
  | nil => exact bal
  | cons t _ ih =>
    unfold tickListUpdateLoop
    split
    · exact ih (tickExpire_kept h t).core (tickExpire_inBalance h bal t)
    · exact bal

theorem tickListUpdate_inBalance (ticks : Int) : InBalance (tickListUpdate s ticks) := by
  have counted : SameOwnership s
      { s with tickCount := ((s.tickCount + ticks) % tickRange).toNat } := .congr rfl
  exact tickListUpdateLoop_inBalance (by exact h.congr rfl) (counted.inBalance bal)

/-- A tick keeps the balance. -/
theorem krhinoTickProc_inBalance : InBalance (krhinoTickProc s) :=
  (timeSliceUpdate_kept (tickListUpdate_kept h 1).core).2.inBalance
    (tickListUpdate_inBalance h bal 1)

end

/-- An abort keeps the balance. -/
theorem krhinoTaskWaitAbort_inBalance (inv : KInv s) (bal : InBalance s) (t : TaskId) :
    InBalance (krhinoTaskWaitAbort s t).2 := by
  rcases krhinoTaskWaitAbort_cases inv t with ordinary | ⟨s', left, eq⟩
  · exact ordinary.quiet.inBalance bal
  · rw [eq]
    exact coreSched_inBalance (left.inBalance inv.core bal (by decide))

/-! ## Creation -/

/-- A task that does not exist owns nothing and waits for nothing. -/
theorem not_owns_of_dead (own : Ownership L X s) (out : t ∉ L) (a : ObjId) :
    ¬ Owns X s t a := fun owns => out (own.owner t a owns)

theorem put_created_inBalance {k : Ktask} (rq : Runqueue) (h : Core s) (bal : InBalance s)
    (dead : ¬ (s.tasks t).Live) (addr : t < addrRange) (live : k.Live) (prio : k.prio = k.bPrio)
    (mutexList : k.mutexList = none) : InBalance (s.put t k rq s.blk s.tickList) := by
  have own := bal.own
  have notOwner := not_owns_of_dead own dead
  have notWaiter := not_waitsFor (X := ∅) h fun o linked => dead (h.live_of_blk linked)
  have same : ∀ u a, Owns ∅ (s.put t k rq s.blk s.tickList) u a ↔ Owns ∅ s u a := fun _ _ => Iff.rfl
  refine ⟨⟨⟨fun u a owns => ?_, fun u inL => inL, fun u inL => ?_, own.mutexAddr, own.policy,
    own.noSelf, own.hung⟩, fun u inL => ?_, fun u state => ?_⟩, fun u inL => ?_⟩
  · have before : (s.tasks u).Live := own.owner u a owns
    rcases eq_or_ne u t with rfl | other
    · exact absurd before dead
    · show Live _
      simpa [other] using before
  · rcases eq_or_ne u t with rfl | other
    · exact addr
    · exact own.taskAddr u (show Live _ by simpa [KState.live, other] using inL)
  · rcases eq_or_ne u t with rfl | other
    · refine ⟨[], ?_, nodup_nil, fun a => ?_⟩
      · rw [put_tasks, update_self, mutexList]
        rfl
      · exact iff_of_false not_mem_nil (notOwner a)
    · obtain ⟨l, holds⟩ := own.holds u (show Live _ by simpa [KState.live, other] using inL)
      exact ⟨l, by simpa [other] using holds.chain, holds.nodup, holds.mem⟩
  · rcases eq_or_ne u t with rfl | other
    · exact absurd (by simpa using state) live.1
    · simp only [put_tasks, update_of_ne other] at state ⊢
      exact own.seed u state
  · rcases eq_or_ne u t with rfl | other
    · refine .mk (by simp [prio]) (fun w waits => ?_) (.inl (by simp [prio]))
      obtain ⟨a, owns, -⟩ := waits
      exact absurd owns (notOwner a)
    · have due := bal.prios u (show Live _ by simpa [KState.live, other] using inL)
      have here : ((s.put t k rq s.blk s.tickList).tasks u) = s.tasks u := by simp [other]
      simp only [here]
      refine due.congr (by simp [other]) (fun _ => Iff.rfl) fun w waits => ?_
      have differ : w ≠ t := by
        rintro rfl
        exact notWaiter u waits
      simp [differ]

/-- A new task owns nothing. -/
theorem taskCreate_inBalance (inv : KInv s) (bal : InBalance s) (dead : ¬ (s.tasks t).Live)
    (addr : t < addrRange) (prio ticks stackSize : Nat) (autorun : Bool) (flag : AllocFlag) :
    InBalance (taskCreate s t prio ticks stackSize autorun flag).2 := by
  unfold taskCreate
  split
  · exact bal
  split
  · exact bal
  refine intrptNestedLevelChk_cases bal fun _ => ?_
  split
  · exact bal
  cases autorun with
  | true =>
    refine coreSched_inBalance ?_
    refine (congrArg InBalance (put_readyListAddTail rfl)).mpr ?_
    exact put_created_inBalance _ inv.core bal dead addr (by simp [Live]) rfl rfl
  | false =>
    exact put_created_inBalance s.readyQueue inv.core bal dead addr (by simp [Live]) rfl rfl

/-- A new mutex is nobody's. -/
theorem mutexCreate_inBalance (bal : InBalance s)
    (fresh : (s.blk m).objType = .none) (addr : m < addrRange) (flag : AllocFlag) :
    InBalance (mutexCreate s m flag).2 := by
  have unowned : ∀ u a, Owns ∅ s u a → a ≠ m := by
    rintro u a owns rfl
    cases fresh.symm.trans owns.1
  have elsewhere a (other : a ≠ m) : (mutexCreate s m flag).2.blk a = s.blk a ∧
      (mutexCreate s m flag).2.mutexes a = s.mutexes a := by
    simp [mutexCreate, modMutex, modBlk, other]
  have created : (mutexCreate s m flag).2.blk m =
      { blkList := [], blkPolicy := .pri, objType := .mutex } := by
    simp [mutexCreate, modMutex, modBlk]
  refine bal.congr rfl rfl (fun u a => ?_) (fun u a owns => ?_) fun a type => ?_
  · unfold Owns mutexCreate
    rcases eq_or_ne a m with rfl | other
    · simp [modMutex, modBlk, fresh]
    · simp [modMutex, modBlk, other]
  · obtain ⟨blk, mutexes⟩ := elsewhere a (unowned u a owns)
    unfold nextMutex
    rw [blk, mutexes]
    exact ⟨rfl, rfl⟩
  · rcases eq_or_ne a m with rfl | other
    · rw [created]
      exact ⟨addr, rfl, by simp⟩
    · obtain ⟨blk, mutexes⟩ := elsewhere a other
      rw [blk] at type ⊢
      rw [mutexes]
      exact ⟨bal.own.mutexAddr a type, bal.own.policy a type, fun w => bal.own.noSelf a w type⟩

/-! ## Priorities -/

variable {l : List ObjId} {fuel pri high q : Nat} {cur : Option ObjId} {a : ObjId}

/-- `mutex_pri_limit` computes the least of the wanted priority and those of the waiters. -/
theorem mutexPriLimitLoop_spec (h : Core s) (chain : Chain s.nextMutex cur l)
    (enough : l.length ≤ fuel) (policy : ∀ m ∈ l, (s.blk m).blkPolicy = .pri) (le : high ≤ pri) :
    ∃ q, mutexPriLimitLoop s fuel cur pri high = some q ∧
      IsLeast (insert high (waiterPrios s none l)) q := by
  induction l generalizing fuel cur pri high with
  | nil =>
    have ends : cur = none := chain
    subst ends
    refine ⟨high, by unfold mutexPriLimitLoop; rfl, ?_⟩
    simp [waiterPrios]
  | cons m rest ih =>
    obtain _ | fuel := fuel
    · cases enough
    obtain ⟨rfl, chainRest⟩ := chain
    obtain ⟨q, eq, least⟩ := ih chainRest (Nat.le_of_succ_le_succ enough)
      (fun a inRest => policy a (mem_cons_of_mem m inRest)) (min_le_right high _)
    rw [min_comm, min_def_lt] at eq
    exact ⟨q, eq, isLeast_waiterPrios_cons h (policy m mem_cons_self) (by simp) le least⟩

theorem rebased_prio (s : KState) (t : TaskId) (pri : Nat) (u : TaskId) :
    ((s.rebased t pri).tasks u).prio = (s.tasks u).prio := by
  rcases eq_or_ne u t with rfl | other <;> simp [rebased, modTask_eq, *]

theorem rebased_bPrio (s : KState) (pri : Nat) (other : u ≠ t) :
    ((s.rebased t pri).tasks u).bPrio = (s.tasks u).bPrio := by
  simp [rebased, modTask_eq, other]

theorem rebased_live (s : KState) (t : TaskId) (pri : Nat) : (s.rebased t pri).live = s.live := by
  ext u
  show Live _ ↔ Live _
  unfold Live
  rcases eq_or_ne u t with rfl | other <;> simp [rebased, modTask_eq, *]

/-- Base priorities do not matter for who owns what. -/
theorem rebased_ownership (own : Ownership L X s) (t : TaskId) (pri : Nat) :
    Ownership L X (s.rebased t pri) :=
  own.put (fun _ => rfl) (fun _ => rfl) (fun a w waits mutex => own.noSelf a w mutex waits)
    subset_rfl own.owner (fun inL => own.live t inL) id rfl

/-- `mutex_pri_limit` is what is due to a task with its new base. -/
theorem mutexPriLimit_due (h : Core s) (own : Ownership L ∅ s) (inL : t ∈ L) (pri : Nat) :
    ∃ q, mutexPriLimit s t pri = some q ∧
      Due (s.rebased t pri).prios (s.rebased t pri).bases (WaitsFor ∅ (s.rebased t pri)) t q := by
  obtain ⟨l, holds⟩ := own.holds t inL
  obtain ⟨q, limit, least⟩ := mutexPriLimitLoop_spec h holds.chain (own.enough holds)
    (fun a inList => own.policy a (holds.types a inList)) (le_refl pri)
  refine ⟨q, limit, ?_⟩
  have mem a : a ∈ l ∧ some a ≠ none ↔ Owns ∅ (s.rebased t pri) t a := by
    have same : Owns ∅ (s.rebased t pri) t a ↔ Owns ∅ s t a := Iff.rfl
    rw [same, ← holds.mem]
    simp
  have same : waiterPrios (s.rebased t pri) none l = waiterPrios s none l := by
    unfold waiterPrios
    simp only [rebased_prio]
    rfl
  refine due_of_waiterPrios none mem ?_
  rw [same]
  simpa [rebased, modTask_eq] using least

/-- The walk of `krhino_task_pri_change`, for a task that exists. -/
theorem taskPriChange_inBalance (h : Core (s.rebased t pri)) (own : Ownership s.live ∅ s)
    (prios : Inherited s.live ∅ s) (live : (s.tasks t).Live) (notIdle : t ≠ idleTask)
    (low : q < priMax)
    (due : Due (s.rebased t pri).prios (s.rebased t pri).bases (WaitsFor ∅ (s.rebased t pri)) t q) :
    (taskPriChange (s.rebased t pri) t q).1 = .success ∧
      InBalance (taskPriChange (s.rebased t pri) t q).2 := by
  have own' := rebased_ownership own t pri
  obtain ⟨success, moved, settled⟩ := taskPriChange_settles h own' live notIdle low
    ⟨fun u inL other => (congrArg (Due _ _ _ u) (rebased_prio s t pri u)).mpr <|
      (prios u inL).congr (rebased_bPrio s pri other) (fun _ => Iff.rfl)
        fun w _ => rebased_prio s t pri w, due⟩
  refine ⟨success, ?_⟩
  unfold InBalance
  rw [moved.live_eq, rebased_live]
  exact ⟨moved.ownership own', settled⟩

theorem not_live_seed (dead : ¬ (s.tasks t).Live) (alive : (s.tasks t).taskState ≠ .deleted) :
    (s.tasks t).taskState = .seed := by
  by_contra created
  exact dead ⟨created, alive⟩

/-- The walk stops at a control block that was never used. -/
theorem taskPriChange_seed (seed : (s.tasks t).taskState = .seed) (pri q : Nat) :
    (taskPriChange (s.rebased t pri) t q).2 = s.rebased t pri := by
  unfold taskPriChange taskPriChangeLoop
  split
  · rfl
  · simp [rebased, modTask_eq, seed]

/-- The new priority is inherited along the owners. -/
theorem krhinoTaskPriChange_inBalance (inv : KInv s) (bal : InBalance s) (t : TaskId) (pri : Nat) :
    InBalance (krhinoTaskPriChange s t pri).2 := by
  have h := inv.core
  have walked {limit : Nat} (may : PriChanges s t pri limit) :
      InBalance (taskPriChange (s.rebased t pri) t limit).2 := by
    by_cases live : (s.tasks t).Live
    · obtain ⟨q, limited, due⟩ := mutexPriLimit_due h bal.own live pri
      obtain rfl : q = limit := some.inj (limited.symm.trans may.limited)
      exact (taskPriChange_inBalance (may.based h).core bal.own bal.prios live may.notIdle
        may.bounded due).2
    -- the walk stops at a control block that was never used
    rw [taskPriChange_seed (not_live_seed live may.alive)]
    unfold InBalance
    rw [rebased_live]
    refine ⟨rebased_ownership bal.own t pri, bal.prios.congr (rebased_prio s t pri)
      (fun u inL => rebased_bPrio s pri ?_) fun _ _ _ => Iff.rfl⟩
    rintro rfl
    exact live inL
  have does := krhinoTaskPriChange_does h t pri
  generalize (krhinoTaskPriChange s t pri).2 = r at does ⊢
  cases does with
  | refuses => exact bal
  | hangs alive endless =>
    by_cases live : (s.tasks t).Live
    · obtain ⟨q, limited, -⟩ := mutexPriLimit_due h bal.own live pri
      rw [endless] at limited
      cases limited
    · unfold mutexPriLimit mutexPriLimitLoop at endless
      rw [bal.own.seed t (not_live_seed live alive)] at endless
      cases endless
  | walks _ may => exact coreSched_inBalance (walked may)
  | fails _ may => exact walked may

/-! ## Deletion of a task -/

/-- A task is on its way out: its mutexes are all on their way to others. -/
theorem Balanced.abandon (bal : Balanced L ∅ s) (holds : Holds ∅ s t l) :
    Balanced (L \ {t}) {m | m ∈ l} s := by
  have own := bal.own
  have kept u (other : u ≠ t) a : Owns {m | m ∈ l} s u a ↔ Owns ∅ s u a := by
    refine and_congr_right fun type => and_congr_right fun held => ?_
    refine iff_of_true (fun inList => ?_) (notMem_empty a)
    exact other (some.inj (held.symm.trans ((holds.mem a).mp inList).2.1))
  refine ⟨⟨⟨fun u a owns => ?_, fun u inL => own.live u inL.1, fun u inL => own.taskAddr u inL.1,
    own.mutexAddr, own.policy, own.noSelf, own.hung⟩, fun u inL => ?_, own.seed⟩, ?_⟩
  · have other : u ≠ t := by
      rintro rfl
      exact owns.2.2 ((holds.mem a).mpr ⟨owns.1, owns.2.1, notMem_empty a⟩)
    exact ⟨own.owner u a ((kept u other a).mp owns), other⟩
  · obtain ⟨lu, holdsU⟩ := own.holds u inL.1
    exact ⟨lu, holdsU.chain, holdsU.nodup, fun a => (holdsU.mem a).trans (kept u inL.2 a).symm⟩
  · intro u inL
    refine (bal.prios u inL.1).congr rfl (fun w => ?_) fun _ _ => rfl
    unfold WaitsFor
    simp only [kept u inL.2]

/-- A hand-over leaves the other mutexes alone. -/
theorem handOver_frame (h : Core s) (linked : (s.tasks w).taskList = .blk m) (other : a ≠ m) :
    (mutexSetOwner (pendTaskWakeup s w) m w).blk a = s.blk a ∧
      (mutexSetOwner (pendTaskWakeup s w) m w).nextMutex a = s.nextMutex a := by
  obtain ⟨rq, eq, -⟩ := pendTaskEnd_eq .finish h linked
  unfold nextMutex
  rw [mutexSetOwner_eq, show pendTaskWakeup s w = _ from eq, put_blk]
  exact ⟨update_of_ne other _ _, by simp [other]⟩

/-- A turn of `task_mutex_free` leaves the links of the other mutexes alone. -/
theorem FreeTurn.nextMutex (h : Core s) (turn : FreeTurn m s s') (other : a ≠ m) :
    s'.nextMutex a = s.nextMutex a := by
  cases turn with
  | handOver _ _ list => exact (handOver_frame h (h.linked_head list) other).2
  | release => simp [nextMutex, modMutex, other]

/-- What every turn carries from a list of mutexes to its rest, `task_mutex_free` carries from the
list that it follows to the end. -/
theorem taskMutexFreeLoop_chain {P : List ObjId → KState → Prop}
    (turn : ∀ {m rest s s'}, Core s → m ∉ rest → FreeTurn m s s' → P (m :: rest) s → P rest s')
    (h : Core s) (chain : Chain s.nextMutex cur l) (nodup : l.Nodup) (enough : l.length ≤ fuel)
    (start : P l s) : P [] (taskMutexFreeLoop fuel cur s) := by
  induction l generalizing fuel cur s with
  | nil =>
    have ends : cur = none := chain
    subst ends
    unfold taskMutexFreeLoop
    exact start
  | cons m rest ih =>
    obtain _ | fuel := fuel
    · cases enough
    obtain ⟨rfl, chainRest⟩ := chain
    obtain ⟨notIn, nodupRest⟩ := nodup_cons.mp nodup
    have next : ∀ {s'}, FreeTurn m s s' → P [] (taskMutexFreeLoop fuel (s.nextMutex m) s') :=
      fun here => ih (here.kept h).core
        (chainRest.congr fun a inRest => here.nextMutex h fun same => notIn (same ▸ inRest))
        nodupRest (Nat.le_of_succ_le_succ enough) (turn h notIn here start)
    unfold taskMutexFreeLoop
    split
    · next w others list => exact next (.handOver w others list)
    · next list => exact next (.release list)

/-- `task_mutex_free` hands every mutex of the list on, or frees it. -/
theorem taskMutexFreeLoop_balanced (h : Core s) (bal : Balanced L {m | m ∈ l} s)
    (chain : Chain s.nextMutex cur l) (nodup : l.Nodup)
    (types : ∀ m ∈ l, (s.blk m).objType = .mutex)
    (waiters : ∀ m ∈ l, ∀ w ∈ (s.blk m).blkList, w ∈ L) (enough : l.length ≤ fuel) :
    Balanced L ∅ (taskMutexFreeLoop fuel cur s) ∧
      (∀ u, u ∉ L → (taskMutexFreeLoop fuel cur s).tasks u = s.tasks u) ∧
      (taskMutexFreeLoop fuel cur s).live = s.live := by
  refine And.imp (fun after => by simpa using after) And.right (taskMutexFreeLoop_chain
    (P := fun rest r => Balanced L {m | m ∈ rest} r ∧
      (∀ m ∈ rest, (r.blk m).objType = .mutex ∧ ∀ w ∈ (r.blk m).blkList, w ∈ L) ∧
      (∀ u, u ∉ L → r.tasks u = s.tasks u) ∧ r.live = s.live)
    (fun {m rest r r'} core notIn turn ⟨bal, dealt, others, live⟩ => ?_) h chain nodup enough
    ⟨bal, fun m inList => ⟨types m inList, waiters m inList⟩, fun _ _ => rfl, rfl⟩)
  have remaining : {a | a ∈ m :: rest} \ {m} = {a | a ∈ rest} := by
    ext a
    simp only [mem_sdiff, mem_ofPred_eq, mem_singleton_iff, mem_cons]
    exact ⟨fun ⟨inList, other⟩ => inList.resolve_left other,
      fun inRest => ⟨.inr inRest, fun same => notIn (same ▸ inRest)⟩⟩
  obtain ⟨type, waiters⟩ := dealt m mem_cons_self
  have dealtRest := fun a (inRest : a ∈ rest) => dealt a (mem_cons_of_mem m inRest)
  cases turn with
  | handOver w _ list =>
    have linked := core.linked_head list
    have wIn : w ∈ L := waiters w (by rw [list]; exact mem_cons_self)
    have handed := handOver_balanced core bal type mem_cons_self list wIn
    rw [remaining] at handed
    refine ⟨handed, fun a inRest => ?_, fun u out => ?_, Eq.trans ?_ live⟩
    · rw [(handOver_frame core linked fun same => notIn (same ▸ inRest)).1]
      exact dealtRest a inRest
    · have other : u ≠ w := fun same => out (same ▸ wIn)
      refine Eq.trans ?_ (others u out)
      simp only [mutexSetOwner_eq, update_of_ne other]
      exact pendTaskEnd_other .finish core linked other
    · ext u
      exact (mutexSetOwner_live u).trans (pendTaskEnd_live .finish core linked u)
  | release =>
    have freed := freeMutex_balanced bal fun u owns => owns.2.2 mem_cons_self
    rw [remaining] at freed
    exact ⟨freed, dealtRest, others, live⟩

/-- A task outside `L`, or one that goes on, is moved between lists. -/
theorem Relisted.balanced (h : Relisted s t st s') (bal : Balanced L X s)
    (live : t ∈ L → st ≠ .seed ∧ st ≠ .deleted) (notSeed : st ≠ .seed) : Balanced L X s' := by
  obtain ⟨-, k, rq, ticks, rfl, state, prio, bPrio, mutexList⟩ := h
  refine ⟨bal.own.put (fun _ => rfl) (fun _ => rfl)
    (fun a w waits mutex => bal.own.noSelf a w mutex waits) subset_rfl bal.own.owner
    (fun inL => ?_) (fun seed => absurd (state.symm.trans seed) notSeed) mutexList,
    bal.prios.congr (fun u => ?_) (fun u _ => ?_) fun _ _ _ => Iff.rfl⟩
  · simpa [Live, state] using live inL
  · rcases eq_or_ne u t with rfl | other <;> simp [*]
  · rcases eq_or_ne u t with rfl | other <;> simp [*]

/-- The task itself goes, its mutexes having been handed on. -/
theorem taskDelUnlink_inBalance (h : Core s) (notIdle : t ≠ idleTask) (live : (s.tasks t).Live)
    (bal : Balanced (s.live \ {t}) ∅ s) : InBalance (taskDelUnlink s t) := by
  have gone : ∀ s' : KState, ((s'.tasks t).taskState = .deleted) →
      (∀ u, u ≠ t → ((s'.tasks u).Live ↔ (s.tasks u).Live)) → s'.live = s.live \ {t} := by
    intro s' deleted same
    ext u
    show (s'.tasks u).Live ↔ (s.tasks u).Live ∧ u ≠ t
    rcases eq_or_ne u t with rfl | other
    · simp [Live, deleted]
    · simp [same u other, other]
  have notIn : t ∉ s.live \ {t} := fun inL => inL.2 rfl
  unfold InBalance
  rcases taskDelUnlink_cases h notIdle live with relisted | left
  · have balanced := relisted.balanced bal (fun inL => absurd inL notIn) (by decide)
    obtain ⟨-, k, rq, ticks, eq, state, -⟩ := relisted
    rw [eq] at balanced ⊢
    rwa [gone _ (by simpa using state) fun u other => by simp [other]]
  · rw [gone _ (left.taskState h) fun u other => left.live h other]
    exact left.balanced h bal subset_rfl bal.own.owner (fun inL => absurd inL notIn) (by decide)

/-- The deletion of a task that exists, or of a control block without mutexes. -/
theorem taskDel_inBalance (h : Core s) (bal : InBalance s) (notIdle : t ≠ idleTask)
    (list : (s.tasks t).Live ∨ (s.tasks t).mutexList = none) :
    InBalance (taskDelUnlink (taskMutexFree s t) t) ∧
      ((taskMutexFree s t).tasks t) = s.tasks t := by
  by_cases live : (s.tasks t).Live
  · have own := bal.own
    obtain ⟨l, holds⟩ := own.holds t live
    have waiters : ∀ a ∈ l, ∀ w ∈ (s.blk a).blkList, w ∈ s.live \ {t} := by
      intro a inList w waits
      refine ⟨h.live_of_blk ((h.blk.mem w a).mp waits), ?_⟩
      rintro rfl
      exact own.noSelf a w (holds.types a inList) waits ((holds.mem a).mp inList).2.1
    obtain ⟨after, others, sameLive⟩ := taskMutexFreeLoop_balanced h (bal.abandon holds)
      holds.chain holds.nodup holds.types waiters (own.enough holds)
    have same : (taskMutexFree s t).tasks t = s.tasks t := others t fun inL => inL.2 rfl
    refine ⟨taskDelUnlink_inBalance (taskMutexFree_kept h t).core notIdle (same ▸ live) ?_, same⟩
    rw [show (taskMutexFree s t).live = s.live from sameLive]
    exact after
  · have stays : taskMutexFree s t = s := by
      unfold taskMutexFree taskMutexFreeLoop
      rw [list.resolve_left live]
    rw [stays, taskDelUnlink_dead live]
    exact ⟨bal, rfl⟩

/-- The one call that the balance asks something of: a task that is deleted is not deleted again
while its record still has the list of mutexes it had. -/
def KCall.NoStaleDelete (s : KState) : KCall → Prop
  | taskDel task =>
    (s.tasks (task.getD s.active)).Live ∨ (s.tasks (task.getD s.active)).mutexList = none
  | _ => True

instance (s : KState) (c : KCall) : Decidable (c.NoStaleDelete s) := by
  rcases c <;> unfold KCall.NoStaleDelete <;> infer_instance

/-- The mutexes of a deleted task are handed on. -/
theorem krhinoTaskDel_inBalance (inv : KInv s) (bal : InBalance s) {task : Option TaskId}
    (fresh : (KCall.taskDel task).NoStaleDelete s) : InBalance (krhinoTaskDel s task).2 := by
  rcases krhinoTaskDel_does s task with ⟨-, same⟩ | ⟨may, outcome⟩
  · rw [same]
    exact bal
  obtain ⟨after, -⟩ := taskDel_inBalance inv.core bal (may.deletable inv.core).notIdle fresh
  rcases outcome with ⟨dead, eq⟩ | ⟨-, eq⟩
  · rw [eq, ← taskDelUnlink_dead dead]
    exact after
  · rw [eq]
    exact coreSched_inBalance after

theorem krhinoTaskDynDel_inBalance (inv : KInv s) (bal : InBalance s) (task : Option TaskId) :
    InBalance (krhinoTaskDynDel s task).2 := by
  rcases krhinoTaskDynDel_deletes s task with same | ⟨⟨may, alive⟩, eq⟩
  · rw [same]
    exact bal
  obtain ⟨kept, given⟩ := resGiven_kept inv.core
  rw [eq]
  refine coreSched_inBalance (taskDel_inBalance kept.core (given.inBalance bal)
    (may.deletable inv.core).notIdle ?_).1
  rw [given.live, given.mutexList]
  by_cases seed : (s.tasks (task.getD s.active)).taskState = .seed
  · exact .inr (bal.own.seed _ seed)
  · exact .inl ⟨seed, alive⟩

/-! ## The mutex calls -/

variable {owner : TaskId}

/-- A mutex without an owner ceases to exist. -/
theorem modBlk_none_balanced (bal : Balanced L ∅ s) (free : (s.mutexes m).mutexTask = none) :
    Balanced L ∅ (s.modBlk m fun b => { b with objType := .none }) := by
  have list a : ((s.modBlk m fun b => { b with objType := .none }).blk a).blkList =
      (s.blk a).blkList := by
    rcases eq_or_ne a m with rfl | other <;> simp [modBlk, *]
  refine bal.congr rfl rfl (fun u a => ?_) (fun u a _ => ⟨rfl, list a⟩) fun a mutex => ?_
  · unfold Owns
    rcases eq_or_ne a m with rfl | other
    · simp [modBlk, free]
    · simp [modBlk, other]
  · rcases eq_or_ne a m with rfl | other
    · simp [modBlk] at mutex
    · simp only [modBlk, update_of_ne other] at mutex ⊢
      exact ⟨bal.own.mutexAddr a mutex, bal.own.policy a mutex, fun w => bal.own.noSelf a w mutex⟩

/-- The owner loses the mutex and the priority it had from it. -/
theorem mutexOwnerRelease_balanced (h : Core s) (bal : Balanced L ∅ s)
    (type : (s.blk m).objType = .mutex) :
    Balanced L ∅ (mutexOwnerRelease (s.modBlk m fun b => { b with objType := .none }) m) := by
  unfold mutexOwnerRelease
  split
  · next owner held =>
    exact mutexRelease_balanced (h.modBlk_none m) bal
      ⟨type, held, notMem_empty m⟩ rfl rfl (.inl ⟨rfl, by simp⟩)
  · next free => exact modBlk_none_balanced bal free

theorem mutexOwnerRelease_live (h : Core s) (m : ObjId) :
    (mutexOwnerRelease s m).live = s.live := by
  unfold mutexOwnerRelease
  split
  · next owner held =>
    obtain ⟨-, moved⟩ := mutexRelease_core (some m) h
      fun same => h.idleOwns m (same ▸ held)
    exact ext fun u => moved.live u
  · rfl

/-- A deleted mutex keeps the balance. -/
theorem mutexDel_inBalance (inv : KInv s) (bal : InBalance s) (flag : AllocFlag) (m : ObjId) :
    InBalance (mutexDel flag s m).2 := by
  refine intrptNestedLevelChk_cases bal fun _ => ?_
  split
  · exact bal
  next type =>
  split
  · exact bal
  have unlisted := inv.core.modBlk_none m
  have released := mutexOwnerRelease_kept unlisted m
  obtain ⟨woke, -⟩ := blkListForEach_woke (W := []) (pendTaskEnd_wakes .del m) released.core
  refine coreSched_inBalance ((woke.quiet ?_).inBalance ?_)
  · rw [released.type]
    simp [modBlk]
  · unfold InBalance
    rw [mutexOwnerRelease_live unlisted]
    exact mutexOwnerRelease_balanced inv.core bal (not_ne_iff.mp type)

/-- The waits when `t` is about to wait for `owner`. -/
def WaitsNext (s : KState) (t owner : TaskId) (w u : TaskId) : Prop :=
  WaitsFor ∅ s w u ∨ w = t ∧ u = owner

/-- The caller of `krhino_mutex_lock` raises the owner to its own priority before it waits. -/
theorem lockRaise_settles (h : Core s) (bal : Balanced L ∅ s) (ownerIn : owner ∈ L)
    (notIdle : owner ≠ idleTask) (rdy : (s.tasks t).taskState = .rdy) (differ : t ≠ owner)
    (urgent : (s.tasks t).prio < (s.tasks owner).prio) :
    PrioOnly s (taskPriChange s owner (s.tasks t).prio).2 ∧
      Settled L (taskPriChange s owner (s.tasks t).prio).2.prios
        (taskPriChange s owner (s.tasks t).prio).2.bases (WaitsNext s t owner) := by
  have free := not_waitsFor (X := ∅) h (h.not_blk (t := t) (by simp [rdy]))
  have due := bal.prios owner ownerIn
  have unsettled : SettledBut L s.prios s.bases (WaitsNext s t owner) owner (s.tasks t).prio := by
    refine ⟨fun u inL other => ?_, .mk (urgent.le.trans due.le_base) (fun w waits => ?_)
      (.inr ⟨t, .inr ⟨rfl, rfl⟩, rfl⟩)⟩
    · exact (bal.prios u inL).congr rfl (fun w => or_iff_left fun new => other new.2)
        fun _ _ => rfl
    · rcases waits with before | ⟨rfl, -⟩
      · exact urgent.le.trans (due.le_waiter before)
      · exact le_rfl
  have unique : ∀ u o o', WaitsNext s t owner u o → WaitsNext s t owner u o' → o' = o := by
    rintro u o o' (one | ⟨rfl, rfl⟩) (two | ⟨same, rfl⟩)
    · exact one.unique h two
    · exact absurd one (same ▸ free o)
    · exact absurd two (free o')
    · rfl
  have irrefl : ∀ u, ¬ WaitsNext s t owner u u := by
    rintro u (waits | ⟨rfl, same⟩)
    · exact bal.own.irrefl u waits
    · exact differ same
  have owners : ∀ u o, WaitsNext s t owner u o → o ∈ L ∧ o ≠ idleTask := by
    rintro u o (waits | ⟨-, rfl⟩)
    · refine ⟨?_, waits.ne_idle h⟩
      obtain ⟨a, owns, -⟩ := waits
      exact bal.own.owner o a owns
    · exact ⟨ownerIn, notIdle⟩
  have agree : ∀ u o, (s.tasks u).prio ≠ (s.tasks t).prio →
      (WaitsNext s t owner u o ↔ WaitsFor ∅ s u o) := by
    intro u o notP
    refine or_iff_left ?_
    rintro ⟨rfl, -⟩
    exact notP rfl
  exact (taskPriChangeLoop_raise h bal.own.toOwners ownerIn unique irrefl owners notIdle agree
    urgent unsettled (card_tasks_le _)).2

theorem pendToBlkObj_live (timeout : Nat) (h : Core s) (notIdle : t ≠ idleTask)
    (rdy : (s.tasks t).taskState = .rdy)
    (owned : (s.blk m).objType = .mutex → (s.mutexes m).mutexTask ≠ none) :
    (pendToBlkObj s m t timeout).live = s.live := by
  obtain ⟨rq, ticks, tm, tr, th, eq, -⟩ := pendToBlkObj_eq h timeout notIdle rdy owned
  rw [eq]
  ext u
  show Live _ ↔ Live _
  rcases eq_or_ne u t with rfl | other
  · simp [Live, Ktask.pended, rdy]
  · simp [other]

/-- The running task enters the list of a mutex whose owner has been raised. -/
theorem pendOnMutex_balanced (timeout : Nat) (h : Core s) (own : Ownership L ∅ s)
    (notIdle : t ≠ idleTask) (rdy : (s.tasks t).taskState = .rdy)
    (type : (s.blk m).objType = .mutex) (held : (s.mutexes m).mutexTask = some owner)
    (differ : t ≠ owner)
    (settled : Settled L s.prios s.bases (WaitsNext s t owner)) :
    Balanced L ∅ (pendToBlkObj s m t timeout) := by
  obtain ⟨rq, ticks, tm, tr, th, eq, -⟩ := pendToBlkObj_eq (o := m) h timeout notIdle rdy
    fun _ => by simp [held]
  have placed := fun u => ((s.blk m).placed_perm s.prios t).mem_iff (a := u)
  have waitsNext : ∀ w u, WaitsFor ∅ (pendToBlkObj s m t timeout) w u ↔
      WaitsNext s t owner w u := by
    intro w u
    rw [eq]
    unfold WaitsNext WaitsFor
    simp only [put_owns (blkWith_type _ _ _), put_blk, blkWith_blkList]
    constructor
    · rintro ⟨a, owns, there⟩
      split at there
      · next same =>
        subst same
        rcases mem_cons.mp ((placed w).mp there) with rfl | before
        · exact .inr ⟨rfl, some.inj (owns.2.1.symm.trans held)⟩
        · exact .inl ⟨a, owns, before⟩
      · exact .inl ⟨a, owns, there⟩
    · rintro (⟨a, owns, there⟩ | ⟨rfl, rfl⟩)
      · refine ⟨a, owns, ?_⟩
        split
        · next same => exact (placed w).mpr (mem_cons_of_mem t (same ▸ there))
        · exact there
      · refine ⟨m, ⟨type, held, notMem_empty m⟩, ?_⟩
        rw [if_pos rfl]
        exact (placed w).mpr mem_cons_self
  refine ⟨?_, ?_⟩
  · rw [eq]
    refine own.put (blkWith_type _ _ _) (blkWith_policy _ _ _) (fun a w waits mutex => ?_)
      subset_rfl own.owner (fun _ => by simp [Live, Ktask.pended])
      (by simp [Ktask.pended]) rfl
    rw [blkWith_blkList] at waits
    split at waits
    · next same =>
      subst same
      rcases mem_cons.mp ((placed w).mp waits) with rfl | before
      · rw [held]
        exact fun same => differ (some.inj same).symm
      · exact own.noSelf a w mutex before
    · exact own.noSelf a w mutex waits
  · have prios u : ((pendToBlkObj s m t timeout).tasks u).prio = (s.tasks u).prio ∧
        ((pendToBlkObj s m t timeout).tasks u).bPrio = (s.tasks u).bPrio := by
      rcases eq_or_ne u t with rfl | other <;> simp [Ktask.pended, timed, *]
    intro u inL
    have due := settled u inL
    simp only at due ⊢
    rw [(prios u).1]
    exact due.congr (prios u).2 (fun w => waitsNext w u) fun w _ => (prios w).1

/-- A lock raises the owner before its caller waits. -/
theorem krhinoMutexLock_inBalance (inv : KInv s) (bal : InBalance s) (m : ObjId) (ticks : Nat)
    (notIdle : s.intrptNested = 0 → s.active ≠ idleTask) :
    InBalance (krhinoMutexLock s m ticks).2 := by
  have h := inv.core
  have does := krhinoMutexLock_does h m ticks
  generalize krhinoMutexLock s m ticks = r at does ⊢
  cases does with
  | refuses => exact bal
  | relocks => exact ownerNested_balanced bal ((s.mutexes m).ownerNested + 1)
  | takes nested type free =>
    have live : s.active ∈ s.live := by
      show Live _
      simp [Live, inv.running (.inl nested)]
    have empty : (s.blk m).blkList = [] := by
      by_contra waits
      exact h.owner m type waits free
    have owned := mutexSetOwner_balanced bal type
      (fun u owns => by simp [owns.2.1] at free) live (by simp [empty])
    have sameLive : (mutexSetOwner s m s.active).live = s.live :=
      ext fun u => mutexSetOwner_live u
    rw [empty_sdiff, ← sameLive] at owned
    exact ownerNested_balanced owned 1
  | waits owner nested type held differ =>
    have rdy := inv.running (.inl nested)
    have ownerIn : owner ∈ s.live := bal.own.owner owner m ⟨type, held, notMem_empty m⟩
    have ownerNotIdle : owner ≠ idleTask := fun same => h.idleOwns m (same ▸ held)
    have core := (raisedFor_core h held).1
    obtain ⟨moved, settled⟩ : PrioOnly s (s.raisedFor owner) ∧ Settled s.live
        (s.raisedFor owner).prios (s.raisedFor owner).bases (WaitsNext s s.active owner) := by
      unfold raisedFor
      split
      · next urgent => exact lockRaise_settles h bal ownerIn ownerNotIdle rdy differ urgent
      · next notUrgent =>
        refine ⟨.refl s, fun u inL => ?_⟩
        have due := bal.prios u inL
        refine .mk due.le_base ?_ (due.attained.imp_right (.imp fun w => .imp_left .inl))
        rintro w (waits | ⟨rfl, rfl⟩)
        · exact due.le_waiter waits
        · exact not_lt.mp notUrgent
    have waits : WaitsNext (s.raisedFor owner) s.active owner = WaitsNext s s.active owner := by
      unfold WaitsNext
      rw [moved.waitsFor_eq]
    refine coreSched_inBalance ?_
    have rdy' := (moved.taskState s.active).trans rdy
    have pended := pendOnMutex_balanced ticks core (moved.ownership bal.own)
      (notIdle nested) rdy' (by rw [moved.waiters.type, type]) (by rw [moved.mutexes, held]) differ
      (waits ▸ settled)
    have sameLive := pendToBlkObj_live (m := m) ticks core (notIdle nested) rdy'
      fun _ => by simp [moved.mutexes, held]
    rw [moved.live_eq] at sameLive
    unfold InBalance
    rwa [sameLive]

/-- What `krhino_mutex_unlock` does when the last lock is undone. -/
theorem mutexUnlock_balanced (h : Core s) (bal : InBalance s) (type : (s.blk m).objType = .mutex)
    (held : (s.mutexes m).mutexTask = some t) (rdy : (s.tasks t).taskState = .rdy) :
    Balanced s.live {m} (mutexRelease s t (some m)) := by
  have same : s.modBlk m id = s := by simp [modBlk]
  have released := mutexRelease_balanced (same.symm ▸ h) bal
    ⟨type, held, notMem_empty m⟩ rfl rfl (.inr ⟨rfl, type, rdy⟩)
  rwa [same] at released

/-- An unlock passes the mutex on. -/
theorem krhinoMutexUnlock_inBalance (inv : KInv s) (bal : InBalance s) (m : ObjId) :
    InBalance (krhinoMutexUnlock s m).2 := by
  have h := inv.core
  have counted := fun count => ownerNested_balanced (m := m) bal count
  have loosed : ({m} : Set ObjId) \ {m} = ∅ := by simp
  -- the last lock is undone, and the mutex is nobody's yet
  have loose (nested : s.intrptNested = 0) (type : (s.blk m).objType = .mutex)
      (held : (s.mutexes m).mutexTask = some s.active) : Balanced s.live {m} (s.unlocked m) :=
    mutexUnlock_balanced (h.modMutex m rfl) (counted 0) type
      (by simpa [modMutex] using held) (inv.running (.inl nested))
  have does := krhinoMutexUnlock_does s m
  generalize krhinoMutexUnlock s m = r at does ⊢
  cases does with
  | refuses => exact bal
  | counts left => exact counted left
  | frees nested type held =>
    have freed := freeMutex_balanced (loose nested type held) fun u owns => owns.2.2 rfl
    have sameLive : (s.unlocked m).live = s.live := ext fun u => (unlocked_core h held).2.live u
    rw [loosed] at freed
    unfold InBalance
    exact sameLive.symm ▸ freed
  | passes w _ nested type held _ list =>
    obtain ⟨core, moved⟩ := unlocked_core h held
    have linked := core.linked_head list
    have wIn : w ∈ s.live := (moved.live w).mp (core.live_of_blk linked)
    have handed := handOver_balanced core (loose nested type held)
      ((moved.waiters.type m).trans type) rfl list wIn
    rw [loosed] at handed
    refine coreSched_inBalance ?_
    have live : (mutexSetOwner (pendTaskWakeup (s.unlocked m) w) m w).live = s.live :=
      ext fun u => ((mutexSetOwner_live u).trans (pendTaskEnd_live .finish core linked u)).trans
        (moved.live u)
    exact ownerNested_balanced (live.symm ▸ handed) 1

end AliosThings.Rhino
