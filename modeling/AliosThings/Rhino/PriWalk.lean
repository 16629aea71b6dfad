import AliosThings.Rhino.Ownership

/-!
# Walks along the owners settle the priorities

`task_pri_change` is the walk of the library on inherited priorities: it gives one task the
priority due to it and goes on to the owner of the mutex that task waits for. Going up, every task
it visits gets the one new priority; going down, every task it visits had the one old priority.
So the loop ends within as many turns as there are tasks, also when owners wait in a cycle.
-/

namespace AliosThings.Rhino

open Lib Function Finset

/-- Only priorities, and the order of lists with them, differ. -/
structure PrioOnly (s s' : KState) : Prop extends Reprioritised s s' where
  mutexes : s'.mutexes = s.mutexes
  mutexList : ∀ t, (s'.tasks t).mutexList = (s.tasks t).mutexList
  sameHung : s'.hung = s.hung

variable {L : Set TaskId} {X : Set ObjId} {s s' s'' : KState} {t w : TaskId} {p fuel old : Nat}

theorem PrioOnly.refl (s : KState) : PrioOnly s s := ⟨.refl s, rfl, fun _ => rfl, rfl⟩

theorem PrioOnly.trans (h : PrioOnly s s') (h' : PrioOnly s' s'') : PrioOnly s s'' :=
  ⟨h.toReprioritised.trans h'.toReprioritised, h'.mutexes.trans h.mutexes,
    fun t => (h'.mutexList t).trans (h.mutexList t), h'.sameHung.trans h.sameHung⟩

/-- Priorities do not matter for who owns what. -/
theorem PrioOnly.ownership (moved : PrioOnly s s') (h : Ownership L X s) : Ownership L X s' where
  toOwners := moved.owners moved.sameHung h.toOwners
  seed t state := by
    rw [moved.mutexList]
    exact h.seed t (moved.taskState t ▸ state)
  holds t inL := by
    obtain ⟨l, holds⟩ := h.holds t inL
    refine ⟨l, ?_, holds.nodup, fun m => (holds.mem m).trans (moved.owns t m).symm⟩
    rw [moved.mutexList]
    exact holds.chain.congr fun a _ => by rw [KState.nextMutex, moved.mutexes]; rfl

/-- `taskPriSet` changes one priority. -/
theorem taskPriSet_prioOnly (h : Core s) (notIdle : t ≠ idleTask) (live : (s.tasks t).Live)
    (low : p < priMax) :
    Core (taskPriSet s t p) ∧ PrioOnly s (taskPriSet s t p) ∧
      (taskPriSet s t p).prios = update s.prios t p ∧
      (taskPriSet s t p).bases = s.bases := by
  obtain ⟨rq, blk, eq, same, core⟩ := taskPriSet_eq h notIdle live low
  have moved : PrioOnly s (taskPriSet s t p) := by
    rw [eq]
    refine ⟨.put same, rfl, fun u => ?_, rfl⟩
    rcases eq_or_ne u t with rfl | other <;> simp [Ktask.withPrio, *]
  refine ⟨core, moved, ?_, funext moved.bPrio⟩
  funext u
  rcases eq_or_ne u t with rfl | other <;> simp [KState.prios, Ktask.withPrio, *]

/-- A task waits for the owner of its mutex. -/
theorem waitsFor_iff (h : Core s) {o : ObjId} (linked : (s.tasks t).taskList = .blk o)
    (w : TaskId) :
    WaitsFor ∅ s t w ↔ (s.blk o).objType = .mutex ∧ (s.mutexes o).mutexTask = some w := by
  constructor
  · rintro ⟨m, ⟨type, owner, -⟩, inList⟩
    obtain rfl := Link.blk.inj (((h.blk.mem t m).mp inList).symm.trans linked)
    exact ⟨type, owner⟩
  · rintro ⟨type, owner⟩
    exact ⟨o, ⟨type, owner, Set.notMem_empty _⟩, (h.blk.mem t o).mpr linked⟩

theorem not_waitsFor (h : Core s) (free : ∀ o, (s.tasks t).taskList ≠ .blk o) (w : TaskId) :
    ¬ WaitsFor X s t w := by
  rintro ⟨m, -, inList⟩
  exact free m ((h.blk.mem t m).mp inList)

/-- A task in none of the waiting states is in no blocked list. -/
theorem Core.not_blk (h : Core s) (notWaiting : (s.tasks t).taskState ≠ .pend ∧
    (s.tasks t).taskState ≠ .pendSuspended) (o : ObjId) : (s.tasks t).taskList ≠ .blk o :=
  fun linked => ((h.task t).of_blk linked).1.elim notWaiting.1 notWaiting.2

/-- The tasks that can be visited, and their bound on the turns. -/
theorem card_tasks_le (C : TaskId → Prop) [DecidablePred C] :
    ((range addrRange).filter C).card ≤ priChangeTurns + 1 := by
  refine (card_filter_le _ _).trans ?_
  rw [card_range]
  exact (Nat.le_mul_of_pos_right _ (by decide)).trans (Nat.le_succ _)

/-! ## One turn -/

/-- One turn of the loop of `task_pri_change`: the task takes its priority, and the owner of the
mutex it waits for is looked at. -/
theorem taskPriChangeLoop_turn (fuel : Nat) (h : Core s) (own : Owners L ∅ s) (inL : t ∈ L)
    (notIdle : t ≠ idleTask) (low : p < priMax) (differ : (s.tasks t).prio ≠ p) :
    (∀ w, ¬ WaitsFor ∅ s t w) ∧ taskPriChangeLoop (fuel + 1) s t p = (.success, taskPriSet s t p) ∨
      ∃ w, WaitsFor ∅ s t w ∧ w ≠ t ∧ ((taskPriSet s t p).tasks w).prio = (s.tasks w).prio ∧
        taskPriChangeLoop (fuel + 1) s t p =
          if (s.tasks w).prio > p then taskPriChangeLoop fuel (taskPriSet s t p) w p
          else if (s.tasks w).prio = (s.tasks t).prio then
            if (mutexPriLook (taskPriSet s t p) w none).1 ≠
                ((mutexPriLook (taskPriSet s t p) w none).2.tasks w).prio then
              taskPriChangeLoop fuel (mutexPriLook (taskPriSet s t p) w none).2 w
                (mutexPriLook (taskPriSet s t p) w none).1
            else (.success, (mutexPriLook (taskPriSet s t p) w none).2)
          else (.success, taskPriSet s t p) := by
  have live := own.live t inL
  obtain ⟨-, moved, prios, -⟩ := taskPriSet_prioOnly h notIdle live low
  have free := fun state => not_waitsFor (X := ∅) h (h.not_blk (t := t) state)
  obtain ⟨r, turn⟩ : ∃ r, taskPriChangeLoop (fuel + 1) s t p = r := ⟨_, rfl⟩
  rw [turn]
  unfold taskPriChangeLoop at turn
  rw [if_neg differ] at turn
  split at turn
  · next state => exact absurd state live.1
  · next state => exact absurd state live.2
  case h_3 state | h_4 state | h_5 state | h_6 state =>
    exact .inl ⟨free (by simp [state]), turn.symm⟩
  all_goals
    next state =>
    obtain ⟨o, linked, obj⟩ := (h.task t).of_waiting (by simp [state])
    have waits := waitsFor_iff h linked
    simp only [moved.blkObj, obj] at turn
    rw [moved.waiters.type, moved.mutexTask] at turn
    split at turn
    · next type =>
      cases owner : (s.mutexes o).mutexTask
      case none =>
        exact absurd owner (h.owner o type (List.ne_nil_of_mem ((h.blk.mem t o).mpr linked)))
      case some w =>
      have waiter := (waits w).mpr ⟨type, owner⟩
      have other : w ≠ t := fun same => own.irrefl t (by rwa [same] at waiter)
      have ownerPrio : ((taskPriSet s t p).tasks w).prio = (s.tasks w).prio := by
        have at_w := congrFun prios w
        rwa [update_of_ne other] at at_w
      simp only [owner, ownerPrio] at turn
      exact .inr ⟨w, waiter, other, ownerPrio, turn.symm⟩
    · next type => exact .inl ⟨fun w waiter => type ((waits w).mp waiter).1, turn.symm⟩

/-! ## Upwards -/

variable {W waits : TaskId → TaskId → Prop}

/-- Upwards the walk can follow waits of which one is still to be entered: the task that is about
to wait has the new priority already, and the walk stops there. -/
theorem taskPriChangeLoop_raise (h : Core s) (own : Owners L ∅ s) (inL : t ∈ L)
    (unique : ∀ u o o', W u o → W u o' → o' = o) (irrefl : ∀ u, ¬ W u u)
    (ownerIn : ∀ u o, W u o → o ∈ L ∧ o ≠ idleTask) (notIdle : t ≠ idleTask)
    (agree : ∀ u o, (s.tasks u).prio ≠ p → (W u o ↔ WaitsFor ∅ s u o))
    (urgent : p < (s.tasks t).prio)
    (unsettled : SettledBut L s.prios s.bases W t p)
    (enough : ((range addrRange).filter fun u => p < (s.tasks u).prio).card ≤ fuel) :
    (taskPriChangeLoop fuel s t p).1 = .success ∧ PrioOnly s (taskPriChangeLoop fuel s t p).2 ∧
      Settled L (taskPriChangeLoop fuel s t p).2.prios
        (taskPriChangeLoop fuel s t p).2.bases W := by
  have inRange := mem_range.mpr (own.taskAddr t inL)
  induction fuel generalizing s t with
  | zero =>
    have some : 0 < ((range addrRange).filter fun u => p < (s.tasks u).prio).card :=
      card_pos.mpr ⟨t, mem_filter.mpr ⟨inRange, urgent⟩⟩
    omega
  | succ fuel ih =>
    have low : p < priMax := urgent.trans (h.prio t)
    obtain ⟨core, moved, prios, bases⟩ := taskPriSet_prioOnly h notIdle (own.live t inL) low
    rcases taskPriChangeLoop_turn fuel h own inL notIdle low urgent.ne' with
      ⟨free, eq⟩ | ⟨w, waits, other, ownerPrio, eq⟩
    · rw [eq]
      refine ⟨rfl, moved, ?_⟩
      rw [prios, bases]
      exact unsettled.settled_of_free fun u waiter => free u ((agree t u urgent.ne').mp waiter)
    have waiter := (agree t w urgent.ne').mpr waits
    obtain ⟨wIn, wNotIdle⟩ := ownerIn t w waiter
    have only u : W t u → u = w := unique t w u waiter
    rw [eq]
    split
    · next more =>
      have next := unsettled.raise (irrefl t) waiter only wIn more
      rw [← prios, ← bases] at next
      have fewer : ((range addrRange).filter fun u => p < update s.prios t p u).card <
          ((range addrRange).filter fun u => p < s.prios u).card :=
        card_filter_update_lt inRange urgent (lt_irrefl p)
      rw [← prios] at fewer
      obtain ⟨success, moved', settled⟩ := ih core (moved.owners moved.sameHung own) wIn wNotIdle
        (fun u o notP => by
          rw [moved.waitsFor]
          refine agree u o fun same => notP ?_
          have at_u := congrFun prios u
          rcases eq_or_ne u t with rfl | differ
          · exact absurd same urgent.ne'
          · rw [update_of_ne differ] at at_u
            exact at_u.trans same)
        (ownerPrio.symm ▸ more) next (Nat.le_of_lt_succ (fewer.trans_le enough))
        (mem_range.mpr (own.taskAddr w wIn))
      exact ⟨success, moved.trans moved', settled⟩
    · next notMore =>
      rw [if_neg (by omega)]
      refine ⟨rfl, moved, ?_⟩
      rw [prios, bases]
      have le := not_lt.mp notMore
      exact unsettled.settled_of_ne (irrefl t) waiter only wIn le (le.trans_lt urgent).ne

/-! ## Downwards -/

theorem WaitsFor.ne_idle (h : Core s) (waits : WaitsFor X s w t) : t ≠ idleTask := by
  obtain ⟨m, owns, -⟩ := waits
  exact fun same => h.idleOwns m (same ▸ owns.2.1)

theorem PrioOnly.waitsFor_eq (moved : PrioOnly s s') : WaitsFor X s' = WaitsFor X s :=
  funext fun w => funext fun t => propext (moved.waitsFor w t)

/-- The walk lowers each owner that need not be higher. -/
theorem taskPriChangeLoop_lower (h : Core s) (own : Ownership L ∅ s) (inL : t ∈ L)
    (notIdle : t ≠ idleTask) (before : (s.tasks t).prio = old) (less : old < p) (low : p < priMax)
    (unsettled : SettledBut L s.prios s.bases (WaitsFor ∅ s) t p)
    (enough : ((range addrRange).filter fun u => (s.tasks u).prio = old).card ≤ fuel) :
    (taskPriChangeLoop fuel s t p).1 = .success ∧ PrioOnly s (taskPriChangeLoop fuel s t p).2 ∧
      Inherited L ∅ (taskPriChangeLoop fuel s t p).2 := by
  have inRange := mem_range.mpr (own.taskAddr t inL)
  induction fuel generalizing s t p with
  | zero =>
    have some : 0 < ((range addrRange).filter fun u => (s.tasks u).prio = old).card :=
      card_pos.mpr ⟨t, mem_filter.mpr ⟨inRange, before⟩⟩
    omega
  | succ fuel ih =>
    have irrefl := own.irrefl t
    obtain ⟨core, moved, prios, bases⟩ := taskPriSet_prioOnly h notIdle (own.live t inL) low
    have waitsEq : WaitsFor ∅ (taskPriSet s t p) = WaitsFor ∅ s := moved.waitsFor_eq
    have own' := moved.ownership own
    rcases taskPriChangeLoop_turn fuel h own.toOwners inL notIdle low (before ▸ less.ne) with
      ⟨free, eq⟩ | ⟨w, waiter, other, ownerPrio, eq⟩
    · rw [eq]
      have settled := unsettled.settled_of_free free
      rw [← prios, ← bases, ← waitsEq] at settled
      exact ⟨rfl, moved, settled⟩
    have wIn : w ∈ L := by
      obtain ⟨m, owns, -⟩ := waiter
      exact own.owner w m owns
    have only u : WaitsFor ∅ s t u → u = w := waiter.unique h
    have ownerLe : (s.tasks w).prio ≤ old := before ▸ (unsettled.others w wIn other).le_waiter
      waiter
    rw [eq, if_neg (by omega)]
    split
    · next fromT =>
      obtain ⟨q, look, due⟩ := mutexPriLook_due core own' wIn
      rw [prios, bases, waitsEq] at due
      rw [look]
      simp only [ownerPrio]
      split
      · next differ =>
        -- the owner had its priority from this task, and falls in its turn
        have notHigher := unsettled.lower irrefl waiter only wIn (before.trans_le less.le) due
        have falls : (s.tasks w).prio < q := lt_of_le_of_ne notHigher (differ.symm)
        have next := unsettled.next irrefl only due
        have fewer : ((range addrRange).filter fun u => update s.prios t p u = old).card <
            ((range addrRange).filter fun u => s.prios u = old).card :=
          card_filter_update_lt (C := fun q => q = old) inRange before less.ne'
        have qLow : q < priMax := (due.le_base).trans_lt (h.bPrio w)
        rw [← prios] at fewer
        rw [← prios, ← bases, ← waitsEq] at next
        obtain ⟨success, moved', settled⟩ := ih core own' wIn (waiter.ne_idle h)
          (ownerPrio.trans (fromT.trans before)) (by omega) qLow next
          (Nat.le_of_lt_succ (fewer.trans_le enough))
          (mem_range.mpr (own.taskAddr w wIn))
        exact ⟨success, moved.trans moved', settled⟩
      · next same =>
        obtain rfl := not_ne_iff.mp same
        have settled := unsettled.settled_of_next irrefl waiter only due
        rw [← prios, ← bases, ← waitsEq] at settled
        exact ⟨rfl, moved, settled⟩
    · next notFrom =>
      have settled := unsettled.settled_of_ne irrefl waiter only wIn (ownerLe.trans less.le) notFrom
      rw [← prios, ← bases, ← waitsEq] at settled
      exact ⟨rfl, moved, settled⟩

/-! ## The functions that start a walk -/

theorem SettledBut.settled_self {prio base : TaskId → Nat}
    (unsettled : SettledBut L prio base waits t (prio t)) : Settled L prio base waits := by
  intro u inL
  rcases eq_or_ne u t with rfl | other
  · exact unsettled.due
  · exact unsettled.others u inL other

/-- After the walk all priorities are inherited. -/
theorem taskPriChange_settles (h : Core s) (own : Ownership L ∅ s) (inL : t ∈ L)
    (notIdle : t ≠ idleTask) (low : p < priMax)
    (unsettled : SettledBut L s.prios s.bases (WaitsFor ∅ s) t p) :
    (taskPriChange s t p).1 = .success ∧ PrioOnly s (taskPriChange s t p).2 ∧
      Inherited L ∅ (taskPriChange s t p).2 := by
  rcases lt_trichotomy (s.tasks t).prio p with less | same | urgent
  · exact taskPriChangeLoop_lower h own inL notIdle rfl less low unsettled (card_tasks_le _)
  · have stays : taskPriChange s t p = (.success, s) := by
      unfold taskPriChange taskPriChangeLoop
      rw [if_pos same]
    rw [stays]
    exact ⟨rfl, .refl s, SettledBut.settled_self (same ▸ unsettled)⟩
  · obtain ⟨success, moved, settled⟩ := taskPriChangeLoop_raise h own.toOwners inL
      (fun _ _ _ one two => one.unique h two) own.irrefl
      (fun u o waits => ⟨by obtain ⟨m, owns, -⟩ := waits; exact own.owner o m owns,
        waits.ne_idle h⟩) notIdle (fun _ _ _ => Iff.rfl) urgent unsettled (card_tasks_le _)
    refine ⟨success, moved, ?_⟩
    rw [← moved.waitsFor_eq] at settled
    exact settled

/-- A ready task is the end of its own walk. -/
theorem taskPriChange_ready (h : Core s) (own : Ownership L X s) (inL : t ∈ L)
    (notIdle : t ≠ idleTask) (rdy : (s.tasks t).taskState = .rdy) (low : p < priMax)
    (unsettled : SettledBut L s.prios s.bases (WaitsFor X s) t p) :
    PrioOnly s (taskPriChange s t p).2 ∧ Inherited L X (taskPriChange s t p).2 := by
  obtain ⟨-, moved, prios, bases⟩ := taskPriSet_prioOnly h notIdle (own.live t inL) low
  unfold taskPriChange taskPriChangeLoop
  split
  · next same =>
    exact ⟨.refl s, SettledBut.settled_self (same ▸ unsettled)⟩
  simp only [rdy]
  have settled := unsettled.settled_of_free fun u => not_waitsFor h (h.not_blk (by simp [rdy])) u
  rw [← prios, ← bases, ← moved.waitsFor_eq] at settled
  exact ⟨moved, settled⟩

end AliosThings.Rhino
