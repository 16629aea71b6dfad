import AliosThings.Rhino.Ticks

/-!
# Ticks that are announced at once

After a sleep of the processor `tick_list_update` is called once with all the ticks that have
passed. What it does with a task whose time has come does not look at the tick counter, and the
tasks due after `a + b` ticks are those due after `a` ticks followed by those due after `b` more; so
it does the same in one call as in several.
-/

namespace AliosThings.Rhino

open Lib List KState

/-- The state at another tick count. -/
def KState.withCount (s : KState) (n : Nat) : KState := { s with tickCount := n }

@[simp] theorem KState.withCount_tasks (s : KState) (n : Nat) :
    (s.withCount n).tasks = s.tasks := rfl

@[simp] theorem KState.withCount_blk (s : KState) (n : Nat) : (s.withCount n).blk = s.blk := rfl

@[simp] theorem KState.withCount_mutexes (s : KState) (n : Nat) :
    (s.withCount n).mutexes = s.mutexes := rfl

/-! ## What does not look at the tick counter -/

section Timeless

variable (s : KState) (n : Nat)

variable (t : TaskId)

/-- Removal from the tick list does not read the count. -/
theorem tickListRm_withCount : tickListRm (s.withCount n) t = (tickListRm s t).withCount n := by
  unfold tickListRm
  rw [apply_ite (withCount · n), apply_ite (withCount · n)]
  rfl

/-- Nor does the ready queue. -/
theorem readyListLink_withCount (rq : Runqueue) :
    readyListLink (s.withCount n) t rq = (readyListLink s t rq).withCount n := by
  unfold readyListLink
  rw [apply_ite (withCount · n)]
  rfl

theorem readyListAdd_withCount :
    readyListAdd (s.withCount n) t = (readyListAdd s t).withCount n := by
  unfold readyListAdd
  rw [apply_ite (withCount · n)]
  unfold readyListAddTail readyListAddHead
  rw [← readyListLink_withCount, ← readyListLink_withCount]
  rfl

theorem readyListRm_withCount : readyListRm (s.withCount n) t = (readyListRm s t).withCount n := by
  unfold readyListRm
  rw [apply_ite (withCount · n), show (s.withCount n).readyQueue = s.readyQueue from rfl]
  dsimp only [withCount_tasks]
  cases s.readyQueue.remove t (s.tasks t).prio with
  | some | none => rfl

/-- Nor do the lists of waiters. -/
theorem blkListLink_withCount (o : ObjId) (t : TaskId) (l : List TaskId) :
    blkListLink (s.withCount n) o t l = (blkListLink s o t l).withCount n := by
  unfold blkListLink
  rw [apply_ite (withCount · n)]
  rfl

theorem blkListRm_withCount : blkListRm (s.withCount n) t = (blkListRm s t).withCount n := by
  unfold blkListRm
  rw [withCount_tasks]
  cases (s.tasks t).taskList with
  | blk => rfl
  | _ => rfl

theorem pendListReorder_withCount :
    pendListReorder (s.withCount n) t = (pendListReorder s t).withCount n := by
  unfold pendListReorder
  rw [withCount_tasks, withCount_blk]
  cases (s.tasks t).blkObj
  case none => rfl
  case some o =>
  simp only
  cases (s.blk o).blkPolicy with
  | fifo => rfl
  | pri =>
    rw [blkListRm_withCount]
    exact blkListLink_withCount ..

theorem readyPriChange_withCount (newPri : Nat) :
    readyPriChange (s.withCount n) t newPri = (readyPriChange s t newPri).withCount n := by
  unfold readyPriChange
  rw [apply_ite (withCount · n), readyListRm_withCount]
  unfold readyListAddTail readyListAddHead
  rw [← readyListLink_withCount, ← readyListLink_withCount]
  rfl

/-- Nor does a change of priority. -/
theorem taskPriSet_withCount (newPri : Nat) :
    taskPriSet (s.withCount n) t newPri = (taskPriSet s t newPri).withCount n := by
  have reorder := pendListReorder_withCount (s.modTask t fun k => { k with prio := newPri }) n t
  unfold taskPriSet
  rw [withCount_tasks]
  cases (s.tasks t).taskState with
  | rdy => exact readyPriChange_withCount s n t newPri
  | pend | pendSuspended => exact reorder
  | _ => rfl

theorem MutexRef.load_withCount (prev : MutexRef) : prev.load (s.withCount n) = prev.load s := by
  cases prev with
  | task | mutex => rfl

/-- Nor do the lists of owned mutexes. -/
theorem MutexRef.store_withCount (v : Option ObjId) (prev : MutexRef) :
    prev.store (s.withCount n) v = (prev.store s v).withCount n := by
  cases prev with
  | task | mutex => rfl

/-- Nor does the search for the priority of an owner. -/
theorem mutexPriLookLoop_withCount (rel : Option ObjId) (fuel : Nat) (prev : MutexRef)
    (pri newPri : Nat) :
    mutexPriLookLoop rel fuel prev pri newPri (s.withCount n) =
      ((mutexPriLookLoop rel fuel prev pri newPri s).1,
        (mutexPriLookLoop rel fuel prev pri newPri s).2.withCount n) := by
  induction fuel generalizing prev pri newPri s with
  | zero =>
    unfold mutexPriLookLoop
    rw [MutexRef.load_withCount]
    cases prev.load s with
    | none | some => rfl
  | succ _ ih =>
    unfold mutexPriLookLoop
    rw [MutexRef.load_withCount]
    cases prev.load s with
    | none => rfl
    | some =>
      simp only
      split
      · rw [MutexRef.store_withCount]
        exact ih ..
      · exact ih ..

theorem mutexPriLook_withCount (rel : Option ObjId) :
    mutexPriLook (s.withCount n) t rel =
      ((mutexPriLook s t rel).1, (mutexPriLook s t rel).2.withCount n) :=
  mutexPriLookLoop_withCount ..

/-- Nor does the walk along the owners. -/
theorem taskPriChangeLoop_withCount (fuel : Nat) (t : TaskId) (newPri : Nat) :
    taskPriChangeLoop fuel (s.withCount n) t newPri = ((taskPriChangeLoop fuel s t newPri).1,
        (taskPriChangeLoop fuel s t newPri).2.withCount n) := by
  induction fuel generalizing s t newPri with
  | zero => rfl
  | succ _ ih =>
    unfold taskPriChangeLoop
    simp only [withCount_tasks, taskPriSet_withCount]
    by_cases same : (s.tasks t).prio = newPri
    · simp only [if_pos same]
    simp only [if_neg same]
    generalize (s.tasks t).prio = oldPri
    generalize taskPriSet s t newPri = s₁
    cases (s.tasks t).taskState
    case pend | pendSuspended =>
      simp only [withCount_tasks, withCount_blk, withCount_mutexes, mutexPriLook_withCount, ih]
      cases (s₁.tasks t).blkObj
      case none => rfl
      case some o =>
      by_cases type : (s₁.blk o).objType = .mutex
      · simp only [if_pos type]
        cases (s₁.mutexes o).mutexTask
        case none => rfl
        case some owner =>
        by_cases higher : (s₁.tasks owner).prio > newPri
        · simp only [if_pos higher]
        simp only [if_neg higher]
        by_cases lent : (s₁.tasks owner).prio = oldPri
        · simp only [if_pos lent]
          split
          · rfl
          · rfl
        · simp only [if_neg lent]
      · simp only [if_neg type]
    all_goals rfl

theorem mutexRelease_withCount (rel : Option ObjId) :
    mutexRelease (s.withCount n) t rel = (mutexRelease s t rel).withCount n := by
  unfold mutexRelease taskPriChange
  simp only [mutexPriLook_withCount, withCount_tasks, taskPriChangeLoop_withCount]
  exact (apply_ite (withCount · n) ..).symm

/-- Nor does the end of a wait for a mutex. -/
theorem mutexTaskPriReset_withCount :
    mutexTaskPriReset (s.withCount n) t = (mutexTaskPriReset s t).withCount n := by
  unfold mutexTaskPriReset
  simp only [withCount_tasks, withCount_blk, withCount_mutexes, mutexRelease_withCount]
  cases (s.tasks t).blkObj with
  | none => rfl
  | some o =>
    simp only [apply_ite (withCount · n)]
    cases (s.mutexes o).mutexTask with
    | none => rfl
    | some => simp only [apply_ite (withCount · n)]

/-- What is done with a task whose time has come does not depend on the time. -/
theorem tickExpire_withCount : tickExpire (s.withCount n) t = (tickExpire s t).withCount n := by
  have modTask (s : KState) (f : Ktask → Ktask) :
      (s.withCount n).modTask t f = (s.modTask t f).withCount n := rfl
  unfold tickExpire
  simp only [withCount_tasks, modTask, tickListRm_withCount, blkListRm_withCount,
    readyListAdd_withCount, mutexTaskPriReset_withCount]
  cases (s.tasks t).taskState <;> rfl

end Timeless

/-! ## The loop -/

variable {s : KState}

/-- The first task of the tick list leaves it when its time has come. -/
theorem tickExpire_tickList (core : Core s) {t : TaskId} {rest : List TaskId}
    (list : s.tickList = t :: rest) :
    (tickExpire s t).tickList = rest ∧
      ∀ u ∈ rest, ((tickExpire s t).tasks u).tickMatch = (s.tasks u).tickMatch := by
  have inList : t ∈ s.tickList := list ▸ mem_cons_self
  obtain ⟨bs, view⟩ := tickExpire_release core inList
  have erased : (tickExpire s t).tickList = s.tickList.erase t := congrArg View.tickList view
  refine ⟨?_, fun u inRest => ?_⟩
  · rw [erased, list, erase_cons_head]
  · have nodup : (t :: rest).Nodup := list ▸ core.tick.nodup
    have other : u ≠ t := fun same => (nodup_cons.mp nodup).1 (same ▸ inRest)
    have same : (tickExpire s t).view.task u = s.view.task u := by
      rw [view]
      exact View.put_of_ne _ _ _ other
    exact congrArg TaskView.tickMatch same

/-- Going through the list does not change the tick counter. -/
theorem tickListUpdateLoop_tickCount (list : List TaskId) (s : KState) :
    (tickListUpdateLoop list s).tickCount = s.tickCount := by
  induction list generalizing s with
  | nil => rfl
  | cons t _ ih =>
    rw [tickListUpdateLoop]
    split
    · have same : tickExpire s t = (tickExpire s t).withCount s.tickCount :=
        tickExpire_withCount s s.tickCount t
      rw [ih, same]
      rfl
    · rfl

/-- The count is set first, and the loop runs under it. -/
theorem tickListUpdate_eq (s : KState) (ticks : Nat) :
    tickListUpdate s ticks =
      tickListUpdateLoop s.tickList (s.withCount ((s.tickCount + ticks) % tickRange)) :=
  rfl

/-- Going through the tick list at a later time is going through it at a time before and then
through what is left of it. -/
theorem tickListUpdateLoop_split {now a b : Nat} (short : a + b < tickRange / 2) (core : Core s)
    {list : List TaskId} (isList : s.tickList = list)
    (near : ∀ t ∈ list, tickSub (s.tasks t).tickMatch now < tickRange / 2) :
    tickListUpdateLoop list (s.withCount ((now + a + b) % tickRange)) =
      tickListUpdateLoop (tickListUpdateLoop list (s.withCount ((now + a) % tickRange))).tickList
        ((tickListUpdateLoop list (s.withCount ((now + a) % tickRange))).withCount
          ((now + a + b) % tickRange)) := by
  induction list generalizing s with
  | nil =>
    show _ = tickListUpdateLoop s.tickList _
    rw [isList]
    rfl
  | cons t rest ih =>
    by_cases expired : tickExpired (s.tasks t).tickMatch ((now + a) % tickRange) = true
    · have later := tickExpired_later (near t mem_cons_self) short expired
      obtain ⟨left, same⟩ := tickExpire_tickList core isList
      have first : tickListUpdateLoop (t :: rest) (s.withCount ((now + a) % tickRange)) =
          tickListUpdateLoop rest ((tickExpire s t).withCount ((now + a) % tickRange)) := by
        rw [tickListUpdateLoop, ← tickExpire_withCount]
        exact if_pos expired
      have second : tickListUpdateLoop (t :: rest) (s.withCount ((now + a + b) % tickRange)) =
          tickListUpdateLoop rest ((tickExpire s t).withCount ((now + a + b) % tickRange)) := by
        rw [tickListUpdateLoop, ← tickExpire_withCount]
        exact if_pos later
      rw [first, second]
      apply ih (tickExpire_kept core t).core left
      intro u inRest
      rw [same u inRest]
      exact near u (mem_cons_of_mem t inRest)
    · have stops : tickListUpdateLoop (t :: rest) (s.withCount ((now + a) % tickRange)) =
          s.withCount ((now + a) % tickRange) := by
        exact if_neg expired
      rw [stops]
      show _ = tickListUpdateLoop s.tickList (s.withCount _)
      rw [isList]

/-! ## Runs -/

/-- Ticks announced at once and in two parts leave the same state of the whole kernel; and so do
ticks announced one by one. -/
theorem ticks_batched {s : KState} (reach : kernel.Reach s)
    (near : ∀ t ∈ s.tickList, s.remaining t < 2 ^ 63) :
    (∀ a b : Int, 0 ≤ a → 0 ≤ b → a + b < 2 ^ 63 →
      tickListUpdate s (a + b) = tickListUpdate (tickListUpdate s a) b) ∧
      ∀ n : Nat, n + 1 < 2 ^ 63 →
        tickListUpdate s (n + 1 : Nat) = (fun s => tickListUpdate s 1)^[n + 1] s := by
  have core := (reach_inv reach).core
  have parts (a b : Int) (first : 0 ≤ a) (second : 0 ≤ b) (short : a + b < 2 ^ 63) :
      tickListUpdate s (a + b) = tickListUpdate (tickListUpdate s a) b := by
    lift a to Nat using first
    lift b to Nat using second
    have short : a + b < tickRange / 2 := by
      rw [tickRange]
      omega
    rw [← Nat.cast_add, tickListUpdate_eq, tickListUpdate_eq, tickListUpdate_eq,
      tickListUpdateLoop_tickCount, ← Nat.add_assoc,
      tickListUpdateLoop_split short core rfl near]
    show _ = tickListUpdateLoop _ (withCount _ (((s.tickCount + a) % tickRange + b) % _))
    rw [Nat.mod_add_mod]
  refine ⟨parts, fun n short => ?_⟩
  induction n with
  | zero => rfl
  | succ n ih =>
    rw [Function.iterate_succ_apply', ← ih (by omega)]
    have whole := parts (n + 1 : Nat) 1 (by omega) (by omega) (by omega)
    rw [← whole]
    rfl

/-- Task 1 sleeps for five ticks and task 2 waits two ticks for a semaphore. -/
def sleepers : KState := kernel.run (.initial fun _ => 0) (sleepAndTimeout.take 5)

/-- Five ticks at once, or one and four. -/
theorem ticks_batched_sleepers :
    sleepers.tickList = [2, 1] ∧
      tickListUpdate sleepers (1 + 4) = tickListUpdate (tickListUpdate sleepers 1) 4 :=
  have reach : kernel.Reach sleepers := (reach_initial _).run (by decide +kernel)
  ⟨by decide +kernel,
    (ticks_batched reach (by decide +kernel)).1 1 4 (by decide) (by decide) (by decide)⟩

end AliosThings.Rhino
