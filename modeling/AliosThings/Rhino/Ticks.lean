import AliosThings.Rhino.Served
import AliosThings.Rhino.TickTime

/-!
# Sleeps and timeouts last as long as requested

The tick list holds the match times of the tasks that sleep or wait with a timeout, modulo the
range of the tick counter, and `tick_list_update` looks at the sign of their distance to the
counter. The history kept beside the kernel counts the ticks without overflow and holds for each
timed call the time at which it is over.
-/

namespace AliosThings.Rhino

open Lib List Option TaskView
open Function (update update_self update_of_ne)

/-- The ticks that a call lets pass. -/
def KCall.ticks : KCall → Nat
  | tickProc => 1
  | tickUpdate ticks => ticks.toNat
  | _ => 0

/-- The task sleeps or waits. -/
def Ktask.Blocked (k : Ktask) : Prop :=
  k.taskState = .sleep ∨ k.taskState = .sleepSuspended ∨ k.taskState = .pend ∨
    k.taskState = .pendSuspended
  deriving Decidable

structure TickHistory where
  /-- The ticks that have passed. -/
  now : Nat := 0
  /-- When the sleep of a task, or its wait with a timeout, is over. -/
  deadline : TaskId → Option Nat := fun _ => none

def TickHistory.note (s : KState) (c : KCall) (h : TickHistory) : TickHistory where
  now := h.now + c.ticks
  deadline t :=
    if ((c.exec s).2.tasks t).Blocked then
      if (s.tasks t).Blocked then h.deadline t else c.timeout.map (h.now + ·)
    else none

/-- The kernel with the times at which sleeps and timeouts are over. -/
abbrev tickKernel : System (KState × TickHistory) KCall := kernel.observed {} TickHistory.note

/-- What the tick list is ordered by: the time a task still has. -/
def KState.remaining (s : KState) (t : TaskId) : Nat := tickSub (s.tasks t).tickMatch s.tickCount

/-- The timeout of the call, if it has one, is shorter than half the range of the counter. -/
def KCall.ShortWait (c : KCall) : Prop := ∀ n ∈ c.timeout, n < tickRange / 2
  deriving Decidable

/-- The call does not turn the counter back. -/
def KCall.GoesForward : KCall → Prop
  | tickUpdate ticks => 0 ≤ ticks ∧ ticks < tickRange / 2
  | _ => True

structure TicksExact (s : KState) (h : TickHistory) : Prop where
  /-- Whoever sleeps or waits with a timeout is not due. -/
  pending : ∀ t d, h.deadline t = some d → (s.tasks t).Blocked ∧ h.now < d
  listed : ∀ t, t ∈ s.tickList ↔ ∃ d, h.deadline t = some d
  sorted : s.tickList.Pairwise fun t u => s.remaining t ≤ s.remaining u
  /-- A tick wakes those who are due then, and nobody else. -/
  wakes : ∀ c : KCall, c.isTick → c.Allowed s → c.GoesForward → ∀ t,
    (∀ d, h.deadline t = some d → d ≤ h.now + c.ticks →
      ((c.exec s).2.tasks t).taskState = (s.tasks t).taskState.expired) ∧
    ((∀ d, h.deadline t = some d → h.now + c.ticks < d) →
      ((c.exec s).2.tasks t).taskState = (s.tasks t).taskState)

/-! ## What is timed -/

/-- The tick list holds the times of the history, none of which has come. -/
structure Timed (s : KState) (h : TickHistory) : Prop where
  count : s.tickCount = h.now % tickRange
  listed : ∀ t, t ∈ s.tickList ↔ ∃ d, h.deadline t = some d
  due : ∀ t d, h.deadline t = some d → h.now < d ∧ d < h.now + tickRange / 2 ∧
    (s.tasks t).tickMatch = d % tickRange
  sorted : s.tickList.Pairwise fun t u => (h.deadline t).getD 0 ≤ (h.deadline u).getD 0

variable {s s' : KState} {c : KCall} {t : TaskId} {h : TickHistory} {g : TaskView → TaskView}

theorem blocked_iff (s : KState) (t : TaskId) :
    (s.tasks t).Blocked ↔ (s.view.task t).phase ≠ .free ∧ (s.view.task t).phase ≠ .absent := by
  simp only [Ktask.Blocked, KState.view, Function.comp, Ktask.view, phase]
  cases (s.tasks t).taskState <;> simp

theorem Core.blocked_of_tick (core : Core s) (inList : t ∈ s.tickList) : (s.tasks t).Blocked := by
  have tick := (core.tick.mem t).mp inList
  have ok := core.task t
  unfold Ktask.Blocked
  cases state : (s.tasks t).taskState <;> simp_all [TaskOk]

/-- Who sleeps or waits after a step did so before, with the same request. -/
theorem TaskView.Passive.of_blocked {X : Set ObjId} {w w' : TaskView} (step : w.Passive X w')
    (notFree : w'.phase ≠ .free) (notAbsent : w'.phase ≠ .absent) :
    w.phase ≠ .free ∧ w.phase ≠ .absent ∧ w'.tickMatch = w.tickMatch ∧
      w'.tickHead = w.tickHead := by
  cases step with
  | rests phase _ request tick =>
    exact ⟨phase ▸ notFree, phase ▸ notAbsent, request.tickMatch, tick⟩
  | quits _ _ free | served _ _ _ free | rises _ free => exact absurd free notFree
  | dies absent => exact absurd absent notAbsent

theorem Timed.remaining_eq (timed : Timed s h) (inList : t ∈ s.tickList) :
    s.remaining t = (h.deadline t).getD 0 - h.now := by
  obtain ⟨d, had⟩ := (timed.listed t).mp inList
  obtain ⟨later, near, tickMatch⟩ := timed.due t d had
  rw [KState.remaining, tickMatch, timed.count, had, getD_some]
  exact tickSub_of_le later.le (near.trans_le (Nat.add_le_add_left (Nat.div_le_self ..) _))

/-- A call in which nobody begins to sleep or wait, and which leaves no one who is due. -/
theorem Timed.step (core : Core s) (core' : Core (c.exec s).2) (timed : Timed s h)
    (count : (c.exec s).2.tickCount = (h.now + c.ticks) % tickRange)
    (ticks : (c.exec s).2.tickList.Sublist s.tickList)
    (same : ∀ t, ((c.exec s).2.view.task t).phase ≠ .free →
      ((c.exec s).2.view.task t).phase ≠ .absent → (s.view.task t).phase ≠ .free ∧
        (s.view.task t).phase ≠ .absent ∧
        ((c.exec s).2.view.task t).tickMatch = (s.view.task t).tickMatch ∧
        ((c.exec s).2.view.task t).tickHead = (s.view.task t).tickHead)
    (notDue : ∀ t d, h.deadline t = some d → ((c.exec s).2.tasks t).Blocked → h.now + c.ticks < d) :
    Timed (c.exec s).2 (h.note s c) := by
  replace same t (blocked : ((c.exec s).2.tasks t).Blocked) : (s.tasks t).Blocked ∧
      ((c.exec s).2.tasks t).tickMatch = (s.tasks t).tickMatch ∧
      ((c.exec s).2.tasks t).tickHead = (s.tasks t).tickHead := by
    obtain ⟨notFree, notAbsent⟩ := (blocked_iff _ t).mp blocked
    obtain ⟨wasNotFree, wasNotAbsent, ticks⟩ := same t notFree notAbsent
    exact ⟨(blocked_iff s t).mpr ⟨wasNotFree, wasNotAbsent⟩, ticks⟩
  have kept t (blocked : ((c.exec s).2.tasks t).Blocked) : (h.note s c).deadline t = h.deadline t :=
      (if_pos blocked).trans (if_pos (same t blocked).1)
  have gone t (free : ¬ ((c.exec s).2.tasks t).Blocked) : (h.note s c).deadline t = none :=
      if_neg free
  refine ⟨count, fun t => ⟨fun inList => ?_, ?_⟩, fun t d noted => ?_, ?_⟩
  · rw [kept t (core'.blocked_of_tick inList)]
    exact (timed.listed t).mp (ticks.subset inList)
  · rintro ⟨d, noted⟩
    by_cases blocked : ((c.exec s).2.tasks t).Blocked
    · rw [kept t blocked] at noted
      have inList := (timed.listed t).mpr ⟨d, noted⟩
      rw [core'.tick.mem, (same t blocked).2.2]
      exact (core.tick.mem t).mp inList
    · rw [gone t blocked] at noted
      cases noted
  · by_cases blocked : ((c.exec s).2.tasks t).Blocked
    · rw [kept t blocked] at noted
      obtain ⟨-, near, tickMatch⟩ := timed.due t d noted
      refine ⟨notDue t d noted blocked, ?_, (same t blocked).2.1.trans tickMatch⟩
      exact near.trans_le (Nat.add_le_add_right (Nat.le_add_right _ _) _)
    · rw [gone t blocked] at noted
      cases noted
  · refine (timed.sorted.sublist ticks).imp_of_mem fun {t u} inList inList' le => ?_
    rw [kept t (core'.blocked_of_tick inList), kept u (core'.blocked_of_tick inList')]
    exact le

/-- A call that blocks sets the deadline of its caller. -/
theorem Blocks.deadline (core : Core s) (timed : Timed s h) (blocks : Blocks s c g (c.exec s)) :
    (h.note s c).deadline = update h.deadline s.active (c.timeout.map (h.now + ·)) := by
  have free : ¬ (s.tasks s.active).Blocked := fun blocked =>
    ((blocked_iff s s.active).mp blocked).1 blocks.free
  funext t
  rcases eq_or_ne t s.active with rfl | other
  · have blocked : ((c.exec s).2.tasks s.active).Blocked := by
      rw [blocked_iff, blocks.phase_active]
      unfold KCall.sleepPhase
      split <;> simp
    rw [update_self]
    exact (if_pos blocked).trans (if_neg free)
  · rw [update_of_ne other]
    have same : ((c.exec s).2.tasks t).Blocked ↔ (s.tasks t).Blocked := by
      rw [blocked_iff, blocked_iff, blocks.task_other other]
    by_cases blocked : (s.tasks t).Blocked
    · exact (if_pos (same.mpr blocked)).trans (if_pos blocked)
    · refine (if_neg (mt same.mp blocked)).trans ?_
      cases had : h.deadline t with
      | none => rfl
      | some d => exact absurd (core.blocked_of_tick ((timed.listed t).mpr ⟨d, had⟩)) blocked

/-- The wait of the caller begins. -/
theorem Timed.blocks (core : Core s) (timed : Timed s h) (short : c.ShortWait)
    (noTick : c.ticks = 0) (blocks : Blocks s c g (c.exec s)) :
    Timed (c.exec s).2 (h.note s c) := by
  have out : s.active ∉ s.tickList := fun inList =>
    ((blocked_iff s s.active).mp (core.blocked_of_tick inList)).1 blocks.free
  have now : (h.note s c).now = h.now := by
    show h.now + c.ticks = h.now
    rw [noTick, Nat.add_zero]
  have deadline := blocks.deadline core timed
  have mine : (h.note s c).deadline s.active = c.timeout.map (h.now + ·) := by
    rw [deadline, update_self]
  have same t (other : t ≠ s.active) : (h.note s c).deadline t = h.deadline t := by
    rw [deadline, update_of_ne other]
  have ne : ∀ t ∈ s.tickList, t ≠ s.active := fun t inList running => out (running ▸ inList)
  have sorted : s.tickList.Pairwise fun t u =>
      ((h.note s c).deadline t).getD 0 ≤ ((h.note s c).deadline u).getD 0 := by
    refine timed.sorted.imp_of_mem fun {t u} inList inList' le => ?_
    rw [same t (ne t inList), same u (ne u inList')]
    exact le
  have count : (c.exec s).2.tickCount = (h.note s c).now % tickRange :=
    blocks.tickCount.trans (now ▸ timed.count)
  have due (own : ∀ d, c.timeout.map (h.now + ·) = some d → h.now < d ∧
      d < h.now + tickRange / 2 ∧ ((c.exec s).2.tasks s.active).tickMatch = d % tickRange) (t d)
      (noted : (h.note s c).deadline t = some d) : (h.note s c).now < d ∧
      d < (h.note s c).now + tickRange / 2 ∧ ((c.exec s).2.tasks t).tickMatch = d % tickRange := by
    rw [now]
    rcases eq_or_ne t s.active with rfl | other
    · exact own d (mine ▸ noted)
    · have kept : ((c.exec s).2.tasks t).tickMatch = (s.tasks t).tickMatch :=
        congrArg tickMatch (blocks.task_other other)
      rw [kept]
      exact timed.due t d (same t other ▸ noted)
  have list : (c.exec s).2.tickList = (s.view.armed s.active c.timeout).tickList :=
    congrArg View.tickList blocks.view
  cases timeout : c.timeout with
  | none =>
    -- a wait for ever is not in the tick list
    rw [timeout] at list mine
    replace list : (c.exec s).2.tickList = s.tickList := list
    refine ⟨count, fun t => ?_, due (by rw [timeout]; exact nofun), list ▸ sorted⟩
    rw [list]
    rcases eq_or_ne t s.active with rfl | other
    · simp [out, mine]
    · rw [same t other]
      exact timed.listed t
  | some n =>
    have positive : 0 < n := Nat.pos_of_ne_zero fun zero => blocks.positive (zero ▸ timeout)
    have near : n < tickRange / 2 := short n timeout
    have armed : s.view.armed s.active (some n) = s.view.put s.active { s.view.task s.active with
          tickMatch := (s.tickCount + n) % tickRange, tickHead := true }
        (tickListPriInsert s.remaining n s.active s.tickList) := if_pos ⟨positive, out⟩
    have own : ((c.exec s).2.tasks s.active).tickMatch =
        ((s.view.armed s.active c.timeout).task s.active).tickMatch :=
      (congrArg tickMatch blocks.task_active).trans (blocks.tickMatch _)
    rw [timeout, armed] at list own
    rw [timeout] at mine
    replace list : (c.exec s).2.tickList =
        s.tickList.orderedInsert (fun _ u => s.remaining u > n) s.active :=
      list.trans (tickListPriInsert_eq ..)
    refine ⟨count, fun t => ?_, due fun d is => ?_, ?_⟩
    · rw [list, mem_orderedInsert]
      rcases eq_or_ne t s.active with rfl | other
      · simp [mine]
      · rw [same t other, timed.listed t]
        simp [other]
    · rw [timeout] at is
      cases is
      refine ⟨Nat.lt_add_of_pos_right positive, Nat.add_lt_add_left near _, ?_⟩
      rw [own, View.put_self, timed.count]
      exact Nat.mod_add_mod ..
    · rw [list]
      refine pairwise_orderedInsert sorted fun u inList => ?_
      rw [timed.remaining_eq inList, mine, same u (ne u inList)]
      simp only [map_some, getD_some]
      omega

/-! ## The loop of `tick_list_update` -/

/-- Of the tasks of `list`, those that are due have been woken. -/
structure Ticked (due : TaskId → Nat) (now : Nat) (list : List TaskId) (s s' : KState) : Prop where
  core : Core s'
  expired : ∀ t ∈ list, due t ≤ now → ∃ bs,
    s'.view.task t = (s.view.task t).released (s.tasks t).taskState.expired bs
  others : ∀ t, (t ∈ list → now < due t) → s'.view.task t = s.view.task t
  ticks : s'.tickList.Sublist s.tickList
  count : s'.tickCount = s.tickCount

variable {due : TaskId → Nat} {now n : Nat}

/-- A task in the tick list is released when its time has come. -/
theorem tickExpire_release (core : Core s) (inList : t ∈ s.tickList) :
    ∃ bs, (tickExpire s t).view = s.view.release t (s.tasks t).taskState.expired bs := by
  obtain ⟨notFree, notAbsent⟩ := (blocked_iff s t).mp (core.blocked_of_tick inList)
  rcases tickExpire_view core t with ⟨-, free | absent⟩ | ⟨-, view⟩ | ⟨-, view⟩
  · exact absurd free notFree
  · exact absurd absent notAbsent
  · exact ⟨_, view⟩
  · exact ⟨_, view⟩

theorem tickListUpdateLoop_ticked {list : List TaskId} (core : Core s)
    (count : s.tickCount = now % tickRange) (nodup : list.Nodup)
    (sorted : list.Pairwise fun t u => due t ≤ due u) (listed : ∀ t ∈ list, t ∈ s.tickList)
    (near : ∀ t ∈ list, (s.tasks t).tickMatch = due t % tickRange ∧
      now < due t + tickRange / 2 ∧ due t < now + tickRange / 2) :
    Ticked due now list s (tickListUpdateLoop list s) := by
  induction list generalizing s with
  | nil =>
    exact ⟨core, fun t inNil => (not_mem_nil inNil).elim, fun _ _ => rfl, .refl _, rfl⟩
  | cons t rest ih =>
    obtain ⟨notIn, nodupRest⟩ := nodup_cons.mp nodup
    obtain ⟨tickMatch, past, future⟩ := near t mem_cons_self
    have compares := tickExpired_iff past future
    unfold tickListUpdateLoop
    rw [tickMatch, count]
    by_cases isDue : due t ≤ now
    · rw [if_pos (compares.mpr isDue)]
      obtain ⟨bs, view⟩ := tickExpire_release core (listed t mem_cons_self)
      have core₁ := (tickExpire_kept core t).core
      generalize tickExpire s t = s₁ at view core₁
      have same u (other : u ≠ t) : s₁.view.task u = s.view.task u := by
        rw [view]
        exact View.put_of_ne _ _ _ other
      have ne : ∀ u ∈ rest, u ≠ t := fun u inRest isHead => notIn (isHead ▸ inRest)
      have list₁ : s₁.tickList = s.tickList.erase t := congrArg View.tickList view
      have count₁ : s₁.tickCount = s.tickCount := congrArg View.tickCount view
      have tail := ih core₁ (count₁.trans count) nodupRest (pairwise_cons.mp sorted).2
        (fun u inRest => by
          rw [list₁]
          exact (mem_erase_of_ne (ne u inRest)).mpr (listed u (mem_cons_of_mem t inRest)))
        fun u inRest => by
          have sameMatch : (s₁.tasks u).tickMatch = (s.tasks u).tickMatch :=
            congrArg TaskView.tickMatch (same u (ne u inRest))
          rw [sameMatch]
          exact near u (mem_cons_of_mem t inRest)
      refine ⟨tail.core, fun u inList dueU => ?_, fun u notDue => ?_,
        tail.ticks.trans (list₁ ▸ erase_sublist), tail.count.trans count₁⟩
      · rcases mem_cons.mp inList with rfl | inRest
        · refine ⟨bs, (tail.others u fun inRest => absurd inRest notIn).trans ?_⟩
          rw [view]
          exact View.put_self ..
        · obtain ⟨bs', eq⟩ := tail.expired u inRest dueU
          have state : (s₁.tasks u).taskState = (s.tasks u).taskState :=
            congrArg taskState (same u (ne u inRest))
          rw [same u (ne u inRest), state] at eq
          exact ⟨bs', eq⟩
      · have other : u ≠ t := fun isHead => by
          have later := notDue (isHead ▸ mem_cons_self)
          rw [isHead] at later
          omega
        exact (tail.others u fun inRest => notDue (mem_cons_of_mem t inRest)).trans (same u other)
    · -- the scan stops, and behind `t` nobody is due
      rw [if_neg (mt compares.mp isDue)]
      have notDue := not_due_of_head sorted (not_le.mp isDue)
      exact ⟨core, fun u inList dueU => absurd dueU (not_le.mpr (notDue u inList)), fun _ _ => rfl,
        .refl _, rfl⟩

/-! ## Every call -/

theorem ticks_of_not_tick (noTick : ¬ c.isTick) : c.ticks = 0 := by
  cases c <;> first | rfl | exact absurd rfl noTick

theorem tickListUpdate_ticked (core : Core s) (timed : Timed s h) (near : n < tickRange / 2) :
    Ticked (fun t => (h.deadline t).getD 0) (h.now + n) s.tickList
      { s with tickCount := (h.now + n) % tickRange } (tickListUpdate s n) := by
  have count : ((s.tickCount + (n : Int)) % tickRange).toNat = (h.now + n) % tickRange := by
    rw [timed.count]
    push_cast
    rw [Int.emod_add_emod]
    exact Int.toNat_natCast _
  unfold tickListUpdate
  rw [count]
  refine tickListUpdateLoop_ticked (core.congr rfl) rfl
    core.tick.nodup timed.sorted (fun _ inList => inList) fun t inList => ?_
  obtain ⟨d, had⟩ := (timed.listed t).mp inList
  obtain ⟨later, soon, tickMatch⟩ := timed.due t d had
  rw [had, getD_some]
  refine ⟨tickMatch, ?_, ?_⟩ <;> omega

/-- A tick is an update of the tick list, and the slice of the running task. -/
theorem exec_tick (tick : c.isTick) (forward : c.GoesForward) :
    c.ticks < tickRange / 2 ∧ (c.exec s).2.view = (tickListUpdate s c.ticks).view := by
  cases c with
  | tickProc => exact ⟨by decide, timeSliceUpdate_view _⟩
  | tickUpdate n =>
    obtain ⟨nonneg, near⟩ := forward
    have asNat : ((n.toNat : Nat) : Int) = n := Int.toNat_of_nonneg nonneg
    refine ⟨?_, ?_⟩
    · show n.toNat < tickRange / 2
      omega
    · show (tickListUpdate s n).view = (tickListUpdate s n.toNat).view
      rw [asNat]
  | _ => cases tick

/-- The tick list stays what the history says. -/
theorem exec_timed (inv : KInv s) (may : c.Allowed s) (timed : Timed s h) (short : c.ShortWait)
    (forward : c.GoesForward) : Timed (c.exec s).2 (h.note s c) := by
  have core := inv.core
  have core' := (exec_inv inv may).core
  by_cases tick : c.isTick
  · obtain ⟨near, view⟩ := exec_tick tick forward
    have ticked := tickListUpdate_ticked core timed near
    have count : (c.exec s).2.tickCount = (tickListUpdate s c.ticks).tickCount :=
      congrArg View.tickCount view
    have list : (c.exec s).2.tickList = (tickListUpdate s c.ticks).tickList :=
      congrArg View.tickList view
    have task : (c.exec s).2.view.task = (tickListUpdate s c.ticks).view.task :=
      congrArg View.task view
    -- who still sleeps or waits was not due
    have left t (notFree : ((c.exec s).2.view.task t).phase ≠ .free) (inList : t ∈ s.tickList) :
        h.now + c.ticks < (h.deadline t).getD 0 := by
      by_contra due
      obtain ⟨bs, eq⟩ := ticked.expired t inList (not_lt.mp due)
      refine notFree ?_
      rw [task, eq]
      exact released_phase_free (TaskStat.expired_cases _) bs
    refine timed.step core core' (count.trans ticked.count) (list ▸ ticked.ticks)
      (fun t notFree => ?_) fun t d had blocked => ?_
    · have same : (c.exec s).2.view.task t = s.view.task t := by
        rw [task]
        exact ticked.others t (left t notFree)
      rw [same] at notFree ⊢
      exact fun notAbsent => ⟨notFree, notAbsent, rfl, rfl⟩
    · have later := left t ((blocked_iff _ t).mp blocked).1 ((timed.listed t).mpr ⟨d, had⟩)
      rwa [had, getD_some] at later
  have noTicks := ticks_of_not_tick tick
  have count : s.tickCount = (h.now + c.ticks) % tickRange := by
    rw [noTicks, Nat.add_zero]
    exact timed.count
  have notDue : ∀ t d, h.deadline t = some d → ((c.exec s).2.tasks t).Blocked →
      h.now + c.ticks < d := fun t d had _ => by
    rw [noTicks, Nat.add_zero]
    exact (timed.due t d had).1
  have step : CallStep Set.univ {o | o ∈ c.object} (c.stores s) s c (c.exec s) :=
    exec_callStep inv may (fun _ _ => trivial) (fun _ on => on) (.inl fun _ => trivial)
  cases step with
  | quiet step =>
    exact timed.step core core' (step.tickCount.trans count) step.ticks
      (fun t => (step.task t).of_blocked) notDue
  | ticks _ isTick => exact absurd isTick tick
  | makes _ _ task ticks tickCount =>
    have list : (c.exec s).2.tickList = s.tickList := ticks
    refine timed.step core core' (tickCount.trans count) (by rw [list]) (fun t => ?_) notDue
    rw [task]
    exact fun notFree notAbsent => ⟨notFree, notAbsent, rfl, rfl⟩
  | creates u _ _ _ free view =>
    have list : (c.exec s).2.tickList = s.tickList := congrArg View.tickList view
    have sameCount : (c.exec s).2.tickCount = s.tickCount := congrArg View.tickCount view
    refine timed.step core core' (sameCount.trans count) (by rw [list]) (fun t => ?_) notDue
    rw [view]
    rcases eq_or_ne t u with rfl | other
    · rw [View.put_self]
      exact fun notFree => absurd free notFree
    · rw [View.put_of_ne _ _ _ other]
      exact fun notFree notAbsent => ⟨notFree, notAbsent, rfl, rfl⟩
  | blocks g blocks => exact timed.blocks core short noTicks blocks

/-! ## Every run -/

variable {p : KState × TickHistory}

theorem initial_timed (mem : Mem) : Timed (.initial mem) {} where
  count := rfl
  listed t := by simp [KState.initial]
  due t d had := by cases had
  sorted := List.Pairwise.nil

/-- What the invariant says of the tick list and of the next tick. -/
theorem Timed.exact {s : KState} {h : TickHistory} (core : Core s) (timed : Timed s h) :
    TicksExact s h where
  pending t d had :=
    ⟨core.blocked_of_tick ((timed.listed t).mpr ⟨d, had⟩), (timed.due t d had).1⟩
  listed := timed.listed
  sorted := by
    refine timed.sorted.imp_of_mem fun {t u} inList inList' le => ?_
    rw [timed.remaining_eq inList, timed.remaining_eq inList']
    exact Nat.sub_le_sub_right le _
  wakes c tick _ forward t := by
    obtain ⟨near, view⟩ := exec_tick tick forward
    have ticked := tickListUpdate_ticked core timed near
    have state : ((c.exec s).2.tasks t).taskState =
        ((tickListUpdate s c.ticks).view.task t).taskState :=
      congrArg (fun v : View => (v.task t).taskState) view
    refine ⟨fun d had due => ?_, fun notDue => ?_⟩
    · obtain ⟨bs, eq⟩ := ticked.expired t ((timed.listed t).mpr ⟨d, had⟩) (by rw [had]; exact due)
      rw [state, eq]
      rfl
    · have eq := ticked.others t fun inList => by
        obtain ⟨d, had⟩ := (timed.listed t).mp inList
        rw [had]
        exact notDue d had
      rw [state, eq]
      rfl

/-- In every run in which no timeout reaches half the range of the tick counter and the counter
does not go back, whoever sleeps or waits with a timeout is woken by the first tick that is due,
and not by an earlier one, and the tick list is sorted by the time that remains. -/
theorem ticks_exact (reach : (tickKernel.restrict fun _ c => c.ShortWait ∧ c.GoesForward).Reach p) :
    TicksExact p.1 p.2 := by
  have all : KInv p.1 ∧ Timed p.1 p.2 := by
    refine reach.invariant (P := fun p => KInv p.1 ∧ Timed p.1 p.2) ?_ ?_
    · rintro ⟨s, h⟩ ⟨⟨mem, rfl⟩, rfl⟩
      exact ⟨initial_inv mem, initial_timed mem⟩
    · rintro ⟨s, h⟩ c ⟨inv, timed⟩ ⟨may, short, forward⟩
      exact ⟨exec_inv inv may.2, exec_timed inv may.2 timed short forward⟩
  exact all.2.exact all.1.core

/-- Task 1 sleeps for five ticks and task 2 waits two ticks for a semaphore; three ticks pass. -/
def sleepAndTimeout : List KCall :=
  [.semCreate 5 0 .staticAlloc, .taskCreate 1 20 0 1 true .staticAlloc, .taskSleep 5,
    .taskCreate 2 25 0 1 true .staticAlloc, .semTake 5 2, .intrptEnter, .tickProc,
    .tickUpdate 2]

instance (c : KCall) : Decidable c.GoesForward := by
  rcases c <;> unfold KCall.GoesForward <;> infer_instance

theorem ticks_exact_sleepAndTimeout :
    (((tickKernel.run (.initial fun _ => 0, {}) sleepAndTimeout).1.tasks 1).taskState = .sleep ∧
      ((tickKernel.run (.initial fun _ => 0, {}) sleepAndTimeout).1.tasks 2).taskState = .rdy) ∧
      TicksExact (tickKernel.run (.initial fun _ => 0, {}) sleepAndTimeout).1
        (tickKernel.run (.initial fun _ => 0, {}) sleepAndTimeout).2 :=
  have start : (tickKernel.restrict fun _ c => c.ShortWait ∧ c.GoesForward).Reach
      (.initial fun _ => 0, {}) := .init ⟨⟨_, rfl⟩, rfl⟩
  ⟨by decide +kernel, ticks_exact (start.run (by decide +kernel))⟩

/-- Task 1 sleeps for more than half the range of the tick counter. -/
def longSleep : List KCall :=
  [.taskCreate 1 20 0 1 true .staticAlloc, .taskSleep (tickRange / 2 + 5), .intrptEnter]

/-- The first tick ends such a sleep. -/
theorem not_ticks_exact : ¬ ∀ p, tickKernel.Reach p → TicksExact p.1 p.2 := by
  intro exact
  have start : tickKernel.Reach (.initial fun _ => 0, {}) := .init ⟨⟨_, rfl⟩, rfl⟩
  have ok := exact _ (start.run (show tickKernel.Runs _ longSleep by decide +kernel))
  have deadline : (tickKernel.run (.initial fun _ => 0, {}) longSleep).2.deadline 1 =
      some (tickRange / 2 + 5) := by decide +kernel
  have sleeps := (ok.wakes .tickProc rfl (by decide +kernel) trivial 1).2 fun d had => by
    cases had
    decide +kernel
  exact absurd sleeps (by decide +kernel)

end AliosThings.Rhino
