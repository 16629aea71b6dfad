import AliosThings.Lib.Mailbox
import AliosThings.Rhino.TickTime
import AliosThings.Rhino.TimerList

/-!
# Timers and the time at which they are due

The history kept beside `k_timer.c` counts the ticks without overflow. Each time a timer is armed
it gets a time at which it is due, and the callback that is invoked for that time, or the command
that stops the timer, is what becomes of it.

`timer_list_pri_insert` compares unsigned distances to `g_timer_count`, in which a timer that is
overdue is far away: a timer inserted then goes before it, and may make `timer_task` wait while the
other is due. The order is kept as long as nothing is overdue when a timer is inserted.
-/

namespace AliosThings.Rhino

open Lib Function List

/-! ## The history -/

/-- What an action of `timer_task` does to a timer. -/
inductive TimerEvent where
  | armed (timer : TimerId) (ticks : Nat)
  | called (timer : TimerId)
  | stopped (timer : TimerId)
  deriving DecidableEq

structure TimerHistory where
  /-- The ticks that have passed. -/
  now : Nat := 0
  /-- When `g_timer_count` was set. -/
  count : Nat := 0
  /-- When `timer_task` last looked at the first timer. -/
  chosen : Nat := 0
  /-- The time at which a timer is due, or was when it was armed last. -/
  due : TimerId → Nat := fun _ => 0
  /-- The times for which a timer was armed, and what has become of them. -/
  box : TimerId → Mailbox Unit Nat := fun _ => {}

def startEvents (s : Timers) (t : TimerId) : List TimerEvent :=
  if (s.timer t).isTimer ∧ (s.timer t).timerState = .deactive then
    [.armed t (s.timer t).initCount]
  else []

def stopEvents (s : Timers) (t : TimerId) : List TimerEvent :=
  if (s.timer t).isTimer ∧ (s.timer t).timerState = .active then [.stopped t] else []

def TimerCmd.events (s : Timers) : TimerCmd → List TimerEvent
  | start t => startEvents s t
  | stop t => stopEvents s t
  | argChgAuto t arg => stopEvents s t ++ startEvents (cmdArgChg (cmdStop s t) t arg) t
  | _ => []

def TimerLabel.events (s : Timers) : TimerLabel → List TimerEvent
  | task =>
    match s.pc with
    | .received (some cmd) _ => cmd.events { s with timerCount := s.tickCount }
    | .scan (some t) =>
      if tickExpired (s.timer t).timerMatch s.timerCount then [.called t] else []
    | .callback t => if (s.timer t).roundTicks > 0 then [.armed t (s.timer t).roundTicks] else []
    | _ => []
  | _ => []

/-- Whether `g_timer_count` is set. -/
def TimerLabel.setsCount (s : Timers) : TimerLabel → Bool
  | task =>
    match s.pc, s.head with
    | .received _ _, _ => true
    | .loop, t :: _ => tickExpired (s.timer t).timerMatch s.tickCount
    | _, _ => false
  | _ => false

namespace TimerHistory

def mark (h : TimerHistory) : TimerEvent → TimerHistory
  | .armed t ticks => { h with
      due := update h.due t (h.count + ticks)
      box := update h.box t ((h.box t).note (some (h.count + ticks, [])) [] false) }
  | .called t => { h with box := update h.box t ((h.box t).note none [((), h.due t)] false) }
  | .stopped t => { h with box := update h.box t ((h.box t).note none [] true) }

def note (s : Timers) (a : TimerLabel) (h : TimerHistory) : TimerHistory :=
  (a.events s).foldl mark { h with
    now := if a = .tick then h.now + 1 else h.now
    count := if a.setsCount s then h.now else h.count
    chosen := if a = .task ∧ s.pc = .loop then h.now else h.chosen }

end TimerHistory

/-- Timers with the times at which they are due. -/
abbrev timerClock : System (Timers × TimerHistory) TimerLabel :=
  timerSystem.observed {} TimerHistory.note

/-! ## Timers on time -/

/-- The timeout with which `timer_task` waits for a command, or is about to. -/
def TimerPc.timeout : TimerPc → Option (Option Nat)
  | recv ticks | blocked ticks _ => some ticks
  | _ => none

structure TimersOnTime (s : Timers) (h : TimerHistory) : Prop where
  active : ∀ t, t ∈ s.head ↔ (s.timer t).timerState = .active
  ordered : s.head.Pairwise fun t u => h.due t ≤ h.due u
  /-- Each time for which a timer was armed is dealt with once, by a callback for that time or by a
  command; what is left is the time for which an active timer waits. -/
  pending : ∀ t ∈ s.head, s.pc ≠ .callback t → (h.box t).Delivers [h.due t]
  settled : ∀ t, t ∉ s.head ∨ s.pc = .callback t → (h.box t).Delivers []
  reached : ∀ t, s.pc = .callback t → h.due t ≤ h.count
  /-- A wait begins when no active timer is due, and ends no later than the first will be. -/
  waits : ∀ ticks, s.pc.timeout = some (some ticks) → ∀ t ∈ s.head,
    h.chosen < h.due t ∧ h.chosen + ticks ≤ h.due t
  forever : s.pc.timeout = some none → s.head = []

/-- The `g_timer_count` for which the next action inserts. -/
def Timers.insertCount (s : Timers) : Nat :=
  match s.pc with
  | .received _ _ => s.tickCount
  | _ => s.timerCount

/-- If the event is the insertion of a timer, no other timer in the list is overdue. -/
def TimerEvent.InTime (s : Timers) : TimerEvent → Prop
  | armed t _ => ∀ u ∈ s.head, u ≠ t →
      tickSub (s.timer u).timerMatch s.insertCount < tickRange / 2
  | _ => True

instance (s : Timers) (e : TimerEvent) : Decidable (e.InTime s) := by
  cases e <;> unfold TimerEvent.InTime <;> infer_instance

def TimerLabel.InsertsInTime (s : Timers) (a : TimerLabel) : Prop := ∀ e ∈ a.events s, e.InTime s
  deriving Decidable

/-- No timer in the list is ever overdue by half the range of the counter. -/
def TimerLabel.InRange (s : Timers) (h : TimerHistory) (a : TimerLabel) : Prop :=
  a = .tick → ∀ t ∈ s.head, h.now + 1 < h.due t + tickRange / 2
  deriving Decidable

/-! ## The list and the history -/

/-- The match time `m` of a timer that is due at `d`. -/
structure DueAt (count now m d : Nat) : Prop where
  time : m = d % tickRange
  future : d < count + tickRange / 2
  past : now < d + tickRange / 2

structure Clocked (s : Timers) (h : TimerHistory) : Prop where
  count : s.timerCount = h.count % tickRange
  le : h.count ≤ h.now
  due : ∀ t ∈ s.head, DueAt h.count h.now (s.timer t).timerMatch (h.due t)
  ordered : s.head.Pairwise fun t u => h.due t ≤ h.due u

/-- The timers in the list wait for their times, apart from that of the callback that runs. -/
structure OnTime (calling : Option TimerId) (s : Timers) (h : TimerHistory) : Prop where
  linked : Linked s.head s.timer
  clocked : Clocked s h
  pending : ∀ t ∈ s.head, calling ≠ some t → (h.box t).Delivers [h.due t]
  settled : ∀ t, t ∉ s.head ∨ calling = some t → (h.box t).Delivers []

/-- The same for the timers other than `t`, which is not in the list. -/
structure OnTimeBut (t : TimerId) (s : Timers) (h : TimerHistory) : Prop where
  linked : LinkedBut t s.head s.timer
  clocked : Clocked s h
  pending : ∀ u ∈ s.head, (h.box u).Delivers [h.due u]
  settled : ∀ u, u ∉ s.head → (h.box u).Delivers []

variable {s : Timers} {h : TimerHistory} {t : TimerId} {k : Ktimer} {n : Nat}

theorem Clocked.update (clocked : Clocked s h) (out : t ∉ s.head) (k : Ktimer) :
    Clocked { s with timer := update s.timer t k } h := by
  refine ⟨clocked.count, clocked.le, fun u inList => ?_, clocked.ordered⟩
  have other : u ≠ t := fun same => out (same ▸ inList)
  simp only [update_of_ne other]
  exact clocked.due u inList

theorem Clocked.erase (clocked : Clocked s h) (t : TimerId) :
    Clocked { s with head := s.head.erase t } h :=
  ⟨clocked.count, clocked.le, fun u inList => clocked.due u (mem_of_mem_erase inList),
    clocked.ordered.sublist erase_sublist⟩

theorem OnTime.idle (times : OnTime none s h) (out : t ∉ s.head) : OnTimeBut t s h :=
  ⟨times.linked.but out, times.clocked, fun u inList => times.pending u inList nofun,
    fun u out => times.settled u (.inl out)⟩

/-- The callback of `t` has returned. -/
theorem OnTime.called (times : OnTime (some t) s h) :
    OnTimeBut t { s with head := s.head.erase t } h := by
  refine ⟨times.linked.erase t, times.clocked.erase t, fun u inList => ?_, fun u out => ?_⟩
  · have other : u ≠ t := fun same => times.linked.nodup.not_mem_erase (same ▸ inList)
    exact times.pending u (mem_of_mem_erase inList) fun same =>
      other (Option.some.inj same).symm
  · by_cases same : u = t
    · exact times.settled u (.inr (congrArg some same.symm))
    · exact times.settled u (.inl fun inList => out ((mem_erase_of_ne same).mpr inList))

/-- The time for which `t` waits has been dealt with. -/
theorem OnTime.settle (times : OnTime none s h) {box : Mailbox Unit Nat} (done : box.Delivers []) :
    OnTime (some t) s { h with box := update h.box t box } := by
  have clocked := times.clocked
  refine ⟨times.linked, ⟨clocked.count, clocked.le, clocked.due, clocked.ordered⟩,
    fun u inList other => ?_, fun u out => ?_⟩
  · have ne : u ≠ t := fun same => other (congrArg some same.symm)
    simp only [update_of_ne ne]
    exact times.pending u inList nofun
  · by_cases same : u = t
    · subst same
      simpa only [update_self] using done
    · simp only [update_of_ne same]
      exact times.settled u (.inl (out.resolve_right fun eq => same (Option.some.inj eq).symm))

/-- A timer at rest is not due. -/
theorem OnTimeBut.rest (but : OnTimeBut t s h) (fits : k.Fits False) :
    OnTime none { s with timer := update s.timer t k } h := by
  refine ⟨(but.linked.update k).linked (by rwa [update_self]),
    but.clocked.update but.linked.out k, fun u inList _ => but.pending u inList, fun u out => ?_⟩
  exact but.settled u (out.resolve_right nofun)

/-- Among timers that are not overdue, unsigned distances compare the times. -/
theorem OnTimeBut.inserted_ordered (but : OnTimeBut t s h)
    (inTime : ∀ u ∈ s.head, tickSub (s.timer u).timerMatch s.timerCount < tickRange / 2) :
    (s.inserted t n).Pairwise fun u v =>
      update h.due t (h.count + n) u ≤ update h.due t (h.count + n) v := by
  have other : ∀ u ∈ s.head, u ≠ t := fun u inList same => but.linked.out (same ▸ inList)
  unfold Timers.inserted
  rw [tickListPriInsert_eq]
  refine pairwise_orderedInsert ?_ fun u inList => ?_
  · refine but.clocked.ordered.imp_of_mem fun {u v} inList inList' le => ?_
    rwa [update_of_ne (other u inList), update_of_ne (other v inList')]
  have due := but.clocked.due u inList
  have small := inTime u inList
  rw [due.time, but.clocked.count] at small
  have notOver : h.count ≤ h.due u := le_of_tickSub_lt (but.clocked.le.trans_lt due.past) small
  have near : h.due u < h.count + tickRange :=
    due.future.trans_le (Nat.add_le_add_left (Nat.div_le_self ..) _)
  rw [if_neg (other u inList), due.time, but.clocked.count, tickSub_of_le notOver near,
    update_self, update_of_ne (other u inList)]
  omega

/-- An armed timer is put before the later ones. -/
theorem OnTimeBut.arm (but : OnTimeBut t s h) (fits : k.Fits True)
    (time : k.timerMatch = (s.timerCount + n) % tickRange) (short : n < maxTimerTicks)
    (inTime : ∀ u ∈ s.head, tickSub (s.timer u).timerMatch s.timerCount < tickRange / 2)
    (soon : h.now < h.count + n + tickRange / 2) :
    OnTime none { s with head := s.inserted t n, timer := update s.timer t k }
      (h.mark (.armed t n)) := by
  have perm := inserted_perm s t n
  have mem u : u ∈ s.inserted t n ↔ u = t ∨ u ∈ s.head := by
    rw [perm.mem_iff, mem_cons]
  refine ⟨(but.linked.update k).insert perm (by rwa [update_self]),
    ⟨but.clocked.count, but.clocked.le, fun u inList => ?_, but.inserted_ordered inTime⟩,
    fun u inList _ => ?_, fun u out => ?_⟩
  · by_cases same : u = t
    · subst same
      simp only [TimerHistory.mark, update_self, time]
      refine ⟨?_, ?_, soon⟩
      · rw [but.clocked.count, Nat.mod_add_mod]
      · have range : maxTimerTicks < tickRange / 2 := by decide
        omega
    · simp only [TimerHistory.mark, update_of_ne same]
      exact but.clocked.due u (((mem u).mp inList).resolve_left same)
  · by_cases same : u = t
    · subst same
      simp only [TimerHistory.mark, update_self]
      exact (but.settled u but.linked.out).post _
    · simp only [TimerHistory.mark, update_of_ne same]
      exact but.pending u (((mem u).mp inList).resolve_left same)
  · have out := out.resolve_right nofun
    rw [mem, not_or] at out
    simp only [TimerHistory.mark, update_of_ne out.1]
    exact but.settled u out.2

/-! ## Commands -/

/-- No timer in the list other than `t` is overdue. -/
def Timers.NoneOverdue (s : Timers) (t : TimerId) : Prop :=
  ∀ u ∈ s.head, u ≠ t → tickSub (s.timer u).timerMatch s.timerCount < tickRange / 2

/-- A start notes when the timer is due. -/
theorem cmdStart_onTime (times : OnTime none s h) (fresh : h.count = h.now)
    (inTime : ∀ n, .armed t n ∈ startEvents s t → s.NoneOverdue t) :
    OnTime none (cmdStart s t) ((startEvents s t).foldl .mark h) := by
  rcases cmdStart_cases s t with ⟨eq, refused⟩ | ⟨created, idle, eq⟩
  · have nothing : startEvents s t = [] := if_neg refused
    rwa [nothing, eq]
  · have events : startEvents s t = [.armed t (s.timer t).initCount] := if_pos ⟨created, idle⟩
    have out := times.linked.not_mem.mpr idle
    have ticks := (times.linked.fits t).ticks created
    rw [events] at inTime ⊢
    rw [eq]
    refine (times.idle out).arm (Ktimer.armed_fits created ticks _ _) rfl ?_ (fun u inList => ?_) ?_
    · exact (timerTicksOk_iff.mp ticks).2.1
    · exact inTime _ mem_cons_self u inList fun same => out (same ▸ inList)
    · have pos : 0 < tickRange / 2 := by decide
      omega

/-- A stop leaves the others on time. -/
theorem cmdStop_onTime (times : OnTime none s h) (t : TimerId) :
    OnTime none (cmdStop s t) ((stopEvents s t).foldl .mark h) := by
  rcases cmdStop_cases s t times.linked with ⟨eq, out⟩ | ⟨inList, eq⟩
  · have nothing : stopEvents s t = [] := if_neg fun both => out (times.linked.mem_iff.mpr both.2)
    rwa [nothing, eq]
  have fits := times.linked.fits t
  have events : stopEvents s t = [.stopped t] := if_pos ⟨fits.created inList, fits.state.mp inList⟩
  have stopped : OnTime (some t) s (h.mark (.stopped t)) :=
    times.settle (times.pending t inList nofun).flush
  rw [events, eq]
  exact stopped.called.rest (Ktimer.disarmed_fits fits.ticks)

theorem cmdIdle_onTime (times : OnTime none s h) {f : Ktimer → Ktimer}
    (linked : Linked (cmdIdle s t f).head (cmdIdle s t f).timer) :
    OnTime none (cmdIdle s t f) h := by
  rcases cmdIdle_cases s t f with eq | ⟨-, idle, eq⟩
  · rwa [eq]
  · rw [eq] at linked ⊢
    exact ⟨linked, times.clocked.update (times.linked.not_mem.mpr idle) _, times.pending,
      times.settled⟩

/-- Every command keeps the timers on time. -/
theorem timerCmdProc_onTime {cmd : TimerCmd} (times : OnTime none s h) (ok : cmd.Ok)
    (fresh : h.count = h.now) (inTime : ∀ t n, .armed t n ∈ cmd.events s → s.NoneOverdue t) :
    OnTime none (timerCmdProc s cmd) ((cmd.events s).foldl .mark h) := by
  have linked := (timerCmdProc_commanded times.linked ok).linked
  cases cmd with
  | start t => exact cmdStart_onTime times fresh (inTime t)
  | stop t => exact cmdStop_onTime times t
  | chg =>
    simp only [timerCmdProc, cmdChg] at linked ⊢
    split at linked
    · next zero => rwa [if_pos zero]
    · next pos =>
      rw [if_neg pos]
      exact cmdIdle_onTime times linked
  | argChg | del t | dynDel t => exact cmdIdle_onTime times linked
  | argChgAuto t arg =>
    have stopped := cmdStop_onTime times t
    have changed : OnTime none (cmdArgChg (cmdStop s t) t arg) _ :=
      cmdIdle_onTime stopped (cmdArgChg_commanded stopped.linked t arg).linked
    -- the stop and the change of the argument touch nothing but the timer
    have done := (cmdStop_commanded times.linked t).trans (cmdArgChg_commanded stopped.linked t arg)
    have count := congrArg Timers.timerCount done.frame
    simp only [TimerCmd.events, foldl_append]
    refine cmdStart_onTime changed ?_ fun n armed u inList other => ?_
    · simp only [stopEvents]
      split <;> exact fresh
    · have record := done.other u other
      rw [done.linked.mem_iff, record, ← times.linked.mem_iff] at inList
      rw [count, record]
      exact inTime t n (mem_append_right _ armed) u inList other

/-! ## Steps -/

/-- The timer whose callback runs. -/
def TimerPc.calling : TimerPc → Option TimerId
  | callback t => some t
  | _ => none

structure TimersTimed (s : Timers) (h : TimerHistory) : Prop where
  ok : TimersOk s
  tick : s.tickCount = h.now % tickRange
  times : OnTime s.pc.calling s h
  reached : ∀ t, s.pc = .callback t → h.due t ≤ h.count
  waits : ∀ ticks, s.pc.timeout = some (some ticks) → ∀ t ∈ s.head,
    h.chosen < h.due t ∧ h.chosen + ticks ≤ h.due t
  forever : s.pc.timeout = some none → s.head = []

variable {s' : Timers} {h' : TimerHistory} {a : TimerLabel} {pc : TimerPc}
  {calling q : Option TimerId}

theorem TimerPc.calling_iff {pc : TimerPc} : pc.calling = some t ↔ pc = .callback t := by
  cases pc <;> simp [calling]

/-- The list is as before, and `timer_task` has at most been woken. -/
theorem TimersTimed.woken (timed : TimersTimed s h) (ok : TimersOk s')
    (tick : s'.tickCount = n % tickRange) (clocked : Clocked s' { h with now := n })
    (head : s'.head = s.head) (pc : s'.pc.calling = s.pc.calling ∧
      (s'.pc.timeout = none ∨ s'.pc.timeout = s.pc.timeout)) :
    TimersTimed s' { h with now := n } := by
  obtain ⟨calling, timeout⟩ := pc
  have before {ticks} (waits : s'.pc.timeout = some ticks) : s.pc.timeout = some ticks :=
    timeout.elim (fun none => nomatch none.symm.trans waits) (· ▸ waits)
  refine ⟨ok, tick, ⟨ok.linked, clocked, ?_, ?_⟩, fun t here => ?_, fun ticks waits => ?_,
    fun waits => ?_⟩
  · rw [head, calling]
    exact timed.times.pending
  · rw [head, calling]
    exact timed.times.settled
  · rw [← TimerPc.calling_iff, calling, TimerPc.calling_iff] at here
    exact timed.reached t here
  · rw [head]
    exact timed.waits ticks (before waits)
  · rw [head]
    exact timed.forever (before waits)

theorem TimersTimed.sameList (timed : TimersTimed s h) (ok : TimersOk s') (same : SameList s s') :
    TimersTimed s' h := by
  have clocked := timed.times.clocked
  refine timed.woken ok (same.tickCount.trans timed.tick)
    ⟨same.timerCount.trans clocked.count, clocked.le, fun t inList => ?_, ?_⟩ same.head ?_
  · rw [same.head] at inList
    rw [same.timer t inList]
    exact clocked.due t inList
  · rw [same.head]
    exact clocked.ordered
  · rcases same.pc with pc | ⟨ticks, left, cmd, inner, blocked, pc⟩
    · rw [pc]
      exact ⟨rfl, .inr rfl⟩
    · rw [pc, blocked]
      exact ⟨rfl, .inl rfl⟩

/-- A tick brings all timers closer. -/
theorem TimersTimed.ticked (timed : TimersTimed s h)
    (inRange : ∀ t ∈ s.head, h.now + 1 < h.due t + tickRange / 2) :
    TimersTimed (timerTick s) { h with now := h.now + 1 } := by
  have tick : (s.tickCount + 1) % tickRange = (h.now + 1) % tickRange := by
    rw [timed.tick, Nat.mod_add_mod]
  have clocked := timed.times.clocked
  refine timed.woken (timerTick_ok timed.ok) tick ⟨clocked.count, clocked.le.trans (Nat.le_succ _),
    fun t inList => ?_, clocked.ordered⟩ rfl ?_
  · have due := clocked.due t inList
    exact ⟨due.time, due.future, inRange t inList⟩
  · show s.pc.tick.calling = _ ∧ (s.pc.tick.timeout = _ ∨ s.pc.tick.timeout = _)
    rcases s.pc.tick_cases with pc | ⟨ticks, left, blocked, pc | ⟨left', pc⟩⟩
    · rw [pc]
      exact ⟨rfl, .inr rfl⟩
    · rw [pc, blocked]
      exact ⟨rfl, .inl rfl⟩
    · rw [pc, blocked]
      exact ⟨rfl, .inr rfl⟩

/-- What an action of `timer_task` notes: the events after the times that it reads. -/
theorem TimerHistory.note_task (s : Timers) (h : TimerHistory) :
    note s .task h = (TimerLabel.task.events s).foldl mark { h with
      count := if TimerLabel.task.setsCount s then h.now else h.count
      chosen := if s.pc = .loop then h.now else h.chosen } := by
  simp [note]

theorem TimerHistory.foldl_mark_now (events : List TimerEvent) (h : TimerHistory) :
    (events.foldl mark h).now = h.now := by
  induction events generalizing h with
  | nil => rfl
  | cons e _ ih =>
    rw [foldl_cons, ih]
    cases e <;> rfl

open TimerHistory TimerLabel

theorem OnTime.goto (times : OnTime calling s h) (queue : List TimerCmd) (pc : TimerPc)
    (chosen : Nat) : OnTime calling { s with queue, pc } { h with chosen } :=
  ⟨times.linked, ⟨times.clocked.count, times.clocked.le, times.clocked.due, times.clocked.ordered⟩,
    times.pending, times.settled⟩

/-- `g_timer_count` is set to the current time. -/
theorem OnTime.counted (times : OnTime calling s h) (tick : s.tickCount = h.now % tickRange) :
    OnTime calling { s with timerCount := s.tickCount } { h with count := h.now } :=
  ⟨times.linked, ⟨tick, le_rfl, fun t inList =>
    ⟨(times.clocked.due t inList).time, (times.clocked.due t inList).future.trans_le
      (Nat.add_le_add_right times.clocked.le _), (times.clocked.due t inList).past⟩,
    times.clocked.ordered⟩, times.pending, times.settled⟩

section

variable (timed : TimersTimed s h)
include timed

theorem TimersTimed.onTime (here : s.pc = pc) : OnTime pc.calling s h :=
  here ▸ timed.times

/-- `timer_task` goes on. -/
theorem TimersTimed.goes (eq : timerTask s = s') (noted : note s .task h = h')
    (tick : s'.tickCount = h'.now % tickRange) (times : OnTime s'.pc.calling s' h')
    (reached : ∀ t, s'.pc = .callback t → h'.due t ≤ h'.count)
    (waits : ∀ ticks, s'.pc.timeout = some (some ticks) → ∀ t ∈ s'.head,
      h'.chosen < h'.due t ∧ h'.chosen + ticks ≤ h'.due t)
    (forever : s'.pc.timeout = some none → s'.head = []) :
    TimersTimed (timerTask s) (note s .task h) := by
  have ok := timerTask_ok timed.ok
  rw [noted]
  rw [eq] at ok ⊢
  exact ⟨ok, tick, times, reached, waits, forever⟩

/-- A command is taken, or the task waits. -/
theorem TimersTimed.recv {ticks : Option Nat} (pc : s.pc = .recv ticks) :
    TimersTimed (timerTask s) (note s .task h) := by
  have note : note s .task h = h := by
    simp [note_task, events, setsCount, pc]
  have times : OnTime none s h := timed.onTime pc
  cases queue : s.queue with
  | cons cmd rest =>
    have eq : timerTask s = { s with queue := rest, pc := .received (some cmd) ticks.isSome } := by
      simp only [timerTask, pc, queue]
    exact timed.goes eq note timed.tick (times.goto rest _ h.chosen) nofun nofun nofun
  | nil =>
    have eq : timerTask s = { s with pc := .blocked ticks (ticks.getD 0) } := by
      simp only [timerTask, pc, queue]
    have waits := timed.waits
    have forever := timed.forever
    rw [pc] at waits forever
    exact timed.goes eq note timed.tick (times.goto s.queue _ h.chosen) nofun waits forever

/-- A command may arm a timer. -/
theorem TimersTimed.received {cmd : Option TimerCmd} {inner : Bool}
    (pc : s.pc = .received cmd inner) (inTime : task.InsertsInTime s) :
    TimersTimed (timerTask s) (note s .task h) := by
  have eq : timerTask s = timerReceived s cmd inner := by simp only [timerTask, pc]
  have times : OnTime none s h := timed.onTime pc
  have counted := times.counted timed.tick
  have note : note s .task h = (task.events s).foldl mark { h with count := h.now } := by
    simp [note_task, setsCount, pc]
  have now : (TimerHistory.note s .task h).now = h.now := by
    rw [note]
    exact foldl_mark_now _ _
  have tick : (timerReceived s cmd inner).tickCount = s.tickCount := by
    obtain ⟨_, done⟩ := received_commanded timed.ok pc
    have same := congrArg Timers.tickCount done.frame
    exact same
  have times' : OnTime none (timerReceived s cmd inner) (TimerHistory.note s .task h) := by
    rw [note]
    cases cmd with
    | none =>
      simp only [events, pc]
      exact counted.goto s.queue _ h.chosen
    | some cmd =>
      have events : task.events s = cmd.events { s with timerCount := s.tickCount } := by
        simp only [events, pc]
      have count : s.insertCount = s.tickCount := by
        simp only [Timers.insertCount, pc]
      have checked : cmd.Ok := timed.ok.cmds cmd (by rw [Timers.cmds, pc]; exact mem_cons_self)
      have processed := timerCmdProc_onTime counted checked rfl fun t n armed => by
        have early : (TimerEvent.armed t n).InTime s := inTime _ (events ▸ armed)
        rwa [TimerEvent.InTime, count] at early
      rw [events]
      exact processed.goto _ _ _
  have tick' : (timerReceived s cmd inner).tickCount = _ % tickRange :=
    tick.trans (now.symm ▸ timed.tick)
  cases inner with
  | true | false =>
    refine timed.goes eq rfl tick' times' ?_ ?_ ?_
    · rintro _ ⟨⟩
    · rintro _ ⟨⟩
    · rintro ⟨⟩

/-- The first timer is looked at. -/
theorem TimersTimed.looped (pc : s.pc = .loop) : TimersTimed (timerTask s) (note s .task h) := by
  have times : OnTime none s h := timed.onTime pc
  have clocked := times.clocked
  cases head : s.head with
  | nil =>
    have eq : timerTask s = { s with pc := .recv none } := by simp only [timerTask, pc, head]
    have note : note s .task h = { h with chosen := h.now } := by
      simp [note_task, events, setsCount, pc, head]
    exact timed.goes eq note timed.tick (times.goto s.queue _ _) nofun nofun fun _ => head
  | cons t rest =>
    have inList : t ∈ s.head := head ▸ mem_cons_self
    have due := clocked.due t inList
    have future : h.due t < h.now + tickRange / 2 :=
      due.future.trans_le (Nat.add_le_add_right clocked.le _)
    have expired := tickExpired_iff due.past future
    rw [← due.time, ← timed.tick] at expired
    by_cases isDue : tickExpired (s.timer t).timerMatch s.tickCount = true
    · have eq : timerTask s = { s with timerCount := s.tickCount, pc := .scan (some t) } := by
        simp only [timerTask, pc, head, isDue, if_true]
      have note : note s .task h = { h with count := h.now, chosen := h.now } := by
        simp [note_task, events, setsCount, pc, head, isDue]
      exact timed.goes eq note timed.tick ((times.counted timed.tick).goto s.queue _ _) nofun nofun
        nofun
    · -- the first timer is the earliest, so the wait is short enough for all
      have later : h.now < h.due t := not_le.mp (mt expired.mpr isDue)
      have wait : tickSub (s.timer t).timerMatch s.tickCount = h.due t - h.now := by
        rw [due.time, timed.tick]
        exact tickSub_of_le later.le (future.trans_le (Nat.add_le_add_left (Nat.div_le_self ..) _))
      have eq : timerTask s = { s with pc := .recv (some (h.due t - h.now)) } := by
        rw [← wait]
        simp only [timerTask, pc, head, isDue, Bool.false_eq_true, if_false]
      have note : note s .task h = { h with chosen := h.now } := by
        simp [note_task, events, setsCount, pc, head, isDue]
      have first : ∀ u ∈ s.head, h.due t ≤ h.due u := by
        have ordered := clocked.ordered
        rw [head] at ordered ⊢
        exact forall_mem_cons.mpr ⟨le_rfl, (pairwise_cons.mp ordered).1⟩
      refine timed.goes eq note timed.tick (times.goto s.queue _ _) nofun
        (fun n waits u inList => ?_) nofun
      have le := first u inList
      cases waits
      dsimp only
      omega

theorem TimersTimed.scanned (pc : s.pc = .scan q) : TimersTimed (timerTask s) (note s .task h) := by
  have times : OnTime none s h := timed.onTime pc
  have clocked := times.clocked
  -- the scan ends: at the head of the list, or at a timer that is not due
  have ends (eq : timerTask s = { s with pc := .loop }) (note : note s .task h = h) :=
    timed.goes eq note timed.tick (times.goto s.queue _ h.chosen) nofun nofun nofun
  cases q
  case none =>
    refine ends (by simp only [timerTask, pc]) ?_
    simp [note_task, events, setsCount, pc]
  case some t =>
  have inList : t ∈ s.head := timed.ok.node t (by rw [pc]; rfl)
  have due := clocked.due t inList
  have expired := tickExpired_iff (clocked.le.trans_lt due.past) due.future
  rw [← due.time, ← clocked.count] at expired
  by_cases isDue : tickExpired (s.timer t).timerMatch s.timerCount = true
  · have eq : timerTask s = { s with pc := .callback t } := by
      simp only [timerTask, pc, isDue, if_true]
    have note : note s .task h = h.mark (.called t) := by
      simp [note_task, events, setsCount, pc, isDue]
    have called : OnTime (some t) s (h.mark (.called t)) :=
      times.settle ((times.pending t inList nofun).take ())
    refine timed.goes eq note timed.tick (called.goto s.queue _ h.chosen) (fun u here => ?_) nofun
      nofun
    cases here
    exact expired.mp isDue
  · refine ends (by simp only [timerTask, pc, isDue, Bool.false_eq_true, if_false]) ?_
    simp [note_task, events, setsCount, pc, isDue]

/-- A periodic timer is armed again. -/
theorem TimersTimed.returned (pc : s.pc = .callback t) (inTime : task.InsertsInTime s) :
    TimersTimed (timerTask s) (note s .task h) := by
  have inList : t ∈ s.head := timed.ok.node t (by rw [pc]; rfl)
  have eq : timerTask s = timerCbReturn s t := by simp only [timerTask, pc]
  have times : OnTime (some t) s h := timed.onTime pc
  have fits := times.linked.fits t
  have ticks := fits.ticks (fits.created inList)
  rw [timerCbReturn_eq times.linked inList] at eq
  by_cases again : (s.timer t).roundTicks > 0
  · have events : task.events s = [.armed t (s.timer t).roundTicks] := by
      simp only [events, pc, if_pos again]
    have note : note s .task h = h.mark (.armed t (s.timer t).roundTicks) := by
      simp [note_task, setsCount, events, pc]
    have count : s.insertCount = s.timerCount := by
      simp only [Timers.insertCount, pc]
    have early : (TimerEvent.armed t (s.timer t).roundTicks).InTime s :=
      inTime _ (events ▸ mem_cons_self)
    rw [TimerEvent.InTime, count] at early
    have armed := times.called.arm
      (Ktimer.armed_fits (fits.created inList) ticks _ _) rfl (timerTicksOk_iff.mp ticks).2.2
      (fun u inList => early u (mem_of_mem_erase inList) fun same =>
        times.linked.nodup.not_mem_erase (same ▸ inList)) (by
          have past := (times.clocked.due t inList).past
          have reached := timed.reached t pc
          omega)
    rw [if_pos again] at eq
    exact timed.goes eq note timed.tick (armed.goto s.queue _ h.chosen) nofun nofun nofun
  · have note : note s .task h = h := by
      simp [note_task, events, setsCount, pc, again]
    rw [if_neg again] at eq
    have rest := times.called.rest (Ktimer.disarmed_fits fits.ticks)
    exact timed.goes eq note timed.tick (rest.goto s.queue _ h.chosen) nofun nofun nofun

/-- Every step keeps the timers on time. -/
theorem TimersTimed.step (may : a.Allowed s) (inTime : a.InsertsInTime s)
    (inRange : a.InRange s h) : TimersTimed (a.step s) (note s a h) := by
  cases a with
  | tick =>
    have note : note s .tick h = { h with now := h.now + 1 } := by
      simp [note, events, setsCount]
    rw [note]
    exact timed.ticked (inRange rfl)
  | call c =>
    have note : note s (.call c) h = h := by
      simp [note, events, setsCount]
    rw [note]
    have called := TimerCall.exec_called timed.ok may
    exact timed.sameList called.ok called.list
  | task =>
    cases pc : s.pc with
    | recv => exact timed.recv pc
    | blocked =>
      have stays : timerTask s = s := by simp only [timerTask, pc]
      have note : note s .task h = h := by
        simp [note_task, events, setsCount, pc]
      rwa [note, step, stays]
    | received => exact timed.received pc inTime
    | loop => exact timed.looped pc
    | scan => exact timed.scanned pc
    | callback => exact timed.returned pc inTime

end

theorem initial_timersTimed : TimersTimed {} {} :=
  ⟨initial_timersOk, rfl, ⟨initial_timersOk.linked, ⟨rfl, le_rfl, nofun, .nil⟩, nofun,
    fun _ _ => Mailbox.delivers_nil⟩, nofun, nofun, fun _ => rfl⟩

/-! ## Runs -/

/-- If no timer is ever overdue when another is inserted, the list is in order, each time for which
a timer is armed is dealt with once, and `timer_task` never waits longer than until the first timer
is due. -/
theorem timers_onTime {p : Timers × TimerHistory} (reach : (timerClock.restrict fun p a =>
      a.InsertsInTime p.1 ∧ a.InRange p.1 p.2).Reach p) : TimersOnTime p.1 p.2 := by
  have timed : TimersTimed p.1 p.2 := by
    refine reach.invariant (P := fun p => TimersTimed p.1 p.2) ?_ ?_
    · rintro ⟨s, h⟩ ⟨start, rfl⟩
      cases start
      exact initial_timersTimed
    · rintro ⟨s, h⟩ a timed ⟨may, inTime, inRange⟩
      exact timed.step may inTime inRange
  refine ⟨fun t => timed.ok.linked.mem_iff, timed.times.clocked.ordered, fun t inList other => ?_,
    fun t out => ?_, timed.reached, timed.waits, timed.forever⟩
  · exact timed.times.pending t inList fun calling => other (TimerPc.calling_iff.mp calling)
  · exact timed.times.settled t (out.imp_right TimerPc.calling_iff.mpr)

/-- Two timers are due at the same tick, one of them periodic. -/
def dueTogether : List TimerLabel :=
  [.call (.create 1 .user 5 7 0 true), .call (.create 2 .user 5 0 0 true)] ++
    .replicate 8 .task ++ .replicate 5 .tick ++ .replicate 11 .task

/-- Both callbacks have run when `timer_task` waits for the next period. -/
theorem timers_onTime_dueTogether :
    ((timerClock.run ({}, {}) dueTogether).1.pc = .blocked (some 7) 7 ∧
      ((timerClock.run ({}, {}) dueTogether).2.box 1).fates = [.received [((), 5)]] ∧
      ((timerClock.run ({}, {}) dueTogether).2.box 2).fates = [.received [((), 5)]]) ∧
      TimersOnTime (timerClock.run ({}, {}) dueTogether).1
        (timerClock.run ({}, {}) dueTogether).2 :=
  have start : (timerClock.restrict fun p a =>
      a.InsertsInTime p.1 ∧ a.InRange p.1 p.2).Reach ({}, {}) := .init ⟨rfl, rfl⟩
  ⟨by decide +kernel, timers_onTime (start.run (by decide +kernel))⟩

/-- A timer is started when another has been due for two ticks. -/
def startedLate : List TimerLabel :=
  [.call (.create 1 .user 5 0 0 true), .task, .task, .task, .task] ++ .replicate 4 .tick ++
    [.call (.create 2 .user 10 0 0 true)] ++ .replicate 3 .tick ++ [.task, .task, .task]

/-- `timer_task` waits ten ticks for the timer just started while the other is due. -/
theorem not_timers_onTime : ¬ ∀ p, timerClock.Reach p → TimersOnTime p.1 p.2 := by
  intro onTime
  have start : timerClock.Reach ({}, {}) := .init ⟨rfl, rfl⟩
  have ok := onTime _ (start.run (show timerClock.Runs _ startedLate by decide +kernel))
  have late := (ok.waits 10 (by decide +kernel) 1 (by decide +kernel)).1
  have chosen : (timerClock.run ({}, {}) startedLate).2.chosen = 7 := by decide +kernel
  have due : (timerClock.run ({}, {}) startedLate).2.due 1 = 5 := by decide +kernel
  rw [chosen, due] at late
  exact absurd late (by decide)

end AliosThings.Rhino
