import AliosThings.Rhino.Delay

/-!
# Delayed works are started, and cancelled works stay out

A submission of a delayed work is a command to `timer_task`, then an active timer, then a work in a
list, then a work about to be started: one of them stands for it until the handler is called. The
chain breaks in `work_timer_cb` only, when the timer expires while the handler runs.
-/

namespace AliosThings.Rhino

open Lib Function List WorkLabel

/-- The delayed work whose `krhino_work_run` returns `RHINO_SUCCESS` in a step. -/
def WorkLabel.posts (s : Works) : WorkLabel → Option WorkId
  | resume (.post q w) => if ((WorkCall.post q w).resume s).1 = .success then some w else none
  | _ => none

/-- Which delayed works `krhino_work_run` has accepted since their handlers were called last. -/
def noteOwed (s : Works) (a : WorkLabel) (owed : WorkId → Bool) : WorkId → Bool := fun w =>
  if a.posts s = some w then true
  else if (a.starts s).map (·.2) = some w then false
  else owed w

def WorkLabel.isCancel : WorkLabel → Bool
  | cancel _ => true
  | _ => false

/-- Work queues without cancellation, with the works that have to be started. -/
abbrev delayLog : System (Works × (WorkId → Bool)) WorkLabel :=
  (workSystem.observed (fun _ => false) noteOwed).restrict fun _ a => a.isCancel = false

/-- No command is queued, no timer of a work is active, the lists are empty and no handler runs. -/
structure Works.Quiescent (s : Works) : Prop where
  cmds : s.timers.cmds = []
  timers : ∀ w t, (s.work w).timer = some t → (s.timers.timer t).timerState = .deactive
  lists : ∀ q, (s.wq q).workList = []
  workers : ∀ q w, (s.wq q).worker ≠ .starting w ∧ (s.wq q).worker ≠ .running w

/-- No timer expires while the handler of its work runs. -/
def WorkLabel.ExpiresIdle (s : Works) (a : WorkLabel) : Prop :=
  ∀ t, a.fires s t = true →
    (s.wq (s.timers.timer t).timerCbArg).worker ≠ .running (s.timers.timer t).priv

/-- `work_current` is the work that the worker starts or runs. -/
def Kworkqueue.CurrentOk (k : Kworkqueue) : Prop :=
  ∀ w, k.workCurrent = some w → k.worker = .starting w ∨ k.worker = .running w

/-- The delay of a work whose start is not due yet. -/
def Delay.Waits (d : Delay) : Prop :=
  (∃ t q, .argChgAuto t q ∈ d.cmds) ∨ (d.active = true ∧ d.fired = false)

structure DelayOk (s : Works) (owed : WorkId → Bool) : Prop where
  ok : WorksOk s
  current : ∀ q, (s.wq q).CurrentOk
  uncancelled : ∀ w q, .cancel w q ∉ s.calls
  unstopped : ∀ w t, (s.work w).timer = some t → .stop t ∉ (s.delay t).cmds
  pending : ∀ w, owed w = true → s.Held w ∨ ∃ t, (s.work w).timer = some t ∧ (s.delay t).Waits

variable {s s' : Works} {w : WorkId} {t : TimerId} {owed : WorkId → Bool} {a : WorkLabel}
  {k k' : Kworkqueue}

theorem semGive_current (ok : k.CurrentOk) : k.semGive.2.CurrentOk := by
  unfold Kworkqueue.semGive
  split
  · next waits =>
    intro w current
    rcases ok w current with starts | runs
    · cases waits.symm.trans starts
    · cases waits.symm.trans runs
  · split <;> exact ok

/-- Every step keeps `work_current` right. -/
theorem QueueStep.current {g g' : Nat} {linked started : List WorkId}
    (step : QueueStep k g k' g' linked started) (ok : k.CurrentOk) : k'.CurrentOk := by
  cases step with
  | rest | link => exact ok
  | create | finish => exact nofun
  | give => exact semGive_current ok
  | take exist pc | wait exist pc =>
    intro w current
    rcases ok w current with starts | runs
    · cases pc.symm.trans starts
    · cases pc.symm.trans runs
  | dequeue =>
    intro w current
    cases current
    exact .inl rfl
  | start _ pc =>
    intro w current
    rcases ok w current with starts | runs
    · rw [pc] at starts
      cases starts
      exact .inr rfl
    · cases pc.symm.trans runs

/-- A delay that is not stopped goes on. -/
theorem DelayStep.waits {d d' : Delay} {sent : List TimerCmd} {fires : Bool}
    (step : DelayStep d d' sent fires) (unstopped : ∀ t, .stop t ∉ d.cmds) (waits : d.Waits)
    (unfired : fires = false) : d'.Waits := by
  cases step with
  | rest => exact waits
  | send =>
    refine waits.imp (fun ⟨t, q, among⟩ => ⟨t, q, mem_append_left _ among⟩) id
  | change => exact .inr ⟨rfl, rfl⟩
  | stop => exact absurd mem_cons_self (unstopped _)
  | fire => cases unfired
  | returns => exact waits.imp id fun both => by cases both.2

/-- The timer of a work expires while its handler does not run: the work is linked, if it was not
waiting in a queue. -/
theorem DelayOk.fires (delay : DelayOk s owed) (had : (s.work w).timer = some t)
    (fires : a.fires s t = true) (idle : a.ExpiresIdle s) :
    s.Held w ∨ ∃ q, a.links s = some (q, w) := by
  cases a with
  | timerTask =>
    have both : s.calling = some t ∧ s.cb = .start := by
      simpa only [WorkLabel.fires, decide_eq_true_eq] using fires
    obtain ⟨priv, -⟩ := (delay.ok.timers.owned w t had).2.record.armed (delay.ok.active both.1)
    have notRunning := idle t fires
    rw [priv] at notRunning
    by_cases current : (s.wq (s.timers.timer t).timerCbArg).workCurrent = some w
    · left
      refine ⟨_, mem_append_left _ (?_ : w ∈ (s.wq (s.timers.timer t).timerCbArg).worker.next)⟩
      rcases delay.current _ w current with starts | runs
      · rw [starts]
        exact mem_singleton_self w
      · exact absurd runs notRunning
    · cases exit : (s.work w).workExit with
      | true =>
        left
        obtain ⟨q, inList⟩ := (delay.ok.members.exit w).mp exit
        exact ⟨q, mem_append_right _ inList⟩
      | false =>
        refine .inr ⟨(s.timers.timer t).timerCbArg, ?_⟩
        simp only [links, both.1, both.2, priv, ne_eq, current, exit, not_false_eq_true,
          and_self, if_true]
  | _ => cases fires

/-- A delayed post arms the timer. -/
theorem posts_sends (ok : WorksOk s) (may : a.Allowed s) (posts : a.posts s = some w) :
    ∃ t q, (s.work w).timer = some t ∧ a.sends s t = [.argChgAuto t q] := by
  cases a with
  | resume c =>
    cases c with
    | post q =>
      simp only [WorkLabel.posts] at posts
      split at posts
      · next success =>
        cases posts
        obtain ⟨-, t, had, -⟩ := ok.timers.posts q w may
        refine ⟨t, q, had, ?_⟩
        simp only [WorkLabel.sends, had, success, and_self, if_true]
      · cases posts
    | _ => cases posts
  | _ => cases posts

/-- Every step keeps account of the works that are owed. -/
theorem DelayOk.step (delay : DelayOk s owed) (may : a.Allowed s) (kept : a.isCancel = false)
    (idle : a.ExpiresIdle s) : DelayOk (a.step s) (noteOwed s a owed) := by
  have steps := step_works delay.ok may
  refine ⟨step_worksOk delay.ok may, fun q => (steps.queue q).current (delay.current q),
    fun w q inCalls => ?_, fun w t has stop => ?_, fun w owes => ?_⟩
  · rcases (acts may).calls inCalls with before | ⟨_, _, -, eq | eq⟩ | ⟨v, rfl, -⟩
    · exact delay.uncancelled w q before
    · cases eq
    · cases eq
    · cases kept
  · rcases (acts may).timer_cases delay.ok may has with had | new
    · rcases ((acts may).delay delay.ok may had).2.mem stop with before | now
      · exact delay.unstopped w t had before
      · unfold WorkLabel.sends at now
        split at now
        · split at now
          · cases mem_singleton.mp now
          · cases now
        · exact delay.uncancelled _ _ may
        · cases now
    · rw [new] at stop
      cases stop
  · unfold noteOwed at owes
    split at owes
    · next posts =>
      obtain ⟨t, q, had, sends⟩ := posts_sends delay.ok may posts
      obtain ⟨has, step⟩ := (acts may).delay delay.ok may had
      exact .inr ⟨t, has, .inl ⟨t, q, mem_of_getLast? (step.sent sends)⟩⟩
    split at owes
    · cases owes
    · next started =>
      have unstarted : ∀ q, a.starts s ≠ some (q, w) := fun q starts =>
        started (by rw [starts]; rfl)
      rcases delay.pending w owes with held | ⟨t, had, waits⟩
      · exact .inl (steps.held delay.ok (.inl held) unstarted)
      obtain ⟨has, step⟩ := (acts may).delay delay.ok may had
      cases fires : a.fires s t with
      | true => exact .inl (steps.held delay.ok (delay.fires had fires idle) unstarted)
      | false =>
        refine .inr ⟨t, has, step.waits (fun u among => ?_) waits fires⟩
        obtain rfl : u = t := mem_delay among
        exact delay.unstopped w u had among

theorem initial_delayOk : DelayOk {} fun _ => false :=
  ⟨initial_worksOk, fun _ => nofun, nofun, nofun, nofun⟩

/-- When nothing is under way, nothing is owed. -/
theorem DelayOk.quiescent (delay : DelayOk s owed) (quiet : s.Quiescent) (w : WorkId) :
    owed w = false := by
  refine Bool.eq_false_iff.mpr fun owes => ?_
  rcases delay.pending w owes with ⟨q, held⟩ | ⟨t, had, waits⟩
  · rw [quiet.lists q, append_nil] at held
    cases worker : (s.wq q).worker with
    | starting v => exact (quiet.workers q v).1 worker
    | _ =>
      rw [worker] at held
      cases held
  · rcases waits with ⟨u, q, among⟩ | ⟨active, -⟩
    · have none : (s.delay t).cmds = [] := by rw [Works.delay, quiet.cmds, filter_nil]
      rw [none] at among
      cases among
    · have idle := quiet.timers w t had
      simp only [Works.delay, idle, reduceCtorEq, decide_false] at active

/-! ## Runs -/

/-- Delayed works whose timers do not expire while their handlers run are not lost. -/
theorem delayedWork_started {p : Works × (WorkId → Bool)}
    (reach : (delayLog.restrict fun p a => a.ExpiresIdle p.1).Reach p) (quiet : p.1.Quiescent)
    (w : WorkId) : p.2 w = false := by
  have delay : DelayOk p.1 p.2 := by
    refine reach.invariant (P := fun p => DelayOk p.1 p.2) ?_ ?_
    · rintro ⟨s, owed⟩ ⟨start, rfl⟩
      cases start
      exact initial_delayOk
    · rintro ⟨s, owed⟩ a delay ⟨⟨may, kept⟩, idle⟩
      exact delay.step may kept idle
  exact delay.quiescent quiet w

instance (s : Works) (a : WorkLabel) : Decidable (a.ExpiresIdle s) :=
  decidable_of_iff (∀ t ∈ s.calling, a.fires s t = true →
      (s.wq (s.timers.timer t).timerCbArg).worker ≠ .running (s.timers.timer t).priv) <| by
    refine ⟨fun idle t fires => idle t ?_ fires, fun idle t _ => idle t⟩
    cases a with
    | timerTask => exact (of_decide_eq_true fires).1
    | _ => cases fires

theorem quiescent_of_zero (cmds : s.timers.cmds = [])
    (timer : (s.work 0).timer = some 0 ∧ (s.timers.timer 0).timerState = .deactive)
    (noTimer : ∀ w, (s.work (w + 1)).timer = none)
    (queue : (s.wq 0).workList = [] ∧ (s.wq 0).worker = .take)
    (queues : ∀ q, (s.wq (q + 1)).workList = [] ∧ (s.wq (q + 1)).worker = .take) : s.Quiescent := by
  have all : ∀ q, (s.wq q).workList = [] ∧ (s.wq q).worker = .take
    | 0 => queue
    | q + 1 => queues q
  refine ⟨cmds, fun w t had => ?_, fun q => (all q).1, fun q w => ?_⟩
  · cases w with
    | zero =>
      cases timer.1.symm.trans had
      exact timer.2
    | succ w => cases (noTimer w).symm.trans had
  · rw [(all q).2]
    exact ⟨nofun, nofun⟩

/-- The work is run, its command is processed, the timer expires and `work_timer_cb` returns. -/
def delayPasses : List WorkLabel :=
  [.run 0 0, .resume (.post 0 0), .timerTask, .timerTask, .timerTask, .tick, .timerTask, .timerTask,
    .timerTask, .timerTask, .timerTask, .timerTask, .timerTask, .timerTask]

/-- A work with a delay of one tick is run once, and its handler is called. -/
def startsLater : List WorkLabel :=
  [.create 0 20 100, .init 0 1 (some 0), .timerTask] ++ delayPasses ++
    [.worker 0, .worker 0, .worker 0]

set_option maxRecDepth 20000 in
theorem delayedWork_started_startsLater :
    (delayLog.run ({}, fun _ => false) (startsLater ++ [.worker 0])).1.Quiescent ∧
      (delayLog.run ({}, fun _ => false) (startsLater ++ [.worker 0])).2 0 = false := by
  have quiet : (delayLog.run ({}, fun _ => false) (startsLater ++ [.worker 0])).1.Quiescent :=
    quiescent_of_zero (by decide +kernel) (by decide +kernel) (fun _ => rfl) (by decide +kernel)
      fun _ => ⟨rfl, rfl⟩
  have start : (delayLog.restrict fun p a => a.ExpiresIdle p.1).Reach ({}, fun _ => false) :=
    .init ⟨rfl, rfl⟩
  have runs : (delayLog.restrict fun p a => a.ExpiresIdle p.1).Runs ({}, fun _ => false)
      (startsLater ++ [.worker 0]) := by
    decide +kernel
  exact ⟨quiet, delayedWork_started (start.run runs) quiet 0⟩

/-- The work is run again by its handler, and the delay passes before the handler returns: nothing
is under way any more, and the second start is owed. -/
def runAgain : List WorkLabel := startsLater ++ delayPasses ++ [.worker 0]

set_option maxRecDepth 20000 in
/-- Nothing is left that could start the work again. -/
theorem not_delayedWork_started : delayLog.Runs ({}, fun _ => false) runAgain ∧
    (delayLog.run ({}, fun _ => false) runAgain).1.Quiescent ∧
    (delayLog.run ({}, fun _ => false) runAgain).2 0 = true :=
  ⟨by decide +kernel,
    quiescent_of_zero (by decide +kernel) (by decide +kernel) (fun _ => rfl) (by decide +kernel)
      fun _ => ⟨rfl, rfl⟩,
    by decide +kernel⟩

/-! ## Cancelled works

`krhino_work_cancel` stops the timer of a work only if `work->wq` is `NULL`, which it is not after
an earlier run, and it does not see a submission that is between two critical sections. -/

open Option

/-- The work whose `krhino_work_cancel` returns `RHINO_SUCCESS` in a step. -/
def WorkLabel.cancels (s : Works) : WorkLabel → Option WorkId
  | resume (.cancel w wq) =>
    if ((WorkCall.cancel w wq).resume s).1 = .success then some w else none
  | _ => none

def WorkLabel.runs : WorkLabel → Option WorkId
  | run _ w => some w
  | _ => none

/-- For a work that was cancelled and has not been run since, how many of the commands that were
queued at that time `timer_task` has not processed. -/
def noteCancelled (s : Works) (a : WorkLabel) (cancelled : WorkId → Option Nat) :
    WorkId → Option Nat := fun w =>
  if a.runs = some w then none
  else if a.cancels s = some w then some (a.step s).timers.cmds.length
  else (cancelled w).map (· - (s.timers.cmds.length - (a.step s).timers.cmds.length))

/-- Work queues with the works that are cancelled. -/
abbrev cancelLog : System (Works × (WorkId → Option Nat)) WorkLabel :=
  workSystem.observed (fun _ => none) noteCancelled

/-- The timer will not fire before a further command starts it, unless it fires early. -/
def Delay.Stopped (d : Delay) : Prop :=
  (∃ t, d.cmds.getLast? = some (.stop t)) ∨ (d.cmds = [] ∧ (d.active = true → d.fired = true))

/-- Nothing of the work is under way when `krhino_work_cancel` succeeds but what it stops. -/
structure CancelsAll (s : Works) (w : WorkId) (wq : Option WqId) : Prop where
  posts : ∀ q, .post q w ∉ s.calls
  held : ¬s.Held w
  timer : ∀ t, (s.work w).timer = some t →
    (wq = none ∧ (s.work w).dly > 0 ∧ (timerSend s.timers (.stop t)).1 = .success) ∨
      (s.delay t).Stopped

/-- Calls of `krhino_work_cancel` that succeed meet nothing they do not stop, and no timer expires
while a command to stop it is queued. -/
structure WorkLabel.CancelsInTime (s : Works) (a : WorkLabel) : Prop where
  cancels : ∀ w wq, a = .resume (.cancel w wq) → a.cancels s = some w → CancelsAll s w wq
  fires : ∀ t, a.fires s t = true → .stop t ∉ s.timers.cmds

/-- What is left of a cancelled work. -/
structure Cancelled (s : Works) (w : WorkId) : Prop where
  posts : ∀ q, .post q w ∉ s.calls
  held : ¬s.Held w
  timer : ∀ t, (s.work w).timer = some t → (s.delay t).Stopped

variable {q : WqId}

theorem WorkLabel.fires_active (ok : WorksOk s) (fires : a.fires s t = true) :
    (s.delay t).active = true ∧ (s.delay t).fired = false ∧
      (s.work (s.timers.timer t).priv).timer = some t := by
  cases a with
  | timerTask =>
    have both : s.calling = some t ∧ s.cb = .start := of_decide_eq_true fires
    refine ⟨decide_eq_true (ok.active both.1), decide_eq_false fun fired => fired.2 both.2, ?_⟩
    exact (ok.timers.calling both.1).2.1
  | _ => cases fires

/-- A timer that is stopped does not fire. -/
theorem Delay.Stopped.not_fires (stopped : (s.delay t).Stopped) (ok : WorksOk s)
    (fires : a.fires s t = true) (inTime : .stop t ∉ s.timers.cmds) : False := by
  obtain ⟨active, unfired, -⟩ := fires_active ok fires
  rcases stopped with ⟨u, last⟩ | ⟨-, fired⟩
  · have among := mem_of_getLast? last
    obtain rfl : u = t := mem_delay among
    exact inTime (mem_of_mem_filter among)
  · exact Bool.false_ne_true (unfired.symm.trans (fired active))

/-- A stopped delay stays stopped. -/
theorem DelayStep.stopped {d d' : Delay} {sent : List TimerCmd} {fires : Bool}
    (step : DelayStep d d' sent fires) (stopped : d.Stopped)
    (stops : ∀ cmd ∈ sent, ∃ t, cmd = .stop t) (unfired : fires = false) : d'.Stopped := by
  cases step with
  | rest => exact stopped
  | send =>
    obtain ⟨t, rfl⟩ := stops _ (mem_singleton_self _)
    exact .inl ⟨t, getLast?_concat⟩
  | @change _ _ cmds =>
    rcases stopped with ⟨u, last⟩ | ⟨none, -⟩
    · cases cmds with
      | nil => cases last
      | cons => exact .inl ⟨u, last⟩
    · cases none
  | @stop _ cmds =>
    cases cmds with
    | nil => exact .inr ⟨rfl, nofun⟩
    | cons =>
      rcases stopped with ⟨u, last⟩ | ⟨none, -⟩
      · exact .inl ⟨u, last⟩
      · cases none
  | fire => cases unfired
  | returns => exact stopped.imp id fun both => ⟨both.1, nofun⟩

/-- A step links a work for `krhino_work_run`, or because its timer fires. -/
theorem WorkLabel.links_cases (links : a.links s = some (q, w)) :
    a = .run q w ∨ ∃ t, a.fires s t = true ∧ (s.timers.timer t).priv = w := by
  unfold WorkLabel.links at links
  split at links
  · split at links
    · cases links
      exact .inl rfl
    · cases links
  · split at links
    · next t calling cb =>
      dsimp only at links
      split at links
      · cases links
        exact .inr ⟨t, decide_eq_true ⟨calling, cb⟩, rfl⟩
      · cases links
    · cases links
  · cases links

/-- A command for the timer of a work is sent by a call for this work. -/
theorem WorkLabel.sends_cases (ok : WorksOk s) (had : (s.work w).timer = some t) {cmd : TimerCmd}
    (sends : cmd ∈ a.sends s t) : (∃ q, a = .resume (.post q w)) ∨ cmd = .stop t := by
  unfold WorkLabel.sends at sends
  split at sends
  · next q v =>
    split at sends
    · next both =>
      obtain rfl := ok.timers.unique v w t both.1 had
      exact .inl ⟨q, rfl⟩
    · cases sends
  · split at sends
    · exact .inr (mem_singleton.mp sends)
    · cases sends
  · cases sends

/-- A cancelled work stays as it is until it is run. -/
theorem Cancelled.step (cancelled : Cancelled s w) (ok : WorksOk s) (may : a.Allowed s)
    (inTime : ∀ t, a.fires s t = true → .stop t ∉ s.timers.cmds) (unrun : a.runs ≠ some w) :
    Cancelled (a.step s) w := by
  refine ⟨fun q posted => ?_, fun held => ?_, fun t has => ?_⟩
  · rcases (acts may).calls posted with before | ⟨q', v, rfl, kind⟩ | ⟨v, -, eq⟩
    · exact cancelled.posts q before
    · rcases kind with eq | eq
      · cases eq
      · cases eq
        exact unrun rfl
    · cases eq
  · rcases (step_works ok may).held_of ok held with before | ⟨q, links⟩
    · exact cancelled.held before
    · rcases links_cases links with rfl | ⟨t, fires, rfl⟩
      · exact unrun rfl
      · obtain ⟨-, -, had⟩ := fires_active ok fires
        exact (cancelled.timer t had).not_fires ok fires (inTime t fires)
  · rcases (acts may).timer_cases ok may has with had | new
    · have stopped := cancelled.timer t had
      refine ((acts may).delay ok may had).2.stopped stopped (fun cmd sends => ?_) ?_
      · rcases sends_cases ok had sends with ⟨q, rfl⟩ | rfl
        · exact absurd may (cancelled.posts q)
        · exact ⟨t, rfl⟩
      · exact Bool.eq_false_iff.mpr fun fires => stopped.not_fires ok fires (inTime t fires)
    · rw [new]
      exact .inr ⟨rfl, nofun⟩

/-- A work that `krhino_work_cancel` cancels. -/
theorem CancelsAll.cancelled {wq : Option WqId} (all : CancelsAll s w wq) (ok : WorksOk s)
    (may : (resume (.cancel w wq)).Allowed s) : Cancelled ((resume (.cancel w wq)).step s) w := by
  refine ⟨fun q posted => ?_, fun held => ?_, fun t has => ?_⟩
  · rcases (acts may).calls posted with before | ⟨q', v, eq, -⟩ | ⟨v, eq, -⟩
    · exact all.posts q before
    · cases eq
    · cases eq
  · rcases (step_works ok may).held_of ok held with before | ⟨q, links⟩
    · exact all.held before
    · cases links
  · rcases (acts may).timer_cases ok may has with had | new
    · have step := ((acts may).delay ok may had).2
      rcases all.timer t had with ⟨rfl, dly, accepted⟩ | stopped
      · have sends : (resume (.cancel w none)).sends s t = [.stop t] := by
          simp only [sends, had, dly, accepted, and_self, if_true]
        exact .inl ⟨t, step.sent sends⟩
      · refine step.stopped stopped (fun cmd sends => ?_) rfl
        rcases sends_cases ok had sends with ⟨q, eq⟩ | rfl
        · cases eq
        · exact ⟨t, rfl⟩
    · rw [new]
      exact .inr ⟨rfl, by simp⟩

/-! ### Runs -/

/-- Where cancellations meet nothing that they do not stop, a cancelled work is not started. -/
theorem cancelledWork_notStarted {p : Works × (WorkId → Option Nat)}
    (reach : (cancelLog.restrict fun p a => a.CancelsInTime p.1).Reach p) {w : WorkId}
    (cancelled : p.2 w = some 0) (a : WorkLabel) (q : WqId) : a.starts p.1 ≠ some (q, w) := by
  have all : WorksOk p.1 ∧ ∀ w, p.2 w ≠ none → Cancelled p.1 w := by
    refine reach.invariant (P := fun p => WorksOk p.1 ∧ ∀ w, p.2 w ≠ none → Cancelled p.1 w) ?_ ?_
    · rintro ⟨s, c⟩ ⟨start, rfl⟩
      cases start
      exact ⟨initial_worksOk, fun w not => absurd rfl not⟩
    rintro ⟨s, c⟩ a ⟨ok, cancelled⟩ ⟨may, inTime⟩
    refine ⟨step_worksOk ok may, fun w now => ?_⟩
    change noteCancelled s a c w ≠ none at now
    unfold noteCancelled at now
    split at now
    · exact absurd rfl now
    · next unrun =>
      split at now
      · next cancels =>
        have is := cancels
        unfold WorkLabel.cancels at is
        split at is
        · split at is
          · cases is
            exact (inTime.cancels w _ rfl cancels).cancelled ok may
          · cases is
        · cases is
      · have before : c w ≠ none := fun none => now (by rw [none]; rfl)
        exact (cancelled w before).step ok may inTime.fires unrun
  have left := all.2 w (by rw [cancelled]; exact some_ne_none 0)
  intro starts
  refine left.held ⟨q, mem_append_left _ ?_⟩
  cases a with
  | worker =>
    simp only [WorkLabel.starts, map_eq_some_iff, Prod.mk.injEq] at starts
    obtain ⟨v, head, rfl, rfl⟩ := starts
    exact mem_of_head? head
  | _ => cases starts

/-- Neither a cancellation succeeds nor `work_timer_cb` runs. -/
def WorkLabel.Plain (s : Works) (a : WorkLabel) : Prop := a.cancels s = none ∧ s.calling = none
  deriving Decidable

theorem WorkLabel.Plain.inTime (plain : a.Plain s) : a.CancelsInTime s := by
  refine ⟨fun w wq _ cancels => ?_, fun t fires => ?_⟩
  · cases plain.1.symm.trans cancels
  · cases a with
    | timerTask => cases plain.2.symm.trans (of_decide_eq_true fires).1
    | _ => cases fires

/-- A work with a delay of one tick is run, and its command is processed. -/
def runDelayed : List WorkLabel := [.run 0 0, .resume (.post 0 0), .timerTask]

def createDelayed : List WorkLabel := [.create 0 20 100, .init 0 1 (some 0), .timerTask]

/-- The work is run for the first time and cancelled; then the command to stop its timer is
processed. -/
def cancelFirst : List WorkLabel :=
  createDelayed ++ runDelayed ++ [.cancel 0] ++ [.resume (.cancel 0 none)] ++
    [.timerTask, .timerTask, .timerTask]

/-- The work has been run for the first time and is being cancelled. -/
abbrev beingCancelled :=
  cancelLog.run ({}, fun _ => none) (createDelayed ++ runDelayed ++ [.cancel 0])

set_option maxRecDepth 20000 in
theorem cancelledWork_notStarted_cancelFirst :
    (cancelLog.run ({}, fun _ => none) cancelFirst).2 0 = some 0 ∧
      (worker 0).starts (cancelLog.run ({}, fun _ => none) cancelFirst).1 ≠
        some (0, 0) := by
  have start : (cancelLog.restrict fun p a => a.CancelsInTime p.1).Reach ({}, fun _ => none) :=
    .init ⟨rfl, rfl⟩
  have before : (cancelLog.restrict fun p a => a.Plain p.1).Runs ({}, fun _ => none)
      (createDelayed ++ runDelayed ++ [.cancel 0]) := by
    decide +kernel
  have reach := start.run_restrict (fun _ _ => Plain.inTime) before
  have all : CancelsAll beingCancelled.1 0 none := by
    refine ⟨fun q posted => ?_, fun ⟨q, held⟩ => ?_, fun t had => .inl ?_⟩
    · have calls : beingCancelled.1.calls = [.cancel 0 none] := by decide +kernel
      rw [calls] at posted
      cases mem_singleton.mp posted
    · cases q with
      | zero => revert held; decide +kernel
      | succ => cases held
    · have timer : (beingCancelled.1.work 0).timer = some 0 := by decide +kernel
      cases timer.symm.trans had
      decide +kernel
  have inTime : (resume (.cancel 0 none)).CancelsInTime beingCancelled.1 := by
    refine ⟨fun w wq eq _ => ?_, nofun⟩
    cases eq
    exact all
  have cancelled := reach.step_restrict (by decide +kernel) inTime
  have after : (cancelLog.restrict fun p a => a.Plain p.1).Runs
      (cancelLog.run beingCancelled [.resume (.cancel 0 none)])
      [.timerTask, .timerTask, .timerTask] := by
    decide +kernel
  have stopped : (cancelLog.restrict fun p a => a.CancelsInTime p.1).Reach
      (cancelLog.run ({}, fun _ => none) cancelFirst) := by
    rw [cancelFirst, System.run_append, System.run_append]
    exact cancelled.run_restrict (fun _ _ => Plain.inTime) after
  exact ⟨by decide +kernel, cancelledWork_notStarted stopped (by decide +kernel) (.worker 0) 0⟩

/-- From `timer_task` outside its waits to the start of the handler. -/
def delayExpires : List WorkLabel :=
  [.timerTask, .timerTask, .tick, .timerTask, .timerTask, .timerTask, .timerTask, .timerTask,
    .timerTask, .timerTask, .timerTask, .worker 0, .worker 0]

/-- The work has run once when it is run again and cancelled, with no command left: its timer
expires, and the worker is about to start it. -/
def cancelReused : List WorkLabel :=
  createDelayed ++ runDelayed ++ delayExpires ++ [.worker 0, .worker 0] ++ runDelayed ++
    [.cancel 0, .resume (.cancel 0 (some 0))] ++ delayExpires

theorem not_cancelledWork_notStarted : cancelLog.Runs ({}, fun _ => none) cancelReused ∧
    (cancelLog.run ({}, fun _ => none) cancelReused).2 0 = some 0 ∧
    (worker 0).starts (cancelLog.run ({}, fun _ => none) cancelReused).1 = some (0, 0) := by
  decide +kernel

end AliosThings.Rhino
