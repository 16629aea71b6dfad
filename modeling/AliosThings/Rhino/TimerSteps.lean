import AliosThings.Rhino.TimerList

/-!
# What happens to one timer

Only a command for a timer, or the return of its callback, changes it.
-/

namespace AliosThings.Rhino

open Lib Function Timers

variable {s s' : Timers} {t u : TimerId}

/-- A timer with another argument of its callback. -/
def Ktimer.withArg (k : Ktimer) (arg : Nat) : Ktimer := { k with timerCbArg := arg }

/-- `TIMER_ARG_CHG_AUTO` arms a timer with its new argument, whatever it did before. -/
theorem timerCmdProc_argChgAuto (linked : Linked s.head s.timer)
    (created : (s.timer t).isTimer = true) (arg : Nat) :
    (timerCmdProc s (.argChgAuto t arg)).timer t =
      ((s.timer t).withArg arg).armed s.timerCount (s.timer t).initCount := by
  have stopped : (cmdStop s t).timerCount = s.timerCount ∧
      ((cmdStop s t).timer t).isTimer = true ∧ ((cmdStop s t).timer t).timerState = .deactive ∧
      ((cmdStop s t).timer t).initCount = (s.timer t).initCount ∧
      ∀ count n, (((cmdStop s t).timer t).withArg arg).armed count n =
        ((s.timer t).withArg arg).armed count n := by
    rcases cmdStop_cases s t linked with ⟨eq, out⟩ | ⟨inList, eq⟩
    · rw [eq]
      exact ⟨rfl, created, linked.not_mem.mp out, rfl, fun _ _ => rfl⟩
    · rw [eq]
      simp only [update_self]
      exact ⟨trivial, created, rfl, rfl, fun _ _ => rfl⟩
  obtain ⟨count, created, idle, ticks, armed⟩ := stopped
  have changed : cmdArgChg (cmdStop s t) t arg =
      (cmdStop s t).modTimer t fun k => k.withArg arg := by
    refine if_neg fun refused => ?_
    rcases refused with foreign | active
    · exact Bool.false_ne_true (foreign.symm.trans created)
    · exact active idle
  have record : (cmdArgChg (cmdStop s t) t arg).timer t =
      ((cmdStop s t).timer t).withArg arg := by
    rw [changed]
    exact update_self ..
  simp only [timerCmdProc]
  rcases cmdStart_cases (cmdArgChg (cmdStop s t) t arg) t with ⟨-, refused⟩ | ⟨-, -, eq⟩
  · rw [record] at refused
    exact absurd ⟨created, idle⟩ refused
  rw [eq]
  have sameCount : (cmdArgChg (cmdStop s t) t arg).timerCount = s.timerCount := by
    rw [changed]
    exact count
  have sameTicks : (((cmdStop s t).timer t).withArg arg).initCount = (s.timer t).initCount := ticks
  simp only [update_self, record, sameCount, sameTicks, armed]

/-! ## The commands under way -/

theorem timerCbReturn_cmds (s : Timers) (t : TimerId) : (timerCbReturn s t).cmds = s.queue := by
  unfold timerCbReturn timerListRm
  split <;> split <;> rfl

theorem timerReceived_cmds {cmd : Option TimerCmd} {inner : Bool} (ok : TimersOk s)
    (pc : s.pc = .received cmd inner) : (timerReceived s cmd inner).cmds = s.queue := by
  obtain ⟨t, done⟩ := received_commanded ok pc
  have queue := congrArg queue done.frame
  simp only [timerReceived, cmds, queue]
  split <;> rfl

/-- The commands under way are those left after the one that is processed. -/
theorem timerTask_cmds (ok : TimersOk s) : s.cmds = s.pc.cmd.toList ++ (timerTask s).cmds := by
  cases pc : s.pc with
  | recv =>
    simp only [timerTask, cmds, pc]
    split
    · next cmd queue eq =>
      rw [eq]
      rfl
    · rfl
  | blocked =>
    simp only [timerTask, pc]
    rfl
  | received =>
    simp only [timerTask, pc, timerReceived_cmds ok pc]
    rw [cmds, pc]
  | loop =>
    simp only [timerTask, pc]
    rw [cmds, pc]
    split
    · rfl
    · split <;> rfl
  | scan q =>
    cases q with
    | none =>
      simp only [timerTask, pc]
      rw [cmds, pc]
      rfl
    | some =>
      simp only [timerTask, pc]
      rw [cmds, pc]
      split <;> rfl
  | callback =>
    simp only [timerTask, pc, timerCbReturn_cmds]
    rw [cmds, pc]

theorem timerTick_cmds (s : Timers) : (timerTick s).cmds = s.cmds := by
  unfold timerTick cmds
  rcases s.pc.tick_cases with eq | ⟨ticks, left, waits, eq | ⟨left', eq⟩⟩
  · rw [eq]
  · rw [eq, waits]
    rfl
  · rw [eq, waits]
    rfl

/-! ## The record of a timer -/

theorem timerTask_processes {cmd : TimerCmd} (pc : s.pc.cmd = some cmd) :
    (timerTask s).timer = (timerCmdProc { s with timerCount := s.tickCount } cmd).timer := by
  cases at_ : s.pc with
  | received cmd' =>
    rw [at_] at pc
    obtain rfl : cmd' = some cmd := pc
    simp only [timerTask, at_, timerReceived, Option.elim_some]
  | _ =>
    rw [at_] at pc
    cases pc

/-- What `timer_task` does to a timer: nothing, or what the command for it says, or what follows
its callback. -/
theorem timerTask_timer (ok : TimersOk s) (t : TimerId) :
    ((timerTask s).timer t = s.timer t ∧ s.pc ≠ .callback t ∧
      ∀ cmd, s.pc.cmd = some cmd → cmd.timer ≠ t) ∨
    (∃ cmd, s.pc.cmd = some cmd ∧ cmd.timer = t ∧
      (timerTask s).timer t = (timerCmdProc { s with timerCount := s.tickCount } cmd).timer t) ∨
    (s.pc = .callback t ∧ (timerTask s).timer t =
      if (s.timer t).roundTicks > 0 then (s.timer t).armed s.timerCount (s.timer t).roundTicks
      else (s.timer t).disarmed) := by
  cases pc : s.pc with
  | recv =>
    refine .inl ⟨?_, nofun, nofun⟩
    simp only [timerTask, pc]
    split <;> rfl
  | blocked => exact .inl ⟨by simp only [timerTask, pc], nofun, nofun⟩
  | received cmd =>
    cases cmd
    case none =>
      refine .inl ⟨?_, nofun, nofun⟩
      simp only [timerTask, pc, timerReceived, Option.elim_none]
    case some cmd =>
    have processed := timerTask_processes (show s.pc.cmd = some cmd by rw [pc]; rfl)
    by_cases same : cmd.timer = t
    · exact .inr (.inl ⟨cmd, rfl, same, by rw [processed, pc]⟩)
    have checked : cmd.Ok := ok.cmds cmd (by rw [cmds, pc]; exact List.mem_cons_self)
    refine .inl ⟨?_, by simp, fun _ eq => Option.some.inj eq ▸ same⟩
    rw [processed]
    exact (timerCmdProc_commanded (s := { s with timerCount := s.tickCount }) ok.linked
      checked).other t fun eq => same eq.symm
  | loop =>
    refine .inl ⟨?_, by simp, by simp [TimerPc.cmd]⟩
    cases head : s.head with
    | nil => simp only [timerTask, pc, head]
    | cons v =>
      by_cases due : tickExpired (s.timer v).timerMatch s.tickCount = true
      · simp only [timerTask, pc, head, if_pos due]
      · simp only [timerTask, pc, head, if_neg due]
  | scan q =>
    refine .inl ⟨?_, by simp, by simp [TimerPc.cmd]⟩
    cases q with
    | none | some => simp only [timerTask, pc]
  | callback u =>
    have inList : u ∈ s.head := ok.node u (by rw [pc]; rfl)
    have eq : timerTask s = timerCbReturn s u := by simp only [timerTask, pc]
    rw [eq, timerCbReturn_eq ok.linked inList]
    by_cases same : t = u
    · subst same
      refine .inr (.inr ⟨rfl, ?_⟩)
      by_cases again : (s.timer t).roundTicks > 0
      · simp only [if_pos again, update_self]
      · simp only [if_neg again, update_self]
    · refine .inl ⟨?_, fun eq => same (TimerPc.callback.inj eq).symm, by simp [TimerPc.cmd]⟩
      by_cases again : (s.timer u).roundTicks > 0
      · simp only [if_pos again, update_of_ne same]
      · simp only [if_neg again, update_of_ne same]

theorem modTimer_stays (s : Timers) {f : Ktimer → Ktimer} (stays : ∀ k, Ktimer.Stays k (f k))
    (u : TimerId) : (s.timer u).Stays ((s.modTimer t f).timer u) := by
  by_cases same : u = t
  · subst same
    simp only [modTimer, update_self]
    exact stays _
  · simp only [modTimer, update_of_ne same]
    exact .refl _

theorem timerTask_stays (ok : TimersOk s) (u : TimerId) :
    (s.timer u).Stays ((timerTask s).timer u) := by
  rcases timerTask_timer ok u with ⟨eq, -⟩ | ⟨cmd, pc, rfl, eq⟩ | ⟨-, eq⟩
  · rw [eq]
    exact .refl _
  · have checked : cmd.Ok := ok.cmds cmd (by rw [cmds, pc]; exact List.mem_cons_self)
    rw [eq]
    exact (timerCmdProc_commanded (s := { s with timerCount := s.tickCount }) ok.linked
      checked).stays
  rw [eq]
  by_cases again : (s.timer u).roundTicks > 0
  · rw [if_pos again]
    exact ⟨rfl, id⟩
  · rw [if_neg again]
    exact ⟨rfl, id⟩

/-! ## The states of a timer -/

/-- The fields that `timer_create` sets and that stay while a timer is active: `init_count`,
`round_ticks` and `obj_type`. -/
def Ktimer.settings (k : Ktimer) : Nat × Nat × Bool := (k.initCount, k.roundTicks, k.isTimer)

/-- No command changes the settings of an active timer. -/
theorem timerCmdProc_settings (linked : Linked s.head s.timer) (cmd : TimerCmd)
    (active : (s.timer cmd.timer).timerState = .active) :
    ((timerCmdProc s cmd).timer cmd.timer).settings = (s.timer cmd.timer).settings := by
  have refused (f : Ktimer → Ktimer) : cmdIdle s cmd.timer f = s :=
    if_pos (.inr (by rw [active]; exact TimerStat.noConfusion))
  cases cmd with
  | start t => rw [timerCmdProc, cmdStart, if_pos (.inr active)]
  | stop t =>
    rcases cmdStop_cases s t linked with ⟨eq, -⟩ | ⟨-, eq⟩
    · rw [timerCmdProc, eq]
    · simp only [timerCmdProc, eq, TimerCmd.timer, update_self]
      rfl
  | chg t first round =>
    rw [timerCmdProc, cmdChg]
    split
    · rfl
    · rw [show cmdIdle s t _ = s from refused _]
  | argChg t arg => rw [timerCmdProc, cmdArgChg, show cmdIdle s t _ = s from refused _]
  | argChgAuto t arg =>
    have fits := linked.fits t
    rw [TimerCmd.timer, timerCmdProc_argChgAuto linked (fits.created (fits.state.mpr active))]
    rfl
  | del t | dynDel t => rw [timerCmdProc, cmdDel, show cmdIdle s t _ = s from refused _]

/-- The commands that make a timer active. -/
def TimerCmd.starts : TimerCmd → Bool
  | start _ | argChgAuto _ _ => true
  | _ => false

/-- After any other command a timer that was not active is not, and after a stop none is. -/
theorem timerCmdProc_idle (linked : Linked s.head s.timer) {cmd : TimerCmd}
    (starts : cmd.starts = false)
    (idle : (s.timer cmd.timer).timerState = .deactive ∨ cmd = .stop cmd.timer) :
    ((timerCmdProc s cmd).timer cmd.timer).timerState = .deactive := by
  have kept {f : Ktimer → Ktimer} (state : ∀ k, (f k).timerState = k.timerState)
      (idle : (s.timer cmd.timer).timerState = .deactive) :
      ((cmdIdle s cmd.timer f).timer cmd.timer).timerState = .deactive := by
    rcases cmdIdle_cases s cmd.timer f with eq | ⟨-, -, eq⟩
    · rwa [eq]
    · rw [eq]
      simpa [modTimer, state] using idle
  cases cmd with
  | start | argChgAuto => cases starts
  | stop t =>
    rcases cmdStop_cases s t linked with ⟨eq, out⟩ | ⟨-, eq⟩
    · rw [timerCmdProc, eq]
      exact linked.not_mem.mp out
    · simp only [timerCmdProc, eq, TimerCmd.timer, update_self]
      rfl
  | chg t first round =>
    rw [timerCmdProc, cmdChg]
    split
    · exact idle.resolve_right TimerCmd.noConfusion
    · exact kept (fun _ => rfl) (idle.resolve_right TimerCmd.noConfusion)
  | argChg => exact kept (fun _ => rfl) (idle.resolve_right TimerCmd.noConfusion)
  | del | dynDel => exact kept (fun _ => by split <;> rfl) (idle.resolve_right TimerCmd.noConfusion)

/-- Whether a stop of the timer has been processed, and no start since. -/
def noteStop (s : Timers) : TimerLabel → (TimerId → Bool) → TimerId → Bool
  | .task, stopped =>
    match s.pc.cmd with
    | some cmd =>
      if cmd.starts then update stopped cmd.timer false
      else if cmd = .stop cmd.timer then update stopped cmd.timer true
      else stopped
    | none => stopped
  | _, stopped => stopped

abbrev stopClock : System (Timers × (TimerId → Bool)) TimerLabel :=
  timerSystem.observed (fun _ => false) noteStop

/-- A timer that has been stopped is not active until it is started. -/
theorem timerTask_stopped (ok : TimersOk s) {stopped : TimerId → Bool}
    (idle : ∀ t, stopped t = true → (s.timer t).timerState = .deactive) (t : TimerId)
    (now : noteStop s .task stopped t = true) : ((timerTask s).timer t).timerState = .deactive := by
  rw [noteStop] at now
  rcases timerTask_timer ok t with ⟨eq, -, other⟩ | ⟨cmd, pc, rfl, eq⟩ | ⟨pc, -⟩
  · rw [eq]
    apply idle
    cases cmd : s.pc.cmd with
    | none => rwa [cmd] at now
    | some c =>
      rw [cmd] at now
      have apart := (other c cmd).symm
      dsimp only at now
      split at now
      · rwa [update_of_ne apart] at now
      split at now
      · rwa [update_of_ne apart] at now
      · exact now
  · rw [eq]
    rw [pc] at now
    dsimp only at now
    cases starts : cmd.starts with
    | true => simp [starts] at now
    | false =>
      rw [starts, if_neg Bool.false_ne_true] at now
      refine timerCmdProc_idle (s := { s with timerCount := s.tickCount }) ok.linked starts ?_
      by_cases stop : cmd = .stop cmd.timer
      · exact .inr stop
      · rw [if_neg stop] at now
        exact .inl (idle _ now)
  · have inList := ok.node t (by rw [pc]; rfl)
    have none : s.pc.cmd = none := by rw [pc]; rfl
    rw [none] at now
    exact absurd inList (ok.linked.not_mem.mpr (idle t now))

/-- What every step keeps. -/
theorem stopClock_idle {p : Timers × (TimerId → Bool)} (reach : stopClock.Reach p) :
    TimersOk p.1 ∧ ∀ t, p.2 t = true → (p.1.timer t).timerState = .deactive := by
  refine (reach.observed (P := fun s stopped => TimersOk s ∧
    ∀ t, stopped t = true → (s.timer t).timerState = .deactive) ?_ ?_).2
  · rintro s rfl
    exact ⟨initial_timersOk, fun _ no => absurd no Bool.false_ne_true⟩
  rintro s a stopped - ⟨ok, idle⟩ may
  cases a with
  | tick => exact ⟨timerTick_ok ok, idle⟩
  | call c =>
    have called := c.exec_called ok may
    refine ⟨called.ok, fun t is => called.ok.linked.not_mem.mp ?_⟩
    rw [called.list.head]
    exact ok.linked.not_mem.mpr (idle t is)
  | task => exact ⟨timerTask_ok ok, timerTask_stopped ok idle⟩

/-- In every run a timer is active exactly while it is linked, once, its settings change only while
it is not, and between a stop and the next start its callback does not run. -/
theorem timer_states {p : Timers × (TimerId → Bool)} (reach : stopClock.Reach p) :
    p.1.head.Nodup ∧
      (∀ t, ((p.1.timer t).timerState = .active ↔ t ∈ p.1.head) ∧
        ((p.1.timer t).toHead = true ↔ t ∈ p.1.head)) ∧
      (∀ a : TimerLabel, a.Allowed p.1 → ∀ t, (p.1.timer t).timerState = .active →
        ((a.step p.1).timer t).settings = (p.1.timer t).settings) ∧
      ∀ t, p.2 t = true → p.1.pc ≠ .callback t := by
  obtain ⟨ok, idle⟩ := stopClock_idle reach
  have fits t := ok.linked.fits t
  refine ⟨ok.linked.nodup, fun t => ⟨(fits t).state.symm, (fits t).toHead.symm⟩, ?_, ?_⟩
  · intro a may t active
    cases a with
    | tick => rfl
    | call c =>
      rw [TimerLabel.step, (c.exec_called ok may).list.timer t ((fits t).state.mpr active)]
    | task =>
      rw [TimerLabel.step]
      rcases timerTask_timer ok t with ⟨eq, -⟩ | ⟨cmd, pc, rfl, eq⟩ | ⟨-, eq⟩
      · rw [eq]
      · rw [eq]
        exact timerCmdProc_settings (s := { p.1 with timerCount := p.1.tickCount }) ok.linked cmd
          active
      · rw [eq]
        split <;> rfl
  · intro t is pc
    exact absurd (ok.node t (by rw [pc]; rfl)) (ok.linked.not_mem.mpr (idle t is))

/-- A periodic timer is created and started, expires, and is stopped while its callback runs. -/
def stoppedRun : List TimerLabel :=
  [.call (.create 1 .user 1 1 0 true), .task, .task, .task, .task, .tick, .task, .task,
    .call (.stop 1), .task, .task, .task, .task, .task]

theorem timer_states_stopped :
    let p := stopClock.run ({}, fun _ => false) stoppedRun
    p.2 1 = true ∧ (p.1.timer 1).timerState = .deactive ∧ 1 ∉ p.1.head ∧ p.1.pc ≠ .callback 1 := by
  have start : stopClock.Reach ({}, fun _ => false) := .init ⟨rfl, rfl⟩
  have runs : stopClock.Runs ({}, fun _ => false) stoppedRun := by decide +kernel
  have stopped : (stopClock.run ({}, fun _ => false) stoppedRun).2 1 = true := by decide +kernel
  have idle : ((stopClock.run ({}, fun _ => false) stoppedRun).1.timer 1).timerState =
      .deactive := by decide +kernel
  obtain ⟨-, linked, -, silent⟩ := timer_states (start.run runs)
  refine ⟨stopped, idle, fun inList => ?_, silent 1 stopped⟩
  cases idle.symm.trans ((linked 1).1.mpr inList)

end AliosThings.Rhino
