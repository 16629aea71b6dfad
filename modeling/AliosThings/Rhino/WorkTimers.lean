import AliosThings.Rhino.TimerSteps
import AliosThings.Rhino.Workqueue

/-!
# The timers of delayed works

Each delayed work has a timer of its own, for which only `krhino_work_run` and
`krhino_work_cancel` send commands. While it is active, or on its way to be, `priv` is the work and
the argument is a queue that exists, so `work_timer_cb` finds what it expects.
-/

namespace AliosThings.Rhino

open Lib Function List Works Timers

/-- The record of the timer of the work `w`. -/
structure OwnRecord (exist : WqId → Prop) (w : WorkId) (k : Ktimer) : Prop where
  isTimer : k.isTimer = true
  cb : k.cb = .workTimerCb
  oneShot : k.roundTicks = 0
  armed : k.timerState = .active → k.priv = w ∧ exist k.timerCbArg

/-- The timer `t` of the work `w`, and the commands for it. -/
structure OwnTimer (timers : Timers) (exist : WqId → Prop) (w : WorkId) (t : TimerId) : Prop where
  record : OwnRecord exist w (timers.timer t)
  cmds : ∀ cmd ∈ timers.cmds, cmd.timer = t →
    cmd = .stop t ∨ ∃ q, cmd = .argChgAuto t q ∧ (timers.timer t).priv = w ∧ exist q

structure WorkTimersOk (s : Works) : Prop where
  timers : TimersOk s.timers
  owned : ∀ w t, (s.work w).timer = some t →
    (s.work w).initialised = true ∧ OwnTimer s.timers (fun q => (s.wq q).exist = true) w t
  owner : ∀ t, (s.timers.timer t).isTimer = true → (s.timers.timer t).cb = .workTimerCb →
    ∃ w, (s.work w).timer = some t
  unique : ∀ w w' t, (s.work w).timer = some t → (s.work w').timer = some t → w = w'
  delayed : ∀ w, (s.work w).initialised = true → (s.work w).dly ≠ 0 →
    ∃ t, (s.work w).timer = some t
  posts : ∀ q w, .post q w ∈ s.calls → (s.wq q).exist = true ∧
    ∃ t, (s.work w).timer = some t ∧ (s.timers.timer t).priv = w
  cb : s.calling = none → s.cb = .start

variable {cmd : TimerCmd}

section OneTimer

variable {timers timers' : Timers} {exist exist' : WqId → Prop} {w : WorkId} {t : TimerId}
  {k : Ktimer}

theorem OwnRecord.disarmed (own : OwnRecord exist w k) : OwnRecord exist w k.disarmed :=
  ⟨own.isTimer, own.cb, own.oneShot, nofun⟩

/-- A timer is armed for a queue that exists. -/
theorem OwnRecord.rearmed (own : OwnRecord exist w k) (priv : k.priv = w) {q : WqId}
    (there : exist q) (count n : Nat) : OwnRecord exist w ((k.withArg q).armed count n) :=
  ⟨own.isTimer, own.cb, own.oneShot, fun _ => ⟨priv, there⟩⟩

section

variable (own : OwnTimer timers exist w t)
include own

/-- Queues may be added. -/
theorem OwnTimer.mono (more : ∀ q, exist q → exist' q) : OwnTimer timers exist' w t := by
  refine ⟨⟨own.record.isTimer, own.record.cb, own.record.oneShot, fun active =>
    (own.record.armed active).imp_right (more _)⟩, fun cmd sent same => ?_⟩
  rcases own.cmds cmd sent same with stop | ⟨q, run, priv, there⟩
  · exact .inl stop
  · exact .inr ⟨q, run, priv, more q there⟩

/-- The commands for the timer are old ones. -/
theorem OwnTimer.of_record (record : OwnRecord exist w (timers'.timer t))
    (priv : (timers'.timer t).priv = (timers.timer t).priv)
    (cmds : ∀ cmd ∈ timers'.cmds, cmd.timer = t → cmd ∈ timers.cmds) :
    OwnTimer timers' exist w t := by
  refine ⟨record, fun cmd sent same => ?_⟩
  rw [priv]
  exact own.cmds cmd (cmds cmd sent same) same

theorem OwnTimer.congr (timer : timers'.timer t = timers.timer t)
    (cmds : ∀ cmd ∈ timers'.cmds, cmd.timer = t → cmd ∈ timers.cmds) : OwnTimer timers' exist w t :=
  own.of_record (by rw [timer]; exact own.record) (by rw [timer]) cmds

/-- A further command, for the timer or for another. -/
theorem OwnTimer.sent (timer : timers'.timer t = timers.timer t)
    (cmds : timers'.cmds = timers.cmds ∨ timers'.cmds = timers.cmds ++ [cmd])
    (fits : cmd.timer = t → cmd = .stop t ∨
      ∃ q, cmd = .argChgAuto t q ∧ (timers.timer t).priv = w ∧ exist q) :
    OwnTimer timers' exist w t := by
  refine ⟨by rw [timer]; exact own.record, fun c sent same => ?_⟩
  rw [timer]
  rcases cmds with eq | eq
  · rw [eq] at sent
    exact own.cmds c sent same
  rw [eq] at sent
  rcases mem_append.mp sent with before | now
  · exact own.cmds c before same
  · obtain rfl := mem_singleton.mp now
    exact fits same

end

/-- What an action of `timer_task` does to the timer of a work; its record becomes `k`. -/
inductive OwnTask (timers : Timers) (t : TimerId) : Ktimer → Prop
  | other (pc : timers.pc ≠ .callback t) (cmd : ∀ cmd, timers.pc.cmd = some cmd → cmd.timer ≠ t) :
    OwnTask timers t (timers.timer t)
  | idle (pc : timers.pc.cmd = some (.stop t)) (idle : (timers.timer t).timerState ≠ .active) :
    OwnTask timers t (timers.timer t)
  | stop (pc : timers.pc.cmd = some (.stop t)) : OwnTask timers t (timers.timer t).disarmed
  | change {q} (pc : timers.pc.cmd = some (.argChgAuto t q)) : OwnTask timers t
      (((timers.timer t).withArg q).armed timers.tickCount (timers.timer t).initCount)
  | returns (pc : timers.pc = .callback t) : OwnTask timers t (timers.timer t).disarmed

theorem OwnTimer.sent_of_pc (pc : timers.pc.cmd = some cmd) : cmd ∈ timers.cmds := by
  rw [Timers.cmds, pc]
  exact mem_cons_self

/-- What the timer task does to the timer of a work. -/
theorem OwnTimer.task_cases (own : OwnTimer timers exist w t) (ok : TimersOk timers) :
    OwnTask timers t ((timerTask timers).timer t) := by
  rcases timerTask_timer ok t with ⟨same, pc, cmd⟩ | ⟨cmd, pc, here, eq⟩ | ⟨pc, eq⟩
  · rw [same]
    exact .other pc cmd
  · rw [eq]
    rcases own.cmds cmd (sent_of_pc pc) here with rfl | ⟨q, rfl, -⟩
    · rcases cmdStop_cases { timers with timerCount := timers.tickCount } t ok.linked with
        ⟨stop, out⟩ | ⟨-, stop⟩
      · simp only [timerCmdProc, stop]
        exact .idle pc fun active => out ((ok.linked.fits t).state.mpr active)
      · simp only [timerCmdProc, stop, update_self]
        exact .stop pc
    · rw [timerCmdProc_argChgAuto (s := { timers with timerCount := timers.tickCount }) ok.linked
        own.record.isTimer q]
      exact .change pc
  · rw [if_neg (by rw [own.record.oneShot]; exact Nat.lt_irrefl 0)] at eq
    rw [eq]
    exact .returns pc

/-- It stays the timer of the work. -/
theorem OwnTask.record (task : OwnTask timers t k) (own : OwnTimer timers exist w t) :
    OwnRecord exist w k ∧ k.priv = (timers.timer t).priv := by
  cases task with
  | other | idle => exact ⟨own.record, rfl⟩
  | stop | returns => exact ⟨own.record.disarmed, rfl⟩
  | change pc =>
    rcases own.cmds _ (OwnTimer.sent_of_pc pc) rfl with stop | ⟨q', run, priv, there⟩
    · cases stop
    · cases run
      exact ⟨own.record.rearmed priv there _ _, rfl⟩

/-- A step of the timer task keeps it. -/
theorem OwnTimer.task (own : OwnTimer timers exist w t) (ok : TimersOk timers) :
    OwnTimer (timerTask timers) exist w t := by
  obtain ⟨record, priv⟩ := (own.task_cases ok).record own
  refine own.of_record record priv fun cmd sent _ => ?_
  rw [timerTask_cmds ok]
  exact mem_append_right _ sent

end OneTimer

/-! ## Steps that leave the timers alone -/

variable {calls : List WorkCall} {s s' s₁ s₂ s₃ : Works} {w : WorkId} {q : WqId} {t : TimerId}

theorem Works.calling_congr (timers : s'.timers = s.timers) : s'.calling = s.calling := by
  unfold Works.calling
  rw [timers]

/-- What a step does that leaves the timers alone. -/
structure SameTimers (s s' : Works) : Prop where
  timers : s'.timers = s.timers
  work : ∀ w, (s'.work w).timer = (s.work w).timer ∧
    (s'.work w).initialised = (s.work w).initialised ∧ (s'.work w).dly = (s.work w).dly
  exist : ∀ q, (s.wq q).exist = true → (s'.wq q).exist = true
  posts : ∀ q w, .post q w ∈ s'.calls → .post q w ∈ s.calls
  cb : s'.cb = s.cb ∨ s.calling ≠ none

/-- Only timers, works and calls matter. -/
theorem WorkTimersOk.same (ok : WorkTimersOk s) (same : SameTimers s s') : WorkTimersOk s' := by
  have timer : ∀ {w t}, (s'.work w).timer = some t → (s.work w).timer = some t := fun had => by
    rwa [(same.work _).1] at had
  refine ⟨by rw [same.timers]; exact ok.timers, fun w t had => ?_, fun t isTimer cb => ?_,
    fun w w' t had had' => ok.unique w w' t (timer had) (timer had'), fun w init dly => ?_,
    fun q w posted => ?_, fun calling => ?_⟩
  · obtain ⟨init, own⟩ := ok.owned w t (timer had)
    rw [(same.work w).2.1, same.timers]
    exact ⟨init, own.mono same.exist⟩
  · rw [same.timers] at isTimer cb
    obtain ⟨w, had⟩ := ok.owner t isTimer cb
    exact ⟨w, by rwa [(same.work w).1]⟩
  · rw [(same.work w).2.1] at init
    rw [(same.work w).2.2] at dly
    rw [(same.work w).1]
    exact ok.delayed w init dly
  · obtain ⟨there, t, had, priv⟩ := ok.posts q w (same.posts q w posted)
    refine ⟨same.exist q there, t, ?_, by rwa [same.timers]⟩
    rwa [(same.work w).1]
  · rw [calling_congr same.timers] at calling
    rcases same.cb with eq | calls
    · rw [eq]
      exact ok.cb calling
    · exact absurd calling calls

theorem SameTimers.trans (h : SameTimers s₁ s₂) (h' : SameTimers s₂ s₃) : SameTimers s₁ s₃ := by
  refine ⟨h'.timers.trans h.timers, fun w => ?_, fun q there => h'.exist q (h.exist q there),
    fun q w posted => h.posts q w (h'.posts q w posted), ?_⟩
  · exact ⟨(h'.work w).1.trans (h.work w).1, (h'.work w).2.1.trans (h.work w).2.1,
      (h'.work w).2.2.trans (h.work w).2.2⟩
  · rcases h.cb with eq | calls
    · rcases h'.cb with eq' | calls'
      · exact .inl (eq'.trans eq)
      · rw [calling_congr h.timers] at calls'
        exact .inr calls'
    · exact .inr calls

theorem SameTimers.refl (s : Works) : SameTimers s s :=
  ⟨rfl, fun _ => ⟨rfl, rfl, rfl⟩, fun _ => id, fun _ _ => id, .inl rfl⟩

/-- A queue may change while it exists. -/
theorem modWq_sameTimers (s : Works) (q : WqId) {f : Kworkqueue → Kworkqueue}
    (exist : (s.wq q).exist = true → (f (s.wq q)).exist = true) : SameTimers s (s.modWq q f) := by
  refine ⟨rfl, fun _ => ⟨rfl, rfl, rfl⟩, fun p there => ?_, fun _ _ => id, .inl rfl⟩
  by_cases same : p = q
  · subst same
    simpa only [modWq, update_self] using exist there
  · simpa only [modWq, update_of_ne same] using there

/-- A work may change but for its timer. -/
theorem modWork_sameTimers (s : Works) (w : WorkId) {f : Kwork → Kwork}
    (fields : (f (s.work w)).timer = (s.work w).timer ∧
      (f (s.work w)).initialised = (s.work w).initialised ∧ (f (s.work w)).dly = (s.work w).dly) :
    SameTimers s (s.modWork w f) := by
  refine ⟨rfl, fun v => ?_, fun _ => id, fun _ _ => id, .inl rfl⟩
  by_cases same : v = w
  · subst same
    simpa only [modWork, update_self] using fields
  · simp only [modWork, update_of_ne same, and_self]

theorem unlink_sameTimers (s : Works) (w : WorkId) : SameTimers s (s.unlink w) :=
  ⟨rfl, fun _ => ⟨rfl, rfl, rfl⟩, fun _ => id, fun _ _ => id, .inl rfl⟩

theorem link_sameTimers (s : Works) (q : WqId) (w : WorkId) : SameTimers s (s.link q w) :=
  ((unlink_sameTimers s w).trans (modWq_sameTimers _ q id)).trans
    (modWork_sameTimers _ w ⟨rfl, rfl, rfl⟩)

theorem semGive_exist (k : Kworkqueue) : k.semGive.2.exist = k.exist := by
  unfold Kworkqueue.semGive
  split
  · rfl
  · split <;> rfl

theorem QueueStep.exist {k k' : Kworkqueue} {g g' : Nat} {linked started : List WorkId}
    (step : QueueStep k g k' g' linked started) (there : k.exist = true) : k'.exist = true := by
  cases step with
  | create => rfl
  | give => exact (semGive_exist k).trans there
  | _ => exact there

theorem SameTimers.withCb (same : SameTimers s s') (calling : s.calling = some t) (cb : WorkCb) :
    SameTimers s { s' with cb } :=
  ⟨same.timers, same.work, same.exist, same.posts,
    .inr (by rw [calling]; exact Option.some_ne_none t)⟩

theorem SameTimers.withCalls (same : SameTimers s s')
    (posts : ∀ q w, .post q w ∈ calls → .post q w ∈ s.calls) : SameTimers s { s' with calls } :=
  ⟨same.timers, same.work, same.exist, posts, same.cb⟩

variable {linked started : Option (WqId × WorkId)} {a : WorkLabel} {cb : WorkCb}

/-- No step of a queue concerns a timer. -/
theorem QueueAct.sameTimers (act : QueueAct s a s' linked started) : SameTimers s s' := by
  have added : ∀ {c : WorkCall}, (∀ q w, .post q w ≠ c) → ∀ q w, .post q w ∈ s.calls ++ [c] →
      .post q w ∈ s.calls := fun other q w posted =>
    (mem_append.mp posted).resolve_right fun now => other q w (mem_singleton.mp now)
  have erased c : SameTimers s { s with calls := s.calls.erase c } :=
    (SameTimers.refl s).withCalls fun _ _ => mem_of_mem_erase
  cases act with
  | rest => exact .refl s
  | cbDone calling => exact (SameTimers.refl s).withCb calling _
  | cbLinks calling => exact (link_sameTimers s _ _).withCb calling _
  | cbGives calling =>
    exact (modWq_sameTimers s _ fun there => (semGive_exist _).trans there).withCb calling _
  | works _ _ step => exact modWq_sameTimers s _ (step 0).exist
  | dequeues => exact (modWq_sameTimers s _ id).trans (modWork_sameTimers _ _ ⟨rfl, rfl, rfl⟩)
  | corrupts => exact ⟨rfl, fun _ => ⟨rfl, rfl, rfl⟩, fun _ => id, fun _ _ => id, .inl rfl⟩
  | create absent =>
    exact modWq_sameTimers s _ fun there => absurd (absent.symm.trans there) Bool.false_ne_true
  | submits => exact (link_sameTimers s _ _).withCalls (added nofun)
  | cancel => exact (SameTimers.refl s).withCalls (added nofun)
  | gives =>
    exact (erased _).trans (modWq_sameTimers _ _ fun there => (semGive_exist _).trans there)
  | ends => exact erased _
  | cancels =>
    exact ((erased _).trans (unlink_sameTimers _ _)).trans (modWork_sameTimers _ _ ⟨rfl, rfl, rfl⟩)

/-! ## Steps of the timers -/

/-- The timers change, and with them the calls under way. -/
theorem WorkTimersOk.withTimers (ok : WorkTimersOk s) {timers : Timers} (timersOk : TimersOk timers)
    (own : ∀ w t, (s.work w).timer = some t →
      OwnTimer s.timers (fun q => (s.wq q).exist = true) w t →
      OwnTimer timers (fun q => (s.wq q).exist = true) w t)
    (owner : ∀ t, (timers.timer t).isTimer = true → (timers.timer t).cb = .workTimerCb →
      (s.timers.timer t).isTimer = true ∧ (s.timers.timer t).cb = .workTimerCb)
    (posts : ∀ q w, .post q w ∈ calls → (s.wq q).exist = true ∧
      ∃ t, (s.work w).timer = some t ∧ (timers.timer t).priv = w)
    (start : { s with timers, cb, calls }.calling = none → cb = .start) :
    WorkTimersOk { s with timers, cb, calls } := by
  refine ⟨timersOk, fun w t had => ?_, fun t isTimer cb => ?_, ok.unique, ok.delayed, posts, start⟩
  · obtain ⟨init, before⟩ := ok.owned w t had
    exact ⟨init, own w t had before⟩
  · obtain ⟨isTimer, cb⟩ := owner t isTimer cb
    exact ok.owner t isTimer cb

/-- `priv` of the timer of a work stays, so the calls that are about to send stay in order. -/
theorem WorkTimersOk.posts_of (ok : WorkTimersOk s) {timers : Timers}
    (priv : ∀ w t, (s.work w).timer = some t → (timers.timer t).priv = (s.timers.timer t).priv) :
    ∀ q w, .post q w ∈ s.calls → (s.wq q).exist = true ∧
      ∃ t, (s.work w).timer = some t ∧ (timers.timer t).priv = w := by
  intro q w posted
  obtain ⟨there, t, had, is⟩ := ok.posts q w posted
  exact ⟨there, t, had, (priv w t had).trans is⟩

/-- A tick keeps the timers of the works. -/
theorem WorkTimersOk.tick (ok : WorkTimersOk s) :
    WorkTimersOk { s with timers := timerTick s.timers } := by
  refine ok.withTimers (timerTick_ok ok.timers) (fun w t _ own => ?_) (fun t isTimer cb =>
    ⟨isTimer, cb⟩) (ok.posts_of fun _ _ _ => rfl) fun calling => ok.cb ?_
  · exact own.congr rfl fun cmd sent _ => by rwa [timerTick_cmds] at sent
  unfold Works.calling timerTick at calling
  unfold Works.calling
  rcases s.timers.pc.tick_cases with eq | ⟨ticks, left, waits, -⟩
  · rwa [eq] at calling
  · rw [waits]

/-- A call that leaves the timers in the list alone does not end or begin a callback. -/
theorem calling_sameList (ok : TimersOk s.timers) {timers : Timers}
    (same : SameList s.timers timers) : { s with timers, cb, calls }.calling = s.calling := by
  unfold Works.calling
  rcases same.pc with pc | ⟨ticks, left, cmd, inner, waits, pc⟩
  · rw [pc]
    split
    · next t pc' => rw [same.timer t (ok.node t (by rw [pc']; rfl))]
    · rfl
  · rw [pc, waits]

/-- Calls for other timers keep them. -/
theorem WorkTimersOk.timer (ok : WorkTimersOk s) {c : TimerCall}
    (may : (WorkLabel.timer c).Allowed s) :
    WorkTimersOk { s with timers := (c.exec s.timers).2 } := by
  obtain ⟨may, user, newCb⟩ := may
  have called := TimerCall.exec_called ok.timers may
  have other w t (had : (s.work w).timer = some t) : t ≠ c.timer := fun same => by
    cases (same ▸ user).symm.trans (ok.owned w t had).2.record.cb
  refine ok.withTimers called.ok (fun w t had own => ?_) (fun t isTimer cb => ?_)
    (ok.posts_of fun w t had => ?_) fun calling => ?_
  · refine own.congr (called.other t (other w t had)) fun cmd sent same => ?_
    have mine : cmd ∈ (c.exec s.timers).2.cmds.filter (·.timer = t) :=
      mem_filter.mpr ⟨sent, decide_eq_true same⟩
    rw [called.cmds t (other w t had)] at mine
    exact mem_of_mem_filter mine
  · have different : t ≠ c.timer := by
      rintro rfl
      rcases called.cb with new | old
      · cases cb.symm.trans (new.trans newCb)
      · cases cb.symm.trans (old.trans user)
    rw [called.other t different] at isTimer cb
    exact ⟨isTimer, cb⟩
  · rw [called.other t (other w t had)]
  · rw [calling_sameList ok.timers called.list] at calling
    exact ok.cb calling

/-- A command for the timer of a work. -/
theorem WorkTimersOk.send (ok : WorkTimersOk s) (calls' : ∀ c ∈ calls, c ∈ s.calls)
    (had : (s.work w).timer = some t)
    (fits : cmd = .stop t ∨ ∃ q, cmd = .argChgAuto t q ∧ (s.timers.timer t).priv = w ∧
      (s.wq q).exist = true) :
    WorkTimersOk { s with timers := (timerSend s.timers cmd).2, calls } := by
  have here : cmd.timer = t := by
    rcases fits with rfl | ⟨q, rfl, -⟩ <;> rfl
  have checked : cmd.Ok := by
    rcases fits with rfl | ⟨q, rfl, -⟩ <;> trivial
  refine ok.withTimers (timerSend_ok ok.timers checked) (fun w' t' had' own => ?_)
    (fun t' isTimer cb => ?_) (fun q w posted => ?_) fun calling => ?_
  · refine own.sent (congrFun (timerSend_timer _ _) t')
      ((timerSend_cmds ok.timers cmd).imp_right And.right)
      fun same => ?_
    obtain rfl : t = t' := here.symm.trans same
    obtain rfl := ok.unique w' w t had' had
    exact fits
  · rw [timerSend_timer] at isTimer cb
    exact ⟨isTimer, cb⟩
  · rw [timerSend_timer]
    exact ok.posts q w (calls' _ posted)
  · rw [calling_sameList ok.timers (timerSend_sameList _ _)] at calling
    exact ok.cb calling

/-- An action of `timer_task` outside `work_timer_cb`. -/
theorem WorkTimersOk.task (ok : WorkTimersOk s) :
    WorkTimersOk { s with timers := timerTask s.timers, cb := .start } := by
  have tasks : ∀ w t, (s.work w).timer = some t →
      ((timerTask s.timers).timer t).priv = (s.timers.timer t).priv := fun w t had =>
    (((ok.owned w t had).2.task_cases ok.timers).record (ok.owned w t had).2).2
  refine ok.withTimers (timerTask_ok ok.timers) (fun w t _ own => own.task ok.timers)
    (fun t isTimer cb => ?_) (ok.posts_of tasks) fun _ => rfl
  have stays := timerTask_stays ok.timers t
  exact ⟨stays.isTimer isTimer, stays.cb.symm.trans cb⟩

theorem priv_calling (s : Works) (t : TimerId) (w : WorkId) (calls : List WorkCall) :
    { s with timers := s.timers.modTimer t fun k => { k with priv := w }, calls }.calling =
      s.calling := by
  have same u : ((s.timers.modTimer t fun k => { k with priv := w }).timer u).cb =
      (s.timers.timer u).cb := by
    rcases eq_or_ne u t with rfl | other <;> simp [modTimer, *]
  unfold Works.calling
  simp only [same]
  rfl

/-- `krhino_work_run` of a delayed work. -/
theorem WorkTimersOk.runDelayed (ok : WorkTimersOk s) (there : (s.wq q).exist = true)
    (had : (s.work w).timer = some t) :
    WorkTimersOk { s with
      timers := s.timers.modTimer t fun k => { k with priv := w }
      calls := s.calls ++ [.post q w] } := by
  have fits := ok.timers.linked.fits t
  have timersOk : TimersOk (s.timers.modTimer t fun k => { k with priv := w }) := by
    refine ⟨⟨ok.timers.linked.nodup, fun u => ?_⟩, ok.timers.node, ok.timers.cmds, ok.timers.idle⟩
    by_cases same : u = t
    · subst same
      simp only [modTimer, update_self]
      exact ⟨fits.state, fits.toHead, fits.created, fits.ticks⟩
    · simp only [modTimer, update_of_ne same]
      exact ok.timers.linked.fits u
  have here : (s.timers.modTimer t fun k => { k with priv := w }).timer t =
      { s.timers.timer t with priv := w } := update_self ..
  have others : ∀ u, u ≠ t →
      (s.timers.modTimer t fun k => { k with priv := w }).timer u = s.timers.timer u :=
    fun u other => update_of_ne other _ _
  refine ok.withTimers timersOk (fun w' t' had' own' => ?_) (fun u isTimer cb => ?_)
    (fun q' w' posted => ?_) fun calling => ok.cb ?_
  · by_cases same : t' = t
    · subst same
      obtain rfl := ok.unique w' w t' had' had
      obtain ⟨isTimer, cb, oneShot, armed⟩ := own'.record
      refine ⟨?_, fun cmd sent same => ?_⟩
      · rw [here]
        exact ⟨isTimer, cb, oneShot, fun active => ⟨rfl, (armed active).2⟩⟩
      · rw [here]
        rcases own'.cmds cmd sent same with stop | ⟨p, run, -, there⟩
        · exact .inl stop
        · exact .inr ⟨p, run, rfl, there⟩
    · exact own'.congr (others t' same) fun cmd sent _ => sent
  · have stays := modTimer_stays s.timers (t := t) (f := fun k => { k with priv := w })
      (fun _ => ⟨rfl, id⟩) u
    exact ⟨stays.isTimer isTimer, stays.cb.symm.trans cb⟩
  · rcases mem_append.mp posted with before | now
    · obtain ⟨there', t', had', is⟩ := ok.posts q' w' before
      refine ⟨there', t', had', ?_⟩
      by_cases same : t' = t
      · subst same
        obtain rfl := ok.unique w' w t' had' had
        rw [here]
      · rwa [others t' same]
    · obtain ⟨rfl, rfl⟩ := WorkCall.post.inj (mem_singleton.mp now)
      exact ⟨there, t, had, by rw [here]⟩
  · rwa [priv_calling] at calling

/-- The record of a work that is not initialised is replaced, and a timer that no work has. -/
theorem WorkTimersOk.begin (ok : WorkTimersOk s) (fresh : (s.work w).initialised = false)
    {j : Kwork} {timers : Timers} (timersOk : TimersOk timers)
    (same : ∀ v u, (s.work v).timer = some u → timers.timer u = s.timers.timer u)
    (cmds : timers.cmds = s.timers.cmds)
    (own : ∀ t, j.timer = some t → (∀ v, (s.work v).timer ≠ some t) ∧ j.initialised = true ∧
      OwnTimer timers (fun q => (s.wq q).exist = true) w t)
    (owner : ∀ t, (timers.timer t).isTimer = true → (timers.timer t).cb = .workTimerCb →
      j.timer = some t ∨ (s.timers.timer t).isTimer = true ∧ (s.timers.timer t).cb = .workTimerCb)
    (delayed : j.initialised = true → j.dly ≠ 0 → ∃ t, j.timer = some t)
    (calling : { s with timers }.calling = s.calling) :
    WorkTimersOk { s.modWork w fun _ => j with timers } := by
  have here : (s.modWork w fun _ => j).work w = j := update_self ..
  have others : ∀ {v}, v ≠ w → (s.modWork w fun _ => j).work v = s.work v := fun other =>
    update_of_ne other ..
  have other : ∀ {v t}, (s.work v).timer = some t → v ≠ w := fun {v t} had eq => by
    rw [eq] at had
    exact Bool.false_ne_true (fresh.symm.trans (ok.owned w t had).1)
  refine ⟨timersOk, fun v t has => ?_, fun t isTimer cb => ?_, fun v v' t has has' => ?_,
    fun v init dly => ?_, fun q v posted => ?_, fun none => ok.cb (calling.symm.trans none)⟩
  · by_cases eq : v = w
    · subst eq
      simp only [here] at has ⊢
      exact (own t has).2
    · simp only [others eq] at has ⊢
      obtain ⟨init, before⟩ := ok.owned v t has
      exact ⟨init, before.congr (same v t has) fun cmd sent _ => cmds ▸ sent⟩
  · rcases owner t isTimer cb with mine | ⟨isTimer, cb⟩
    · exact ⟨w, by simpa only [here] using mine⟩
    · obtain ⟨v, had⟩ := ok.owner t isTimer cb
      exact ⟨v, by simpa only [others (other had)] using had⟩
  · by_cases eq : v = w <;> by_cases eq' : v' = w
    · rw [eq, eq']
    · subst eq
      simp only [here, others eq'] at has has'
      exact absurd has' ((own t has).1 v')
    · subst eq'
      simp only [here, others eq] at has has'
      exact absurd has ((own t has').1 v)
    · simp only [others eq, others eq'] at has has'
      exact ok.unique v v' t has has'
  · by_cases eq : v = w
    · subst eq
      simp only [here] at init dly ⊢
      exact delayed init dly
    · simp only [others eq] at init dly ⊢
      exact ok.delayed v init dly
  · obtain ⟨there, t, had, is⟩ := ok.posts q v posted
    refine ⟨there, t, ?_, ?_⟩
    · simpa only [others (other had)] using had
    · rwa [same v t had]

/-- `work_timer_cb` runs for an initialised work and a queue that exists. -/
theorem WorkTimersOk.calling (ok : WorkTimersOk s) (calling : s.calling = some t) :
    s.timers.pc = .callback t ∧ (s.work (s.timers.timer t).priv).timer = some t ∧
      (s.wq (s.timers.timer t).timerCbArg).exist = true := by
  unfold Works.calling at calling
  split at calling
  · next u pc =>
    split at calling
    · next cb =>
      obtain rfl := Option.some.inj calling
      have inList := ok.timers.node u (by rw [pc]; rfl)
      have fits := ok.timers.linked.fits u
      obtain ⟨w, had⟩ := ok.owner u (fits.created inList) cb
      obtain ⟨priv, there⟩ := (ok.owned w u had).2.record.armed (fits.state.mp inList)
      exact ⟨pc, by rwa [priv], there⟩
    · cases calling
  · cases calling

/-- A command goes to the timer of the work. -/
theorem workTimerSend_eq (had : (s.work w).timer = some t) (cmd : TimerId → TimerCmd) :
    workTimerSend s w cmd =
      ((timerSend s.timers (cmd t)).1, { s with timers := (timerSend s.timers (cmd t)).2 }) := by
  simp only [workTimerSend, had]

/-- Every step keeps the timers of works in order. -/
theorem WorkAct.timersOk
    (act : WorkAct s a s' linked started) (ok : WorkTimersOk s) (may : a.Allowed s)
    (init : ∀ w q, .cancel w q ∈ s.calls → (s.work w).initialised = true) : WorkTimersOk s' := by
  cases act with
  | queue act => exact ok.same act.sameTimers
  | tick => exact ok.tick
  | timer => exact ok.timer may
  | task => exact ok.task
  | init _ now =>
    exact ok.begin may.1 ok.timers (fun _ _ _ => rfl) rfl nofun (fun _ isTimer cb =>
      .inr ⟨isTimer, cb⟩) (fun init dly => absurd (now init) dly) rfl
  | @initTimer _ _ t ticks =>
    obtain ⟨free, unsent⟩ := may.2.2 t rfl
    have out := ok.timers.not_mem free
    have unowned : ∀ v, (s.work v).timer ≠ some t := fun v had =>
      Bool.false_ne_true (free.symm.trans (ok.owned v t had).2.record.isTimer)
    refine ok.begin may.1 (ok.timers.replace out _ nofun nofun fun _ => ticks)
      (fun v u had => update_of_ne (fun same : u = t => unowned v (same ▸ had)) _ _) rfl
      (fun u has => ?_) (fun u isTimer cb => ?_) (fun _ _ => ⟨t, rfl⟩)
      (calling_sameList ok.timers (modTimer_sameList out _))
    · cases has
      refine ⟨unowned, rfl, ⟨?_, fun cmd sent same => absurd same (unsent cmd sent)⟩⟩
      simp only [modTimer, update_self]
      exact ⟨rfl, rfl, rfl, by simp⟩
    · by_cases same : u = t
      · exact .inl (by rw [same])
      · simp only [modTimer, update_of_ne same] at isTimer cb
        exact .inr ⟨isTimer, cb⟩
  | @delays q w dly =>
    obtain ⟨t, had⟩ := ok.delayed w may.2 dly
    rw [had]
    exact ok.runDelayed may.1 had
  | @posts q w =>
    obtain ⟨there, t, had, priv⟩ := ok.posts q w may
    rw [workTimerSend_eq (s := { s with calls := s.calls.erase (.post q w) }) had]
    exact ok.send (fun c sent => mem_of_mem_erase sent) had (.inr ⟨q, rfl, priv, there⟩)
  | @stops w dly =>
    obtain ⟨t, had⟩ := ok.delayed w (init w none may) dly.ne'
    rw [workTimerSend_eq (s := { s with calls := s.calls.erase (.cancel w none) }) had]
    exact ok.send (fun c sent => mem_of_mem_erase sent) had (.inl rfl)

end AliosThings.Rhino
