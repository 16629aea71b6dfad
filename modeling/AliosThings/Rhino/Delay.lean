import AliosThings.Rhino.WorkOnce

/-!
# The delay of a work

What a delayed work is waiting for: the commands for its timer, whether the timer is active, and
whether `work_timer_cb` has run and not returned. `WorkAct.delay` says what a step does to it.
-/

namespace AliosThings.Rhino

open Lib Function List Option WorkLabel Works

structure Delay where
  cmds : List TimerCmd
  active : Bool
  fired : Bool
  deriving DecidableEq, Repr

def Works.delay (s : Works) (t : TimerId) : Delay where
  cmds := s.timers.cmds.filter (·.timer = t)
  active := (s.timers.timer t).timerState = .active
  fired := s.calling = some t ∧ s.cb ≠ .start

/-- What a step does to a delay, with the commands it sends and whether the timer fires. -/
inductive DelayStep : Delay → Delay → List TimerCmd → Bool → Prop
  | rest {d} : DelayStep d d [] false
  | send {d cmd} : DelayStep d { d with cmds := d.cmds ++ [cmd] } [cmd] false
  | change {t q cmds active} :
    DelayStep ⟨.argChgAuto t q :: cmds, active, false⟩ ⟨cmds, true, false⟩ [] false
  | stop {t cmds active} : DelayStep ⟨.stop t :: cmds, active, false⟩ ⟨cmds, false, false⟩ [] false
  | fire {cmds} : DelayStep ⟨cmds, true, false⟩ ⟨cmds, true, true⟩ [] true
  | returns {cmds} : DelayStep ⟨cmds, true, true⟩ ⟨cmds, false, false⟩ [] false

variable {d d' : Delay}

theorem DelayStep.of_eq (eq : d' = d) : DelayStep d d' [] false := eq ▸ .rest

/-- The work is in a list, or the next that its worker starts. -/
def Works.Held (s : Works) (w : WorkId) : Prop :=
  ∃ q, w ∈ (s.wq q).worker.next ++ (s.wq q).workList

variable {cmd : TimerCmd} {a : WorkLabel} {linked started p : Option (WqId × WorkId)}
  {u t : TimerId} {s s' : Works} {q : WqId} {w v : WorkId}

theorem Works.delay_congr (timer : s'.timers.timer t = s.timers.timer t)
    (cmds : s'.timers.cmds.filter (·.timer = t) = s.timers.cmds.filter (·.timer = t))
    (fired : (s'.calling = some t ∧ s'.cb ≠ .start) ↔ (s.calling = some t ∧ s.cb ≠ .start)) :
    s'.delay t = s.delay t := by
  simp only [delay, timer, cmds, fired]

/-- What leaves the timers alone leaves the delays alone. -/
theorem SameTimers.delay (same : SameTimers s s') (cb : s'.cb = s.cb) : s'.delay t = s.delay t := by
  refine delay_congr (by rw [same.timers]) (by rw [same.timers]) ?_
  rw [calling_congr same.timers, cb]

/-- A command is added to those under way. -/
theorem timerSend_delay (ok : TimersOk s.timers) (here : cmd.timer = t) {calls : List WorkCall} :
    DelayStep (s.delay t) ({ s with timers := (timerSend s.timers cmd).2, calls }.delay t)
      (if (timerSend s.timers cmd).1 = .success then [cmd] else []) false := by
  rcases timerSend_cases ok.idle cmd with eq | ⟨queue, pc, eq, cmds, -⟩
  · simp only [eq, reduceCtorEq, if_false]
    exact .rest
  have calling : { s with timers := (timerSend s.timers cmd).2, calls }.calling = s.calling :=
    calling_sameList ok (timerSend_sameList _ cmd)
  rw [eq] at calling
  have sent : { s with timers := { s.timers with queue, pc }, calls }.delay t =
      { s.delay t with cmds := (s.delay t).cmds ++ [cmd] } := by
    have all : ({ s.timers with queue, pc } : Timers).cmds = s.timers.cmds ++ [cmd] := cmds
    simp only [delay, calling, all, filter_append, here, decide_true,
      filter_cons_of_pos, filter_nil]
  simp only [eq, if_true, sent]
  exact .send

theorem timerTick_calling : { s with timers := timerTick s.timers }.calling = s.calling := by
  unfold calling timerTick
  rcases s.timers.pc.tick_cases with eq | ⟨ticks, left, waits, eq | ⟨left', eq⟩⟩
  · rw [eq]
  · rw [eq, waits]
  · rw [eq, waits]

/-- A timer whose callback runs is active. -/
theorem WorksOk.active (ok : WorksOk s) (calling : s.calling = some t) :
    (s.timers.timer t).timerState = .active := by
  obtain ⟨pc, -⟩ := ok.timers.calling calling
  exact (ok.timers.timers.linked.fits t).state.mp (ok.timers.timers.node t (by rw [pc]; rfl))

/-- An action of `timer_task` outside `work_timer_cb`. -/
theorem timerTask_delay (ok : WorksOk s) (had : (s.work w).timer = some t)
    (free : s.calling = none ∨ s.cb = .done) :
    DelayStep (s.delay t) ({ s with timers := timerTask s.timers, cb := .start }.delay t) []
      false := by
  have own := (ok.timers.owned w t had).2
  have cmds := timerTask_cmds ok.timers.timers
  have called : s.calling = some t ↔ s.timers.pc = .callback t :=
    ⟨fun is => (ok.timers.calling is).1, fun pc => by
      simp only [calling, pc, own.record.cb, if_true]⟩
  -- the delay before a command for the timer is processed
  have before : ∀ {cmd}, s.timers.pc.cmd = some cmd → cmd.timer = t → s.delay t =
      ⟨cmd :: (timerTask s.timers).cmds.filter (·.timer = t),
        (s.timers.timer t).timerState = .active, false⟩ := by
    intro cmd pc here
    have notCalling : s.calling ≠ some t := fun is => by
      rw [called.mp is] at pc
      cases pc
    rw [pc] at cmds
    simp only [delay, cmds, notCalling, toList_some, singleton_append, filter_cons, here]
    rfl
  have after : { s with timers := timerTask s.timers, cb := .start }.delay t =
      ⟨(timerTask s.timers).cmds.filter (·.timer = t),
        ((timerTask s.timers).timer t).timerState = .active, false⟩ := by
    simp only [delay, ne_eq, not_true_eq_false, and_false, decide_false]
  have task := own.task_cases ok.timers.timers
  rw [after]
  generalize (timerTask s.timers).timer t = k at task ⊢
  cases task with
  | other pc cmd =>
    have notCalling : s.calling ≠ some t := fun is => pc (called.mp is)
    have kept : (timerTask s.timers).cmds.filter (·.timer = t) =
        s.timers.cmds.filter (·.timer = t) := by
      rw [cmds]
      cases pc : s.timers.pc.cmd with
      | none => rfl
      | some first =>
        simp only [toList_some, singleton_append, filter_cons, cmd first pc,
          decide_false, Bool.false_eq_true, if_false]
    refine .of_eq ?_
    simp only [delay, kept, notCalling, false_and, decide_false]
  | idle pc idle =>
    rw [before pc rfl]
    simp only [idle, decide_false]
    exact .stop
  | stop pc =>
    rw [before pc rfl]
    exact .stop
  | change pc =>
    rw [before pc rfl]
    exact .change
  | returns pc =>
    have calling := called.mpr pc
    have done : s.cb = .done := free.resolve_left (by rw [calling]; exact some_ne_none t)
    rw [pc] at cmds
    simp only [delay, ok.active calling, calling, done, cmds]
    exact .returns

/-- `work_timer_cb` runs. -/
theorem fire_delay (ok : WorksOk s) (same : SameTimers s s') (calling : s.calling = some u)
    (cb : s.cb = .start) (ran : s'.cb ≠ .start) :
    DelayStep (s.delay t) (s'.delay t) [] (WorkLabel.timerTask.fires s t) := by
  by_cases here : u = t
  · subst here
    simp only [delay, fires, calling_congr same.timers, same.timers, calling,
      cb, ran, ok.active calling, ne_eq, not_true_eq_false, not_false_eq_true, and_self, and_false,
      decide_true, decide_false]
    exact .fire
  · have notHere : s.calling ≠ some t := fun is => here (some.inj (calling.symm.trans is))
    simp only [fires, notHere, false_and, decide_false]
    refine .of_eq (delay_congr (by rw [same.timers]) (by rw [same.timers]) ?_)
    simp only [calling_congr same.timers, notHere, false_and]

/-- The steps of a queue do not concern delays. -/
theorem QueueAct.delay (act : QueueAct s a s' linked started) (ok : WorksOk s) :
    DelayStep (s.delay t) (s'.delay t) (a.sends s t) (a.fires s t) := by
  have same := act.sameTimers
  cases act with
  | rest mild =>
    rw [(mild t).1, (mild t).2]
    exact .rest
  | cbDone calling cb | cbLinks calling cb => exact fire_delay ok same calling cb WorkCb.noConfusion
  | cbGives _ cb =>
    simp only [sends, fires, cb, reduceCtorEq, and_false, decide_false]
    refine .of_eq (delay_congr rfl rfl ?_)
    rw [cb]
    exact ⟨fun fired => ⟨fired.1, WorkCb.noConfusion⟩, fun fired => ⟨fired.1, WorkCb.noConfusion⟩⟩
  | @ends w wq idle =>
    have none : (resume (.cancel w wq)).sends s t = [] := by
      cases wq with
      | none => simp only [sends, idle rfl, Nat.lt_irrefl, false_and, and_false, if_false]
      | some => rfl
    rw [none]
    exact .of_eq (same.delay rfl)
  | _ => exact .of_eq (same.delay rfl)

/-- A timer is created where there was none. -/
theorem create_calling (ok : WorksOk s) (free : (s.timers.timer t).isTimer = false)
    (f : Ktimer → Ktimer) : { s with timers := s.timers.modTimer t f }.calling = s.calling :=
  calling_sameList ok.timers.timers (modTimer_sameList (ok.timers.timers.not_mem free) f)

/-- A call of the application for a timer of its own. -/
theorem timer_delay (ok : WorksOk s) {c : TimerCall} (may : (timer c).Allowed s)
    (had : (s.work w).timer = some t) :
    { s with timers := (c.exec s.timers).2 }.delay t = s.delay t := by
  obtain ⟨may, user, -⟩ := may
  have called := TimerCall.exec_called ok.timers.timers may
  have other : t ≠ c.timer := fun same => by
    cases (same ▸ user).symm.trans (ok.timers.owned w t had).2.record.cb
  refine delay_congr (called.other t other) (called.cmds t other) ?_
  rw [calling_sameList ok.timers.timers called.list]

theorem priv_delay (s : Works) (u : TimerId) (w : WorkId) (calls : List WorkCall) :
    { s with timers := s.timers.modTimer u fun k => { k with priv := w }, calls }.delay t =
      s.delay t := by
  have state : ((s.timers.modTimer u fun k => { k with priv := w }).timer t).timerState =
      (s.timers.timer t).timerState := by
    rcases eq_or_ne t u with rfl | other <;> simp [Timers.modTimer, *]
  simp only [delay, state, priv_calling]
  rfl

/-- The delay of a work is started or stopped. -/
theorem workTimerSend_delay (ok : WorksOk s) (had : (s.work v).timer = some u)
    (cmd : TimerId → TimerCmd) (timer : ∀ t, (cmd t).timer = t) (calls : List WorkCall) :
    DelayStep (s.delay t) ((workTimerSend { s with calls } v cmd).2.delay t)
      (if (s.work v).timer = some t ∧ (timerSend s.timers (cmd t)).1 = .success then [cmd t]
        else [])
      false := by
  rw [workTimerSend_eq (s := { s with calls }) had]
  by_cases here : u = t
  · subst here
    simp only [had, true_and]
    exact timerSend_delay ok.timers.timers (timer u)
  have notHere : (s.work v).timer ≠ some t := fun is => here (some.inj (had.symm.trans is))
  simp only [notHere, false_and, if_false]
  have other : (cmd u).timer ≠ t := by rwa [timer u]
  refine .of_eq (delay_congr (by rw [timerSend_timer])
    (timerSend_cmds_other ok.timers.timers other) ?_)
  rw [calling_sameList ok.timers.timers (timerSend_sameList _ _)]

/-- The timer of a work stays, and what a step does to it. -/
theorem WorkAct.delay (act : WorkAct s a s' linked started) (ok : WorksOk s) (may : a.Allowed s)
    (had : (s.work w).timer = some t) : (s'.work w).timer = some t ∧
      DelayStep (s.delay t) (s'.delay t) (a.sends s t) (a.fires s t) := by
  obtain ⟨init, own⟩ := ok.timers.owned w t had
  have kept : ∀ {v k}, (s.work v).initialised = false →
      ((s.modWork v fun _ => k).work w).timer = some t := fun {v k} fresh => by
    have other : w ≠ v := fun same => by
      rw [same, fresh] at init
      cases init
    simpa only [modWork, update_of_ne other] using had
  cases act with
  | queue act => exact ⟨(act.sameTimers.work w).1.trans had, act.delay ok⟩
  | tick =>
    refine ⟨had, .of_eq (delay_congr rfl (by rw [← timerTick_cmds s.timers]) ?_)⟩
    rw [timerTick_calling]
  | timer => exact ⟨had, .of_eq (timer_delay ok may had)⟩
  | task free =>
    have notStart : ¬(s.calling = some t ∧ s.cb = .start) := by
      rintro ⟨calling, start⟩
      rcases free with none | done
      · cases none.symm.trans calling
      · cases done.symm.trans start
    simp only [sends, fires, notStart, decide_false]
    exact ⟨had, timerTask_delay ok had free⟩
  | init => exact ⟨kept may.1, .rest⟩
  | @initTimer _ _ u =>
    obtain ⟨free, -⟩ := may.2.2 u rfl
    have other : t ≠ u := fun same => by
      rw [← same, own.record.isTimer] at free
      cases free
    refine ⟨kept may.1, .of_eq (delay_congr (update_of_ne other _ _) rfl ?_)⟩
    exact iff_of_eq (congrArg (· = some t ∧ s.cb ≠ .start) (create_calling ok free _))
  | @delays q v dly =>
    obtain ⟨u, has⟩ := ok.timers.delayed v may.2 dly
    rw [has]
    exact ⟨had, .of_eq (priv_delay s u v _)⟩
  | @posts q v =>
    obtain ⟨there, u, has, -⟩ := ok.timers.posts q v may
    have sent := workTimerSend_delay (t := t) ok has (fun t => .argChgAuto t q) (fun _ => rfl)
      (s.calls.erase (.post q v))
    have result : (s.work v).timer = some t → ((WorkCall.post q v).resume s).1 =
        (timerSend s.timers (.argChgAuto t q)).1 := fun is => by
      simp only [WorkCall.resume]
      rw [workTimerSend_eq (s := { s with calls := s.calls.erase (.post q v) }) is]
    have same := and_congr_right fun is => Iff.of_eq (congrArg (· = Kstat.success) (result is))
    simp only [sends, same]
    exact ⟨by rwa [workTimerSend_frame], sent⟩
  | @stops v dly =>
    obtain ⟨u, has⟩ := ok.timers.delayed v (ok.calls _ may) dly.ne'
    have sent := workTimerSend_delay (t := t) ok has .stop (fun _ => rfl)
      (s.calls.erase (.cancel v none))
    simp only [sends, dly, true_and]
    exact ⟨by rwa [workTimerSend_frame], sent⟩

/-- The timer that a work has after a step is its timer before, or one that has no past. -/
theorem WorkAct.timer_cases (act : WorkAct s a s' linked started) (ok : WorksOk s)
    (may : a.Allowed s) (has : (s'.work w).timer = some t) :
    (s.work w).timer = some t ∨ s'.delay t = ⟨[], false, false⟩ := by
  cases act with
  | queue act => exact .inl ((act.sameTimers.work w).1.symm.trans has)
  | posts | stops =>
    rw [workTimerSend_frame] at has
    exact .inl has
  | @init v =>
    by_cases here : w = v
    · subst here
      simp only [modWork, update_self] at has
      cases has
    · simp only [modWork, update_of_ne here] at has
      exact .inl has
  | @initTimer v dly u ticks =>
    by_cases here : w = v
    · subst here
      simp only [modWork, update_self] at has
      obtain rfl := some.inj has
      obtain ⟨free, unsent⟩ := may.2.2 u rfl
      have idle : s.calling ≠ some u := fun is => by
        obtain ⟨pc, -⟩ := ok.timers.calling is
        exact ok.timers.timers.not_mem free (ok.timers.timers.node u (by rw [pc]; rfl))
      have unsent' : s.timers.cmds.filter (·.timer = u) = [] :=
        filter_eq_nil_iff.mpr fun cmd sent => by
          simpa only [decide_eq_true_eq] using unsent cmd sent
      refine .inr (congr (congr (congrArg Delay.mk unsent') ?_) ?_)
      · simp only [Timers.modTimer, update_self, reduceCtorEq, decide_false]
      · exact decide_eq_false fun fired => idle ((create_calling ok free _).symm.trans fired.1)
    · simp only [modWork, update_of_ne here] at has
      exact .inl has
  | _ => exact .inl has

/-- The calls under way after a step. -/
theorem WorkAct.calls {c : WorkCall} (act : WorkAct s a s' linked started)
    (inCalls : c ∈ s'.calls) :
    c ∈ s.calls ∨ (∃ q w, a = .run q w ∧ (c = .give q w ∨ c = .post q w)) ∨
      ∃ w, a = .cancel w ∧ c = .cancel w (s.work w).wq := by
  have added : ∀ {c'}, c ∈ s.calls ++ [c'] → c ∈ s.calls ∨ c = c' := fun among =>
    (mem_append.mp among).imp_right mem_singleton.mp
  cases act with
  | queue act =>
    cases act with
    | @submits q w =>
      exact (added inCalls).imp_right fun eq => .inl ⟨q, w, rfl, .inl eq⟩
    | @cancel w => exact (added inCalls).imp_right fun eq => .inr ⟨w, rfl, eq⟩
    | gives | ends | cancels => exact .inl (mem_of_mem_erase inCalls)
    | _ => exact .inl inCalls
  | @delays q w => exact (added inCalls).imp_right fun eq => .inl ⟨q, w, rfl, .inr eq⟩
  | posts | stops =>
    rw [workTimerSend_frame] at inCalls
    exact .inl (mem_of_mem_erase inCalls)
  | _ => exact .inl inCalls

/-- Works run in the order in which they were linked. -/
theorem WorksStep.order (step : WorksStep s s' linked started) (ok : WorksOk s) (q : WqId) :
    (s.wq q).worker.next ++ (s.wq q).workList ++ worksOf q linked =
      worksOf q started ++ ((s'.wq q).worker.next ++ (s'.wq q).workList) := by
  have order := (step.queue q).order (ok.queue q)
    (show (s.wq q).worker.next ++ (s.wq q).workList = [] ++ _ ++ _ from rfl)
  simpa only [nil_append, append_assoc] using order

theorem mem_worksOf : w ∈ worksOf q p ↔ p = some (q, w) := by
  cases p with
  | none => exact ⟨nofun, nofun⟩
  | some p =>
    obtain ⟨q', v⟩ := p
    simp only [worksOf, some.injEq, Prod.mk.injEq]
    split
    · next same => simp only [mem_singleton, same, true_and, eq_comm]
    · next other => simp only [not_mem_nil, other, false_and]

/-- A work that a step links or finds waiting in a queue is held until it is started. -/
theorem WorksStep.held (step : WorksStep s s' linked started) (ok : WorksOk s)
    (before : s.Held w ∨ ∃ q, linked = some (q, w)) (unstarted : ∀ q, started ≠ some (q, w)) :
    s'.Held w := by
  have held : ∀ q, w ∈ (s.wq q).worker.next ++ (s.wq q).workList ++ worksOf q linked →
      s'.Held w := by
    intro q among
    rw [step.order ok q] at among
    exact ⟨q, (mem_append.mp among).resolve_left fun starts =>
      unstarted q (mem_worksOf.mp starts)⟩
  rcases before with ⟨q, among⟩ | ⟨q, links⟩
  · exact held q (mem_append_left _ among)
  · exact held q (mem_append_right _ (mem_worksOf.mpr links))

/-- A work gets into a queue by being linked. -/
theorem WorksStep.held_of (step : WorksStep s s' linked started) (ok : WorksOk s)
    (after : s'.Held w) : s.Held w ∨ ∃ q, linked = some (q, w) := by
  obtain ⟨q, among⟩ := after
  have either : w ∈ (s.wq q).worker.next ++ (s.wq q).workList ++ worksOf q linked := by
    rw [step.order ok q]
    exact mem_append_right _ among
  exact (mem_append.mp either).imp (fun held => ⟨q, held⟩) fun links =>
    ⟨q, mem_worksOf.mp links⟩

theorem mem_delay (among : cmd ∈ (s.delay t).cmds) : cmd.timer = t := by
  simpa only [decide_eq_true_eq] using (mem_filter.mp among).2

variable {cmds : List TimerCmd} {fires : Bool}

/-- The last command is the one sent last. -/
theorem DelayStep.sent (step : DelayStep d d' cmds fires)
    (sent : cmds = [cmd]) : d'.cmds.getLast? = some cmd := by
  cases step with
  | send =>
    cases sent
    exact getLast?_concat
  | _ => cases sent

theorem DelayStep.mem (step : DelayStep d d' cmds fires)
    (among : cmd ∈ d'.cmds) : cmd ∈ d.cmds ∨ cmd ∈ cmds := by
  cases step with
  | send => exact mem_append.mp among
  | change | stop => exact .inl (mem_cons_of_mem _ among)
  | _ => exact .inl among

end AliosThings.Rhino
