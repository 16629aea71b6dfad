import AliosThings.Rhino.TimerList

/-!
# Work queues (`k_workqueue.c`)

A work is linked into the list of its queue and a token is given to the queue's semaphore, in two
separate critical sections; the worker of the queue takes a token and then dequeues. A work with a
delay goes through `timer_task` first, whose callback `work_timer_cb` links it.

Calls are cut between their critical sections: a call that has left one and has not entered the
next is in `calls`. Only the worker takes tokens, so a semaphore is its count and whether the
worker waits.
-/

namespace AliosThings.Rhino

open Lib

/-- A `kwork_t`, numbered by its place in memory. -/
abbrev WorkId := Nat

/-- The address of a `kworkqueue_t`. -/
abbrev WqId := Nat

/-- `sizeof(kwork_t)`. -/
def sizeofKwork : Nat := 40

/-- `kwork_t`; the work stands for its handler and the argument of it. -/
structure Kwork where
  dly : Nat := 0
  timer : Option TimerId := none
  wq : Option WqId := none
  workExit : Bool := false
  /-- `krhino_work_init` has returned `RHINO_SUCCESS`. -/
  initialised : Bool := false
  deriving DecidableEq, Repr

/-- Where `worker_task` is. -/
inductive WorkerPc where
  /-- Before `krhino_sem_take`. -/
  | take
  /-- Waits for a token. -/
  | waiting
  /-- `krhino_sem_take` has returned. -/
  | granted
  /-- Has dequeued a work and not called its handler yet. -/
  | starting (work : WorkId)
  /-- In the handler. -/
  | running (work : WorkId)
  deriving DecidableEq, Repr

/-- `kworkqueue_t`. -/
structure Kworkqueue where
  /-- In `g_workqueue_list_head`. -/
  exist : Bool := false
  workList : List WorkId := []
  workCurrent : Option WorkId := none
  /-- `sem.count`. -/
  semCount : Nat := 0
  worker : WorkerPc := .take
  deriving DecidableEq, Repr

/-- A call between two of its critical sections. -/
inductive WorkCall where
  /-- `krhino_work_run` has linked the work and is about to give the token. -/
  | give (wq : WqId) (work : WorkId)
  /-- `krhino_work_run` is about to send the command for the delay. -/
  | post (wq : WqId) (work : WorkId)
  /-- `krhino_work_cancel` has read `work->wq`. -/
  | cancel (work : WorkId) (wq : Option WqId)
  deriving DecidableEq, Repr

/-- Where `work_timer_cb` is, if it is the callback that `timer_task` runs. -/
inductive WorkCb where
  | start
  | give (wq : WqId)
  | done
  deriving DecidableEq, Repr

structure Works where
  timers : Timers := {}
  work : WorkId → Kwork := fun _ => {}
  wq : WqId → Kworkqueue := fun _ => {}
  calls : List WorkCall := []
  cb : WorkCb := .start
  /-- A worker has taken a node that is no work. -/
  corrupt : Bool := false

variable (s : Works)

namespace Works

def modWork (w : WorkId) (f : Kwork → Kwork) : Works :=
  { s with work := Function.update s.work w (f (s.work w)) }

def modWq (q : WqId) (f : Kworkqueue → Kworkqueue) : Works :=
  { s with wq := Function.update s.wq q (f (s.wq q)) }

/-- `klist_rm_init(&(work->work_node))`. -/
def unlink (w : WorkId) : Works :=
  { s with wq := fun q => { s.wq q with workList := (s.wq q).workList.erase w } }

/-- The work is moved to the end of the list of `q`. -/
def link (q : WqId) (w : WorkId) : Works :=
  ((s.unlink w).modWq q fun k => { k with workList := k.workList ++ [w] }).modWork w fun k =>
    { k with wq := some q, workExit := true }

end Works

/-- `krhino_sem_give` on the semaphore of a queue. -/
def Kworkqueue.semGive (k : Kworkqueue) : Kstat × Kworkqueue :=
  match k.worker with
  | .waiting => (.success, { k with worker := .granted })
  | _ =>
    if k.semCount = semCountMax then (.semOvf, k)
    else (.success, { k with semCount := k.semCount + 1 })

/-! ## Functions that tasks call -/

def krhinoWorkqueueCreate (q : WqId) (pri stackSize : Nat) : Kstat × Works :=
  if pri ≥ priMax then (.beyondMaxPri, s)
  else if stackSize = 0 then (.taskInvStackSize, s)
  else if (s.wq q).exist then (.workqueueExist, s)
  else
    let s := s.modWq q fun _ => {}
    -- what `krhino_task_create` says for the worker
    if pri = idlePri then (.idleTaskExist, s)
    else (.success, s.modWq q fun k => { k with exist := true })

/-- `krhino_work_init`, given what `krhino_mm_alloc` returns for the timer. -/
def krhinoWorkInit (w : WorkId) (dly : Nat) (block : Option TimerId) : Kstat × Works :=
  let s := s.modWork w fun _ => { dly }
  if dly > 0 then
    match block with
    | none => (.noMem, s)
    | some t =>
      let (err, timers) := krhinoTimerDynCreate s.timers t .workTimerCb dly 0 w false
      let s := { s with timers }
      if err ≠ .success then (err, s)
      else (.success, s.modWork w fun k => { k with timer := some t, initialised := true })
  else (.success, s.modWork w fun k => { k with initialised := true })

/-- The first critical section of `krhino_work_run`; nothing is returned if the call goes on. -/
def krhinoWorkRun (q : WqId) (w : WorkId) : Option Kstat × Works :=
  if (s.work w).dly = 0 then
    if (s.wq q).workCurrent = some w then (some .workqueueWorkRunning, s)
    else if (s.work w).workExit then (some .workqueueWorkExist, s)
    else
      let s := s.link q w
      (none, { s with calls := s.calls ++ [.give q w] })
  else
    let timers := (s.work w).timer.elim s.timers fun t =>
      s.timers.modTimer t fun k => { k with priv := w }
    (none, { s with timers, calls := s.calls ++ [.post q w] })

/-- `krhino_work_cancel` as far as the reading of `work->wq`. -/
def krhinoWorkCancel (w : WorkId) : Works :=
  { s with calls := s.calls ++ [.cancel w (s.work w).wq] }

/-- A command for the timer of a work. -/
def workTimerSend (w : WorkId) (cmd : TimerId → TimerCmd) : Kstat × Works :=
  match (s.work w).timer with
  | none => (.nullPtr, s)
  | some t =>
    let (err, timers) := timerSend s.timers (cmd t)
    (err, { s with timers })

/-- The rest of a call. -/
def WorkCall.resume (c : WorkCall) : Kstat × Works :=
  let s := { s with calls := s.calls.erase c }
  match c with
  | give q _ =>
    let (err, k) := (s.wq q).semGive
    (err, s.modWq q fun _ => k)
  | post q w => workTimerSend s w fun t => .argChgAuto t q
  | cancel w none =>
    -- what `krhino_timer_stop` returns is ignored
    (.success, if (s.work w).dly > 0 then (workTimerSend s w .stop).2 else s)
  | cancel w (some q) =>
    if (s.wq q).workCurrent = some w then (.workqueueWorkRunning, s)
    else if (s.work w).workExit then (.workqueueWorkExist, s)
    else (.success, (s.unlink w).modWork w fun k => { k with wq := none })

/-! ## The worker and the timer -/

/-- The next action of `worker_task`. -/
def workerTask (q : WqId) : Works :=
  match (s.wq q).worker with
  | .take =>
    s.modWq q fun k =>
      if k.semCount > 0 then { k with semCount := k.semCount - 1, worker := .granted }
      else { k with worker := .waiting }
  | .waiting => s
  | .granted =>
    match (s.wq q).workList with
    | [] => { s with corrupt := true }
    | w :: rest =>
      (s.modWq q fun k =>
        { k with workList := rest, workCurrent := some w, worker := .starting w }).modWork w
          fun k => { k with workExit := false }
  | .starting w => s.modWq q fun k => { k with worker := .running w }
  | .running _ => s.modWq q fun k => { k with workCurrent := none, worker := .take }

/-- The critical section of `work_timer_cb`. -/
def workTimerCb (t : TimerId) : Works :=
  let w := (s.timers.timer t).priv
  let q := (s.timers.timer t).timerCbArg
  if (s.wq q).workCurrent = some w then { s with cb := .done }
  else if (s.work w).workExit then { s with cb := .done }
  else { s.link q w with cb := .give q }

/-- The timer whose callback runs, if that is `work_timer_cb`. -/
def Works.calling : Option TimerId :=
  match s.timers.pc with
  | .callback t => if (s.timers.timer t).cb = .workTimerCb then some t else none
  | _ => none

/-- The next action of `timer_task`, which may be one of `work_timer_cb`. -/
def workTimerTask : Works :=
  match s.calling, s.cb with
  | some t, .start => workTimerCb s t
  | some _, .give q => { s.modWq q fun k => k.semGive.2 with cb := .done }
  | _, _ => { s with timers := timerTask s.timers, cb := .start }

/-! ## Runs -/

/-- What can happen next. -/
inductive WorkLabel where
  | tick
  /-- A timer call of the application, for a timer of its own. -/
  | timer (c : TimerCall)
  | timerTask
  | worker (wq : WqId)
  | create (wq : WqId) (pri stackSize : Nat)
  | init (work : WorkId) (dly : Nat) (block : Option TimerId)
  | run (wq : WqId) (work : WorkId)
  | cancel (work : WorkId)
  /-- A call goes on to its end. -/
  | resume (c : WorkCall)
  deriving DecidableEq, Repr

/-- The application leaves the timers of works alone, initialises a work once, in memory of its
own, and uses works and queues that exist. -/
def WorkLabel.Allowed : WorkLabel → Prop
  | timer c => c.Allowed s.timers ∧ (s.timers.timer c.timer).cb = .user ∧ c.newCb = .user
  | worker q => (s.wq q).exist = true
  | init w _ block =>
    (s.work w).initialised = false ∧ w < addrRange / sizeofKwork ∧
      ∀ t ∈ block, (s.timers.timer t).isTimer = false ∧ ∀ cmd ∈ s.timers.cmds, cmd.timer ≠ t
  | run q w => (s.wq q).exist = true ∧ (s.work w).initialised = true
  | cancel w => (s.work w).initialised = true
  | resume c => c ∈ s.calls
  | _ => True

instance WorkLabel.decidableAllowed (s : Works) (a : WorkLabel) : Decidable (a.Allowed s) := by
  cases a <;> unfold WorkLabel.Allowed <;> infer_instance

def WorkLabel.step : WorkLabel → Works
  | tick => { s with timers := timerTick s.timers }
  | timer c => { s with timers := (c.exec s.timers).2 }
  | timerTask => workTimerTask s
  | worker q => workerTask s q
  | create q pri stackSize => (krhinoWorkqueueCreate s q pri stackSize).2
  | init w dly block => (krhinoWorkInit s w dly block).2
  | run q w => (krhinoWorkRun s q w).2
  | cancel w => krhinoWorkCancel s w
  | resume c => (c.resume s).2

abbrev workSystem : System Works WorkLabel where
  init s := s = {}
  allowed s a := a.Allowed s
  step s a := a.step s

/-! ## What a step does to the works

`WorkLabel.acts` says what a step does, with the work it links and the work it starts. Most steps
leave the timers alone (`QueueAct`). -/

open Function WorkLabel

/-- The work that the worker has dequeued and not started. -/
def WorkerPc.next : WorkerPc → List WorkId
  | starting w => [w]
  | _ => []

/-- The work that a step links, and its queue. -/
def WorkLabel.links (s : Works) : WorkLabel → Option (WqId × WorkId)
  | run q w =>
    if (s.work w).dly = 0 ∧ (s.wq q).workCurrent ≠ some w ∧ (s.work w).workExit = false then
      some (q, w)
    else none
  | timerTask =>
    match s.calling, s.cb with
    | some t, .start =>
      let w := (s.timers.timer t).priv
      let q := (s.timers.timer t).timerCbArg
      if (s.wq q).workCurrent ≠ some w ∧ (s.work w).workExit = false then some (q, w) else none
    | _, _ => none
  | _ => none

/-- The work whose handler a step calls, and the queue of the worker. -/
def WorkLabel.starts (s : Works) : WorkLabel → Option (WqId × WorkId)
  | worker q => (s.wq q).worker.next.head?.map fun w => (q, w)
  | _ => none

/-- The works of `q` among these. -/
def worksOf (q : WqId) : Option (WqId × WorkId) → List WorkId
  | some (p, w) => if p = q then [w] else []
  | none => []

/-- The commands for `t` that a step sends. -/
def WorkLabel.sends (s : Works) (t : TimerId) : WorkLabel → List TimerCmd
  | resume (.post q w) =>
    if (s.work w).timer = some t ∧ ((WorkCall.post q w).resume s).1 = .success then
      [.argChgAuto t q]
    else []
  | resume (.cancel w none) =>
    if (s.work w).timer = some t ∧ (s.work w).dly > 0 ∧
        (timerSend s.timers (.stop t)).1 = .success then [.stop t]
    else []
  | _ => []

/-- Whether a step is the critical section of `work_timer_cb` for `t`. -/
def WorkLabel.fires (s : Works) (t : TimerId) : WorkLabel → Bool
  | timerTask => s.calling = some t ∧ s.cb = .start
  | _ => false

/-- What a step does to a queue and the submitters of it: the works it links and starts. -/
inductive QueueStep : Kworkqueue → Nat → Kworkqueue → Nat → List WorkId → List WorkId → Prop
  | rest {k g} : QueueStep k g k g [] []
  | create : QueueStep {} 0 { exist := true } 0 [] []
  | link {k g w} (exist : k.exist = true) (out : w ∉ k.workList) :
    QueueStep k g { k with workList := k.workList ++ [w] } (g + 1) [w] []
  | give {k g} : QueueStep k (g + 1) k.semGive.2 g [] []
  | take {k g} (exist : k.exist = true) (pc : k.worker = .take) (token : 0 < k.semCount) :
    QueueStep k g { k with semCount := k.semCount - 1, worker := .granted } g [] []
  | wait {k g} (exist : k.exist = true) (pc : k.worker = .take) (none : k.semCount = 0) :
    QueueStep k g { k with worker := .waiting } g [] []
  | dequeue {k g w rest} (exist : k.exist = true) (pc : k.worker = .granted)
    (list : k.workList = w :: rest) :
    QueueStep k g { k with workList := rest, workCurrent := some w, worker := .starting w } g [] []
  | start {k g w} (exist : k.exist = true) (pc : k.worker = .starting w) :
    QueueStep k g { k with worker := .running w } g [] [w]
  | finish {k g w} (exist : k.exist = true) (pc : k.worker = .running w) :
    QueueStep k g { k with workCurrent := none, worker := .take } g [] []

/-- What a step does that leaves the timers alone. -/
inductive QueueAct (s : Works) :
    WorkLabel → Works → Option (WqId × WorkId) → Option (WqId × WorkId) → Prop
  /-- A call is refused at once, or the worker waits. -/
  | rest {a} (mild : ∀ t, a.sends s t = [] ∧ a.fires s t = false) : QueueAct s a s none none
  | cbDone {t} (calling : s.calling = some t) (cb : s.cb = .start) :
    QueueAct s .timerTask { s with cb := .done } none none
  | cbLinks {t q w} (calling : s.calling = some t) (cb : s.cb = .start)
    (arg : (s.timers.timer t).timerCbArg = q) (priv : (s.timers.timer t).priv = w)
    (out : (s.work w).workExit = false) :
    QueueAct s .timerTask { s.link q w with cb := .give q } (some (q, w)) none
  | cbGives {t q} (calling : s.calling = some t) (cb : s.cb = .give q) :
    QueueAct s .timerTask { s.modWq q fun k => k.semGive.2 with cb := .done } none none
  /-- The worker goes on, but for `klist_rm`. -/
  | works {q f started} (list : (f (s.wq q)).workList = (s.wq q).workList)
    (others : ∀ p, p ≠ q → worksOf p started = [])
    (step : ∀ g, QueueStep (s.wq q) g (f (s.wq q)) g [] (worksOf q started)) :
    QueueAct s (.worker q) (s.modWq q f) none started
  | dequeues {q w rest} (there : (s.wq q).exist = true) (pc : (s.wq q).worker = .granted)
    (list : (s.wq q).workList = w :: rest) :
    QueueAct s (.worker q) ((s.modWq q fun k =>
      { k with workList := rest, workCurrent := some w, worker := .starting w }).modWork w
        fun k => { k with workExit := false }) none none
  | corrupts {q} (pc : (s.wq q).worker = .granted) (list : (s.wq q).workList = []) :
    QueueAct s (.worker q) { s with corrupt := true } none none
  | create {q pri stackSize exist} (absent : (s.wq q).exist = false) :
    QueueAct s (.create q pri stackSize) (s.modWq q fun _ => { exist }) none none
  | submits {q w} (out : (s.work w).workExit = false) :
    QueueAct s (.run q w) { s.link q w with calls := s.calls ++ [.give q w] } (some (q, w)) none
  | cancel {w} : QueueAct s (.cancel w) (krhinoWorkCancel s w) none none
  | gives {q w} : QueueAct s (.resume (.give q w))
      ({ s with calls := s.calls.erase (.give q w) }.modWq q fun k => k.semGive.2) none none
  /-- Nothing is left to cancel, or it is too late. -/
  | ends {w wq} (idle : wq = none → (s.work w).dly = 0) :
    QueueAct s (.resume (.cancel w wq)) { s with calls := s.calls.erase (.cancel w wq) } none none
  | cancels {w q} (out : (s.work w).workExit = false) :
    QueueAct s (.resume (.cancel w (some q)))
      (({ s with calls := s.calls.erase (.cancel w (some q)) }.unlink w).modWork w fun k =>
        { k with wq := none }) none none

/-- What a step does, with the work it links and the work it starts. -/
inductive WorkAct (s : Works) :
    WorkLabel → Works → Option (WqId × WorkId) → Option (WqId × WorkId) → Prop
  | queue {a s' linked started} (act : QueueAct s a s' linked started) :
    WorkAct s a s' linked started
  | tick : WorkAct s .tick { s with timers := timerTick s.timers } none none
  | timer {c} : WorkAct s (.timer c) { s with timers := (c.exec s.timers).2 } none none
  | task (free : s.calling = none ∨ s.cb = .done) :
    WorkAct s .timerTask { s with timers := timerTask s.timers, cb := .start } none none
  | init {w dly block} (ready : Bool) (now : ready = true → dly = 0) :
    WorkAct s (.init w dly block) (s.modWork w fun _ => { dly, initialised := ready }) none none
  | initTimer {w dly t} (ticks : timerTicksOk dly 0 = true) :
    WorkAct s (.init w dly (some t))
      { s.modWork w fun _ => { dly, timer := some t, initialised := true } with
        timers := s.timers.modTimer t fun _ =>
          { cb := .workTimerCb, initCount := dly, timerCbArg := w,
            priv := (s.timers.timer t).priv, mmAllocFlag := .dynAlloc, isTimer := true } } none none
  | delays {q w} (dly : (s.work w).dly ≠ 0) :
    WorkAct s (.run q w) { s with
        timers := (s.work w).timer.elim s.timers fun t =>
          s.timers.modTimer t fun k => { k with priv := w }
        calls := s.calls ++ [.post q w] } none none
  | posts {q w} : WorkAct s (.resume (.post q w))
      (workTimerSend { s with calls := s.calls.erase (.post q w) } w fun t => .argChgAuto t q).2
      none none
  | stops {w} (dly : (s.work w).dly > 0) : WorkAct s (.resume (.cancel w none))
      (workTimerSend { s with calls := s.calls.erase (.cancel w none) } w .stop).2 none none

variable {s : Works} {q : WqId} {w : WorkId}

/-- The timer task runs timers and the callback of works. -/
theorem workTimerTask_acts (s : Works) :
    WorkAct s .timerTask (workTimerTask s) (WorkLabel.timerTask.links s) none := by
  unfold workTimerTask
  cases calling : s.calling
  case none =>
    simp only [links, calling]
    exact .task (.inl calling)
  case some t =>
  cases cb : s.cb with
  | start =>
    simp only [links, calling, cb, workTimerCb]
    split
    · next current =>
      rw [if_neg fun both => both.1 current]
      exact .queue (.cbDone calling cb)
    · next current =>
      cases exit : (s.work (s.timers.timer t).priv).workExit with
      | true =>
        simp only [if_true, Bool.true_eq_false, and_false, if_false]
        exact .queue (.cbDone calling cb)
      | false =>
        rw [if_neg Bool.false_ne_true, if_pos ⟨current, rfl⟩]
        exact .queue (.cbLinks calling cb rfl rfl exit)
  | give =>
    simp only [links, calling, cb]
    exact .queue (.cbGives calling cb)
  | done =>
    simp only [links, calling, cb]
    exact .task (.inr cb)

/-- A worker takes a token, then a work, and runs it. -/
theorem workerTask_acts (there : (s.wq q).exist = true) :
    QueueAct s (.worker q) (workerTask s q) none ((WorkLabel.worker q).starts s) := by
  cases pc : (s.wq q).worker with
  | take =>
    simp only [workerTask, starts, pc]
    refine .works ?_ (fun _ _ => rfl) fun g => ?_
    · split <;> rfl
    · split
      · next token => exact .take there pc token
      · next token => exact .wait there pc (Nat.eq_zero_of_not_pos token)
  | waiting =>
    simp only [workerTask, starts, pc]
    exact .rest fun _ => ⟨rfl, rfl⟩
  | granted =>
    cases list : (s.wq q).workList with
    | nil =>
      simp only [workerTask, starts, pc, list]
      exact .corrupts pc list
    | cons =>
      simp only [workerTask, starts, pc, list]
      exact .dequeues there pc list
  | starting =>
    simp only [workerTask, starts, pc]
    refine .works rfl (fun p other => if_neg other.symm) fun g => ?_
    simp only [worksOf, WorkerPc.next, List.head?_cons, Option.map_some, if_true]
    exact .start there pc
  | running =>
    simp only [workerTask, starts, pc]
    exact .works rfl (fun _ _ => rfl) fun g => .finish there pc

theorem krhinoWorkqueueCreate_acts (s : Works) (q : WqId) (pri stackSize : Nat) :
    QueueAct s (.create q pri stackSize) (krhinoWorkqueueCreate s q pri stackSize).2 none none := by
  have refused : QueueAct s (.create q pri stackSize) s none none := .rest fun _ => ⟨rfl, rfl⟩
  unfold krhinoWorkqueueCreate
  split
  · exact refused
  split
  · exact refused
  split
  · exact refused
  · next notThere =>
    have absent := Bool.eq_false_iff.mpr notThere
    split
    · exact .create absent
    · simp only [Works.modWq, update_self, update_idem]
      exact .create absent

theorem krhinoTimerDynCreate_eq (timers : Timers) (t : TimerId) (cb : TimerCb)
    (first round arg : Nat) :
    krhinoTimerDynCreate timers t cb first round arg false =
      if timerTicksOk first round then
        (.success, timers.modTimer t fun k =>
          { cb, initCount := first, roundTicks := round, timerCbArg := arg, priv := k.priv,
            mmAllocFlag := .dynAlloc, isTimer := true })
      else (.invParam, timers.modTimer t fun k => { k with isTimer := false }) := by
  unfold krhinoTimerDynCreate timerCreate
  by_cases ticks : timerTicksOk first round = true
  · simp only [if_pos ticks, Bool.false_eq_true, if_false]
  · simp only [if_neg ticks]

/-- A delayed work gets a timer. -/
theorem krhinoWorkInit_acts {dly : Nat} {block : Option TimerId}
    (may : (WorkLabel.init w dly block).Allowed s) :
    WorkAct s (.init w dly block) (krhinoWorkInit s w dly block).2 none none := by
  unfold krhinoWorkInit
  dsimp only
  split
  · split
    · exact .init false nofun
    · next t =>
      rw [krhinoTimerDynCreate_eq]
      by_cases ticks : timerTicksOk dly 0 = true
      · simp only [if_pos ticks, ne_eq, not_true_eq_false, if_false, Works.modWork, update_self,
          update_idem]
        exact .initTimer ticks
      have record : { s.timers.timer t with isTimer := false } = s.timers.timer t := by
        rw [← (may.2.2 t rfl).1]
      simp only [if_neg ticks, ne_eq, reduceCtorEq, not_false_eq_true, if_true, Works.modWork,
        Timers.modTimer, record, update_eq_self]
      exact .init false nofun
  · next zero =>
    simp only [Works.modWork, update_self, update_idem]
    exact .init true fun _ => Nat.eq_zero_of_not_pos zero

/-- A work is linked, and its token is under way. -/
theorem krhinoWorkRun_acts (s : Works) (q : WqId) (w : WorkId) :
    WorkAct s (.run q w) (krhinoWorkRun s q w).2 ((WorkLabel.run q w).links s) none := by
  have refused : QueueAct s (.run q w) s none none := .rest fun _ => ⟨rfl, rfl⟩
  simp only [krhinoWorkRun, links]
  by_cases dly : (s.work w).dly = 0
  · by_cases current : (s.wq q).workCurrent = some w
    · rw [if_pos dly, if_pos current, if_neg fun all => all.2.1 current]
      exact .queue refused
    · cases exit : (s.work w).workExit with
      | true =>
        rw [if_pos dly, if_neg current, if_pos rfl, if_neg fun all => Bool.noConfusion all.2.2]
        exact .queue refused
      | false =>
        rw [if_pos dly, if_neg current, if_neg Bool.false_ne_true, if_pos ⟨dly, current, rfl⟩]
        exact .queue (.submits exit)
  · rw [if_neg dly, if_neg fun all => dly all.1]
    exact .delays dly

theorem resume_acts (s : Works) (c : WorkCall) :
    WorkAct s (.resume c) (c.resume s).2 none none := by
  cases c
  case give q w => exact .queue .gives
  case post q w => exact .posts
  case cancel w wq =>
  cases wq with
  | none =>
    simp only [WorkCall.resume]
    split
    · next dly => exact .stops dly
    · next dly => exact .queue (.ends fun _ => Nat.eq_zero_of_not_pos dly)
  | some =>
    simp only [WorkCall.resume]
    split
    · exact .queue (.ends nofun)
    split
    · exact .queue (.ends nofun)
    · next notLinked => exact .queue (.cancels (Bool.eq_false_iff.mpr notLinked))

/-- Every step is one of these. -/
theorem WorkLabel.acts {a : WorkLabel} (may : a.Allowed s) :
    WorkAct s a (a.step s) (a.links s) (a.starts s) := by
  cases a with
  | tick => exact .tick
  | timer => exact .timer
  | timerTask => exact workTimerTask_acts s
  | worker => exact .queue (workerTask_acts may)
  | create q pri stackSize => exact .queue (krhinoWorkqueueCreate_acts s q pri stackSize)
  | init => exact krhinoWorkInit_acts may
  | run q w => exact krhinoWorkRun_acts s q w
  | cancel => exact .queue .cancel
  | resume c => exact resume_acts s c

end AliosThings.Rhino
