import AliosThings.Lib.Run
import AliosThings.Rhino.Task

/-!
# Software timers (`k_timer.c`)

The functions that tasks call only put commands into `g_timer_queue`; the list `g_timer_head` of
active timers belongs to `timer_task`. Its program is cut where something else can happen between
two of its actions: a tick, a command sent, a timer created. A receive from `g_timer_queue` ends
with a command or after its timeout, and a callback takes as long as it likes.

The command queue is the buffer queue of `RHINO_CONFIG_TIMER_MSG_NUM` commands; all of them have
the same size, so it is a bounded queue that hands a command to a `timer_task` that waits.
-/

namespace AliosThings.Rhino

open Lib

/-- The address of a `ktimer_t`. -/
abbrev TimerId := Nat

/-- `MAX_TIMER_TICKS`. -/
def maxTimerTicks : Nat := (tickRange - 1) / 2

/-- `RHINO_CONFIG_TIMER_MSG_NUM`. -/
def timerMsgNum : Nat := 20

/-- `k_timer_state_t`. -/
inductive TimerStat where
  | deactive
  | active
  deriving DecidableEq, Repr

/-- The callback of a timer: one of the application, or `work_timer_cb` of `k_workqueue.c`. -/
inductive TimerCb where
  | user
  | workTimerCb
  deriving DecidableEq, Repr

/-- `ktimer_t`, without its name. -/
structure Ktimer where
  /-- `to_head != NULL`. -/
  toHead : Bool := false
  cb : TimerCb := .user
  timerCbArg : Nat := 0
  /-- The field `match`. -/
  timerMatch : Nat := 0
  remain : Nat := 0
  initCount : Nat := 0
  roundTicks : Nat := 0
  priv : Nat := 0
  /-- `obj_type == RHINO_TIMER_OBJ_TYPE`. -/
  isTimer : Bool := false
  timerState : TimerStat := .deactive
  mmAllocFlag : AllocFlag := .staticAlloc
  deriving DecidableEq, Repr

/-- `k_timer_queue_cb`: what `cb_num` says, with the fields that it uses. -/
inductive TimerCmd where
  | start (timer : TimerId)
  | stop (timer : TimerId)
  | chg (timer : TimerId) (first round : Nat)
  | argChg (timer : TimerId) (arg : Nat)
  | argChgAuto (timer : TimerId) (arg : Nat)
  | del (timer : TimerId)
  | dynDel (timer : TimerId)
  deriving DecidableEq, Repr

/-- The timer that a command is for. -/
def TimerCmd.timer : TimerCmd → TimerId
  | start t | stop t | chg t _ _ | argChg t _ | argChgAuto t _ | del t | dynDel t => t

/-- Where `timer_task` is. -/
inductive TimerPc where
  /-- Before the receive of the outer loop, or of the inner loop with its timeout. -/
  | recv (ticks : Option Nat)
  /-- Waits in that receive; a timeout is over in `left` ticks. -/
  | blocked (ticks : Option Nat) (left : Nat)
  /-- The receive, of the inner loop or not, has returned a command or has timed out. -/
  | received (cmd : Option TimerCmd) (inner : Bool)
  /-- At the condition of the inner loop. -/
  | loop
  /-- In `timer_cb_proc`, at the node `q`, or at the head of the list. -/
  | scan (q : Option TimerId)
  /-- In `timer_cb_proc`, while the callback of `q` runs. -/
  | callback (q : TimerId)
  deriving DecidableEq, Repr

/-- What `k_timer.c` works on. -/
structure Timers where
  timer : TimerId → Ktimer := fun _ => {}
  /-- `g_timer_head`. -/
  head : List TimerId := []
  /-- `g_timer_count`. -/
  timerCount : Nat := 0
  /-- `g_tick_count`. -/
  tickCount : Nat := 0
  /-- `g_timer_queue`. -/
  queue : List TimerCmd := []
  pc : TimerPc := .recv none

variable (s : Timers)

def Timers.modTimer (t : TimerId) (f : Ktimer → Ktimer) : Timers :=
  { s with timer := Function.update s.timer t (f (s.timer t)) }

/-! ## The list of active timers -/

/-- `timer_list_pri_insert` compares the unsigned distances to `g_timer_count`, with the loop of
`tick_list_pri_insert`. -/
def timerListPriInsert (t : TimerId) : Timers :=
  let remaining u := tickSub (s.timer u).timerMatch s.timerCount
  { s with head := tickListPriInsert remaining (s.timer t).remain t s.head }

def timerListRm (t : TimerId) : Timers :=
  if (s.timer t).toHead then
    { s with head := s.head.erase t }.modTimer t fun k => { k with toHead := false }
  else s

/-- `match`, `remain` and `to_head` are set, and the timer is inserted. -/
def timerArm (t : TimerId) (ticks : Nat) : Timers :=
  timerListPriInsert (s.modTimer t fun k => { k with
    timerMatch := (s.timerCount + ticks) % tickRange, remain := ticks, toHead := true }) t

/-! ## Functions that tasks call -/

/-- `krhino_buf_queue_send` to `g_timer_queue`. -/
def timerSend (cmd : TimerCmd) : Kstat × Timers :=
  match s.pc with
  | .blocked ticks _ => (.success, { s with pc := .received (some cmd) ticks.isSome })
  | _ =>
    if s.queue.length < timerMsgNum then (.success, { s with queue := s.queue ++ [cmd] })
    else (.bufQueueFull, s)

inductive TimerCall where
  | create (timer : TimerId) (cb : TimerCb) (first round arg : Nat) (autoRun : Bool)
  | dynCreate (timer : TimerId) (cb : TimerCb) (first round arg : Nat) (autoRun : Bool)
  | start (timer : TimerId)
  | stop (timer : TimerId)
  | change (timer : TimerId) (first round : Nat)
  | argChange (timer : TimerId) (arg : Nat)
  | argChangeAuto (timer : TimerId) (arg : Nat)
  | del (timer : TimerId)
  | dynDel (timer : TimerId)
  deriving DecidableEq, Repr

/-- The timer that a call is for. -/
def TimerCall.timer : TimerCall → TimerId
  | create t .. | dynCreate t .. | start t | stop t | change t .. | argChange t .. |
    argChangeAuto t .. | del t | dynDel t => t

/-- `first` and `round` as `timer_create` and `krhino_timer_change` want them. -/
def timerTicksOk (first round : Nat) : Bool :=
  first ≠ 0 && first < maxTimerTicks && round < maxTimerTicks

def timerCreate (t : TimerId) (cb : TimerCb) (first round arg : Nat) (autoRun : Bool)
    (flag : AllocFlag) : Kstat × Timers :=
  if timerTicksOk first round then
    let s := s.modTimer t fun k =>
      { cb, initCount := first, roundTicks := round, timerCbArg := arg, priv := k.priv,
        mmAllocFlag := flag, isTimer := true }
    if autoRun then timerSend s (.start t) else (.success, s)
  else (.invParam, s)

/-- `krhino_timer_dyn_create`, given the block that `krhino_mm_alloc` has returned: if the creation
fails the block is freed, and what it holds is no timer. -/
def krhinoTimerDynCreate (t : TimerId) (cb : TimerCb) (first round arg : Nat)
    (autoRun : Bool) : Kstat × Timers :=
  match timerCreate s t cb first round arg autoRun .dynAlloc with
  | (.success, s) => (.success, s)
  | (err, s) => (err, s.modTimer t fun k => { k with isTimer := false })

def krhinoTimerChange (t : TimerId) (first round : Nat) : Kstat × Timers :=
  if timerTicksOk first round then timerSend s (.chg t first round) else (.invParam, s)

def TimerCall.exec : TimerCall → Kstat × Timers
  | create t cb first round arg autoRun => timerCreate s t cb first round arg autoRun .staticAlloc
  | dynCreate t cb first round arg autoRun => krhinoTimerDynCreate s t cb first round arg autoRun
  | start t => timerSend s (.start t)
  | stop t => timerSend s (.stop t)
  | change t first round => krhinoTimerChange s t first round
  | argChange t arg => timerSend s (.argChg t arg)
  | argChangeAuto t arg => timerSend s (.argChgAuto t arg)
  | del t => timerSend s (.del t)
  | dynDel t => timerSend s (.dynDel t)

/-- Memory in which a timer is created holds no timer. -/
def TimerCall.Allowed : TimerCall → Prop
  | create t .. | dynCreate t .. => (s.timer t).isTimer = false
  | _ => True

instance TimerCall.decidableAllowed (s : Timers) (c : TimerCall) : Decidable (c.Allowed s) := by
  cases c <;> unfold TimerCall.Allowed <;> infer_instance

/-! ## `timer_task` -/

/-- The cases of `cmd_proc`, each after its checks. The memory of a deleted dynamic timer goes
back to the heap. -/
def cmdStart (t : TimerId) : Timers :=
  if (s.timer t).isTimer = false ∨ (s.timer t).timerState = .active then s
  else (timerArm s t (s.timer t).initCount).modTimer t fun k => { k with timerState := .active }

def cmdStop (t : TimerId) : Timers :=
  if (s.timer t).isTimer = false ∨ (s.timer t).timerState = .deactive then s
  else (timerListRm s t).modTimer t fun k => { k with timerState := .deactive }

/-- A change that is made only to a timer that is not active. -/
def cmdIdle (t : TimerId) (f : Ktimer → Ktimer) : Timers :=
  if (s.timer t).isTimer = false ∨ (s.timer t).timerState ≠ .deactive then s else s.modTimer t f

def cmdChg (t : TimerId) (first round : Nat) : Timers :=
  if first = 0 then s
  else cmdIdle s t fun k => { k with initCount := first, roundTicks := round }

def cmdArgChg (t : TimerId) (arg : Nat) : Timers :=
  cmdIdle s t fun k => { k with timerCbArg := arg }

def cmdDel (t : TimerId) (flag : AllocFlag) : Timers :=
  cmdIdle s t fun k => if k.mmAllocFlag ≠ flag then k else { k with isTimer := false }

def timerCmdProc : TimerCmd → Timers
  | .start t => cmdStart s t
  | .stop t => cmdStop s t
  | .chg t first round => cmdChg s t first round
  | .argChg t arg => cmdArgChg s t arg
  | .argChgAuto t arg => cmdStart (cmdArgChg (cmdStop s t) t arg) t
  | .del t => cmdDel s t .staticAlloc
  | .dynDel t => cmdDel s t .dynAlloc

/-- The node behind `t`. -/
def nodeNext (t : TimerId) : List TimerId → Option TimerId
  | [] => none
  | u :: l => if u = t then l.head? else nodeNext t l

/-- What `timer_cb_proc` does when the callback of `t` has returned. The node of a timer that is
removed keeps its own `next`; that of a timer that is inserted again has a new one. -/
def timerCbReturn (t : TimerId) : Timers :=
  let r := timerListRm s t
  if (s.timer t).roundTicks > 0 then
    let r := timerArm r t (s.timer t).roundTicks
    { r with pc := .scan (nodeNext t r.head) }
  else
    { r.modTimer t fun k => { k with timerState := .deactive } with
      pc := .scan (nodeNext t s.head) }

/-- A receive has returned: `g_timer_count` is set and the command, if it has one, is processed. -/
def timerReceived (cmd : Option TimerCmd) (inner : Bool) : Timers :=
  let s := { s with timerCount := s.tickCount }
  let s := cmd.elim s (timerCmdProc s)
  { s with pc := if inner then .scan s.head.head? else .loop }

/-- The next action of `timer_task`. -/
def timerTask : Timers :=
  match s.pc with
  | .recv ticks =>
    match s.queue with
    | cmd :: queue => { s with queue, pc := .received (some cmd) ticks.isSome }
    | [] => { s with pc := .blocked ticks (ticks.getD 0) }
  | .blocked _ _ => s
  | .received cmd inner => timerReceived s cmd inner
  | .loop =>
    match s.head with
    | [] => { s with pc := .recv none }
    | t :: _ =>
      if tickExpired (s.timer t).timerMatch s.tickCount then
        { s with timerCount := s.tickCount, pc := .scan (some t) }
      else { s with pc := .recv (some (tickSub (s.timer t).timerMatch s.tickCount)) }
  | .scan none => { s with pc := .loop }
  | .scan (some t) =>
    { s with pc := if tickExpired (s.timer t).timerMatch s.timerCount then .callback t else .loop }
  | .callback t => timerCbReturn s t

/-- A tick, which may end the wait of `timer_task`. -/
def TimerPc.tick : TimerPc → TimerPc
  | blocked (some ticks) left =>
    if left ≤ 1 then received none true else blocked (some ticks) (left - 1)
  | pc => pc

def timerTick : Timers :=
  { s with tickCount := (s.tickCount + 1) % tickRange, pc := s.pc.tick }

/-! ## Runs -/

/-- What can happen next. -/
inductive TimerLabel where
  | tick
  | call (c : TimerCall)
  | task
  deriving DecidableEq, Repr

def TimerLabel.Allowed : TimerLabel → Prop
  | call c => c.Allowed s
  | _ => True

instance TimerLabel.decidableAllowed (s : Timers) (a : TimerLabel) : Decidable (a.Allowed s) := by
  cases a <;> unfold TimerLabel.Allowed <;> infer_instance

def TimerLabel.step : TimerLabel → Timers
  | tick => timerTick s
  | call c => (c.exec s).2
  | task => timerTask s

abbrev timerSystem : System Timers TimerLabel where
  init s := s = {}
  allowed s a := a.Allowed s
  step s a := a.step s

end AliosThings.Rhino
