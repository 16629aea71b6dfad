import AliosThings.Rhino.Mutex

/-!
# Timeouts and the calls on tasks (`k_tick.c`, `k_task.c`)
-/

namespace AliosThings.Rhino

/-! ## Timeouts -/

variable (s : KState)

/-- What `tick_list_update` does with a task whose time has come. -/
def tickExpire (t : TaskId) : KState :=
  match (s.tasks t).taskState with
  | .sleep =>
    let s := s.modTask t fun k => { k with blkState := .finish, taskState := .rdy }
    readyListAdd (tickListRm s t) t
  | .pend =>
    let s := readyListAdd (blkListRm (tickListRm s t) t) t
    let s := s.modTask t fun k => { k with blkState := .timeout, taskState := .rdy }
    let s := mutexTaskPriReset s t
    s.modTask t fun k => { k with blkObj := none }
  | .pendSuspended =>
    let s := blkListRm (tickListRm s t) t
    let s := s.modTask t fun k => { k with blkState := .timeout, taskState := .suspended }
    let s := mutexTaskPriReset s t
    s.modTask t fun k => { k with blkObj := none }
  | .sleepSuspended =>
    let s := s.modTask t fun k => { k with taskState := .suspended, blkState := .finish }
    tickListRm s t
  | _ => s

/-- Whether `delta <= 0` for the signed difference of a match time and the tick count. -/
def tickExpired (tickMatch tickCount : Nat) : Bool :=
  tickSub tickMatch tickCount = 0 || tickSub tickMatch tickCount ≥ tickRange / 2

/-- The loop of `tick_list_update` over the tick list as it was when the loop started. -/
def tickListUpdateLoop : List TaskId → KState → KState
  | [], s => s
  | t :: rest, s =>
    if tickExpired (s.tasks t).tickMatch s.tickCount then
      tickListUpdateLoop rest (tickExpire s t)
    else s

def tickListUpdate (ticks : Int) : KState :=
  let s := { s with tickCount := ((s.tickCount + ticks) % tickRange).toNat }
  tickListUpdateLoop s.tickList s

def krhinoTickProc : KState := timeSliceUpdate (tickListUpdate s 1)

/-! ## Creation, sleep and suspension -/

/-- `task_create`, of `krhino_task_create` and `krhino_task_dyn_create`. The idle task exists
since `krhino_init`. -/
def taskCreate (t : TaskId) (prio ticks stackSize : Nat) (autorun : Bool)
    (flag : AllocFlag) : KRet × KState :=
  if stackSize = 0 then (.ret .taskInvStackSize, s)
  else if prio ≥ priMax then (.ret .beyondMaxPri, s)
  else intrptNestedLevelChk s <|
    if prio = idlePri then (.ret .idleTaskExist, s)
    else
      let slice := if ticks > 0 then ticks else timeSliceDefault
      let s := s.setTask t
        { timeTotal := slice, timeSlice := slice, schedPolicy := .rr
          taskState := if autorun then .rdy else .suspended
          suspendCount := if autorun then 0 else 1
          prio := prio, bPrio := prio, mmAllocFlag := flag }
      if autorun then (.ret .success, coreSched (readyListAddTail s t)) else (.ret .success, s)

def krhinoTaskSleep (ticks : Nat) : KRet × KState :=
  if ticks = 0 then (.ret .invParam, s)
  else intrptNestedLevelChk s <|
    if s.schedLock > 0 then (.ret .schedDisable, s)
    else
      let t := s.active
      let s := s.modTask t fun k => { k with taskState := .sleep }
      let s := readyListRm (tickListInsert s t ticks) t
      (.blocks, coreSched s)

def krhinoTaskYield : KRet × KState :=
  (.ret .success, coreSched (readyListHeadToTail s s.active))

def taskSuspend (t : TaskId) : KRet × KState :=
  if t = s.active ∧ s.schedLock > 0 then (.ret .schedDisable, s)
  else
    let k := s.tasks t
    match k.taskState with
    | .rdy =>
      let s := s.modTask t fun k => { k with suspendCount := 1, taskState := .suspended }
      (.ret .success, coreSched (readyListRm s t))
    | .sleep =>
      (.ret .success,
        coreSched (s.modTask t fun k => { k with suspendCount := 1, taskState := .sleepSuspended }))
    | .pend =>
      (.ret .success,
        coreSched (s.modTask t fun k => { k with suspendCount := 1, taskState := .pendSuspended }))
    | .suspended | .sleepSuspended | .pendSuspended =>
      if k.suspendCount = suspendNestedMax then (.ret .suspendedCountOvf, s)
      else
        (.ret .success,
          coreSched (s.modTask t fun k => { k with suspendCount := k.suspendCount + 1 }))
    | .seed | .deleted => (.ret .invTaskState, s)

def krhinoTaskSuspend (t : TaskId) : KRet × KState :=
  if (s.tasks t).prio = idlePri then (.ret .taskSuspendNotAllowed, s) else taskSuspend s t

/-- `task_resume`, of `krhino_task_resume`; `suspend_count` is a byte. -/
def taskResume (t : TaskId) : KRet × KState :=
  let k := s.tasks t
  let count := (k.suspendCount + 2 ^ 8 - 1) % 2 ^ 8
  match k.taskState with
  | .rdy | .sleep | .pend => (.ret .taskNotSuspended, s)
  | .suspended =>
    if count = 0 then
      let s := s.modTask t fun k => { k with suspendCount := count, taskState := .rdy }
      (.ret .success, coreSched (readyListAdd s t))
    else (.ret .success, coreSched (s.modTask t fun k => { k with suspendCount := count }))
  | .sleepSuspended =>
    let state := if count = 0 then .sleep else .sleepSuspended
    (.ret .success,
      coreSched (s.modTask t fun k => { k with suspendCount := count, taskState := state }))
  | .pendSuspended =>
    let state := if count = 0 then .pend else .pendSuspended
    (.ret .success,
      coreSched (s.modTask t fun k => { k with suspendCount := count, taskState := state }))
  | .seed | .deleted => (.ret .invTaskState, s)

def krhinoTaskResume : KState → TaskId → KRet × KState := taskResume

/-! ## Priority, abort and deletion -/

def krhinoTaskPriChange (t : TaskId) (pri : Nat) : KRet × KState :=
  if (s.tasks t).prio ≥ idlePri then (.ret .priChgNotAllowed, s)
  else if pri ≥ idlePri then (.ret .priChgNotAllowed, s)
  else if (s.tasks t).taskState = .deleted then (.ret .invTaskState, s)
  else intrptNestedLevelChk s <|
    match mutexPriLimit s t pri with
    | none => (.ret .success, s.hang)
    | some limit =>
      let s := s.modTask t fun k => { k with bPrio := pri }
      match taskPriChange s t limit with
      | (.success, s) => (.ret .success, coreSched s)
      | (error, s) => (.ret error, s)

def krhinoTaskWaitAbort (t : TaskId) : KRet × KState :=
  intrptNestedLevelChk s <|
    match (s.tasks t).taskState with
    | .rdy => (.ret .success, coreSched s)
    | .suspended =>
      let s := s.modTask t fun k => { k with taskState := .rdy }
      (.ret .success, coreSched (readyListAdd s t))
    | .sleep | .sleepSuspended =>
      let s := readyListAdd (tickListRm s t) t
      let s := s.modTask t fun k => { k with taskState := .rdy, blkState := .abort }
      (.ret .success, coreSched s)
    | .pend | .pendSuspended =>
      let s := readyListAdd (blkListRm (tickListRm s t) t) t
      let s := s.modTask t fun k => { k with taskState := .rdy, blkState := .abort }
      let s := mutexTaskPriReset s t
      let s := s.modTask t fun k => { k with blkObj := none }
      (.ret .success, coreSched s)
    | .seed | .deleted => (.ret .invTaskState, s)

/-- The loop of `task_mutex_free` at the mutex `cur`. -/
def taskMutexFreeLoop : Nat → Option ObjId → KState → KState
  | _, none, s => s
  | 0, some _, s => s.hang
  | fuel + 1, some m, s =>
    let next := (s.mutexes m).mutexList
    match (s.blk m).blkList with
    | t :: _ => taskMutexFreeLoop fuel next (mutexSetOwner (pendTaskWakeup s t) m t)
    | [] => taskMutexFreeLoop fuel next (s.modMutex m fun k => { k with mutexTask := none })

def taskMutexFree (t : TaskId) : KState :=
  taskMutexFreeLoop addrRange (s.tasks t).mutexList s

/-- The switch of `krhino_task_del` and `krhino_task_dyn_del` on the state of the task. -/
def taskDelUnlink (t : TaskId) : KState :=
  match (s.tasks t).taskState with
  | .rdy =>
    let s := readyListRm s t
    s.modTask t fun k => { k with taskState := .deleted }
  | .suspended => s.modTask t fun k => { k with taskState := .deleted }
  | .sleep | .sleepSuspended =>
    let s := tickListRm s t
    s.modTask t fun k => { k with taskState := .deleted }
  | .pend | .pendSuspended =>
    let s := blkListRm (tickListRm s t) t
    let s := s.modTask t fun k => { k with taskState := .deleted }
    mutexTaskPriReset s t
  | .seed | .deleted => s

/-- `krhino_task_del`; `none` is a null argument, the calling task. -/
def krhinoTaskDel (task : Option TaskId) : KRet × KState :=
  intrptNestedLevelChk s <|
    let t := task.getD s.active
    if (s.tasks t).prio = idlePri then (.ret .taskDelNotAllowed, s)
    else if (s.tasks t).mmAllocFlag ≠ .staticAlloc then (.ret .kobjDelErr, s)
    else if t = s.active ∧ s.schedLock > 0 then (.ret .schedDisable, s)
    else
      let s := taskMutexFree s t
      match (s.tasks t).taskState with
      | .seed | .deleted => (.ret .invTaskState, s)
      | _ => (.ret .success, coreSched (taskDelUnlink s t))

/-! ## Time slices -/

def krhinoTaskTimeSliceSet (t : TaskId) (slice : Nat) : KRet × KState :=
  intrptNestedLevelChk s <|
    let total := if slice > 0 then slice else timeSliceDefault
    (.ret .success, s.modTask t fun k => { k with timeTotal := total, timeSlice := total })

/-- The policies `krhino_sched_policy_set` accepts. -/
def SchedPolicy.ofByte : Nat → Option SchedPolicy
  | 0 => some .fifo
  | 1 => some .rr
  | _ => none

def krhinoSchedPolicySet (t : TaskId) (policy : Nat) : KRet × KState :=
  match SchedPolicy.ofByte policy with
  | none => (.ret .invSchedWay, s)
  | some p =>
    intrptNestedLevelChk s <|
      (.ret .success, s.modTask t fun k => { k with schedPolicy := p })

end AliosThings.Rhino
