import AliosThings.Rhino.Task
import AliosThings.Lib.Run

/-!
# The kernel as a system of calls

The calls on the objects a task can wait for, besides mutexes (`k_sem.c`, `k_event.c`, `k_queue.c`,
`k_buf_queue.c`), and the system all calls make up, with what their callers promise. Messages and
flags are delivered in memory: a call that stores through a pointer of its caller writes at that
address.
-/

namespace AliosThings.Rhino

open Lib

/-! ## Semaphores -/

variable (s : KState)

/-- `sem_create`, of `krhino_sem_create` and `krhino_sem_dyn_create`. -/
def semCreate (o : ObjId) (count : Nat) (flag : AllocFlag) : KRet × KState :=
  let s := s.modBlk o fun _ => { blkList := [], blkPolicy := .pri, objType := .sem }
  (.ret .success, s.modSem o fun _ => { count := count, peakCount := count, mmAllocFlag := flag })

def semDel (flag : AllocFlag) (s : KState) (o : ObjId) : KRet × KState :=
  objDel .sem flag (s.sems o).mmAllocFlag id s o

def krhinoSemDel : KState → ObjId → KRet × KState := semDel .staticAlloc

def krhinoSemDynDel : KState → ObjId → KRet × KState := semDel .dynAlloc

def semGive (o : ObjId) (wakeAll : Bool) : KRet × KState :=
  if (s.blk o).objType ≠ .sem then (.ret .kobjTypeErr, s)
  else
    match (s.blk o).blkList with
    | [] =>
      if (s.sems o).count = semCountMax then (.ret .semOvf, s)
      else
        (.ret .success, s.modSem o fun k =>
          { k with
            count := k.count + 1
            peakCount := if k.count + 1 > k.peakCount then k.count + 1 else k.peakCount })
    | t :: _ =>
      let s := if wakeAll then blkListForEach pendTaskWakeup o s else pendTaskWakeup s t
      (.ret .success, coreSched s)

def krhinoSemGive (o : ObjId) : KRet × KState := semGive s o false

def krhinoSemGiveAll (o : ObjId) : KRet × KState := semGive s o true

def krhinoSemTake (o : ObjId) (ticks : Nat) : KRet × KState :=
  intrptNestedLevelChk s <|
    if (s.blk o).objType ≠ .sem then (.ret .kobjTypeErr, s)
    else if (s.sems o).count > 0 then
      (.ret .success, s.modSem o fun k => { k with count := k.count - 1 })
    else if ticks = noWait then (.ret .noPendWait, s)
    else if s.schedLock > 0 then (.ret .schedDisable, s)
    else blockActive s o ticks

def krhinoSemCountSet (o : ObjId) (count : Nat) : KRet × KState :=
  intrptNestedLevelChk s <|
    if (s.blk o).objType ≠ .sem then (.ret .kobjTypeErr, s)
    else if (s.sems o).count = 0 ∧ (s.blk o).blkList ≠ [] then (.ret .semTaskWaiting, s)
    else
      (.ret .success, s.modSem o fun k =>
        { k with count := count, peakCount := if count > k.peakCount then count else k.peakCount })

/-! ## Event flags -/

/-- The options `krhino_event_get` accepts. -/
def EventOpt.ofByte : Nat → Option EventOpt
  | 0 => some .or
  | 1 => some .orClear
  | 2 => some .and
  | 3 => some .andClear
  | _ => none

/-- `opt & RHINO_FLAGS_AND_MASK`. -/
def EventOpt.andMask : EventOpt → Bool
  | .and | .andClear => true
  | .or | .orClear => false

/-- `opt & RHINO_FLAGS_CLEAR_MASK`. -/
def EventOpt.clearMask : EventOpt → Bool
  | .orClear | .andClear => true
  | .or | .and => false

/-- Whether the flags `cur` meet a wait for `flags`. -/
def eventMet (opt : EventOpt) (cur flags : BitVec 32) : Bool :=
  if opt.andMask then cur &&& flags = flags else cur &&& flags ≠ 0

/-- `event_create`, of `krhino_event_create` and `krhino_event_dyn_create`. -/
def eventCreate (o : ObjId) (flags : BitVec 32) (flag : AllocFlag) : KRet × KState :=
  let s := s.modBlk o fun _ => { blkList := [], blkPolicy := .pri, objType := .event }
  (.ret .success, s.modEvent o fun _ => { flags := flags, mmAllocFlag := flag })

def eventDel (flag : AllocFlag) (s : KState) (o : ObjId) : KRet × KState :=
  objDel .event flag (s.events o).mmAllocFlag
    (fun s => s.modEvent o fun e => { e with flags := 0 }) s o

def krhinoEventDel : KState → ObjId → KRet × KState := eventDel .staticAlloc

def krhinoEventDynDel : KState → ObjId → KRet × KState := eventDel .dynAlloc

def krhinoEventGet (o : ObjId) (flags : BitVec 32) (opt actlFlags ticks : Nat) :
    KRet × KState :=
  match EventOpt.ofByte opt with
  | none => (.ret .noThisEventOpt, s)
  | some opt =>
    intrptNestedLevelChk s <|
      if (s.blk o).objType ≠ .event then (.ret .kobjTypeErr, s)
      else
        let cur := (s.events o).flags
        if eventMet opt cur flags then
          let s := s.store32 actlFlags cur.toNat
          (.ret .success, s.modEvent o fun e =>
            { e with flags := if opt.clearMask then e.flags &&& ~~~ flags else e.flags })
        else if ticks = noWait then (.ret .noPendWait, s)
        else if s.schedLock > 0 then (.ret .schedDisable, s)
        else
          let s := s.modTask s.active fun k =>
            { k with pendOption := opt, pendFlags := flags, pendInfo := actlFlags }
          blockActive s o ticks

/-- The loop of `event_set` over the tasks that were blocked when it started; `cur` are the
flags every one of them is compared with. -/
def eventSetLoop (o : ObjId) (cur : BitVec 32) : List TaskId → KState → KState
  | [], s => s
  | t :: rest, s =>
    let k := s.tasks t
    if eventMet k.pendOption cur k.pendFlags then
      let s := pendTaskWakeup (s.store32 k.pendInfo cur.toNat) t
      let s := if k.pendOption.clearMask then
          s.modEvent o fun e => { e with flags := e.flags &&& ~~~ k.pendFlags }
        else s
      eventSetLoop o cur rest s
    else eventSetLoop o cur rest s

def eventSet (o : ObjId) (flags : BitVec 32) (opt : EventOpt) : KRet × KState :=
  if (s.blk o).objType ≠ .event then (.ret .kobjTypeErr, s)
  else if opt.andMask then
    (.ret .success, s.modEvent o fun e => { e with flags := e.flags &&& flags })
  else
    let cur := (s.events o).flags ||| flags
    let s := s.modEvent o fun e => { e with flags := cur }
    (.ret .success, coreSched (eventSetLoop o cur (s.blk o).blkList s))

def krhinoEventSet (o : ObjId) (flags : BitVec 32) (opt : Nat) : KRet × KState :=
  match EventOpt.ofByte opt with
  | some .and => eventSet s o flags .and
  | some .or => eventSet s o flags .or
  | _ => (.ret .noThisEventOpt, s)

/-! ## Queues of pointers -/

/-- `queue_create`, of `krhino_queue_create` and `krhino_queue_dyn_create`. -/
def queueCreate (o : ObjId) (start msgNum : Nat) (flag : AllocFlag) :
    KRet × KState :=
  if msgNum = 0 then (.ret .invParam, s)
  else
    let s := s.modBlk o fun _ => { blkList := [], blkPolicy := .pri, objType := .queue }
    (.ret .success, s.modQueue o fun _ =>
      { ringbuf := ringbufInit start (msgNum * wordSize % 2 ^ 32) .fix wordSize
        size := msgNum, curNum := 0, peakNum := 0, mmAllocFlag := flag })

def queueDel (flag : AllocFlag) (s : KState) (o : ObjId) : KRet × KState :=
  objDel .queue flag (s.queues o).mmAllocFlag
    (fun s => s.modQueue o fun q => { q with ringbuf := ringbufReset q.ringbuf }) s o

def krhinoQueueDel : KState → ObjId → KRet × KState := queueDel .staticAlloc

def krhinoQueueDynDel : KState → ObjId → KRet × KState := queueDel .dynAlloc

def taskMsgRecv (msg : Nat) (s : KState) (t : TaskId) : KState :=
  pendTaskWakeup (s.modTask t fun k => { k with msg := msg }) t

/-- `ringbuf_push` on the ring of a queue; the caller does not look at the status. -/
def queuePush (o : ObjId) (msg : Nat) : KState :=
  match ringbufPush wordSize (s.queues o).ringbuf s.mem (leBytes wordSize msg) wordSize with
  | none => s.overflow
  | some (_, r, mem) => { s with mem := mem }.modQueue o fun q => { q with ringbuf := r }

def msgSend (o : ObjId) (msg : Nat) (wakeAll : Bool) : KRet × KState :=
  if (s.blk o).objType ≠ .queue then (.ret .kobjTypeErr, s)
  else
    if (s.queues o).curNum ≥ (s.queues o).size then (.ret .queueFull, s)
    else
      match (s.blk o).blkList with
      | [] =>
        let s := s.modQueue o fun q =>
          { q with
            curNum := q.curNum + 1
            peakNum := if q.curNum + 1 > q.peakNum then q.curNum + 1 else q.peakNum }
        (.ret .success, queuePush s o msg)
      | t :: _ =>
        let s := if wakeAll then blkListForEach (taskMsgRecv msg) o s else taskMsgRecv msg s t
        (.ret .success, coreSched s)

def krhinoQueueBackSend (o : ObjId) (msg : Nat) : KRet × KState :=
  msgSend s o msg false

def krhinoQueueAllSend (o : ObjId) (msg : Nat) : KRet × KState :=
  msgSend s o msg true

/-- `ringbuf_pop` on the ring of a queue, into the caller's `msg`. -/
def queuePop (o : ObjId) (msg : Nat) : KState :=
  match ringbufPop wordSize (s.queues o).ringbuf s.mem with
  | none => s.overflow
  | some (_, bs, _, r) =>
    { s with mem := s.mem.writeBytes msg bs }.modQueue o fun q => { q with ringbuf := r }

/-- `krhino_queue_recv` up to the point where the caller has its message or waits for it. -/
def krhinoQueueRecv (o : ObjId) (ticks msg : Nat) : KRet × KState :=
  if s.intrptNested > 0 ∧ ticks ≠ noWait then (.ret .notCalledByIntrpt, s)
  else if (s.blk o).objType ≠ .queue then (.ret .kobjTypeErr, s)
  else if (s.queues o).curNum > 0 then
    (.ret .success, (queuePop s o msg).modQueue o fun q => { q with curNum := q.curNum - 1 })
  else if ticks = noWait then (.ret .noPendWait, s.store32 msg 0)
  else if s.schedLock > 0 then (.ret .schedDisable, s.store32 msg 0)
  else blockActive s o ticks

/-- The end of a receive in a task whose wait is over: its status, and what it stores through the
pointer of its caller. -/
def recvEnd (given : Ktask → Nat) (task : Ktask) : Kstat × Nat :=
  match pendStateEndProc task with
  | .success => (.success, given task)
  | ret => (ret, 0)

/-- The end of `krhino_queue_recv`, which stores `*msg`. -/
def queueRecvEnd : Ktask → Kstat × Nat := recvEnd Ktask.msg

def krhinoQueueFlush (o : ObjId) : KRet × KState :=
  intrptNestedLevelChk s <|
    if (s.blk o).objType ≠ .queue then (.ret .kobjTypeErr, s)
    else
      (.ret .success, s.modQueue o fun q =>
        { q with curNum := 0, ringbuf := ringbufReset q.ringbuf })

/-! ## Queues of byte messages -/

/-- `buf_queue_create`, of `krhino_buf_queue_create`, `krhino_fix_buf_queue_create` and
`krhino_buf_queue_dyn_create`. -/
def bufQueueCreate (o : ObjId) (buf size maxMsg : Nat) (flag : AllocFlag)
    (type : RingbufType) : KRet × KState :=
  if maxMsg = 0 then (.ret .invParam, s)
  else if size = 0 then (.ret .bufQueueSizeZero, s)
  else
    let s := s.modBlk o fun _ => { blkList := [], blkPolicy := .pri, objType := .bufQueue }
    let r := ringbufInit buf size type maxMsg
    (.ret .success, s.modBufQueue o fun _ =>
      { ringbuf := r, maxMsgSize := maxMsg, curNum := 0, peakNum := 0
        minFreeBufSize := r.freesize, mmAllocFlag := flag })

def bufQueueDel (flag : AllocFlag) (s : KState) (o : ObjId) : KRet × KState :=
  objDel .bufQueue flag (s.bufQueues o).mmAllocFlag
    (fun s => s.modBufQueue o fun q => { q with ringbuf := ringbufReset q.ringbuf }) s o

def krhinoBufQueueDel : KState → ObjId → KRet × KState := bufQueueDel .staticAlloc

def krhinoBufQueueDynDel : KState → ObjId → KRet × KState := bufQueueDel .dynAlloc

/-- `buf_queue_send`, of `krhino_buf_queue_send`: the message is the `msgSize` bytes at `msg`. -/
def krhinoBufQueueSend (o : ObjId) (msg msgSize : Nat) : KRet × KState :=
  if (s.blk o).objType ≠ .bufQueue then (.ret .kobjTypeErr, s)
  else
    let k := s.bufQueues o
    if msgSize > k.maxMsgSize then (.ret .bufQueueMsgSizeOverflow, s)
    else if msgSize = 0 then (.ret .invParam, s)
    else
      match (s.blk o).blkList with
      | [] =>
        -- a fixed-length ring copies a whole block from the caller's pointer
        let data := s.mem.readBytes msg (max msgSize k.ringbuf.blkSize)
        match ringbufPush wordSize k.ringbuf s.mem data msgSize with
        | none => (.ret .success, s.overflow)
        | some (.success, r, mem) =>
          (.ret .success, { s with mem := mem }.modBufQueue o fun q =>
            { q with
              ringbuf := r
              curNum := q.curNum + 1
              peakNum := if q.peakNum < q.curNum + 1 then q.curNum + 1 else q.peakNum
              minFreeBufSize :=
                if q.minFreeBufSize > r.freesize then r.freesize else q.minFreeBufSize })
        | some (.ringbufFull, _, _) => (.ret .bufQueueFull, s)
        | some (err, _, _) => (.ret err, s)
      | t :: _ =>
        let bs := s.mem.readBytes msg msgSize
        let s := { s with mem := s.mem.writeBytes (s.tasks t).msg bs }
        let s := s.modTask t fun k => { k with bqMsgSize := msgSize }
        (.ret .success, coreSched (pendTaskWakeup s t))

/-- `krhino_buf_queue_recv` up to the point where the caller has its message or waits for it. -/
def krhinoBufQueueRecv (o : ObjId) (ticks msg size : Nat) : KRet × KState :=
  if s.intrptNested > 0 ∧ ticks ≠ noWait then (.ret .notCalledByIntrpt, s)
  else if (s.blk o).objType ≠ .bufQueue then (.ret .kobjTypeErr, s)
  else
    let k := s.bufQueues o
    if ringbufIsEmpty k.ringbuf then
      if ticks = noWait then (.ret .noPendWait, s.store32 size 0)
      else if s.schedLock > 0 then (.ret .schedDisable, s.store32 size 0)
      else blockActive (s.modTask s.active fun k => { k with msg := msg }) o ticks
    else
      match ringbufPop wordSize k.ringbuf s.mem with
      | none => (.ret .success, s.overflow)
      | some (_, bs, len, r) =>
        let s := s.modBufQueue o fun q => { q with ringbuf := r, curNum := q.curNum - 1 }
        (.ret .success, { s with mem := s.mem.writeBytes msg bs }.store32 size len)

/-- The end of `krhino_buf_queue_recv`, which stores `*size`. -/
def bufQueueRecvEnd : Ktask → Kstat × Nat := recvEnd Ktask.bqMsgSize

def krhinoBufQueueFlush (o : ObjId) : KRet × KState :=
  intrptNestedLevelChk s <|
    if (s.blk o).objType ≠ .bufQueue then (.ret .kobjTypeErr, s)
    else
      let r := ringbufReset (s.bufQueues o).ringbuf
      (.ret .success, s.modBufQueue o fun q =>
        { q with ringbuf := r, curNum := 0, peakNum := 0, minFreeBufSize := r.freesize })

/-! ## Deleting an allocated task -/

/-- `g_res_sem`, on which the task that frees memory waits. -/
def gResSem : ObjId := 0

/-- `krhino_task_dyn_del`: unlike `krhino_task_del` it looks at the state of the task first. -/
def krhinoTaskDynDel (task : Option TaskId) : KRet × KState :=
  intrptNestedLevelChk s <|
    let t := task.getD s.active
    if (s.tasks t).prio = idlePri then (.ret .taskDelNotAllowed, s)
    else if (s.tasks t).mmAllocFlag ≠ .dynAlloc then (.ret .kobjDelErr, s)
    else if t = s.active ∧ s.schedLock > 0 then (.ret .schedDisable, s)
    else if (s.tasks t).taskState = .deleted then (.ret .invTaskState, s)
    else
      let s := { s with schedLock := s.schedLock + 1 }
      let (ret, s) := krhinoSemGive s gResSem
      let s := { s with schedLock := s.schedLock - 1 }
      if ret ≠ .ret .success then (ret, s)
      else (.ret .success, coreSched (taskDelUnlink (taskMutexFree s t) t))

/-! ## The kernel as a system

A step is one kernel call, by the running task or by an interrupt handler, up to the point where
it returns or its caller is put to sleep; entering and leaving an interrupt and the tick are
steps too. -/

open Function

/-- The calls of the kernel. -/
inductive KCall where
  | taskCreate (t : TaskId) (prio ticks stackSize : Nat) (autorun : Bool) (flag : AllocFlag)
  | taskSleep (ticks : Nat)
  | taskYield
  | taskSuspend (t : TaskId)
  | taskResume (t : TaskId)
  | taskPriChange (t : TaskId) (pri : Nat)
  | taskWaitAbort (t : TaskId)
  | taskDel (t : Option TaskId)
  | taskDynDel (t : Option TaskId)
  | taskTimeSliceSet (t : TaskId) (slice : Nat)
  | schedPolicySet (t : TaskId) (policy : Nat)
  | schedDisable
  | schedEnable
  | intrptEnter
  | intrptExit
  | tickProc
  | tickUpdate (ticks : Int)
  | mutexCreate (m : ObjId) (flag : AllocFlag)
  | mutexDel (m : ObjId)
  | mutexDynDel (m : ObjId)
  | mutexLock (m : ObjId) (ticks : Nat)
  | mutexUnlock (m : ObjId)
  | semCreate (o : ObjId) (count : Nat) (flag : AllocFlag)
  | semDel (o : ObjId)
  | semDynDel (o : ObjId)
  | semGive (o : ObjId)
  | semGiveAll (o : ObjId)
  | semTake (o : ObjId) (ticks : Nat)
  | semCountSet (o : ObjId) (count : Nat)
  | eventCreate (o : ObjId) (flags : BitVec 32) (flag : AllocFlag)
  | eventDel (o : ObjId)
  | eventDynDel (o : ObjId)
  | eventGet (o : ObjId) (flags : BitVec 32) (opt actlFlags ticks : Nat)
  | eventSet (o : ObjId) (flags : BitVec 32) (opt : Nat)
  | queueCreate (o : ObjId) (start msgNum : Nat) (flag : AllocFlag)
  | queueDel (o : ObjId)
  | queueDynDel (o : ObjId)
  | queueBackSend (o : ObjId) (msg : Nat)
  | queueAllSend (o : ObjId) (msg : Nat)
  | queueRecv (o : ObjId) (ticks msg : Nat)
  | queueFlush (o : ObjId)
  | bufQueueCreate (o : ObjId) (buf size maxMsg : Nat) (flag : AllocFlag) (type : RingbufType)
  | bufQueueDel (o : ObjId)
  | bufQueueDynDel (o : ObjId)
  | bufQueueSend (o : ObjId) (msg msgSize : Nat)
  | bufQueueRecv (o : ObjId) (ticks msg size : Nat)
  | bufQueueFlush (o : ObjId)
  deriving DecidableEq, Repr

/-- A call of a function without a result. -/
def voidCall (s : KState) : KRet × KState := (.ret .success, s)

def KCall.exec (s : KState) : KCall → KRet × KState
  | taskCreate t prio ticks stackSize autorun flag =>
    Rhino.taskCreate s t prio ticks stackSize autorun flag
  | taskSleep ticks => krhinoTaskSleep s ticks
  | taskYield => krhinoTaskYield s
  | taskSuspend t => krhinoTaskSuspend s t
  | taskResume t => krhinoTaskResume s t
  | taskPriChange t pri => krhinoTaskPriChange s t pri
  | taskWaitAbort t => krhinoTaskWaitAbort s t
  | taskDel t => krhinoTaskDel s t
  | taskDynDel t => krhinoTaskDynDel s t
  | taskTimeSliceSet t slice => krhinoTaskTimeSliceSet s t slice
  | schedPolicySet t policy => krhinoSchedPolicySet s t policy
  | schedDisable => krhinoSchedDisable s
  | schedEnable => krhinoSchedEnable s
  | intrptEnter => krhinoIntrptEnter s
  | intrptExit => voidCall (krhinoIntrptExit s)
  | tickProc => voidCall (krhinoTickProc s)
  | tickUpdate ticks => voidCall (tickListUpdate s ticks)
  | mutexCreate m flag => Rhino.mutexCreate s m flag
  | mutexDel m => krhinoMutexDel s m
  | mutexDynDel m => krhinoMutexDynDel s m
  | mutexLock m ticks => krhinoMutexLock s m ticks
  | mutexUnlock m => krhinoMutexUnlock s m
  | semCreate o count flag => Rhino.semCreate s o count flag
  | semDel o => krhinoSemDel s o
  | semDynDel o => krhinoSemDynDel s o
  | semGive o => krhinoSemGive s o
  | semGiveAll o => krhinoSemGiveAll s o
  | semTake o ticks => krhinoSemTake s o ticks
  | semCountSet o count => krhinoSemCountSet s o count
  | eventCreate o flags flag => Rhino.eventCreate s o flags flag
  | eventDel o => krhinoEventDel s o
  | eventDynDel o => krhinoEventDynDel s o
  | eventGet o flags opt actlFlags ticks => krhinoEventGet s o flags opt actlFlags ticks
  | eventSet o flags opt => krhinoEventSet s o flags opt
  | queueCreate o start msgNum flag => Rhino.queueCreate s o start msgNum flag
  | queueDel o => krhinoQueueDel s o
  | queueDynDel o => krhinoQueueDynDel s o
  | queueBackSend o msg => krhinoQueueBackSend s o msg
  | queueAllSend o msg => krhinoQueueAllSend s o msg
  | queueRecv o ticks msg => krhinoQueueRecv s o ticks msg
  | queueFlush o => krhinoQueueFlush s o
  | bufQueueCreate o buf size maxMsg flag type =>
    Rhino.bufQueueCreate s o buf size maxMsg flag type
  | bufQueueDel o => krhinoBufQueueDel s o
  | bufQueueDynDel o => krhinoBufQueueDynDel s o
  | bufQueueSend o msg msgSize => krhinoBufQueueSend s o msg msgSize
  | bufQueueRecv o ticks msg size => krhinoBufQueueRecv s o ticks msg size
  | bufQueueFlush o => krhinoBufQueueFlush s o

/-- `g_idle_task`. -/
def idleTask : TaskId := 0

/-- The calls that may put the caller to sleep. Locking a mutex is one whatever its timeout:
an owner is a task that others wait for. -/
def KCall.Blocking : KCall → Prop
  | taskSleep _ => True
  | mutexLock _ _ => True
  | semTake _ ticks => ticks ≠ noWait
  | eventGet _ _ _ _ ticks => ticks ≠ noWait
  | queueRecv _ ticks _ => ticks ≠ noWait
  | bufQueueRecv _ ticks _ _ => ticks ≠ noWait
  | _ => False

instance (c : KCall) : Decidable c.Blocking := by
  cases c <;> unfold KCall.Blocking <;> infer_instance

/-- A task that has been created and not been deleted. -/
def Ktask.Live (k : Ktask) : Prop := k.taskState ≠ .seed ∧ k.taskState ≠ .deleted
  deriving Decidable

/-- The task a call creates. -/
def KCall.createdTask : KCall → Option TaskId
  | taskCreate t _ _ _ _ _ => some t
  | _ => none

/-- The object a call creates. -/
def KCall.createdObj : KCall → Option ObjId
  | mutexCreate o _ => some o
  | semCreate o _ _ => some o
  | eventCreate o _ _ => some o
  | queueCreate o _ _ _ => some o
  | bufQueueCreate o _ _ _ _ _ => some o
  | _ => none

/-- The calls of the tick interrupt. -/
def KCall.isTick : KCall → Bool
  | tickProc => true
  | tickUpdate _ => true
  | _ => false

/-- What the callers of the kernel promise. Nobody creates a task or an object that exists, the
idle task makes no blocking call and locks no mutex, not even with `RHINO_NO_WAIT`, only tasks call
`krhino_task_yield`, and interrupt entries and exits are paired, with ticks between them. -/
@[mk_iff]
structure KCall.Allowed (s : KState) (c : KCall) : Prop where
  freshTask : ∀ t ∈ c.createdTask, t < addrRange ∧ ¬ (s.tasks t).Live
  freshObj : ∀ o ∈ c.createdObj, o < addrRange ∧ (s.blk o).objType = .none
  idleRuns : c.Blocking → s.intrptNested = 0 → s.active ≠ idleTask
  yieldByTask : c = .taskYield → s.intrptNested = 0
  tickByIntrpt : c.isTick → 0 < s.intrptNested
  enterNested : c = .intrptEnter → s.intrptNested < 2 ^ 8 - 1
  exitNested : c = .intrptExit → 0 < s.intrptNested

instance (s : KState) (c : KCall) : Decidable (c.Allowed s) :=
  decidable_of_iff' _ (KCall.allowed_iff s c)

/-- The idle task as `krhino_init` creates it. -/
def idleKtask : Ktask :=
  { taskState := .rdy, prio := idlePri, bPrio := idlePri, taskList := .ready idlePri
    timeSlice := timeSliceDefault, timeTotal := timeSliceDefault, schedPolicy := .rr
    mmAllocFlag := .staticAlloc }

/-- The kernel when `krhino_start` has started the idle task: `krhino_init` has created that
task and `g_res_sem`. -/
def KState.initial (mem : Mem) : KState where
  tasks := update (fun _ => {}) idleTask idleKtask
  blk := update (fun _ => {}) gResSem { objType := .sem }
  mutexes _ := {}
  sems := update (fun _ => {}) gResSem { mmAllocFlag := .staticAlloc }
  events _ := {}
  queues _ := {}
  bufQueues _ := {}
  readyQueue := readyListInit ⟨fun _ => [], fun _ => 0, priMax⟩ idleTask idlePri
  tickList := []
  tickCount := 0
  active := idleTask
  schedLock := 0
  intrptNested := 0
  mem := mem
  corrupt := false
  hung := false
  overrun := false

/-- The kernel and its callers. A call that does not return is the last one. -/
def kernel : System KState KCall where
  init s := ∃ mem, s = .initial mem
  allowed s c := s.hung = false ∧ c.Allowed s
  step s c := (c.exec s).2

instance (s : KState) (c : KCall) : Decidable (kernel.allowed s c) :=
  inferInstanceAs (Decidable (s.hung = false ∧ c.Allowed s))

end AliosThings.Rhino
