import AliosThings.Rhino.State

/-!
# The lists of the kernel (`k_sched.c`, `k_tick.c`, `k_pend.c`)

The run queue has a circular list for each priority, entered at `cur_list_item`, a bitmap of the
priorities whose list is not empty and the smallest of them in `highest_pri`. A circular list
is the list of its members from `cur_list_item` on, so that adding at the tail is inserting
before that item, and rotating is moving the entry point by one.

A waiting task is in the blocked list of its object and, when it waits with a timeout, in the
tick list. The tick list is ordered by the time that remains; a blocked list is ordered by
priority or by arrival, as the policy of its object says.
-/

namespace AliosThings.Rhino

open Function

/-! ## The run queue -/

/-- `ready_list_init`: the first task of its priority. -/
def readyListInit (rq : Runqueue) (t : TaskId) (prio : Nat) : Runqueue :=
  { list := update rq.list prio [t]
    taskBitMap := krhinoBitmapSet rq.taskBitMap prio
    highestPri := if prio < rq.highestPri then prio else rq.highestPri }

/-- The run queue with `t` at the tail of its list. -/
def Runqueue.addTail (rq : Runqueue) (t : TaskId) (prio : Nat) : Runqueue :=
  match rq.list prio with
  | [] => readyListInit rq t prio
  | u :: l => { rq with list := update rq.list prio (u :: l ++ [t]) }

/-- The run queue with `t` at the head of its list. -/
def Runqueue.addHead (rq : Runqueue) (t : TaskId) (prio : Nat) : Runqueue :=
  match rq.list prio with
  | [] => readyListInit rq t prio
  | u :: l => { rq with list := update rq.list prio (t :: u :: l) }

variable (s : KState)

/-- The node of a task is linked into the run queue, which becomes `rq`. -/
def readyListLink (t : TaskId) (rq : Runqueue) : KState :=
  if (s.tasks t).taskList = .unlinked then
    { s with readyQueue := rq }.modTask t fun k => k.link (.ready k.prio)
  else s.fail

def readyListAddTail (t : TaskId) : KState :=
  readyListLink s t (s.readyQueue.addTail t (s.tasks t).prio)

def readyListAddHead (t : TaskId) : KState :=
  readyListLink s t (s.readyQueue.addHead t (s.tasks t).prio)

def readyListAdd (t : TaskId) : KState :=
  if (s.tasks t).prio = (s.tasks s.active).prio then readyListAddTail s t
  else readyListAddHead s t

/-- The run queue without `t`; nothing when the search for the next highest priority runs past
the bitmap. -/
def Runqueue.remove (rq : Runqueue) (t : TaskId) (prio : Nat) : Option Runqueue :=
  let list := update rq.list prio ((rq.list prio).erase t)
  match list prio with
  | _ :: _ => some { rq with list := list }
  | [] =>
    let bits := krhinoBitmapClear rq.taskBitMap prio
    if prio ≠ rq.highestPri then some { rq with list := list, taskBitMap := bits }
    else
      match krhinoFindFirstBit numWords bits with
      | some i => some { list := list, taskBitMap := bits, highestPri := i }
      | none => none

def readyListRm (t : TaskId) : KState :=
  let k := s.tasks t
  if k.taskList = .ready k.prio then
    match s.readyQueue.remove t k.prio with
    | some rq => { s with readyQueue := rq }.modTask t fun k => k.link .unlinked
    | none => s.fail
  else s.fail

def readyListHeadToTail (t : TaskId) : KState :=
  let rq := s.readyQueue
  match rq.list (s.tasks t).prio with
  | [] => s.fail
  | u :: l =>
    { s with readyQueue :=
        { rq with list := update rq.list (s.tasks t).prio (l ++ [u]) } }

/-! ## The scheduler -/

/-- `preferred_cpu_ready_task_get` and the switch to that task. -/
def switchToPreferred : KState :=
  match s.readyQueue.list s.readyQueue.highestPri with
  | [] => s.fail
  | t :: _ => { s with active := t }

def coreSched : KState :=
  if s.intrptNested > 0 then s
  else if s.schedLock > 0 then s
  else switchToPreferred s

/-- `INTRPT_NESTED_LEVEL_CHK`: the calls that are refused in an interrupt. -/
def intrptNestedLevelChk (body : KRet × KState) : KRet × KState :=
  if s.intrptNested > 0 then (.ret .notCalledByIntrpt, s) else body

def krhinoSchedDisable : KRet × KState :=
  intrptNestedLevelChk s <|
    if s.schedLock ≥ schedMaxLockCount then (.ret .schedLockCountOvf, s)
    else (.ret .success, { s with schedLock := s.schedLock + 1 })

def krhinoSchedEnable : KRet × KState :=
  intrptNestedLevelChk s <|
    if s.schedLock = 0 then (.ret .schedAlreadyEnabled, s)
    else
      let s := { s with schedLock := s.schedLock - 1 }
      if s.schedLock > 0 then (.ret .schedDisable, s)
      else (.ret .success, coreSched s)

def timeSliceUpdate : KState :=
  match s.readyQueue.list (s.tasks s.active).prio with
  | [] => s
  | t :: rest =>
    let k := s.tasks t
    if k.schedPolicy = .fifo then s
    else if rest = [] then s
    else
      let left := if k.timeSlice > 0 then k.timeSlice - 1 else k.timeSlice
      let s := s.modTask t fun k => { k with timeSlice := left }
      if left > 0 then s
      else (readyListHeadToTail s t).modTask t fun k => { k with timeSlice := k.timeTotal }

/-! ## Interrupts (`k_sys.c`) -/

/-- `krhino_intrpt_enter`; `g_intrpt_nested_level` is a byte. -/
def krhinoIntrptEnter : KRet × KState :=
  (.ret .success, { s with intrptNested := (s.intrptNested + 1) % 2 ^ 8 })

def krhinoIntrptExit : KState :=
  let s := { s with intrptNested := (s.intrptNested + 2 ^ 8 - 1) % 2 ^ 8 }
  if s.intrptNested > 0 then s
  else if s.schedLock > 0 then s
  else switchToPreferred s



/-! ## The tick list -/

/-- The unsigned difference of two tick counts. -/
def tickSub (a b : Nat) : Nat := (a + tickRange - b % tickRange) % tickRange

/-- The position `tick_list_pri_insert` finds for a task that waits `val` ticks. -/
def tickListPriInsert (remaining : TaskId → Nat) (val : Nat) (t : TaskId) :
    List TaskId → List TaskId
  | [] => [t]
  | u :: l => if remaining u > val then t :: u :: l else u :: tickListPriInsert remaining val t l

def tickListInsert (t : TaskId) (time : Nat) : KState :=
  if time > 0 then
    if t ∈ s.tickList then s.fail
    else
      let remaining u := tickSub (s.tasks u).tickMatch s.tickCount
      { s with tickList := tickListPriInsert remaining time t s.tickList }.modTask t fun k =>
        { k with
          tickMatch := (s.tickCount + time) % tickRange
          tickRemain := time
          tickHead := true }
  else s

def tickListRm (t : TaskId) : KState :=
  if (s.tasks t).tickHead then
    if t ∈ s.tickList then
      { s with tickList := s.tickList.erase t }.modTask t fun k => { k with tickHead := false }
    else s.fail
  else s

/-! ## Blocked lists -/

/-- The position `pend_list_add` finds: before the first task of a lower priority. -/
def pendListInsert (prio : TaskId → Nat) (t : TaskId) : List TaskId → List TaskId
  | [] => [t]
  | u :: l => if prio u > prio t then t :: u :: l else u :: pendListInsert prio t l

/-- A task is linked into the blocked list of `o`, whose new content is `l`. -/
def blkListLink (o : ObjId) (t : TaskId) (l : List TaskId) : KState :=
  if (s.tasks t).taskList = .unlinked then
    (s.modBlk o fun b => { b with blkList := l }).modTask t fun k => k.link (.blk o)
  else s.fail

def pendListAdd (o : ObjId) (t : TaskId) : KState :=
  blkListLink s o t (pendListInsert (fun u => (s.tasks u).prio) t (s.blk o).blkList)

/-- `klist_rm(&task->task_list)` of a task in a blocked list. -/
def blkListRm (t : TaskId) : KState :=
  match (s.tasks t).taskList with
  | .blk o =>
    (s.modBlk o fun b => { b with blkList := b.blkList.erase t }).modTask t fun k =>
      k.link .unlinked
  | _ => s.fail

/-- The switch on the task's state that `pend_task_wakeup` and `pend_task_rm` share. -/
def pendTaskUnblock (t : TaskId) : KState :=
  match (s.tasks t).taskState with
  | .pend => (readyListAdd (blkListRm s t) t).modTask t fun k => { k with taskState := .rdy }
  | .pendSuspended => (blkListRm s t).modTask t fun k => { k with taskState := .suspended }
  | _ => s

/-- The common body of `pend_task_wakeup` and `pend_task_rm`, which differ in the state they
leave for the woken task to read. -/
def pendTaskEnd (blkState : BlkStat) (s : KState) (t : TaskId) : KState :=
  (tickListRm (pendTaskUnblock s t) t).modTask t fun k =>
    { k with blkState := blkState, blkObj := none }

def pendTaskWakeup (t : TaskId) : KState := pendTaskEnd .finish s t

def pendTaskRm (t : TaskId) : KState := pendTaskEnd .del s t

/-- The end of `pend_to_blk_obj`: the task takes its place in the list of the object. -/
def blkListAdd (o : ObjId) (t : TaskId) : KState :=
  match (s.blk o).blkPolicy with
  | .fifo => blkListLink s o t ((s.blk o).blkList ++ [t])
  | .pri => pendListAdd s o t

def pendToBlkObj (o : ObjId) (t : TaskId) (timeout : Nat) : KState :=
  let s := s.modTask t fun k => { k with blkObj := some o }
  let s := if timeout ≠ waitForever then tickListInsert s t timeout else s
  let s := s.modTask t fun k => { k with taskState := .pend }
  blkListAdd (readyListRm s t) o t

def pendListReorder (t : TaskId) : KState :=
  match (s.tasks t).blkObj with
  | none => s.fail
  | some o =>
    match (s.blk o).blkPolicy with
    | .pri => pendListAdd (blkListRm s t) o t
    | .fifo => s

/-- `pend_state_end_proc`: the status with which the wait of a task has ended. -/
def pendStateEndProc (k : Ktask) : Kstat :=
  match k.blkState with
  | .finish => .success
  | .abort => .blkAbort
  | .timeout => .blkTimeout
  | .del => .blkDel
  | .invalid => .blkInvState

/-- A wait succeeds if it was finished. -/
theorem pendStateEndProc_success (k : Ktask) :
    pendStateEndProc k = .success ↔ k.blkState = .finish := by
  unfold pendStateEndProc
  cases k.blkState <;> simp

/-- The loop `while (!is_klist_empty(head)) f(first)` over the blocked list of `o`. -/
def blkListDrain (f : KState → TaskId → KState) (o : ObjId) : Nat → KState → KState
  | fuel, s =>
    match (s.blk o).blkList, fuel with
    | [], _ => s
    | _ :: _, 0 => s.hang
    | t :: _, fuel + 1 => blkListDrain f o fuel (f s t)

/-- The loop with enough turns for every task that is blocked when it starts. -/
def blkListForEach (f : KState → TaskId → KState) (o : ObjId) (s : KState) : KState :=
  blkListDrain f o (s.blk o).blkList.length s

/-- The end of a call that waits: the caller is blocked on `o` and another task runs. -/
def blockActive (o : ObjId) (ticks : Nat) : KRet × KState :=
  (.blocks, coreSched (pendToBlkObj s o s.active ticks))

/-- The body that the deletions of semaphores, events and queues share: the object is no longer
of its type, and every task blocked on it is woken. `objFlag` is the allocation flag the object
was created with, `reset` what the deletion does to the object's own data. -/
def objDel (type : KobjType) (flag objFlag : AllocFlag) (reset : KState → KState) (s : KState)
    (o : ObjId) : KRet × KState :=
  intrptNestedLevelChk s <|
    if (s.blk o).objType ≠ type then (.ret .kobjTypeErr, s)
    else if objFlag ≠ flag then (.ret .kobjDelErr, s)
    else
      let s := s.modBlk o fun b => { b with objType := .none }
      let s := blkListForEach pendTaskRm o s
      (.ret .success, coreSched (reset s))

end AliosThings.Rhino
