import AliosThings.Rhino.Ringbuf
import AliosThings.Rhino.Bitmap

/-!
# The state of the Rhino kernel

Control blocks are named by their addresses. A doubly linked list of the source is a list of
task names here, and the one pointer pair a list node has becomes a field that says which list
the node is in (`Ktask.taskList`): `klist_rm` on a node that is in no list and `klist_insert` of
a node that is in one are then visible, and make the state `corrupt`, as does every dereference
of a null pointer. A loop of the source that does not end makes the state `hung`. The singly
linked `mutex_list` of a task is kept as the pointers it consists of.

The kernel is the one of a single CPU that `krhino_start` has started, with every feature of the
kernel configured in and the remaining values those of `k_default_config.h` and of a 32-bit port.
-/

namespace AliosThings.Rhino

open Lib Function

/-- The address of a `ktask_t`. -/
abbrev TaskId := Nat

/-- The address of an object that starts with a `blk_obj_t`. -/
abbrev ObjId := Nat

/-! ## Configuration -/

/-- `RHINO_CONFIG_PRI_MAX`. -/
def priMax : Nat := 62

/-- `RHINO_IDLE_PRI`. -/
def idlePri : Nat := priMax - 1

/-- `NUM_WORDS` of the ready bitmap. -/
def numWords : Nat := (priMax + 31) / 32

/-- `RHINO_CONFIG_TIME_SLICE_DEFAULT`. -/
def timeSliceDefault : Nat := 50

/-- `SCHED_MAX_LOCK_COUNT`. -/
def schedMaxLockCount : Nat := 200

/-- `RHINO_NO_WAIT`. -/
def noWait : Nat := 0

/-- The range of `tick_t`. -/
def tickRange : Nat := 2 ^ 64

/-- `RHINO_WAIT_FOREVER`. -/
def waitForever : Nat := tickRange - 1

/-- The number of addresses. -/
def addrRange : Nat := 2 ^ 32

/-- `sizeof(size_t)` and `sizeof(void *)`. -/
def wordSize : Nat := 4

/-- `(sem_count_t)-1`. -/
def semCountMax : Nat := 2 ^ 32 - 1

/-- `(mutex_nested_t)-1`. -/
def mutexNestedMax : Nat := 2 ^ 32 - 1

/-- `(suspend_nested_t)-1`. -/
def suspendNestedMax : Nat := 2 ^ 8 - 1

/-! ## Enumerations -/

/-- `task_stat_t`. -/
inductive TaskStat where
  | seed
  | rdy
  | pend
  | suspended
  | pendSuspended
  | sleep
  | sleepSuspended
  | deleted
  deriving DecidableEq, Repr

/-- `blk_state_t`. -/
inductive BlkStat where
  | finish
  | abort
  | timeout
  | del
  | invalid
  deriving DecidableEq, Repr

/-- `blk_policy_t`. -/
inductive BlkPolicy where
  | pri
  | fifo
  deriving DecidableEq, Repr

/-- `kobj_type_t`. -/
inductive KobjType where
  | none
  | sem
  | mutex
  | queue
  | bufQueue
  | timer
  | event
  | mm
  deriving DecidableEq, Repr

/-- The field `mm_alloc_flag`: zeroed memory, `K_OBJ_STATIC_ALLOC` or `K_OBJ_DYN_ALLOC`. -/
inductive AllocFlag where
  | unset
  | staticAlloc
  | dynAlloc
  deriving DecidableEq, Repr

/-- `KSCHED_FIFO` and `KSCHED_RR`. -/
inductive SchedPolicy where
  | fifo
  | rr
  deriving DecidableEq, Repr

/-- The wait options of an event: `RHINO_OR`, `RHINO_OR_CLEAR`, `RHINO_AND`,
`RHINO_AND_CLEAR`. -/
inductive EventOpt where
  | or
  | orClear
  | and
  | andClear
  deriving DecidableEq, Repr

/-- Which list the node `task_list` of a task is linked in. -/
inductive Link where
  | unlinked
  | ready (prio : Nat)
  | blk (obj : ObjId)
  deriving DecidableEq, Repr

/-! ## Control blocks -/

/-- `ktask_t`. The defaults are those of zeroed memory. -/
structure Ktask where
  taskState : TaskStat := .seed
  blkState : BlkStat := .finish
  prio : Nat := 0
  bPrio : Nat := 0
  suspendCount : Nat := 0
  taskList : Link := .unlinked
  mutexList : Option ObjId := none
  blkObj : Option ObjId := none
  tickMatch : Nat := 0
  tickRemain : Nat := 0
  /-- Whether `tick_head` is non-null. -/
  tickHead : Bool := false
  timeSlice : Nat := 0
  timeTotal : Nat := 0
  schedPolicy : SchedPolicy := .fifo
  msg : Nat := 0
  bqMsgSize : Nat := 0
  pendFlags : BitVec 32 := 0
  pendInfo : Nat := 0
  pendOption : EventOpt := .or
  mmAllocFlag : AllocFlag := .unset
  deriving DecidableEq, Repr

/-- The node `task_list` moves to another list. -/
def Ktask.link (k : Ktask) (l : Link) : Ktask := { k with taskList := l }

/-- `blk_obj_t`. -/
structure BlkObj where
  blkList : List TaskId := []
  blkPolicy : BlkPolicy := .pri
  objType : KobjType := .none
  deriving DecidableEq, Repr

/-- `kmutex_t` after its `blk_obj`. -/
structure Kmutex where
  mutexTask : Option TaskId := none
  mutexList : Option ObjId := none
  ownerNested : Nat := 0
  mmAllocFlag : AllocFlag := .unset
  deriving DecidableEq, Repr

/-- `ksem_t` after its `blk_obj`. -/
structure Ksem where
  count : Nat := 0
  peakCount : Nat := 0
  mmAllocFlag : AllocFlag := .unset
  deriving DecidableEq, Repr

/-- `kevent_t` after its `blk_obj`. -/
structure Kevent where
  flags : BitVec 32 := 0
  mmAllocFlag : AllocFlag := .unset
  deriving DecidableEq, Repr

/-- `kqueue_t` after its `blk_obj`; `size`, `curNum` and `peakNum` are those of `msg_q_t`. -/
structure Kqueue where
  ringbuf : KRingbuf := ringbufInit 0 0 .fix wordSize
  size : Nat := 0
  curNum : Nat := 0
  peakNum : Nat := 0
  mmAllocFlag : AllocFlag := .unset
  deriving Repr

/-- `kbuf_queue_t` after its `blk_obj`. -/
structure KbufQueue where
  ringbuf : KRingbuf := ringbufInit 0 0 .dyn 0
  maxMsgSize : Nat := 0
  curNum : Nat := 0
  peakNum : Nat := 0
  minFreeBufSize : Nat := 0
  mmAllocFlag : AllocFlag := .unset
  deriving Repr

/-- `runqueue_t`. -/
structure Runqueue where
  /-- The ready list of each priority, from `cur_list_item` on. -/
  list : Nat → List TaskId
  taskBitMap : Nat → BitVec 32
  highestPri : Nat

/-- The kernel: control blocks, run queue, tick list and the counters of the scheduler. -/
structure KState where
  tasks : TaskId → Ktask
  blk : ObjId → BlkObj
  mutexes : ObjId → Kmutex
  sems : ObjId → Ksem
  events : ObjId → Kevent
  queues : ObjId → Kqueue
  bufQueues : ObjId → KbufQueue
  /-- `g_ready_queue`. -/
  readyQueue : Runqueue
  /-- `g_tick_head`. -/
  tickList : List TaskId
  /-- `g_tick_count`. -/
  tickCount : Nat
  /-- `g_active_task`. -/
  active : TaskId
  schedLock : Nat
  intrptNested : Nat
  /-- The memory messages and event flags are delivered in. -/
  mem : Mem
  /-- A list was used against its structure, or a null pointer followed. -/
  corrupt : Bool
  /-- A loop that does not end was entered. -/
  hung : Bool
  /-- A copy left the buffer of its ring. -/
  overrun : Bool

variable (s : KState)

namespace KState

/-! ## Updates of one control block -/

def setTask (t : TaskId) (k : Ktask) : KState :=
  { s with tasks := update s.tasks t k }

/-- Some fields of a task change. -/
def modTask (t : TaskId) (f : Ktask → Ktask) : KState :=
  s.setTask t (f (s.tasks t))

def modBlk (o : ObjId) (f : BlkObj → BlkObj) : KState :=
  { s with blk := update s.blk o (f (s.blk o)) }

def modMutex (m : ObjId) (f : Kmutex → Kmutex) : KState :=
  { s with mutexes := update s.mutexes m (f (s.mutexes m)) }

def modSem (o : ObjId) (f : Ksem → Ksem) : KState :=
  { s with sems := update s.sems o (f (s.sems o)) }

def modEvent (o : ObjId) (f : Kevent → Kevent) : KState :=
  { s with events := update s.events o (f (s.events o)) }

def modQueue (o : ObjId) (f : Kqueue → Kqueue) : KState :=
  { s with queues := update s.queues o (f (s.queues o)) }

def modBufQueue (o : ObjId) (f : KbufQueue → KbufQueue) : KState :=
  { s with bufQueues := update s.bufQueues o (f (s.bufQueues o)) }

/-- A misused list or a null pointer. -/
def fail : KState := { s with corrupt := true }

/-- A loop that does not end. -/
def hang : KState := { s with hung := true }

/-- A copy outside the buffer of a ring. -/
def overflow : KState := { s with overrun := true }

/-- `*p = v` for a 32-bit `v`. -/
def store32 (p v : Nat) : KState :=
  { s with mem := s.mem.writeBytes p (leBytes wordSize v) }

/-- `*p` for a pointer to a 32-bit word. -/
def load32 (p : Nat) : BitVec 32 := .ofNat 32 (leNat (s.mem.readBytes p wordSize))

end KState

/-- A word is read back. -/
theorem load32_store32 (a : Nat) (v : BitVec 32) : (s.store32 a v.toNat).load32 a = v := by
  have back := Mem.readBytes_writeBytes s.mem a (leBytes wordSize v.toNat)
  rw [leBytes_length] at back
  unfold KState.load32 KState.store32
  rw [back, leNat_leBytes (by simpa [wordSize] using v.isLt)]
  simp

theorem leBytes_ofNat (n : Nat) :
    leBytes wordSize (BitVec.ofNat 32 n).toNat = leBytes wordSize n := by
  exact leBytes_mod wordSize n

theorem load32_store32_ofNat (a n : Nat) : (s.store32 a n).load32 a = BitVec.ofNat 32 n := by
  have same : s.store32 a n = s.store32 a (BitVec.ofNat 32 n).toNat := by
    rw [KState.store32, KState.store32, leBytes_ofNat]
  rw [same]
  exact load32_store32 s a _

/-- What a kernel call gives its caller: a status, or nothing yet because the caller has been
put to sleep inside the call. -/
inductive KRet where
  | ret (stat : Kstat)
  | blocks
  deriving DecidableEq, Repr

end AliosThings.Rhino
