import AliosThings.Rhino.Sched

/-!
# Mutexes and priority inheritance (`k_mutex.c`, `task_pri_change` of `k_task.c`)

The mutexes a task owns form a singly linked list through `mutex_list`, from the task's own
field on. The list is followed as pointers, with a bound on the number of steps: more steps
than there are addresses mean that the list is a cycle, and the state is `hung`.
-/

namespace AliosThings.Rhino

/-! ## The list of owned mutexes -/

/-- A place that holds a `mutex_list` pointer: the `prev` of `mutex_pri_look`. -/
inductive MutexRef where
  | task (t : TaskId)
  | mutex (m : ObjId)
  deriving DecidableEq, Repr

variable (s : KState)

/-- `*prev`. -/
def MutexRef.load : MutexRef → Option ObjId
  | .task t => (s.tasks t).mutexList
  | .mutex m => (s.mutexes m).mutexList

/-- `*prev = v`. -/
def MutexRef.store (v : Option ObjId) : MutexRef → KState
  | .task t => s.modTask t fun k => { k with mutexList := v }
  | .mutex m => s.modMutex m fun k => { k with mutexList := v }

/-- The priority of the first task blocked on `m`, or `pri` when there is none. -/
def firstBlkPri (m : ObjId) (pri : Nat) : Nat :=
  match (s.blk m).blkList with
  | [] => pri
  | w :: _ => (s.tasks w).prio

/-- The loop of `mutex_pri_limit` from the mutex `cur`; `none` when the list does not end. -/
def mutexPriLimitLoop (s : KState) : Nat → Option ObjId → Nat → Nat → Option Nat
  | _, none, _, highPri => some highPri
  | 0, some _, _, _ => none
  | fuel + 1, some m, pri, highPri =>
    let pri := firstBlkPri s m pri
    mutexPriLimitLoop s fuel (s.mutexes m).mutexList pri (if pri < highPri then pri else highPri)

def mutexPriLimit (t : TaskId) (pri : Nat) : Option Nat :=
  mutexPriLimitLoop s addrRange (s.tasks t).mutexList pri pri

/-- The loop of `mutex_pri_look` at `prev`; it takes `rel` out of the list on its way. -/
def mutexPriLookLoop (rel : Option ObjId) : Nat → MutexRef → Nat → Nat → KState → Nat × KState
  | fuel, prev, pri, newPri, s =>
    match prev.load s, fuel with
    | none, _ => (newPri, s)
    | some _, 0 => (newPri, s.hang)
    | some m, fuel + 1 =>
      if some m = rel then
        mutexPriLookLoop rel fuel prev pri newPri (prev.store s (s.mutexes m).mutexList)
      else
        let pri := firstBlkPri s m pri
        mutexPriLookLoop rel fuel (.mutex m) pri (if newPri > pri then pri else newPri) s

def mutexPriLook (t : TaskId) (rel : Option ObjId) : Nat × KState :=
  mutexPriLookLoop rel addrRange (.task t) (s.tasks t).bPrio (s.tasks t).bPrio s

/-! ## Changing a priority -/

/-- More turns than the loop of `task_pri_change` can take when it ends: each turn changes one
priority, always in the same direction. -/
def priChangeTurns : Nat := addrRange * priMax

/-- The branch of `task_pri_change` for a ready task. -/
def readyPriChange (t : TaskId) (newPri : Nat) : KState :=
  let s := readyListRm s t
  let s := s.modTask t fun k => { k with prio := newPri }
  if t = s.active then readyListAddHead s t else readyListAddTail s t

/-- What the switch of `task_pri_change` does with the task itself: it takes its new priority
and its new place in the list it is linked in. -/
def taskPriSet (t : TaskId) (newPri : Nat) : KState :=
  match (s.tasks t).taskState with
  | .rdy => readyPriChange s t newPri
  | .pend | .pendSuspended =>
    pendListReorder (s.modTask t fun k => { k with prio := newPri }) t
  | _ => s.modTask t fun k => { k with prio := newPri }

/-- The loop of `task_pri_change`, which follows the chain of mutex owners. -/
def taskPriChangeLoop : Nat → KState → TaskId → Nat → Kstat × KState
  | 0, s, _, _ => (.success, s.hang)
  | fuel + 1, s, t, newPri =>
    if (s.tasks t).prio = newPri then (.success, s)
    else
      match (s.tasks t).taskState with
      | .seed | .deleted => (.invTaskState, s)
      | .rdy | .sleep | .suspended | .sleepSuspended => (.success, taskPriSet s t newPri)
      | .pend | .pendSuspended =>
        let oldPri := (s.tasks t).prio
        let s := taskPriSet s t newPri
        match (s.tasks t).blkObj with
        | none => (.success, s.fail)
        | some o =>
          if (s.blk o).objType = .mutex then
            match (s.mutexes o).mutexTask with
            | none => (.success, s.fail)
            | some owner =>
              if (s.tasks owner).prio > newPri then
                -- the waiter became more urgent than the owner
                taskPriChangeLoop fuel s owner newPri
              else if (s.tasks owner).prio = oldPri then
                -- the owner may have had its priority from this waiter
                let (pri, s) := mutexPriLook s owner none
                if pri ≠ (s.tasks owner).prio then taskPriChangeLoop fuel s owner pri
                else (.success, s)
              else (.success, s)
          else (.success, s)

def taskPriChange (t : TaskId) (newPri : Nat) : Kstat × KState :=
  taskPriChangeLoop (priChangeTurns + 1) s t newPri

def mutexRelease (t : TaskId) (rel : Option ObjId) : KState :=
  let (newPri, s) := mutexPriLook s t rel
  if newPri ≠ (s.tasks t).prio then (taskPriChange s t newPri).2 else s

def mutexTaskPriReset (t : TaskId) : KState :=
  match (s.tasks t).blkObj with
  | none => s.fail
  | some o =>
    if (s.blk o).objType = .mutex then
      match (s.mutexes o).mutexTask with
      | none => s.fail
      | some owner =>
        if (s.tasks owner).prio = (s.tasks t).prio then mutexRelease s owner none else s
    else s

/-! ## The mutex calls -/

/-- `mutex_create`, of `krhino_mutex_create` and `krhino_mutex_dyn_create`. -/
def mutexCreate (m : ObjId) (flag : AllocFlag) : KRet × KState :=
  let s := s.modBlk m fun _ => { blkList := [], blkPolicy := .pri, objType := .mutex }
  (.ret .success, s.modMutex m fun k =>
    { k with mutexTask := none, mutexList := none, mmAllocFlag := flag })

/-- The owner of a mutex that is being deleted, if it has one, gives it back. -/
def mutexOwnerRelease (m : ObjId) : KState :=
  match (s.mutexes m).mutexTask with
  | some owner => mutexRelease s owner (some m)
  | none => s

/-- The body of `krhino_mutex_del` and, for an object of the other kind of allocation, of
`krhino_mutex_dyn_del`. -/
def mutexDel (flag : AllocFlag) (s : KState) (m : ObjId) : KRet × KState :=
  intrptNestedLevelChk s <|
    if (s.blk m).objType ≠ .mutex then (.ret .kobjTypeErr, s)
    else if (s.mutexes m).mmAllocFlag ≠ flag then (.ret .kobjDelErr, s)
    else
      let s := s.modBlk m fun b => { b with objType := .none }
      let s := blkListForEach pendTaskRm m (mutexOwnerRelease s m)
      (.ret .success, coreSched s)

def krhinoMutexDel : KState → ObjId → KRet × KState := mutexDel .staticAlloc

def krhinoMutexDynDel : KState → ObjId → KRet × KState := mutexDel .dynAlloc

/-- A task becomes the owner of `m`: `mutex_task`, and `m` at the head of the task's list. -/
def mutexSetOwner (m : ObjId) (t : TaskId) : KState :=
  let s := s.modMutex m fun k => { k with mutexTask := some t, mutexList := (s.tasks t).mutexList }
  s.modTask t fun k => { k with mutexList := some m }

def krhinoMutexLock (m : ObjId) (ticks : Nat) : KRet × KState :=
  intrptNestedLevelChk s <|
    if (s.blk m).objType ≠ .mutex then (.ret .kobjTypeErr, s)
    else if (s.mutexes m).mutexTask = some s.active then
      if (s.mutexes m).ownerNested = mutexNestedMax then (.ret .mutexNestedOvf, s)
      else
        (.ret .mutexOwnerNested,
          s.modMutex m fun k => { k with ownerNested := k.ownerNested + 1 })
    else
      match (s.mutexes m).mutexTask with
      | none =>
        let s := mutexSetOwner s m s.active
        (.ret .success, s.modMutex m fun k => { k with ownerNested := 1 })
      | some owner =>
        if ticks = noWait then (.ret .noPendWait, s)
        else if s.schedLock > 0 then (.ret .schedDisable, s)
        else
          let s := if (s.tasks s.active).prio < (s.tasks owner).prio then
              (taskPriChange s owner (s.tasks s.active).prio).2
            else s
          let s := pendToBlkObj s m s.active ticks
          (.blocks, coreSched s)

def krhinoMutexUnlock (m : ObjId) : KRet × KState :=
  intrptNestedLevelChk s <|
    if (s.blk m).objType ≠ .mutex then (.ret .kobjTypeErr, s)
    else if (s.mutexes m).mutexTask ≠ some s.active then (.ret .mutexNotReleasedByOwner, s)
    else
      let nested := ((s.mutexes m).ownerNested + 2 ^ 32 - 1) % 2 ^ 32
      let s := s.modMutex m fun k => { k with ownerNested := nested }
      if nested > 0 then (.ret .mutexOwnerNested, s)
      else
        let s := mutexRelease s s.active (some m)
        match (s.blk m).blkList with
        | [] => (.ret .success, s.modMutex m fun k => { k with mutexTask := none })
        | t :: _ =>
          let s := pendTaskWakeup s t
          let s := mutexSetOwner s m t
          let s := s.modMutex m fun k => { k with ownerNested := 1 }
          (.ret .success, coreSched s)

end AliosThings.Rhino
