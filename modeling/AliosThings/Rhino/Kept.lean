import AliosThings.Rhino.PriChange

/-!
# What the inner steps of a kernel call keep

`Kept X s s'` relates the states before and after a part of a kernel call: the lists of `s'` are
sound, no object changes its type, nobody joins the list of a deleted object, the scheduler is
where it was, and the ready tasks outside `X` are still ready. The relation is transitive, and
this file establishes it for every way in which a task is woken, blocked, timed out or deleted.
-/

namespace AliosThings.Rhino

open Function

structure Kept (X : Set TaskId) (s s' : KState) : Prop where
  core : Core s'
  type : ∀ o, (s'.blk o).objType = (s.blk o).objType
  dead : ∀ o, (s.blk o).objType = .none → (s.blk o).blkList = [] → (s'.blk o).blkList = []
  active : s'.active = s.active
  schedLock : s'.schedLock = s.schedLock
  intrptNested : s'.intrptNested = s.intrptNested
  ready : ∀ u, u ∉ X → (s.tasks u).taskState = .rdy → (s'.tasks u).taskState = .rdy

variable {X Y : Set TaskId} {s s' s'' : KState}

theorem Kept.refl (h : Core s) : Kept X s s :=
  ⟨h, fun _ => rfl, fun _ _ empty => empty, rfl, rfl, rfl, fun _ _ state => state⟩

/-- Two steps are one. -/
theorem Kept.trans (h : Kept X s s') (h' : Kept X s' s'') : Kept X s s'' where
  core := h'.core
  type o := (h'.type o).trans (h.type o)
  dead o none empty := h'.dead o ((h.type o).trans none) (h.dead o none empty)
  active := h'.active.trans h.active
  schedLock := h'.schedLock.trans h.schedLock
  intrptNested := h'.intrptNested.trans h.intrptNested
  ready u out state := h'.ready u out (h.ready u out state)

theorem Kept.mono (h : Kept X s s') (sub : X ⊆ Y) : Kept Y s s' :=
  { h with ready := fun u out => h.ready u fun inX => out (sub inX) }

/-- A walk along the owners keeps the rest. -/
theorem Reprioritised.kept (h : Reprioritised s s') (core : Core s') : Kept X s s' where
  core := core
  type := h.waiters.type
  dead o _ empty := (h.waiters.nil_iff o).mpr empty
  active := h.active
  schedLock := h.schedLock
  intrptNested := h.intrptNested
  ready u _ state := (h.taskState u).trans state

/-- A step that changes one record, and the blocked lists at most by taking the task out. -/
theorem Kept.put {t : TaskId} {k : Ktask} {rq : Runqueue} {blk : ObjId → BlkObj}
    {ticks : List TaskId} (core : Core (s.put t k rq blk ticks))
    (type : ∀ o, (blk o).objType = (s.blk o).objType)
    (dead : ∀ o, (s.blk o).objType = .none → (s.blk o).blkList = [] → (blk o).blkList = [])
    (ready : t ∈ X ∨ ((s.tasks t).taskState = .rdy → k.taskState = .rdy)) :
    Kept X s (s.put t k rq blk ticks) where
  core := core
  type := type
  dead := dead
  active := rfl
  schedLock := rfl
  intrptNested := rfl
  ready u out state := by
    rcases eq_or_ne u t with rfl | other
    · simpa using (ready.resolve_left out) state
    · simpa [other] using state

/-- A change of a record that the lists do not depend on. -/
theorem Kept.modTask (h : Core s) (t : TaskId) {f : Ktask → Ktask}
    (state : (f (s.tasks t)).taskState = (s.tasks t).taskState)
    (link : (f (s.tasks t)).taskList = (s.tasks t).taskList)
    (prio : (f (s.tasks t)).prio = (s.tasks t).prio)
    (obj : (f (s.tasks t)).blkObj = (s.tasks t).blkObj)
    (tick : (f (s.tasks t)).tickHead = (s.tasks t).tickHead)
    (bPrio : (f (s.tasks t)).bPrio < priMax) : Kept X s (s.modTask t f) :=
  .put (h.modTask t state link prio obj tick bPrio) (fun _ => rfl) (fun _ _ empty => empty)
    (.inr fun rdy => state.trans rdy)

/-- A step on data that the lists do not depend on. -/
theorem Kept.congr (h : Core s) (same : s'.lists = s.lists) (active : s'.active = s.active)
    (schedLock : s'.schedLock = s.schedLock)
    (intrptNested : s'.intrptNested = s.intrptNested) : Kept X s s' := by
  have tasks : s'.tasks = s.tasks := congrArg (·.1) same
  have blk : s'.blk = s.blk := congrArg (·.2.1) same
  refine ⟨h.congr same, ?_, ?_, active, schedLock, intrptNested, ?_⟩ <;> simp [tasks, blk]

/-! ## Waking and blocking -/

variable {t : TaskId} {o : ObjId} {state : TaskStat} {bs : BlkStat}

theorem blkWith_type (b : ObjId → BlkObj) (o : ObjId) (l : List TaskId) (a : ObjId) :
    (blkWith b o l a).objType = (b a).objType := by
  rcases eq_or_ne a o with rfl | other <;> simp [*]

theorem blkWith_policy (b : ObjId → BlkObj) (o : ObjId) (l : List TaskId) (a : ObjId) :
    (blkWith b o l a).blkPolicy = (b a).blkPolicy := by
  rcases eq_or_ne a o with rfl | other <;> simp [*]

theorem blkWith_blkList (b : ObjId → BlkObj) (o : ObjId) (l : List TaskId) (a : ObjId) :
    (blkWith b o l a).blkList = if a = o then l else (b a).blkList := by
  rcases eq_or_ne a o with rfl | other <;> simp [*]

theorem blkWithout_dead (b : ObjId → BlkObj) (o : ObjId) (t : TaskId) (a : ObjId)
    (empty : (b a).blkList = []) : (blkWithout b o t a).blkList = [] := by
  rw [blkWith_blkList]
  split
  · next same => rw [← same, empty]; rfl
  · exact empty

/-- A task leaves the list of `o`. -/
theorem Kept.unblocked {k : Ktask} {rq : Runqueue} {ticks : List TaskId} (h : Core s)
    (linked : (s.tasks t).taskList = .blk o)
    (core : Core (s.put t k rq (blkWithout s.blk o t) ticks)) :
    Kept X s (s.put t k rq (blkWithout s.blk o t) ticks) := by
  refine .put core (blkWith_type _ _ _) (fun a _ => blkWithout_dead _ _ _ a) (.inr fun rdy => ?_)
  rcases ((h.task t).of_blk linked).1 with state | state <;> rw [rdy] at state <;> cases state

/-- The end of a wait keeps the rest. -/
theorem pendTaskEnd_kept (bs : BlkStat) (h : Core s) (linked : (s.tasks t).taskList = .blk o) :
    Kept X s (pendTaskEnd bs s t) := by
  obtain ⟨rq, eq, core⟩ := pendTaskEnd_eq bs h linked
  rw [eq] at core ⊢
  exact .unblocked h linked core

/-- The start of a wait stops the task only. -/
theorem pendToBlkObj_kept (timeout : Nat) (h : Core s) (notIdle : t ≠ idleTask)
    (state : (s.tasks t).taskState = .rdy) (alive : (s.blk o).objType ≠ .none)
    (owned : (s.blk o).objType = .mutex → (s.mutexes o).mutexTask ≠ none) :
    Kept {t} s (pendToBlkObj s o t timeout) := by
  obtain ⟨rq, ticks, tm, tr, th, eq, core⟩ := pendToBlkObj_eq h timeout notIdle state owned
  rw [eq] at core ⊢
  refine .put core (blkWith_type _ _ _) (fun a none empty => ?_) (.inl rfl)
  rw [blkWith_blkList, if_neg]
  · exact empty
  · rintro rfl
    exact alive none

/-! ## A task gives up its wait -/

/-- The record of a task that has been taken out of the tick list. -/
def Ktask.unticked (k : Ktask) : Ktask := { k with tickHead := false }

/-- The record of a task that has been taken out of its lists. -/
def Ktask.off (k : Ktask) : Ktask := { k with tickHead := false, taskList := .unlinked }

/-- The record of a task that has been taken out of a blocked list and the tick list and put into
`state`; `blk_obj` still names the object it waited for. -/
def Ktask.left (k : Ktask) (state : TaskStat) (bs : BlkStat) : Ktask :=
  { k with
    taskState := state, blkState := bs, tickHead := false
    taskList := if state = .rdy then .ready k.prio else .unlinked }

/-- `t` has left the list of `o`. -/
abbrev KState.putLeft (s : KState) (t : TaskId) (o : ObjId) (state : TaskStat) (bs : BlkStat)
    (rq : Runqueue) : KState :=
  s.put t ((s.tasks t).left state bs) rq (blkWithout s.blk o t) (s.tickList.erase t)

theorem tickListRm_modTask_eq (h : Core s) (f : Ktask → Ktask)
    (tick : (f (s.tasks t)).tickHead = (s.tasks t).tickHead) :
    tickListRm (s.modTask t f) t =
      s.put t (f (s.tasks t)).unticked s.readyQueue s.blk (s.tickList.erase t) :=
  put_tickListRm (h.tick.update_same tick)

theorem tickListRm_eq (h : Core s) :
    tickListRm s t =
      s.put t (s.tasks t).unticked s.readyQueue s.blk (s.tickList.erase t) := by
  have rm := tickListRm_modTask_eq (t := t) h id rfl
  rwa [modTask_eq, id, put_self] at rm

/-- The task is in no list. -/
theorem unlink_eq (h : Core s) (linked : (s.tasks t).taskList = .blk o) :
    blkListRm (tickListRm s t) t = s.put t (s.tasks t).off s.readyQueue
        (blkWithout s.blk o t) (s.tickList.erase t) := by
  rw [tickListRm_eq h, put_blkListRm]
  · rfl
  · exact linked

/-- The lists after a wait has ended. -/
theorem Core.left (h : Core s) (linked : (s.tasks t).taskList = .blk o) {rq : Runqueue}
    (out : state = .rdy ∨ state = .suspended ∨ state = .deleted)
    (runq : RunqOk rq (update s.tasks t ((s.tasks t).left state bs))) :
    Core (s.putLeft t o state bs rq) := by
  refine h.unblocked linked runq ?_ (fun a => ?_) rfl rfl rfl
  · rcases out with rfl | rfl | rfl <;> simp [TaskOk, Ktask.left]
  · rcases out with rfl | rfl | rfl <;> simp [Ktask.left]

/-- Out of the lists and ready again, as after a timeout or an abort. -/
theorem leaveReady_eq (bs : BlkStat) (h : Core s) (linked : (s.tasks t).taskList = .blk o) :
    ∃ rq, (readyListAdd (blkListRm (tickListRm s t) t) t).modTask t
          (fun k => { k with blkState := bs, taskState := .rdy }) =
        s.putLeft t o .rdy bs rq ∧
      Core (s.putLeft t o .rdy bs rq) := by
  rw [unlink_eq h linked]
  obtain ⟨rq, added, eq⟩ := put_readyListAdd
    (k := (s.tasks t).off) rfl
  refine ⟨rq, ?_, h.left linked (.inl rfl) ?_⟩
  · rw [eq, put_modTask]
    rfl
  · exact h.runq.added added (blk_ne_ready linked) rfl (h.prio t)

/-- Out of the lists, and not ready. -/
theorem leaveOff_eq (state : TaskStat) (bs : BlkStat) {f : Ktask → Ktask} (h : Core s)
    (linked : (s.tasks t).taskList = .blk o) (out : state = .suspended ∨ state = .deleted)
    (record : f (s.tasks t).off = (s.tasks t).left state bs) :
    (blkListRm (tickListRm s t) t).modTask t f =
        s.putLeft t o state bs s.readyQueue ∧
      Core (s.putLeft t o state bs s.readyQueue) := by
  refine ⟨?_, h.left linked (.inr out) (h.runq.update_not_ready (blk_ne_ready linked) ?_)⟩
  · rw [unlink_eq h linked, put_modTask, record]
  · rcases out with rfl | rfl <;> simp [Ktask.left]

/-! ## A task moves between the lists that are not blocked lists -/

/-- `s'` is `s` after `t` has moved to the state `st`, with the blocked lists as they were. -/
structure Relisted (s : KState) (t : TaskId) (st : TaskStat) (s' : KState) : Prop where
  core : Core s'
  record : ∃ k rq ticks, s' = s.put t k rq s.blk ticks ∧ k.taskState = st ∧
    k.prio = (s.tasks t).prio ∧ k.bPrio = (s.tasks t).bPrio ∧ k.mutexList = (s.tasks t).mutexList

/-- A task that changes lists leaves the others alone. -/
theorem Relisted.kept {st : TaskStat} (h : Relisted s t st s')
    (ready : t ∈ X ∨ ((s.tasks t).taskState = .rdy → st = .rdy)) : Kept X s s' := by
  obtain ⟨core, k, rq, ticks, rfl, state, -⟩ := h
  refine .put core (fun _ => rfl) (fun _ _ empty => empty) ?_
  rwa [state]

section Relisting

variable {k k' : Ktask} {rq : Runqueue} {ticks : List TaskId}

theorem Core.relisted {st : TaskStat} (h : Core s) (notIdle : t ≠ idleTask)
    (state : k.taskState = st) (before : ∀ a, (s.tasks t).taskList ≠ .blk a)
    (after : ∀ a, k.taskList ≠ .blk a) (runq : RunqOk rq (update s.tasks t k))
    (tick : TickOk ticks (update s.tasks t k)) (task : TaskOk k) (prio : k.prio = (s.tasks t).prio)
    (bPrio : k.bPrio = (s.tasks t).bPrio) (owned : k.mutexList = (s.tasks t).mutexList) :
    Relisted s t st (s.put t k rq s.blk ticks) :=
  ⟨h.change notIdle runq (h.blk.update_not_blk before after) tick task (prio ▸ h.prio t)
    (bPrio ▸ h.bPrio t) h.owner, k, rq, ticks, rfl, state, prio, bPrio, owned⟩

/-- The task is in no list and becomes ready. -/
theorem put_readyAgain (ticks : List TaskId) (h : Core s) (free : (s.tasks t).taskList = .unlinked)
    (unlinked : k.taskList = .unlinked) (prio : k.prio = (s.tasks t).prio) :
    ∃ q, readyListAdd (s.put t k s.readyQueue s.blk ticks) t =
        s.put t (k.link (.ready k.prio)) q s.blk ticks ∧
      ∀ k' : Ktask, k'.taskList = .ready k'.prio → k'.prio = k.prio →
        RunqOk q (update s.tasks t k') := by
  obtain ⟨q, added, eq⟩ := put_readyListAdd unlinked
  refine ⟨q, eq, fun k' link same => h.runq.added (same ▸ added) (fun p => ?_) link ?_⟩
  · simp [free]
  · rw [same, prio]
    exact h.prio t

/-- The task leaves the run queue. -/
theorem put_readyOff (ticks : List TaskId) (h : Core s) (notIdle : t ≠ idleTask)
    (state : (s.tasks t).taskState = .rdy)
    (link : k.taskList = (s.tasks t).taskList) (prio : k.prio = (s.tasks t).prio) :
    ∃ q, readyListRm (s.put t k s.readyQueue s.blk ticks) t =
        s.put t (k.link .unlinked) q s.blk ticks ∧
      ∀ k' : Ktask, k'.taskList = .unlinked → RunqOk q (update s.tasks t k') := by
  have linked : k.taskList = .ready k.prio := by
    rw [link, prio]
    exact ((h.task t).of_rdy state).1
  obtain ⟨q, runq, eq⟩ := put_readyListRm
    (h.runq.update_same link prio) notIdle h.idleLink linked
  exact ⟨q, eq, fun k' free => runq k' fun p => by simp [free]⟩

theorem unlinked_ne_blk (free : k.taskList = .unlinked) (a : ObjId) : k.taskList ≠ .blk a := by
  simp [free]

/-- `k'` is in the lists of `k` and has its priorities. -/
structure Ktask.Alike (k' k : Ktask) : Prop where
  taskList : k'.taskList = k.taskList
  tickHead : k'.tickHead = k.tickHead
  prio : k'.prio = k.prio
  bPrio : k'.bPrio = k.bPrio
  mutexList : k'.mutexList = k.mutexList

def Ktask.listed (k : Ktask) := (k.taskList, k.tickHead, k.prio, k.bPrio, k.mutexList)

theorem Ktask.Alike.of_eq (same : k'.listed = k.listed) : k'.Alike k := by
  simp only [Ktask.listed, Prod.mk.injEq] at same
  obtain ⟨taskList, tickHead, prio, bPrio, mutexList⟩ := same
  exact ⟨taskList, tickHead, prio, bPrio, mutexList⟩

variable {f : Ktask → Ktask} {st : TaskStat}

/-- `f` leaves a task in its lists and gives it the state `st`. -/
def Restates (f : Ktask → Ktask) (st : TaskStat) : Prop :=
  ∀ k, (f k).Alike k ∧ (f k).taskState = st

/-- A state that goes with the same lists. -/
theorem restate_relisted (h : Core s) (notIdle : t ≠ idleTask) (task : TaskOk (f (s.tasks t)))
    (restates : Restates f st) : Relisted s t st (s.modTask t f) := by
  obtain ⟨same, state⟩ := restates (s.tasks t)
  refine ⟨h.change notIdle (h.runq.update_same same.taskList same.prio)
    (h.blk.update_same same.taskList same.prio) (h.tick.update_same same.tickHead) task
    (same.prio ▸ h.prio t) (same.bPrio ▸ h.bPrio t) h.owner, ?_⟩
  exact ⟨f (s.tasks t), s.readyQueue, s.tickList, rfl, state, same.prio, same.bPrio,
    same.mutexList⟩

/-- A suspended task becomes ready. -/
theorem readyListAdd_relisted (h : Core s) (off : (s.tasks t).taskState = .suspended)
    (restates : Restates f .rdy) : Relisted s t .rdy (readyListAdd (s.modTask t f) t) := by
  obtain ⟨free, out⟩ := (h.task t).of_off (.inl off)
  have notIdle : t ≠ idleTask := h.ne_idle_of_state fun rdy => by simp [rdy] at off
  obtain ⟨same, state⟩ := restates (s.tasks t)
  obtain ⟨q, eq, runq⟩ := put_readyAgain s.tickList h free (same.taskList.trans free) same.prio
  rw [modTask_eq, eq]
  exact h.relisted notIdle state (unlinked_ne_blk free) (fun a => by simp) (runq _ rfl rfl)
    (h.tick.update_same same.tickHead) (.rdy state rfl (same.tickHead.trans out)) same.prio
    same.bPrio same.mutexList

section

variable (h : Core s) (notIdle : t ≠ idleTask) (rdy : (s.tasks t).taskState = .rdy)
include h notIdle rdy

/-- A ready task is suspended. -/
theorem readyListRm_relisted (restates : Restates f .suspended) :
    Relisted s t .suspended (readyListRm (s.modTask t f) t) := by
  obtain ⟨linked, out⟩ := (h.task t).of_rdy rdy
  obtain ⟨same, state⟩ := restates (s.tasks t)
  obtain ⟨q, eq, runq⟩ := put_readyOff s.tickList h notIdle rdy same.taskList same.prio
  rw [modTask_eq, eq]
  exact h.relisted notIdle state (fun a => by simp [linked]) (fun a => by simp) (runq _ rfl)
    (h.tick.update_same same.tickHead)
    (.off (.inl state) rfl (same.tickHead.trans out)) same.prio same.bPrio same.mutexList

/-- `krhino_task_sleep`. -/
theorem sleep_relisted {time : Nat} (pos : time > 0) (restates : Restates f .sleep) :
    Relisted s t .sleep (readyListRm (tickListInsert (s.modTask t f) t time) t) := by
  obtain ⟨linked, out⟩ := (h.task t).of_rdy rdy
  obtain ⟨same, state⟩ := restates (s.tasks t)
  obtain ⟨ticks, tm, tr, th, tickOk, into, timed⟩ :=
    put_tickListInsert (h.tick.update_same same.tickHead) (same.tickHead.trans out) time
  obtain ⟨q, eq, runq⟩ := put_readyOff (k := (f (s.tasks t)).timed tm tr th) ticks h notIdle rdy
    same.taskList same.prio
  rw [modTask_eq, timed, eq]
  exact h.relisted notIdle state (fun a => by simp [linked]) (fun a => by simp) (runq _ rfl)
    (tickOk _ rfl) (.sleeping (.inl state) rfl (into pos)) same.prio same.bPrio
    same.mutexList

/-- A ready task is deleted. -/
theorem delReady_relisted (restates : Restates f .deleted) :
    Relisted s t .deleted ((readyListRm s t).modTask t f) := by
  obtain ⟨linked, out⟩ := (h.task t).of_rdy rdy
  obtain ⟨q, eq, runq⟩ := put_readyOff s.tickList h notIdle rdy rfl rfl
  obtain ⟨same, state⟩ := restates ((s.tasks t).link .unlinked)
  rw [put_self] at eq
  rw [eq, put_modTask]
  exact h.relisted notIdle state (fun a => by simp [linked])
    (fun a => by simp [same.taskList]) (runq _ same.taskList) (h.tick.update_same same.tickHead)
    (.off (.inr (.inr state)) same.taskList (same.tickHead.trans out)) same.prio same.bPrio
    same.mutexList

end

section Sleeper

variable (asleep : (s.tasks t).taskState = .sleep ∨ (s.tasks t).taskState = .sleepSuspended)

include asleep

theorem Core.ne_idle_of_asleep (h : Core s) : t ≠ idleTask :=
  h.ne_idle_of_state fun rdy => by simp [rdy] at asleep

/-- A sleeping task is woken by an abort. -/
theorem abortSleep_relisted (h : Core s) (restates : Restates f .rdy) :
    Relisted s t .rdy ((readyListAdd (tickListRm s t) t).modTask t f) := by
  have free := ((h.task t).of_sleeping asleep).1
  obtain ⟨q, eq, runq⟩ := put_readyAgain (k := (s.tasks t).unticked) (s.tickList.erase t) h free
    free rfl
  obtain ⟨same, state⟩ := restates ((s.tasks t).unticked.link (.ready (s.tasks t).prio))
  rw [tickListRm_eq h, eq, put_modTask]
  exact h.relisted (h.ne_idle_of_asleep asleep) state (unlinked_ne_blk free)
    (fun a => by simp [(restates _).1.taskList])
    (runq _ (by rw [(restates _).1.taskList, (restates _).1.prio]; rfl) same.prio)
    (h.tick.erase same.tickHead)
    (.rdy state (by rw [(restates _).1.taskList, (restates _).1.prio]; rfl) same.tickHead) same.prio
    same.bPrio same.mutexList

/-- A sleeping task is woken by the tick. -/
theorem wakeSleep_relisted (h : Core s) (restates : Restates f .rdy) :
    Relisted s t .rdy (readyListAdd (tickListRm (s.modTask t f) t) t) := by
  have free := ((h.task t).of_sleeping asleep).1
  obtain ⟨same, state⟩ := restates (s.tasks t)
  obtain ⟨q, eq, runq⟩ := put_readyAgain (k := (f (s.tasks t)).unticked) (s.tickList.erase t) h
    free (same.taskList.trans free) same.prio
  rw [tickListRm_modTask_eq h f same.tickHead, eq]
  exact h.relisted (h.ne_idle_of_asleep asleep) state (unlinked_ne_blk free)
    (fun a => by simp) (runq _ rfl rfl) (h.tick.erase rfl) (.rdy state rfl rfl) same.prio
    same.bPrio same.mutexList

/-- A sleeping task leaves the tick list and is not ready. -/
theorem Core.notAsleep (h : Core s) (state : k.taskState = st)
    (off : st = .suspended ∨ st = .deleted) (alike : k.Alike (s.tasks t).unticked) :
    Relisted s t st (s.put t k s.readyQueue s.blk (s.tickList.erase t)) := by
  have free := ((h.task t).of_sleeping asleep).1
  have unlinked : k.taskList = .unlinked := alike.taskList.trans free
  exact h.relisted (h.ne_idle_of_asleep asleep) state (unlinked_ne_blk free)
    (unlinked_ne_blk unlinked)
    (h.runq.update_not_ready (fun p => by simp [free]) (fun p => by simp [unlinked]))
    (h.tick.erase alike.tickHead) (.off (by rcases off with off | off <;> simp [state, off])
    unlinked alike.tickHead) alike.prio alike.bPrio alike.mutexList

end Sleeper

end Relisting

/-! ## The steps kernel calls are made of

Timeouts, aborts and deletions end the wait of a task in the same way: the task leaves its lists,
and if it waited for a mutex the owner's priority is looked at again. `Left` is that step,
`Relisted` the moves between the other lists. -/

/-! ## Steps that no mutex is concerned with -/

/-- The owners, the waiters and the priorities of `s'` are those of `s`. -/
structure SameOwnership (s s' : KState) : Prop where
  prio : ∀ t, (s'.tasks t).prio = (s.tasks t).prio
  bPrio : ∀ t, (s'.tasks t).bPrio = (s.tasks t).bPrio
  mutexList : ∀ t, (s'.tasks t).mutexList = (s.tasks t).mutexList
  live : ∀ t, (s'.tasks t).Live ↔ (s.tasks t).Live
  seed : ∀ t, (s'.tasks t).taskState = .seed → (s.tasks t).taskState = .seed
  type : ∀ m, (s'.blk m).objType = .mutex ↔ (s.blk m).objType = .mutex
  waiters : ∀ m, (s.blk m).objType = .mutex → s'.blk m = s.blk m
  mutexes : s'.mutexes = s.mutexes
  hung : s'.hung = s.hung

theorem SameOwnership.refl (s : KState) : SameOwnership s s :=
  ⟨fun _ => rfl, fun _ => rfl, fun _ => rfl, fun _ => Iff.rfl, fun _ state => state,
    fun _ => Iff.rfl, fun _ _ => rfl, rfl, rfl⟩

theorem SameOwnership.trans (h : SameOwnership s s') (h' : SameOwnership s' s'') :
    SameOwnership s s'' where
  prio t := (h'.prio t).trans (h.prio t)
  bPrio t := (h'.bPrio t).trans (h.bPrio t)
  mutexList t := (h'.mutexList t).trans (h.mutexList t)
  live t := (h'.live t).trans (h.live t)
  seed t state := h.seed t (h'.seed t state)
  type m := (h'.type m).trans (h.type m)
  waiters m type := (h'.waiters m ((h.type m).mpr type)).trans (h.waiters m type)
  mutexes := h'.mutexes.trans h.mutexes
  hung := h'.hung.trans h.hung

/-- One record and the lists change, but not for the mutexes. -/
theorem SameOwnership.put {k : Ktask} {rq : Runqueue} {blk : ObjId → BlkObj} {ticks : List TaskId}
    (prio : k.prio = (s.tasks t).prio) (bPrio : k.bPrio = (s.tasks t).bPrio)
    (mutexList : k.mutexList = (s.tasks t).mutexList) (live : k.Live ↔ (s.tasks t).Live)
    (seed : k.taskState = .seed → (s.tasks t).taskState = .seed)
    (type : ∀ o, (blk o).objType = (s.blk o).objType)
    (waiters : ∀ m, (s.blk m).objType = .mutex → blk m = s.blk m) :
    SameOwnership s (s.put t k rq blk ticks) where
  prio u := by rcases eq_or_ne u t with rfl | other <;> simp [*]
  bPrio u := by rcases eq_or_ne u t with rfl | other <;> simp [*]
  mutexList u := by rcases eq_or_ne u t with rfl | other <;> simp [*]
  live u := by rcases eq_or_ne u t with rfl | other <;> simp [*]
  seed u state := by
    rcases eq_or_ne u t with rfl | other
    · exact seed (by simpa using state)
    · simpa [other] using state
  type m := by rw [put_blk, type]
  waiters := waiters
  mutexes := rfl
  hung := rfl

/-- No mutex is concerned. -/
theorem Relisted.sameOwnership {st : TaskStat} (h : Relisted s t st s')
    (live : st ≠ .seed ∧ st ≠ .deleted ↔ (s.tasks t).Live) (notSeed : st ≠ .seed) :
    SameOwnership s s' := by
  obtain ⟨-, k, rq, ticks, rfl, state, prio, bPrio, mutexList⟩ := h
  refine .put prio bPrio mutexList ?_ (fun seed => absurd (state.symm.trans seed) notSeed)
    (fun _ => rfl) (fun _ _ => rfl)
  rw [← live, ← state]
  rfl

/-- A wait for anything but a mutex does not concern the mutexes. -/
theorem pendTaskEnd_sameOwnership (bs : BlkStat) {o : ObjId} (h : Core s)
    (linked : (s.tasks t).taskList = .blk o) (type : (s.blk o).objType ≠ .mutex) :
    SameOwnership s (pendTaskEnd bs s t) := by
  obtain ⟨rq, eq, -⟩ := pendTaskEnd_eq bs h linked
  have waiting := ((h.task t).of_blk linked).1
  rw [eq]
  refine .put (by simp) (by simp) ?_ ?_ ?_ (blkWith_type _ _ _) fun m mutex => ?_
  · unfold Ktask.woken
    split <;> rfl
  · unfold Ktask.woken Ktask.Live
    rcases waiting with state | state <;> simp [state]
  · unfold Ktask.woken
    split <;> simp
  · have other : m ≠ o := fun same => type (same ▸ mutex)
    exact Function.update_of_ne other _ _

/-- A step on data that the kernel's lists and the mutexes do not depend on. -/
theorem SameOwnership.congr (same : (s'.tasks, s'.blk, s'.mutexes, s'.hung) =
    (s.tasks, s.blk, s.mutexes, s.hung)) : SameOwnership s s' := by
  simp only [Prod.mk.injEq] at same
  obtain ⟨tasks, blk, mutexes, hung⟩ := same
  refine ⟨?_, ?_, ?_, ?_, ?_, ?_, ?_, mutexes, hung⟩ <;> simp [tasks, blk]

/-! ## The end of a wait -/

/-- `s'` is `s` after the waiting task `t` has been taken out of its lists into the state `st`,
and the owner of the mutex it waited for, if it was one, has heard of it. -/
structure Left (s : KState) (t : TaskId) (st : TaskStat) (s' : KState) : Prop where
  step : ∃ o rq bs, (s.tasks t).taskList = .blk o ∧
    Core (s.putLeft t o st bs rq) ∧
    s' = mutexTaskPriReset
      (s.putLeft t o st bs rq) t

/-- The last step of a timeout and of an abort. -/
def KState.clearBlkObj (s : KState) (t : TaskId) : KState :=
  s.modTask t fun k => { k with blkObj := none }

variable {st : TaskStat}

section

variable (h : Core s) (left : Left s t st s')
include h left

/-- The owner's priority is reset after the task has left. -/
theorem Left.reprioritised : ∃ o rq bs, (s.tasks t).taskList = .blk o ∧
      Reprioritised (s.putLeft t o st bs rq) s' ∧ Kept ∅ s s' := by
  obtain ⟨o, rq, bs, linked, core, rfl⟩ := left
  obtain ⟨-, obj⟩ := (h.task t).of_blk linked
  obtain ⟨core', moved⟩ := mutexTaskPriReset_core (t := t) core
    (by simpa [Ktask.left] using obj) fun type => h.owner o (by simpa using type)
      (List.ne_nil_of_mem ((h.blk.mem t o).mpr linked))
  exact ⟨o, rq, bs, linked, moved, (Kept.unblocked h linked core).trans (moved.kept core')⟩

theorem Left.kept : Kept ∅ s s' := by
  obtain ⟨o, rq, bs, -, -, kept⟩ := left.reprioritised h
  exact kept

theorem Left.taskState : (s'.tasks t).taskState = st := by
  obtain ⟨o, rq, bs, -, moved, -⟩ := left.reprioritised h
  rw [moved.taskState]
  simp [Ktask.left]

theorem Left.notIdle : t ≠ idleTask := by
  obtain ⟨o, rq, bs, linked, -⟩ := left
  exact h.ne_idle_of_blk linked

end

theorem clearBlkObj_relisted (h : Core s) (notIdle : t ≠ idleTask)
    (out : (s.tasks t).taskState = .rdy ∨ (s.tasks t).taskState = .suspended) :
    Relisted s t (s.tasks t).taskState (s.clearBlkObj t) := by
  refine ⟨h.change notIdle (h.runq.update_same rfl rfl) (h.blk.update_same rfl rfl)
    (h.tick.update_same rfl) ?_ (h.prio t) (h.bPrio t) h.owner,
    _, s.readyQueue, s.tickList, rfl, rfl, rfl, rfl, rfl⟩
  rcases out with state | state
  · obtain ⟨link, tick⟩ := (h.task t).of_rdy state
    exact .rdy state link tick
  · obtain ⟨link, tick⟩ := (h.task t).of_off (.inl state)
    exact .off (.inl state) link tick

theorem Left.clear_kept (h : Core s) (left : Left s t st s') (out : st = .rdy ∨ st = .suspended) :
    Kept ∅ s (s'.clearBlkObj t) := by
  have kept := left.kept h
  refine kept.trans ((clearBlkObj_relisted kept.core (left.notIdle h) ?_).kept (.inr id))
  rwa [left.taskState h]

/-- What `tick_list_update` does with one task. -/
theorem tickExpire_cases (h : Core s) (t : TaskId) :
    tickExpire s t = s ∨ ∃ st, (st = .rdy ∨ st = .suspended) ∧
      ((s.tasks t).Live ∧ Relisted s t st (tickExpire s t) ∨
        ∃ s', Left s t st s' ∧ tickExpire s t = s'.clearBlkObj t) := by
  unfold tickExpire
  split
  · next state =>
    exact .inr ⟨.rdy, .inl rfl, .inl ⟨by simp [Ktask.Live, state],
      wakeSleep_relisted (.inl state) h fun _ => ⟨.of_eq rfl, rfl⟩⟩⟩
  · next state =>
    obtain ⟨o, linked, -⟩ := (h.task t).of_waiting (.inl state)
    obtain ⟨rq, eq, core⟩ := leaveReady_eq .timeout h linked
    refine .inr ⟨.rdy, .inl rfl, .inr ⟨_, ⟨o, rq, .timeout, linked, core, rfl⟩, ?_⟩⟩
    rw [← eq]
    rfl
  · next state =>
    obtain ⟨o, linked, -⟩ := (h.task t).of_waiting (.inr state)
    obtain ⟨eq, core⟩ := leaveOff_eq .suspended .timeout
      (f := fun k => { k with blkState := .timeout, taskState := .suspended }) h linked
      (.inl rfl) rfl
    refine .inr ⟨.suspended, .inr rfl, .inr ⟨_, ⟨o, _, .timeout, linked, core, rfl⟩, ?_⟩⟩
    rw [← eq]
    rfl
  · next state =>
    refine .inr ⟨.suspended, .inr rfl, .inl ⟨by simp [Ktask.Live, state], ?_⟩⟩
    rw [tickListRm_modTask_eq h _ rfl]
    exact h.notAsleep (.inr state) rfl (.inl rfl) ⟨rfl, rfl, rfl, rfl, rfl⟩
  · exact .inl rfl

/-- A timeout keeps the rest. -/
theorem tickExpire_kept (h : Core s) (t : TaskId) : Kept ∅ s (tickExpire s t) := by
  rcases tickExpire_cases h t with same | ⟨st, out, ⟨-, relisted⟩ | ⟨s', left, eq⟩⟩
  · rw [same]
    exact .refl h
  · refine relisted.kept (.inr fun rdy => ?_)
    -- a ready task does not time out
    unfold tickExpire at relisted
    simp only [rdy] at relisted
    obtain ⟨-, k, rq, ticks, eq, state, -⟩ := relisted
    rw [← state, ← rdy]
    conv_rhs => rw [eq]
    simp
  · rw [eq]
    exact left.clear_kept h out

/-- What `krhino_task_del` and `krhino_task_dyn_del` do with the task itself. -/
theorem taskDelUnlink_cases (h : Core s) (notIdle : t ≠ idleTask) (live : (s.tasks t).Live) :
    Relisted s t .deleted (taskDelUnlink s t) ∨ Left s t .deleted (taskDelUnlink s t) := by
  unfold taskDelUnlink
  split
  · next state =>
    exact .inl (delReady_relisted h notIdle state fun _ => ⟨.of_eq rfl, rfl⟩)
  · next state =>
    obtain ⟨link, tick⟩ := (h.task t).of_off (.inl state)
    exact .inl (restate_relisted h notIdle (.off (.inr (.inr rfl)) link tick)
      fun _ => ⟨.of_eq rfl, rfl⟩)
  case h_3 state | h_4 state =>
    refine .inl ?_
    rw [tickListRm_eq h, put_modTask]
    exact h.notAsleep (by simp [state]) rfl (.inr rfl) ⟨rfl, rfl, rfl, rfl, rfl⟩
  case h_5 state | h_6 state =>
    obtain ⟨o, linked, -⟩ := (h.task t).of_waiting (by simp [state])
    obtain ⟨eq, core⟩ := leaveOff_eq .deleted (s.tasks t).blkState
      (f := fun k => { k with taskState := .deleted }) h linked (.inr rfl) rfl
    exact .inr ⟨o, _, _, linked, core, congrArg (mutexTaskPriReset · t) eq⟩
  · next state => exact absurd state live.1
  · next state => exact absurd state live.2

/-- A control block without a task is left alone. -/
theorem taskDelUnlink_dead (dead : ¬ (s.tasks t).Live) : taskDelUnlink s t = s := by
  unfold taskDelUnlink
  split <;> first | rfl | exact absurd ⟨by simp [*], by simp [*]⟩ dead

/-- A deleted task is in no list. -/
theorem taskDelUnlink_kept (h : Core s) (notIdle : t ≠ idleTask) :
    Kept {t} s (taskDelUnlink s t) := by
  by_cases live : (s.tasks t).Live
  · rcases taskDelUnlink_cases h notIdle live with relisted | left
    · exact relisted.kept (.inl rfl)
    · exact (left.kept h).mono (Set.empty_subset _)
  · rw [taskDelUnlink_dead live]
    exact .refl h

end AliosThings.Rhino
