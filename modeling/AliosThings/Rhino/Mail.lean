import AliosThings.Lib.Mailbox
import AliosThings.Rhino.Rings

/-!
# Messages between tasks

A message travels through the ring of its queue, or straight to a waiter. A task that finds no
message sleeps inside its call and learns the outcome when it runs again: it has been given a
message, or its wait has ended otherwise. The two kinds of queues differ in which calls send and
receive, in what a message is and in how a ring stores it. What follows is common to both: beside
the kernel a history lists, for each queue since it was created, the messages whose send has
returned success and what has become of them, and follows for each task the receive that it is
blocked in; and if the calls on a queue account for its messages, every run does.
-/

namespace AliosThings.Rhino

open Lib KRingbuf List Option

/-! ## Waiting for a message -/

/-- How the objects of one kind hand messages `α` to their waiters. -/
structure Handover (α : Type) where
  kind : KobjType
  /-- The object from which a call receives. -/
  receives : KCall → Option ObjId
  /-- What a task that has just been woken was given. -/
  got : KState → TaskId → α
  /-- What the record of the task keeps of it until the task runs. -/
  Keeps : TaskView → α → Prop

structure Handover.Lawful {α : Type} (H : Handover α) : Prop where
  isObject : H.kind ≠ .none
  blocks : ∀ {s c o}, KInv s → H.receives c = some o → (c.exec s).1 = .blocks →
    (s.blk o).objType = H.kind ∧ c.object = some o ∧ ∃ g, Blocks s c g (c.exec s)
  keeps : ∀ s t, H.Keeps (s.view.task t) (H.got s t)
  stable : ∀ {w w' : TaskView} {x}, w.SameRequest w' → H.Keeps w x → H.Keeps w' x

variable {α : Type} {H : Handover α} {t : TaskId} {msg : Option α}

/-- The receive that a task is blocked in or has come back from: its object, and the message the
task has been given. It is forgotten with the next call of the task. -/
def Handover.note (H : Handover α) (s : KState) (c : KCall) (t : TaskId)
    (recv : Option (ObjId × Option α)) : Option (ObjId × Option α) :=
  if c.createdTask = some t then none
  else if c.madeBy s t then
    if (c.exec s).1 = .blocks then (H.receives c).map fun o => (o, none) else none
  else
    recv.map fun (o, msg) =>
      (o, if t ∈ wokenFrom s (c.exec s).2 o then some (H.got (c.exec s).2 t) else msg)

/-- A task that has begun to receive from `o` waits for it, has come back with a message exactly if
its wait has ended with `BLK_FINISH`, or has been deleted. -/
inductive RecvOk (H : Handover α) (s : KState) (t : TaskId) (o : ObjId) (msg : Option α) :
    Prop where
  | waits (phase : (s.view.task t).phase = .waiting o) (type : (s.blk o).objType = H.kind)
    (none : msg = none)
  | back (phase : (s.view.task t).phase = .free)
    (told : (s.view.task t).blkState = .finish ↔ msg ≠ none)
    (keeps : ∀ x, msg = some x → H.Keeps (s.view.task t) x)
  | gone (phase : (s.view.task t).phase = .absent)

/-- The receives that are under way stay in order. -/
theorem exec_recvOk (lawful : H.Lawful) {s : KState} {c : KCall} (legal : Legal s c)
    {recv : Option (ObjId × Option α)} (ok : ∀ o msg, recv = some (o, msg) → RecvOk H s t o msg)
    {o : ObjId} (after : H.note s c t recv = some (o, msg)) : RecvOk H (c.exec s).2 t o msg := by
  have h := legal.inv.core
  have step := exec_calls legal
  unfold Handover.note at after
  split at after
  · cases after
  next notMade =>
  split at after
  · next byTask =>
    -- its own call
    split at after
    · next blocked =>
      obtain ⟨a, receives, eq⟩ := map_eq_some_iff.mp after
      cases eq
      obtain ⟨type, object, g, blocks⟩ := lawful.blocks legal.inv receives blocked
      have waits := blocks.phase_active
      rw [KCall.sleepPhase, object] at waits
      rw [byTask.1]
      exact .waits waits ((blocks.sameObject o).type.trans type) rfl
    · cases after
  next notBy =>
  obtain ⟨⟨a, before⟩, had, eq⟩ := map_eq_some_iff.mp after
  cases eq
  cases ok _ _ had with
  | gone absent => exact .gone (step.of_absent absent notMade)
  | back free told keeps =>
    rw [if_neg (not_mem_wokenFrom h free)]
    rcases step.of_free free (ne_active_of_not_madeBy notBy) with ⟨free', same, request⟩ | absent
    · exact .back free' (same ▸ told) fun x given => lawful.stable request (keeps x given)
    · exact .gone absent
  | waits waits type none =>
    subst none
    rcases exec_waiter legal type lawful.isObject waits with
      ⟨still, -, type', notIn⟩ | ⟨free, told⟩ | absent
    · rw [if_neg notIn]
      exact .waits still type' rfl
    · by_cases woken : t ∈ wokenFrom s (c.exec s).2 o
      · rw [if_pos woken]
        refine .back free (iff_of_true (told.mpr woken) (some_ne_none _)) ?_
        rintro x given
        rw [← some.inj given]
        exact lawful.keeps _ t
      · rw [if_neg woken]
        refine .back free (iff_of_false (fun finish => woken (told.mp finish)) (not_not.mpr rfl)) ?_
        rintro x ⟨⟩
    · exact .gone absent

/-- What a task that exists finds when its wait is over: success if it was given something, and then
that. -/
theorem RecvOk.result {s : KState} {o : ObjId} (core : Core s) (ok : RecvOk H s t o msg)
    (live : (s.tasks t).Live) (given : Ktask → Nat) : t ∈ (s.blk o).blkList ∧ msg = none ∨
      ((s.tasks t).taskState = .rdy ∨ (s.tasks t).taskState = .suspended) ∧
        ((recvEnd given (s.tasks t)).1 = .success ↔ msg ≠ none) ∧
        ∀ x, msg = some x → (recvEnd given (s.tasks t)).2 = given (s.tasks t) ∧
          H.Keeps (s.view.task t) x := by
  cases ok with
  | waits phase _ none => exact .inl ⟨(core.waiting_iff t o).mp phase, none⟩
  | back phase told keeps =>
    have ended := (pendStateEndProc_success (s.tasks t)).trans told
    refine .inr ⟨state_of_free phase, ?_⟩
    unfold recvEnd
    split
    · next success => exact ⟨iff_of_true rfl (ended.mp success), fun x eq => ⟨rfl, keeps x eq⟩⟩
    · next error =>
      exact ⟨ended, fun x eq => absurd (ended.mpr (eq ▸ some_ne_none x)) error⟩
  | gone phase => exact absurd phase (phase_of_live live)

/-! ## Kinds of queues -/

/-- A kind of queues: what a call has done with the messages of a queue, told from what it has
returned and from the memory and the task records it has left. -/
structure MailKind (α : Type) extends Handover α where
  /-- The message that a call has sent to a queue, and the waiters that it is due to. -/
  posts : KState → ObjId → KCall → Option (α × List (Option TaskId))
  /-- What the caller itself has received; a handler is no task. -/
  own : KState → ObjId → KCall → List (Option TaskId × α)
  flushes : KState → ObjId → KCall → Bool

/-- The caller of a call, unless it is a handler. -/
def KState.caller (s : KState) : Option TaskId :=
  if s.intrptNested = 0 then some s.active else none

namespace MailKind

variable (K : MailKind α)

/-- What a call has let receivers read from `o`: its caller, or the waiters it has woken. -/
def reads (s : KState) (o : ObjId) (c : KCall) : List (Option TaskId × α) :=
  K.own s o c ++ (wokenFrom s (c.exec s).2 o).map fun t => (some t, K.got (c.exec s).2 t)

end MailKind

structure MailHistory (α : Type) where
  box : ObjId → Mailbox (Option TaskId) α := fun _ => {}
  recv : TaskId → Option (ObjId × Option α) := fun _ => none

def MailKind.observe (K : MailKind α) (p : KState × List ObjId) (a : Action) (h : MailHistory α) :
    MailHistory α :=
  match a with
  | .call c =>
    { box := fun o =>
        if c.createdObj = some o then {}
        else (h.box o).note (K.posts p.1 o c) (K.reads p.1 o c) (K.flushes p.1 o c)
      recv := fun t => K.note p.1 c t (h.recv t) }
  | .store _ _ => h

/-- The program with the history of its queues. -/
abbrev MailKind.system (K : MailKind α) : System ((KState × List ObjId) × MailHistory α) Action :=
  program.observed {} K.observe

/-- A call has neither sent to `o` nor received from it nor flushed it. -/
def MailKind.Silent (K : MailKind α) (s : KState) (o : ObjId) (c : KCall) : Prop :=
  K.posts s o c = none ∧ K.own s o c = [] ∧ K.flushes s o c = false

/-- The queue contains the messages `pending`, and nobody waits while there are any. -/
structure MailHolds (Contains : KState → ObjId → List α → Prop) (s : KState) (o : ObjId)
    (pending : List α) : Prop where
  contains : Contains s o pending
  noWaiter : (s.blk o).blkList ≠ [] → pending = []

/-- A call accounts for the messages of `o`. -/
def MailKind.Step (K : MailKind α) (Contains : KState → ObjId → List α → Prop) (s : KState)
    (c : KCall) (o : ObjId) : Prop :=
  ∀ (pending : List α) (box : Mailbox (Option TaskId) α), MailHolds Contains s o pending →
    box.Delivers pending → ∃ pending', MailHolds Contains (c.exec s).2 o pending' ∧
      (box.note (K.posts s o c) (K.reads s o c) (K.flushes s o c)).Delivers pending'

/-- `Contains s o pending` describes which messages a queue contains, and under the condition `P`
the calls on a queue account for them. -/
structure MailKind.Lawful (K : MailKind α) (Contains : KState → ObjId → List α → Prop)
    (P : KState → Action → Prop) : Prop extends K.toHandover.Lawful where
  ring : ∀ {s : KState} {o : ObjId}, (s.blk o).objType = K.kind → ∃ r, s.ring o = some r
  silent : ∀ {s : KState} {o : ObjId} {c : KCall},
    ¬ ((c.object = some o ∧ c.kind = some K.kind) ∧ (c.exec s).1 = .ret .success) → K.Silent s o c
  congr : ∀ {s s' : KState} {o : ObjId} {pending : List α}, (s.blk o).objType = K.kind →
    Contains s o pending → s.view.SameObject s'.view o →
    (∀ r, s.ring o = some r → r.SameBytes s.mem s'.mem) → Contains s' o pending
  made : ∀ {s : KState} {c : KCall} {o : ObjId}, c.Allowed s → P s (.call c) →
    c.createdObj = some o → ((c.exec s).2.blk o).objType = K.kind → Contains (c.exec s).2 o []
  step : ∀ {s : KState} {c : KCall} {o : ObjId}, KInv s → Core (c.exec s).2 → P s (.call c) →
    (∀ r w, s.ring o = some r → w ∈ c.callerStores s → Apart w r.region) →
    (s.blk o).objType = K.kind → ((c.exec s).2.blk o).objType = K.kind → c.object = some o →
    c.kind = some K.kind → K.Step Contains s c o

/-- The messages of every queue, and the receives that are under way. -/
structure MailOk (K : MailKind α) (Contains : KState → ObjId → List α → Prop) (s : KState)
    (h : MailHistory α) : Prop where
  holds : ∀ o, (s.blk o).objType = K.kind → ∃ pending, MailHolds Contains s o pending ∧
    (h.box o).Delivers pending
  recv : ∀ t o msg, h.recv t = some (o, msg) → RecvOk K.toHandover s t o msg

/-! ## One call -/

variable {K : MailKind α} {Contains : KState → ObjId → List α → Prop} {s : KState} {c : KCall}
  {o : ObjId}

/-- A call that neither sends nor receives nor flushes. -/
theorem MailKind.Step.quiet (silent : K.Silent s o c) (woken : wokenFrom s (c.exec s).2 o = [])
    (kept : ∀ pending, MailHolds Contains s o pending →
      MailHolds Contains (c.exec s).2 o pending) : K.Step Contains s c o := by
  intro pending box holds delivers
  refine ⟨pending, kept pending holds, ?_⟩
  rw [silent.1, silent.2.2, reads, silent.2.1, woken, map_nil, append_nil, Mailbox.note_nothing]
  exact delivers

/-- A call that wakes nobody and whose caller does not wait. -/
theorem MailKind.Step.ofTask (h : Core s) (h' : Core (c.exec s).2)
    (task : (c.exec s).2.view.task = s.view.task)
    (step : ∀ pending (box : Mailbox (Option TaskId) α), Contains s o pending →
      box.Delivers pending → ∃ pending', Contains (c.exec s).2 o pending' ∧
        (pending = [] → (s.blk o).blkList ≠ [] → pending' = []) ∧
        (box.note (K.posts s o c) (K.own s o c) (K.flushes s o c)).Delivers pending') :
    K.Step Contains s c o := by
  intro pending box holds delivers
  obtain ⟨pending', contains, none, delivers'⟩ := step pending box holds.contains delivers
  refine ⟨pending', ⟨contains, ?_⟩, ?_⟩
  · intro joined
    have waits : (s.blk o).blkList ≠ [] := fun empty =>
      joined (blkList_nil_of_task h h' task empty)
    exact none (holds.noWaiter waits) waits
  · rw [reads, wokenFrom_of_task h task, map_nil, append_nil]
    exact delivers'

theorem MailKind.Step.kept (h : Core s) (h' : Core (c.exec s).2) (silent : K.Silent s o c)
    (task : (c.exec s).2.view.task = s.view.task)
    (kept : ∀ pending, Contains s o pending → Contains (c.exec s).2 o pending) :
    K.Step Contains s c o := by
  refine .ofTask h h' task fun pending box contains delivers => ?_
  refine ⟨pending, kept pending contains, fun empty _ => empty, ?_⟩
  rw [silent.1, silent.2.1, silent.2.2, Mailbox.note_nothing]
  exact delivers

theorem MailKind.Step.undone (h : Core s) (silent : K.Silent s o c) (same : (c.exec s).2 = s) :
    K.Step Contains s c o :=
  .kept h (same.symm ▸ h) silent (by rw [same]) fun _ contains => same.symm ▸ contains

/-- The caller waits, as there is no message. -/
theorem MailKind.Step.waits (h : Core s) {g : TaskView → TaskView}
    (blocks : Blocks s c g (c.exec s)) {on : Prop}
    (silent : ¬ (on ∧ (c.exec s).1 = .ret .success) → K.Silent s o c)
    (step : ∀ pending, Contains s o pending → pending = [] ∧ Contains (c.exec s).2 o pending) :
    K.Step Contains s c o :=
  .quiet (silent fun both => nomatch blocks.ret.symm.trans both.2)
    (blocks.wokenFrom h) fun pending holds =>
    ⟨(step pending holds.contains).2, fun _ => (step pending holds.contains).1⟩

/-- The message goes to waiters; nothing is stored while somebody waits. -/
theorem MailKind.Step.handOver {m : α} {due : List (Option TaskId)} {woken : List TaskId}
    (waits : (s.blk o).blkList ≠ []) (isWoken : wokenFrom s (c.exec s).2 o = woken)
    (some : woken ≠ []) (posts : K.posts s o c = .some (m, due)) (own : K.own s o c = [])
    (flushes : K.flushes s o c = false) (given : ∀ t ∈ woken, K.got (c.exec s).2 t = m)
    (fits : (Fate.received (woken.map fun t => (Option.some t, m))).Fits (m, due))
    (kept : Contains s o [] → Contains (c.exec s).2 o []) : K.Step Contains s c o := by
  intro pending box holds delivers
  have empty := holds.noWaiter waits
  subst empty
  refine ⟨[], ⟨kept holds.contains, fun _ => rfl⟩, ?_⟩
  have receipts : woken.map (fun t => (Option.some t, K.got (c.exec s).2 t)) =
      woken.map fun t => (Option.some t, m) :=
    map_congr_left fun t inList => by rw [given t inList]
  rw [posts, flushes, reads, own, isWoken, receipts, nil_append]
  exact delivers.handOver fits (by simpa using some)

/-- The queue is deleted, or the call is refused. -/
theorem MailKind.Step.deleted (h : Core s) (silent : K.Silent s o c) {none : Prop}
    (done : (c.exec s).2 = s ∨ ((c.exec s).2.blk o).objType = .none ∧ none)
    (type : ((c.exec s).2.blk o).objType ≠ .none) : K.Step Contains s c o :=
  .undone h silent (done.resolve_right fun gone => type gone.1)

/-! ## Every run -/

variable {P : KState → Action → Prop} {s' : KState} {made : List ObjId} {h : MailHistory α}

section

variable (lawful : K.Lawful Contains P)
include lawful

section

variable (legal : Legal s c) (apart : RingsApart s made)
  (keeps : (Action.call c).KeepsOff (s, made)) (fits : P s (.call c))
include legal apart keeps fits

/-- Every call accounts for the messages of a queue. -/
theorem exec_mailStep (type : (s.blk o).objType = K.kind)
    (type' : ((c.exec s).2.blk o).objType = K.kind) : K.Step Contains s c o := by
  have core := legal.inv.core
  have core' : Core (c.exec s).2 := (exec_inv legal.inv legal.may).core
  obtain ⟨r, ring⟩ := lawful.ring type
  have typed : (s.blk o).objType ≠ .mutex := by
    rcases ring_cases ring with ⟨isQueue, -⟩ | ⟨isBufQueue, -⟩
    · rw [isQueue]
      decide
    · rw [isBufQueue]
      decide
  by_cases concerns : c.object = some o ∧ c.kind = some K.kind
  · refine lawful.step legal.inv core' fits (fun r w ring writes => ?_) type type' concerns.1
      concerns.2
    exact keeps w (mem_append_left _ writes) _ (mem_ringRegions ring (apart.made o r ring))
  have undisturbed := exec_unconcerned legal type lawful.isObject (type ▸ typed) concerns
  refine .quiet (lawful.silent fun both => concerns both.1) (undisturbed.wokenFrom core) ?_
  intro pending holds
  rcases exec_outside legal.may type lawful.isObject concerns with other | same
  · refine ⟨lawful.congr type holds.contains undisturbed.object fun r ring => ?_, ?_⟩
    · exact exec_sameBytes legal apart keeps ring other
    · exact fun waits => holds.noWaiter fun empty =>
        waits (undisturbed.blkList_nil core core' empty)
  · rw [same]
    exact holds

theorem exec_mailOk (ok : MailOk K Contains s h) :
    MailOk K Contains (c.exec s).2 (K.observe (s, made) (.call c) h) where
  holds o type' := by
    have box : (K.observe (s, made) (.call c) h).box o = if c.createdObj = some o then {}
        else (h.box o).note (K.posts s o c) (K.reads s o c) (K.flushes s o c) := rfl
    rw [box]
    by_cases names : c.createdObj = some o
    · rw [if_pos names]
      exact ⟨[], ⟨lawful.made legal.may fits names type', fun _ => rfl⟩, Mailbox.delivers_nil⟩
    rw [if_neg names]
    rcases (exec_calls legal).type o with same | none | made
    · have type : (s.blk o).objType = K.kind := same.symm.trans type'
      obtain ⟨pending, holds, delivers⟩ := ok.holds o type
      exact exec_mailStep lawful legal apart keeps fits type type' pending _ holds delivers
    · exact absurd (type'.symm.trans none) lawful.isObject
    · exact absurd made names
  recv t o msg after :=
    exec_recvOk lawful.toLawful legal (fun o msg => ok.recv t o msg) after

end

/-- A store that keeps off the rings does not concern the queues. -/
theorem store_mailOk {a : Nat} {bs : Bytes} (apart : RingsApart s made)
    (keeps : (Action.store a bs).KeepsOff (s, made)) (ok : MailOk K Contains s h) :
    MailOk K Contains { s with mem := s.mem.writeBytes a bs } h where
  holds o type := by
    obtain ⟨pending, holds, delivers⟩ := ok.holds o type
    have same : s.view.SameObject { s with mem := s.mem.writeBytes a bs }.view o :=
      ⟨rfl, rfl, rfl, rfl, rfl⟩
    refine ⟨pending, ⟨lawful.congr (s := s) type holds.contains same fun r ring => ?_,
      holds.noWaiter⟩, delivers⟩
    exact sameBytes_writeBytes _ (keeps _ (mem_singleton_self _) _
      (mem_ringRegions ring (apart.made o r ring)))
  recv t o msg had := by
    cases ok.recv t o msg had with
    | waits phase type none => exact .waits phase type none
    | back phase told keeps => exact .back phase told keeps
    | gone phase => exact .gone phase

theorem initial_mailOk (mem : Mem) : MailOk K Contains (.initial mem) {} where
  holds o type := by
    obtain ⟨r, ring⟩ := lawful.ring type
    rw [initial_ring] at ring
    cases ring
  recv t o msg had := by cases had

/-- In every run whose steps meet the condition the messages of every queue are accounted for. -/
theorem reach_mailOk {p : (KState × List ObjId) × MailHistory α}
    (reach : (K.system.restrict fun p a => P p.1.1 a).Reach p) :
    Core p.1.1 ∧ MailOk K Contains p.1.1 p.2 := by
  obtain ⟨before, ok⟩ : program.Reach p.1 ∧ MailOk K Contains p.1.1 p.2 := by
    refine reach.invariant (P := fun p => program.Reach p.1 ∧ MailOk K Contains p.1.1 p.2) ?_ ?_
    · rintro ⟨⟨s, made⟩, h⟩ ⟨⟨⟨mem, rfl⟩, rfl⟩, rfl⟩
      exact ⟨.init ⟨⟨mem, rfl⟩, rfl⟩, initial_mailOk lawful mem⟩
    rintro ⟨⟨s, made⟩, h⟩ a ⟨before, ok⟩ ⟨may, fits⟩
    refine ⟨before.step may, ?_⟩
    obtain ⟨inv, bal, apart⟩ := program_reach before
    obtain ⟨allowed, keeps⟩ : a.Allowed s ∧ a.KeepsOff (s, made) := may
    cases a with
    | call => exact exec_mailOk lawful ⟨inv, bal, allowed.1.2, allowed.2⟩ apart keeps fits ok
    | store => exact store_mailOk lawful apart keeps ok
  exact ⟨(program_reach before).inv.core, ok⟩

end

end AliosThings.Rhino
