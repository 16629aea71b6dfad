import AliosThings.Rhino.WorkTimers
import Mathlib.Data.List.Perm.Subperm

/-!
# Works are run once, in the order in which they are submitted

A work is linked and its token is given in separate critical sections, so a queue can hold works
whose tokens are still to come. They are counted: the works in a list are as many as the tokens of
the semaphore, the submitters that have linked and not given, and the token that the worker has
taken for its next work.
-/

namespace AliosThings.Rhino

open Lib Function List Works

/-- The call has linked a work into `q` and is about to give the token. -/
def WorkCall.gives (q : WqId) : WorkCall → Bool
  | give p _ => p = q
  | _ => false

def WorkCall.work : WorkCall → WorkId
  | give _ w | post _ w | cancel w _ => w

/-- The submitters that have linked a work into `q` and not given the token. -/
def Works.givers (s : Works) (q : WqId) : Nat :=
  s.calls.countP (WorkCall.gives q) + if s.cb = .give q then 1 else 0

/-! ## One queue -/

structure QueueOk (k : Kworkqueue) (givers : Nat) : Prop where
  nodup : k.workList.Nodup
  tokens : k.workList.length =
    k.semCount + givers + if k.worker = .granted then 1 else 0
  waits : k.worker = .waiting → k.semCount = 0
  absent : k.exist = false → k = {} ∧ givers = 0

variable {k k' : Kworkqueue} {g g' : Nat} {linked started submitted before rest : List WorkId}

/-- With so many works as fit into memory, a semaphore does not overflow. -/
theorem QueueOk.room (ok : QueueOk k g) (small : ∀ w ∈ k.workList, w < addrRange / sizeofKwork) :
    k.semCount < semCountMax := by
  have length : k.workList.length ≤ addrRange / sizeofKwork := by
    have sub : k.workList ⊆ range (addrRange / sizeofKwork) := fun w inList =>
      mem_range.mpr (small w inList)
    have le := (ok.nodup.subperm sub).length_le
    rwa [length_range] at le
  have tokens := ok.tokens
  have bound : addrRange / sizeofKwork < semCountMax := by decide
  omega

theorem semGive_workList (k : Kworkqueue) : k.semGive.2.workList = k.workList := by
  unfold Kworkqueue.semGive
  split
  · rfl
  · split <;> rfl

/-- Below the maximum the semaphore can be given. -/
theorem semGive_success (room : k.semCount < semCountMax) : k.semGive.1 = .success := by
  unfold Kworkqueue.semGive
  split
  · rfl
  · rw [if_neg room.ne]

/-- A token that is under way arrives. -/
theorem QueueOk.give (ok : QueueOk k (g + 1)) (room : k.semCount < semCountMax) :
    QueueOk k.semGive.2 g := by
  have tokens := ok.tokens
  have there : k.exist ≠ false := fun absent => absurd (ok.absent absent).2 (Nat.succ_ne_zero g)
  unfold Kworkqueue.semGive
  split
  · next waits =>
    refine ⟨ok.nodup, ?_, nofun, fun absent => absurd absent there⟩
    rw [waits, ok.waits waits] at tokens
    simp only [ok.waits waits, if_true]
    simpa using tokens
  · next awake =>
    rw [if_neg room.ne]
    refine ⟨ok.nodup, ?_, fun waits => absurd waits awake, fun absent => absurd absent there⟩
    dsimp only
    omega

/-- The tokens match the works after every step of the queue. -/
theorem QueueStep.ok (step : QueueStep k g k' g' linked started) (ok : QueueOk k g)
    (room : k.semCount < semCountMax) : QueueOk k' g' := by
  have tokens := ok.tokens
  have present {k' : Kworkqueue} (exist : k.exist = true) (same : k'.exist = k.exist)
      (absent : k'.exist = false) : k' = {} ∧ g' = 0 :=
    absurd (exist.symm.trans (same.symm.trans absent)) Bool.noConfusion
  cases step with
  | rest => exact ok
  | create => exact ⟨nodup_nil, rfl, nofun, nofun⟩
  | link exist out =>
    refine ⟨?_, ?_, ok.waits, present exist rfl⟩
    · exact nodup_append.mpr ⟨ok.nodup, nodup_singleton _, fun a inList b isNew => by
        rw [mem_singleton.mp isNew]
        rintro rfl
        exact out inList⟩
    · simp only [length_append, length_singleton]
      omega
  | give => exact ok.give room
  | take exist pc token =>
    refine ⟨ok.nodup, ?_, nofun, present exist rfl⟩
    rw [pc] at tokens
    simp only [reduceCtorEq, if_false, if_true] at tokens ⊢
    omega
  | wait exist pc none =>
    refine ⟨ok.nodup, ?_, fun _ => none, present exist rfl⟩
    rw [pc] at tokens
    simpa using tokens
  | dequeue exist pc list =>
    have nodup := ok.nodup
    rw [list] at nodup tokens
    refine ⟨(nodup_cons.mp nodup).2, ?_, nofun, present exist rfl⟩
    rw [pc] at tokens
    simp only [length_cons, if_true, reduceCtorEq, if_false] at tokens ⊢
    omega
  | start exist pc | finish exist pc =>
    refine ⟨ok.nodup, ?_, nofun, present exist rfl⟩
    rw [pc] at tokens
    simpa using tokens

/-- Works leave the queue in the order in which they came. -/
theorem QueueStep.order (step : QueueStep k g k' g' linked started) (ok : QueueOk k g)
    (order : submitted = before ++ k.worker.next ++ k.workList) :
    submitted ++ linked = before ++ started ++ k'.worker.next ++ k'.workList := by
  cases step with
  | rest | create => simpa using order
  | link => simp [order]
  | give =>
    have same : k.semGive.2.worker.next = k.worker.next := by
      unfold Kworkqueue.semGive
      split
      · next waits =>
        rw [waits]
        rfl
      · split <;> rfl
    rw [same, semGive_workList]
    simpa using order
  | take exist pc | wait exist pc | start _ pc | finish _ pc =>
    rw [pc] at order
    simpa [WorkerPc.next] using order
  | dequeue _ pc list =>
    rw [pc, list] at order
    simpa [WorkerPc.next] using order

/-! ## The works in the lists -/

/-- `work_exit` tells whether a work is linked, and no work is linked twice. -/
structure Members (s : Works) : Prop where
  exit : ∀ w, (s.work w).workExit = true ↔ ∃ q, w ∈ (s.wq q).workList
  once : ∀ w q q', w ∈ (s.wq q).workList → w ∈ (s.wq q').workList → q = q'
  initialised : ∀ w q, w ∈ (s.wq q).workList → (s.work w).initialised = true

structure WorksOk (s : Works) : Prop where
  timers : WorkTimersOk s
  members : Members s
  queue : ∀ q, QueueOk (s.wq q) (s.givers q)
  memory : ∀ w, (s.work w).initialised = true → w < addrRange / sizeofKwork
  calls : ∀ c ∈ s.calls, (s.work c.work).initialised = true
  sound : s.corrupt = false

variable {s s' : Works} {q : WqId} {w : WorkId} {f : Kworkqueue → Kworkqueue}

theorem Members.congr (members : Members s) (list : ∀ q, (s'.wq q).workList = (s.wq q).workList)
    (exit : ∀ w, (s'.work w).workExit = (s.work w).workExit)
    (init : ∀ w, (s.work w).initialised = true → (s'.work w).initialised = true) : Members s' := by
  refine ⟨fun w => ?_, fun w q q' inList inList' => ?_, fun w q inList => ?_⟩
  · rw [exit, members.exit w]
    exact exists_congr fun q => by rw [list]
  · rw [list] at inList inList'
    exact members.once w q q' inList inList'
  · rw [list] at inList
    exact init w (members.initialised w q inList)

/-- A work that is not linked is in no list. -/
theorem Members.out (members : Members s) (out : (s.work w).workExit = false) (q : WqId) :
    w ∉ (s.wq q).workList := fun inList =>
  Bool.false_ne_true (out.symm.trans ((members.exit w).mpr ⟨q, inList⟩))

theorem Works.unlink_of_out (out : ∀ q, w ∉ (s.wq q).workList) : s.unlink w = s := by
  unfold unlink
  have same : (fun q => { s.wq q with workList := (s.wq q).workList.erase w }) = s.wq := by
    funext q
    rw [erase_of_not_mem (out q)]
  rw [same]

theorem link_wq (out : ∀ q, w ∉ (s.wq q).workList) (q p : WqId) :
    (s.link q w).wq p =
      if p = q then { s.wq q with workList := (s.wq q).workList ++ [w] } else s.wq p := by
  unfold Works.link
  rw [unlink_of_out out]
  by_cases same : p = q
  · subst same
    simp only [modWork, modWq, update_self, if_true]
  · simp only [modWork, modWq, update_of_ne same, if_neg same]

theorem link_work (s : Works) (q : WqId) (w v : WorkId) :
    (s.link q w).work v =
      if v = w then { s.work w with wq := some q, workExit := true } else s.work v := by
  by_cases same : v = w
  · subst same
    simp only [Works.link, unlink, modWork, modWq, update_self, if_true]
  · simp only [Works.link, unlink, modWork, modWq, update_of_ne same, if_neg same]

/-- A work is linked at most once. -/
theorem Members.link (members : Members s) (out : (s.work w).workExit = false)
    (init : (s.work w).initialised = true) (q : WqId) : Members (s.link q w) := by
  have out' := members.out out
  have list : ∀ p v, v ∈ ((s.link q w).wq p).workList ↔ v ∈ (s.wq p).workList ∨ p = q ∧ v = w := by
    intro p v
    rw [link_wq out']
    by_cases same : p = q
    · subst same
      simp
    · simp [same]
  refine ⟨fun v => ?_, fun v p p' inList inList' => ?_, fun v p inList => ?_⟩
  · rw [link_work]
    by_cases same : v = w
    · subst same
      simp only [if_true, true_iff]
      exact ⟨q, (list q v).mpr (.inr ⟨rfl, rfl⟩)⟩
    · rw [if_neg same, members.exit v]
      refine exists_congr fun p => ?_
      rw [list]
      exact (or_iff_left fun both => same both.2).symm
  · rw [list] at inList inList'
    rcases inList with before | ⟨rfl, rfl⟩
    · rcases inList' with before' | ⟨rfl, rfl⟩
      · exact members.once v p p' before before'
      · exact absurd before (out' p)
    · rcases inList' with before' | ⟨rfl, -⟩
      · exact absurd before' (out' p')
      · rfl
  · rw [link_work]
    by_cases same : v = w
    · rw [if_pos same]
      exact init
    · rw [if_neg same]
      exact members.initialised v p (((list p v).mp inList).resolve_right fun both => same both.2)

/-- The first work of the list of `q` is taken out. -/
theorem Members.dequeue (members : Members s) (nodup : (s.wq q).workList.Nodup)
    (list : (s.wq q).workList = w :: rest) (out : (f (s.wq q)).workList = rest) :
    Members ((s.modWq q f).modWork w fun k => { k with workExit := false }) := by
  rw [list] at nodup
  obtain ⟨notRest, -⟩ := nodup_cons.mp nodup
  have here : w ∈ (s.wq q).workList := list ▸ mem_cons_self
  have lists : ∀ p v, v ∈ (((s.modWq q f).modWork w fun k =>
      { k with workExit := false }).wq p).workList ↔ v ∈ (s.wq p).workList ∧ v ≠ w := by
    intro p v
    by_cases same : p = q
    · subst same
      simp only [modWork, modWq, update_self, out, list, mem_cons]
      constructor
      · exact fun inRest => ⟨.inr inRest, fun same => notRest (same ▸ inRest)⟩
      · rintro ⟨eq | inRest, other⟩
        · exact absurd eq other
        · exact inRest
    · simp only [modWork, modWq, update_of_ne same]
      exact ⟨fun inList => ⟨inList, fun eq => same (members.once w p q (eq ▸ inList) here)⟩,
        And.left⟩
  refine ⟨fun v => ?_, fun v p p' inList inList' => ?_, fun v p inList => ?_⟩
  · by_cases same : v = w
    · subst same
      simp only [modWork, modWq, update_self, Bool.false_eq_true, false_iff]
      rintro ⟨p, inList⟩
      exact ((lists p v).mp inList).2 rfl
    · simp only [modWork, modWq, update_of_ne same]
      rw [members.exit v]
      refine exists_congr fun p => ?_
      exact (and_iff_left same).symm.trans (lists p v).symm
  · exact members.once v p p' ((lists p v).mp inList).1 ((lists p' v).mp inList').1
  · obtain ⟨inList, other⟩ := (lists p v).mp inList
    simp only [modWork, modWq, update_of_ne other]
    exact members.initialised v p inList

/-! ## Steps -/

/-- What a step does to the lists: the work it links and the work it starts. -/
structure WorksStep (s s' : Works) (linked started : Option (WqId × WorkId)) : Prop where
  members : Members s'
  queue : ∀ q, QueueStep (s.wq q) (s.givers q) (s'.wq q) (s'.givers q) (worksOf q linked)
    (worksOf q started)
  keeps : ∀ w, (s.work w).initialised = true → (s'.work w).initialised = true
  memory : ∀ w, (s'.work w).initialised = true →
    (s.work w).initialised = true ∨ w < addrRange / sizeofKwork
  calls : ∀ c ∈ s'.calls, c ∈ s.calls ∨ (s.work c.work).initialised = true
  sound : s'.corrupt = s.corrupt

variable {linked started : Option (WqId × WorkId)} {a : WorkLabel}

/-- A step keeps the invariant. -/
theorem WorksStep.ok (step : WorksStep s s' linked started) (ok : WorksOk s)
    (timers : WorkTimersOk s') : WorksOk s' := by
  refine ⟨timers, step.members, fun q => ?_, fun w init => ?_, fun c inCalls => ?_,
    step.sound.trans ok.sound⟩
  · exact (step.queue q).ok (ok.queue q) ((ok.queue q).room fun w inList =>
      ok.memory w (ok.members.initialised w q inList))
  · exact (step.memory w init).elim (ok.memory w) id
  · exact step.keeps _ ((step.calls c inCalls).elim (ok.calls c) id)

/-- A step that initialises no work. -/
theorem WorksStep.known (members : Members s')
    (queue : ∀ q, QueueStep (s.wq q) (s.givers q) (s'.wq q) (s'.givers q) (worksOf q linked)
      (worksOf q started))
    (init : ∀ w, (s'.work w).initialised = (s.work w).initialised)
    (calls : ∀ c ∈ s'.calls, c ∈ s.calls ∨ (s.work c.work).initialised = true)
    (sound : s'.corrupt = s.corrupt) : WorksStep s s' linked started :=
  ⟨members, queue, fun w before => (init w).trans before,
    fun w now => .inl ((init w).symm.trans now), calls, sound⟩

/-- A step that leaves the queues alone, and the submitters of them. -/
theorem WorksStep.quiet (members : Members s) (wq : s'.wq = s.wq)
    (givers : ∀ q, s'.givers q = s.givers q)
    (work : ∀ w, (s'.work w).workExit = (s.work w).workExit ∧
      (s'.work w).initialised = (s.work w).initialised)
    (calls : ∀ c ∈ s'.calls, c ∈ s.calls ∨ (s.work c.work).initialised = true)
    (sound : s'.corrupt = s.corrupt) : WorksStep s s' none none := by
  refine .known (members.congr (fun q => by rw [wq]) (fun w => (work w).1) fun w init =>
    (work w).2.trans init) (fun q => ?_) (fun w => (work w).2) calls sound
  rw [wq, givers q]
  exact .rest

/-- A step of the queue `q` that leaves its list alone. -/
theorem WorksStep.atQueue (members : Members s) (wq : s'.wq = (s.modWq q f).wq)
    (work : s'.work = s.work) (list : (f (s.wq q)).workList = (s.wq q).workList)
    (others : ∀ p, p ≠ q → s'.givers p = s.givers p ∧ worksOf p started = [])
    (step : QueueStep (s.wq q) (s.givers q) (f (s.wq q)) (s'.givers q) [] (worksOf q started))
    (calls : ∀ c ∈ s'.calls, c ∈ s.calls ∨ (s.work c.work).initialised = true)
    (sound : s'.corrupt = s.corrupt) : WorksStep s s' none started := by
  have here : s'.wq q = f (s.wq q) := (congrFun wq q).trans (update_self ..)
  have elsewhere p (other : p ≠ q) : s'.wq p = s.wq p :=
    (congrFun wq p).trans (update_of_ne other ..)
  refine .known (members.congr (fun p => ?_) (fun w => by rw [work]) fun w init => by rwa [work])
    (fun p => ?_) (fun w => by rw [work]) calls sound
  · by_cases same : p = q
    · rw [same, here, list]
    · rw [elsewhere p same]
  by_cases same : p = q
  · rw [same, here]
    exact step
  · obtain ⟨givers, none⟩ := others p same
    rw [elsewhere p same, givers, none]
    exact .rest

/-- A call that is under way will give a token. -/
theorem givers_add (s : Works) (c : WorkCall) (q : WqId) :
    { s with calls := s.calls ++ [c] }.givers q = s.givers q + if c.gives q then 1 else 0 := by
  simp only [givers, countP_append, countP_singleton]
  omega

/-- A call that returns has given its token. -/
theorem givers_erase {c : WorkCall} (inCalls : c ∈ s.calls) (q : WqId) :
    s.givers q = { s with calls := s.calls.erase c }.givers q + if c.gives q then 1 else 0 := by
  have count := (perm_cons_erase inCalls).countP_eq (WorkCall.gives q)
  rw [countP_cons] at count
  simp only [givers, count]
  omega

/-- A work that is not linked is linked by a submitter, which has the token to give. -/
theorem WorksStep.link (ok : WorksOk s) (there : (s.wq q).exist = true)
    (out : (s.work w).workExit = false) (init : (s.work w).initialised = true)
    (wq : s'.wq = (s.link q w).wq) (work : s'.work = (s.link q w).work)
    (givers : ∀ p, s'.givers p = s.givers p + if q = p then 1 else 0)
    (calls : ∀ c ∈ s'.calls, c ∈ s.calls ∨ (s.work c.work).initialised = true)
    (sound : s'.corrupt = s.corrupt) : WorksStep s s' (some (q, w)) none := by
  have out' := ok.members.out out
  have same v : (s'.work v).initialised = (s.work v).initialised := by
    rw [work, link_work]
    split
    · next eq => rw [eq]
    · rfl
  refine .known ?_ (fun p => ?_) same calls sound
  · refine (ok.members.link out init q).congr (fun p => by rw [wq]) (fun v => by rw [work])
      fun v => ?_
    rw [work]
    exact id
  rw [wq, link_wq out', givers p]
  by_cases here : q = p
  · subst here
    simp only [if_true, worksOf]
    exact .link there (out' q)
  · rw [if_neg (Ne.symm here), if_neg here]
    simp only [worksOf, if_neg here]
    exact .rest

/-- A work that is not initialised is in no list. -/
theorem modWork_step (ok : WorksOk s) (fresh : (s.work w).initialised = false)
    (small : w < addrRange / sizeofKwork) {j : Kwork} (out : j.workExit = false)
    {timers : Timers} : WorksStep s { s.modWork w fun _ => j with timers } none none := by
  have notLinked : (s.work w).workExit = false := by
    cases exit : (s.work w).workExit with
    | false => rfl
    | true =>
      obtain ⟨q, inList⟩ := (ok.members.exit w).mp exit
      exact absurd (fresh.symm.trans (ok.members.initialised w q inList)) Bool.false_ne_true
  have kept v (init : (s.work v).initialised = true) :
      ((s.modWork w fun _ => j).work v).initialised = true := by
    have other : v ≠ w := fun same => Bool.false_ne_true (fresh.symm.trans (same ▸ init))
    simpa only [modWork, update_of_ne other] using init
  refine ⟨ok.members.congr (fun _ => rfl) (fun v => ?_) kept, fun _ => .rest, kept,
    fun v init => ?_, fun _ => .inl, rfl⟩
  · by_cases same : v = w
    · subst same
      simp only [modWork, update_self, out, notLinked]
    · simp only [modWork, update_of_ne same]
  · by_cases same : v = w
    · exact .inr (same ▸ small)
    · simp only [modWork, update_of_ne same] at init
      exact .inl init

theorem workTimerSend_frame (s : Works) (w : WorkId) (cmd : TimerId → TimerCmd) :
    (workTimerSend s w cmd).2 = { s with timers := (workTimerSend s w cmd).2.timers } := by
  unfold workTimerSend
  split <;> rfl

/-- A call is added by its first critical section. -/
theorem mem_calls_add {c : WorkCall} (init : (s.work c.work).initialised = true) :
    ∀ c' ∈ s.calls ++ [c], c' ∈ s.calls ∨ (s.work c'.work).initialised = true := by
  intro c' inCalls
  rcases mem_append.mp inCalls with before | now
  · exact .inl before
  · rw [mem_singleton.mp now]
    exact .inr init

/-- The steps that concern a queue. -/
theorem QueueAct.step {a : WorkLabel} (act : QueueAct s a s' linked started) (ok : WorksOk s)
    (may : a.Allowed s) : WorksStep s s' linked started := by
  have fewer : ∀ {c c' : WorkCall}, c' ∈ s.calls.erase c →
      c' ∈ s.calls ∨ (s.work c'.work).initialised = true := fun left =>
    .inl (mem_of_mem_erase left)
  cases act with
  | rest => exact .quiet ok.members rfl (fun _ => rfl) (fun _ => ⟨rfl, rfl⟩) (fun _ => .inl) rfl
  | cbDone _ cb =>
    refine .quiet ok.members rfl (fun q => ?_) (fun _ => ⟨rfl, rfl⟩) (fun _ => .inl) rfl
    simp only [givers, cb, reduceCtorEq, if_false]
  | cbLinks calling cb arg priv out =>
    obtain ⟨-, had, there⟩ := ok.timers.calling calling
    rw [priv] at had
    rw [arg] at there
    refine .link ok there out (ok.timers.owned _ _ had).1 rfl rfl (fun p => ?_) (fun _ => .inl) rfl
    simp only [givers, cb, WorkCb.give.injEq, reduceCtorEq, if_false]
    rfl
  | @cbGives _ q _ cb =>
    refine .atQueue (f := fun k => k.semGive.2) ok.members rfl rfl (semGive_workList _)
      (fun p other => ⟨?_, rfl⟩) ?_ (fun _ => .inl) rfl
    · simp only [modWq, givers, cb, WorkCb.give.injEq, if_neg other.symm, reduceCtorEq, if_false]
    · simp only [modWq, worksOf, givers, cb, if_true, reduceCtorEq, if_false]
      exact .give
  | works list others step =>
    exact .atQueue ok.members rfl rfl list (fun p other => ⟨rfl, others p other⟩) (step _)
      (fun _ => .inl) rfl
  | @dequeues q w rest there pc list =>
    refine .known (ok.members.dequeue (ok.queue q).nodup list rfl) (fun p => ?_) (fun v => ?_)
      (fun _ => .inl) rfl
    · by_cases same : p = q
      · subst same
        simp only [modWork, modWq, update_self, worksOf]
        exact .dequeue there pc list
      · simp only [modWork, modWq, update_of_ne same, worksOf]
        exact .rest
    · by_cases same : v = w
      · subst same
        simp only [modWork, modWq, update_self]
      · simp only [modWork, modWq, update_of_ne same]
  | @corrupts q pc list =>
    -- a granted worker has a work to dequeue
    have tokens := (ok.queue q).tokens
    rw [pc, list] at tokens
    simp at tokens
  | @create q _ _ exist absent =>
    obtain ⟨empty, none⟩ := (ok.queue q).absent absent
    refine .atQueue ok.members rfl rfl ?_ (fun _ _ => ⟨rfl, rfl⟩) ?_ (fun _ => .inl) rfl
    · rw [empty]
    have givers : (s.modWq q fun _ => { exist }).givers q = 0 := none
    rw [givers, none, empty]
    cases exist with
    | false => exact .rest
    | true => exact .create
  | @submits q w out =>
    refine .link ok may.1 out may.2 rfl rfl (fun p => ?_) (mem_calls_add may.2) rfl
    exact (givers_add (s.link q w) (.give q w) p).trans (by
      simp only [WorkCall.gives, decide_eq_true_eq]
      rfl)
  | cancel =>
    exact .quiet ok.members rfl (fun p => givers_add s _ p) (fun _ => ⟨rfl, rfl⟩)
      (mem_calls_add may) rfl
  | @gives q =>
    refine .atQueue (f := fun k => k.semGive.2) ok.members rfl rfl (semGive_workList _)
      (fun p other => ⟨?_, rfl⟩) ?_ (fun _ => fewer) rfl
    · rw [givers_erase may p]
      simp only [WorkCall.gives, decide_eq_true_eq, if_neg other.symm]
      rfl
    · rw [givers_erase may q]
      simp only [worksOf, WorkCall.gives, decide_true, if_true]
      exact .give
  | ends =>
    exact .quiet ok.members rfl (fun p => (givers_erase may p).symm) (fun _ => ⟨rfl, rfl⟩)
      (fun _ => fewer) rfl
  | @cancels w q out =>
    rw [unlink_of_out (s := { s with calls := s.calls.erase (.cancel w (some q)) })
      (ok.members.out out)]
    refine .quiet ok.members rfl (fun p => (givers_erase may p).symm) (fun v => ?_)
      (fun _ => fewer) rfl
    by_cases same : v = w
    · subst same
      simp only [modWork, update_self, and_self]
    · simp only [modWork, update_of_ne same, and_self]

/-- All steps of the work queues. -/
theorem WorkAct.step (act : WorkAct s a s' linked started) (ok : WorksOk s) (may : a.Allowed s) :
    WorksStep s s' linked started := by
  cases act with
  | queue act => exact act.step ok may
  | tick | timer =>
    exact .quiet ok.members rfl (fun _ => rfl) (fun _ => ⟨rfl, rfl⟩) (fun _ => .inl) rfl
  | task free =>
    refine .quiet ok.members rfl (fun q => ?_) (fun _ => ⟨rfl, rfl⟩) (fun _ => .inl) rfl
    have notGive : s.cb ≠ .give q := by
      rcases free with none | done
      · rw [ok.timers.cb none]
        exact WorkCb.noConfusion
      · rw [done]
        exact WorkCb.noConfusion
    simp only [givers, if_neg notGive, reduceCtorEq, if_false]
  | init | initTimer => exact modWork_step ok may.1 may.2.1 rfl
  | @delays q w =>
    exact .quiet ok.members rfl (fun p => givers_add s (.post q w) p) (fun _ => ⟨rfl, rfl⟩)
      (mem_calls_add may.2) rfl
  | posts | stops =>
    rw [workTimerSend_frame]
    exact .quiet ok.members rfl (fun p => (givers_erase may p).symm) (fun _ => ⟨rfl, rfl⟩)
      (fun _ left => .inl (mem_of_mem_erase left)) rfl

theorem WorkLabel.step_works (ok : WorksOk s) (may : a.Allowed s) :
    WorksStep s (a.step s) (a.links s) (a.starts s) :=
  (acts may).step ok may

/-- Every step keeps the invariant. -/
theorem WorkLabel.step_worksOk (ok : WorksOk s) (may : a.Allowed s) : WorksOk (a.step s) :=
  (step_works ok may).ok ok ((acts may).timersOk ok.timers may fun _ _ inCalls =>
    ok.calls _ inCalls)

theorem initial_worksOk : WorksOk {} where
  timers := ⟨initial_timersOk, nofun, nofun, nofun, nofun, nofun, fun _ => rfl⟩
  members := ⟨fun _ => ⟨nofun, nofun⟩, nofun, nofun⟩
  queue _ := ⟨nodup_nil, rfl, nofun, fun _ => ⟨rfl, rfl⟩⟩
  memory := nofun
  calls := nofun
  sound := rfl

/-! ## Runs -/

structure WorkHistory where
  /-- The works that have been linked into a queue, in order. -/
  submitted : WqId → List WorkId := fun _ => []
  /-- The works whose handlers the worker of a queue has called, in order. -/
  started : WqId → List WorkId := fun _ => []

def WorkHistory.note (s : Works) (a : WorkLabel) (h : WorkHistory) : WorkHistory where
  submitted q := h.submitted q ++ worksOf q (a.links s)
  started q := h.started q ++ worksOf q (a.starts s)

/-- Work queues with the works that were submitted and started. -/
abbrev workLog : System (Works × WorkHistory) WorkLabel := workSystem.observed {} WorkHistory.note

structure WorksRunOnce (s : Works) (h : WorkHistory) : Prop where
  tokens : ∀ q, (s.wq q).workList.length =
    (s.wq q).semCount + s.givers q + if (s.wq q).worker = .granted then 1 else 0
  /-- A worker that has a token finds a work. -/
  dequeues : s.corrupt = false ∧ ∀ q, (s.wq q).worker = .granted → (s.wq q).workList ≠ []
  linkedOnce : (∀ q, (s.wq q).workList.Nodup) ∧
    ∀ w q q', w ∈ (s.wq q).workList → w ∈ (s.wq q').workList → q = q'
  /-- A call that has linked its work returns `RHINO_SUCCESS`. -/
  succeeds : ∀ q w, .give q w ∈ s.calls → ((WorkCall.give q w).resume s).1 = .success
  /-- The works linked into a queue are started one by one in that order; what is left is in the
  list, or about to be started. -/
  inOrder : ∀ q, h.submitted q =
    h.started q ++ (s.wq q).worker.next ++ (s.wq q).workList

theorem WorksOk.succeeds (ok : WorksOk s) (q : WqId) (w : WorkId) :
    ((WorkCall.give q w).resume s).1 = .success :=
  semGive_success ((ok.queue q).room fun w inList =>
    ok.memory w (ok.members.initialised w q inList))

theorem works_runOnce {p : Works × WorkHistory} (reach : workLog.Reach p) :
    WorksRunOnce p.1 p.2 := by
  have log : WorksOk p.1 ∧ ∀ q, p.2.submitted q =
      p.2.started q ++ (p.1.wq q).worker.next ++ (p.1.wq q).workList := by
    refine reach.invariant (P := fun p => WorksOk p.1 ∧ ∀ q, p.2.submitted q =
      p.2.started q ++ (p.1.wq q).worker.next ++ (p.1.wq q).workList) ?_ ?_
    · rintro ⟨s, h⟩ ⟨start, rfl⟩
      cases start
      exact ⟨initial_worksOk, fun _ => rfl⟩
    · rintro ⟨s, h⟩ a ⟨ok, order⟩ may
      exact ⟨WorkLabel.step_worksOk ok may, fun q =>
        ((WorkLabel.step_works ok may).queue q).order (ok.queue q) (order q)⟩
  obtain ⟨ok, order⟩ := log
  refine ⟨fun q => (ok.queue q).tokens, ⟨ok.sound, fun q granted empty => ?_⟩,
    ⟨fun q => (ok.queue q).nodup, ok.members.once⟩, fun q w _ => ok.succeeds q w, order⟩
  have tokens := (ok.queue q).tokens
  rw [granted, empty] at tokens
  simp at tokens

/-- Two works are linked before a token is given, and the token of the second comes first. -/
def tokensCross : List WorkLabel :=
  [.create 1 20 100, .init 5 0 none, .init 6 0 none, .worker 1, .run 1 5, .run 1 6,
    .resume (.give 1 6), .worker 1, .worker 1, .resume (.give 1 5), .worker 1, .worker 1, .worker 1,
    .worker 1]

/-- The works run in the order of their links. -/
theorem works_runOnce_tokensCross :
    (workLog.run ({}, {}) tokensCross).2.started 1 = [5, 6] ∧
      WorksRunOnce (workLog.run ({}, {}) tokensCross).1 (workLog.run ({}, {}) tokensCross).2 :=
  have start : workLog.Reach ({}, {}) := .init ⟨rfl, rfl⟩
  ⟨by decide +kernel, works_runOnce (start.run (by decide +kernel))⟩

end AliosThings.Rhino
