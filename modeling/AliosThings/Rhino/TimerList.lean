import AliosThings.Rhino.Lists
import AliosThings.Rhino.Timer

/-!
# The list of active timers

`g_timer_head` holds the active timers, each once, and `timer_cb_proc` stands on one of them. An
operation of `timer_task` takes one timer out of the list, or puts one in, or both; the others are
what `LinkedBut` speaks of.
-/

namespace AliosThings.Rhino

open Lib Function List

variable {s s' s₁ s₂ s₃ : Timers} {t u : TimerId} {head head' l : List TimerId}
  {timer : TimerId → Ktimer} {k k₁ k₂ k₃ : Ktimer} {f : Ktimer → Ktimer} {cb : TimerCb}
  {inner : Bool}

/-- The intervals of a timer are such as `timer_create` accepts. -/
def Ktimer.TicksOk (k : Ktimer) : Prop := timerTicksOk k.initCount k.roundTicks = true

open Ktimer

/-- The range check of `krhino_timer_create` and `krhino_timer_change`. -/
theorem timerTicksOk_iff {first round : Nat} :
    timerTicksOk first round = true ↔
      0 < first ∧ first < maxTimerTicks ∧ round < maxTimerTicks := by
  simp only [timerTicksOk, Bool.and_eq_true, decide_eq_true_eq, and_assoc, Nat.pos_iff_ne_zero]

/-- The record of a timer, given whether it is in the list. -/
structure Ktimer.Fits (k : Ktimer) (inList : Prop) : Prop where
  state : inList ↔ k.timerState = .active
  toHead : inList ↔ k.toHead = true
  created : inList → k.isTimer = true
  ticks : k.isTimer = true → k.TicksOk

/-- The list holds the timers that are active, apart from `t`, which it does not hold. -/
structure LinkedBut (t : TimerId) (head : List TimerId) (timer : TimerId → Ktimer) : Prop where
  nodup : head.Nodup
  out : t ∉ head
  fits : ∀ u, u ≠ t → (timer u).Fits (u ∈ head)

/-- The list holds the timers that are active. -/
structure Linked (head : List TimerId) (timer : TimerId → Ktimer) : Prop where
  nodup : head.Nodup
  fits : ∀ t, (timer t).Fits (t ∈ head)

/-- After a removal every timer but `t` fits. -/
theorem Linked.erase (h : Linked head timer) (t : TimerId) : LinkedBut t (head.erase t) timer := by
  refine ⟨h.nodup.erase t, h.nodup.not_mem_erase, fun u other => ?_⟩
  rw [mem_erase_of_ne other]
  exact h.fits u

theorem LinkedBut.update (h : LinkedBut t head timer) (k : Ktimer) :
    LinkedBut t head (update timer t k) :=
  ⟨h.nodup, h.out, fun u other => by rw [update_of_ne other]; exact h.fits u other⟩

/-- An idle timer may stay outside. -/
theorem LinkedBut.linked (h : LinkedBut t head timer) (fits : (timer t).Fits False) :
    Linked head timer := by
  refine ⟨h.nodup, fun u => ?_⟩
  by_cases same : u = t
  · subst same
    rwa [eq_false h.out]
  · exact h.fits u same

/-- An active timer is put back. -/
theorem LinkedBut.insert (h : LinkedBut t head timer) (perm : head'.Perm (t :: head))
    (fits : (timer t).Fits True) : Linked head' timer := by
  refine ⟨perm.nodup_iff.mpr (nodup_cons.mpr ⟨h.out, h.nodup⟩), fun u => ?_⟩
  rw [perm.mem_iff, mem_cons]
  by_cases same : u = t
  · subst same
    rwa [eq_true (Or.inl rfl)]
  · rw [or_iff_right same]
    exact h.fits u same

theorem Linked.but (h : Linked head timer) (out : t ∉ head) : LinkedBut t head timer :=
  ⟨h.nodup, out, fun u _ => h.fits u⟩

/-- The list has exactly the active timers. -/
theorem Linked.mem_iff (h : Linked head timer) : t ∈ head ↔ (timer t).timerState = .active :=
  (h.fits t).state

theorem TimerStat.ne_active_iff {st : TimerStat} : st ≠ .active ↔ st = .deactive := by
  cases st <;> decide

theorem Linked.not_mem (h : Linked head timer) : t ∉ head ↔ (timer t).timerState = .deactive := by
  rw [h.mem_iff]
  exact TimerStat.ne_active_iff

/-! ## Operations on the list -/

/-- `timer_list_rm` of a linked timer. -/
theorem timerListRm_eq (linked : (s.timer t).toHead = true) :
    timerListRm s t = { s with
      head := s.head.erase t
      timer := update s.timer t { s.timer t with toHead := false } } := by
  rw [timerListRm, if_pos linked]
  rfl

/-- The list after `timer_list_pri_insert`. -/
def Timers.inserted (s : Timers) (t : TimerId) (ticks : Nat) : List TimerId :=
  tickListPriInsert (fun u => tickSub (if u = t then (s.timerCount + ticks) % tickRange
    else (s.timer u).timerMatch) s.timerCount) ticks t s.head

/-- A timer is armed and put in its place. -/
theorem timerArm_eq (s : Timers) (t : TimerId) (k : Ktimer) (ticks : Nat) :
    timerArm { s with timer := update s.timer t k } t ticks = { s with
      head := s.inserted t ticks
      timer := update s.timer t { k with
        timerMatch := (s.timerCount + ticks) % tickRange, remain := ticks, toHead := true } } := by
  have remaining : (fun u => tickSub (update s.timer t { k with
      timerMatch := (s.timerCount + ticks) % tickRange, remain := ticks, toHead := true }
        u).timerMatch s.timerCount) =
      fun u => tickSub (if u = t then (s.timerCount + ticks) % tickRange
        else (s.timer u).timerMatch) s.timerCount := by
    funext u
    by_cases same : u = t
    · subst same
      rw [update_self, if_pos rfl]
    · rw [update_of_ne same, if_neg same]
  simp only [timerArm, timerListPriInsert, Timers.modTimer, update_self, update_idem, remaining,
    Timers.inserted]

theorem inserted_perm (s : Timers) (t : TimerId) (ticks : Nat) :
    (s.inserted t ticks).Perm (t :: s.head) := tickListPriInsert_perm ..

/-- `timer_cmd_proc`, and the other actions of `timer_task`, on the timer `t`. -/
def Ktimer.armed (k : Ktimer) (count ticks : Nat) : Ktimer :=
  { k with
    timerMatch := (count + ticks) % tickRange
    remain := ticks
    toHead := true
    timerState := .active }

def Ktimer.disarmed (k : Ktimer) : Ktimer := { k with toHead := false, timerState := .deactive }

/-- A start is refused, or arms the timer. -/
theorem cmdStart_cases (s : Timers) (t : TimerId) :
    (cmdStart s t = s ∧ ¬ ((s.timer t).isTimer ∧ (s.timer t).timerState = .deactive)) ∨
    ((s.timer t).isTimer = true ∧ (s.timer t).timerState = .deactive ∧ cmdStart s t = { s with
        head := s.inserted t (s.timer t).initCount
        timer := update s.timer t ((s.timer t).armed s.timerCount (s.timer t).initCount) }) := by
  unfold cmdStart
  split
  · next refused =>
    refine .inl ⟨rfl, fun ⟨created, idle⟩ => ?_⟩
    simp [created, idle] at refused
  · next accepted =>
    obtain ⟨created, idle⟩ := not_or.mp accepted
    have arms := timerArm_eq s t (s.timer t) (s.timer t).initCount
    rw [update_eq_self] at arms
    refine .inr ⟨Bool.eq_true_of_not_eq_false created, TimerStat.ne_active_iff.mp idle, ?_⟩
    rw [arms]
    simp only [Timers.modTimer, update_self, update_idem, armed]

/-- A stop is refused, or disarms the timer. -/
theorem cmdStop_cases (s : Timers) (t : TimerId) (linked : Linked s.head s.timer) :
    (cmdStop s t = s ∧ t ∉ s.head) ∨
    (t ∈ s.head ∧ cmdStop s t = { s with
      head := s.head.erase t
      timer := update s.timer t (s.timer t).disarmed }) := by
  have fits := linked.fits t
  unfold cmdStop
  split
  · next refused =>
    refine .inl ⟨rfl, fun inList => ?_⟩
    rcases refused with foreign | idle
    · exact Bool.false_ne_true (foreign.symm.trans (fits.created inList))
    · exact linked.not_mem.mpr idle inList
  · next accepted =>
    have inList : t ∈ s.head := not_not.mp fun out => accepted (.inr (linked.not_mem.mp out))
    refine .inr ⟨inList, ?_⟩
    rw [timerListRm_eq (fits.toHead.mp inList)]
    simp only [Timers.modTimer, update_self, update_idem, disarmed]

/-- The other commands are refused for an active timer. -/
theorem cmdIdle_cases (s : Timers) (t : TimerId) (f : Ktimer → Ktimer) :
    cmdIdle s t f = s ∨
    ((s.timer t).isTimer = true ∧ (s.timer t).timerState = .deactive ∧
      cmdIdle s t f = s.modTimer t f) := by
  unfold cmdIdle
  split
  · exact .inl rfl
  · next accepted =>
    obtain ⟨created, idle⟩ := not_or.mp accepted
    exact .inr ⟨Bool.eq_true_of_not_eq_false created, not_not.mp idle, rfl⟩

/-- What is left when a timer has been taken out of the list and put in again. -/
theorem timerCbReturn_eq (linked : Linked s.head s.timer) (inList : t ∈ s.head) :
    timerCbReturn s t =
      if (s.timer t).roundTicks > 0 then
        let head := { s with head := s.head.erase t }.inserted t (s.timer t).roundTicks
        { s with
          head
          timer := update s.timer t ((s.timer t).armed s.timerCount (s.timer t).roundTicks)
          pc := .scan (nodeNext t head) }
      else
        { s with
          head := s.head.erase t
          timer := update s.timer t (s.timer t).disarmed
          pc := .scan (nodeNext t s.head) } := by
  have fits := linked.fits t
  rw [timerCbReturn, timerListRm_eq (fits.toHead.mp inList)]
  split
  · simp only [timerArm_eq { s with head := s.head.erase t }, armed, fits.state.mp inList]
  · simp only [Timers.modTimer, update_self, update_idem, disarmed]

/-! ## The list stays linked -/

/-- An armed timer belongs in the list. -/
theorem Ktimer.armed_fits (created : k.isTimer = true) (ticks : k.TicksOk) (count n : Nat) :
    (k.armed count n).Fits True :=
  ⟨iff_of_true trivial rfl, iff_of_true trivial rfl, fun _ => created, fun _ => ticks⟩

/-- A disarmed timer belongs outside. -/
theorem Ktimer.disarmed_fits (ticks : k.isTimer = true → k.TicksOk) : k.disarmed.Fits False :=
  ⟨⟨False.elim, TimerStat.noConfusion⟩, ⟨False.elim, Bool.noConfusion⟩, False.elim, ticks⟩

/-- The callback stays, and what is a timer was one. -/
structure Ktimer.Stays (k k' : Ktimer) : Prop where
  cb : k'.cb = k.cb
  isTimer : k'.isTimer = true → k.isTimer = true

theorem Ktimer.Stays.refl (k : Ktimer) : k.Stays k := ⟨rfl, id⟩

theorem Ktimer.Stays.trans (h : k₁.Stays k₂) (h' : k₂.Stays k₃) : k₁.Stays k₃ :=
  ⟨h'.cb.trans h.cb, fun is => h.isTimer (h'.isTimer is)⟩

/-- What a command does to the timer `t`, and to nothing else. -/
structure Commanded (t : TimerId) (s s' : Timers) : Prop where
  linked : Linked s'.head s'.timer
  frame : s' = { s with head := s'.head, timer := s'.timer }
  other : ∀ u, u ≠ t → s'.timer u = s.timer u
  stays : (s.timer t).Stays (s'.timer t)

theorem Commanded.refl (linked : Linked s.head s.timer) : Commanded t s s :=
  ⟨linked, rfl, fun _ _ => rfl, .refl _⟩

theorem Commanded.trans (h : Commanded t s₁ s₂) (h' : Commanded t s₂ s₃) : Commanded t s₁ s₃ where
  linked := h'.linked
  frame := by rw [h'.frame, h.frame]
  other u apart := (h'.other u apart).trans (h.other u apart)
  stays := h.stays.trans h'.stays

/-- The list and the record of `t` are written. -/
theorem Commanded.write (linked : Linked head (update s.timer t k))
    (stays : (s.timer t).Stays k) : Commanded t s { s with head, timer := update s.timer t k } :=
  ⟨linked, rfl, fun _ apart => update_of_ne apart _ _, by simpa only [update_self] using stays⟩

/-- A start concerns one timer. -/
theorem cmdStart_commanded (linked : Linked s.head s.timer) (t : TimerId) :
    Commanded t s (cmdStart s t) := by
  rcases cmdStart_cases s t with ⟨eq, -⟩ | ⟨created, idle, eq⟩
  · rw [eq]
    exact .refl linked
  rw [eq]
  refine .write (((linked.but (linked.not_mem.mpr idle)).update _).insert (inserted_perm s t _) ?_)
    ⟨rfl, id⟩
  rw [update_self]
  exact armed_fits created ((linked.fits t).ticks created) _ _

/-- A stop concerns one timer. -/
theorem cmdStop_commanded (linked : Linked s.head s.timer) (t : TimerId) :
    Commanded t s (cmdStop s t) := by
  rcases cmdStop_cases s t linked with ⟨eq, -⟩ | ⟨inList, eq⟩
  · rw [eq]
    exact .refl linked
  · rw [eq]
    refine .write (((linked.erase t).update _).linked ?_) ⟨rfl, id⟩
    rw [update_self]
    exact disarmed_fits (linked.fits t).ticks

/-- A change of a timer that is not active, to something that fits. -/
theorem cmdIdle_commanded (linked : Linked s.head s.timer)
    (state : (f (s.timer t)).timerState = (s.timer t).timerState)
    (toHead : (f (s.timer t)).toHead = (s.timer t).toHead)
    (ticks : (s.timer t).TicksOk → (f (s.timer t)).TicksOk)
    (stays : (s.timer t).Stays (f (s.timer t))) : Commanded t s (cmdIdle s t f) := by
  rcases cmdIdle_cases s t f with eq | ⟨created, idle, eq⟩
  · rw [eq]
    exact .refl linked
  have out := linked.not_mem.mpr idle
  have fits := linked.fits t
  rw [eq]
  refine .write (((linked.but out).update _).linked ?_) stays
  rw [update_self]
  refine ⟨?_, ?_, False.elim, fun _ => ticks (fits.ticks created)⟩
  · rw [state, ← fits.state]
    exact iff_of_false id out
  · rw [toHead, ← fits.toHead]
    exact iff_of_false id out

/-- The intervals that a command carries have been checked. -/
def TimerCmd.Ok : TimerCmd → Prop
  | chg _ first round => timerTicksOk first round = true
  | _ => True

theorem cmdArgChg_commanded (linked : Linked s.head s.timer) (t : TimerId) (arg : Nat) :
    Commanded t s (cmdArgChg s t arg) :=
  cmdIdle_commanded linked rfl rfl id ⟨rfl, id⟩

/-- A deletion concerns one timer. -/
theorem cmdDel_commanded (linked : Linked s.head s.timer) (t : TimerId) (flag : AllocFlag) :
    Commanded t s (cmdDel s t flag) := by
  by_cases other : (s.timer t).mmAllocFlag ≠ flag
  · refine cmdIdle_commanded linked ?_ ?_ ?_ ?_ <;> rw [if_pos other]
    · exact id
    · exact .refl _
  · refine cmdIdle_commanded linked ?_ ?_ ?_ ?_ <;> rw [if_neg other]
    · exact id
    · exact ⟨rfl, Bool.noConfusion⟩

/-- Every command keeps the list and the other timers. -/
theorem timerCmdProc_commanded {cmd : TimerCmd} (linked : Linked s.head s.timer) (ok : cmd.Ok) :
    Commanded cmd.timer s (timerCmdProc s cmd) := by
  cases cmd with
  | start t => exact cmdStart_commanded linked t
  | stop t => exact cmdStop_commanded linked t
  | chg =>
    simp only [timerCmdProc, cmdChg]
    split
    · exact .refl linked
    · exact cmdIdle_commanded linked rfl rfl (fun _ => ok) ⟨rfl, id⟩
  | argChg t arg => exact cmdArgChg_commanded linked t arg
  | argChgAuto t arg =>
    have stopped := cmdStop_commanded linked t
    have changed := stopped.trans (cmdArgChg_commanded stopped.linked t arg)
    exact changed.trans (cmdStart_commanded changed.linked t)
  | del t | dynDel t => exact cmdDel_commanded linked t _

/-- A callback that returns leaves a sound list. -/
theorem timerCbReturn_linked (linked : Linked s.head s.timer) (inList : t ∈ s.head) :
    Linked (timerCbReturn s t).head (timerCbReturn s t).timer := by
  have fits := linked.fits t
  rw [timerCbReturn_eq linked inList]
  split
  · refine ((linked.erase t).update _).insert (inserted_perm _ t _) ?_
    rw [update_self]
    exact armed_fits (fits.created inList) (fits.ticks (fits.created inList)) _ _
  · refine ((linked.erase t).update _).linked ?_
    rw [update_self]
    exact disarmed_fits fits.ticks

/-! ## The commands under way -/

/-- The command that a receive has returned. -/
def TimerPc.cmd : TimerPc → Option TimerCmd
  | received cmd _ => cmd
  | _ => none

/-- The timer at which `timer_cb_proc` stands. -/
def TimerPc.node : TimerPc → Option TimerId
  | scan q => q
  | callback q => some q
  | _ => none

/-- The commands that have been sent and not been processed, oldest first. -/
def Timers.cmds (s : Timers) : List TimerCmd := s.pc.cmd.toList ++ s.queue

/-- What holds in every state of `k_timer.c`. -/
structure TimersOk (s : Timers) : Prop where
  linked : Linked s.head s.timer
  node : ∀ t, s.pc.node = some t → t ∈ s.head
  cmds : ∀ cmd ∈ s.cmds, cmd.Ok
  /-- `timer_task` waits only when there is no command. -/
  idle : ∀ ticks left, s.pc = .blocked ticks left → s.queue = []

/-- A command is refused, or it is the last of those under way. -/
theorem timerSend_cases (idle : ∀ ticks left, s.pc = .blocked ticks left → s.queue = [])
    (cmd : TimerCmd) :
    timerSend s cmd = (.bufQueueFull, s) ∨
    ∃ queue pc, timerSend s cmd = (.success, { s with queue, pc }) ∧
      pc.cmd.toList ++ queue = s.cmds ++ [cmd] ∧ pc.node = s.pc.node ∧
      ∀ ticks left, pc ≠ .blocked ticks left := by
  unfold timerSend
  split
  · next ticks left waits =>
    refine .inr ⟨_, _, rfl, ?_, ?_, ?_⟩
    · rw [Timers.cmds, waits, idle ticks left waits]
      rfl
    · rw [waits]
      rfl
    · exact fun _ _ => TimerPc.noConfusion
  · next runs =>
    split
    · exact .inr ⟨_, _, rfl, (append_assoc _ _ _).symm, rfl, runs⟩
    · exact .inl rfl

/-- The next node of the scan is in the list. -/
theorem nodeNext_mem (next : nodeNext t l = some u) : u ∈ l := by
  induction l with
  | nil => cases next
  | cons v l ih =>
    rw [nodeNext] at next
    split at next
    · exact mem_cons_of_mem v (mem_of_mem_head? (by rw [next]; rfl))
    · exact mem_cons_of_mem v (ih next)

theorem nodeNext_ne (nodup : l.Nodup) (next : nodeNext t l = some u) : u ≠ t := by
  induction l with
  | nil => cases next
  | cons v l ih =>
    obtain ⟨out, nodup⟩ := nodup_cons.mp nodup
    rw [nodeNext] at next
    split at next
    · next here =>
      rintro rfl
      exact out (here ▸ mem_of_mem_head? (by rw [next]; rfl))
    · exact ih nodup next

/-! ## Every state -/

/-- A command that is sent waits in the queue, or is lost. -/
theorem timerSend_ok (ok : TimersOk s) {cmd : TimerCmd} (checked : cmd.Ok) :
    TimersOk (timerSend s cmd).2 := by
  rcases timerSend_cases ok.idle cmd with eq | ⟨queue, pc, eq, cmds, node, runs⟩
  · rwa [eq]
  rw [eq]
  refine ⟨ok.linked, fun t here => ok.node t (node ▸ here), fun c sent => ?_,
    fun ticks left waits =>
    absurd waits (runs ticks left)⟩
  rw [Timers.cmds, cmds] at sent
  rcases mem_append.mp sent with before | now
  · exact ok.cmds c before
  · exact mem_singleton.mp now ▸ checked

/-- A timer that is not in the list is replaced by one that is not active. -/
theorem TimersOk.replace (ok : TimersOk s) (out : t ∉ s.head) (k : Ktimer)
    (state : k.timerState ≠ .active) (toHead : k.toHead ≠ true)
    (ticks : k.isTimer = true → k.TicksOk) : TimersOk { s with timer := update s.timer t k } := by
  refine ⟨((ok.linked.but out).update k).linked ?_, ok.node, ok.cmds, ok.idle⟩
  rw [update_self]
  exact ⟨iff_of_false id state, iff_of_false id toHead, False.elim, ticks⟩

theorem TimersOk.not_mem (ok : TimersOk s) (fresh : (s.timer t).isTimer = false) : t ∉ s.head :=
  fun inList => Bool.false_ne_true (fresh.symm.trans ((ok.linked.fits t).created inList))

/-- A call does not touch the timers in the list, and `timer_task` only if it ends its wait. -/
structure SameList (s s' : Timers) : Prop where
  head : s'.head = s.head
  timerCount : s'.timerCount = s.timerCount
  tickCount : s'.tickCount = s.tickCount
  timer : ∀ t ∈ s.head, s'.timer t = s.timer t
  pc : s'.pc = s.pc ∨ ∃ ticks left cmd inner, s.pc = .blocked ticks left ∧
    s'.pc = .received cmd inner

theorem SameList.refl (s : Timers) : SameList s s := ⟨rfl, rfl, rfl, fun _ _ => rfl, .inl rfl⟩

theorem SameList.trans (h : SameList s₁ s₂) (h' : SameList s₂ s₃) : SameList s₁ s₃ := by
  refine ⟨h'.head.trans h.head, h'.timerCount.trans h.timerCount, h'.tickCount.trans h.tickCount,
    fun t inList => (h'.timer t (h.head ▸ inList)).trans (h.timer t inList), ?_⟩
  rcases h.pc with eq | ⟨ticks, left, cmd, inner, waits, eq⟩
  · rw [← eq]
    exact h'.pc
  · rcases h'.pc with eq' | ⟨ticks', left', cmd', inner', waits', -⟩
    · exact .inr ⟨ticks, left, cmd, inner, waits, eq'.trans eq⟩
    · rw [eq] at waits'
      cases waits'

theorem modTimer_sameList (out : t ∉ s.head) (f : Ktimer → Ktimer) : SameList s (s.modTimer t f) :=
  ⟨rfl, rfl, rfl, fun u inList => update_of_ne (fun same => out (by rwa [← same])) _ _, .inl rfl⟩

theorem timerSend_sameList (s : Timers) (cmd : TimerCmd) : SameList s (timerSend s cmd).2 := by
  unfold timerSend
  split
  · next ticks left waits =>
    exact ⟨rfl, rfl, rfl, fun _ _ => rfl, .inr ⟨ticks, left, _, _, waits, rfl⟩⟩
  · split
    · exact ⟨rfl, rfl, rfl, fun _ _ => rfl, .inl rfl⟩
    · exact .refl s

/-- No record changes before the command is processed. -/
theorem timerSend_timer (s : Timers) (cmd : TimerCmd) : (timerSend s cmd).2.timer = s.timer := by
  unfold timerSend
  split
  · rfl
  · split <;> rfl

/-- A command is refused, or it is the last one. -/
theorem timerSend_cmds (ok : TimersOk s) (cmd : TimerCmd) :
    (timerSend s cmd).2.cmds = s.cmds ∨
      ((timerSend s cmd).1 = .success ∧ (timerSend s cmd).2.cmds = s.cmds ++ [cmd]) := by
  rcases timerSend_cases ok.idle cmd with eq | ⟨queue, pc, eq, cmds, -⟩
  · rw [eq]
    exact .inl rfl
  · rw [eq]
    exact .inr ⟨rfl, cmds⟩

/-- The commands under way for the other timers stay. -/
theorem timerSend_cmds_other (ok : TimersOk s) {cmd : TimerCmd} (other : cmd.timer ≠ u) :
    (timerSend s cmd).2.cmds.filter (·.timer = u) = s.cmds.filter (·.timer = u) := by
  rcases timerSend_cmds ok cmd with eq | ⟨-, eq⟩
  · rw [eq]
  · simp [eq, other]

/-- The callback that a timer gets from the call. -/
def TimerCall.newCb : TimerCall → TimerCb
  | create _ cb .. | dynCreate _ cb .. => cb
  | _ => .user

/-- What a call for the timer `t` does, which may make it a timer with the callback `cb`. -/
structure TimerCalled (t : TimerId) (cb : TimerCb) (s s' : Timers) : Prop where
  ok : TimersOk s'
  list : SameList s s'
  other : ∀ u, u ≠ t → s'.timer u = s.timer u
  cmds : ∀ u, u ≠ t → s'.cmds.filter (·.timer = u) = s.cmds.filter (·.timer = u)
  cb : (s'.timer t).cb = cb ∨ (s'.timer t).cb = (s.timer t).cb

theorem TimerCalled.refl (ok : TimersOk s) : TimerCalled t cb s s :=
  ⟨ok, .refl s, fun _ _ => rfl, fun _ _ => rfl, .inr rfl⟩

theorem TimerCalled.trans (h : TimerCalled t cb s₁ s₂) (h' : TimerCalled t cb s₂ s₃) :
    TimerCalled t cb s₁ s₃ where
  ok := h'.ok
  list := h.list.trans h'.list
  other u apart := (h'.other u apart).trans (h.other u apart)
  cmds u apart := (h'.cmds u apart).trans (h.cmds u apart)
  cb := by
    rcases h'.cb with new | same
    · exact .inl new
    · rw [same]
      exact h.cb

theorem TimerCalled.send {cmd : TimerCmd} (ok : TimersOk s) (here : cmd.timer = t)
    (checked : cmd.Ok) : TimerCalled t cb s (timerSend s cmd).2 where
  ok := timerSend_ok ok checked
  list := timerSend_sameList s cmd
  other u _ := congrFun (timerSend_timer s cmd) u
  cmds u apart := timerSend_cmds_other ok fun same => apart (same.symm.trans here)
  cb := .inr (by rw [timerSend_timer])

/-- The record of a timer that is not in the list is written. -/
theorem TimerCalled.record (ok : TimersOk s) (out : t ∉ s.head)
    (state : (f (s.timer t)).timerState ≠ .active) (toHead : (f (s.timer t)).toHead ≠ true)
    (ticks : (f (s.timer t)).isTimer = true → (f (s.timer t)).TicksOk)
    (calls : (f (s.timer t)).cb = cb ∨ (f (s.timer t)).cb = (s.timer t).cb) :
    TimerCalled t cb s (s.modTimer t f) where
  ok := ok.replace out _ state toHead ticks
  list := modTimer_sameList out f
  other u apart := update_of_ne apart _ _
  cmds _ _ := rfl
  cb := by simpa only [Timers.modTimer, update_self] using calls

/-- `krhino_timer_create` keeps the list. -/
theorem timerCreate_called (ok : TimersOk s) (fresh : (s.timer t).isTimer = false) (cb : TimerCb)
    (first round arg : Nat) (autoRun : Bool) (flag : AllocFlag) :
    TimerCalled t cb s (timerCreate s t cb first round arg autoRun flag).2 := by
  unfold timerCreate
  split
  · next ticks =>
    have made : TimerCalled t cb s (s.modTimer t fun k =>
        { cb, initCount := first, roundTicks := round, timerCbArg := arg, priv := k.priv,
          mmAllocFlag := flag, isTimer := true }) :=
      .record ok (ok.not_mem fresh) TimerStat.noConfusion Bool.noConfusion (fun _ => ticks)
        (.inl rfl)
    split
    · exact made.trans (.send made.ok rfl trivial)
    · exact made
  · exact .refl ok

/-- Every call keeps the list. -/
theorem TimerCall.exec_called (ok : TimersOk s) {c : TimerCall} (may : c.Allowed s) :
    TimerCalled c.timer c.newCb s (c.exec s).2 := by
  cases c with
  | create => exact timerCreate_called ok may ..
  | dynCreate t cb first round arg autoRun =>
    have made := timerCreate_called ok may cb first round arg autoRun .dynAlloc
    simp only [exec, krhinoTimerDynCreate]
    split
    · next s' eq => rwa [eq] at made
    · next err s' _ eq =>
      rw [eq] at made
      dsimp only at made ⊢
      have out : t ∉ s'.head := by
        rw [made.list.head]
        exact ok.not_mem may
      have fits := made.ok.linked.fits t
      exact made.trans (.record made.ok out (fun active => out (fits.state.mpr active))
        (fun linked => out (fits.toHead.mpr linked)) Bool.noConfusion (.inr rfl))
  | change =>
    simp only [exec, krhinoTimerChange]
    split
    · next ticks => exact .send ok rfl ticks
    · exact .refl ok
  | _ => exact .send ok rfl trivial

/-- `timer_task` goes on to `pc`, with the commands that are in the queue. -/
theorem TimersOk.goto (ok : TimersOk s) {timerCount tickCount : Nat} {pc : TimerPc}
    (node : ∀ t, pc.node = some t → t ∈ s.head) (cmd : pc.cmd = none)
    (idle : ∀ ticks left, pc = .blocked ticks left → s.queue = []) :
    TimersOk { s with timerCount, tickCount, pc } := by
  refine ⟨ok.linked, node, fun c sent => ok.cmds c (mem_append_right _ ?_), idle⟩
  rwa [Timers.cmds, cmd] at sent

theorem TimerPc.tick_cases (pc : TimerPc) :
    pc.tick = pc ∨ (∃ ticks left, pc = .blocked (some ticks) left ∧
      (pc.tick = .received none true ∨ ∃ left', pc.tick = .blocked (some ticks) left')) := by
  unfold TimerPc.tick
  split
  · next ticks left =>
    refine .inr ⟨ticks, left, rfl, ?_⟩
    split
    · exact .inl rfl
    · exact .inr ⟨_, rfl⟩
  · exact .inl rfl

/-- A tick keeps the list. -/
theorem timerTick_ok (ok : TimersOk s) : TimersOk (timerTick s) := by
  unfold timerTick
  rcases s.pc.tick_cases with eq | ⟨ticks, left, waits, eq | ⟨left', eq⟩⟩
  · rw [eq]
    exact ⟨ok.linked, ok.node, ok.cmds, ok.idle⟩
  · rw [eq]
    exact ok.goto nofun rfl nofun
  · rw [eq]
    exact ok.goto nofun rfl fun _ _ _ => ok.idle _ left waits

/-- What a receive leaves when its command, if it has one, is processed. -/
theorem received_commanded {cmd : Option TimerCmd} (ok : TimersOk s)
    (pc : s.pc = .received cmd inner) : ∃ t, Commanded t { s with timerCount := s.tickCount }
      (cmd.elim { s with timerCount := s.tickCount }
        (timerCmdProc { s with timerCount := s.tickCount })) := by
  cases cmd with
  | none => exact ⟨0, .refl ok.linked⟩
  | some cmd =>
    refine ⟨cmd.timer, timerCmdProc_commanded ok.linked (ok.cmds cmd ?_)⟩
    rw [Timers.cmds, pc]
    exact mem_cons_self

/-- A command that is processed keeps the list. -/
theorem timerReceived_ok {cmd : Option TimerCmd} (ok : TimersOk s)
    (pc : s.pc = .received cmd inner) : TimersOk (timerReceived s cmd inner) := by
  obtain ⟨t, done⟩ := received_commanded ok pc
  have queue := congrArg Timers.queue done.frame
  unfold timerReceived
  refine ⟨done.linked, fun t here => ?_, fun c sent => ok.cmds c ?_, fun ticks left waits => ?_⟩
  · split at here
    · exact mem_of_mem_head? here
    · cases here
  · dsimp only [Timers.cmds] at sent
    rw [queue] at sent
    split at sent <;> exact mem_append_right _ sent
  · split at waits <;> cases waits

/-- The return of a callback keeps the list. -/
theorem timerCbReturn_ok (ok : TimersOk s) (pc : s.pc = .callback t) :
    TimersOk (timerCbReturn s t) := by
  have inList : t ∈ s.head := ok.node t (by rw [pc]; rfl)
  have linked := timerCbReturn_linked ok.linked inList
  rw [timerCbReturn_eq ok.linked inList] at linked ⊢
  split at linked
  · next again =>
    rw [if_pos again]
    exact ⟨linked, fun u here => nodeNext_mem here,
      fun c sent => ok.cmds c (mem_append_right _ sent), nofun⟩
  · next once =>
    rw [if_neg once]
    refine ⟨linked, fun u here => ?_, fun c sent => ok.cmds c (mem_append_right _ sent), nofun⟩
    exact (mem_erase_of_ne (nodeNext_ne ok.linked.nodup here)).mpr (nodeNext_mem here)

/-- Every step of `timer_task` keeps the list. -/
theorem timerTask_ok (ok : TimersOk s) : TimersOk (timerTask s) := by
  unfold timerTask
  split
  · next ticks pc =>
    split
    · next cmd queue eq =>
      refine ⟨ok.linked, nofun, fun c sent => ok.cmds c (mem_append_right _ ?_), nofun⟩
      rw [eq]
      exact sent
    · next eq => exact ok.goto nofun rfl fun _ _ _ => eq
  · exact ok
  · next cmd inner pc => exact timerReceived_ok ok pc
  · split
    · exact ok.goto nofun rfl nofun
    · next t rest list =>
      split
      · refine ok.goto (fun u here => ?_) rfl nofun
        rw [← Option.some.inj here, list]
        exact mem_cons_self
      · exact ok.goto nofun rfl nofun
  · exact ok.goto nofun rfl nofun
  · next t pc =>
    have inList := ok.node t (by rw [pc]; rfl)
    split
    · exact ok.goto (fun u here => Option.some.inj here ▸ inList) rfl nofun
    · exact ok.goto nofun rfl nofun
  · next t pc => exact timerCbReturn_ok ok pc

theorem initial_timersOk : TimersOk {} :=
  ⟨⟨nodup_nil, fun _ => ⟨iff_of_false not_mem_nil TimerStat.noConfusion,
    iff_of_false not_mem_nil Bool.noConfusion, nofun, nofun⟩⟩, nofun, nofun, nofun⟩

end AliosThings.Rhino
