import AliosThings.Lib.Run
import Mathlib.Tactic.Ring

/-!
# Waiting for the garbage collection

`aos_kv_set` waits on `gc_sem` while `gc_trigger` is set, and `kv_gc_task` wakes the waiters when it
has cleared the flag. The flag, the number of waiters and the semaphore are read and written in
steps of their own, most of them without the mutex. Here the tasks take these steps in any order;
what they do to the store is left out, and so a setter that has the mutex may find the store full
or not.
-/

namespace AliosThings.Kv

open Lib Function List

abbrev SetterId := Nat
abbrev GcId := Nat

/-- Where a task is in `aos_kv_set`. -/
inductive SetPc where
  | out
  /-- Before `g_kv_mgr.gc_trigger != 0`. -/
  | check
  /-- Before `gc_waiter` is read for `gc_waiter++`, and before it is written. -/
  | load
  | store (old : Nat)
  /-- Before `kv_os_sem_take`, and blocked in it. -/
  | take
  | waiting
  /-- Before `kv_os_mutex_lock`, or blocked in it. -/
  | lock
  /-- With the mutex. -/
  | inside
  /-- In `kv_trigger_gc`: before the test, the two assignments and `kv_os_task_start`. -/
  | trigger
  | reset
  | set
  | start
  /-- Before `kv_os_mutex_unlock`. -/
  | unlock
  deriving DecidableEq, Repr

/-- Where a task is in `kv_gc_task`. -/
inductive GcPc where
  | absent
  | lock
  /-- The blocks have been collected, with the mutex. -/
  | clear
  | unlock
  /-- Before `g_kv_mgr.gc_waiter > 0`. -/
  | test
  | give
  deriving DecidableEq, Repr

inductive KvHolder where
  | setter (t : SetterId)
  | gc (g : GcId)
  deriving DecidableEq, Repr

structure GcWait where
  inited : Bool := false
  gcTrigger : Bool := false
  gcWaiter : Nat := 0
  mutex : Option KvHolder := none
  /-- `gc_sem` and the tasks blocked on it. -/
  semCount : Nat := 0
  semWaiters : List SetterId := []
  setter : SetterId → SetPc := fun _ => .out
  gc : GcId → GcPc := fun _ => .absent

namespace GcWait

def goto (s : GcWait) (t : SetterId) (pc : SetPc) : GcWait :=
  { s with setter := update s.setter t pc }

def gcGoto (s : GcWait) (g : GcId) (pc : GcPc) : GcWait := { s with gc := update s.gc g pc }

/-- `kv_os_sem_give_all` -/
def semGiveAll (s : GcWait) : GcWait :=
  match s.semWaiters with
  | [] => if s.semCount = 2 ^ 32 - 1 then s else { s with semCount := s.semCount + 1 }
  | _ :: _ =>
    { s with
      setter := fun t => if t ∈ s.semWaiters then .lock else s.setter t
      semWaiters := [] }

/-- The next action of a task in `aos_kv_set`. `full` tells whether `kv_calc_position` calls
`kv_trigger_gc`, and `made` is the task that `kv_os_task_start` creates, if it succeeds. -/
def setterStep (s : GcWait) (t : SetterId) (full : Bool) (made : Option GcId) : GcWait :=
  match s.setter t with
  | .out => s.goto t .check
  | .check => if s.gcTrigger then s.goto t .load else s.goto t .lock
  | .load => s.goto t (.store s.gcWaiter)
  | .store old => { s.goto t .take with gcWaiter := (old + 1) % 2 ^ 8 }
  | .take =>
    if s.semCount > 0 then { s.goto t .lock with semCount := s.semCount - 1 }
    else { s.goto t .waiting with semWaiters := s.semWaiters ++ [t] }
  | .waiting => s
  | .lock => { s.goto t .inside with mutex := some (.setter t) }
  | .inside => if full then s.goto t .trigger else s.goto t .unlock
  | .trigger => if s.gcTrigger then s.goto t .unlock else s.goto t .reset
  | .reset => { s.goto t .set with gcWaiter := 0 }
  | .set => { s.goto t .start with gcTrigger := true }
  | .start =>
    match made with
    | none => s.goto t .unlock
    | some g => (s.gcGoto g .lock).goto t .unlock
  | .unlock => { s.goto t .out with mutex := none }

/-- The next action of `kv_gc_task`. -/
def gcStep (s : GcWait) (g : GcId) : GcWait :=
  match s.gc g with
  | .absent => s
  | .lock => { s.gcGoto g .clear with mutex := some (.gc g) }
  | .clear => { s.gcGoto g .unlock with gcTrigger := false }
  | .unlock => { s.gcGoto g .test with mutex := none }
  | .test => if s.gcWaiter > 0 then s.gcGoto g .give else s.gcGoto g .absent
  | .give => s.semGiveAll.gcGoto g .absent

end GcWait

inductive GcLabel where
  /-- `aos_kv_init`, which calls `kv_trigger_gc` if there is too little space. -/
  | init (full : Bool) (made : Option GcId)
  | setter (t : SetterId) (full : Bool) (made : Option GcId)
  | gc (g : GcId)
  deriving DecidableEq, Repr

open GcLabel

/-- Who is blocked does nothing, and a task that is created is a new one. -/
def GcLabel.Allowed (s : GcWait) : GcLabel → Prop
  | init _ _ => s.inited = false
  | setter t _ made => s.inited = true ∧ s.setter t ≠ .waiting ∧
    (s.setter t = .lock → s.mutex = none) ∧ ∀ g ∈ made, s.gc g = .absent
  | gc g => s.gc g ≠ .absent ∧ (s.gc g = .lock → s.mutex = none)

instance GcLabel.decidableAllowed (s : GcWait) (a : GcLabel) : Decidable (a.Allowed s) := by
  cases a <;> unfold GcLabel.Allowed <;> infer_instance

def GcLabel.step (s : GcWait) : GcLabel → GcWait
  | init full made =>
    let s := { s with inited := true }
    if full then
      let s := { s with gcWaiter := 0, gcTrigger := true }
      match made with
      | none => s
      | some g => s.gcGoto g .lock
    else s
  | setter t full made => s.setterStep t full made
  | gc g => s.gcStep g

def gcWaitSystem : System GcWait GcLabel where
  init s := s = {}
  allowed s a := a.Allowed s
  step s a := a.step s

/-- A task waits, and nobody is left to wake it. -/
structure GcWait.Stranded (s : GcWait) : Prop where
  waits : s.semWaiters ≠ []
  count : s.semCount = 0
  noGc : ∀ g, s.gc g = .absent
  noStart : ∀ t, s.setter t ≠ .start

/-! ## What has to be atomic -/

/-- The task has seen the flag and is not blocked yet. -/
def SetPc.hopes : SetPc → Bool
  | load | store _ | take => true
  | _ => false

/-- The task has counted itself and has not been woken. -/
def SetPc.counts : SetPc → Bool
  | take | waiting => true
  | _ => false

/-- A setter does not go from the flag to its wait while the number of waiters is tested or reset,
the number does not overflow, and tasks are created. -/
structure GcLabel.InStep (s : GcWait) (a : GcLabel) : Prop where
  init : ∀ made, a = .init true made → made ≠ none
  creates : ∀ t full, a = .setter t full none → s.setter t ≠ .start
  room : ∀ t full made, a = .setter t full made → ∀ old, s.setter t = .store old →
    (old + 1) % 2 ^ 8 ≠ 0
  resets : ∀ t full made, a = .setter t full made → s.setter t = .reset →
    ∀ u, (s.setter u).counts = false
  tests : ∀ g, a = .gc g → s.gc g = .test → ∀ u, (s.setter u).hopes = false

/-- The flag is set, or a collector that has cleared it has not looked for waiters. -/
def GcWait.Serving (s : GcWait) : Prop :=
  s.gcTrigger = true ∨ ∃ g, s.gc g = .unlock ∨ s.gc g = .test

structure GcOk (s : GcWait) : Prop where
  waiters : ∀ t, t ∈ s.semWaiters ↔ s.setter t = .waiting
  /-- Somebody will clear the flag. -/
  triggered : s.gcTrigger = true → (∃ g, s.gc g = .lock ∨ s.gc g = .clear) ∨
    ∃ t, s.setter t = .start
  counted : ∀ t, (s.setter t).counts = true → s.gcWaiter ≠ 0
  hoping : ∀ t, (s.setter t).hopes = true → s.Serving
  waiting : ∀ t, s.setter t = .waiting → s.Serving ∨ ∃ g, s.gc g = .give

variable {full : Bool} {made : Option GcId} {a : GcLabel} {s : GcWait} {t : SetterId} {g : GcId}
  {pc : SetPc}

/-- What holds of the place to which a setter goes, and of the others where they are. -/
theorem forall_goto {P : SetterId → SetPc → Prop} (here : P t pc)
    (others : ∀ u, P u (s.setter u)) : ∀ u, P u ((s.goto t pc).setter u) :=
  (forall_update_iff s.setter P).mpr ⟨here, fun u _ => others u⟩

section

variable (ok : GcOk s)
include ok

theorem GcOk.starts_goto (notStart : s.setter t ≠ .start) (triggered : s.gcTrigger = true) :
    (∃ g, s.gc g = .lock ∨ s.gc g = .clear) ∨ ∃ u, (s.goto t pc).setter u = .start := by
  refine (ok.triggered triggered).imp id fun ⟨u, starts⟩ => ⟨u, ?_⟩
  have other : u ≠ t := fun same => notStart (same ▸ starts)
  exact (update_of_ne other _ _).trans starts

/-- A setter goes on, and only the setter changes. -/
theorem GcOk.goto (awake : s.setter t ≠ .waiting) (notStart : s.setter t ≠ .start)
    (runs : pc ≠ .waiting) (counts : pc.counts = true → s.gcWaiter ≠ 0)
    (hopes : pc.hopes = true → s.Serving) : GcOk (s.goto t pc) where
  waiters := by
    refine forall_goto (P := fun u pc => u ∈ s.semWaiters ↔ pc = .waiting) ?_ ok.waiters
    rw [ok.waiters t]
    exact ⟨fun waits => absurd waits awake, fun waits => absurd waits runs⟩
  triggered := ok.starts_goto notStart
  counted := forall_goto (P := fun _ pc => pc.counts = true → _) counts ok.counted
  hoping := forall_goto (P := fun _ pc => pc.hopes = true → _) hopes ok.hoping
  waiting := forall_goto (P := fun _ pc => pc = .waiting → _) (fun waits => absurd waits runs)
    ok.waiting

/-- A setter that goes where nothing is promised to it. -/
theorem GcOk.leave (awake : s.setter t ≠ .waiting) (notStart : s.setter t ≠ .start)
    (quiet : pc.counts = false ∧ pc.hopes = false) : GcOk (s.goto t pc) := by
  refine ok.goto awake notStart (fun waits => ?_) (fun counts => ?_) fun hopes => ?_
  · rw [waits] at quiet
    cases quiet.1
  · cases quiet.1.symm.trans counts
  · cases quiet.2.symm.trans hopes

/-- The number of waiters changes, but not to zero while a waiter is counted. -/
theorem GcOk.withWaiter {n : Nat} (counted : ∀ t, (s.setter t).counts = true → n ≠ 0) :
    GcOk { s with gcWaiter := n } :=
  ⟨ok.waiters, ok.triggered, counted, ok.hoping, ok.waiting⟩

theorem GcOk.withMutex (mutex : Option KvHolder) : GcOk { s with mutex } :=
  ⟨ok.waiters, ok.triggered, ok.counted, ok.hoping, ok.waiting⟩

theorem GcOk.withCount (semCount : Nat) : GcOk { s with semCount } :=
  ⟨ok.waiters, ok.triggered, ok.counted, ok.hoping, ok.waiting⟩

/-- The flag is set by a task that is about to create the collector. -/
theorem GcOk.set (at_ : s.setter t = .set) : GcOk { s.goto t .start with gcTrigger := true } := by
  have moved : GcOk (s.goto t .start) := ok.leave (at_.trans_ne nofun)
    (at_.trans_ne nofun) ⟨rfl, rfl⟩
  exact ⟨moved.waiters, fun _ => .inr ⟨t, update_self ..⟩, moved.counted,
    fun _ _ => .inl rfl, fun _ _ => .inl (.inl rfl)⟩

/-- A task that is blocked on the semaphore. -/
theorem GcOk.blocks (at_ : s.setter t = .take) :
    GcOk { s.goto t .waiting with semWaiters := s.semWaiters ++ [t] } where
  waiters u := by
    by_cases same : u = t
    · subst same
      simp [GcWait.goto]
    · simp [GcWait.goto, same, ok.waiters u]
  triggered := ok.starts_goto (at_.trans_ne nofun)
  counted := forall_goto (P := fun _ pc => pc.counts = true → _)
    (fun _ => ok.counted t (by rw [at_]; rfl)) ok.counted
  hoping := forall_goto (P := fun _ pc => pc.hopes = true → _) nofun ok.hoping
  waiting := forall_goto (P := fun _ pc => pc = .waiting → _)
    (fun _ => .inl (ok.hoping t (by rw [at_]; rfl))) ok.waiting

/-- A collector is created. -/
theorem GcOk.creates (new : s.gc g = .absent) (at_ : s.setter t = .start) :
    GcOk ((s.gcGoto g .lock).goto t .unlock) := by
  have collectors : ∀ g', s.gc g' ≠ .absent →
      ((s.gcGoto g .lock).goto t .unlock).gc g' = s.gc g' := fun g' there =>
    update_of_ne (fun same : g' = g => there (by rw [same, new])) _ _
  have serving : s.Serving → ((s.gcGoto g .lock).goto t .unlock).Serving := by
    refine Or.imp id fun ⟨g', pc⟩ => ⟨g', ?_⟩
    rwa [collectors g' fun absent => by rw [absent] at pc; simp at pc]
  refine ⟨forall_goto (P := fun u pc => u ∈ s.semWaiters ↔ pc = .waiting) ?_ ok.waiters,
    fun _ => .inl ⟨g, .inl (update_self ..)⟩,
    forall_goto (P := fun _ pc => pc.counts = true → _) nofun ok.counted,
    forall_goto (P := fun _ pc => pc.hopes = true → _) nofun fun u hopes =>
      serving (ok.hoping u hopes),
    forall_goto (P := fun _ pc => pc = .waiting → _) nofun fun u waits => ?_⟩
  · rw [ok.waiters t, at_]
    exact ⟨nofun, nofun⟩
  · refine (ok.waiting u waits).imp serving fun ⟨g', gives⟩ => ⟨g', ?_⟩
    rwa [collectors g' fun absent => by rw [absent] at gives; cases gives]

/-- A step of a setter. -/
theorem GcOk.setterStep (may : (setter t full made).Allowed s)
    (inStep : (setter t full made).InStep s) : GcOk (s.setterStep t full made) := by
  obtain ⟨-, awake, -, new⟩ := may
  have leave : ∀ {pc}, s.setter t ≠ .start → pc.counts = false ∧ pc.hopes = false →
      GcOk (s.goto t pc) := fun notStart quiet => ok.leave awake notStart quiet
  unfold GcWait.setterStep
  cases at_ : s.setter t with
  | out => exact leave (at_.trans_ne nofun) ⟨rfl, rfl⟩
  | check =>
    have notStart : s.setter t ≠ .start := at_.trans_ne nofun
    dsimp only
    split
    · next triggered => exact ok.goto awake notStart nofun nofun fun _ => .inl triggered
    · exact leave notStart ⟨rfl, rfl⟩
  | load =>
    have notStart : s.setter t ≠ .start := at_.trans_ne nofun
    exact ok.goto awake notStart nofun nofun fun _ => ok.hoping t (by rw [at_]; rfl)
  | store old =>
    have notStart : s.setter t ≠ .start := at_.trans_ne nofun
    have room := inStep.room t full made rfl old at_
    have counted := ok.withWaiter fun _ _ => room
    exact counted.goto awake notStart nofun (fun _ => room) fun _ => ok.hoping t (by rw [at_]; rfl)
  | take =>
    dsimp only
    split
    · exact (leave (at_.trans_ne nofun) ⟨rfl, rfl⟩).withCount _
    · exact ok.blocks at_
  | waiting => exact absurd at_ awake
  | lock | unlock => exact (leave (at_.trans_ne nofun) ⟨rfl, rfl⟩).withMutex _
  | inside | trigger =>
    dsimp only
    split <;> exact leave (at_.trans_ne nofun) ⟨rfl, rfl⟩
  | reset =>
    have uncounted : GcOk { s with gcWaiter := 0 } := ok.withWaiter fun u counts =>
      absurd counts (by rw [inStep.resets t full made rfl at_ u]; exact Bool.noConfusion)
    exact uncounted.leave awake (at_.trans_ne nofun) ⟨rfl, rfl⟩
  | set => exact ok.set at_
  | start =>
    cases made with
    | none => exact absurd at_ (inStep.creates t full rfl)
    | some g => exact ok.creates (new g rfl) at_

/-- A collector goes on, and only the collector changes. -/
theorem GcOk.gcGoto {pc : GcPc}
    (clears : s.gc g = .lock ∨ s.gc g = .clear → pc = .lock ∨ pc = .clear)
    (serves : s.gc g = .unlock ∨ s.gc g = .test → (pc = .unlock ∨ pc = .test) ∨
      ∀ t, (s.setter t).hopes = false ∧ (s.setter t = .waiting → pc = .give))
    (gives : s.gc g = .give → ∀ t, s.setter t ≠ .waiting) : GcOk (s.gcGoto g pc) := by
  have others g' (other : g' ≠ g) : (s.gcGoto g pc).gc g' = s.gc g' :=
    update_of_ne other _ _
  have here : (s.gcGoto g pc).gc g = pc := update_self ..
  have serving : s.Serving → (s.gcGoto g pc).Serving ∨
      ∀ t, (s.setter t).hopes = false ∧ (s.setter t = .waiting → pc = .give) := by
    rintro (triggered | ⟨g', at_⟩)
    · exact .inl (.inl triggered)
    · by_cases same : g' = g
      · subst same
        exact (serves at_).imp (fun still => .inr ⟨g', by rwa [here]⟩) id
      · exact .inl (.inr ⟨g', by rwa [others g' same]⟩)
  refine ⟨ok.waiters, fun triggered => ?_, ok.counted, fun t hopes => ?_, fun t waits => ?_⟩
  · refine (ok.triggered triggered).imp (fun ⟨g', at_⟩ => ?_) id
    by_cases same : g' = g
    · subst same
      exact ⟨g', by rw [here]; exact clears at_⟩
    · exact ⟨g', by rwa [others g' same]⟩
  · refine (serving (ok.hoping t hopes)).elim id fun none => ?_
    cases (none t).1.symm.trans hopes
  · rcases ok.waiting t waits with serves | ⟨g', at_⟩
    · exact (serving serves).imp id fun none => ⟨g, by rw [here]; exact (none t).2 waits⟩
    · have other : g' ≠ g := fun same => gives (same ▸ at_) t waits
      exact .inr ⟨g', by rwa [others g' other]⟩

/-- The collector that has cleared the flag has not looked for waiters. -/
theorem GcOk.clears : GcOk { s.gcGoto g .unlock with gcTrigger := false } := by
  have serving : GcWait.Serving { s.gcGoto g .unlock with gcTrigger := false } :=
    .inr ⟨g, .inl (update_self ..)⟩
  exact ⟨ok.waiters, nofun, ok.counted, fun _ _ => serving, fun _ _ => .inl serving⟩

/-- All waiters are woken. -/
theorem GcOk.semGiveAll : GcOk s.semGiveAll ∧ ∀ t, s.semGiveAll.setter t ≠ .waiting := by
  unfold GcWait.semGiveAll
  cases list : s.semWaiters with
  | nil =>
    have none : ∀ t, s.setter t ≠ .waiting := fun t waits => by
      have among := (ok.waiters t).mpr waits
      rw [list] at among
      cases among
    dsimp only
    split
    · exact ⟨ok, none⟩
    · have given := ok.withCount (s.semCount + 1)
      rw [list] at given
      exact ⟨given, none⟩
  | cons =>
    have woken : ∀ t, (if t ∈ s.semWaiters then SetPc.lock else s.setter t) ≠ .waiting := by
      intro t
      split
      · exact SetPc.noConfusion
      · next out => exact fun waits => out ((ok.waiters t).mpr waits)
    have kept : ∀ t pc, s.setter t = pc → pc ≠ .waiting →
        (if t ∈ s.semWaiters then SetPc.lock else s.setter t) = pc := by
      intro t pc at_ runs
      rw [if_neg fun among => runs (at_.symm.trans ((ok.waiters t).mp among)), at_]
    have quiet : ∀ (f : SetPc → Bool) t, f .lock = false →
        f (if t ∈ s.semWaiters then SetPc.lock else s.setter t) = true → f (s.setter t) = true := by
      intro f t lock at_
      split at at_
      · cases lock.symm.trans at_
      · exact at_
    dsimp only
    rw [← list]
    refine ⟨⟨fun t => ⟨nofun, fun waits => absurd waits (woken t)⟩, fun triggered => ?_,
      fun t counts => ok.counted t (quiet _ t rfl counts),
      fun t hopes => ok.hoping t (quiet _ t rfl hopes),
      fun t waits => absurd waits (woken t)⟩, woken⟩
    exact (ok.triggered triggered).imp id fun ⟨t, starts⟩ =>
      ⟨t, kept t _ starts SetPc.noConfusion⟩

/-- A step of a collection. -/
theorem GcOk.gcStep (inStep : (gc g).InStep s) : GcOk (s.gcStep g) := by
  unfold GcWait.gcStep
  cases at_ : s.gc g with
  | absent => exact ok
  | lock =>
    have moved : GcOk (s.gcGoto g .clear) := ok.gcGoto (fun _ => .inr rfl) (by rw [at_]; nofun)
      (by rw [at_]; nofun)
    exact moved.withMutex _
  | clear => exact ok.clears
  | unlock =>
    have moved : GcOk (s.gcGoto g .test) := ok.gcGoto (by rw [at_]; nofun)
      (fun _ => .inl (.inr rfl)) (by rw [at_]; nofun)
    exact moved.withMutex _
  | test =>
    have none := inStep.tests g rfl at_
    dsimp only
    split
    · exact ok.gcGoto (by rw [at_]; nofun) (fun _ => .inr fun t => ⟨none t, fun _ => rfl⟩)
        (by rw [at_]; nofun)
    · next zero =>
      refine ok.gcGoto (by rw [at_]; nofun) (fun _ => .inr fun t => ⟨none t, fun waits => ?_⟩)
        (by rw [at_]; nofun)
      exact absurd (Nat.pos_of_ne_zero (ok.counted t (by rw [waits]; rfl))) zero
  | give =>
    obtain ⟨given, woken⟩ := ok.semGiveAll
    have same : s.semGiveAll.gc g = .give := by
      unfold GcWait.semGiveAll
      split
      · split <;> exact at_
      · exact at_
    exact given.gcGoto (by rw [same]; nofun) (by rw [same]; nofun) fun _ => woken

end

/-- `aos_kv_init`, before which nobody sets a value. -/
theorem GcOk.init (inStep : (init full made).InStep {}) : GcOk ((init full made).step {}) := by
  have idle : ∀ s : GcWait, (∀ t, s.setter t = .out) → s.semWaiters = [] →
      (s.gcTrigger = true → ∃ g, s.gc g = .lock) → GcOk s := by
    intro s out none comes
    refine ⟨fun t => ?_, fun triggered => ?_, fun t => ?_, fun t => ?_, fun t => ?_⟩
    · rw [none, out t]
      exact ⟨nofun, nofun⟩
    · exact .inl ((comes triggered).imp fun g lock => .inl lock)
    · rw [out t]
      exact nofun
    · rw [out t]
      exact nofun
    · rw [out t]
      exact nofun
  cases full with
  | false => exact idle _ (fun _ => rfl) rfl nofun
  | true =>
    cases made with
    | none => exact absurd rfl (inStep.init none rfl)
    | some g => exact idle _ (fun _ => rfl) rfl fun _ => ⟨g, update_self ..⟩

theorem setterStep_inited (s : GcWait) (t : SetterId) (full : Bool) (made : Option GcId) :
    (s.setterStep t full made).inited = s.inited := by
  unfold GcWait.setterStep
  split
  all_goals first
    | rfl
    | split <;> rfl

theorem gcStep_inited (s : GcWait) (g : GcId) : (s.gcStep g).inited = s.inited := by
  unfold GcWait.gcStep
  split
  case h_5 => split <;> rfl
  case h_6 =>
    unfold GcWait.semGiveAll
    split
    · split <;> rfl
    · rfl
  all_goals rfl

/-- Initially, and until `aos_kv_init`, nothing has happened. -/
structure GcRunOk (s : GcWait) : Prop where
  ok : GcOk s
  fresh : s.inited = false → s = {}

theorem GcRunOk.step (run : GcRunOk s) (may : a.Allowed s) (inStep : a.InStep s) :
    GcRunOk (a.step s) := by
  cases a with
  | init full made =>
    obtain rfl := run.fresh may
    refine ⟨GcOk.init inStep, fun uninited => ?_⟩
    cases full with
    | false => cases uninited
    | true => cases made <;> cases uninited
  | setter t full made =>
    refine ⟨run.ok.setterStep may inStep, fun uninited => ?_⟩
    rw [show ((setter t full made).step s).inited = s.inited from
      setterStep_inited s t full made, may.1] at uninited
    cases uninited
  | gc g =>
    refine ⟨run.ok.gcStep inStep, fun uninited => ?_⟩
    rw [show ((gc g).step s).inited = s.inited from gcStep_inited s g] at uninited
    exact absurd (by rw [run.fresh uninited]) may.1

/-- Nobody waits for a collection that does not come. -/
theorem GcOk.not_stranded (ok : GcOk s) : ¬s.Stranded := by
  intro stranded
  obtain ⟨t, rest, list⟩ := exists_cons_of_ne_nil stranded.waits
  have waits := (ok.waiters t).mp (by rw [list]; exact mem_cons_self)
  have absent : ∀ {g pc}, s.gc g = pc → pc = .absent := fun {g pc} at_ =>
    at_.symm.trans (stranded.noGc g)
  rcases ok.waiting t waits with (triggered | ⟨g, unlock | test⟩) | ⟨g, give⟩
  · rcases ok.triggered triggered with ⟨g, lock | clear⟩ | ⟨u, start⟩
    · cases absent lock
    · cases absent clear
    · exact stranded.noStart u start
  · cases absent unlock
  · cases absent test
  · cases absent give

/-! ## Runs -/

/-- No setter is left waiting, if the steps from the flag to the wait are not divided. -/
theorem setter_notStranded {s : GcWait}
    (reach : (gcWaitSystem.restrict fun s a => a.InStep s).Reach s) : ¬s.Stranded := by
  have run : GcRunOk s := by
    refine reach.invariant ?_ ?_
    · rintro s rfl
      exact ⟨⟨fun _ => ⟨nofun, nofun⟩, nofun, nofun, nofun, nofun⟩, fun _ => rfl⟩
    · rintro s a run ⟨may, inStep⟩
      exact run.step may inStep
  exact run.ok.not_stranded

instance (s : GcWait) (a : GcLabel) : Decidable (gcWaitSystem.allowed s a) :=
  decidableAllowed s a

def SetPc.plain (made : Option GcId) : SetPc → Bool
  | start => made.isSome
  | store old => (old + 1) % 2 ^ 8 ≠ 0
  | reset => false
  | _ => true

/-- A step that neither tests nor resets the number of waiters, and keeps the rest. -/
def GcLabel.plain (s : GcWait) : GcLabel → Bool
  | init full made => !full || made.isSome
  | setter t _ made => (s.setter t).plain made
  | gc g => s.gc g ≠ .test

theorem GcLabel.inStep_of_plain (plain : a.plain s = true) : a.InStep s := by
  refine ⟨?_, ?_, ?_, ?_, ?_⟩
  · rintro made rfl none
    rw [none] at plain
    cases plain
  · rintro t full rfl at_
    rw [GcLabel.plain, at_] at plain
    cases plain
  · rintro t full made rfl old at_
    rw [GcLabel.plain, at_] at plain
    exact of_decide_eq_true plain
  · rintro t full made rfl at_
    rw [GcLabel.plain, at_] at plain
    cases plain
  · rintro g rfl at_
    exact absurd at_ (of_decide_eq_true plain)

/-- Task 1 finds the store full, and is about to reset the number of waiters. -/
def findsFull : List GcLabel :=
  [.init false none] ++ replicate 5 (.setter 1 true none)

/-- It starts the collector 0. -/
def startsGc : List GcLabel :=
  [.setter 1 true none, .setter 1 true (some 0), .setter 1 true none]

/-- Task 2 is blocked before the collector looks for waiters. -/
def blocksInTime : List GcLabel :=
  startsGc ++ [.setter 2 false none, .setter 2 false none, .setter 2 false none,
    .setter 2 false none,
    .setter 2 false none, .gc 0, .gc 0, .gc 0]

set_option maxRecDepth 4000 in
theorem setter_notStranded_blocksInTime :
    (gcWaitSystem.run {} (findsFull ++ [.setter 1 true none] ++ blocksInTime)).semWaiters = [2] ∧
      ¬(gcWaitSystem.run {} (findsFull ++ [.setter 1 true none] ++ blocksInTime)).Stranded := by
  have start : (gcWaitSystem.restrict fun s a => a.InStep s).Reach {} := .init rfl
  have before : (gcWaitSystem.restrict fun s a => a.plain s = true).Runs {} findsFull := by
    decide +kernel
  have full := start.run_restrict (fun _ _ => inStep_of_plain) before
  have inStep : (setter 1 true none).InStep (gcWaitSystem.run {} findsFull) := by
    refine ⟨nofun, fun t full eq at_ => ?_, fun t full made eq old at_ => ?_,
      fun t full made eq at_ u => ?_, nofun⟩
    · cases eq
      revert at_
      decide +kernel
    · cases eq
      have reset : (gcWaitSystem.run {} findsFull).setter 1 = .reset := by decide +kernel
      cases reset.symm.trans at_
    · rcases u with _ | _ | u
      · decide +kernel
      · decide +kernel
      · rfl
  have reset := full.step_restrict (by decide +kernel) inStep
  have after : (gcWaitSystem.restrict fun s a => a.plain s = true).Runs
      (gcWaitSystem.run (gcWaitSystem.run {} findsFull) [.setter 1 true none])
      blocksInTime := by
    decide +kernel
  have reach : (gcWaitSystem.restrict fun s a => a.InStep s).Reach
      (gcWaitSystem.run {} (findsFull ++ [.setter 1 true none] ++ blocksInTime)) := by
    rw [System.run_append, System.run_append]
    exact reset.run_restrict (fun _ _ => inStep_of_plain) after
  exact ⟨by decide +kernel, setter_notStranded reach⟩

/-- Task 2 has seen the flag when the collector clears it and finds no waiter. -/
def flagSeen : List GcLabel :=
  findsFull ++ [.setter 1 true none] ++ startsGc ++ [.setter 2 false none, .setter 2 false none] ++
    replicate 4 (.gc 0) ++ replicate 3 (.setter 2 false none)

set_option maxRecDepth 4000 in
/-- The setter waits after the semaphore was given. -/
theorem not_setter_notStranded :
    gcWaitSystem.Runs {} flagSeen ∧ (gcWaitSystem.run {} flagSeen).Stranded := by
  refine ⟨by decide +kernel, by decide +kernel, by decide +kernel, fun g => ?_, fun t => ?_⟩
  · cases g with
    | zero => decide +kernel
    | succ => rfl
  · rcases t with _ | _ | _ | t
    · decide +kernel
    · decide +kernel
    · decide +kernel
    · exact SetPc.noConfusion

end AliosThings.Kv
