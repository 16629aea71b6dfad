import AliosThings.Rhino.System

/-!
# Tickless idle (`cpu_tickless.c`)

Before the processor sleeps, `tickless_enter_check` looks for the deepest C state whose latency is
below the time until the next tick that somebody waits for, cuts that time down to what the timer
of the state can measure, and takes the latency off. When the processor has been woken,
`tickless_one_shot_stop` turns the time it has slept into ticks and keeps what is left over.
-/

namespace AliosThings.Rhino

/-! ## Before the sleep -/

def krhinoNextSleepTicksGet (s : KState) : Nat :=
  match s.tickList with
  | [] => waitForever
  | t :: _ => tickSub (s.tasks t).tickMatch s.tickCount

/-- `cStateLatency` of the processor, and `cStateOneShotTimer`: for a timer that has
`one_shot_seconds_max`, what this returns. -/
structure CStates where
  latency : Nat → UInt32
  oneShotTimer : Nat → Option (Option UInt32)

def CStates.oneShotMaxUs (states : CStates) (c : Nat) : Nat :=
  match states.oneShotTimer c with
  | some (some seconds) => 1000000 * seconds.toNat % 2 ^ 32
  | _ => 0

/-- The loop of `tickless_enter_check`, for the states up to `c`: the largest state in `cfg` is
tried, and cleared if its latency is too long. -/
def findCState (states : CStates) (us : Nat) (cfg : BitVec 32) : Nat → Nat
  | 0 => 0
  | c + 1 =>
    if cfg.getLsbD (c + 1) ∧ (states.latency (c + 1)).toNat < us then c + 1
    else findCState states us cfg c

def time100YearsInUs : Nat := 0xB342EB7C38000

/-- The time until the next tick, where `RHINO_CONFIG_TICKS_PER_SECOND` is `hz`. -/
def sleepTimeUs (hz nTicks : Nat) : Nat :=
  if nTicks = waitForever then time100YearsInUs else 1000000 * nTicks % 2 ^ 64 / hz

/-- `tickless_enter_check`, called with `cstate` in `*p_cstate_to_set`. -/
def ticklessEnterCheck (states : CStates) (hz : Nat) (s : KState) (cfg : BitVec 32) (cstate : Nat) :
    Nat × Nat :=
  let us := sleepTimeUs hz (krhinoNextSleepTicksGet s)
  let c := findCState states us cfg 31
  let us := if us > states.oneShotMaxUs c then states.oneShotMaxUs c else us
  ((us + 2 ^ 64 - (states.latency c).toNat) % 2 ^ 64, if c > 0 then c else cstate)

variable {states : CStates} {hz us c : Nat} {cfg : BitVec 32} {s : KState}

theorem CStates.oneShotMaxUs_lt (c : Nat) : states.oneShotMaxUs c < 2 ^ 32 := by
  unfold oneShotMaxUs
  split <;> omega

/-- The state that is found is fast enough, unless it is 0, and those above it are not. -/
theorem findCState_spec (n : Nat) :
    (0 < findCState states us cfg n → cfg.getLsbD (findCState states us cfg n) ∧
      (states.latency (findCState states us cfg n)).toNat < us) ∧
    ∀ d, findCState states us cfg n < d → d ≤ n → cfg.getLsbD d →
      us ≤ (states.latency d).toNat := by
  induction n with
  | zero => exact ⟨fun positive => absurd positive (by simp [findCState]), fun d _ _ _ => by omega⟩
  | succ n ih =>
    unfold findCState
    split
    · next hit => exact ⟨fun _ => hit, fun d _ _ _ => by omega⟩
    · next miss =>
      refine ⟨ih.1, fun d above le enabled => ?_⟩
      rcases Nat.lt_or_eq_of_le le with lt | rfl
      · exact ih.2 d above (by omega) enabled
      · exact Nat.not_lt.mp fun short => miss ⟨enabled, short⟩

/-- The deepest state in `cfg` with a latency below `us`. -/
def CStates.Deepest (states : CStates) (us : Nat) (cfg : BitVec 32) (c : Nat) : Prop :=
  0 < c ∧ cfg.getLsbD c ∧ (states.latency c).toNat < us ∧
    ∀ d, c < d → cfg.getLsbD d → us ≤ (states.latency d).toNat

/-- The sleep ends before the next tick that somebody waits for, and the timer can measure it. -/
def CStates.InTime (states : CStates) (hz : Nat) (s : KState) (sleep c : Nat) : Prop :=
  (krhinoNextSleepTicksGet s ≠ waitForever →
    (sleep + (states.latency c).toNat) * hz ≤ 1000000 * krhinoNextSleepTicksGet s) ∧
  sleep ≤ states.oneShotMaxUs c

theorem sleepTimeUs_le (awaited : krhinoNextSleepTicksGet s ≠ waitForever) :
    sleepTimeUs hz (krhinoNextSleepTicksGet s) * hz ≤ 1000000 * krhinoNextSleepTicksGet s := by
  rw [sleepTimeUs, if_neg awaited]
  exact (Nat.div_mul_le_self ..).trans (Nat.mod_le ..)

theorem latency_off {latency most : Nat} (enough : latency ≤ most) (small : most < 2 ^ 64) :
    (most + 2 ^ 64 - latency) % 2 ^ 64 = most - latency := by
  omega

/-- A task sleeps for ten ticks. -/
def oneSleeper : KState :=
  { KState.initial (fun _ => 0) with
    tasks := fun _ => { tickMatch := 10 }
    tickList := [1] }

/-- States with a latency of 300 us, and without timers. -/
def slowStates : CStates := ⟨fun _ => 300, fun _ => none⟩

/-- `tickless_one_shot_stop` with the static `us_remain`; `passed` is what the timer reports. -/
def ticklessOneShotStop (hz usRemain : Nat) (passed : Option Nat) : Nat × Nat :=
  match passed with
  | none => (0, usRemain)
  | some us =>
    let usPerTick := 1000000 / hz
    let nTicks := us * hz % 2 ^ 64 / 1000000
    let usRemain := usRemain + us % usPerTick
    if usRemain ≥ usPerTick then (nTicks + 1, usRemain - usPerTick) else (nTicks, usRemain)

/-- The ticks that `tickless_exit` announces after some sleeps, and `us_remain`. -/
def ticklessSleeps (hz : Nat) : Nat → List (Option Nat) → Nat × Nat
  | usRemain, [] => (0, usRemain)
  | usRemain, passed :: sleeps =>
    let (nTicks, usRemain) := ticklessOneShotStop hz usRemain passed
    let (announced, usRemain) := ticklessSleeps hz usRemain sleeps
    (nTicks + announced, usRemain)

variable {usRemain : Nat}

theorem ticklessOneShotStop_exact (divides : hz ∣ 1000000) (fits : us * hz < 2 ^ 64)
    (small : usRemain < 1000000 / hz) :
    let (nTicks, rest) := ticklessOneShotStop hz usRemain (some us)
    nTicks * (1000000 / hz) + rest = usRemain + us ∧ rest < 1000000 / hz := by
  obtain ⟨usPerTick, whole⟩ := divides
  have positive : 0 < hz := Nat.pos_of_ne_zero fun zero => by simp [zero] at whole
  have per : 1000000 / hz = usPerTick := by rw [whole, Nat.mul_div_cancel_left _ positive]
  have ticks : us * hz % 2 ^ 64 / 1000000 = us / usPerTick := by
    rw [Nat.mod_eq_of_lt fits, whole, Nat.mul_comm us, Nat.mul_div_mul_left _ _ positive]
  rw [per] at small ⊢
  have rest : us / usPerTick * usPerTick + us % usPerTick = us := Nat.div_add_mod' us usPerTick
  have less : us % usPerTick < usPerTick := Nat.mod_lt _ (by omega)
  simp only [ticklessOneShotStop, per, ticks]
  split
  · dsimp only
    rw [Nat.succ_mul]
    omega
  · dsimp only
    omega

/-- No time is lost: the ticks announced and the rest are the time slept. -/
theorem ticklessSleeps_exact (divides : hz ∣ 1000000) (sleeps : List (Option Nat))
    (fits : ∀ us, some us ∈ sleeps → us * hz < 2 ^ 64) (small : usRemain < 1000000 / hz) :
    let (announced, rest) := ticklessSleeps hz usRemain sleeps
    announced * (1000000 / hz) + rest = usRemain + (sleeps.filterMap id).sum ∧
      rest < 1000000 / hz := by
  induction sleeps generalizing usRemain with
  | nil => simpa [ticklessSleeps] using small
  | cons passed sleeps ih =>
    have fitRest us (later : some us ∈ sleeps) := fits us (List.mem_cons_of_mem _ later)
    cases passed with
    | none => simpa [ticklessSleeps, ticklessOneShotStop] using ih fitRest small
    | some us =>
      have stop := ticklessOneShotStop_exact divides (fits us List.mem_cons_self) small
      unfold ticklessSleeps
      generalize ticklessOneShotStop hz usRemain (some us) = stopped at *
      obtain ⟨now, small'⟩ := stop
      obtain ⟨later, less⟩ := ih fitRest small'
      refine ⟨?_, less⟩
      simp only [List.filterMap_cons_some (f := id) rfl, List.sum_cons, Nat.add_mul]
      omega

theorem ticklessSleeps_exact_two : ticklessSleeps 100 0 [some 25000, some 15500] = (4, 500) ∧
    4 * 10000 + 500 = 0 + (25000 + 15500) := by
  have exact := @ticklessSleeps_exact 100 0 (by decide) [some 25000, some 15500] (by simp)
    (by decide)
  exact ⟨by decide, exact.1⟩

end AliosThings.Rhino
