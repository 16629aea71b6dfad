import AliosThings.Kv.Runs

/-!
# One live item for each key, and the map of the store

`aos_kv_set` updates the item that its lookup finds and stores a new one if it finds none. While
no lookup of an `aos_kv_set` fails, each key has at most one live item, with the value that was set
last; mallocs and reads may fail everywhere else. A lookup that fails leads to a second live item,
and the one that later lookups see first may be the older one.

While no malloc and no operation of the flash fails, the store is a map from keys to values: a set
that returns `RES_OK` binds its key, a deletion that returns `RES_OK` removes one key or those with
a prefix, a collection changes nothing, and every lookup returns what the map has.
-/

namespace AliosThings.Kv

open Lib (System)

open Function

variable {c : Conf} {a : KvCall}

/-! ## The values that have been set -/

/-- The last value of each key for which `aos_kv_set` has returned `RES_OK`. -/
abbrev LastSet := Bytes → Option Bytes

/-- A call that returns `RES_OK` is recorded. -/
def noteSet (c : Conf) (s : KvState) : KvCall → LastSet → LastSet
  | .set key val, last =>
    match aosKvSet c s key val with
    | some (.ok, _) => update last key (some val)
    | _ => last
  | _, last => last

/-- The store with a record of the values. -/
abbrev kvObserved (c : Conf) : System (KvState × LastSet) KvCall :=
  (kvSystem c).observed (fun _ => none) (noteSet c)

instance (s t : KvState) : Decidable (s.Answered t) :=
  decidable_of_iff ((∀ n < t.asked, s.asked ≤ n → (s.env n).ok = true) ∧
      ∀ n < t.driven, s.driven ≤ n → s.driver n = true)
    ⟨fun ⟨asked, driven⟩ =>
        ⟨fun n low high => asked n high low, fun n low high => driven n high low⟩,
      fun ⟨asked, driven⟩ =>
        ⟨fun n high low => asked n low high, fun n high low => driven n low high⟩⟩

/-- A call of `aos_kv_set` has a key that is not empty, and if it has the mutex its lookup does not
fail. -/
def KvCall.LooksUp (c : Conf) (s : KvState) : KvCall → Prop
  | .set key _ => key ≠ [] ∧ ((s.env s.asked).ok = true → s.Answered (lookedUp c s key))
  | _ => True

instance (s : KvState) (a : KvCall) : Decidable (a.LooksUp c s) := by
  rcases a <;> unfold KvCall.LooksUp <;> infer_instance

theorem KvCall.LooksUp.keyed {s : KvState} (looksUp : a.LooksUp c s) : a.Keyed := by
  cases a with
  | set => exact looksUp.1
  | _ => trivial

/-- Each key has at most one live item in the flash, and `aos_kv_get` returns no other value than
the one that was set last. -/
structure Newest (c : Conf) (p : KvState × LastSet) : Prop where
  unique : ∀ pos pos', ∀ r r' : Record c, NormalAt p.1.flash pos r → NormalAt p.1.flash pos' r' →
    r.key = r'.key → pos = pos'
  get : ∀ key n, (aosKvGet c p.1 key n).1 = .ok → p.2 key = some (aosKvGet c p.1 key n).2.1

/-! ## The invariant -/

/-- The logs of a store whose live items have the values that were set last. -/
structure Current (logs : Logs c) (last : LastSet) : Prop where
  unique : Unique logs
  newest : ∀ key val, Has logs key val → last key = some val

variable {s s' : KvState} {logs logs' : Logs c} {last : LastSet} {key val val' : Bytes}

theorem aosKvSet_locks (ok : aosKvSet c s key val = some (.ok, s')) :
    (s.env s.asked).ok = true := by
  unfold aosKvSet at ok
  split at ok
  · cases ok
  rw [s.osMutexLock_eq] at ok
  cases locked : (s.env s.asked).ok with
  | true => rfl
  | false =>
    rw [locked] at ok
    cases ok

theorem noteSet_ok (ok : aosKvSet c s key val = some (.ok, s')) (last : LastSet) :
    noteSet c s (.set key val) last = update last key (some val) := by
  simp only [noteSet, ok]

theorem noteSet_cases (s : KvState) (key val : Bytes) (last : LastSet) :
    (∃ s', aosKvSet c s key val = some (.ok, s')) ∨ noteSet c s (.set key val) last = last := by
  cases call : aosKvSet c s key val with
  | none => exact .inr (by simp only [noteSet, call])
  | some result =>
    obtain ⟨res, s'⟩ := result
    cases res with
    | ok => exact .inl ⟨s', rfl⟩
    | _ => exact .inr (by simp only [noteSet, call])

/-- A key with one live item has one value. -/
theorem Unique.val_eq (unique : Unique logs) (fits : Fits logs) (here : Has logs key val)
    (there : Has logs key val') : val = val' := by
  obtain ⟨pos, r, live, rfl, rfl⟩ := here
  obtain ⟨pos', r', live', same, rfl⟩ := there
  obtain rfl := unique pos r pos' r' live live' same.symm
  cases live.1.unique fits live'.1
  rfl

/-- Nothing is written: a call that returns `RES_OK` has found its value. -/
theorem Current.nothing (current : Current logs last) (fits : Fits logs)
    (fails : ∀ key val, a = .set key val → ∀ s',
      aosKvSet c s key val = some (.ok, s') → Has logs key val) :
    Current logs (noteSet c s a last) := by
  refine ⟨current.unique, fun key val has => ?_⟩
  have old := current.newest key val has
  cases a with
  | set key' val' =>
    rcases noteSet_cases s key' val' last with ⟨s', ok⟩ | same
    · have has' := fails key' val' rfl s' ok
      rw [noteSet_ok ok]
      by_cases same : key = key'
      · subst same
        rw [update_self, current.unique.val_eq fits has has']
      · rw [update_of_ne same]
        exact old
    · rw [same]
      exact old
  | _ => exact old

/-- An item takes the place of the only one with its key. -/
theorem Current.replaced (current : Current logs last) {old : Option Nat} {new : Nat}
    {r : Record c} (replaced : Replaced logs logs' old (some (new, r)))
    (found : ∀ pos, old = some pos → ∃ r', LiveAt logs pos r' ∧ r'.key = r.key)
    (absent : old = none → ∀ pos r', LiveAt logs pos r' → r'.key ≠ r.key) :
    Current logs' (update last r.key (some r.val)) := by
  -- What is left of the items before does not have the key.
  have others {pos : Nat} {r' : Record c} (live : LiveAt logs pos r') (kept : old ≠ some pos) :
      r'.key ≠ r.key := by
    intro same
    cases gone : old with
    | none => exact absent gone pos r' live same
    | some pos' =>
      obtain ⟨r'', live', same'⟩ := found pos' gone
      have place := current.unique pos r' pos' r'' live live' (same.trans same'.symm)
      exact kept (by rw [gone, place])
  refine ⟨fun pos r₁ pos' r₂ live live' same => ?_, fun key val has => ?_⟩
  · rcases (replaced pos r₁).mp live with ⟨before, kept⟩ | new
    · rcases (replaced pos' r₂).mp live' with ⟨before', kept'⟩ | new'
      · exact current.unique pos r₁ pos' r₂ before before' same
      · cases new'
        exact absurd same (others before kept)
    · rcases (replaced pos' r₂).mp live' with ⟨before', kept'⟩ | new'
      · cases new
        exact absurd same.symm (others before' kept')
      · cases new
        cases new'
        rfl
  · obtain ⟨pos, r', live, rfl, rfl⟩ := has
    rcases (replaced pos r').mp live with ⟨before, kept⟩ | new
    · rw [update_of_ne (others before kept)]
      exact current.newest _ _ ⟨pos, r', before, rfl, rfl⟩
    · cases new
      rw [update_self]

/-- Items are gone, and the others have their values. -/
theorem Current.fewer (current : Current logs last)
    (fewer : ∀ pos r, LiveAt logs' pos r → LiveAt logs pos r) {last' : LastSet}
    (same : ∀ pos r, LiveAt logs' pos r → last' r.key = last r.key) : Current logs' last' := by
  refine ⟨fun pos r pos' r' live live' => ?_, fun key val has => ?_⟩
  · exact current.unique pos r pos' r' (fewer pos r live) (fewer pos' r' live')
  · obtain ⟨pos, r, live, rfl, rfl⟩ := has
    rw [same pos r live]
    exact current.newest _ _ ⟨pos, r, fewer pos r live, rfl, rfl⟩

theorem Current.gced (current : Current logs last) (gced : Gced c s s' logs logs') :
    Current logs' last := by
  refine ⟨gced.unique current.unique, fun key val has => ?_⟩
  obtain ⟨pos, r, live, hasKey, hasVal⟩ := has
  obtain ⟨pos', live'⟩ := gced.source pos r live
  exact current.newest key val ⟨pos', r, live', hasKey, hasVal⟩

theorem Current.nil : Current (c := c) (fun _ => []) last := by
  have empty {pos : Nat} {r : Record c} : ¬ LiveAt (fun _ => []) pos r := by
    rintro ⟨⟨b, -, mem⟩, -⟩
    cases mem
  exact ⟨fun pos r pos' r' live => absurd live empty,
    fun key val ⟨pos, r, live, _⟩ => absurd live empty⟩

theorem Current.step (current : Current logs last) (fits : Fits logs) {a : KvCall}
    (looksUp : a.LooksUp c s) (change : Change c s logs a ((kvSystem c).step s a) logs') :
    Current logs' (noteSet c s a last) := by
  cases change with
  | nothing clean fails =>
    refine current.nothing fits fun key val is s' ok => ?_
    subst is
    have step : (kvSystem c).step s (.set key val) = s' := by
      show ((aosKvSet c s key val).map Prod.snd).getD s = s'
      rw [ok]
      rfl
    exact fails key val rfl (by rw [ok, step])
  | set ok hasKey hasVal replaced found absent clean =>
    subst hasKey hasVal
    rw [noteSet_ok ok]
    refine current.replaced replaced found fun none_ => ?_
    exact absent none_ (looksUp.2 (aosKvSet_locks ok))
  | fewer other _ fewer =>
    have same : noteSet c s a last = last := by
      cases a with
      | set key val => exact absurd rfl (other key val)
      | _ => rfl
    rw [same]
    exact current.fewer fewer fun _ _ _ => rfl
  | gc gced => exact current.gced gced

/-! ## The map -/

abbrev KvMap := Bytes → Option Bytes

/-- What `aos_kv_get` returns of a map for a buffer of `n` bytes: the result, the bytes in the
buffer and the length. -/
def KvMap.get (map : KvMap) (key : Bytes) (n : Nat) : Res × Bytes × Nat :=
  match map key with
  | none => (.itemNotFound, [], n)
  | some val => if n < val.length then (.noSpace, [], val.length) else (.ok, val, val.length)

/-- The map after a call. Only what returns `RES_OK` counts. -/
def noteMap (c : Conf) (s : KvState) : KvCall → KvMap → KvMap
  | .set key val, map => noteSet c s (.set key val) map
  | .get _ _, map => map
  | .del key, map => if (aosKvDel c s key).1 = .ok then update map key none else map
  | .delByPrefix key, map =>
    if (aosKvDelByPrefix c s key).1 = .ok then fun k => if key <+: k then none else map k else map
  | .gc, map => map

/-- The store beside the map. -/
abbrev kvMapped (c : Conf) : System (KvState × KvMap) KvCall :=
  (kvSystem c).observed (fun _ => none) (noteMap c)

/-- The key of a set is not empty, and nothing fails behind the lock of the mutex. -/
def KvCall.Succeeds (c : Conf) (s : KvState) (a : KvCall) : Prop :=
  a.Keyed ∧ (s.later 1).Answered ((kvSystem c).step s a)
  deriving Decidable

/-- What `aos_kv_get` returns, without the state. -/
def getResult (c : Conf) (s : KvState) (key : Bytes) (n : Nat) : Res × Bytes × Nat :=
  ((aosKvGet c s key n).1, (aosKvGet c s key n).2.1, (aosKvGet c s key n).2.2.1)

/-- Every lookup in `s` in which nothing fails returns what the map has. -/
def ReadsAs (c : Conf) (s : KvState) (map : KvMap) : Prop :=
  ∀ key n, 0 < n → s.Answered (aosKvGet c s key n).2.2.2 → getResult c s key n = map.get key n

structure RefinesMap (c : Conf) (p : KvState × KvMap) : Prop where
  reads : ReadsAs c p.1 p.2
  /-- A set that returns an error leaves every value as it is. -/
  setFails : ∀ key val res s', key ≠ [] → 0 ∉ key → aosKvSet c p.1 key val = some (res, s') →
    res ≠ .ok → ReadsAs c s' p.2

/-! ## The invariant -/

/-- The live items of the logs are the map. -/
structure Mapped (logs : Logs c) (map : KvMap) : Prop extends Current logs map where
  complete : ∀ key val, map key = some val → Has logs key val

variable {map : KvMap} {r r' : Record c} {pos pos' new : Nat}

/-- What a lookup returns. -/
theorem Mapped.reads (mapped : Mapped logs map) (readable : Readable s logs) : ReadsAs c s map := by
  intro key n positive answered
  have result := aosKvGet_spec readable key n
  unfold getResult
  generalize aosKvGet c s key n = outcome at result answered
  cases result with
  | invalid zero => omega
  | fault _ failed => exact absurd answered failed
  | absent _ none_ =>
    have unbound : map key = none := by
      cases bound : map key with
      | none => rfl
      | some val =>
        obtain ⟨pos, r, live, hasKey, -⟩ := mapped.complete key val bound
        exact absurd hasKey (none_ answered pos r live)
    rw [KvMap.get, unbound]
  | long _ live hasKey long =>
    have bound := mapped.newest key _ ⟨_, _, live, hasKey, rfl⟩
    rw [KvMap.get, bound]
    exact (if_pos long).symm
  | found _ live hasKey fits =>
    have bound := mapped.newest key _ ⟨_, _, live, hasKey, rfl⟩
    rw [KvMap.get, bound]
    exact (if_neg (Nat.not_lt.mpr fits)).symm

/-- Two live items with different keys are at different places. -/
theorem LiveAt.ne_of_key (live : LiveAt logs pos r) (live' : LiveAt logs pos' r') (fits : Fits logs)
    (other : r.key ≠ r'.key) : pos ≠ pos' := by
  rintro rfl
  cases live.1.unique fits live'.1
  exact other rfl

section

variable (mapped : Mapped logs map)
include mapped

theorem Mapped.nothing (fits : Fits logs)
    (same : ∀ s', aosKvSet c s key val = some (.ok, s') → Has logs key val) :
    Mapped logs (noteSet c s (.set key val) map) := by
  refine ⟨mapped.toCurrent.nothing fits fun key' val' is => ?_, fun key' val' bound => ?_⟩
  · cases is
    exact same
  · rcases noteSet_cases s key val map with ⟨s', ok⟩ | eq
    · rw [noteSet_ok ok] at bound
      by_cases isKey : key' = key
      · subst isKey
        rw [update_self] at bound
        cases bound
        exact same s' ok
      · rw [update_of_ne isKey] at bound
        exact mapped.complete key' val' bound
    · rw [eq] at bound
      exact mapped.complete key' val' bound

theorem Mapped.replaced (fits : Fits logs) {old : Option Nat}
    (replaced : Replaced logs logs' old (some (new, r)))
    (found : ∀ pos, old = some pos → ∃ r', LiveAt logs pos r' ∧ r'.key = r.key)
    (absent : old = none → ∀ pos r', LiveAt logs pos r' → r'.key ≠ r.key) :
    Mapped logs' (update map r.key (some r.val)) := by
  refine ⟨mapped.toCurrent.replaced replaced found absent, fun key val bound => ?_⟩
  by_cases isKey : key = r.key
  · subst isKey
    rw [update_self] at bound
    cases bound
    exact ⟨new, r, (replaced new r).mpr (.inr rfl), rfl, rfl⟩
  rw [update_of_ne isKey] at bound
  obtain ⟨pos, r', live, rfl, rfl⟩ := mapped.complete key val bound
  refine ⟨pos, r', (replaced pos r').mpr (.inl ⟨live, fun gone => ?_⟩), rfl, rfl⟩
  obtain ⟨r'', live', hasKey⟩ := found pos gone
  exact live.ne_of_key live' fits (fun same => isKey (same.trans hasKey)) rfl

theorem Mapped.removed (fits : Fits logs) (live : LiveAt logs pos r)
    (removed : Replaced logs logs' (some pos) none) : Mapped logs' (update map r.key none) := by
  have kept {pos' : Nat} {r' : Record c} (live' : LiveAt logs' pos' r') :
      LiveAt logs pos' r' ∧ some pos ≠ some pos' :=
    ((removed pos' r').mp live').resolve_right nofun
  refine ⟨mapped.fewer (fun _ _ live' => (kept live').1) fun pos' r' live' => ?_,
    fun key val bound => ?_⟩
  · obtain ⟨before, apart⟩ := kept live'
    refine update_of_ne (fun same => ?_) ..
    exact apart (congrArg some (mapped.unique pos r pos' r' live before same.symm))
  · by_cases isKey : key = r.key
    · rw [isKey, update_self] at bound
      cases bound
    · rw [update_of_ne isKey] at bound
      obtain ⟨pos', r', live', rfl, rfl⟩ := mapped.complete key val bound
      refine ⟨pos', r', (removed pos' r').mpr (.inl ⟨live', fun same => ?_⟩), rfl, rfl⟩
      cases same
      exact live'.ne_of_key live fits isKey rfl

theorem Mapped.pruned (pruned : Pruned logs logs' key)
    (swept : ∀ pos r, LiveAt logs' pos r → ¬ key <+: r.key) :
    Mapped logs' (fun k => if key <+: k then none else map k) := by
  refine ⟨mapped.fewer pruned.fewer fun pos r live => if_neg (swept pos r live),
    fun k val bound => ?_⟩
  split at bound
  case isTrue => cases bound
  case isFalse other =>
    obtain ⟨pos, r, live, rfl, rfl⟩ := mapped.complete k val bound
    exact ⟨pos, r, pruned.others pos r live other, rfl, rfl⟩

theorem Mapped.gced (gced : Gced c s s' logs logs') (answered : GcAnswered c s) :
    Mapped logs' map := by
  refine ⟨mapped.toCurrent.gced gced, fun key val bound => ?_⟩
  obtain ⟨pos, r, live, hasKey, hasVal⟩ := mapped.complete key val bound
  obtain ⟨pos', live'⟩ := gced.survives answered pos r live
  exact ⟨pos', r, live', hasKey, hasVal⟩

end

/-- The lock of the mutex was taken, and nothing fails behind it. -/
theorem KvState.Answered.of_later (first : (s.env s.asked).ok = true)
    (rest : (s.later 1).Answered s') : s.Answered s' := by
  refine ⟨fun n low high => ?_, rest.driven⟩
  rcases Nat.eq_or_lt_of_le low with rfl | later
  · exact first
  · exact rest.asked n later high

theorem gcAnswered_of_answered (sound : Sound s logs) (flashOk : s.FlashOk)
    (answered : (s.later 1).Answered (kvGcTask c s)) : GcAnswered c s := by
  intro gcIdx blk choice
  obtain ⟨-, ended⟩ := kvGcTask_chosen sound.toLayout flashOk choice
  exact ⟨(answered.left ended).asked, (answered.left ended).driven⟩

/-- One call in which no empty key is set. It keeps the map if nothing fails. -/
theorem kvSystem_step (sound : Sound s logs) (flashOk : s.FlashOk)
    (may : (kvSystem c).allowed s a) (keyed : a.Keyed) :
    ∃ logs', Sound ((kvSystem c).step s a) logs' ∧ ((kvSystem c).step s a).FlashOk ∧
      Change c s logs a ((kvSystem c).step s a) logs' ∧
      ∀ map, Mapped logs map → (s.later 1).Answered ((kvSystem c).step s a) →
        Mapped logs' (noteMap c s a map) := by
  obtain ⟨string, returns⟩ := may
  cases a with
  | set key val =>
    have result := aosKvSet_spec sound flashOk keyed string val
    have step : (kvSystem c).step s (.set key val) =
        ((aosKvSet c s key val).map Prod.snd).getD s := rfl
    rw [step]
    have some_ : ((aosKvSet c s key val).map Prod.snd).isSome = true := returns
    generalize call : aosKvSet c s key val = outcome at result some_
    cases result with
    | endless => cases some_
    | unchanged after sound' clean same =>
      have given (s' : KvState) (ok : aosKvSet c s key val = some (.ok, s')) :
          Has logs key val := by
        rw [call] at ok
        cases ok
        exact same rfl
      refine ⟨logs, sound', after.flashOk flashOk, .nothing clean fun key' val' eq ok => ?_,
        fun map mapped _ => mapped.nothing sound.fits given⟩
      cases eq
      exact given _ ok
    | replaced after sound' hasKey hasVal replaced found absent clean looked =>
      refine ⟨_, sound', after.flashOk flashOk,
        .set call hasKey hasVal replaced found absent clean, fun map mapped answered => ?_⟩
      subst hasKey hasVal
      show Mapped _ (noteSet c s (.set _ _) map)
      rw [noteSet_ok call]
      apply mapped.replaced sound.fits replaced found
      intro none_
      exact absent none_ (.of_later (aosKvSet_locks call) (answered.left looked))
  | get key n =>
    have only := aosKvGet_onlyAsked sound.readable key n
    refine ⟨logs, only.sound sound, only.precedes.flashOk flashOk, .nothing ?_ nofun,
      fun _ mapped _ => mapped⟩
    obtain ⟨k, eq⟩ := only
    show (aosKvGet c s key n).2.2.2.cleanBlkNums = _
    rw [eq]
    rfl
  | del key =>
    have result := aosKvDel_spec sound flashOk key
    have step : (kvSystem c).step s (.del key) = (aosKvDel c s key).2 := rfl
    rw [step]
    simp only [noteMap]
    generalize aosKvDel c s key = outcome at result
    cases result with
    | unchanged error after sound' clean =>
      refine ⟨logs, sound', after.flashOk flashOk, .nothing clean nofun, fun map mapped _ => ?_⟩
      rwa [if_neg error]
    | removed after sound' clean live hasKey removed =>
      refine ⟨_, sound', after.flashOk flashOk, .fewer nofun clean fun pos r now => ?_,
        fun map mapped _ => ?_⟩
      · exact (((removed pos r).mp now).resolve_right nofun).1
      · rw [if_pos rfl, ← hasKey]
        exact mapped.removed sound.fits live removed
  | delByPrefix key =>
    have step : (kvSystem c).step s (.delByPrefix key) = (aosKvDelByPrefix c s key).2 := rfl
    rw [step]
    simp only [noteMap]
    cases first : (s.env s.asked).ok with
    | false =>
      have refused : aosKvDelByPrefix c s key = (.mutexErr, s.later 1) := by
        rw [aosKvDelByPrefix, s.osMutexLock_eq, first]
      rw [refused]
      refine ⟨logs, sound.later 1, flashOk, .nothing rfl nofun, fun map mapped _ => ?_⟩
      rwa [if_neg nofun]
    | true =>
      obtain ⟨logs', result, swept⟩ := aosKvDelByPrefix_spec sound flashOk string
      have ok : (aosKvDelByPrefix c s key).1 = .ok := by
        rw [aosKvDelByPrefix, s.osMutexLock_eq, first]
      refine ⟨logs', result.sound, result.after.flashOk flashOk,
        .fewer nofun result.clean result.pruned.fewer, fun map mapped answered => ?_⟩
      rw [if_pos ok]
      exact mapped.pruned result.pruned (swept (.of_later first answered))
  | gc =>
    obtain ⟨logs', gced⟩ := kvGcTask_spec sound flashOk
    exact ⟨logs', gced.sound, gced.after.flashOk flashOk, .gc gced, fun map mapped answered =>
      mapped.gced gced (gcAnswered_of_answered sound flashOk answered)⟩

/-! ## Runs -/

/-- In every run in which no empty key is set, each block holds a log. -/
theorem Reach.sound (reach : ((kvSystem c).restrict fun _ a => a.Keyed).Reach s) :
    ∃ logs : Logs c, Sound s logs ∧ s.FlashOk := by
  refine reach.invariant (P := fun s => ∃ logs : Logs c, Sound s logs ∧ s.FlashOk) ?_ ?_
  · intro s init
    obtain ⟨sound, flashOk, -⟩ := kvSystem_init init
    exact ⟨_, sound, flashOk⟩
  · rintro s a ⟨logs, sound, flashOk⟩ ⟨may, keyed⟩
    obtain ⟨logs', sound', flashOk', -⟩ := kvSystem_step sound flashOk may keyed
    exact ⟨logs', sound', flashOk'⟩

/-- The invariant holds in every run in which the lookups of `aos_kv_set` do not fail. -/
theorem Reach.current {p : KvState × LastSet}
    (reach : ((kvObserved c).restrict fun p a => a.LooksUp c p.1).Reach p) :
    ∃ logs : Logs c, Sound p.1 logs ∧ p.1.FlashOk ∧ Current logs p.2 := by
  refine reach.invariant
    (P := fun p => ∃ logs : Logs c, Sound p.1 logs ∧ p.1.FlashOk ∧ Current logs p.2) ?_ ?_
  · rintro ⟨s, _⟩ ⟨init, rfl⟩
    obtain ⟨sound, flashOk, -⟩ := kvSystem_init init
    exact ⟨_, sound, flashOk, .nil⟩
  · rintro ⟨s, last⟩ a ⟨logs, sound, flashOk, current⟩ ⟨may, looksUp⟩
    obtain ⟨logs', sound', flashOk', change, -⟩ := kvSystem_step sound flashOk may looksUp.keyed
    exact ⟨logs', sound', flashOk', current.step sound.fits looksUp change⟩

/-- Let any malloc, any read and the mutex fail at any point of a run, except in a lookup of
`aos_kv_set`, and let no key be empty. In every state each key has at most one live item in the
flash, and `aos_kv_get` returns the value that was set last, or none. -/
theorem newest_of_lookups {p : KvState × LastSet}
    (reach : ((kvObserved c).restrict fun p a => a.LooksUp c p.1).Reach p) : Newest c p := by
  obtain ⟨logs, sound, flashOk, current⟩ := Reach.current reach
  have layout := sound.toLayout
  refine ⟨fun pos pos' r r' live live' => ?_, fun key n ok => ?_⟩
  · exact current.unique pos r pos' r' (layout.normalAt_iff.mp live) (layout.normalAt_iff.mp live')
  · have result := aosKvGet_spec sound.readable key n
    generalize aosKvGet c p.1 key n = outcome at result ok
    cases result with
    | found _ live hasKey => exact current.newest _ _ ⟨_, _, live, hasKey, rfl⟩
    | _ => cases ok

/-- A key is set twice. -/
def setTwice (k : Nat) : KvState × LastSet :=
  (kvObserved smallConf).run (smallStart (okBut k), fun _ => none) [.set [107] [1], .set [107] [2]]

theorem smallObserved_reach (env : Nat → Answer) (P : KvState × LastSet → KvCall → Prop) :
    ((kvObserved smallConf).restrict P).Reach (smallStart env, fun _ => none) :=
  .init ⟨⟨_, _, _, fun _ _ => rfl, fun _ => rfl, rfl⟩, rfl⟩

/-- The memory in which the second item is built is refused, and the first value stays. -/
theorem newest_of_lookups_setTwice : (aosKvGet smallConf (setTwice 12).1 [107] 8).1 = .ok ∧
    Newest smallConf (setTwice 12) :=
  ⟨by decide +kernel, newest_of_lookups ((smallObserved_reach _ _).run (by decide +kernel))⟩

/-- The memory for the first header is refused to the lookup of the second call. -/
theorem not_newest_of_lookups : ¬ ∀ (c : Conf) (p : KvState × LastSet),
    ((kvObserved c).restrict fun _ a => a.Keyed).Reach p → Newest c p := by
  intro newest
  have reach : ((kvObserved smallConf).restrict fun _ a => a.Keyed).Reach (setTwice 8) :=
    (smallObserved_reach _ _).run (by decide +kernel)
  have last : (setTwice 8).2 [107] = some [2] := by decide +kernel
  have get := (newest smallConf _ reach).get [107] 8 (by decide +kernel)
  have old : (aosKvGet smallConf (setTwice 8).1 [107] 8).2.1 = [1] := by decide +kernel
  cases get

/-- In every run in which nothing fails, the live items are the map. -/
theorem Reach.mapped {p : KvState × KvMap}
    (reach : ((kvMapped c).restrict fun p a => a.Succeeds c p.1).Reach p) :
    ∃ logs : Logs c, Sound p.1 logs ∧ p.1.FlashOk ∧ Mapped logs p.2 := by
  refine reach.invariant
    (P := fun p => ∃ logs : Logs c, Sound p.1 logs ∧ p.1.FlashOk ∧ Mapped logs p.2) ?_ ?_
  · rintro ⟨s, _⟩ ⟨init, rfl⟩
    obtain ⟨sound, flashOk, -⟩ := kvSystem_init init
    exact ⟨_, sound, flashOk, .nil, fun key val bound => nomatch bound⟩
  · rintro ⟨s, map⟩ a ⟨logs, sound, flashOk, mapped⟩ ⟨may, keyed, answered⟩
    obtain ⟨logs', sound', flashOk', -, keeps⟩ := kvSystem_step sound flashOk may keyed
    exact ⟨logs', sound', flashOk', keeps map mapped answered⟩

/-- In every run in which no key is empty and no malloc and no operation of the flash fails, every
lookup returns what the map has; the mutex may be refused to any call. -/
theorem kv_refines_map {p : KvState × KvMap}
    (reach : ((kvMapped c).restrict fun p a => a.Succeeds c p.1).Reach p) : RefinesMap c p := by
  obtain ⟨logs, sound, flashOk, mapped⟩ := Reach.mapped reach
  refine ⟨mapped.reads sound.readable, fun key val res s' keyPos keyStr call error => ?_⟩
  have result := aosKvSet_spec sound flashOk keyPos keyStr val
  rw [call] at result
  cases result with
  | unchanged _ sound' => exact mapped.reads sound'.readable
  | replaced => exact absurd rfl error

theorem smallMapped_reach :
    ((kvMapped smallConf).restrict fun p a => a.Succeeds smallConf p.1).Reach
      (smallStart allOk, fun _ => none) :=
  .init ⟨⟨_, _, _, fun _ _ => rfl, fun _ => rfl, rfl⟩, rfl⟩

/-- Two keys are set, one of them twice; the block of the old value is collected, and the other key
is deleted. -/
def collectedRun : KvState × KvMap :=
  (kvMapped smallConf).run (smallStart allOk, fun _ => none)
    [.set [107] [1], .set [108] [2], .set [107] [3], .gc, .del [108]]

theorem kv_refines_map_collected :
    getResult smallConf collectedRun.1 [107] 8 = (.ok, [3], 1) ∧
      getResult smallConf collectedRun.1 [108] 8 = (.itemNotFound, [], 8) ∧
      RefinesMap smallConf collectedRun := by
  exact ⟨by decide +kernel, by decide +kernel,
    kv_refines_map (smallMapped_reach.run (by decide +kernel))⟩

end AliosThings.Kv
