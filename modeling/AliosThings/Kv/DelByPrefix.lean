import AliosThings.Kv.Calls

/-!
# Deleting by prefix

`aos_kv_del_by_prefix` scans every block and marks the items whose key starts with the prefix. A
read of a key that fails leaves the item, and a scan that fails leaves the rest of its block.
-/

namespace AliosThings.Kv

open KvState (Precedes)
open List

variable {c : Conf}

/-- Live items whose keys start with `key` have been removed, and no others. -/
structure Pruned (logs logs' : Logs c) (key : Bytes) : Prop where
  fewer : ∀ pos r, LiveAt logs' pos r → LiveAt logs pos r
  others : ∀ pos r, LiveAt logs pos r → ¬ key <+: r.key → LiveAt logs' pos r

variable {key : Bytes}

theorem Pruned.rfl {logs : Logs c} : Pruned logs logs key :=
  ⟨fun _ _ live => live, fun _ _ live _ => live⟩

theorem Pruned.trans {logs₁ logs₂ logs₃ : Logs c} (first : Pruned logs₁ logs₂ key)
    (second : Pruned logs₂ logs₃ key) : Pruned logs₁ logs₃ key :=
  ⟨fun pos r live => first.fewer pos r (second.fewer pos r live),
    fun pos r live other => second.others pos r (first.others pos r live other) other⟩

/-- No live item of the log has a key that starts with `key`. -/
def Swept (log : List (Entry c)) (key : Bytes) : Prop :=
  ∀ r, .item r ∈ log → r.Normal → ¬ key <+: r.key

theorem Swept.concat {log : List (Entry c)} {e : Entry c} (swept : Swept log key)
    (last : ∀ r, e = .item r → r.Normal → ¬ key <+: r.key) : Swept (log ++ [e]) key := by
  intro r mem normal
  rcases mem_append.mp mem with old | new
  · exact swept r old normal
  · exact last r (mem_singleton.mp new).symm normal

/-- What has been done by a scan of block `blk` that began in `s`. -/
structure Sweep (s s' : KvState) (logs logs' : Logs c) (key : Bytes) (blk : Nat) : Prop where
  after : s.Precedes s'
  sound : Sound s' logs'
  clean : s'.cleanBlkNums = s.cleanBlkNums
  pruned : Pruned logs logs' key
  elsewhere : ∀ b, b ≠ blk → logs' b = logs b

theorem Sweep.later {s s' : KvState} {logs logs' : Logs c} {blk : Nat}
    (sweep : Sweep s s' logs logs' key blk) (n : Nat) : Sweep s (s'.later n) logs logs' key blk :=
  ⟨sweep.after.trans (.later n), sweep.sound.later n, sweep.clean, sweep.pruned, sweep.elsewhere⟩

variable {s s' : KvState} {logs logs' : Logs c} {blk n : Nat} {before after : List (Entry c)}
  {r : Record c} {key : Bytes}

/-- An item is removed in the course of the scan. -/
theorem Sweep.remove (sweep : Sweep s s' logs logs' key blk) (flashOk : s.FlashOk)
    (valid : blk < c.blkNums) (eq : logs' blk = before ++ .item r :: after)
    (starts : key <+: r.key) :
    ∃ s'', itemRemove c s' (logEnd blk before) = (.ok, s'') ∧ s'.Precedes s'' ∧
      Sweep s s'' logs (deleted logs' blk before after r) key blk := by
  obtain ⟨s'', removed, later, sound, clean⟩ :=
    itemRemove_spec sweep.sound (sweep.after.flashOk flashOk) valid eq
  have live (pos : Nat) (r' : Record c) :
      LiveAt (deleted logs' blk before after r) pos r' ↔ _ :=
    LiveAt.delete sweep.sound.fits valid eq
  refine ⟨s'', removed, later, sweep.after.trans later, sound, clean.trans sweep.clean,
    sweep.pruned.trans ⟨fun pos r' now => ((live pos r').mp now).1, fun pos r' now other => ?_⟩,
    fun b apart => ?_⟩
  · refine (live pos r').mpr ⟨now, ?_⟩
    rintro rfl
    -- There is one entry at a position, and this one has the prefix.
    have here : EntryAt logs' (logEnd blk before) (.item r) :=
      ⟨blk, valid, mem_placed.mpr ⟨before, after, eq, rfl⟩⟩
    have same := now.1.unique sweep.sound.fits here
    cases same
    exact other starts
  · rw [deleted, Function.update_of_ne apart]
    exact sweep.elsewhere b apart

/-- A key without zero bytes that is a prefix of a cleared buffer is empty. -/
theorem eq_nil_of_isPrefix_replicate (keyStr : 0 ∉ key) (starts : key <+: replicate n 0) :
    key = [] := by
  cases key with
  | nil => rfl
  | cons b =>
    obtain ⟨rest, eq⟩ := starts
    have mem : b ∈ replicate n (0 : UInt8) := by
      rw [← eq]
      simp
    rw [(mem_replicate.mp mem).2] at keyStr
    exact absurd mem_cons_self keyStr

/-- The callback keeps the item or removes it. -/
theorem itemDelByPrefixCb_visit (sweep : Sweep s s' logs logs' key blk) (flashOk : s.FlashOk)
    (valid : blk < c.blkNums) (keyStr : 0 ∉ key) (eq : logs' blk = before ++ .item r :: after) :
    Visit s' (itemDelByPrefixCb c s' (r.itemAt (logEnd blk before)) key)
      (fun s'' => ∃ logs'' e, Sweep s s'' logs logs'' key blk ∧ logs'' blk = before ++ e :: after ∧
        e.size = r.size ∧
        (s'.Answered s'' → ∀ r', e = .item r' → r'.Normal → ¬ key <+: r'.key))
      (fun _ _ => False)
      (fun s'' => Sweep s s'' logs logs' key blk) := by
  have keyLen : (r.itemAt (logEnd blk before)).hdr.keyLen.toNat = r.key.length := r.hdr_keyLen
  have place : (r.itemAt (logEnd blk before)).pos = logEnd blk before := rfl
  have at_ : (Entry.item r).At s'.flash (logEnd blk before) := by
    have holds := (sweep.sound.block blk valid).holds
    rw [eq] at holds
    exact holds.entry
  have keep (n : Nat) (no : s'.Answered (s'.later n) → ¬ key <+: r.key) :
      ∃ logs'' e, Sweep s (s'.later n) logs logs'' key blk ∧ logs'' blk = before ++ e :: after ∧
        e.size = r.size ∧ (s'.Answered (s'.later n) → ∀ r', e = .item r' → r'.Normal →
          ¬ key <+: r'.key) := by
    refine ⟨logs', .item r, sweep.later n, eq, rfl, fun answered r' same _ => ?_⟩
    cases same
    exact no answered
  unfold itemDelByPrefixCb
  rw [keyLen, place]
  split
  case isTrue short =>
    refine ⟨.rfl, fun _ => keep 0 fun _ starts => ?_, nofun, fun no => absurd rfl no⟩
    have le := starts.length_le
    omega
  case isFalse long =>
  rw [s'.osMalloc_eq]
  cases first : (s'.env s'.asked).ok
  case false =>
    exact ⟨.later 1, nofun, nofun, fun _ _ =>
      ⟨KvState.not_answered_later first, sweep.later 1⟩⟩
  dsimp only
  rw [(s'.later 1).partitionRead_eq, s'.later_later]
  -- What is compared with the prefix: the key, or the cleared buffer.
  have read : s'.flash.readBytes (logEnd blk before + c.itemHdrSize) r.key.length = r.key := by
    have both := at_.2
    rw [Mem.readBytes_add] at both
    exact append_inj_left both (Mem.readBytes_length ..)
  have flash : (s'.later 1).flash = s'.flash := rfl
  rw [length_replicate, flash, read]
  generalize compared : (if ((s'.later 1).env (s'.later 1).asked).ok = true then r.key
    else replicate r.key.length 0) = buf
  split
  case isTrue starts =>
    have starts' : key <+: r.key := by
      have isPrefix : key <+: buf := prefix_iff_eq_take.mpr starts.symm
      rw [← compared] at isPrefix
      split at isPrefix
      · exact isPrefix
      · rw [eq_nil_of_isPrefix_replicate keyStr isPrefix]
        exact nil_prefix
    obtain ⟨s'', removed, later, sweep'⟩ := (sweep.later 2).remove flashOk valid eq starts'
    have result : kvItemDel c (s'.later 2) (r.itemAt (logEnd blk before)) .deleteRemove =
      (.ok, s'') := removed
    rw [result]
    refine ⟨(Precedes.later 2).trans later, fun _ => ?_, nofun, fun no => absurd rfl no⟩
    refine ⟨_, .item (r.withState itemStateDelete), sweep', Function.update_self .., rfl,
      fun _ r' same normal' => ?_⟩
    cases same
    exact absurd normal' (show ¬ itemStateDelete = itemStateNormal by decide)
  case isFalse differs =>
    refine ⟨.later 2, fun _ => keep 2 fun answered starts => ?_, nofun,
      fun no => absurd rfl no⟩
    have second : ((s'.later 1).env (s'.later 1).asked).ok = true :=
      answered.asked (s'.asked + 1) (Nat.le_succ _) (Nat.lt_succ_self _)
    rw [if_pos second] at compared
    subst compared
    exact differs (prefix_iff_eq_take.mp starts).symm

theorem delByPrefix_rule (flashOk : s.FlashOk) (valid : blk < c.blkNums) (keyStr : 0 ∉ key)
    (logs : Logs c) :
    ScanRule c (itemDelByPrefixCb c) blk key
      (fun before after s' => ∃ logs', Sweep s s' logs logs' key blk ∧
        logs' blk = before ++ after ∧ (s.Answered s' → Swept before key))
      (fun _ _ => False)
      (fun s' => ∃ logs', Sweep s s' logs logs' key blk) where
  valid := valid
  holds := by
    rintro before after s' ⟨logs', sweep, split, -⟩
    rw [← split]
    exact (sweep.sound.block blk valid).holds
  later := by
    rintro before after s' n ⟨logs', sweep, split, swept⟩
    exact ⟨logs', sweep.later n, split, fun answered => swept (answered.left (.later n))⟩
  stop := fun _ _ _ ⟨logs', sweep, _⟩ => ⟨logs', sweep⟩
  visit := by
    rintro before r after s' ⟨logs', sweep, split, swept⟩ -
    have visit := itemDelByPrefixCb_visit sweep flashOk valid keyStr split
    refine ⟨visit.after, fun cont => ?_, visit.found, fun no no' => ?_⟩
    · obtain ⟨logs'', e, sweep', split', size, last⟩ := visit.next cont
      refine ⟨before ++ [e], after, by simp [size], rfl, logs'', sweep', by simp [split'],
        fun answered => ?_⟩
      exact (swept (answered.left visit.after)).concat (last (answered.right sweep.after))
    · exact ⟨(visit.stop no no').1, logs', (visit.stop no no').2⟩
  pass := by
    rintro before e after s' ⟨logs', sweep, split, swept⟩ dead
    have tidy := sweep.sound.tidy blk valid
    rw [tidy.markDirty_eq (by simp [split]) dead]
    refine ⟨.rfl, logs', sweep, by simp [split], fun answered => ?_⟩
    refine (swept answered).concat fun r same normal => ?_
    subst same
    exact absurd normal dead

/-- The scan of one block. -/
theorem kvItemTraverse_delByPrefix (sound : Sound s logs) (flashOk : s.FlashOk)
    (valid : blk < c.blkNums) (keyStr : 0 ∉ key) :
    ∃ logs', Sweep s (kvItemTraverse c (itemDelByPrefixCb c) s blk key).2 logs logs' key blk ∧
      (s.Answered (kvItemTraverse c (itemDelByPrefixCb c) s blk key).2 →
        Swept (logs' blk) key) := by
  have start : ∃ logs', Sweep s s logs logs' key blk ∧ logs' blk = [] ++ logs blk ∧
      (s.Answered s → Swept ([] : List (Entry c)) key) :=
    ⟨logs, ⟨.rfl, sound, rfl, .rfl, fun _ _ => rfl⟩, rfl, fun _ _ => nofun⟩
  have scan := ((delByPrefix_rule flashOk valid keyStr logs).traverse start).scan
  generalize kvItemTraverse c (itemDelByPrefixCb c) s blk key = result at scan
  cases scan
  case found after found => exact found.elim
  case stopped after fault stop =>
    obtain ⟨logs', sweep⟩ := stop
    exact ⟨logs', sweep, fun answered => absurd answered fault⟩
  case complete after ended =>
  obtain ⟨log, s', ⟨logs', sweep, split, swept⟩, rfl⟩ := ended
  rw [append_nil] at split
  have ok := sweep.sound.block blk valid
  rw [split] at ok
  rw [recordSpace_eq ok.space ok.holds.fits]
  refine ⟨logs', sweep, ?_⟩
  rw [split]
  exact swept

/-- What `aos_kv_del_by_prefix` does to the logs. -/
structure PrefixResult (s s' : KvState) (logs logs' : Logs c) (key : Bytes) : Prop where
  after : s.Precedes s'
  sound : Sound s' logs'
  clean : s'.cleanBlkNums = s.cleanBlkNums
  pruned : Pruned logs logs' key

/-- The blocks one after the other. -/
theorem delByPrefix_foldl (keyStr : 0 ∉ key) :
    ∀ (blks : List Nat) (s : KvState) (logs : Logs c), (∀ blk ∈ blks, blk < c.blkNums) →
      blks.Nodup → Sound s logs → s.FlashOk →
      ∃ logs', PrefixResult s (blks.foldl
          (fun s blk => (kvItemTraverse c (itemDelByPrefixCb c) s blk key).2) s) logs logs' key ∧
        (∀ b, b ∉ blks → logs' b = logs b) ∧
        (s.Answered (blks.foldl
          (fun s blk => (kvItemTraverse c (itemDelByPrefixCb c) s blk key).2) s) →
          ∀ blk ∈ blks, Swept (logs' blk) key) := by
  intro blks
  induction blks with
  | nil =>
    intro s logs _ _ sound _
    exact ⟨logs, ⟨.rfl, sound, rfl, .rfl⟩, fun _ _ => rfl, fun _ => nofun⟩
  | cons blk _ ih =>
    intro s logs valid nodup sound flashOk
    obtain ⟨fresh, nodup⟩ := nodup_cons.mp nodup
    obtain ⟨logs₁, sweep, swept⟩ :=
      kvItemTraverse_delByPrefix sound flashOk (valid blk mem_cons_self) keyStr
    obtain ⟨logs₂, result, same, rest⟩ := ih _ logs₁
      (fun b mem => valid b (mem_cons_of_mem _ mem)) nodup sweep.sound
      (sweep.after.flashOk flashOk)
    refine ⟨logs₂, ⟨sweep.after.trans result.after, result.sound, result.clean.trans sweep.clean,
      sweep.pruned.trans result.pruned⟩, fun b out => ?_, fun answered b mem => ?_⟩
    · obtain ⟨other, out⟩ := not_or.mp (fun either => out (mem_cons.mpr either))
      rw [same b out, sweep.elsewhere b other]
    · rcases mem_cons.mp mem with rfl | later
      · rw [same b fresh]
        exact swept (answered.left result.after)
      · exact rest (answered.right sweep.after) b later

/-- `aos_kv_del_by_prefix` removes items with the prefix only, and all of them if every call
succeeds. -/
theorem aosKvDelByPrefix_spec (sound : Sound s logs) (flashOk : s.FlashOk) (keyStr : 0 ∉ key) :
    ∃ logs', PrefixResult s (aosKvDelByPrefix c s key).2 logs logs' key ∧
      (s.Answered (aosKvDelByPrefix c s key).2 →
        ∀ pos r, LiveAt logs' pos r → ¬ key <+: r.key) := by
  unfold aosKvDelByPrefix
  rw [s.osMutexLock_eq]
  cases first : (s.env s.asked).ok
  case false =>
    exact ⟨logs, ⟨.later 1, sound.later 1, rfl, .rfl⟩, fun answered =>
      absurd answered (KvState.not_answered_later first)⟩
  obtain ⟨logs', result, -, swept⟩ := delByPrefix_foldl keyStr (range c.blkNums) (s.later 1)
    logs (fun b mem => mem_range.mp mem) nodup_range (sound.later 1) flashOk
  refine ⟨logs', ⟨(Precedes.later 1).trans result.after, result.sound, result.clean,
    result.pruned⟩, fun answered pos r live => ?_⟩
  obtain ⟨⟨b, valid, mem⟩, normal⟩ := live
  obtain ⟨before, after, eq, -⟩ := mem_placed.mp mem
  exact swept (answered.right (.later 1)) b (mem_range.mpr valid) r (by simp [eq]) normal

end AliosThings.Kv
