import AliosThings.Kv.RefinesMap

/-!
# Starting again from the flash

`kv_init` derives the state of the manager from the flash. It writes to the flash on the way: what
is at the origin of a live item is marked as deleted if its bytes look like a live item with the
same key, and without a clean block the first block is formatted. Where neither does harm, the
store is what it was.
-/

namespace AliosThings.Kv

open List Function

variable {c : Conf}

/-! ## The callback -/

/-- No call fails. -/
structure KvState.Reliable (s : KvState) : Prop where
  env : ∀ n, (s.env n).ok = true
  flash : s.FlashOk

open KvState

theorem KvState.Reliable.later {s : KvState} (reliable : s.Reliable) (n : Nat) :
    (s.later n).Reliable :=
  ⟨reliable.env, reliable.flash⟩

/-- The bytes at `off` look like a live item with the key: the test of `kv_item_del`. -/
def Resembles (c : Conf) (flash : Mem) (off : Nat) (key : Bytes) : Prop :=
  flash off = itemMagicNum ∧ flash (off + kvStateOff) = itemStateNormal ∧
    flash (off + 3) = UInt8.ofNat key.length ∧
    flash.readBytes (off + c.itemHdrSize) key.length = key

/-- `__item_recovery_cb` leaves the flash alone: the item at `pos` has no origin, or is there
itself, or what is there does not look like an item with its key. -/
def Quiet (flash : Mem) (pos : Nat) (r : Record c) : Prop :=
  r.originOff ≠ 0 → pos ≠ r.originOff → ¬ Resembles c flash r.originOff r.key

variable {s : KvState} {pos : Nat} {r : Record c}

theorem kvItemDel_updateRemove (reliable : s.Reliable) (at_ : (Entry.item r).At s.flash pos)
    (differs : ¬ Resembles c s.flash r.originOff r.key) :
    ∃ n, kvItemDel c s (r.itemAt pos) .updateRemove = (.ok, s.later n) := by
  have ok (n m : Nat) : ((s.later m).env n).ok = true := reliable.env n
  have flash (m : Nat) : (s.later m).flash = s.flash := rfl
  have origin : (r.itemAt pos).hdr.originOff = r.originOff := rfl
  have keyLen : (r.itemAt pos).hdr.keyLen = UInt8.ofNat r.key.length := rfl
  have place : (r.itemAt pos).pos = pos := rfl
  have toNat : (UInt8.ofNat r.key.length).toNat = r.key.length := r.hdr_keyLen
  have big := c.le_itemHdrSize
  have byte (i : Nat) (inside : i < c.itemHdrSize) := s.flash.readBytes_getD r.originOff inside
  have own : s.flash.readBytes (pos + c.itemHdrSize) r.key.length = r.key := by
    have both := at_.2
    rw [Mem.readBytes_add] at both
    exact append_inj_left both (Mem.readBytes_length ..)
  unfold kvItemDel
  simp only [origin, s.partitionRead_eq, reliable.env, if_true, length_replicate,
    ItemHdr.ofBytes, byte 0 (by omega), byte 1 (by omega), byte 3 (by omega), Nat.add_zero, keyLen]
  by_cases head : s.flash r.originOff = itemMagicNum ∧ s.flash (r.originOff + 1) = itemStateNormal ∧
      s.flash (r.originOff + 3) = UInt8.ofNat r.key.length
  · obtain ⟨magic, state, length⟩ := head
    refine ⟨5, ?_⟩
    rw [if_neg (by simp [magic, state, length])]
    simp only [length, toNat, osMalloc_eq, partitionRead_eq, later_later, ok,
      flash, if_true, length_map, length_range, place, own]
    rw [if_pos fun same => differs ⟨magic, state, length, same⟩]
  · exact ⟨1, by rw [if_pos (by tauto)]⟩

theorem itemRecoveryCb_quiet (reliable : s.Reliable) (at_ : (Entry.item r).At s.flash pos)
    (checked : r.Checked) (quiet : Quiet s.flash pos r) :
    ∃ n, itemRecoveryCb c s (r.itemAt pos) [] = (.cont, r.itemAt pos, s.later n) := by
  have second : ((s.later 1).env (s.later 1).asked).ok = true := reliable.env _
  have flash (m : Nat) : (s.later m).flash = s.flash := rfl
  have length : (r.itemAt pos).len = r.key.length + r.val.length := rfl
  have place : (r.itemAt pos).pos = pos := rfl
  have crc : (r.itemAt pos).hdr.crc = r.crc := rfl
  have origin : (r.itemAt pos).hdr.originOff = r.originOff := rfl
  have read : s.flash.readBytes (pos + c.itemHdrSize)
      (map (s.env s.asked).junk (range (r.key.length + r.val.length))).length =
        r.key ++ r.val := by
    rw [length_map, length_range]
    exact at_.2
  unfold itemRecoveryCb
  rw [s.osMalloc_eq, reliable.env]
  dsimp only
  rw [(s.later 1).partitionRead_eq, second, if_pos rfl, flash, length, place, read, crc, origin,
    s.later_later]
  dsimp only
  rw [if_pos (show r.crc = calcCrc8 (r.key ++ r.val) from checked)]
  split
  case isTrue replaces =>
    obtain ⟨n, eq⟩ := kvItemDel_updateRemove (reliable.later 2) at_ (quiet replaces.1 replaces.2)
    exact ⟨2 + n, by rw [eq, s.later_later]⟩
  case isFalse => exact ⟨2, rfl⟩

/-! ## The scan of a block -/

variable {blk : Nat} {log : List (Entry c)}

/-- The live items of a log have the right check sums and are left alone. -/
def AllQuiet (flash : Mem) (blk : Nat) (log : List (Entry c)) : Prop :=
  ∀ pos r, (pos, .item r) ∈ placed (c.blkStart blk + blkHdrSize) log → r.Normal →
    r.Checked ∧ Quiet flash pos r

/-- Only the space is recorded. -/
theorem kvItemTraverse_recovery (reliable : s.Reliable) (valid : blk < c.blkNums)
    (holds : Holds s.flash blk log) (tidy : Tidy s blk log) (quiet : AllQuiet s.flash blk log) :
    ∃ n, (kvItemTraverse c (itemRecoveryCb c) s blk []).2 =
      (s.later n).setBlkSpace blk (c.blkStart blk + c.blkSize - logEnd blk log) := by
  have rule := reading_rule (itemRecoveryCb c) [] (fun _ => True)
    (fun _ _ _ => False) holds tidy valid fun pos r n here normal at_ => by
      obtain ⟨checked, quiet⟩ := quiet pos r here normal
      obtain ⟨m, call⟩ := itemRecoveryCb_quiet (reliable.later n) at_ checked quiet
      rw [call]
      exact ⟨.later m, fun _ => ⟨⟨m, rfl⟩, trivial⟩, nofun, fun no => absurd rfl no⟩
  have scan := (rule.traverse ⟨.rfl, rfl, fun _ _ _ => trivial⟩).scan
  generalize kvItemTraverse c (itemRecoveryCb c) s blk [] = result at scan
  cases scan with
  | found _ found =>
    obtain ⟨-, pos, r, -, -, never⟩ := found
    exact never.elim
  | stopped _ fault =>
    exact absurd ⟨fun n _ _ => reliable.env n, fun n _ _ => reliable.flash n⟩ fault
  | complete after ended =>
    obtain ⟨log', s', ⟨⟨n, rfl⟩, eq, -⟩, rfl⟩ := ended
    rw [append_nil] at eq
    subst eq
    exact ⟨n, by simp only [recordSpace, if_pos holds.fits]⟩

/-! ## The first loop -/

variable {t : KvState} {logs : Logs c}

/-- The manager knows the blocks of the list as it did in `s`; the flash is as it was. -/
structure Restored (s t t' : KvState) (blks : List Nat) : Prop where
  flash : t'.flash = t.flash
  reliable : t'.Reliable
  info : ∀ b, t'.blockInfo b = if b ∈ blks then s.blockInfo b else t.blockInfo b
  clean : t'.cleanBlkNums =
    t.cleanBlkNums + blks.countP fun b => (s.blockInfo b).state = blkStateClean

/-- The state of a block is read from its header, and its space is found by the scan. -/
theorem scanned_eq (readable : Readable s logs) (same : t.flash = s.flash) (reliable : t.Reliable)
    (valid : blk < c.blkNums) (quiet : AllQuiet s.flash blk (logs blk)) :
    ∃ n, (kvItemTraverse c (itemRecoveryCb c) (t.setBlkState blk (s.blockInfo blk).state) blk
        []).2 =
      { t.later n with blockInfo := update t.blockInfo blk (s.blockInfo blk) } := by
  have block := readable.block blk valid
  have tidy : Tidy (t.setBlkState blk (s.blockInfo blk).state) blk (logs blk) := by
    intro used
    apply readable.tidy blk valid
    simpa [setBlkState] using used
  obtain ⟨n, eq⟩ := kvItemTraverse_recovery
    (show (t.setBlkState blk (s.blockInfo blk).state).Reliable from ⟨reliable.env, reliable.flash⟩)
    valid (by rw [setBlkState, same]; exact block.holds) tidy
    (by rw [setBlkState, same]; exact quiet)
  rw [← show _ = _ from block.space] at eq
  refine ⟨n, eq.trans ?_⟩
  simp [setBlkSpace, setBlkState, later]

theorem initScan_restores (readable : Readable s logs) (same : t.flash = s.flash)
    (reliable : t.Reliable) (unclean : List Nat) {blks : List Nat} (nodup : blks.Nodup)
    (valid : ∀ b ∈ blks, b < c.blkNums) (few : t.cleanBlkNums + blks.length < 2 ^ 8)
    (quiet : ∀ b < c.blkNums, AllQuiet s.flash b (logs b)) :
    ∃ t', initScan c blks unclean t = (.ok, unclean, t') ∧ Restored s t t' blks := by
  induction blks generalizing t with
  | nil => exact ⟨t, rfl, rfl, reliable, fun b => (if_neg not_mem_nil).symm, rfl⟩
  | cons blk blks ih =>
    obtain ⟨fresh, nodup⟩ := nodup_cons.mp nodup
    have validBlk := valid blk mem_cons_self
    have block := readable.block blk validBlk
    obtain ⟨n, scanned⟩ := scanned_eq readable (show (t.later 1).flash = s.flash from same)
      (reliable.later 1) validBlk (quiet blk validBlk)
    have hdr : BlockHdr.ofBytes (t.flash.readBytes (c.blkStart blk)
        (replicate blkHdrSize (0 : UInt8)).length) =
          ⟨blkMagicNum, (s.blockInfo blk).state⟩ := by
      rw [same, ← block.magic, ← block.state]
      rfl
    -- The rest of the list, whatever the number of clean blocks is by then.
    have rest (count : Nat) (few : count + blks.length < 2 ^ 8) := ih (t := { t.later (1 + n) with
      blockInfo := update t.blockInfo blk (s.blockInfo blk), cleanBlkNums := count })
      same ⟨reliable.env, reliable.flash⟩ nodup (fun b mem => valid b (mem_cons_of_mem _ mem))
      few
    have info (b : Nat) : (if b ∈ blks then s.blockInfo b
        else update t.blockInfo blk (s.blockInfo blk) b) =
          if b ∈ blk :: blks then s.blockInfo b else t.blockInfo b := by
      by_cases isBlk : b = blk
      · subst isBlk
        simp [fresh]
      · simp [isBlk]
    rw [length_cons] at few
    unfold initScan
    rw [t.partitionRead_eq, reliable.env, if_pos rfl]
    dsimp only
    rw [hdr]
    rw [if_pos ⟨rfl, block.known⟩, scanned, t.later_later]
    by_cases clean : (s.blockInfo blk).state = blkStateClean
    · have space := show _ = _ from block.space
      have room : (s.blockInfo blk).space = c.blkSize - blkHdrSize := by
        rw [space, block.clean clean, logEnd, logSize_nil]
        omega
      obtain ⟨t', eq, restored⟩ := rest (t.cleanBlkNums + 1) (by omega)
      rw [if_pos clean, if_neg (by simp [room])]
      have less : t.cleanBlkNums + 1 < 2 ^ 8 := by omega
      refine ⟨t', ?_, restored.flash, restored.reliable,
        fun b => (restored.info b).trans (info b), ?_⟩
      · rw [← eq]
        simp only [later, Nat.mod_eq_of_lt less]
      · rw [restored.clean, countP_cons_of_pos (by simpa using clean)]
        exact Nat.add_right_comm ..
    · obtain ⟨t', eq, restored⟩ := rest t.cleanBlkNums (by omega)
      rw [if_neg clean]
      refine ⟨t', eq, restored.flash, restored.reliable,
        fun b => (restored.info b).trans (info b), ?_⟩
      rw [restored.clean, countP_cons_of_neg (by simpa using clean)]

/-! ## The store after the start -/

variable {map : KvMap}

theorem initPosition_eq (blks : List Nat) :
    ∃ place, initPosition c blks t = { t with writePos := place } := by
  induction blks with
  | nil => exact ⟨t.writePos, rfl⟩
  | cons blk _ ih =>
    unfold initPosition
    dsimp only
    generalize (if blk + 1 = c.blkNums then 0 else blk + 1) = next
    split
    · exact ⟨_, rfl⟩
    · exact ih

/-- Only the position of the next write is computed. -/
theorem initStart_readable (readable : Readable t logs) (used : t.cleanBlkNums ≠ c.blkNums) :
    Readable (initStart c t) logs := by
  obtain ⟨place, eq⟩ := initPosition_eq (range c.blkNums)
  rw [initStart, if_neg used, eq]
  exact readable.congr rfl fun _ _ => rfl

theorem Layout.cleanCount_lt (layout : Layout s logs) : cleanCount c s < c.blkNums := by
  obtain ⟨blk, valid, used, -⟩ := layout.writing
  exact Kv.cleanCount_lt valid used

/-- A block that is formatted has no entry. -/
theorem Readable.formatted (readable : Readable t logs) (blk : Nat) :
    Readable (t.formatted c blk) (update logs blk []) := by
  refine ⟨fun b valid => ?_, fun b valid => ?_⟩
  · by_cases isBlk : b = blk
    · subst isBlk
      rw [update_self]
      exact .formatted_self t b
    · rw [update_of_ne isBlk]
      exact (readable.block b valid).formatted_other isBlk
  · by_cases isBlk : b = blk
    · subst isBlk
      rw [update_self]
      exact fun _ _ => nofun
    · have other : (t.formatted c blk).blockInfo b = t.blockInfo b := update_of_ne isBlk ..
      rw [update_of_ne isBlk, Tidy, other]
      exact readable.tidy b valid

/-- A block without live items is of no account. -/
theorem Mapped.emptied (mapped : Mapped logs map) (valid : blk < c.blkNums)
    (dead : ∀ pos r, (pos, .item r) ∈ placed (c.blkStart blk + blkHdrSize) (logs blk) →
      ¬ r.Normal) :
    Mapped (update logs blk []) map := by
  have same (pos : Nat) (r : Record c) :
      LiveAt (update logs blk []) pos r ↔ LiveAt logs pos r := by
    unfold LiveAt
    rw [EntryAt.updated valid, EntryAt.split valid]
    constructor
    · rintro ⟨mem | elsewhere, normal⟩
      · cases mem
      · exact ⟨.inr elsewhere, normal⟩
    · rintro ⟨mem | elsewhere, normal⟩
      · exact absurd normal (dead pos r mem)
      · exact ⟨.inr elsewhere, normal⟩
  have has (key val : Bytes) : Has (update logs blk []) key val ↔ Has logs key val := by
    simp only [Has, same]
  refine ⟨⟨fun pos r pos' r' => ?_, fun key val => ?_⟩, fun key val bound => ?_⟩
  · rw [same, same]
    exact mapped.unique pos r pos' r'
  · rw [has]
    exact mapped.newest key val
  · rw [has]
    exact mapped.complete key val bound

/-- A key that can be read is that of a live item. -/
theorem Readable.live_of_reads (readable : Readable s logs) (reliable : s.Reliable)
    (reads : ReadsAs c s map) {key val : Bytes} (bound : map key = some val) :
    ∃ pos r, LiveAt logs pos r ∧ r.key = key := by
  have answered (s' : KvState) : s.Answered s' :=
    ⟨fun n _ _ => reliable.env n, fun n _ _ => reliable.flash n⟩
  have result := aosKvGet_spec readable key 1
  have same := reads key 1 Nat.one_pos (answered _)
  unfold getResult at same
  generalize aosKvGet c s key 1 = outcome at result same
  rw [KvMap.get, bound] at same
  cases result with
  | invalid none_ => cases none_
  | fault _ failed => exact absurd (answered _) failed
  | absent =>
    dsimp only at same
    split at same <;> cases same
  | long _ live hasKey => exact ⟨_, _, live, hasKey⟩
  | found _ live hasKey => exact ⟨_, _, live, hasKey⟩

/-- In every run in which nothing fails, and if the origin of no live item looks like another one,
`kv_init` preserves the store exactly if there is a clean block or no live item in the first
block. -/
theorem kvInit_preserves_iff {p : KvState × KvMap}
    (reach : ((kvMapped c).restrict fun p a => a.Succeeds c p.1).Reach p)
    (quiet : ∀ pos, ∀ r : Record c, NormalAt p.1.flash pos r → Quiet p.1.flash pos r)
    {env : Nat → Answer} {driver : Nat → Bool} (answers : ∀ n, (env n).ok = true)
    (accepts : ∀ n, driver n = true) :
    (∃ s', kvInit c (.fresh p.1.flash env driver) = (.ok, s') ∧ ReadsAs c p.1 p.2 ∧
        ReadsAs c s' p.2) ↔
      (∃ b < c.blkNums, p.1.flash (c.blkStart b + kvStateOff) = blkStateClean) ∨
        ∀ pos, ∀ r : Record c, NormalAt p.1.flash pos r → c.blkSize ≤ pos := by
  obtain ⟨logs, sound, -, mapped⟩ := Reach.mapped reach
  have small := c.blkNums_lt
  have two := c.two_le_blkNums
  have few := sound.cleanCount_lt
  have allQuiet (b : Nat) (valid : b < c.blkNums) : AllQuiet p.1.flash b (logs b) := by
    intro pos r mem normal
    have live : LiveAt logs pos r := ⟨⟨b, valid, mem⟩, normal⟩
    exact ⟨sound.checked pos r live, quiet pos r (sound.normalAt_iff.mpr live)⟩
  obtain ⟨t, scan, restored⟩ := initScan_restores (t := .fresh p.1.flash env driver)
    sound.readable rfl ⟨answers, accepts⟩ [] nodup_range (fun b => mem_range.mp)
    (show 0 + (range c.blkNums).length < 2 ^ 8 by rw [length_range]; omega) allQuiet
  have readable : Readable t logs := by
    refine sound.readable.congr restored.flash fun b valid => ?_
    rw [restored.info, if_pos (mem_range.mpr valid)]
  have count : t.cleanBlkNums = cleanCount c p.1 := restored.clean.trans (Nat.zero_add _)
  have before := mapped.reads sound.readable
  have clean_iff : (∃ b < c.blkNums, p.1.flash (c.blkStart b + kvStateOff) = blkStateClean) ↔
      t.cleanBlkNums ≠ 0 := by
    rw [count, cleanCount, ← Nat.pos_iff_ne_zero, countP_pos_iff]
    simp only [mem_range, decide_eq_true_eq]
    exact exists_congr fun b => and_congr_right fun valid => by rw [(sound.block b valid).state]
  unfold kvInit
  rw [scan, clean_iff]
  dsimp only [initUnclean]
  by_cases none_ : t.cleanBlkNums = 0
  · have reliable := restored.reliable
    rw [if_pos none_, reliable.flash.kvBlockFormat_eq, or_iff_right (not_not.mpr none_)]
    have one : (t.formatted c 0).cleanBlkNums = 1 := by
      show (t.cleanBlkNums + 1) % 2 ^ 8 = 1
      omega
    have after := initStart_readable (readable.formatted 0) (by omega)
    -- the items of the first block are those before its end
    have first {b pos : Nat} {r : Record c} (valid : b < c.blkNums)
        (mem : (pos, .item r) ∈ placed (c.blkStart b + blkHdrSize) (logs b)) :
        pos < c.blkSize ↔ b = 0 := by
      have div := sound.fits.blkOf_eq valid mem
      have positive := c.blkSize_pos
      rw [← div, Nat.div_eq_zero_iff]
      omega
    constructor
    · rintro ⟨_, ⟨⟩, -, reads⟩ pos r normalAt
      by_contra low
      have live := sound.normalAt_iff.mp normalAt
      have started : (initStart c (t.formatted c 0)).Reliable := by
        obtain ⟨place, eq⟩ := initPosition_eq (c := c) (t := t.formatted c 0) (range c.blkNums)
        rw [initStart, if_neg (by omega), eq]
        exact ⟨reliable.env, reliable.flash⟩
      obtain ⟨pos', r', live', hasKey⟩ := after.live_of_reads started reads
        (mapped.newest r.key r.val ⟨pos, r, live, rfl, rfl⟩)
      obtain ⟨⟨b, valid, mem⟩, normal⟩ := live'
      by_cases zero : b = 0
      · subst zero
        rw [update_self] at mem
        cases mem
      · rw [update_of_ne zero] at mem
        have same := mapped.unique pos r pos' r' live ⟨⟨b, valid, mem⟩, normal⟩ hasKey.symm
        exact zero ((first valid mem).mp (same ▸ Nat.not_le.mp low))
    · intro behind
      have dead (pos : Nat) (r : Record c)
          (mem : (pos, .item r) ∈ placed (c.blkStart 0 + blkHdrSize) (logs 0)) : ¬ r.Normal := by
        intro normal
        have live : LiveAt logs pos r := ⟨⟨0, by omega, mem⟩, normal⟩
        have far := behind pos r (sound.normalAt_iff.mpr live)
        exact absurd ((first (by omega) mem).mpr rfl) (Nat.not_lt.mpr far)
      exact ⟨_, rfl, before, (mapped.emptied (by omega) dead).reads after⟩
  · rw [if_neg none_]
    exact iff_of_true ⟨_, rfl, before, mapped.reads (initStart_readable readable (by omega))⟩
      (.inl none_)

/-- No byte at the origin of an item that has been written is the start of an item. -/
theorem quiet_of_written (sound : Sound s logs)
    (none_ : ∀ b < c.blkNums, ∀ place ∈ itemWrites c b s.ops,
      s.flash (ItemHdr.ofBytes c (s.flash.readBytes place.1 c.itemHdrSize)).originOff ≠
        itemMagicNum)
    (pos : Nat) (r : Record c) (normal : NormalAt s.flash pos r) : Quiet s.flash pos r := by
  obtain ⟨⟨b, valid, mem⟩, -⟩ := sound.normalAt_iff.mp normal
  obtain ⟨before, after, eq, rfl⟩ := mem_placed.mp mem
  have at_ := (eq ▸ (sound.block b valid).holds :
    Holds s.flash b (before ++ .item r :: after)).entry
  have written : (logEnd b before, r.size) ∈ itemWrites c b s.ops := by
    rw [sound.written b valid]
    exact mem_map.mpr ⟨_, mem, rfl⟩
  have differs := none_ b valid _ written
  rw [at_.1, r.ofBytes_hdr] at differs
  exact fun _ _ resembles => differs resembles.1

/-! ## Runs -/

/-- The item of the key that was set twice has an origin, in a block that has been erased. -/
theorem kvInit_preserves_collected : ∃ s',
    kvInit smallConf (.fresh collectedRun.1.flash allOk fun _ => true) = (.ok, s') ∧
      ReadsAs smallConf collectedRun.1 collectedRun.2 ∧ ReadsAs smallConf s' collectedRun.2 := by
  have reach : ((kvMapped smallConf).restrict fun p a => a.Succeeds smallConf p.1).Reach
      collectedRun := smallMapped_reach.run (by decide +kernel)
  obtain ⟨logs, sound, -⟩ := Reach.mapped reach
  exact (kvInit_preserves_iff reach (quiet_of_written sound (by decide +kernel)) (fun _ => rfl)
    fun _ => rfl).mpr (.inl ⟨0, by decide +kernel⟩)

/-- Five keys fill the blocks, and the last clean block is taken. -/
def fullRun : KvState × KvMap :=
  (kvMapped smallConf).run (smallStart allOk, fun _ => none) [.set [107] [1], .set [108] [2],
    .set [109] [3], .set [110] [4], .gc, .set [111] [5]]

/-- There is no clean block, so that the first one is formatted, with two live items. -/
theorem not_kvInit_preserves : ¬ ∀ (c : Conf) (p : KvState × KvMap),
    ((kvMapped c).restrict fun p a => a.Succeeds c p.1).Reach p →
      ∀ (env : Nat → Answer) (driver : Nat → Bool), (∀ n, (env n).ok = true) →
        (∀ n, driver n = true) → ∃ s', kvInit c (.fresh p.1.flash env driver) = (.ok, s') ∧
          ReadsAs c p.1 p.2 ∧ ReadsAs c s' p.2 := by
  intro preserves
  obtain ⟨s', init, -, reads⟩ := preserves smallConf fullRun
    (smallMapped_reach.run (by decide +kernel)) allOk (fun _ => true) (fun _ => rfl) fun _ => rfl
  have is : (kvInit smallConf (.fresh fullRun.1.flash allOk fun _ => true)).2 = s' :=
    congrArg Prod.snd init
  rw [← is] at reads
  have lost := reads [107] 8 (by decide) (by decide +kernel)
  exact absurd lost (by decide +kernel)

end AliosThings.Kv
