import AliosThings.Kv.Traverse

/-!
# Stores

The invariant of the key-value store: every block holds a log and the manager knows its state and
its space. The live items are given by their positions; the operations are described by what they
do to the live items.
-/

namespace AliosThings.Kv

open List Function

variable {c : Conf}

/-- The entries of each block. -/
abbrev Logs (c : Conf) := Nat → List (Entry c)

/-- The entry at a position. -/
def EntryAt (logs : Logs c) (pos : Nat) (e : Entry c) : Prop :=
  ∃ blk < c.blkNums, (pos, e) ∈ placed (c.blkStart blk + blkHdrSize) (logs blk)

/-- The live item at a position. -/
def LiveAt (logs : Logs c) (pos : Nat) (r : Record c) : Prop :=
  EntryAt logs pos (.item r) ∧ r.Normal

/-- A block that is in use and has no dead entry, or is not in use or dirty. -/
def Tidy (s : KvState) (blk : Nat) (log : List (Entry c)) : Prop :=
  (s.blockInfo blk).state = blkStateUsed → ∀ e ∈ log, e.Live

/-- The recorded space is the one behind the entries. -/
def SpaceOk (s : KvState) (blk : Nat) (log : List (Entry c)) : Prop :=
  (s.blockInfo blk).space = c.blkStart blk + c.blkSize - logEnd blk log

/-- What the manager and the flash say of a block. -/
structure BlockOk (s : KvState) (blk : Nat) (log : List (Entry c)) : Prop where
  magic : s.flash (c.blkStart blk) = blkMagicNum
  state : s.flash (c.blkStart blk + kvStateOff) = (s.blockInfo blk).state
  known : invalidBlkState (s.blockInfo blk).state = false
  holds : Holds s.flash blk log
  space : SpaceOk s blk log
  clean : (s.blockInfo blk).state = blkStateClean → log = []

/-- Items are written behind the entries of a block in use. -/
def Writing (s : KvState) (logs : Logs c) (blk : Nat) : Prop :=
  blk < c.blkNums ∧ (s.blockInfo blk).state ≠ blkStateClean ∧ s.writePos = logEnd blk (logs blk)

/-- The number of blocks in state CLEAN. -/
def cleanCount (c : Conf) (s : KvState) : Nat :=
  (range c.blkNums).countP fun blk => (s.blockInfo blk).state = blkStateClean

/-- Where items have been written to a block since it was last erased, and how long they are. The
writes of a block header and of a state are shorter than an item. -/
def itemWrites (c : Conf) (blk : Nat) (ops : List FlashOp) : List (Nat × Nat) :=
  ops.foldl (fun acc op =>
    match op with
    | .erase a _ => if a = c.blkStart blk then [] else acc
    | .write a bs =>
      if blkHdrSize < bs.length ∧ a / c.blkSize = blk then acc ++ [(a, bs.length)] else acc) []

/-- Every block holds its log, and the manager knows it. -/
structure Layout (s : KvState) (logs : Logs c) : Prop where
  block : ∀ blk < c.blkNums, BlockOk s blk (logs blk)
  checked : ∀ pos r, LiveAt logs pos r → r.Checked
  writing : ∃ blk, Writing s logs blk
  count : s.cleanBlkNums = cleanCount c s
  written : ∀ blk < c.blkNums, itemWrites c blk s.ops = extents blk (logs blk)

/-- What lookups need: every block holds its log, and the manager knows its state and its space. -/
structure Readable (s : KvState) (logs : Logs c) : Prop where
  block : ∀ blk < c.blkNums, BlockOk s blk (logs blk)
  tidy : ∀ blk < c.blkNums, Tidy s blk (logs blk)

/-- The invariant of the store. -/
structure Sound (s : KvState) (logs : Logs c) : Prop extends Layout s logs where
  tidy : ∀ blk < c.blkNums, Tidy s blk (logs blk)

theorem Sound.readable {s : KvState} {logs : Logs c} (sound : Sound s logs) : Readable s logs :=
  ⟨sound.block, sound.tidy⟩

/-- No key has two live items. -/
def Unique (logs : Logs c) : Prop :=
  ∀ pos r pos' r', LiveAt logs pos r → LiveAt logs pos' r' → r.key = r'.key → pos = pos'

/-! ## Positions -/

variable {s s' t u : KvState} {logs : Logs c} {log before after : List (Entry c)}
  {r r' : Record c} {blk pos : Nat} {e e' : Entry c}

/-- Every block has room for its entries. -/
def Fits (logs : Logs c) : Prop :=
  ∀ blk < c.blkNums, logEnd blk (logs blk) < c.blkStart blk + c.blkSize

theorem Layout.fits (layout : Layout s logs) : Fits logs :=
  fun blk valid => (layout.block blk valid).holds.fits

/-- The block of an entry is the one of its position. -/
theorem Fits.blkOf_eq (fits : Fits logs) (valid : blk < c.blkNums)
    (mem : (pos, e) ∈ placed (c.blkStart blk + blkHdrSize) (logs blk)) : pos / c.blkSize = blk := by
  have room := fits blk valid
  have inside := le_of_mem_placed mem
  unfold logEnd at room
  exact (c.blkOf_eq valid (by omega) (by omega)).1

/-- A place has one entry. -/
theorem EntryAt.unique (fits : Fits logs) (here : EntryAt logs pos e)
    (there : EntryAt logs pos e') : e = e' := by
  obtain ⟨blk, valid, mem⟩ := here
  obtain ⟨blk', valid', mem'⟩ := there
  obtain rfl : blk = blk' := (fits.blkOf_eq valid mem).symm.trans (fits.blkOf_eq valid' mem')
  exact placed_unique mem mem'

/-- One block gets another log. -/
theorem EntryAt.updated (valid : blk < c.blkNums) : EntryAt (update logs blk log) pos e ↔
      (pos, e) ∈ placed (c.blkStart blk + blkHdrSize) log ∨ ∃ blk' < c.blkNums, blk' ≠ blk ∧
          (pos, e) ∈ placed (c.blkStart blk' + blkHdrSize) (logs blk') := by
  constructor
  · rintro ⟨blk', valid', mem⟩
    by_cases same : blk' = blk
    · subst same
      rw [update_self] at mem
      exact .inl mem
    · rw [update_of_ne same] at mem
      exact .inr ⟨blk', valid', same, mem⟩
  · rintro (mem | ⟨blk', valid', other, mem⟩)
    · exact ⟨blk, valid, by rwa [update_self]⟩
    · exact ⟨blk', valid', by rwa [update_of_ne other]⟩

/-- The entries of one block and those of the others. -/
theorem EntryAt.split (valid : blk < c.blkNums) :
    EntryAt logs pos e ↔ (pos, e) ∈ placed (c.blkStart blk + blkHdrSize) (logs blk) ∨
      ∃ blk' < c.blkNums, blk' ≠ blk ∧
        (pos, e) ∈ placed (c.blkStart blk' + blkHdrSize) (logs blk') := by
  have same : EntryAt (update logs blk (logs blk)) pos e ↔ _ := EntryAt.updated valid
  rwa [update_eq_self] at same

/-- An entry is added to a block. -/
theorem EntryAt.append (valid : blk < c.blkNums) :
    EntryAt (update logs blk (logs blk ++ [e'])) pos e ↔
      EntryAt logs pos e ∨ pos = logEnd blk (logs blk) ∧ e = e' := by
  rw [EntryAt.updated valid, EntryAt.split valid, placed_append]
  simp only [placed, mem_append, mem_singleton, Prod.mk.injEq, logEnd]
  exact or_right_comm

theorem LiveAt.append (valid : blk < c.blkNums) :
    LiveAt (update logs blk (logs blk ++ [.item r'])) pos r ↔
      LiveAt logs pos r ∨ pos = logEnd blk (logs blk) ∧ r = r' ∧ r.Normal := by
  unfold LiveAt
  rw [EntryAt.append valid, Entry.item.injEq]
  tauto

/-- An item of a log is marked as deleted. -/
theorem LiveAt.delete (fits : Fits logs) (valid : blk < c.blkNums)
    (eq : logs blk = before ++ .item r' :: after) :
    LiveAt (update logs blk (before ++ .item (r'.withState itemStateDelete) :: after))
      pos r ↔ LiveAt logs pos r ∧ pos ≠ logEnd blk before := by
  have here : (logEnd blk before, Entry.item r') ∈
      placed (c.blkStart blk + blkHdrSize) (logs blk) := mem_placed.mpr ⟨before, after, eq, rfl⟩
  have dead : ¬ (r'.withState itemStateDelete).Normal :=
    show ¬ itemStateDelete = itemStateNormal by decide
  have big := r'.itemHdrSize_lt_size
  have hdr := c.le_itemHdrSize
  have elsewhere {blk' : Nat} {e : Entry c} (valid' : blk' < c.blkNums) (other : blk' ≠ blk)
      (mem : (pos, e) ∈ placed (c.blkStart blk' + blkHdrSize) (logs blk')) :
      pos ≠ logEnd blk before := by
    rintro rfl
    exact other ((fits.blkOf_eq valid' mem).symm.trans (fits.blkOf_eq valid here))
  unfold LiveAt
  rw [EntryAt.updated valid, EntryAt.split valid, eq, placed_append, placed_append]
  simp only [placed, mem_append, mem_cons, Prod.mk.injEq, Entry.item.injEq, Entry.size,
    Record.withState_size]
  constructor
  · rintro ⟨(mem | ⟨-, rfl⟩ | mem) | ⟨blk', valid', other, mem⟩, normal⟩
    · have low := le_of_mem_placed mem
      have size := (Entry.item r).size_pos
      exact ⟨⟨.inl (.inl mem), normal⟩, by unfold logEnd; omega⟩
    · exact absurd normal dead
    · have high := (le_of_mem_placed mem).1
      exact ⟨⟨.inl (.inr (.inr mem)), normal⟩, by unfold logEnd; omega⟩
    · exact ⟨⟨.inr ⟨blk', valid', other, mem⟩, normal⟩, elsewhere valid' other mem⟩
  · rintro ⟨⟨(mem | ⟨rfl, rfl⟩ | mem) | ⟨blk', valid', other, mem⟩, normal⟩, away⟩
    · exact ⟨.inl (.inl mem), normal⟩
    · exact absurd rfl away
    · exact ⟨.inl (.inr (.inr mem)), normal⟩
    · exact ⟨.inr ⟨blk', valid', other, mem⟩, normal⟩

/-- The live items of the logs are the ones in the flash. -/
theorem Layout.normalAt_iff (layout : Layout s logs) :
    NormalAt s.flash pos r ↔ LiveAt logs pos r := by
  constructor
  · rintro ⟨blk, valid, log, holds, mem, normal⟩
    rw [holds.unique (layout.block blk valid).holds] at mem
    exact ⟨⟨blk, valid, mem⟩, normal⟩
  · rintro ⟨⟨blk, valid, mem⟩, normal⟩
    exact ⟨blk, valid, logs blk, (layout.block blk valid).holds, mem, normal⟩

/-! ## Looking for a key -/

/-- A block with a dead entry is dirty already. -/
theorem Tidy.markDirty_eq (tidy : Tidy s blk log) (mem : e ∈ log) (dead : ¬ e.Live) :
    markDirty c s blk = s :=
  if_neg fun used => dead (tidy used e mem)

theorem recordSpace_eq (space : SpaceOk s blk log)
    (fits : logEnd blk log < c.blkStart blk + c.blkSize) :
    recordSpace c s blk (logEnd blk log) = s := by
  unfold recordSpace KvState.setBlkSpace
  simp only [if_pos fits]
  rw [← space]
  simp

/-- The item with its bytes. -/
def Record.foundAt (r : Record c) (pos : Nat) : KvItem :=
  { r.itemAt pos with store := some (r.key ++ r.val) }

/-- Only answers have been taken. -/
def OnlyAsked (s s' : KvState) : Prop := ∃ n, s' = s.later n

theorem OnlyAsked.rfl : OnlyAsked s s := ⟨0, Eq.refl _⟩

theorem OnlyAsked.trans (first : OnlyAsked s t) (second : OnlyAsked t u) : OnlyAsked s u := by
  obtain ⟨m, rfl⟩ := first
  obtain ⟨n, rfl⟩ := second
  exact ⟨m + n, s.later_later m n⟩

theorem OnlyAsked.precedes (only : OnlyAsked s s') : s.Precedes s' := by
  obtain ⟨n, rfl⟩ := only
  exact .later n

variable {key : Bytes}

/-- The callback finds the item with the key. -/
theorem itemFindCb_visit (at_ : (Entry.item r).At s.flash pos) (key : Bytes) :
    Visit s (itemFindCb c s (r.itemAt pos) key) (fun s' => OnlyAsked s s' ∧ r.key ≠ key)
      (fun item s' => OnlyAsked s s' ∧ r.key = key ∧ item = r.foundAt pos)
      (OnlyAsked s) := by
  have keyLen : (r.itemAt pos).hdr.keyLen.toNat = r.key.length := r.hdr_keyLen
  have valLen : (r.itemAt pos).hdr.valLen = r.val.length := rfl
  unfold itemFindCb
  rw [keyLen, valLen]
  by_cases same : r.key.length = key.length
  · rw [if_neg (not_not.mpr same), s.osMalloc_eq]
    cases first : (s.env s.asked).ok
    case false =>
      exact ⟨.later 1, nofun, nofun, fun _ _ => ⟨KvState.not_answered_later first, 1, rfl⟩⟩
    dsimp only
    rw [(s.later 1).partitionRead_eq, s.later_later]
    have flash : (s.later 1).flash = s.flash := rfl
    have place : (r.itemAt pos).pos = pos := rfl
    cases second : ((s.later 1).env (s.later 1).asked).ok
    case false =>
      exact ⟨.later 2, nofun, nofun, fun _ _ => ⟨KvState.not_answered_later second, 2, rfl⟩⟩
    simp only [if_true, flash, length_map, length_range, place, at_.2]
    rw [← same, take_left]
    by_cases eq : r.key = key
    · rw [if_pos eq]
      exact ⟨.later 2, nofun, fun _ => ⟨⟨2, rfl⟩, eq, rfl⟩, fun _ no => absurd rfl no⟩
    · rw [if_neg eq]
      exact ⟨.later 2, fun _ => ⟨⟨2, rfl⟩, eq⟩, nofun, fun no => absurd rfl no⟩
  · rw [if_pos same]
    exact ⟨.rfl, fun _ => ⟨⟨0, rfl⟩, fun eq => same (congrArg length eq)⟩, nofun,
      fun no => absurd rfl no⟩

/-- A scan with a callback that only reads. `Passed` holds of the items that it goes on from, and
`Found` of the one that it ends at. -/
theorem reading_rule (func : ItemFunc) (key : Bytes) (Passed : Record c → Prop)
    (Found : Nat → Record c → KvItem → Prop) (holds : Holds s.flash blk log)
    (tidy : Tidy s blk log) (valid : blk < c.blkNums)
    (visit : ∀ pos r n, (pos, .item r) ∈ placed (c.blkStart blk + blkHdrSize) log → r.Normal →
      (Entry.item r).At s.flash pos → Visit (s.later n) (func (s.later n) (r.itemAt pos) key)
        (fun s' => OnlyAsked (s.later n) s' ∧ Passed r)
        (fun item s' => OnlyAsked (s.later n) s' ∧ Found pos r item) (OnlyAsked (s.later n))) :
    ScanRule c func blk key (fun before after s' => OnlyAsked s s' ∧ log = before ++ after ∧
        ∀ r, .item r ∈ before → r.Normal → Passed r)
      (fun item s' => OnlyAsked s s' ∧ ∃ pos r,
        (pos, .item r) ∈ placed (c.blkStart blk + blkHdrSize) log ∧ r.Normal ∧ Found pos r item)
      (OnlyAsked s) where
  valid := valid
  holds := by
    rintro before after _ ⟨⟨n, rfl⟩, rfl, -⟩
    exact holds
  later := by
    rintro before after s' n ⟨only, rest⟩
    exact ⟨only.trans ⟨n, rfl⟩, rest⟩
  stop := fun _ _ _ now => now.1
  visit := by
    rintro before r after _ ⟨⟨n, rfl⟩, rfl, passed⟩ normal
    have here : (logEnd blk before, .item r) ∈ placed (c.blkStart blk + blkHdrSize) _ :=
      mem_placed.mpr ⟨before, after, rfl, rfl⟩
    have only : OnlyAsked s (s.later n) := ⟨n, rfl⟩
    have visit := visit _ r n here normal holds.entry
    refine ⟨visit.after, fun cont => ?_, fun found => ?_, fun no no' => ?_⟩
    · obtain ⟨asked, pass⟩ := visit.next cont
      refine ⟨before ++ [.item r], after, by simp [Entry.size], rfl, only.trans asked, by simp, ?_⟩
      intro r' mem normal'
      rcases mem_append.mp mem with old | new
      · exact passed r' old normal'
      · cases mem_singleton.mp new
        exact pass
    · obtain ⟨asked, found⟩ := visit.found found
      exact ⟨only.trans asked, _, r, here, normal, found⟩
    · exact ⟨(visit.stop no no').1, only.trans (visit.stop no no').2⟩
  pass := by
    rintro before e after _ ⟨⟨n, rfl⟩, rfl, passed⟩ dead
    have tidy' : Tidy (s.later n) blk (before ++ e :: after) := tidy
    rw [tidy'.markDirty_eq (by simp) dead]
    refine ⟨.rfl, ⟨n, rfl⟩, by simp, fun r mem normal => ?_⟩
    rcases mem_append.mp mem with old | new
    · exact passed r old normal
    · cases mem_singleton.mp new
      exact absurd normal dead

/-- The scan of one block for a key. -/
theorem kvItemTraverse_find (ok : BlockOk s blk log) (tidy : Tidy s blk log)
    (valid : blk < c.blkNums) (key : Bytes) : Scan s (fun item s' => OnlyAsked s s' ∧ ∃ pos r,
        (pos, .item r) ∈ placed (c.blkStart blk + blkHdrSize) log ∧ r.Normal ∧ r.key = key ∧
          item = r.foundAt pos)
      (OnlyAsked s)
      (fun s' => OnlyAsked s s' ∧ ∀ r, .item r ∈ log → r.Normal → r.key ≠ key)
      (kvItemTraverse c (itemFindCb c) s blk key) := by
  have start : OnlyAsked s s ∧ log = [] ++ log ∧
      ∀ r, Entry.item r ∈ ([] : List (Entry c)) → r.Normal → r.key ≠ key := ⟨.rfl, rfl, nofun⟩
  have rule := reading_rule (itemFindCb c) key (fun r => r.key ≠ key) _ ok.holds tidy valid
    fun pos r n _ _ at_ => itemFindCb_visit (s := s.later n) at_ key
  have scan := (rule.traverse start).scan
  generalize kvItemTraverse c (itemFindCb c) s blk key = result at scan
  cases scan with
  | found after found => exact .found after found
  | stopped after fault stop => exact .stopped after fault stop
  | complete _ ended =>
    obtain ⟨before, s', ⟨⟨n, rfl⟩, rfl, absent⟩, rfl⟩ := ended
    rw [append_nil] at ok
    have space : SpaceOk (s.later n) blk before := ok.space
    rw [recordSpace_eq space ok.holds.fits]
    exact .complete (.later n) ⟨⟨n, rfl⟩, by rwa [append_nil]⟩

/-- What a lookup returns. -/
structure Lookup (s : KvState) (logs : Logs c) (key : Bytes) (blks : List Nat)
    (result : Option KvItem × KvState) : Prop where
  only : OnlyAsked s result.2
  found : ∀ item, result.1 = some item → ∃ pos r, LiveAt logs pos r ∧ r.key = key ∧
    item = r.foundAt pos
  absent : result.1 = none → s.Answered result.2 →
    ∀ blk ∈ blks, ∀ r, .item r ∈ logs blk → r.Normal → r.key ≠ key

/-- The search goes through the blocks. -/
theorem itemGetLoop_spec (readable : Readable s logs) (key : Bytes) :
    ∀ (blks : List Nat) (s' : KvState), (∀ blk ∈ blks, blk < c.blkNums) → OnlyAsked s s' →
      Lookup s' logs key blks (itemGetLoop c key blks s') := by
  intro blks
  induction blks with
  | nil => exact fun s' _ _ => ⟨.rfl, nofun, fun _ _ => nofun⟩
  | cons blk rest ih =>
    intro s' valid only
    have validHere := valid blk mem_cons_self
    have ok : BlockOk s' blk (logs blk) := by
      obtain ⟨n, rfl⟩ := only
      obtain ⟨magic, state, known, holds, space, clean⟩ := readable.block blk validHere
      exact ⟨magic, state, known, holds, space, clean⟩
    have tidy : Tidy s' blk (logs blk) := by
      obtain ⟨n, rfl⟩ := only
      exact readable.tidy blk validHere
    -- The search goes on behind a block without the key.
    have next {s'' : KvState} (asked : OnlyAsked s' s'')
        (here : s'.Answered s'' → ∀ r, .item r ∈ logs blk → r.Normal → r.key ≠ key) :
        Lookup s' logs key (blk :: rest) (itemGetLoop c key rest s'') := by
      obtain ⟨only', found, absent⟩ :=
        ih s'' (fun blk' mem => valid blk' (mem_cons_of_mem _ mem)) (only.trans asked)
      refine ⟨asked.trans only', found, fun none_ answered blk' mem => ?_⟩
      rcases mem_cons.mp mem with rfl | later
      · exact here (answered.left only'.precedes)
      · exact absent none_ (answered.right asked.precedes) blk' later
    unfold itemGetLoop
    split
    case isTrue used =>
      have scan := kvItemTraverse_find ok tidy validHere key
      generalize kvItemTraverse c (itemFindCb c) s' blk key = result at scan
      cases scan with
      | found _ found =>
        obtain ⟨asked, pos, r, mem, normal, same, eq⟩ := found
        refine ⟨asked, fun item' is => ?_, nofun⟩
        cases is
        exact ⟨pos, r, ⟨⟨blk, validHere, mem⟩, normal⟩, same, eq⟩
      | stopped _ fault stop => exact next stop fun answered => absurd answered fault
      | complete _ ended => exact next ended.1 fun _ => ended.2
    case isFalse clean =>
      refine next .rfl fun _ r mem => ?_
      rw [ok.clean (not_not.mp clean)] at mem
      cases mem

/-- `kv_item_get` changes nothing; what it finds is a live item with the key, and if it finds none
although every call succeeds, there is none. -/
theorem kvItemGet_spec (readable : Readable s logs) (key : Bytes) :
    OnlyAsked s (kvItemGet c s key).2 ∧
      (∀ item, (kvItemGet c s key).1 = some item → ∃ pos r, LiveAt logs pos r ∧ r.key = key ∧
        item = r.foundAt pos) ∧
      ((kvItemGet c s key).1 = none → s.Answered (kvItemGet c s key).2 →
        ∀ pos r, LiveAt logs pos r → r.key ≠ key) := by
  have lookup := itemGetLoop_spec readable key (range c.blkNums) s
    (fun blk mem => mem_range.mp mem) .rfl
  refine ⟨lookup.only, lookup.found, fun none_ answered pos r live => ?_⟩
  obtain ⟨⟨blk, valid, mem⟩, normal⟩ := live
  obtain ⟨before, after, eq, -⟩ := mem_placed.mp mem
  exact lookup.absent none_ answered blk (mem_range.mpr valid) r (by simp [eq]) normal

end AliosThings.Kv
