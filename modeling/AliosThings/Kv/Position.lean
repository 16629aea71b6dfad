import AliosThings.Kv.RefinesMap

/-!
# Positions: the search for one, the reserve, and the scans

`kv_calc_position` looks at the present block first and then goes round the others. The index is
set back to 0 inside the body of the loop and compared with the start in its header, so a search
that starts at block 0 and finds no room passes its start without noticing. Every other search
ends, and looks at each block at most once; it also fails if a clean block cannot be marked.
-/

namespace AliosThings.Kv

open List Function
open Lib (System)

variable {c : Conf} {s : KvState} {len start blk : Nat}

/-- The blocks that the loop of `kv_calc_position` inspects, in order. -/
def inspected (c : Conf) (s : KvState) (len blkIdx : Nat) : Nat → Nat → List Nat
  | 0, _ => []
  | fuel + 1, i =>
    if i = blkIdx then []
    else
      let i := if i = c.blkNums then 0 else i
      i :: if len < (s.blockInfo i).space then []
        else inspected c s len blkIdx fuel ((i + 1) % 2 ^ 8)

/-- The blocks from `i` on to the start, in the direction of the search. -/
def blocksAhead (c : Conf) (start i : Nat) : List Nat :=
  if start < i then range' i (c.blkNums - i) ++ range start else range' i (start - i)

theorem blocksAhead_cons (inside : start < c.blkNums) {i : Nat} (valid : i ≤ c.blkNums)
    (differ : i ≠ start) (behind : i = c.blkNums → start ≠ 0) :
    blocksAhead c start i = (if i = c.blkNums then 0 else i) ::
      blocksAhead c start ((if i = c.blkNums then 0 else i) + 1) := by
  unfold blocksAhead
  by_cases last : i = c.blkNums
  · obtain ⟨n, rfl⟩ := Nat.exists_eq_succ_of_ne_zero (behind last)
    rw [if_pos (by omega), if_pos last, if_neg (by omega), last, Nat.sub_self, range_eq_range']
    rfl
  rw [if_neg last]
  by_cases after : start < i
  · rw [if_pos after, if_pos (by omega), ← Nat.sub_add_cancel (show 1 ≤ c.blkNums - i by omega),
      range'_succ, Nat.sub_add_eq]
    rfl
  · rw [if_neg after, if_neg (by omega), ← Nat.sub_add_cancel (show 1 ≤ start - i by omega),
      range'_succ, Nat.sub_add_eq]

/-- The first block of a list that has room. -/
def firstRoom (s : KvState) (len : Nat) (blocks : List Nat) : Option Nat :=
  blocks.find? fun blk => len < (s.blockInfo blk).space

variable (s len) in
/-- A search that does not start at block 0, or that has a block with room ahead, takes the first
one with room, and it looks at no block twice. -/
theorem calcPositionLoop_ends (inside : start < c.blkNums) (fuel i : Nat) (valid : i ≤ c.blkNums)
    (enough : (blocksAhead c start i).length < fuel)
    (ends : start = 0 → firstRoom s len (blocksAhead c start i) ≠ none) :
    (inspected c s len start fuel i).Sublist (blocksAhead c start i) ∧
      calcPositionLoop c len start fuel i s =
        some (((firstRoom s len (blocksAhead c start i)).map (takeBlock c s)).getD
          (0, kvTriggerGc s)) := by
  induction fuel generalizing i with
  | zero => omega
  | succ fuel ih =>
    unfold inspected calcPositionLoop
    by_cases back : i = start
    · rw [if_pos back, if_pos back, back]
      simp [blocksAhead, firstRoom]
    rw [if_neg back, if_neg back]
    dsimp only
    have behind : i = c.blkNums → start ≠ 0 := by
      rintro rfl rfl
      exact ends rfl (by simp [blocksAhead, firstRoom])
    have small := c.blkNums_lt
    rw [blocksAhead_cons inside valid back behind] at enough ends ⊢
    generalize reset : (if i = c.blkNums then 0 else i) = j at *
    have bound : j < c.blkNums := by
      subst reset
      split <;> omega
    have next : (j + 1) % 2 ^ 8 = j + 1 := Nat.mod_eq_of_lt (by omega)
    by_cases room : len < (s.blockInfo j).space
    · rw [if_pos room, if_pos room]
      simp [firstRoom, room]
    · have skips (blocks : List Nat) : firstRoom s len (j :: blocks) = firstRoom s len blocks :=
        find?_cons_of_neg (by simpa using room)
      rw [skips] at ends ⊢
      rw [if_neg room, if_neg room, next]
      obtain ⟨part, result⟩ := ih (j + 1) bound (by simpa using enough) ends
      exact ⟨part.cons_cons j, result⟩

/-- A search from block 0 that finds no room goes on for ever. -/
theorem calcPositionLoop_endless (full : ∀ blk < c.blkNums, (s.blockInfo blk).space ≤ len)
    (fuel i : Nat) (positive : 0 < i) (valid : i ≤ c.blkNums) :
    calcPositionLoop c len 0 fuel i s = none := by
  induction fuel generalizing i with
  | zero => rfl
  | succ fuel ih =>
    have small := c.blkNums_lt
    unfold calcPositionLoop
    rw [if_neg (by omega)]
    generalize reset : (if i = c.blkNums then 0 else i) = j
    have bound : j < c.blkNums := by
      subst reset
      split <;> omega
    have tight := full j bound
    rw [if_neg (by omega), Nat.mod_eq_of_lt (by omega)]
    exact ih (j + 1) (by omega) bound

/-- The write position is in the partition and not in its first header, and no recorded space is
larger than what a block has behind its header. -/
structure Recorded (c : Conf) (s : KvState) : Prop where
  positive : 0 < s.writePos
  inside : c.blkOf s.writePos < c.blkNums
  space : ∀ blk < c.blkNums, (s.blockInfo blk).space ≤ c.blkSize - blkHdrSize

/-- A block is taken at a position inside it, unless the driver refuses to mark a clean one. -/
theorem takeBlock_position (recorded : Recorded c s) (valid : blk < c.blkNums)
    (room : len < (s.blockInfo blk).space) :
    if (s.blockInfo blk).state = blkStateClean ∧ s.driver s.driven = false then
      (takeBlock c s blk).1 = 0
    else c.blkOf (takeBlock c s blk).1 = blk ∧ 0 < (takeBlock c s blk).1 := by
  have stop := c.blkEnd_le valid
  have small := c.totalSize_lt
  have space := recorded.space blk valid
  have header : blkHdrSize = 4 := rfl
  have inside : c.blkOf (c.blkStart blk + c.blkSize - (s.blockInfo blk).space) = blk ∧
      0 < c.blkStart blk + c.blkSize - (s.blockInfo blk).space :=
    ⟨(c.blkOf_eq valid (by omega) (by omega)).2, by omega⟩
  unfold takeBlock
  dsimp only
  rw [Nat.mod_eq_of_lt (by omega)]
  unfold kvStateSet KvState.partitionWrite KvState.perform
  by_cases clean : (s.blockInfo blk).state = blkStateClean
  · cases writes : s.driver s.driven with
    | false => simp [clean]
    | true => simpa [clean, writes] using inside
  · simpa [clean] using inside

/-- The blocks that `kv_calc_position` inspects, in order. -/
def blocksInspected (c : Conf) (s : KvState) (len : Nat) : List Nat :=
  let blkIdx := c.blkOf s.writePos
  blkIdx :: if len < (s.blockInfo blkIdx).space then []
    else inspected c s len blkIdx 512 ((blkIdx + 1) % 2 ^ 8)

/-- The blocks of the partition from the present one on, round its end. -/
def blocksFrom (c : Conf) (s : KvState) : List Nat :=
  c.blkOf s.writePos :: blocksAhead c (c.blkOf s.writePos) (c.blkOf s.writePos + 1)

theorem mem_blocksFrom (inside : c.blkOf s.writePos < c.blkNums) :
    blk ∈ blocksFrom c s ↔ blk < c.blkNums := by
  simp only [blocksFrom, blocksAhead, if_pos (Nat.lt_succ_self _), mem_cons, mem_append,
    mem_range'_1, mem_range]
  omega

theorem nodup_blocksFrom : (blocksFrom c s).Nodup := by
  simp only [blocksFrom, blocksAhead, if_pos (Nat.lt_succ_self _), nodup_cons, nodup_append,
    mem_append, mem_range'_1, mem_range]
  exact ⟨by omega, nodup_range', nodup_range, fun _ _ _ _ => by omega⟩

/-- If the present block has no room, then some block has it or the present one is not the first;
and if the first one with room is clean, the driver marks it. -/
def CanMove (c : Conf) (s : KvState) (len : Nat) : Prop :=
  (firstRoom s len (blocksFrom c s) = none → c.blkOf s.writePos ≠ 0) ∧
    ∀ blk ∈ firstRoom s len (blocksFrom c s), blk ≠ c.blkOf s.writePos →
      (s.blockInfo blk).state = blkStateClean → s.driver s.driven = true
  deriving Decidable

variable {a : KvCall}

/-- A call of `aos_kv_set` has a key that is not empty, and does not leave the present block while
only the reserved blocks are clean. -/
def KvCall.KeepsReserve (c : Conf) (s : KvState) : KvCall → Prop
  | .set key val =>
    key ≠ [] ∧ (Leaves c s (itemSize c key val) → kvGcReserved < s.cleanBlkNums)
  | _ => True

instance (s : KvState) (len : Nat) : Decidable (Leaves c s len) :=
  inferInstanceAs (Decidable (_ ≤ _ ∧ _))

instance (s : KvState) (a : KvCall) : Decidable (a.KeepsReserve c s) := by
  rcases a <;> unfold KvCall.KeepsReserve <;> infer_instance

theorem KvCall.KeepsReserve.keyed {s : KvState} (keeps : a.KeepsReserve c s) : a.Keyed := by
  cases a with
  | set => exact keeps.1
  | _ => trivial

/-- One step keeps the reserve. -/
theorem Change.reserve {s s' : KvState} {logs logs' : Logs c}
    (change : Change c s logs a s' logs') (keeps : a.KeepsReserve c s)
    (reserved : kvGcReserved ≤ s.cleanBlkNums) : kvGcReserved ≤ s'.cleanBlkNums := by
  cases change with
  | nothing clean | fewer _ clean => rwa [clean]
  | @set key val _ _ old new r ok hasKey hasVal replaced found absent clean =>
    rcases clean with same | ⟨leaves, less⟩
    · rwa [same]
    have size : r.size = itemSize c key val := by
      rw [← hasKey, ← hasVal]
      rfl
    rw [size] at leaves
    have more := keeps.2 leaves
    omega
  | gc gced =>
    rw [gced.clean]
    exact reserved

theorem Reach.reserve {s : KvState}
    (reach : ((kvSystem c).restrict fun s a => a.KeepsReserve c s).Reach s) :
    ∃ logs : Logs c, Sound s logs ∧ s.FlashOk ∧ kvGcReserved ≤ s.cleanBlkNums := by
  refine reach.invariant
    (P := fun s => ∃ logs : Logs c, Sound s logs ∧ s.FlashOk ∧ kvGcReserved ≤ s.cleanBlkNums) ?_ ?_
  · intro s init
    obtain ⟨sound, flashOk, clean⟩ := kvSystem_init init
    have two := c.two_le_blkNums
    refine ⟨_, sound, flashOk, ?_⟩
    unfold kvGcReserved
    omega
  · rintro s a ⟨logs, sound, flashOk, reserved⟩ ⟨may, keeps⟩
    obtain ⟨logs', sound', flashOk', change, -⟩ := kvSystem_step sound flashOk may keeps.keyed
    exact ⟨logs', sound', flashOk', change.reserve keeps reserved⟩

/-! ### Room after a collection -/

variable {logs : Logs c} {key val : Bytes}

/-- An item that fits in the present block is stored, if no call fails. -/
theorem aosKvSet_ok (sound : Sound s logs) (flashOk : s.FlashOk)
    (answers : ∀ n, s.asked ≤ n → (s.env n).ok = true) (keyPos : key ≠ []) (keyStr : 0 ∉ key)
    (accepted : Accepted key val) (room : ¬ Tight c s (itemSize c key val)) :
    ∃ s', aosKvSet c s key val = some (.ok, s') := by
  have answered (s' : KvState) : s.Answered s' :=
    ⟨fun n low _ => answers n low, fun n _ _ => flashOk n⟩
  have result := aosKvSet_spec sound flashOk keyPos keyStr val
  generalize aosKvSet c s key val = outcome at result
  cases result with
  | endless tight => exact absurd tight room
  | @unchanged res s' _ _ _ _ cause =>
    by_cases ok : res = .ok
    · exact ⟨s', by rw [ok]⟩
    · exact absurd (cause ok accepted (answered s')) room
  | @replaced s' => exact ⟨s', rfl⟩

/-- The present block after a collection has the space that the live items leave. -/
theorem kvGcTask_not_tight (sound : Sound s logs) (flashOk : s.FlashOk) {gcIdx blk len : Nat}
    (choice : gcChoice c s = some (gcIdx, blk))
    (fits : blkHdrSize + logSize (liveOf (logs blk)) + len < c.blkSize) :
    ¬ Tight c (kvGcTask c s) len := by
  obtain ⟨before, after, split, -, sound', writing, -⟩ := kvGcTask_collects sound flashOk choice
  have block := writing.blkOf_eq sound'.fits
  have space : ((kvGcTask c s).blockInfo gcIdx).space = _ := (sound'.block gcIdx writing.1).space
  rw [collected_target (gcChoice_chosen choice)] at space
  rw [split, liveOf_append, logSize_append] at fits
  unfold Tight
  rw [block, space]
  unfold logEnd
  omega

/-- In every run whose calls keep the condition, the manager counts the clean blocks as they are in
the flash, and at least the reserved ones are clean. After a collection from such a state, and
while no call fails, `aos_kv_set` succeeds with every item that fits beside the live items of the
collected block. -/
theorem reserve_kept {s : KvState}
    (reach : ((kvSystem c).restrict fun s a => a.KeepsReserve c s).Reach s) :
    (s.cleanBlkNums = (range c.blkNums).countP (fun blk =>
        s.flash (c.blkStart blk + kvStateOff) = blkStateClean) ∧
      kvGcReserved ≤ s.cleanBlkNums) ∧
    ∀ gcIdx blk log, gcChoice c s = some (gcIdx, blk) → Holds s.flash blk (log : List (Entry c)) →
      (∀ n, s.asked ≤ n → (s.env n).ok = true) → ∀ key val, key ≠ [] → 0 ∉ key →
      Accepted key val → blkHdrSize + logSize (liveOf log) + itemSize c key val < c.blkSize →
      ∃ s', aosKvSet c (kvGcTask c s) key val = some (.ok, s') := by
  obtain ⟨logs, sound, flashOk, reserved⟩ := Reach.reserve reach
  refine ⟨⟨?_, reserved⟩, ?_⟩
  · rw [sound.count]
    refine countP_congr fun b mem => ?_
    rw [(sound.block b (mem_range.mp mem)).state]
  · intro gcIdx blk log choice holds answers key val keyPos keyStr accepted fits
    obtain ⟨logs', gced⟩ := kvGcTask_spec sound flashOk
    have valid := (gcChoice_chosen choice).validBlk
    rw [holds.unique (sound.block blk valid).holds] at fits
    refine aosKvSet_ok gced.sound (gced.after.flashOk flashOk) (fun n low => ?_) keyPos keyStr
      accepted (kvGcTask_not_tight sound flashOk choice fits)
    rw [gced.after.env]
    exact answers n (gced.after.asked.trans low)

/-- What the first block of the small partition holds when one of two items has been deleted. -/
def dirtyLog : List (Entry smallConf) :=
  let stored (key val : UInt8) (keyStr : 0 ∉ [key]) : Record smallConf :=
    storedRecord smallConf [key] [val] 0 Nat.one_pos (show 1 ≤ 128 by decide) keyStr Nat.one_pos
      (show 1 ≤ 512 by decide) (by decide)
  [.item (stored 107 1 (by decide)), .item ((stored 108 2 (by decide)).withState itemStateDelete)]

theorem dirtyLog_holds : Holds dirtyStart.flash 0 dirtyLog := by
  refine ⟨⟨⟨by decide +kernel, by decide +kernel⟩, ⟨by decide +kernel, by decide +kernel⟩, trivial⟩,
    by decide +kernel, fun x low high => ?_⟩
  have all : ∀ x < 32, 28 ≤ x → dirtyStart.flash x = 0xFF := by decide +kernel
  exact all x high low

/-- The deleted item makes room. -/
theorem reserve_kept_dirtyStart : kvGcReserved ≤ dirtyStart.cleanBlkNums ∧
    ∃ s', aosKvSet smallConf (kvGcTask smallConf dirtyStart) [109] [3] = some (.ok, s') := by
  have reach : ((kvSystem smallConf).restrict fun s a => a.KeepsReserve smallConf s).Reach
      dirtyStart := (smallStart_reach allOk _).run (by decide +kernel)
  have env : dirtyStart.env = allOk := rfl
  obtain ⟨⟨-, reserved⟩, room⟩ := reserve_kept reach
  refine ⟨reserved, room 1 0 dirtyLog (by decide +kernel) dirtyLog_holds
    (fun n _ => by rw [env]; rfl)
    [109] [3] (by decide) (by decide) ⟨by decide, by decide, by decide⟩ (by decide +kernel)⟩

/-- New keys fill the blocks one after the other. The collection that is triggered in between finds
no dirty block; then the last clean block is taken. -/
theorem not_reserve_kept : ¬ ∀ (c : Conf) (s : KvState),
    ((kvSystem c).restrict fun _ a => a.Keyed).Reach s → kvGcReserved ≤ s.cleanBlkNums := by
  intro reserve
  have reach : ((kvSystem smallConf).restrict fun _ a => a.Keyed).Reach
      ((kvSystem smallConf).run (smallStart allOk) [.set [107] [1], .set [108] [2], .set [109] [3],
        .set [110] [4], .gc, .set [111] [5]]) := (smallStart_reach allOk _).run (by decide +kernel)
  exact absurd (reserve smallConf _ reach) (by decide +kernel)

/-! ## The positions that a scan visits

Items are delimited by the lengths in their headers alone. An item with an empty key is refused by
the scan, which then looks for headers inside the item. -/

variable {w w' : Nat × Nat}

/-! ### Reading the items of a block -/

/-- A callback that only reads, and fails only if a call fails. -/
def ReadsOnly (func : ItemFunc) (key : Bytes) : Prop :=
  ∀ s item, Visit s (func s item key) (fun s' => OnlyAsked s s') (fun _ s' => OnlyAsked s s')
    (fun s' => OnlyAsked s s')

/-- The callback of lookups is one. -/
theorem itemFindCb_readsOnly (key : Bytes) : ReadsOnly (itemFindCb c) key := by
  intro s item
  unfold itemFindCb
  split
  · exact ⟨.rfl, fun _ => .rfl, nofun, fun no => absurd rfl no⟩
  rw [s.osMalloc_eq]
  cases first : (s.env s.asked).ok
  case false =>
    exact ⟨.later 1, nofun, nofun, fun _ _ => ⟨KvState.not_answered_later first, 1, rfl⟩⟩
  dsimp only
  rw [(s.later 1).partitionRead_eq, s.later_later]
  cases second : ((s.later 1).env (s.later 1).asked).ok with
  | false =>
    exact ⟨.later 2, nofun, nofun, fun _ _ =>
      ⟨KvState.not_answered_later second, 2, rfl⟩⟩
  | true =>
    simp only [if_true]
    split
    · exact ⟨.later 2, nofun, fun _ => ⟨2, rfl⟩, fun _ no => absurd rfl no⟩
    · exact ⟨.later 2, fun _ => ⟨2, rfl⟩, nofun, fun no => absurd rfl no⟩

/-- The end of the last item that has been written to a block. -/
def writesEnd (c : Conf) (blk : Nat) (writes : List (Nat × Nat)) : Nat :=
  match writes.getLast? with
  | none => c.blkStart blk + blkHdrSize
  | some (pos, len) => pos + len

theorem writesEnd_extents (blk : Nat) (log : List (Entry c)) :
    writesEnd c blk (extents blk log) = logEnd blk log := by
  rcases eq_nil_or_concat log with rfl | ⟨before, e, rfl⟩
  · rfl
  · rw [concat_eq_append, extents_concat, logEnd_concat, writesEnd, getLast?_concat]

/-- A scan of block `blk` from state `t` visits the items that were written up to state `s`, and
records the space behind the last one. -/
structure VisitsItems (c : Conf) (s t : KvState) (blk : Nat) (func : ItemFunc) (key : Bytes) :
    Prop where
  visits : VisitsOf t ((itemWrites c blk s.ops).map Prod.fst) (traverseVisits c func t blk key)
    (kvItemTraverse c func t blk key)
  space : (kvItemTraverse c func t blk key).1 = none →
    t.Answered (kvItemTraverse c func t blk key).2 →
    ((kvItemTraverse c func t blk key).2.blockInfo blk).space =
      c.blkStart blk + c.blkSize - writesEnd c blk (itemWrites c blk s.ops)

variable {t s' : KvState} {gcIdx pos b : Nat} {func : ItemFunc}

/-- A scan under a rule whose entries have the sizes of a log. -/
theorem ScanRule.visitsItems {P : List (Entry c) → List (Entry c) → KvState → Prop}
    {Found : KvItem → KvState → Prop} {Stop : KvState → Prop}
    (rule : ScanRule c func blk key P Found Stop) (layout : Layout s logs)
    (start : P [] (logs blk) t) (same : ∀ log s', P log [] s' → log = logs blk) :
    VisitsItems c s t blk func key := by
  have valid := rule.valid
  have fits := layout.fits blk valid
  obtain ⟨scan, visits⟩ := rule.traverse start
  refine ⟨?_, fun none_ answered => ?_⟩
  · rw [layout.written blk valid]
    exact visits
  · rw [layout.written blk valid, writesEnd_extents]
    generalize kvItemTraverse c func t blk key = result at scan none_ answered
    cases scan with
    | found => cases none_
    | stopped _ fault => exact absurd answered fault
    | complete _ ended =>
      obtain ⟨log, s', now, rfl⟩ := ended
      rw [same log s' now]
      unfold recordSpace KvState.setBlkSpace
      simp only [update_self, if_pos fits]

/-- A scan that only reads, from a state in which any space is recorded for the block. -/
theorem Sound.visitsItems (sound : Sound s logs) (valid : blk < c.blkNums)
    (reads : ReadsOnly func key) (space : Nat) :
    VisitsItems c s (s.setBlkSpace blk space) blk func key := by
  have tidy : Tidy (s.setBlkSpace blk space) blk (logs blk) := by
    have state : ((s.setBlkSpace blk space).blockInfo blk).state = (s.blockInfo blk).state := by
      show (update s.blockInfo blk _ blk).state = _
      rw [update_self]
    unfold Tidy
    rw [state]
    exact sound.tidy blk valid
  have holds : Holds (s.setBlkSpace blk space).flash blk (logs blk) := (sound.block blk valid).holds
  have rule := reading_rule func key (fun _ => True) (fun _ _ _ => True) holds tidy valid
    fun pos r n _ _ _ =>
      have visit := reads ((s.setBlkSpace blk space).later n) (r.itemAt pos)
      ⟨visit.after, fun cont => ⟨visit.next cont, trivial⟩,
        fun found => ⟨visit.found found, trivial⟩, visit.stop⟩
  refine rule.visitsItems sound.toLayout ⟨.rfl, rfl, fun _ _ _ => trivial⟩ fun log s' now => ?_
  rw [now.2.1, append_nil]

/-- The scan of a collection. -/
theorem Layout.visitsItems_gc (layout : Layout s logs) (choice : gcChoice c s = some (gcIdx, blk)) :
    VisitsItems c s (gcStart c s gcIdx) blk (itemGcCb c) [] := by
  have chosen := gcChoice_chosen choice
  refine (gc_rule layout chosen).visitsItems layout ⟨rfl, layout.copying chosen⟩
    fun log s' now => ?_
  rw [now.1, append_nil]

/-- Where an item has been written. -/
theorem Layout.mem_itemWrites (layout : Layout s logs) (valid : blk < c.blkNums)
    (mem : w ∈ itemWrites c blk s.ops) :
    ∃ before e after, logs blk = before ++ e :: after ∧ w = (logEnd blk before, e.size) := by
  rw [layout.written blk valid, extents, places] at mem
  obtain ⟨⟨pos, e⟩, here, rfl⟩ := mem_map.mp mem
  obtain ⟨before, after, eq, rfl⟩ := mem_placed.mp here
  exact ⟨before, e, after, eq, rfl⟩

/-- No item begins inside another one. -/
theorem Layout.itemWrites_apart (layout : Layout s logs) (valid : blk < c.blkNums)
    (mem : w ∈ itemWrites c blk s.ops) (mem' : w' ∈ itemWrites c blk s.ops) :
    ¬ (w.1 < w'.1 ∧ w'.1 < w.1 + w.2) := by
  obtain ⟨before, e, after, eq, rfl⟩ := layout.mem_itemWrites valid mem
  obtain ⟨before', e', after', eq', rfl⟩ := layout.mem_itemWrites valid mem'
  rintro ⟨behind, inside⟩
  dsimp only [logEnd] at behind inside
  -- One of the two parts of the log in front of the entries begins with the other one.
  rcases append_eq_append_iff.mp (eq.symm.trans eq') with ⟨l, first, second⟩ | ⟨l, first, second⟩
  · cases l with
    | nil =>
      rw [first, append_nil] at behind
      omega
    | cons x l =>
      obtain ⟨rfl, -⟩ := cons.inj second
      rw [first, logSize_append, logSize_cons] at inside
      omega
  · rw [first, logSize_append] at behind
    omega

/-- The position of the next item is behind all items of its block. -/
theorem kvCalcPosition_behind (sound : Sound s logs) (flashOk : s.FlashOk)
    (found : kvCalcPosition c s len = some (pos, s')) (positive : 0 < pos) (valid : b < c.blkNums)
    (mem : w ∈ itemWrites c b s.ops) : pos + len ≤ w.1 ∨ w.1 + w.2 ≤ pos := by
  obtain ⟨before, e, after, eq, rfl⟩ := sound.toLayout.mem_itemWrites valid mem
  have fits := sound.fits b valid
  have position := kvCalcPosition_spec sound flashOk len
  rw [found] at position
  rw [eq] at fits
  simp only [logEnd, logSize_append, logSize_cons] at fits ⊢
  cases position with
  | full => exact absurd positive (Nat.lt_irrefl 0)
  | @place _ blk after' sound' writing room clean =>
    have place := writing.2.2
    unfold logEnd at room place
    by_cases same : b = blk
    · rw [← same, eq, logSize_append, logSize_cons] at place
      omega
    · rcases c.blkStart_apart same with apart | apart
      · omega
      · omega

/-- The scans of a block visit its items and nothing else, the items lie apart, and the next one is
written beside them. -/
structure ScansItems (c : Conf) (s : KvState) (blk : Nat) : Prop where
  reads : ∀ func key, ReadsOnly func key → ∀ space,
    VisitsItems c s (s.setBlkSpace blk space) blk func key
  gc : ∀ gcIdx, gcChoice c s = some (gcIdx, blk) →
    VisitsItems c s (gcStart c s gcIdx) blk (itemGcCb c) []
  apart : ∀ w ∈ itemWrites c blk s.ops, ∀ w' ∈ itemWrites c blk s.ops,
    ¬ (w.1 < w'.1 ∧ w'.1 < w.1 + w.2)
  next : ∀ len pos s', kvCalcPosition c s len = some (pos, s') → 0 < pos →
    ∀ w ∈ itemWrites c blk s.ops, pos + len ≤ w.1 ∨ w.1 + w.2 ≤ pos

/-- In every run in which no empty key is set: a scan that only reads and the scan of a collection
visit the positions at which items were written, in order, and no position inside an item, whatever
the keys and values are; the space they record is the one behind the last item, and the next item
is written where no other one is. -/
theorem scans_items {s : KvState} (reach : ((kvSystem c).restrict fun _ a => a.Keyed).Reach s)
    {blk : Nat} (valid : blk < c.blkNums) : ScansItems c s blk := by
  obtain ⟨logs, sound, flashOk⟩ := Reach.sound reach
  exact ⟨fun func key reads space => sound.visitsItems valid reads space,
    fun gcIdx choice => sound.toLayout.visitsItems_gc choice,
    fun w mem w' mem' => sound.toLayout.itemWrites_apart valid mem mem',
    fun len pos s' found positive w mem =>
      kvCalcPosition_behind sound flashOk found positive valid mem⟩

/-! ### Values with headers inside, in the small partition -/

/-- The bytes of a whole item with key `k`. -/
def fakeItem : Bytes := [0x49, 0xEE, 0, 1, 1, 0, 0, 0, 107, 7]

/-- A value that holds a whole item, under a key that is not empty. -/
theorem scans_items_fakeItem :
    ScansItems smallConf ((kvSystem smallConf).run (smallStart allOk) [.set [108] fakeItem]) 0 :=
  scans_items ((smallStart_reach allOk _).run (by decide +kernel)) (by decide)

/-- Under the empty key, the scan finds the item that is written in the value. -/
theorem not_scans_items : ¬ ∀ (c : Conf) (s : KvState), (kvSystem c).Reach s →
    ∀ blk < c.blkNums, ScansItems c s blk := by
  intro scans
  have start : (kvSystem smallConf).Reach (smallStart allOk) :=
    (smallStart_reach allOk fun _ _ => True).of_restrict
  have reach : (kvSystem smallConf).Reach
      ((kvSystem smallConf).run (smallStart allOk) [.set [] fakeItem]) :=
    start.run (by decide +kernel)
  have visits := ((scans smallConf _ reach 0 (by decide)).reads (itemFindCb smallConf) [9]
    (itemFindCb_readsOnly [9]) 0).visits.1
  exact absurd visits (by decide +kernel)

end AliosThings.Kv
