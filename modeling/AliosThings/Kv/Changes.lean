import AliosThings.Kv.Store

/-!
# What the operations of the flash do to the logs

The manager writes the flash in four ways: the state of a block, the state of an item, one more
item, and the erasure of a block. For each there is a lemma that says what becomes of the layout.
-/

namespace AliosThings.Kv

open List Function

variable {c : Conf} {a : Nat}

/-! ## Counting blocks -/

/-- Two tests that differ at most at one element of the list. -/
theorem countP_swap {l : List Nat} (nodup : l.Nodup) (mem : a ∈ l) {p q : Nat → Bool}
    (same : ∀ b, b ≠ a → p b = q b) :
    l.countP p + (if q a then 1 else 0) = l.countP q + (if p a then 1 else 0) := by
  induction l with
  | nil => cases mem
  | cons b l ih =>
    obtain ⟨fresh, nodup⟩ := nodup_cons.mp nodup
    rw [countP_cons, countP_cons]
    rcases mem_cons.mp mem with rfl | later
    · have rest : l.countP p = l.countP q := countP_congr fun b inside => by
          rw [same b (fun eq => fresh (eq ▸ inside))]
      omega
    · have here : p b = q b := same b fun eq => fresh (eq ▸ later)
      have rest := ih nodup later
      rw [here]
      omega

/-- The number of clean blocks when one block changes its state. -/
theorem cleanCount_update {s s' : KvState} {blk : Nat} (valid : blk < c.blkNums)
    (same : ∀ b, b ≠ blk → (s'.blockInfo b).state = (s.blockInfo b).state) :
    cleanCount c s' + (if (s.blockInfo blk).state = blkStateClean then 1 else 0) =
      cleanCount c s + (if (s'.blockInfo blk).state = blkStateClean then 1 else 0) := by
  have swap := countP_swap (p := fun b => decide ((s'.blockInfo b).state = blkStateClean))
    nodup_range
    (mem_range.mpr valid) (fun b other => by rw [same b other])
  simpa [cleanCount] using swap

theorem cleanCount_congr {s s' : KvState}
    (same : ∀ b, (s'.blockInfo b).state = (s.blockInfo b).state) :
    cleanCount c s' = cleanCount c s := by
  simp [cleanCount, same]

theorem cleanCount_le (c : Conf) (s : KvState) : cleanCount c s ≤ c.blkNums := by
  have le := countP_le_length (p := fun blk => decide ((s.blockInfo blk).state = blkStateClean))
    (l := range c.blkNums)
  rwa [length_range] at le

/-- A block that is in use is not counted. -/
theorem cleanCount_lt {s : KvState} {blk : Nat} (valid : blk < c.blkNums)
    (unclean : (s.blockInfo blk).state ≠ blkStateClean) : cleanCount c s < c.blkNums := by
  refine Nat.lt_of_le_of_ne (cleanCount_le c s) fun all => unclean ?_
  have every := countP_eq_length.mp (all.trans length_range.symm) blk (mem_range.mpr valid)
  simpa using every

/-! ## The record of the writes -/

variable {blk other n : Nat} {ops : List FlashOp}

theorem itemWrites_short {bs : Bytes} (short : bs.length ≤ blkHdrSize) :
    itemWrites c blk (ops ++ [.write a bs]) = itemWrites c blk ops := by
  rw [itemWrites, foldl_append]
  exact if_neg (by omega)

/-- A mark is no item. -/
theorem itemWrites_state {st : UInt8} :
    itemWrites c blk (ops ++ [.write a [st]]) = itemWrites c blk ops :=
  itemWrites_short (by simp [blkHdrSize])

/-- A longer write is an item. -/
theorem itemWrites_item {bs : Bytes} (long : blkHdrSize < bs.length) :
    itemWrites c blk (ops ++ [.write a bs]) =
      if a / c.blkSize = blk then itemWrites c blk ops ++ [(a, bs.length)]
      else itemWrites c blk ops := by
  simp [long, itemWrites]

/-- An erased block has no item. -/
theorem itemWrites_erase : itemWrites c blk (ops ++ [.erase (c.blkStart other) n]) =
      if other = blk then [] else itemWrites c blk ops := by
  have start : c.blkStart other = c.blkStart blk ↔ other = blk :=
    ⟨Nat.eq_of_mul_eq_mul_right c.blkSize_pos, fun eq => by rw [eq]⟩
  simp [start, itemWrites]

theorem extents_concat (blk : Nat) (log : List (Entry c)) (e : Entry c) :
    extents blk (log ++ [e]) = extents blk log ++ [(logEnd blk log, e.size)] := by
  rw [extents, places, placed_append, map_append]
  rfl

/-! ## Blocks -/

variable {s s' : KvState} {log : List (Entry c)}

/-- A block that is not written and whose information stays. -/
theorem BlockOk.congr (ok : BlockOk s blk log)
    (same : Mem.SameOn s.flash s'.flash (c.blkStart blk) c.blkSize)
    (info : s'.blockInfo blk = s.blockInfo blk) : BlockOk s' blk log := by
  have header := c.blkHdrSize_lt
  obtain ⟨magic, state, known, holds, space, clean⟩ := ok
  unfold SpaceOk at space
  rw [← info] at state known space clean
  exact ⟨(same _ (by omega) (by omega)).trans magic,
    (same _ (by omega) (by unfold kvStateOff; omega)).trans state, known,
    holds.congr (behindHdr same), space, clean⟩

/-- A write inside one block leaves the others alone. -/
theorem sameOn_write {bs : Bytes} {mem : Mem} (apart : other ≠ blk) (low : c.blkStart blk ≤ a)
    (high : a + bs.length ≤ c.blkStart blk + c.blkSize) :
    Mem.SameOn mem (mem.writeBytes a bs) (c.blkStart other) c.blkSize := by
  refine Mem.writeBytes_sameOn ?_
  rcases c.blkStart_apart apart with before | behind
  · exact .inl (by omega)
  · exact .inr (by omega)

/-- The first bytes of a block when its state is written. -/
theorem writeState_hdr (mem : Mem) (blk : Nat) (st : UInt8) :
    mem.writeBytes (c.blkStart blk + kvStateOff) [st] (c.blkStart blk) = mem (c.blkStart blk) ∧
      mem.writeBytes (c.blkStart blk + kvStateOff) [st] (c.blkStart blk + kvStateOff) = st ∧
      Mem.SameOn mem (mem.writeBytes (c.blkStart blk + kvStateOff) [st])
        (c.blkStart blk + blkHdrSize) (c.blkSize - blkHdrSize) := by
  refine ⟨Mem.writeBytes_outside (.inl (by unfold kvStateOff; omega)), ?_, ?_⟩
  · exact Mem.writeBytes_inside mem (c.blkStart blk + kvStateOff) [st] 0 (by simp)
  · refine Mem.writeBytes_sameOn (.inr ?_)
    unfold kvStateOff blkHdrSize
    simp

/-! ## The state of a block -/

/-- The block is given another state, in the flash and in the manager. -/
def KvState.marked (c : Conf) (s : KvState) (blk : Nat) (st : UInt8) : KvState :=
  { s with
    flash := s.flash.writeBytes (c.blkStart blk + kvStateOff) [st]
    ops := s.ops ++ [.write (c.blkStart blk + kvStateOff) [st]]
    driven := s.driven + 1
    blockInfo := update s.blockInfo blk { s.blockInfo blk with state := st }
    cleanBlkNums := if (s.blockInfo blk).state = blkStateClean then s.cleanBlkNums - 1
      else s.cleanBlkNums }

variable {logs : Logs c} {st : UInt8}

theorem KvState.marked_blockInfo_self (s : KvState) (blk : Nat) (st : UInt8) :
    (s.marked c blk st).blockInfo blk = { s.blockInfo blk with state := st } :=
  update_self ..

theorem KvState.marked_blockInfo_other (s : KvState) (st : UInt8) (apart : other ≠ blk) :
    (s.marked c blk st).blockInfo other = s.blockInfo other :=
  update_of_ne apart ..

/-- The block that is marked; nothing is said of its state before. -/
theorem BlockOk.marked_self (magic : s.flash (c.blkStart blk) = blkMagicNum)
    (holds : Holds s.flash blk log) (space : SpaceOk s blk log)
    (use : st = blkStateUsed ∨ st = blkStateDirty) : BlockOk (s.marked c blk st) blk log := by
  have unclean : st ≠ blkStateClean := by rcases use with rfl | rfl <;> decide
  have known : invalidBlkState st = false := by rcases use with rfl | rfl <;> decide
  obtain ⟨magic', state, rest⟩ := writeState_hdr s.flash blk st
  have info := s.marked_blockInfo_self (c := c) blk st
  refine ⟨magic'.trans magic, ?_, ?_, holds.congr rest, ?_, ?_⟩
  · rw [info]
    exact state
  · rw [info]
    exact known
  · unfold SpaceOk
    rw [info]
    exact space
  · rw [info]
    exact fun clean => absurd clean unclean

/-- The other blocks. -/
theorem BlockOk.marked_other (ok : BlockOk s other log) (apart : other ≠ blk) :
    BlockOk (s.marked c blk st) other log := by
  have header := c.blkHdrSize_lt
  refine ok.congr ?_ (s.marked_blockInfo_other st apart)
  refine sameOn_write apart (Nat.le_add_right _ _) ?_
  unfold kvStateOff
  simp only [length_singleton]
  omega

/-- A block is marked as used or dirty. -/
theorem Layout.marked (layout : Layout s logs) (valid : blk < c.blkNums)
    (use : st = blkStateUsed ∨ st = blkStateDirty) : Layout (s.marked c blk st) logs := by
  have unclean : st ≠ blkStateClean := by rcases use with rfl | rfl <;> decide
  refine ⟨fun b validB => ?_, layout.checked, ?_, ?_, fun b validB => ?_⟩
  · have ok := layout.block b validB
    by_cases same : b = blk
    · subst same
      exact .marked_self ok.magic ok.holds ok.space use
    · exact ok.marked_other same
  · obtain ⟨b, validB, used, place⟩ := layout.writing
    refine ⟨b, validB, ?_, place⟩
    by_cases same : b = blk
    · rw [same, s.marked_blockInfo_self]
      exact unclean
    · rw [s.marked_blockInfo_other st same]
      exact used
  · have others (b : Nat) (other : b ≠ blk) :
        ((s.marked c blk st).blockInfo b).state = (s.blockInfo b).state := by
      rw [s.marked_blockInfo_other st other]
    have count := cleanCount_update valid others
    have self : ((s.marked c blk st).blockInfo blk).state = st := by
      rw [s.marked_blockInfo_self]
    rw [self, if_neg unclean, ← layout.count] at count
    have clean : (s.marked c blk st).cleanBlkNums =
      if (s.blockInfo blk).state = blkStateClean then s.cleanBlkNums - 1 else s.cleanBlkNums := rfl
    rw [clean]
    split_ifs at count ⊢ <;> omega
  · exact itemWrites_state.trans (layout.written b validB)

/-- The write position is moved to the end of another block in use. -/
theorem Layout.moveTo (layout : Layout s logs) (valid : blk < c.blkNums)
    (used : (s.blockInfo blk).state ≠ blkStateClean) :
    Layout { s with writePos := logEnd blk (logs blk) } logs := by
  obtain ⟨block, checked, -, count, written⟩ := layout
  exact ⟨fun b validB => (block b validB).congr (fun _ _ _ => rfl) rfl, checked,
    ⟨blk, valid, used, rfl⟩, count, written⟩

/-! ## Formatting a block -/

/-- The block is erased and has a new header. -/
def KvState.formatted (c : Conf) (s : KvState) (blk : Nat) : KvState :=
  { s with
    flash := (s.flash.erase (c.blkStart blk) c.blkSize).writeBytes (c.blkStart blk)
      (BlockHdr.toBytes ⟨blkMagicNum, blkStateClean⟩)
    ops := s.ops ++ [.erase (c.blkStart blk) c.blkSize] ++
      [.write (c.blkStart blk) (BlockHdr.toBytes ⟨blkMagicNum, blkStateClean⟩)]
    driven := s.driven + 2
    blockInfo := update s.blockInfo blk ⟨c.blkSize - blkHdrSize, blkStateClean⟩
    cleanBlkNums := (s.cleanBlkNums + 1) % 2 ^ 8 }

/-- A format erases the block and writes its header. -/
theorem KvState.FlashOk.kvBlockFormat_eq (ok : s.FlashOk) (blk : Nat) :
    kvBlockFormat c s blk = (.ok, s.formatted c blk) := by
  have first := ok.perform_eq (.erase (c.blkStart blk) c.blkSize)
  have ok' : (s.performed (.erase (c.blkStart blk) c.blkSize)).FlashOk := ok
  simp only [kvBlockFormat, KvState.partitionErase, first, KvState.partitionWrite, ok'.perform_eq]
  rfl

theorem KvState.formatted_sameOn (s : KvState) (apart : other ≠ blk) :
    Mem.SameOn s.flash (s.formatted c blk).flash (c.blkStart other) c.blkSize := by
  have header := c.blkHdrSize_lt
  have erased : Mem.SameOn s.flash (s.flash.erase (c.blkStart blk) c.blkSize) (c.blkStart other)
      c.blkSize := Mem.erase_sameOn (c.blkStart_apart apart)
  refine erased.trans (sameOn_write apart le_rfl ?_)
  show c.blkStart blk + 4 ≤ _
  unfold blkHdrSize at header
  omega

/-- The other blocks are as they were. -/
theorem BlockOk.formatted_other (ok : BlockOk s other log) (apart : other ≠ blk) :
    BlockOk (s.formatted c blk) other log :=
  ok.congr (s.formatted_sameOn apart) (update_of_ne apart ..)

/-- A formatted block is empty. -/
theorem BlockOk.formatted_self (s : KvState) (blk : Nat) :
    BlockOk (s.formatted c blk) blk ([] : List (Entry c)) := by
  have header := c.blkHdrSize_lt
  have info : (s.formatted c blk).blockInfo blk = ⟨c.blkSize - blkHdrSize, blkStateClean⟩ :=
    update_self ..
  have byte (i : Nat) (inside : i < 4) :
      (s.formatted c blk).flash (c.blkStart blk + i) =
        [blkMagicNum, blkStateClean, 0, 0].get ⟨i, inside⟩ :=
    Mem.writeBytes_inside _ _ [blkMagicNum, blkStateClean, 0, 0] i inside
  refine ⟨byte 0 (by omega), ?_, ?_, ⟨trivial, ?_, fun x low high => ?_⟩, ?_, fun _ => rfl⟩
  · rw [info]
    exact byte 1 (by omega)
  · rw [info]
    rfl
  · simp only [logEnd, logSize_nil]
    omega
  · simp only [logEnd, logSize_nil] at low
    have behind : (s.formatted c blk).flash x =
        s.flash.erase (c.blkStart blk) c.blkSize x :=
      Mem.writeBytes_outside (.inr (show c.blkStart blk + 4 ≤ x from low))
    rw [behind]
    exact Mem.erase_inside (by omega) high
  · unfold SpaceOk
    rw [info]
    simp only [logEnd, logSize_nil]
    omega

theorem KvState.formatted_itemWrites (s : KvState) (blk b : Nat) :
    itemWrites c b (s.formatted c blk).ops = if blk = b then [] else itemWrites c b s.ops := by
  have erased : itemWrites c b (s.ops ++ [.erase (c.blkStart blk) c.blkSize]) = _ :=
    itemWrites_erase
  rw [← erased]
  exact itemWrites_short le_rfl

/-! ## The state of an item -/

variable {before after : List (Entry c)} {r : Record c}

/-- The item is marked as deleted. -/
def deleted (logs : Logs c) (blk : Nat) (before after : List (Entry c)) (r : Record c) : Logs c :=
  update logs blk (before ++ .item (r.withState itemStateDelete) :: after)

/-- An item is marked as deleted. -/
theorem Layout.deleted (layout : Layout s logs) (valid : blk < c.blkNums)
    (eq : logs blk = before ++ .item r :: after) :
    Layout (s.performed (.write (logEnd blk before + kvStateOff) [itemStateDelete]))
      (deleted logs blk before after r) := by
  have ok := layout.block blk valid
  rw [eq] at ok
  have big := c.le_itemHdrSize
  have room := (ok.holds.room valid).1
  have start : c.blkStart blk + blkHdrSize ≤ logEnd blk before := Nat.le_add_right _ _
  have sizes : (before ++ .item (r.withState itemStateDelete) :: after).map Entry.size =
      (logs blk).map Entry.size := by simp [eq, Entry.size]
  have total : logSize (before ++ .item (r.withState itemStateDelete) :: after) =
      logSize (logs blk) := by rw [logSize, logSize, sizes]
  have self : Kv.deleted logs blk before after r blk =
      before ++ .item (r.withState itemStateDelete) :: after := update_self ..
  have other {b : Nat} (apart : b ≠ blk) : Kv.deleted logs blk before after r b = logs b :=
    update_of_ne apart ..
  refine ⟨fun b validB => ?_, fun pos r' live => ?_, ?_, layout.count, fun b validB => ?_⟩
  · by_cases same : b = blk
    · subst same
      rw [self]
      have hdr (x : Nat) (low : x < c.blkStart b + blkHdrSize) :
          s.flash.writeBytes (logEnd b before + kvStateOff) [itemStateDelete] x = s.flash x :=
        Mem.writeBytes_outside (.inl (by unfold kvStateOff; omega))
      refine ⟨(hdr _ (by unfold blkHdrSize; omega)).trans ok.magic,
        (hdr _ (by unfold blkHdrSize kvStateOff; omega)).trans ok.state, ok.known,
        ok.holds.withState itemStateDelete, ?_, fun clean => ?_⟩
      · unfold SpaceOk logEnd
        rw [total, eq]
        exact ok.space
      · exact absurd (ok.clean clean) (by simp)
    · rw [other same]
      refine (layout.block b validB).congr ?_ rfl
      refine sameOn_write same (by unfold kvStateOff; omega) ?_
      unfold kvStateOff
      simp only [length_singleton]
      omega
  · exact layout.checked pos r' ((LiveAt.delete layout.fits valid eq).mp live).1
  · obtain ⟨b, validB, used, place⟩ := layout.writing
    refine ⟨b, validB, used, ?_⟩
    by_cases same : b = blk
    · subst same
      rw [self]
      exact place.trans (by unfold logEnd; rw [total])
    · rw [other same]
      exact place
  · refine itemWrites_state.trans ((layout.written b validB).trans ?_)
    by_cases same : b = blk
    · subst same
      rw [self]
      exact places_congr sizes.symm _
    · rw [other same]

/-! ## One more item -/

variable {bs : Bytes}

/-- An item has been written behind the entries of block `blk`. -/
def KvState.appended (s : KvState) (blk : Nat) (bs : Bytes) : KvState :=
  { s.performed (.write s.writePos bs) with writePos := s.writePos + bs.length }.setBlkSpace blk
    ((s.blockInfo blk).space - bs.length)

def appendTo (logs : Logs c) (blk : Nat) (r : Record c) : Logs c :=
  update logs blk (logs blk ++ [.item r])

section

variable (place : s.writePos = logEnd blk log)
include place

theorem KvState.appended_flash :
    (s.appended blk bs).flash = s.flash.writeBytes (logEnd blk log) bs := by
  rw [← place]
  rfl

theorem KvState.appended_header :
    Mem.SameOn s.flash (s.appended blk bs).flash (c.blkStart blk) blkHdrSize := by
  rw [appended_flash place]
  exact Mem.writeBytes_sameOn (.inl (Nat.le_add_right _ _))

variable (room : logEnd blk log + r.size < c.blkStart blk + c.blkSize)
include room

/-- What `kv_item_store` computes in `kv_size_t` does not wrap. -/
theorem KvState.appended_exact (valid : blk < c.blkNums)
    (space : (s.blockInfo blk).space = c.blkStart blk + c.blkSize - logEnd blk log) :
    (s.writePos + r.size) % c.sizeMod = s.writePos + r.size ∧
      c.blkOf (s.writePos + r.size) = blk ∧
      ((s.blockInfo blk).space + c.sizeMod - r.size) % c.sizeMod =
        (s.blockInfo blk).space - r.size := by
  have stop := c.blkEnd_le valid
  have small := c.totalSize_lt
  have low := le_logEnd blk log
  rw [place]
  refine ⟨Nat.mod_eq_of_lt (by omega), (c.blkOf_eq valid (by omega) room).2, ?_⟩
  rw [Nat.mod_eq_sub_mod (by omega), Nat.mod_eq_of_lt (by omega)]
  omega

variable (image : r.Image bs)
include image

/-- An item is written to one block. -/
theorem KvState.appended_sameOn (apart : other ≠ blk) :
    Mem.SameOn s.flash (s.appended blk bs).flash (c.blkStart other) c.blkSize := by
  have length := image.length
  rw [appended_flash place]
  exact sameOn_write apart (le_logEnd blk log) (by omega)

theorem KvState.appended_itemWrites (valid : blk < c.blkNums) (b : Nat) :
    itemWrites c b (s.appended blk bs).ops = if b = blk then
      itemWrites c b s.ops ++ [(logEnd blk log, r.size)] else itemWrites c b s.ops := by
  have length := image.length
  have big := r.itemHdrSize_lt_size
  have hdrSize := c.le_itemHdrSize
  have block : s.writePos / c.blkSize = blk := by
    rw [place]
    exact (blkOf_logEnd valid (by omega)).1
  have writes : itemWrites c b (s.appended blk bs).ops = _ := itemWrites_item (by
    unfold blkHdrSize
    omega)
  rw [writes, block, place, length]
  exact if_congr eq_comm rfl rfl

end

/-- An item is the last entry of its block. -/
theorem Layout.appended (layout : Layout s logs) (writing : Writing s logs blk) (image : r.Image bs)
    (checked : r.Checked) (room : logEnd blk (logs blk) + r.size < c.blkStart blk + c.blkSize) :
    Layout (s.appended blk bs) (appendTo logs blk r) := by
  obtain ⟨valid, used, place⟩ := writing
  have ok := layout.block blk valid
  have self : appendTo logs blk r blk = logs blk ++ [.item r] := update_self ..
  have other {b : Nat} (apart : b ≠ blk) : appendTo logs blk r b = logs b := update_of_ne apart ..
  have stop : logEnd blk (logs blk ++ [.item r]) = logEnd blk (logs blk) + r.size :=
    logEnd_concat blk (logs blk) (.item r)
  have info : (s.appended blk bs).blockInfo blk =
      { s.blockInfo blk with space := (s.blockInfo blk).space - bs.length } :=
    update_self ..
  have infoOther {b : Nat} (apart : b ≠ blk) :
      (s.appended blk bs).blockInfo b = s.blockInfo b := update_of_ne apart ..
  have states (b : Nat) : ((s.appended blk bs).blockInfo b).state = (s.blockInfo b).state := by
    by_cases same : b = blk
    · rw [same, info]
    · rw [infoOther same]
  refine ⟨fun b validB => ?_, fun pos r' live => ?_, ⟨blk, ?_⟩, ?_, fun b validB => ?_⟩
  · by_cases same : b = blk
    · subst same
      rw [self]
      have hdr : Mem.SameOn _ (s.appended b bs).flash _ _ := s.appended_header place
      refine ⟨(hdr _ le_rfl (by unfold blkHdrSize; omega)).trans ok.magic, ?_, ?_, ?_, ?_, ?_⟩
      · rw [states]
        exact (hdr _ (by omega) (by unfold blkHdrSize kvStateOff; omega)).trans ok.state
      · rw [states]
        exact ok.known
      · rw [s.appended_flash place]
        exact ok.holds.append image room
      · unfold SpaceOk
        rw [info, stop, image.length]
        have space : (s.blockInfo b).space = _ := ok.space
        dsimp only
        omega
      · rw [states]
        exact fun clean => absurd clean used
    · rw [other same]
      exact (layout.block b validB).congr (s.appended_sameOn place room image same)
        (infoOther same)
  · rcases (LiveAt.append valid).mp live with old | ⟨-, rfl, -⟩
    · exact layout.checked pos r' old
    · exact checked
  · refine ⟨valid, by rwa [states], ?_⟩
    rw [self, stop, ← image.length, ← place]
    rfl
  · rw [cleanCount_congr states]
    exact layout.count
  · rw [s.appended_itemWrites place room image valid, layout.written b validB]
    by_cases same : b = blk
    · subst same
      rw [if_pos rfl, self, extents_concat]
      rfl
    · rw [if_neg same, other same]

end AliosThings.Kv
