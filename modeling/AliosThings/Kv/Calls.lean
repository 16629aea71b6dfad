import AliosThings.Kv.Changes

/-!
# Setting and deleting

What `aos_kv_set` and `aos_kv_del` do to the logs while no write of the flash fails. A malloc or a
read may fail at any point: a call then returns an error and leaves the logs as they are, with one
exception. A lookup that fails looks like a key that is not there, and `aos_kv_set` then stores a
second live item of the key.
-/

namespace AliosThings.Kv

open KvState (Precedes)
open List Function

variable {c : Conf} {s s' : KvState} {logs logs₁ logs₂ : Logs c}

theorem KvState.precedes_performed (s : KvState) (op : FlashOp) : s.Precedes (s.performed op) :=
  ⟨rfl, rfl, le_rfl, Nat.le_succ _⟩

theorem KvState.precedes_marked (s : KvState) (blk : Nat) (st : UInt8) :
    s.Precedes (s.marked c blk st) :=
  ⟨rfl, rfl, le_rfl, Nat.le_succ _⟩

theorem KvState.marked_eq (s : KvState) {blk : Nat} (st : UInt8)
    (unclean : (s.blockInfo blk).state ≠ blkStateClean) :
    s.marked c blk st =
      (s.performed (.write (c.blkStart blk + kvStateOff) [st])).setBlkState blk st := by
  rw [marked, if_neg unclean]
  rfl

/-- The layout does not depend on the environment, nor on the trigger of the collection. -/
theorem Sound.congr (sound : Sound s logs)
    (same : (s'.flash, s'.ops, s'.cleanBlkNums, s'.writePos, s'.blockInfo) =
      (s.flash, s.ops, s.cleanBlkNums, s.writePos, s.blockInfo)) : Sound s' logs := by
  simp only [Prod.mk.injEq] at same
  obtain ⟨flash, ops, clean, place, info⟩ := same
  obtain ⟨⟨block, checked, ⟨blk, valid, used, writePos⟩, count, written⟩, tidy⟩ := sound
  refine ⟨⟨fun b valid => ?_, checked, ⟨blk, valid, ?_, ?_⟩, ?_, ?_⟩, fun b valid => ?_⟩
  · refine (block b valid).congr (fun x _ _ => ?_) (by rw [info])
    rw [flash]
  · rwa [info]
  · rwa [place]
  · rw [clean, count, cleanCount, cleanCount, info]
  · rwa [ops]
  · unfold Tidy
    rw [info]
    exact tidy b valid

/-- Lookups depend on the flash and on what the manager knows of the blocks. -/
theorem Readable.congr (readable : Readable s logs) (flash : s'.flash = s.flash)
    (info : ∀ b < c.blkNums, s'.blockInfo b = s.blockInfo b) : Readable s' logs := by
  refine ⟨fun b valid => (readable.block b valid).congr ?_ (info b valid), fun b valid => ?_⟩
  · rw [flash]
    exact fun _ _ _ => rfl
  · unfold Tidy
    rw [info b valid]
    exact readable.tidy b valid

theorem Readable.later (readable : Readable s logs) (n : Nat) : Readable (s.later n) logs :=
  readable.congr rfl fun _ _ => rfl

theorem Sound.later (sound : Sound s logs) (n : Nat) : Sound (s.later n) logs :=
  sound.congr rfl

/-- Questions to the system change nothing. -/
theorem OnlyAsked.sound (only : OnlyAsked s s') (sound : Sound s logs) : Sound s' logs := by
  obtain ⟨n, rfl⟩ := only
  exact sound.later n

theorem Sound.kvTriggerGc (sound : Sound s logs) : Sound (kvTriggerGc s) logs :=
  sound.congr rfl

/-! ## Removing an item -/

variable {blk : Nat} {before after : List (Entry c)} {r : Record c}

/-- The item at the end of `before` is dead afterwards, and its block is dirty. -/
theorem itemRemove_spec (sound : Sound s logs) (flashOk : s.FlashOk) (valid : blk < c.blkNums)
    (eq : logs blk = before ++ .item r :: after) :
    ∃ s', itemRemove c s (logEnd blk before) = (.ok, s') ∧ s.Precedes s' ∧
      Sound s' (deleted logs blk before after r) ∧ s'.cleanBlkNums = s.cleanBlkNums := by
  have ok := sound.block blk valid
  rw [eq] at ok
  have room := (ok.holds.room valid).1
  obtain ⟨div, block⟩ := blkOf_logEnd valid (by omega : logEnd blk before < _)
  have blkOff : c.blkOff (logEnd blk before) = c.blkStart blk := by
    rw [Conf.blkOff, div]
    rfl
  have layout := sound.toLayout.deleted valid eq
  have unclean : (s.blockInfo blk).state ≠ blkStateClean := fun clean => by
    have empty := ok.clean clean
    simp at empty
  have others (b : Nat) (validB : b < c.blkNums) (apart : b ≠ blk) :
      Tidy s b (deleted logs blk before after r b) := by
    rw [show deleted logs blk before after r b = logs b from update_of_ne apart ..]
    exact sound.tidy b validB
  unfold itemRemove
  rw [flashOk.kvStateSet_eq]
  dsimp only
  rw [block, blkOff]
  have flashOk' := (s.precedes_performed
    (.write (logEnd blk before + kvStateOff) [itemStateDelete])).flashOk flashOk
  split
  case isTrue used =>
    rw [flashOk'.kvStateSet_eq]
    have marked := KvState.marked_eq (c := c)
      (s.performed (.write (logEnd blk before + kvStateOff) [itemStateDelete])) blkStateDirty
      unclean
    dsimp only
    rw [← marked]
    refine ⟨_, rfl, (s.precedes_performed _).trans (KvState.precedes_marked _ blk _),
      ⟨layout.marked valid (.inr rfl), fun b validB => ?_⟩, if_neg unclean⟩
    by_cases same : b = blk
    · intro used'
      rw [same, KvState.marked_blockInfo_self] at used'
      exact absurd used' (show blkStateDirty ≠ blkStateUsed by decide)
    · intro used'
      rw [KvState.marked_blockInfo_other _ _ same] at used'
      exact others b validB same used'
  case isFalse dirty =>
    refine ⟨_, rfl, s.precedes_performed _, ⟨layout, fun b validB => ?_⟩, rfl⟩
    by_cases same : b = blk
    · rw [same]
      exact fun used => absurd used dirty
    · exact others b validB same

/-! ## Finding a position -/

variable {len : Nat}

/-- Another block is taken for writing. -/
theorem takeBlock_spec (sound : Sound s logs) (flashOk : s.FlashOk) (valid : blk < c.blkNums) :
    ∃ s', takeBlock c s blk = (logEnd blk (logs blk), s') ∧ s.Precedes s' ∧ Sound s' logs ∧
      Writing s' logs blk ∧ s'.cleanBlkNums =
        if (s.blockInfo blk).state = blkStateClean then s.cleanBlkNums - 1 else s.cleanBlkNums := by
  have ok := sound.block blk valid
  have fits := ok.holds.fits
  have stop := c.blkEnd_le valid
  have small := c.totalSize_lt
  have space : (s.blockInfo blk).space = _ := ok.space
  have place : (c.blkStart blk + c.blkSize - (s.blockInfo blk).space) % c.sizeMod =
      logEnd blk (logs blk) := by
    rw [space, Nat.mod_eq_of_lt (by omega)]
    omega
  unfold takeBlock
  dsimp only
  rw [place]
  split
  case isTrue clean =>
    have flashOk' : ({ s with writePos := logEnd blk (logs blk) } : KvState).FlashOk := flashOk
    have empty := ok.clean clean
    -- The block is marked first and the position set then: the result is the same.
    have marked := sound.toLayout.marked valid (.inl rfl : blkStateUsed = _ ∨ _ = blkStateDirty)
    have count : (s.cleanBlkNums + (2 ^ 8 - 1)) % 2 ^ 8 = s.cleanBlkNums - 1 := by
      have some : 0 < s.cleanBlkNums := by
        rw [sound.count]
        exact countP_pos_iff.mpr ⟨blk, mem_range.mpr valid, by simpa using clean⟩
      have few := cleanCount_le c s
      have small := c.blkNums_lt
      rw [← sound.count] at few
      omega
    have tidy (b : Nat) (validB : b < c.blkNums) :
        Tidy (s.marked c blk blkStateUsed) b (logs b) := by
      by_cases same : b = blk
      · subst same
        rw [empty]
        exact fun _ => nofun
      · intro used
        rw [KvState.marked_blockInfo_other _ _ same] at used
        exact sound.tidy b validB used
    have used : ((s.marked c blk blkStateUsed).blockInfo blk).state ≠ blkStateClean := by
      rw [KvState.marked_blockInfo_self]
      exact show blkStateUsed ≠ blkStateClean by decide
    rw [flashOk'.kvStateSet_eq]
    refine ⟨{ s.marked c blk blkStateUsed with writePos := logEnd blk (logs blk) }, ?_,
      ⟨rfl, rfl, le_rfl, Nat.le_succ _⟩, ⟨marked.moveTo valid used, tidy⟩,
      ⟨valid, used, rfl⟩, if_pos clean⟩
    rw [KvState.marked, if_pos clean, ← count]
    rfl
  case isFalse used =>
    exact ⟨_, rfl, ⟨rfl, rfl, le_rfl, le_rfl⟩,
      ⟨sound.toLayout.moveTo valid used, sound.tidy⟩, ⟨valid, used, rfl⟩, rfl⟩

/-- The loop finds a block with room, asks for a collection, or does not end. -/
theorem calcPositionLoop_cases (c : Conf) (s : KvState) (len blkIdx : Nat) :
    ∀ (fuel i : Nat), i ≤ c.blkNums →
      calcPositionLoop c len blkIdx fuel i s = none ∨
      calcPositionLoop c len blkIdx fuel i s = some (0, kvTriggerGc s) ∨
      ∃ b < c.blkNums, len < (s.blockInfo b).space ∧
        calcPositionLoop c len blkIdx fuel i s = some (takeBlock c s b) := by
  have two := c.two_le_blkNums
  intro fuel
  induction fuel with
  | zero => exact fun i _ => .inl rfl
  | succ fuel ih =>
    intro i inside
    unfold calcPositionLoop
    split
    · exact .inr (.inl rfl)
    have valid : (if i = c.blkNums then 0 else i) < c.blkNums := by
      split <;> omega
    dsimp only
    generalize (if i = c.blkNums then 0 else i) = j at valid ⊢
    split
    case isTrue room => exact .inr (.inr ⟨j, valid, room, rfl⟩)
    case isFalse => exact ih _ (by omega)

/-- There is no room for an item of this size in the present block. -/
def Tight (c : Conf) (s : KvState) (len : Nat) : Prop :=
  (s.blockInfo (c.blkOf s.writePos)).space ≤ len

/-- The item does not fit in the present block and another one may be taken. -/
def Leaves (c : Conf) (s : KvState) (len : Nat) : Prop :=
  Tight c s len ∧ kvGcReserved + 1 < c.blkNums

/-- The results of `kv_calc_position`: it never returns, there is no room, or there is room behind
the entries of a block. A clean block may have been taken. -/
inductive Positioned (s : KvState) (logs : Logs c) (len : Nat) : Option (Nat × KvState) → Prop where
  | endless (tight : Tight c s len) : Positioned s logs len none
  | full (tight : Tight c s len) : Positioned s logs len (some (0, kvTriggerGc s))
  | place {s' : KvState} {blk : Nat} (after : s.Precedes s') (sound : Sound s' logs)
      (writing : Writing s' logs blk)
      (room : logEnd blk (logs blk) + len < c.blkStart blk + c.blkSize)
      (clean : s'.cleanBlkNums = s.cleanBlkNums ∨
        Leaves c s len ∧ s'.cleanBlkNums + 1 = s.cleanBlkNums) :
    Positioned s logs len (some (s'.writePos, s'))

theorem Writing.blkOf_eq (writing : Writing s logs blk) (fits : Fits logs) :
    c.blkOf s.writePos = blk := by
  rw [writing.2.2]
  exact (blkOf_logEnd writing.1 (fits blk writing.1)).2

/-- Where the next item goes. -/
theorem kvCalcPosition_spec (sound : Sound s logs) (flashOk : s.FlashOk) (len : Nat) :
    Positioned s logs len (kvCalcPosition c s len) := by
  obtain ⟨blk, writing⟩ := sound.writing
  have block := writing.blkOf_eq sound.fits
  have space : (s.blockInfo blk).space = _ := (sound.block blk writing.1).space
  unfold kvCalcPosition
  rw [block]
  dsimp only
  split
  case isTrue fits =>
    have room : logEnd blk (logs blk) + len < c.blkStart blk + c.blkSize := by omega
    split
    · have triggered : s.Precedes (kvTriggerGc s) := ⟨rfl, rfl, le_rfl, le_rfl⟩
      exact .place triggered sound.kvTriggerGc writing room (.inl rfl)
    · exact .place .rfl sound writing room (.inl rfl)
  case isFalse full =>
    have tight : Tight c s len := by
      unfold Tight
      rw [block]
      omega
    split
    case isTrue many =>
      have next : (blk + 1) % 2 ^ 8 ≤ c.blkNums := by
        have valid := writing.1
        omega
      rcases calcPositionLoop_cases c s len blk 512 _ next with
        none_ | zero | ⟨b, valid, room, take⟩
      · rw [none_]
        exact .endless tight
      · rw [zero]
        exact .full tight
      have space : (s.blockInfo b).space = _ := (sound.block b valid).space
      obtain ⟨s', taken, after, sound', writing', clean⟩ := takeBlock_spec sound flashOk valid
      rw [take, taken, ← writing'.2.2]
      refine .place after sound' writing' (by omega) ?_
      rw [clean]
      split
      case isTrue isClean =>
        have some : 0 < s.cleanBlkNums := by
          rw [sound.count]
          exact countP_pos_iff.mpr ⟨b, mem_range.mpr valid, by simpa using isClean⟩
        exact .inr ⟨⟨tight, many⟩, by omega⟩
      case isFalse => exact .inl rfl
    case isFalse => exact .full tight

/-! ## Storing an item -/

/-- A new item keeps the store sound. -/
theorem Sound.appended (sound : Sound s logs) (writing : Writing s logs blk) {bs : Bytes}
    (image : r.Image bs) (normal : r.Normal) (checked : r.Checked)
    (room : logEnd blk (logs blk) + r.size < c.blkStart blk + c.blkSize) :
    Sound (s.appended blk bs) (appendTo logs blk r) := by
  refine ⟨sound.toLayout.appended writing image checked room, fun b validB => ?_⟩
  by_cases same : b = blk
  · subst same
    have info : (s.appended b bs).blockInfo b =
        { s.blockInfo b with space := (s.blockInfo b).space - bs.length } :=
      update_self ..
    intro used e mem
    rw [info] at used
    rw [show appendTo logs b r b = logs b ++ [.item r] from update_self ..] at mem
    rcases mem_append.mp mem with old | new
    · exact sound.tidy b validB used e old
    · cases mem_singleton.mp new
      exact normal
  · intro used
    rw [show (s.appended blk bs).blockInfo b = s.blockInfo b from update_of_ne same ..] at used
    rw [show appendTo logs blk r b = logs b from update_of_ne same ..]
    exact sound.tidy b validB used

/-- The results of `kv_item_store`. -/
inductive StoreResult (s : KvState) (logs : Logs c) (r : Record c) :
    Option (Res × KvState) → Prop where
  | endless (tight : Tight c s r.size) : StoreResult s logs r none
  | failed {res : Res} {s' : KvState} (error : res ≠ .ok) (after : s.Precedes s')
      (sound : Sound s' logs) (clean : s'.cleanBlkNums = s.cleanBlkNums)
      (cause : s.Answered s' → Tight c s r.size) :
    StoreResult s logs r (some (res, s'))
  | stored {s' : KvState} {blk : Nat} (after : s.Precedes s') (valid : blk < c.blkNums)
      (sound : Sound s' (appendTo logs blk r))
      (clean : s'.cleanBlkNums = s.cleanBlkNums ∨
        Leaves c s r.size ∧ s'.cleanBlkNums + 1 = s.cleanBlkNums) :
    StoreResult s logs r (some (.ok, s'))

/-- `kv_item_store` appends an item or fails. -/
theorem kvItemStore_spec (sound : Sound s logs) (flashOk : s.FlashOk) (normal : r.Normal)
    (checked : r.Checked) : StoreResult s logs r (kvItemStore c s r.key r.val r.originOff) := by
  have size : c.align (c.itemHdrSize + r.key.length + r.val.length) = r.size := by
    rw [Record.size, Nat.add_assoc]
  unfold kvItemStore
  dsimp only
  rw [size, s.osMalloc_eq]
  cases first : (s.env s.asked).ok
  case false =>
    exact .failed (by simp) (.later 1) (sound.later 1) rfl fun answered =>
      absurd answered (KvState.not_answered_later first)
  have position := kvCalcPosition_spec (sound.later 1) (show (s.later 1).FlashOk from flashOk)
    r.size
  dsimp only
  generalize kvCalcPosition c (s.later 1) r.size = result at position
  cases position with
  | endless tight => exact .endless tight
  | full tight =>
    exact .failed (by simp) ⟨rfl, rfl, Nat.le_succ _, le_rfl⟩ (sound.later 1).kvTriggerGc rfl
      fun _ => tight
  | @place s' blk after sound' writing room clean =>
    have image := itemImage_image normal checked
    have valid := writing.1
    have positive : 0 < s'.writePos := by
      rw [writing.2.2]
      unfold logEnd blkHdrSize
      omega
    have flashOk' : s'.FlashOk := after.flashOk flashOk
    obtain ⟨next, block, left⟩ :=
      s'.appended_exact writing.2.2 room valid (sound'.block blk valid).space
    have stored : Sound (s'.appended blk (itemImage c r.key r.val r.originOff))
        (appendTo logs blk r) := sound'.appended writing image normal checked room
    have ready : s.Precedes (s'.appended blk (itemImage c r.key r.val r.originOff)) :=
      (Precedes.later 1).trans (after.trans ⟨rfl, rfl, le_rfl, Nat.le_succ _⟩)
    simp only [Option.bind_eq_bind, Option.bind_some, if_pos positive, KvState.partitionWrite,
      flashOk'.perform_eq]
    have info : (s'.performed (.write s'.writePos (itemImage c r.key r.val r.originOff))).blockInfo
        = s'.blockInfo := rfl
    rw [next, block, info, left, ← image.length]
    exact .stored ready valid stored clean

/-! ## The calls -/

/-- What is live afterwards: what was live, without the item at `old`, and the item `new`. -/
def Replaced (logs logs' : Logs c) (old : Option Nat) (new : Option (Nat × Record c)) : Prop :=
  ∀ pos r, LiveAt logs' pos r ↔ (LiveAt logs pos r ∧ old ≠ some pos) ∨ new = some (pos, r)

/-- The key has this value. -/
def Has (logs : Logs c) (key val : Bytes) : Prop :=
  ∃ pos r, LiveAt logs pos r ∧ r.key = key ∧ r.val = val

variable {key val : Bytes} {pos old new : Nat}

/-- A live item and the log it is in. -/
theorem LiveAt.log (live : LiveAt logs pos r) :
    ∃ blk before after, blk < c.blkNums ∧ logs blk = before ++ .item r :: after ∧
      pos = logEnd blk before := by
  obtain ⟨⟨blk, valid, mem⟩, -⟩ := live
  obtain ⟨before, after, eq, place⟩ := mem_placed.mp mem
  exact ⟨blk, before, after, valid, eq, place⟩

/-- Positions of live items are values of `kv_size_t`. -/
theorem LiveAt.pos_lt (live : LiveAt logs pos r) (fits : Fits logs) : pos < c.sizeMod := by
  obtain ⟨blk, before, after, valid, eq, rfl⟩ := live.log
  have room := fits blk valid
  have stop := c.blkEnd_le valid
  have small := c.totalSize_lt
  rw [eq] at room
  simp only [logEnd, logSize_append, logSize_cons] at room ⊢
  omega

/-- A live item is removed. -/
theorem itemRemove_live (sound : Sound s logs) (flashOk : s.FlashOk) (live : LiveAt logs pos r) :
    ∃ s' logs', itemRemove c s pos = (.ok, s') ∧ s.Precedes s' ∧ Sound s' logs' ∧
      s'.cleanBlkNums = s.cleanBlkNums ∧ Replaced logs logs' (some pos) none := by
  obtain ⟨blk, before, after, valid, eq, rfl⟩ := live.log
  obtain ⟨s', removed, precedes, sound', clean⟩ := itemRemove_spec sound flashOk valid eq
  refine ⟨s', _, removed, precedes, sound', clean, fun pos' r' => ?_⟩
  rw [deleted, LiveAt.delete sound.fits valid eq]
  simp [eq_comm]

/-- The lengths that `aos_kv_set` accepts. -/
def Accepted (key val : Bytes) : Prop :=
  0 < val.length ∧ key.length ≤ itemMaxKeyLen ∧ val.length ≤ itemMaxValLen

/-- The space that an item takes. -/
def itemSize (c : Conf) (key val : Bytes) : Nat :=
  c.align (c.itemHdrSize + (key.length + val.length))

/-- The results of `aos_kv_set`; `t` is the state behind the lookup. -/
inductive SetResult (s t : KvState) (logs : Logs c) (key val : Bytes) :
    Option (Res × KvState) → Prop where
  | endless (tight : Tight c s (itemSize c key val)) : SetResult s t logs key val none
  | unchanged {res : Res} {s' : KvState} (after : s.Precedes s') (sound : Sound s' logs)
      (clean : s'.cleanBlkNums = s.cleanBlkNums) (same : res = .ok → Has logs key val)
      (cause : res ≠ .ok → Accepted key val → s.Answered s' → Tight c s (itemSize c key val)) :
    SetResult s t logs key val (some (res, s'))
  | replaced {s' : KvState} {logs' : Logs c} {old : Option Nat} {new : Nat} {r : Record c}
      (after : s.Precedes s') (sound : Sound s' logs') (hasKey : r.key = key) (hasVal : r.val = val)
      (replaced : Replaced logs logs' old (some (new, r)))
      (found : ∀ pos, old = some pos → ∃ r, LiveAt logs pos r ∧ r.key = key)
      (absent : old = none → s.Answered t → ∀ pos r, LiveAt logs pos r → r.key ≠ key)
      (clean : s'.cleanBlkNums = s.cleanBlkNums ∨
        Leaves c s r.size ∧ s'.cleanBlkNums + 1 = s.cleanBlkNums)
      (looked : t.Precedes s') :
    SetResult s t logs key val (some (.ok, s'))

theorem Replaced.append (valid : blk < c.blkNums) (normal : r.Normal) :
    Replaced logs (appendTo logs blk r) none (some (logEnd blk (logs blk), r)) := by
  intro pos r'
  rw [appendTo, LiveAt.append valid]
  constructor
  · rintro (old | ⟨rfl, rfl, -⟩)
    · exact .inl ⟨old, nofun⟩
    · exact .inr rfl
  · rintro (⟨old, -⟩ | new)
    · exact .inl old
    · cases new
      exact .inr ⟨rfl, rfl, normal⟩

/-- An item is stored and another one removed. -/
theorem Replaced.trans (apart : old ≠ new) (first : Replaced logs logs₁ none (some (new, r)))
    (second : Replaced logs₁ logs₂ (some old) none) :
    Replaced logs logs₂ (some old) (some (new, r)) := by
  intro pos r'
  rw [second pos r', first pos r']
  constructor
  · rintro (⟨⟨live, -⟩ | new', other⟩ | no)
    · exact .inl ⟨live, other⟩
    · exact .inr new'
    · cases no
  · rintro (⟨live, other⟩ | new')
    · exact .inl ⟨.inl ⟨live, nofun⟩, other⟩
    · refine .inl ⟨.inr new', fun eq => ?_⟩
      cases new'
      cases eq
      exact apart rfl

/-- `kv_item_update` stores an item and deletes the old one. -/
theorem kvItemUpdate_spec (sound : Sound s logs) (flashOk : s.FlashOk) (live : LiveAt logs pos r)
    (same : r.key = key) (valPos : 0 < val.length) (valMax : val.length ≤ itemMaxValLen) :
    SetResult s s logs key val (kvItemUpdate c s (r.foundAt pos) key val) := by
  have keyLen : (r.foundAt pos).hdr.keyLen.toNat = r.key.length := r.hdr_keyLen
  have store : ((r.foundAt pos).store.getD []).drop (r.foundAt pos).hdr.keyLen.toNat = r.val := by
    rw [keyLen]
    exact drop_left
  subst same
  unfold kvItemUpdate
  rw [store]
  split
  case isTrue equal =>
    exact .unchanged .rfl sound rfl (fun _ => ⟨pos, r, live, rfl, equal.2⟩) fun no => absurd rfl no
  case isFalse =>
  let r' := storedRecord c r.key val pos r.keyPos r.keyMax r.keyStr valPos valMax
    (live.pos_lt sound.fits)
  have result : StoreResult s logs r' (kvItemStore c s r.key val pos) :=
    kvItemStore_spec sound flashOk rfl rfl
  show SetResult s s logs r.key val ((kvItemStore c s r.key val pos).bind _)
  generalize kvItemStore c s r.key val pos = stored at result
  cases result with
  | endless tight => exact .endless tight
  | @failed res _ error after sound' clean cause =>
    cases res with
    | ok => exact absurd rfl error
    | _ => exact .unchanged after sound' clean nofun fun _ _ => cause
  | @stored s' blk after valid sound' clean =>
    have appended : Replaced logs (appendTo logs blk r') none
        (some (logEnd blk (logs blk), r')) := .append valid rfl
    have live' : LiveAt (appendTo logs blk r') pos r := (appended pos r).mpr (.inl ⟨live, nofun⟩)
    obtain ⟨s'', logs', removed, after', sound'', clean', deleted⟩ :=
      itemRemove_live sound' (after.flashOk flashOk) live'
    have apart : pos ≠ logEnd blk (logs blk) := by
      rintro rfl
      obtain ⟨b, before, rest, validB, eq, place⟩ := live.log
      have fits := sound.fits
      have here : (logEnd b before, Entry.item r) ∈
          placed (c.blkStart b + blkHdrSize) (logs b) := mem_placed.mpr ⟨before, rest, eq, rfl⟩
      have inB := (fits.blkOf_eq validB here)
      have inBlk := (blkOf_logEnd valid (fits blk valid)).1
      rw [← place] at inB
      obtain rfl : b = blk := inB.symm.trans inBlk
      have size := (Entry.item r).size_pos
      rw [eq] at place
      simp only [logEnd, logSize_append, logSize_cons] at place
      omega
    show SetResult s s logs r.key val (some (itemRemove c s' pos))
    rw [removed]
    refine .replaced (r := r') (after.trans after') sound'' rfl rfl
      (appended.trans apart deleted) ?_ (by simp) (by rwa [clean']) (after.trans after')
    rintro _ ⟨⟩
    exact ⟨r, live, rfl⟩

/-- The state in which a call has the mutex, and the one behind its lookup. -/
def lookedUp (c : Conf) (s : KvState) (key : Bytes) : KvState := (kvItemGet c (s.later 1) key).2

/-- What a call that has the mutex finds. -/
theorem lookedUp_cases (readable : Readable s logs) (key : Bytes) :
    OnlyAsked s (lookedUp c s key) ∧ ((∃ pos r, LiveAt logs pos r ∧ r.key = key ∧
          kvItemGet c (s.later 1) key = (some (r.foundAt pos), lookedUp c s key)) ∨
        kvItemGet c (s.later 1) key = (none, lookedUp c s key) ∧
          (s.Answered (lookedUp c s key) → ∀ pos r, LiveAt logs pos r → r.key ≠ key)) := by
  obtain ⟨only, found, absent⟩ := kvItemGet_spec (readable.later 1) key
  refine ⟨OnlyAsked.trans ⟨1, rfl⟩ only, ?_⟩
  cases item : (kvItemGet c (s.later 1) key).1 with
  | some it =>
    obtain ⟨pos, r, live, same, rfl⟩ := found it item
    exact .inl ⟨pos, r, live, same, Prod.ext item rfl⟩
  | none =>
    exact .inr ⟨Prod.ext item rfl, fun answered => absent item (answered.right (.later 1))⟩

theorem OnlyAsked.clean (only : OnlyAsked s s') : s'.cleanBlkNums = s.cleanBlkNums := by
  obtain ⟨n, rfl⟩ := only
  rfl

/-- What `aos_kv_set` does. -/
theorem aosKvSet_spec (sound : Sound s logs) (flashOk : s.FlashOk) (keyPos : key ≠ [])
    (keyStr : 0 ∉ key) (val : Bytes) :
    SetResult s (lookedUp c s key) logs key val (aosKvSet c s key val) := by
  unfold aosKvSet
  split
  case isTrue refused =>
    refine .unchanged .rfl sound rfl nofun fun _ ⟨valPos, keyMax, valMax⟩ => ?_
    omega
  case isFalse accepted =>
  simp only [not_or, Nat.not_lt] at accepted
  obtain ⟨valPos, keyMax, valMax⟩ := accepted
  rw [s.osMutexLock_eq]
  cases first : (s.env s.asked).ok
  case false =>
    exact .unchanged (.later 1) (sound.later 1) rfl nofun fun _ _ answered =>
      absurd answered (KvState.not_answered_later first)
  obtain ⟨all, looked⟩ := lookedUp_cases sound.readable key
  have sound' := all.sound sound
  have flashOk' : (lookedUp c s key).FlashOk := all.precedes.flashOk flashOk
  have tight (len : Nat) : Tight c (lookedUp c s key) len → Tight c s len := by
    obtain ⟨n, eq⟩ := all
    rw [eq]
    exact id
  have leaves {n len : Nat} (h : n = (lookedUp c s key).cleanBlkNums ∨
      Leaves c (lookedUp c s key) len ∧ n + 1 = (lookedUp c s key).cleanBlkNums) :
      n = s.cleanBlkNums ∨ Leaves c s len ∧ n + 1 = s.cleanBlkNums := by
    rw [all.clean] at h
    exact h.imp id fun ⟨leave, count⟩ => ⟨leave.imp_left (tight len), count⟩
  dsimp only
  rcases looked with ⟨pos, r, live, same, got⟩ | ⟨got, absent⟩
  · have result := kvItemUpdate_spec sound' flashOk' live same (Nat.pos_of_ne_zero valPos) valMax
    rw [got]
    dsimp only
    generalize kvItemUpdate c (lookedUp c s key) (r.foundAt pos) key val = result' at result
    cases result with
    | endless tight' => exact .endless (tight _ tight')
    | unchanged after sound'' clean same cause =>
      exact .unchanged (all.precedes.trans after) sound'' (clean.trans all.clean) same
        fun no accepted answered => tight _ (cause no accepted (answered.right all.precedes))
    | replaced after sound'' hasKey hasVal replaced found absent clean =>
      refine .replaced (all.precedes.trans after) sound'' hasKey hasVal replaced found
        (fun none_ answered => absent none_ ?_) (leaves clean) after
      exact ⟨fun n low high => absurd high (Nat.not_lt.mpr low),
        fun n low high => absurd high (Nat.not_lt.mpr low)⟩
  · let r := storedRecord c key val 0 (length_pos_iff.mpr keyPos) keyMax keyStr
      (Nat.pos_of_ne_zero valPos) valMax ((Nat.zero_le _).trans_lt c.totalSize_lt)
    have result : StoreResult (lookedUp c s key) logs r
        (kvItemStore c (lookedUp c s key) key val 0) :=
      kvItemStore_spec sound' flashOk' rfl rfl
    rw [got]
    dsimp only
    generalize kvItemStore c (lookedUp c s key) key val 0 = stored at result
    cases result with
    | endless tight' => exact .endless (tight _ tight')
    | failed error after sound'' clean cause =>
      exact .unchanged (all.precedes.trans after) sound'' (clean.trans all.clean)
        (fun ok => absurd ok error) fun _ _ answered =>
          tight _ (cause (answered.right all.precedes))
    | stored after valid sound'' clean =>
      exact .replaced (all.precedes.trans after) sound'' rfl rfl (.append valid rfl)
        nofun (fun _ => absent) (leaves clean) after

/-- The results of `aos_kv_del`. -/
inductive DelResult (s t : KvState) (logs : Logs c) (key : Bytes) : Res × KvState → Prop where
  | unchanged {res : Res} {s' : KvState} (error : res ≠ .ok) (after : s.Precedes s')
      (sound : Sound s' logs) (clean : s'.cleanBlkNums = s.cleanBlkNums)
      (absent : res = .itemNotFound → s.Answered t → ∀ pos r, LiveAt logs pos r → r.key ≠ key) :
    DelResult s t logs key (res, s')
  | removed {s' : KvState} {logs' : Logs c} {pos : Nat} {r : Record c} (after : s.Precedes s')
      (sound : Sound s' logs') (clean : s'.cleanBlkNums = s.cleanBlkNums)
      (live : LiveAt logs pos r) (hasKey : r.key = key)
      (removed : Replaced logs logs' (some pos) none) :
    DelResult s t logs key (.ok, s')

/-- What `aos_kv_del` does. -/
theorem aosKvDel_spec (sound : Sound s logs) (flashOk : s.FlashOk) (key : Bytes) :
    DelResult s (lookedUp c s key) logs key (aosKvDel c s key) := by
  unfold aosKvDel
  rw [s.osMutexLock_eq]
  cases (s.env s.asked).ok
  case false => exact .unchanged nofun (.later 1) (sound.later 1) rfl nofun
  dsimp only
  obtain ⟨all, ⟨pos, r, live, same, got⟩ | ⟨got, absent⟩⟩ := lookedUp_cases sound.readable key
  · obtain ⟨s', logs', removed, after, sound', clean, replaced⟩ :=
      itemRemove_live (all.sound sound) (all.precedes.flashOk flashOk) live
    rw [got]
    show DelResult s _ logs key (itemRemove c (lookedUp c s key) pos)
    rw [removed]
    exact .removed (all.precedes.trans after) sound' (clean.trans all.clean) live same replaced
  · rw [got]
    exact .unchanged nofun all.precedes (all.sound sound) all.clean fun _ => absent

/-- The results of `aos_kv_get` with a buffer of `n` bytes. -/
inductive GetResult (s : KvState) (logs : Logs c) (key : Bytes) (n : Nat) :
    Res × Bytes × Nat × KvState → Prop where
  | invalid (none_ : n = 0) : GetResult s logs key n (.invalidParam, [], n, s)
  | fault {s' : KvState} (only : OnlyAsked s s') (failed : ¬ s.Answered s') :
    GetResult s logs key n (.mutexErr, [], n, s')
  | absent {s' : KvState} (only : OnlyAsked s s')
      (absent : s.Answered s' → ∀ pos r, LiveAt logs pos r → r.key ≠ key) :
    GetResult s logs key n (.itemNotFound, [], n, s')
  | long {s' : KvState} {pos : Nat} {r : Record c} (only : OnlyAsked s s')
      (live : LiveAt logs pos r) (hasKey : r.key = key) (long : n < r.val.length) :
    GetResult s logs key n (.noSpace, [], r.val.length, s')
  | found {s' : KvState} {pos : Nat} {r : Record c} (only : OnlyAsked s s')
      (live : LiveAt logs pos r) (hasKey : r.key = key) (fits : r.val.length ≤ n) :
    GetResult s logs key n (.ok, r.val, r.val.length, s')

/-- What `aos_kv_get` does. -/
theorem aosKvGet_spec (readable : Readable s logs) (key : Bytes) (n : Nat) :
    GetResult s logs key n (aosKvGet c s key n) := by
  unfold aosKvGet
  split
  case isTrue zero => exact .invalid zero
  rw [s.osMutexLock_eq]
  cases first : (s.env s.asked).ok
  case false => exact .fault ⟨1, rfl⟩ (KvState.not_answered_later first)
  dsimp only
  obtain ⟨all, ⟨pos, r, live, same, got⟩ | ⟨got, absent⟩⟩ := lookedUp_cases readable key
  · have keyLen : (r.foundAt pos).hdr.keyLen.toNat = r.key.length := r.hdr_keyLen
    have valLen : (r.foundAt pos).hdr.valLen = r.val.length := rfl
    have store : ((r.foundAt pos).store.getD []).drop r.key.length = r.val := drop_left
    rw [got]
    dsimp only
    rw [keyLen, valLen, store, take_length]
    split
    case isTrue long => exact .long all live same long
    case isFalse fits => exact .found all live same (Nat.not_lt.mp fits)
  · rw [got]
    exact .absent all absent

/-- A lookup changes nothing. -/
theorem aosKvGet_onlyAsked (readable : Readable s logs) (key : Bytes) (n : Nat) :
    OnlyAsked s (aosKvGet c s key n).2.2.2 := by
  have result := aosKvGet_spec readable key n
  generalize aosKvGet c s key n = outcome at result
  cases result with
  | invalid => exact .rfl
  | fault only | absent only | long only | found only => exact only

end AliosThings.Kv
