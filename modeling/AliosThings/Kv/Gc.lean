import AliosThings.Kv.Calls

/-!
# Garbage collection

A run of `kv_gc_task` copies the live items of one dirty block to a clean block and formats the
dirty one. While it copies, the clean block already holds items but still has the state CLEAN;
`Copying` describes this phase, for any answers of the environment. The scan that copies may end
early; the dirty block is then formatted all the same, and the items behind that point are lost.
-/

namespace AliosThings.Kv

open KvState (Precedes)
open List Function

variable {c : Conf}

/-- The live entries of a log, in order. -/
def liveOf (log : List (Entry c)) : List (Entry c) := log.filter fun e => e.Live

theorem liveOf_append (log log' : List (Entry c)) :
    liveOf (log ++ log') = liveOf log ++ liveOf log' := filter_append ..

theorem logSize_liveOf_le (log : List (Entry c)) : logSize (liveOf log) ≤ logSize log := by
  induction log with
  | nil => exact le_rfl
  | cons e log ih =>
    unfold liveOf at ih ⊢
    rw [filter_cons]
    split <;> simp only [logSize_cons] <;> omega

/-- A collection that began in `start` has written `copied` to block `gcIdx`. -/
structure Copying (start s : KvState) (gcIdx : Nat) (copied : List (Entry c)) : Prop where
  others : ∀ b, b ≠ gcIdx → Mem.SameOn start.flash s.flash (c.blkStart b) c.blkSize
  header : Mem.SameOn start.flash s.flash (c.blkStart gcIdx) blkHdrSize
  target : Holds s.flash gcIdx copied
  place : s.writePos = logEnd gcIdx copied
  info : s.blockInfo = update start.blockInfo gcIdx
    { start.blockInfo gcIdx with space := c.blkStart gcIdx + c.blkSize - logEnd gcIdx copied }
  clean : s.cleanBlkNums = start.cleanBlkNums
  written : ∀ b < c.blkNums,
    itemWrites c b s.ops = if b = gcIdx then extents gcIdx copied else itemWrites c b start.ops

variable {r : Record c}

namespace Copying

variable {start s : KvState} {gcIdx : Nat} {copied : List (Entry c)}

theorem later (copying : Copying start s gcIdx copied) (n : Nat) :
    Copying start (s.later n) gcIdx copied := by
  obtain ⟨others, header, target, place, info, clean, written⟩ := copying
  exact ⟨others, header, target, place, info, clean, written⟩

/-- One more item is copied. -/
theorem append (copying : Copying start s gcIdx copied) (valid : gcIdx < c.blkNums) {bs : Bytes}
    (image : r.Image bs) (room : logEnd gcIdx copied + r.size < c.blkStart gcIdx + c.blkSize) :
    Copying start (s.appended gcIdx bs) gcIdx (copied ++ [.item r]) := by
  have place := copying.place
  have stop : logEnd gcIdx (copied ++ [.item r]) = logEnd gcIdx copied + r.size :=
    logEnd_concat gcIdx copied (.item r)
  refine ⟨fun b apart => ?_, copying.header.trans (s.appended_header place), ?_, ?_, ?_,
    copying.clean, fun b validB => ?_⟩
  · exact (copying.others b apart).trans (s.appended_sameOn place room image apart)
  · rw [s.appended_flash place]
    exact copying.target.append image room
  · rw [stop, ← place, ← image.length]
    rfl
  · have space : (s.blockInfo gcIdx) = { start.blockInfo gcIdx with
        space := c.blkStart gcIdx + c.blkSize - logEnd gcIdx copied } := by
      rw [copying.info, update_self]
    show update s.blockInfo gcIdx
      { s.blockInfo gcIdx with space := (s.blockInfo gcIdx).space - bs.length } = _
    rw [space, copying.info, update_idem, stop, image.length, Nat.sub_sub]
  · rw [s.appended_itemWrites place room image valid, copying.written b validB]
    split
    · rw [extents_concat]
      rfl
    · rfl

end Copying

/-! ## The callback -/

variable {pos gcIdx blk : Nat} {start s : KvState}

/-- The callback copies the item, or something fails and it has copied nothing. -/
theorem itemGcCb_visit {copied : List (Entry c)} (copying : Copying start s gcIdx copied)
    (valid : gcIdx < c.blkNums) (at_ : (Entry.item r).At s.flash pos)
    (room : logEnd gcIdx copied + r.size < c.blkStart gcIdx + c.blkSize) :
    Visit s (itemGcCb c s (r.itemAt pos) [])
      (fun s' => Copying start s' gcIdx (copied ++ [.item r]))
      (fun _ _ => False) (fun s' => Copying start s' gcIdx copied) := by
  have size : c.align (c.itemHdrSize + (r.itemAt pos).len) = r.size := rfl
  have place : (r.itemAt pos).pos = pos := rfl
  unfold itemGcCb
  rw [size, place]
  dsimp only
  rw [s.osMalloc_eq]
  cases first : (s.env s.asked).ok
  case false =>
    exact ⟨.later 1, nofun, nofun, fun _ _ =>
      ⟨KvState.not_answered_later first, copying.later 1⟩⟩
  dsimp only
  rw [(s.later 1).partitionRead_eq, s.later_later]
  cases second : ((s.later 1).env (s.later 1).asked).ok
  case false =>
    exact ⟨.later 2, nofun, nofun, fun _ _ =>
      ⟨KvState.not_answered_later second, copying.later 2⟩⟩
  have flash : (s.later 1).flash = s.flash := rfl
  have writePos : (s.later 2).writePos = s.writePos := rfl
  have copying' := copying.later 2
  have image := at_.image
  obtain ⟨next, block, left⟩ := KvState.appended_exact copying.place room valid (by
    rw [copying.info, update_self])
  simp only [if_true, flash, length_map, length_range, KvState.partitionWrite, KvState.perform]
  cases third : (s.later 2).driver (s.later 2).driven with
  | false =>
    refine ⟨⟨rfl, rfl, Nat.le_add_right _ _, Nat.le_succ _⟩, by simp, by simp, fun _ _ =>
      ⟨fun answered => ?_, ?_⟩⟩
    · have ok := answered.driven s.driven le_rfl (Nat.lt_succ_self _)
      rw [show s.driver s.driven = false from third] at ok
      cases ok
    · obtain ⟨others, header, target, place, info, clean, written⟩ := copying'
      exact ⟨others, header, target, place, info, clean, written⟩
  | true =>
    refine ⟨⟨rfl, rfl, Nat.le_add_right _ _, Nat.le_succ _⟩, fun _ => ?_, by simp,
      fun no => absurd rfl no⟩
    have appended := copying'.append valid image room
    simp only [if_true, writePos, next, block]
    rw [show ((s.later 2).blockInfo gcIdx).space = (s.blockInfo gcIdx).space from rfl, left]
    rw [KvState.appended, image.length, writePos] at appended
    exact appended

/-! ## The scan that copies -/

/-- The collection moves the live items of the dirty block `blk` to the clean block `gcIdx`. -/
structure Chosen (c : Conf) (s : KvState) (gcIdx blk : Nat) : Prop where
  validGc : gcIdx < c.blkNums
  validBlk : blk < c.blkNums
  clean : (s.blockInfo gcIdx).state = blkStateClean
  dirty : (s.blockInfo blk).state = blkStateDirty

theorem Chosen.apart (chosen : Chosen c s gcIdx blk) : blk ≠ gcIdx := by
  rintro rfl
  exact absurd (chosen.dirty.symm.trans chosen.clean) (by decide)

/-- The state in which the scan of the dirty block begins. -/
def gcStart (c : Conf) (s : KvState) (gcIdx : Nat) : KvState :=
  { s.later 1 with writePos := (c.blkStart gcIdx + blkHdrSize) % c.sizeMod }

/-- The state in which the scan of the dirty block ends. -/
def gcScanned (c : Conf) (s : KvState) (gcIdx blk : Nat) : KvState :=
  (kvItemTraverse c (itemGcCb c) (gcStart c s gcIdx) blk []).2

variable {logs : Logs c}

section

variable (layout : Layout s logs) (chosen : Chosen c s gcIdx blk)
include layout chosen

/-- Nothing has been copied yet. -/
theorem Layout.copying :
    Copying (gcStart c s gcIdx) (gcStart c s gcIdx) gcIdx ([] : List (Entry c)) := by
  have ok := layout.block gcIdx chosen.validGc
  have empty := ok.clean chosen.clean
  rw [empty] at ok
  have small := c.totalSize_lt
  have stop := c.blkEnd_le chosen.validGc
  have header := c.blkHdrSize_lt
  refine ⟨fun _ _ _ _ _ => rfl, fun _ _ _ => rfl, ok.holds, ?_, ?_, rfl, fun b valid => ?_⟩
  · exact Nat.mod_eq_of_lt (by omega)
  · rw [eq_comm, update_eq_self_iff]
    have space : ((gcStart c s gcIdx).blockInfo gcIdx).space = _ := ok.space
    rw [← space]
  · split
    case isTrue same =>
      rw [same]
      exact (layout.written gcIdx chosen.validGc).trans (by rw [empty])
    case isFalse => rfl

/-- The dirty block keeps its log. -/
theorem Layout.source {t : KvState} {copied : List (Entry c)}
    (copying : Copying (gcStart c s gcIdx) t gcIdx copied) : Holds t.flash blk (logs blk) := by
  exact (layout.block blk chosen.validBlk).holds.congr (behindHdr (copying.others blk chosen.apart))

/-- The live entries among those that have been visited are copied. -/
theorem gc_rule : ScanRule c (itemGcCb c) blk []
      (fun before after s' => logs blk = before ++ after ∧
        Copying (gcStart c s gcIdx) s' gcIdx (liveOf before))
      (fun _ _ => False)
      (fun s' => ∃ before after, logs blk = before ++ after ∧
        Copying (gcStart c s gcIdx) s' gcIdx (liveOf before)) where
  valid := chosen.validBlk
  holds := fun _ _ _ ⟨split, copying⟩ => split ▸ layout.source chosen copying
  later := fun _ _ _ n ⟨split, copying⟩ => ⟨split, copying.later n⟩
  stop := fun before after _ now => ⟨before, after, now⟩
  visit := by
    rintro before r after s' ⟨split, copying⟩ normal
    have fits := layout.fits blk chosen.validBlk
    have holds : Holds s'.flash blk (before ++ .item r :: after) :=
      split ▸ layout.source chosen copying
    have room : logEnd gcIdx (liveOf before) + r.size < c.blkStart gcIdx + c.blkSize := by
      have less := logSize_liveOf_le before
      rw [split] at fits
      simp only [logEnd, logSize_append, logSize_cons, Entry.size] at fits ⊢
      omega
    have copied : liveOf (before ++ [.item r]) = liveOf before ++ [.item r] := by
      rw [liveOf_append]
      congr 1
      exact filter_cons_of_pos (decide_eq_true (show (Entry.item r).Live from normal))
    have visit := itemGcCb_visit copying chosen.validGc holds.entry room
    refine ⟨visit.after, fun cont => ?_, visit.found, fun no no' => ?_⟩
    · refine ⟨before ++ [.item r], after, by simp [Entry.size], rfl, by simp [split], ?_⟩
      rw [copied]
      exact visit.next cont
    · exact ⟨(visit.stop no no').1, before, .item r :: after, split, (visit.stop no no').2⟩
  pass := by
    rintro before e after s' ⟨split, copying⟩ dead
    have dirty : (s'.blockInfo blk).state = blkStateDirty := by
      rw [copying.info, update_of_ne chosen.apart]
      exact chosen.dirty
    have unused : ¬ (s'.blockInfo blk).state = blkStateUsed := by
      rw [dirty]
      decide
    have same : markDirty c s' blk = s' := if_neg unused
    have copied : liveOf (before ++ [e]) = liveOf before := by
      rw [liveOf_append]
      have none_ : liveOf [e] = [] := filter_cons_of_neg (by simpa using dead)
      rw [none_, append_nil]
    rw [same, copied]
    exact ⟨.rfl, by simp [split], copying⟩

/-- The scan copies the live items of a first part of the log; of the whole log, if every call
succeeds. -/
theorem gcScanned_spec : ∃ before after, logs blk = before ++ after ∧
      (gcStart c s gcIdx).Precedes (gcScanned c s gcIdx blk) ∧
      Copying (gcStart c s gcIdx) (gcScanned c s gcIdx blk) gcIdx (liveOf before) ∧
      ((gcStart c s gcIdx).Answered (gcScanned c s gcIdx blk) → after = []) := by
  have scan := ((gc_rule layout chosen).traverse ⟨rfl, layout.copying chosen⟩).scan
  unfold gcScanned
  generalize kvItemTraverse c (itemGcCb c) (gcStart c s gcIdx) blk [] = result at scan
  cases scan
  case found after found => exact found.elim
  case stopped after fault stop =>
    obtain ⟨before, rest, split, copying⟩ := stop
    exact ⟨before, rest, split, after, copying, fun answered => absurd answered fault⟩
  case complete after ended =>
  obtain ⟨log, s', ⟨split, copying⟩, rfl⟩ := ended
  rw [append_nil] at split
  have space : SpaceOk s' blk log := by
    unfold SpaceOk
    rw [copying.info, update_of_ne chosen.apart, ← split]
    exact (layout.block blk chosen.validBlk).space
  have fits := layout.fits blk chosen.validBlk
  rw [split] at fits
  rw [recordSpace_eq space fits] at after ⊢
  exact ⟨log, [], by rw [split, append_nil], after, copying, fun _ => rfl⟩

end

/-! ## The run of the task -/

/-- The two blocks of a collection, if there is one. -/
def gcChoice (c : Conf) (s : KvState) : Option (Nat × Nat) :=
  if (s.env s.asked).ok ∧ s.cleanBlkNums ≠ 0 then
    ((range c.blkNums).find? fun i => (s.blockInfo i).state = blkStateClean).bind fun gcIdx =>
      ((cyclicFrom c (s.writePos / c.blkSize)).find? fun i =>
        (s.blockInfo i).state = blkStateDirty).map fun blk => (gcIdx, blk)
  else none

/-- What follows the scan: the dirty block is formatted and the other one is in use. -/
def gcFinish (c : Conf) (gcIdx blk : Nat) (s : KvState) : KvState :=
  match kvBlockFormat c s blk with
  | (.ok, s) =>
    let s := (kvStateSet s (c.blkOff s.writePos) blkStateUsed).2
    { s.setBlkState gcIdx blkStateUsed with
      cleanBlkNums := (s.cleanBlkNums + (2 ^ 8 - 1)) % 2 ^ 8 }
  | (_, s) => s

theorem gcLoop_eq (gcIdx originPos : Nat) (blks : List Nat) (s : KvState) :
    gcLoop c gcIdx originPos blks s =
      match blks.find? fun i => (s.blockInfo i).state = blkStateDirty with
      | none => { s with writePos := originPos }
      | some blk => gcFinish c gcIdx blk (kvItemTraverse c (itemGcCb c) s blk []).2 := by
  induction blks with
  | nil => rfl
  | cons blk blks ih =>
    unfold gcLoop
    by_cases dirty : (s.blockInfo blk).state = blkStateDirty
    · rw [if_pos dirty, find?_cons_of_pos (by simpa using dirty)]
      rfl
    · rw [if_neg dirty, find?_cons_of_neg (by simpa using dirty)]
      exact ih

/-- The trigger is cleared at the end of every run. -/
def gcDone (s : KvState) : KvState := { s with gcTrigger := false }

theorem kvGcTask_eq (c : Conf) (s : KvState) :
    kvGcTask c s = gcDone (match gcChoice c s with
      | none => s.later 1
      | some (gcIdx, blk) => gcFinish c gcIdx blk (gcScanned c s gcIdx blk)) := by
  have info : (s.later 1).blockInfo = s.blockInfo := rfl
  have clean : (s.later 1).cleanBlkNums = s.cleanBlkNums := rfl
  unfold kvGcTask gcChoice
  rw [s.osMutexLock_eq]
  cases (s.env s.asked).ok
  case false =>
    rfl
  dsimp only
  rw [clean, info]
  by_cases zero : s.cleanBlkNums = 0
  · rw [if_pos zero, if_neg (fun both => both.2 zero)]
    rfl
  rw [if_neg zero, if_pos ⟨rfl, zero⟩]
  cases (range c.blkNums).find? fun i =>
      decide ((s.blockInfo i).state = blkStateClean) with
  | none => rfl
  | some gcIdx =>
    show gcDone (gcLoop c gcIdx s.writePos (cyclicFrom c (s.writePos / c.blkSize))
      (gcStart c s gcIdx)) = _
    rw [gcLoop_eq, Option.bind_some]
    show gcDone (match (cyclicFrom c (s.writePos / c.blkSize)).find? fun i =>
      decide ((s.blockInfo i).state = blkStateDirty) with
      | none => _
      | some blk => _) = _
    cases (cyclicFrom c (s.writePos / c.blkSize)).find? fun i =>
        decide ((s.blockInfo i).state = blkStateDirty) <;> rfl

/-- The block that is chosen is dirty. -/
theorem gcChoice_chosen (choice : gcChoice c s = some (gcIdx, blk)) : Chosen c s gcIdx blk := by
  unfold gcChoice at choice
  split at choice
  case isTrue =>
    obtain ⟨g, target, mapped⟩ := Option.bind_eq_some_iff.mp choice
    obtain ⟨b, source, eq⟩ := Option.map_eq_some_iff.mp mapped
    cases eq
    have inRange := mem_of_find?_eq_some target
    have inCycle := mem_of_find?_eq_some source
    obtain ⟨i, -, rfl⟩ := mem_map.mp inCycle
    have two := c.two_le_blkNums
    exact ⟨mem_range.mp inRange, Nat.mod_lt _ (by omega),
      by simpa using find?_some target, by simpa using find?_some source⟩
  case isFalse => cases choice

/-! ## What a run does to the logs -/

/-- The logs after a collection. -/
def collected (logs : Logs c) (gcIdx blk : Nat) (copied : List (Entry c)) : Logs c :=
  update (update logs gcIdx copied) blk []

variable {b a : Nat} {log copied before after : List (Entry c)} {t : KvState} {e : Entry c}

/-- The position that is marked as in use is the one of the block that has been filled. -/
theorem Copying.blkOff_eq (copying : Copying start t gcIdx copied) (valid : gcIdx < c.blkNums) :
    c.blkOff t.writePos = c.blkStart gcIdx := by
  rw [copying.place, Conf.blkOff, (blkOf_logEnd valid copying.target.fits).1]
  rfl

theorem collected_self (logs : Logs c) (gcIdx blk : Nat) (copied : List (Entry c)) :
    collected logs gcIdx blk copied blk = [] :=
  update_self ..

theorem collected_target (chosen : Chosen c s gcIdx blk) :
    collected logs gcIdx blk copied gcIdx = copied := by
  rw [collected, update_of_ne (chosen.apart.symm), update_self]

theorem collected_other (notBlk : b ≠ blk) (notGc : b ≠ gcIdx) :
    collected logs gcIdx blk copied b = logs b := by
  rw [collected, update_of_ne notBlk, update_of_ne notGc]

/-- The items that are live after a collection: the copied ones, and those of the other blocks. -/
theorem LiveAt.collected (chosen : Chosen c s gcIdx blk)
    (live : LiveAt (collected logs gcIdx blk copied) pos r) :
    (pos, .item r) ∈ placed (c.blkStart gcIdx + blkHdrSize) copied ∨
      ∃ b < c.blkNums, b ≠ blk ∧ (pos, .item r) ∈ placed (c.blkStart b + blkHdrSize) (logs b) := by
  obtain ⟨⟨b, valid, mem⟩, -⟩ := live
  by_cases isBlk : b = blk
  · rw [isBlk, collected_self] at mem
    cases mem
  by_cases isGc : b = gcIdx
  · rw [isGc, collected_target chosen] at mem
    exact .inl mem
  · rw [collected_other isBlk isGc] at mem
    exact .inr ⟨b, valid, isBlk, mem⟩

theorem mem_liveOf : e ∈ liveOf log ↔ e ∈ log ∧ e.Live := by
  simp [liveOf]

/-- An item that has been copied was live in the block that is collected. -/
theorem LiveAt.of_copied (chosen : Chosen c s gcIdx blk) (split : logs blk = before ++ after)
    (mem : .item r ∈ liveOf before) :
    ∃ pos, (pos, .item r) ∈ placed (c.blkStart blk + blkHdrSize) (logs blk) ∧
      LiveAt logs pos r := by
  obtain ⟨inside, normal⟩ := mem_liveOf.mp mem
  obtain ⟨l, l', eq⟩ := append_of_mem inside
  have here : (logEnd blk l, Entry.item r) ∈ placed (c.blkStart blk + blkHdrSize) (logs blk) :=
    mem_placed.mpr ⟨l, l' ++ after, by simp [split, eq], rfl⟩
  exact ⟨_, here, ⟨blk, chosen.validBlk, here⟩, normal⟩

theorem mem_of_mem_placed (mem : (pos, e) ∈ placed a log) : e ∈ log := by
  obtain ⟨l, l', rfl, -⟩ := mem_placed.mp mem
  simp

/-- A collection makes nothing live. -/
theorem LiveAt.of_collected (chosen : Chosen c s gcIdx blk) (split : logs blk = before ++ after)
    (live : LiveAt (Kv.collected logs gcIdx blk (liveOf before)) pos r) :
    ∃ pos', LiveAt logs pos' r := by
  rcases live.collected chosen with copied | ⟨b, valid, -, mem⟩
  · obtain ⟨pos', -, live'⟩ := LiveAt.of_copied chosen split (mem_of_mem_placed copied)
    exact ⟨pos', live'⟩
  · exact ⟨pos, ⟨b, valid, mem⟩, live.2⟩

/-- No key has two live entries in a log that begins at position `a`. -/
def KeysApart (a : Nat) (log : List (Entry c)) : Prop :=
  ∀ p r p' r', (p, Entry.item r) ∈ placed a log → (p', Entry.item r') ∈ placed a log →
    r.Normal → r'.Normal → r.key = r'.key → p = p'

theorem liveOf_split {l m : List (Entry c)} (split : liveOf log = l ++ e :: m) :
    ∃ before after, log = before ++ e :: after ∧ liveOf before = l := by
  obtain ⟨first, rest, rfl, rfl, tail⟩ := filter_eq_append_iff.mp split
  obtain ⟨dead, after, rfl, none_, -⟩ := filter_eq_cons_iff.mp tail
  refine ⟨first ++ dead, after, (append_assoc ..).symm, ?_⟩
  have nothing : liveOf dead = [] := filter_eq_nil_iff.mpr none_
  rw [liveOf_append, nothing, append_nil]
  rfl

theorem KeysApart.liveOf (unique : KeysApart a log) (b : Nat) : KeysApart b (liveOf log) := by
  intro p r p' r' mem mem' normal normal' same
  obtain ⟨l, m, split, rfl⟩ := mem_placed.mp mem
  obtain ⟨l', m', split', rfl⟩ := mem_placed.mp mem'
  obtain ⟨before, after, is, rfl⟩ := liveOf_split split
  obtain ⟨before', after', is', rfl⟩ := liveOf_split split'
  have place := unique _ r _ r' (mem_placed.mpr ⟨before, after, is, rfl⟩)
    (mem_placed.mpr ⟨before', after', is', rfl⟩) normal normal' same
  rw [(split_unique (is.symm.trans is') (Nat.add_left_cancel place)).1]

/-- A collection leaves each key at most one live item. -/
theorem Unique.collected (unique : Unique logs) (fits : Fits logs) (chosen : Chosen c s gcIdx blk)
    (split : logs blk = before ++ after) :
    Unique (Kv.collected logs gcIdx blk (liveOf before)) := by
  -- A copied item and an item of another block have different keys.
  have across {r r' : Record c} {b pos' : Nat} (copied : .item r ∈ liveOf before)
      (valid : b < c.blkNums) (apart : b ≠ blk)
      (mem : (pos', .item r') ∈ placed (c.blkStart b + blkHdrSize) (logs b)) (normal : r'.Normal) :
      r.key ≠ r'.key := by
    intro same
    obtain ⟨pos, here, live⟩ := LiveAt.of_copied chosen split copied
    have place := unique pos r pos' r' live ⟨⟨b, valid, mem⟩, normal⟩ same
    subst place
    exact apart ((fits.blkOf_eq valid mem).symm.trans (fits.blkOf_eq chosen.validBlk here))
  have inside : KeysApart (c.blkStart blk + blkHdrSize) before := by
    intro p r p' r' mem mem' normal normal' same
    have more {q : Nat} {e : Entry c} (mem : (q, e) ∈ placed (c.blkStart blk + blkHdrSize) before) :
        (q, e) ∈ placed (c.blkStart blk + blkHdrSize) (logs blk) := by
      rw [split, placed_append]
      exact mem_append_left _ mem
    exact unique p r p' r' ⟨⟨blk, chosen.validBlk, more mem⟩, normal⟩
      ⟨⟨blk, chosen.validBlk, more mem'⟩, normal'⟩ same
  intro pos r pos' r' live live' same
  rcases live.collected chosen with copied | ⟨b, valid, apart, mem⟩
  · rcases live'.collected chosen with copied' | ⟨b', valid', apart', mem'⟩
    · exact inside.liveOf _ pos r pos' r' copied copied' live.2 live'.2 same
    · exact absurd same (across (mem_of_mem_placed copied) valid' apart' mem' live'.2)
  · rcases live'.collected chosen with copied' | ⟨b', valid', apart', mem'⟩
    · exact absurd same.symm (across (mem_of_mem_placed copied') valid apart mem live.2)
    · exact unique pos r pos' r' ⟨⟨b, valid, mem⟩, live.2⟩ ⟨⟨b', valid', mem'⟩, live'.2⟩ same

/-- If the whole log has been copied, every item that was live still is. -/
theorem LiveAt.survives (layout : Layout s logs) (chosen : Chosen c s gcIdx blk)
    (live : LiveAt logs pos r) :
    ∃ pos', LiveAt (Kv.collected logs gcIdx blk (liveOf (logs blk))) pos' r := by
  obtain ⟨⟨b, valid, mem⟩, normal⟩ := live
  by_cases isBlk : b = blk
  · have copied : .item r ∈ liveOf (logs blk) :=
      mem_liveOf.mpr ⟨isBlk ▸ mem_of_mem_placed mem, normal⟩
    obtain ⟨l, l', eq⟩ := append_of_mem copied
    refine ⟨logEnd gcIdx l, ⟨gcIdx, chosen.validGc, ?_⟩, normal⟩
    rw [collected_target chosen]
    exact mem_placed.mpr ⟨l, l', eq, rfl⟩
  · have isGc : b ≠ gcIdx := by
      rintro rfl
      rw [(layout.block b valid).clean chosen.clean] at mem
      cases mem
    refine ⟨pos, ⟨b, valid, ?_⟩, normal⟩
    rwa [collected_other isBlk isGc]

/-! ## The end of the run -/

/-- The state at the end, while the driver accepts every operation. -/
def gcEnd (c : Conf) (gcIdx blk : Nat) (t : KvState) : KvState :=
  (t.formatted c blk).marked c gcIdx blkStateUsed

/-- The states of the blocks when the dirty one has been formatted. -/
theorem Copying.formatted_state (copying : Copying (gcStart c s gcIdx) t gcIdx copied)
    (apart : b ≠ blk) : ((t.formatted c blk).blockInfo b).state = (s.blockInfo b).state := by
  have other : (t.formatted c blk).blockInfo b = t.blockInfo b := update_of_ne apart ..
  rw [other, copying.info]
  by_cases isGc : b = gcIdx
  · rw [isGc, update_self]
    rfl
  · rw [update_of_ne isGc]
    rfl

theorem Copying.isClean (copying : Copying (gcStart c s gcIdx) t gcIdx copied)
    (chosen : Chosen c s gcIdx blk) : ((t.formatted c blk).blockInfo gcIdx).state = blkStateClean :=
  (copying.formatted_state (chosen.apart.symm)).trans chosen.clean

theorem KvState.formatted_state_self (t : KvState) (blk : Nat) :
    ((t.formatted c blk).blockInfo blk).state = blkStateClean := by
  show (update t.blockInfo blk _ blk).state = _
  rw [update_self]

theorem gcEnd_state_target (t : KvState) (gcIdx blk : Nat) :
    ((gcEnd c gcIdx blk t).blockInfo gcIdx).state = blkStateUsed := by
  rw [gcEnd, KvState.marked_blockInfo_self]

theorem gcEnd_state_self (chosen : Chosen c s gcIdx blk) (t : KvState) :
    ((gcEnd c gcIdx blk t).blockInfo blk).state = blkStateClean := by
  rw [gcEnd, KvState.marked_blockInfo_other _ _ chosen.apart, t.formatted_state_self]

theorem Copying.gcEnd_state_other (copying : Copying (gcStart c s gcIdx) t gcIdx copied)
    (notBlk : b ≠ blk) (notGc : b ≠ gcIdx) :
    ((gcEnd c gcIdx blk t).blockInfo b).state = (s.blockInfo b).state := by
  rw [gcEnd, KvState.marked_blockInfo_other _ _ notGc, copying.formatted_state notBlk]

/-- The dirty block is not among the clean ones. -/
theorem Chosen.few (chosen : Chosen c s gcIdx blk) : cleanCount c s + 1 < 2 ^ 8 := by
  have less : cleanCount c s < c.blkNums := cleanCount_lt chosen.validBlk (by
    rw [chosen.dirty]
    decide)
  have small := c.blkNums_lt
  omega

section

variable (layout : Layout s logs) (chosen : Chosen c s gcIdx blk)
  (copying : Copying (gcStart c s gcIdx) t gcIdx copied)
include layout chosen copying

/-- A collection takes one clean block and makes one. -/
theorem gcEnd_clean : (gcEnd c gcIdx blk t).cleanBlkNums = s.cleanBlkNums := by
  have few := chosen.few
  have count : t.cleanBlkNums = s.cleanBlkNums := copying.clean
  rw [← layout.count] at few
  rw [gcEnd, KvState.marked, if_pos (copying.isClean chosen)]
  show (t.cleanBlkNums + 1) % 2 ^ 8 - 1 = _
  omega

theorem gcFinish_eq (flashOk : t.FlashOk) : gcFinish c gcIdx blk t = gcEnd c gcIdx blk t := by
  have few := chosen.few
  have clean : t.cleanBlkNums = s.cleanBlkNums := copying.clean
  have flashOk' : (t.formatted c blk).FlashOk := flashOk
  have place : c.blkOff (t.formatted c blk).writePos = c.blkStart gcIdx :=
    copying.blkOff_eq chosen.validGc
  have count : ((t.formatted c blk).cleanBlkNums + (2 ^ 8 - 1)) % 2 ^ 8 =
      (t.formatted c blk).cleanBlkNums - 1 := by
    rw [← layout.count] at few
    show ((t.cleanBlkNums + 1) % 2 ^ 8 + (2 ^ 8 - 1)) % 2 ^ 8 = (t.cleanBlkNums + 1) % 2 ^ 8 - 1
    omega
  unfold gcFinish
  rw [flashOk.kvBlockFormat_eq]
  dsimp only
  rw [place, flashOk'.kvStateSet_eq, gcEnd, KvState.marked, if_pos (copying.isClean chosen),
    ← count]
  rfl

end

/-- One block has become clean, and another one has not stayed it. -/
theorem gcEnd_count (chosen : Chosen c s gcIdx blk)
    (copying : Copying (gcStart c s gcIdx) t gcIdx copied) :
    cleanCount c (gcEnd c gcIdx blk t) = cleanCount c s := by
  have first : cleanCount c (t.formatted c blk) + _ = cleanCount c s + _ :=
    cleanCount_update chosen.validBlk fun b other => copying.formatted_state other
  have second : cleanCount c (gcEnd c gcIdx blk t) + _ = cleanCount c (t.formatted c blk) + _ :=
    cleanCount_update chosen.validGc fun b other => by
      rw [gcEnd, KvState.marked_blockInfo_other _ _ other]
  have notClean : ¬ (s.blockInfo blk).state = blkStateClean := by
    rw [chosen.dirty]
    decide
  have notClean' : ¬ ((gcEnd c gcIdx blk t).blockInfo gcIdx).state = blkStateClean := by
    rw [gcEnd_state_target]
    decide
  rw [if_pos (t.formatted_state_self blk), if_neg notClean] at first
  rw [if_pos (copying.isClean chosen), if_neg notClean'] at second
  omega

section

variable (layout : Layout s logs) (chosen : Chosen c s gcIdx blk)
  (copying : Copying (gcStart c s gcIdx) t gcIdx copied)
include layout chosen copying

/-- Every block holds its log. -/
theorem gcEnd_block (valid : b < c.blkNums) :
    BlockOk (gcEnd c gcIdx blk t) b (collected logs gcIdx blk copied b) := by
  have header := c.blkHdrSize_lt
  have ok := layout.block b valid
  by_cases isBlk : b = blk
  · subst isBlk
    rw [collected_self]
    exact (BlockOk.formatted_self t b).marked_other chosen.apart
  by_cases isGc : b = gcIdx
  · subst isGc
    have same := t.formatted_sameOn (c := c) isBlk
    have info : (t.formatted c blk).blockInfo b = t.blockInfo b := update_of_ne isBlk ..
    rw [collected_target chosen]
    refine .marked_self ?_ ?_ ?_ (.inl rfl)
    · rw [same _ (by omega) (by omega), copying.header _ (by omega) (by
        unfold blkHdrSize
        omega)]
      exact ok.magic
    · exact copying.target.congr (behindHdr same)
    · unfold SpaceOk
      rw [info, copying.info, update_self]
  · rw [collected_other isBlk isGc]
    have before_ : BlockOk t b (logs b) := by
      refine ok.congr (copying.others b isGc) ?_
      rw [copying.info, update_of_ne isGc]
      rfl
    exact (before_.formatted_other isBlk).marked_other isGc

/-- The record of the writes. -/
theorem gcEnd_written (valid : b < c.blkNums) : itemWrites c b (gcEnd c gcIdx blk t).ops =
      extents b (collected logs gcIdx blk copied b) := by
  have state : itemWrites c b (gcEnd c gcIdx blk t).ops =
      itemWrites c b (t.formatted c blk).ops := itemWrites_state
  rw [state, t.formatted_itemWrites]
  by_cases isBlk : b = blk
  · subst isBlk
    rw [if_pos rfl, collected_self]
    rfl
  rw [if_neg (Ne.symm isBlk), copying.written b valid]
  by_cases isGc : b = gcIdx
  · subst isGc
    rw [if_pos rfl, collected_target chosen]
  · rw [if_neg isGc, collected_other isBlk isGc]
    exact layout.written b valid

end

/-- Items go on behind the copies. -/
theorem gcEnd_writing (chosen : Chosen c s gcIdx blk)
    (copying : Copying (gcStart c s gcIdx) t gcIdx copied) :
    Writing (gcEnd c gcIdx blk t) (collected logs gcIdx blk copied) gcIdx := by
  refine ⟨chosen.validGc, ?_, ?_⟩
  · rw [gcEnd_state_target]
    decide
  · rw [collected_target chosen]
    exact copying.place

/-- A collection keeps the invariant of the store. -/
theorem Sound.collected (sound : Sound s logs) (chosen : Chosen c s gcIdx blk)
    (split : logs blk = before ++ after)
    (copying : Copying (gcStart c s gcIdx) t gcIdx (liveOf before)) :
    Sound (gcEnd c gcIdx blk t) (Kv.collected logs gcIdx blk (liveOf before)) := by
  have layout := sound.toLayout
  refine ⟨⟨fun b valid => gcEnd_block layout chosen copying valid, fun pos r live => ?_,
    ⟨gcIdx, gcEnd_writing chosen copying⟩, ?_,
    fun b valid => gcEnd_written layout chosen copying valid⟩, fun b valid => ?_⟩
  · obtain ⟨pos', live'⟩ := live.of_collected chosen split
    exact sound.checked pos' r live'
  · rw [gcEnd_clean layout chosen copying, gcEnd_count chosen copying]
    exact sound.count
  · by_cases isBlk : b = blk
    · intro used
      rw [isBlk, gcEnd_state_self chosen] at used
      exact absurd used (by decide)
    · by_cases isGc : b = gcIdx
      · rw [isGc, collected_target chosen]
        exact fun _ e mem => (mem_liveOf.mp mem).2
      · rw [collected_other isBlk isGc]
        intro used
        rw [copying.gcEnd_state_other isBlk isGc] at used
        exact sound.tidy b valid used

/-- Every call of the scan of a run succeeds. -/
def GcAnswered (c : Conf) (s : KvState) : Prop :=
  ∀ gcIdx blk, gcChoice c s = some (gcIdx, blk) →
    (gcStart c s gcIdx).Answered (gcScanned c s gcIdx blk)

theorem KvState.precedes_gcEnd (t : KvState) (gcIdx blk : Nat) :
    t.Precedes (gcEnd c gcIdx blk t) := by
  refine ⟨rfl, rfl, le_rfl, ?_⟩
  show t.driven ≤ t.driven + 2 + 1
  omega

/-- What a run of `kv_gc_task` does to the logs. -/
structure Gced (c : Conf) (s s' : KvState) (logs logs' : Logs c) : Prop where
  after : s.Precedes s'
  sound : Sound s' logs'
  clean : s'.cleanBlkNums = s.cleanBlkNums
  unique : Unique logs → Unique logs'
  source : ∀ pos r, LiveAt logs' pos r → ∃ pos', LiveAt logs pos' r
  survives : GcAnswered c s → ∀ pos r, LiveAt logs pos r → ∃ pos', LiveAt logs' pos' r

/-- A run that has found a dirty block, with a flash that accepts every operation. -/
theorem kvGcTask_chosen (layout : Layout s logs) (flashOk : s.FlashOk)
    (choice : gcChoice c s = some (gcIdx, blk)) :
    kvGcTask c s = gcDone (gcEnd c gcIdx blk (gcScanned c s gcIdx blk)) ∧
      (gcScanned c s gcIdx blk).Precedes (kvGcTask c s) := by
  have chosen := gcChoice_chosen choice
  obtain ⟨before, after, split, scanned, copying, complete⟩ := gcScanned_spec layout chosen
  have start : s.Precedes (gcStart c s gcIdx) := ⟨rfl, rfl, Nat.le_succ _, le_rfl⟩
  have task : kvGcTask c s = gcDone (gcEnd c gcIdx blk (gcScanned c s gcIdx blk)) := by
    rw [kvGcTask_eq, choice]
    dsimp only
    rw [gcFinish_eq layout chosen copying ((start.trans scanned).flashOk flashOk)]
  refine ⟨task, ?_⟩
  rw [task]
  exact (KvState.precedes_gcEnd _ gcIdx blk).trans ⟨rfl, rfl, le_rfl, le_rfl⟩

/-- A run that moves the live items of a first part of the log of block `blk` to block `gcIdx`. -/
theorem kvGcTask_collects (sound : Sound s logs) (flashOk : s.FlashOk)
    (choice : gcChoice c s = some (gcIdx, blk)) :
    ∃ before after, logs blk = before ++ after ∧ (GcAnswered c s → after = []) ∧
      Sound (kvGcTask c s) (Kv.collected logs gcIdx blk (liveOf before)) ∧
      Writing (kvGcTask c s) (Kv.collected logs gcIdx blk (liveOf before)) gcIdx ∧
      (kvGcTask c s).cleanBlkNums = s.cleanBlkNums ∧ s.Precedes (kvGcTask c s) := by
  have chosen := gcChoice_chosen choice
  have layout := sound.toLayout
  obtain ⟨before, after, split, scanned, copying, complete⟩ := gcScanned_spec layout chosen
  have start : s.Precedes (gcStart c s gcIdx) := ⟨rfl, rfl, Nat.le_succ _, le_rfl⟩
  obtain ⟨task, ended⟩ := kvGcTask_chosen layout flashOk choice
  have whole := (start.trans scanned).trans ended
  rw [task] at whole ⊢
  exact ⟨before, after, split, fun answered => complete (answered gcIdx blk choice),
    (sound.collected chosen split copying).congr rfl,
    gcEnd_writing chosen copying, gcEnd_clean layout chosen copying, whole⟩

/-- What a collection does. -/
theorem kvGcTask_spec (sound : Sound s logs) (flashOk : s.FlashOk) :
    ∃ logs', Gced c s (kvGcTask c s) logs logs' := by
  cases choice : gcChoice c s
  case none =>
    rw [kvGcTask_eq, choice]
    exact ⟨logs, ⟨rfl, rfl, Nat.le_succ _, le_rfl⟩, sound.congr rfl, rfl, id,
      fun pos r live => ⟨pos, live⟩, fun _ pos r live => ⟨pos, live⟩⟩
  case some pair =>
  obtain ⟨gcIdx, blk⟩ := pair
  have chosen := gcChoice_chosen choice
  obtain ⟨before, after, split, complete, sound', -, clean, later⟩ :=
    kvGcTask_collects sound flashOk choice
  refine ⟨Kv.collected logs gcIdx blk (liveOf before), later, sound', clean,
    fun unique => unique.collected sound.fits chosen split,
    fun pos r live => live.of_collected chosen split, fun answered pos r live => ?_⟩
  rw [complete answered, append_nil] at split
  rw [← split]
  exact live.survives sound.toLayout chosen

end AliosThings.Kv
