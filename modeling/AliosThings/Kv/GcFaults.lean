import AliosThings.Kv.RefinesMap

/-!
# Failures during a collection

The scan of `kv_gc_task` reports a failure and its normal end in the same way, so the dirty block
is formatted after both. If no call of the scan fails, no live item is lost, whatever fails
afterwards: an item is in the block it has been copied to, or still in its own.
-/

namespace AliosThings.Kv

open KvState (Precedes)
open List

variable {c : Conf} {s t start : KvState} {logs : Logs c} {gcIdx blk n b pos a : Nat} {r : Record c}

/-- An operation that the driver refuses does nothing. -/
theorem KvState.perform_sameOn (s : KvState) (op : FlashOp)
    (same : Mem.SameOn s.flash (op.run s.flash) a n) :
    Mem.SameOn s.flash (s.perform op).2.flash a n := by
  unfold KvState.perform
  split
  · exact same
  · exact fun _ _ _ => rfl

theorem KvState.perform_writePos (s : KvState) (op : FlashOp) :
    (s.perform op).2.writePos = s.writePos := by
  unfold KvState.perform
  split <;> rfl

/-- A block is formatted, or only erased, or nothing is done: the others are left alone. -/
theorem kvBlockFormat_sameOn (s : KvState) (apart : b ≠ blk) :
    Mem.SameOn s.flash (kvBlockFormat c s blk).2.flash (c.blkStart b) c.blkSize ∧
      (kvBlockFormat c s blk).2.writePos = s.writePos := by
  have header := c.blkHdrSize_lt
  have erase := s.perform_sameOn (.erase (c.blkStart blk) c.blkSize)
    (Mem.erase_sameOn (c.blkStart_apart apart))
  have place := s.perform_writePos (.erase (c.blkStart blk) c.blkSize)
  unfold kvBlockFormat KvState.partitionErase
  generalize s.perform (.erase (c.blkStart blk) c.blkSize) = erased at erase place
  obtain ⟨done, s₁⟩ := erased
  cases done
  case false => exact ⟨erase, place⟩
  have write := s₁.perform_sameOn
    (.write (c.blkStart blk) (BlockHdr.toBytes ⟨blkMagicNum, blkStateClean⟩))
    (sameOn_write apart le_rfl (by
      show c.blkStart blk + 4 ≤ _
      unfold blkHdrSize at header
      omega))
  have place' := s₁.perform_writePos
    (.write (c.blkStart blk) (BlockHdr.toBytes ⟨blkMagicNum, blkStateClean⟩))
  dsimp only [KvState.partitionWrite]
  generalize s₁.perform (.write (c.blkStart blk) (BlockHdr.toBytes ⟨blkMagicNum, blkStateClean⟩))
    = written at write place'
  obtain ⟨done, s₂⟩ := written
  cases done with
  | false | true => exact ⟨erase.trans write, place'.trans place⟩

/-- Behind the headers nothing but the collected block is changed after the scan. -/
theorem gcFinish_sameOn {copied : List (Entry c)} (copying : Copying start t gcIdx copied)
    (valid : gcIdx < c.blkNums) (apart : b ≠ blk) :
    Mem.SameOn t.flash (gcFinish c gcIdx blk t).flash (c.blkStart b + blkHdrSize)
      (c.blkSize - blkHdrSize) := by
  have header := c.blkHdrSize_lt
  obtain ⟨format, place⟩ := kvBlockFormat_sameOn t apart
  have format' := behindHdr format
  have block := copying.blkOff_eq valid
  rw [← place] at block
  unfold gcFinish
  generalize kvBlockFormat c t blk = formatted at format' block
  obtain ⟨res, s₁⟩ := formatted
  have mark : Mem.SameOn s₁.flash
      (kvStateSet s₁ (c.blkOff s₁.writePos) blkStateUsed).2.flash (c.blkStart b + blkHdrSize)
      (c.blkSize - blkHdrSize) := by
    refine s₁.perform_sameOn _ ?_
    rw [block]
    by_cases isGc : b = gcIdx
    · rw [isGc]
      exact (writeState_hdr s₁.flash gcIdx blkStateUsed).2.2
    refine behindHdr (sameOn_write isGc (Nat.le_add_right _ _) ?_)
    simp only [kvStateOff, length_singleton]
    omega
  cases res with
  | ok => exact format'.trans mark
  | _ => exact format'

/-- Every live item is in the flash after a run whose scan has not failed. -/
theorem kvGcTask_survives (layout : Layout s logs) (answered : GcAnswered c s)
    (live : LiveAt logs pos r) : ∃ pos', NormalAt (kvGcTask c s).flash pos' r := by
  rw [kvGcTask_eq]
  cases choice : gcChoice c s
  case none => exact ⟨pos, layout.normalAt_iff.mpr live⟩
  case some pair =>
  obtain ⟨gcIdx, blk⟩ := pair
  have chosen := gcChoice_chosen choice
  obtain ⟨before, after, split, scanned, copying, complete⟩ := gcScanned_spec layout chosen
  rw [complete (answered gcIdx blk choice), append_nil] at split
  have flash : (gcDone (gcFinish c gcIdx blk (gcScanned c s gcIdx blk))).flash =
    (gcFinish c gcIdx blk (gcScanned c s gcIdx blk)).flash := rfl
  obtain ⟨⟨b, valid, mem⟩, normal⟩ := live
  by_cases isBlk : b = blk
  · -- The item has been copied.
    have copied : .item r ∈ liveOf before := by
      rw [isBlk, split] at mem
      exact mem_liveOf.mpr ⟨mem_of_mem_placed mem, normal⟩
    obtain ⟨l, l', eq⟩ := append_of_mem copied
    exact ⟨logEnd gcIdx l, gcIdx, chosen.validGc, _,
      copying.target.congr (gcFinish_sameOn copying chosen.validGc (chosen.apart.symm)),
      mem_placed.mpr ⟨l, l', eq, rfl⟩, normal⟩
  · -- The item is where it was; the clean block had none.
    have isGc : b ≠ gcIdx := by
      rintro rfl
      rw [(layout.block b valid).clean chosen.clean] at mem
      cases mem
    have scan := behindHdr (copying.others b isGc)
    exact ⟨pos, b, valid, logs b, ((layout.block b valid).holds.congr scan).congr
      (gcFinish_sameOn copying chosen.validGc isBlk), mem, normal⟩

/-- Let a store be reached without an empty key and without a failed write or erase, and let then a
run of `kv_gc_task` take its answers from any environment and any driver. If no call fails while
the dirty block is scanned, every item that was live still is in the flash. -/
theorem gc_keeps_normal {s : KvState} (reach : ((kvSystem c).restrict fun _ a => a.Keyed).Reach s)
    (env : Nat → Answer) (driver : Nat → Bool) (answered : GcAnswered c { s with env, driver })
    {pos : Nat} {r : Record c} (live : NormalAt s.flash pos r) :
    ∃ pos', NormalAt (kvGcTask c { s with env, driver }).flash pos' r := by
  obtain ⟨logs, sound, -⟩ := Reach.sound reach
  have sound' : Sound ({ s with env, driver } : KvState) logs := sound.congr rfl
  exact kvGcTask_survives sound'.toLayout answered (sound.toLayout.normalAt_iff.mp live)

/-! ## A collection of the small partition -/

theorem dirtyStart_reach : ((kvSystem smallConf).restrict fun _ a => a.Keyed).Reach dirtyStart :=
  (smallStart_reach allOk _).run (by decide +kernel)

/-- What a lookup returns is in the flash. -/
theorem exists_normalAt_of_get (reach : ((kvSystem c).restrict fun _ a => a.Keyed).Reach s)
    (key : Bytes) (n : Nat) (ok : (aosKvGet c s key n).1 = .ok) :
    ∃ pos, ∃ r : Record c, r.key = key ∧ r.val = (aosKvGet c s key n).2.1 ∧
      NormalAt s.flash pos r := by
  obtain ⟨logs, sound, -⟩ := Reach.sound reach
  have result := aosKvGet_spec sound.readable key n
  generalize aosKvGet c s key n = outcome at result ok
  cases result with
  | found _ live hasKey => exact ⟨_, _, hasKey, rfl, sound.toLayout.normalAt_iff.mpr live⟩
  | _ => cases ok

/-- The item of the other key is moved, and the erasure of its old block fails. -/
theorem gc_keeps_normal_dirty : ∃ pos, ∃ r : Record smallConf, r.key = [107] ∧ r.val = [1] ∧
    NormalAt (kvGcTask smallConf { dirtyStart with
      env := allOk, driver := fun n => n ≠ dirtyStart.driven + 1 }).flash pos r := by
  obtain ⟨pos, r, key, val, live⟩ := exists_normalAt_of_get dirtyStart_reach [107] 8
    (by decide +kernel)
  have answered : GcAnswered smallConf { dirtyStart with
      env := allOk, driver := fun n => n ≠ dirtyStart.driven + 1 } := by
    intro gcIdx blk choice
    have chosen : gcChoice smallConf { dirtyStart with
      env := allOk, driver := fun n => n ≠ dirtyStart.driven + 1 } = some (1, 0) := by
      decide +kernel
    cases chosen.symm.trans choice
    refine ⟨fun _ _ _ => rfl, fun n low high => decide_eq_true ?_⟩
    have copies : (gcScanned smallConf { dirtyStart with
      env := allOk, driver := fun n => n ≠ dirtyStart.driven + 1 } 1 0).driven =
        dirtyStart.driven + 1 := by decide +kernel
    omega
  obtain ⟨pos', live'⟩ := gc_keeps_normal dirtyStart_reach _ _ answered live
  exact ⟨pos', r, key, val.trans (by decide +kernel), live'⟩

/-- A key that a lookup without failures does not find is not in the flash. -/
theorem not_normalAt_of_get (sound : Sound s logs) {key : Bytes}
    (absent : (aosKvGet c s key n).1 = .itemNotFound)
    (answered : s.Answered (aosKvGet c s key n).2.2.2) (hasKey : r.key = key) :
    ¬ NormalAt s.flash pos r := by
  intro normal
  have result := aosKvGet_spec sound.readable key n
  generalize aosKvGet c s key n = outcome at result absent answered
  cases result with
  | absent _ none_ => exact none_ answered pos r (sound.toLayout.normalAt_iff.mp normal) hasKey
  | _ => cases absent

/-- When the memory for the first header of the dirty block is refused, nothing has been copied and
the block is formatted. -/
theorem not_gc_keeps_normal :
    ¬ ∀ (c : Conf) (s : KvState), ((kvSystem c).restrict fun _ a => a.Keyed).Reach s →
      ∀ (env : Nat → Answer) (driver : Nat → Bool) (pos : Nat) (r : Record c),
        NormalAt s.flash pos r →
          ∃ pos', NormalAt (kvGcTask c { s with env, driver }).flash pos' r := by
  intro keeps
  obtain ⟨pos, r, key, -, live⟩ := exists_normalAt_of_get dirtyStart_reach [107] 8
    (by decide +kernel)
  obtain ⟨pos', live'⟩ := keeps smallConf dirtyStart dirtyStart_reach
    (okBut (dirtyStart.asked + 1)) (fun _ => true) pos r live
  obtain ⟨logs, sound, -⟩ := Reach.sound dirtyStart_reach
  have sound' : Sound ({ dirtyStart with
      env := okBut (dirtyStart.asked + 1), driver := fun _ => true } : KvState) logs :=
    sound.congr rfl
  obtain ⟨logs', gced⟩ := kvGcTask_spec sound' fun _ => rfl
  refine not_normalAt_of_get (n := 8) gced.sound (by decide +kernel) ?_ key live'
  have taken : (kvGcTask smallConf { dirtyStart with
      env := okBut (dirtyStart.asked + 1), driver := fun _ => true }).asked =
        dirtyStart.asked + 2 := by decide +kernel
  refine ⟨fun n low _ => ?_, fun n _ _ => ?_⟩
  · exact decide_eq_true (by omega)
  · rw [gced.after.driver]

end AliosThings.Kv
