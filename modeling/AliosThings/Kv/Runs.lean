import AliosThings.Kv.DelByPrefix
import AliosThings.Kv.Gc
import AliosThings.Lib.Run

/-!
# Runs of the store

`aos_kv_init` on an erased partition, and the system of calls and runs of the garbage collection
task that follow it. No write or erase of the flash fails in these runs; what a malloc, a read or
the mutex answers is left open.
-/

namespace AliosThings.Kv

open KvState (Precedes)
open Lib (System)
open List

variable {c : Conf}

/-! ## An erased partition -/

/-- A block that has just been formatted. -/
structure Fresh (c : Conf) (s : KvState) (blk : Nat) : Prop where
  block : BlockOk s blk ([] : List (Entry c))
  clean : (s.blockInfo blk).state = blkStateClean
  written : itemWrites c blk s.ops = []

/-- The blocks are formatted one after the other. -/
def formatAll (c : Conf) (blks : List Nat) (s : KvState) : KvState :=
  blks.foldl (fun s blk => (s.later 1).formatted c blk) s

variable {s : KvState} {blk other b : Nat}

theorem Fresh.formatted_self (s : KvState) (blk : Nat) : Fresh c (s.formatted c blk) blk :=
  ⟨.formatted_self s blk, s.formatted_state_self blk, by rw [s.formatted_itemWrites, if_pos rfl]⟩

theorem Fresh.formatted_other (fresh : Fresh c s other) (apart : other ≠ blk) :
    Fresh c ((s.later 1).formatted c blk) other := by
  have same : BlockOk (s.later 1) other ([] : List (Entry c)) :=
    fresh.block.congr (fun _ _ _ => rfl) rfl
  have info : ((s.later 1).formatted c blk).blockInfo other = s.blockInfo other :=
    Function.update_of_ne apart ..
  refine ⟨same.formatted_other apart, by rw [info, fresh.clean], ?_⟩
  rw [KvState.formatted_itemWrites, if_neg (apart.symm)]
  exact fresh.written

/-- All the blocks are formatted. -/
theorem formatAll_fresh (blks : List Nat) (either : b ∈ blks ∨ Fresh c s b) :
    Fresh c (formatAll c blks s) b := by
  induction blks generalizing s with
  | nil => exact either.resolve_left not_mem_nil
  | cons blk _ ih =>
    refine ih ?_
    by_cases same : b = blk
    · exact .inr (same ▸ Fresh.formatted_self (s.later 1) b)
    · rcases either with mem | fresh
      · exact .inl ((mem_cons.mp mem).resolve_left same)
      · exact .inr (fresh.formatted_other same)

/-- They are counted. -/
theorem formatAll_clean (blks : List Nat) (few : s.cleanBlkNums + blks.length < 2 ^ 8) :
    (formatAll c blks s).cleanBlkNums = s.cleanBlkNums + blks.length := by
  induction blks generalizing s with
  | nil => rfl
  | cons blk blks ih =>
    rw [length_cons] at few ⊢
    have next : ((s.later 1).formatted c blk).cleanBlkNums = s.cleanBlkNums + 1 := by
      show (s.cleanBlkNums + 1) % 2 ^ 8 = s.cleanBlkNums + 1
      omega
    have rest : (formatAll c blks ((s.later 1).formatted c blk)).cleanBlkNums = _ := ih (by omega)
    show (formatAll c blks ((s.later 1).formatted c blk)).cleanBlkNums = _
    omega

theorem formatAll_flashOk (blks : List Nat) (flashOk : s.FlashOk) :
    (formatAll c blks s).FlashOk := by
  induction blks generalizing s with
  | nil => exact flashOk
  | cons _ _ ih => exact ih flashOk

/-- A block without the magic number is formatted, whether its header can be read or not. -/
theorem initScan_erased (blks unclean : List Nat) (nodup : blks.Nodup)
    (erased : ∀ b ∈ blks, s.flash (c.blkStart b) ≠ blkMagicNum) (flashOk : s.FlashOk) :
    initScan c blks unclean s = (.ok, unclean, formatAll c blks s) := by
  induction blks generalizing s with
  | nil => rfl
  | cons blk blks ih =>
    obtain ⟨fresh, nodup⟩ := nodup_cons.mp nodup
    have flashOk' : (s.later 1).FlashOk := flashOk
    have magic : (BlockHdr.ofBytes (if (s.env s.asked).ok = true then
        s.flash.readBytes (c.blkStart blk) (replicate blkHdrSize (0 : UInt8)).length
        else replicate blkHdrSize 0)).magic ≠ blkMagicNum := by
      split
      · exact erased blk mem_cons_self
      · decide
    unfold initScan
    rw [s.partitionRead_eq]
    dsimp only
    rw [if_neg (fun both => magic both.1), flashOk'.kvBlockFormat_eq]
    refine ih nodup (fun b mem => ?_) flashOk
    have apart : b ≠ blk := fun eq => fresh (eq ▸ mem)
    have header := c.blkHdrSize_lt
    rw [(s.later 1).formatted_sameOn apart _ le_rfl (by omega)]
    exact erased b (mem_cons_of_mem _ mem)

/-- The first block is taken for writing. -/
theorem initStart_fresh (fresh : ∀ b < c.blkNums, Fresh c s b)
    (clean : s.cleanBlkNums = c.blkNums) (flashOk : s.FlashOk) :
    Sound (initStart c s) (fun _ => ([] : List (Entry c))) ∧ (initStart c s).FlashOk ∧
      (initStart c s).cleanBlkNums + 1 = c.blkNums := by
  have header := c.blkHdrSize_lt
  have two := c.two_le_blkNums
  have small := c.blkNums_lt
  have first := fresh 0 (by omega)
  have flashOk' : ({ s with writePos := blkHdrSize } : KvState).FlashOk := flashOk
  have place : c.blkOff blkHdrSize = c.blkStart 0 := by
    rw [Conf.blkOff, Conf.blkStart, Nat.div_eq_of_lt (by omega)]
  have less : (s.cleanBlkNums + (2 ^ 8 - 1)) % 2 ^ 8 = s.cleanBlkNums - 1 := by omega
  have eq : initStart c s = { s.marked c 0 blkStateUsed with writePos := blkHdrSize } := by
    unfold initStart
    rw [if_pos clean, flashOk'.kvStateSet_eq, place, KvState.marked, if_pos first.clean, ← less]
    rfl
  have used : ((s.marked c 0 blkStateUsed).blockInfo 0).state = blkStateUsed := by
    rw [KvState.marked_blockInfo_self]
  have count : cleanCount c (s.marked c 0 blkStateUsed) + _ = cleanCount c s + _ :=
    cleanCount_update (show 0 < c.blkNums by omega) fun b other => by
      rw [KvState.marked_blockInfo_other _ _ other]
  have all : cleanCount c s = c.blkNums := by
    rw [cleanCount, countP_eq_length.mpr, length_range]
    intro b mem
    simpa using (fresh b (mem_range.mp mem)).clean
  rw [if_pos first.clean, if_neg (by rw [used]; decide), all] at count
  have clean' : (s.marked c 0 blkStateUsed).cleanBlkNums = s.cleanBlkNums - 1 := if_pos first.clean
  rw [eq]
  refine ⟨⟨⟨fun b valid => ?_, ?_, ⟨0, by omega, ?_, ?_⟩, ?_, fun b valid => ?_⟩,
    fun _ _ _ => by simp⟩, flashOk, ?_⟩
  · have ok : BlockOk (s.marked c 0 blkStateUsed) b ([] : List (Entry c)) := by
      by_cases same : b = 0
      · rw [same]
        exact .marked_self first.block.magic first.block.holds first.block.space (.inl rfl)
      · exact (fresh b valid).block.marked_other same
    exact ok.congr (fun _ _ _ => rfl) rfl
  · rintro pos r ⟨⟨b, -, mem⟩, -⟩
    cases mem
  · show ((s.marked c 0 blkStateUsed).blockInfo 0).state ≠ blkStateClean
    rw [used]
    decide
  · simp [logEnd, Conf.blkStart]
  · show (s.marked c 0 blkStateUsed).cleanBlkNums = cleanCount c (s.marked c 0 blkStateUsed)
    omega
  · exact itemWrites_state.trans (fresh b valid).written
  · show (s.marked c 0 blkStateUsed).cleanBlkNums + 1 = c.blkNums
    omega

/-- An erased partition: after `aos_kv_init` no block has an entry. -/
theorem aosKvInit_erased {flash : Mem} (erased : ∀ x < c.totalSize, flash x = 0xFF)
    (env : Nat → Answer) {driver : Nat → Bool} (flashOk : ∀ n, driver n = true) :
    ∃ s, aosKvInit c flash env driver = (.ok, s) ∧ Sound s (fun _ => ([] : List (Entry c))) ∧
      s.FlashOk ∧ s.cleanBlkNums + 1 = c.blkNums := by
  have small := c.blkNums_lt
  have size := c.blkSize_pos
  have flashOk' : (KvState.fresh flash env driver).FlashOk := flashOk
  have scan : initScan c (range c.blkNums) [] (.fresh flash env driver) =
      (.ok, [], formatAll c (range c.blkNums) (.fresh flash env driver)) := by
    refine initScan_erased _ _ nodup_range (fun b mem => ?_) flashOk'
    have stop := c.blkEnd_le (mem_range.mp mem)
    rw [show (KvState.fresh flash env driver).flash (c.blkStart b) = 0xFF from erased _ (by omega)]
    decide
  have clean : (formatAll c (range c.blkNums) (.fresh flash env driver)).cleanBlkNums =
      c.blkNums := by
    have few : (KvState.fresh flash env driver).cleanBlkNums + (range c.blkNums).length <
        2 ^ 8 := by
      rw [length_range]
      show 0 + c.blkNums < 2 ^ 8
      omega
    rw [formatAll_clean _ few, length_range]
    exact Nat.zero_add _
  obtain ⟨sound, ok, count⟩ := initStart_fresh
    (fun b valid => formatAll_fresh _ (.inl (mem_range.mpr valid))) clean
    (formatAll_flashOk (range c.blkNums) flashOk')
  have init : kvInit c (.fresh flash env driver) = (.ok, initStart c
      (formatAll c (range c.blkNums) (.fresh flash env driver))) := by
    unfold kvInit
    rw [scan]
    dsimp only [initUnclean]
    rw [if_neg (by omega)]
  unfold aosKvInit
  rw [init]
  dsimp only
  split
  · exact ⟨_, rfl, sound.congr rfl, ok, count⟩
  · exact ⟨_, rfl, sound.congr rfl, ok, count⟩

/-! ## The system -/

/-- A call of the interface, or a run of the garbage collection task. -/
inductive KvCall where
  | set (key val : Bytes)
  | get (key : Bytes) (bufferLen : Nat)
  | del (key : Bytes)
  | delByPrefix (key : Bytes)
  | gc
  deriving DecidableEq

namespace KvCall

/-- The state after the call, if it returns. -/
def run (c : Conf) (s : KvState) : KvCall → Option KvState
  | set key val => (aosKvSet c s key val).map Prod.snd
  | get key bufferLen => some (aosKvGet c s key bufferLen).2.2.2
  | del key => some (aosKvDel c s key).2
  | delByPrefix key => some (aosKvDelByPrefix c s key).2
  | gc => some (kvGcTask c s)

/-- The keys of the interface are C strings. -/
def CString : KvCall → Prop
  | set key _ => 0 ∉ key
  | get key _ => 0 ∉ key
  | del key => 0 ∉ key
  | delByPrefix key => 0 ∉ key
  | gc => True

instance (a : KvCall) : Decidable a.CString := by
  cases a <;> unfold KvCall.CString <;> infer_instance

/-- No empty key is set. -/
def Keyed : KvCall → Prop
  | set key _ => key ≠ []
  | _ => True

instance (a : KvCall) : Decidable a.Keyed := by
  cases a <;> unfold KvCall.Keyed <;> infer_instance

end KvCall

/-- The store on a partition that was erased, with a driver that accepts every operation. -/
def kvSystem (c : Conf) : System KvState KvCall where
  init s := ∃ flash env driver, (∀ x < c.totalSize, flash x = 0xFF) ∧ (∀ n, driver n = true) ∧
    s = (aosKvInit c flash env driver).2
  allowed s a := a.CString ∧ (a.run c s).isSome = true
  step s a := (a.run c s).getD s

instance (s : KvState) (a : KvCall) : Decidable ((kvSystem c).allowed s a) :=
  inferInstanceAs (Decidable (_ ∧ _))

variable {logs : Logs c} {a : KvCall}

/-- What a call does to the logs. Each property of runs is a property of these changes. -/
inductive Change (c : Conf) (s : KvState) (logs : Logs c) : KvCall → KvState → Logs c → Prop where
  | nothing {a : KvCall} {s' : KvState} (clean : s'.cleanBlkNums = s.cleanBlkNums)
      (fails : ∀ key val, a = .set key val → aosKvSet c s key val = some (.ok, s') →
        Has logs key val) :
    Change c s logs a s' logs
  | set {key val : Bytes} {s' : KvState} {logs' : Logs c} {old : Option Nat} {new : Nat}
      {r : Record c} (ok : aosKvSet c s key val = some (.ok, s')) (hasKey : r.key = key)
      (hasVal : r.val = val) (replaced : Replaced logs logs' old (some (new, r)))
      (found : ∀ pos, old = some pos → ∃ r, LiveAt logs pos r ∧ r.key = key)
      (absent : old = none → s.Answered (lookedUp c s key) →
        ∀ pos r, LiveAt logs pos r → r.key ≠ key)
      (clean : s'.cleanBlkNums = s.cleanBlkNums ∨
        Leaves c s r.size ∧ s'.cleanBlkNums + 1 = s.cleanBlkNums) :
    Change c s logs (.set key val) s' logs'
  | fewer {a : KvCall} {s' : KvState} {logs' : Logs c}
      (other : ∀ key val, a ≠ .set key val) (clean : s'.cleanBlkNums = s.cleanBlkNums)
      (fewer : ∀ pos r, LiveAt logs' pos r → LiveAt logs pos r) :
    Change c s logs a s' logs'
  | gc {s' : KvState} {logs' : Logs c} (gced : Gced c s s' logs logs') :
    Change c s logs .gc s' logs'

/-- The store starts empty. -/
theorem kvSystem_init (init : (kvSystem c).init s) :
    Sound s (fun _ => ([] : List (Entry c))) ∧ s.FlashOk ∧ s.cleanBlkNums + 1 = c.blkNums := by
  obtain ⟨flash, env, driver, erased, accepts, rfl⟩ := init
  obtain ⟨s, init, start⟩ := aosKvInit_erased erased env accepts
  rw [init]
  exact start

/-! ## A small partition -/

/-- Three blocks of 32 bytes; two of the smallest items fit in a block. -/
def smallConf : Conf where
  totalSize := 96
  blkBits := 5
  ptrSize := 4
  pointer := .inl rfl
  header := by decide
  reserved := by decide
  index := by decide
  offset := by decide

/-- The small partition after `aos_kv_init`, when the environment is `env`. -/
def smallStart (env : Nat → Answer) : KvState :=
  (aosKvInit smallConf (fun _ => 0xFF) env (fun _ => true)).2

theorem smallStart_reach (env : Nat → Answer) (P : KvState → KvCall → Prop) :
    ((kvSystem smallConf).restrict P).Reach (smallStart env) :=
  .init ⟨_, _, _, fun _ _ => rfl, fun _ => rfl, rfl⟩

/-- Every call succeeds, and memory is cleared. -/
def allOk (_ : Nat) : Answer := ⟨true, fun _ => 0⟩

/-- Two keys are set and one of them is deleted. -/
def dirtyStart : KvState :=
  (kvSystem smallConf).run (smallStart allOk) [.set [107] [1], .set [108] [2], .del [108]]

/-- Every call but one succeeds. -/
def okBut (k n : Nat) : Answer := ⟨n ≠ k, fun _ => 0⟩

end AliosThings.Kv
