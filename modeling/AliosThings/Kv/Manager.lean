import AliosThings.Lib.Flash

/-!
# The key-value manager and its partition

The layout of `kv_defs.h`, and the functions of `kvmgr.c` over the manager `g_kv_mgr` and the flash
partition. The partition is an array of blocks; a block starts with a header of four bytes and then
holds items one after the other, each a header, the key and the value, padded to the size of a
pointer.

What the operating system and the flash driver answer is given by two sequences: each call of a
malloc, of a read of the partition or of the mutex takes the next answer from `env`, each write or
erase of the partition the next one from `driver`.
-/

namespace AliosThings.Kv

/-! ## Configuration -/

/-- `KV_GC_RESERVED` -/
def kvGcReserved : Nat := 1

/-- `KV_TOTAL_SIZE`, `BLK_BITS` and `sizeof(void *)` of a build. -/
structure Conf where
  totalSize : Nat
  blkBits : Nat
  ptrSize : Nat
  pointer : ptrSize = 4 ∨ ptrSize = 8
  /-- A block is larger than its header. -/
  header : 3 ≤ blkBits
  /-- `BLK_NUMS > KV_GC_RESERVED` -/
  reserved : kvGcReserved < totalSize / 2 ^ blkBits
  /-- Block numbers are of type `uint8_t`. -/
  index : totalSize / 2 ^ blkBits < 2 ^ 8
  /-- Positions are computed in type `int`. -/
  offset : totalSize < 2 ^ 31

namespace Conf

variable (c : Conf)

/-- `BLK_SIZE` -/
def blkSize : Nat := 2 ^ c.blkBits

/-- `BLK_NUMS` -/
def blkNums : Nat := c.totalSize / c.blkSize

/-- `sizeof(kv_size_t)` -/
def sizeofSize : Nat := if 16 ≤ c.blkBits ∨ 0x10000 ≤ c.totalSize then 4 else 2

/-- The number of values of `kv_size_t`. -/
def sizeMod : Nat := 256 ^ c.sizeofSize

/-- `ITEM_HDR_SIZE` -/
def itemHdrSize : Nat := 6 + c.sizeofSize

/-- `KV_ALIGN` -/
def align (n : Nat) : Nat := (n + (c.ptrSize - 1)) / c.ptrSize * c.ptrSize

/-- `blk_idx << BLK_BITS` -/
def blkStart (blk : Nat) : Nat := blk * c.blkSize

/-- The block of a position, as a `uint8_t`. -/
def blkOf (pos : Nat) : Nat := pos / c.blkSize % 2 ^ 8

/-- `pos & BLK_OFF_MASK` -/
def blkOff (pos : Nat) : Nat := pos / c.blkSize * c.blkSize

end Conf

/-- `BLK_HDR_SIZE` -/
def blkHdrSize : Nat := 4

def blkStateUsed : UInt8 := 0xCC
def blkStateClean : UInt8 := 0xEE
def blkStateDirty : UInt8 := 0x44

/-- `INVALID_BLK_STATE` -/
def invalidBlkState (state : UInt8) : Bool :=
  state != blkStateUsed && state != blkStateClean && state != blkStateDirty

def itemMaxKeyLen : Nat := 128
def itemMaxValLen : Nat := 512

/-- `ITEM_MAX_LEN` -/
def Conf.itemMaxLen (c : Conf) : Nat := c.itemHdrSize + itemMaxKeyLen + itemMaxValLen

def itemStateNormal : UInt8 := 0xEE
def itemStateDelete : UInt8 := 0x00

/-- `KV_STATE_OFF` -/
def kvStateOff : Nat := 1

/-- `BLK_MAGIC_NUM`, the letter K. -/
def blkMagicNum : UInt8 := 0x4B

/-- `ITEM_MAGIC_NUM`, the letter I. -/
def itemMagicNum : UInt8 := 0x49

/-! ## Headers -/

/-- `block_hdr_t`, without the reserved bytes. -/
structure BlockHdr where
  magic : UInt8
  state : UInt8

def BlockHdr.toBytes (hdr : BlockHdr) : Bytes := [hdr.magic, hdr.state, 0, 0]

def BlockHdr.ofBytes (bs : Bytes) : BlockHdr := ⟨bs.getD 0 0, bs.getD 1 0⟩

/-- `item_hdr_t` -/
structure ItemHdr where
  magic : UInt8
  state : UInt8
  crc : UInt8
  keyLen : UInt8
  valLen : Nat
  originOff : Nat
  deriving DecidableEq

def ItemHdr.toBytes (c : Conf) (hdr : ItemHdr) : Bytes :=
  [hdr.magic, hdr.state, hdr.crc, hdr.keyLen] ++ leBytes 2 hdr.valLen ++
    leBytes c.sizeofSize hdr.originOff

def ItemHdr.ofBytes (c : Conf) (bs : Bytes) : ItemHdr where
  magic := bs.getD 0 0
  state := bs.getD 1 0
  crc := bs.getD 2 0
  keyLen := bs.getD 3 0
  valLen := leNat ((bs.drop 4).take 2)
  originOff := leNat ((bs.drop 6).take c.sizeofSize)

/-- A header has its size. -/
theorem ItemHdr.toBytes_length (c : Conf) (hdr : ItemHdr) :
    (hdr.toBytes c).length = c.itemHdrSize := by
  simp [toBytes, Conf.itemHdrSize]
  omega

/-- A header whose fields are in range is read back. -/
theorem ItemHdr.ofBytes_toBytes (c : Conf) {hdr : ItemHdr} (val : hdr.valLen < 2 ^ 16)
    (origin : hdr.originOff < c.sizeMod) : ofBytes c (hdr.toBytes c) = hdr := by
  have first : ((hdr.toBytes c).drop 4).take 2 = leBytes 2 hdr.valLen := by
    simp [toBytes]
  have second : ((hdr.toBytes c).drop 6).take c.sizeofSize =
      leBytes c.sizeofSize hdr.originOff := by
    simp [toBytes, List.take_of_length_le]
  unfold ofBytes
  rw [first, second, leNat_leBytes val, leNat_leBytes origin]
  simp [toBytes]

/-! ## The check sum -/

/-- One bit of the loop of `calc_crc8`. -/
def crc8Bit (crc : UInt8) : UInt8 :=
  if crc &&& 0x80 ≠ 0 then (crc <<< 1) ^^^ 0x31 else crc <<< 1

/-- `calc_crc8` -/
def calcCrc8 (buf : Bytes) : UInt8 :=
  buf.foldl (fun crc b => crc8Bit^[8] (crc ^^^ b)) 0

/-! ## Arithmetic of the layout -/

namespace Conf

variable (c : Conf) {blk pos b d : Nat}

theorem le_align (n : Nat) : n ≤ c.align n := by
  unfold align
  rcases c.pointer with eq | eq <;> rw [eq] <;> omega

theorem blkSize_pos : 0 < c.blkSize := Nat.pow_pos (by omega)

/-- A block has room for more than its header. -/
theorem blkHdrSize_lt : blkHdrSize + 1 < c.blkSize :=
  calc blkHdrSize + 1 < 2 ^ 3 := by decide
    _ ≤ c.blkSize := Nat.pow_le_pow_right (by omega) c.header

theorem two_le_blkNums : 2 ≤ c.blkNums := c.reserved

theorem blkNums_lt : c.blkNums < 2 ^ 8 := c.index

/-- The blocks lie within the partition. -/
theorem blkEnd_le (valid : blk < c.blkNums) : c.blkStart blk + c.blkSize ≤ c.totalSize :=
  calc c.blkStart blk + c.blkSize = (blk + 1) * c.blkSize := (Nat.succ_mul blk c.blkSize).symm
    _ ≤ c.blkNums * c.blkSize := Nat.mul_le_mul_right _ valid
    _ ≤ c.totalSize := Nat.div_mul_le_self _ _

/-- `origin_off` takes two or four bytes. -/
theorem sizeofSize_cases : c.sizeofSize = 4 ∧ c.sizeMod = 2 ^ 32 ∨
    c.sizeofSize = 2 ∧ c.sizeMod = 2 ^ 16 ∧ c.totalSize < 2 ^ 16 := by
  unfold sizeMod sizeofSize
  split
  · exact .inl ⟨rfl, rfl⟩
  · exact .inr ⟨rfl, rfl, by omega⟩

/-- Every position of the partition is a value of `kv_size_t`. -/
theorem totalSize_lt : c.totalSize < c.sizeMod := by
  have offset := c.offset
  rcases c.sizeofSize_cases with ⟨-, mod⟩ | ⟨-, mod, small⟩ <;> omega

/-- The fields of a header. -/
theorem le_itemHdrSize : 8 ≤ c.itemHdrSize := by
  unfold itemHdrSize
  rcases c.sizeofSize_cases with ⟨size, -⟩ | ⟨size, -⟩ <;> omega

/-- The block of a position inside it. -/
theorem blkOf_eq (valid : blk < c.blkNums) (low : c.blkStart blk ≤ pos)
    (high : pos < c.blkStart blk + c.blkSize) : pos / c.blkSize = blk ∧ c.blkOf pos = blk := by
  have div : pos / c.blkSize = blk := by
    rw [Nat.div_eq_iff c.blkSize_pos]
    unfold blkStart at low high
    omega
  have small := c.blkNums_lt
  refine ⟨div, ?_⟩
  unfold blkOf
  omega

/-- Two blocks do not overlap. -/
theorem blkStart_apart (other : b ≠ d) :
    c.blkStart b + c.blkSize ≤ c.blkStart d ∨ c.blkStart d + c.blkSize ≤ c.blkStart b := by
  rcases Nat.lt_or_gt_of_ne other with less | more
  · left
    calc b * c.blkSize + c.blkSize = (b + 1) * c.blkSize := (Nat.succ_mul _ _).symm
      _ ≤ d * c.blkSize := Nat.mul_le_mul_right _ less
  · right
    calc d * c.blkSize + c.blkSize = (d + 1) * c.blkSize := (Nat.succ_mul _ _).symm
      _ ≤ b * c.blkSize := Nat.mul_le_mul_right _ more

end Conf

/-! ## The manager

`aos_kv_set` waits for a garbage collection before it takes the mutex; here a call is its part
under the mutex, and a run of the garbage collection task is a step of its own. A search for a
position may never end (`kv_calc_position`), so a call of `aos_kv_set` has a result or none. -/

open List Function

/-! ### State -/

/-- The return codes; `hal` is any error code of the flash driver. -/
inductive Res where
  | ok
  | cont
  | noSpace
  | invalidParam
  | mallocFailed
  | itemNotFound
  | flashReadErr
  | flashWriteErr
  | flashEarseErr
  | mutexErr
  | semErr
  | hal
  deriving DecidableEq, Repr

/-- An answer of the environment. `junk` is what is in memory that a malloc returns. -/
structure Answer where
  ok : Bool
  junk : Nat → UInt8

/-- `block_info_t` -/
structure BlockInfo where
  space : Nat
  state : UInt8
  deriving DecidableEq

/-- `g_kv_mgr`, the flash partition and the environment. `ops` records what has been done to the
flash, `asked` and `driven` how many answers have been taken. -/
structure KvState where
  flash : Mem
  ops : List FlashOp
  env : Nat → Answer
  asked : Nat
  driver : Nat → Bool
  driven : Nat
  inited : Bool
  gcTrigger : Bool
  cleanBlkNums : Nat
  writePos : Nat
  blockInfo : Nat → BlockInfo

/-- `kv_item_t` -/
structure KvItem where
  hdr : ItemHdr
  store : Option Bytes
  len : Nat
  pos : Nat
  deriving DecidableEq

namespace KvState

variable (s : KvState)

def setBlkState (blk : Nat) (state : UInt8) : KvState :=
  { s with blockInfo := update s.blockInfo blk { s.blockInfo blk with state } }

def setBlkSpace (blk : Nat) (space : Nat) : KvState :=
  { s with blockInfo := update s.blockInfo blk { s.blockInfo blk with space } }

/-! ### The operating system -/

/-- The next answer. -/
def ask : Answer × KvState := (s.env s.asked, { s with asked := s.asked + 1 })

/-- `kv_os_malloc`: whether it succeeds, and the contents of the memory. -/
def osMalloc (n : Nat) : Bool × Bytes × KvState :=
  (s.ask.1.ok, (range n).map s.ask.1.junk, s.ask.2)

/-- `kv_os_mutex_lock` -/
def osMutexLock : Bool × KvState := (s.ask.1.ok, s.ask.2)

/-- `kv_os_partition_read`: the contents of the buffer, which are the old ones if it fails. -/
def partitionRead (pos : Nat) (buf : Bytes) : Bool × Bytes × KvState :=
  (s.ask.1.ok, if s.ask.1.ok then s.flash.readBytes pos buf.length else buf, s.ask.2)

/-- An operation of the flash, if the driver accepts it. -/
def perform (op : FlashOp) : Bool × KvState :=
  if s.driver s.driven then
    (true, { s with flash := op.run s.flash, ops := s.ops ++ [op], driven := s.driven + 1 })
  else (false, { s with driven := s.driven + 1 })

/-- `kv_os_partition_write` -/
def partitionWrite (pos : Nat) (bs : Bytes) : Bool × KvState :=
  s.perform (.write pos bs)

/-- `kv_os_partition_erase` -/
def partitionErase (pos n : Nat) : Bool × KvState := s.perform (.erase pos n)

end KvState

variable (c : Conf) (s : KvState)

/-! ### Blocks -/

/-- `kv_trigger_gc` -/
def kvTriggerGc : KvState := { s with gcTrigger := true }

/-- `kv_state_set` -/
def kvStateSet (pos : Nat) (state : UInt8) : Bool × KvState :=
  s.partitionWrite (pos + kvStateOff) [state]

/-- `kv_block_format` -/
def kvBlockFormat (blk : Nat) : Res × KvState :=
  match s.partitionErase (c.blkStart blk) c.blkSize with
  | (false, s) => (.flashEarseErr, s)
  | (true, s) =>
    match s.partitionWrite (c.blkStart blk) (BlockHdr.toBytes ⟨blkMagicNum, blkStateClean⟩) with
    | (false, s) => (.flashWriteErr, s)
    | (true, s) =>
      (.ok, { s with
        blockInfo := update s.blockInfo blk ⟨c.blkSize - blkHdrSize, blkStateClean⟩
        cleanBlkNums := (s.cleanBlkNums + 1) % 2 ^ 8 })

/-- A block is taken for writing: the body of the `if` in the loop of `kv_calc_position`. -/
def takeBlock (blk : Nat) : Nat × KvState :=
  let pos := (c.blkStart blk + c.blkSize - (s.blockInfo blk).space) % c.sizeMod
  let s := { s with writePos := pos }
  if (s.blockInfo blk).state = blkStateClean then
    match kvStateSet s (c.blkStart blk) blkStateUsed with
    | (false, s) => (0, s)
    | (true, s) =>
      (pos, { s.setBlkState blk blkStateUsed with
        cleanBlkNums := (s.cleanBlkNums + (2 ^ 8 - 1)) % 2 ^ 8 })
  else (pos, s)

/-- The loop of `kv_calc_position` over the other blocks. -/
def calcPositionLoop (c : Conf) (len blkIdx : Nat) : Nat → Nat → KvState → Option (Nat × KvState)
  | 0, _, _ => none
  | fuel + 1, i, s =>
    if i = blkIdx then some (0, kvTriggerGc s)
    else
      let i := if i = c.blkNums then 0 else i
      if len < (s.blockInfo i).space then some (takeBlock c s i)
      else calcPositionLoop c len blkIdx fuel ((i + 1) % 2 ^ 8) s

/-- `kv_calc_position`. The loop changes nothing until it ends and has fewer than 256 values of
its variable, so it never ends if it has not ended after 512 rounds. -/
def kvCalcPosition (len : Nat) : Option (Nat × KvState) :=
  let blkIdx := c.blkOf s.writePos
  let space := (s.blockInfo blkIdx).space
  if len < space then
    if space - len < c.itemMaxLen ∧ s.cleanBlkNums ≤ kvGcReserved then
      some (s.writePos, kvTriggerGc s)
    else some (s.writePos, s)
  else if kvGcReserved + 1 < c.blkNums then
    calcPositionLoop c len blkIdx 512 ((blkIdx + 1) % 2 ^ 8) s
  else some (0, kvTriggerGc s)

/-! ### Items -/

/-- `KV_DELETE_REMOVE` and `KV_UPDATE_REMOVE` -/
inductive RemoveFlag where
  | deleteRemove
  | updateRemove
  deriving DecidableEq

/-- The end of `kv_item_del`: the item at `off` and its block are marked. -/
def itemRemove (off : Nat) : Res × KvState :=
  match kvStateSet s off itemStateDelete with
  | (false, s) => (.hal, s)
  | (true, s) =>
    if (s.blockInfo (c.blkOf off)).state = blkStateUsed then
      match kvStateSet s (c.blkOff off) blkStateDirty with
      | (false, s) => (.hal, s)
      | (true, s) => (.ok, s.setBlkState (c.blkOf off) blkStateDirty)
    else (.ok, s)

/-- `kv_item_del` -/
def kvItemDel (item : KvItem) : RemoveFlag → Res × KvState
  | .deleteRemove => itemRemove c s item.pos
  | .updateRemove =>
    let off := item.hdr.originOff
    match s.partitionRead off (replicate c.itemHdrSize 0) with
    | (false, _, s) => (.flashReadErr, s)
    | (true, bs, s) =>
      let hdr := ItemHdr.ofBytes c bs
      if hdr.magic ≠ itemMagicNum ∨ hdr.state ≠ itemStateNormal ∨
          hdr.keyLen ≠ item.hdr.keyLen then (.ok, s)
      else
        match s.osMalloc hdr.keyLen.toNat with
        | (false, _, s) => (.mallocFailed, s)
        | (true, oriKey, s) =>
          match s.osMalloc hdr.keyLen.toNat with
          | (false, _, s) => (.mallocFailed, s)
          | (true, newKey, s) =>
            let (_, oriKey, s) := s.partitionRead (off + c.itemHdrSize) oriKey
            let (_, newKey, s) := s.partitionRead (item.pos + c.itemHdrSize) newKey
            if oriKey ≠ newKey then (.ok, s) else itemRemove c s off

/-- `item_func` -/
abbrev ItemFunc := KvState → KvItem → Bytes → Res × KvItem × KvState

/-- `__item_recovery_cb` -/
def itemRecoveryCb : ItemFunc := fun s item _ =>
  match s.osMalloc item.len with
  | (false, _, s) => (.mallocFailed, item, s)
  | (true, p, s) =>
    match s.partitionRead (item.pos + c.itemHdrSize) p with
    | (false, _, s) => (.flashReadErr, item, s)
    | (true, p, s) =>
      if item.hdr.crc = calcCrc8 p then
        if item.hdr.originOff ≠ 0 ∧ item.pos ≠ item.hdr.originOff then
          (.cont, item, (kvItemDel c s item .updateRemove).2)
        else (.cont, item, s)
      else (.cont, item, (kvItemDel c s item .deleteRemove).2)

/-- `__item_find_cb` -/
def itemFindCb : ItemFunc := fun s item key =>
  if item.hdr.keyLen.toNat ≠ key.length then (.cont, item, s)
  else
    match s.osMalloc (item.hdr.keyLen.toNat + item.hdr.valLen) with
    | (false, _, s) => (.mallocFailed, item, s)
    | (true, p, s) =>
      match s.partitionRead (item.pos + c.itemHdrSize) p with
      | (false, _, s) => (.flashReadErr, item, s)
      | (true, store, s) =>
        let item := { item with store := some store }
        if store.take key.length = key then (.ok, item, s) else (.cont, item, s)

/-- `__item_gc_cb` -/
def itemGcCb : ItemFunc := fun s item _ =>
  let len := c.align (c.itemHdrSize + item.len)
  match s.osMalloc len with
  | (false, _, s) => (.mallocFailed, item, s)
  | (true, p, s) =>
    match s.partitionRead item.pos p with
    | (false, _, s) => (.flashReadErr, item, s)
    | (true, p, s) =>
      match s.partitionWrite s.writePos p with
      | (false, s) => (.flashWriteErr, item, s)
      | (true, s) =>
        let pos := (s.writePos + len) % c.sizeMod
        let idx := c.blkOf pos
        let space := ((s.blockInfo idx).space + c.sizeMod - len) % c.sizeMod
        (.cont, item, { s with writePos := pos }.setBlkSpace idx space)

/-- `__item_del_by_prefix_cb`. No C string has a zero byte, so `strncmp` finds no difference if
and only if the key starts with the prefix. -/
def itemDelByPrefixCb : ItemFunc := fun s item key =>
  if item.hdr.keyLen.toNat < key.length then (.cont, item, s)
  else
    match s.osMalloc (item.hdr.keyLen.toNat + 1) with
    | (false, _, s) => (.mallocFailed, item, s)
    | (true, _, s) =>
      let (_, itemKey, s) := s.partitionRead (item.pos + c.itemHdrSize)
        (replicate item.hdr.keyLen.toNat 0)
      if itemKey.take key.length = key then (.cont, item, (kvItemDel c s item .deleteRemove).2)
      else (.cont, item, s)

/-! ### The scan of a block -/

/-- A block in which something is not a live item is dirty. -/
def markDirty (blk : Nat) : KvState :=
  if (s.blockInfo blk).state = blkStateUsed then
    (kvStateSet s (c.blkStart blk) blkStateDirty).2.setBlkState blk blkStateDirty
  else s

/-- The end of `kv_item_traverse`: the space after position `pos`. -/
def recordSpace (blk pos : Nat) : KvState :=
  let blkEnd := c.blkStart blk + c.blkSize
  s.setBlkSpace blk (if pos < blkEnd then blkEnd - pos else c.itemHdrSize)

/-- The loop of `kv_item_traverse`, from position `pos`. -/
def traverseLoop (c : Conf) (func : ItemFunc) (blk : Nat) (key : Bytes) :
    Nat → Nat → KvState → Option KvItem × KvState
  | 0, _, s => (none, s)
  | fuel + 1, pos, s =>
    let continueAt (pos : Nat) (s : KvState) : Option KvItem × KvState :=
      if pos + c.itemHdrSize < c.blkStart blk + c.blkSize then
        traverseLoop c func blk key fuel pos s
      else (none, recordSpace c s blk pos)
    match s.osMalloc 0 with
    | (false, _, s) => (none, s)
    | (true, _, s) =>
      match s.partitionRead pos (replicate c.itemHdrSize 0) with
      | (false, _, s) => (none, s)
      | (true, bs, s) =>
        let hdr := ItemHdr.ofBytes c bs
        if hdr.magic = 0xFF ∧ hdr.state = 0xFF then (none, recordSpace c s blk pos)
        else
          let hdr := if hdr.magic ≠ itemMagicNum then { hdr with valLen := 0xFFFF } else hdr
          if itemMaxValLen < hdr.valLen ∨ itemMaxKeyLen < hdr.keyLen.toNat ∨
              hdr.valLen = 0 ∨ hdr.keyLen = 0 then
            continueAt ((pos + c.itemHdrSize) % c.sizeMod) (markDirty c s blk)
          else
            let len := hdr.keyLen.toNat + hdr.valLen
            let next := (pos + c.align (c.itemHdrSize + len)) % c.sizeMod
            if hdr.state = itemStateNormal then
              match func s { hdr, store := none, len, pos } key with
              | (.ok, item, s) => (some item, s)
              | (.cont, _, s) => continueAt next s
              | (_, _, s) => (none, s)
            else continueAt next (markDirty c s blk)

/-- `kv_item_traverse`. Every round of the loop moves on by at least one byte, as long as the
positions stay in the partition. -/
def kvItemTraverse (func : ItemFunc) (s : KvState) (blk : Nat) (key : Bytes) :
    Option KvItem × KvState :=
  traverseLoop c func blk key c.blkSize (c.blkStart blk + blkHdrSize) s

/-- The loop of `kv_item_get` over the blocks. -/
def itemGetLoop (c : Conf) (key : Bytes) : List Nat → KvState → Option KvItem × KvState
  | [], s => (none, s)
  | blk :: rest, s =>
    if (s.blockInfo blk).state ≠ blkStateClean then
      match kvItemTraverse c (itemFindCb c) s blk key with
      | (some item, s) => (some item, s)
      | (none, s) => itemGetLoop c key rest s
    else itemGetLoop c key rest s

/-- `kv_item_get` -/
def kvItemGet (key : Bytes) : Option KvItem × KvState :=
  itemGetLoop c key (range c.blkNums) s

/-- The bytes that `kv_item_store` writes. -/
def itemImage (key val : Bytes) (originOff : Nat) : Bytes :=
  let hdr : ItemHdr :=
    { magic := itemMagicNum, state := itemStateNormal, crc := calcCrc8 (key ++ val),
      keyLen := UInt8.ofNat key.length, valLen := val.length, originOff }
  let len := c.align (c.itemHdrSize + key.length + val.length)
  hdr.toBytes c ++ key ++ val ++ replicate (len - (c.itemHdrSize + key.length + val.length)) 0

/-- `kv_item_store` -/
def kvItemStore (key val : Bytes) (originOff : Nat) :
    Option (Res × KvState) :=
  let len := c.align (c.itemHdrSize + key.length + val.length)
  match s.osMalloc len with
  | (false, _, s) => some (.mallocFailed, s)
  | (true, _, s) => do
    let (pos, s) ← kvCalcPosition c s len
    if 0 < pos then
      match s.partitionWrite pos (itemImage c key val originOff) with
      | (false, s) => some (.hal, s)
      | (true, s) =>
        let writePos := (pos + len) % c.sizeMod
        let idx := c.blkOf writePos
        let space := ((s.blockInfo idx).space + c.sizeMod - len) % c.sizeMod
        some (.ok, { s with writePos }.setBlkSpace idx space)
    else some (.noSpace, s)

/-- `kv_item_update` -/
def kvItemUpdate (item : KvItem) (key val : Bytes) :
    Option (Res × KvState) :=
  if item.hdr.valLen = val.length ∧
      (item.store.getD []).drop item.hdr.keyLen.toNat = val then some (.ok, s)
  else do
    match ← kvItemStore c s key val item.pos with
    | (.ok, s) => some (kvItemDel c s item .deleteRemove)
    | (res, s) => some (res, s)

/-! ### Initialisation -/

/-- The first loop of `kv_init`. `unclean` has the last block first. -/
def initScan (c : Conf) : List Nat → List Nat → KvState → Res × List Nat × KvState
  | [], unclean, s => (.ok, unclean, s)
  | blk :: rest, unclean, s =>
    let (_, bs, s) := s.partitionRead (c.blkStart blk) (replicate blkHdrSize 0)
    let hdr := BlockHdr.ofBytes bs
    if hdr.magic = blkMagicNum ∧ invalidBlkState hdr.state = false then
      let s := (kvItemTraverse c (itemRecoveryCb c) (s.setBlkState blk hdr.state) blk []).2
      if hdr.state = blkStateClean then
        if (s.blockInfo blk).space ≠ c.blkSize - blkHdrSize then initScan c rest (blk :: unclean) s
        else initScan c rest unclean { s with cleanBlkNums := (s.cleanBlkNums + 1) % 2 ^ 8 }
      else initScan c rest unclean s
    else
      match kvBlockFormat c s blk with
      | (.ok, s) => initScan c rest unclean s
      | (res, s) => (res, unclean, s)

/-- The second loop of `kv_init`: blocks that are marked clean and are not. -/
def initUnclean (c : Conf) : List Nat → KvState → Res × KvState
  | [], s => (.ok, s)
  | blk :: rest, s =>
    if kvGcReserved ≤ s.cleanBlkNums then
      match kvStateSet s (c.blkStart blk) blkStateDirty with
      | (false, s) => (.hal, s)
      | (true, s) => initUnclean c rest (s.setBlkState blk blkStateDirty)
    else
      match kvBlockFormat c s blk with
      | (.ok, s) => initUnclean c rest s
      | (res, s) => (res, s)

/-- The last loop of `kv_init`: the first block in use with a clean one behind it. -/
def initPosition (c : Conf) : List Nat → KvState → KvState
  | [], s => s
  | blk :: rest, s =>
    let next := if blk + 1 = c.blkNums then 0 else blk + 1
    if ((s.blockInfo blk).state = blkStateUsed ∨ (s.blockInfo blk).state = blkStateDirty) ∧
        (s.blockInfo next).state = blkStateClean then
      { s with writePos := (c.blkStart blk + c.blkSize - (s.blockInfo blk).space) % c.sizeMod }
    else initPosition c rest s

/-- The end of `kv_init`: where the next item is written. -/
def initStart : KvState :=
  if s.cleanBlkNums = c.blkNums then
    match kvStateSet { s with writePos := blkHdrSize } (c.blkOff blkHdrSize) blkStateUsed with
    | (false, s) => s
    | (true, s) =>
      { s.setBlkState 0 blkStateUsed with
        cleanBlkNums := (s.cleanBlkNums + (2 ^ 8 - 1)) % 2 ^ 8 }
  else initPosition c (range c.blkNums) s

/-- `kv_init` -/
def kvInit : Res × KvState :=
  match initScan c (range c.blkNums) [] s with
  | (.ok, unclean, s) =>
    match initUnclean c unclean s with
    | (.ok, s) =>
      if s.cleanBlkNums = 0 then
        match kvBlockFormat c s 0 with
        | (.ok, s) => (.ok, initStart c s)
        | (res, s) => (res, s)
      else (.ok, initStart c s)
    | (res, s) => (res, s)
  | (res, _, s) => (res, s)

/-- The manager after `memset`. -/
def KvState.fresh (flash : Mem) (env : Nat → Answer) (driver : Nat → Bool) : KvState where
  flash
  ops := []
  env
  asked := 0
  driver
  driven := 0
  inited := false
  gcTrigger := false
  cleanBlkNums := 0
  writePos := 0
  blockInfo _ := ⟨0, 0⟩

/-- `aos_kv_init`, without the creation of the mutex and of the semaphore. -/
def aosKvInit (flash : Mem) (env : Nat → Answer) (driver : Nat → Bool) :
    Res × KvState :=
  match kvInit c (.fresh flash env driver) with
  | (.ok, s) =>
    let s := { s with inited := true }
    if (s.blockInfo (c.blkOf s.writePos)).space < c.itemMaxLen ∧
        s.cleanBlkNums < kvGcReserved + 1 then (.ok, kvTriggerGc s)
    else (.ok, s)
  | (res, s) => (res, s)

/-! ### Garbage collection -/

/-- The loop of `kv_gc_task` over the blocks, in the order from the one behind the write position.
The items of the first dirty block are moved to block `gcIdx`. -/
def gcLoop (c : Conf) (gcIdx originPos : Nat) : List Nat → KvState → KvState
  | [], s => { s with writePos := originPos }
  | blk :: rest, s =>
    if (s.blockInfo blk).state = blkStateDirty then
      let s := (kvItemTraverse c (itemGcCb c) s blk []).2
      match kvBlockFormat c s blk with
      | (.ok, s) =>
        let s := (kvStateSet s (c.blkOff s.writePos) blkStateUsed).2
        { s.setBlkState gcIdx blkStateUsed with
          cleanBlkNums := (s.cleanBlkNums + (2 ^ 8 - 1)) % 2 ^ 8 }
      | (_, s) => s
    else gcLoop c gcIdx originPos rest s

/-- The blocks from the one behind `blk` on, `blk` last. -/
def cyclicFrom (blk : Nat) : List Nat :=
  (range c.blkNums).map fun i => (blk + 1 + i) % c.blkNums

/-- `kv_gc_task` -/
def kvGcTask : KvState :=
  match s.osMutexLock with
  | (false, s) => { s with gcTrigger := false }
  | (true, s) =>
    if s.cleanBlkNums = 0 then { s with gcTrigger := false }
    else
      match (range c.blkNums).find? fun i => (s.blockInfo i).state = blkStateClean with
      | none => { s with gcTrigger := false }
      | some gcIdx =>
        let originPos := s.writePos
        let s := { s with writePos := (c.blkStart gcIdx + blkHdrSize) % c.sizeMod }
        { gcLoop c gcIdx originPos (cyclicFrom c (originPos / c.blkSize)) s with
          gcTrigger := false }

/-! ### The interface -/

/-- `aos_kv_del` -/
def aosKvDel (key : Bytes) : Res × KvState :=
  match s.osMutexLock with
  | (false, s) => (.mutexErr, s)
  | (true, s) =>
    match kvItemGet c s key with
    | (none, s) => (.itemNotFound, s)
    | (some item, s) => kvItemDel c s item .deleteRemove

/-- `aos_kv_del_by_prefix` -/
def aosKvDelByPrefix (key : Bytes) : Res × KvState :=
  match s.osMutexLock with
  | (false, s) => (.mutexErr, s)
  | (true, s) =>
    (.ok, (range c.blkNums).foldl
      (fun s blk => (kvItemTraverse c (itemDelByPrefixCb c) s blk key).2) s)

/-- `aos_kv_set` -/
def aosKvSet (key val : Bytes) : Option (Res × KvState) :=
  if val.length = 0 ∨ itemMaxKeyLen < key.length ∨ itemMaxValLen < val.length then
    some (.invalidParam, s)
  else
    match s.osMutexLock with
    | (false, s) => some (.mutexErr, s)
    | (true, s) =>
      match kvItemGet c s key with
      | (some item, s) => kvItemUpdate c s item key val
      | (none, s) => kvItemStore c s key val 0

/-- `aos_kv_get`, with the bytes copied to the buffer and the new `*buffer_len`. -/
def aosKvGet (key : Bytes) (bufferLen : Nat) :
    Res × Bytes × Nat × KvState :=
  if bufferLen = 0 then (.invalidParam, [], bufferLen, s)
  else
    match s.osMutexLock with
    | (false, s) => (.mutexErr, [], bufferLen, s)
    | (true, s) =>
      match kvItemGet c s key with
      | (none, s) => (.itemNotFound, [], bufferLen, s)
      | (some item, s) =>
        if bufferLen < item.hdr.valLen then (.noSpace, [], item.hdr.valLen, s)
        else (.ok, ((item.store.getD []).drop item.hdr.keyLen.toNat).take item.hdr.valLen,
          item.hdr.valLen, s)

end AliosThings.Kv
