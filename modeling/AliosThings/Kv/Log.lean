import AliosThings.Kv.Manager

/-!
# Logs

What the bytes of a block stand for: a list of entries one after the other, each an item or a
header that does not make sense (what is left of a write in which the power was cut), and erased
flash behind them.
-/

namespace AliosThings.Kv

open List Mem ItemHdr

variable {c : Conf}

/-! ## Entries -/

/-- An item that `kv_item_traverse` accepts. -/
structure Record (c : Conf) where
  state : UInt8
  crc : UInt8
  key : Bytes
  val : Bytes
  originOff : Nat
  keyPos : 0 < key.length
  keyMax : key.length ≤ itemMaxKeyLen
  /-- Keys are C strings. -/
  keyStr : 0 ∉ key
  valPos : 0 < val.length
  valMax : val.length ≤ itemMaxValLen
  origin : originOff < c.sizeMod
  deriving DecidableEq

/-- A piece of a block. -/
inductive Entry (c : Conf) where
  | item (r : Record c)
  | junk
  deriving DecidableEq

namespace Record

variable (r : Record c)

/-- The header of the item. -/
def hdr : ItemHdr :=
  { magic := itemMagicNum, state := r.state, crc := r.crc, keyLen := UInt8.ofNat r.key.length,
    valLen := r.val.length, originOff := r.originOff }

def Normal : Prop := r.state = itemStateNormal
  deriving Decidable

/-- The check sum is the one of the key and the value. -/
def Checked : Prop := r.crc = calcCrc8 (r.key ++ r.val)

/-- The space the item takes. -/
def size : Nat := c.align (c.itemHdrSize + (r.key.length + r.val.length))

/-- The same item in another state. -/
def withState (state : UInt8) : Record c := { r with state }

@[simp] theorem withState_size (state : UInt8) : (r.withState state).size = r.size := rfl

/-- What `kv_item_traverse` hands to its callback. -/
def itemAt (pos : Nat) : KvItem :=
  { hdr := r.hdr, store := none, len := r.key.length + r.val.length, pos }

/-- The length of the key fits its field. -/
theorem hdr_keyLen : r.hdr.keyLen.toNat = r.key.length := by
  have small := r.keyMax
  unfold itemMaxKeyLen at small
  simp only [hdr, UInt8.toNat_ofNat']
  omega

/-- A header is read back as it was written. -/
theorem ofBytes_hdr : ofBytes c (r.hdr.toBytes c) = r.hdr := by
  refine ofBytes_toBytes c ?_ r.origin
  have small := r.valMax
  unfold itemMaxValLen at small
  simp only [hdr]
  omega

/-- An item has room for its header, its key and its value. -/
theorem itemHdrSize_lt_size : c.itemHdrSize + (r.key.length + r.val.length) ≤ r.size := c.le_align _

end Record

/-- A header that `kv_item_traverse` skips. -/
def Skipped (hdr : ItemHdr) : Prop :=
  ¬ (hdr.magic = 0xFF ∧ hdr.state = 0xFF) ∧
    (hdr.magic ≠ itemMagicNum ∨ itemMaxValLen < hdr.valLen ∨ itemMaxKeyLen < hdr.keyLen.toNat ∨
      hdr.valLen = 0 ∨ hdr.keyLen = 0)

/-- The header of an item is not skipped. -/
theorem Record.not_skipped (r : Record c) : ¬ Skipped r.hdr := by
  have keyLen := r.hdr_keyLen
  have keyPos := r.keyPos
  have keyMax := r.keyMax
  have valPos := r.valPos
  have valMax := r.valMax
  have valLen : r.hdr.valLen = r.val.length := rfl
  rintro ⟨-, magic | big | big | zero | zero⟩
  · exact magic rfl
  · omega
  · omega
  · omega
  · rw [zero] at keyLen
    exact keyPos.ne keyLen

variable {flash flash' : Mem} {pos : Nat} {e : Entry c}

namespace Entry

def size : Entry c → Nat
  | item r => r.size
  | junk => c.itemHdrSize

/-- A live item. -/
def Live : Entry c → Prop
  | item r => r.Normal
  | junk => False

instance : (e : Entry c) → Decidable e.Live
  | item r => inferInstanceAs (Decidable r.Normal)
  | junk => .isFalse id

/-- The entry is in the flash at a position. -/
def At (flash : Mem) (pos : Nat) : Entry c → Prop
  | item r =>
    flash.readBytes pos c.itemHdrSize = r.hdr.toBytes c ∧
      flash.readBytes (pos + c.itemHdrSize) (r.key.length + r.val.length) = r.key ++ r.val
  | junk => Skipped (.ofBytes c (flash.readBytes pos c.itemHdrSize))

theorem itemHdrSize_le_size (e : Entry c) : c.itemHdrSize ≤ e.size := by
  cases e with
  | item r => exact (Nat.le_add_right _ _).trans r.itemHdrSize_lt_size
  | junk => exact le_rfl

/-- An entry is read from its own bytes. -/
theorem At.congr (at_ : e.At flash pos) (same : Mem.SameOn flash flash' pos e.size) :
    e.At flash' pos := by
  have hdr := (same.mono le_rfl (Nat.add_le_add_left e.itemHdrSize_le_size _)).readBytes_eq
  cases e with
  | item r =>
    refine ⟨hdr.trans at_.1, Eq.trans ?_ at_.2⟩
    refine (same.mono (Nat.le_add_right _ _) ?_).readBytes_eq
    have room := r.itemHdrSize_lt_size
    simp only [size]
    omega
  | junk =>
    unfold At
    rw [hdr]
    exact at_

end Entry

/-! ## Lists of entries -/

/-- The space that the entries take. -/
def logSize (log : List (Entry c)) : Nat := (log.map Entry.size).sum

@[simp] theorem logSize_nil : logSize ([] : List (Entry c)) = 0 := rfl

@[simp] theorem logSize_cons (e : Entry c) (log : List (Entry c)) :
    logSize (e :: log) = e.size + logSize log := by simp [logSize]

@[simp] theorem logSize_append (log log' : List (Entry c)) :
    logSize (log ++ log') = logSize log + logSize log' := by simp [logSize]

/-- No entry is empty. -/
theorem length_le_logSize (log : List (Entry c)) : log.length ≤ logSize log := by
  induction log with
  | nil => exact le_rfl
  | cons e log ih =>
    have small := c.le_itemHdrSize
    have size := e.itemHdrSize_le_size
    simp only [length_cons, logSize_cons]
    omega

/-- The entries are in the flash, one after the other. -/
def LogAt (flash : Mem) : Nat → List (Entry c) → Prop
  | _, [] => True
  | pos, e :: log => e.At flash pos ∧ LogAt flash (pos + e.size) log

variable {log log' : List (Entry c)}

/-- A log is read in two parts. -/
theorem LogAt.append : LogAt flash pos (log ++ log') ↔
      LogAt flash pos log ∧ LogAt flash (pos + logSize log) log' := by
  induction log generalizing pos with
  | nil => simp [LogAt]
  | cons _ _ ih => simp [LogAt, ih, and_assoc, Nat.add_assoc]

theorem LogAt.congr (at_ : LogAt flash pos log) (same : Mem.SameOn flash flash' pos (logSize log)) :
    LogAt flash' pos log := by
  induction log generalizing pos with
  | nil => trivial
  | cons e log ih =>
    rw [logSize_cons] at same
    exact ⟨at_.1.congr (same.mono le_rfl (by omega)),
      ih at_.2 (same.mono (by omega) (by omega))⟩

/-- The entries with their positions. -/
def placed : Nat → List (Entry c) → List (Nat × Entry c)
  | _, [] => []
  | pos, e :: log => (pos, e) :: placed (pos + e.size) log

/-- The places of two logs in a row. -/
theorem placed_append (pos : Nat) (log log' : List (Entry c)) :
    placed pos (log ++ log') = placed pos log ++ placed (pos + logSize log) log' := by
  induction log generalizing pos with
  | nil => simp [placed]
  | cons _ _ ih => simp [placed, ih, Nat.add_assoc]

variable {p : Nat} {e' : Entry c}

/-- An entry is placed behind those before it. -/
theorem mem_placed : (p, e) ∈ placed pos log ↔
      ∃ before after, log = before ++ e :: after ∧ p = pos + logSize before := by
  constructor
  · induction log generalizing pos with
    | nil => simp [placed]
    | cons e' log ih =>
      intro mem
      rcases mem_cons.mp mem with here | later
      · cases here
        exact ⟨[], log, rfl, rfl⟩
      · obtain ⟨before, after, rfl, rfl⟩ := ih later
        exact ⟨e' :: before, after, rfl, by simp [Nat.add_assoc]⟩
  · rintro ⟨before, after, rfl, rfl⟩
    simp [placed_append, placed]

theorem Entry.size_pos (e : Entry c) : 0 < e.size := by
  have big := c.le_itemHdrSize
  have size := e.itemHdrSize_le_size
  omega

/-- An entry lies within its log. -/
theorem le_of_mem_placed (mem : (p, e) ∈ placed pos log) :
    pos ≤ p ∧ p + e.size ≤ pos + logSize log := by
  obtain ⟨before, after, rfl, rfl⟩ := mem_placed.mp mem
  simp only [logSize_append, logSize_cons]
  omega

/-- A log is divided at a position in one way. -/
theorem split_unique {l l' m m' : List (Entry c)} (same : l ++ e :: m = l' ++ e' :: m')
    (size : logSize l = logSize l') : l = l' ∧ e = e' := by
  have first : l = l' := by
    rcases append_eq_append_iff.mp same with ⟨more, rfl, -⟩ | ⟨more, rfl, -⟩
    all_goals
      have short := length_le_logSize more
      rw [logSize_append] at size
      rw [eq_nil_of_length_eq_zero (by omega : more.length = 0), append_nil]
  subst first
  exact ⟨rfl, (cons.inj (append_cancel_left same)).1⟩

/-- There is one entry at a position. -/
theorem placed_unique (here : (p, e) ∈ placed pos log) (there : (p, e') ∈ placed pos log) :
    e = e' := by
  obtain ⟨l, m, rfl, rfl⟩ := mem_placed.mp here
  obtain ⟨l', m', split, place⟩ := mem_placed.mp there
  exact (split_unique split (Nat.add_left_cancel place)).2

/-! ## Blocks -/

/-- The flash from a position on is erased up to the end of the block. -/
def ErasedFrom (c : Conf) (flash : Mem) (blk pos : Nat) : Prop :=
  ∀ x, pos ≤ x → x < c.blkStart blk + c.blkSize → flash x = 0xFF

/-- The position behind the entries of a block. -/
def logEnd (blk : Nat) (log : List (Entry c)) : Nat :=
  c.blkStart blk + blkHdrSize + logSize log

/-- The block holds these entries and erased flash behind them. -/
structure Holds (flash : Mem) (blk : Nat) (log : List (Entry c)) : Prop where
  at_ : LogAt flash (c.blkStart blk + blkHdrSize) log
  fits : logEnd blk log < c.blkStart blk + c.blkSize
  erased : ErasedFrom c flash blk (logEnd blk log)

variable {blk : Nat} {before after : List (Entry c)} {bs : Bytes} {r : Record c}

theorem le_logEnd (blk : Nat) (log : List (Entry c)) : c.blkStart blk ≤ logEnd blk log := by
  unfold logEnd
  omega

/-- The end of a log that fits is in the block. -/
theorem blkOf_logEnd (valid : blk < c.blkNums)
    (fits : logEnd blk log < c.blkStart blk + c.blkSize) :
    logEnd blk log / c.blkSize = blk ∧ c.blkOf (logEnd blk log) = blk :=
  c.blkOf_eq valid (le_logEnd blk log) fits

/-- Each entry is on the flash at its place. -/
theorem Holds.entry (holds : Holds flash blk (before ++ e :: after)) :
    e.At flash (logEnd blk before) :=
  (LogAt.append.mp holds.at_).2.1

/-- A log is read from the bytes of its block. -/
theorem Holds.congr (holds : Holds flash blk log)
    (same : Mem.SameOn flash flash' (c.blkStart blk + blkHdrSize) (c.blkSize - blkHdrSize)) :
    Holds flash' blk log := by
  have fits := holds.fits
  have start : c.blkStart blk + blkHdrSize ≤ logEnd blk log := Nat.le_add_right _ _
  refine ⟨holds.at_.congr (same.mono le_rfl ?_), fits, fun x low high => ?_⟩
  · unfold logEnd at fits
    omega
  · rw [same x (start.trans low) (by omega)]
    exact holds.erased x low high

theorem behindHdr (same : Mem.SameOn flash flash' (c.blkStart blk) c.blkSize) :
    Mem.SameOn flash flash' (c.blkStart blk + blkHdrSize) (c.blkSize - blkHdrSize) := by
  have header := c.blkHdrSize_lt
  exact same.mono (by omega) (by omega)

/-! A block holds one log. -/

/-- The bytes determine the entry. -/
theorem Entry.At.unique (here : e.At flash pos) (there : e'.At flash pos) : e = e' := by
  -- An item is not skipped.
  have apart {r : Record c} (item : (Entry.item r).At flash pos)
      (junk : (Entry.junk : Entry c).At flash pos) : False := by
    unfold At at junk
    rw [item.1, r.ofBytes_hdr] at junk
    exact r.not_skipped junk
  cases e
  case junk =>
    cases e' with
    | junk => rfl
    | item => exact (apart there here).elim
  case item r =>
  cases e'
  case junk => exact (apart here there).elim
  case item r' =>
  have hdr : r.hdr = r'.hdr := by
    rw [← r.ofBytes_hdr, ← r'.ofBytes_hdr, ← here.1, ← there.1]
  have keys : r.key.length = r'.key.length := by rw [← r.hdr_keyLen, hdr, r'.hdr_keyLen]
  have vals : r.val.length = r'.val.length := congrArg valLen hdr
  have both : r.key ++ r.val = r'.key ++ r'.val := by
    rw [← here.2, ← there.2, keys, vals]
  obtain ⟨key, val⟩ := append_inj both keys
  have fields := mk.inj hdr
  cases r
  cases r'
  simp_all

/-- There is no entry in erased flash. -/
theorem Entry.At.not_erased (at_ : e.At flash pos) (first : flash pos = 0xFF)
    (second : flash (pos + 1) = 0xFF) : False := by
  have big := c.le_itemHdrSize
  have byte (i : Nat) := readBytes_getD (n := c.itemHdrSize) (i := i) flash pos
  cases e with
  | junk => exact at_.1 ⟨(byte 0 (by omega)).trans first, (byte 1 (by omega)).trans second⟩
  | item r =>
    have magic := byte 0 (by omega)
    rw [at_.1, show flash (pos + 0) = 0xFF from first] at magic
    exact absurd (show itemMagicNum = 0xFF from magic) (by decide)

/-- The bytes determine the log: it ends where the block is erased. -/
theorem LogAt.unique (here : LogAt flash pos log) (there : LogAt flash pos log')
    (fits : pos + logSize log < c.blkStart blk + c.blkSize)
    (fits' : pos + logSize log' < c.blkStart blk + c.blkSize)
    (erased : ErasedFrom c flash blk (pos + logSize log))
    (erased' : ErasedFrom c flash blk (pos + logSize log')) : log = log' := by
  have big := c.le_itemHdrSize
  -- Where one log ends, the other one has no entry.
  have ended {p : Nat} {e : Entry c} {rest : List (Entry c)} (at_ : e.At flash p)
      (inside : p + logSize (e :: rest) < c.blkStart blk + c.blkSize)
      (blank : ErasedFrom c flash blk p) : False := by
    have size := e.itemHdrSize_le_size
    rw [logSize_cons] at inside
    exact at_.not_erased (blank _ (by omega) (by omega)) (blank _ (by omega) (by omega))
  induction log generalizing pos log' with
  | nil =>
    cases log' with
    | nil => rfl
    | cons => exact (ended there.1 fits' erased).elim
  | cons _ _ ih =>
    cases log' with
    | nil => exact (ended here.1 fits erased').elim
    | cons =>
      obtain rfl := here.1.unique there.1
      simp only [logSize_cons, ← Nat.add_assoc] at fits fits' erased erased'
      exact congrArg _ (ih here.2 there.2 fits fits' erased erased')

theorem Holds.unique (here : Holds flash blk log) (there : Holds flash blk log') : log = log' :=
  here.at_.unique there.at_ here.fits there.fits here.erased there.erased

/-- A live item that is in the flash. -/
def NormalAt (flash : Mem) (pos : Nat) (r : Record c) : Prop :=
  ∃ blk < c.blkNums, ∃ log, Holds flash blk log ∧
    (pos, .item r) ∈ placed (c.blkStart blk + blkHdrSize) log ∧ r.Normal

/-! ## One byte of an item -/

/-- A change of the state byte is a change of the state. -/
theorem Entry.At.withState (at_ : (Entry.item r).At flash pos) (state : UInt8) :
    (Entry.item (r.withState state)).At (flash.writeBytes (pos + kvStateOff) [state]) pos := by
  have big := c.le_itemHdrSize
  refine ⟨?_, ?_⟩
  · have length : c.itemHdrSize = 2 + (c.itemHdrSize - 2) := by omega
    have before := at_.1
    rw [length, readBytes_add] at before ⊢
    have tail : (flash.writeBytes (pos + kvStateOff) [state]).readBytes (pos + 2)
        (c.itemHdrSize - 2) = flash.readBytes (pos + 2) (c.itemHdrSize - 2) :=
      readBytes_writeBytes_disjoint (.inr (by simp [kvStateOff]))
    have two : (flash.writeBytes (pos + kvStateOff) [state]).readBytes pos 2 =
        [flash pos, state] := by
      have zero : flash.writeBytes (pos + kvStateOff) [state] (pos + 0) = flash pos :=
        writeBytes_outside (.inl (by simp [kvStateOff]))
      have one : flash.writeBytes (pos + kvStateOff) [state] (pos + 1) = state :=
        writeBytes_inside flash (pos + kvStateOff) [state] 0 (by simp)
      rw [show (flash.writeBytes (pos + kvStateOff) [state]).readBytes pos 2 =
        [flash.writeBytes (pos + kvStateOff) [state] (pos + 0),
          flash.writeBytes (pos + kvStateOff) [state] (pos + 1)] from rfl, zero, one]
    have old : flash.readBytes pos 2 = [flash (pos + 0), flash (pos + 1)] := rfl
    rw [tail, two]
    rw [old] at before
    simp only [toBytes, Record.hdr, Record.withState, cons_append, nil_append,
      cons.injEq] at before ⊢
    exact ⟨before.1, trivial, before.2.2⟩
  · rw [readBytes_writeBytes_disjoint (.inr (by simp [kvStateOff]; omega))]
    exact at_.2

/-- The entries before and behind an item stay when the state of the item is changed. -/
theorem Holds.withState (holds : Holds flash blk (before ++ .item r :: after)) (state : UInt8) :
    Holds (flash.writeBytes (logEnd blk before + kvStateOff) [state]) blk
      (before ++ .item (r.withState state) :: after) := by
  have big := c.le_itemHdrSize
  have size := r.itemHdrSize_lt_size
  have same : logSize (before ++ .item (r.withState state) :: after) =
      logSize (before ++ .item r :: after) := by simp [Entry.size]
  have stop : logEnd blk (before ++ .item (r.withState state) :: after) =
      logEnd blk (before ++ .item r :: after) := by simp only [logEnd, same]
  have whole : logEnd blk (before ++ .item r :: after) =
      logEnd blk before + r.size + logSize after := by
    simp [logEnd, Entry.size, Nat.add_assoc]
  obtain ⟨first, at_, rest⟩ := LogAt.append.mp holds.at_
  refine ⟨LogAt.append.mpr ⟨first.congr ?_, at_.withState state, rest.congr ?_⟩, ?_, ?_⟩
  · refine writeBytes_sameOn (.inl ?_)
    simp only [logEnd]
    omega
  · refine writeBytes_sameOn (.inr ?_)
    simp only [logEnd, Entry.size, kvStateOff, length_singleton]
    omega
  · rw [stop]
    exact holds.fits
  · rw [stop]
    intro x low high
    rw [writeBytes_outside (.inr ?_)]
    · exact holds.erased x low high
    · simp only [kvStateOff, length_singleton]
      omega

/-! ## One more item -/

/-- The bytes of an item. -/
structure Record.Image (r : Record c) (bs : Bytes) : Prop where
  length : bs.length = r.size
  hdr : bs.take c.itemHdrSize = r.hdr.toBytes c
  store : (bs.drop c.itemHdrSize).take (r.key.length + r.val.length) = r.key ++ r.val

theorem Record.Image.at_ (image : r.Image bs) (flash : Mem) (pos : Nat) :
    (Entry.item r).At (flash.writeBytes pos bs) pos := by
  have size := r.itemHdrSize_lt_size
  have length := image.length
  refine ⟨?_, ?_⟩
  · rw [readBytes_writeBytes_within le_rfl (by omega), Nat.sub_self, drop_zero]
    exact image.hdr
  · rw [readBytes_writeBytes_within (by omega) (by omega), Nat.add_sub_cancel_left]
    exact image.store

/-- The bytes of an item in the flash. -/
theorem Entry.At.image (at_ : (Entry.item r).At flash pos) :
    r.Image (flash.readBytes pos r.size) := by
  have size := r.itemHdrSize_lt_size
  obtain ⟨pad, eq⟩ : ∃ pad, r.size = c.itemHdrSize + (r.key.length + r.val.length) + pad :=
    ⟨_, (Nat.add_sub_of_le size).symm⟩
  have split : flash.readBytes pos r.size = r.hdr.toBytes c ++ (r.key ++ r.val ++
        flash.readBytes (pos + (c.itemHdrSize + (r.key.length + r.val.length))) pad) := by
    rw [eq, readBytes_add, readBytes_add, at_.1, at_.2, append_assoc]
  have hdr := r.hdr.toBytes_length c
  refine ⟨readBytes_length .., ?_, ?_⟩
  · rw [split, ← hdr, take_left]
  · rw [split, ← hdr, drop_left, ← length_append, take_left]

/-- An item that is written at the end is the last entry. -/
theorem Holds.append (holds : Holds flash blk log) (image : r.Image bs)
    (room : logEnd blk log + r.size < c.blkStart blk + c.blkSize) :
    Holds (flash.writeBytes (logEnd blk log) bs) blk (log ++ [.item r]) := by
  have stop : logEnd blk (log ++ [.item r]) = logEnd blk log + r.size := by
    simp [logEnd, Entry.size, Nat.add_assoc]
  refine ⟨LogAt.append.mpr ⟨holds.at_.congr ?_, image.at_ flash _, trivial⟩, ?_, ?_⟩
  · exact writeBytes_sameOn (.inl le_rfl)
  · rw [stop]
    exact room
  · rw [stop]
    intro x low high
    rw [writeBytes_outside (.inr (by rw [image.length]; exact low))]
    exact holds.erased x (by omega) high

/-- The item that `kv_item_store` writes. -/
def storedRecord (c : Conf) (key val : Bytes) (originOff : Nat) (keyPos : 0 < key.length)
    (keyMax : key.length ≤ itemMaxKeyLen) (keyStr : 0 ∉ key) (valPos : 0 < val.length)
    (valMax : val.length ≤ itemMaxValLen) (origin : originOff < c.sizeMod) : Record c :=
  { state := itemStateNormal, crc := calcCrc8 (key ++ val), key, val, originOff, keyPos, keyMax,
    keyStr, valPos, valMax, origin }

/-- `kv_item_store` writes an image of the item. -/
theorem itemImage_image (normal : r.Normal) (checked : r.Checked) :
    r.Image (itemImage c r.key r.val r.originOff) := by
  have size := r.itemHdrSize_lt_size
  have whole : itemImage c r.key r.val r.originOff = r.hdr.toBytes c ++ (r.key ++ r.val ++
      replicate (r.size - (c.itemHdrSize + (r.key.length + r.val.length))) 0) := by
    have hdr : r.hdr = ⟨itemMagicNum, itemStateNormal, calcCrc8 (r.key ++ r.val),
        UInt8.ofNat r.key.length, r.val.length, r.originOff⟩ := by
      rw [← show r.state = itemStateNormal from normal,
        ← show r.crc = calcCrc8 (r.key ++ r.val) from checked]
      rfl
    rw [hdr]
    simp [itemImage, Record.size, Nat.add_assoc]
  have hdr := r.hdr.toBytes_length c
  rw [whole]
  refine ⟨?_, ?_, ?_⟩
  · simp only [length_append, hdr, length_replicate]
    omega
  · rw [← hdr, take_left]
  · rw [← hdr, drop_left, ← length_append, take_left]

end AliosThings.Kv
