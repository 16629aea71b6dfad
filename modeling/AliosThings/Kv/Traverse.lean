import AliosThings.Kv.Log

/-!
# Scanning a block

`kv_item_traverse` on a block that holds a log visits the entries of the log in order, hands each
live item to the callback, and records the space behind the last one; or it ends before, because
the callback has found what it looks for or because something has failed. A scan that fails and a
scan that comes to its end return the same: what tells them apart is only whether every call has
been answered with a success (`KvState.Answered`).
-/

namespace AliosThings.Kv

open List ItemHdr

variable {c : Conf}

/-! ## Answers -/

namespace KvState

/-- The state when `n` more answers have been taken. -/
def later (s : KvState) (n : Nat) : KvState := { s with asked := s.asked + n }

/-- The state after an operation of the flash. -/
def performed (s : KvState) (op : FlashOp) : KvState :=
  { s with flash := op.run s.flash, ops := s.ops ++ [op], driven := s.driven + 1 }

/-- `t` is a later state in the same environment. -/
structure Precedes (s t : KvState) : Prop where
  env : t.env = s.env
  driver : t.driver = s.driver
  asked : s.asked ≤ t.asked
  driven : s.driven ≤ t.driven

/-- Every call between the two states has succeeded. -/
structure Answered (s t : KvState) : Prop where
  asked : ∀ n, s.asked ≤ n → n < t.asked → (s.env n).ok = true
  driven : ∀ n, s.driven ≤ n → n < t.driven → s.driver n = true

/-- No write or erase of the flash fails. -/
def FlashOk (s : KvState) : Prop := ∀ n, s.driver n = true

variable {s t u : KvState}

theorem Precedes.rfl : s.Precedes s := ⟨Eq.refl _, Eq.refl _, le_rfl, le_rfl⟩

theorem Precedes.trans (first : s.Precedes t) (second : t.Precedes u) : s.Precedes u :=
  ⟨second.env.trans first.env, second.driver.trans first.driver,
    first.asked.trans second.asked, first.driven.trans second.driven⟩

theorem Precedes.later (n : Nat) : s.Precedes (s.later n) :=
  ⟨Eq.refl _, Eq.refl _, Nat.le_add_right _ _, le_rfl⟩

/-- A driver that accepts goes on accepting. -/
theorem Precedes.flashOk (first : s.Precedes t) (ok : s.FlashOk) : t.FlashOk := by
  intro n
  rw [first.driver]
  exact ok n

/-- The calls up to the middle have been answered. -/
theorem Answered.left (answered : s.Answered u) (second : t.Precedes u) : s.Answered t :=
  ⟨fun n low high => answered.asked n low (high.trans_le second.asked),
    fun n low high => answered.driven n low (high.trans_le second.driven)⟩

/-- So have those from the middle on. -/
theorem Answered.right (answered : s.Answered u) (first : s.Precedes t) : t.Answered u := by
  refine ⟨fun n low high => ?_, fun n low high => ?_⟩
  · rw [first.env]
    exact answered.asked n (first.asked.trans low) high
  · rw [first.driver]
    exact answered.driven n (first.driven.trans low) high

/-! Each call of the environment. -/

theorem osMalloc_eq (s : KvState) (n : Nat) :
    s.osMalloc n = ((s.env s.asked).ok, (range n).map (s.env s.asked).junk, s.later 1) := rfl

theorem osMutexLock_eq (s : KvState) : s.osMutexLock = ((s.env s.asked).ok, s.later 1) := rfl

/-- A read that fails leaves the buffer. -/
theorem partitionRead_eq (s : KvState) (pos : Nat) (buf : Bytes) :
    s.partitionRead pos buf = ((s.env s.asked).ok,
      if (s.env s.asked).ok then s.flash.readBytes pos buf.length else buf, s.later 1) := rfl

theorem later_later (s : KvState) (m n : Nat) : (s.later m).later n = s.later (m + n) := by
  simp only [later, Nat.add_assoc]

/-- The last of some answers is a failure. -/
theorem not_answered_later {n : Nat} (fault : (s.env (s.asked + n)).ok = false) :
    ¬ s.Answered (s.later (n + 1)) := by
  intro answered
  have ok := answered.asked (s.asked + n) (Nat.le_add_right _ _)
    ((Nat.lt_succ_self _).trans_le le_rfl)
  rw [fault] at ok
  cases ok

/-- No operation fails. -/
theorem FlashOk.perform_eq (ok : s.FlashOk) (op : FlashOp) :
    s.perform op = (true, s.performed op) := by
  rw [perform, if_pos (ok _)]
  rfl

theorem FlashOk.kvStateSet_eq (ok : s.FlashOk) (pos : Nat) (state : UInt8) :
    kvStateSet s pos state = (true, s.performed (.write (pos + kvStateOff) [state])) :=
  ok.perform_eq _

end KvState

/-! ## One entry -/

/-- How a round of the loop of `kv_item_traverse` ends: the loop is left, at an entry or not, or it
goes on at a position. -/
inductive Round where
  | left (visited : Bool) (result : Option KvItem × KvState)
  | next (pos : Nat) (s : KvState)

/-- One round of the loop, at position `pos`. -/
def traverseRound (c : Conf) (func : ItemFunc) (blk : Nat) (key : Bytes) (pos : Nat)
    (s : KvState) : Round :=
  match s.osMalloc 0 with
  | (false, _, s) => .left false (none, s)
  | (true, _, s) =>
    match s.partitionRead pos (replicate c.itemHdrSize 0) with
    | (false, _, s) => .left false (none, s)
    | (true, bs, s) =>
      let hdr := ofBytes c bs
      if hdr.magic = 0xFF ∧ hdr.state = 0xFF then .left false (none, recordSpace c s blk pos)
      else
        let hdr := if hdr.magic ≠ itemMagicNum then { hdr with valLen := 0xFFFF } else hdr
        if itemMaxValLen < hdr.valLen ∨ itemMaxKeyLen < hdr.keyLen.toNat ∨
            hdr.valLen = 0 ∨ hdr.keyLen = 0 then
          .next ((pos + c.itemHdrSize) % c.sizeMod) (markDirty c s blk)
        else
          let len := hdr.keyLen.toNat + hdr.valLen
          let next := (pos + c.align (c.itemHdrSize + len)) % c.sizeMod
          if hdr.state = itemStateNormal then
            match func s { hdr, store := none, len, pos } key with
            | (.ok, item, s) => .left true (some item, s)
            | (.cont, _, s) => .next next s
            | (_, _, s) => .left true (none, s)
          else .next next (markDirty c s blk)

variable {s : KvState} {func : ItemFunc} {blk pos fuel : Nat} {key : Bytes}
  {before after log log' : List (Entry c)} {e : Entry c}

/-- The end of a round of the loop. -/
def resumeAt (c : Conf) (func : ItemFunc) (blk : Nat) (key : Bytes) (fuel pos : Nat) (s : KvState) :
    Option KvItem × KvState :=
  if pos + c.itemHdrSize < c.blkStart blk + c.blkSize then traverseLoop c func blk key fuel pos s
  else (none, recordSpace c s blk pos)

/-- The loop is made of its rounds. -/
theorem traverseLoop_succ (s : KvState) (fuel pos : Nat) :
    traverseLoop c func blk key (fuel + 1) pos s =
      match traverseRound c func blk key pos s with
      | .left _ result => result
      | .next pos s => resumeAt c func blk key fuel pos s := by
  rw [traverseLoop, traverseRound]
  generalize s.osMalloc 0 = alloc
  obtain ⟨allocated, _, s₁⟩ := alloc
  cases allocated
  case false => rfl
  dsimp only
  generalize s₁.partitionRead pos (replicate c.itemHdrSize 0) = read
  obtain ⟨ok, bs, s₂⟩ := read
  cases ok
  case false => rfl
  dsimp only
  by_cases erased : (ofBytes c bs).magic = 0xFF ∧ (ofBytes c bs).state = 0xFF
  · rw [if_pos erased, if_pos erased]
  rw [if_neg erased, if_neg erased]
  generalize (if (ofBytes c bs).magic ≠ itemMagicNum then
    { ofBytes c bs with valLen := 0xFFFF } else ofBytes c bs) = hdr
  by_cases skipped : itemMaxValLen < hdr.valLen ∨ itemMaxKeyLen < hdr.keyLen.toNat ∨
      hdr.valLen = 0 ∨ hdr.keyLen = 0
  · rw [if_pos skipped, if_pos skipped]
    rfl
  rw [if_neg skipped, if_neg skipped]
  by_cases normal : hdr.state = itemStateNormal
  · rw [if_pos normal, if_pos normal]
    generalize func s₂ ⟨hdr, none, hdr.keyLen.toNat + hdr.valLen, pos⟩ key = result
    obtain ⟨res, item, s₃⟩ := result
    cases res <;> rfl
  · rw [if_neg normal, if_neg normal]
    rfl

/-- The memory for the item and its header are there. -/
def HdrRead (s : KvState) : Prop :=
  (s.env s.asked).ok = true ∧ (s.env (s.asked + 1)).ok = true

theorem HdrRead.second (read : HdrRead s) : ((s.later 1).env (s.later 1).asked).ok = true ∧
    (s.later 1).flash = s.flash :=
  ⟨read.2, rfl⟩

/-- The round ends where a read fails. -/
theorem traverseRound_fails (fault : ¬ HdrRead s) :
    ∃ n, traverseRound c func blk key pos s = .left false (none, s.later n) ∧
      ¬ s.Answered (s.later n) := by
  by_cases first : (s.env s.asked).ok = true
  · have second : (s.env (s.asked + 1)).ok = false := by
      rw [← Bool.not_eq_true]
      exact fun second => fault ⟨first, second⟩
    refine ⟨2, ?_, KvState.not_answered_later second⟩
    have second' : ((s.later 1).env (s.later 1).asked).ok = false := second
    unfold traverseRound
    simp only [s.osMalloc_eq, first, (s.later 1).partitionRead_eq, second', s.later_later]
  · rw [Bool.not_eq_true] at first
    refine ⟨1, ?_, KvState.not_answered_later first⟩
    unfold traverseRound
    simp only [s.osMalloc_eq, first]

/-- The scan ends in erased flash, and the space is recorded. -/
theorem traverseRound_erased (read : HdrRead s) (erased : ErasedFrom c s.flash blk pos)
    (inside : pos + 1 < c.blkStart blk + c.blkSize) :
    traverseRound c func blk key pos s =
      .left false (none, recordSpace c (s.later 2) blk pos) := by
  have big := c.le_itemHdrSize
  unfold traverseRound
  simp only [s.osMalloc_eq, read.1, (s.later 1).partitionRead_eq, read.second, if_true,
    length_replicate, s.later_later]
  rw [if_pos]
  simp only [ofBytes]
  rw [Mem.readBytes_getD _ _ (by omega), Mem.readBytes_getD _ _ (by omega)]
  exact ⟨erased _ (by omega) (by omega), erased _ (by omega) inside⟩

/-- A live item is handed to the callback. -/
theorem traverseRound_item (read : HdrRead s) {r : Record c}
    (at_ : (Entry.item r).At s.flash pos) (inside : pos + r.size < c.sizeMod) :
    traverseRound c func blk key pos s =
      if r.Normal then
        match func (s.later 2) (r.itemAt pos) key with
        | (.ok, item, s) => .left true (some item, s)
        | (.cont, _, s) => .next (pos + r.size) s
        | (_, _, s) => .left true (none, s)
      else .next (pos + r.size) (markDirty c (s.later 2) blk) := by
  have keyLen := r.hdr_keyLen
  have valLen : r.hdr.valLen = r.val.length := rfl
  have state : r.hdr.state = r.state := rfl
  have notErased : ¬ (r.hdr.magic = 0xFF ∧ r.hdr.state = 0xFF) := fun ⟨magic, _⟩ => by
    cases show itemMagicNum = 0xFF from magic
  have accepted : ¬ (itemMaxValLen < r.hdr.valLen ∨ itemMaxKeyLen < r.hdr.keyLen.toNat ∨
      r.hdr.valLen = 0 ∨ r.hdr.keyLen = 0) := fun refused =>
    r.not_skipped ⟨notErased, .inr refused⟩
  have next : (pos + c.align (c.itemHdrSize + (r.hdr.keyLen.toNat + r.hdr.valLen))) % c.sizeMod =
      pos + r.size := by
    rw [keyLen, valLen]
    exact Nat.mod_eq_of_lt inside
  have magic : ¬ r.hdr.magic ≠ itemMagicNum := not_not.mpr rfl
  unfold traverseRound
  simp only [s.osMalloc_eq, read.1, (s.later 1).partitionRead_eq, read.second, if_true,
    length_replicate, s.later_later, at_.1, r.ofBytes_hdr, if_neg notErased, if_neg magic,
    if_neg accepted, next]
  simp only [keyLen, valLen, state]
  rfl

/-- What is no item is passed over. -/
theorem traverseRound_junk (read : HdrRead s) (at_ : (Entry.junk : Entry c).At s.flash pos)
    (inside : pos + c.itemHdrSize < c.sizeMod) :
    traverseRound c func blk key pos s =
      .next (pos + c.itemHdrSize) (markDirty c (s.later 2) blk) := by
  obtain ⟨notErased, skipped⟩ := at_
  unfold traverseRound
  simp only [s.osMalloc_eq, read.1, (s.later 1).partitionRead_eq, read.second, if_true,
    length_replicate, s.later_later, if_neg notErased, Nat.mod_eq_of_lt inside]
  rw [if_pos]
  split
  · exact .inl (show itemMaxValLen < 0xFFFF by decide)
  · next magic => exact skipped.resolve_left magic

/-! ## All entries -/

/-- In front of an entry there is room for its header. -/
theorem Holds.room {flash : Mem} (holds : Holds flash blk (before ++ e :: after))
    (valid : blk < c.blkNums) : logEnd blk before + c.itemHdrSize < c.blkStart blk + c.blkSize ∧
      logEnd blk before + e.size < c.sizeMod := by
  have fits := holds.fits
  have size := e.itemHdrSize_le_size
  have stop := c.blkEnd_le valid
  have small := c.totalSize_lt
  simp only [logEnd, logSize_append, logSize_cons] at fits ⊢
  omega

/-- The positions of entries from `pos` on, and their sizes. -/
def places (pos : Nat) (log : List (Entry c)) : List (Nat × Nat) :=
  (placed pos log).map fun p => (p.1, p.2.size)

/-- The places of the entries of a block. -/
def extents (blk : Nat) (log : List (Entry c)) : List (Nat × Nat) :=
  places (c.blkStart blk + blkHdrSize) log

/-- The places of the entries follow from their sizes. -/
theorem places_congr (same : log.map Entry.size = log'.map Entry.size) (pos : Nat) :
    places pos log = places pos log' := by
  unfold places
  induction log generalizing pos log' with
  | nil =>
    rw [map_nil, eq_comm, map_eq_nil_iff] at same
    rw [same]
  | cons _ _ ih =>
    cases log' with
    | nil => cases same
    | cons =>
      rw [map_cons, map_cons, cons.injEq] at same
      simp only [placed, map_cons, same.1, ih same.2]

theorem logEnd_concat (blk : Nat) (log : List (Entry c)) (e : Entry c) :
    logEnd blk (log ++ [e]) = logEnd blk log + e.size := by
  simp [logEnd, Nat.add_assoc]

/-- The positions of the headers that the loop of `kv_item_traverse` finds. -/
def loopVisits (c : Conf) (func : ItemFunc) (blk : Nat) (key : Bytes) :
    Nat → Nat → KvState → List Nat
  | 0, _, _ => []
  | fuel + 1, pos, s =>
    match traverseRound c func blk key pos s with
    | .left visited _ => if visited then [pos] else []
    | .next pos' s =>
      pos :: if pos' + c.itemHdrSize < c.blkStart blk + c.blkSize then
        loopVisits c func blk key fuel pos' s
      else []

/-- The positions that `kv_item_traverse` visits. -/
def traverseVisits (c : Conf) (func : ItemFunc) (s : KvState) (blk : Nat) (key : Bytes) :
    List Nat :=
  loopVisits c func blk key c.blkSize (c.blkStart blk + blkHdrSize) s

/-- What the visits of a scan are, given the positions of the entries that lie before it: some of
the first of them, and all of them if the scan comes to its end. -/
def VisitsOf (s : KvState) (positions visits : List Nat) (result : Option KvItem × KvState) :
    Prop :=
  visits <+: positions ∧ (result.1 = none → s.Answered result.2 → visits = positions)

/-- What a callback answers: it goes on, it has found its item, or something has failed. -/
structure Visit (s : KvState) (result : Res × KvItem × KvState) (Next : KvState → Prop)
    (Found : KvItem → KvState → Prop) (Stop : KvState → Prop) : Prop where
  after : s.Precedes result.2.2
  next : result.1 = .cont → Next result.2.2
  found : result.1 = .ok → Found result.2.1 result.2.2
  stop : result.1 ≠ .cont → result.1 ≠ .ok → ¬ s.Answered result.2.2 ∧ Stop result.2.2

/-- How a scan ends. -/
inductive Scan (s : KvState) (Found : KvItem → KvState → Prop) (Stop : KvState → Prop)
    (End : KvState → Prop) : Option KvItem × KvState → Prop where
  | found {item : KvItem} {s' : KvState} (after : s.Precedes s') (found : Found item s') :
    Scan s Found Stop End (some item, s')
  | stopped {s' : KvState} (after : s.Precedes s') (fault : ¬ s.Answered s') (stop : Stop s') :
    Scan s Found Stop End (none, s')
  | complete {s' : KvState} (after : s.Precedes s') (ended : End s') :
    Scan s Found Stop End (none, s')

theorem Scan.precede {t : KvState} {Found : KvItem → KvState → Prop} {Stop End : KvState → Prop}
    {result : Option KvItem × KvState} (scan : Scan t Found Stop End result)
    (before : s.Precedes t) : Scan s Found Stop End result := by
  cases scan with
  | found after found => exact .found (before.trans after) found
  | stopped after fault stop =>
    exact .stopped (before.trans after) (fun answered => fault (answered.right before)) stop
  | complete after ended => exact .complete (before.trans after) ended

/-- What is needed to scan a block: `P` holds of the entries that have been visited, as they are
now, those that have not, and the state. -/
structure ScanRule (c : Conf) (func : ItemFunc) (blk : Nat) (key : Bytes)
    (P : List (Entry c) → List (Entry c) → KvState → Prop) (Found : KvItem → KvState → Prop)
    (Stop : KvState → Prop) : Prop where
  valid : blk < c.blkNums
  holds : ∀ before after s, P before after s → Holds s.flash blk (before ++ after)
  later : ∀ before after s n, P before after s → P before after (s.later n)
  stop : ∀ before after s, P before after s → Stop s
  visit : ∀ before r after s, P before (.item r :: after) s → r.Normal →
    Visit s (func s (r.itemAt (logEnd blk before)) key)
      (fun s' => ∃ before' after', logSize before' = logSize before + r.size ∧
        after'.map Entry.size = after.map Entry.size ∧ P before' after' s') Found Stop
  pass : ∀ before e after s, P before (e :: after) s → ¬ e.Live →
    s.Precedes (markDirty c s blk) ∧ P (before ++ [e]) after (markDirty c s blk)

namespace ScanRule

variable {P : List (Entry c) → List (Entry c) → KvState → Prop} {Found : KvItem → KvState → Prop}
  {Stop : KvState → Prop}

/-- The entries have been visited, and their end is recorded. -/
def Ended (P : List (Entry c) → List (Entry c) → KvState → Prop) (blk : Nat) (s : KvState) : Prop :=
  ∃ log s', P log [] s' ∧ s = recordSpace c s' blk (logEnd blk log)

theorem precedes_recordSpace (s : KvState) (blk pos : Nat) : s.Precedes (recordSpace c s blk pos) :=
  ⟨rfl, rfl, le_rfl, le_rfl⟩

/-- The result and the visits of a scan, given the places of the entries that lie before it. -/
structure Scanned (P : List (Entry c) → List (Entry c) → KvState → Prop)
    (Found : KvItem → KvState → Prop) (Stop : KvState → Prop) (blk : Nat) (s : KvState)
    (ahead : List (Nat × Nat)) (visits : List Nat) (result : Option KvItem × KvState) : Prop where
  scan : Scan s Found Stop (Ended P blk) result
  visits : VisitsOf s (ahead.map Prod.fst) visits result

/-- How a round at the entry `e` ends. -/
inductive Turn (P : List (Entry c) → List (Entry c) → KvState → Prop)
    (Found : KvItem → KvState → Prop) (Stop : KvState → Prop) (blk : Nat) (s : KvState)
    (before : List (Entry c)) (e : Entry c) (after : List (Entry c)) : Round → Prop where
  | found {item : KvItem} {s' : KvState} (later : s.Precedes s') (found : Found item s') :
    Turn P Found Stop blk s before e after (.left true (some item, s'))
  | stopped {visited : Bool} {s' : KvState} (later : s.Precedes s') (fault : ¬ s.Answered s')
    (stop : Stop s') : Turn P Found Stop blk s before e after (.left visited (none, s'))
  | next {before' after' : List (Entry c)} {s' : KvState} (later : s.Precedes s')
    (size : logSize before' = logSize before + e.size)
    (same : after'.map Entry.size = after.map Entry.size) (now : P before' after' s') :
    Turn P Found Stop blk s before e after (.next (logEnd blk before + e.size) s')

section

variable (rule : ScanRule c func blk key P Found Stop)
include rule

/-- The rule gives what one round does. -/
theorem turn (now : P before (e :: after) s) :
    Turn P Found Stop blk s before e after
      (traverseRound c func blk key (logEnd blk before) s) := by
  have inside := ((rule.holds _ _ _ now).room rule.valid).2
  have at_ := (rule.holds _ _ _ now).entry
  have now₂ := rule.later _ _ _ 2 now
  have start : s.Precedes (s.later 2) := .later 2
  by_cases read : HdrRead s
  · -- A dead entry is passed, whatever it is.
    have passed (dead : ¬ e.Live) : Turn P Found Stop blk s before e after
        (.next (logEnd blk before + e.size) (markDirty c (s.later 2) blk)) := by
      obtain ⟨marks, now'⟩ := rule.pass _ _ _ _ now₂ dead
      exact .next (start.trans marks) (by simp) rfl now'
    cases e
    case junk =>
      rw [traverseRound_junk read at_ inside]
      exact passed id
    case item r =>
    rw [traverseRound_item read at_ inside]
    by_cases normal : r.Normal
    · rw [if_pos normal]
      have visit := rule.visit _ _ _ _ now₂ normal
      generalize func (s.later 2) (r.itemAt (logEnd blk before)) key = result at visit
      obtain ⟨res, item, s'⟩ := result
      cases res with
      | ok => exact .found (start.trans visit.after) (visit.found rfl)
      | cont =>
        obtain ⟨before', after', size, same, now'⟩ := visit.next rfl
        exact .next (start.trans visit.after) size same now'
      | _ =>
        obtain ⟨fault, stopped⟩ := visit.stop nofun nofun
        exact .stopped (start.trans visit.after) (fun ok => fault (ok.right start)) stopped
    · rw [if_neg normal]
      exact passed normal
  · obtain ⟨k, eq, fault⟩ := traverseRound_fails read
    rw [eq]
    exact .stopped (.later k) fault (rule.stop _ _ _ (rule.later _ _ _ k now))

/-- Behind the last entry the loop ends at an erased header. -/
theorem lastRound (now : P log [] s) (inside : logEnd blk log + 1 < c.blkStart blk + c.blkSize) :
    ∃ result, traverseRound c func blk key (logEnd blk log) s = .left false result ∧
      Scan s Found Stop (Ended P blk) result := by
  have erased : ErasedFrom c s.flash blk (logEnd blk log) := by
    have erased := (rule.holds _ _ _ now).erased
    rwa [append_nil] at erased
  by_cases read : HdrRead s
  · refine ⟨_, traverseRound_erased read erased inside, ?_⟩
    exact .complete ((KvState.Precedes.later 2).trans (precedes_recordSpace _ _ _))
      ⟨log, s.later 2, rule.later _ _ _ _ now, rfl⟩
  · obtain ⟨n, eq, fault⟩ := traverseRound_fails read
    exact ⟨_, eq, .stopped (.later n) fault (rule.stop _ _ _ (rule.later _ _ _ n now))⟩

/-- The loop at the end of the log. -/
theorem traverseLoop_end (now : P log [] s)
    (inside : logEnd blk log + 1 < c.blkStart blk + c.blkSize) (fuel : Nat) :
    Scanned P Found Stop blk s [] (loopVisits c func blk key (fuel + 1) (logEnd blk log) s)
      (traverseLoop c func blk key (fuel + 1) (logEnd blk log) s) := by
  obtain ⟨result, eq, scan⟩ := rule.lastRound now inside
  rw [loopVisits, traverseLoop_succ, eq]
  exact ⟨scan, nil_prefix, fun _ _ => rfl⟩

/-- The loop after the test of its end. The induction is on the number of entries that have not
been visited: a callback may change them, but not how many they are. -/
theorem resumeAt :
    ∀ (n : Nat) (before after : List (Entry c)) (s : KvState) (fuel : Nat), after.length = n →
      P before after s → n < fuel →
      Scanned P Found Stop blk s (places (logEnd blk before) after)
        (if logEnd blk before + c.itemHdrSize < c.blkStart blk + c.blkSize then
          loopVisits c func blk key fuel (logEnd blk before) s else [])
        (resumeAt c func blk key fuel (logEnd blk before) s) := by
  have big := c.le_itemHdrSize
  intro n
  induction n with
  | zero =>
    intro before after s fuel empty now enough
    obtain rfl := length_eq_zero_iff.mp empty
    obtain ⟨fuel, rfl⟩ : ∃ k, fuel = k + 1 := ⟨fuel - 1, by omega⟩
    unfold Kv.resumeAt
    split
    · exact rule.traverseLoop_end now (by omega) fuel
    · exact ⟨.complete (precedes_recordSpace _ _ _) ⟨before, s, now, rfl⟩, nil_prefix,
        fun _ _ => rfl⟩
  | succ n ih =>
    intro before after s fuel length now enough
    obtain ⟨e, after, rfl⟩ := exists_cons_of_length_eq_add_one length
    obtain ⟨fuel, rfl⟩ : ∃ k, fuel = k + 1 := ⟨fuel - 1, by omega⟩
    have room := ((rule.holds _ _ _ now).room rule.valid).1
    have turn := rule.turn now
    rw [Kv.resumeAt, if_pos room, if_pos room, traverseLoop_succ, loopVisits]
    generalize traverseRound c func blk key (logEnd blk before) s = round at turn
    cases turn with
    | found later found =>
      exact ⟨.found later found, cons_prefix_cons.mpr ⟨rfl, nil_prefix⟩, nofun⟩
    | @stopped visited _ later fault stop =>
      refine ⟨.stopped later fault stop, ?_, fun _ answered => absurd answered fault⟩
      cases visited with
      | false => exact nil_prefix
      | true => exact cons_prefix_cons.mpr ⟨rfl, nil_prefix⟩
    | @next before' after' s' later size same now' =>
      have length' : after'.length = n := by
        have same := congrArg List.length same
        simp only [length_map, length_cons] at same length
        omega
      have stop : logEnd blk before' = logEnd blk before + e.size := by
        simp only [logEnd, size, Nat.add_assoc]
      obtain ⟨scan, visits⟩ := ih before' after' s' fuel length' now' (by omega)
      rw [stop] at scan visits
      rw [places_congr same] at visits
      exact ⟨scan.precede later, cons_prefix_cons.mpr ⟨rfl, visits.1⟩, fun none_ answered =>
        congrArg _ (visits.2 none_ (answered.right later))⟩

/-- The rule for a whole block. The first round of the loop is made without the test. -/
theorem traverse (start : P [] log s) :
    Scanned P Found Stop blk s (extents blk log) (traverseVisits c func s blk key)
      (kvItemTraverse c func s blk key) := by
  have now := rule.holds _ _ _ start
  have fits := now.fits
  have length := length_le_logSize log
  have header := c.blkHdrSize_lt
  rw [nil_append] at fits
  have enough : log.length < c.blkSize := by
    unfold logEnd at fits
    omega
  cases log with
  | nil =>
    obtain ⟨fuel, size⟩ : ∃ k, c.blkSize = k + 1 :=
      ⟨_, (Nat.succ_pred_eq_of_pos c.blkSize_pos).symm⟩
    have ends := rule.traverseLoop_end start (by simp only [logEnd, logSize_nil]; omega) fuel
    rw [← size] at ends
    exact ends
  | cons e log =>
    have split : Holds s.flash blk ([] ++ e :: log) := now
    have room := (split.room rule.valid).1
    have whole := rule.resumeAt _ [] (e :: log) s c.blkSize rfl start enough
    rw [if_pos room, Kv.resumeAt, if_pos room] at whole
    exact whole

end

end ScanRule

end AliosThings.Kv
