import AliosThings.Lib.Assoc
import AliosThings.Lib.Bytes
import AliosThings.Lib.Run

/-!
# The hash table

`utility/hashtable`: an array of buckets, each an embedded item with further items linked from it.
A key that is deleted from the embedded item leaves the item in its place without key and value; a
linked item is freed. Keys are stored without their lengths: every comparison is a `memcmp` over
the length of the key that is looked for.

Blocks of the heap are the lists of their bytes, and every allocation succeeds. An access outside
a block makes an operation return `none`.
-/

namespace AliosThings.Utility

open Option List Function
open Lib (System Represents rows otherRows)

/-! ## Items -/

/-- `ht_item_t` without its link. -/
structure HtItem where
  key : Option Bytes := none
  val : Option Bytes := none
  sizeVal : Int := 0
  deriving DecidableEq

/-- An element of the array and the items linked from it. -/
structure HtBucket where
  root : HtItem := {}
  next : List HtItem := []
  deriving DecidableEq

def HtBucket.items (b : HtBucket) : List HtItem := b.root :: b.next

/-- `ht_t`, with the number of items for which the array has room. -/
structure Ht where
  cnt : Nat
  room : Nat
  item : Nat → HtBucket

/-- An `unsigned int` kept in an `int`. -/
def toInt (n : Nat) : Int := if n % 2 ^ 32 < 2 ^ 31 then n % 2 ^ 32 else n % 2 ^ 32 - 2 ^ 32

/-- `sizeof(ht_item_t)` where pointers have four bytes. -/
def sizeofHtItem : Nat := 16

/-- `ht_init`: the size of the array is computed in 32 bits. -/
def htInit (maxCnt : Int) : Option Ht :=
  if maxCnt ≤ 0 then none
  else some
    { cnt := maxCnt.toNat
      room := maxCnt.toNat * sizeofHtItem % 2 ^ 32 / sizeofHtItem
      item := fun _ => {} }

/-- `_hash_func`. -/
def hashFunc (key : Bytes) : UInt32 :=
  let hash := key.foldl (fun (hash : UInt32) b =>
    let hash := hash + b.toUInt32
    let hash := hash + (hash <<< 10)
    hash ^^^ (hash >>> 6)) 0
  let hash := hash + (hash <<< 3)
  let hash := hash ^^^ (hash >>> 11)
  hash + (hash <<< 15)

variable (ht : Ht)

/-- Where `_ht_find_lockless` looks for a key. -/
def Ht.pos (key : Bytes) : Nat := (hashFunc key).toNat % ht.cnt

/-- An element of the array. -/
def Ht.at? (i : Nat) : Option HtBucket := if i < ht.room then some (ht.item i) else none

def Ht.set (i : Nat) (b : HtBucket) : Ht :=
  { ht with item := Function.update ht.item i b }

/-- `!memcmp(stored, key, key_len)`, which runs past the end of a stored key that is a proper
beginning of the other. -/
def memcmpEq : Bytes → Bytes → Option Bool
  | _, [] => some true
  | [], _ :: _ => none
  | a :: stored, b :: key => if a = b then memcmpEq stored key else some false

/-! ## Lookups -/

/-- The loop of `ht_find_lockless`. -/
def findItem (key : Bytes) : List HtItem → Option (Option HtItem)
  | [] => some none
  | p :: next =>
    match p.key with
    | none => findItem key next
    | some stored => do
      if ← memcmpEq stored key then some (some p) else findItem key next

/-- What `ht_find_lockless` returns: the block of the value, and what it stores through `val` and
`size_val`. -/
structure Found where
  ret : Bytes
  out : Option (Bytes × Int)
  deriving DecidableEq

/-- The copy into the caller's buffer of `size` bytes. -/
def copyOut (p : HtItem) (ret : Bytes) (size : Nat) : Option (Bytes × Int) :=
  let len : Int := if p.sizeVal > size then size else p.sizeVal
  if 0 ≤ len ∧ len ≤ ret.length then some (ret.take len.toNat, p.sizeVal) else none

/-- `ht_find_lockless`, with the size of the buffer if there is one. -/
def htFindLockless (key : Bytes) (buf : Option Nat) : Option (Option Found) :=
  if key.length = 0 then some none
  else do
    let b ← ht.at? (ht.pos key)
    match ← findItem key b.items with
    | none => some none
    | some p =>
      match p.val, buf with
      | none, _ => some none
      | some ret, none => some (some ⟨ret, none⟩)
      | some ret, some size => do
        let out ← copyOut p ret size
        some (some ⟨ret, some out⟩)

/-! ## Additions -/

/-- A new block with what the heap has left in it. -/
def freshBlock (garbage : Nat → UInt8) (size : Nat) : Bytes := (List.range size).map garbage

/-- `memcpy` to the beginning of a block. -/
def memcpyInto (block src : Bytes) : Option Bytes :=
  if src.length ≤ block.length then some (src ++ block.drop src.length) else none

/-- The item with a key and a value. -/
def newItem (key val : Bytes) : HtItem := ⟨some key, some val, toInt val.length⟩

/-- The loop of `ht_add_lockless` from the first linked item on, with `p_item` one behind `p_tmp`.
If the key is found the new block goes to `p_tmp`, and size and contents to `p_item`; without a
block in `p_item` the item that was found is freed while it is still linked. -/
def addLoop (key val : Bytes) (garbage : Nat → UInt8) (pItem : HtItem) :
    List HtItem → Option (HtItem × List HtItem)
  | [] => some (pItem, [newItem key val])
  | pTmp :: next => do
    let found ← match pTmp.key with
      | none => some false
      | some stored => memcmpEq stored key
    if found then
      let block ← pItem.val
      let block ← memcpyInto block val
      some ({ pItem with val := some block, sizeVal := toInt val.length },
        { pTmp with val := some (freshBlock garbage val.length) } :: next)
    else
      let (pTmp, next) ← addLoop key val garbage pTmp next
      some (pItem, pTmp :: next)

/-- `ht_add_lockless` in its bucket. -/
def addBucket (key val : Bytes) (garbage : Nat → UInt8) (b : HtBucket) : Option HtBucket :=
  match b.root.key with
  | none => some { b with root := newItem key val }
  | some stored => do
    if ← memcmpEq stored key then
      -- Here `p_item` and `p_tmp` are the same item.
      let block ← memcpyInto (freshBlock garbage val.length) val
      some { b with root := ⟨some stored, some block, toInt val.length⟩ }
    else
      let (root, next) ← addLoop key val garbage b.root b.next
      some ⟨root, next⟩

/-- `ht_add_lockless`. -/
def htAddLockless (key val : Bytes) (garbage : Nat → UInt8) : Option (Int × Ht) :=
  if key.length = 0 ∨ val.length = 0 then some (-1, ht)
  else do
    let b ← ht.at? (ht.pos key)
    let b ← addBucket key val garbage b
    some (0, ht.set (ht.pos key) b)

/-! ## Deletions -/

/-- `_ht_del_node` takes an item with key and value that has the key, if there is one. -/
def takesItem (key : Option Bytes) (p : HtItem) : Option Bool :=
  match p.key, p.val with
  | some stored, some _ =>
    match key with
    | none => some true
    | some key => memcmpEq stored key
  | _, _ => some false

/-- The loop of `_ht_del_node` over the linked items. -/
def delLinked (key : Option Bytes) : List HtItem → Option (Int × List HtItem)
  | [] => some (-1, [])
  | p :: next => do
    if ← takesItem key p then
      if key.isSome then some (0, next)
      else do
        let (_, next) ← delLinked key next
        some (0, next)
    else do
      let (ret, next) ← delLinked key next
      some (ret, p :: next)

/-- `_ht_del_node`. -/
def htDelNode (key : Option Bytes) (b : HtBucket) : Option (Int × HtBucket) := do
  if ← takesItem key b.root then
    let root : HtItem := { b.root with key := none, val := none }
    if key.isSome then some (0, { b with root := root })
    else do
      let (_, next) ← delLinked key b.next
      some (0, ⟨root, next⟩)
  else do
    let (ret, next) ← delLinked key b.next
    some (ret, { b with next := next })

/-- `ht_del_lockless`. -/
def htDelLockless (key : Bytes) : Option (Int × Ht) :=
  if key.length = 0 then some (-1, ht)
  else do
    let b ← ht.at? (ht.pos key)
    let (ret, b) ← htDelNode (some key) b
    some (ret, ht.set (ht.pos key) b)

/-- One round of `ht_clear_lockless`. -/
def clearAt (i : Nat) : Option Ht := do
  let b ← ht.at? i
  let (_, b) ← htDelNode none b
  some (ht.set i b)

/-- `ht_clear_lockless`. -/
def htClearLockless : Option Ht := (List.range ht.cnt).foldlM clearAt ht

/-! ## The iterator -/

/-- The key and the value with which `func` is called. -/
def HtItem.visit (p : HtItem) : Option (Bytes × Bytes) :=
  match p.key, p.val with
  | some key, some val => some (key, val)
  | _, _ => none

def HtBucket.entries (b : HtBucket) : List (Bytes × Bytes) := b.items.filterMap HtItem.visit

/-- The keys and values of all buckets. -/
def Ht.entries : List (Bytes × Bytes) := Lib.rows (fun i => (ht.item i).entries) ht.cnt

/-- `ht_iterator_lockless`: the calls of `func`. -/
def htIteratorLockless : Option (List (Bytes × Bytes)) :=
  if ht.cnt ≤ ht.room then some ht.entries else none

/-! ## The hash table as a finite map

The table represents the map of the additions and deletions so far, as long as no key that is used
is a proper beginning of a key stored in its bucket or the other way round, no key is added that a
linked item has, and sizes do not overflow. -/

/-! ## Calls and the map they stand for -/

/-- The calls that change the table; `garbage` is what the heap has left in the new block. -/
inductive HtCall where
  | add (key val : Bytes) (garbage : Nat → UInt8)
  | del (key : Bytes)
  | clear

/-- The table after a call. -/
def HtCall.apply (ht : Ht) : HtCall → Option Ht
  | add key val garbage => (htAddLockless ht key val garbage).map Prod.snd
  | del key => (htDelLockless ht key).map Prod.snd
  | clear => htClearLockless ht

/-- The last value that was added for each key and not deleted since. -/
abbrev HtMap := Bytes → Option Bytes

/-- A call of `ht_add` without key or value is refused. -/
def HtCall.note : HtCall → HtMap → HtMap
  | add key val _, map => if key = [] ∨ val = [] then map else update map key (some val)
  | del key, map => update map key none
  | clear, _ => fun _ => none

/-- The table that `ht_init` returns and any calls on it; there is no table any more after an
access outside a block. -/
abbrev htSystem (maxCnt : Int) : System (Option Ht) HtCall where
  init s := s = htInit maxCnt ∧ 0 < maxCnt
  allowed _ _ := True
  step s call := s.bind call.apply

/-- The table with the map of the calls so far. -/
abbrev htObserved (maxCnt : Int) : System (Option Ht × HtMap) HtCall :=
  (htSystem maxCnt).observed (fun _ => none) fun _ => HtCall.note

/-- What `ht_find` returns for a value. -/
def found (buf : Option Nat) (val : Bytes) : Found :=
  ⟨val, buf.map fun size => (val.take size, val.length)⟩

/-- `ht_find` returns what the map has for a key. -/
def FindsAs (ht : Ht) (map : HtMap) (key : Bytes) : Prop :=
  ∀ buf, htFindLockless ht key buf = some ((map key).map (found buf))

/-- The table is there, it finds each key of which `P` holds as the map does, and the iterator
visits each key of the map once and with its value. -/
def Refines (P : Ht → Bytes → Prop) (p : Option Ht × HtMap) : Prop :=
  ∃ ht, p.1 = some ht ∧ (∀ key, P ht key → FindsAs ht p.2 key) ∧
    ∃ visits, htIteratorLockless ht = some visits ∧ Represents visits p.2

/-! ## Conditions -/

/-- A stored key and another one of which neither is a proper beginning of the other. -/
def KeysApart (stored key : Bytes) : Prop := stored <+: key ∨ key <+: stored → stored = key
  deriving Decidable

/-- The key is apart from each key in its bucket. -/
def Ht.Apart (ht : Ht) (key : Bytes) : Prop :=
  key ≠ [] → ∀ p ∈ (ht.item (ht.pos key)).items, ∀ stored ∈ p.key, KeysApart stored key
  deriving Decidable

/-- The keys of the calls are apart from those in their buckets, and no key is added that a linked
item has, nor a value of which the size is not an `int`. -/
def HtCall.Fair (ht : Ht) : HtCall → Prop
  | add key val _ => ht.Apart key ∧ val.length < 2 ^ 31 ∧
      ∀ p ∈ (ht.item (ht.pos key)).next, p.key ≠ some key
  | del key => ht.Apart key
  | clear => True

instance (ht : Ht) (call : HtCall) : Decidable (call.Fair ht) := by
  cases call <;> unfold HtCall.Fair <;> infer_instance

/-! ## Buckets -/

/-- A pair as an item. -/
def itemOf (e : Bytes × Bytes) : HtItem := ⟨some e.1, some e.2, e.2.length⟩

/-- The embedded item has no key and no value, or those of one pair. -/
inductive Embeds : HtItem → List (Bytes × Bytes) → Prop where
  | empty (size : Int) : Embeds ⟨none, none, size⟩ []
  | stored (e : Bytes × Bytes) : Embeds (itemOf e) [e]

/-- The bucket keeps `first` in its embedded item and `linked` in the linked ones. -/
structure Keeps (b : HtBucket) (first linked : List (Bytes × Bytes)) : Prop where
  root : Embeds b.root first
  next : b.next = linked.map itemOf

variable {key val stored : Bytes} {e : Bytes × Bytes} {es first linked : List (Bytes × Bytes)}
  {b : HtBucket} {i n j : Nat} {maxCnt : Int}

/-- Keys that are apart are compared exactly. -/
theorem memcmpEq_of_apart (apart : KeysApart stored key) :
    memcmpEq stored key = some (decide (stored = key)) := by
  induction stored generalizing key with
  | nil =>
    cases key with
    | nil => rfl
    | cons => cases apart (.inl nil_prefix)
  | cons a stored ih =>
    cases key
    case nil => cases apart (.inr nil_prefix)
    case cons b key =>
    by_cases same : a = b
    · subst same
      have tails : KeysApart stored key := by
        intro either
        have whole := apart (either.imp (prefix_cons_inj a).mpr (prefix_cons_inj a).mpr)
        exact (cons.inj whole).2
      simp [memcmpEq, ih tails]
    · simp [memcmpEq, same]

theorem toInt_of_lt (small : n < 2 ^ 31) : toInt n = n := by
  unfold toInt
  split <;> omega

/-- A new node has the key and the value. -/
theorem newItem_eq (small : val.length < 2 ^ 31) : newItem key val = itemOf (key, val) := by
  rw [newItem, toInt_of_lt small, itemOf]

theorem Keeps.entries (keeps : Keeps b first linked) : b.entries = first ++ linked := by
  have rest : (linked.map itemOf).filterMap HtItem.visit = linked := by
    rw [filterMap_map]
    exact filterMap_some
  obtain ⟨root, next⟩ := b
  obtain ⟨root, rfl⟩ := keeps
  cases root with
  | empty => exact rest
  | stored e =>
    show e :: (linked.map itemOf).filterMap HtItem.visit = _
    rw [rest]
    rfl

/-- The search finds the first node with the key. -/
theorem findItem_linked (apart : ∀ e ∈ linked, KeysApart e.1 key) :
    findItem key (linked.map itemOf) = some ((linked.find? (·.1 = key)).map itemOf) := by
  induction linked with
  | nil => rfl
  | cons e linked ih =>
    have rest := ih fun e mem => apart e (mem_cons_of_mem _ mem)
    have here := memcmpEq_of_apart (apart e mem_cons_self)
    by_cases same : e.1 = key
    · subst same
      simp [findItem, itemOf, here]
    · simp [findItem, itemOf, here, same, ← rest]

/-- A new key goes to the end of the chain. -/
theorem addLoop_linked (apart : ∀ e ∈ linked, KeysApart e.1 key)
    (absent : ∀ e ∈ linked, e.1 ≠ key) (garbage : Nat → UInt8) (p : HtItem) :
    addLoop key val garbage p (linked.map itemOf) =
      some (p, linked.map itemOf ++ [newItem key val]) := by
  induction linked generalizing p with
  | nil => rfl
  | cons e _ ih =>
    have rest := ih (fun e mem => apart e (mem_cons_of_mem _ mem))
      (fun e mem => absent e (mem_cons_of_mem _ mem)) (itemOf e)
    have here := memcmpEq_of_apart (apart e mem_cons_self)
    rw [decide_eq_false (absent e mem_cons_self)] at here
    simp only [map_cons, addLoop, itemOf, here, bind_eq_bind, bind_some]
    rw [← itemOf, rest]
    rfl

theorem takesItem_itemOf (apart : KeysApart e.1 key) :
    takesItem (some key) (itemOf e) = some (decide (e.1 = key)) :=
  memcmpEq_of_apart apart

/-- The node with the key leaves the chain. -/
theorem delLinked_linked (apart : ∀ e ∈ linked, KeysApart e.1 key) :
    ∃ ret, delLinked (some key) (linked.map itemOf) =
      some (ret, (linked.eraseP (·.1 = key)).map itemOf) := by
  induction linked with
  | nil => exact ⟨-1, rfl⟩
  | cons e _ ih =>
    obtain ⟨ret, rest⟩ := ih fun e mem => apart e (mem_cons_of_mem _ mem)
    have here := takesItem_itemOf (apart e mem_cons_self)
    by_cases same : e.1 = key
    · refine ⟨0, ?_⟩
      simp [delLinked, here, same]
    · refine ⟨ret, ?_⟩
      simp [delLinked, here, same, rest]

/-- Without a key the whole chain goes. -/
theorem delLinked_all (linked : List (Bytes × Bytes)) :
    ∃ ret, delLinked none (linked.map itemOf) = some (ret, []) := by
  induction linked with
  | nil => exact ⟨-1, rfl⟩
  | cons _ _ ih =>
    obtain ⟨ret, rest⟩ := ih
    refine ⟨0, ?_⟩
    simp [delLinked, takesItem, itemOf, rest]

/-! ### Operations on one bucket -/

/-- The key is apart from those of the bucket. -/
def BucketApart (first linked : List (Bytes × Bytes)) (key : Bytes) : Prop :=
  ∀ e ∈ first ++ linked, KeysApart e.1 key

theorem BucketApart.inLinked (apart : BucketApart first linked key) :
    ∀ e ∈ linked, KeysApart e.1 key :=
  fun e mem => apart e (mem_append_right _ mem)

/-- The search in a bucket. -/
theorem Keeps.find (keeps : Keeps b first linked) (apart : BucketApart first linked key) :
    findItem key b.items = some (((first ++ linked).find? (·.1 = key)).map itemOf) := by
  have rest := findItem_linked apart.inLinked
  obtain ⟨root, next⟩ := b
  obtain ⟨root, rfl⟩ := keeps
  cases root with
  | empty => exact rest
  | stored => exact findItem_linked apart

/-- A key that no linked item has is added. -/
theorem Keeps.add (keeps : Keeps b first linked) (apart : BucketApart first linked key)
    (absent : ∀ e ∈ linked, e.1 ≠ key) (small : val.length < 2 ^ 31) (garbage : Nat → UInt8) :
    ∃ b' first' linked', addBucket key val garbage b = some b' ∧ Keeps b' first' linked' ∧
      Lib.Exchanged (first ++ linked) (first' ++ linked') key (some val) := by
  have other : key ∉ linked.map Prod.fst := by
    intro mem
    obtain ⟨e, mem, same⟩ := mem_map.mp mem
    exact absent e mem same
  have new : newItem key val = itemOf (key, val) := newItem_eq small
  obtain ⟨root, next⟩ := b
  obtain ⟨root, rfl⟩ := keeps
  cases root with
  | empty =>
    refine ⟨_, [(key, val)], linked, rfl, ⟨new ▸ .stored _, rfl⟩, [], linked, .refl _, ?_, other,
      ?_⟩
    · exact nofun
    · exact .refl _
  | stored e =>
    have here := memcmpEq_of_apart (apart e mem_cons_self)
    by_cases same : e.1 = key
    · subst same
      -- The embedded item gets a new block.
      have copied : memcpyInto (freshBlock garbage val.length) val = some val := by
        simp [memcpyInto, freshBlock]
      refine ⟨⟨itemOf (e.1, val), linked.map itemOf⟩, [(e.1, val)], linked, ?_, ⟨.stored _, rfl⟩,
        [e], linked, .refl _, ?_, other, .refl _⟩
      · simp [addBucket, itemOf, here, copied, toInt_of_lt small]
      · simp
    · -- The new item goes to the end of the list.
      have loop : addLoop key val garbage (itemOf e) (linked.map itemOf) = _ :=
        addLoop_linked apart.inLinked absent garbage (itemOf e)
      refine ⟨⟨itemOf e, (linked ++ [(key, val)]).map itemOf⟩, [e], linked ++ [(key, val)], ?_,
        ⟨.stored e, rfl⟩, [], e :: linked, .refl _, nofun, ?_, ?_⟩
      · rw [decide_eq_false same] at here
        rw [map_append, map_singleton, ← new]
        simp only [addBucket, itemOf, here, bind_eq_bind, bind_some]
        rw [← itemOf, loop]
        rfl
      · rw [map_cons, mem_cons]
        exact fun either => either.elim (fun eq => same eq.symm) other
      · exact (perm_append_singleton (key, val) (e :: linked))

/-- The pair of a key is taken from a list with one pair for each key. -/
theorem exchanged_eraseP (nodup : (es.map Prod.fst).Nodup) :
    Lib.Exchanged es (es.eraseP (·.1 = key)) key none := by
  by_cases any : ∃ e ∈ es, e.1 = key
  · obtain ⟨e, mem, same⟩ := any
    obtain ⟨e, before, after, -, same, split, erased⟩ :=
      exists_of_eraseP (p := (·.1 = key)) mem (decide_eq_true same)
    have same : e.1 = key := of_decide_eq_true same
    subst same
    rw [erased, split]
    rw [split, map_append, map_cons] at nodup
    have shuffled := nodup_cons.mp (perm_middle.nodup_iff.mp nodup)
    refine ⟨[e], before ++ after, perm_middle, ?_, ?_, .refl _⟩
    · simp
    · rw [map_append]
      exact shuffled.1
  · have all : ∀ e ∈ es, e.1 ≠ key := fun e mem same => any ⟨e, mem, same⟩
    have same : es.eraseP (·.1 = key) = es :=
      eraseP_of_forall_not fun e mem => decide_eq_false (all e mem) ▸ nofun
    rw [same]
    refine ⟨[], es, .refl _, nofun, ?_, .refl _⟩
    intro mem
    obtain ⟨e, mem, same⟩ := mem_map.mp mem
    exact all e mem same

/-- The deletion from a bucket. -/
theorem Keeps.del (keeps : Keeps b first linked) (apart : BucketApart first linked key)
    (nodup : ((first ++ linked).map Prod.fst).Nodup) :
    ∃ ret b' first' linked', htDelNode (some key) b = some (ret, b') ∧ Keeps b' first' linked' ∧
      Lib.Exchanged (first ++ linked) (first' ++ linked') key none := by
  obtain ⟨ret, rest⟩ := delLinked_linked apart.inLinked
  obtain ⟨root, next⟩ := b
  obtain ⟨root, rfl⟩ := keeps
  cases root
  case empty size =>
    refine ⟨ret, ⟨⟨none, none, size⟩, (linked.eraseP (·.1 = key)).map itemOf⟩, [],
      linked.eraseP (·.1 = key), ?_, ⟨.empty size, rfl⟩, exchanged_eraseP nodup⟩
    simp [htDelNode, takesItem, rest]
  case stored e =>
  have here : takesItem (some key) ⟨some e.1, some e.2, e.2.length⟩ = _ :=
    takesItem_itemOf (apart e mem_cons_self)
  have exchanged : Lib.Exchanged _ _ key none := exchanged_eraseP nodup
  rw [singleton_append] at exchanged
  by_cases same : e.1 = key
  · rw [eraseP_cons_of_pos (by simpa using same)] at exchanged
    refine ⟨0, ⟨⟨none, none, e.2.length⟩, linked.map itemOf⟩, [], linked, ?_, ⟨.empty _, rfl⟩,
      exchanged⟩
    rw [decide_eq_true same] at here
    simp [htDelNode, here]
  · rw [eraseP_cons_of_neg (by simpa using same)] at exchanged
    refine ⟨ret, ⟨itemOf e, (linked.eraseP (·.1 = key)).map itemOf⟩, [e],
      linked.eraseP (·.1 = key), ?_, ⟨.stored e, rfl⟩, exchanged⟩
    rw [decide_eq_false same] at here
    simp [htDelNode, itemOf, here, rest]

/-- A bucket is emptied. -/
theorem Keeps.clear (keeps : Keeps b first linked) :
    ∃ ret b', htDelNode none b = some (ret, b') ∧ Keeps b' [] [] := by
  obtain ⟨ret, rest⟩ := delLinked_all linked
  obtain ⟨root, next⟩ := b
  obtain ⟨root, rfl⟩ := keeps
  cases root with
  | empty size =>
    refine ⟨ret, ⟨⟨none, none, size⟩, []⟩, ?_, .empty size, rfl⟩
    simp [htDelNode, takesItem, rest]
  | stored e =>
    refine ⟨0, ⟨⟨none, none, e.2.length⟩, []⟩, ?_, .empty _, rfl⟩
    simp [htDelNode, takesItem, rest]

/-! ## The whole table -/

@[simp] theorem Ht.set_cnt (ht : Ht) (i : Nat) (b : HtBucket) : (ht.set i b).cnt = ht.cnt := rfl

theorem Ht.set_item_self (ht : Ht) (i : Nat) (b : HtBucket) : (ht.set i b).item i = b :=
  update_self ..

theorem Ht.set_item_other (ht : Ht) (b : HtBucket) (other : j ≠ i) :
    (ht.set i b).item j = ht.item j :=
  update_of_ne other ..

@[simp] theorem Ht.set_pos (ht : Ht) (i : Nat) (b : HtBucket) (key : Bytes) :
    (ht.set i b).pos key = ht.pos key := by
  rw [Ht.pos, Ht.set_cnt, Ht.pos]

/-- Each bucket keeps pairs whose keys belong to it, and all together represent the map. -/
structure Tidy (ht : Ht) (map : HtMap) : Prop where
  cnt : 0 < ht.cnt
  room : ht.room = ht.cnt
  keeps : ∀ i < ht.cnt, ∃ first linked, Keeps (ht.item i) first linked
  place : ∀ i < ht.cnt, ∀ e ∈ (ht.item i).entries, e.1 ≠ [] ∧ ht.pos e.1 = i
  rep : Represents ht.entries map

namespace Tidy

variable {ht : Ht} {map : HtMap}

section

variable (tidy : Tidy ht map)
include tidy

/-- A key has a bucket. -/
theorem pos_lt (key : Bytes) : ht.pos key < ht.cnt := Nat.mod_lt _ tidy.cnt

theorem at?_eq (inside : i < ht.cnt) : ht.at? i = some (ht.item i) := if_pos (tidy.room ▸ inside)

/-- A key is in no other bucket than its own. -/
theorem absent (key : Bytes) :
    key ∉ (otherRows (fun i => (ht.item i).entries) ht.cnt (ht.pos key)).map Prod.fst := by
  intro mem
  obtain ⟨e, mem, rfl⟩ := mem_map.mp mem
  obtain ⟨i, inside, other, mem⟩ := Lib.mem_otherRows.mp mem
  exact other (tidy.place i inside e mem).2.symm

/-- The pairs of a key stand in its bucket. -/
theorem mem_iff (key val : Bytes) :
    (key, val) ∈ (ht.item (ht.pos key)).entries ↔ map key = some val := by
  have split : ht.entries.Perm _ := Lib.rows_perm (tidy.pos_lt key)
  rw [← tidy.rep.mem, split.mem_iff, mem_append]
  refine ⟨.inl, fun either => either.resolve_right fun mem => ?_⟩
  exact tidy.absent key (mem_map_of_mem mem)

theorem map_nil : map [] = none := by
  rw [eq_none_iff_forall_not_mem]
  intro val has
  exact (tidy.place _ (tidy.pos_lt []) _ ((tidy.mem_iff [] val).mpr has)).1 rfl

/-- No key is in a bucket twice. -/
theorem nodup (inside : i < ht.cnt) : ((ht.item i).entries.map Prod.fst).Nodup := by
  have split : ht.entries.Perm _ := Lib.rows_perm inside
  have all := (split.map Prod.fst).nodup_iff.mp tidy.rep.nodup
  rw [map_append] at all
  exact (nodup_append.mp all).1

/-- One bucket is changed. -/
theorem set (nonempty : key ≠ []) (here : ht.pos key = i) (keeps : Keeps b first linked)
    {new : Option Bytes} (exchanged : Lib.Exchanged (ht.item i).entries b.entries key new) :
    Tidy (ht.set i b) (update map key new) := by
  have inside : i < ht.cnt := here ▸ tidy.pos_lt key
  have self := ht.set_item_self i b
  refine ⟨tidy.cnt, tidy.room, ?_, ?_, ?_⟩
  · intro j valid
    by_cases same : j = i
    · subst same
      rw [self]
      exact ⟨first, linked, keeps⟩
    · rw [ht.set_item_other b same]
      exact tidy.keeps j valid
  · intro j valid e mem
    rw [Ht.set_pos]
    by_cases same : j = i
    · subst same
      rw [self] at mem
      rcases exchanged.mem mem with is | old
      · rw [is]
        exact ⟨nonempty, here⟩
      · exact tidy.place j valid e old
    · rw [ht.set_item_other b same] at mem
      exact tidy.place j valid e mem
  · apply tidy.rep.exchanged
    refine Lib.exchanged_rows inside (fun j other => ?_) (here ▸ tidy.absent key) ?_
    · rw [ht.set_item_other b other]
    · rw [self]
      exact exchanged

end

end Tidy

theorem HtItem.visit_key {p : HtItem} (visit : p.visit = some e) : p.key = some e.1 := by
  obtain ⟨key, val, size⟩ := p
  cases key with
  | none => cases visit
  | some =>
    cases val with
    | none => cases visit
    | some =>
      cases visit
      rfl

/-- The keys of the bucket can be told from the key. -/
theorem Ht.Apart.bucket {ht : Ht} (apart : ht.Apart key) (nonempty : key ≠ [])
    (keeps : Keeps (ht.item (ht.pos key)) first linked) : BucketApart first linked key := by
  intro e mem
  rw [← keeps.entries] at mem
  obtain ⟨p, mem, visit⟩ := mem_filterMap.mp mem
  exact apart nonempty p mem e.1 (HtItem.visit_key visit)

/-! ### Calls -/

namespace Tidy

variable {ht : Ht} {map : HtMap}

/-- As many bytes are copied as there is room for. -/
theorem copyOut_itemOf (e : Bytes × Bytes) (size : Nat) :
    copyOut (itemOf e) e.2 size = some (e.2.take size, (e.2.length : Int)) := by
  unfold copyOut itemOf
  by_cases long : (e.2.length : Int) > size
  · simp only [if_pos long, Int.toNat_natCast]
    rw [if_pos ⟨by omega, by omega⟩]
  · simp only [if_neg long, Int.toNat_natCast]
    rw [if_pos ⟨by omega, by omega⟩, take_length, take_of_length_le (by omega)]

section

variable (tidy : Tidy ht map) (apart : ht.Apart key)
include tidy apart

/-- `ht_find_lockless` is a lookup. -/
theorem find : FindsAs ht map key := by
  intro buf
  have mem := tidy.mem_iff key
  have inside := tidy.pos_lt key
  obtain ⟨first, linked, keeps⟩ := tidy.keeps _ inside
  rcases eq_or_ne key [] with rfl | nonempty
  · rw [tidy.map_nil, htFindLockless, if_pos length_nil, map_none]
  · rw [keeps.entries] at mem
    rw [htFindLockless, if_neg (by rwa [length_eq_zero_iff]), tidy.at?_eq inside]
    simp only [bind_eq_bind, bind_some, keeps.find (apart.bucket nonempty keeps)]
    cases result : (first ++ linked).find? (·.1 = key) with
    | none =>
      have none_ : map key = none := by
        rw [eq_none_iff_forall_not_mem]
        intro val has
        simpa using find?_eq_none.mp result _ ((mem val).mpr has)
      rw [none_]
      rfl
    | some e =>
      have same : e.1 = key := by simpa using find?_some result
      subst same
      rw [(mem e.2).mp (mem_of_find?_eq_some result)]
      cases buf with
      | none => rfl
      | some size =>
        show (copyOut (itemOf e) e.2 size).bind _ = _
        rw [copyOut_itemOf]
        rfl

/-- `ht_add_lockless` is an update of the map. -/
theorem add (small : val.length < 2 ^ 31)
    (fresh : ∀ p ∈ (ht.item (ht.pos key)).next, p.key ≠ some key) (garbage : Nat → UInt8) :
    ∃ ret ht', htAddLockless ht key val garbage = some (ret, ht') ∧
      Tidy ht' ((HtCall.add key val garbage).note map) := by
  by_cases refused : key = [] ∨ val = []
  · refine ⟨-1, ht, ?_, ?_⟩
    · rw [htAddLockless, if_pos]
      exact refused.imp length_eq_zero_iff.mpr length_eq_zero_iff.mpr
    · rw [HtCall.note, if_pos refused]
      exact tidy
  · have nonempty : key ≠ [] := fun is => refused (.inl is)
    have inside := tidy.pos_lt key
    obtain ⟨first, linked, keeps⟩ := tidy.keeps _ inside
    have absent : ∀ e ∈ linked, e.1 ≠ key := by
      intro e mem same
      rw [keeps.next] at fresh
      exact fresh _ (mem_map_of_mem mem) (congrArg some same)
    obtain ⟨b, first', linked', call, keeps', exchanged⟩ :=
      keeps.add (apart.bucket nonempty keeps) absent small garbage
    refine ⟨0, ht.set (ht.pos key) b, ?_, ?_⟩
    · rw [htAddLockless, if_neg, tidy.at?_eq inside]
      · simp only [bind_eq_bind, bind_some, call]
      · rwa [length_eq_zero_iff, length_eq_zero_iff]
    · rw [HtCall.note, if_neg refused]
      rw [← keeps.entries, ← keeps'.entries] at exchanged
      exact tidy.set nonempty rfl keeps' exchanged

/-- `ht_del_lockless` removes the key. -/
theorem del :
    ∃ ret ht', htDelLockless ht key = some (ret, ht') ∧
      Tidy ht' (update map key none) := by
  have inside := tidy.pos_lt key
  rcases eq_or_ne key [] with rfl | nonempty
  · refine ⟨-1, ht, if_pos rfl, ?_⟩
    rwa [← tidy.map_nil, update_eq_self]
  · obtain ⟨first, linked, keeps⟩ := tidy.keeps _ inside
    have nodup := tidy.nodup inside
    rw [keeps.entries] at nodup
    obtain ⟨ret, b, first', linked', call, keeps', exchanged⟩ :=
      keeps.del (apart.bucket nonempty keeps) nodup
    refine ⟨ret, ht.set (ht.pos key) b, ?_, ?_⟩
    · rw [htDelLockless, if_neg, tidy.at?_eq inside]
      · simp only [bind_eq_bind, bind_some, call]
      · rwa [length_eq_zero_iff]
    · rw [← keeps.entries, ← keeps'.entries] at exchanged
      exact tidy.set nonempty rfl keeps' exchanged

end

end Tidy

/-- The buckets of a list of positions are cleared; a bucket that is empty already stays empty. -/
theorem clearAt_all {ht : Ht} (l : List Nat) (inside : ∀ i ∈ l, i < ht.room)
    (keeps : ∀ i < ht.room, ∃ first linked, Keeps (ht.item i) first linked) :
    ∃ ht', l.foldlM clearAt ht = some ht' ∧ ht'.cnt = ht.cnt ∧ ht'.room = ht.room ∧
      ∀ i, i ∈ l ∨ Keeps (ht.item i) [] [] → Keeps (ht'.item i) [] [] := by
  induction l generalizing ht with
  | nil => exact ⟨ht, rfl, rfl, rfl, fun i either => either.resolve_left not_mem_nil⟩
  | cons i l ih =>
    have here := inside i mem_cons_self
    obtain ⟨first, linked, keeps_i⟩ := keeps i here
    obtain ⟨ret, b, call, empty⟩ := keeps_i.clear
    have step : clearAt ht i = some (ht.set i b) := by
      simp only [clearAt, Ht.at?, if_pos here, bind_eq_bind, bind_some, call]
    obtain ⟨ht', rest, cnt, room, all⟩ := @ih (ht.set i b)
      (fun j mem => inside j (mem_cons_of_mem _ mem)) (fun j valid => by
        by_cases same : j = i
        · subst same
          rw [ht.set_item_self]
          exact ⟨[], [], empty⟩
        · rw [ht.set_item_other b same]
          exact keeps j valid)
    refine ⟨ht', ?_, cnt, room, fun j either => all j ?_⟩
    · rw [foldlM_cons, step]
      exact rest
    · by_cases same : j = i
      · subst same
        rw [ht.set_item_self]
        exact .inr empty
      · rw [ht.set_item_other b same]
        exact either.imp_left fun mem => (mem_cons.mp mem).resolve_left same

theorem Tidy.clear {ht : Ht} {map : HtMap} (tidy : Tidy ht map) :
    ∃ ht', htClearLockless ht = some ht' ∧ Tidy ht' fun _ => none := by
  obtain ⟨ht', call, cnt, room, all⟩ := clearAt_all (range ht.cnt)
    (fun i mem => tidy.room ▸ mem_range.mp mem)
    (fun i valid => tidy.keeps i (tidy.room ▸ valid))
  have empty (i : Nat) (valid : i < ht'.cnt) : Keeps (ht'.item i) [] [] :=
    all i (.inl (mem_range.mpr (cnt ▸ valid)))
  have nothing : ht'.entries = [] := by
    refine flatMap_eq_nil_iff.mpr fun i mem => ?_
    exact (empty i (mem_range.mp mem)).entries
  refine ⟨ht', call, cnt ▸ tidy.cnt, ?_, fun i valid => ⟨[], [], empty i valid⟩, ?_, ?_⟩
  · rw [room, cnt, tidy.room]
  · intro i valid e mem
    rw [(empty i valid).entries] at mem
    exact absurd mem not_mem_nil
  · rw [nothing]
    exact .nil

/-- One call. -/
theorem Tidy.apply {ht : Ht} {map : HtMap} (tidy : Tidy ht map) {call : HtCall}
    (fair : call.Fair ht) : ∃ ht', call.apply ht = some ht' ∧ Tidy ht' (call.note map) := by
  cases call with
  | add _ _ garbage =>
    obtain ⟨apart, small, fresh⟩ := fair
    obtain ⟨ret, ht', eq, tidy'⟩ := tidy.add apart small fresh garbage
    exact ⟨ht', by rw [HtCall.apply, eq, map_some], tidy'⟩
  | del =>
    obtain ⟨ret, ht', eq, tidy'⟩ := tidy.del fair
    exact ⟨ht', by rw [HtCall.apply, eq, map_some], tidy'⟩
  | clear => exact tidy.clear

/-- A new table is the empty map. -/
theorem htInit_tidy (pos : 0 < maxCnt) (fits : 16 * maxCnt < 2 ^ 32) :
    ∃ ht, htInit maxCnt = some ht ∧ Tidy ht fun _ => none := by
  refine ⟨_, if_neg (by omega), ?_⟩
  refine ⟨Int.lt_toNat.mpr pos, ?_, fun i _ => ⟨[], [], ⟨.empty 0, rfl⟩⟩, nofun, ?_⟩
  · show maxCnt.toNat * sizeofHtItem % 2 ^ 32 / sizeofHtItem = maxCnt.toNat
    rw [sizeofHtItem, Nat.mod_eq_of_lt (by omega)]
    omega
  · have empty : rows (fun _ => ({} : HtBucket).entries) maxCnt.toNat = [] :=
      flatMap_eq_nil_iff.mpr fun _ _ => rfl
    show Represents (rows (fun _ => ({} : HtBucket).entries) maxCnt.toNat) _
    rw [empty]
    exact .nil

/-! ## Runs -/

/-- The runs of which every call is fair. -/
abbrev htFair (maxCnt : Int) : System (Option Ht × HtMap) HtCall :=
  (htObserved maxCnt).restrict fun p call => ∀ ht ∈ p.1, call.Fair ht

/-- In a run of fair calls the table stands for the map of the calls. -/
theorem ht_refines_map (maxCnt : Int) (fits : 16 * maxCnt < 2 ^ 32) {p : Option Ht × HtMap}
    (reach : (htFair maxCnt).Reach p) : Refines Ht.Apart p := by
  have tidy : ∃ ht, p.1 = some ht ∧ Tidy ht p.2 := by
    refine reach.invariant (P := fun p => ∃ ht, p.1 = some ht ∧ Tidy ht p.2) ?_ ?_
    · rintro ⟨s, map⟩ ⟨⟨init, pos⟩, rfl⟩
      obtain ⟨ht, call, tidy⟩ := htInit_tidy pos fits
      exact ⟨ht, init.trans call, tidy⟩
    · rintro ⟨s, map⟩ call ⟨ht, rfl, tidy⟩ ⟨-, fair⟩
      obtain ⟨ht', eq, tidy'⟩ := tidy.apply (fair ht rfl)
      exact ⟨ht', eq, tidy'⟩
  obtain ⟨ht, is, tidy⟩ := tidy
  refine ⟨ht, is, fun key apart => tidy.find apart, ht.entries, ?_, tidy.rep⟩
  exact if_pos tidy.room.ge

/-- A new table. -/
def newTable (maxCnt : Int) : Option Ht × HtMap := (htInit maxCnt, fun _ => none)

/-- The state after calls on a new table. -/
def afterCalls (maxCnt : Int) (calls : List HtCall) : Option Ht × HtMap :=
  (htObserved maxCnt).run (newTable maxCnt) calls

theorem afterCalls_reach (maxCnt : Int) (pos : 0 < maxCnt) (calls : List HtCall) :
    (htObserved maxCnt).Reach (afterCalls maxCnt calls) := by
  refine System.Reach.run (.init ⟨⟨rfl, pos⟩, rfl⟩) ?_
  generalize newTable maxCnt = p
  induction calls generalizing p with
  | nil => trivial
  | cons call calls ih => exact ⟨trivial, ih _⟩

theorem htFair_run (pos : 0 < maxCnt) {calls : List HtCall}
    (fair : (htFair maxCnt).Runs (newTable maxCnt) calls) :
    (htFair maxCnt).Reach (afterCalls maxCnt calls) :=
  System.Reach.run (.init ⟨⟨rfl, pos⟩, rfl⟩) fair

/-- Three keys in two buckets, one of them written again and one deleted. -/
theorem ht_refines_map_chained :
    Refines Ht.Apart (afterCalls 2 [.add [1] [10] fun _ => 0, .add [2] [20] fun _ => 0,
      .add [3] [30, 31] fun _ => 0, .add [1] [11] fun _ => 0, .del [3]]) :=
  ht_refines_map 2 (by decide) (htFair_run (by decide) (by decide +kernel))

/-- A table with one bucket: the value of a longer key is found; an update of a linked item goes to
the item before it; a key is stored a second time in the empty embedded item, and its old value
comes back when it is deleted. -/
theorem not_ht_refines_map :
    ([[.add [1, 2] [10] fun _ => 0],
      [.add [1] [10] fun _ => 0, .add [2] [20] fun _ => 0, .add [2] [30] fun _ => 0],
      [.add [1] [10] fun _ => 0, .add [2] [20] fun _ => 0, .del [1], .add [2] [30] fun _ => 0,
        .del [2]]] : List (List HtCall)).Forall fun calls =>
      (htObserved 1).Reach (afterCalls 1 calls) ∧
        ¬ Refines (fun _ _ => True) (afterCalls 1 calls) := by
  have wrong (calls : List HtCall) (key : Bytes)
      (differs : ((afterCalls 1 calls).1.map fun ht => htFindLockless ht key none) ≠
        some (some (((afterCalls 1 calls).2 key).map (found none)))) :
      ¬ Refines (fun _ _ => True) (afterCalls 1 calls) := by
    rintro ⟨ht, is, finds, -⟩
    exact differs (by rw [is, map_some, finds key trivial none])
  refine ⟨⟨afterCalls_reach 1 (by decide) _, ?_⟩, ⟨afterCalls_reach 1 (by decide) _, ?_⟩,
    afterCalls_reach 1 (by decide) _, ?_⟩
  · exact wrong _ [1] (by decide +kernel)
  · exact wrong _ [1] (by decide +kernel)
  · exact wrong _ [2] (by decide +kernel)

end AliosThings.Utility
