import AliosThings.Lib.CString

/-!
# The handlers that a message reaches (`mqtt_client.c`)

The client compares a topic name with a filter character by character. `matchesLevels` is what the
protocol asks for, level by level. The two agree as long as no wildcard meets an empty level: the
loop gives up at a separator, and a `#` is only looked at when something is left of the name.
-/

namespace AliosThings.Mqtt

open Lib List

def slash : UInt8 := 47

def plus : UInt8 := 43

def hash : UInt8 := 35

/-! ## The filters that are accepted -/

inductive TopicType where
  | name
  | filter

def iotxMcCheckRule (iterm : Bytes) (type : TopicType) : Bool :=
  iterm.all fun c =>
    (match type with
      | .filter => decide (c = plus ∨ c = hash → iterm.length = 1)
      | .name => decide (c ≠ plus ∧ c ≠ hash)) && decide (32 ≤ c ∧ c < 127)

/-- The loop of `iotx_mc_check_topic` over the items after the first. -/
def checkIterms (type : TopicType) : Bool → List Bytes → Bool
  | _, [] => true
  | mask, iterm :: iterms =>
    !mask && iotxMcCheckRule iterm type && checkIterms type (iterm.head? = some hash) iterms

/-- The items that `strtok` finds one after the other. -/
def strtok (delim : UInt8) (text : Bytes) : List Bytes :=
  (text.splitOnP (· == delim)).filter (· ≠ [])

/-- `IOTX_MC_TOPIC_NAME_MAX_LEN`. -/
def topicNameMaxLen : Nat := 128

def iotxMcCheckTopic (topicName : Bytes) (type : TopicType) : Bool :=
  decide (topicName.head? = some slash) && decide (topicName.length ≤ topicNameMaxLen) &&
    match strtok slash (topicName.take (topicNameMaxLen - 1)) with
    | [] => false
    | iterm :: iterms => iotxMcCheckRule iterm type && checkIterms type false iterms

/-! ## Delivery -/

def iotxMcIsTopicMatched : Bytes → Bytes → Bool
  | [], name => name.isEmpty
  | _ :: _, [] => false
  | f :: filter, c :: name =>
    if c = slash ∧ f ≠ slash then false
    else if f ≠ plus ∧ f ≠ hash ∧ f ≠ c then false
    else if f = plus then iotxMcIsTopicMatched filter (name.dropWhile (· ≠ slash))
    else if f = hash then iotxMcIsTopicMatched filter []
    else iotxMcIsTopicMatched filter name

/-- `MQTTPacket_equals`. -/
def mqttPacketEquals (name filter : Bytes) : Bool :=
  decide (name.length = filter.length) && strncmpSame name filter name.length

/-- `iotx_mc_topic_handle_t`; the handler may be null. -/
structure TopicHandle (H : Type) where
  topicFilter : Bytes
  handle : Option H
  text : (0 : UInt8) ∉ topicFilter := by decide

structure McHandlers (H : Type) where
  firstSubHandle : List (TopicHandle H)
  handleEvent : Option H

variable {H : Type}

/-- The handlers that are called. -/
def iotxMcDeliverMessage (c : McHandlers H) (name : Bytes) : List H :=
  let called := c.firstSubHandle.filterMap fun h =>
    if mqttPacketEquals name h.topicFilter || iotxMcIsTopicMatched h.topicFilter name then h.handle
    else none
  if called.isEmpty then c.handleEvent.toList else called

/-! ## What the protocol asks for -/

def levels (text : Bytes) : List Bytes := text.splitOnP (· == slash)

def matchesLevels : List Bytes → List Bytes → Bool
  | [], names => names.isEmpty
  | f :: filters, names =>
    if f = [hash] ∧ filters = [] then true
    else
      match names with
      | [] => false
      | n :: names => decide (f = [plus] ∨ f = n) && matchesLevels filters names

/-- The handlers whose filter matches the name. -/
def recipients (c : McHandlers H) (name : Bytes) : List H :=
  (c.firstSubHandle.filter fun h => matchesLevels (levels h.topicFilter) (levels name)).filterMap
    (·.handle)

/-- `#` is above no level, a wildcard ends its level, and none stands at an empty level of the name
or behind its end. -/
def Sees (filters names : List Bytes) : Prop :=
  (∀ l ∈ filters.dropLast, hash ∉ l) ∧ (∀ l ∈ filters, plus ∉ l.dropLast ∧ hash ∉ l.dropLast) ∧
    ∀ p ∈ filters.zip (names ++ [[]]), p ≠ ([plus], []) ∧ p ≠ ([hash], [])

/-- What the loop makes of one level: a wildcard takes all that is left of it, which is something,
and has to be the last character. -/
def takes : Bytes → Bytes → Bool
  | [], name => name.isEmpty
  | _ :: _, [] => false
  | f :: filter, c :: name =>
    if f = plus ∨ f = hash then filter.isEmpty else decide (f = c) && takes filter name

/-- What the loop makes of the levels. -/
def loopLevels : List Bytes → List Bytes → Bool
  | [], names => names.isEmpty
  | _ :: _, [] => false
  | f :: filters, n :: names =>
    takes f n && if hash ∈ f then filters.isEmpty else loopLevels filters names

/-- A filter that matches the name is the name or shows it to the loop, and where a wildcard shares
its level with other characters the loop takes no other name for a match. -/
def Regular (filter name : Bytes) : Prop :=
  (matchesLevels (levels filter) (levels name) = true →
      name = filter ∨ Sees (levels filter) (levels name)) ∧
    ((∃ l ∈ levels filter, 1 < l.length ∧ (plus ∈ l ∨ hash ∈ l)) →
      loopLevels (levels filter) (levels name) = true →
        matchesLevels (levels filter) (levels name) = true)

/-! ## Texts and their levels -/

/-- The text after a level. -/
def rest (ls : List Bytes) : Bytes := ls.flatMap (slash :: ·)

theorem levels_text (text : Bytes) :
    ∃ l ls, levels text = l :: ls ∧ text = l ++ rest ls ∧ ∀ m ∈ l :: ls, slash ∉ m := by
  induction text with
  | nil => exact ⟨[], [], rfl, rfl, by simp⟩
  | cons c _ ih =>
    obtain ⟨l, ls, split, eq, free⟩ := ih
    unfold levels at split ⊢
    rw [splitOnP_cons_eq_if_modifyHead, split]
    by_cases sep : c = slash
    · refine ⟨[], l :: ls, by simp [sep], ?_, ?_⟩
      · rw [sep, eq]
        rfl
      · intro m among
        rcases mem_cons.mp among with rfl | inside
        · exact not_mem_nil
        · exact free m inside
    · refine ⟨c :: l, ls, by simp [sep], congrArg (c :: ·) eq, ?_⟩
      intro m among
      rcases mem_cons.mp among with rfl | inside
      · exact not_mem_cons_of_ne_of_not_mem (Ne.symm sep) (free l mem_cons_self)
      · exact free m (mem_cons_of_mem _ inside)

variable {filter name text l : Bytes} {type : TopicType}

theorem iotxMcCheckRule_iff : iotxMcCheckRule l type = true ↔
    (∀ c ∈ l, 32 ≤ c ∧ c < 127) ∧ ∀ c ∈ l, c = plus ∨ c = hash → type = .filter ∧ l = [c] := by
  rw [iotxMcCheckRule, all_eq_true, ← forall₂_and]
  apply forall₂_congr
  intro c inside
  have one : l.length = 1 ↔ l = [c] := by
    rw [length_eq_one_iff]
    constructor
    · rintro ⟨d, rfl⟩
      rw [mem_singleton.mp inside]
    · exact fun alone => ⟨c, alone⟩
  cases type <;> simp [one] <;> tauto

/-- An item behind a `#` is refused. -/
theorem checkIterms_iff {mask : Bool} {iterms : List Bytes} :
    checkIterms type mask iterms = true ↔ (mask = true → iterms = []) ∧
      (∀ l ∈ iterms, iotxMcCheckRule l type = true) ∧ [hash] ∉ iterms.dropLast := by
  induction iterms generalizing mask with
  | nil => simp [checkIterms]
  | cons l ls ih =>
    have first (rule : iotxMcCheckRule l type = true) : l.head? = some hash ↔ [hash] = l := by
      constructor
      · intro head
        exact ((iotxMcCheckRule_iff.mp rule).2 hash (mem_of_mem_head? head) (.inr rfl)).2.symm
      · rintro rfl
        rfl
    simp only [checkIterms, Bool.and_eq_true, ih, decide_eq_true_eq, forall_mem_cons]
    cases ls with
    | nil => simp
    | cons m ls =>
      cases mask
      · simp
        tauto
      · simp

theorem iotxMcCheckTopic_iff (short : text.length < topicNameMaxLen) :
    iotxMcCheckTopic text type = true ↔ text.head? = some slash ∧ strtok slash text ≠ [] ∧
      (∀ l ∈ strtok slash text, iotxMcCheckRule l type = true) ∧
      [hash] ∉ (strtok slash text).tail.dropLast := by
  have whole : text.take (topicNameMaxLen - 1) = text :=
    take_of_length_le (Nat.le_sub_one_of_lt short)
  simp only [iotxMcCheckTopic, whole, Bool.and_eq_true, decide_eq_true_eq, and_assoc, short.le,
    true_and]
  cases strtok slash text with
  | nil => simp
  | cons l ls => simp [checkIterms_iff, and_assoc]

/-- The items are enough for what is said about the characters. -/
theorem forall_mem_strtok {P : Bytes → UInt8 → Prop} :
    (∀ l ∈ strtok slash text, ∀ c ∈ l, P l c) ↔ ∀ l ∈ levels text, ∀ c ∈ l, P l c := by
  constructor
  · intro all l among c inside
    exact all l (mem_filter.mpr ⟨among, decide_eq_true (ne_nil_of_mem inside)⟩) c inside
  · intro all l among
    exact all l (mem_filter.mp among).1

/-! ## The texts that are accepted -/

/-- What a topic is to be, level by level. -/
def TopicOk (text : Bytes) (type : TopicType) : Prop :=
  (∀ c ∈ text, 32 ≤ c ∧ c < 127) ∧
    match type with
    | .name => ∀ c ∈ text, ¬ (c = plus ∨ c = hash)
    | .filter => (∀ l ∈ levels text, ∀ c ∈ l, c = plus ∨ c = hash → l = [c]) ∧
      [hash] ∉ (levels text).dropLast

/-- The items tell where the last level is: a `#` in front is the only item, and no separator stands
behind a final `#`. -/
def ShowsLast (text : Bytes) : Prop :=
  ((strtok slash text).head? = some [hash] → (strtok slash text).tail = []) ∧
    ((levels text).getLast? = some [] → (strtok slash text).getLast? ≠ some [hash])

theorem forall_mem_text {P : UInt8 → Prop} (sep : P slash) :
    (∀ c ∈ text, P c) ↔ ∀ l ∈ levels text, ∀ c ∈ l, P c := by
  obtain ⟨first, others, split, eq, -⟩ := levels_text text
  rw [split, eq]
  simp only [rest, mem_append, mem_flatMap, mem_cons]
  constructor
  · rintro all l (rfl | below) c inside
    · exact all c (.inl inside)
    · exact all c (.inr ⟨l, below, .inr inside⟩)
  · rintro all c (front | ⟨l, below, rfl | inside⟩)
    · exact all first (.inl rfl) c front
    · exact sep
    · exact all l (.inr below) c inside

/-- A `#` above the last level is seen between the items, or the items do not show that level. -/
theorem hash_last : [hash] ∈ (levels text).dropLast ↔
    [hash] ∈ (strtok slash text).tail.dropLast ∨ ¬ ShowsLast text := by
  have split : strtok slash text = (levels text).filter (· ≠ []) := rfl
  unfold ShowsLast
  rcases eq_nil_or_concat (levels text) with none | ⟨ls, l, eq⟩
  · rw [split, none]
    simp
  rw [concat_eq_append] at eq
  have kept : [hash] ∈ ls.filter (· ≠ []) ↔ [hash] ∈ ls := by simp
  rw [split, eq, filter_append, dropLast_concat, ← kept]
  generalize ls.filter (· ≠ []) = ms
  by_cases empty : l = []
  · cases ms with
    | nil => simp [empty]
    | cons m ms =>
      rcases eq_nil_or_concat ms with rfl | ⟨ds, d, rfl⟩
      · simp [empty, eq_comm]
      · simp [empty, getLast?_cons, eq_comm (a := [hash])]
        tauto
  · cases ms with
    | nil => simp [empty]
    | cons m ms => simp [empty, eq_comm (a := [hash]), or_comm]

/-- A text is judged as it should be, exactly if its items show the last level of a filter in which
they are right by themselves. -/
theorem iotxMcCheckTopic_ok_iff (starts : text.head? = some slash)
    (short : text.length < topicNameMaxLen) (item : ∃ l ∈ levels text, l ≠ []) :
    (iotxMcCheckTopic text type = true ↔ TopicOk text type) ↔
      (type = .filter → (∀ l ∈ strtok slash text, iotxMcCheckRule l .filter = true) →
        [hash] ∉ (strtok slash text).tail.dropLast → ShowsLast text) := by
  have some : strtok slash text ≠ [] := by
    obtain ⟨l, among, nonempty⟩ := item
    exact ne_nil_of_mem (mem_filter.mpr ⟨among, decide_eq_true nonempty⟩)
  have rules : (∀ l ∈ strtok slash text, iotxMcCheckRule l type = true) ↔
      (∀ c ∈ text, 32 ≤ c ∧ c < 127) ∧
        ∀ l ∈ levels text, ∀ c ∈ l, c = plus ∨ c = hash → type = .filter ∧ l = [c] := by
    rw [forall_mem_text (by decide), ← forall_mem_strtok, ← forall_mem_strtok, ← forall₂_and]
    exact forall₂_congr fun _ _ => iotxMcCheckRule_iff
  rw [iotxMcCheckTopic_iff short, and_iff_right starts, and_iff_right some]
  cases type with
  | name =>
    refine iff_of_true ?_ nofun
    rw [rules, and_assoc]
    apply and_congr_right
    intro _
    rw [forall_mem_text (by decide)]
    constructor
    · rintro ⟨none, -⟩ l among c inside wild
      cases (none l among c inside wild).1
    · intro none
      constructor
      · intro l among c inside wild
        cases none l among c inside wild
      · intro found
        have among := (mem_filter.mp (mem_of_mem_tail (dropLast_subset _ found))).1
        exact none [hash] among hash mem_cons_self (.inr rfl)
  | filter =>
    have right : TopicOk text .filter ↔
        (∀ l ∈ strtok slash text, iotxMcCheckRule l .filter = true) ∧
          [hash] ∉ (levels text).dropLast := by
      rw [rules, and_assoc]
      simp only [TopicOk, true_and]
    rw [right, hash_last]
    tauto

theorem iotxMcCheckTopic_ok_plus : iotxMcCheckTopic [47, 97, 47, 43] .filter = true ↔
    TopicOk [47, 97, 47, 43] .filter :=
  (iotxMcCheckTopic_ok_iff rfl (by decide) (by decide)).mpr fun _ _ _ => ⟨by decide, by decide⟩

/-- `/a/#/` and `/#/a`. -/
theorem not_iotxMcCheckTopic_ok :
    iotxMcCheckTopic [47, 97, 47, 35, 47] .filter = true ∧ ¬ TopicOk [47, 97, 47, 35, 47] .filter ∧
      iotxMcCheckTopic [47, 35, 47, 97] .filter = true ∧ ¬ TopicOk [47, 35, 47, 97] .filter :=
  ⟨by decide, fun ok => ok.2.2 (by decide), by decide, fun ok => ok.2.2 (by decide)⟩

/-! ## The loop goes by levels -/

variable {f n : Bytes} {fs ns : List Bytes}

theorem separator_matched (c : UInt8) (filter name : Bytes) :
    iotxMcIsTopicMatched (slash :: filter) (c :: name) =
      (decide (slash = c) && iotxMcIsTopicMatched filter name) := by
  rw [iotxMcIsTopicMatched, if_neg fun sep => sep.2 rfl]
  by_cases same : slash = c
  · rw [if_neg fun other => other.2.2 same, if_neg (by decide), if_neg (by decide),
      decide_eq_true same, Bool.true_and]
  · rw [if_pos ⟨by decide, by decide, same⟩, decide_eq_false same, Bool.false_and]

theorem level_matched (freeF : slash ∉ f) (freeN : slash ∉ n) :
    iotxMcIsTopicMatched (f ++ rest fs) (n ++ rest ns) =
      (takes f n && if hash ∈ f then fs.isEmpty
        else iotxMcIsTopicMatched (rest fs) (rest ns)) := by
  induction f generalizing n with
  | nil =>
    cases n
    case nil => rfl
    case cons c n =>
    have other : slash ≠ c := fun same => freeN (same ▸ mem_cons_self)
    cases fs with
    | nil => rfl
    | cons g fs =>
      refine (separator_matched c (g ++ rest fs) _).trans ?_
      rw [decide_eq_false other]
      rfl
  | cons a f ih =>
    simp only [mem_cons, not_or] at freeF
    cases n with
    | nil =>
      cases ns with
      | nil => rfl
      | cons => simp [rest, iotxMcIsTopicMatched, takes, Ne.symm freeF.1]
    | cons c n =>
      simp only [mem_cons, not_or] at freeN
      have sep : ¬ (c = slash ∧ a ≠ slash) := fun both => freeN.1 both.1.symm
      rw [cons_append, cons_append, iotxMcIsTopicMatched, if_neg sep, takes]
      by_cases isPlus : a = plus
      · have skipped : (n ++ rest ns).dropWhile (· ≠ slash) = rest ns := by
          rw [dropWhile_append_of_pos]
          · cases ns <;> simp [rest]
          · intro b inside
            exact decide_eq_true fun same => freeN.2 (same ▸ inside)
        have next := ih freeF.2 (n := []) not_mem_nil
        rw [nil_append] at next
        rw [if_neg fun no => no.1 isPlus, if_pos isPlus, skipped, if_pos (.inl isPlus), next,
          isPlus]
        cases f <;> simp [takes, hash, plus]
      by_cases isHash : a = hash
      · rw [if_neg fun no => no.2.1 isHash, if_neg isPlus, if_pos isHash, if_pos (.inr isHash),
          isHash, if_pos mem_cons_self]
        cases f with
        | nil => cases fs <;> rfl
        | cons => rfl
      · have inside : hash ∈ a :: f ↔ hash ∈ f := by simp [Ne.symm isHash]
        rw [if_neg (by tauto : ¬ (a = plus ∨ a = hash)), if_neg isPlus, if_neg isHash]
        by_cases same : a = c
        · simp only [same, ne_eq, not_true, and_false, if_false, decide_true, Bool.true_and]
          rw [ih freeF.2 freeN.2, ← same]
          simp only [inside]
        · rw [if_pos ⟨isPlus, isHash, same⟩, decide_eq_false same]
          rfl

theorem levels_matched (freeF : ∀ l ∈ f :: fs, slash ∉ l) (freeN : ∀ m ∈ n :: ns, slash ∉ m) :
    iotxMcIsTopicMatched (f ++ rest fs) (n ++ rest ns) = loopLevels (f :: fs) (n :: ns) := by
  induction fs generalizing f n ns with
  | nil =>
    rw [level_matched (freeF f mem_cons_self) (freeN n mem_cons_self), loopLevels]
    cases ns <;> rfl
  | cons g fs ih =>
    rw [level_matched (freeF f mem_cons_self) (freeN n mem_cons_self), loopLevels]
    cases ns with
    | nil => rfl
    | cons m ns =>
      have next := ih (fun l among => freeF l (mem_cons_of_mem _ among))
        (fun l among => freeN l (mem_cons_of_mem _ among))
      rw [← next, show iotxMcIsTopicMatched (rest (g :: fs)) (rest (m :: ns)) = _ from
        separator_matched slash (g ++ rest fs) (m ++ rest ns)]
      rfl

/-- A level takes itself if no wildcard is followed by something in it. -/
theorem takes_self : takes l l = true ↔ plus ∉ l.dropLast ∧ hash ∉ l.dropLast := by
  induction l with
  | nil => simp [takes]
  | cons c l ih =>
    cases l with
    | nil => simp [takes]
    | cons d l =>
      rw [takes, dropLast_cons_cons]
      by_cases wild : c = plus ∨ c = hash
      · rcases wild with rfl | rfl <;> simp
      · rw [if_neg wild]
        simp only [not_or] at wild
        simp [ih, Ne.symm wild.1, Ne.symm wild.2]

/-- Where the filter matches, the loop finds it if it sees its wildcards at work. -/
theorem loopLevels_iff (matched : matchesLevels fs ns = true) :
    loopLevels fs ns = true ↔ Sees fs ns := by
  induction fs generalizing ns with
  | nil => simpa [loopLevels, Sees, matchesLevels] using matched
  | cons f fs ih =>
    unfold matchesLevels at matched
    split at matched
    · next final =>
      obtain ⟨rfl, rfl⟩ := final
      cases ns with
      | nil => simp [loopLevels, Sees]
      | cons n ns => cases n <;> simp [loopLevels, Sees, takes, hash, plus]
    next notFinal =>
    cases ns with
    | nil => cases matched
    | cons n ns =>
      rw [Bool.and_eq_true, decide_eq_true_iff] at matched
      obtain ⟨level, below⟩ := matched
      have one : takes f n = true ↔ (plus ∉ f.dropLast ∧ hash ∉ f.dropLast) ∧
          (f, n) ≠ ([plus], []) ∧ (f = [hash] → n ≠ []) := by
        rcases level with rfl | rfl
        · cases n <;> simp [takes, hash, plus]
        · rw [takes_self]
          constructor
          · rintro ends
            refine ⟨ends, ?_, ?_⟩ <;> simp +contextual
          · exact And.left
      have next := ih below
      rw [loopLevels, Bool.and_eq_true, one]
      cases fs with
      | nil =>
        simp only [matchesLevels] at below
        simp [Sees, loopLevels, below]
      | cons g fs =>
        unfold Sees at next ⊢
        by_cases inside : hash ∈ f
        · simp [inside]
        · simp [inside, next]
          tauto

/-! ## The handlers that are called -/

theorem matchesLevels_self (ls : List Bytes) : matchesLevels ls ls = true := by
  induction ls with
  | nil => rfl
  | cons _ _ ih =>
    rw [matchesLevels]
    split
    · rfl
    · simp [ih]

theorem mqttPacketEquals_iff (text : (0 : UInt8) ∉ filter) :
    mqttPacketEquals name filter = true ↔ name = filter := by
  rw [mqttPacketEquals, Bool.and_eq_true, decide_eq_true_iff]
  constructor
  · rintro ⟨length, same⟩
    have take := (strncmpSame_iff text length.le).mp same
    rwa [take_length, length, take_length] at take
  · rintro rfl
    exact ⟨rfl, (strncmpSame_iff text le_rfl).mpr rfl⟩

theorem eq_of_takes (literal : ¬ (plus ∈ l ∨ hash ∈ l)) (taken : takes l n = true) : l = n := by
  induction l generalizing n with
  | nil => exact (isEmpty_iff.mp taken).symm
  | cons c l ih =>
    simp only [mem_cons, not_or] at literal
    cases n with
    | nil => cases taken
    | cons d n =>
      rw [takes, if_neg (by tauto), Bool.and_eq_true, decide_eq_true_iff] at taken
      rw [taken.1, ih (by tauto) taken.2]

/-- Where wildcards fill their levels, the loop finds only what matches. -/
theorem matches_of_loopLevels (fill : ∀ l ∈ fs, plus ∈ l ∨ hash ∈ l → l.length ≤ 1)
    (found : loopLevels fs ns = true) : matchesLevels fs ns = true := by
  induction fs generalizing ns with
  | nil => simpa [loopLevels, matchesLevels] using found
  | cons f fs ih =>
    cases ns with
    | nil => cases found
    | cons n ns =>
      rw [loopLevels, Bool.and_eq_true] at found
      obtain ⟨taken, below⟩ := found
      have next := @ih ns fun l among => fill l (mem_cons_of_mem _ among)
      by_cases wild : plus ∈ f ∨ hash ∈ f
      · have alone {c : UInt8} (inside : c ∈ f) : f = [c] := by
          obtain ⟨d, rfl⟩ := length_eq_one_iff.mp
            (Nat.le_antisymm (fill f mem_cons_self wild) (length_pos_of_mem inside))
          rw [mem_singleton.mp inside]
        rcases wild with inside | inside
        · rw [alone inside] at below ⊢
          simpa [matchesLevels, hash, plus] using next (by simpa [hash, plus] using below)
        · rw [if_pos inside] at below
          simp [alone inside, matchesLevels, isEmpty_iff.mp below]
      · rw [if_neg fun inside => wild (.inr inside)] at below
        rw [matchesLevels]
        simp [eq_of_takes wild taken, next below]

/-- The two comparisons of the client, against the levels. -/
theorem handle_matched (text : (0 : UInt8) ∉ filter) :
    ((mqttPacketEquals name filter || iotxMcIsTopicMatched filter name) = true ↔
      matchesLevels (levels filter) (levels name) = true) ↔ Regular filter name := by
  obtain ⟨f, fs, splitF, eqF, freeF⟩ := levels_text filter
  obtain ⟨n, ns, splitN, eqN, freeN⟩ := levels_text name
  have loop := levels_matched freeF freeN
  rw [← eqF, ← eqN, ← splitF, ← splitN] at loop
  have equal : mqttPacketEquals name filter = true ↔ name = filter := mqttPacketEquals_iff text
  have self : name = filter → matchesLevels (levels filter) (levels name) = true := by
    rintro rfl
    exact matchesLevels_self _
  have only (wild : ¬ ∃ l ∈ levels filter, 1 < l.length ∧ (plus ∈ l ∨ hash ∈ l)) :
      loopLevels (levels filter) (levels name) = true →
        matchesLevels (levels filter) (levels name) = true := by
    apply matches_of_loopLevels
    intro l among inside
    by_contra long
    exact wild ⟨l, among, by omega, inside⟩
  rw [Bool.or_eq_true, equal, loop, Regular]
  by_cases matched : matchesLevels (levels filter) (levels name) = true
  · simp only [matched, iff_true, true_imp_iff, loopLevels_iff matched]
    simp
  · have differ : name ≠ filter := fun same => matched (self same)
    generalize (∃ l ∈ levels filter, 1 < l.length ∧ (plus ∈ l ∨ hash ∈ l)) = mixed at only
    tauto

/-- A message reaches the handlers whose filter matches its topic, and the default handler exactly
if there is none. -/
theorem message_delivered_iff (c : McHandlers H) (name : Bytes) :
    ((∀ h ∈ c.firstSubHandle,
      ((mqttPacketEquals name h.topicFilter || iotxMcIsTopicMatched h.topicFilter name) = true ↔
        matchesLevels (levels h.topicFilter) (levels name) = true)) ↔
      ∀ h ∈ c.firstSubHandle, Regular h.topicFilter name) ∧
    ((∀ h ∈ c.firstSubHandle, Regular h.topicFilter name) → iotxMcDeliverMessage c name =
      if (recipients c name).isEmpty then c.handleEvent.toList else recipients c name) := by
  refine ⟨forall₂_congr fun h _ => handle_matched h.text, fun regular => ?_⟩
  have called : (c.firstSubHandle.filterMap fun h =>
      if mqttPacketEquals name h.topicFilter || iotxMcIsTopicMatched h.topicFilter name then
        h.handle
      else none) = recipients c name := by
    rw [recipients, filterMap_filter]
    apply filterMap_congr
    intro h among
    rw [Bool.eq_iff_iff.mpr ((handle_matched h.text).mpr (regular h among))]
  unfold iotxMcDeliverMessage
  rw [called]

/-- Handler 1 for the filter `/a/#`, and handler 2 for `/a/+`. -/
def belowA : McHandlers Nat where
  firstSubHandle := [{ topicFilter := [47, 97, 47, 35], handle := some 1 },
    { topicFilter := [47, 97, 47, 43], handle := some 2 }]
  handleEvent := some 0

/-- The filters are accepted. The first matches `/a` and both match `/a/`; the default handler is
called instead. -/
theorem message_misdelivered :
    (∀ h ∈ belowA.firstSubHandle, iotxMcCheckTopic h.topicFilter .filter = true) ∧
      recipients belowA [47, 97] = [1] ∧ iotxMcDeliverMessage belowA [47, 97] = [0] ∧
      recipients belowA [47, 97, 47] = [1, 2] ∧
      iotxMcDeliverMessage belowA [47, 97, 47] = [0] := by
  decide

end AliosThings.Mqtt
