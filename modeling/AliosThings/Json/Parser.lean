import AliosThings.Lib.CString

/-!
# The JSON parser

`json_get_value_by_name` finds a member of an object by a walk over the text, without a tree. It is
given a pointer and a length, but looks for quotes and colons with `strchr`, which knows nothing of
the length; so a text is modelled by the memory from some address on (`buf`, followed by zeros) and
positions in it.
-/

namespace AliosThings.Json

open Lib

/-- `enum JSONTYPE` -/
inductive JsonType where
  | string | object | array | number | boolean
  deriving DecidableEq, Repr

/-- The text of a loop `while (p && *p && p < str_end)` from `pos` on. -/
def window (buf : Bytes) (pos stop : Nat) : Bytes := cString ((buf.drop pos).take (stop - pos))

/-- `json_get_object` for an object: blanks and a brace. -/
def jsonGetObject (buf : Bytes) (pos stop : Nat) : Option Nat :=
  let blanks := ((window buf pos stop).takeWhile (· = 32)).length
  if (window buf pos stop)[blanks]? = some 123 then some (pos + blanks) else none

/-- The type of the value a character begins. -/
def valueType (c : UInt8) : Option JsonType :=
  if c = 34 then some .string
  else if c = 123 then some .object
  else if c = 91 then some .array
  else if c = 45 ∨ 48 ≤ c ∧ c ≤ 57 then some .number
  else if c = 116 ∨ c = 84 ∨ c = 102 ∨ c = 70 then some .boolean
  else none

/-- The first character that begins a value, whatever stands before it. -/
def valueStart : Bytes → Option (Nat × JsonType)
  | [] => none
  | c :: text =>
    match valueType c with
    | some type => some (0, type)
    | none => (valueStart text).map fun found => (found.1 + 1, found.2)

/-- Digits, `.`, `+`, `-`, `e` and `E`. -/
def isNumberChar (c : UInt8) : Bool :=
  48 ≤ c ∧ c ≤ 57 ∨ c = 46 ∨ c = 43 ∨ c = 45 ∨ c = 101 ∨ c = 69

/-- Distance of the mark that closes an object or an array. Marks in strings do not count. -/
def closingMark (opens closes : UInt8) : (depth : Nat) → (inString : Bool) → Bytes → Option Nat
  | _, _, [] => none
  | depth, inString, c :: text =>
    if c = closes ∧ inString = false ∧ depth = 0 then some 0
    else
      let next : Nat × Bool :=
        if c = closes then (if inString then depth else depth - 1, inString)
        else if c = opens then (if inString then depth else depth + 1, inString)
        else if c = 34 then (depth, !inString)
        else (depth, inString)
      (closingMark opens closes next.1 next.2 text).map (· + 1)

/-- `true` or `TRUE`, `false` or `FALSE`. -/
def booleanLen (text : Bytes) : Nat :=
  if [116, 114, 117, 101] <+: text ∨ [84, 82, 85, 69] <+: text then 4
  else if [102, 97, 108, 115, 101] <+: text ∨ [70, 65, 76, 83, 69] <+: text then 5
  else 0

/-- Length of the value at `start`, or 0 if its end is not found. -/
def valueLen (buf : Bytes) (start stop : Nat) : JsonType → Nat
  | .string => ((window buf start stop).findIdx? (· = 34)).getD 0
  | .object => ((closingMark 123 125 0 false (window buf (start + 1) stop)).map (· + 2)).getD 0
  | .array => ((closingMark 91 93 0 false (window buf (start + 1) stop)).map (· + 2)).getD 0
  | .number =>
    (((window buf (start + 1) stop).findIdx? (! isNumberChar ·)).map (· + 1)).getD 0
  | .boolean => booleanLen (cString (buf.drop start))

/-- A member of an object: where its name and its value stand. -/
structure Member where
  name : Nat
  nameLen : Nat
  value : Nat
  valueLen : Nat
  type : JsonType
  /-- Where the walk goes on. -/
  next : Nat

/-- The quotes are not part of a string. -/
def quoteLen (type : JsonType) : Nat := if type = .string then 1 else 0

/-- `json_get_next_object` for an object. A null pointer is `none`. -/
def jsonGetNextObject (buf : Bytes) (pos stop : Nat) : Option Member := do
  let quote ← strchr 34 (buf.drop pos)
  let name := pos + quote + 1
  let nameLen ← strchr 34 (buf.drop name)
  let colon ← strchr 58 (buf.drop (name + nameLen))
  let (skipped, type) ← valueStart (window buf (name + nameLen + colon) stop)
  let value := name + nameLen + colon + skipped + quoteLen type
  let len := valueLen buf value stop type
  if stop < name + nameLen ∨ stop < value + len then none
  else some ⟨name, nameLen, value, len, type, value + len + quoteLen type⟩

/-- A part of the text. -/
structure Span where
  start : Nat
  len : Nat
  type : JsonType
  deriving DecidableEq, Repr

def slice (buf : Bytes) (start len : Nat) : Bytes := (buf.drop start).take len

/-- The walk of `json_parse_name_value` with `json_get_value_by_name_cb`. If it has not ended after
`fuel` members, the outer option is `none`. -/
def findMember (buf : Bytes) (stop : Nat) (name : Bytes) :
    (fuel : Nat) → (pos : Nat) → Option (Option Span)
  | 0, _ => none
  | fuel + 1, pos =>
    if buf.getD pos 0 = 0 then some none
    else
      match jsonGetNextObject buf pos stop with
      | none => some none
      | some m =>
        if m.nameLen ≠ 0 ∧ m.valueLen ≠ 0 ∧ slice buf m.name m.nameLen = name then
          some (some ⟨m.value, m.valueLen, m.type⟩)
        else findMember buf stop name fuel m.next

/-- `json_get_value_by_name`. Every member takes at least one character. -/
def jsonGetValueByName (buf : Bytes) (pos len : Nat) (name : Bytes) : Option Span :=
  if len = 0 then none
  else (jsonGetObject buf pos (pos + len)).bind fun brace =>
    (findMember buf (pos + len) name (buf.length + 1) brace).join

/-! ## The walk moves on -/

theorem jsonGetNextObject_next {buf : Bytes} {pos stop : Nat} {m : Member}
    (found : jsonGetNextObject buf pos stop = some m) : pos < m.next := by
  simp only [jsonGetNextObject, Option.bind_eq_bind, Option.bind_eq_some_iff] at found
  obtain ⟨quote, -, nameLen, -, colon, -, ⟨skipped, type⟩, -, found⟩ := found
  split at found
  · cases found
  · cases found
    simp only
    omega

/-- The rounds allowed suffice for the walk to end, and more of them find nothing else. -/
theorem findMember_some (buf name : Bytes) (stop pos : Nat) :
    ∃ found, ∀ fuel, buf.length - pos < fuel → findMember buf stop name fuel pos = some found := by
  by_cases past : buf.getD pos 0 = 0
  · refine ⟨none, fun fuel enough => ?_⟩
    obtain ⟨fuel, rfl⟩ := Nat.exists_eq_add_one_of_ne_zero (Nat.ne_zero_of_lt enough)
    rw [findMember, if_pos past]
  have inside : pos < buf.length := by grind
  cases next : jsonGetNextObject buf pos stop with
  | none =>
    refine ⟨none, fun fuel enough => ?_⟩
    obtain ⟨fuel, rfl⟩ := Nat.exists_eq_add_one_of_ne_zero (Nat.ne_zero_of_lt enough)
    rw [findMember, if_neg past, next]
  | some m =>
    have moves := jsonGetNextObject_next next
    obtain ⟨found, ends⟩ := findMember_some buf name stop m.next
    refine ⟨if m.nameLen ≠ 0 ∧ m.valueLen ≠ 0 ∧ slice buf m.name m.nameLen = name then
      some ⟨m.value, m.valueLen, m.type⟩ else found, fun fuel enough => ?_⟩
    obtain ⟨fuel, rfl⟩ := Nat.exists_eq_add_one_of_ne_zero (Nat.ne_zero_of_lt enough)
    rw [findMember, if_neg past, next]
    simp only
    split
    · rfl
    · exact ends fuel (by omega)
termination_by buf.length - pos

/-- On every text, each member that is found moves the walk on, and the walk ends: with more rounds
than there are bytes left it has an outcome, the same for all of them, and that is what
`json_get_value_by_name` returns. -/
theorem findMember_ends (buf name : Bytes) (stop pos : Nat) :
    (∀ m, jsonGetNextObject buf pos stop = some m → pos < m.next) ∧
      (∃ found, ∀ fuel, buf.length - pos < fuel →
        findMember buf stop name fuel pos = some found) ∧
      ∀ brace, jsonGetObject buf pos stop = some brace → pos < stop →
        ∀ fuel, buf.length < fuel → findMember buf stop name fuel brace =
          some (jsonGetValueByName buf pos (stop - pos) name) := by
  refine ⟨fun _ => jsonGetNextObject_next, findMember_some buf name stop pos, ?_⟩
  intro brace object inside fuel enough
  obtain ⟨found, ends⟩ := findMember_some buf name stop brace
  have all (fuel : Nat) (enough : buf.length < fuel) := ends fuel (by omega)
  rw [jsonGetValueByName, if_neg (by omega), Nat.add_sub_cancel' inside.le, object,
    Option.bind_some, all _ (Nat.lt_succ_self _), all fuel enough, Option.join_some]

/-- The text with the members `a` and `b`. -/
def twoMembers : Bytes := [123, 34, 97, 34, 58, 49, 44, 34, 98, 34, 58, 50, 125]

theorem findMember_ends_two : ∀ fuel, 13 < fuel →
    findMember twoMembers 13 [98] fuel 0 = some (some ⟨11, 1, .number⟩) := by
  obtain ⟨-, ⟨found, ends⟩, -⟩ := findMember_ends twoMembers [98] 13 0
  have second : findMember twoMembers 13 [98] 14 0 = some (some ⟨11, 1, .number⟩) := by decide
  rw [ends 14 (by decide)] at second
  exact fun fuel enough => (ends fuel enough).trans second

end AliosThings.Json
