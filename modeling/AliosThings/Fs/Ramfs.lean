import AliosThings.Lib.Bytes
import AliosThings.Lib.Run

/-!
# Files of ramfs

A file of `kernel/rhino/fs/ramfs` that one handle has open, and the calls on it. The data of the
file are one block of the heap that every change of the size takes to `krhino_mm_realloc`; counts,
positions and sizes are `uint32_t`. A file of ramfs is meant to be a byte array with a cursor, and
it is one as long as no sum of a position and a count overflows and the file is not truncated to
nothing.

An access to memory that is not part of the block makes a call return `none`.
-/

namespace AliosThings.Fs

open List
open Lib (System)

/-! ## The heap -/

/-- What a pointer to a block of the heap leads to. -/
inductive Block where
  | null
  | live (bytes : Bytes)
  | freed
  deriving DecidableEq

/-- Whether the heap has memory, and what it has left in it. -/
structure MmAnswer where
  ok : Bool
  fill : Nat → UInt8

/-- The size that `k_mm_alloc` and `k_mm_realloc` look for: `MM_ALIGN_UP`, computed in 32 bits, but
at least `MM_MIN_SIZE`. -/
def mmServed (size : Nat) : Nat := max 32 ((size + 7) % 2 ^ 32 / 8 * 8)

/-- A block of another size with the same bytes at its beginning. -/
def resized (fill : Nat → UInt8) (bytes : Bytes) (size : Nat) : Bytes :=
  bytes.take size ++ (List.range (size - bytes.length)).map fun i => fill (bytes.length + i)

/-- `krhino_mm_realloc`: the new block, and what the old pointer leads to afterwards. With
`RHINO_CONFIG_MM_DEBUG` and `RHINO_CONFIG_GCC_RETADDR` the highest bit of the size is a flag. -/
def mmRealloc (debug : Bool) (mm : MmAnswer) (oldmem : Block) (newSize : Nat) :
    Option (Option Bytes × Block) :=
  let newSize := if debug then newSize % 2 ^ 31 else newSize
  match oldmem with
  | .null =>
    some (if 0 < newSize ∧ mm.ok then some (resized mm.fill [] (mmServed newSize)) else none, .null)
  | .live bytes =>
    if newSize = 0 then some (none, .freed)
    else if mmServed newSize ≤ bytes.length ∨ mm.ok then
      some (some (resized mm.fill bytes (mmServed newSize)), .freed)
    else some (none, .live bytes)
  | .freed => none

/-! ## Calls -/

/-- The results of the calls, of `ramfs_res_t`. -/
inductive RamfsRes where
  | ok
  | full
  | denied
  deriving DecidableEq

/-- `data_d`, `size`, `ar` and `aw` of the `ramfs_ent_t`, and `rwp` of the `ramfs_file_t`. -/
structure RamFile where
  dataD : Block
  size : Nat
  ar : Bool
  aw : Bool
  rwp : Nat

/-- What a call returns: its result, the bytes that a read stores, and the count, position or size
that it stores. -/
structure RamOut where
  res : RamfsRes
  data : Bytes := []
  count : Nat := 0
  deriving DecidableEq

/-- `ramfs_read`. -/
def ramfsRead (f : RamFile) (btr : Nat) : Option (RamOut × RamFile) :=
  if f.dataD = .null ∨ f.size = 0 then some (⟨.ok, [], 0⟩, f)
  else if f.ar = false then some (⟨.denied, [], 0⟩, f)
  else
    let br := if (f.rwp + btr) % 2 ^ 32 > f.size then (f.size + (2 ^ 32 - f.rwp)) % 2 ^ 32 else btr
    match f.dataD with
    | .live bytes =>
      if f.rwp + br ≤ bytes.length then
        some (⟨.ok, (bytes.drop f.rwp).take br, br⟩, { f with rwp := (f.rwp + br) % 2 ^ 32 })
      else none
    | _ => none

/-- The end of `ramfs_write`. -/
def writeData (f : RamFile) (buf : Bytes) : Option (RamOut × RamFile) :=
  let out : RamOut := ⟨.ok, [], buf.length⟩
  let rwp := (f.rwp + buf.length) % 2 ^ 32
  match f.dataD with
  | .live bytes =>
    if f.rwp + buf.length ≤ bytes.length then
      let bytes := bytes.take f.rwp ++ buf ++ bytes.drop (f.rwp + buf.length)
      some (out, { f with dataD := .live bytes, rwp := rwp })
    else none
  | _ => if buf.length = 0 then some (out, { f with rwp := rwp }) else none

/-- `ramfs_write`. -/
def ramfsWrite (debug : Bool) (mm : MmAnswer) (f : RamFile) (buf : Bytes) :
    Option (RamOut × RamFile) :=
  if f.aw = false then some (⟨.denied, [], 0⟩, f)
  else
    let newSize := (f.rwp + buf.length) % 2 ^ 32
    if newSize > f.size then
      match mmRealloc debug mm f.dataD newSize with
      | none => none
      | some (none, dataD) => some (⟨.full, [], 0⟩, { f with dataD := dataD })
      | some (some newData, _) => writeData { f with dataD := .live newData, size := newSize } buf
    else writeData f buf

/-- `ramfs_seek`. -/
def ramfsSeek (debug : Bool) (mm : MmAnswer) (f : RamFile) (pos : Nat) :
    Option (RamOut × RamFile) :=
  if pos < f.size then some (⟨.ok, [], 0⟩, { f with rwp := pos })
  else if f.aw = false then some (⟨.denied, [], 0⟩, f)
  else
    match mmRealloc debug mm f.dataD pos with
    | none => none
    | some (none, dataD) => some (⟨.full, [], 0⟩, { f with dataD := dataD })
    | some (some newData, _) =>
      some (⟨.ok, [], 0⟩, { f with dataD := .live newData, size := pos, rwp := pos })

/-- `ramfs_tell`. -/
def ramfsTell (f : RamFile) : RamOut := ⟨.ok, [], f.rwp⟩

/-- `ramfs_trunc`. -/
def ramfsTrunc (debug : Bool) (mm : MmAnswer) (f : RamFile) : Option (RamOut × RamFile) :=
  if f.aw = false then some (⟨.denied, [], 0⟩, f)
  else
    match mmRealloc debug mm f.dataD f.rwp with
    | none => none
    | some (none, dataD) => some (⟨.full, [], 0⟩, { f with dataD := dataD })
    | some (some newData, _) =>
      some (⟨.ok, [], 0⟩, { f with dataD := .live newData, size := f.rwp })

/-- `ramfs_size`. -/
def ramfsSize (f : RamFile) : RamOut := ⟨.ok, [], f.size⟩

inductive RamCall where
  | read (btr : Nat)
  | write (buf : Bytes)
  | seek (pos : Nat)
  | tell
  | trunc
  | size
  deriving DecidableEq

def RamCall.apply (debug : Bool) (mm : MmAnswer) (f : RamFile) : RamCall → Option (RamOut × RamFile)
  | read btr => ramfsRead f btr
  | write buf => ramfsWrite debug mm f buf
  | seek pos => ramfsSeek debug mm f pos
  | tell => some (ramfsTell f, f)
  | trunc => ramfsTrunc debug mm f
  | size => some (ramfsSize f, f)

/-- Counts and positions are `uint32_t`. -/
def RamCall.Typed : RamCall → Prop
  | read btr => btr < 2 ^ 32
  | write buf => buf.length < 2 ^ 32
  | seek pos => pos < 2 ^ 32
  | _ => True

instance (call : RamCall) : Decidable call.Typed := by
  cases call <;> unfold RamCall.Typed <;> infer_instance

/-! ## Byte arrays with a cursor -/

structure ByteFile where
  bytes : Bytes
  pos : Nat
  deriving DecidableEq

/-- The calls that resize the block of the file. -/
def RamCall.resizes : RamCall → Bool
  | write _ | seek _ | trunc => true
  | _ => false

/-- What a call does to a byte array with a cursor. The bytes between the old end and a position
beyond it are not said; a call that resizes the block fails if the heap has no memory or the array
stays empty. -/
inductive ByteFile.Step (a : ByteFile) : RamCall → MmAnswer → RamOut → ByteFile → Prop where
  | read (btr : Nat) (mm : MmAnswer) :
    Step a (.read btr) mm ⟨.ok, (a.bytes.drop a.pos).take btr, min btr (a.bytes.length - a.pos)⟩
      ⟨a.bytes, a.pos + min btr (a.bytes.length - a.pos)⟩
  | write (buf : Bytes) (mm : MmAnswer) :
    Step a (.write buf) mm ⟨.ok, [], buf.length⟩
      ⟨a.bytes.take a.pos ++ buf ++ a.bytes.drop (a.pos + buf.length), a.pos + buf.length⟩
  | seek {pos : Nat} (inside : pos < a.bytes.length) (mm : MmAnswer) :
    Step a (.seek pos) mm ⟨.ok, [], 0⟩ ⟨a.bytes, pos⟩
  | extend {pos : Nat} {more : Bytes} (length : a.bytes.length + more.length = pos)
      (mm : MmAnswer) : Step a (.seek pos) mm ⟨.ok, [], 0⟩ ⟨a.bytes ++ more, pos⟩
  | tell (mm : MmAnswer) : Step a .tell mm ⟨.ok, [], a.pos⟩ a
  | trunc (mm : MmAnswer) : Step a .trunc mm ⟨.ok, [], 0⟩ ⟨a.bytes.take a.pos, a.pos⟩
  | size (mm : MmAnswer) : Step a .size mm ⟨.ok, [], a.bytes.length⟩ a
  | fails {call : RamCall} {mm : MmAnswer}
      (cause : call.resizes ∧ mm.ok = false ∨ a.bytes = [] ∧ (call = .seek 0 ∨ call = .trunc)) :
    Step a call mm ⟨.full, [], 0⟩ a

/-- A call, the answer of the heap, and what the call has returned. -/
abbrev RamEvent := RamCall × MmAnswer × RamOut

/-- What a sequence of calls does. -/
inductive ByteFile.Steps (a : ByteFile) : List RamEvent → ByteFile → Prop where
  | nil : Steps a [] a
  | snoc {events : List RamEvent} {b c : ByteFile} {call : RamCall} {mm : MmAnswer} {out : RamOut}
      (before : Steps a events b) (step : b.Step call mm out c) :
    Steps a (events ++ [(call, mm, out)]) c

/-! ## Files as byte arrays

The view of a file is the beginning of its block, of the length of the file, with the position of
the handle as cursor. -/

/-! ### The heap -/

/-- The sizes for which `krhino_mm_realloc` returns a block that is large enough. -/
def maxSize (debug : Bool) : Nat := if debug then 2 ^ 31 - 1 else 2 ^ 32 - 8

theorem maxSize_lt (debug : Bool) : maxSize debug < 2 ^ 32 := by
  cases debug <;> decide

/-- The bytes a pointer leads to. -/
def Block.held : Block → Bytes
  | .live bytes => bytes
  | _ => []

variable {size : Nat}

/-- The memory that is served is enough. -/
theorem mmServed_ge (fits : size ≤ 2 ^ 32 - 8) : size ≤ mmServed size := by
  unfold mmServed
  omega

theorem resized_length (fill : Nat → UInt8) (bytes : Bytes) (size : Nat) :
    (resized fill bytes size).length = size := by
  simp only [resized, length_append, length_take, length_map, length_range]
  omega

variable {bytes : Bytes} {n btr r pos : Nat}

/-- The first bytes survive a new size. -/
theorem resized_take (fill : Nat → UInt8) (short : n ≤ bytes.length) (fits : n ≤ size) :
    (resized fill bytes size).take n = bytes.take n := by
  rw [resized, take_append_of_le_length (by rw [length_take]; omega), take_take,
    Nat.min_eq_left fits]

/-- A block of a size that is not 0 and not too large is resized, or it stays what it was. -/
inductive Resizes (mm : MmAnswer) (old : Block) (size : Nat) : Option Bytes × Block → Prop where
  | done {new : Bytes} (rest : Block) (long : size ≤ new.length)
      (same : ∀ n ≤ size, n ≤ old.held.length → new.take n = old.held.take n) :
    Resizes mm old size (some new, rest)
  | fails (refused : mm.ok = false) : Resizes mm old size (none, old)

/-- `krhino_mm_realloc` resizes, or fails and leaves the block. -/
theorem mmRealloc_resizes {debug : Bool} (mm : MmAnswer) {old : Block} (usable : old ≠ .freed)
    (pos : 0 < size) (fits : size ≤ maxSize debug) :
    ∃ result, mmRealloc debug mm old size = some result ∧ Resizes mm old size result := by
  have masked : (if debug then size % 2 ^ 31 else size) = size := by
    cases debug with
    | false => rfl
    | true => exact Nat.mod_eq_of_lt (fits.trans_lt (by decide))
  have enough : size ≤ mmServed size := by
    refine mmServed_ge (Nat.le_trans fits ?_)
    cases debug <;> decide
  have resizes (bytes : Bytes) (held : old.held = bytes) (rest : Block) :
      Resizes mm old size (some (resized mm.fill bytes (mmServed size)), rest) := by
    refine .done rest ?_ ?_
    · rwa [resized_length]
    · intro n le short
      rw [held] at short ⊢
      exact resized_take mm.fill short (le.trans enough)
  cases old with
  | null =>
    refine ⟨_, rfl, ?_⟩
    rw [masked]
    cases has : mm.ok with
    | true =>
      rw [if_pos ⟨pos, rfl⟩]
      exact resizes [] rfl .null
    | false =>
      rw [if_neg nofun]
      exact .fails has
  | live bytes =>
    unfold mmRealloc
    rw [masked]
    dsimp only
    rw [if_neg (Nat.pos_iff_ne_zero.mp pos)]
    by_cases has : mmServed size ≤ bytes.length ∨ mm.ok = true
    · rw [if_pos has]
      exact ⟨_, rfl, resizes bytes rfl .freed⟩
    · rw [if_neg has]
      exact ⟨_, rfl, .fails (Bool.eq_false_iff.mpr fun ok => has (.inr ok))⟩
  | freed => exact absurd rfl usable

/-! ### Views -/

/-- A file that is open for reading and writing, with all its bytes in the block. -/
structure RamFile.Sound (debug : Bool) (f : RamFile) : Prop where
  ar : f.ar = true
  aw : f.aw = true
  usable : f.dataD ≠ .freed
  rwp : f.rwp ≤ f.size
  held : f.size ≤ f.dataD.held.length
  fits : f.size ≤ maxSize debug
  data : f.dataD = .null ∨ 0 < f.size

def RamFile.view (f : RamFile) : ByteFile := ⟨f.dataD.held.take f.size, f.rwp⟩

/-- The condition of a call: the end of what it reads or writes is no more than 32 bits can hold,
the heap can serve the new size, and the file is not truncated to nothing. -/
def RamCall.Fits (debug : Bool) (f : RamFile) : RamCall → Prop
  | read btr => f.rwp + btr < 2 ^ 32
  | write buf => f.rwp + buf.length ≤ maxSize debug
  | seek pos => pos ≤ maxSize debug
  | trunc => 0 < f.rwp ∨ f.size = 0
  | _ => True

instance (debug : Bool) (f : RamFile) (call : RamCall) : Decidable (call.Fits debug f) := by
  cases call <;> unfold RamCall.Fits <;> infer_instance

/-- A call returns, and it does to the view what it does to a byte array. -/
def RamCall.Simulated (debug : Bool) (mm : MmAnswer) (f : RamFile) (call : RamCall) : Prop :=
  ∃ out f', call.apply debug mm f = some (out, f') ∧ f'.Sound debug ∧
    f.view.Step call mm out f'.view

variable {buf : Bytes}

namespace RamFile.Sound

variable {debug : Bool} {f f' : RamFile} {mm : MmAnswer}

theorem view_length (sound : f.Sound debug) : f.view.bytes.length = f.size := by
  rw [view, length_take, Nat.min_eq_left sound.held]

/-- A call that fails for want of memory. -/
theorem fails (sound : f.Sound debug) {call : RamCall} {dataD : Block} (same : dataD = f.dataD)
    (eq : call.apply debug mm f = some (⟨.full, [], 0⟩, { f with dataD := dataD }))
    (cause : call.resizes ∧ mm.ok = false ∨
      f.view.bytes = [] ∧ (call = .seek 0 ∨ call = .trunc)) :
    call.Simulated debug mm f := by
  subst same
  exact ⟨_, _, eq, sound, .fails cause⟩

/-- A read returns the bytes from the position on. -/
theorem read (sound : f.Sound debug) (fits : f.rwp + btr < 2 ^ 32) :
    (RamCall.read btr).Simulated debug mm f := by
  have length := sound.view_length
  have rwp := sound.rwp
  have held := sound.held
  by_cases empty : f.dataD = .null ∨ f.size = 0
  · -- An empty file: nothing is read.
    have zero : f.size = 0 := by
      rcases empty with null | zero
      · rw [null] at held
        exact Nat.le_zero.mp held
      · exact zero
    have count : min btr (f.view.bytes.length - f.view.pos) = 0 := by omega
    have nothing : (f.view.bytes.drop f.view.pos).take btr = [] := by
      rw [length_eq_zero_iff.mp (length.trans zero), drop_nil, take_nil]
    refine ⟨⟨.ok, [], 0⟩, f, if_pos empty, sound, ?_⟩
    have step := ByteFile.Step.read (a := f.view) btr mm
    rw [nothing, count] at step
    exact step
  · have count : (if (f.rwp + btr) % 2 ^ 32 > f.size then (f.size + (2 ^ 32 - f.rwp)) % 2 ^ 32
        else btr) = min btr (f.size - f.rwp) := by
      split <;> omega
    cases data : f.dataD
    case null => exact absurd (.inl data) empty
    case freed => exact absurd data sound.usable
    case live bytes =>
    rw [data] at held
    have enough : f.rwp + min btr (f.size - f.rwp) ≤ bytes.length := Nat.le_trans (by omega) held
    have eq : ramfsRead f btr = some (⟨.ok, (bytes.drop f.rwp).take (min btr (f.size - f.rwp)),
        min btr (f.size - f.rwp)⟩, { f with rwp := f.rwp + min btr (f.size - f.rwp) }) := by
      unfold ramfsRead
      rw [if_neg empty, if_neg (by rw [sound.ar]; nofun)]
      rw [count, data]
      dsimp only
      rw [if_pos enough, Nat.mod_eq_of_lt (by omega)]
    have same : (bytes.drop f.rwp).take (min btr (f.size - f.rwp)) =
        (f.view.bytes.drop f.rwp).take btr := by
      rw [view, data, Block.held, drop_take, take_take]
    refine ⟨_, _, eq, ⟨sound.ar, sound.aw, sound.usable, ?_, sound.held, sound.fits, sound.data⟩,
      ?_⟩
    · show f.rwp + min btr (f.size - f.rwp) ≤ f.size
      omega
    · have step := ByteFile.Step.read (a := f.view) btr mm
      rw [length] at step
      rw [same]
      exact step

/-- Bytes in the middle of a block are overwritten. -/
theorem overwritten_take (inside : r + buf.length ≤ n) (held : n ≤ bytes.length) :
    (bytes.take r ++ buf ++ bytes.drop (r + buf.length)).take n =
      (bytes.take n).take r ++ buf ++ (bytes.take n).drop (r + buf.length) := by
  have first : (bytes.take r ++ buf).length = r + buf.length := by
    rw [length_append, length_take, Nat.min_eq_left (by omega)]
  rw [take_append, take_of_length_le (by omega), first, take_take,
    Nat.min_eq_left (show r ≤ n by omega), drop_take]

/-- The end of a write to a block that is large enough. -/
theorem writeData_eq (data : f.dataD = .live bytes) (inside : f.rwp + buf.length ≤ f.size)
    (held : f.size ≤ bytes.length) (small : f.size < 2 ^ 32) :
    ∃ f', writeData f buf = some (⟨.ok, [], buf.length⟩, f') ∧
      f' = { f with dataD := f'.dataD, rwp := f.rwp + buf.length } ∧
      f'.dataD ≠ .freed ∧ f.size ≤ f'.dataD.held.length ∧
      f'.view.bytes = f.view.bytes.take f.rwp ++ buf ++ f.view.bytes.drop (f.rwp + buf.length) := by
  have eq : writeData f buf = some (⟨.ok, [], buf.length⟩, { f with
      dataD := .live (bytes.take f.rwp ++ buf ++ bytes.drop (f.rwp + buf.length)),
      rwp := f.rwp + buf.length }) := by
    unfold writeData
    rw [data]
    dsimp only
    rw [if_pos (by omega), Nat.mod_eq_of_lt (by omega)]
  refine ⟨_, eq, rfl, nofun, ?_, ?_⟩
  · show f.size ≤ (bytes.take f.rwp ++ buf ++ bytes.drop (f.rwp + buf.length)).length
    simp only [length_append, length_take, length_drop]
    omega
  · rw [view, view, data]
    exact overwritten_take inside held

theorem write_step
    (bytes : f'.view.bytes =
      f.view.bytes.take f.rwp ++ buf ++ f.view.bytes.drop (f.rwp + buf.length))
    (pos : f'.rwp = f.rwp + buf.length) :
    f.view.Step (.write buf) mm ⟨.ok, [], buf.length⟩ f'.view := by
  have after : f'.view = ⟨f.view.bytes.take f.rwp ++ buf ++
      f.view.bytes.drop (f.rwp + buf.length), f.rwp + buf.length⟩ :=
    congrArg₂ ByteFile.mk bytes pos
  rw [after]
  exact .write buf mm

section

variable (sound : f.Sound debug)
include sound

/-- A write replaces them, and extends the file. -/
theorem write (fits : f.rwp + buf.length ≤ maxSize debug) :
    (RamCall.write buf).Simulated debug mm f := by
  have length := sound.view_length
  have rwp := sound.rwp
  have held := sound.held
  have limit := maxSize_lt debug
  have max := sound.fits
  have size : (f.rwp + buf.length) % 2 ^ 32 = f.rwp + buf.length := Nat.mod_eq_of_lt (by omega)
  have call : (RamCall.write buf).apply debug mm f = ramfsWrite debug mm f buf := rfl
  unfold ramfsWrite at call
  rw [if_neg (by rw [sound.aw]; nofun)] at call
  rw [size] at call
  by_cases grows : f.rwp + buf.length > f.size
  · rw [if_pos grows] at call
    obtain ⟨result, eq, resizes⟩ := mmRealloc_resizes mm sound.usable (by omega) fits
    rw [eq] at call
    cases resizes with
    | fails refused => exact sound.fails rfl call (.inl ⟨rfl, refused⟩)
    | @done new _ long same =>
      obtain ⟨f', eq', is, freed, held', bytes⟩ := writeData_eq
        (f := { f with dataD := .live new, size := f.rwp + buf.length }) rfl le_rfl long
        (by show f.rwp + buf.length < 2 ^ 32; omega)
      refine ⟨_, f', call.trans eq', ?_, ?_⟩
      · rw [is]
        exact ⟨sound.ar, sound.aw, freed, le_rfl, held', fits, .inr (by
          show 0 < f.rwp + buf.length
          omega)⟩
      · have front : (new.take (f.rwp + buf.length)).take f.rwp = f.view.bytes.take f.rwp := by
          rw [view, take_take, take_take, Nat.min_eq_left (by omega),
            Nat.min_eq_left (by omega), same f.rwp (by omega) (by omega)]
        have back : (new.take (f.rwp + buf.length)).drop (f.rwp + buf.length) =
            f.view.bytes.drop (f.rwp + buf.length) := by
          rw [drop_eq_nil_of_le (by rw [length_take]; omega), drop_eq_nil_of_le (by omega)]
        refine write_step ?_ (by rw [is])
        rw [← front, ← back]
        exact bytes
  · rw [if_neg grows] at call
    cases data : f.dataD with
    | freed => exact absurd data sound.usable
    | null =>
      -- Nothing is written to an empty file.
      rw [data] at held
      have zero : f.size = 0 := Nat.le_zero.mp held
      have empty : buf = [] := length_eq_zero_iff.mp (by omega)
      have eq : writeData f buf = some (⟨.ok, [], buf.length⟩, f) := by
        unfold writeData
        rw [data]
        dsimp only
        rw [if_pos (by rw [empty]; rfl), size, empty, ← data]
        rfl
      refine ⟨_, _, call.trans eq, sound, ?_⟩
      have step := ByteFile.Step.write (a := f.view) buf mm
      rw [empty, append_nil, length_nil, Nat.add_zero, take_append_drop] at step
      rw [empty]
      exact step
    | live bytes =>
      rw [data] at held
      obtain ⟨f', eq, is, freed, held', bytes'⟩ :=
        writeData_eq data (Nat.not_lt.mp grows) held (by omega)
      refine ⟨_, f', call.trans eq, ?_, ?_⟩
      · rw [is]
        exact ⟨sound.ar, sound.aw, freed, Nat.not_lt.mp grows, held', sound.fits,
          .inr (sound.data.resolve_left (by rw [data]; nofun))⟩
      · exact write_step bytes' (by rw [is])

/-- An empty file has no block. -/
theorem null_of_empty (empty : f.size = 0) : f.dataD = .null := sound.data.resolve_right (by omega)

/-- The memory for nothing. -/
theorem mmRealloc_nothing (empty : f.size = 0) :
    mmRealloc debug mm f.dataD 0 = some (none, f.dataD) := by
  rw [sound.null_of_empty empty]
  cases debug <;> rfl

/-- A seek may extend the file. -/
theorem seek (fits : pos ≤ maxSize debug) : (RamCall.seek pos).Simulated debug mm f := by
  have length := sound.view_length
  have held := sound.held
  have call : (RamCall.seek pos).apply debug mm f = ramfsSeek debug mm f pos := rfl
  unfold ramfsSeek at call
  by_cases inside : pos < f.size
  · rw [if_pos inside] at call
    refine ⟨_, _, call, ?_, .seek (length ▸ inside) mm⟩
    exact ⟨sound.ar, sound.aw, sound.usable, inside.le, held, sound.fits, sound.data⟩
  rw [if_neg inside, if_neg (by rw [sound.aw]; nofun)] at call
  by_cases zero : pos = 0
  · subst zero
    have empty : f.size = 0 := by omega
    rw [sound.mmRealloc_nothing empty] at call
    refine sound.fails rfl call (.inr ⟨?_, .inl rfl⟩)
    exact length_eq_zero_iff.mp (length.trans empty)
  · obtain ⟨result, eq, resizes⟩ := mmRealloc_resizes mm sound.usable (by omega) fits
    rw [eq] at call
    cases resizes with
    | fails refused => exact sound.fails rfl call (.inl ⟨rfl, refused⟩)
    | @done new _ long same =>
      have split : new.take pos = f.view.bytes ++ (new.take pos).drop f.size := by
        have front : f.view.bytes = (new.take pos).take f.size := by
          rw [view, take_take, Nat.min_eq_left (by omega), same f.size (by omega) held]
        rw [front, take_append_drop]
      refine ⟨_, _, call, ⟨sound.ar, sound.aw, nofun, le_rfl, long, fits, .inr ?_⟩, ?_⟩
      · exact Nat.pos_of_ne_zero zero
      · have after : ({ f with dataD := .live new, size := pos, rwp := pos } : RamFile).view =
            ⟨f.view.bytes ++ (new.take pos).drop f.size, pos⟩ := by
          rw [← split]
          rfl
        rw [after]
        refine .extend ?_ mm
        rw [length_drop, length_take, length]
        omega

/-- A truncation cuts the file at the position. -/
theorem trunc (keeps : 0 < f.rwp ∨ f.size = 0) : RamCall.trunc.Simulated debug mm f := by
  have length := sound.view_length
  have rwp := sound.rwp
  have held := sound.held
  have call : RamCall.trunc.apply debug mm f = ramfsTrunc debug mm f := rfl
  unfold ramfsTrunc at call
  rw [if_neg (by rw [sound.aw]; nofun)] at call
  by_cases empty : f.size = 0
  · have zero : f.rwp = 0 := by omega
    have nothing : mmRealloc debug mm f.dataD f.rwp = some (none, f.dataD) := by
      rw [zero, sound.mmRealloc_nothing empty]
    rw [nothing] at call
    refine sound.fails rfl call (.inr ⟨?_, .inr rfl⟩)
    exact length_eq_zero_iff.mp (length.trans empty)
  · have fits : f.rwp ≤ maxSize debug := rwp.trans sound.fits
    obtain ⟨result, eq, resizes⟩ := mmRealloc_resizes mm sound.usable (by omega) fits
    rw [eq] at call
    cases resizes with
    | fails refused => exact sound.fails rfl call (.inl ⟨rfl, refused⟩)
    | @done new _ long same =>
      refine ⟨_, _, call, ⟨sound.ar, sound.aw, nofun, le_rfl, long, fits, .inr ?_⟩, ?_⟩
      · exact keeps.resolve_right empty
      · have after : ({ f with dataD := .live new, size := f.rwp } : RamFile).view =
            ⟨f.view.bytes.take f.rwp, f.rwp⟩ := by
          show ByteFile.mk (new.take f.rwp) f.rwp = _
          rw [same f.rwp le_rfl (by omega), view, take_take, Nat.min_eq_left (by omega)]
        rw [after]
        exact .trunc mm

/-- Each call that meets its condition does what it does to a byte array. -/
theorem call {call : RamCall} (fits : call.Fits debug f) (mm : MmAnswer) :
    call.Simulated debug mm f := by
  cases call with
  | read => exact sound.read fits
  | write => exact sound.write fits
  | seek => exact sound.seek fits
  | tell => exact ⟨_, f, rfl, sound, .tell mm⟩
  | trunc => exact sound.trunc fits
  | size =>
    have step := ByteFile.Step.size (a := f.view) mm
    rw [sound.view_length] at step
    exact ⟨_, f, rfl, sound, step⟩

end

end RamFile.Sound

/-! ### Runs -/

/-- A new file, opened for reading and writing. -/
def newFile : RamFile := ⟨.null, 0, true, true, 0⟩

/-- The calls on a new file; there is no file any more after an access outside its block. -/
abbrev ramfsSystem (debug : Bool) : System (Option RamFile) (RamCall × MmAnswer) where
  init s := s = some newFile
  allowed _ a := a.1.Typed
  step s a := s.bind fun f => (a.1.apply debug a.2 f).map Prod.snd

/-- What a call returns is recorded. -/
def noteCall (debug : Bool) (s : Option RamFile) (a : RamCall × MmAnswer)
    (events : List RamEvent) : List RamEvent :=
  match s.bind fun f => a.1.apply debug a.2 f with
  | some (out, _) => events ++ [(a.1, a.2, out)]
  | none => events

/-- The file with the calls so far and what they have returned. -/
abbrev ramfsObserved (debug : Bool) :
    System (Option RamFile × List RamEvent) (RamCall × MmAnswer) :=
  (ramfsSystem debug).observed [] (noteCall debug)

/-- The calls so far have returned what they return for a byte array with a cursor that is empty at
first, and the file now holds the bytes of the array and has its position. -/
def IsByteFile (p : Option RamFile × List RamEvent) : Prop :=
  ∃ f, p.1 = some f ∧ ByteFile.Steps ⟨[], 0⟩ p.2 f.view ∧ f.view.bytes.length = f.size

/-- The runs in which every call meets its condition. -/
abbrev ramfsFits (debug : Bool) : System (Option RamFile × List RamEvent) (RamCall × MmAnswer) :=
  (ramfsObserved debug).restrict fun p a => ∀ f ∈ p.1, a.1.Fits debug f

theorem ramfs_byteFile (debug : Bool) {p : Option RamFile × List RamEvent}
    (reach : (ramfsFits debug).Reach p) : IsByteFile p := by
  have sound : ∃ f, p.1 = some f ∧ f.Sound debug ∧ ByteFile.Steps ⟨[], 0⟩ p.2 f.view := by
    refine reach.invariant
      (P := fun p => ∃ f, p.1 = some f ∧ f.Sound debug ∧ ByteFile.Steps ⟨[], 0⟩ p.2 f.view) ?_ ?_
    · rintro ⟨s, events⟩ ⟨rfl, rfl⟩
      refine ⟨newFile, rfl, ⟨rfl, rfl, nofun, le_rfl, le_rfl, ?_, .inl rfl⟩, .nil⟩
      exact Nat.zero_le _
    rintro ⟨s, events⟩ ⟨call, mm⟩ ⟨f, rfl, sound, steps⟩ ⟨-, fits⟩
    obtain ⟨out, f', eq, sound', step⟩ := sound.call (fits f rfl) mm
    refine ⟨f', ?_, sound', ?_⟩
    · show (call.apply debug mm f).map Prod.snd = some f'
      rw [eq, Option.map_some]
    · have noted : noteCall debug (some f) (call, mm) events = events ++ [(call, mm, out)] := by
        simp only [noteCall, Option.bind_some, eq]
      show ByteFile.Steps _ (noteCall debug (some f) (call, mm) events) _
      rw [noted]
      exact steps.snoc step
  obtain ⟨f, is, sound, steps⟩ := sound
  exact ⟨f, is, steps, sound.view_length⟩

/-- The heap has memory, and it is full of zeros. -/
def hasMemory : MmAnswer := ⟨true, fun _ => 0⟩

/-- Before the first call. -/
def atStart : Option RamFile × List RamEvent := (some newFile, [])

theorem atStart_init : (ramfsObserved false).init atStart := ⟨rfl, rfl⟩

/-- The state after calls on a new file. -/
def afterCalls (calls : List RamCall) : Option RamFile × List RamEvent :=
  (ramfsObserved false).run atStart (calls.map fun call => (call, hasMemory))

/-- A file is written, changed in the middle, read, extended and cut. -/
theorem ramfs_byteFile_rewritten :
    IsByteFile (afterCalls [.write [1, 2, 3], .seek 1, .write [4], .read 7, .seek 6, .trunc]) :=
  ramfs_byteFile false
    (System.Reach.run (.init atStart_init) (by decide +kernel))

/-- A file that is truncated to nothing has lost its block; a count is added to the position in 32
bits; a size close to the largest one is rounded up to 0 by the heap. -/
theorem not_ramfs_byteFile :
    [[RamCall.write [1], .seek 0, .trunc, .read 1], [.write [1, 2], .seek 1, .read (2 ^ 32 - 1)],
      [.write [1], .seek (2 ^ 32 - 1)]].Forall fun calls =>
        (ramfsObserved false).Reach (afterCalls calls) ∧ ¬ IsByteFile (afterCalls calls) := by
  have wrong (calls : List RamCall) (differs : ((afterCalls calls).1.map fun f =>
      decide (f.view.bytes.length = f.size)) ≠ some true) : ¬ IsByteFile (afterCalls calls) := by
    rintro ⟨f, is, -, length⟩
    exact differs (by rw [is, Option.map_some, decide_eq_true length])
  have reached (calls : List RamCall) (typed : ∀ call ∈ calls, call.Typed) :
      (ramfsObserved false).Reach (afterCalls calls) := by
    refine System.Reach.run (.init atStart_init) ?_
    generalize atStart = p
    induction calls generalizing p with
    | nil => trivial
    | cons call _ ih =>
      exact ⟨typed call mem_cons_self, ih (fun call mem => typed call (mem_cons_of_mem _ mem)) _⟩
  refine ⟨?_, ?_, ?_⟩ <;> exact ⟨reached _ (by decide), wrong _ (by decide +kernel)⟩

end AliosThings.Fs
