import AliosThings.Lib.CString
import AliosThings.Lib.Occurs

/-!
# The firmware download

`ota_download_start` asks a server for an image, from the stored breakpoint on if the image is the
one the breakpoint belongs to, and hands what it receives to a hash and to a write callback.
`strstr` and `sscanf` see a received chunk as a C string: up to its first zero byte, and no further
than the chunk itself, because the buffer was cleared before it was received.

A call is modelled with everything its surroundings decide: whether the connection and the request
succeed, and one `Recv` for each call of `recv`, with what the write callback answers and whether
the user cancels. Its outcome lists the keys it writes, in order, so that a loss of power is a
prefix of that list. The progress report (`ota_status_post`) and the parsing of the URL are left
out.
-/

namespace AliosThings.Ota

open Lib

/-! ## Text functions -/

/-- Place of the first occurrence of `needle`. -/
def strstr (text needle : Bytes) : Option Nat := firstAt needle (cString text)

def isDigit (c : UInt8) : Bool := 48 ≤ c ∧ c ≤ 57

/-- `isspace`: the blank, and from tab to carriage return. -/
def isSpace (c : UInt8) : Bool := c = 32 ∨ 9 ≤ c ∧ c ≤ 13

/-- Value of a string of decimal digits. -/
def decimal (digits : Bytes) : Nat :=
  digits.foldl (fun value digit => 10 * value + (digit.toNat - 48)) 0

/-- The digits at the front of the text, if there are any. -/
def scanDigits (text : Bytes) : Option Nat :=
  match text.takeWhile isDigit with
  | [] => none
  | digits => some (decimal digits)

/-- `%d`: blanks, a sign and digits. A number beyond an `int` is cut to the largest or smallest. -/
def scanInt (text : Bytes) : Option Int :=
  match text.dropWhile isSpace with
  | 45 :: text => (scanDigits text).map fun n : Nat => max (-(n : Int)) (-2 ^ 31)
  | 43 :: text => (scanDigits text).map fun n : Nat => min (n : Int) (2 ^ 31 - 1)
  | text => (scanDigits text).map fun n : Nat => min (n : Int) (2 ^ 31 - 1)

/-- `sscanf(ptr, "%*[^ ]%d", &file_size)`: goes over at least one character that is no blank, and
scans a number. Without a number `file_size` keeps its value. -/
def sscanfLength (ptr : Bytes) (fileSize : Int) : Int :=
  match (cString ptr).takeWhile (· ≠ 32) with
  | [] => fileSize
  | _ => (scanInt ((cString ptr).dropWhile (· ≠ 32))).getD fileSize

/-- `"Content-Length:"` -/
def contentLength : Bytes := [67, 111, 110, 116, 101, 110, 116, 45, 76, 101, 110, 103, 116, 104, 58]

/-- `"\r\n\r\n"` -/
def blankLine : Bytes := [13, 10, 13, 10]

/-! ## Responses -/

/-- A line `Content-Length:` with the number `n`, blanks and tabs around it. -/
def IsLengthField (n : Nat) (line : Bytes) : Prop :=
  ∃ before digits after, line = contentLength ++ before ++ digits ++ after ∧
    (∀ c ∈ before ++ after, c = 32 ∨ c = 9) ∧ digits ≠ [] ∧ digits.all isDigit ∧ decimal digits = n

/-- A well-formed response. `head` is the text before the blank line. -/
structure Response where
  head : Bytes
  body : Bytes
  /-- The header is text. -/
  noNul : (0 : UInt8) ∉ head
  /-- Its first blank line ends it. -/
  firstBlank : ¬ blankLine <:+: (head ++ blankLine).dropLast
  /-- One of its lines is the length of the body. -/
  field : ∃ before line after, head = before ++ [13, 10] ++ line ++ after ∧
    (after = [] ∨ [13, 10] <+: after) ∧ IsLengthField body.length line

/-- What the server sends. -/
def Response.stream (r : Response) : Bytes := r.head ++ blankLine ++ r.body

/-! ## Reading the length -/

/-- What follows the field's name says `n`: a blank, and after the blanks the digits of `n`. -/
def SaysLength (n : Nat) (text : Bytes) : Prop :=
  text.head? = some 32 ∧ (text.dropWhile isSpace).head?.any isDigit ∧
    decimal ((text.dropWhile isSpace).takeWhile isDigit) = n
  deriving Decidable

/-- The digits in front are read. -/
theorem scanDigits_of_head {text : Bytes} (digit : text.head?.any isDigit = true) :
    scanDigits text = some (decimal (text.takeWhile isDigit)) := by
  cases text with
  | nil => simp at digit
  | cons c =>
    have first : isDigit c = true := by simpa using digit
    rw [scanDigits, List.takeWhile_cons_of_pos first]

theorem scanInt_of_saysLength {n : Nat} {text : Bytes} (stated : SaysLength n text)
    (short : n < 2 ^ 31) : scanInt text = some (n : Int) := by
  obtain ⟨-, digit, value⟩ := stated
  have scanned := scanDigits_of_head digit
  rw [value] at scanned
  have small : min (n : Int) (2 ^ 31 - 1) = n := by omega
  unfold scanInt
  split
  case h_1 rest sign =>
    rw [sign] at digit
    exact absurd digit (by simp [isDigit])
  case h_2 rest sign =>
    rw [sign] at digit
    exact absurd digit (by simp [isDigit])
  case h_3 =>
    rw [scanned, Option.map_some, small]

/-- The length in the header is read. -/
theorem sscanfLength_of_saysLength {n : Nat} {ptr after : Bytes} (stated : SaysLength n after)
    (short : n < 2 ^ 31) (text : cString ptr = contentLength ++ after) (fileSize : Int) :
    sscanfLength ptr fileSize = n := by
  have blank : ∃ more, after = 32 :: more := by
    cases after with
    | nil => cases stated.1
    | cons c more => exact ⟨more, by rw [Option.some.inj stated.1]⟩
  obtain ⟨more, rfl⟩ := blank
  have rest : (contentLength ++ 32 :: more).dropWhile (· ≠ 32) = 32 :: more := rfl
  have some_ : (contentLength ++ 32 :: more).takeWhile (· ≠ 32) = contentLength := rfl
  rw [sscanfLength, text, some_, rest, scanInt_of_saysLength stated short]
  rfl

/-! ## Hashes -/

/-- `ota_hash_type_t` -/
inductive HashType where
  | hashNone | sha1 | sha224 | sha256 | sha384 | sha512 | md5
  deriving DecidableEq, Repr

/-- `ota_hash_params`: what an image has to hash to. -/
structure HashParams where
  hashMethod : HashType
  hashValue : Bytes
  deriving DecidableEq, Repr

/-- Hash functions that take their input piece by piece. `H` is a hash context, `zero` one whose
memory was only cleared. -/
structure HashAlg (H : Type) where
  zero : H
  init : HashType → Option H
  update : H → Bytes → Option H
  /-- Two pieces are as good as one. -/
  update_append : ∀ h a b, update h (a ++ b) = (update h a).bind fun h => update h b
  /-- A context that was initialised takes every input. -/
  init_update : ∀ {method h}, init method = some h → ∀ a, (update h a).isSome

/-- `ota_hash_ctx_params` -/
structure HashCtx (H : Type) where
  hashMethod : HashType
  ctxHash : H

def compareLen (method : HashType) : Nat := if method = .md5 then 32 else 64

/-- `ota_verify_hash_value` -/
def otaVerifyHashValue (last cur : HashParams) : Int :=
  if last.hashMethod = cur.hashMethod ∧
      strncmpSame last.hashValue cur.hashValue (compareLen last.hashMethod) then 0
  else -1

/-! ## The stored keys -/

variable {H : Type}

/-- The keys of the store. A key that is missing reads as zero. `ota_set_cur_hash` writes 66
bytes, which is all of `ota_hash_params` where an enumeration takes one byte. -/
structure Kv (H : Type) where
  breakpoint : Nat := 0
  hash : HashParams := ⟨.hashNone, []⟩
  ctxHead : Option HashType := none
  ctxBody : Option H := none

/-- One write of a key. -/
inductive KvWrite (H : Type) where
  | breakpoint (offset : Nat)
  | hash (value : HashParams)
  | ctxHead (method : HashType)
  | ctxBody (ctx : H)
  deriving DecidableEq

def Kv.set (kv : Kv H) : KvWrite H → Kv H
  | .breakpoint offset => { kv with breakpoint := offset }
  | .hash value => { kv with hash := value }
  | .ctxHead method => { kv with ctxHead := some method }
  | .ctxBody ctx => { kv with ctxBody := some ctx }

def Kv.setAll (kv : Kv H) (writes : List (KvWrite H)) : Kv H := writes.foldl Kv.set kv

/-- `ota_get_last_hash_context`: a key that is missing leaves its part of the context. -/
def otaGetLastHashContext (kv : Kv H) (ctx : HashCtx H) : HashCtx H :=
  match kv.ctxHead, kv.ctxBody with
  | none, _ => ctx
  | some method, none => { ctx with hashMethod := method }
  | some method, some ctxHash => ⟨method, ctxHash⟩

/-- `ota_set_cur_hash_context` -/
def otaSetCurHashContext (ctx : HashCtx H) : List (KvWrite H) :=
  [.ctxHead ctx.hashMethod, .ctxBody ctx.ctxHash]

/-- `ota_save_state` -/
def otaSaveState (breakpoint : Nat) (ctx : HashCtx H) : List (KvWrite H) :=
  .breakpoint breakpoint :: otaSetCurHashContext ctx

/-! ## Receiving -/

/-- `OTA_BUFFER_MAX_SIZE` -/
def otaBufferMaxSize : Nat := 513

/-- A `recv` that brings bytes; `wcb` is what the write callback will answer, and `cancel` whether
the user has cancelled by the end of this turn of the loop. -/
structure Chunk where
  bytes : Bytes
  wcb : Int := 0
  cancel : Bool := false
  some_ : bytes ≠ [] := by decide
  fits : bytes.length ≤ otaBufferMaxSize - 1 := by decide

/-- What `recv` returns: bytes, zero, or an error. -/
inductive Recv where
  | data (chunk : Chunk)
  | closed
  | error (eintr : Bool)

/-- What `ota_download_start` returns. -/
inductive DownloadRet where
  | urlFail | socketFail | fail | signInitFail | sendFail | failed | cancel | finish
  deriving DecidableEq, Repr

/-- The variables of the loop, with the concatenation of what the write callback and of what the
hash were given. -/
structure Download (H : Type) where
  headerFound : Bool := false
  fileSize : Int := 0
  size : Int := 0
  retry : Nat := 0
  hashCtx : HashCtx H
  written : Bytes := []
  hashed : Bytes := []

/-- How a turn of the loop ends: with the next turn, by leaving the loop with `nbytes`, or by
leaving the function. -/
inductive Turn (H : Type) where
  | next (s : Download H)
  | leave (s : Download H) (nbytes : Int)
  | exit (s : Download H) (ret : DownloadRet) (writes : List (KvWrite H))

/-- A signed 32-bit integer. -/
def int32 (n : Int) : Int := n.bmod (2 ^ 32)

variable (alg : HashAlg H)

/-- The hash and the write callback are given some bytes. -/
def handOver (s : Download H) (bytes : Bytes) (wcb : Int)
    (go : Download H → Turn H) : Turn H :=
  match alg.update s.hashCtx.ctxHash bytes with
  | none => .exit s .sendFail [.breakpoint 0]
  | some ctxHash =>
    let s := { s with hashCtx.ctxHash := ctxHash, hashed := s.hashed ++ bytes,
                      written := s.written ++ bytes }
    if wcb < 0 then .exit s .fail [] else go s

/-- The length a chunk of the header gives for the file, if none was found before. -/
def findLength (bytes : Bytes) (fileSize : Int) : Int :=
  if fileSize = 0 then
    match strstr bytes contentLength with
    | none => fileSize
    | some i => sscanfLength (bytes.drop i) fileSize
  else fileSize

/-- A chunk received before the blank line was seen. -/
def headerChunk (s : Download H) (chunk : Chunk) : Turn H :=
  let s := { s with fileSize := findLength chunk.bytes s.fileSize }
  match strstr chunk.bytes blankLine with
  | none => .next s
  | some i =>
    let pos := chunk.bytes.drop (i + 4)
    handOver alg { s with headerFound := true, size := pos.length } pos chunk.wcb .next

/-- A chunk received after it. -/
def bodyChunk (s : Download H) (chunk : Chunk) : Turn H :=
  let s := { s with size := int32 (s.size + chunk.bytes.length) }
  handOver alg s chunk.bytes chunk.wcb fun s =>
    if s.size = s.fileSize then .leave s 0
    else if chunk.cancel then .leave s chunk.bytes.length
    else .next s

/-- One turn of the receive loop. The first errors in a row are tried again whatever `errno`
is. -/
def recvTurn (s : Download H) : Recv → Turn H
  | .closed => .leave s 0
  | .error eintr =>
    if s.retry ≤ 5 then .next { s with retry := s.retry + 1 }
    else if eintr then .next { s with retry := 0 }
    else .leave { s with retry := 0 } (-1)
  | .data chunk =>
    let s := { s with retry := 0 }
    if s.headerFound then bodyChunk alg s chunk else headerChunk alg s chunk

/-- What a call has done: what it returned, or nothing while it waits in `recv`; the keys it has
written; its variables. -/
structure Outcome (H : Type) where
  ret : Option DownloadRet
  writes : List (KvWrite H)
  state : Download H

/-- After the loop. -/
def afterLoop (breakpoint : Nat) (s : Download H) (nbytes : Int) : Outcome H :=
  let reached := ((s.size + breakpoint) % 2 ^ 32).toNat
  if nbytes < 0 then ⟨some .failed, otaSaveState reached s.hashCtx, s⟩
  else if nbytes = 0 then ⟨some .finish, [.breakpoint 0], s⟩
  else ⟨some .cancel, otaSaveState reached s.hashCtx, s⟩

def recvLoop (alg : HashAlg H) (breakpoint : Nat) (s : Download H) : List Recv → Outcome H
  | [] => ⟨none, [], s⟩
  | event :: events =>
    match recvTurn alg s event with
    | .next s => recvLoop alg breakpoint s events
    | .leave s nbytes => afterLoop breakpoint s nbytes
    | .exit s ret writes => ⟨some ret, writes, s⟩

/-! ## The call -/

/-- A call of `ota_download_start`. -/
structure Attempt where
  /-- What the image hashes to. -/
  cur : HashParams
  /-- The arguments are there and the URL names a host and a file. -/
  urlOk : Bool := true
  connected : Bool := true
  /-- `ota_malloc_global_context` was called with the method of the image and had memory. -/
  context : Bool := true
  buffer : Bool := true
  /-- All of the request is sent. -/
  sent : Bool := true
  recvs : List Recv := []

/-- Whether the download goes on where an earlier one stopped. -/
def resumes (kv : Kv H) (cur : HashParams) : Bool :=
  kv.breakpoint ≠ 0 ∧ otaVerifyHashValue kv.hash cur = 0

/-- The first byte asked for. -/
def breakpointOf (kv : Kv H) (cur : HashParams) : Nat :=
  if resumes kv cur then kv.breakpoint else 0

/-- The hash context a download begins with. -/
def firstContext (kv : Kv H) (cur : HashParams) : Option (HashCtx H) :=
  if resumes kv cur then some (otaGetLastHashContext kv ⟨cur.hashMethod, alg.zero⟩)
  else (alg.init cur.hashMethod).map fun ctxHash => ⟨cur.hashMethod, ctxHash⟩

/-- The part of `ota_download_start` before the receive loop: the context for the loop, or what the
call returns and the keys it has written. -/
def otaDownloadRequest (kv : Kv H) (a : Attempt) :
    Except (DownloadRet × List (KvWrite H)) (HashCtx H) :=
  if a.urlOk = false then .error (.urlFail, [])
  else if a.connected = false then .error (.socketFail, [])
  else if a.context = false ∨ a.buffer = false then .error (.fail, [])
  else
    match firstContext alg kv a.cur with
    | none => .error (.signInitFail, [])
    | some ctx => if a.sent then .ok ctx else .error (.sendFail, [.hash a.cur])

/-- `ota_download_start` -/
def otaDownloadStart (kv : Kv H) (a : Attempt) : Outcome H :=
  match otaDownloadRequest alg kv a with
  | .error (ret, writes) => ⟨some ret, writes, { hashCtx := ⟨a.cur.hashMethod, alg.zero⟩ }⟩
  | .ok ctx =>
    let o := recvLoop alg (breakpointOf kv a.cur) { hashCtx := ctx } a.recvs
    { o with writes := .hash a.cur :: o.writes }

end AliosThings.Ota
