import AliosThings.Ota.Download

/-!
# What a download hands over of a response

The loop looks at each received chunk on its own, so what it finds depends on where the transport
cuts the stream. `Counts` is what every turn keeps: what is handed over after a blank line is
counted and hashed. `Response.Cut` is the condition on one chunk under which the loop sees what is
there: the chunk does not end inside the blank line, and where its text has the name of the length
field, the number follows. `Receiving` is the loop's invariant under that condition: nothing is
handed over before the blank line, and after it all that was received of the body.
-/

namespace AliosThings.Ota

open Lib List

variable {H : Type} {alg : HashAlg H} {r : Response} {ctx : HashCtx H} {chunk : Chunk}
  {got y bytes : Bytes} {breakpoint : Nat} {events : List Recv} {kv : Kv H} {a : Attempt}
  {s : Download H}

/-! ## What every turn keeps -/

/-- The context takes every input. -/
def HashAlg.Live (alg : HashAlg H) (h : H) : Prop := ∀ a, (alg.update h a).isSome

/-- What was handed over is counted, and was hashed from the context `ctx` on. -/
structure Counts (alg : HashAlg H) (ctx : HashCtx H) (s : Download H) : Prop where
  live : alg.Live s.hashCtx.ctxHash
  size : s.size = int32 s.written.length
  same : s.hashed = s.written
  method : s.hashCtx.hashMethod = ctx.hashMethod
  before : s.headerFound = false → s.written = [] ∧ s.hashCtx.ctxHash = ctx.ctxHash
  after : s.headerFound = true → alg.update ctx.ctxHash s.written = some s.hashCtx.ctxHash

/-- The loop begins with nothing. -/
theorem Counts.start (live : alg.Live ctx.ctxHash) (fileSize : Int) :
    Counts alg ctx { fileSize, hashCtx := ctx } :=
  ⟨live, by simp [int32], rfl, rfl, fun _ => ⟨rfl, rfl⟩, fun no => absurd no Bool.false_ne_true⟩

theorem Counts.withRetry (counts : Counts alg ctx s) (retry : Nat) :
    Counts alg ctx { s with retry } :=
  { counts with }

/-- A context that takes every input is handed over some bytes. -/
theorem handOver_live (live : alg.Live s.hashCtx.ctxHash) (bytes : Bytes) (wcb : Int)
    (go : Download H → Turn H) :
    ∃ h, alg.update s.hashCtx.ctxHash bytes = some h ∧ alg.Live h ∧
      let s' := { s with hashCtx.ctxHash := h, hashed := s.hashed ++ bytes,
                         written := s.written ++ bytes }
      handOver alg s bytes wcb go = if wcb < 0 then .exit s' .fail [] else go s' := by
  obtain ⟨h, updated⟩ := Option.isSome_iff_exists.mp (live bytes)
  refine ⟨h, updated, fun more => ?_, by rw [handOver, updated]⟩
  have both := live (bytes ++ more)
  rwa [alg.update_append, updated, Option.bind_some] at both

/-- A chunk in which the blank line is found. -/
theorem Counts.headerChunk (counts : Counts alg ctx s) (early : s.headerFound = false) {i : Nat}
    (found : strstr chunk.bytes blankLine = some i) :
    ∃ s', headerChunk alg s chunk = (if chunk.wcb < 0 then .exit s' .fail [] else .next s') ∧
      Counts alg ctx s' ∧ s'.headerFound = true ∧ s'.fileSize = findLength chunk.bytes s.fileSize ∧
      s'.retry = s.retry ∧ s'.written = chunk.bytes.drop (i + 4) := by
  obtain ⟨empty, first⟩ := counts.before early
  obtain ⟨h, updated, live, turn⟩ := handOver_live
    (s := { s with
      fileSize := findLength chunk.bytes s.fileSize, headerFound := true,
      size := (chunk.bytes.drop (i + 4)).length })
    counts.live (chunk.bytes.drop (i + 4)) chunk.wcb .next
  rw [first] at updated
  refine ⟨_, .trans (by rw [Ota.headerChunk, found]) turn, ?_, rfl, rfl, rfl, by simp [empty]⟩
  have fits := chunk.fits
  have small : otaBufferMaxSize = 513 := rfl
  have size : int32 (chunk.bytes.drop (i + 4)).length = (chunk.bytes.drop (i + 4)).length := by
    rw [length_drop, int32, Int.bmod_eq_of_le] <;> omega
  exact ⟨live, by rw [empty, nil_append, size], by simp [counts.same], counts.method,
    fun no => absurd no.symm Bool.false_ne_true, fun _ => by simpa [empty] using updated⟩

/-- A chunk after the blank line. -/
theorem Counts.bodyChunk (counts : Counts alg ctx s) (found : s.headerFound = true)
    (chunk : Chunk) :
    ∃ s', bodyChunk alg s chunk =
        (if chunk.wcb < 0 then .exit s' .fail []
        else if int32 (s.written.length + chunk.bytes.length : Nat) = s.fileSize then .leave s' 0
        else if chunk.cancel then .leave s' chunk.bytes.length else .next s') ∧
      Counts alg ctx s' ∧ s'.headerFound = true ∧ s'.fileSize = s.fileSize ∧
      s'.retry = s.retry ∧ s'.written = s.written ++ chunk.bytes := by
  have size : int32 (s.size + chunk.bytes.length) =
      int32 (s.written.length + chunk.bytes.length : Nat) := by
    rw [counts.size, int32, int32, int32, Int.bmod_add_bmod, Int.natCast_add]
  obtain ⟨h, updated, live, turn⟩ := handOver_live
    (s := { s with size := int32 (s.size + chunk.bytes.length) })
    counts.live chunk.bytes chunk.wcb fun s =>
      if s.size = s.fileSize then .leave s 0
      else if chunk.cancel then .leave s chunk.bytes.length else .next s
  refine ⟨{ s with size := int32 (s.size + chunk.bytes.length), hashCtx.ctxHash := h,
                   hashed := s.hashed ++ chunk.bytes, written := s.written ++ chunk.bytes },
    by rw [← size]; exact turn, ?_, found, rfl, rfl, rfl⟩
  exact ⟨live, by rw [size, length_append], by simp [counts.same], counts.method,
    fun no => absurd (no.symm.trans found) Bool.false_ne_true,
    fun _ => by rw [alg.update_append, counts.after found]; exact updated⟩

/-! ## Where a stream may be cut -/

/-- In the text of a chunk the name of the length field is followed by the number. -/
def LengthWhole (n : Nat) (bytes : Bytes) : Prop :=
  ∀ i < (cString bytes).length, contentLength <+: (cString bytes).drop i →
    SaysLength n ((cString bytes).drop (i + contentLength.length))

instance (n : Nat) (bytes : Bytes) : Decidable (LengthWhole n bytes) :=
  inferInstanceAs (Decidable (∀ i < _, _ → _))

/-- The chunk `bytes`, received after `got`, does not end inside the blank line; and if it is one of
the header's, then what it has of the length field it has whole. -/
def Response.Cut (r : Response) (got bytes : Bytes) : Prop :=
  ¬ (r.head.length < (got ++ bytes).length ∧ (got ++ bytes).length < r.head.length + 4) ∧
    (got.length ≤ r.head.length → LengthWhole r.body.length bytes)

instance (r : Response) (got bytes : Bytes) : Decidable (r.Cut got bytes) :=
  inferInstanceAs (Decidable (_ ∧ (_ → _)))

theorem findLength_whole {n : Nat} {fileSize : Int} (whole : LengthWhole n bytes)
    (short : n < 2 ^ 31)
    (known : fileSize = 0 ∨ fileSize = n) :
    findLength bytes fileSize = 0 ∨ findLength bytes fileSize = n := by
  unfold findLength
  split
  case isFalse set =>
    exact known
  case isTrue zero =>
  split
  case h_1 =>
    exact known
  case h_2 i found =>
  right
  have here : contentLength <+: (cString bytes).drop i := firstAt_some found
  have inside : i < (cString bytes).length := by
    have long := here.length_le
    rw [length_drop] at long
    have positive : 0 < contentLength.length := by decide
    omega
  have stated := whole i inside here
  obtain ⟨after, text⟩ := here
  rw [← drop_drop, ← text, drop_left] at stated
  have same : cString (bytes.drop i) = contentLength ++ after := by
    rw [cString_drop bytes inside.le, text]
  exact sscanfLength_of_saysLength stated short same fileSize

/-- A blank line that is found in a chunk is not before that of the header. -/
theorem Response.head_le (more : got ++ bytes <+: r.stream) {i : Nat}
    (found : strstr bytes blankLine = some i) :
    r.head.length ≤ got.length + i ∧ i + 4 ≤ bytes.length := by
  have four : blankLine.length = 4 := rfl
  have string : cString bytes <+: bytes := takeWhile_prefix _
  have text : blankLine <+: bytes.drop i := (firstAt_some found).trans (string.drop i)
  have inside := text.length_le
  rw [length_drop] at inside
  refine ⟨?_, by omega⟩
  by_contra early
  apply r.firstBlank
  have front := dropLast_prefix (r.head ++ blankLine)
  replace front := front.trans (prefix_append _ r.body)
  have here : blankLine <+: r.stream.drop (got.length + i) := by
    have later := more.drop (got.length + i)
    rw [← drop_drop, drop_left] at later
    exact text.trans later
  refine .trans (prefix_of_prefix_length_le here (front.drop _) ?_).isInfix (drop_suffix ..).isInfix
  rw [length_drop, length_dropLast, length_append]
  omega

/-- A chunk that ends before the blank line does has none. -/
theorem Response.strstr_none (more : got ++ bytes <+: r.stream)
    (early : (got ++ bytes).length < r.head.length + 4) : strstr bytes blankLine = none := by
  rw [Option.eq_none_iff_forall_ne_some]
  intro i found
  have place := r.head_le more found
  rw [length_append] at early
  omega

/-- A chunk that goes over the end of the header. -/
theorem strstr_over (tail : y <:+ r.head) (x : Bytes) :
    strstr (y ++ blankLine ++ x) blankLine = some y.length := by
  have text : (0 : UInt8) ∉ y ++ blankLine := by
    intro inside
    rcases mem_append.mp inside with inside | inside
    · exact r.noNul (tail.subset inside)
    · revert inside
      decide
  rw [strstr, cString_append text]
  apply firstAt_first (by decide)
  intro inside
  apply r.firstBlank
  obtain ⟨before, head⟩ := tail
  rw [← head]
  have drop : (before ++ y ++ blankLine).dropLast = before ++ (y ++ blankLine).dropLast := by
    rw [append_assoc, dropLast_append_of_ne_nil (by simp [blankLine])]
  rw [drop]
  exact inside.trans (suffix_append _ _).isInfix

/-- A chunk that brings the whole blank line. -/
theorem Response.blank_found (part : got <+: r.head) (more : got ++ bytes <+: r.stream)
    (past : r.head.length + 4 ≤ (got ++ bytes).length) :
    ∃ i, strstr bytes blankLine = some i ∧
      got ++ bytes = r.head ++ blankLine ++ bytes.drop (i + 4) := by
  have front : r.head ++ blankLine <+: got ++ bytes :=
    prefix_of_prefix_length_le (prefix_append _ _) more (by rwa [length_append])
  obtain ⟨y, head⟩ := part
  obtain ⟨x, brings⟩ := front
  have same : bytes = y ++ blankLine ++ x := by
    rw [← head, append_assoc, append_assoc] at brings
    rw [append_assoc]
    exact (append_cancel_left brings).symm
  refine ⟨y.length, by rw [same, strstr_over ⟨got, head⟩ x], ?_⟩
  rw [← brings, same, ← show (y ++ blankLine).length = y.length + 4 from length_append, drop_left]

/-! ## The loop's invariant -/

/-- After `got` of the stream was received: before the blank line nothing was handed over; after it,
what `got` has of the body. -/
structure Receiving (alg : HashAlg H) (r : Response) (ctx : HashCtx H) (got : Bytes)
    (s : Download H) : Prop where
  counts : Counts alg ctx s
  known : s.fileSize = 0 ∨ s.fileSize = r.body.length
  header : s.headerFound = false → got <+: r.head
  body : s.headerFound = true → got = r.head ++ blankLine ++ s.written

/-- `retry` may change at any time. -/
theorem Receiving.withRetry (ok : Receiving alg r ctx got s) (retry : Nat) :
    Receiving alg r ctx got { s with retry } :=
  { ok with counts := ok.counts.withRetry retry }

/-- Of the whole stream the body is handed over. -/
theorem Receiving.all (ok : Receiving alg r ctx r.stream s) :
    alg.update ctx.ctxHash r.body = some s.hashCtx.ctxHash := by
  cases found : s.headerFound with
  | false =>
    have long := (ok.header found).length_le
    have four : blankLine.length = 4 := rfl
    rw [Response.stream, length_append, length_append] at long
    omega
  | true =>
    rw [append_cancel_left (ok.body found)]
    exact ok.counts.after found

/-! ## The whole loop -/

/-- The bytes a sequence of calls of `recv` brings. -/
def bytesOf : List Recv → Bytes
  | [] => []
  | .data chunk :: events => chunk.bytes ++ bytesOf events
  | .closed :: events => bytesOf events
  | .error _ :: events => bytesOf events

/-- From `got` on the events bring the response, cut well; the peer closes only when all of it was
received. -/
def Response.Delivered (r : Response) : Bytes → List Recv → Prop
  | _, [] => True
  | got, .data chunk :: events =>
    (got ++ chunk.bytes <+: r.stream ∧ r.Cut got chunk.bytes) ∧
      r.Delivered (got ++ chunk.bytes) events
  | got, .closed :: _ => got = r.stream
  | got, .error _ :: events => r.Delivered got events

def Response.decidableDelivered (r : Response) :
    (got : Bytes) → (events : List Recv) → Decidable (r.Delivered got events)
  | _, [] => .isTrue trivial
  | got, .data chunk :: events =>
    have := r.decidableDelivered (got ++ chunk.bytes) events
    inferInstanceAs (Decidable (_ ∧ _))
  | got, .closed :: _ => inferInstanceAs (Decidable (got = r.stream))
  | got, .error _ :: events => r.decidableDelivered got events

instance (r : Response) (got : Bytes) (events : List Recv) : Decidable (r.Delivered got events) :=
  r.decidableDelivered got events

/-- How the loop can end when the response is delivered: it waits or the callback refuses, it
finishes with the whole of it, or it saves what it has. -/
inductive Ended (alg : HashAlg H) (r : Response) (ctx : HashCtx H) (breakpoint : Nat) :
    Outcome H → Prop where
  | silent {ret : Option DownloadRet} {s : Download H} (unfinished : ret ≠ some .finish) :
      Ended alg r ctx breakpoint ⟨ret, [], s⟩
  | finishes {s : Download H} (ok : Receiving alg r ctx r.stream s) :
      Ended alg r ctx breakpoint ⟨some .finish, [.breakpoint 0], s⟩
  | saves {ret : DownloadRet} {got : Bytes} {s : Download H} (unfinished : ret ≠ .finish)
      (ok : Receiving alg r ctx got s) (part : got <+: r.stream) : Ended alg r ctx breakpoint
        ⟨some ret, otaSaveState ((s.size + breakpoint) % 2 ^ 32).toNat s.hashCtx, s⟩

theorem recvLoop_ended (short : r.body.length < 2 ^ 31) (ok : Receiving alg r ctx got s)
    (part : got <+: r.stream) (delivered : r.Delivered got events) :
    Ended alg r ctx breakpoint (recvLoop alg breakpoint s events) := by
  induction events generalizing got s with
  | nil => exact .silent nofun
  | cons event events ih =>
    rw [recvLoop]
    cases event with
    | closed =>
      obtain rfl : got = r.stream := delivered
      exact .finishes ok
    | error eintr =>
      rw [recvTurn]
      by_cases again : s.retry ≤ 5
      · rw [if_pos again]
        exact ih (ok.withRetry _) part delivered
      rw [if_neg again]
      cases eintr with
      | true => exact ih (ok.withRetry 0) part delivered
      | false => exact .saves nofun (ok.withRetry 0) part
    | data chunk =>
      obtain ⟨⟨more, edge, whole⟩, later⟩ := delivered
      rw [recvTurn]
      by_cases found : s.headerFound = true
      · obtain ⟨s', turn, counts, found', read, -, written⟩ :=
          (ok.counts.withRetry 0).bodyChunk found chunk
        have all : got ++ chunk.bytes = r.head ++ blankLine ++ s'.written := by
          rw [ok.body found, written, append_assoc]
        have next : Receiving alg r ctx (got ++ chunk.bytes) s' :=
          ⟨counts, read ▸ ok.known, fun no => absurd (no.symm.trans found') Bool.false_ne_true,
            fun _ => all⟩
        have inBody : s'.written <+: r.body := by
          rwa [all, Response.stream, prefix_append_right_inj] at more
        rw [if_pos found, turn]
        by_cases refused : chunk.wcb < 0
        · rw [if_pos refused]
          exact .silent nofun
        rw [if_neg refused]
        by_cases full : int32 (s.written.length + chunk.bytes.length : Nat) = s.fileSize
        · -- a body of which something was received has a length other than zero
          rw [if_pos full]
          have positive : 0 < chunk.bytes.length := length_pos_of_ne_nil chunk.some_
          have fits := inBody.length_le
          have sum := congrArg length written
          rw [length_append] at sum
          rw [← sum, int32, Int.bmod_eq_of_le (by omega) (by omega)] at full
          have body := inBody.eq_of_length (by rcases ok.known with zero | length <;> omega)
          rw [all, body] at next
          exact .finishes next
        rw [if_neg full]
        cases chunk.cancel with
        | true =>
          have positive : 0 < chunk.bytes.length := length_pos_of_ne_nil chunk.some_
          simp only [afterLoop, if_true]
          rw [if_neg (by omega), if_neg (by omega)]
          exact .saves nofun next more
        | false => exact ih next more later
      · rw [Bool.not_eq_true] at found
        have head := ok.header found
        have known := findLength_whole (whole head.length_le) short ok.known
        rw [if_neg (by simp [found])]
        by_cases within : (got ++ chunk.bytes).length ≤ r.head.length
        · rw [headerChunk, r.strstr_none more (by omega)]
          refine ih ⟨{ ok.counts with }, known, fun _ => ?_, fun yes => ?_⟩ more later
          · exact prefix_of_prefix_length_le more
              ((prefix_append ..).trans (prefix_append ..)) within
          · exact absurd (found.symm.trans yes) Bool.false_ne_true
        · obtain ⟨i, seen, brings⟩ := r.blank_found head more (by omega)
          obtain ⟨s', turn, counts, found', read, -, written⟩ :=
            (ok.counts.withRetry 0).headerChunk found seen
          rw [turn]
          by_cases refused : chunk.wcb < 0
          · rw [if_pos refused]
            exact .silent nofun
          · rw [if_neg refused]
            exact ih ⟨counts, read ▸ known,
              fun no => absurd (no.symm.trans found') Bool.false_ne_true,
              fun _ => by rw [written, brings]⟩ more later

end AliosThings.Ota
