import AliosThings.Ota.Body

/-!
# The body, and the report of its completion

What the write callback and the hash are given of a response, over every way to cut the stream into
chunks; and which result the call reports, over every sequence of data, errors and a close.
-/

namespace AliosThings.Ota

open Lib List

variable {H : Type} {alg : HashAlg H} {r : Response} {ctx : HashCtx H} {chunk : Chunk} {got : Bytes}
  {breakpoint : Nat} {events : List Recv} {kv : Kv H} {a : Attempt} {s : Download H}

/-! ## The body -/

/-- After `n` bytes of the body the chunks are received to the last: before it, the number of bytes
is not the length that was read. -/
def Through (fileSize : Int) : Nat → List Chunk → Prop
  | _, [] => True
  | n, chunk :: chunks =>
    (int32 (n + chunk.bytes.length : Nat) = fileSize → chunks = []) ∧
      Through fileSize (n + chunk.bytes.length) chunks

/-- After `got` bytes of the header, from which `fileSize` was read, one of the chunks brings the
blank line, and those after it are received to the last. -/
def Response.Arrives (r : Response) : Nat → Int → List Chunk → Prop
  | _, _, [] => False
  | got, fileSize, chunk :: chunks =>
    if got + chunk.bytes.length ≤ r.head.length then
      r.Arrives (got + chunk.bytes.length) (findLength chunk.bytes fileSize) chunks
    else
      r.head.length + 4 ≤ got + chunk.bytes.length ∧
        Through (findLength chunk.bytes fileSize) (got + chunk.bytes.length - (r.head.length + 4))
          chunks

theorem afterLoop_state (s : Download H) (nbytes : Int) :
    (afterLoop breakpoint s nbytes).state = s := by
  unfold afterLoop
  split
  · rfl
  · split <;> rfl

section

variable {chunks : List Chunk} (quiet : ∀ chunk ∈ chunks, 0 ≤ chunk.wcb ∧ chunk.cancel = false)
include quiet

variable (breakpoint) in
/-- After the blank line, all chunks are handed over unless the loop is left before. -/
theorem recvLoop_body (counts : Counts alg ctx s) (found : s.headerFound = true) :
    let o := (recvLoop alg breakpoint s (chunks.map .data)).state
    o.hashed = o.written ∧ o.written <+: s.written ++ chunks.flatMap Chunk.bytes ∧
      (o.written = s.written ++ chunks.flatMap Chunk.bytes ↔
        Through s.fileSize s.written.length chunks) := by
  induction chunks generalizing s with
  | nil => exact ⟨counts.same, by simp [recvLoop], by simp [recvLoop, Through]⟩
  | cons chunk chunks ih =>
    obtain ⟨accepted, goesOn⟩ := quiet chunk mem_cons_self
    obtain ⟨s', turn, counts', found', fileSize, -, written⟩ :=
      (counts.withRetry 0).bodyChunk found chunk
    rw [if_neg (Int.not_lt.mpr accepted), goesOn] at turn
    rw [map_cons, recvLoop, recvTurn, if_pos found, turn, flatMap_cons, ← append_assoc, Through]
    by_cases full : int32 (s.written.length + chunk.bytes.length : Nat) = s.fileSize
    · rw [if_pos full]
      simp only [afterLoop_state, written, full, true_implies]
      refine ⟨counts'.same.trans written, prefix_append .., fun all => ?_, fun through => ?_⟩
      · have none : chunks = [] := by
          by_contra some_
          obtain ⟨next, later, rfl⟩ := exists_cons_of_ne_nil some_
          have nothing := self_eq_append_right.mp all
          simp [next.some_] at nothing
        exact ⟨none, by rw [none]; trivial⟩
      · simp [through.1]
    · rw [if_neg full]
      obtain ⟨same, part, all⟩ := ih (fun chunk inside => quiet chunk (mem_cons_of_mem _ inside))
        counts' found'
      rw [written] at part all
      refine ⟨same, part, all.trans ?_⟩
      rw [fileSize, length_append]
      exact (and_iff_right fun same => absurd same full).symm

/-- If the header's blank line was missed, nothing is handed over or less than the body. -/
theorem recvLoop_late (live : alg.Live ctx.ctxHash) (late : r.head.length < got.length)
    (whole : got ++ chunks.flatMap Chunk.bytes = r.stream) (fileSize : Int) :
    let o := (recvLoop alg breakpoint { fileSize, hashCtx := ctx } (chunks.map .data)).state
    o.hashed = o.written ∧ (o.written = r.body ↔ r.body = []) := by
  induction chunks generalizing got fileSize with
  | nil => exact ⟨rfl, eq_comm⟩
  | cons chunk chunks ih =>
    have accepted := (quiet chunk mem_cons_self).1
    have later (chunk : Chunk) (inside : chunk ∈ chunks) := quiet chunk (mem_cons_of_mem _ inside)
    rw [flatMap_cons, ← append_assoc] at whole
    rw [map_cons, recvLoop, recvTurn, if_neg Bool.false_ne_true]
    cases found : strstr chunk.bytes blankLine with
    | none =>
      rw [headerChunk, found]
      exact ih later (by rw [length_append]; omega) whole _
    | some i =>
      obtain ⟨s, turn, counts, header, -, -, written⟩ :=
        (Counts.start live fileSize).headerChunk rfl found
      rw [turn, if_neg (Int.not_lt.mpr accepted)]
      obtain ⟨same, part, -⟩ := recvLoop_body breakpoint later counts header
      have less := part.length_le
      have inside := (r.head_le ⟨_, whole⟩ found).2
      have total := congrArg length whole
      have four : blankLine.length = 4 := rfl
      rw [written, length_append, length_drop] at less
      simp only [Response.stream, length_append] at total
      refine ⟨same, fun all => ?_, fun none => ?_⟩
      · rw [all] at less
        omega
      · rw [none] at total
        simp only [length_nil] at total
        omega

variable (breakpoint) in
/-- From the header on, the body is handed over exactly if it is empty or arrives. -/
theorem recvLoop_arrives (live : alg.Live ctx.ctxHash) (part : got <+: r.head)
    (whole : got ++ chunks.flatMap Chunk.bytes = r.stream) (fileSize : Int) :
    let o := (recvLoop alg breakpoint { fileSize, hashCtx := ctx } (chunks.map .data)).state
    o.hashed = o.written ∧
      (o.written = r.body ↔ r.body = [] ∨ r.Arrives got.length fileSize chunks) := by
  have four : blankLine.length = 4 := rfl
  induction chunks generalizing got fileSize with
  | nil =>
    have total := congrArg length whole
    have short := part.length_le
    simp only [flatMap_nil, append_nil, Response.stream, length_append] at total
    omega
  | cons chunk chunks ih =>
    have accepted := (quiet chunk mem_cons_self).1
    have later (chunk : Chunk) (inside : chunk ∈ chunks) := quiet chunk (mem_cons_of_mem _ inside)
    rw [flatMap_cons, ← append_assoc] at whole
    have more : got ++ chunk.bytes <+: r.stream := ⟨_, whole⟩
    have size : (got ++ chunk.bytes).length = got.length + chunk.bytes.length := length_append
    rw [map_cons, recvLoop, recvTurn, if_neg Bool.false_ne_true, Response.Arrives, ← size]
    by_cases past : r.head.length + 4 ≤ (got ++ chunk.bytes).length
    · obtain ⟨i, found, brings⟩ := r.blank_found part more past
      obtain ⟨s, turn, counts, header, read, -, written⟩ :=
        (Counts.start live fileSize).headerChunk rfl found
      rw [turn, if_neg (Int.not_lt.mpr accepted), if_neg (by omega), and_iff_right past]
      have handed : s.written.length = (got ++ chunk.bytes).length - (r.head.length + 4) := by
        rw [written, brings, length_append, length_append, four, Nat.add_sub_cancel_left]
      have body : s.written ++ chunks.flatMap Chunk.bytes = r.body := by
        rw [brings, append_assoc, Response.stream, ← written] at whole
        exact append_cancel_left whole
      obtain ⟨same, front, all⟩ := recvLoop_body breakpoint later counts header
      rw [body, handed, read] at all
      rw [body] at front
      refine ⟨same, fun written => .inr (all.mp written), ?_⟩
      rintro (none | through)
      · rw [none, prefix_nil] at front
        exact front.trans none.symm
      · exact all.mpr through
    · rw [headerChunk, r.strstr_none more (Nat.not_le.mp past)]
      by_cases within : (got ++ chunk.bytes).length ≤ r.head.length
      · rw [if_pos within]
        exact ih later (prefix_of_prefix_length_le more
          ((prefix_append ..).trans (prefix_append ..)) within) whole _
      · simp only [if_neg within, past, false_and, or_false]
        exact recvLoop_late later live (Nat.not_le.mp within) whole _

end

/-- The body is handed over, to the write callback and to the hash, exactly if it is empty or
arrives. -/
theorem body_handed_over_iff {chunks : List Chunk} (begun : otaDownloadRequest alg kv a = .ok ctx)
    (live : alg.Live ctx.ctxHash) (received : a.recvs = chunks.map .data)
    (quiet : ∀ chunk ∈ chunks, 0 ≤ chunk.wcb ∧ chunk.cancel = false)
    (whole : chunks.flatMap Chunk.bytes = r.stream) :
    ((otaDownloadStart alg kv a).state.written = r.body ∧
        (otaDownloadStart alg kv a).state.hashed = r.body) ↔
      r.body = [] ∨ r.Arrives 0 0 chunks := by
  have state : (otaDownloadStart alg kv a).state =
      (recvLoop alg (breakpointOf kv a.cur) { hashCtx := ctx } (chunks.map .data)).state := by
    rw [otaDownloadStart, begun, received]
  obtain ⟨same, all⟩ := recvLoop_arrives (breakpointOf kv a.cur) quiet live
    nil_prefix whole 0
  rw [state, same, and_self]
  exact all

/-- A hash whose context is the input so far. -/
def plainHash : HashAlg Bytes where
  zero := []
  init _ := some []
  update h a := some (h ++ a)
  update_append h a b := by simp
  init_update _ _ := rfl

/-- `Content-Length: n` with the digits of `n`. -/
def lengthLine (digits : Bytes) : Bytes := contentLength ++ [32] ++ digits

/-- A response with the body `hi`. -/
def hiResponse : Response where
  head := [79, 75, 13, 10] ++ lengthLine [50]
  body := [104, 105]
  noNul := by decide
  firstBlank := by decide
  field := ⟨[79, 75], lengthLine [50], [], rfl, .inl rfl, [32], [50], [], rfl, by simp, by decide,
    by decide, by decide⟩

/-- A call that asks for an image for the first time. -/
def firstAttempt (recvs : List Recv) : Attempt := { cur := ⟨.md5, [65]⟩, recvs }

/-- The name of the field and its number in different chunks, and the body in two. -/
def hiChunks : List Chunk :=
  [{ bytes := [79, 75, 13, 10] ++ contentLength.take 7 },
    { bytes := contentLength.drop 7 ++ [32, 50] ++ blankLine ++ [104] }, { bytes := [105] }]

theorem body_handed_over_hi :
    (otaDownloadStart plainHash {} (firstAttempt (hiChunks.map .data))).state.written = [104, 105] ∧
      (otaDownloadStart plainHash {} (firstAttempt (hiChunks.map .data))).state.hashed =
        [104, 105] :=
  (body_handed_over_iff (r := hiResponse)
    (rfl : otaDownloadRequest plainHash {} (firstAttempt (hiChunks.map .data)) = .ok ⟨.md5, []⟩)
    (fun _ => rfl) rfl (by decide +kernel) (by decide +kernel)).mpr
    (.inr ⟨by decide, fun _ => rfl, trivial⟩)

/-- A response with a body of twelve bytes. -/
def longResponse : Response where
  head := [79, 75, 13, 10] ++ lengthLine [49, 50]
  body := replicate 12 97
  noNul := by decide
  firstBlank := by decide
  field := ⟨[79, 75], lengthLine [49, 50], [], rfl, .inl rfl, [32], [49, 50], [], rfl, by simp,
    by decide, by decide, by decide⟩

/-- A response with a field `X-Content-Length: 1` in front. -/
def otherResponse : Response where
  head := [79, 75, 13, 10, 88, 45] ++ lengthLine [49] ++ [13, 10] ++ lengthLine [50]
  body := [104, 105]
  noNul := by decide
  firstBlank := by decide
  field := ⟨[79, 75, 13, 10, 88, 45] ++ lengthLine [49], lengthLine [50], [], rfl, .inl rfl, [32],
    [50], [], rfl, by simp, by decide, by decide, by decide⟩

/-- A cut inside the blank line, a cut inside the number, and a field whose name ends as that of the
length. -/
def badCuts : List (Response × List Chunk) :=
  [(hiResponse, [{ bytes := hiResponse.head ++ [13, 10] }, { bytes := [13, 10, 104, 105] }]),
    (longResponse, [{ bytes := [79, 75, 13, 10] ++ lengthLine [49] },
      { bytes := [50] ++ blankLine }, { bytes := [97] }, { bytes := replicate 11 97 }]),
    (otherResponse, [{ bytes := otherResponse.head ++ blankLine }, { bytes := [104] },
      { bytes := [105] }])]

/-- Cut badly, a response is handed over in part or not at all, and no error is reported. -/
theorem not_body_handed_over :
    badCuts.Forall fun p =>
      (∀ chunk ∈ p.2, 0 ≤ chunk.wcb ∧ chunk.cancel = false) ∧ bytesOf (p.2.map .data) = p.1.stream ∧
        (otaDownloadStart plainHash {} (firstAttempt (p.2.map .data))).ret ∈ [none, some .finish] ∧
        (otaDownloadStart plainHash {} (firstAttempt (p.2.map .data))).state.written ≠ p.1.body ∧
        (otaDownloadStart plainHash {} (firstAttempt (p.2.map .data))).state.hashed ≠ p.1.body := by
  decide +kernel

/-! ## The report -/

/-- Of the calls of `recv` that are made: it returns 0 only when `n` bytes have been handed over; if
their number is the length that was read then it is `n`; and the write callback accepts them. Here
`found` is whether a blank line was seen, `fileSize` the length that was read, `handed` the number
of bytes since, and `retry` the number of errors in a row. -/
def Reports (n : Nat) (found : Bool) (fileSize : Int) (handed retry : Nat) : List Recv → Prop
  | [] => True
  | .closed :: _ => handed = n
  | .error eintr :: events =>
    if retry ≤ 5 then Reports n found fileSize handed (retry + 1) events
    else eintr = true → Reports n found fileSize handed 0 events
  | .data chunk :: events =>
    if found then
      0 ≤ chunk.wcb ∧
        if int32 (handed + chunk.bytes.length : Nat) = fileSize then handed + chunk.bytes.length = n
        else chunk.cancel = false →
          Reports n found fileSize (handed + chunk.bytes.length) 0 events
    else
      match strstr chunk.bytes blankLine with
      | none => Reports n found (findLength chunk.bytes fileSize) handed 0 events
      | some i =>
        0 ≤ chunk.wcb ∧ Reports n true (findLength chunk.bytes fileSize)
          (chunk.bytes.length - (i + 4)) 0 events

/-- Completion is reported for the whole body, and the breakpoint reset; or failure or cancellation,
and how far the download came is saved. -/
def Reported (r : Response) (breakpoint : Nat) (o : Outcome H) : Prop :=
  ∀ ret, o.ret = some ret →
    (ret = .finish ∧ o.state.written = r.body ∧ o.writes = [.breakpoint 0]) ∨
      ((ret = .failed ∨ ret = .cancel) ∧ o.writes =
        otaSaveState ((o.state.written.length + breakpoint) % 2 ^ 32) o.state.hashCtx)

/-- What was handed over is what was received after some place, not before the body. -/
def Response.Placed (r : Response) (got : Bytes) (s : Download H) : Prop :=
  ∃ front, got = front ++ s.written ∧
    (s.headerFound = true → r.head.length + 4 ≤ front.length)

theorem Response.Placed.body_iff (counts : Counts alg ctx s) (placed : r.Placed got s)
    (part : got <+: r.stream) :
    s.written = r.body ↔ s.written.length = r.body.length := by
  refine ⟨congrArg length, fun length => ?_⟩
  obtain ⟨front, rfl, after⟩ := placed
  cases found : s.headerFound with
  | false =>
    rw [(counts.before found).1] at length ⊢
    exact (length_eq_zero_iff.mp length.symm).symm
  | true =>
    have four : blankLine.length = 4 := rfl
    have total := part.length_le
    have before := after found
    simp only [Response.stream, length_append] at total
    have whole := part.eq_of_length_le (by simp only [Response.stream, length_append]; omega)
    exact (append_inj_right' whole length)

theorem reported_finish (counts : Counts alg ctx s) (placed : r.Placed got s)
    (part : got <+: r.stream) :
    Reported r breakpoint ⟨some .finish, [.breakpoint 0], s⟩ ↔
      s.written.length = r.body.length := by
  rw [← placed.body_iff counts part]
  constructor
  · intro reported
    rcases reported _ rfl with ⟨-, body, -⟩ | ⟨no | no, -⟩
    · exact body
    · cases no
    · cases no
  · rintro body _ ⟨⟩
    exact .inl ⟨rfl, body, rfl⟩

theorem not_reported_fail (s : Download H) : ¬ Reported r breakpoint ⟨some .fail, [], s⟩ := by
  intro reported
  rcases reported _ rfl with ⟨no, -⟩ | ⟨no | no, -⟩ <;> cases no

/-- What `ota_save_state` stores. -/
theorem Counts.saved (counts : Counts alg ctx s) {ret : DownloadRet}
    (isRet : ret = .failed ∨ ret = .cancel) :
    Reported r breakpoint
      ⟨some ret, otaSaveState ((s.size + breakpoint) % 2 ^ 32).toNat s.hashCtx, s⟩ := by
  rintro _ ⟨⟩
  refine .inr ⟨isRet, ?_⟩
  have same : ((s.size + breakpoint) % 2 ^ 32).toNat =
      (s.written.length + breakpoint) % 2 ^ 32 := by
    rw [counts.size, int32, Int.bmod]
    split <;> omega
  rw [same]

variable (breakpoint) in
/-- The loop reports rightly exactly if the events say so. -/
theorem recvLoop_reported (counts : Counts alg ctx s) (placed : r.Placed got s)
    (part : got ++ bytesOf events <+: r.stream) :
    Reported r breakpoint (recvLoop alg breakpoint s events) ↔
      Reports r.body.length s.headerFound s.fileSize s.written.length s.retry events := by
  induction events generalizing got s with
  | nil => exact ⟨fun _ => trivial, fun _ _ => nofun⟩
  | cons event events ih =>
    have received : got <+: r.stream := (prefix_append ..).trans part
    cases event with
    | closed => exact reported_finish counts placed received
    | error eintr =>
      rw [recvLoop, recvTurn, Reports]
      by_cases again : s.retry ≤ 5
      · rw [if_pos again, if_pos again]
        exact ih (counts.withRetry _) placed part
      rw [if_neg again, if_neg again]
      cases eintr with
      | true =>
        simp only [if_true, forall_const]
        exact ih (counts.withRetry _) placed part
      | false => exact iff_of_true ((counts.withRetry 0).saved (.inl rfl)) fun no => by cases no
    | data chunk =>
      rw [bytesOf, ← append_assoc] at part
      have received : got ++ chunk.bytes <+: r.stream := (prefix_append ..).trans part
      obtain ⟨front, is, after⟩ := placed
      rw [recvLoop, recvTurn, Reports]
      by_cases found : s.headerFound = true
      · obtain ⟨s', turn, counts', found', read, retry, written⟩ :=
          (counts.withRetry 0).bodyChunk found chunk
        have placed' : r.Placed (got ++ chunk.bytes) s' :=
          ⟨front, by rw [is, written, append_assoc], fun _ => after found⟩
        have handed : s'.written.length = s.written.length + chunk.bytes.length := by
          rw [written, length_append]
        rw [if_pos found, if_pos found, turn, ← handed]
        by_cases no : chunk.wcb < 0
        · rw [if_pos no]
          exact iff_of_false (not_reported_fail s') fun yes => absurd yes.1 (Int.not_le.mpr no)
        rw [if_neg no, and_iff_right (Int.not_lt.mp no)]
        by_cases full : int32 s'.written.length = s.fileSize
        · rw [if_pos full, if_pos full]
          exact reported_finish counts' placed' received
        rw [if_neg full, if_neg full]
        cases cancel : chunk.cancel with
        | true =>
          refine iff_of_true ?_ fun no => by cases no
          have positive : 0 < chunk.bytes.length := length_pos_of_ne_nil chunk.some_
          simp only [afterLoop, if_true]
          rw [if_neg (by omega), if_neg (by omega)]
          exact counts'.saved (.inr rfl)
        | false =>
          simp only [Bool.false_eq_true, if_false, forall_const]
          have later := ih counts' placed' part
          rwa [found', read, retry, ← found] at later
      · rw [if_neg found, if_neg found]
        rw [Bool.not_eq_true] at found
        cases seen : strstr chunk.bytes blankLine with
        | none =>
          rw [headerChunk, seen]
          refine ih (s := { s with fileSize := findLength chunk.bytes s.fileSize, retry := 0 })
            { counts with }
            ⟨got ++ chunk.bytes, by simp [(counts.before found).1],
              fun yes => absurd (found.symm.trans yes) Bool.false_ne_true⟩ part
        | some i =>
          obtain ⟨s', turn, counts', found', read, retry, written⟩ :=
            (counts.withRetry 0).headerChunk found seen
          obtain ⟨late, inside⟩ := r.head_le received seen
          have placed' : r.Placed (got ++ chunk.bytes) s' := by
            refine ⟨got ++ chunk.bytes.take (i + 4), ?_, fun _ => ?_⟩
            · rw [written, append_assoc, take_append_drop]
            · rw [length_append, length_take]
              omega
          rw [turn]
          show _ ↔ 0 ≤ chunk.wcb ∧ _
          by_cases no : chunk.wcb < 0
          · rw [if_pos no]
            exact iff_of_false (not_reported_fail s') fun yes => absurd yes.1 (Int.not_le.mpr no)
          rw [if_neg no, and_iff_right (Int.not_lt.mp no), ← length_drop, ← written]
          have later := ih counts' placed' part
          rwa [found', read, retry] at later

/-- The connection breaks inside the body. -/
def brokenRecvs : List Recv :=
  .data { bytes := hiResponse.head ++ blankLine ++ [104] } :: replicate 7 (.error false)

/-- The peer closes before the body, or inside it. -/
def closedRecvs : List (List Recv) :=
  [[.data { bytes := hiResponse.head ++ blankLine }, .closed],
    [.data { bytes := hiResponse.head ++ blankLine ++ [104] }, .closed]]

end AliosThings.Ota
