import AliosThings.Lib.Run
import AliosThings.Ota.Report

/-!
# What is stored between downloads

A run is a sequence of calls of `ota_download_start`, for any images, each of which may lose power
after any of its key writes. `Consistent` is what a resumed download relies on: under a breakpoint
other than zero the stored hash context has seen exactly the bytes before it, of the image that the
stored hash identifies.

An image is identified by what `ota_verify_hash_value` compares.
-/

namespace AliosThings.Ota

open Lib List Option

variable {H : Type} {cur last : HashParams} {method : HashType} {h : H} {bytes x got : Bytes}

/-! ## Images -/

/-- What `ota_verify_hash_value` compares of a hash. -/
def hashId (p : HashParams) : HashType × Bytes :=
  (p.hashMethod, cString (p.hashValue.take (compareLen p.hashMethod)))

theorem hashId_eq (zero : otaVerifyHashValue last cur = 0) : hashId last = hashId cur := by
  unfold otaVerifyHashValue strncmpSame at zero
  unfold hashId
  split at zero
  case isTrue same =>
    obtain ⟨method, value⟩ := same
    rw [method] at value ⊢
    rw [of_decide_eq_true value]
  case isFalse => cases zero

/-- The context of the hash `method` after `bytes`. -/
def hashAfter (alg : HashAlg H) (method : HashType) (bytes : Bytes) : Option H :=
  (alg.init method).bind fun h => alg.update h bytes

/-- Under a breakpoint the stored context is that of the image's first bytes. -/
def Consistent (alg : HashAlg H) (image : HashType × Bytes → Bytes) (kv : Kv H) : Prop :=
  kv.breakpoint ≠ 0 → kv.breakpoint ≤ (image (hashId kv.hash)).length ∧
      kv.ctxHead = some kv.hash.hashMethod ∧ kv.ctxBody.isSome ∧
      kv.ctxBody = hashAfter alg kv.hash.hashMethod ((image (hashId kv.hash)).take kv.breakpoint)

/-! ## Runs -/

/-- A call, what the server answers it, and after how many key writes power is lost, if it is. -/
structure Try where
  attempt : Attempt
  response : Response
  cut : Option Nat := none

/-- The key writes that take place. -/
def Try.writes (alg : HashAlg H) (kv : Kv H) (t : Try) : List (KvWrite H) :=
  match t.cut with
  | none => (otaDownloadStart alg kv t.attempt).writes
  | some k => (otaDownloadStart alg kv t.attempt).writes.take k

/-- Downloads from a server that sends each image from the byte that is asked for on. -/
def otaSystem (alg : HashAlg H) (image : HashType × Bytes → Bytes) : System (Kv H) Try where
  init kv := kv = {}
  allowed kv t :=
    t.response.body = (image (hashId t.attempt.cur)).drop (breakpointOf kv t.attempt.cur) ∧
      bytesOf t.attempt.recvs <+: t.response.stream
  step kv t := kv.setAll (t.writes alg kv)

/-- While there is a breakpoint only its image is downloaded, the response is delivered, power is
not lost between the writes of `ota_save_state`, and a length is an `int`. -/
def Try.Fair (image : HashType × Bytes → Bytes) (kv : Kv H) (t : Try) : Prop :=
  (kv.breakpoint ≠ 0 → otaVerifyHashValue kv.hash t.attempt.cur = 0) ∧
    t.response.Delivered [] t.attempt.recvs ∧ t.cut ≠ some 2 ∧ t.cut ≠ some 3 ∧
    (image (hashId t.attempt.cur)).length < 2 ^ 31
  deriving Decidable

instance (alg : HashAlg H) (image : HashType × Bytes → Bytes) (kv : Kv H) (t : Try) :
    Decidable ((otaSystem alg image).allowed kv t) :=
  inferInstanceAs (Decidable (_ ∧ _))

/-- The runs whose calls all meet the condition. -/
abbrev otaFair (alg : HashAlg H) (image : HashType × Bytes → Bytes) : System (Kv H) Try :=
  (otaSystem alg image).restrict fun kv t => t.Fair image kv

/-! ## One call -/

variable {alg : HashAlg H} {image : HashType × Bytes → Bytes} {kv : Kv H} {t : Try}
  {writes : List (KvWrite H)}

/-- A context that stands for the first `n` bytes of an image. -/
structure Stands (alg : HashAlg H) (method : HashType) (bytes : Bytes) (n : Nat)
    (ctx : HashCtx H) : Prop where
  ofMethod : ctx.hashMethod = method
  inside : n ≤ bytes.length
  goesOn : ∀ more, alg.update ctx.ctxHash more = hashAfter alg method (bytes.take n ++ more)
  live : alg.Live ctx.ctxHash
  after : n ≠ 0 → hashAfter alg method (bytes.take n) = some ctx.ctxHash

/-- The hash goes on where it stopped. -/
theorem hashAfter_append (alg : HashAlg H) (method : HashType) (a b : Bytes) :
    hashAfter alg method (a ++ b) =
      (hashAfter alg method a).bind fun h => alg.update h b := by
  unfold hashAfter
  cases alg.init method with
  | none => rfl
  | some h => exact alg.update_append h a b

theorem Stands.start (init : alg.init method = some h) (bytes : Bytes) :
    Stands alg method bytes 0 ⟨method, h⟩ where
  ofMethod := rfl
  inside := Nat.zero_le _
  goesOn more := by rw [hashAfter, init, take_zero, nil_append, bind_some]
  live := alg.init_update init
  after zero := absurd rfl zero

theorem Stands.resumed {n : Nat} (inside : n ≤ bytes.length)
    (after : hashAfter alg method (bytes.take n) = some h) :
    Stands alg method bytes n ⟨method, h⟩ where
  ofMethod := rfl
  inside := inside
  goesOn more := by rw [hashAfter_append, after, bind_some]
  live more := by
    have whole := hashAfter_append alg method (bytes.take n) more
    rw [after, bind_some] at whole
    rw [← whole]
    unfold hashAfter at after ⊢
    cases init : alg.init method with
    | none => simp [init] at after
    | some => exact alg.init_update init _
  after _ := after

/-- The download starts with the hash of what is there. -/
theorem firstContext_stands (consistent : Consistent alg image kv) {ctx : HashCtx H}
    (first : firstContext alg kv cur = some ctx) :
    Stands alg cur.hashMethod (image (hashId cur)) (breakpointOf kv cur) ctx := by
  unfold firstContext at first
  unfold breakpointOf
  split at first
  case isTrue goesOn =>
    rw [if_pos goesOn]
    obtain ⟨nonzero, verified⟩ : kv.breakpoint ≠ 0 ∧ otaVerifyHashValue kv.hash cur = 0 :=
      of_decide_eq_true goesOn
    have same := hashId_eq verified
    obtain ⟨inside, head, stored, after⟩ := consistent nonzero
    obtain ⟨h, body⟩ := isSome_iff_exists.mp stored
    have method : kv.hash.hashMethod = cur.hashMethod := congrArg Prod.fst same
    rw [method] at head after
    rw [same] at inside after
    cases first
    rw [otaGetLastHashContext, head, body]
    exact .resumed inside (after ▸ body)
  case isFalse afresh =>
    rw [if_neg afresh]
    obtain ⟨h, init, rfl⟩ := map_eq_some_iff.mp first
    exact .start init _

/-- What `ota_save_state` may store: a breakpoint with the context that stands for it. -/
def Savable (alg : HashAlg H) (image : HashType × Bytes → Bytes) (cur : HashParams) (n : Nat)
    (ctx : HashCtx H) : Prop :=
  n ≠ 0 → n ≤ (image (hashId cur)).length ∧ ctx.hashMethod = cur.hashMethod ∧
    hashAfter alg cur.hashMethod ((image (hashId cur)).take n) = some ctx.ctxHash

theorem take_append_of_prefix_drop {n : Nat} (part : x <+: bytes.drop n) :
    bytes.take n ++ x = bytes.take (n + x.length) := by
  rw [take_add, ← prefix_iff_eq_take.mp part]

/-- Whatever was received, the state of the loop may be saved. -/
theorem Receiving.savable {r : Response} {ctx : HashCtx H} {n : Nat}
    (stands : Stands alg cur.hashMethod (image (hashId cur)) n ctx)
    (body : r.body = (image (hashId cur)).drop n) (short : (image (hashId cur)).length < 2 ^ 31)
    {s : Download H} (ok : Receiving alg r ctx got s) (within : got <+: r.stream) :
    Savable alg image cur ((s.size + n) % 2 ^ 32).toNat s.hashCtx := by
  have inside := stands.inside
  have method := ok.counts.method.trans stands.ofMethod
  rw [ok.counts.size]
  cases found : s.headerFound with
  | false =>
    obtain ⟨empty, first⟩ := ok.counts.before found
    have same : ((int32 0 + (n : Int)) % 2 ^ 32).toNat = n := by
      simp only [int32, Int.zero_bmod]
      omega
    rw [empty, length_nil, Int.natCast_zero, same]
    exact fun nonzero => ⟨inside, method, first ▸ stands.after nonzero⟩
  | true =>
    rw [ok.body found, Response.stream, prefix_append_right_inj, body] at within
    have room : n + s.written.length ≤ (image (hashId cur)).length := by
      have fits := within.length_le
      rw [length_drop] at fits
      omega
    have same : ((int32 s.written.length + (n : Int)) % 2 ^ 32).toNat = n + s.written.length := by
      rw [int32, Int.bmod_eq_of_le (by omega) (by omega)]
      omega
    rw [same]
    refine fun _ => ⟨room, method, ?_⟩
    rw [← take_append_of_prefix_drop within, ← stands.goesOn, ok.counts.after found]

/-- The key writes of a call. -/
inductive Writes (alg : HashAlg H) (image : HashType × Bytes → Bytes) (cur : HashParams) :
    List (KvWrite H) → Prop where
  | nothing : Writes alg image cur []
  | hash : Writes alg image cur [.hash cur]
  | reset : Writes alg image cur [.hash cur, .breakpoint 0]
  | save {n ctx} (savable : Savable alg image cur n ctx) :
      Writes alg image cur (.hash cur :: otaSaveState n ctx)

/-- The request goes out, or the call ends without a result. -/
theorem otaDownloadRequest_cases (alg : HashAlg H) (kv : Kv H) (a : Attempt) :
    (∃ ctx, otaDownloadRequest alg kv a = .ok ctx ∧ firstContext alg kv a.cur = some ctx) ∨
      ∃ ret writes, otaDownloadRequest alg kv a = .error (ret, writes) ∧ ret ≠ .finish ∧
        (writes = [] ∨ writes = [.hash a.cur]) := by
  unfold otaDownloadRequest
  split
  · exact .inr ⟨_, _, rfl, nofun, .inl rfl⟩
  split
  · exact .inr ⟨_, _, rfl, nofun, .inl rfl⟩
  split
  · exact .inr ⟨_, _, rfl, nofun, .inl rfl⟩
  split
  case h_1 => exact .inr ⟨_, _, rfl, nofun, .inl rfl⟩
  case h_2 ctx first =>
    split
    · exact .inl ⟨ctx, rfl, first⟩
    · exact .inr ⟨_, _, rfl, nofun, .inr rfl⟩

/-- A fair call writes keys that go together, and if it reports completion then its context is that
of the whole image. -/
theorem otaDownloadStart_writes (consistent : Consistent alg image kv)
    (allowed : (otaSystem alg image).allowed kv t) (fair : t.Fair image kv) :
    Writes alg image t.attempt.cur (otaDownloadStart alg kv t.attempt).writes ∧
      ((otaDownloadStart alg kv t.attempt).ret = some .finish →
        hashAfter alg t.attempt.cur.hashMethod (image (hashId t.attempt.cur)) =
          some (otaDownloadStart alg kv t.attempt).state.hashCtx.ctxHash) := by
  obtain ⟨-, delivered, -, -, short⟩ := fair
  obtain ⟨body, -⟩ := allowed
  rcases otaDownloadRequest_cases alg kv t.attempt with
    ⟨ctx, begun, first⟩ | ⟨ret, writes, ended, unfinished, empty | hash⟩
  · have stands := firstContext_stands consistent first
    have shorter : t.response.body.length < 2 ^ 31 := by
      rw [body, length_drop]
      omega
    have start : Receiving alg t.response ctx [] { hashCtx := ctx } :=
      ⟨.start stands.live 0, .inl rfl, fun _ => nil_prefix, fun no => absurd no Bool.false_ne_true⟩
    have ended : Ended alg t.response ctx (breakpointOf kv t.attempt.cur) _ :=
      recvLoop_ended shorter start nil_prefix delivered
    rw [otaDownloadStart, begun]
    dsimp only
    generalize recvLoop alg _ _ _ = o at ended ⊢
    cases ended with
    | silent unfinished => exact ⟨.hash, fun finished => absurd finished unfinished⟩
    | finishes ok =>
      refine ⟨.reset, fun _ => ?_⟩
      rw [← ok.all, stands.goesOn, body, take_append_drop]
    | saves unfinished ok part =>
      exact ⟨.save (ok.savable stands body short part),
        fun finished => absurd (some.inj finished) unfinished⟩
  · rw [otaDownloadStart, ended, empty]
    exact ⟨.nothing, fun finished => absurd (some.inj finished) unfinished⟩
  · rw [otaDownloadStart, ended, hash]
    exact ⟨.hash, fun finished => absurd (some.inj finished) unfinished⟩

/-- Outside `ota_save_state` a loss of power leaves a prefix that is again one of these. -/
theorem Writes.take (ok : Writes alg image cur writes) {k : Nat} (two : k ≠ 2) (three : k ≠ 3) :
    Writes alg image cur (writes.take k) := by
  by_cases whole : writes.length ≤ k
  · rwa [take_of_length_le whole]
  cases ok with
  | nothing => exact absurd (Nat.zero_le k) whole
  | hash =>
    obtain rfl : k = 0 := by simpa using whole
    exact .nothing
  | reset =>
    match k with
    | 0 => exact .nothing
    | 1 => exact .hash
    | k + 2 => exact absurd (Nat.le_add_left 2 k) whole
  | save =>
    match k with
    | 0 => exact .nothing
    | 1 => exact .hash
    | 2 => exact absurd rfl two
    | 3 => exact absurd rfl three
    | k + 4 => exact absurd (Nat.le_add_left 4 k) whole

/-- Such writes keep the keys consistent, if a breakpoint belongs to the image. -/
theorem Writes.consistent (ok : Writes alg image cur writes) (before : Consistent alg image kv)
    (same : kv.breakpoint ≠ 0 → hashId kv.hash = hashId cur) :
    Consistent alg image (kv.setAll writes) := by
  cases ok with
  | nothing => exact before
  | hash =>
    intro nonzero
    have id := same nonzero
    have method : kv.hash.hashMethod = cur.hashMethod := congrArg Prod.fst id
    have stored := before nonzero
    rw [id, method] at stored
    exact stored
  | reset =>
    intro nonzero
    exact absurd rfl nonzero
  | save savable =>
    intro nonzero
    obtain ⟨inside, method, after⟩ := savable nonzero
    exact ⟨inside, congrArg some method, rfl, after.symm⟩

/-! ## Every run -/

/-- In every run of calls that meet their condition, the stored context belongs to the breakpoint;
and a download that completes has hashed the whole image. -/
theorem resume_consistent {alg : HashAlg H} {image : HashType × Bytes → Bytes} {kv : Kv H}
    (reach : (otaFair alg image).Reach kv) :
    Consistent alg image kv ∧ ∀ t, (otaFair alg image).allowed kv t →
        (otaDownloadStart alg kv t.attempt).ret = some .finish →
        hashAfter alg t.attempt.cur.hashMethod (image (hashId t.attempt.cur)) =
          some (otaDownloadStart alg kv t.attempt).state.hashCtx.ctxHash := by
  have consistent : Consistent alg image kv := by
    apply reach.invariant
    · rintro kv rfl nonzero
      exact absurd rfl nonzero
    rintro kv t before ⟨allowed, fair⟩
    obtain ⟨ok, -⟩ := otaDownloadStart_writes before allowed fair
    obtain ⟨same, -, two, three, -⟩ := fair
    have image nonzero := hashId_eq (same nonzero)
    show Consistent _ _ (kv.setAll (t.writes alg kv))
    unfold Try.writes
    split
    case h_1 => exact ok.consistent before image
    case h_2 k lost =>
      apply Writes.consistent (ok.take _ _) before image
      · exact fun is => two (lost.trans (congrArg some is))
      · exact fun is => three (lost.trans (congrArg some is))
  refine ⟨consistent, ?_⟩
  rintro t ⟨allowed, fair⟩
  exact (otaDownloadStart_writes consistent allowed fair).2

/-- Two images, the first for the hash `A`. The second has a blank line among its bytes. -/
def twoImages (id : HashType × Bytes) : Bytes :=
  if id.2 = [65] then [104, 105] else [120] ++ blankLine ++ [121]

/-- The answer to a request for the rest of the first image. -/
def iResponse : Response where
  head := [79, 75, 13, 10] ++ lengthLine [49]
  body := [105]
  noNul := by decide
  firstBlank := by decide
  field := ⟨[79, 75], lengthLine [49], [], rfl, .inl rfl, [32], [49], [], rfl, by simp, by decide,
    by decide, by decide⟩

/-- The answer to a request for the second image. -/
def xyResponse : Response where
  head := [79, 75, 13, 10] ++ lengthLine [54]
  body := [120] ++ blankLine ++ [121]
  noNul := by decide
  firstBlank := by decide
  field := ⟨[79, 75], lengthLine [54], [], rfl, .inl rfl, [32], [54], [], rfl, by simp, by decide,
    by decide, by decide⟩

def noKeys : Kv Bytes := {}

/-- The first image as far as the connection holds. -/
def brokenTry : Try := { attempt := firstAttempt brokenRecvs, response := hiResponse }

/-- The rest of it. -/
def restTry : Try where
  attempt := firstAttempt
    [.data { bytes := iResponse.head ++ blankLine }, .data { bytes := iResponse.body }]
  response := iResponse

theorem resume_consistent_rest :
    let kv := (otaFair plainHash twoImages).run noKeys [brokenTry]
    kv.breakpoint = 1 ∧ Consistent plainHash twoImages kv ∧
      (otaDownloadStart plainHash kv restTry.attempt).ret = some .finish ∧
      some [104, 105] =
        some (otaDownloadStart plainHash kv restTry.attempt).state.hashCtx.ctxHash := by
  have reach : (otaFair plainHash twoImages).Reach
      ((otaFair plainHash twoImages).run noKeys [brokenTry]) :=
    System.Reach.run (.init rfl) (by decide +kernel)
  have finished : (otaDownloadStart plainHash
      ((otaFair plainHash twoImages).run noKeys [brokenTry]) restTry.attempt).ret =
      some .finish := by decide +kernel
  obtain ⟨consistent, whole⟩ := resume_consistent reach
  exact ⟨rfl, consistent, finished, whole restTry (by decide +kernel) finished⟩

/-- The second image is asked for under the breakpoint of the first, and the request fails; power is
lost after the breakpoint was stored; a chunk ends inside the blank line and the body has one. -/
def badRuns : List (List Try) :=
  [[brokenTry,
      { attempt := { cur := ⟨.md5, [66]⟩, sent := false }, response := xyResponse }],
    [{ brokenTry with cut := some 2 }],
    [{ attempt := { cur := ⟨.md5, [66]⟩,
                    recvs := .data { bytes := xyResponse.head ++ [13, 10] } ::
                      .data { bytes := [13, 10] ++ xyResponse.body } ::
                      replicate 7 (.error false) },
       response := xyResponse }]]

theorem not_resume_consistent :
    badRuns.Forall fun tries =>
      (otaSystem plainHash twoImages).Reach ((otaSystem plainHash twoImages).run noKeys tries) ∧
        ¬ Consistent plainHash twoImages ((otaSystem plainHash twoImages).run noKeys tries) := by
  have wrong (kv : Kv Bytes) (nonzero : kv.breakpoint ≠ 0)
      (differs : kv.ctxBody ≠ some ((twoImages (hashId kv.hash)).take kv.breakpoint)) :
      ¬ Consistent plainHash twoImages kv :=
    fun consistent => differs (consistent nonzero).2.2.2
  rw [forall_iff_forall_mem]
  intro tries mem
  have runs : (otaSystem plainHash twoImages).Runs noKeys tries := by
    revert tries
    decide +kernel
  refine ⟨System.Reach.run (.init rfl) runs, wrong _ ?_ ?_⟩
  · revert tries
    decide +kernel
  · revert tries
    decide +kernel

end AliosThings.Ota
