import AliosThings.Alcs.Secure
import Mathlib.Data.List.Nodup

/-!
# Requests and the resources they name (`protocol/alcs/CoAPResource.c`, `CoAPMessage.c`)

Resources are found by the digests of their paths. The path of a request is put together in a
buffer of `COAP_MSG_MAX_PATH_LEN` bytes: an option that does not fit is left out, and what is looked
up ends at the first zero.
-/

namespace AliosThings.Alcs

open Lib List

/-- `CoAPResource`; of the path it was registered with the node keeps the digest, by which nodes are
compared. -/
structure Resource (κ : Type) where
  path : Bytes
  permission : Nat
  callback : Option κ

/-- The `CoAPList` of the resources. -/
structure Resources (κ : Type) where
  list : List (Resource κ)
  count : Nat
  maxcount : Nat

def coapMsgMaxPathLen : Nat := 128
def coapOptionUriPath : Nat := 11

section Model

variable {δ κ : Type} [DecidableEq δ] (digest : Bytes → δ)

/-- The first node with the digest of `new` is written over. -/
def rewriteNode (new : Resource κ) : List (Resource κ) → List (Resource κ)
  | [] => []
  | node :: rest =>
    if digest new.path = digest node.path then { new with path := node.path } :: rest
    else node :: rewriteNode new rest

/-- `CoAPResource_register` and `CoAPResource_create`; whether there is memory for a new node. -/
def coapResourceRegister (rs : Resources κ) (new : Resource κ) (malloc : Bool) : Resources κ :=
  if rs.count ≥ rs.maxcount then rs
  else if rs.list.any (digest new.path = digest ·.path) then
    { rs with list := rewriteNode digest new rs.list }
  else if new.path.length ≥ coapMsgMaxPathLen ∨ malloc = false then rs
  else { rs with list := rs.list ++ [new], count := rs.count + 1 }

/-- `CoAPResourceByPath_get` -/
def coapResourceByPathGet (rs : Resources κ) (path : Bytes) : Option (Resource κ) :=
  rs.list.find? (digest path = digest ·.path)

/-- `strncpy` of all bytes of `val`. -/
def strncpy (val : Bytes) : Bytes :=
  cString val ++ replicate (val.length - (cString val).length) 0

/-- What one option adds to the buffer. -/
def addOption (path : Bytes) (option : CoapOption) : Bytes :=
  if coapOptionUriPath = option.num ∧ coapMsgMaxPathLen - 1 ≥ path.length + option.val.length then
    path ++ 47 :: strncpy option.val
  else path

/-- The string that is looked up, where `stack` is what lies behind the buffer. -/
def requestPath (stack : Bytes) (options : List CoapOption) : Bytes :=
  let path := options.foldl addOption []
  cString (path ++ replicate (coapMsgMaxPathLen - path.length) 0 ++ stack)

/-- The permission has the bit of the method. -/
def Allows (permission code : Nat) : Prop := permission &&& 1 <<< (code - 1) > 0
  deriving Decidable

inductive Outcome (κ : Type) where
  | called (callback : κ)
  | notFound
  | methodNotAllowed
  deriving DecidableEq

/-- `CoAPRequestMessage_handle` -/
def coapRequestMessageHandle (rs : Resources κ) (stack : Bytes) (code : Nat)
    (options : List CoapOption) : Outcome κ :=
  match coapResourceByPathGet digest rs (requestPath stack options) with
  | none => .notFound
  | some resource =>
    match resource.callback with
    | none => .methodNotAllowed
    | some callback =>
      if Allows resource.permission code then .called callback else .methodNotAllowed

/-- A server on which resources are registered; their paths are strings. -/
def server : System (Resources κ) (Resource κ × Bool) where
  init rs := rs.list = [] ∧ rs.count = 0
  allowed _ r := (0 : UInt8) ∉ r.1.path
  step rs r := coapResourceRegister digest rs r.1 r.2

/-- The path that a request names. -/
def uriPath (options : List CoapOption) : Bytes :=
  (options.filter (coapOptionUriPath = ·.num)).flatMap (47 :: ·.val)

/-- A request reaches exactly the resource that it names. -/
structure Dispatched (rs : Resources κ) (code : Nat) (options : List CoapOption)
    (outcome : Outcome κ) : Prop where
  called : ∀ callback, outcome = .called callback ↔ ∃ r ∈ rs.list, r.path = uriPath options ∧
    r.callback = some callback ∧ Allows r.permission code
  unknown : (∀ r ∈ rs.list, r.path ≠ uriPath options) ∨
    coapMsgMaxPathLen < (uriPath options).length → outcome = .notFound

end Model

section Dispatch

variable {δ κ : Type} [DecidableEq δ] {digest : Bytes → δ} {rs : Resources κ}
  {options : List CoapOption}

/-! ## Resources -/

theorem rewriteNode_paths (new : Resource κ) (list : List (Resource κ)) :
    (rewriteNode digest new list).map Resource.path = list.map Resource.path := by
  induction list with
  | nil => rfl
  | cons _ _ ih =>
    unfold rewriteNode
    split
    · rfl
    · rw [map_cons, map_cons, ih]

/-- Each path stands in the list once, and is a string that fits the buffer. -/
def Resources.Named (rs : Resources κ) : Prop :=
  (rs.list.map Resource.path).Nodup ∧
    ∀ path ∈ rs.list.map Resource.path, (0 : UInt8) ∉ path ∧ path.length < coapMsgMaxPathLen

theorem server_named (reach : (server digest).Reach rs) : rs.Named := by
  refine reach.invariant ?_ ?_
  · rintro rs ⟨empty, -⟩
    rw [Resources.Named, empty]
    exact ⟨nodup_nil, nofun⟩
  rintro rs ⟨new, malloc⟩ ⟨nodup, short⟩ text
  show (coapResourceRegister digest rs new malloc).Named
  unfold coapResourceRegister Resources.Named
  split
  · exact ⟨nodup, short⟩
  split
  · rw [rewriteNode_paths]
    exact ⟨nodup, short⟩
  split
  · exact ⟨nodup, short⟩
  next fresh created =>
  obtain ⟨fits, -⟩ := not_or.mp created
  have absent : new.path ∉ rs.list.map Resource.path := by
    intro there
    obtain ⟨node, inList, same⟩ := mem_map.mp there
    exact fresh (any_eq_true.mpr ⟨node, inList, by simp [same]⟩)
  rw [map_append, map_singleton]
  refine ⟨nodup_append.mpr ⟨nodup, nodup_singleton _, ?_⟩, ?_⟩
  · intro path old path' isNew same
    rw [mem_singleton.mp isNew] at same
    exact absent (same ▸ old)
  · intro path there
    rcases mem_append.mp there with old | isNew
    · exact short path old
    · rw [mem_singleton.mp isNew]
      exact ⟨text, Nat.not_le.mp fits⟩

/-! ## The path of a request -/

/-- Options that fit are appended. -/
theorem foldl_addOption (path : Bytes) (text : (0 : UInt8) ∉ uriPath options)
    (fits : path.length + (uriPath options).length ≤ coapMsgMaxPathLen) :
    options.foldl addOption path = path ++ uriPath options := by
  induction options generalizing path with
  | nil => simp [uriPath]
  | cons option rest ih =>
    by_cases isPath : coapOptionUriPath = option.num
    · have split : uriPath (option :: rest) = 47 :: option.val ++ uriPath rest := by
        simp [uriPath, isPath]
      rw [split] at text fits ⊢
      rw [mem_append, mem_cons] at text
      have copy : strncpy option.val = option.val := by
        rw [strncpy, cString_of_text fun inVal => text (.inl (.inr inVal))]
        simp
      rw [length_append, length_cons] at fits
      have added : addOption path option = path ++ 47 :: option.val := by
        rw [addOption, if_pos ⟨isPath, by omega⟩, copy]
      rw [foldl_cons, added, ih _ (fun inRest => text (.inr inRest))]
      · rw [append_assoc]
      · rw [length_append, length_cons]
        omega
    · have skip : uriPath (option :: rest) = uriPath rest := by simp [uriPath, isPath]
      rw [skip] at text fits ⊢
      rw [foldl_cons, addOption, if_neg fun both => isPath both.1]
      exact ih path text fits

/-- What is looked up is what the request names, if that is a string that fits the buffer. -/
theorem requestPath_eq (stack : Bytes) (text : (0 : UInt8) ∉ uriPath options)
    (fits : (uriPath options).length < coapMsgMaxPathLen) :
    requestPath stack options = uriPath options := by
  have whole := foldl_addOption [] text (by simpa using fits.le)
  obtain ⟨n, more⟩ := Nat.exists_eq_add_of_lt fits
  simp only [requestPath, whole, nil_append, append_assoc, cString_append text]
  rw [show coapMsgMaxPathLen - (uriPath options).length = n + 1 by omega, replicate_succ]
  simp [cString]

/-- With digests that do not collide, a request reaches exactly the resource that it names, if and
only if the string that is looked up names no other one. -/
theorem request_dispatched_iff (free : Function.Injective digest)
    (reach : (server digest).Reach rs) (stack : Bytes) (code : Nat) :
    Dispatched rs code options (coapRequestMessageHandle digest rs stack code options) ↔
      ∀ r ∈ rs.list, requestPath stack options = r.path → uriPath options = r.path := by
  obtain ⟨nodup, strings⟩ := server_named reach
  have names (r : Resource κ) (inList : r ∈ rs.list) (same : uriPath options = r.path) :
      requestPath stack options = r.path := by
    obtain ⟨text, short⟩ := strings r.path (mem_map_of_mem inList)
    rw [← same] at text short ⊢
    exact requestPath_eq stack text short
  unfold coapRequestMessageHandle
  cases get : coapResourceByPathGet digest rs (requestPath stack options) with
  | none =>
    have absent (r : Resource κ) (inList : r ∈ rs.list) : requestPath stack options ≠ r.path := by
      intro same
      have differs := find?_eq_none.mp get r inList
      exact differs (by simp [same])
    refine iff_of_true ⟨fun callback => iff_of_false (by simp) ?_, fun _ => rfl⟩
      fun r inList same => absurd same (absent r inList)
    rintro ⟨r, inList, same, -⟩
    exact absent r inList (names r inList same.symm)
  | some r =>
    have inList := mem_of_find?_eq_some get
    have looked : requestPath stack options = r.path := free (by simpa using find?_some get)
    have only (r' : Resource κ) (inList' : r' ∈ rs.list)
        (same' : requestPath stack options = r'.path) : r' = r :=
      inj_on_of_nodup_map nodup inList' inList (same'.symm.trans looked)
    constructor
    · intro dispatched r' inList' same'
      by_contra differ
      have none_ (r'' : Resource κ) (inList'' : r'' ∈ rs.list) : r''.path ≠ uriPath options := by
        intro same
        obtain rfl := only r'' inList'' (names r'' inList'' same.symm)
        exact differ (same.symm.trans (looked.symm.trans same'))
      have unknown := dispatched.unknown (.inl none_)
      dsimp only at unknown
      split at unknown
      · cases unknown
      · split at unknown <;> cases unknown
    intro named
    have same := named r inList looked
    refine ⟨fun callback => ⟨fun called => ⟨r, inList, same.symm, ?_⟩, ?_⟩, fun either => ?_⟩
    · dsimp only at called
      split at called
      · cases called
      · next callback' has =>
        split at called
        · next allows =>
          cases called
          exact ⟨has, allows⟩
        · cases called
    · rintro ⟨r', inList', same', has, allows⟩
      obtain rfl := only r' inList' (names r' inList' same'.symm)
      simp only [has, if_pos allows]
    · rcases either with none | tooLong
      · exact absurd same.symm (none r inList)
      · have short := (strings r.path (mem_map_of_mem inList)).2
        rw [same] at tooLong
        omega

end Dispatch

/-- A server with a resource at the path `/a` that can be read. -/
def readable : Resources Unit :=
  (server id).run ⟨[], 0, 4⟩ [(⟨[47, 97], 1, some ()⟩, true)]

theorem request_dispatched_readable :
    coapRequestMessageHandle id readable [] 1 [⟨11, [97]⟩] = .called () ∧
      Dispatched readable 1 [⟨11, [97]⟩]
        (coapRequestMessageHandle id readable [] 1 [⟨11, [97]⟩]) :=
  have reach : (server id).Reach readable :=
    .step (S := server id) (.init ⟨rfl, rfl⟩)
      (show (0 : UInt8) ∉ [47, 97] by decide)
  ⟨by decide, (request_dispatched_iff Function.injective_id reach [] 1).mpr (by decide)⟩

/-- Requests for a path with a zero byte and for one that does not fit both reach `/a`. -/
theorem not_request_dispatched :
    (readable.list.map Resource.path = [[47, 97]] ∧
        coapRequestMessageHandle id readable [] 1 [⟨11, [97, 0, 98]⟩] = .called ()) ∧
      coapRequestMessageHandle id readable [] 1 [⟨11, [97]⟩, ⟨11, replicate 127 98⟩] =
        .called () := by
  decide +kernel

end AliosThings.Alcs
