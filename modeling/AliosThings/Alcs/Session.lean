import AliosThings.Lib.CString
import AliosThings.Lib.Run

/-!
# Keys and sessions of the ALCS server

A device has the keys that clients may authenticate with, of its own and of groups, a list of
revoked key sequences, and the sessions of the clients that have authenticated. A session belongs
to an address and to a product key with a device name, of which it keeps six bytes of an MD5 sum.

MD5 is a parameter of the model.
-/

namespace AliosThings.Alcs

open Lib List

/-! ## Sessions -/

/-- `NetworkAddr`: a string and a port. -/
structure NetworkAddr where
  addr : Bytes
  port : Nat
  deriving DecidableEq, Repr

/-- `is_networkadd_same` -/
def isNetworkaddSame (a b : NetworkAddr) : Bool :=
  a.port = b.port ∧ cString a.addr = cString b.addr

/-- `PK_DN_CHECKSUM_LEN` bytes. -/
abbrev Checksum := { bytes : Bytes // bytes.length = 6 }

/-- `session_item` of a client. -/
structure Session where
  sessionId : Nat
  sessionKey : Bytes
  addr : NetworkAddr
  pkDn : Checksum
  deriving DecidableEq

/-- Whether `get_session_by_checksum` takes the session. -/
def Session.found (addr : NetworkAddr) (ck : Checksum) (s : Session) : Bool :=
  isNetworkaddSame addr s.addr ∧ strncmpSame s.pkDn.val ck.val 6

/-- `get_session_by_checksum` -/
def getSessionByChecksum (sessions : List Session) (addr : NetworkAddr) (ck : Checksum) :
    Option Session :=
  sessions.find? (Session.found addr ck)

/-- The session is that of the address and of the checksum. -/
def Session.IsFor (s : Session) (addr : NetworkAddr) (ck : Checksum) : Prop :=
  isNetworkaddSame addr s.addr = true ∧ s.pkDn = ck

/-- A checksum without a zero byte is compared to its end. -/
theorem Session.isFor_of_found {s : Session} {addr : NetworkAddr} {ck : Checksum}
    (found : s.found addr ck = true) (text : (0 : UInt8) ∉ ck.val) : s.IsFor addr ck := by
  obtain ⟨address, checksum⟩ := of_decide_eq_true found
  have six := ck.property
  have same := (strncmpSame_iff text six.ge).mp checksum
  rw [take_of_length_le s.pkDn.property.le, take_of_length_le six.le] at same
  exact ⟨address, Subtype.ext same⟩

/-! ## Keys -/

/-- `svr_key_info`, with C strings. -/
structure SvrKeyInfo where
  keyPrefix : Bytes
  secret : Bytes
  text : (0 : UInt8) ∉ keyPrefix := by decide

/-- `auth_list`; without revocations the string is empty. -/
structure AuthList where
  lstSvr : List SvrKeyInfo
  lstSvrGroup : List SvrKeyInfo
  revocation : Bytes

/-- `device_auth_list` -/
structure Device where
  auth : AuthList
  /-- The role has `ROLE_SERVER`. -/
  server : Bool
  sessions : List Session

/-- `ALCS_AUTH_OK` and the codes of errors. -/
inductive AuthCode where
  | ok | revocate | unmatchPrefix | invalidparam | authlistempty | illegalsign
  deriving DecidableEq, Repr

/-- `KEYPREFIX_LEN` -/
def keyPrefixLen : Nat := 8

/-- `KEYSEQ_LEN` -/
def keyseqLen : Nat := 3

/-- Whether `is_legal_key` finds the sequence in the revocations, which it reads piece by piece. -/
def isRevocated (revocation keyseq : Bytes) : Bool :=
  (range ((revocation.length + keyseqLen - 1) / keyseqLen)).any fun i =>
    strncmpSame keyseq (revocation.drop (keyseqLen * i)) keyseqLen

/-- Whether a configured key has this prefix. -/
def SvrKeyInfo.hasPrefix (accessKey : Bytes) (info : SvrKeyInfo) : Bool :=
  info.keyPrefix.length = keyPrefixLen ∧ strncmpSame accessKey info.keyPrefix keyPrefixLen

/-- The sequence in an access key. -/
def keyseqOf (accessKey : Bytes) : Bytes := accessKey.drop (keyPrefixLen + 2)

/-- `is_legal_key`, which leaves the code it was given if the device is not known. -/
def isLegalKey (dev : Option Device) (accessKey : Bytes) (resCode : AuthCode) :
    Option SvrKeyInfo × AuthCode :=
  match dev with
  | none => (none, resCode)
  | some d =>
    if isRevocated d.auth.revocation (keyseqOf accessKey) then (none, .revocate)
    else if d.auth.lstSvr.isEmpty then (none, .authlistempty)
    else
      match d.auth.lstSvr.find? (·.hasPrefix accessKey) with
      | some info => (some info, .ok)
      | none =>
        match d.auth.lstSvrGroup.find? (·.hasPrefix accessKey) with
        | some info => (some info, .ok)
        | none => (none, .unmatchPrefix)

/-! ## What is configured -/

/-- One of the revocations is the sequence: pieces of three characters. -/
def AuthList.Revoked (auth : AuthList) (keyseq : Bytes) : Prop :=
  ∃ i, keyseqLen * i < auth.revocation.length ∧
    strncmpSame keyseq (auth.revocation.drop (keyseqLen * i)) keyseqLen = true

theorem isRevocated_iff (auth : AuthList) (keyseq : Bytes) :
    isRevocated auth.revocation keyseq = true ↔ auth.Revoked keyseq := by
  unfold isRevocated AuthList.Revoked keyseqLen
  rw [any_eq_true]
  constructor
  · rintro ⟨i, inside, same⟩
    refine ⟨i, ?_, same⟩
    rw [mem_range] at inside
    omega
  · rintro ⟨i, inside, same⟩
    refine ⟨i, ?_, same⟩
    rw [mem_range]
    omega

/-- The key that counts for an access key: one of the device before one of a group. -/
def AuthList.keyFor (auth : AuthList) (accessKey : Bytes) : Option SvrKeyInfo :=
  (auth.lstSvr ++ auth.lstSvrGroup).find? fun info =>
    info.keyPrefix.length = keyPrefixLen ∧ accessKey.take keyPrefixLen = info.keyPrefix

theorem SvrKeyInfo.hasPrefix_eq (accessKey : Bytes) (info : SvrKeyInfo) :
    info.hasPrefix accessKey =
      decide (info.keyPrefix.length = keyPrefixLen ∧
        accessKey.take keyPrefixLen = info.keyPrefix) := by
  apply Bool.decide_congr
  constructor
  · rintro ⟨length, same⟩
    have equal := (strncmpSame_iff info.text length.ge).mp same
    rw [take_of_length_le length.le] at equal
    exact ⟨length, equal⟩
  · rintro ⟨length, same⟩
    refine ⟨length, (strncmpSame_iff info.text length.ge).mpr ?_⟩
    rw [take_of_length_le length.le, same]

/-- What `is_legal_key` answers for a known device, unless only a group has the key. -/
theorem isLegalKey_spec {d : Device} {accessKey : Bytes}
    (own : d.auth.lstSvr = [] → d.auth.keyFor accessKey = none) (resCode : AuthCode) :
    (∃ info, isLegalKey (some d) accessKey resCode = (some info, .ok) ∧
        ¬ d.auth.Revoked (keyseqOf accessKey) ∧ d.auth.keyFor accessKey = some info) ∨
      ∃ code, isLegalKey (some d) accessKey resCode = (none, code) ∧ code ≠ .ok ∧
        (d.auth.Revoked (keyseqOf accessKey) ∨ d.auth.keyFor accessKey = none) := by
  have lookup : d.auth.keyFor accessKey = (d.auth.lstSvr.find? (·.hasPrefix accessKey)).or
        (d.auth.lstSvrGroup.find? (·.hasPrefix accessKey)) := by
    simp only [SvrKeyInfo.hasPrefix_eq]
    exact find?_append
  unfold isLegalKey
  simp only
  split
  case isTrue revoked =>
    exact .inr ⟨.revocate, rfl, nofun, .inl ((isRevocated_iff _ _).mp revoked)⟩
  case isFalse current =>
  have unrevoked : ¬ d.auth.Revoked (keyseqOf accessKey) :=
    fun revoked => current ((isRevocated_iff _ _).mpr revoked)
  split
  case isTrue empty =>
    exact .inr ⟨.authlistempty, rfl, nofun, .inr (own (List.isEmpty_iff.mp empty))⟩
  case isFalse =>
  rw [lookup]
  cases d.auth.lstSvr.find? (·.hasPrefix accessKey) with
  | some info => exact .inl ⟨info, rfl, unrevoked, rfl⟩
  | none =>
    cases d.auth.lstSvrGroup.find? (·.hasPrefix accessKey) with
    | some info => exact .inl ⟨info, rfl, unrevoked, rfl⟩
    | none => exact .inr ⟨.unmatchPrefix, rfl, nofun, .inr rfl⟩

/-! ## The key store -/

/-- `KEY_MAXCOUNT` -/
def keyMaxcount : Nat := 10

/-- `auth_list` with its count of the server's keys. -/
structure KeyStore extends AuthList where
  svrCount : Nat

/-- `alcs_add_svr_key`, and whether it succeeds. -/
def alcsAddSvrKey (st : KeyStore) (info : SvrKeyInfo) : KeyStore × Bool :=
  if keyMaxcount ≤ st.svrCount ∨ info.keyPrefix.length ≠ keyPrefixLen then (st, false)
  else ({ st with lstSvr := st.lstSvr ++ [info], svrCount := st.svrCount + 1 }, true)

/-- `alcs_remove_svr_key`: the count stays as it is. -/
def alcsRemoveSvrKey (st : KeyStore) (keyPrefix : Bytes) : KeyStore :=
  { st with lstSvr := st.lstSvr.eraseP (·.keyPrefix = keyPrefix) }

inductive KeyCall where
  | add (info : SvrKeyInfo)
  | remove (keyPrefix : Bytes)

/-- The calls from an empty list of the server's keys on, with any keys of groups. -/
def keyStoreSystem : System KeyStore KeyCall where
  init st := st.lstSvr = [] ∧ st.svrCount = 0
  allowed _ _ := True
  step
    | st, .add info => (alcsAddSvrKey st info).1
    | st, .remove keyPrefix => alcsRemoveSvrKey st keyPrefix

structure KeyStore.Bounded (st : KeyStore) : Prop where
  count : st.svrCount = st.lstSvr.length
  adds : ∀ info, info.keyPrefix.length = keyPrefixLen →
    ((alcsAddSvrKey st info).2 = true ↔ st.lstSvr.length < keyMaxcount)
  accepts : st.revocation = [] → ∀ d, d.auth = st.toAuthList →
    ∀ keyPrefix rest code, keyPrefix.length = keyPrefixLen →
      ((isLegalKey (some d) (keyPrefix ++ rest) code).1.isSome ↔
        ∃ info ∈ st.lstSvr ++ st.lstSvrGroup, info.keyPrefix = keyPrefix)

/-- No key that is stored is removed. -/
def KeyCall.RemovesNone (st : KeyStore) : KeyCall → Prop
  | add _ => True
  | remove keyPrefix => ∀ info ∈ st.lstSvr, info.keyPrefix ≠ keyPrefix

variable {st : KeyStore}

theorem keyStore_count (reach : (keyStoreSystem.restrict KeyCall.RemovesNone).Reach st) :
    st.svrCount = st.lstSvr.length := by
  refine reach.invariant (P := fun st => st.svrCount = st.lstSvr.length) ?_ ?_
  · rintro st ⟨empty, zero⟩
    rw [empty, zero]
    rfl
  · rintro st (info | keyPrefix) count ⟨-, none⟩
    · show (alcsAddSvrKey st info).1.svrCount = (alcsAddSvrKey st info).1.lstSvr.length
      unfold alcsAddSvrKey
      split
      · exact count
      · rw [length_append, ← count, length_singleton]
    · show st.svrCount = (st.lstSvr.eraseP _).length
      rw [eraseP_of_forall_not fun info inside => by simpa using none info inside]
      exact count

/-- If no stored key is removed, and the server has a key or the groups have none. -/
theorem keyStore_bounded (reach : (keyStoreSystem.restrict KeyCall.RemovesNone).Reach st)
    (own : st.lstSvr = [] → st.lstSvrGroup = []) : st.Bounded := by
  have count := keyStore_count reach
  refine ⟨count, fun info length => ?_, fun current d same keyPrefix rest code length => ?_⟩
  · unfold alcsAddSvrKey
    split <;> simp_all
  have front : (keyPrefix ++ rest).take keyPrefixLen = keyPrefix := take_left' length
  have unrevoked : ¬ d.auth.Revoked (keyseqOf (keyPrefix ++ rest)) := by
    rintro ⟨i, inside, -⟩
    rw [same, current] at inside
    cases inside
  have lookup : d.auth.keyFor (keyPrefix ++ rest) = (st.lstSvr ++ st.lstSvrGroup).find? fun info =>
      info.keyPrefix.length = keyPrefixLen ∧ keyPrefix = info.keyPrefix := by
    rw [AuthList.keyFor, same, front]
  have alone : d.auth.lstSvr = [] → d.auth.keyFor (keyPrefix ++ rest) = none := by
    intro empty
    rw [same] at empty
    rw [lookup, empty, own empty]
    rfl
  rcases isLegalKey_spec alone code with ⟨info, legal, -, found⟩ | ⟨_, refused, -, revoked | none⟩
  · rw [lookup] at found
    have has := find?_some found
    simp only [decide_eq_true_iff] at has
    rw [legal]
    exact ⟨fun _ => ⟨info, mem_of_find?_eq_some found, has.2.symm⟩, fun _ => rfl⟩
  · exact absurd revoked unrevoked
  · rw [lookup, find?_eq_none] at none
    rw [refused]
    refine ⟨nofun, ?_⟩
    rintro ⟨info, inside, rfl⟩
    exact absurd (decide_eq_true ⟨length, rfl⟩) (none info inside)

/-- Three keys. -/
def plainKey : SvrKeyInfo := { keyPrefix := replicate 8 97, secret := [] }

def otherKey : SvrKeyInfo := { keyPrefix := replicate 8 98, secret := [] }

def groupKey : SvrKeyInfo := { keyPrefix := replicate 8 99, secret := [] }

/-- A group has a key; the server adds two, and removes the group's, which is none of its own. -/
theorem keyStore_bounded_group :
    let st := keyStoreSystem.run ⟨⟨[], [groupKey], []⟩, 0⟩
      [.add plainKey, .add otherKey, .remove groupKey.keyPrefix]
    st.svrCount = 2 ∧ st.Bounded := by
  have start : (keyStoreSystem.restrict KeyCall.RemovesNone).Reach ⟨⟨[], [groupKey], []⟩, 0⟩ :=
    .init ⟨rfl, rfl⟩
  have others : ∀ info ∈ [plainKey, otherKey], info.keyPrefix ≠ groupKey.keyPrefix := by decide
  have added := (start.step (a := .add plainKey) ⟨trivial, trivial⟩).step (a := .add otherKey)
    ⟨trivial, trivial⟩
  exact ⟨rfl, keyStore_bounded (added.step (a := .remove _) ⟨trivial, others⟩) nofun⟩

/-- A key that is removed still counts; and where only a group has keys they are refused. -/
theorem not_keyStore_bounded :
    (¬ ∀ st, keyStoreSystem.Reach st → (st.lstSvr = [] → st.lstSvrGroup = []) → st.Bounded) ∧
      ¬ ∀ st, (keyStoreSystem.restrict KeyCall.RemovesNone).Reach st → st.Bounded := by
  constructor
  · intro bounded
    have start : keyStoreSystem.Reach ⟨⟨[], [], []⟩, 0⟩ := .init ⟨rfl, rfl⟩
    have added := start.step (a := .add plainKey) trivial
    have removed := added.step (a := .remove plainKey.keyPrefix) trivial
    exact absurd (bounded _ removed fun _ => rfl).count (by decide)
  · intro bounded
    have accepts := (bounded ⟨⟨[], [plainKey], []⟩, 0⟩ (.init ⟨rfl, rfl⟩)).accepts rfl
      ⟨⟨[], [plainKey], []⟩, true, []⟩ rfl plainKey.keyPrefix [] .ok rfl
    exact absurd (accepts.mpr ⟨plainKey, mem_singleton_self _, rfl⟩) (by decide)

end AliosThings.Alcs
