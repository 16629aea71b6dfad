import AliosThings.Alcs.Session

/-!
# Encrypted payloads

`alcs_encrypt` pads a text to whole blocks and encrypts it in two parts, the last block apart from
the rest, each part with the same initial vector. `alcs_decrypt` takes the length of the padding
from the last byte and believes it: the byte is subtracted from the length, and a zero is written
where the text ends then.

AES in CBC mode with that vector is a parameter of the model, a permutation of the sequences of
blocks for each key.
-/

namespace AliosThings.Alcs

open Lib List UInt8

/-- AES in CBC mode on whole blocks. -/
structure AesCbc where
  encrypt : (key text : Bytes) → Bytes
  decrypt : (key text : Bytes) → Bytes
  encrypt_length : ∀ {key text n}, text.length = 16 * n → (encrypt key text).length = 16 * n
  decrypt_length : ∀ {key text n}, text.length = 16 * n → (decrypt key text).length = 16 * n
  decrypt_encrypt : ∀ {key text n}, text.length = 16 * n → decrypt key (encrypt key text) = text
  encrypt_decrypt : ∀ {key text n}, text.length = 16 * n → encrypt key (decrypt key text) = text

/-- The length of the padding: up to the next multiple of 16. -/
def padLen (len : Nat) : Nat := len / 16 * 16 + 16 - len

variable (aes : AesCbc)

/-- `alcs_encrypt` -/
def alcsEncrypt (key src : Bytes) : Bytes :=
  let len1 := src.length / 16 * 16
  let pad := padLen src.length
  aes.encrypt key (src.take len1) ++
    aes.encrypt key (src.drop len1 ++ replicate pad (ofNat pad))

/-- Bytes are written into a buffer, from a place on; `none` if they do not fit. -/
def put (out : Bytes) (i : Nat) (bytes : Bytes) : Option Bytes :=
  if i + bytes.length ≤ out.length then
    some (out.take i ++ bytes ++ out.drop (i + bytes.length))
  else none

/-- Bytes are read; `none` if some of them are outside. -/
def get (src : Bytes) (i n : Nat) : Option Bytes :=
  if i + n ≤ src.length then some ((src.drop i).take n) else none

/-- A `char`, on machines where it is signed and on others. -/
def charValue (signed : Bool) (c : UInt8) : Int :=
  if signed ∧ 128 ≤ c.toNat then (c.toNat : Int) - 256 else c.toNat

/-- The end of `alcs_decrypt`: the last byte is taken for the length of the padding. An empty
payload has no last byte. -/
def trimPad (signed aesOk : Bool) (len : Nat) (out : Bytes) : Option (Bytes × Int) :=
  (if len = 0 then none else out[len - 1]?).bind fun lastByte =>
    let ends := (len : Int) - charValue signed lastByte
    if ends < 0 then none
    else (put out ends.toNat [0]).map fun out => (out, if aesOk then ends else 0)

/-- `alcs_decrypt` of `len` bytes from `src` on, which other bytes may follow. `aesOk` is whether
the last call of the cipher succeeds; if not it has not written. An access outside a buffer is
`none`. -/
def alcsDecrypt (signed aesOk : Bool) (key src : Bytes) (len : Nat) (out : Bytes) :
    Option (Bytes × Int) := do
  let n := len / 16
  let offset := 16 * (n - 1)
  let first ← get src 0 offset
  let out ← put out 0 (if 0 < n then aes.decrypt key first else [])
  let out ← put out offset [0]
  let last ← get src offset 16
  let out ← put out offset (if aesOk then aes.decrypt key last else [])
  trimPad signed aesOk len out

/-! ## The round trip -/

theorem put_append (x y z bytes : Bytes) (same : y.length = bytes.length) :
    put (x ++ y ++ z) x.length bytes = some (x ++ bytes ++ z) := by
  unfold put
  rw [if_pos]
  · congr 1
    rw [append_assoc x y z, take_left, ← same, ← length_append, ← append_assoc, drop_left]
  · rw [length_append, length_append, same]
    omega

/-- The padding fills the last block. -/
theorem padLen_spec (len : Nat) :
    0 < padLen len ∧ padLen len ≤ 16 ∧ len + padLen len = 16 * (len / 16 + 1) := by
  unfold padLen
  omega

theorem firstPart_length (src : Bytes) :
    (src.take (src.length / 16 * 16)).length = 16 * (src.length / 16) := by
  rw [length_take]
  omega

theorem lastPart_length (src : Bytes) :
    (src.drop (src.length / 16 * 16) ++
      replicate (padLen src.length) (ofNat (padLen src.length))).length = 16 * 1 := by
  obtain ⟨-, -, whole⟩ := padLen_spec src.length
  rw [length_append, length_drop, length_replicate]
  omega

/-- The text grows to whole blocks. -/
theorem alcsEncrypt_length (key src : Bytes) :
    (alcsEncrypt aes key src).length = 16 * (src.length / 16 + 1) := by
  simp only [alcsEncrypt]
  rw [length_append, aes.encrypt_length (firstPart_length src),
    aes.encrypt_length (lastPart_length src)]
  omega

theorem charValue_pad (signed : Bool) {pad : Nat} (small : pad ≤ 16) :
    charValue signed (ofNat pad) = pad := by
  have value : (ofNat pad).toNat = pad := by
    rw [toNat_ofNat']
    omega
  unfold charValue
  omega

theorem get_append (x y z : Bytes) : get (x ++ y ++ z) x.length y.length = some y := by
  unfold get
  rw [if_pos, append_assoc, drop_left, take_left]
  rw [length_append, length_append]
  omega

variable {out first last a b : Bytes} {n : Nat}

/-- A buffer that has room for a payload of `n + 1` blocks, cut at the last of them. -/
theorem buffer_parts (room : 16 * (n + 1) ≤ out.length) :
    ∃ x y z b, out = x ++ (b :: y) ++ z ∧ x.length = 16 * n ∧ (b :: y).length = 16 := by
  refine ⟨out.take (16 * n), (out.drop (16 * n + 1)).take 15, out.drop (16 * n + 16),
    out[16 * n], ?_, by rw [length_take]; omega, ?_⟩
  · have cut : (out.drop (16 * n)).take 16 =
        out[16 * n] :: (out.drop (16 * n + 1)).take 15 := by
      rw [drop_eq_getElem_cons (by omega), take_succ_cons]
    rw [← cut, ← drop_drop, append_assoc, take_append_drop, take_append_drop]
  · rw [length_cons, length_take, length_drop]
    omega

/-- A payload of two parts leaves their texts in the buffer. -/
theorem alcsDecrypt_parts (signed : Bool) (key : Bytes) (isFirst : first.length = 16 * n)
    (isLast : last.length = 16 * 1) (decFirst : aes.decrypt key first = a)
    (decLast : aes.decrypt key last = b) (after : Bytes) (room : 16 * (n + 1) ≤ out.length) :
    ∃ rest, alcsDecrypt aes signed true key (first ++ last ++ after) (16 * (n + 1)) out =
      trimPad signed true (16 * (n + 1)) (a ++ b ++ rest) := by
  obtain ⟨x, y, z, c, rfl, xLength, yLength⟩ := buffer_parts room
  have aLength : a.length = 16 * n := by rw [← decFirst, aes.decrypt_length isFirst]
  have bLength : b.length = 16 * 1 := by rw [← decLast, aes.decrypt_length isLast]
  refine ⟨z, ?_⟩
  have blocks : 16 * (n + 1) / 16 = n + 1 := by omega
  have getFirst : get (first ++ last ++ after) 0 (16 * n) = some first := by
    have got := get_append [] first (last ++ after)
    rwa [nil_append, ← append_assoc, length_nil, isFirst] at got
  have getLast : get (first ++ last ++ after) (16 * n) 16 = some last := by
    have got := get_append first last after
    rwa [isFirst, isLast] at got
  have putFirst : put (x ++ c :: y ++ z) 0 a = some (a ++ [c] ++ (y ++ z)) := by
    have written := put_append [] x (c :: y ++ z) a (by omega)
    rw [nil_append, ← append_assoc, length_nil] at written
    rw [written]
    simp
  have putZero : put (a ++ [c] ++ (y ++ z)) (16 * n) [0] = some (a ++ (0 :: y) ++ z) := by
    have written := put_append a [c] (y ++ z) [0] rfl
    rw [aLength] at written
    rw [written]
    simp
  have putLast : put (a ++ (0 :: y) ++ z) (16 * n) b = some (a ++ b ++ z) := by
    have written := put_append a (0 :: y) z b (by rw [bLength]; exact yLength)
    rwa [aLength] at written
  simp only [alcsDecrypt, blocks, Nat.add_sub_cancel, Nat.succ_pos, if_true, getFirst, decFirst,
    putFirst, putZero, getLast, decLast, putLast, Option.bind_eq_bind, Option.bind_some]

/-- Padding that was added is taken away. -/
theorem trimPad_padded (signed : Bool) (plain rest : Bytes) :
    ∃ text : Bytes, trimPad signed true (16 * (plain.length / 16 + 1))
        (plain ++ replicate (padLen plain.length) (ofNat (padLen plain.length)) ++
          rest) = some (text, (plain.length : Int)) ∧ text.take plain.length = plain := by
  obtain ⟨positive, small, whole⟩ := padLen_spec plain.length
  generalize padLen plain.length = pad at positive small whole ⊢
  have lastByte : (plain ++ replicate pad (ofNat pad) ++ rest)[
      16 * (plain.length / 16 + 1) - 1]? = some (ofNat pad) := by
    rw [append_assoc, getElem?_append_right (by omega),
      getElem?_append_left (by rw [length_replicate]; omega), getElem?_replicate,
      if_pos (by omega)]
  have ends : ((16 * (plain.length / 16 + 1) : Nat) : Int) - (pad : Int) = plain.length := by
    omega
  unfold trimPad
  rw [if_neg (by omega), lastByte]
  simp only [Option.bind_some, charValue_pad signed small, ends]
  rw [if_neg (by omega), Int.toNat_natCast]
  obtain ⟨more, rfl⟩ : ∃ more, pad = more + 1 := ⟨pad - 1, by omega⟩
  have written := put_append plain [ofNat (more + 1)]
    (replicate more (ofNat (more + 1)) ++ rest) [0] rfl
  have same : plain ++ replicate (more + 1) (ofNat (more + 1)) ++ rest =
      plain ++ [ofNat (more + 1)] ++
        (replicate more (ofNat (more + 1)) ++ rest) := by
    rw [replicate_succ]
    simp
  rw [same, written]
  refine ⟨_, rfl, ?_⟩
  rw [append_assoc, take_left]

/-- What was encrypted is decrypted, into every buffer that has room for the payload. -/
theorem alcsDecrypt_encrypt (signed : Bool) (key plain after : Bytes)
    (room : (alcsEncrypt aes key plain).length ≤ out.length) :
    ∃ text : Bytes, alcsDecrypt aes signed true key (alcsEncrypt aes key plain ++ after)
        (alcsEncrypt aes key plain).length out = some (text, (plain.length : Int)) ∧
      text.take plain.length = plain := by
  have first := firstPart_length plain
  have last := lastPart_length plain
  rw [alcsEncrypt_length] at room ⊢
  obtain ⟨rest, decrypted⟩ := alcsDecrypt_parts aes signed key (aes.encrypt_length first)
    (aes.encrypt_length last) (aes.decrypt_encrypt first) (aes.decrypt_encrypt last) after room
  simp only [alcsEncrypt]
  rw [decrypted, ← append_assoc, take_append_drop]
  exact trimPad_padded signed plain rest

/-- The ciphertext is as long as the padded text, and what was encrypted is decrypted. -/
theorem alcs_roundTrip (signed : Bool) (key plain after : Bytes)
    (room : (alcsEncrypt aes key plain).length ≤ out.length) :
    IsLeast { m | 16 ∣ m ∧ plain.length < m } (alcsEncrypt aes key plain).length ∧
      ∃ text : Bytes, alcsDecrypt aes signed true key (alcsEncrypt aes key plain ++ after)
          (alcsEncrypt aes key plain).length out = some (text, (plain.length : Int)) ∧
        text.take plain.length = plain := by
  refine ⟨⟨?_, ?_⟩, alcsDecrypt_encrypt aes signed key plain after room⟩
  · rw [alcsEncrypt_length]
    exact ⟨Nat.dvd_mul_right .., by omega⟩
  · rintro m ⟨⟨blocks, rfl⟩, longer⟩
    rw [alcsEncrypt_length]
    omega

/-- A cipher that combines each byte with the first byte of the key. -/
def xorAes : AesCbc where
  encrypt key text := text.map (key.headD 0 ^^^ ·)
  decrypt key text := text.map (key.headD 0 ^^^ ·)
  encrypt_length length := by rw [length_map, length]
  decrypt_length length := by rw [length_map, length]
  decrypt_encrypt _ := by simp [Function.comp_def, ← UInt8.xor_assoc]
  encrypt_decrypt _ := by simp [Function.comp_def, ← UInt8.xor_assoc]

/-- Twenty bytes take two blocks. -/
theorem alcs_roundTrip_twoBlocks :
    alcsEncrypt xorAes [90] (replicate 20 7) = replicate 20 93 ++ replicate 12 86 ∧
      IsLeast { m | 16 ∣ m ∧ 20 < m } (alcsEncrypt xorAes [90] (replicate 20 7)).length ∧
      ∃ text : Bytes, alcsDecrypt xorAes true true [90]
          (alcsEncrypt xorAes [90] (replicate 20 7) ++ [1, 2])
          (alcsEncrypt xorAes [90] (replicate 20 7)).length (replicate 40 1) = some (text, 20) ∧
        text.take 20 = replicate 20 7 :=
  ⟨by decide, alcs_roundTrip xorAes true [90] (replicate 20 7) [1, 2] (by decide)⟩

/-! ## Secure resources

`recv_msg_handler` stands in front of the callbacks registered with `alcs_resource_register_secure`.
-/

/-- `CoAPMsgOption`, with the number of the option. -/
structure CoapOption where
  num : Nat
  val : Bytes

/-- A big-endian number. -/
def beNat (bytes : Bytes) : Nat := bytes.foldl (fun n b => n * 256 + b.toNat) 0

/-- `CoAPUintOption_get`: the bytes are or-ed into what `data` holds; an option of another length
sets it to zero. `none` is `COAP_ERROR_NOT_FOUND`. -/
def coapUintOptionGet (options : List CoapOption) (optnum data : Nat) : Option Nat :=
  (options.find? (·.num = optnum)).map fun option =>
    if 1 ≤ option.val.length ∧ option.val.length ≤ 4 then data ||| beNat option.val else 0

/-! ## The handler -/

/-- `secure_resource_cb_item`, with a name for the callback. -/
structure SecureResource where
  path : Bytes
  pkDn : Checksum
  cb : Nat
  deriving DecidableEq

/-- A request, with the memory behind its payload. -/
structure CoapMessage where
  options : List CoapOption
  payload : Bytes
  after : Bytes := []
  /-- `payloadlen` is an `unsigned short`. -/
  short : payload.length < 2 ^ 16 := by decide

/-- `get_resource_by_path`: five bytes of the path's MD5 sum, or zeros for an empty path. -/
def getResourceByPath (md5 : Bytes → Bytes) (resources : List SecureResource) (path : Bytes) :
    Option SecureResource :=
  let pathCalc := if path = [] then replicate 5 0 else (md5 path).take 5
  resources.find? (·.path = pathCalc)

/-- What the surroundings give: whether `char` is signed and the cipher succeeds, whether there is
memory, and what uninitialised memory holds. -/
structure RecvEnv where
  signed : Bool := false
  aesOk : Bool := true
  memory : Bool := true
  fill : Nat → UInt8 := fun _ => 0
  obsVal : Nat := 0

/-- What the handler has done: an error response, an observer added, and the callback with the
buffer and the length it was given. -/
structure Handled where
  unauthorized : Bool := false
  observed : Bool := false
  called : Option (SecureResource × Bytes × Nat) := none
  deriving DecidableEq

/-- `get_svr_session_list` -/
def svrSessions : Option Device → List Session
  | some d => if d.server then d.sessions else []
  | none => []

/-- `call_cb` with a buffer; the length goes into an `unsigned short`. -/
def callCb (aes : AesCbc) (env : RecvEnv) (message : CoapMessage) (key : Bytes)
    (buf : Bytes) (node : SecureResource) : Option (SecureResource × Bytes × Nat) :=
  (alcsDecrypt aes env.signed env.aesOk key (message.payload ++ message.after)
      message.payload.length buf).map fun (text, len) => (node, text, (len % 2 ^ 16).toNat)

/-- `recv_msg_handler`; an access outside memory is `none`. -/
def recvMsgHandler (md5 : Bytes → Bytes) (aes : AesCbc) (env : RecvEnv)
    (resources : List SecureResource)
    (dev : Option Device) (path : Bytes) (remote : NetworkAddr) (message : CoapMessage) :
    Option Handled :=
  match getResourceByPath md5 resources path with
  | none => some {}
  | some node =>
    let sessionId := (coapUintOptionGet message.options 71 0).getD 0
    match getSessionByChecksum (svrSessions dev) remote node.pkDn with
    | none => some { unauthorized := true }
    | some session =>
      if session.sessionId ≠ sessionId then some { unauthorized := true }
      else
        let observed := coapUintOptionGet message.options 6 env.obsVal = some 0
        let size := if message.payload.length < 256 then 256 else message.payload.length
        if 256 ≤ message.payload.length ∧ env.memory = false then some { observed }
        else
          (callCb aes env message session.sessionKey ((range size).map env.fill) node).map
            fun call => { observed, called := some call }

/-! ## Who is let in -/

variable {md5 : Bytes → Bytes} {aes : AesCbc} {env : RecvEnv} {resources : List SecureResource}
  {dev : Option Device} {path key plain : Bytes} {remote : NetworkAddr} {message : CoapMessage}

/-- The callback of a resource is called for a session of the sender with the resource's device and
the id in the request, with the text that was encrypted under the key of the session. -/
def LetIn (aes : AesCbc) (dev : Option Device) (remote : NetworkAddr) (message : CoapMessage)
    (node : SecureResource) (buf : Bytes) (len : Nat) : Prop :=
  ∃ s ∈ svrSessions dev, s.IsFor remote node.pkDn ∧ s.sessionId ≠ 0 ∧
    coapUintOptionGet message.options 71 0 = some s.sessionId ∧
    ∃ plain, alcsEncrypt aes s.sessionKey plain = message.payload ∧
      len = plain.length ∧ len ≤ message.payload.length ∧ buf.take len = plain

/-- The callback gets the text that was encrypted. -/
theorem callCb_encrypted (aesOk : env.aesOk = true)
    (genuine : alcsEncrypt aes key plain = message.payload) (buf : Bytes)
    (room : message.payload.length ≤ buf.length) (node : SecureResource) :
    ∃ text : Bytes, callCb aes env message key buf node = some (node, text, plain.length) ∧
      text.take plain.length = plain ∧ plain.length ≤ message.payload.length := by
  have longer : plain.length ≤ message.payload.length := by
    rw [← genuine, alcsEncrypt_length]
    omega
  rw [← genuine] at room
  obtain ⟨text, decrypted, same⟩ := alcsDecrypt_encrypt aes env.signed key plain message.after room
  refine ⟨text, ?_, same, longer⟩
  have same16 : ((plain.length : Int) % 2 ^ 16).toNat = plain.length := by
    have short := message.short
    omega
  unfold callCb
  rw [aesOk, ← genuine, decrypted, Option.map_some]
  simp only [same16]

/-- Where the session that is found has the id in the request and the callback can be called, it is
a session with the resource's device, its id is not zero, and the payload was encrypted under its
key. -/
def Admits (md5 : Bytes → Bytes) (aes : AesCbc) (env : RecvEnv) (resources : List SecureResource)
    (dev : Option Device) (path : Bytes) (remote : NetworkAddr) (message : CoapMessage) : Prop :=
  ∀ node s, getResourceByPath md5 resources path = some node →
    getSessionByChecksum (svrSessions dev) remote node.pkDn = some s →
    s.sessionId = (coapUintOptionGet message.options 71 0).getD 0 →
    ¬ (256 ≤ message.payload.length ∧ env.memory = false) →
    s.IsFor remote node.pkDn ∧ s.sessionId ≠ 0 ∧
      ∃ plain, alcsEncrypt aes s.sessionKey plain = message.payload

/-- The handler stays in its buffers and calls a callback only for who is let in. -/
def Guards (md5 : Bytes → Bytes) (aes : AesCbc) (env : RecvEnv) (resources : List SecureResource)
    (dev : Option Device) (path : Bytes) (remote : NetworkAddr) (message : CoapMessage) : Prop :=
  ∃ o, recvMsgHandler md5 aes env resources dev path remote message = some o ∧
    ∀ node buf len, o.called = some (node, buf, len) →
      getResourceByPath md5 resources path = some node ∧ LetIn aes dev remote message node buf len

/-- A secure resource is protected if every request that passes the test of the id is admitted
rightly; and if no two sessions have one id, then only if it is. -/
theorem secure_callback_iff (aesOk : env.aesOk = true) :
    (Admits md5 aes env resources dev path remote message →
      Guards md5 aes env resources dev path remote message) ∧
    ((∀ s ∈ svrSessions dev, ∀ s' ∈ svrSessions dev, s.sessionId = s'.sessionId → s = s') →
      Guards md5 aes env resources dev path remote message →
        Admits md5 aes env resources dev path remote message) := by
  constructor
  · intro admits
    unfold Guards recvMsgHandler
    cases resource : getResourceByPath md5 resources path
    case none => exact ⟨_, rfl, by simp⟩
    case some node =>
    simp only
    cases lookup : getSessionByChecksum (svrSessions dev) remote node.pkDn
    case none => exact ⟨_, rfl, by simp⟩
    case some s =>
    simp only
    split
    · exact ⟨_, rfl, by simp⟩
    rename_i same
    rw [Classical.not_not] at same
    split
    · exact ⟨_, rfl, by simp⟩
    rename_i memory
    obtain ⟨isFor, id, plain, encrypted⟩ := admits node s resource lookup same memory
    obtain ⟨text, called, decrypted, shorter⟩ := callCb_encrypted aesOk encrypted
      ((range (if message.payload.length < 256 then 256
        else message.payload.length)).map env.fill)
      (by rw [length_map, length_range]; split <;> omega) node
    refine ⟨_, by rw [called, Option.map_some], ?_⟩
    rintro _ _ _ ⟨⟩
    have given : coapUintOptionGet message.options 71 0 = some s.sessionId := by
      cases option : coapUintOptionGet message.options 71 0 with
      | none => exact absurd (by rw [same, option]; rfl) id
      | some => rw [same, option]; rfl
    exact ⟨rfl, s, mem_of_find?_eq_some lookup, isFor, id, given, plain, encrypted, rfl, shorter,
      decrypted⟩
  · rintro distinct ⟨o, handled, letIn⟩ node s resource lookup same memory
    simp only [recvMsgHandler, resource, lookup, same, ne_eq, not_true_eq_false, if_false,
      if_neg memory] at handled
    obtain ⟨⟨node', text, len⟩, called, rfl⟩ := Option.map_eq_some_iff.mp handled
    obtain ⟨_, _, isNode⟩ := Option.map_eq_some_iff.mp called
    cases isNode
    obtain ⟨-, s', inside, isFor, id, given, plain, encrypted, -⟩ := letIn _ _ _ rfl
    rw [given, Option.getD_some] at same
    obtain rfl := distinct s (mem_of_find?_eq_some lookup) s' inside same
    exact ⟨isFor, id, plain, encrypted⟩

/-! ## Requests -/

def somePeer : NetworkAddr := ⟨[49, 46, 49], 5683⟩

/-- A server with one session, whose checksum is given. -/
def serverOf (pkDn : Checksum) : Device := ⟨⟨[], [], []⟩, true, [⟨256, [], somePeer, pkDn⟩]⟩

/-- The path of a resource, and the resource for a checksum. -/
def somePath : Bytes := [47, 97]

/-- A digest that only cuts and fills. -/
def plainMd5 (text : Bytes) : Bytes := (text ++ replicate 16 9).take 16

def resourceOf (pkDn : Checksum) : SecureResource := ⟨(plainMd5 somePath).take 5, pkDn, 1⟩

/-- A request with the id 256. -/
def requestWith (payload : Bytes) (short : payload.length < 2 ^ 16) : CoapMessage :=
  ⟨[⟨71, [1, 0]⟩], payload, replicate 16 0, short⟩

def someChecksum : Checksum := ⟨[1, 2, 3, 4, 5, 6], rfl⟩

/-- The request `hi`. -/
def hiRequest : CoapMessage := requestWith ([104, 105] ++ replicate 14 14) (by decide)

/-- The handler for a request, with resources and sessions for the given checksums. -/
def handle (signed : Bool) (resource session : Checksum) (message : CoapMessage) : Option Handled :=
  recvMsgHandler plainMd5 xorAes { signed } [resourceOf resource] (some (serverOf session))
    somePath somePeer message

theorem secure_callback_hi :
    ∃ o, handle true someChecksum someChecksum hiRequest = some o ∧ o.called.isSome = true ∧
      ∀ node buf len, o.called = some (node, buf, len) →
        LetIn xorAes (some (serverOf someChecksum)) somePeer hiRequest node buf len := by
  unfold handle
  have admits : Admits plainMd5 xorAes { signed := true } [resourceOf someChecksum]
      (some (serverOf someChecksum)) somePath somePeer hiRequest := by
    rintro node s resource lookup - -
    have isNode : some (resourceOf someChecksum) = some node := resource
    cases isNode
    have isFor := Session.isFor_of_found (find?_some lookup) (by decide)
    cases mem_singleton.mp (mem_of_find?_eq_some lookup)
    exact ⟨isFor, by decide, [104, 105], rfl⟩
  obtain ⟨o, handled, letIn⟩ := (secure_callback_iff rfl).1 admits
  have called : (handle true someChecksum someChecksum hiRequest).map (·.called.isSome) =
      some true := by decide +kernel
  rw [handle, handled] at called
  exact ⟨o, handled, Option.some.inj called, fun node buf len call => (letIn node buf len call).2⟩

/-- An empty payload is read before its first byte, and one that ends in a large byte is written
before its buffer, or handed over longer than it was received where `char` is signed. Checksums
that agree up to a zero byte are taken for one: the session of another device is let in. -/
theorem not_secure_callback :
    (∀ signed ∈ [false, true],
      handle signed someChecksum someChecksum (requestWith [] (by decide)) = none) ∧
      handle false someChecksum someChecksum (requestWith (replicate 16 200) (by decide)) = none ∧
      ((handle true someChecksum someChecksum
        (requestWith (replicate 16 200) (by decide))).bind (·.called)).map (·.2.2) = some 72 ∧
      ((handle true ⟨[1, 0, 3, 4, 5, 6], rfl⟩ ⟨[1, 0, 7, 8, 9, 9], rfl⟩ hiRequest).map
          (·.called.isSome) = some true ∧
        ∀ s ∈ (serverOf ⟨[1, 0, 7, 8, 9, 9], rfl⟩).sessions,
          ¬ s.IsFor somePeer ⟨[1, 0, 3, 4, 5, 6], rfl⟩) := by
  refine ⟨by decide +kernel, by decide +kernel, by decide +kernel, by decide +kernel, ?_⟩
  intro s inside isFor
  cases mem_singleton.mp inside
  have same : ([1, 0, 7, 8, 9, 9] : Bytes) = [1, 0, 3, 4, 5, 6] := congrArg Subtype.val isFor.2
  cases same

end AliosThings.Alcs
