import AliosThings.Lib.Bytes
import AliosThings.Lib.Run
import AliosThings.Lib.Occurs

/-!
# The worker of the AT parser

`at_worker` reads the UART byte by byte into a line buffer of 512 bytes. Each byte is first shown
to the registered out-of-band handlers; then, if a command is pending, the first task of the task
list waits for its response prefix, collects its response and is signalled when the response ends
with one of its postfixes or its buffer is used up. A full line buffer is compacted: the worker
keeps as many bytes as the longest of the last command's prefix and postfixes.

The line buffer is the list of its first `offset` bytes. Prefixes and postfixes are C strings, so
the comparisons of the code, which look at the bytes just before `offset`, are `<:+` on lists.
What the worker does to its surroundings (callbacks, bytes of a response, signals) is returned as a
list of events.
-/

namespace AliosThings.Sal

open Lib

/-- `RECV_BUFFER_SIZE`. -/
def recvBufferSize : Nat := 512

/-- `OOB_MAX`. -/
def oobMax : Nat := 5

/-- `oob_t`; `reallen` is the length of `oobinputdata`. -/
structure Oob where
  oobPrefix : Bytes
  oobPostfix : Option Bytes
  maxlen : Nat
  oobinputdata : Bytes
deriving DecidableEq, Repr

/-- `at_task_t`; a prefix or postfix the caller left out is empty. -/
structure AtTask where
  id : Nat
  rspPrefix : Bytes
  rspSuccessPostfix : Bytes
  rspFailPostfix : Bytes
  rsp : Bytes
  rspOffset : Nat
  rspLen : Nat
deriving DecidableEq, Repr

inductive AtEvent where
  /-- the handler's callback, with the collected data if it has a postfix -/
  | oobCb (oobPrefix : Bytes) (data : Option Bytes)
  /-- a byte stored in a task's response buffer -/
  | rspWrite (id : Nat) (c : UInt8)
  /-- a task's semaphore is signalled -/
  | semSignal (id : Nat)
deriving DecidableEq, Repr

/-! ## Out-of-band handlers -/

/-- The data of a handler with a postfix, after the byte `c`, with the line buffer and the
callback. -/
def Oob.collect (oob : Oob) (postfix_ : Bytes) (buf : Bytes) (c : UInt8) :
    Oob × Bytes × List AtEvent :=
  let data := if oob.oobinputdata = [] then oob.oobPrefix.dropLast else oob.oobinputdata
  if data.length < oob.maxlen then
    let data' := data ++ [c]
    if oob.oobPrefix.length + postfix_.length ≤ data'.length ∧ postfix_ <:+ data' then
      ({ oob with oobinputdata := [] }, [], [.oobCb oob.oobPrefix (some data')])
    else ({ oob with oobinputdata := data' }, buf, [])
  else ({ oob with oobinputdata := [] }, [], [])

/-- One round of the loop over the handlers; `buf` ends with the byte `c`. -/
def Oob.receive (oob : Oob) (buf : Bytes) (c : UInt8) : Oob × Bytes × List AtEvent :=
  if oob.oobinputdata ≠ [] ∨ oob.oobPrefix <:+ buf then
    match oob.oobPostfix with
    | none =>
      (oob, buf.take (buf.length - oob.oobPrefix.length), [.oobCb oob.oobPrefix none])
    | some postfix_ =>
      let (oob', buf', events) := oob.collect postfix_ buf c
      (oob', if recvBufferSize - 2 < buf'.length then [] else buf', events)
  else (oob, buf, [])

/-- The loop: every handler sees the buffer as the ones before it left it. -/
def receiveOobs : List Oob → Bytes → UInt8 → List Oob × Bytes × List AtEvent
  | [], buf, _ => ([], buf, [])
  | oob :: oobs, buf, c =>
    let (oob', buf', events) := oob.receive buf c
    let (oobs', buf'', events') := receiveOobs oobs buf' c
    (oob' :: oobs', buf'', events ++ events')

/-! ## The worker -/

/-- The worker's variables, and of `at` what it reads. -/
structure AtWorker where
  defaultRecvPrefix : Bytes
  defaultRecvSuccessPostfix : Bytes
  defaultRecvFailPostfix : Bytes
  oobs : List Oob
  taskL : List AtTask
  buf : Bytes
  /-- `at_task_reponse_begin` -/
  taskReponseBegin : Bool
  rspPrefixLen : Nat
  rspSuccessPostfixLen : Nat
  rspFailPostfixLen : Nat
deriving DecidableEq, Repr

namespace AtWorker

variable (s : AtWorker)

variable (tsk : AtTask)

/-- The task's own prefix, or the default. -/
def rspPrefix : Bytes :=
  if tsk.rspPrefix ≠ [] then tsk.rspPrefix else s.defaultRecvPrefix

def rspSuccessPostfix : Bytes :=
  if tsk.rspSuccessPostfix ≠ [] then tsk.rspSuccessPostfix else s.defaultRecvSuccessPostfix

def rspFailPostfix : Bytes :=
  if tsk.rspFailPostfix ≠ [] then tsk.rspFailPostfix else s.defaultRecvFailPostfix

/-- The lengths stay in the worker's variables when the task is gone. -/
def loadFormat : AtWorker :=
  { s with
    rspPrefixLen := (s.rspPrefix tsk).length
    rspSuccessPostfixLen := (s.rspSuccessPostfix tsk).length
    rspFailPostfixLen := (s.rspFailPostfix tsk).length }

/-- `memcpy_size`. -/
def memcpySize : Nat :=
  max (max s.rspPrefixLen s.rspSuccessPostfixLen) s.rspFailPostfixLen

/-- The label `check_buffer`. With a `memcpy_size` above the buffer size the code copies from
before the buffer; either way no room is left and every further byte is dropped. -/
def checkBuffer : AtWorker :=
  if recvBufferSize - 2 < s.buf.length then
    { s with buf := s.buf.drop (s.buf.length - s.memcpySize) }
  else s

/-- The first task `tsk` of the list is shown the byte `c`, the last of the buffer. -/
def respond (rest : List AtTask) (c : UInt8) : AtWorker × List AtEvent :=
  if s.taskReponseBegin ∨ s.rspPrefix tsk <:+ s.buf then
    if tsk.rspOffset < tsk.rspLen then
      let tsk' := { tsk with rsp := tsk.rsp ++ [c], rspOffset := tsk.rspOffset + 1 }
      if s.rspSuccessPostfix tsk <:+ tsk'.rsp ∨ s.rspFailPostfix tsk <:+ tsk'.rsp then
        ({ s with taskL := tsk' :: rest, taskReponseBegin := false, buf := [] },
          [.rspWrite tsk.id c, .semSignal tsk.id])
      else ({ s with taskL := tsk' :: rest, taskReponseBegin := true }, [.rspWrite tsk.id c])
    else
      ({ s with
          taskL := { tsk with rsp := s.rspFailPostfix tsk } :: rest
          taskReponseBegin := false
          buf := [] },
        [.semSignal tsk.id])
  else (s, [])

/-- The worker after the loop over the handlers, and their callbacks. -/
def scan (c : UInt8) : AtWorker × List AtEvent :=
  let (oobs', buf', events) := receiveOobs s.oobs (s.buf ++ [c]) c
  ({ s with oobs := oobs', buf := buf' }, events)

/-- One round of the worker's loop, for a received byte. -/
def receive (c : UInt8) : AtWorker × List AtEvent :=
  if recvBufferSize ≤ s.buf.length + 1 then (s.checkBuffer, [])
  else
    let (s, events) := s.scan c
    match s.taskL with
    | [] => (s.checkBuffer, events)
    | tsk :: rest =>
      let (s, events') := (s.loadFormat tsk).respond tsk rest c
      (s.checkBuffer, events ++ events')

/-- `at_worker_task_add`. -/
def taskAdd : AtWorker := { s with taskL := s.taskL ++ [tsk] }

/-- `at_worker_task_del`. -/
def taskDel (id : Nat) : AtWorker := { s with taskL := s.taskL.filter fun tsk => tsk.id ≠ id }

/-- `at_oob`, when there is memory for the handler's data. -/
def atOob (oobPrefix : Bytes) (oobPostfix : Option Bytes) (maxlen : Nat) : AtWorker :=
  if oobMax ≤ s.oobs.length ∨ ∃ oob ∈ s.oobs, oob.oobPrefix = oobPrefix then s
  else { s with oobs := s.oobs ++ [⟨oobPrefix, oobPostfix, maxlen, []⟩] }

end AtWorker

/-! ## The system: bytes that arrive, commands that come and go -/

inductive AtLabel where
  | byte (c : UInt8)
  /-- a command is issued: its task is appended to the list -/
  | add (tsk : AtTask)
  /-- its response was signalled, it could not be sent, or its wait timed out -/
  | del (id : Nat)
  | oob (oobPrefix : Bytes) (oobPostfix : Option Bytes) (maxlen : Nat)

def AtWorker.step (s : AtWorker) : AtLabel → AtWorker
  | .byte c => (s.receive c).1
  | .add tsk => s.taskAdd tsk
  | .del id => s.taskDel id
  | .oob oobPrefix oobPostfix maxlen => s.atOob oobPrefix oobPostfix maxlen

/-- A new task has an empty response and room for one; commands, removals, bytes and registrations
come in any order. -/
def AtLabel.Allowed (s : AtWorker) : AtLabel → Prop
  | .add tsk => (∀ tsk' ∈ s.taskL, tsk'.id ≠ tsk.id) ∧ tsk.rsp = [] ∧ tsk.rspOffset = 0 ∧
      0 < tsk.rspLen
  | _ => True

instance (s : AtWorker) (a : AtLabel) : Decidable (a.Allowed s) := by
  cases a <;> unfold AtLabel.Allowed <;> infer_instance

/-- The worker when it starts. -/
def AtWorker.Started (s : AtWorker) : Prop :=
  s.oobs = [] ∧ s.taskL = [] ∧ s.buf = [] ∧ s.taskReponseBegin = false ∧
    s.rspPrefixLen = 0 ∧ s.rspSuccessPostfixLen = 0 ∧ s.rspFailPostfixLen = 0
  deriving Decidable

def atSystem : System AtWorker AtLabel where
  init := AtWorker.Started
  allowed s a := a.Allowed s
  step := AtWorker.step

instance (s : AtWorker) (a : AtLabel) : Decidable (atSystem.allowed s a) :=
  inferInstanceAs (Decidable (a.Allowed s))

/-! ## Out-of-band messages in the received stream

With one handler that has no postfix and no command pending, the worker looks for the handler's
prefix in its line buffer. The buffer is a part of what the occurrences found so far leave of the
stream: an occurrence is cut out of the buffer, and a full buffer is compacted.

Two things can go wrong. The bytes around an occurrence that was cut out meet in the buffer and
may form the prefix, which the stream does not contain there. And what a full buffer keeps is the
length of the last command's prefix and postfixes, nothing before the first command: an occurrence
that lies across the compaction is missed.
-/

open List

namespace AtWorker

/-- The worker after a stream of bytes, and all it did. -/
def receiveAll (s : AtWorker) : Bytes → AtWorker × List AtEvent
  | [] => (s, [])
  | c :: stream =>
    let (s, events) := s.receive c
    let (s, events') := s.receiveAll stream
    (s, events ++ events')

/-- The handler `oob` is the only one, has no postfix, and no command is pending. -/
structure Listens (s : AtWorker) (oob : Oob) : Prop where
  only : s.oobs = [oob]
  plain : oob.oobPostfix = none
  fresh : oob.oobinputdata = []
  quiet : s.taskL = []

variable {c : UInt8}

namespace Listens

variable {s : AtWorker} {oob : Oob}

theorem withBuf (listens : s.Listens oob) (buf : Bytes) : ({ s with buf } : AtWorker).Listens oob :=
  ⟨listens.only, listens.plain, listens.fresh, listens.quiet⟩

/-- A byte that completes the prefix. -/
theorem receive_called (listens : s.Listens oob) (room : s.buf.length ≤ recvBufferSize - 2)
    {buf : Bytes} (ends : s.buf ++ [c] = buf ++ oob.oobPrefix) :
    s.receive c = (({ s with buf } : AtWorker).checkBuffer, [.oobCb oob.oobPrefix none]) := by
  have fits : ¬ recvBufferSize ≤ s.buf.length + 1 := by
    unfold recvBufferSize at *
    omega
  simp [receive, fits, scan, listens.only, receiveOobs, Oob.receive, listens.plain,
    listens.quiet, ends]

/-- A byte that does not. -/
theorem receive_passed (listens : s.Listens oob) (room : s.buf.length ≤ recvBufferSize - 2)
    (absent : ¬ oob.oobPrefix <:+ s.buf ++ [c]) :
    s.receive c = (({ s with buf := s.buf ++ [c] } : AtWorker).checkBuffer, []) := by
  have fits : ¬ recvBufferSize ≤ s.buf.length + 1 := by
    unfold recvBufferSize at *
    omega
  simp [receive, fits, scan, listens.only, receiveOobs, Oob.receive, absent, listens.fresh,
    listens.quiet]

end Listens

/-- The number of bytes in the line buffer, if there were `n` after `text` and `c` is received: an
occurrence is cut out, and of a full buffer `keeps` bytes are kept. -/
def lineLen (word : Bytes) (keeps : Nat) (text : Bytes) (n : Nat) (c : UInt8) : Nat :=
  if occurrences word text < occurrences word (text ++ [c]) then n + 1 - word.length
  else if n + 1 ≤ recvBufferSize - 2 then n + 1 else min (recvBufferSize - 1) keeps

/-- What the occurrences leave of the text ends with the word after the byte `c`, and a line buffer
of `n` bytes takes the byte and holds the others. -/
def Sees (word text : Bytes) (n : Nat) (c : UInt8) : Prop :=
  word <:+ residue word text ++ [c] ∧ word.length ≤ n + 1 ∧ n ≤ recvBufferSize - 2
  deriving Decidable

/-- At each byte of the stream, after `text`, the word is seen exactly if it occurs. -/
def Recognisable (word : Bytes) (keeps : Nat) (text : Bytes) (n : Nat) : Bytes → Prop
  | [] => True
  | c :: stream =>
    (Sees word text n c ↔ occurrences word text < occurrences word (text ++ [c])) ∧
      Recognisable word keeps (text ++ [c]) (lineLen word keeps text n c) stream

def decidableRecognisable (word : Bytes) (keeps : Nat) : (text : Bytes) → (n : Nat) →
    (stream : Bytes) → Decidable (Recognisable word keeps text n stream)
  | _, _, [] => .isTrue trivial
  | text, n, c :: stream =>
    have := decidableRecognisable word keeps (text ++ [c]) (lineLen word keeps text n c) stream
    inferInstanceAs (Decidable (_ ∧ _))

instance (word : Bytes) (keeps : Nat) (text : Bytes) (n : Nat) (stream : Bytes) :
    Decidable (Recognisable word keeps text n stream) :=
  decidableRecognisable word keeps text n stream

/-- The line buffer has `n` bytes. They are the end of what the occurrences leave of `text`, unless
the buffer is full for good. -/
structure Follows (s : AtWorker) (oob : Oob) (keeps : Nat) (text : Bytes) (n : Nat) : Prop where
  listens : s.Listens oob
  size : s.memcpySize = keeps
  length : s.buf.length = n
  part : n ≤ recvBufferSize - 2 → s.buf <:+ residue oob.oobPrefix text
  room : n ≤ recvBufferSize - 2 ∨ n = recvBufferSize - 1 ∧ n ≤ keeps

section

variable {s : AtWorker} {oob : Oob} {text stream : Bytes} {n keeps : Nat}

/-- The handler's callback is called where its prefix is seen, and the worker follows the stream if
it occurs there. -/
theorem Follows.called (follows : s.Follows oob keeps text n) (nonempty : oob.oobPrefix ≠ [])
    (sees : Sees oob.oobPrefix text n c) :
    (s.receive c).2 = [.oobCb oob.oobPrefix none] ∧
      (occurrences oob.oobPrefix text < occurrences oob.oobPrefix (text ++ [c]) →
        (s.receive c).1.Follows oob keeps (text ++ [c])
          (lineLen oob.oobPrefix keeps text n c)) := by
  obtain ⟨ends, long, fits⟩ := sees
  have whole : s.buf ++ [c] <:+ residue oob.oobPrefix text ++ [c] :=
    suffix_append_inj_of_length_eq rfl |>.mpr ⟨follows.part fits, rfl⟩
  have size : (s.buf ++ [c]).length = n + 1 := by
    rw [length_append, follows.length, length_singleton]
  obtain ⟨buf, cut⟩ := suffix_of_suffix_length_le ends whole (by rwa [size])
  have rest : buf.length = n + 1 - oob.oobPrefix.length := by
    rw [← size, ← cut, length_append, Nat.add_sub_cancel]
  have positive := length_pos_of_ne_nil nonempty
  have uncut : ({ s with buf } : AtWorker).checkBuffer = { s with buf } :=
    if_neg (by dsimp only; omega)
  rw [follows.listens.receive_called (by rwa [follows.length]) cut.symm, uncut]
  refine ⟨rfl, fun occurs => ?_⟩
  rw [lineLen, if_pos occurs]
  refine ⟨follows.listens.withBuf buf, follows.size, rest, fun _ => ?_, .inl (by omega)⟩
  rcases occurrences_concat nonempty text c with ⟨-, left⟩ | ⟨same, -⟩
  · rw [← cut, ← left, suffix_append_inj_of_length_eq rfl] at whole
    exact whole.1
  · omega

/-- Where it is not seen nothing is called, and the worker follows the stream if the prefix does not
occur. -/
theorem Follows.passed (follows : s.Follows oob keeps text n) (nonempty : oob.oobPrefix ≠ [])
    (unseen : ¬ Sees oob.oobPrefix text n c) :
    (s.receive c).2 = [] ∧
      (¬ occurrences oob.oobPrefix text < occurrences oob.oobPrefix (text ++ [c]) →
        (s.receive c).1.Follows oob keeps (text ++ [c])
          (lineLen oob.oobPrefix keeps text n c)) := by
  have size : recvBufferSize = 512 := rfl
  obtain ⟨listens, kept, length, part, fits | ⟨full, stuck⟩⟩ := follows
  · have whole : s.buf ++ [c] <:+ residue oob.oobPrefix text ++ [c] :=
      suffix_append_inj_of_length_eq rfl |>.mpr ⟨part fits, rfl⟩
    have longer : (s.buf ++ [c]).length = n + 1 := by
      rw [length_append, length, length_singleton]
    have absent : ¬ oob.oobPrefix <:+ s.buf ++ [c] := fun ends =>
      unseen ⟨ends.trans whole, longer ▸ ends.length_le, fits⟩
    rw [listens.receive_passed (by rwa [length]) absent]
    refine ⟨rfl, fun none => ?_⟩
    have left : residue oob.oobPrefix (text ++ [c]) = residue oob.oobPrefix text ++ [c] := by
      rcases occurrences_concat nonempty text c with ⟨more, -⟩ | ⟨-, left⟩
      · omega
      · exact left
    rw [lineLen, if_neg none]
    by_cases more : n + 1 ≤ recvBufferSize - 2
    · rw [if_pos more, checkBuffer, if_neg (by dsimp only; omega)]
      exact ⟨listens.withBuf _, kept, longer, fun _ => left ▸ whole, .inl more⟩
    · rw [if_neg more, checkBuffer, if_pos (by dsimp only; omega)]
      refine ⟨listens.withBuf _, kept, ?_, fun _ => .trans (drop_suffix ..) (left ▸ whole), ?_⟩
      · show (drop ((s.buf ++ [c]).length - s.memcpySize) (s.buf ++ [c])).length = _
        rw [length_drop, longer, kept]
        omega
      · omega
  · have same : s.receive c = (s, []) := by
      rw [receive, if_pos (by omega), checkBuffer, if_pos (by omega), kept, length,
        Nat.sub_eq_zero_of_le stuck, drop_zero]
    rw [same]
    refine ⟨rfl, fun none => ?_⟩
    rw [lineLen, if_neg none, if_neg (by omega), Nat.min_eq_left (by omega), ← full]
    exact ⟨listens, kept, length, fun fits => by omega, .inr ⟨full, stuck⟩⟩

/-- At each byte the handler has been called for the occurrences so far, exactly if they can be
recognised. -/
theorem Follows.receiveAll (follows : s.Follows oob keeps text n) (nonempty : oob.oobPrefix ≠ []) :
    (∀ x, x <+: stream →
        replicate (occurrences oob.oobPrefix text) (.oobCb oob.oobPrefix none) ++
            (s.receiveAll x).2 =
          replicate (occurrences oob.oobPrefix (text ++ x)) (.oobCb oob.oobPrefix none)) ↔
      Recognisable oob.oobPrefix keeps text n stream := by
  induction stream generalizing s text n with
  | nil => simp [Recognisable, AtWorker.receiveAll]
  | cons c stream ih =>
    have first (x : Bytes) : (s.receiveAll (c :: x)).2 =
        (s.receive c).2 ++ ((s.receive c).1.receiveAll x).2 := rfl
    simp only [prefix_cons_iff, Recognisable]
    by_cases right : Sees oob.oobPrefix text n c ↔
        occurrences oob.oobPrefix text < occurrences oob.oobPrefix (text ++ [c])
    · have next : replicate (occurrences oob.oobPrefix text) (.oobCb oob.oobPrefix none) ++
            (s.receive c).2 =
          replicate (occurrences oob.oobPrefix (text ++ [c])) (.oobCb oob.oobPrefix none) ∧
          (s.receive c).1.Follows oob keeps (text ++ [c])
            (lineLen oob.oobPrefix keeps text n c) := by
        by_cases sees : Sees oob.oobPrefix text n c
        · obtain ⟨events, goesOn⟩ := follows.called nonempty sees
          refine ⟨?_, goesOn (right.mp sees)⟩
          rcases occurrences_concat nonempty text c with ⟨more, -⟩ | ⟨same, -⟩
          · rw [events, more, replicate_succ']
          · exact absurd (right.mp sees) (by omega)
        · obtain ⟨events, goesOn⟩ := follows.passed nonempty sees
          refine ⟨?_, goesOn (sees ∘ right.mpr)⟩
          rcases occurrences_concat nonempty text c with ⟨more, -⟩ | ⟨same, -⟩
          · exact absurd (right.mpr (by omega)) sees
          · rw [events, same, append_nil]
      rw [← ih next.2, and_iff_right right, ← next.1]
      constructor
      · intro all x within
        have here := all (c :: x) (.inr ⟨x, rfl, within⟩)
        rwa [first, ← append_assoc, append_cons] at here
      · rintro all _ (rfl | ⟨x, rfl, within⟩)
        · simp [AtWorker.receiveAll]
        · rw [first, ← append_assoc, append_cons]
          exact all x within
    · refine iff_of_false (fun all => ?_) fun both => right both.1
      have here := congrArg List.length (all [c] (.inr ⟨[], rfl, nil_prefix⟩))
      rw [first, AtWorker.receiveAll, append_nil, length_append, length_replicate,
        length_replicate] at here
      apply right
      by_cases sees : Sees oob.oobPrefix text n c
      · rw [(follows.called nonempty sees).1, length_singleton] at here
        exact iff_of_true sees (by omega)
      · rw [(follows.passed nonempty sees).1, length_nil] at here
        exact iff_of_false sees (by omega)

end

/-- A worker with the one handler for `AB`, after a command whose longest delimiter has `len`
bytes. -/
def listensAb (len : Nat) : AtWorker where
  defaultRecvPrefix := []
  defaultRecvSuccessPostfix := []
  defaultRecvFailPostfix := []
  oobs := [⟨[65, 66], none, 0, []⟩]
  taskL := []
  buf := []
  taskReponseBegin := false
  rspPrefixLen := len
  rspSuccessPostfixLen := 0
  rspFailPostfixLen := 0

end AtWorker

end AliosThings.Sal
