import AliosThings.Sal.AtWorker

/-!
# Whose response a byte belongs to

A byte goes into the response of the first task of the list while `at_task_reponse_begin` is set,
and the flag is set when the line buffer ends with that task's prefix. Both the flag and the buffer
belong to the worker. The flag survives the removal of a task whose wait times out in the middle
of its response, and the next command then receives the rest of it. The buffer is not the stream:
where an out-of-band message was cut out of it, bytes that did not follow each other meet.

The history beside the worker records the stream, how much of it had arrived when the present first
task became the first, and how many bytes arrived since the buffer last lost some.
-/

namespace AliosThings.Sal

open Lib List

/-! ## What one byte can do -/

theorem Oob.collect_events (oob : Oob) (postfix_ buf : Bytes) (c : UInt8) :
    ∀ event ∈ (oob.collect postfix_ buf c).2.2, ∃ data, event = .oobCb oob.oobPrefix data := by
  unfold Oob.collect
  dsimp only
  split_ifs <;> simp

theorem Oob.receive_events (oob : Oob) (buf : Bytes) (c : UInt8) :
    ∀ event ∈ (oob.receive buf c).2.2, ∃ data, event = .oobCb oob.oobPrefix data := by
  unfold Oob.receive
  split
  · cases oob.oobPostfix with
    | none => simp
    | some postfix_ => exact oob.collect_events postfix_ buf c
  · simp

/-- The handlers are called and do nothing else to the surroundings. -/
theorem receiveOobs_events (oobs : List Oob) (buf : Bytes) (c : UInt8) :
    ∀ event ∈ (receiveOobs oobs buf c).2.2, ∃ oob data, event = .oobCb oob data := by
  induction oobs generalizing buf with
  | nil => simp [receiveOobs]
  | cons oob _ ih =>
    intro event called
    rcases mem_append.mp called with first | later
    · exact ⟨_, oob.receive_events buf c event first⟩
    · exact ih _ event later

namespace AtWorker

variable (s : AtWorker)

theorem checkBuffer_eq : ∃ buf, s.checkBuffer = { s with buf } ∧ buf <:+ s.buf := by
  unfold checkBuffer
  split
  · exact ⟨_, rfl, drop_suffix _ _⟩
  · exact ⟨_, rfl, suffix_rfl⟩

/-- The response goes on, or it ends and the task is signalled. -/
inductive Responds (tsk : AtTask) (rest : List AtTask) (c : UInt8) :
    AtWorker × List AtEvent → Prop where
  | waits (flag : s.taskReponseBegin = false) (absent : ¬ s.rspPrefix tsk <:+ s.buf) :
    Responds tsk rest c (s, [])
  | grows (begun : s.taskReponseBegin = true ∨ s.rspPrefix tsk <:+ s.buf) (rsp : Bytes)
      (offset : Nat) :
    Responds tsk rest c
      ({ s with taskL := { tsk with rsp, rspOffset := offset } :: rest, taskReponseBegin := true },
        [.rspWrite tsk.id c])
  | ends (begun : s.taskReponseBegin = true ∨ s.rspPrefix tsk <:+ s.buf) (rsp : Bytes)
      (offset : Nat) (stored : List AtEvent) (writes : ∀ event ∈ stored, event = .rspWrite tsk.id c)
      (done : s.rspSuccessPostfix tsk <:+ rsp ∨ s.rspFailPostfix tsk <:+ rsp ∨
        tsk.rspLen ≤ offset) :
    Responds tsk rest c ({ s with
          taskL := { tsk with rsp, rspOffset := offset } :: rest
          taskReponseBegin := false
          buf := [] },
        stored ++ [.semSignal tsk.id])

/-- What a byte does for the task in front. -/
theorem respond_responds (tsk : AtTask) (rest : List AtTask) (c : UInt8) :
    s.Responds tsk rest c (s.respond tsk rest c) := by
  unfold respond
  split
  case isTrue begun =>
    split
    case isTrue room =>
      dsimp only
      split
      case isTrue done =>
        refine .ends begun _ _ [.rspWrite tsk.id c] (by simp) ?_
        exact done.elim .inl fun done => .inr (.inl done)
      case isFalse => exact .grows begun _ _
    case isFalse full => exact .ends begun _ _ [] (by simp) (.inr (.inr (by omega)))
  case isFalse absent =>
    rw [not_or, Bool.not_eq_true] at absent
    exact .waits absent.1 absent.2

/-- A byte is dropped, or no task waits, or the first task is shown it. -/
theorem receive_cases (c : UInt8) :
    (recvBufferSize ≤ s.buf.length + 1 ∧ s.receive c = (s.checkBuffer, [])) ∨
    (s.taskL = [] ∧ s.receive c = ((s.scan c).1.checkBuffer, (s.scan c).2)) ∨
    (¬ recvBufferSize ≤ s.buf.length + 1 ∧ ∃ tsk rest, s.taskL = tsk :: rest ∧
      ∃ r, ((s.scan c).1.loadFormat tsk).Responds tsk rest c r ∧
        s.receive c = (r.1.checkBuffer, (s.scan c).2 ++ r.2)) := by
  by_cases full : recvBufferSize ≤ s.buf.length + 1
  · exact .inl ⟨full, if_pos full⟩
  cases tasks : s.taskL with
  | nil =>
    refine .inr (.inl ⟨rfl, ?_⟩)
    have same : (s.scan c).1.taskL = [] := tasks
    simp only [receive, if_neg full, same]
  | cons tsk rest =>
    refine .inr (.inr ⟨full, tsk, rest, rfl, _, respond_responds _ tsk rest c, ?_⟩)
    have same : (s.scan c).1.taskL = tsk :: rest := tasks
    simp only [receive, if_neg full, same]

/-- A scan calls OOB callbacks only. -/
theorem scan_events (c : UInt8) : ∀ event ∈ (s.scan c).2, ∃ oob data, event = .oobCb oob data :=
  receiveOobs_events s.oobs (s.buf ++ [c]) c

end AtWorker

/-! ## The history -/

structure AtHistory where
  /-- all bytes received -/
  stream : Bytes
  /-- how many had been when the first task became the first -/
  since : Nat
  /-- how many came since the line buffer last lost a byte to a handler or for want of room -/
  clean : Nat

open AtHistory

variable {pre y : Bytes} {c b : UInt8}

namespace AtHistory

def note (s : AtWorker) : AtLabel → AtHistory → AtHistory
  | .byte c, h =>
    { h with
      stream := h.stream ++ [c]
      clean := if s.buf.length + 1 < recvBufferSize ∧ (s.scan c).1.buf = s.buf ++ [c] then
        h.clean + 1 else 0 }
  | .add _, h => if s.taskL = [] then { h with since := h.stream.length } else h
  | .del id, h =>
    match s.taskL with
    | tsk :: _ => if tsk.id = id then { h with since := h.stream.length } else h
    | [] => h
  | .oob .., h => h

/-- The stream ended with `pre` at some byte received since the first task became the first. -/
def Matched (h : AtHistory) (pre : Bytes) : Prop :=
  ∃ n, h.since < n ∧ n ≤ h.stream.length ∧ pre <:+ h.stream.take n

/-- A match stays one. -/
theorem Matched.byte {h : AtHistory} (matched : h.Matched pre) (s : AtWorker) (c : UInt8) :
    (note s (.byte c) h).Matched pre := by
  obtain ⟨n, after, inside, ends⟩ := matched
  refine ⟨n, after, ?_, ?_⟩
  · rw [note, length_append]
    omega
  · rw [note, take_append_of_le_length inside]
    exact ends

theorem matched_now {h : AtHistory} (since : h.since ≤ h.stream.length) {s : AtWorker}
    (ends : pre <:+ h.stream ++ [c]) : (note s (.byte c) h).Matched pre := by
  refine ⟨h.stream.length + 1, ?_, ?_, ?_⟩
  · show h.since < _
    omega
  · simp [note]
  · rw [note, take_of_length_le (by simp)]
    exact ends

end AtHistory

/-- The first task is not removed in the middle of a response, and a response prefix is not put
together from bytes between which the line buffer lost some. -/
def AtLabel.InTurn (p : AtWorker × AtHistory) : AtLabel → Prop
  | .byte c => ∀ tsk ∈ p.1.taskL.head?,
      p.1.taskReponseBegin = false → p.1.rspPrefix tsk <:+ (p.1.scan c).1.buf →
        (p.1.scan c).1.buf = p.1.buf ++ [c] ∧ (p.1.rspPrefix tsk).length ≤ p.2.clean + 1
  | .del id => ∀ tsk ∈ p.1.taskL.head?, tsk.id = id → p.1.taskReponseBegin = false
  | .add _ => True
  | .oob .. => True

instance (p : AtWorker × AtHistory) (a : AtLabel) : Decidable (a.InTurn p) := by
  rcases a <;> unfold AtLabel.InTurn <;> infer_instance

abbrev atObserved : System (AtWorker × AtHistory) AtLabel :=
  atSystem.observed ⟨[], 0, 0⟩ note

/-! ## The invariant -/

/-- A response has begun only for the first task and after its prefix was seen; the end of the line
buffer is the end of the stream. -/
structure Attributed (p : AtWorker × AtHistory) : Prop where
  since : p.2.since ≤ p.2.stream.length
  begun : p.1.taskReponseBegin = true →
    ∃ tsk rest, p.1.taskL = tsk :: rest ∧ p.2.Matched (p.1.rspPrefix tsk)
  consecutive : ∀ y, y <:+ p.1.buf → y.length ≤ p.2.clean → y <:+ p.2.stream

namespace Attributed

variable {s : AtWorker} {h : AtHistory}

/-- The handlers leave the line buffer in line with the stream. -/
theorem scanned (ok : Attributed (s, h)) (part : y <:+ (s.scan c).1.buf)
    (short : y.length ≤ (note s (.byte c) h).clean) : y <:+ h.stream ++ [c] := by
  simp only [note] at short
  split at short
  case isTrue same =>
    rw [same.2, suffix_concat_iff] at part
    rcases part with rfl | ⟨y', rfl, part⟩
    · exact nil_suffix
    · rw [length_append, length_singleton] at short
      obtain ⟨x, eq⟩ := ok.consecutive y' part (Nat.le_of_succ_le_succ short)
      exact ⟨x, by rw [← append_assoc, eq]⟩
  case isFalse =>
    rw [length_eq_zero_iff.mp (Nat.le_zero.mp short)]
    exact nil_suffix

/-- A byte shown to a task for which the response has begun, by the flag or just now. -/
theorem matched (ok : Attributed (s, h)) {c : UInt8} (room : ¬ recvBufferSize ≤ s.buf.length + 1)
    (inTurn : (AtLabel.byte c).InTurn (s, h)) {tsk : AtTask} {rest : List AtTask}
    (first : s.taskL = tsk :: rest)
    (begun : s.taskReponseBegin = true ∨ s.rspPrefix tsk <:+ (s.scan c).1.buf) :
    (note s (.byte c) h).Matched (s.rspPrefix tsk) := by
  by_cases flag : s.taskReponseBegin = true
  · obtain ⟨tsk', rest', first', matched⟩ := ok.begun flag
    obtain ⟨rfl, rfl⟩ := cons.inj (first.symm.trans first')
    exact matched.byte s c
  have ends := begun.resolve_left flag
  have head : tsk ∈ s.taskL.head? := by rw [first]; rfl
  obtain ⟨same, short⟩ := inTurn tsk head (Bool.eq_false_iff.mpr flag) ends
  refine matched_now ok.since (ok.scanned ends ?_)
  rw [note, if_pos ⟨by omega, same⟩]
  exact short

/-- A byte keeps the responses attributed. -/
theorem receive (ok : Attributed (s, h)) (inTurn : (AtLabel.byte c).InTurn (s, h)) :
    Attributed ((s.receive c).1, note s (.byte c) h) := by
  have since : (note s (.byte c) h).since ≤
      (note s (.byte c) h).stream.length := by
    rw [note, length_append]
    exact Nat.le_add_right_of_le ok.since
  rcases s.receive_cases c with
    ⟨full, eq⟩ | ⟨tasks, eq⟩ | ⟨room, tsk, rest, first, r, responds, eq⟩
  · obtain ⟨buf, eq', part⟩ := s.checkBuffer_eq
    rw [eq, eq']
    refine ⟨since, fun flag => ?_, fun y within short => ?_⟩
    · obtain ⟨tsk, rest, first, matched⟩ := ok.begun flag
      exact ⟨tsk, rest, first, matched.byte s c⟩
    · rw [note, if_neg (by omega)] at short
      rw [length_eq_zero_iff.mp (Nat.le_zero.mp short)]
      exact nil_suffix
  · obtain ⟨buf, eq', part⟩ := (s.scan c).1.checkBuffer_eq
    rw [eq, eq']
    refine ⟨since, fun flag => ?_, fun y within short => ok.scanned (within.trans part) short⟩
    obtain ⟨tsk, rest, first, -⟩ := ok.begun flag
    rw [tasks] at first
    cases first
  · obtain ⟨buf, eq', part⟩ := r.1.checkBuffer_eq
    rw [eq, eq']
    cases responds with
    | waits flag =>
      refine ⟨since, fun begun => ?_, fun y within short => ?_⟩
      · rw [flag] at begun
        cases begun
      · exact ok.scanned (within.trans part) short
    | grows begun =>
      have matched := ok.matched room inTurn first begun
      refine ⟨since, fun _ => ⟨_, rest, rfl, matched⟩, fun y within short => ?_⟩
      exact ok.scanned (within.trans part) short
    | ends =>
      refine ⟨since, nofun, fun y within short => ?_⟩
      rw [suffix_nil.mp (within.trans part)]
      exact nil_suffix

/-- Every step keeps them attributed. -/
theorem step (ok : Attributed (s, h)) {a : AtLabel} (inTurn : a.InTurn (s, h)) :
    Attributed (s.step a, note s a h) := by
  cases a with
  | byte => exact ok.receive inTurn
  | oob =>
    show Attributed (s.atOob _ _ _, h)
    unfold AtWorker.atOob
    split
    · exact ok
    · exact ⟨ok.since, ok.begun, ok.consecutive⟩
  | add tsk =>
    simp only [AtWorker.step, note, AtWorker.taskAdd]
    split
    case isTrue none =>
      refine ⟨le_rfl, fun flag => ?_, ok.consecutive⟩
      obtain ⟨_, _, first, -⟩ := ok.begun flag
      rw [none] at first
      cases first
    case isFalse some =>
      refine ⟨ok.since, fun flag => ?_, ok.consecutive⟩
      obtain ⟨first, rest, eq, matched⟩ := ok.begun flag
      exact ⟨first, rest ++ [tsk], by rw [eq, cons_append], matched⟩
  | del id =>
    cases tasks : s.taskL with
    | nil =>
      simp only [AtWorker.step, note, AtWorker.taskDel, tasks]
      refine ⟨ok.since, fun flag => ?_, ok.consecutive⟩
      obtain ⟨_, _, first, -⟩ := ok.begun flag
      rw [tasks] at first
      cases first
    | cons tsk rest =>
      have head : tsk ∈ s.taskL.head? := by rw [tasks]; rfl
      simp only [AtWorker.step, note, AtWorker.taskDel, tasks]
      split
      case isTrue removed =>
        refine ⟨le_rfl, fun flag => ?_, ok.consecutive⟩
        rw [inTurn tsk head removed] at flag
        cases flag
      case isFalse stays =>
      refine ⟨ok.since, fun flag => ?_, ok.consecutive⟩
      obtain ⟨tsk', rest', first, matched⟩ := ok.begun flag
      obtain ⟨rfl, rfl⟩ := cons.inj (tasks.symm.trans first)
      have kept : (tsk :: rest).filter (fun tsk => decide (tsk.id ≠ id)) =
          tsk :: rest.filter fun tsk => decide (tsk.id ≠ id) :=
        filter_cons_of_pos (decide_eq_true stays)
      exact ⟨tsk, _, kept, matched⟩

theorem reach {p : AtWorker × AtHistory}
    (reach : (atObserved.restrict fun p a => a.InTurn p).Reach p) : Attributed p := by
  refine reach.invariant ?_ ?_
  · rintro ⟨s, h⟩ ⟨⟨-, -, empty, flag, -⟩, rfl⟩
    refine ⟨le_rfl, fun begun => ?_, fun y within short => ?_⟩
    · exact absurd (flag.symm.trans begun) nofun
    · rw [length_eq_zero_iff.mp (Nat.le_zero.mp short)]
  · rintro ⟨s, h⟩ a ok ⟨-, inTurn⟩
    exact ok.step inTurn

end Attributed

/-! ## Bytes and signals -/

variable {id : Nat}

/-- A byte is stored only for the first task, once its response has begun. -/
theorem AtWorker.receive_write {s : AtWorker} (stored : .rspWrite id b ∈ (s.receive c).2) :
    ¬ recvBufferSize ≤ s.buf.length + 1 ∧ ∃ tsk rest, s.taskL = tsk :: rest ∧ tsk.id = id ∧
      (s.taskReponseBegin = true ∨ s.rspPrefix tsk <:+ (s.scan c).1.buf) := by
  rcases s.receive_cases c with ⟨-, eq⟩ | ⟨-, eq⟩ | ⟨room, tsk, rest, first, r, responds, eq⟩
  · rw [eq] at stored
    cases stored
  · rw [eq] at stored
    obtain ⟨_, _, called⟩ := s.scan_events c _ stored
    cases called
  rw [eq] at stored
  rcases mem_append.mp stored with called | stored
  · obtain ⟨_, _, called⟩ := s.scan_events c _ called
    cases called
  cases responds with
  | waits => cases stored
  | grows begun =>
    cases mem_singleton.mp stored
    exact ⟨room, tsk, rest, first, rfl, begun⟩
  | ends begun _ _ _ writes =>
    rcases mem_append.mp stored with stored | stored
    · cases writes _ stored
      exact ⟨room, tsk, rest, first, rfl, begun⟩
    · cases mem_singleton.mp stored

/-- A task is signalled when its response ends with one of its postfixes or its buffer is full. -/
theorem AtWorker.receive_signal {s : AtWorker} (signalled : .semSignal id ∈ (s.receive c).2) :
    ∃ tsk rest, (s.receive c).1.taskL = tsk :: rest ∧ tsk.id = id ∧
      (s.rspSuccessPostfix tsk <:+ tsk.rsp ∨ s.rspFailPostfix tsk <:+ tsk.rsp ∨
        tsk.rspLen ≤ tsk.rspOffset) := by
  rcases s.receive_cases c with ⟨-, eq⟩ | ⟨-, eq⟩ | ⟨-, tsk, rest, first, r, responds, eq⟩
  · rw [eq] at signalled
    cases signalled
  · rw [eq] at signalled
    obtain ⟨_, _, called⟩ := s.scan_events c _ signalled
    cases called
  rw [eq] at signalled ⊢
  obtain ⟨buf, kept, -⟩ := r.1.checkBuffer_eq
  rcases mem_append.mp signalled with called | signalled
  · obtain ⟨_, _, called⟩ := s.scan_events c _ called
    cases called
  cases responds with
  | waits => cases signalled
  | grows => cases mem_singleton.mp signalled
  | ends _ rsp offset _ writes done =>
    rcases mem_append.mp signalled with stored | signalled
    · cases writes _ stored
    · cases mem_singleton.mp signalled
      exact ⟨{ tsk with rsp, rspOffset := offset }, rest, by rw [kept], rfl, done⟩

/-- **Responses are attributed to the right command**, in every run in which the first task is not
removed in the middle of a response and no response prefix is put together from bytes between which
the line buffer lost some: a byte is stored for the first task, and only after the stream has ended
with its prefix while it was the first; a signalled task's response ends with one of its postfixes
or fills its buffer. -/
theorem response_attributed {p : AtWorker × AtHistory}
    (reach : (atObserved.restrict fun p a => a.InTurn p).Reach p) {c : UInt8}
    (inTurn : (AtLabel.byte c).InTurn p) :
    (∀ id b, .rspWrite id b ∈ (p.1.receive c).2 →
      ∃ tsk rest, p.1.taskL = tsk :: rest ∧ tsk.id = id ∧
        (note p.1 (.byte c) p.2).Matched (p.1.rspPrefix tsk)) ∧
    (∀ id, .semSignal id ∈ (p.1.receive c).2 →
      ∃ tsk rest, (p.1.receive c).1.taskL = tsk :: rest ∧ tsk.id = id ∧
        (p.1.rspSuccessPostfix tsk <:+ tsk.rsp ∨ p.1.rspFailPostfix tsk <:+ tsk.rsp ∨
          tsk.rspLen ≤ tsk.rspOffset)) := by
  refine ⟨fun id b stored => ?_, fun id signalled => AtWorker.receive_signal signalled⟩
  obtain ⟨room, tsk, rest, first, named, begun⟩ := AtWorker.receive_write stored
  exact ⟨tsk, rest, first, named, (Attributed.reach reach).matched room inTurn first begun⟩

/-! ## Two commands, `A` and then `B` -/

/-- A worker without handlers whose default postfixes are `OK` and `ER`. -/
def atStart : AtWorker where
  defaultRecvPrefix := [13, 10]
  defaultRecvSuccessPostfix := [79, 75]
  defaultRecvFailPostfix := [69, 82]
  oobs := []
  taskL := []
  buf := []
  taskReponseBegin := false
  rspPrefixLen := 0
  rspSuccessPostfixLen := 0
  rspFailPostfixLen := 0

/-- A command whose response starts with `+`, the byte `name` and `:`. -/
def atCommand (id : Nat) (name : UInt8) : AtTask := ⟨id, [43, name, 58], [], [], [], 0, 16⟩

/-- The response to `A` is complete when `A` is removed; then `B` and its prefix. -/
def inTurnRun : List AtLabel :=
  [.add (atCommand 0 65), .byte 43, .byte 65, .byte 58, .byte 79, .byte 75, .del 0,
    .add (atCommand 1 66), .byte 43, .byte 66]

theorem response_attributed_inTurn :
    .rspWrite 1 58 ∈ ((atObserved.run (atStart, ⟨[], 0, 0⟩) inTurnRun).1.receive 58).2 ∧
    (note (atObserved.run (atStart, ⟨[], 0, 0⟩) inTurnRun).1 (.byte 58)
      (atObserved.run (atStart, ⟨[], 0, 0⟩) inTurnRun).2).Matched [43, 66, 58] := by
  have start : (atObserved.restrict fun p a => a.InTurn p).Reach (atStart, ⟨[], 0, 0⟩) :=
    .init ⟨show atStart.Started by decide, rfl⟩
  have may : (atObserved.restrict fun p a => a.InTurn p).Runs (atStart, ⟨[], 0, 0⟩) inTurnRun := by
    decide
  have stored : .rspWrite 1 58 ∈
      ((atObserved.run (atStart, ⟨[], 0, 0⟩) inTurnRun).1.receive 58).2 := by decide
  obtain ⟨tsk, rest, first, -, matched⟩ :=
    (response_attributed (start.run may) (by decide)).1 1 58 stored
  obtain ⟨rfl, -⟩ := cons.inj (first.symm.trans rfl)
  exact ⟨stored, matched⟩

/-- `A` times out after its prefix, and the next byte is stored as the response to `B`. -/
def timedOutRun : List AtLabel :=
  [.add (atCommand 0 65), .byte 43, .byte 65, .byte 58, .del 0, .add (atCommand 1 66)]

theorem AtHistory.Matched.isInfix {h : AtHistory} (matched : h.Matched pre) :
    pre <:+: h.stream := by
  obtain ⟨n, -, -, ends⟩ := matched
  have front := take_prefix n h.stream
  exact ends.isInfix.trans front.isInfix

/-- The rest of an abandoned response goes to the next command. -/
theorem not_response_attributed :
    ∃ p, atObserved.Reach p ∧ .rspWrite 1 120 ∈ (p.1.receive 120).2 ∧ p.1.taskL = [atCommand 1 66] ∧
      ¬ (note p.1 (.byte 120) p.2).Matched (p.1.rspPrefix (atCommand 1 66)) := by
  have start : atObserved.Reach (atStart, ⟨[], 0, 0⟩) := .init ⟨show atStart.Started by decide, rfl⟩
  have may : atObserved.Runs (atStart, ⟨[], 0, 0⟩) timedOutRun := by decide
  refine ⟨_, start.run may, by decide, by decide, fun matched => ?_⟩
  have absent : ¬ [43, 66, 58] <:+: ([43, 65, 58, 120] : Bytes) := by decide
  exact absent matched.isInfix

end AliosThings.Sal
