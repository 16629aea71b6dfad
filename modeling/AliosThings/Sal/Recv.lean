import AliosThings.Lib.Bytes
import AliosThings.Lib.Run

/-!
# What a socket receives

`sal_packet_input` puts a packet into the mailbox of its socket and counts it in `rcvevent`;
`sal_recvfrom` copies from the packet in `lastdata`, from `lastoffset` on, and takes packets from
the mailbox as long as its loop goes on. The loop of a TCP socket compares each packet with the
whole buffer length, not with what is left of the buffer. `mem` are the bytes stored so far.

Packets have at most 65535 bytes and the mailbox holds eight of them, so that the 16-bit counters
do not overflow. A call that waits is looked at when a packet has come, or when it has waited in
vain.
-/

namespace AliosThings.Sal

open Lib List

/-- `sal_netbuf_t`, with the address and the port of the sender. -/
structure Netbuf where
  payload : Bytes
  peer : Nat × Nat

/-- `struct sal_sock` and the mailbox of its connection; `remote` is the remote end of a TCP
connection. -/
structure SalSock where
  remote : Option (Nat × Nat)
  recvmbox : List Netbuf := []
  lastdata : Option Netbuf := none
  lastoffset : Nat := 0
  rcvevent : Int := 0

open SalSock

/-- The result of `sal_recvfrom`: -1, or the bytes stored and the address put into `from`. -/
inductive Received where
  | fails
  | got (mem : Bytes) (peer : Option (Nat × Nat))
  deriving DecidableEq

namespace SalSock

variable (len : Nat) (peek nowait : Bool)

def post (s : SalSock) (buf : Netbuf) : SalSock :=
  { s with recvmbox := s.recvmbox ++ [buf], rcvevent := s.rcvevent + 1 }

/-- `sal_packet_input`; `posts` says whether memory and the mailbox have room. -/
def salPacketInput (s : SalSock) (data : Bytes) (peer : Nat × Nat) (posts : Bool) : SalSock :=
  if data = [] ∨ posts = false then s else s.post ⟨data, peer⟩

/-- The packet that a round of the loop copies from. -/
def fetch (s : SalSock) : Option (Netbuf × SalSock) :=
  match s.lastdata with
  | some buf => some (buf, s)
  | none =>
    if nowait = true ∧ s.rcvevent ≤ 0 then none
    else
      match s.recvmbox with
      | [] => none
      | buf :: rest => some (buf,
          { s with recvmbox := rest, rcvevent := s.rcvevent - 1, lastdata := some buf })

def recvLoop : Nat → SalSock → Bytes → Received × SalSock
  | 0, s, _ => (.fails, s)
  | fuel + 1, s, mem =>
    match s.fetch nowait with
    | none => (if mem.length > 0 then .got mem none else .fails, s)
    | some (buf, s) =>
      let buflen := buf.payload.length - s.lastoffset
      let copylen := if len > buflen then buflen else len
      let mem := mem ++ (buf.payload.drop s.lastoffset).take copylen
      let tcp := s.remote.isSome = true
      if tcp ∧ len < copylen then (.fails, s)
      else
        let next := if peek = true then s
          else if tcp ∧ buflen > copylen then
            { s with lastdata := some buf, lastoffset := s.lastoffset + copylen }
          else { s with lastdata := none, lastoffset := 0 }
        if ¬ tcp ∨ len = copylen ∨ s.rcvevent ≤ 0 ∨ peek = true then
          (.got mem (some (s.remote.getD buf.peer)), next)
        else recvLoop fuel next mem

/-- `peek` and `nowait` are what the code reads off its flags and off the connection. Each round
but the first takes a packet from the mailbox. -/
def salRecvfrom (s : SalSock) : Received × SalSock :=
  if len = 0 then (.fails, s) else s.recvLoop len peek nowait (s.recvmbox.length + 1) []

/-- What waits to be received: the rest of the packet in `lastdata`, and the mailbox. -/
def waiting (s : SalSock) : List Netbuf :=
  match s.lastdata with
  | some buf => { buf with payload := buf.payload.drop s.lastoffset } :: s.recvmbox
  | none => s.recvmbox

def unread (s : SalSock) : Bytes := s.waiting.flatMap Netbuf.payload

end SalSock

inductive SockCall where
  | packetInput (data : Bytes) (peer : Nat × Nat) (posts : Bool)
  | recvfrom (len : Nat) (peek nowait : Bool)

namespace SockCall

def step (s : SalSock) : SockCall → SalSock
  | packetInput data peer posts => s.salPacketInput data peer posts
  | recvfrom len peek nowait => (s.salRecvfrom len peek nowait).2

/-- The buffer is filled from one packet, or everything that waits fits into it. -/
def Fits (s : SalSock) : SockCall → Prop
  | recvfrom len peek _ => s.remote.isSome = true → peek = false →
      (∃ buf ∈ s.waiting.head?, len ≤ buf.payload.length) ∨ s.unread.length ≤ len
  | packetInput _ _ _ => True

/-- A call that takes what it returns. -/
def Reads : SockCall → Prop
  | recvfrom len peek _ => 0 < len ∧ peek = false
  | packetInput _ _ _ => False

end SockCall

/-- The packets accepted, and the results of the calls that took something. -/
structure RecvHistory where
  accepted : List Netbuf := []
  returned : List Bytes := []

namespace RecvHistory

def took (h : RecvHistory) (peek : Bool) : Received → RecvHistory
  | .fails => h
  | .got mem _ => if peek = true then h else { h with returned := h.returned ++ [mem] }

def note (s : SalSock) (c : SockCall) (h : RecvHistory) : RecvHistory :=
  match c with
  | .packetInput data peer posts =>
    if data = [] ∨ posts = false then h else { h with accepted := h.accepted ++ [⟨data, peer⟩] }
  | .recvfrom len peek nowait => h.took peek (s.salRecvfrom len peek nowait).1

/-- The bytes of the accepted packets, one after the other. -/
def arrived (h : RecvHistory) : Bytes := h.accepted.flatMap Netbuf.payload

end RecvHistory

/-- A socket with the history of its packets, which have at most 65535 bytes. -/
def receiver : System (SalSock × RecvHistory) SockCall where
  init p := ∃ remote, p = ({ remote }, {})
  allowed _ c := ∀ data peer posts, c = .packetInput data peer posts → data.length < 2 ^ 16
  step p c := (c.step p.1, p.2.note p.1 c)

/-- No call overruns its buffer. -/
def fitting : System (SalSock × RecvHistory) SockCall := receiver.restrict fun p c => c.Fits p.1

/-- What the next call is due, if it has a buffer: on a TCP socket bytes of the stream, on a UDP
socket the next datagram. -/
structure Serves (s : SalSock) (h : RecvHistory) : Prop where
  stream : s.remote.isSome = true → ∃ left, h.arrived = h.returned.flatten ++ left ∧
    ∀ len peek nowait, 0 < len → (SockCall.recvfrom len peek nowait).Fits s →
      match (s.salRecvfrom len peek nowait).1 with
      | .fails => left = []
      | .got mem _ => mem ≠ [] ∧ mem.length ≤ len ∧ mem <+: left
  datagrams : s.remote = none → ∀ len peek nowait, 0 < len →
    (s.salRecvfrom len peek nowait).1 = match h.accepted[h.returned.length]? with
      | none => .fails
      | some buf => .got (buf.payload.take len) (some buf.peer)

/-! ## One call -/

/-- The counters of the socket agree. -/
structure SockOk (s : SalSock) : Prop where
  event : s.rcvevent = s.recvmbox.length
  nonempty : ∀ buf ∈ s.waiting, buf.payload ≠ []
  fresh : s.lastdata = none ∨ s.remote = none → s.lastoffset = 0

variable {s : SalSock} {buf : Netbuf} {rest : List Netbuf} {len fuel : Nat} {mem : Bytes}

/-- A packet is in `lastdata`, or it is the first of the mailbox and is put there. -/
theorem SockOk.fetch_eq (ok : SockOk s) (is : s.waiting = buf :: rest) (nowait : Bool) :
    ∃ whole : Netbuf, buf = { whole with payload := whole.payload.drop s.lastoffset } ∧
      s.fetch nowait = some (whole,
        { s with lastdata := some whole, recvmbox := rest, rcvevent := rest.length }) := by
  have event := ok.event
  unfold waiting at is
  unfold fetch
  cases last : s.lastdata with
  | some whole =>
    rw [last] at is
    obtain ⟨first, mbox⟩ := cons.inj is
    refine ⟨whole, first.symm, ?_⟩
    rw [← mbox, ← event]
    simp only [← last]
  | none =>
    rw [last] at is
    have mbox : s.recvmbox = buf :: rest := is
    rw [mbox, length_cons] at event
    have counted : s.rcvevent - 1 = rest.length := by omega
    have waits : ¬ (nowait = true ∧ s.rcvevent ≤ 0) := by omega
    refine ⟨buf, ?_, ?_⟩
    · rw [ok.fresh (.inl last)]
      rfl
    · simp only [if_neg waits, mbox, counted]

theorem SockOk.fetch_nil (none : s.waiting = []) (nowait : Bool) : s.fetch nowait = .none := by
  unfold waiting at none
  unfold fetch
  cases last : s.lastdata with
  | some =>
    rw [last] at none
    cases none
  | none =>
    rw [last] at none
    simp only [none]
    split <;> rfl

/-- One round of the loop. -/
theorem SockOk.round (ok : SockOk s) (is : s.waiting = buf :: rest) (len fuel : Nat)
    (peek nowait : Bool) (mem : Bytes) :
    ∃ s', (SockOk s' ∧ s'.remote = s.remote ∧ s'.waiting =
        if peek = true then buf :: rest
        else if s.remote.isSome = true ∧ len < buf.payload.length then
          { buf with payload := buf.payload.drop len } :: rest
        else rest) ∧
      s.recvLoop len peek nowait (fuel + 1) mem =
        if s.remote = none ∨ len ≤ buf.payload.length ∨ rest = [] ∨ peek = true then
          (.got (mem ++ buf.payload.take len) (some (s.remote.getD buf.peer)), s')
        else s'.recvLoop len peek nowait fuel (mem ++ buf.payload.take len) := by
  obtain ⟨whole, rfl, fetched⟩ := ok.fetch_eq is nowait
  have empty : (rest.length : Int) ≤ 0 ↔ rest = [] := by
    rw [← length_eq_zero_iff]
    omega
  have udp : ¬ s.remote.isSome = true ↔ s.remote = none := by simp
  have later b (inRest : b ∈ rest) : b.payload ≠ [] :=
    ok.nonempty b (is ▸ mem_cons_of_mem _ inRest)
  rw [recvLoop, fetched]
  simp only [← length_drop, empty, udp]
  generalize data : whole.payload.drop s.lastoffset = left at *
  have some := ok.nonempty _ (is ▸ mem_cons_self)
  have copies : left.take (if len > left.length then left.length else len) = left.take len := by
    split
    · rw [take_length, take_of_length_le (by omega)]
    · rfl
  have fills : (len = if len > left.length then left.length else len) ↔ len ≤ left.length := by
    split <;> omega
  have partly : (left.length > if len > left.length then left.length else len) ↔
      len < left.length := by
    split <;> omega
  have never : ¬ (s.remote.isSome = true ∧
      len < if len > left.length then left.length else len) := by
    split <;> omega
  simp only [copies, fills, partly, if_neg never]
  refine ⟨_, ?_, rfl⟩
  -- the packet stays in `lastdata` from which `n` bytes have been taken
  have stays (n : Nat) (less : n < left.length) (udp : s.remote = none → n = 0) :
      SockOk { s with
        lastdata := whole, lastoffset := s.lastoffset + n, recvmbox := rest
        rcvevent := rest.length } := by
    refine ⟨rfl, fun b inList => ?_, fun fresh => ?_⟩
    · rcases mem_cons.mp inList with rfl | inRest
      · refine length_pos_iff.mp ?_
        rw [← drop_drop, data, length_drop]
        omega
      · exact later b inRest
    · have isUdp := fresh.resolve_left nofun
      rw [udp isUdp, ok.fresh (.inr isUdp)]
  split
  · exact ⟨stays 0 (length_pos_iff.mpr some) fun _ => rfl, rfl, by rw [← data]; rfl⟩
  split
  · next both =>
    rw [if_neg (Nat.not_lt.mpr both.2.le)]
    refine ⟨stays len both.2 fun udp => absurd both.1 (by simp [udp]), rfl, ?_⟩
    rw [← data, drop_drop]
    rfl
  · exact ⟨⟨rfl, later, fun _ => rfl⟩, rfl, rfl⟩

/-- Of a stream a call takes the next bytes; they come from one packet if it fills the buffer. -/
theorem SockOk.recvLoop_stream (len : Nat) (nowait : Bool) (tcp : s.remote.isSome = true)
    (ok : SockOk s) (is : s.waiting = buf :: rest) (enough : rest.length ≤ fuel) (mem : Bytes) :
    ∃ took peer s', s.recvLoop len false nowait (fuel + 1) mem = (.got (mem ++ took) peer, s') ∧
      SockOk s' ∧ s'.remote = s.remote ∧ s.unread = took ++ s'.unread ∧
      buf.payload.take len <+: took ∧
      (len ≤ buf.payload.length → took = buf.payload.take len) := by
  induction fuel using Nat.strong_induction_on generalizing s buf rest mem with
  | _ fuel ih =>
    obtain ⟨s', ⟨ok', remote, waiting⟩, eq⟩ := ok.round is len fuel false nowait mem
    have unread : s.unread = buf.payload ++ rest.flatMap Netbuf.payload := by
      rw [SalSock.unread, is, flatMap_cons]
    rw [if_neg nofun] at waiting
    by_cases stop : len ≤ buf.payload.length ∨ rest = []
    · rw [if_pos (by tauto)] at eq
      refine ⟨_, _, s', eq, ok', remote, ?_, prefix_rfl, fun _ => rfl⟩
      rw [unread, SalSock.unread, waiting]
      split
      · rw [flatMap_cons, ← append_assoc, take_append_drop]
      · next not => rw [take_of_length_le (by simpa [tcp] using not)]
    · -- the packet is used up, and the loop goes on with the next one
      obtain ⟨more, some⟩ := not_or.mp stop
      obtain ⟨next, later, rfl⟩ := exists_cons_of_ne_nil some
      obtain ⟨fuel, rfl⟩ := Nat.exists_eq_add_one.mpr (Nat.zero_lt_of_lt enough)
      have all : buf.payload.take len = buf.payload := take_of_length_le (by omega)
      rw [if_neg fun both => more both.2.le] at waiting
      rw [if_neg (by simp [Option.isSome_iff_ne_none.mp tcp, more]), all] at eq
      obtain ⟨took, peer, s₁, eq₁, ok₁, remote₁, unread₁, -, -⟩ := ih fuel (Nat.lt_succ_self _)
        (remote ▸ tcp) ok' waiting (Nat.le_of_succ_le_succ enough) (mem ++ buf.payload)
      refine ⟨buf.payload ++ took, peer, s₁, ?_, ok₁, remote₁.trans remote, ?_, ?_,
        fun le => absurd le more⟩
      · rw [eq, eq₁, append_assoc]
      · rw [unread, append_assoc, ← unread₁, SalSock.unread, waiting]
      · rw [all]
        exact prefix_append ..

/-- What a call with a buffer does when a packet waits. -/
structure Takes (s : SalSock) (len : Nat) (peek : Bool) (buf : Netbuf) (rest : List Netbuf)
    (mem : Bytes) (peer : Option (Nat × Nat)) (s' : SalSock) : Prop where
  ok : SockOk s'
  remote : s'.remote = s.remote
  front : buf.payload.take len <+: mem
  peeks : peek = true → s'.waiting = s.waiting ∧ mem = buf.payload.take len
  stream : s.remote.isSome = true → peek = false →
    s.unread = mem ++ s'.unread ∧ (len ≤ buf.payload.length → mem = buf.payload.take len)
  datagram : s.remote = none → mem = buf.payload.take len ∧ peer = some buf.peer ∧
    (peek = false → s'.waiting = rest)

/-- A call takes from the first packet. -/
theorem SockOk.salRecvfrom_takes (ok : SockOk s) (pos : 0 < len) (is : s.waiting = buf :: rest)
    (peek nowait : Bool) :
    ∃ mem peer s', s.salRecvfrom len peek nowait = (.got mem peer, s') ∧
      Takes s len peek buf rest mem peer s' := by
  rw [salRecvfrom, if_neg pos.ne']
  by_cases one : peek = true ∨ s.remote = none
  · obtain ⟨s', ⟨ok', remote, waiting⟩, eq⟩ := ok.round is len s.recvmbox.length peek nowait []
    rw [if_pos (by tauto)] at eq
    refine ⟨_, _, s', eq, ok', remote, prefix_rfl, ?_, ?_, ?_⟩
    · intro peeks
      rw [waiting, if_pos peeks, is]
      exact ⟨rfl, rfl⟩
    · intro tcp notPeek
      rcases one with peeks | udp
      · cases notPeek.symm.trans peeks
      · rw [udp] at tcp
        cases tcp
    · intro udp
      refine ⟨rfl, by rw [udp]; rfl, fun notPeek => ?_⟩
      rw [waiting, notPeek, udp]
      rfl
  · obtain ⟨notPeek, tcp⟩ := not_or.mp one
    rw [Bool.not_eq_true] at notPeek
    subst notPeek
    have rounds : rest.length ≤ s.recvmbox.length := by
      unfold waiting at is
      split at is
      · rw [(cons.inj is).2]
      · rw [is]
        exact Nat.le_succ _
    obtain ⟨mem, peer, s', eq, ok', remote, unread, front, one⟩ :=
      ok.recvLoop_stream len nowait (Option.isSome_iff_ne_none.mpr tcp) is rounds []
    exact ⟨mem, peer, s', eq, ok', remote, front, nofun, fun _ _ => ⟨unread, one⟩,
      fun udp => absurd udp tcp⟩

theorem SockOk.salRecvfrom_nil (none : s.waiting = []) (len : Nat) (peek nowait : Bool) :
    s.salRecvfrom len peek nowait = (.fails, s) := by
  unfold salRecvfrom
  split
  · rfl
  · rw [recvLoop, SockOk.fetch_nil none]
    rfl

theorem SockOk.takes_ne (ok : SockOk s) (is : s.waiting = buf :: rest) (pos : 0 < len)
    (front : buf.payload.take len <+: mem) : mem ≠ [] := by
  rintro rfl
  rcases take_eq_nil_iff.mp (List.prefix_nil.mp front) with zero | nil
  · omega
  · exact ok.nonempty buf (is ▸ mem_cons_self) nil

/-! ## The history -/

/-- The packets accepted are those taken, and those that wait. -/
structure RecvOk (s : SalSock) (h : RecvHistory) : Prop where
  sock : SockOk s
  stream : s.remote.isSome = true → h.arrived = h.returned.flatten ++ s.unread
  datagrams : s.remote = none →
    ∃ before, h.accepted = before ++ s.waiting ∧ before.length = h.returned.length

variable {h : RecvHistory} {peek nowait : Bool}

/-- A packet is added at the end. -/
theorem post_recvOk (ok : RecvOk s h) (some : buf.payload ≠ []) :
    RecvOk (s.post buf) { h with accepted := h.accepted ++ [buf] } := by
  have waiting : (s.post buf).waiting = s.waiting ++ [buf] := by
    unfold waiting post
    cases s.lastdata with
    | none | some => rfl
  refine ⟨⟨?_, ?_, ok.sock.fresh⟩, ?_, ?_⟩
  · show s.rcvevent + 1 = ((s.recvmbox ++ [buf]).length : Int)
    rw [ok.sock.event, length_append]
    rfl
  · intro b inList
    rw [waiting, mem_append, mem_singleton] at inList
    rcases inList with old | rfl
    · exact ok.sock.nonempty b old
    · exact some
  · intro tcp
    rw [unread, waiting, flatMap_append, ← append_assoc]
    show (h.accepted ++ [buf]).flatMap Netbuf.payload = _
    rw [flatMap_append]
    exact congrArg (· ++ _) (ok.stream tcp)
  · intro udp
    obtain ⟨before, eq, length⟩ := ok.datagrams udp
    refine ⟨before, ?_, length⟩
    rw [waiting, ← append_assoc, ← eq]

/-- One call of `sal_recvfrom`: what it takes is what it returns. -/
theorem salRecvfrom_recvOk (ok : RecvOk s h) (len : Nat) (peek nowait : Bool) :
    RecvOk (s.salRecvfrom len peek nowait).2
      (h.took peek (s.salRecvfrom len peek nowait).1) := by
  rcases Nat.eq_zero_or_pos len with rfl | pos
  · exact ok
  cases is : s.waiting
  case nil =>
    rw [SockOk.salRecvfrom_nil is]
    exact ok
  case cons buf rest =>
  obtain ⟨mem, peer, s', eq, takes⟩ := ok.sock.salRecvfrom_takes pos is peek nowait
  rw [eq]
  cases peek with
  | true =>
    obtain ⟨waiting, -⟩ := takes.peeks rfl
    refine ⟨takes.ok, ?_, ?_⟩
    · intro tcp
      rw [unread, waiting]
      exact ok.stream (takes.remote ▸ tcp)
    · intro udp
      rw [waiting]
      exact ok.datagrams (takes.remote ▸ udp)
  | false =>
    refine ⟨takes.ok, ?_, ?_⟩
    · intro tcp
      rw [takes.remote] at tcp
      show h.arrived = (h.returned ++ [mem]).flatten ++ s'.unread
      rw [ok.stream tcp, (takes.stream tcp rfl).1, flatten_append, flatten_singleton, append_assoc]
    · intro udp
      rw [takes.remote] at udp
      obtain ⟨before, accepted, length⟩ := ok.datagrams udp
      refine ⟨before ++ [buf], ?_, ?_⟩
      · rw [(takes.datagram udp).2.2 rfl, append_assoc, singleton_append, ← is]
        exact accepted
      · show _ = (h.returned ++ [mem]).length
        rw [length_append, length_append, length]
        rfl

/-- Nothing is lost or repeated in any run. -/
theorem reach_recvOk (reach : receiver.Reach (s, h)) : RecvOk s h := by
  refine reach.invariant (P := fun p => RecvOk p.1 p.2) ?_ ?_
  · rintro _ ⟨remote, rfl⟩
    exact ⟨⟨rfl, nofun, fun _ => rfl⟩, fun _ => rfl, fun _ => ⟨[], rfl, rfl⟩⟩
  rintro ⟨s, h⟩ c ok -
  cases c with
  | packetInput data peer posts =>
    show RecvOk (if data = [] ∨ posts = false then _ else _) (if _ then _ else _)
    split
    · exact ok
    · exact post_recvOk ok fun empty => absurd (Or.inl empty) ‹_›
  | recvfrom len peek nowait => exact salRecvfrom_recvOk ok len peek nowait

theorem RecvOk.serves (ok : RecvOk s h) : Serves s h where
  stream tcp := by
    refine ⟨s.unread, ok.stream tcp, ?_⟩
    intro len peek nowait pos fits
    cases is : s.waiting
    case nil =>
      rw [SockOk.salRecvfrom_nil is, unread, is]
      rfl
    case cons buf rest =>
    obtain ⟨mem, peer, s', eq, takes⟩ := ok.sock.salRecvfrom_takes pos is peek nowait
    rw [eq]
    refine ⟨ok.sock.takes_ne is pos takes.front, ?_⟩
    cases peek
    case true =>
      rw [(takes.peeks rfl).2, unread, is, flatMap_cons]
      have front := take_prefix len buf.payload
      exact ⟨length_take_le .., front.trans (prefix_append ..)⟩
    obtain ⟨unread, one⟩ := takes.stream tcp rfl
    have next : mem <+: s.unread := ⟨_, unread.symm⟩
    refine ⟨?_, next⟩
    rcases fits tcp rfl with ⟨b, isFirst, fills⟩ | all
    · rw [is] at isFirst
      cases isFirst
      rw [one fills]
      exact length_take_le ..
    · exact next.length_le.trans all
  datagrams udp len peek nowait pos := by
    obtain ⟨before, accepted, length⟩ := ok.datagrams udp
    have head : h.accepted[h.returned.length]? = s.waiting.head? := by
      rw [accepted, ← length, getElem?_append_right le_rfl, Nat.sub_self,
        head?_eq_getElem?]
    rw [head]
    cases is : s.waiting with
    | nil => rw [SockOk.salRecvfrom_nil is]; rfl
    | cons =>
      obtain ⟨mem, peer, s', eq, takes⟩ := ok.sock.salRecvfrom_takes pos is peek nowait
      obtain ⟨memEq, peerEq, -⟩ := takes.datagram udp
      rw [eq, memEq, peerEq]
      rfl

/-- A call that takes what it returns makes the stream shorter. -/
theorem RecvOk.reads {c : SockCall} (ok : RecvOk s h) (tcp : s.remote.isSome = true)
    (reads : c.Reads) :
    RecvOk (c.step s) (h.note s c) ∧ (c.step s).remote = s.remote ∧
      (h.note s c).arrived = h.arrived ∧ (c.step s).unread.length ≤ s.unread.length - 1 := by
  cases c
  case packetInput data peer posts => exact reads.elim
  case recvfrom len peek nowait =>
  obtain ⟨pos, rfl⟩ := reads
  refine ⟨salRecvfrom_recvOk ok len false nowait, ?_⟩
  show (s.salRecvfrom len false nowait).2.remote = _ ∧
    (h.took false (s.salRecvfrom len false nowait).1).arrived = _ ∧
    (s.salRecvfrom len false nowait).2.unread.length ≤ _
  cases is : s.waiting with
  | nil =>
    rw [SockOk.salRecvfrom_nil is, unread, is]
    exact ⟨rfl, rfl, Nat.le_refl 0⟩
  | cons buf rest =>
    obtain ⟨mem, peer, s', eq, takes⟩ := ok.sock.salRecvfrom_takes pos is false nowait
    have some := length_pos_iff.mpr (ok.sock.takes_ne is pos takes.front)
    rw [eq, (takes.stream tcp rfl).1, length_append]
    exact ⟨takes.remote, rfl, by show s'.unread.length ≤ _; omega⟩

/-- Enough calls return all that has arrived. -/
theorem RecvOk.run_reads (ok : RecvOk s h) (tcp : s.remote.isSome = true) {calls : List SockCall}
    (reads : ∀ c ∈ calls, c.Reads) (enough : s.unread.length ≤ calls.length) :
    (receiver.run (s, h) calls).2.returned.flatten = h.arrived := by
  induction calls generalizing s h with
  | nil =>
    have empty := eq_nil_of_length_eq_zero (Nat.le_zero.mp enough)
    rw [ok.stream tcp, empty, append_nil]
    rfl
  | cons _ _ ih =>
    obtain ⟨read, later⟩ := forall_mem_cons.mp reads
    obtain ⟨ok', remote, arrived, less⟩ := ok.reads tcp read
    rw [← arrived]
    exact ih ok' (remote ▸ tcp) later (less.trans (Nat.sub_le_of_le_add enough))

/-- Calls that fit return what has arrived, in order and nothing else, and in the end all of it. -/
theorem socket_receives {s : SalSock} {h : RecvHistory} (reach : fitting.Reach (s, h)) :
    Serves s h ∧ ∀ calls, (∀ c ∈ calls, c.Reads) → fitting.Runs (s, h) calls →
      s.remote.isSome = true → h.arrived.length ≤ h.returned.flatten.length + calls.length →
      (receiver.run (s, h) calls).2.returned.flatten = h.arrived := by
  have ok := reach_recvOk reach.of_restrict
  refine ⟨ok.serves, ?_⟩
  intro calls reads _ tcp enough
  rw [ok.stream tcp, length_append] at enough
  exact ok.run_reads tcp reads (Nat.le_of_add_le_add_left enough)

/-- A connected socket on which two packets of two bytes have arrived. -/
def twoPackets : SalSock × RecvHistory :=
  receiver.run (⟨some (1, 2), [], none, 0, 0⟩, {})
    [.packetInput [1, 2] (1, 2) true, .packetInput [3, 4] (1, 2) true]

theorem twoPackets_reach : fitting.Reach twoPackets := by
  have start : fitting.Reach (⟨some (1, 2), [], none, 0, 0⟩, {}) := .init ⟨_, rfl⟩
  have first := start.step (a := .packetInput [1, 2] (1, 2) true)
    ⟨fun _ _ _ is => by cases is; decide, trivial⟩
  exact first.step
    ⟨fun _ _ _ is => by cases is; decide, trivial⟩

theorem socket_receives_twoPackets : Serves twoPackets.1 twoPackets.2 ∧
    (receiver.run twoPackets (replicate 4 (.recvfrom 1 false false))).2.returned.flatten =
      [1, 2, 3, 4] := by
  obtain ⟨serves, drains⟩ := socket_receives twoPackets_reach
  refine ⟨serves, drains _ (fun c inCalls => ?_) ?_ rfl (by decide)⟩
  · rw [eq_of_mem_replicate inCalls]
    exact ⟨by decide, rfl⟩
  · exact ⟨⟨nofun, fun _ _ => .inl ⟨_, rfl, by decide⟩⟩,
      ⟨nofun, fun _ _ => .inl ⟨_, rfl, by decide⟩⟩,
      ⟨nofun, fun _ _ => .inl ⟨_, rfl, by decide⟩⟩,
      ⟨nofun, fun _ _ => .inl ⟨_, rfl, by decide⟩⟩, trivial⟩

/-- Also when buffers are overrun, nothing of a stream is lost, repeated or reordered, and
`rcvevent` counts the packets in the mailbox. -/
theorem socket_keeps {s : SalSock} {h : RecvHistory} (reach : receiver.Reach (s, h)) :
    s.rcvevent = s.recvmbox.length ∧
      (s.remote.isSome = true → h.arrived = h.returned.flatten ++ s.unread) := by
  have ok := reach_recvOk reach
  exact ⟨ok.sock.event, ok.stream⟩

theorem socket_keeps_twoPackets : twoPackets.1.rcvevent = 2 :=
  (socket_keeps twoPackets_reach.of_restrict).1

/-- A buffer of three bytes is overrun when two packets of two bytes wait. -/
theorem not_socket_receives : ¬ ∀ s h, receiver.Reach (s, h) → ∀ len peek nowait mem peer,
    (s.salRecvfrom len peek nowait).1 = .got mem peer → mem.length ≤ len := by
  intro all
  have four := all _ _ twoPackets_reach.of_restrict 3 false false [1, 2, 3, 4] (some (1, 2))
    (by decide)
  exact absurd four (by decide)

end AliosThings.Sal
