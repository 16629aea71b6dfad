import AliosThings.Lib.Run
import Mathlib.Data.List.Basic

/-!
# Local ports

`sal_tcp_new_port` and `sal_udp_new_port` look for a port that no control block in the list has,
from a static counter on, and give up when they have met as many taken ports as there are to choose
from. TCP and UDP have the same functions, each with a list and a counter of its own.
-/

namespace AliosThings.Sal

open Lib List

/-- From `LOCAL_PORT_RANGE_START` to `LOCAL_PORT_RANGE_END`. -/
abbrev IsLocal (port : Nat) : Prop := 0xc000 ≤ port ∧ port ≤ 0xffff

/-- The control blocks in the list, each with its local port, and the counter. -/
structure Ports where
  pcbs : List (Nat × Nat) := []
  port : Nat := 0
  deriving DecidableEq

/-- The control block or the port is in the list. -/
def Ports.has (l : Ports) (f : Nat × Nat → Nat) (n : Nat) : Prop := ∃ b ∈ l.pcbs, f b = n
  deriving Decidable

namespace Ports

/-- The search from `again` on, which ends when `left` more ports are found to be taken: the port
and the counter. -/
def again (l : Ports) : Nat → Nat → Nat × Nat
  | 0, port => (0, port)
  | left + 1, port =>
    let port := if port = 0xffff then 0xc000 else port + 1
    if l.has Prod.snd port then l.again left port else (port, port)

/-- `sal_tcp_new_port`, `sal_udp_new_port` -/
def salNewPort (l : Ports) (rand : Nat) : Nat × Ports :=
  let found := l.again 0x4000 (if l.port = 0 then 0xc000 + rand % 0x4000 else l.port)
  (found.1, { l with port := found.2 })

/-- The control block gets the port, and is put into the list unless it is there. -/
def place (l : Ports) (pcb port : Nat) : Ports :=
  if l.has Prod.fst pcb then
    { l with pcbs := l.pcbs.map fun b => if b.1 = pcb then (pcb, port) else b }
  else { l with pcbs := (pcb, port) :: l.pcbs }

/-- `sal_tcp_bind`, `sal_udp_bind`, and whether it succeeds. -/
def salBind (l : Ports) (pcb port rand : Nat) : Bool × Ports :=
  if port = 0 then
    let new := l.salNewPort rand
    if new.1 = 0 then (false, new.2) else (true, new.2.place pcb new.1)
  else if ∃ b ∈ l.pcbs, b.1 ≠ pcb ∧ b.2 = port then (false, l)
  else (true, l.place pcb port)

/-- `salnetconn_connect`; `starts` says whether `sal_module_start` succeeds. -/
def salnetconnConnect (udp : Bool) (l : Ports) (pcb rand : Nat) (starts : Bool) : Ports :=
  if udp = false ∨ l.has Prod.fst pcb then l
  else
    let new := l.salNewPort rand
    if starts then (new.2.salBind pcb new.1 rand).2 else new.2

end Ports

inductive PortCall where
  | bind (pcb port rand : Nat)
  | connect (pcb rand : Nat) (starts : Bool)
  | close (pcb : Nat)

/-- The calls on one of the two lists. -/
def salPorts (udp : Bool) : System Ports PortCall where
  init l := l = {}
  allowed _ _ := True
  step
    | l, .bind pcb port rand => (l.salBind pcb port rand).2
    | l, .connect pcb rand starts => l.salnetconnConnect udp pcb rand starts
    -- `sal_tcp_remove`, `sal_udp_remove`
    | l, .close pcb => { l with pcbs := l.pcbs.eraseP (·.1 = pcb) }

structure Ports.Ok (l : Ports) : Prop where
  distinct : l.pcbs.Pairwise fun a b => a.1 ≠ b.1 ∧ a.2 ≠ b.2
  nonzero : ∀ b ∈ l.pcbs, b.2 ≠ 0
  counter : l.port = 0 ∨ IsLocal l.port

namespace Ports

variable {l : Ports} {pcb port : Nat}

/-- The search meets the ports behind the counter one after the other, round the range. -/
theorem again_spec (left : Nat) (inside : IsLocal port) :
    IsLocal (l.again left port).2 ∧
      ((l.again left port).1 = 0 ∧
          (∀ k, 1 ≤ k → k ≤ left → l.has Prod.snd (0xc000 + (port - 0xc000 + k) % 0x4000)) ∨
        (l.again left port).1 = (l.again left port).2 ∧
          ¬l.has Prod.snd (l.again left port).2) := by
  induction left generalizing port with
  | zero => exact ⟨inside, .inl ⟨rfl, fun k low high => by omega⟩⟩
  | succ left ih =>
    rw [again]
    have around : (if port = 0xffff then 0xc000 else port + 1) =
        0xc000 + (port - 0xc000 + 1) % 0x4000 := by
      split <;> omega
    rw [around]
    generalize next : 0xc000 + (port - 0xc000 + 1) % 0x4000 = port'
    have inside' : IsLocal port' := by omega
    split
    · next taken =>
      obtain ⟨still, found⟩ := ih inside'
      refine ⟨still, found.imp_left fun ⟨zero, all⟩ => ⟨zero, fun k low high => ?_⟩⟩
      rcases Nat.eq_or_lt_of_le low with rfl | more
      · rwa [next]
      · have later := all (k - 1) (by omega) (by omega)
        rwa [show (port' - 0xc000 + (k - 1)) % 0x4000 = (port - 0xc000 + k) % 0x4000 by omega]
          at later
    · next free => exact ⟨inside', .inr ⟨rfl, free⟩⟩

/-- A port is found that no control block has, or all are taken. -/
theorem Ok.salNewPort (ok : l.Ok) (rand : Nat) : (l.salNewPort rand).2.Ok ∧
    ((l.salNewPort rand).1 = 0 ∧ (∀ q, IsLocal q → l.has Prod.snd q) ∨
      IsLocal (l.salNewPort rand).1 ∧ ¬l.has Prod.snd (l.salNewPort rand).1) := by
  have inside : IsLocal (if l.port = 0 then 0xc000 + rand % 0x4000 else l.port) := by
    have counter := ok.counter
    split <;> omega
  obtain ⟨still, found⟩ := again_spec 0x4000 inside
  refine ⟨⟨ok.distinct, ok.nonzero, .inr still⟩, found.imp ?_ ?_⟩
  · rintro ⟨zero, all⟩
    refine ⟨zero, fun q isLocal => ?_⟩
    generalize (if l.port = 0 then _ else _) = port at inside all
    -- `q` is met after as many steps as it stands behind the counter, all the way round for the
    -- counter itself
    have met := all ((q + 0x3fff - port) % 0x4000 + 1) (by omega) (by omega)
    rwa [show 0xc000 + (port - 0xc000 + ((q + 0x3fff - port) % 0x4000 + 1)) % 0x4000 = q by omega]
      at met
  · rintro ⟨same, free⟩
    exact ⟨same ▸ still, same ▸ free⟩

theorem Ok.place (ok : l.Ok) (some : port ≠ 0) (free : ∀ b ∈ l.pcbs, b.1 ≠ pcb → b.2 ≠ port) :
    (l.place pcb port).Ok := by
  unfold Ports.place
  split
  · refine ⟨pairwise_map.mpr (ok.distinct.imp_of_mem fun {a b} inList inList' ne => ?_),
      forall_mem_map.mpr fun b inList => ?_, ok.counter⟩
    · have here := free a inList
      have there := free b inList'
      grind
    · have nonzero := ok.nonzero b inList
      grind
  · next out =>
    have other b (inList : b ∈ l.pcbs) : b.1 ≠ pcb := fun same => out ⟨b, inList, same⟩
    refine ⟨pairwise_cons.mpr ⟨fun b inList => ?_, ok.distinct⟩,
      forall_mem_cons.mpr ⟨some, ok.nonzero⟩, ok.counter⟩
    exact ⟨(other b inList).symm, (free b inList (other b inList)).symm⟩

theorem Ok.salBind (ok : l.Ok) (pcb port rand : Nat) : (l.salBind pcb port rand).2.Ok := by
  obtain ⟨ok', found⟩ := ok.salNewPort rand
  unfold Ports.salBind
  split
  · dsimp only
    split
    · exact ok'
    · next some =>
      have free := (found.resolve_left fun zero => some zero.1).2
      exact ok'.place some fun b inList _ same => free ⟨b, inList, same⟩
  · next some =>
    split
    · exact ok
    · next unused =>
      exact ok.place some fun b inList other same => unused ⟨b, inList, other, same⟩

theorem Ok.salnetconnConnect (ok : l.Ok) (udp : Bool) (pcb rand : Nat) (starts : Bool) :
    (l.salnetconnConnect udp pcb rand starts).Ok := by
  have ok' := (ok.salNewPort rand).1
  unfold Ports.salnetconnConnect
  split
  · exact ok
  · dsimp only
    split
    · exact ok'.salBind ..
    · exact ok'

end Ports

/-- The ports of TCP, and those of UDP, are distinct and not zero. A port that is chosen is free and
lies in the range, and none can be chosen only when all of the range are taken. -/
theorem salPorts_sound {udp : Bool} {l : Ports} (reach : (salPorts udp).Reach l) :
    l.Ok ∧ ∀ rand,
      ((l.salNewPort rand).1 ≠ 0 →
        IsLocal (l.salNewPort rand).1 ∧ ¬l.has Prod.snd (l.salNewPort rand).1) ∧
      ∀ pcb, (l.salBind pcb 0 rand).1 = false → ∀ port, IsLocal port → l.has Prod.snd port := by
  have ok : l.Ok := by
    refine reach.invariant ?_ ?_
    · rintro l rfl
      exact ⟨.nil, nofun, .inl rfl⟩
    · rintro l (⟨pcb, port, rand⟩ | ⟨pcb, rand, starts⟩ | pcb) ok -
      · exact ok.salBind pcb port rand
      · exact ok.salnetconnConnect udp pcb rand starts
      · exact ⟨ok.distinct.sublist eraseP_sublist,
          fun b inList => ok.nonzero b (mem_of_mem_eraseP inList), ok.counter⟩
  refine ⟨ok, fun rand => ?_⟩
  obtain ⟨-, ⟨zero, full⟩ | found⟩ := ok.salNewPort rand
  · exact ⟨fun some => absurd zero some, fun pcb _ => full⟩
  · refine ⟨fun _ => found, fun pcb fails => ?_⟩
    have some : (l.salNewPort rand).1 ≠ 0 := by omega
    simp [Ports.salBind, some] at fails

def connected : Ports := (salPorts true).run {} [.connect 1 7 true, .bind 2 0xc008 0]

theorem salPorts_sound_connected : connected = ⟨[(1, 0xc008)], 0xc008⟩ ∧ connected.Ok :=
  have reach : (salPorts true).Reach connected :=
    (System.Reach.init rfl).run ⟨trivial, trivial, trivial⟩
  ⟨by decide +kernel, (salPorts_sound reach).1⟩

end AliosThings.Sal
