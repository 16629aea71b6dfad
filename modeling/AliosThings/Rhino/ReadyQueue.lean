import AliosThings.Rhino.Smp

/-!
# The ready queue, on pointers (`k_sched.c`)

The first task of a priority is the head of its list, so that taking it out or rotating the list
moves `cur_list_item`, and `highest_pri` is searched for only when the last task of the highest
priority leaves.
-/

namespace AliosThings.Rhino

open Lib List Function Links

namespace SmpRunqueue

/-- `runqueue_init`; the bitmap is zero from the start. -/
def runqueueInit (rq : SmpRunqueue) : SmpRunqueue :=
  { rq with
    highestPri := priMax
    curListItem := fun prio => if prio < priMax then none else rq.curListItem prio }

/-- `ready_list_rm`: nothing if a null pointer is followed or no bit is left. -/
def readyListRm (rq : SmpRunqueue) (t : TaskId) (pri : Nat) : Option SmpRunqueue :=
  match rq.curListItem pri with
  | none => none
  | some item =>
    if item ≠ rq.taskList.next item then
      some { rq with
        curListItem :=
          update rq.curListItem pri (some (if item = t then rq.taskList.next item else item))
        taskList := rq.taskList.remove t }
    else
      let rq := { rq with
        curListItem := update rq.curListItem pri none
        taskBitMap := krhinoBitmapClear rq.taskBitMap pri }
      if pri ≠ rq.highestPri then some rq
      else
        match krhinoFindFirstBit numWords rq.taskBitMap with
        | some i => some { rq with highestPri := i % 2 ^ 8 }
        | none => none

def readyListHeadToTail (rq : SmpRunqueue) (prio : Nat) : Option SmpRunqueue :=
  (rq.curListItem prio).map fun item =>
    { rq with curListItem := update rq.curListItem prio (some (rq.taskList.next item)) }

/-- The pointers, the bits and the highest priority are those of the ready tasks. -/
structure Holds (m : SmpRunqueue) (prio : TaskId → Nat) (ready : Nat → List TaskId) : Prop where
  rings : m.taskList.Rings prio ready
  item : m.curListItem = head? ∘ ready
  bits : bitmapBit m.taskBitMap = (!·.isEmpty) ∘ ready
  highest : IsLeast {p | bitmapBit m.taskBitMap p = true} m.highestPri

variable {m : SmpRunqueue} {prio : TaskId → Nat} {ready : Nat → List TaskId} {t head : TaskId}
  {p n : Nat} {l : List TaskId} {L : Links TaskId} {bits : Nat → BitVec 32}
  (holds : m.Holds prio ready)
include holds

theorem Holds.bit_iff (p : Nat) : bitmapBit m.taskBitMap p = true ↔ ready p ≠ [] := by
  simp [holds.bits]

/-- One list is exchanged. -/
theorem Holds.put (rings : L.Rings prio (update ready p l))
    (bit : bitmapBit bits = update (bitmapBit m.taskBitMap) p !l.isEmpty)
    (highest : IsLeast {p | bitmapBit bits p = true} n) :
    Holds ⟨update m.curListItem p l.head?, L, bits, n⟩ prio (update ready p l) :=
  ⟨rings, by rw [comp_update, holds.item], by rw [comp_update, bit, holds.bits], highest⟩

/-- The bits stay if the list is nonempty before and after. -/
theorem Holds.relink (rings : L.Rings prio (update ready p l)) (filled : ready p ≠ [])
    (nonempty : l ≠ []) :
    Holds { m with curListItem := update m.curListItem p l.head?, taskList := L } prio
      (update ready p l) := by
  refine holds.put rings ?_ holds.highest
  rw [eq_comm, update_eq_self_iff, (holds.bit_iff p).mpr filled]
  simpa using nonempty

theorem Holds.add (new : t ∉ ready (prio t)) :
    (m.addHead t (prio t)).Holds prio (update ready (prio t) (t :: ready (prio t))) ∧
      (m.addTail t (prio t)).Holds prio (update ready (prio t) (ready (prio t) ++ [t])) := by
  have item := congrFun holds.item (prio t)
  simp only [addHead, addTail]
  cases list : ready (prio t) with
  | nil =>
    simp only [item, comp_apply, list, head?_nil, nil_append, and_self]
    refine holds.put (holds.rings.single t) ?_ ?_
    · ext p
      simp [bitmapBit_set, update_apply]
    · simp only [bitmapBit_set, Bool.or_eq_true, decide_eq_true_eq, ← min_def_lt]
      exact holds.highest.insert (prio t)
  | cons head l =>
    have filled : ready (prio t) ≠ [] := list ▸ cons_ne_nil head l
    rw [comp_apply, list] at item
    rw [list] at new
    have first := holds.relink (holds.rings.insertBefore list new (.refl _)) filled
      (cons_ne_nil t _)
    have last := holds.relink (holds.rings.insertBefore list new (isRotated_append (l := [t])))
      filled (by simp)
    rw [cons_append, head?_cons, ← head?_cons (l := l), ← item, update_eq_self] at last
    simp only [item]
    exact ⟨first, last⟩

/-- The first task becomes the last. -/
theorem Holds.headToTail (inList : t ∈ ready p) : ∃ m', m.readyListHeadToTail p = some m' ∧
    m'.Holds prio (update ready p ((ready p).rotate 1)) := by
  obtain ⟨head, l, list⟩ := exists_cons_of_ne_nil (ne_nil_of_mem inList)
  have circle := list ▸ holds.rings.circle p
  have turned := holds.relink (holds.rings.rotated ⟨1, rfl⟩) (ne_nil_of_mem inList)
  rw [list, rotate_cons_succ, rotate_zero] at turned ⊢
  rw [circle.next_head] at turned
  exact ⟨_, by simp [readyListHeadToTail, holds.item, list], turned (by simp)⟩

/-- The first task may be the one removed. -/
theorem Holds.head_erase (list : ready p = head :: l) (more : head ≠ m.taskList.next head) :
    ((ready p).erase t).head? = some (if head = t then m.taskList.next head else head) := by
  have circle := list ▸ holds.rings.circle p
  rw [list]
  rcases eq_or_ne head t with rfl | other
  · rw [if_pos rfl, erase_cons_head, ← circle.next_head]
    cases l with
    | nil => exact absurd (Option.some.inj circle.next_head) more
    | cons => rfl
  · rw [if_neg other, erase_cons_tail (by simpa using other), head?_cons]

/-- The idle task stays, so that a bit is found. -/
theorem Holds.rm (inList : t ∈ ready p)
    (idle : idleTask ∈ update ready p ((ready p).erase t) idlePri) :
    ∃ m', m.readyListRm t p = some m' ∧ m'.Holds prio (update ready p ((ready p).erase t)) := by
  obtain ⟨head, l, list⟩ := exists_cons_of_ne_nil (ne_nil_of_mem inList)
  have first : head ∈ ready p := list ▸ mem_cons_self
  have item : m.curListItem p = some head := by simp [holds.item, list]
  simp only [readyListRm, item]
  split
  next more =>
    have first := holds.head_erase (t := t) list more
    refine ⟨_, rfl, ?_⟩
    rw [← first]
    refine holds.relink (holds.rings.erase inList) (ne_nil_of_mem inList) fun empty => ?_
    simp [empty] at first
  next last =>
  have short := (formPerm_apply_mem_eq_self_iff _ (holds.rings.nodup p) head first).mp
    ((holds.rings.joined p head first).1.symm.trans (not_not.mp last).symm)
  obtain rfl : l = [] := by simpa [list] using short
  obtain rfl : t = head := by simpa [list] using inList
  have bit : bitmapBit (krhinoBitmapClear m.taskBitMap p) =
      update (bitmapBit m.taskBitMap) p false := by
    ext
    simp [bitmapBit_clear, update_apply, Bool.and_comm]
  have gone n := holds.put (p := p) (l := []) (n := n)
    (holds.rings.put nofun .nil nofun fun _ _ => ⟨rfl, rfl⟩) bit
  rw [list, erase_cons_head] at idle ⊢
  split
  next other =>
    refine ⟨_, rfl, gone _ ⟨?_, fun q set => holds.highest.2 ?_⟩⟩
    · simpa [bit, update_of_ne (Ne.symm other)] using holds.highest.1
    · exact (Bool.and_eq_true_iff.mp ((bitmapBit_clear ..).symm.trans set)).1
  next =>
    have left : bitmapBit (krhinoBitmapClear m.taskBitMap p) idlePri = true := by
      simpa [bit, holds.bits, update_apply] using ne_nil_of_mem idle
    obtain ⟨first, found, set, least⟩ := krhinoFindFirstBit_spec _ numWords
      ⟨idlePri, by decide, left⟩
    have below q (set : bitmapBit (krhinoBitmapClear m.taskBitMap p) q = true) : first ≤ q :=
      Nat.not_lt.mp fun lt => Bool.false_ne_true ((least q lt).symm.trans set)
    rw [found]
    refine ⟨_, rfl, gone _ ?_⟩
    rw [Nat.mod_eq_of_lt ((below idlePri left).trans_lt (by decide))]
    exact ⟨set, below⟩

end SmpRunqueue

/-- The run queue, the priorities of the tasks, and the ready tasks in the order of the calls. -/
structure ReadyQueue where
  rq : Option SmpRunqueue
  prio : TaskId → Nat
  ready : Nat → List TaskId

inductive ReadyCall where
  | addHead (t : TaskId)
  | addTail (t : TaskId)
  | rm (t : TaskId)
  | headToTail (t : TaskId)
  /-- The priority changes. -/
  | prio (t : TaskId) (p : Nat)

namespace ReadyQueue

variable (s : ReadyQueue)

/-- A call changes the queue, and the order of the ready tasks of a priority. -/
def call (f : SmpRunqueue → Option SmpRunqueue) (p : Nat) (order : List TaskId → List TaskId) :
    ReadyQueue :=
  { s with rq := s.rq.bind f, ready := update s.ready p (order (s.ready p)) }

def step : ReadyCall → ReadyQueue
  | .addHead t => s.call (fun rq => some (rq.addHead t (s.prio t))) (s.prio t) (t :: ·)
  | .addTail t => s.call (fun rq => some (rq.addTail t (s.prio t))) (s.prio t) (· ++ [t])
  | .rm t => s.call (·.readyListRm t (s.prio t)) (s.prio t) (·.erase t)
  | .headToTail t => s.call (·.readyListHeadToTail (s.prio t)) (s.prio t) (·.rotate 1)
  | .prio t p => { s with prio := update s.prio t p }

/-- What the environment may call: the idle task stays. -/
def May (call : ReadyCall) : Prop :=
  idleTask ∈ (s.step call).ready idlePri ∧
    match call with
    | .addHead t | .addTail t => s.prio t < priMax ∧ t ∉ s.ready (s.prio t)
    | .rm t | .headToTail t => t ∈ s.ready (s.prio t)
    | .prio t _ => t ∉ s.ready (s.prio t)

def system : System ReadyQueue ReadyCall where
  init s := s.prio idleTask = idlePri ∧ s.ready = update (fun _ => []) idlePri [idleTask] ∧
    s.rq = some ((SmpRunqueue.runqueueInit {}).addTail idleTask idlePri)
  allowed s call := s.May call
  step := step

def Sound : Prop := ∃ m, s.rq = some m ∧ m.Holds s.prio s.ready

variable {s}

theorem Sound.step {call : ReadyCall} (sound : s.Sound) (may : s.May call) :
    (s.step call).Sound := by
  obtain ⟨m, queue, holds⟩ := sound
  obtain ⟨idle, may⟩ := may
  have called {f p order} (done : ∃ m', f m = some m' ∧
      m'.Holds s.prio (update s.ready p (order (s.ready p)))) : (s.call f p order).Sound := by
    obtain ⟨m', done, kept⟩ := done
    exact ⟨m', by simp [ReadyQueue.call, queue, done], kept⟩
  cases call with
  | addHead => exact called ⟨_, rfl, (holds.add may.2).1⟩
  | addTail => exact called ⟨_, rfl, (holds.add may.2).2⟩
  | rm => exact called (holds.rm may idle)
  | headToTail => exact called (holds.headToTail may)
  | prio t p =>
    refine ⟨m, queue, { holds with rings := { holds.rings with only := fun k a among => ?_ } }⟩
    obtain rfl := holds.rings.only k a among
    exact update_of_ne (fun same : a = t => may (same ▸ among)) ..

end ReadyQueue

/-- In every run the bits, the pointers and the highest priority are those of the ready tasks. -/
theorem readyQueue_sound {s : ReadyQueue} (reach : ReadyQueue.system.Reach s) :
    ∃ rq, s.rq = some rq ∧
      (∀ p, (bitmapBit rq.taskBitMap p = true ↔ rq.curListItem p ≠ none) ∧
        (rq.curListItem p ≠ none ↔ s.ready p ≠ []) ∧ rq.curListItem p = (s.ready p).head? ∧
        (s.ready p).Nodup ∧ (∀ t ∈ s.ready p, s.prio t = p) ∧ rq.taskList.Circle (s.ready p)) ∧
      IsLeast {p | bitmapBit rq.taskBitMap p = true} rq.highestPri := by
  have sound : s.Sound := by
    refine reach.invariant ?_ fun s call sound may => sound.step may
    rintro s ⟨idle, ready, queue⟩
    have empty : (Links.mk id id).Rings s.prio fun _ => [] := ⟨nofun, fun _ => .nil, nofun⟩
    have rings := empty.single idleTask
    rw [idle] at rings
    rw [ReadyQueue.Sound, ready]
    have bit q : bitmapBit (krhinoBitmapSet (fun _ => 0) idlePri) q = decide (q = idlePri) := by
      rw [bitmapBit_set]
      simp [bitmapBit]
    refine ⟨_, queue, rings, ?_, ?_, ?_⟩
    · ext1 q
      simp [SmpRunqueue.addTail, SmpRunqueue.readyListInit, SmpRunqueue.runqueueInit, update_apply,
        apply_ite head?]
    · ext1 q
      exact (bit q).trans (by simp [update_apply, apply_ite isEmpty])
    · refine ⟨bit idlePri, fun q set => ?_⟩
      exact (of_decide_eq_true ((bit q).symm.trans set)).ge
  obtain ⟨rq, queue, holds⟩ := sound
  have item p : rq.curListItem p ≠ none ↔ s.ready p ≠ [] := by simp [holds.item]
  exact ⟨rq, queue, fun p => ⟨(holds.bit_iff p).trans (item p).symm, item p, congrFun holds.item p,
    holds.rings.nodup p, holds.rings.only p, holds.rings.circle p⟩, holds.highest⟩

/-- Three tasks of one priority are added, the first goes to the tail, the next one is removed. -/
def rotatedCalls : List ReadyCall := [.addTail 1, .addTail 2, .addTail 3, .headToTail 1, .rm 2]

/-- The queue with the idle task only, where all other tasks have one priority. -/
def idleQueue : ReadyQueue where
  rq := some ((SmpRunqueue.runqueueInit {}).addTail idleTask idlePri)
  prio := update (fun _ => 5) idleTask idlePri
  ready := update (fun _ => []) idlePri [idleTask]

theorem readyQueue_sound_rotated :
    let s := ReadyQueue.system.run idleQueue rotatedCalls
    s.ready 5 = [3, 1] ∧ ∃ rq, s.rq = some rq ∧ rq.curListItem 5 = some 3 ∧
      rq.taskList.Circle [3, 1] ∧ IsLeast {p | bitmapBit rq.taskBitMap p = true} rq.highestPri := by
  have start : ReadyQueue.system.Reach idleQueue := .init ⟨rfl, rfl, rfl⟩
  have runs : ReadyQueue.system.Runs idleQueue rotatedCalls := by
    refine ⟨⟨?_, ?_, ?_⟩, ⟨?_, ?_, ?_⟩, ⟨?_, ?_, ?_⟩, ⟨?_, ?_⟩, ⟨?_, ?_⟩, trivial⟩ <;> decide
  obtain ⟨rq, queue, lists, least⟩ := readyQueue_sound (start.run runs)
  obtain ⟨-, -, item, -, -, circle⟩ := lists 5
  exact ⟨rfl, rq, queue, item, circle, least⟩

end AliosThings.Rhino
