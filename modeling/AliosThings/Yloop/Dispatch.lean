import AliosThings.Lib.Run
import Mathlib.Data.List.Nodup
import Mathlib.Tactic.Ring

/-!
# Readers of the event loop

`kernel/yloop/yloop.c`: the sockets that a loop polls and the callbacks for them. The readers and
the results of the poll are two arrays that belong together by index. `aos_poll_read_fd` replaces
both by larger ones; `aos_cancel_poll_read_fd` closes the gap in the readers only.

Arrays are lists of all their elements, and an access outside an array makes an iteration return
`none`. An iteration serves its readers while the two arrays stay aligned.
-/

namespace AliosThings.Yloop

open Lib (System)
open List

/-- `yloop_sock_t`. The number of the registration is not part of the code; it tells two readers
with the same contents apart. -/
structure Reader where
  id : Nat
  sock : Int
  cb : Nat
  privateData : Nat
  deriving DecidableEq

/-- `struct pollfd`: the socket and whether `revents` has `POLLIN`. -/
structure Pollfd where
  fd : Int
  pollin : Bool
  deriving DecidableEq

/-- `yloop_ctx_t`: the arrays, `reader_count`, and the number of the next registration. -/
structure YloopCtx where
  readers : List Reader := []
  pollfds : List Pollfd := []
  readerCount : Nat := 0
  nextId : Nat := 0
  deriving DecidableEq

variable (ctx : YloopCtx)

def YloopCtx.registered : List Reader := ctx.readers.take ctx.readerCount

/-- `aos_poll_read_fd`, if both allocations succeed or not. The new element of `pollfds` is not
initialised, and `reader_count` is an `uint8_t`. -/
def aosPollReadFd (sock : Int) (cb privateData : Nat) (memory : Bool)
    (garbage : Pollfd) : YloopCtx :=
  if sock < 0 then ctx
  else if memory = false then ctx
  else
    { readers := ctx.readers.take ctx.readerCount ++ [⟨ctx.nextId, sock, cb, privateData⟩]
      pollfds := ctx.pollfds.take ctx.readerCount ++ [garbage]
      readerCount := (ctx.readerCount + 1) % 2 ^ 8
      nextId := ctx.nextId + 1 }

/-- `aos_cancel_poll_read_fd`: the elements after the first one with the socket are moved, and the
last element stays where it is. -/
def aosCancelPollReadFd (sock : Int) : YloopCtx :=
  let count := ctx.readerCount
  let i := ctx.registered.findIdx (·.sock = sock)
  if count ≤ i then ctx
  else
    { ctx with
      readers := ctx.readers.take i ++ (ctx.readers.drop (i + 1)).take (count - (i + 1)) ++
        ctx.readers.drop (count - 1)
      readerCount := count - 1 }

/-- What a callback may do to the readers. -/
inductive Action where
  | poll (sock : Int) (cb privateData : Nat) (memory : Bool) (garbage : Pollfd)
  | cancel (sock : Int)
  deriving DecidableEq

def act : Action → YloopCtx
  | .poll sock cb privateData memory garbage =>
    aosPollReadFd ctx sock cb privateData memory garbage
  | .cancel sock => aosCancelPollReadFd ctx sock

def runActions (actions : List Action) : YloopCtx := actions.foldl act ctx

/-! ## One iteration of `aos_loop_run` -/

/-- What `aos_poll` returns, whether `errno` is `EINTR`, and what it stores in `revents`. -/
structure Poll where
  res : Int
  eintr : Bool
  pollin : Nat → Bool

/-- A callback of a reader with its arguments, and the readers registered at that time. -/
structure Invocation where
  reader : Reader
  registered : List Reader
  deriving DecidableEq

/-- The loop over the results of the poll. The callback that is invoked as number `n` does
`behave n`. -/
def dispatch (behave : Nat → List Action) :
    List Nat → YloopCtx → List Invocation → Option (YloopCtx × List Invocation)
  | [], ctx, log => some (ctx, log)
  | i :: is, ctx, log =>
    match ctx.pollfds[i]? with
    | none => none
    | some fd =>
      if fd.pollin then
        match ctx.readers[i]? with
        | none => none
        | some reader =>
          dispatch behave is (runActions ctx (behave log.length))
            (log ++ [⟨reader, ctx.registered⟩])
      else dispatch behave is ctx log

/-- The elements of `pollfds` as the loop and the poll leave them. -/
def polled (poll : Poll) : List Pollfd :=
  ctx.registered.mapIdx (fun i reader => ⟨reader.sock, poll.pollin i⟩) ++
    ctx.pollfds.drop ctx.readerCount

/-- One iteration, with what the callback of a timeout does that has occurred. -/
def loopOnce (poll : Poll) (timeout : List Action)
    (behave : Nat → List Action) : Option (YloopCtx × List Invocation) :=
  let readers := ctx.readerCount
  if ctx.readers.length < readers ∨ ctx.pollfds.length < readers then none
  else
    let ctx := { ctx with pollfds := polled ctx poll }
    if poll.res < 0 ∧ poll.eintr = false then some (ctx, [])
    else
      let ctx := runActions ctx timeout
      if poll.res ≤ 0 then some (ctx, [])
      else dispatch behave (range readers) ctx []

/-! ## What an iteration should do -/

/-- The indices of the readers that polled readable. -/
def readable (poll : Poll) : List Nat :=
  (range ctx.readerCount).filter fun i => 0 < poll.res && poll.pollin i

/-- No callback is invoked twice; each one is that of a reader that polled readable and that is
registered when it is invoked; and no reader that polled readable and is still registered is left
out. -/
def DispatchOk (poll : Poll) (out : Option (YloopCtx × List Invocation)) : Prop :=
  ∃ ctx' log, out = some (ctx', log) ∧ (log.map (·.reader.id)).Nodup ∧
    (∀ call ∈ log, call.reader ∈ call.registered ∧
      ∃ i ∈ readable ctx poll, ctx.readers[i]? = some call.reader) ∧
    ∀ i ∈ readable ctx poll, ∀ reader ∈ ctx.readers[i]?, reader ∈ ctx'.registered →
      reader ∈ log.map (·.reader)

/-- The reader at the index `i` of `start` polled readable and is registered. -/
def Due (start : YloopCtx) (poll : Poll) (ctx : YloopCtx) (i : Nat) : Prop :=
  poll.pollin i ∧ ∃ reader ∈ start.readers[i]?, reader ∈ ctx.registered
  deriving Decidable

/-- At each of the indices, when the loop comes to it, both arrays have what belongs to the reader
that was polled there: if it polled readable and is still registered, the result says so and the
reader is that one; else the result does not say readable. -/
def Aligned (start : YloopCtx) (poll : Poll) (behave : Nat → List Action) :
    List Nat → YloopCtx → Nat → Prop
  | [], _, _ => True
  | i :: is, ctx, n =>
    if Due start poll ctx i then
      ((∃ fd ∈ ctx.pollfds[i]?, fd.pollin = true) ∧ ctx.readers[i]? = start.readers[i]?) ∧
        Aligned start poll behave is (runActions ctx (behave n)) (n + 1)
    else
      (∃ fd ∈ ctx.pollfds[i]?, fd.pollin = false) ∧ Aligned start poll behave is ctx n

def decidableAligned (start : YloopCtx) (poll : Poll) (behave : Nat → List Action) :
    (is : List Nat) → (ctx : YloopCtx) → (n : Nat) → Decidable (Aligned start poll behave is ctx n)
  | [], _, _ => .isTrue trivial
  | i :: is, ctx, n =>
    have := decidableAligned start poll behave is (runActions ctx (behave n)) (n + 1)
    have := decidableAligned start poll behave is ctx n
    by unfold Aligned; infer_instance

instance (start : YloopCtx) (poll : Poll) (behave : Nat → List Action) (is : List Nat)
    (ctx : YloopCtx) (n : Nat) : Decidable (Aligned start poll behave is ctx n) :=
  decidableAligned start poll behave is ctx n

variable {ctx : YloopCtx}

/-! ## The arrays -/

/-- Both arrays have room for the readers, and the registrations have different numbers. -/
structure Wf (ctx : YloopCtx) : Prop where
  readers : ctx.readerCount ≤ ctx.readers.length
  pollfds : ctx.readerCount ≤ ctx.pollfds.length
  nodup : (ctx.registered.map Reader.id).Nodup
  ids : ∀ reader ∈ ctx.registered, reader.id < ctx.nextId

theorem Wf.init : Wf {} := ⟨le_rfl, le_rfl, nodup_nil, nofun⟩

theorem Wf.length (wf : Wf ctx) : ctx.registered.length = ctx.readerCount :=
  length_take_of_le wf.readers

/-- Nothing is registered, or one reader more. -/
inductive Registers (ctx : YloopCtx) : YloopCtx → Prop where
  | nothing : Registers ctx ctx
  | reader (r : Reader) (fd : Pollfd) (id : r.id = ctx.nextId) :
    Registers ctx
      { readers := ctx.registered ++ [r]
        pollfds := ctx.pollfds.take ctx.readerCount ++ [fd]
        readerCount := (ctx.readerCount + 1) % 2 ^ 8
        nextId := ctx.nextId + 1 }

/-- A registration adds an entry or changes nothing. -/
theorem aosPollReadFd_registers (ctx : YloopCtx) (sock : Int) (cb privateData : Nat) (memory : Bool)
    (garbage : Pollfd) : Registers ctx (aosPollReadFd ctx sock cb privateData memory garbage) := by
  unfold aosPollReadFd
  split
  · exact .nothing
  · split
    · exact .nothing
    · exact .reader _ garbage rfl

/-- One reader less among those registered, and nothing else. -/
structure Cancels (ctx ctx' : YloopCtx) : Prop where
  pollfds : ctx'.pollfds = ctx.pollfds
  nextId : ctx'.nextId = ctx.nextId
  length : ctx'.readers.length = ctx.readers.length
  count : ctx'.readerCount ≤ ctx.readerCount
  sublist : ctx'.registered.Sublist ctx.registered

/-- A cancellation removes one entry. -/
theorem Wf.cancels (wf : Wf ctx) (sock : Int) : Cancels ctx (aosCancelPollReadFd ctx sock) := by
  have rooms := wf.readers
  unfold aosCancelPollReadFd
  dsimp only
  generalize ctx.registered.findIdx (·.sock = sock) = i
  split
  case isTrue => exact ⟨rfl, rfl, rfl, le_rfl, .refl _⟩
  case isFalse inside =>
  have moved : (ctx.readers.take i ++
      (ctx.readers.drop (i + 1)).take (ctx.readerCount - (i + 1))).length =
        ctx.readerCount - 1 := by
    simp only [length_append, length_take, length_drop]
    omega
  refine ⟨rfl, rfl, ?_, Nat.sub_le _ _, ?_⟩
  · simp only [length_append, moved, length_drop]
    omega
  · have erased : YloopCtx.registered { ctx with
        readers := ctx.readers.take i ++
          (ctx.readers.drop (i + 1)).take (ctx.readerCount - (i + 1)) ++
            ctx.readers.drop (ctx.readerCount - 1)
        readerCount := ctx.readerCount - 1 } = ctx.registered.eraseIdx i := by
      rw [YloopCtx.registered, take_append_of_le_length moved.ge,
        take_of_length_le moved.le, eraseIdx_eq_take_drop_succ,
        YloopCtx.registered, take_take, Nat.min_eq_left (by omega), drop_take]
    rw [erased]
    exact eraseIdx_sublist ..

theorem Wf.act (wf : Wf ctx) (a : Action) : Wf (act ctx a) := by
  cases a with
  | poll sock cb privateData memory garbage =>
    have registers := aosPollReadFd_registers ctx sock cb privateData memory garbage
    show Wf (aosPollReadFd ctx sock cb privateData memory garbage)
    generalize aosPollReadFd ctx sock cb privateData memory garbage = ctx' at registers
    cases registers with
    | nothing => exact wf
    | reader r fd id =>
      have length : (ctx.registered ++ [r]).length = ctx.readerCount + 1 := by
        rw [length_append, wf.length, length_singleton]
      have sub : ((ctx.registered ++ [r]).take ((ctx.readerCount + 1) % 2 ^ 8)).Sublist
          (ctx.registered ++ [r]) := take_sublist ..
      have fresh : ((ctx.registered ++ [r]).map Reader.id).Nodup := by
        rw [map_append, map_singleton, ← concat_eq_append]
        refine wf.nodup.concat fun mem => ?_
        obtain ⟨r', mem, same⟩ := mem_map.mp mem
        have before := wf.ids r' mem
        omega
      refine ⟨?_, ?_, fresh.sublist (sub.map _), ?_⟩
      · exact (Nat.mod_le _ _).trans length.ge
      · rw [length_append, length_take_of_le wf.pollfds]
        exact Nat.mod_le ..
      · intro reader mem
        rcases mem_append.mp (sub.subset mem) with old | new
        · exact Nat.lt_succ_of_lt (wf.ids reader old)
        · rw [mem_singleton.mp new, id]
          exact Nat.lt_succ_self _
  | cancel sock =>
    obtain ⟨pollfds, nextId, length, count, sublist⟩ := wf.cancels sock
    refine ⟨?_, ?_, wf.nodup.sublist (sublist.map _), ?_⟩
    · exact (count.trans wf.readers).trans length.ge
    · rw [Yloop.act, pollfds]
      exact count.trans wf.pollfds
    · intro reader mem
      rw [Yloop.act, nextId]
      exact wf.ids reader (sublist.subset mem)

/-- What a callback does keeps the loop well formed. -/
theorem Wf.runActions (wf : Wf ctx) (actions : List Action) : Wf (runActions ctx actions) := by
  induction actions generalizing ctx with
  | nil => exact wf
  | cons a _ ih => exact ih (wf.act a)

/-! ## The loop -/

variable {n i : Nat} {timeout : List Action} {ctx' start : YloopCtx} {α : Type*}
  {behave : Nat → List Action} {is : List Nat} {log log' : List Invocation} {poll : Poll}
  {reader : Reader}

/-- A reader whose number was given before does not come back. -/
theorem Wf.act_registered (wf : Wf ctx) (a : Action) (old : reader.id < ctx.nextId) :
    reader.id < (Yloop.act ctx a).nextId ∧
      (reader ∈ (Yloop.act ctx a).registered → reader ∈ ctx.registered) := by
  cases a with
  | poll sock cb privateData memory garbage =>
    have registers := aosPollReadFd_registers ctx sock cb privateData memory garbage
    show reader.id < (aosPollReadFd ctx sock cb privateData memory garbage).nextId ∧
      (reader ∈ (aosPollReadFd ctx sock cb privateData memory garbage).registered → _)
    generalize aosPollReadFd ctx sock cb privateData memory garbage = ctx' at registers
    cases registers with
    | nothing => exact ⟨old, id⟩
    | reader r fd isNext =>
      refine ⟨Nat.lt_succ_of_lt old, fun mem => ?_⟩
      rcases mem_append.mp (mem_of_mem_take mem) with inside | new
      · exact inside
      · rw [mem_singleton.mp new, isNext] at old
        exact absurd old (Nat.lt_irrefl _)
  | cancel sock =>
    have cancels := wf.cancels sock
    exact ⟨old.trans_eq cancels.nextId.symm, fun mem => cancels.sublist.subset mem⟩

theorem Wf.runActions_registered (wf : Wf ctx) (actions : List Action)
    (old : reader.id < ctx.nextId) :
    reader.id < (Yloop.runActions ctx actions).nextId ∧
      (reader ∈ (Yloop.runActions ctx actions).registered → reader ∈ ctx.registered) := by
  induction actions generalizing ctx with
  | nil => exact ⟨old, id⟩
  | cons a _ ih =>
    obtain ⟨later, back⟩ := wf.act_registered a old
    obtain ⟨last, back'⟩ := ih (wf.act a) later
    exact ⟨last, fun mem => back (back' mem)⟩

/-- The loop invokes the callbacks of the readers that are due, each in its turn. -/
theorem dispatch_aligned (log : List Invocation) (wf : Wf ctx)
    (old : ∀ i ∈ is, ∀ reader ∈ start.readers[i]?, reader.id < ctx.nextId)
    (aligned : Aligned start poll behave is ctx log.length) :
    ∃ ctx' calls, dispatch behave is ctx log = some (ctx', log ++ calls) ∧
      (calls.map (·.reader)).Sublist (is.filterMap (start.readers[·]?)) ∧
      (∀ call ∈ calls, call.reader ∈ call.registered ∧
        ∃ i ∈ is, poll.pollin i ∧ start.readers[i]? = some call.reader) ∧
      (∀ reader, reader.id < ctx.nextId → reader ∈ ctx'.registered → reader ∈ ctx.registered) ∧
      ∀ i ∈ is, poll.pollin i → ∀ reader ∈ start.readers[i]?, reader ∈ ctx'.registered →
        reader ∈ calls.map (·.reader) := by
  induction is generalizing ctx log with
  | nil => exact ⟨ctx, [], by rw [append_nil]; rfl, nil_sublist _, by simp, fun _ _ => id, by simp⟩
  | cons i is ih =>
    have later (j : Nat) (mem : j ∈ is) := old j (mem_cons_of_mem _ mem)
    rw [Aligned] at aligned
    split at aligned
    case isTrue due =>
      obtain ⟨⟨⟨fd, here, ready⟩, same⟩, aligned⟩ := aligned
      obtain ⟨polled, reader, is_, registered⟩ := due
      have entry : start.readers[i]? = some reader := is_
      have step : dispatch behave (i :: is) ctx log =
          dispatch behave is (runActions ctx (behave log.length))
            (log ++ [⟨reader, ctx.registered⟩]) := by
        simp only [dispatch, show ctx.pollfds[i]? = some fd from here, ready, same, entry, if_true]
      have longer : (log ++ [(⟨reader, ctx.registered⟩ : Invocation)]).length = log.length + 1 :=
        length_append ..
      obtain ⟨ctx', calls, rest, part, ok, back, all⟩ := ih (log ++ [⟨reader, ctx.registered⟩])
        (wf.runActions _)
        (fun j mem r entry => (wf.runActions_registered _ (later j mem r entry)).1)
        (by rwa [longer])
      refine ⟨ctx', ⟨reader, ctx.registered⟩ :: calls, ?_, ?_, ?_, fun r known mem => ?_, ?_⟩
      · rw [step, rest, append_assoc, singleton_append]
      · rw [filterMap_cons_some entry, map_cons]
        exact part.cons_cons _
      · intro call mem
        rcases mem_cons.mp mem with rfl | mem
        · exact ⟨registered, i, mem_cons_self, polled, entry⟩
        · obtain ⟨registered, j, inside, polled⟩ := ok call mem
          exact ⟨registered, j, mem_cons_of_mem _ inside, polled⟩
      · obtain ⟨known', back'⟩ := wf.runActions_registered (behave log.length) known
        exact back' (back r known' mem)
      · intro j mem polled r there registered
        rcases mem_cons.mp mem with rfl | mem
        · rw [entry] at there
          cases there
          exact mem_cons_self
        · exact mem_cons_of_mem _ (all j mem polled r there registered)
    case isFalse notDue =>
      obtain ⟨⟨fd, here, ready⟩, aligned⟩ := aligned
      have step : dispatch behave (i :: is) ctx log = dispatch behave is ctx log := by
        simp only [dispatch, show ctx.pollfds[i]? = some fd from here, ready]
        rfl
      obtain ⟨ctx', calls, rest, part, ok, back, all⟩ := ih log wf later aligned
      refine ⟨ctx', calls, step.trans rest, ?_, ?_, back, ?_⟩
      · rw [filterMap_cons]
        split
        · exact part
        · exact part.cons _
      · intro call mem
        obtain ⟨registered, j, inside, polled⟩ := ok call mem
        exact ⟨registered, j, mem_cons_of_mem _ inside, polled⟩
      · intro j mem polled reader entry registered
        rcases mem_cons.mp mem with rfl | mem
        · have before := back reader (old _ mem_cons_self reader entry) registered
          exact absurd ⟨polled, reader, entry, before⟩ notDue
        · exact all j mem polled reader entry registered

/-! ## Cancellations -/

/-- Of `n` readers each entry is that of its reader at first or of a later one, and the results of
the poll are in their places. -/
structure Shifted (start : YloopCtx) (n : Nat) (pollin : Nat → Bool) (ctx : YloopCtx) : Prop where
  count : ctx.readerCount ≤ n
  readers : ∀ j < n, ∃ k, j ≤ k ∧ k < n ∧ ctx.readers[j]? = start.readers[k]?
  results : ∀ j < n, ∃ fd, ctx.pollfds[j]? = some fd ∧ fd.pollin = pollin j

/-- Nothing is registered. -/
def OnlyCancels (actions : List Action) : Prop := ∀ a ∈ actions, ∃ sock, a = .cancel sock

variable {pollin : Nat → Bool}

/-- The entries behind the one removed move down. -/
theorem getElem?_moved (l : List α) {count j : Nat} (inside : i < count) (room : count ≤ l.length) :
    (l.take i ++ (l.drop (i + 1)).take (count - (i + 1)) ++ l.drop (count - 1))[j]? =
      l[if i ≤ j ∧ j < count - 1 then j + 1 else j]? := by
  have front : (l.take i ++ (l.drop (i + 1)).take (count - (i + 1))).length = count - 1 := by
    simp only [length_append, length_take, length_drop]
    omega
  rw [getElem?_append, front, getElem?_append, length_take_of_le (by omega)]
  simp only [getElem?_take, getElem?_drop]
  split_ifs <;> first | omega | rfl | (congr 1; omega)

/-- A cancellation moves entries down, and no result. -/
theorem Shifted.cancel (shifted : Shifted start n pollin ctx) (wf : Wf ctx) (sock : Int) :
    Shifted start n pollin (aosCancelPollReadFd ctx sock) := by
  obtain ⟨count, readers, results⟩ := shifted
  have cancels := wf.cancels sock
  refine ⟨cancels.count.trans count, fun j inside => ?_, by rwa [cancels.pollfds]⟩
  have rooms := wf.readers
  unfold aosCancelPollReadFd
  dsimp only
  generalize ctx.registered.findIdx (·.sock = sock) = i
  split
  · exact readers j inside
  dsimp only
  rw [getElem?_moved ctx.readers (by omega) rooms]
  split
  · obtain ⟨k, le, below, same⟩ := readers (j + 1) (by omega)
    exact ⟨k, by omega, below, same⟩
  · exact readers j inside

theorem Shifted.runActions {actions : List Action} (shifted : Shifted start n pollin ctx)
    (wf : Wf ctx) (only : OnlyCancels actions) :
    Shifted start n pollin (runActions ctx actions) := by
  induction actions generalizing ctx with
  | nil => exact shifted
  | cons a _ ih =>
    obtain ⟨sock, rfl⟩ := only a mem_cons_self
    exact ih (shifted.cancel wf sock) (wf.act _) fun b mem => only b (mem_cons_of_mem _ mem)

/-- One turn of the loop. -/
theorem Shifted.turn {calls : List Invocation} (shifted : Shifted start n pollin ctx)
    (inside : i < n) (call : dispatch behave (i :: is) ctx log = some (ctx', calls)) :
    pollin i = false ∧ dispatch behave is ctx log = some (ctx', calls) ∨
      pollin i = true ∧ ∃ k reader, i ≤ k ∧ k < n ∧ start.readers[k]? = some reader ∧
        ctx.readers[i]? = some reader ∧
        dispatch behave is (Yloop.runActions ctx (behave log.length))
          (log ++ [⟨reader, ctx.registered⟩]) = some (ctx', calls) := by
  obtain ⟨k, le, below, same⟩ := shifted.readers i inside
  obtain ⟨fd, here, result⟩ := shifted.results i inside
  simp only [dispatch, here] at call
  cases ready : pollin i with
  | false =>
    rw [if_neg (by rw [result, ready]; exact Bool.false_ne_true)] at call
    exact .inl ⟨rfl, call⟩
  | true =>
    rw [if_pos (result.trans ready)] at call
    cases entry : ctx.readers[i]? with
    | none =>
      rw [entry] at call
      cases call
    | some reader =>
      rw [entry] at call
      exact .inr ⟨rfl, k, reader, le, below, same.symm.trans entry, rfl, call⟩

/-- Calls are only added. -/
theorem dispatch_log {calls : List Invocation}
    (call : dispatch behave is ctx log = some (ctx', calls)) : log <+: calls := by
  induction is generalizing ctx log with
  | nil =>
    cases call
    exact prefix_rfl
  | cons i _ ih =>
    unfold dispatch at call
    split at call
    · cases call
    split at call
    · split at call
      · cases call
      · exact (prefix_append ..).trans (ih call)
    · exact ih call

section

variable {calls : List Invocation} (cancels : ∀ m, OnlyCancels (behave m))
  (distinct : ∀ j k reader, j < n → k < n → start.readers[j]? = some reader →
    start.readers[k]? = some reader → j = k)
  (nodup : (calls.map (·.reader)).Nodup)
  (ok : ∀ call ∈ calls, call.reader ∈ call.registered ∧
    ∃ j < n, poll.pollin j ∧ start.readers[j]? = some call.reader)
include cancels distinct nodup ok

/-- A reader that was served before its turn is served again, or another one before its turn. -/
theorem Shifted.not_early {len : Nat} (all : i + len = n)
    (shifted : Shifted start n poll.pollin ctx) (wf : Wf ctx)
    (call : dispatch behave (range' i len) ctx log = some (ctx', calls)) {k : Nat} (le : i ≤ k)
    (below : k < n) (ready : poll.pollin k = true) (entry : start.readers[k]? = some reader)
    (served : reader ∈ log.map (·.reader)) : False := by
  induction len generalizing i ctx log k reader with
  | zero => omega
  | succ len ih =>
    rw [range'_succ] at call
    rcases shifted.turn (by omega) call with
      ⟨off, rest⟩ | ⟨-, m, other, le', below', there, -, rest⟩
    · refine ih (i := i + 1) (by omega) shifted wf rest (Nat.lt_of_le_of_ne le ?_) below ready entry
        served
      rintro rfl
      exact Bool.false_ne_true (off.symm.trans ready)
    · have next {m : Nat} {r : Reader} (lt : i < m) (below : m < n) (ready : poll.pollin m = true)
          (there : start.readers[m]? = some r) (mem : r ∈ log.map (·.reader) ∨ r = other) : False :=
        ih (i := i + 1) (by omega) (shifted.runActions wf (cancels _)) (wf.runActions _) rest lt
          below ready there (by rw [map_append]; simpa using mem)
      rcases Nat.lt_or_eq_of_le le with lt | rfl
      · exact next lt below ready entry (.inl served)
      rcases Nat.lt_or_eq_of_le le' with lt | rfl
      · have logged := (dispatch_log rest).subset (mem_append_right log (mem_singleton_self _))
        obtain ⟨-, j, inside, ready', there'⟩ := ok _ logged
        cases distinct j m other inside below' there' there
        exact next lt below' ready' there (.inr rfl)
      · cases entry.symm.trans there
        have twice := nodup.sublist ((dispatch_log rest).sublist.map _)
        rw [map_append] at twice
        exact (nodup_append.mp twice).2.2 _ served _ (by simp) rfl

/-- Where only cancellations happen, a loop that serves rightly finds the arrays aligned. -/
theorem Shifted.aligned {len : Nat} (all : i + len = n) (shifted : Shifted start n poll.pollin ctx)
    (wf : Wf ctx) (call : dispatch behave (range' i len) ctx log = some (ctx', calls)) :
    Aligned start poll behave (range' i len) ctx log.length := by
  induction len generalizing i ctx log with
  | zero => trivial
  | succ len ih =>
    obtain ⟨fd, here, result⟩ := shifted.results i (by omega)
    rw [range'_succ] at call ⊢
    rw [Aligned]
    rcases shifted.turn (by omega) call with
      ⟨off, rest⟩ | ⟨ready, k, reader, le, below, there, entry, rest⟩
    · rw [if_neg fun due => Bool.false_ne_true (off.symm.trans due.1)]
      exact ⟨⟨fd, here, result.trans off⟩, ih (by omega) shifted wf rest⟩
    · have later := shifted.runActions wf (cancels log.length)
      have logged := (dispatch_log rest).subset (mem_append_right log (mem_singleton_self _))
      obtain ⟨registered, j, inside, ready', there'⟩ := ok _ logged
      cases distinct j k reader inside below there' there
      obtain rfl : i = k := by
        by_contra other
        exact later.not_early cancels distinct nodup ok (i := i + 1) (by omega) (wf.runActions _)
          rest (Nat.lt_of_le_of_ne le other) below ready' there (by simp)
      rw [if_pos ⟨ready, reader, there, registered⟩]
      refine ⟨⟨⟨fd, here, result.trans ready⟩, entry.trans there.symm⟩, ?_⟩
      have goesOn := ih (i := i + 1) (by omega) later (wf.runActions _) rest
      rwa [length_append] at goesOn

end

/-! ## Iterations -/

/-- The poll leaves the readers as they are. -/
theorem Wf.polled (wf : Wf ctx) (poll : Poll) : Wf { ctx with pollfds := polled ctx poll } := by
  refine ⟨wf.readers, ?_, wf.nodup, wf.ids⟩
  rw [Yloop.polled, length_append, length_mapIdx, wf.length]
  exact Nat.le_add_right _ _

/-- The results of `poll` stand in the order of the entries. -/
theorem Wf.results (wf : Wf ctx) (poll : Poll) :
    ∀ i < ctx.readerCount, ∃ fd, (Yloop.polled ctx poll)[i]? = some fd ∧
      fd.pollin = poll.pollin i := by
  intro i inside
  have long : i < ctx.registered.length := wf.length ▸ inside
  refine ⟨⟨ctx.registered[i].sock, poll.pollin i⟩, ?_, rfl⟩
  rw [Yloop.polled, getElem?_append_left (by rwa [length_mapIdx]), getElem?_mapIdx,
    getElem?_eq_getElem long, Option.map_some]

theorem Wf.dispatch (wf : Wf ctx) {ctx' : YloopCtx}
    (call : dispatch behave is ctx log = some (ctx', log')) : Wf ctx' := by
  induction is generalizing ctx log with
  | nil =>
    cases call
    exact wf
  | cons i _ ih =>
    unfold Yloop.dispatch at call
    split at call
    · cases call
    split at call
    · split at call
      · cases call
      · exact ih (wf.runActions _) call
    · exact ih wf call

theorem Wf.loopOnce (wf : Wf ctx) {ctx' : YloopCtx} {calls : List Invocation}
    (call : loopOnce ctx poll timeout behave = some (ctx', calls)) : Wf ctx' := by
  unfold Yloop.loopOnce at call
  dsimp only at call
  split at call
  · cases call
  split at call
  · cases call
    exact wf.polled poll
  · split at call
    · cases call
      exact (wf.polled poll).runActions timeout
    · exact ((wf.polled poll).runActions timeout).dispatch call

/-- A call of the application or one iteration of the loop. -/
inductive YloopEvent where
  | act (a : Action)
  | iterate (poll : Poll) (timeout : List Action) (behave : Nat → List Action)

/-- A loop from its initialisation on, in whatever way the callbacks behave; there is no loop any
more after an access outside an array. -/
def yloopSystem : System (Option YloopCtx) YloopEvent where
  init s := s = some {}
  allowed _ _ := True
  step
    | none, _ => none
    | some ctx, .act a => some (act ctx a)
    | some ctx, .iterate poll timeout behave => (loopOnce ctx poll timeout behave).map Prod.fst

/-- The loop is well formed in every run. -/
theorem yloop_wf {s : Option YloopCtx} (reach : yloopSystem.Reach s) : ∀ ctx ∈ s, Wf ctx := by
  refine reach.invariant (P := fun s => ∀ ctx ∈ s, Wf ctx) ?_ ?_
  · rintro s rfl ctx ⟨⟩
    exact .init
  intro s event wf _ ctx' is
  cases s with
  | none => cases is
  | some ctx =>
    have wf := wf ctx rfl
    cases event with
    | act a =>
      cases is
      exact wf.act a
    | iterate =>
      obtain ⟨⟨_, calls⟩, eq, rfl⟩ := Option.map_eq_some_iff.mp is
      exact wf.loopOnce eq

theorem filterMap_range_getElem? (l : List α) : (range l.length).filterMap (l[·]?) = l := by
  induction l with
  | nil => rfl
  | cons a l ih =>
    rw [length_cons, range_succ_eq_map, filterMap_cons]
    simp only [getElem?_cons_zero]
    rw [filterMap_map]
    exact congrArg (a :: ·) ih

/-- A reader of socket 5, 6, … for each callback. -/
def readersOf (n : Nat) : List YloopEvent :=
  (range n).map fun i => .act (.poll (5 + i : Nat) i (10 + i) true ⟨0, false⟩)

/-- The loop after these registrations. -/
def loopOf (n : Nat) : YloopCtx := (yloopSystem.run (some {}) (readersOf n)).getD {}

theorem loopOf_reach (is : yloopSystem.run (some {}) (readersOf n) = some (loopOf n)) :
    yloopSystem.Reach (some (loopOf n)) := by
  rw [← is]
  refine System.Reach.run (.init rfl) ?_
  generalize (some {} : Option YloopCtx) = s
  induction readersOf n generalizing s with
  | nil => trivial
  | cons event events ih => exact ⟨trivial, ih _⟩

/-- Whatever the callbacks do, `aos_poll` is given entries of the array only, also after
`reader_count` has wrapped, and no registration is listed twice. -/
theorem yloop_entries {ctx : YloopCtx} (reach : yloopSystem.Reach (some ctx)) :
    ctx.readerCount ≤ ctx.pollfds.length ∧ ctx.registered.length = ctx.readerCount ∧
      ctx.registered.Nodup := by
  have wf := yloop_wf reach ctx rfl
  exact ⟨wf.pollfds, wf.length, wf.nodup.of_map _⟩

theorem yloop_entries_two : (loopOf 2).registered.Nodup :=
  (yloop_entries (loopOf_reach (by decide))).2.2

/-- The second part of `DispatchOk` as a test. -/
theorem DispatchOk.calls {out : Option (YloopCtx × List Invocation)}
    (ok : DispatchOk ctx poll out) :
    (out.map fun p => p.2.all fun call => decide (call.reader ∈ call.registered ∧
      ∃ i ∈ readable ctx poll, ctx.readers[i]? = some call.reader)) = some true := by
  obtain ⟨ctx', log, rfl, -, calls, -⟩ := ok
  rw [Option.map_some, all_eq_true.mpr fun call mem => decide_eq_true (calls call mem)]

end AliosThings.Yloop
