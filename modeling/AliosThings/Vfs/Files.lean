import AliosThings.Lib.Bytes
import AliosThings.Lib.Run

/-!
# Inodes and file slots of the VFS

`kernel/rhino/vfs`: drivers and file systems are registered under a path in a table of inodes; an
open file or directory is a slot of a table of files that points to an inode. An operation on a
path takes a slot while it calls the file system. Each inode counts the slots that point to it and
is not unregistered while there are any.

Calls run one after the other and the mutex is always taken. What an operation of a driver or a
file system returns is an argument of the call, `none` if there is no such operation.
-/

namespace AliosThings.Vfs

open List Function
open Lib (System)

/-- The type of an inode. -/
inductive VfsType where
  | notInit
  | charDev
  | blockDev
  | fsDev
  deriving DecidableEq

/-- `inode_t` without what the table does not look at. -/
structure Inode where
  iName : Option Bytes := none
  iFlags : Int := 0
  type : VfsType := .notInit
  refs : Nat := 0
  deriving DecidableEq

def devNodes : Nat := 25
def maxFileNum : Nat := devNodes * 2
def fdOffset : Int := 512
def pathMax : Nat := 256

/-- `g_vfs_dev_nodes`, and the index of the inode of each slot of `files`. -/
structure VfsState where
  nodes : Nat → Inode := fun _ => {}
  files : List (Option Nat) := replicate maxFileNum none

/-- The error numbers. -/
inductive Errno where
  | enoent
  | enomem
  | ebusy
  | enodev
  | einval
  | enfile
  | enametoolong
  | enosys
  deriving DecidableEq

/-- What a call returns: a file descriptor, an error, `NULL`, or what a driver or file system has
returned (0 without one). -/
inductive VfsRes where
  | fd (n : Int)
  | err (e : Errno)
  | null
  | ret (n : Int)
  deriving DecidableEq

variable (s : VfsState)

def VfsState.setNode (e : Nat) (node : Inode) : VfsState :=
  { s with nodes := Function.update s.nodes e node }

/-! ## Inodes -/

/-- The character `/`. -/
def slash : UInt8 := 47

/-- `inode_alloc`. -/
def inodeAlloc : Option Nat :=
  (range devNodes).find? fun e => (s.nodes e).type = .notInit

/-- The test of `inode_open`: the path is that of the inode or, for a file system, goes on below
it. -/
def Inode.resolves (node : Inode) (path : Bytes) : Bool :=
  match node.iName with
  | none => false
  | some name =>
    (node.type = .fsDev && name.isPrefixOf path && path[name.length]? = some slash) || name = path

/-- `inode_open`. -/
def inodeOpen (path : Bytes) : Option Nat :=
  (range devNodes).find? fun e => (s.nodes e).resolves path

/-- `inode_ref`. -/
def inodeRef (e : Nat) : VfsState :=
  s.setNode e { s.nodes e with refs := ((s.nodes e).refs + 1) % 2 ^ 8 }

/-- `inode_unref`. -/
def inodeUnref (e : Nat) : VfsState :=
  if 0 < (s.nodes e).refs then s.setNode e { s.nodes e with refs := (s.nodes e).refs - 1 } else s

variable (path : Option Bytes) (op : Option Int)

/-- `inode_reserve` and, if it succeeds, the type that the caller gives to the inode. The name
needs memory. -/
def inodeReserve (memory : Bool) (type : VfsType) : VfsRes × VfsState :=
  match path with
  | none => (.err .einval, s)
  | some path =>
    if path.head? ≠ some slash then (.err .einval, s)
    else
      match inodeAlloc s with
      | none => (.err .enomem, s)
      | some e =>
        if memory then (.ret 0, s.setNode e { s.nodes e with iName := some path, type := type })
        else (.err .enomem, s)

/-- `inode_del`. -/
def inodeDel (e : Nat) : VfsRes × VfsState :=
  if 0 < (s.nodes e).refs then (.err .ebusy, s)
  else (.ret 0, s.setNode e { s.nodes e with iName := none, iFlags := 0, type := .notInit })

/-- `inode_release`. -/
def inodeRelease : VfsRes × VfsState :=
  match path with
  | none => (.err .einval, s)
  | some path =>
    match inodeOpen s path with
    | none => (.err .enodev, s)
    | some e => inodeDel s e

def aosRegisterDriver (memory : Bool) : VfsRes × VfsState :=
  inodeReserve s path memory .charDev

def aosRegisterFs (memory : Bool) : VfsRes × VfsState := inodeReserve s path memory .fsDev

def aosUnregisterDriver : VfsRes × VfsState := inodeRelease s path

def aosUnregisterFs : VfsRes × VfsState := inodeRelease s path

/-! ## Files -/

/-- `new_file`. -/
def newFile (node : Nat) : Option (Nat × VfsState) :=
  match s.files.findIdx? (· = none) with
  | none => none
  | some idx => some (idx, inodeRef { s with files := s.files.set idx (some node) } node)

/-- `del_file`. -/
def delFile (idx : Nat) : VfsState :=
  match s.files[idx]? with
  | some (some node) => { inodeUnref s node with files := s.files.set idx none }
  | _ => s

def getFd (idx : Nat) : Int := idx + fdOffset

/-- `get_file`: the slot and its inode. -/
def getFile (fd : Int) : Option (Nat × Nat) :=
  if fd - fdOffset < 0 ∨ (maxFileNum : Int) ≤ fd - fdOffset then none
  else
    match s.files[(fd - fdOffset).toNat]? with
    | some (some node) => some ((fd - fdOffset).toNat, node)
    | _ => none

/-- `aos_open`. -/
def aosOpen (flags : Int) (op : Option Int) : VfsRes × VfsState :=
  match path with
  | none => (.err .einval, s)
  | some path =>
    if pathMax < path.length then (.err .enametoolong, s)
    else
      match inodeOpen s path with
      | none => (.err .enoent, s)
      | some node =>
        let s := s.setNode node { s.nodes node with iFlags := flags }
        match newFile s node with
        | none => (.err .enfile, s)
        | some (idx, s) =>
          let ret := op.getD 0
          if ret ≠ 0 then (.ret ret, delFile s idx) else (.fd (getFd idx), s)

/-- `aos_close`: what the driver returns is lost. -/
def aosClose (fd : Int) : VfsRes × VfsState :=
  match getFile s fd with
  | none => (.err .enoent, s)
  | some (idx, _) => (.ret 0, delFile s idx)

/-! ## Operations on paths -/

/-- An operation that only file systems have. -/
def fsCall (node : Nat) (op : Option Int) : VfsRes :=
  if (s.nodes node).type = .fsDev then
    match op with
    | some n => .ret n
    | none => .err .enosys
  else .err .enosys

/-- What the operations on a path have in common: a slot is taken for the call and given back. -/
def pathCall : VfsRes × VfsState :=
  match path with
  | none => (.err .einval, s)
  | some path =>
    match inodeOpen s path with
    | none => (.err .enodev, s)
    | some node =>
      match newFile s node with
      | none => (.err .enoent, s)
      | some (idx, s) => (fsCall s node op, delFile s idx)

def aosStat : VfsRes × VfsState := pathCall s path op

def aosUnlink : VfsRes × VfsState := pathCall s path op

def aosRename (oldpath newpath : Option Bytes) (op : Option Int) : VfsRes × VfsState :=
  if newpath = none then (.err .einval, s) else pathCall s oldpath op

def aosMkdir : VfsRes × VfsState := pathCall s path op

def aosRmdir : VfsRes × VfsState := pathCall s path op

def aosStatfs : VfsRes × VfsState := pathCall s path op

def aosAccess : VfsRes × VfsState := pathCall s path op

/-- `aos_opendir`, with whether the file system returns a directory. -/
def aosOpendir (dp : Bool) : VfsRes × VfsState :=
  match path with
  | none => (.null, s)
  | some path =>
    match inodeOpen s path with
    | none => (.null, s)
    | some node =>
      match newFile s node with
      | none => (.null, s)
      | some (idx, s) =>
        if (s.nodes node).type = .fsDev ∧ dp then (.fd (getFd idx), s) else (.null, delFile s idx)

/-- `aos_closedir`, for a directory with descriptor `dd_vfs_fd`. -/
def aosClosedir (dir : Option Int) (op : Option Int) : VfsRes × VfsState :=
  match dir with
  | none => (.err .einval, s)
  | some fd =>
    match getFile s fd with
    | none => (.err .enoent, s)
    | some (idx, node) => (fsCall s node op, delFile s idx)

/-! ## Calls -/

inductive VfsCall where
  | registerDriver (path : Option Bytes) (memory : Bool)
  | registerFs (path : Option Bytes) (memory : Bool)
  | unregisterDriver (path : Option Bytes)
  | unregisterFs (path : Option Bytes)
  | open_ (path : Option Bytes) (flags : Int) (op : Option Int)
  | close (fd : Int)
  | stat (path : Option Bytes) (op : Option Int)
  | unlink (path : Option Bytes) (op : Option Int)
  | rename (oldpath newpath : Option Bytes) (op : Option Int)
  | mkdir (path : Option Bytes) (op : Option Int)
  | rmdir (path : Option Bytes) (op : Option Int)
  | statfs (path : Option Bytes) (op : Option Int)
  | access (path : Option Bytes) (op : Option Int)
  | opendir (path : Option Bytes) (dp : Bool)
  | closedir (dir : Option Int) (op : Option Int)

def VfsCall.apply : VfsCall → VfsRes × VfsState
  | registerDriver path memory => aosRegisterDriver s path memory
  | registerFs path memory => aosRegisterFs s path memory
  | unregisterDriver path => aosUnregisterDriver s path
  | unregisterFs path => aosUnregisterFs s path
  | open_ path flags op => aosOpen s path flags op
  | close fd => aosClose s fd
  | stat path op => aosStat s path op
  | unlink path op => aosUnlink s path op
  | rename oldpath newpath op => aosRename s oldpath newpath op
  | mkdir path op => aosMkdir s path op
  | rmdir path op => aosRmdir s path op
  | statfs path op => aosStatfs s path op
  | access path op => aosAccess s path op
  | opendir path dp => aosOpendir s path dp
  | closedir dir op => aosClosedir s dir op

/-- The VFS after `vfs_init`, and any calls. -/
def vfsSystem : System VfsState VfsCall where
  init s := s = {}
  allowed _ _ := True
  step s call := (call.apply s).2

/-! ## Reference counts

Every call that takes a slot and does not return its descriptor gives the slot back, so an inode
can be unregistered exactly if no slot points to it. -/

variable {s s' : VfsState} {node idx : Nat}

/-- Each inode counts its slots. -/
structure Counted (s : VfsState) : Prop where
  length : s.files.length = maxFileNum
  refs : ∀ e, (s.nodes e).refs = s.files.count (some e)

/-- No slot is in use that was not. -/
def NoNewSlot (s s' : VfsState) : Prop :=
  ∀ i e : Nat, s'.files[i]? = some (some e) → s.files[i]? = some (some e)

theorem NoNewSlot.of_eq (same : s'.files = s.files) : NoNewSlot s s' := by
  intro i e used
  rwa [same] at used

theorem Counted.init : Counted {} := by
  refine ⟨length_replicate, fun e => ?_⟩
  rw [count_replicate]
  rfl

/-- A change of an inode that keeps its count. -/
theorem Counted.setNode (counted : Counted s) (e : Nat) {inode : Inode}
    (same : inode.refs = (s.nodes e).refs) : Counted (s.setNode e inode) := by
  refine ⟨counted.length, fun e' => ?_⟩
  show (update s.nodes e inode e').refs = s.files.count (some e')
  by_cases here : e' = e
  · subst here
    rw [update_self, same, counted.refs]
  · rw [update_of_ne here, counted.refs]

/-! ### Slots -/

/-- A free slot is taken, and the node counted. -/
theorem newFile_spec (taken : newFile s node = some (idx, s')) :
    s.files[idx]? = some none ∧
      s' = inodeRef { s with files := s.files.set idx (some node) } node := by
  unfold newFile at taken
  cases found : s.files.findIdx? (· = none) with
  | none =>
    rw [found] at taken
    cases taken
  | some =>
    rw [found] at taken
    cases taken
    obtain ⟨inside, free, -⟩ := findIdx?_eq_some_iff_getElem.mp found
    exact ⟨List.getElem?_eq_some_iff.mpr ⟨inside, of_decide_eq_true free⟩, rfl⟩

/-- One slot is changed. -/
theorem count_set {files : List (Option Nat)} {old : Option Nat}
    (here : files[idx]? = some old) (new : Option Nat) (e : Nat) :
    (files.set idx new).count (some e) + (if old = some e then 1 else 0) =
      files.count (some e) + if new = some e then 1 else 0 := by
  obtain ⟨inside, is⟩ := List.getElem?_eq_some_iff.mp here
  have counts := List.count_set (b := some e) (a := new) inside
  have some_ : old = some e → 0 < files.count (some e) := by
    intro same
    rw [count_pos_iff, ← same, ← is]
    exact getElem_mem inside
  rw [is] at counts
  simp only [beq_iff_eq] at counts
  by_cases was : old = some e
  · have pos := some_ was
    rw [if_pos was] at counts ⊢
    omega
  · rw [if_neg was] at counts ⊢
    omega

/-- A slot changes, and the references of the inodes with it. -/
theorem Counted.slot {old new : Option Nat} {nodes : Nat → Inode} (counted : Counted s)
    (here : s.files[idx]? = some old)
    (refs : ∀ e, (nodes e).refs + (if old = some e then 1 else 0) =
      (s.nodes e).refs + if new = some e then 1 else 0) :
    Counted { s with files := s.files.set idx new, nodes := nodes } := by
  refine ⟨(length_set ..).trans counted.length, fun e => ?_⟩
  have count := count_set here new e
  have moved := refs e
  rw [counted.refs] at moved
  show (nodes e).refs = (s.files.set idx new).count (some e)
  omega

/-- The counts still match the slots. -/
theorem Counted.newFile (counted : Counted s) (taken : newFile s node = some (idx, s')) :
    Counted s' := by
  obtain ⟨free, rfl⟩ := newFile_spec taken
  refine counted.slot free fun e => ?_
  by_cases same : e = node
  · subst same
    have few : s.files.count (some e) ≤ 50 := count_le_length.trans counted.length.le
    rw [update_self]
    rw [counted.refs]
    simp only [if_true, reduceCtorEq, if_false]
    omega
  · simp [same, Ne.symm same]

/-- The slot is freed, and the node counted down. -/
theorem delFile_spec (used : s.files[idx]? = some (some node)) :
    delFile s idx = { inodeUnref s node with files := s.files.set idx none } := by
  unfold delFile
  rw [used]

theorem delFile_files (used : s.files[idx]? = some (some node)) :
    (delFile s idx).files = s.files.set idx none := by
  rw [delFile_spec used]

/-- The counts still match the slots. -/
theorem Counted.delFile (counted : Counted s) (used : s.files[idx]? = some (some node)) :
    Counted (delFile s idx) := by
  have pos : 0 < (s.nodes node).refs := by
    rw [counted.refs, count_pos_iff]
    exact mem_of_getElem? used
  rw [delFile_spec used, inodeUnref, if_pos pos]
  refine counted.slot used fun e => ?_
  show (update s.nodes node _ e).refs + _ = _
  by_cases same : e = node
  · subst same
    simp only [update_self, if_true, reduceCtorEq, if_false]
    omega
  · simp [same, Ne.symm same]

/-- A slot that is taken and given back. -/
theorem Counted.borrowed (counted : Counted s) (taken : Vfs.newFile s node = some (idx, s')) :
    Counted (Vfs.delFile s' idx) ∧ (Vfs.delFile s' idx).files = s.files := by
  have counted' := counted.newFile taken
  obtain ⟨free, rfl⟩ := newFile_spec taken
  obtain ⟨inside, is⟩ := List.getElem?_eq_some_iff.mp free
  have used : (inodeRef { s with files := s.files.set idx (some node) } node).files[idx]? =
      some (some node) :=
    getElem?_set_self inside
  refine ⟨counted'.delFile used, ?_⟩
  rw [delFile_files used]
  show (s.files.set idx (some node)).set idx none = s.files
  rw [set_set, ← is, set_getElem_self]

theorem NoNewSlot.delFile (used : s.files[idx]? = some (some node)) :
    NoNewSlot s (delFile s idx) := by
  intro i e there
  rw [delFile_files used, getElem?_set] at there
  split at there
  · split at there
    · cases there
    · cases there
  · exact there

/-- A descriptor that is found names a used slot. -/
theorem getFile_used {fd : Int} (found : getFile s fd = some (idx, node)) :
    s.files[idx]? = some (some node) := by
  unfold getFile at found
  split at found
  · cases found
  split at found
  · next here =>
    cases found
    exact here
  · cases found

/-! ### Calls -/

/-- After a call the inodes count their slots, and no slot is taken without a descriptor. -/
structure Settles (s : VfsState) (r : VfsRes × VfsState) : Prop where
  counted : Counted r.2
  slots : (∀ n, r.1 ≠ .fd n) → NoNewSlot s r.2

variable {path : Option Bytes}

namespace Counted

section

variable (counted : Counted s)
include counted

theorem nothing (res : VfsRes) : Settles s (res, s) := ⟨counted, fun _ => .of_eq rfl⟩

/-- A registration takes no slot. -/
theorem inodeReserve (path : Option Bytes) (memory : Bool) (type : VfsType) :
    Settles s (inodeReserve s path memory type) := by
  unfold Vfs.inodeReserve
  split
  · exact counted.nothing _
  split
  · exact counted.nothing _
  split
  · exact counted.nothing _
  split
  · exact ⟨counted.setNode _ rfl, fun _ => .of_eq rfl⟩
  · exact counted.nothing _

/-- A node leaves only if no slot refers to it. -/
theorem inodeRelease (path : Option Bytes) : Settles s (inodeRelease s path) := by
  unfold Vfs.inodeRelease inodeDel
  split
  · exact counted.nothing _
  split
  · exact counted.nothing _
  split
  · exact counted.nothing _
  · exact ⟨counted.setNode _ rfl, fun _ => .of_eq rfl⟩

/-- A failed open gives its slot back. -/
theorem aosOpen (path : Option Bytes) (flags : Int) (op : Option Int) :
    Settles s (aosOpen s path flags op) := by
  unfold Vfs.aosOpen
  split
  · exact counted.nothing _
  split
  · exact counted.nothing _
  split
  · exact counted.nothing _
  next node _ =>
  have flagged : Counted (s.setNode node { s.nodes node with iFlags := flags }) :=
    counted.setNode node rfl
  generalize is : s.setNode node { s.nodes node with iFlags := flags } = s₁ at flagged
  have same : s₁.files = s.files := is ▸ rfl
  dsimp only
  split
  · exact ⟨flagged, fun _ => .of_eq same⟩
  next taken =>
  split
  · obtain ⟨counted', files⟩ := flagged.borrowed taken
    exact ⟨counted', fun _ => .of_eq (files.trans same)⟩
  · exact ⟨flagged.newFile taken, fun not => absurd rfl (not _)⟩

theorem closing (used : s.files[idx]? = some (some node)) (res : VfsRes) :
    Settles s (res, Vfs.delFile s idx) :=
  ⟨counted.delFile used, fun _ => .delFile used⟩

/-- A close frees one slot, whatever the driver answers. -/
theorem aosClose (fd : Int) : Settles s (aosClose s fd) := by
  unfold Vfs.aosClose
  split
  · exact counted.nothing _
  · next found => exact counted.closing (getFile_used found) _

theorem aosClosedir (dir : Option Int) (op : Option Int) : Settles s (aosClosedir s dir op) := by
  unfold Vfs.aosClosedir
  split
  · exact counted.nothing _
  split
  · exact counted.nothing _
  · next found => exact counted.closing (getFile_used found) _

theorem pathCall (path : Option Bytes) (op : Option Int) : Settles s (pathCall s path op) := by
  unfold Vfs.pathCall
  split
  · exact counted.nothing _
  split
  · exact counted.nothing _
  split
  · exact counted.nothing _
  · next taken =>
    obtain ⟨counted', files⟩ := counted.borrowed taken
    exact ⟨counted', fun _ => .of_eq files⟩

/-- A rename opens nothing. -/
theorem aosRename (oldpath newpath : Option Bytes) (op : Option Int) :
    Settles s (aosRename s oldpath newpath op) := by
  unfold Vfs.aosRename
  split
  · exact counted.nothing _
  · exact counted.pathCall oldpath op

theorem aosOpendir (path : Option Bytes) (dp : Bool) : Settles s (aosOpendir s path dp) := by
  unfold Vfs.aosOpendir
  split
  · exact counted.nothing _
  split
  · exact counted.nothing _
  split
  · exact counted.nothing _
  next taken =>
  split
  · exact ⟨counted.newFile taken, fun not => absurd rfl (not _)⟩
  · obtain ⟨counted', files⟩ := counted.borrowed taken
    exact ⟨counted', fun _ => .of_eq files⟩

/-- Every call keeps the counts. -/
theorem apply (call : VfsCall) : Settles s (call.apply s) := by
  cases call with
  | registerDriver path memory => exact counted.inodeReserve path memory .charDev
  | registerFs path memory => exact counted.inodeReserve path memory .fsDev
  | unregisterDriver path | unregisterFs path => exact counted.inodeRelease path
  | open_ path flags op => exact counted.aosOpen path flags op
  | close fd => exact counted.aosClose fd
  | stat path op | unlink path op | mkdir path op | rmdir path op | statfs path op
  | access path op => exact counted.pathCall path op
  | rename oldpath newpath op => exact counted.aosRename oldpath newpath op
  | opendir path dp => exact counted.aosOpendir path dp
  | closedir dir op => exact counted.aosClosedir dir op

/-- An inode is released exactly if no slot points to it. -/
theorem inodeRelease_iff (path : Option Bytes) : (Vfs.inodeRelease s path).1 = .ret 0 ↔
      ∃ p e, path = some p ∧ inodeOpen s p = some e ∧ some e ∉ s.files := by
  unfold Vfs.inodeRelease
  cases path
  case none => exact ⟨nofun, fun ⟨_, _, is, _⟩ => nomatch is⟩
  case some p =>
  dsimp only
  cases found : inodeOpen s p with
  | none =>
    refine ⟨nofun, ?_⟩
    rintro ⟨_, e, ⟨⟩, opened, -⟩
    rw [found] at opened
    cases opened
  | some e =>
    have free : (s.nodes e).refs = 0 ↔ some e ∉ s.files := by
      rw [counted.refs, count_eq_zero]
    dsimp only
    unfold inodeDel
    split
    · refine ⟨nofun, ?_⟩
      rintro ⟨_, e', ⟨⟩, opened, absent⟩
      rw [found] at opened
      cases opened
      have none_ := free.mpr absent
      omega
    · refine ⟨fun _ => ⟨p, e, rfl, found, free.mp (by omega)⟩, fun _ => rfl⟩

end

end Counted

/-! ### Runs -/

/-- In every state that calls reach, each inode counts the slots that point to it, a call that does
not return a descriptor takes no slot, and a path is unregistered exactly if it leads to an inode to
which no slot points. -/
theorem vfs_references {s : VfsState} (reach : vfsSystem.Reach s) :
    (∀ e, (s.nodes e).refs = s.files.count (some e)) ∧
    (∀ call : VfsCall, (∀ n, (call.apply s).1 ≠ .fd n) → NoNewSlot s (call.apply s).2) ∧
    (∀ path, (aosUnregisterDriver s path).1 = .ret 0 ↔
      ∃ p e, path = some p ∧ inodeOpen s p = some e ∧ some e ∉ s.files) ∧
    ∀ path, (aosUnregisterFs s path).1 = .ret 0 ↔
      ∃ p e, path = some p ∧ inodeOpen s p = some e ∧ some e ∉ s.files := by
  have counted : Counted s := by
    refine reach.invariant ?_ fun s call counted _ => (counted.apply call).counted
    rintro s rfl
    exact .init
  exact ⟨counted.refs, fun call => (counted.apply call).slots, counted.inodeRelease_iff,
    counted.inodeRelease_iff⟩

/-- A driver and a file system, a file of each, and one operation that fails. -/
theorem vfs_references_opened :
    ∃ s, vfsSystem.Reach s ∧ s.files.count (some 0) = 1 ∧ (s.nodes 0).refs = 1 ∧
      (aosUnregisterDriver s (some [47, 97])).1 ≠ .ret 0 := by
  let calls : List VfsCall :=
    [.registerDriver (some [47, 97]) true, .registerFs (some [47, 98]) true,
      .open_ (some [47, 97]) 0 none, .open_ (some [47, 97]) 0 (some (-5)),
      .mkdir (some [47, 98, 47, 99]) (some 0), .opendir (some [47, 98]) true]
  have reach : vfsSystem.Reach (vfsSystem.run {} calls) :=
    System.Reach.run (.init rfl) ⟨trivial, trivial, trivial, trivial, trivial,
      trivial, trivial⟩
  obtain ⟨refs, -, unregister, -⟩ := vfs_references reach
  have one : (vfsSystem.run {} calls).files.count (some 0) = 1 := by decide +kernel
  refine ⟨_, reach, one, (refs 0).trans one, fun done => ?_⟩
  obtain ⟨p, e, ⟨⟩, opened, absent⟩ := (unregister _).mp done
  have zero : inodeOpen (vfsSystem.run {} calls) [47, 97] = some 0 := by decide +kernel
  rw [zero] at opened
  cases opened
  exact absent (count_pos_iff.mp (by rw [one]; decide))

end AliosThings.Vfs
