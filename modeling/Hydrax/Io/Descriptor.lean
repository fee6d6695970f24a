import Hydrax.Machine
import Hydrax.Transition
import Mathlib.Algebra.BigOperators.Group.Finset.Basic

/-!
# Descriptors

The descriptor tables of the processes, from `kernel/io.c`, and `vfs_close` of `kernel/vfs.c`.

A descriptor number is kept as the 32 bits it has, so `-1` is `minusOne`. The list of a table is in
the order of creation: `create_file_descriptor` appends. The blocks of nodes and pipes are named by
the call of `malloc` that returned them, so no name is given out twice.

Which node `vfs_open` finds for a path is an argument of `open`. A call takes effect at once: the
locks of the table and of the node are held over what it changes.
-/

namespace Hydrax.Io

open Loop
open Function (update update_of_ne update_self)

def minusOne : Nat := 2 ^ 32 - 1

/-- The number is below zero as an `int`. -/
def Negative (fd : Nat) : Prop := 2 ^ 31 ≤ fd

instance Negative.decidable (fd : Nat) : Decidable (Negative fd) :=
  inferInstanceAs (Decidable (_ ≤ _))

def ebadf : Int := -3
def enomem : Int := -8

def fdModeRead : Nat := 1
def fdModeWrite : Nat := 2
def fsPipe : Nat := 5
def fsAutofree : Nat := 0x20000

/-- `file_t`. -/
structure File where
  fd : Nat
  offset : Nat
  mode : Nat
  node : Nat
  deriving DecidableEq

/-- `desc_info_t`. -/
structure DescTable where
  fdNext : Nat := 0
  refs : Nat := 0
  fileDescriptors : List File := []

def DescTable.number (t : DescTable) (fd : Nat) : Nat := if fd = minusOne then t.fdNext else fd

def DescTable.create (t : DescTable) (node fd mode : Nat) : DescTable :=
  { t with
    fdNext := if fd = minusOne then (t.fdNext + 1) % 2 ^ 32 else t.fdNext
    fileDescriptors := t.fileDescriptors ++ [⟨t.number fd, 0, mode, node⟩] }

def DescTable.erase (t : DescTable) (fd : Nat) : DescTable :=
  { t with fileDescriptors := t.fileDescriptors.eraseP (fun f => f.fd = fd) }

/-- `desc->offset = offset` for the first descriptor with the number. -/
def setOffset (fd offset : Nat) : List File → List File
  | [] => []
  | f :: fs => if f.fd = fd then { f with offset := offset } :: fs else f :: setOffset fd offset fs

/-- `vfs_node_t`, as far as descriptors and pipes need it. -/
structure Node where
  flags : Nat := 0
  refs : Nat := 0
  data : Option Nat := none

/-- The descriptors of all processes, and the nodes they refer to. -/
structure IoState where
  /-- `descriptors_info` of a process, if it is not null. -/
  tables : Nat → Option DescTable := fun _ => none
  errno : Nat → Int := fun _ => 0
  /-- `next_pid`: the processes so far are those below. -/
  nextPid : Nat := 1
  nodes : Nat → Node := fun _ => {}
  /-- The `buf` of a `pipe_t`. -/
  pipeBuf : Nat → Nat := fun _ => 0
  /-- The blocks that are in use. -/
  live : Nat → Bool := fun _ => false
  /-- Which calls of `malloc` succeed, and how many there were. -/
  mallocOk : Nat → Bool
  mallocs : Nat := 0
  /-- The number of `file_t` blocks in use. -/
  fileBlocks : Nat := 0
  /-- Some call of `malloc` returned null. -/
  outOfMemory : Bool := false
  /-- The nodes of the file system are the blocks below. -/
  fsNodes : Nat := 0

namespace IoState

variable (s : IoState) (pid node : Nat)

def files : List File := ((s.tables pid).map DescTable.fileDescriptors).getD []

def setTable (t : Option DescTable) : IoState :=
  { s with tables := update s.tables pid t }

def setNode (n : Node) : IoState := { s with nodes := update s.nodes node n }

def setErrno (e : Int) : IoState := { s with errno := update s.errno pid e }

def setRefs (refs : Nat) : IoState := s.setNode node { s.nodes node with refs := refs }

/-- `node->refs++`. -/
def incrRefs : IoState := s.setRefs node (((s.nodes node).refs + 1) % 2 ^ 32)

/-- `--node->refs`. -/
def decrRefs : IoState := s.setRefs node (decr (s.nodes node).refs)

/-- A call of `malloc` that is not for a `file_t`. -/
def malloc : Option Nat × IoState :=
  if s.mallocOk s.mallocs then
    (some s.mallocs,
      { s with mallocs := s.mallocs + 1, live := update s.live s.mallocs true })
  else (none, { s with mallocs := s.mallocs + 1, outOfMemory := true })

/-- A call of `malloc` for a `file_t`. It is more than two bytes long, so that the address space
has no room for more than `2 ^ 31` of them. -/
def mallocFile : Bool × IoState :=
  if s.mallocOk s.mallocs ∧ s.fileBlocks < 2 ^ 31 then
    (true, { s with mallocs := s.mallocs + 1, fileBlocks := s.fileBlocks + 1 })
  else (false, { s with mallocs := s.mallocs + 1, outOfMemory := true })

def free (a : Nat) : Except Stop IoState :=
  if s.live a then .ok { s with live := update s.live a false } else .error .useAfterFree

/-! ## The functions of `io.c` -/

def getFileDescriptor (fd : Nat) : Option File := (s.files pid).find? (fun f => f.fd = fd)

def createFileDescriptor (fd mode : Nat) : Except Stop (Nat × IoState) :=
  match s.mallocFile with
  | (false, s) => .ok (minusOne, s.setErrno pid enomem)
  | (true, s) =>
    match s.tables pid with
    | none => .error .nullDeref
    | some t =>
      .ok (t.number fd, s.setTable pid (some (t.create node fd mode)))

/-- The buffer and the `pipe_t` of a node are freed, if it is a pipe. -/
def freePipe (n : Node) : Except Stop IoState :=
  match if n.flags &&& fsPipe ≠ 0 then n.data else none with
  | some pipe => do
      let s ← s.free (s.pipeBuf pipe)
      s.free pipe
  | none => .ok s

def freeNode : Except Stop IoState := do
  let s ← s.freePipe (s.nodes node)
  s.free node

def vfsClose : Except Stop IoState :=
  if s.live node then
    let s := s.decrRefs node
    if (s.nodes node).refs = 0 ∧ (s.nodes node).flags &&& fsAutofree ≠ 0 then s.freeNode node
    else .ok s
  else .error .useAfterFree

def close (fd : Nat) : Except Stop (Nat × IoState) :=
  match s.tables pid with
  | none => .ok (minusOne, s.setErrno pid ebadf)
  | some t =>
    if t.fileDescriptors = [] then .ok (minusOne, s.setErrno pid ebadf)
    else
      match t.fileDescriptors.find? (fun f => f.fd = fd) with
      | none => .error .nullDeref
      | some f => do
          let s ← (s.setTable pid (some (t.erase fd))).vfsClose f.node
          .ok (0, { s with fileBlocks := s.fileBlocks - 1 })

/-- The descriptor that `dup2` replaces is closed. A number that is given twice names one descriptor,
and the descriptor that is duplicated would be used after it is freed. -/
def closeTarget (oldfd newfd : Nat) : Except Stop IoState :=
  match s.getFileDescriptor pid newfd with
  | none => .ok s
  | some newDesc =>
    if newfd = oldfd then .error .useAfterFree else Prod.snd <$> s.close pid newDesc.fd

def dup2 (oldfd newfd : Nat) : Except Stop (Nat × IoState) :=
  match s.getFileDescriptor pid oldfd with
  | none => .ok (minusOne, s.setErrno pid ebadf)
  | some oldDesc => do
      let s ← s.closeTarget pid oldfd newfd
      if s.live oldDesc.node = false then .error .useAfterFree
      else
        let (fd, s) ← (s.incrRefs oldDesc.node).createFileDescriptor pid oldDesc.node newfd
          oldDesc.mode
        if Negative fd then .ok (fd, s)
        else
          match s.tables pid with
          | none => .error .assertFailed
          | some t => .ok (fd, s.setTable pid (some
              { t with fileDescriptors := setOffset fd oldDesc.offset t.fileDescriptors }))

def dup (oldfd : Nat) : Except Stop (Nat × IoState) := s.dup2 pid oldfd minusOne

/-- The first half of `pipe`: the node of a pipe, if there is memory for it, its `pipe_t` and its
buffer. -/
def mallocPipe : Except Stop (Option Nat × IoState) :=
  match s.malloc with
  | (none, s) => .ok (none, s)
  | (some node, s) =>
    match s.malloc with
    | (none, s) => do
        let s ← s.free node
        .ok (none, s)
    | (some pipe, s) =>
      match s.malloc with
      | (none, s) => do
          let s ← s.free pipe
          let s ← s.free node
          .ok (none, s)
      | (some buf, s) =>
        let s := { s with pipeBuf := update s.pipeBuf pipe buf }
        .ok (some node, s.setNode node
          { flags := fsPipe ||| fsAutofree, refs := 2, data := some pipe })

/-- `pipe`, with the two numbers it stores in `pipefd` if there is memory for the node. -/
def pipe : Except Stop (Option (Nat × Nat) × IoState) := do
  let (node, s) ← s.mallocPipe
  match node with
  | none => .ok (none, s.setErrno pid enomem)
  | some node =>
    let (fd₀, s) ← s.createFileDescriptor pid node minusOne fdModeRead
    let (fd₁, s) ← s.createFileDescriptor pid node minusOne fdModeWrite
    .ok (some (fd₀, fd₁), s)

/-- `open`, where `vfs_open` finds the node, or none. -/
def openFile (found : Option Nat) : Except Stop (Nat × IoState) :=
  match found with
  | none => .ok (minusOne, s)
  | some node => (s.incrRefs node).createFileDescriptor pid node minusOne (fdModeRead ||| fdModeWrite)

/-- The loop of `clone_descriptor_table`, with the copies made so far. -/
def cloneFiles (s : IoState) (copies : List File) :
    List File → Except Stop (Option (List File) × IoState)
  | [] => .ok (some copies, s)
  | f :: fs =>
    match s.mallocFile with
    | (false, s) => .ok (none, { s with fileBlocks := s.fileBlocks - copies.length })
    | (true, s) =>
      if s.live f.node then cloneFiles (s.incrRefs f.node) (copies ++ [f]) fs
      else .error .useAfterFree

def cloneDescriptorTable : Except Stop (Option DescTable × IoState) :=
  match s.mallocOk s.mallocs, { s with mallocs := s.mallocs + 1 } with
  | false, s => .ok (none, { s.setErrno pid enomem with outOfMemory := true })
  | true, s =>
    match s.tables pid with
    | none => .error .nullDeref
    | some src => do
        let (copies, s) ← cloneFiles s [] src.fileDescriptors
        match copies with
        | none => .ok (none, s.setErrno pid enomem)
        | some fs => .ok (some { fdNext := src.fdNext, fileDescriptors := fs }, s)

/-- The next process, with its `descriptors_info`. -/
def addProcess (table : Option DescTable) : IoState :=
  { s.setTable s.nextPid table with nextPid := s.nextPid + 1 }

/-- `fork`, as far as descriptors go. Its error path for a null table does not return, so the child
is made all the same. -/
def fork : Except Stop (Nat × IoState) := do
  let (table, s) ← s.cloneDescriptorTable pid
  .ok (s.nextPid, s.addProcess table)

def destroyDescriptorTable : Except Stop IoState :=
  match s.tables pid with
  | none => .error .nullDeref
  | some t =>
    if t.refs = 0 then do
      let s ← t.fileDescriptors.foldlM (fun s f => Prod.snd <$> s.close pid f.fd) s
      .ok (s.setTable pid none)
    else .ok (s.setTable pid (some { t with refs := t.refs - 1 }))

/-- `pipe_write` raises `SIGPIPE`. -/
def pipeWriteRaises : Prop := (s.nodes node).refs < 2

end IoState

/-! ## What the functions can do -/

namespace IoState

variable {s s' : IoState} {pid node fd mode r a : Nat}

theorem setRefs_of_ne (refs : Nat) (h : a ≠ node) : (s.setRefs node refs).nodes a = s.nodes a :=
  update_of_ne h _ _

theorem setRefs_self (refs : Nat) :
    (s.setRefs node refs).nodes node = { s.nodes node with refs := refs } :=
  update_self _ _ _

theorem setRefs_flags (refs : Nat) (a : Nat) :
    ((s.setRefs node refs).nodes a).flags = (s.nodes a).flags := by
  by_cases h : a = node
  · rw [h, setRefs_self]
  · rw [setRefs_of_ne _ h]

theorem setRefs_data (refs : Nat) (a : Nat) :
    ((s.setRefs node refs).nodes a).data = (s.nodes a).data := by
  by_cases h : a = node
  · rw [h, setRefs_self]
  · rw [setRefs_of_ne _ h]

theorem free_eq_ok :
    s.free a = .ok s' ↔
      s.live a = true ∧ s' = { s with live := update s.live a false } := by
  rw [free]
  split
  next h => simp [h, eq_comm]
  next h => simp [h]

theorem freeNode_cases (h : s.freeNode node = .ok s') : ∃ live, s' = { s with live := live } := by
  rw [freeNode, bind_eq_ok] at h
  obtain ⟨s₁, hpipe, hnode⟩ := h
  rw [freePipe] at hpipe
  split at hpipe
  next pipe _ =>
    rw [bind_eq_ok] at hpipe
    obtain ⟨s₂, hbuf, hpipe⟩ := hpipe
    obtain ⟨-, rfl⟩ := free_eq_ok.mp hbuf
    obtain ⟨-, rfl⟩ := free_eq_ok.mp hpipe
    obtain ⟨-, rfl⟩ := free_eq_ok.mp hnode
    exact ⟨_, rfl⟩
  next =>
    cases hpipe
    obtain ⟨-, rfl⟩ := free_eq_ok.mp hnode
    exact ⟨_, rfl⟩

theorem vfsClose_cases (h : s.vfsClose node = .ok s') :
    ∃ live, s' = { s.decrRefs node with live := live } := by
  rw [vfsClose] at h
  split at h
  next =>
    dsimp only at h
    split at h
    · exact freeNode_cases h
    · cases h
      exact ⟨s.live, rfl⟩
  next => cases h

theorem createFileDescriptor_cases
    (h : s.createFileDescriptor pid node fd mode = .ok (r, s')) :
    r = minusOne ∧ s' = { s.setErrno pid enomem with
        mallocs := s.mallocs + 1, outOfMemory := true } ∨
      ∃ t, s.tables pid = some t ∧ s.fileBlocks < 2 ^ 31 ∧ r = t.number fd ∧
        s' = { s.setTable pid (some (t.create node fd mode)) with
          mallocs := s.mallocs + 1, fileBlocks := s.fileBlocks + 1 } := by
  rw [createFileDescriptor, mallocFile] at h
  split at h
  next hm =>
    split at hm
    · cases hm
    · cases hm
      cases h
      exact Or.inl ⟨rfl, rfl⟩
  next hm =>
    split at hm
    next hroom =>
      cases hm
      split at h
      · cases h
      next t ht =>
        cases h
        exact Or.inr ⟨t, ht, hroom.2, rfl, rfl⟩
    next => cases hm

theorem createFileDescriptor_ok {t : DescTable} (ht : s.tables pid = some t)
    (node fd mode : Nat) : ∃ r s', s.createFileDescriptor pid node fd mode = .ok (r, s') ∧
      (s.outOfMemory = true → s'.outOfMemory = true) := by
  rw [createFileDescriptor, mallocFile]
  split
  next hm =>
    split at hm
    · cases hm
    · cases hm
      exact ⟨_, _, rfl, fun _ => rfl⟩
  next hm =>
    split at hm
    · cases hm
      dsimp only
      rw [ht]
      exact ⟨_, _, rfl, id⟩
    · cases hm

theorem close_cases (h : s.close pid fd = .ok (r, s')) :
    s.files pid = [] ∧ s' = s.setErrno pid ebadf ∨
      ∃ t f live, s.tables pid = some t ∧
        t.fileDescriptors.find? (fun f => f.fd = fd) = some f ∧
        s' = { (s.setTable pid (some (t.erase fd))).decrRefs f.node with
          live := live, fileBlocks := s.fileBlocks - 1 } := by
  rw [close] at h
  split at h
  next ht =>
    cases h
    exact Or.inl ⟨by rw [files, ht]; rfl, rfl⟩
  next t ht =>
    split at h
    next hnil =>
      cases h
      exact Or.inl ⟨by rw [files, ht]; exact hnil, rfl⟩
    next =>
      split at h
      · cases h
      next f hf =>
        rw [bind_eq_ok] at h
        obtain ⟨s₁, hclose, h⟩ := h
        obtain ⟨live, rfl⟩ := vfsClose_cases hclose
        cases h
        exact Or.inr ⟨t, f, live, ht, hf, rfl⟩

theorem malloc_eq (s : IoState) :
    s.malloc = (none, { s with mallocs := s.mallocs + 1, outOfMemory := true }) ∨
      s.malloc = (some s.mallocs,
        { s with mallocs := s.mallocs + 1, live := update s.live s.mallocs true }) := by
  rw [malloc]
  split
  · exact Or.inr rfl
  · exact Or.inl rfl

def withPipe (s : IoState) : IoState :=
  { s with
    mallocs := s.mallocs + 3
    live := update (update (update s.live s.mallocs true)
      (s.mallocs + 1) true) (s.mallocs + 2) true
    pipeBuf := update s.pipeBuf (s.mallocs + 1) (s.mallocs + 2)
    nodes := update s.nodes s.mallocs
      { flags := fsPipe ||| fsAutofree, refs := 2, data := some (s.mallocs + 1) } }

theorem mallocPipe_cases (s : IoState) :
    (∃ live mallocs, s.mallocPipe = .ok (none,
        { s with live := live, mallocs := mallocs, outOfMemory := true })) ∨
      s.mallocPipe = .ok (some s.mallocs, s.withPipe) := by
  rw [mallocPipe]
  rcases malloc_eq s with hm | hm
  · rw [hm]
    exact Or.inl ⟨_, _, rfl⟩
  rw [hm]
  dsimp only
  rcases malloc_eq { s with
    mallocs := s.mallocs + 1, live := update s.live s.mallocs true } with hm | hm
  · rw [hm]
    dsimp only
    rw [free, if_pos (update_self ..)]
    exact Or.inl ⟨_, _, rfl⟩
  rw [hm]
  dsimp only
  rcases malloc_eq { s with
    mallocs := s.mallocs + 1 + 1
    live := update (update s.live s.mallocs true) (s.mallocs + 1) true }
    with hm | hm
  · rw [hm]
    dsimp only
    rw [free, if_pos (update_self ..), ok_bind, free, if_pos]
    · exact Or.inl ⟨_, _, rfl⟩
    · dsimp only
      rw [update_of_ne (by omega), update_of_ne (by omega), update_self]
  · rw [hm]
    exact Or.inr rfl

theorem cloneFiles_cases {copies fs : List File} {res : Option (List File)}
    (h : cloneFiles s copies fs = .ok (res, s')) :
    s'.tables = s.tables ∧ s'.nextPid = s.nextPid ∧ ∀ l, res = some l → l = copies ++ fs := by
  induction fs generalizing s copies with
  | nil =>
    cases h
    refine ⟨rfl, rfl, fun l hl => ?_⟩
    cases hl
    exact (List.append_nil _).symm
  | cons f fs ih =>
    rw [cloneFiles, mallocFile] at h
    split at h
    next hm =>
      split at hm
      · cases hm
      · cases hm
        cases h
        exact ⟨rfl, rfl, fun l hl => by cases hl⟩
    next hm =>
      split at hm
      · cases hm
        split at h
        · obtain ⟨htables, hpid, hres⟩ := ih h
          refine ⟨htables, hpid, fun l hl => ?_⟩
          rw [hres l hl, List.append_assoc]
          rfl
        · cases h
      · cases hm

theorem fork_cases (h : s.fork pid = .ok (r, s')) :
    s'.nextPid = s.nextPid + 1 ∧
      (s'.tables = update s.tables s.nextPid none ∨
        ∃ t, s.tables pid = some t ∧ s'.tables = update s.tables s.nextPid
          (some { fdNext := t.fdNext, fileDescriptors := t.fileDescriptors })) := by
  rw [fork, bind_eq_ok] at h
  obtain ⟨⟨table, s₁⟩, hclone, h⟩ := h
  cases h
  rw [cloneDescriptorTable] at hclone
  split at hclone
  next =>
    cases hclone
    exact ⟨rfl, Or.inl rfl⟩
  next =>
    split at hclone
    · cases hclone
    next t ht =>
      rw [bind_eq_ok] at hclone
      obtain ⟨⟨copies, s₂⟩, hfiles, hclone⟩ := hclone
      obtain ⟨htables, hpid, hcopies⟩ := cloneFiles_cases hfiles
      cases copies with
      | none =>
        cases hclone
        refine ⟨congrArg (· + 1) hpid, Or.inl ?_⟩
        show update s₂.tables s₂.nextPid none = _
        rw [htables, hpid]
      | some fs =>
        cases hclone
        refine ⟨congrArg (· + 1) hpid, Or.inr ⟨t, ht, ?_⟩⟩
        show update s₁.tables s₁.nextPid _ = _
        rw [htables, hpid, hcopies fs rfl, List.nil_append]

end IoState

/-! ## Runs -/

inductive IoCall where
  | openFile (found : Option Nat)
  | pipe
  | dup (oldfd : Nat)
  | dup2 (oldfd newfd : Nat)
  | close (fd : Nat)
  | fork
  | exit

def IoCall.exec (s : IoState) (pid : Nat) : IoCall → Except Stop IoState
  | .openFile found => Prod.snd <$> s.openFile pid found
  | .pipe => Prod.snd <$> s.pipe pid
  | .dup oldfd => Prod.snd <$> s.dup pid oldfd
  | .dup2 oldfd newfd => Prod.snd <$> s.dup2 pid oldfd newfd
  | .close fd => Prod.snd <$> s.close pid fd
  | .fork => Prod.snd <$> s.fork pid
  | .exit => s.destroyDescriptorTable pid

/-- The caller is a process, and `vfs_open` finds nodes of the file system. -/
def IoCall.Possible (s : IoState) (e : Nat × IoCall) : Prop :=
  e.1 < s.nextPid ∧ ∀ n, e.2 = .openFile (some n) → n < s.fsNodes

/-- A call of process `e.1`, which returns. -/
def IoStep (s : IoState) (e : Nat × IoCall) (s' : IoState) : Prop :=
  IoCall.Possible s e ∧ e.2.exec s e.1 = .ok s'

/-- The state that `scheduler_init` leaves: one process, without descriptors. -/
def ioBoot (mallocOk : Nat → Bool) (mallocs : Nat) (nodes : Nat → Node) (live : Nat → Bool) :
    IoState :=
  { tables := update (fun _ => none) 0 (some {}), nodes := nodes, live := live,
    mallocOk := mallocOk, mallocs := mallocs, fsNodes := mallocs }

end Hydrax.Io
