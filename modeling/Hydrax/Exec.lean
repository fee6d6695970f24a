import Hydrax.Elf
import Hydrax.Env
import Hydrax.Mmu.Progress
import Hydrax.Sched.SigQueue

/-!
# Replacing the image of a process

`execve` of `kernel/scheduler.c`, up to the point where the new program is loaded. From there on it
does not return: it builds the arguments, and enters the program.

The old image is given up before the new one is looked at. So whatever makes `elf_load` fail, the
caller has lost its memory by then (`execve_intact_iff`).
-/

namespace Hydrax

open Loop

variable {s s' : State} {b : Buffer} {fd : Nat} {k : Bool}

def enametoolong : Int := -6
def enoent : Int := -7

/-- `MAX_PATH`. -/
def maxPath : Nat := 255

/-- The current task: its memory, its signals, `argv`, its environment, and the number that
`open` gives to the next descriptor. -/
structure Caller where
  mm : State
  sig : Sched.SigState
  argv : List (List Char)
  env : Env.Environ
  fdNext : Nat

/-- How `execve` ends: it returns an error, or the program is loaded. -/
inductive ExecResult where
  | returned (r : Int)
  | loaded (entry : Nat)
  deriving DecidableEq, Repr

/-- `open`, with the node that `vfs_open` finds. `false` for `-1`. -/
def openNode (s : State) (node : Option Nat) (fd : Nat) : Bool × State :=
  match node with
  | none => (false, s.setErrno enoent)
  | some node =>
    let s := { s with
      nodeRefs := Function.update s.nodeRefs node (incr (s.nodeRefs node)) }
    match s.malloc with
    | (none, s) => (false, s.setErrno enomem)
    | (some _, s) =>
      let task := s.tasks s.currentTask
      (true, s.setTask { task with files := task.files ++ [{ fd := fd, node := node }] })

/-- "while (current_task->buffers != NULL)": every turn frees a buffer of the task, or of the kernel
if that has one at the same address. -/
def releaseBuffers : Nat → State → Except Stop State
  | 0, _ => .error .hang
  | fuel + 1, s =>
    match (s.tasks s.currentTask).buffers with
    | [] => .ok s
    | b :: _ => do
        let s ← kfree s b.address
        releaseBuffers fuel s

/-- How many buffers `kfree` can find. -/
def allBuffers (s : State) : Nat := (s.buffersOf true).length + (s.buffersOf false).length

def execve (c : Caller) (path : List Char) (node : Option Nat) (heap : Nat → Block) :
    Except Stop (ExecResult × Caller) := do
  if path.length > maxPath then return (.returned enametoolong, c)
  else if path = [] then return (.returned ebadf, c)
  else
    match openNode c.mm node c.fdNext with
    | (false, s) => return (.returned (-1), { c with mm := s })
    | (true, s) =>
      let c := { c with mm := s, fdNext := c.fdNext + 1 }
      let s ← releaseBuffers (allBuffers c.mm + 1) c.mm
      let task := c.sig.sched.currentTask
      let sig := { c.sig with
        sched := c.sig.sched.modify task (fun t => { t with sigmask := 0 }) }
      let c := { c with mm := s, sig := sig.clearTaskSignals task }
      let (entry, s) ← elfLoad c.mm (c.fdNext - 1) heap
      if entry = 0 then return (.returned (-1), { c with mm := s })
      else return (.loaded entry, { c with mm := s })

/-! ## What a failed call should leave -/

/-- The task is as it was. -/
structure Intact (c c' : Caller) : Prop where
  buffers : (c'.mm.tasks c'.mm.currentTask).buffers = (c.mm.tasks c.mm.currentTask).buffers
  mmaps : (c'.mm.tasks c'.mm.currentTask).mmaps = (c.mm.tasks c.mm.currentTask).mmaps
  memmap : (c'.mm.tasks c'.mm.currentTask).memmap = (c.mm.tasks c.mm.currentTask).memmap
  dirs : c'.mm.dirs = c.mm.dirs
  tables : c'.mm.tables = c.mm.tables
  sig : c'.sig = c.sig
  argv : c'.argv = c.argv
  env : c'.env = c.env
  files : (c'.mm.tasks c'.mm.currentTask).files = (c.mm.tasks c.mm.currentTask).files
  fdNext : c'.fdNext = c.fdNext

/-- The header that is read from the file, into a block that held `b`. -/
def fileHeader (s : State) (node : Nat) (b : Block) : Ehdr :=
  (b.read (s.vfsRead node 0 sizeofEhdr)).ehdr

/-- What `elf_load` asks for: two blocks of memory, a header of full size, the magic number and the
class. An entry point that is zero is taken for a failure, too. -/
structure Loadable (s : State) (node : Nat) (heap : Nat → Block) : Prop where
  first : s.mallocOk s.mallocs = true
  size : sizeofEhdr ≤ (s.vfsRead node 0 sizeofEhdr).length % wordSize
  magic : (fileHeader s node (heap (s.mallocs + 1))).magic = elfmag
  eiClass : (fileHeader s node (heap (s.mallocs + 1))).eiClass = elfclass32
  second : s.mallocOk (s.mallocs + 1) = true
  entry : (fileHeader s node (heap (s.mallocs + 1))).eEntry ≠ 0

/-- The node behind the new descriptor: that of an older descriptor with the same number, if there
is one. -/
def Caller.opened (c : Caller) (node : Nat) : Nat := (getFileNode c.mm c.fdNext).getD node

/-- The file can be opened, but it cannot be loaded. The descriptor takes a block of the heap. -/
structure FailsLate (c : Caller) (path : List Char) (node : Option Nat) (heap : Nat → Block) :
    Prop where
  short : path.length ≤ maxPath
  nonempty : path ≠ []
  memory : c.mm.mallocOk c.mm.mallocs = true
  fails : ∃ n, node = some n ∧
    ¬ Loadable { c.mm with mallocs := c.mm.mallocs + 1 } (c.opened n) heap

/-! ## Freeing the old image -/

/-- No block of the heap is taken, and no descriptor changes. -/
structure HeapKept (s s' : State) : Prop where
  mallocs : s'.mallocs = s.mallocs
  mallocOk : s'.mallocOk = s.mallocOk
  vfsRead : s'.vfsRead = s.vfsRead
  current : s'.currentTask = s.currentTask
  files : ∀ t, (s'.tasks t).files = (s.tasks t).files

theorem HeapKept.refl (s : State) : HeapKept s s := ⟨rfl, rfl, rfl, rfl, fun _ => rfl⟩

theorem HeapKept.trans {s₁ s₂ s₃ : State} (h : HeapKept s₁ s₂) (h' : HeapKept s₂ s₃) :
    HeapKept s₁ s₃ where
  mallocs := h'.mallocs.trans h.mallocs
  mallocOk := h'.mallocOk.trans h.mallocOk
  vfsRead := h'.vfsRead.trans h.vfsRead
  current := h'.current.trans h.current
  files t := (h'.files t).trans (h.files t)

theorem HeapKept.getFileNode (h : HeapKept s s') (fd : Nat) :
    getFileNode s' fd = getFileNode s fd := by
  rw [Hydrax.getFileNode, h.current, h.files, Hydrax.getFileNode]

theorem FrameStep.heapKept (h : FrameStep s s') : HeapKept s s' := by
  obtain ⟨_, _, _, _, rfl⟩ := h
  exact ⟨rfl, rfl, rfl, rfl, fun _ => rfl⟩

theorem heapKept_setTask (s : State) {task : Task}
    (htask : task.files = (s.tasks s.currentTask).files) : HeapKept s (s.setTask task) where
  mallocs := rfl
  mallocOk := rfl
  vfsRead := rfl
  current := rfl
  files t := by
    show (Function.update s.tasks s.currentTask task t).files = _
    by_cases ht : t = s.currentTask
    · rw [ht, Function.update_self, htask]
    · rw [Function.update_of_ne ht]

theorem heapKept_setMemmapOf (s : State) (k : Bool) (m : Memmap) :
    HeapKept s (s.setMemmapOf k m) := by
  cases k with
  | true => exact ⟨rfl, rfl, rfl, rfl, fun _ => rfl⟩
  | false => exact heapKept_setTask s rfl

theorem heapKept_setBuffersOf (s : State) (k : Bool) (l : List Buffer) :
    HeapKept s (s.setBuffersOf k l) := by
  cases k with
  | true => exact ⟨rfl, rfl, rfl, rfl, fun _ => rfl⟩
  | false => exact heapKept_setTask s rfl

theorem kfreeBuffer_heapKept (h : kfreeBuffer s k b = .ok s') : HeapKept s s' := by
  obtain ⟨-, -, rfl⟩ := kfreeBuffer_iff.mp h
  refine (touches_freeSlots (s.slotsOf k b.visited) s).1.step.heapKept.trans ?_
  rw [State.dropBuffer]
  refine ((heapKept_setTask _ ?_).trans (heapKept_setMemmapOf ..)).trans (heapKept_setBuffersOf ..)
  rfl

theorem kfree_cases {ptr : Nat} (h : kfree s ptr = .ok s') :
    (∃ b ∈ s.kernelBuffers, b.address = ptr ∧ kfreeBuffer s true b = .ok s') ∨
      ((∀ b ∈ s.kernelBuffers, b.address ≠ ptr) ∧ ∃ b ∈ (s.tasks s.currentTask).buffers,
        b.address = ptr ∧ kfreeBuffer s false b = .ok s') := by
  rw [kfree] at h
  split at h
  next b hb =>
    have haddr := List.find?_some hb
    exact Or.inl ⟨b, List.mem_of_find?_eq_some hb, beq_iff_eq.mp haddr, h⟩
  next hnone =>
    rw [List.find?_eq_none] at hnone
    refine Or.inr ⟨fun b hb heq => hnone b hb (beq_iff_eq.mpr heq), ?_⟩
    split at h
    next b hb =>
      have haddr := List.find?_some hb
      exact ⟨b, List.mem_of_find?_eq_some hb, beq_iff_eq.mp haddr, h⟩
    · cases h

theorem kfree_heapKept {ptr : Nat} (h : kfree s ptr = .ok s') : HeapKept s s' := by
  rcases kfree_cases h with ⟨b, -, -, h⟩ | ⟨-, b, -, -, h⟩
  · exact kfreeBuffer_heapKept h
  · exact kfreeBuffer_heapKept h

/-- **The old image is gone**: the task has no buffer left. -/
theorem releaseBuffers_spec {n : Nat} (h : releaseBuffers n s = .ok s') :
    HeapKept s s' ∧ (s'.tasks s'.currentTask).buffers = [] := by
  induction n generalizing s with
  | zero => cases h
  | succ n ih =>
    rw [releaseBuffers] at h
    split at h
    next hnil =>
      obtain rfl := Except.ok.inj h
      exact ⟨.refl _, hnil⟩
    next b l hcons =>
      obtain ⟨s₁, hfree, hrest⟩ := bind_eq_ok.mp h
      obtain ⟨hU, hnil⟩ := ih hrest
      exact ⟨(kfree_heapKept hfree).trans hU, hnil⟩

/-! ## Loading the new one -/

theorem Loadable.congr {node : Nat} {heap : Nat → Block}
    (hmallocs : s'.mallocs = s.mallocs) (hok : s'.mallocOk = s.mallocOk)
    (hread : s'.vfsRead = s.vfsRead) (h : Loadable s node heap) : Loadable s' node heap := by
  have hheader : fileHeader s' node = fileHeader s node := by
    funext b
    rw [fileHeader, hread, fileHeader]
  refine ⟨?_, ?_, ?_, ?_, ?_, ?_⟩
  · rw [hok, hmallocs]
    exact h.first
  · rw [hread]
    exact h.size
  · rw [hheader, hmallocs]
    exact h.magic
  · rw [hheader, hmallocs]
    exact h.eiClass
  · rw [hok, hmallocs]
    exact h.second
  · rw [hheader, hmallocs]
    exact h.entry

/-- **`elf_load` returns zero** exactly if the file does not have what it asks for. -/
theorem elfLoad_eq_zero_iff {node entry : Nat} {heap : Nat → Block}
    (hfd : getFileNode s fd = some node) (h : elfLoad s fd heap = .ok (entry, s')) :
    entry = 0 ↔ ¬ Loadable s node heap := by
  have hread : ∀ n o k, readFd { s with mallocs := n } fd o k =
      (((s.vfsRead node o k).length : Int), s.vfsRead node o k) := by
    intro n o k
    have hsame : getFileNode { s with mallocs := n } fd = some node := hfd
    rw [readFd, hsame]
  have hgot : ∀ k, (((s.vfsRead node 0 k).length : Int) % (wordSize : Nat)).toNat =
      (s.vfsRead node 0 k).length % wordSize := fun k => by omega
  rw [elfLoad] at h
  by_cases hfirst : s.mallocOk s.mallocs = true
  swap
  · simp only [State.malloc, hfirst, Bool.false_eq_true, if_false] at h
    cases h
    exact ⟨fun _ hL => hfirst hL.first, fun _ => rfl⟩
  simp only [State.malloc, hfirst, if_true, hread, hgot] at h
  split at h
  next hsize =>
    cases h
    exact ⟨fun _ hL => absurd hL.size (Nat.not_le_of_lt hsize), fun _ => rfl⟩
  next hsize =>
  split at h
  next hmagic =>
    cases h
    exact ⟨fun _ hL => hmagic hL.magic, fun _ => rfl⟩
  next hmagic =>
  split at h
  next hclass =>
    cases h
    exact ⟨fun _ hL => hclass hL.eiClass, fun _ => rfl⟩
  next hclass =>
  by_cases hsecond : s.mallocOk (s.mallocs + 1) = true
  swap
  · simp only [hsecond, Bool.false_eq_true, if_false] at h
    cases h
    exact ⟨fun _ hL => hsecond hL.second, fun _ => rfl⟩
  simp only [hsecond, if_true, hread] at h
  obtain ⟨s₁, hloop, h⟩ := bind_eq_ok.mp h
  rw [pure_eq_ok, Prod.mk.injEq] at h
  obtain ⟨rfl, rfl⟩ := h
  constructor
  · exact fun h0 hL => hL.entry h0
  · intro hL
    by_contra h0
    exact hL ⟨hfirst, Nat.le_of_not_lt hsize, not_not.mp hmagic, not_not.mp hclass, hsecond, h0⟩

/-! ## The call -/

theorem openNode_false {node : Option Nat} (h : openNode s node fd = (false, s')) :
    (∀ n, node = some n → s.mallocOk s.mallocs = false) ∧
      ∃ R m e, s' = { s with nodeRefs := R, mallocs := m }.setErrno e := by
  cases node with
  | none =>
    obtain ⟨-, rfl⟩ := Prod.mk.inj h
    exact ⟨by simp, _, _, _, rfl⟩
  | some n =>
    simp only [openNode, State.malloc] at h
    cases hm : s.mallocOk s.mallocs with
    | false =>
      simp only [hm, Bool.false_eq_true, if_false] at h
      obtain ⟨-, rfl⟩ := Prod.mk.inj h
      exact ⟨fun _ _ => rfl, _, _, _, rfl⟩
    | true =>
      simp only [hm, if_true] at h
      cases (Prod.mk.inj h).1

theorem openNode_true {node : Option Nat} (h : openNode s node fd = (true, s')) :
    s.mallocOk s.mallocs = true ∧ ∃ n, node = some n ∧
      getFileNode s' fd = some ((getFileNode s fd).getD n) ∧
      s'.mallocs = s.mallocs + 1 ∧ s'.mallocOk = s.mallocOk ∧ s'.vfsRead = s.vfsRead := by
  cases node with
  | none => cases (Prod.mk.inj h).1
  | some n =>
    simp only [openNode, State.malloc] at h
    cases hm : s.mallocOk s.mallocs with
    | false =>
      simp only [hm, Bool.false_eq_true, if_false] at h
      cases (Prod.mk.inj h).1
    | true =>
      simp only [hm, if_true] at h
      obtain ⟨-, rfl⟩ := Prod.mk.inj h
      refine ⟨rfl, n, rfl, ?_, rfl, rfl, rfl⟩
      simp only [getFileNode, State.setTask, Function.update_self, List.find?_append]
      cases (s.tasks s.currentTask).files.find? (fun f => f.fd == fd) with
      | none => simp
      | some f => simp

theorem Intact.refl (c : Caller) : Intact c c :=
  ⟨rfl, rfl, rfl, rfl, rfl, rfl, rfl, rfl, rfl, rfl⟩

theorem intact_setErrno (c : Caller) (R : Nat → Nat) (m : Nat) (e : Int) :
    Intact c { c with mm := { c.mm with nodeRefs := R, mallocs := m }.setErrno e } := by
  constructor <;> simp [State.setErrno, State.setTask]

/-- **A failed `execve` leaves the caller as it was** if and only if it fails before the file is
open. -/
theorem execve_intact_iff {c c' : Caller} {path : List Char} {node : Option Nat}
    {heap : Nat → Block} {res : ExecResult} (h : execve c path node heap = .ok (res, c')) :
    (∀ r, res = .returned r → Intact c c') ↔ ¬ FailsLate c path node heap := by
  rw [execve] at h
  split at h
  next hlong =>
    obtain ⟨rfl, rfl⟩ := Prod.mk.inj (Except.ok.inj h)
    exact ⟨fun _ hF => absurd hF.short (by omega), fun _ _ _ => .refl c⟩
  next hlong =>
  split at h
  next hempty =>
    obtain ⟨rfl, rfl⟩ := Prod.mk.inj (Except.ok.inj h)
    exact ⟨fun _ hF => hF.nonempty hempty, fun _ _ _ => .refl c⟩
  next hempty =>
  split at h
  next s₁ hopen =>
    obtain ⟨rfl, rfl⟩ := Prod.mk.inj (Except.ok.inj h)
    obtain ⟨hno, R, m, e, rfl⟩ := openNode_false hopen
    constructor
    · rintro - ⟨-, -, hmem, n, hn, -⟩
      rw [hno n hn] at hmem
      cases hmem
    · exact fun _ _ _ => intact_setErrno c R m e
  next s₁ hopen =>
    obtain ⟨hmem, n, rfl, hfd, hmallocs, hok, hread⟩ := openNode_true hopen
    obtain ⟨s₂, hrelease, h⟩ := bind_eq_ok.mp h
    obtain ⟨⟨entry, s₃⟩, hload, h⟩ := bind_eq_ok.mp h
    have hU := (releaseBuffers_spec hrelease).1
    have hzero := elfLoad_eq_zero_iff ((hU.getFileNode c.fdNext).trans hfd) hload
    have hiff : Loadable s₂ (c.opened n) heap ↔
        Loadable { c.mm with mallocs := c.mm.mallocs + 1 } (c.opened n) heap :=
      ⟨.congr (hmallocs.symm.trans hU.mallocs.symm) (hok.symm.trans hU.mallocOk.symm)
        (hread.symm.trans hU.vfsRead.symm),
        .congr (hU.mallocs.trans hmallocs) (hU.mallocOk.trans hok) (hU.vfsRead.trans hread)⟩
    rw [show (getFileNode c.mm c.fdNext).getD n = c.opened n from rfl, hiff] at hzero
    dsimp only at h
    split at h
    next h0 =>
      obtain ⟨rfl, rfl⟩ := Prod.mk.inj (Except.ok.inj h)
      refine ⟨fun hall _ => ?_, fun hF => absurd ?_ hF⟩
      · have hnext := (hall _ rfl).fdNext
        exact absurd hnext (Nat.succ_ne_self c.fdNext)
      · exact ⟨by omega, hempty, hmem, n, rfl, hzero.mp h0⟩
    next h0 =>
      obtain ⟨rfl, rfl⟩ := Prod.mk.inj (Except.ok.inj h)
      refine ⟨fun _ hF => ?_, fun _ r hr => by cases hr⟩
      obtain ⟨m, hm, hL⟩ := hF.fails
      cases hm
      exact h0 (hzero.mpr hL)

/-- A task with a page of memory. All files are empty. -/
def shell : Caller where
  mm :=
    { dirs := fun _ => { tables := fun i => if i = 256 then 1 else 0 }
      tables := fun _ =>
        { pages := fun j => if j = 0 then { present := true, rw := true, user := true, frame := 5 }
                            else {} }
      frameRefs := fun f => if f = 5 then 1 else 0
      tasks := fun _ =>
        { directory := .heap 1
          memmap := { pagemap := fun w => if w = 8192 then 1#32 else 0#32, length := 1048576 }
          buffers := [{ address := 0x40000000, pages := 1 }] } }
  sig := {}
  argv := []
  env := {}
  fdNext := 0

/-- There is no such file. -/
theorem execve_intact_missing :
    ∃ c', execve shell ['a'] none (fun _ _ => 0) = .ok (.returned (-1), c') ∧ Intact shell c' := by
  refine ⟨_, rfl, ?_⟩
  have hearly : ¬ FailsLate shell ['a'] none (fun _ _ => 0) := by
    intro hF
    obtain ⟨n, hn, -⟩ := hF.fails
    cases hn
  exact (execve_intact_iff rfl).mpr hearly _ rfl

/-- **A failed `execve` that takes the caller's memory**: the file has no header. -/
theorem execve_not_intact :
    ¬ ∀ (c c' : Caller) (path : List Char) (node : Option Nat) (heap : Nat → Block) (r : Int),
      execve c path node heap = .ok (.returned r, c') → Intact c c' := by
  intro hall
  have hbuffers := (hall shell _ ['a'] (some 7) (fun _ _ => 0) (-1) rfl).buffers
  cases hbuffers

end Hydrax
