import Hydrax.Mmu.Boot

/-!
# The running process

`Process s a L` is what the kernel keeps true of the task that runs: its page directory, at `a`, is a
live one with all tables of the kernel, and its bitmap has a bit for every page of the address space
with the kernel's pages marked. Allocating and freeing user memory keep it so, and both come back
when there is room.
-/

namespace Hydrax

variable {M N a v : Nat} {L : List Nat} {b : Buffer}

/-- A bitmap of the whole address space, as every process has one. -/
def FullMemmap (s : State) : Prop := (s.tasks s.currentTask).memmap.length = 1024 * 1024

/-- The current task is a process with the directory at `a`, and `L` are the live directories. -/
structure Process (s : State) (a : Nat) (L : List Nat) : Prop where
  inv : Inv s L
  mem : a ∈ L
  current : s.currentDirectory = .heap a
  complete : Complete s (.heap a)
  kernelPages : ∀ v < s.kernelMemmap.length, (s.tasks s.currentTask).memmap.used v = true
  full : FullMemmap s

theorem Started.process {b : Boot} {s : State} (h : Started b a s) : Process s a [a] := by
  obtain ⟨m, phys, hused, hlen, hP⟩ := h.task
  have htask : s.tasks s.currentTask =
      { memmap := m, directory := .heap a, directoryPhysical := phys } := by
    rw [hP.current, hP.task_eq]
  refine ⟨h.inv, by simp, ?_, h.complete, fun v hv => ?_, ?_⟩
  · rw [State.currentDirectory, htask]
  · rw [htask]
    show m.used v = true
    rw [hused v]
    exact decide_eq_true hv
  · rw [FullMemmap, htask]
    exact hlen

theorem Process.space {s : State} (h : Process s a L) : s.currentDirectory ∈ spaces L := by
  rw [h.current, mem_spaces]
  exact Or.inr ⟨a, h.mem, rfl⟩

/-! ## Other fields of the task -/

theorem Process.setTask {s : State} (h : Process s a L) {task : Task}
    (hdir : task.directory = (s.tasks s.currentTask).directory)
    (hmemmap : task.memmap = (s.tasks s.currentTask).memmap) : Process (s.setTask task) a L := by
  have htask : (s.setTask task).tasks (s.setTask task).currentTask = task :=
    Function.update_self _ _ _
  refine ⟨h.inv.setTasks _, h.mem, ?_, h.complete, ?_, ?_⟩
  · rw [State.currentDirectory, htask, hdir]
    exact h.current
  · rw [htask, hmemmap]
    exact h.kernelPages
  · rw [FullMemmap, htask, hmemmap]
    exact h.full

/-! ## Allocating -/

section Allocated

variable {s s' : State} {a r n flags : Nat} {L : List Nat} {mmap : Option Nat}

theorem UserAllocated.currentTask (h : UserAllocated s s' a L r n flags mmap) :
    s'.currentTask = s.currentTask := by
  obtain ⟨_, _, _, _, _, _, _, _, h⟩ := h.alloc.step
  have := congrArg State.currentTask h
  exact this

theorem UserAllocated.mallocOk (h : UserAllocated s s' a L r n flags mmap) :
    s'.mallocOk = s.mallocOk := by
  obtain ⟨_, _, _, _, _, _, _, _, h⟩ := h.alloc.step
  have := congrArg State.mallocOk h
  exact this

theorem UserAllocated.task_eq (h : UserAllocated s s' a L r n flags mmap) :
    ∃ m, s'.tasks s'.currentTask = { s.tasks s.currentTask with
      memmap := m
      buffers := (s.tasks s.currentTask).buffers ++ s.newBuffers r n flags mmap } ∧
    m.length = (s.tasks s.currentTask).memmap.length ∧
    ∀ p, m.used p = (inRange (r / pageSize) n p || (s.tasks s.currentTask).memmap.used p) := by
  obtain ⟨m, htasks, hlen, hused⟩ := h.task
  refine ⟨m, ?_, hlen, hused⟩
  rw [h.currentTask, htasks, Function.update_self]

theorem UserAllocated.process (h : UserAllocated s s' a L r n flags mmap) (hP : Process s a L) :
    Process s' a L := by
  obtain ⟨m, htask, hlen, hused⟩ := h.task_eq
  have hpages : s'.kernelMemmap.length = s.kernelMemmap.length := h.alloc.length
  refine ⟨h.inv, hP.mem, ?_, h.complete, ?_, ?_⟩
  · rw [State.currentDirectory, htask]
    exact hP.current
  · intro v hv
    rw [htask]
    show m.used v = true
    rw [hused v, hP.kernelPages v (by omega), Bool.or_true]
  · rw [FullMemmap, htask]
    exact hlen.trans hP.full

theorem UserAllocated.mapped (h : UserAllocated s s' a L r n flags mmap)
    (hv : inRange (r / pageSize) n v = true) :
    MappedEntry s s' (.heap a) (pageFlags flags) v := by
  obtain ⟨f, hentry, hrecord, hfresh⟩ := h.alloc.mapped v (mem_pagesFrom.mpr (inRange_eq_true.mp hv))
  refine ⟨f, hentry, hrecord, fun htakes hout => ?_⟩
  have hF := hfresh htakes hout
  exact ⟨hF.ne_zero, hF.free, hF.used, hF.refs⟩

theorem UserAllocated.tableOf (h : UserAllocated s s' a L r n flags mmap)
    (hv : inRange (r / pageSize) n v = true) : s'.tableOf (.heap a) v ≠ 0 := by
  obtain ⟨f, hentry, -, -⟩ := h.mapped hv
  intro h0
  have hrw : (s'.entry (.heap a) v).rw = true := by
    rw [hentry, allocatedPage, pageFlags_writeable]
    split <;> rfl
  rw [(entry_of_no_table h0).1] at hrw
  cases hrw

end Allocated

/-- **An allocation at a given address** comes back with that address, if its pages are free. -/
theorem Process.kalloc_ok {s : State} {n : Nat} (hP : Process s a L)
    (sz vaddr flags : Nat) (mmap : Option Nat) (hk : hasFlag flags kallocOptnKernel = false)
    (hn : pageCount sz = n) (hsz : 0 < sz) (h0 : vaddr ≠ 0) (halign : vaddr % pageSize = 0)
    (hfit : vaddr + n * pageSize < wordSize)
    (hfree : ∀ p, inRange (vaddr / pageSize) n p = true →
      (s.tasks s.currentTask).memmap.used p = false)
    (hroom : Room s N M) (hN : N + 3 * n ≤ s.kernelMemmap.length) (hM : M + 4 * n ≤ 65536) :
    ∃ phys s', kalloc s sz vaddr flags mmap = .ok (vaddr, phys, s') ∧
      UserAllocated s s' a L vaddr n flags mmap ∧ Room s' (N + 3 * n) (M + 4 * n) := by
  subst hn
  have hle : sz ≤ pageCount sz * pageSize := by
    rw [pageCount, pageSize]
    omega
  exact kalloc_user_ok mmap hP.inv hP.mem hP.current hP.complete hk hP.kernelPages (by omega) halign
    ⟨hsz, fun _ => by omega, fun h => absurd h h0⟩ (kallocPlace_given h0 halign hfit hfree) h0 hroom
    hN hM

theorem UserAllocated.freeClean {s s' : State} {r n flags : Nat}
    {mmap : Option Nat} (h : UserAllocated s s' a L r n flags mmap) (hI : Inv s L)
    (hclean : FreeClean s) : FreeClean s' := by
  intro v hv hfree
  have hlen : s'.kernelMemmap.length = s.kernelMemmap.length := h.alloc.length
  rw [hlen] at hv
  have hlt := hI.kernel_lt hv
  have hfree' := false_of_imp (h.alloc.kernelUsed v) hfree
  have hentry : s'.entry .kernel v = s.entry .kernel v :=
    (h.alloc.entry .kernel (kernel_mem_spaces L) v hlt
      (fun hnew => absurd hnew.2.2 (by rw [hfree]; decide)) (fun _ h => by cases h)).1
  rw [hentry]
  exact hclean v hv hfree'

/-! ## Freeing -/

theorem UserFreed.task_eq {s s' : State} (h : UserFreed s s' b) :
    s'.currentTask = s.currentTask ∧ s'.kernelMemmap = s.kernelMemmap ∧ s'.dirs = s.dirs ∧
      s'.mallocOk = s.mallocOk ∧ s'.kheapLen = s.kheapLen ∧
      ∃ l ms, s'.tasks s'.currentTask = { s.tasks s.currentTask with
        memmap := clearPages b.visited (s.tasks s.currentTask).memmap, buffers := l
        mmaps := ms } := by
  obtain ⟨T, P, R, l, ms, rfl⟩ := h.step
  exact ⟨rfl, rfl, rfl, rfl, rfl, l, ms, Function.update_self _ _ _⟩

theorem UserFreed.room {s s' : State} (h : UserFreed s s' b)
    (hroom : Room s N M) : Room s' N M := by
  obtain ⟨-, hmap, -, hok, hheap, -⟩ := h.task_eq
  refine ⟨fun p hp => by rw [hmap]; exact hroom.pages p hp, fun f hf => ?_, ?_, ?_⟩
  · exact h.shrink.free (hroom.frames f hf)
  · rw [hok, hheap]
    exact hroom.malloc
  · rw [h.shrink.out]
    exact hroom.out

theorem KernelFreed.room {s s' : State} (h : KernelFreed s s' b)
    (hroom : Room s N M) : Room s' N M := by
  refine ⟨fun p hp => ?_, fun f hf => ?_, ?_, ?_⟩
  · rw [h.used, hroom.pages p hp, Bool.and_false]
  · exact h.shrink.free (hroom.frames f hf)
  · obtain ⟨_, _, _, _, _, _, rfl, -⟩ := h.step
    exact hroom.malloc
  · rw [h.shrink.out]
    exact hroom.out

theorem UserFreed.process {s s' : State} (h : UserFreed s s' b) (hI : Inv s' L) (hP : Process s a L)
    (hb : ∀ v ∈ b.visited, s.kernelMemmap.length ≤ v) : Process s' a L := by
  obtain ⟨-, hmap, hdirs, -, -, l, ms, htask⟩ := h.task_eq
  refine ⟨hI, hP.mem, ?_, ?_, ?_, ?_⟩
  · rw [State.currentDirectory, htask]
    exact hP.current
  · intro i hi
    rw [hmap] at hi
    rw [hdirs]
    exact hP.complete i hi
  · intro v hv
    rw [hmap] at hv
    have hnot : v ∉ b.visited := fun hmem => absurd (hb v hmem) (by omega)
    rw [htask]
    show (clearPages b.visited (s.tasks s.currentTask).memmap).used v = true
    rw [clearPages_used, hP.kernelPages v hv, decide_eq_true hnot]
    rfl
  · rw [FullMemmap, htask]
    exact (clearPages_length _ _).trans hP.full

/-! ## The first process -/

/-- The boot task of a small machine, which owns nothing yet, with the free pages and frames that a
few calls need. -/
structure FirstProcess (s : State) (a N M : Nat) : Prop where
  process : Process s a [a]
  kernelOnly : KernelOnly s (.heap a)
  clean : FreeClean s
  zeroPage : (s.entry .kernel 0).frame = 0
  frames : ∃ k, ∀ f, s.physicalMemmap.used f = decide (f < k)
  right : TablesRight s (.heap a)
  pages : s.kernelMemmap.length ≤ 36864
  room : Room s N M
  pagesLeft : N + 0x150 ≤ s.kernelMemmap.length
  framesLeft : M ≤ 37378
  mallocOk : ∀ k, s.mallocOk k = true
  heap : s.kheapLen ≠ 0
  userPages : ∀ v, s.kernelMemmap.length ≤ v → (s.tasks s.currentTask).memmap.used v = false
  buffers : (s.tasks s.currentTask).buffers = []
  mmaps : (s.tasks s.currentTask).mmaps = []
  kernelBuffers : s.kernelBuffers = []
  kmmaps : s.kmmaps = []

theorem start_small : ∃ a s₀ s N M, mmuInit Boot.small = .ok s₀ ∧ kheapInit s₀ = .ok s ∧
    FirstProcess s a N M := by
  obtain ⟨a, s₀, s, hinit, hheap, -, hS⟩ := start_ok Boot.small
  obtain ⟨m, phys, hused, hlen, hP⟩ := hS.task
  obtain ⟨N, M, hroom, hN, hM⟩ := hS.room (fun _ => rfl)
  have htask : s.tasks s.currentTask =
      { memmap := m, directory := .heap a, directoryPhysical := phys } := by
    rw [hP.current, hP.task_eq]
  refine ⟨a, s₀, s, N, M, hinit, hheap, hS.process, hS.kernelOnly, hS.clean, hS.zeroPage,
    hS.frames, hS.right, hS.pages, hroom, hN, hM, fun k => by rw [hP.mallocOk]; rfl,
    by rw [hS.heap]; decide, fun v hv => ?_, ?_, ?_, hP.buffers,
    hP.kmmaps⟩
  · rw [htask]
    show m.used v = false
    rw [hused v]
    exact decide_eq_false (by omega)
  · rw [htask]
  · rw [htask]

/-- A descriptor of the current task, as `open` leaves it. -/
def State.openFile (s : State) (fd node : Nat) : State :=
  s.setTask { s.tasks s.currentTask with
    files := (s.tasks s.currentTask).files ++ [{ fd := fd, node := node }] }

theorem State.openFile_task (s : State) (fd node : Nat) :
    (s.openFile fd node).tasks (s.openFile fd node).currentTask = { s.tasks s.currentTask with
      files := (s.tasks s.currentTask).files ++ [{ fd := fd, node := node }] } :=
  Function.update_self _ _ _

theorem FirstProcess.openFile {s : State} (h : FirstProcess s a N M) (fd node : Nat) :
    FirstProcess (s.openFile fd node) a N M := by
  have htask := s.openFile_task fd node
  have hroom := h.room
  refine ⟨h.process.setTask rfl rfl, h.kernelOnly, h.clean, h.zeroPage, h.frames, h.right, h.pages,
    ⟨hroom.pages, hroom.frames, hroom.malloc, hroom.out⟩, h.pagesLeft, h.framesLeft, h.mallocOk,
    h.heap, ?_, ?_, ?_, h.kernelBuffers, h.kmmaps⟩
  · rw [htask]
    exact h.userPages
  · rw [htask]
    exact h.buffers
  · rw [htask]
    exact h.mmaps

theorem FirstProcess.entry {s : State} (h : FirstProcess s a N M)
    (hle : s.kernelMemmap.length ≤ v) (hv : v < 1048576) :
    s.entry (.heap a) v = {} ∧ s.record (.heap a) v = {} :=
  h.kernelOnly.entry h.process.inv hle hv

theorem FirstProcess.kalloc_ok {s : State} (h : FirstProcess s a N M)
    (flags : Nat) (mmap : Option Nat) (hk : hasFlag flags kallocOptnKernel = false) :
    ∃ phys s', kalloc s 4096 0x10000000 flags mmap = .ok (0x10000000, phys, s') ∧
      UserAllocated s s' a [a] 0x10000000 1 flags mmap ∧ Room s' (N + 3) (M + 4) := by
  have hpages := h.pages
  have hleft := h.pagesLeft
  have hframes := h.framesLeft
  refine h.process.kalloc_ok 4096 0x10000000 flags mmap hk rfl (by decide) (by decide) rfl
    (by decide) (fun p hp => ?_)
    h.room (by omega) (by omega)
  have := inRange_eq_true.mp hp
  rw [pageSize] at this
  exact h.userPages p (by omega)

theorem ownTables_le_one {s : State} {d : DirRef} {i : Nat}
    (h : ∀ k < tableSize, k ≠ i → ownsTable s d k = false) :
    ownTables s d (List.range tableSize) ≤ 1 := by
  calc (List.range tableSize).countP (ownsTable s d)
      ≤ (List.range tableSize).countP (· == i) := by
        refine List.countP_mono_left (fun k hk hown => ?_)
        by_contra hne
        rw [h k (List.mem_range.mp hk) (by simpa using hne)] at hown
        cases hown
    _ ≤ 1 := List.nodup_iff_count_le_one.mp List.nodup_range i

theorem UserAllocated.ownTables_le {s s' : State} {r flags : Nat}
    {mmap : Option Nat} (h : UserAllocated s s' a L r 1 flags mmap)
    (hC : Complete s (.heap a)) (honly : KernelOnly s (.heap a)) :
    ownTables s' (.heap a) (List.range tableSize) ≤ 1 := by
  refine ownTables_le_one (i := tableIdx (r / pageSize)) (fun k hk hne => ?_)
  have hkernel : s'.dirs .kernel = s.dirs .kernel := h.alloc.dirs .kernel (by simp)
  have htable : (s'.dirs (.heap a)).tables k = (s.dirs (.heap a)).tables k := by
    refine h.tables k (fun v hv => ?_)
    have hv' := mem_pagesFrom.mp hv
    rw [show v = r / pageSize by omega]
    exact fun heq => hne heq.symm
  rw [ownsTable, hkernel, htable]
  by_cases hlt : k < kernelTables s.kernelMemmap
  · rw [hC k hlt]
    simp
  · rw [honly k hk (by omega)]
    rfl

end Hydrax
