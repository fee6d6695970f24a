import Hydrax.Mmu.Clone

/-!
# `mmap` and `fork`

`mmap` of `kernel/mman.c`, and `fork` of `kernel/fork.c` up to the switch of stacks: it duplicates
the address space (the page directory, the bitmap of the pages, the list of buffers and the list of
mappings) and the descriptor table, and puts the new task on the lists.
-/

namespace Hydrax

def protWrite : Nat := 0x00002
def mapShared : Nat := 0x00008
def mapPrivate : Nat := 0x00010

/-! ## `mmap` -/

/-- The flags `mmap` calls `kalloc` with. -/
def mmapKflags (prot flags : Nat) : Nat :=
  let kflags := kallocOptnMmap
  let kflags := if hasFlag prot protWrite then kflags ||| kallocOptnWriteable else kflags
  if hasFlag flags mapPrivate then kflags ||| kallocOptnNocow else kflags

/-- `mmap`: the address of the first page, or `0`. -/
def mmap (s : State) (addr len prot flags fd off : Nat) : Except Stop (Nat × State) := do
  if !hasFlag flags (mapShared ||| mapPrivate) then return (0, s.setErrno einval)
  else if !(s.tasks s.currentTask).files.any (fun f => f.fd == fd) then
    return (0, s.setErrno ebadf)
  else
    match s.malloc with
    | (none, s) => return (0, s.setErrno enomem)
    | (some info, s) =>
      let rec' : MmapInfo :=
        { addr := addr, len := len, flags := flags, prot := prot, offset := off, fd := fd }
      let s := { s with mmapInfos := Function.update s.mmapInfos info rec' }
      let (ap, _, s) ← kalloc s ((len + addr % pageSize) % wordSize) (addr - addr % pageSize)
        (mmapKflags prot flags) (some info)
      if ap = 0 then return (0, s.setErrno enomem)
      else
        let task := s.tasks s.currentTask
        return (ap, s.setTask { task with mmaps := task.mmaps ++ [info] })

/-! ## `fork` -/

structure Copied where
  buffers : List Buffer
  mmaps : List Nat

/-- The copy of the mapping of a buffer, "assert(new_mmap != NULL)". -/
def copyMmap (s : State) (m : Nat) : Except Stop (Nat × State) :=
  match s.malloc with
  | (none, _) => .error .assertFailed
  | (some m', s) =>
    .ok (m', { s with mmapInfos := Function.update s.mmapInfos m' (s.mmapInfos m) })

/-- The body of the loop of `fork` that copies the buffers of the current task. -/
def copyBuffer (acc : Copied × State) (b : Buffer) : Except Stop (Copied × State) := do
  let (c, s) := acc
  let (buf, s) := s.malloc
  assert buf.isSome
  match b.mmap with
  | none => return ({ c with buffers := c.buffers ++ [{ b with mmap := none }] }, s)
  | some m => do
      let (m', s) ← copyMmap s m
      return ({ buffers := c.buffers ++ [{ b with mmap := some m' }], mmaps := c.mmaps ++ [m'] }, s)

/-- "Copy the current task buffers", with their mappings. -/
def copyBuffers (s : State) : Except Stop (Copied × State) :=
  (s.tasks s.currentTask).buffers.foldlM copyBuffer (⟨[], []⟩, s)

/-- `memmap_clone`: the address of the words of the copy, or `0`. -/
def memmapClone (s : State) (src : Memmap) : Except Stop (Nat × State) := do
  let (a, _, s) ← kalloc s (pageIndex src.length * 4) 0 kallocOptnKernel
  return (a, s)

/-- `SCHED_KERNEL_STACK_SIZE`. -/
def schedKernelStackSize : Nat := 4096 * 0x10

/-- The loop of `clone_descriptor_table`: a block for each descriptor, and one more reference to its
node. The references already taken stay when a block cannot be had. -/
def cloneDescriptors : List File → State → Bool × State
  | [], s => (true, s)
  | f :: rest, s =>
    match s.malloc with
    | (none, s) => (false, s.setErrno enomem)
    | (some _, s) => cloneDescriptors rest { s with
        nodeRefs := Function.update s.nodeRefs f.node (incr (s.nodeRefs f.node)) }

/-- `clone_descriptor_table`: whether it returned a table. -/
def cloneDescriptorTable (s : State) : Bool × State :=
  match s.malloc with
  | (none, s) => (false, s.setErrno enomem)
  | (some _, s) => cloneDescriptors (s.tasks s.currentTask).files s

/-- The initialisation of the new task, once everything it needs is allocated, and `kfork`, which
puts it on `tasks_list`. -/
def forkTask (s : State) (pid tid dir phys pagemap stack : Nat) : Except Stop State := do
  let parent := s.tasks s.currentTask
  let (c, s) ← copyBuffers s
  let child : Task :=
    { directory := .heap dir, directoryPhysical := phys, memmap := parent.memmap
      pagemap := pagemap, kernelStack := stack, buffers := c.buffers, mmaps := c.mmaps
      files := parent.files, pid := pid, errno := pid }
  let s := s.setTask { parent with children := parent.children ++ [tid] }
  return { s with tasks := Function.update s.tasks tid child, live := s.live ++ [tid] }

/-- `fork`, up to the switch of stacks: the process id of the child, or `ENOMEM`. -/
def fork (s : State) : Except Stop (Int × State) := do
  let pid := s.nextPid
  let tid := s.nextTid
  let s := { s with nextPid := pid + 1, nextTid := tid + 1 }
  let (dir, phys, s) ← mmuCloneDirectory s s.currentDirectory cloneCow
  if dir = 0 then return (enomem, s)
  else match s.malloc with
  | (none, s) => do
      let s ← mmuDestroyDirectory s dir
      return (enomem, s)
  | (some _, s) => match s.malloc with
    | (none, s) => do
        let s ← mmuDestroyDirectory s dir
        return (enomem, s)
    | (some _, s) => do
        let (pagemap, s) ← memmapClone s (s.tasks s.currentTask).memmap
        if pagemap = 0 then
          let s ← mmuDestroyDirectory s dir
          return (enomem, s)
        else
          let (stack, _, s) ← kalloc s schedKernelStackSize 0 (kallocOptnAlign ||| kallocOptnKernel)
          if stack = 0 then
            let s ← kfree s pagemap
            let s ← mmuDestroyDirectory s dir
            return (enomem, s)
          else match s.malloc with
          | (none, s) => do
              let s ← mmuDestroyDirectory s dir
              let s ← kfree s pagemap
              let s ← kfree s stack
              return (enomem, s)
          | (some _, s) => do
              let s := { s with procfs := s.procfs ++ [tid] }
              -- when the descriptors cannot be copied everything is freed, and fork goes on with it
              let (ok, s) := cloneDescriptorTable s
              if !ok then .error .useAfterFree
              else
                let s ← forkTask s pid tid dir phys pagemap stack
                return ((pid : Int), s)

end Hydrax
