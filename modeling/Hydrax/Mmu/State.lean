import Hydrax.Memmap

/-!
# The memory manager's state

The data of `kernel/mmu.c`: page directories, page tables, the reference counts of the physical
frames, the bitmaps and the lists of allocated buffers.

Kernel objects that the source reaches through a pointer are kept in a store indexed by their
address: `tables` for page tables, `dirs` for page directories, `mmapInfos` for the records of
`mmap`. A null pointer is `0`. The only page directory that no allocation made is the static
`kernel_directory`, so `DirRef` has a constructor for it.
-/

namespace Hydrax

/-- `page_t`: a page-table entry as the processor reads it. -/
structure Page where
  present : Bool := false
  rw : Bool := false
  user : Bool := false
  accessed : Bool := false
  dirty : Bool := false
  frame : Nat := 0
  deriving DecidableEq, Repr

/-- `page_info_t`: what the kernel knows of an entry beside it. -/
structure PageInfo where
  commited : Bool := false
  cow : Bool := false
  noshare : Bool := false
  mmap : Bool := false
  deriving DecidableEq, Repr

/-- `page_table_t`. -/
structure PageTable where
  pages : Nat → Page := fun _ => {}
  pagesInfo : Nat → PageInfo := fun _ => {}
  refs : Nat := 0
  noshare : Bool := false

/-- `page_directory_t`. -/
structure PageDirectory where
  tables : Nat → Nat := fun _ => 0
  tablesPhysical : Nat → Nat := fun _ => 0

/-- A `page_directory_t *`: the static `kernel_directory`, or one allocated at an address. -/
inductive DirRef where
  | kernel
  | heap (addr : Nat)
  deriving DecidableEq, Repr

/-- `mmap_info_t`, without its `next`. -/
structure MmapInfo where
  addr : Nat := 0
  len : Nat := 0
  flags : Nat := 0
  prot : Nat := 0
  offset : Nat := 0
  fd : Nat := 0
  deriving DecidableEq, Repr

/-- `buffer_t`, without its `next`: a range of pages that `kalloc` handed out. -/
structure Buffer where
  address : Nat
  pages : Nat
  mmap : Option Nat := none
  deriving DecidableEq, Repr

/-- `kmmap_t`: the mapping of a file that other mappings of it share pages with. -/
structure KMmap where
  mmap : Nat
  node : Nat
  directory : DirRef
  deriving DecidableEq, Repr

/-- `file_t`: an open descriptor and the node it refers to. -/
structure File where
  fd : Nat
  node : Nat
  deriving DecidableEq, Repr

/-- The fields of `task_t` that belong to the memory manager and to `fork`. The bitmap is kept by
value: every process has its own. The lists hold the ids of tasks. -/
structure Task where
  directory : DirRef := .kernel
  directoryPhysical : Nat := 0
  memmap : Memmap := memmapInit 0
  /-- Where the words of `memmap` and the kernel stack were allocated. -/
  pagemap : Nat := 0
  kernelStack : Nat := 0
  buffers : List Buffer := []
  mmaps : List Nat := []
  files : List File := []
  children : List Nat := []
  pid : Nat := 0
  errno : Int := 0

/-- The state of the memory manager and of the physical memory under it. -/
structure State where
  dirs : DirRef → PageDirectory := fun _ => {}
  tables : Nat → PageTable := fun _ => {}
  physicalMemmap : Memmap := memmapInit 65536
  kernelMemmap : Memmap := memmapInit 0
  frameRefs : Nat → Nat := fun _ => 0
  kernelBuffers : List Buffer := []
  kmmaps : List KMmap := []
  mmapInfos : Nat → MmapInfo := fun _ => {}
  /-- `kheap.len`: nonzero once the kernel heap exists. -/
  kheapLen : Nat := 0
  placementAddress : Nat := 0
  tasks : Nat → Task := fun _ => {}
  /-- `tasks_list`, by the ids of the tasks. -/
  live : List Nat := []
  currentTask : Nat := 0
  nextPid : Nat := 1
  nextTid : Nat := 1
  /-- The nodes linked under `procfs`, by the ids of their tasks, and the `refs` of each node. -/
  procfs : List Nat := []
  nodeRefs : Nat → Nat := fun _ => 0
  /-- The bytes of each physical frame. -/
  mem : Nat → Nat → UInt8 := fun _ _ => 0
  /-- `vfs_read`: the bytes a node yields for an offset and a size. -/
  vfsRead : Nat → Nat → Nat → List UInt8 := fun _ _ _ => []
  /-- Calls of `malloc` so far, and which of them succeed. -/
  mallocs : Nat := 0
  mallocOk : Nat → Bool := fun _ => true
  /-- A frame was asked for when none was free. The kernel does not look at this. -/
  outOfFrames : Bool := false

/-! ## Flags -/

/-- The test `flags & mask`. -/
def hasFlag (flags mask : Nat) : Bool := flags &&& mask != 0

def kallocOptnAlign : Nat := 0x0001
def kallocOptnKernel : Nat := 0x0002
def kallocOptnWriteable : Nat := 0x0008
def kallocOptnNofree : Nat := 0x0010
def kallocOptnNocow : Nat := 0x0080
def kallocOptnNoshare : Nat := 0x0100
def kallocOptnMmap : Nat := 0x0200

def cloneCopy : Nat := 0x00
def cloneShare : Nat := 0x01
def cloneCow : Nat := 0x02

def allocFrameUser : Nat := 0x0000
def allocFrameKernel : Nat := 0x0001
def allocFrameWriteable : Nat := 0x0002
def allocFrameMktable : Nat := 0x0004
def allocFrameCow : Nat := 0x0008
def allocFrameNoshare : Nat := 0x0010
def allocFrameMmap : Nat := 0x0020
def allocFrameAllocPhys : Nat := 0x0040

def einval : Int := -14
def ebadf : Int := -3
def enomem : Int := -8

/-! ## Reading and writing entries -/

/-- Number of the page table that holds the entry of page `v`. -/
def tableIdx (v : Nat) : Nat := v / tableSize

/-- Index of the entry of page `v` in its table. -/
def pageIdx (v : Nat) : Nat := v % tableSize

theorem pageIdx_lt (v : Nat) : pageIdx v < tableSize := Nat.mod_lt _ (by decide)

theorem page_eq_of_idx {v w : Nat} (ht : tableIdx v = tableIdx w) (hp : pageIdx v = pageIdx w) :
    v = w := by
  simp only [tableIdx, pageIdx, tableSize] at ht hp
  omega

namespace State

variable (s : State)

/-- The entry `j` of the table at `t`. -/
def page (t j : Nat) : Page := (s.tables t).pages j

def info (t j : Nat) : PageInfo := (s.tables t).pagesInfo j

/-- Replace the table at `t`. -/
def setTable (t : Nat) (table : PageTable) : State :=
  { s with tables := Function.update s.tables t table }

/-- Replace the entry `j` of the table at `t`. -/
def setPage (t j : Nat) (p : Page) : State :=
  s.setTable t { s.tables t with pages := Function.update (s.tables t).pages j p }

def setInfo (t j : Nat) (i : PageInfo) : State :=
  s.setTable t { s.tables t with pagesInfo := Function.update (s.tables t).pagesInfo j i }

/-- The table that `dir` has for page `v`, or null. -/
def tableOf (dir : DirRef) (v : Nat) : Nat := (s.dirs dir).tables (tableIdx v)

def currentDirectory : DirRef := (s.tasks s.currentTask).directory

def setTask (task : Task) : State :=
  { s with tasks := Function.update s.tasks s.currentTask task }

/-- `current_task->errno = e`. -/
def setErrno (e : Int) : State := s.setTask { s.tasks s.currentTask with errno := e }

/-- The bitmap an allocation works on: the kernel's or the current process's. -/
def memmapOf (kernel : Bool) : Memmap :=
  if kernel then s.kernelMemmap else (s.tasks s.currentTask).memmap

def setMemmapOf (kernel : Bool) (m : Memmap) : State :=
  if kernel then { s with kernelMemmap := m }
  else s.setTask { s.tasks s.currentTask with memmap := m }

def dirOf (kernel : Bool) : DirRef := if kernel then .kernel else s.currentDirectory

/-- The list of buffers an allocation is recorded in. -/
def buffersOf (kernel : Bool) : List Buffer :=
  if kernel then s.kernelBuffers else (s.tasks s.currentTask).buffers

def setBuffersOf (kernel : Bool) (l : List Buffer) : State :=
  if kernel then { s with kernelBuffers := l }
  else s.setTask { s.tasks s.currentTask with buffers := l }

/-- `malloc`: the address of a block that no live block shares, or null. -/
def malloc : Option Nat × State :=
  let s' := { s with mallocs := s.mallocs + 1 }
  if s.mallocOk s.mallocs then (some (s.mallocs + 1), s') else (none, s')

def copyPhysicalPage (dest src : Nat) : State :=
  { s with mem := Function.update s.mem dest (s.mem src) }

end State

end Hydrax
