import Hydrax.Mmu.State

/-!
# Allocating and freeing pages

`mmu_frame_free`, `mmu_alloc_frame`, `mmu_alloc_page`, `kalloc` and `kfree` of `kernel/mmu.c`.

`mmu_alloc_page` and `kalloc` call each other: mapping a page may need a page table, and the table
is allocated from kernel memory. `mmu_alloc_page` therefore takes the allocator of tables as an
argument, and `kalloc` is tied to itself at the end, once for the tables of user space and once for
those the kernel's own pages would need.
-/

namespace Hydrax

/-! ## Physical frames -/

/-- `mmu_frame_free`, on the entry `j` of the table at `t`. It leaves the entry's record alone. -/
def mmuFrameFree (s : State) (t j : Nat) : State :=
  let page := s.page t j
  if page.frame = 0 then s
  else
    let refs := decr (s.frameRefs page.frame)
    let s := { s with frameRefs := Function.update s.frameRefs page.frame refs }
    let s :=
      if refs = 0 then
        { s with physicalMemmap := memmapClearPage s.physicalMemmap (page.frame * pageSize) }
      else s
    s.setPage t j { page with
      frame := 0, present := false, accessed := false, dirty := false, rw := false, user := false }

/-- The branch of `mmu_alloc_frame` for an entry that has no frame yet. -/
def mmuTakeFrame (s : State) (t j : Nat) : Except Stop (Nat × State) := do
  let idx := memmapFindFreePage s.physicalMemmap
  if idx = wordSize - 1 then .error .panicked
  else
    let map ← memmapSetPage s.physicalMemmap (idx * pageSize)
    let page := { s.page t j with present := true, accessed := false, dirty := false, frame := idx }
    let info := { s.info t j with commited := true }
    let s := { s with
      physicalMemmap := map
      outOfFrames := s.outOfFrames || s.physicalMemmap.used idx
      frameRefs := Function.update s.frameRefs idx (incr (s.frameRefs idx)) }
    return (idx * pageSize, (s.setPage t j page).setInfo t j info)

/-- `mmu_alloc_frame`: the physical address of the frame, or `0` if the page had one already. -/
def mmuAllocFrame (s : State) (address : Nat) (dir : DirRef) : Except Stop (Nat × State) := do
  let v := address / pageSize
  let t := s.tableOf dir v
  assert (t != 0)
  if (s.page t (pageIdx v)).frame ≠ 0 then return (0, s)
  else mmuTakeFrame s t (pageIdx v)

/-! ## Pages -/

/-- An allocator of page tables: the address of a block of `sizeof(page_table_t)` bytes, or `0`,
and the physical address of its first page. -/
abbrev TableAlloc := State → Except Stop (Nat × Nat × State)

/-- `sizeof(page_table_t)`: two arrays of 1024 words, `refs` and the flags. -/
def sizeofPageTable : Nat := 8200

/-- `sizeof(page_directory_t)`, and the offset of `tablesPhysical` in it. -/
def sizeofPageDirectory : Nat := 8192
def offsetofTablesPhysical : Nat := 4096

/-- The branch of `mmu_alloc_page` that creates the missing table of page `v`. -/
def mmuMakeTable (allocTable : TableAlloc) (s : State) (dir : DirRef) (v : Nat) :
    Except Stop (Bool × State) := do
  let (t, phys, s) ← allocTable s
  if t = 0 then return (false, s.setErrno enomem)
  else
    let d := s.dirs dir
    let d := { d with
      tables := Function.update d.tables (tableIdx v) t
      tablesPhysical := Function.update d.tablesPhysical (tableIdx v) (phys ||| 7) }
    return (true, { (s.setTable t {}) with dirs := Function.update s.dirs dir d })

/-- The assignments of `mmu_alloc_page` to an entry, its record and its table. -/
def mmuSetupPage (s : State) (t j flags : Nat) : State :=
  let page := { s.page t j with
    rw := hasFlag flags allocFrameWriteable
    user := !hasFlag flags allocFrameKernel }
  let info := { s.info t j with
    cow := hasFlag flags allocFrameCow
    noshare := hasFlag flags allocFrameNoshare
    mmap := hasFlag flags allocFrameMmap }
  let s := (s.setPage t j page).setInfo t j info
  if info.noshare then s.setTable t { s.tables t with noshare := true } else s

/-- `mmu_alloc_page`: whether it returned a page, and `*phys` if it was set. -/
def mmuAllocPage (allocTable : TableAlloc) (s : State) (dir : DirRef) (vaddr flags : Nat) :
    Except Stop (Bool × Option Nat × State) := do
  let v := vaddr / pageSize
  let (ok, s) ←
    if s.tableOf dir v = 0 then
      if hasFlag flags allocFrameMktable then mmuMakeTable allocTable s dir v
      else pure (false, s)
    else pure (true, s)
  if !ok then return (false, none, s)
  else
    let s := mmuSetupPage s (s.tableOf dir v) (pageIdx v) flags
    if hasFlag flags allocFrameAllocPhys then
      let (phys, s) ← mmuAllocFrame s vaddr dir
      return (true, some phys, s)
    else return (true, none, s)

/-! ## Buffers -/

/-- The flags `kalloc` gives to `mmu_alloc_page`. What it put in `pflags` before, the `KERNEL` flag
among it, is lost in the assignment this starts from. -/
def pageFlags (flags : Nat) : Nat :=
  let pflags := allocFrameMktable
  let pflags := if hasFlag flags kallocOptnNocow then pflags else pflags ||| allocFrameCow
  let pflags := if hasFlag flags kallocOptnNoshare then pflags ||| allocFrameNoshare else pflags
  let pflags :=
    if hasFlag flags kallocOptnMmap then pflags ||| allocFrameMmap else pflags ||| allocFrameAllocPhys
  pflags ||| allocFrameWriteable

/-- `vaddr + sz`, the bound of the loops of `kalloc`. -/
def kallocBound (vaddr sz : Nat) : Nat := (vaddr + sz) % wordSize

/-- Pages of the buffer, as `kalloc` computes it. -/
def kallocPages (sz : Nat) : Nat := (sz + 0xFFF) % wordSize / 0x1000

/-- The loop of `kalloc` that tests the pages of a given range. -/
def anyUsed (m : Memmap) (bound : Nat) : Nat → Nat → Except Stop Bool
  | 0, _ => .error .hang
  | fuel + 1, tmp =>
    if tmp < bound then
      if memmapTestPage m tmp then .ok true else anyUsed m bound fuel ((tmp + pageSize) % wordSize)
    else .ok false

/-- Where `kalloc` puts the buffer: at `vaddr` if its pages are free, or at the first free range if
`vaddr` is null. `0` if there is no room. -/
def kallocPlace (m : Memmap) (sz vaddr : Nat) : Except Stop Nat :=
  if vaddr ≠ 0 then do
    let taken ← anyUsed m (kallocBound vaddr sz) addrFuel vaddr
    return if taken then 0 else vaddr
  else do
    let start ← memmapFindFreePages m (kallocPages sz)
    return start * 0x1000 % wordSize

/-- `page = mmu_alloc_page(..., NULL); assert(page != NULL);` -/
def kallocMapPage (allocTable : TableAlloc) (dir : DirRef) (flags : Nat) (s : State)
    (vaddr : Nat) : Except Stop State := do
  let (ok, _, s) ← mmuAllocPage allocTable s dir vaddr (pageFlags flags)
  assert ok
  return s

/-- "Allocate and map all pages requested": the first page, for `*phys`, and the others. -/
def kallocMap (allocTable : TableAlloc) (s : State) (dir : DirRef) (sz vaddr flags : Nat) :
    Except Stop (Option Nat × State) := do
  let (ok, phys, s) ← mmuAllocPage allocTable s dir vaddr (pageFlags flags)
  assert ok
  let s ← forAddr (kallocMapPage allocTable dir flags) (kallocBound vaddr sz) addrFuel
    ((vaddr + 0x1000) % wordSize) s
  return (phys, s)

/-- The record of the buffer, unless the caller will not free it or there is no heap yet. -/
def kallocTrack (s : State) (sz vaddr flags : Nat) (mmap : Option Nat) : Except Stop State := do
  if !hasFlag flags kallocOptnNofree && s.kheapLen != 0 then
    let (buf, s) := s.malloc
    assert buf.isSome
    let kernel := hasFlag flags kallocOptnKernel
    let buf : Buffer :=
      { address := vaddr, pages := kallocPages sz
        mmap := if hasFlag flags kallocOptnMmap then mmap else none }
    return s.setBuffersOf kernel (s.buffersOf kernel ++ [buf])
  else return s

/-- The body of `kalloc`: the address, or `0`, and `*phys` if it was set. `mmap` is the variadic
argument. -/
def kallocBody (allocTable : TableAlloc) (s : State) (sz vaddr flags : Nat) (mmap : Option Nat) :
    Except Stop (Nat × Option Nat × State) := do
  assert (vaddr == 0 || vaddr % pageSize == 0)
  let kernel := hasFlag flags kallocOptnKernel
  let dir := s.dirOf kernel
  let vaddr ← kallocPlace (s.memmapOf kernel) sz vaddr
  if vaddr = 0 then return (0, none, s)
  else
    let map ← forAddr memmapSetPage (kallocBound vaddr sz) addrFuel vaddr (s.memmapOf kernel)
    let (phys, s) ← kallocMap allocTable (s.setMemmapOf kernel map) dir sz vaddr flags
    let s ← kallocTrack s sz vaddr flags mmap
    return (vaddr, phys, s)

/-- The call `kalloc(sizeof(page_table_t), NULL, &tmp, KALLOC_OPTN_ALIGN | KALLOC_OPTN_KERNEL)` of
`mmu_alloc_page`, over an allocator for the tables it needs in turn. -/
def allocTableWith (allocTable : TableAlloc) : TableAlloc := fun s => do
  let (t, phys, s) ← kallocBody allocTable s sizeofPageTable 0
    (kallocOptnAlign ||| kallocOptnKernel) none
  return (t, phys.getD 0, s)

/-- The allocator for the tables of the kernel's own pages. `mmu_init` made all of them, so this is
where a third nested call would be. -/
def noTable : TableAlloc := fun _ => .error .hang

def kalloc (s : State) (sz vaddr flags : Nat) (mmap : Option Nat := none) :
    Except Stop (Nat × Option Nat × State) :=
  kallocBody (allocTableWith noTable) s sz vaddr flags mmap

/-! ## Freeing -/

/-- `mmu_get_page`, as a table and an index in it. -/
def mmuGetPage (s : State) (dir : DirRef) (address : Nat) : Option (Nat × Nat) :=
  let v := address / pageSize
  if s.tableOf dir v = 0 then none else some (s.tableOf dir v, pageIdx v)

/-- One turn of the loop of `kfree`: free the frame of the page at `address` and clear its bit. -/
def kfreePage (kernel : Bool) (s : State) (address : Nat) : Except Stop State :=
  match mmuGetPage s (s.dirOf kernel) address with
  | none => .error .nullDeref
  | some (t, j) =>
    let s := mmuFrameFree s t j
    .ok (s.setMemmapOf kernel (memmapClearPage (s.memmapOf kernel) address))

/-- The addresses the loop of `kfree` runs over. -/
def kfreeAddrs (b : Buffer) : List Nat :=
  (List.range b.pages).map (fun i => (b.address + i * 0x1000) % wordSize)

/-- "while (mmap != (*tmp)->mmap)": unlink the mapping of a buffer from the current task. -/
def unlinkMmap (s : State) (mmap : Option Nat) : Except Stop State :=
  match mmap with
  | none => .ok s
  | some m =>
    let task := s.tasks s.currentTask
    if m ∈ task.mmaps then .ok (s.setTask { task with mmaps := task.mmaps.erase m })
    else .error .nullDeref

/-- The part of `kfree` after the buffer was found in one of the two lists. -/
def kfreeBuffer (s : State) (kernel : Bool) (b : Buffer) : Except Stop State := do
  let s ← (kfreeAddrs b).foldlM (kfreePage kernel) s
  let s ← unlinkMmap s b.mmap
  return s.setBuffersOf kernel ((s.buffersOf kernel).eraseP (fun c => c.address == b.address))

def kfree (s : State) (ptr : Nat) : Except Stop State :=
  match s.kernelBuffers.find? (fun b => b.address == ptr) with
  | some b => kfreeBuffer s true b
  | none =>
    match (s.tasks s.currentTask).buffers.find? (fun b => b.address == ptr) with
    | some b => kfreeBuffer s false b
    | none => .error .assertFailed

/-- `kheap_init`. -/
def kheapInitialSize : Nat := 0x200000

def kheapInit (s : State) : Except Stop State := do
  let (buffer, _, s) ← kalloc s kheapInitialSize 0 (kallocOptnAlign ||| kallocOptnKernel)
  assert (buffer != 0)
  return { s with kheapLen := kheapInitialSize }

end Hydrax
