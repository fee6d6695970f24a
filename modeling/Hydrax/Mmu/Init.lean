import Hydrax.Mmu.Clone

/-!
# Starting the memory manager

`kalloc_premmu` and `mmu_init` of `kernel/mmu.c`.

Before paging is on, memory is handed out by moving `placement_address` upwards. `mmu_init` makes
the page tables of the kernel's address space with it, maps every page below the address it ends
up with, and switches to a clone of the directory it built.
-/

namespace Hydrax

/-- What the boot loader and the linker fix before `mmu_init` runs, and the state of the world. -/
structure BootImage where
  /-- The end of the initial ramdisk, from where memory is free. -/
  modsEnd : Nat
  /-- The section that user code may run, `[ucode, ucode_end)`. -/
  ucode : Nat
  ucodeEnd : Nat
  mem : Nat → Nat → UInt8 := fun _ _ => 0
  vfsRead : Nat → Nat → Nat → List UInt8 := fun _ _ _ => []
  mallocOk : Nat → Bool := fun _ => true

/-- An image that leaves enough memory to run. The kernel is linked at 1 MB, the ramdisk follows it,
and half of the memory at least is free. -/
structure Boot extends BootImage where
  modsEnd_ge : 0x100000 ≤ modsEnd
  modsEnd_le : modsEnd ≤ 0x8000000
  ucodeEnd_le : ucodeEnd ≤ modsEnd

/-- `kalloc_premmu`: the address, and `*phys` if it was set. -/
def kallocPremmu (s : State) (sz : Nat) (align : Bool) : Nat × Option Nat × State :=
  let place := s.placementAddress
  let place := if place % 4 ≠ 0 then (place - place % 4 + 4) % wordSize else place
  if sz < (place - place % pageSize + 0x1000) % wordSize && !align then
    (place, none, { s with placementAddress := (place + sz) % wordSize })
  else
    let place :=
      if align && place % pageSize ≠ 0 then (place - place % pageSize + 0x1000) % wordSize else place
    (place, some place, { s with placementAddress := (place + sz) % wordSize })

/-- A page table while the kernel's address space is being built. -/
def premmuTable : TableAlloc := fun s =>
  let (t, phys, s) := kallocPremmu s sizeofPageTable true
  .ok (t, phys.getD 0, s)

/-- Room for a bitmap of `pages` pages. `memmap_init` fails when it gets none. -/
def memmapRoom (s : State) (pages : Nat) : Except Stop State :=
  let (a, _, s) := kallocPremmu s (pageIndex pages * 4) false
  if a = 0 then .error .panicked else .ok s

/-- Pages of physical memory: `mem_end_page / MMU_PAGE_SIZE`. -/
def physicalPages : Nat := 65536

/-- `MMU_GLOBAL_SPACE`. -/
def mmuGlobalSpace : Nat := 0x400000

/-- "Calculate the end of kernel space and make sure it's on a 4MB boundary." -/
def endOfKernel (placement : Nat) : Nat :=
  let e := (placement + mmuGlobalSpace) % wordSize
  if e % 0x400000 ≠ 0 then (e - e % 0x400000 + 0x400000) % wordSize else e

/-- "Create all kernel space pages": the body of the loop. -/
def initPage (b : BootImage) (s : State) (i : Nat) : Except Stop State := do
  let flags :=
    if b.ucode ≤ i && i < b.ucodeEnd then allocFrameMktable ||| allocFrameUser
    else allocFrameMktable ||| allocFrameKernel ||| allocFrameWriteable
  let (_, _, s) ← mmuAllocPage premmuTable s .kernel i flags
  return s

/-- "Map all used kernel pages": the body of the loop. -/
def initFrame (s : State) (i : Nat) : Except Stop State := do
  let (_, s) ← mmuAllocFrame s i .kernel
  return s

/-- The static data and what is allocated before the kernel directory is filled: the reference
counters and the three bitmaps. It returns `end_of_kernel`. -/
def mmuInitMaps (b : BootImage) : Except Stop (Nat × State) := do
  let s : State :=
    { placementAddress := b.modsEnd, mem := b.mem, vfsRead := b.vfsRead, mallocOk := b.mallocOk }
  let (refs, _, s) := kallocPremmu s (4 * physicalPages) false
  if refs = 0 then .error .panicked
  else
    let s ← memmapRoom s physicalPages
    let e := endOfKernel s.placementAddress
    let s ← memmapRoom s (e / pageSize)
    let s ← memmapRoom s (1024 * 1024)
    let p := s.placementAddress
    let p := if p % pageSize ≠ 0 then (p - p % pageSize + 0x1000) % wordSize else p
    return (e, { s with
      physicalMemmap := memmapInit physicalPages
      kernelMemmap := memmapInit (e / pageSize)
      placementAddress := p })

/-- The three loops of `mmu_init`, up to the first switch of directories. -/
def mmuInitKernel (b : BootImage) : Except Stop State := do
  let (e, s) ← mmuInitMaps b
  let s ← forAddr (initPage b) e addrFuel 0 s
  let p := s.placementAddress
  let s ← forAddr initFrame p addrFuel 0 s
  let kernelMap ← forAddr memmapSetPage p addrFuel 0 s.kernelMemmap
  -- the loop that marks the rest of the kernel in `default_memmap` goes on where this one ended
  let defaultMap ← forAddr memmapSetPage p addrFuel 0 (memmapInit (1024 * 1024))
  let defaultMap ← forAddr memmapSetPage e addrFuel ((p + 0xFFF) / 0x1000 * 0x1000) defaultMap
  return { s with
    kernelMemmap := kernelMap
    tasks := Function.update s.tasks 0 { memmap := defaultMap }
    live := [0] }

def mmuInit (b : Boot) : Except Stop State := do
  let s ← mmuInitKernel b.toBootImage
  let (addr, phys, s) ← mmuCloneDirectory s .kernel cloneCopy
  if addr = 0 then .error .nullDeref
  else return s.setTask { s.tasks s.currentTask with
    directory := .heap addr, directoryPhysical := phys }

end Hydrax
