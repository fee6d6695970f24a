import Hydrax.Mmu.Kalloc

/-!
# Cloning and destroying address spaces

`mmu_clone_table`, `mmu_clone_directory` and `mmu_destroy_directory` of `kernel/mmu.c`.

The tables of the kernel are shared by every directory. A table of user space is copied entry by
entry: an entry that may be shared copy-on-write keeps its frame, in both spaces read-only from
then on, and any other gets a frame of its own with a copy of the contents.
-/

namespace Hydrax

open Function (update)

/-- The branch of `mmu_clone_table` for an entry that is shared: the entry loses its write access
and the clone gets a copy of it. -/
def clonePageCow (s : State) (src t j : Nat) : State :=
  let page := { s.page src j with rw := false, accessed := false, dirty := false }
  let info := { s.info src j with commited := false }
  let s := (s.setPage src j page).setInfo src j info
  let s := (s.setPage t j page).setInfo t j info
  { s with frameRefs := update s.frameRefs page.frame (incr (s.frameRefs page.frame)) }

/-- The branch for an entry that is copied. -/
def clonePageCopy (s : State) (src t j vaddr : Nat) (dir : DirRef) : Except Stop State := do
  let (_, s) ← mmuAllocFrame s vaddr dir
  let frame := (s.page t j).frame
  let page := { s.page src j with frame := frame, accessed := false, dirty := false }
  let info := { s.info src j with commited := true }
  let s := (s.setPage t j page).setInfo t j info
  return s.copyPhysicalPage frame (s.page src j).frame

/-- The body of the loop of `mmu_clone_table`: entry `j` of the table at `src` is cloned to the
table at `t`, which maps the region from `vaddr` on in the directory `dir`. -/
def clonePage (flags src t vaddr : Nat) (dir : DirRef) (s : State) (j : Nat) :
    Except Stop State :=
  if (s.page src j).frame = 0 then .ok s
  else if hasFlag flags cloneCow && (s.info src j).cow && !(s.info src j).noshare then
    .ok (clonePageCow s src t j)
  else clonePageCopy s src t j (vaddr + j * pageSize) dir

/-- `mmu_clone_table`, with the assignment to `*table`, the slot `i` of `dir`. It returns the
address of the table, or `0`, and its physical address. -/
def mmuCloneTable (s : State) (src : Nat) (dir : DirRef) (i flags : Nat) :
    Except Stop (Nat × Nat × State) := do
  let (t, phys, s) ← kalloc s sizeofPageTable 0
    (kallocOptnAlign ||| kallocOptnKernel ||| kallocOptnWriteable)
  let d := s.dirs dir
  let d := { d with tables := update d.tables i t }
  let s := { s with dirs := update s.dirs dir d }
  if t = 0 then return (0, 0, s)
  else
    let s := s.setTable t { noshare := (s.tables src).noshare }
    let s ← (List.range tableSize).foldlM
      (clonePage flags src t (i * 1024 * pageSize) dir) s
    return (t, phys.getD 0, s)

/-- The branch of `mmu_clone_directory` for a table that is shared. -/
def linkTable (s : State) (src dir : DirRef) (i : Nat) : State :=
  let t := (s.dirs src).tables i
  let d := s.dirs dir
  let d := { d with
    tables := update d.tables i t
    tablesPhysical := update d.tablesPhysical i ((s.dirs src).tablesPhysical i) }
  let s := { s with dirs := update s.dirs dir d }
  s.setTable t { s.tables t with refs := incr (s.tables t).refs }

/-- The body of the loop of `mmu_clone_directory`, `false` when a table could not be cloned. -/
def cloneTable (s : State) (src dir : DirRef) (i flags : Nat) : Except Stop (Bool × State) := do
  let t := (s.dirs src).tables i
  if t = 0 then return (true, s)
  else if (hasFlag flags cloneShare && !(s.tables t).noshare) || (s.dirs .kernel).tables i == t then
    return (true, linkTable s src dir i)
  else
    let (t', phys, s) ← mmuCloneTable s t dir i flags
    if t' = 0 then return (false, s)
    else
      let d := s.dirs dir
      let d := { d with tablesPhysical := update d.tablesPhysical i (phys ||| 7) }
      return (true, { s with dirs := update s.dirs dir d })

/-- The loop, which ends early when a table could not be cloned. -/
def cloneTables (src dir : DirRef) (flags : Nat) : List Nat → State → Except Stop (Bool × State)
  | [], s => .ok (true, s)
  | i :: rest, s => do
      let (ok, s) ← cloneTable s src dir i flags
      if ok then cloneTables src dir flags rest s else return (false, s)

/-! ## Destroying -/

/-- One entry of the inner loop of `mmu_destroy_directory`. -/
def destroyPage (t : Nat) (s : State) (j : Nat) : State :=
  if (s.page t j).frame ≠ 0 then mmuFrameFree s t j else s

def destroyTable (dir : DirRef) (s : State) (i : Nat) : Except Stop State := do
  let t := (s.dirs dir).tables i
  if t = 0 then return s
  else if (s.dirs .kernel).tables i ≠ t then
    let s := (List.range tableSize).foldl (destroyPage t) s
    let refs := decr (s.tables t).refs
    let s := s.setTable t { s.tables t with refs := refs }
    if refs = 0 then kfree s t else return s
  else return s.setTable t { s.tables t with refs := decr (s.tables t).refs }

/-- `mmu_destroy_directory`. Only a directory that was allocated is ever destroyed. -/
def mmuDestroyDirectory (s : State) (addr : Nat) : Except Stop State := do
  let s ← (List.range tableSize).foldlM (destroyTable (.heap addr)) s
  kfree s addr

/-- `mmu_clone_directory`: the address of the new directory, or `0`, and `*phys`. -/
def mmuCloneDirectory (s : State) (src : DirRef) (flags : Nat) :
    Except Stop (Nat × Nat × State) := do
  let (addr, physmem, s) ← kalloc s sizeofPageDirectory 0
    (kallocOptnAlign ||| kallocOptnKernel ||| kallocOptnWriteable)
  if addr = 0 then return (0, 0, s)
  else
    let s := { s with dirs := update s.dirs (.heap addr) {} }
    let phys := (physmem.getD 0 + offsetofTablesPhysical) % wordSize
    let (ok, s) ← cloneTables src (.heap addr) flags (List.range tableSize) s
    if ok then return (addr, phys, s)
    else
      let s ← mmuDestroyDirectory s addr
      return (0, phys, s)

end Hydrax
