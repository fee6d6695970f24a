import Hydrax.Mmu.Kalloc

/-!
# The page fault handler

`page_fault` and `mmap_dup` of `kernel/mmu.c`.

A fault on an entry whose `commited` flag is clear is handled: the page of a mapped file is read in
on its first access, and a page that is shared copy-on-write gets a frame of its own on the first
write. Any other fault kills the task with `SIGSEGV`.
-/

namespace Hydrax

/-- How `page_fault` ends: it returns, and the access is tried again, or the task gets `SIGSEGV`. -/
inductive FaultResult where
  | handled
  | unhandled
  deriving DecidableEq, Repr

/-- `get_file_descriptor`: the node of a descriptor of the current task. -/
def getFileNode (s : State) (fd : Nat) : Option Nat :=
  ((s.tasks s.currentTask).files.find? (fun f => f.fd == fd)).map File.node

/-- The test of the search of `current_task->mmaps`. Its upper bound is inclusive. -/
def coversAddr (m : MmapInfo) (address : Nat) : Bool :=
  m.addr ≤ address && address ≤ (m.addr + m.len) % wordSize

/-- "Search a mmap that covers the current address on the current task mmaps." -/
def findMmap (s : State) (address : Nat) : Option Nat :=
  (s.tasks s.currentTask).mmaps.find? (fun m => coversAddr (s.mmapInfos m) address)

/-- "Look for an existing mapping for the same file node and offset." -/
def findKmmap (s : State) (node offset : Nat) : Option KMmap :=
  s.kmmaps.find? (fun k => k.node == node && (s.mmapInfos k.mmap).offset == offset)

/-- The file offset read for the page at `address`. -/
def fileOffset (m : MmapInfo) (address : Nat) : Nat :=
  (m.offset + (address + (wordSize - m.addr % wordSize))) % wordSize

/-- `vfs_read(node, offset, MMU_PAGE_SIZE, (uint8_t*) address)` on the entry `j` of the table at
`t`, the page at `address` of the current directory. Nothing is stored when the node yields no
bytes. Otherwise the page must be there and writeable, for a fault inside the handler would wait
for the lock that it holds. -/
def readPage (s : State) (node offset t j : Nat) : Except Stop State :=
  let bytes := s.vfsRead node offset pageSize
  if bytes = [] then .ok s
  else if (s.page t j).present && (s.page t j).rw then
    let frame := (s.page t j).frame
    let contents := fun k => bytes.getD k (s.mem frame k)
    .ok { s with mem := Function.update s.mem frame contents }
  else .error .nestedFault

/-! ## Duplicating a mapping -/

/-- The cursor of one side of `mmap_dup`: the table and the index that `s_page` or `d_page` points
to, and the variables `indx` and `offs` kept beside it. -/
structure DupCursor where
  table : Nat
  entry : Nat
  indx : Nat
  offs : Nat

/-- A cursor at the entry that `dir` has for `address`. -/
def DupCursor.start (s : State) (dir : DirRef) (address : Nat) : DupCursor :=
  let v := address / pageSize
  { table := s.tableOf dir v, entry := pageIdx v, indx := tableIdx v, offs := pageIdx v }

/-- The body of the loop before the cursors move: the entry is shared if only the source has it. -/
def dupPage (s : State) (src dst : DupCursor) : Except Stop State :=
  if src.table = 0 ∨ dst.table = 0 then .error .nullDeref
  else if src.entry ≥ tableSize ∨ dst.entry ≥ tableSize then .error .outOfBounds
  else
    let sp := s.page src.table src.entry
    if sp.present && !(s.page dst.table dst.entry).present then
      let s := { s with
        frameRefs := Function.update s.frameRefs sp.frame (incr (s.frameRefs sp.frame)) }
      let s :=
        if sp.rw then
          (s.setPage src.table src.entry { sp with rw := false }).setInfo src.table src.entry
            { s.info src.table src.entry with commited := false }
        else s
      .ok ((s.setPage dst.table dst.entry (s.page src.table src.entry)).setInfo dst.table dst.entry
        (s.info src.table src.entry))
    else .ok s

/-- How the cursors move. Both `indx` go up at every page, and it is `s_offs` that is reset when
the destination reaches the end of its table. -/
def dupMove (s : State) (dir : DirRef) (src dst : DupCursor) : DupCursor × DupCursor :=
  let src := { src with entry := src.entry + 1, indx := src.indx + 1, offs := src.offs + 1 }
  let dst := { dst with entry := dst.entry + 1, indx := dst.indx + 1, offs := dst.offs + 1 }
  let src :=
    if src.offs = 1024 then
      { table := (s.dirs dir).tables (src.indx + 1), entry := 0, indx := src.indx + 1, offs := 0 }
    else src
  if dst.offs = 1024 then
    ({ src with offs := 0 },
      { table := (s.dirs s.currentDirectory).tables (dst.indx + 1), entry := dst.offs
        indx := dst.indx + 1, offs := dst.offs })
  else (src, dst)

/-- The loop of `mmap_dup`. `len` is unsigned and goes down by whole pages until it is `0`. -/
def dupLoop (dir : DirRef) : Nat → State → DupCursor → DupCursor → Nat → Except Stop State
  | 0, _, _, _, _ => .error .hang
  | fuel + 1, s, src, dst, len =>
    if len = 0 then .ok s
    else do
      let s ← dupPage s src dst
      let (src, dst) := dupMove s dir src dst
      dupLoop dir fuel s src dst ((len + (wordSize - pageSize)) % wordSize)

def mmapDup (s : State) (dir : DirRef) (src dst len : Nat) : Except Stop State :=
  dupLoop dir addrFuel s (DupCursor.start s dir src) (DupCursor.start s s.currentDirectory dst) len

/-! ## The handler -/

/-- "if (rw != 0)": the page is mapped but not commited for write access. -/
def faultCommit (s : State) (t j address : Nat) : Except Stop State :=
  let page := s.page t j
  if s.frameRefs page.frame = 1 then
    .ok ((s.setPage t j { page with rw := true }).setInfo t j { s.info t j with commited := true })
  else do
    let frame := page.frame
    let s := s.setPage t j { page with frame := 0 }
    let (_, s) ← mmuAllocFrame s address s.currentDirectory
    assert ((s.page t j).frame != 0)
    let s := s.setPage t j { s.page t j with rw := true }
    let s := { s with
      frameRefs := Function.update s.frameRefs frame (decr (s.frameRefs frame)) }
    return s.copyPhysicalPage (s.page t j).frame frame

/-- The address of the page in the master mapping, `m_address`. -/
def masterAddress (master m : MmapInfo) (address : Nat) : Nat :=
  let a := (master.addr + (address + (wordSize - m.addr % wordSize))) % wordSize
  a - a % pageSize

/-- "If the current page is not the master page we set the current page to reference the master
page". -/
def faultShare (s : State) (k : KMmap) (mmap t j mt mj : Nat) : Except Stop State :=
  let mPage := s.page mt mj
  let s := { s with
    frameRefs := Function.update s.frameRefs mPage.frame (incr (s.frameRefs mPage.frame)) }
  let s :=
    if mPage.rw then
      (s.setPage mt mj { mPage with rw := false }).setInfo mt mj
        { s.info mt mj with commited := false }
    else s
  let s := (s.setPage t j (s.page mt mj)).setInfo t j (s.info mt mj)
  let m := s.mmapInfos mmap
  let master := s.mmapInfos k.mmap
  if m.len > master.len then do
    let s ← mmapDup s k.directory master.addr m.addr master.len
    let k' := { k with mmap := mmap, directory := s.currentDirectory }
    return { s with kmmaps := s.kmmaps.replace k k' }
  else .ok s

/-- "if there's an existing mapping..." -/
def faultExisting (s : State) (k : KMmap) (mmap node t j address : Nat) : Except Stop State := do
  let m := s.mmapInfos mmap
  let mv := masterAddress (s.mmapInfos k.mmap) m address / pageSize
  let mt := s.tableOf k.directory mv
  if mt = 0 then .error .nullDeref
  else
    let s ←
      if !(s.page mt (pageIdx mv)).present then do
        let address := address - address % pageSize
        let (_, s) ← mmuAllocFrame s address k.directory
        readPage s node (fileOffset m address) t j
      else .ok s
    if (mt, pageIdx mv) ≠ (t, j) then faultShare s k mmap t j mt (pageIdx mv) else return s

/-- "if there's no existing mapping...", `false` when `malloc` fails. -/
def faultFirst (s : State) (mmap node t j address : Nat) : Except Stop (Bool × State) := do
  let (kmmap, s) := s.malloc
  if kmmap.isNone then return (false, s)
  else
    let m := s.mmapInfos mmap
    let address := address - address % pageSize
    let (_, s) ← mmuAllocFrame s address s.currentDirectory
    let s ← readPage s node (fileOffset m address) t j
    let k : KMmap := { mmap := mmap, node := node, directory := s.currentDirectory }
    return (true, { s with kmmaps := s.kmmaps ++ [k] })

/-- The branch for a page of a mapped file that has no frame yet, `false` for `goto
unhandled_fault`. -/
def faultMmap (s : State) (t j address : Nat) : Except Stop (Bool × State) :=
  match findMmap s address with
  | none => .ok (false, s)
  | some mmap =>
    match getFileNode s (s.mmapInfos mmap).fd with
    | none => .ok (false, s)
    | some node =>
      match findKmmap s node (s.mmapInfos mmap).offset with
      | some k => do
          let s ← faultExisting s k mmap node t j address
          return (true, s)
      | none => faultFirst s mmap node t j address

/-- `page_fault`, for an access to `address` that is a write or not. -/
def pageFault (s : State) (address : Nat) (write : Bool) : Except Stop (FaultResult × State) :=
  let v := address / pageSize
  let t := s.tableOf s.currentDirectory v
  let j := pageIdx v
  if t = 0 then .error .nullDeref
  else if (s.info t j).commited then .ok (.unhandled, s)
  else do
    let (ok, s) ←
      if (s.info t j).mmap && (s.page t j).frame = 0 then faultMmap s t j address
      else .ok (true, s)
    if !ok then return (.unhandled, s)
    else if write then
      let s ← faultCommit s t j address
      return (.handled, s)
    else return (.handled, s)

end Hydrax
