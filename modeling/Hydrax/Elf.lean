import Hydrax.Fork
import Hydrax.Mmu.Access

/-!
# Loading programs

`elf_ldprog` and `elf_load` of `kernel/elfldr.c`.

The headers are read into blocks of the heap, which keep what they held where the file is too short.
`read` goes on where the last one stopped, so the program headers are taken from behind the header
of the file, wherever `e_phoff` says they are. A segment with bytes in the file is a mapping of it,
its tail beyond `p_filesz` included.
-/

namespace Hydrax

/-- `sizeof(Elf32_Ehdr)` and `sizeof(Elf32_Phdr)`. -/
def sizeofEhdr : Nat := 52
def sizeofPhdr : Nat := 32

/-- `ELFMAG`, `EI_CLASS`, `ELFCLASS32` and `PT_LOAD`. -/
def elfmag : Nat := 0x464C457F
def eiClass : Nat := 4
def elfclass32 : Nat := 1
def ptLoad : Nat := 1

def protRead : Nat := 0x00001
def protExec : Nat := 0x00004

abbrev Block := Nat → UInt8

/-- The 16-bit and 32-bit numbers of a block, little endian. -/
def Block.half (b : Block) (i : Nat) : Nat := (b i).toNat + 256 * (b (i + 1)).toNat
def Block.word (b : Block) (i : Nat) : Nat := b.half i + 65536 * b.half (i + 2)

def Block.read (b : Block) (bytes : List UInt8) : Block := fun i => bytes.getD i (b i)

/-- The fields of `Elf32_Ehdr` that the kernel or a reader of the file uses. -/
structure Ehdr where
  magic : Nat
  eiClass : Nat
  eEntry : Nat
  ePhoff : Nat
  ePhnum : Nat
  deriving DecidableEq, Repr

def Block.ehdr (b : Block) : Ehdr where
  magic := b.word 0
  eiClass := (b Hydrax.eiClass).toNat
  eEntry := b.word 24
  ePhoff := b.word 28
  ePhnum := b.half 44

/-- The fields of `Elf32_Phdr`, but for the three that are not read. -/
structure Phdr where
  pType : Nat
  pOffset : Nat
  pVaddr : Nat
  pFilesz : Nat
  pMemsz : Nat
  deriving DecidableEq, Repr

/-- `p_hdr[j]`. -/
def Block.phdr (b : Block) (j : Nat) : Phdr where
  pType := b.word (sizeofPhdr * j)
  pOffset := b.word (sizeofPhdr * j + 4)
  pVaddr := b.word (sizeofPhdr * j + 8)
  pFilesz := b.word (sizeofPhdr * j + 16)
  pMemsz := b.word (sizeofPhdr * j + 20)

/-- `read`, at the offset of the descriptor: what it returns, and the bytes. -/
def readFd (s : State) (fd offset n : Nat) : Int × List UInt8 :=
  match getFileNode s fd with
  | none => (ebadf, [])
  | some node =>
    let bytes := s.vfsRead node offset n
    ((bytes.length : Int), bytes)

def elfLdprog (s : State) (p : Phdr) (fd : Nat) : Except Stop (Int × State) := do
  let vaddr := p.pVaddr - p.pVaddr % pageSize
  let sz := (p.pMemsz + p.pVaddr % pageSize) % wordSize
  assert (0 < sz)
  if 0 < p.pFilesz then
    let (ap, s) ← mmap s p.pVaddr sz (protRead ||| protWrite ||| protExec) mapShared fd p.pOffset
    return (if ap = 0 then -1 else 0, s)
  else
    let (ptr, _, s) ← kalloc s sz vaddr kallocOptnAlign
    if ptr = 0 then return (-1, s)
    else
      assert (ptr == vaddr)
      let s ← memsetZero s p.pVaddr p.pMemsz
      return (0, s)

/-- The body of the loop of `elf_load`. That a segment could not be loaded is only printed. -/
def loadSegment (b : Block) (fd : Nat) (s : State) (j : Nat) : Except Stop State :=
  let p := b.phdr j
  if p.pType = ptLoad ∧ 0 < p.pMemsz then do
    let (_, s) ← elfLdprog s p fd
    return s
  else .ok s

/-- `elf_load`: the entry point, or `0`. `heap` has what the blocks held when `malloc` returned
them. The test for a short read compares as unsigned, so it lets an error of `read` pass. -/
def elfLoad (s : State) (fd : Nat) (heap : Nat → Block) : Except Stop (Nat × State) := do
  match s.malloc with
  | (none, s) => return (0, s.setErrno enomem)
  | (some a, s) =>
    let (got, bytes) := readFd s fd 0 sizeofEhdr
    if (got % wordSize).toNat < sizeofEhdr then return (0, s.setErrno ebadf)
    else
      let hdr := ((heap a).read bytes).ehdr
      if hdr.magic ≠ elfmag then return (0, s.setErrno einval)
      else if hdr.eiClass ≠ elfclass32 then return (0, s.setErrno einval)
      else match s.malloc with
      | (none, s) => return (0, s.setErrno enomem)
      | (some a', s) =>
        let (_, more) := readFd s fd bytes.length (sizeofPhdr * hdr.ePhnum)
        let s ← (List.range hdr.ePhnum).foldlM (loadSegment ((heap a').read more) fd) s
        return (hdr.eEntry, s)

end Hydrax
