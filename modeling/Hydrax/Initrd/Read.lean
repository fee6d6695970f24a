import Hydrax.Initrd.Load
import Hydrax.Io.Descriptor

/-!
# Reading a file of the initrd

`initrd_read` with any offset and size, under `vfs_read` of `kernel/vfs.c` and `read` of
`kernel/io.c`. The buffer of the caller is not null.

The end of the request is a sum of 32 bits. A request whose end does not fit is taken for a short
one, and is not cut off at the end of the file.

* `initrdRead_clamped_iff` — one request,
* `reads_iff` — requests in a row on a descriptor,
* `initrd_reads_iff` — both.
-/

namespace Hydrax.Initrd

open Loop
open Io (setOffset)

/-- `vfs_read`: the number of bytes and the bytes. -/
def vfsRead (m : Memory) (node offset size : Nat) : Except Stop (Nat × List UInt8) := do
  assert (node ≠ 0)
  assert (0 < size)
  if (m.cells node).read then initrdRead m node offset size else return (0, [])

/-- `EBADF`, in the 32 bits of the result of `read`. -/
def badDescriptor : Nat := wordSize - 3

/-- `read`: its result, the bytes, and the descriptors afterwards. -/
def read (m : Memory) (files : List Io.File) (fd count : Nat) :
    Except Stop (Nat × List UInt8 × List Io.File) :=
  match files.find? (fun f => f.fd = fd) with
  | none => .ok (badDescriptor, [], files)
  | some f => do
      let (n, bytes) ← vfsRead m f.node f.offset count
      return (n, bytes, setOffset fd ((f.offset + n) % wordSize) files)

/-- Calls of `read` in a row: the result and the bytes of each. -/
def reads (m : Memory) (fd : Nat) : List Io.File → List Nat → Except Stop (List (Nat × List UInt8))
  | _, [] => .ok []
  | files, count :: counts => do
      let (n, bytes, files) ← read m files fd count
      let rest ← reads m fd files counts
      return (n, bytes) :: rest

/-! ## What should come back -/

/-- A file that `initrd_init` left in memory. -/
structure FileAt (m : Memory) (node : Nat) (content : List UInt8) : Prop where
  node_ne : node ≠ 0
  length : (m.cells node).node.length = content.length
  range : content.length < wordSize
  readable : (m.cells node).read = decide (0 < content.length)
  bytes : ∀ i (hi : i < content.length), m.bytes ((m.cells node).data + i) = content[i]

/-- The bytes of the file from `offset` on, `size` at most. -/
def slice (content : List UInt8) (offset size : Nat) : List UInt8 :=
  (content.drop offset).take size

/-- `initrd_read` returns the bytes that are asked for and that there are. -/
def Clamped (m : Memory) (node offset size : Nat) (content : List UInt8) : Prop :=
  initrdRead m node offset size =
    .ok (if content.length < offset then 0 else min size (content.length - offset),
      slice content offset size)

/-- The content in pieces of the given sizes, each with its length. -/
def pieces : List UInt8 → List Nat → List (Nat × List UInt8)
  | _, [] => []
  | content, count :: counts =>
    ((content.take count).length, content.take count) :: pieces (content.drop count) counts

/-- The end of a request inside the file is beyond the 32 bits. -/
def Wraps (length offset size : Nat) : Prop := offset ≤ length ∧ wordSize ≤ offset + size

/-- No request in a row wraps. The offset moves on by what there is to read. -/
def NeverWraps (length : Nat) : Nat → List Nat → Prop
  | _, [] => True
  | offset, count :: counts =>
    ¬ Wraps length offset count ∧
      NeverWraps length (offset + min count (length - offset)) counts

section Read

variable {m : Memory} {node offset size count fd : Nat} {content : List UInt8}
  {files : List Io.File} {f : Io.File}

theorem length_slice (content : List UInt8) (offset size : Nat) :
    (slice content offset size).length = min size (content.length - offset) := by
  rw [slice, List.length_take, List.length_drop]

theorem slice_of_le {n k : Nat} (hn : content.length - offset ≤ n)
    (hk : content.length - offset ≤ k) : slice content offset n = slice content offset k := by
  rw [slice, slice, List.take_of_length_le (by rwa [List.length_drop]),
    List.take_of_length_le (by rwa [List.length_drop])]

theorem FileAt.copied (h : FileAt m node content) (hle : offset + size ≤ content.length) :
    (List.range size).map (fun i => m.bytes ((m.cells node).data + offset + i)) =
      slice content offset size := by
  apply List.ext_getElem
  · rw [length_slice, List.length_map, List.length_range]
    omega
  · intro i hi hi'
    rw [List.length_map, List.length_range] at hi
    have hbyte := h.bytes (offset + i) (by omega)
    simp only [slice, List.getElem_map, List.getElem_range, List.getElem_take, List.getElem_drop]
    rw [Nat.add_assoc]
    exact hbyte

theorem FileAt.initrdRead_eq (h : FileAt m node content) (offset size : Nat) :
    initrdRead m node offset size =
      if content.length < offset then .ok (0, [])
      else
        let n :=
          if content.length < (offset + size) % wordSize then content.length - offset else size
        .ok (n, (List.range n).map (fun i => m.bytes ((m.cells node).data + offset + i))) := by
  have hnode : decide (node ≠ 0) = true := decide_eq_true h.node_ne
  rw [initrdRead, assert, if_pos hnode, ok_bind]
  dsimp only
  rw [h.length]
  rfl

theorem initrdRead_clamped_iff (h : FileAt m node content) (hsize : size < wordSize) :
    Clamped m node offset size content ↔ ¬ Wraps content.length offset size := by
  rw [Clamped, h.initrdRead_eq, Wraps]
  by_cases hbeyond : content.length < offset
  · rw [if_pos hbeyond, if_pos hbeyond]
    have hnil : slice content offset size = [] := by
      rw [slice, List.drop_eq_nil_of_le (Nat.le_of_lt hbeyond), List.take_nil]
    rw [hnil]
    exact iff_of_true rfl (by omega)
  · rw [if_neg hbeyond, if_neg hbeyond]
    by_cases hwrap : wordSize ≤ offset + size
    · -- the sum is taken for an offset inside the file
      have hrange := h.range
      have hsum : (offset + size) % wordSize = offset + size - wordSize := by
        rw [Nat.mod_eq_sub_mod hwrap, Nat.mod_eq_of_lt (by omega)]
      rw [if_neg (by omega)]
      refine iff_of_false (fun heq => ?_) (by simp [hwrap]; omega)
      have hn := (Prod.mk.inj (Except.ok.inj heq)).1
      omega
    · rw [Nat.mod_eq_of_lt (by omega)]
      refine iff_of_true ?_ (by omega)
      dsimp only
      split
      next hcut =>
        rw [h.copied (by omega), Nat.min_eq_right (by omega),
          slice_of_le (k := size) (Nat.le_refl _) (by omega)]
      next hcut => rw [h.copied (by omega), Nat.min_eq_left (by omega)]

/-! ## Requests in a row -/

theorem find?_setOffset (offset : Nat) (hf : files.find? (fun f => f.fd = fd) = some f) :
    (setOffset fd offset files).find? (fun f => f.fd = fd) = some { f with offset := offset } := by
  fun_induction setOffset fd offset files with
  | case1 => cases hf
  | case2 g fs hg =>
    rw [List.find?_cons_of_pos (by simpa using hg)] at hf
    cases hf
    rw [List.find?_cons_of_pos (by simpa using hg)]
  | case3 g fs hg ih =>
    rw [List.find?_cons_of_neg (by simpa using hg)] at hf
    rw [List.find?_cons_of_neg (by simpa using hg)]
    exact ih hf

theorem FileAt.read_eq (h : FileAt m f.node content) (hcount : 0 < count) (hlt : count < wordSize)
    (hf : files.find? (fun f => f.fd = fd) = some f) (hoffset : f.offset < wordSize)
    (hfits : content ≠ [] → ¬ Wraps content.length f.offset count) :
    read m files fd count =
      .ok (min count (content.length - f.offset), slice content f.offset count,
        setOffset fd (f.offset + min count (content.length - f.offset)) files) := by
  have hread : vfsRead m f.node f.offset count =
      .ok (min count (content.length - f.offset), slice content f.offset count) := by
    rw [vfsRead, assert, if_pos (by simpa using h.node_ne), ok_bind, assert,
      if_pos (by simpa using hcount), ok_bind, h.readable]
    by_cases hnil : content = []
    · subst hnil
      simp [slice]
      rfl
    · have hpos : 0 < content.length := List.length_pos_iff.mpr hnil
      rw [decide_eq_true hpos, if_pos rfl]
      have := (initrdRead_clamped_iff h hlt).mpr (hfits hnil)
      rw [Clamped] at this
      rw [this]
      split
      next hbeyond => rw [Nat.sub_eq_zero_of_le (Nat.le_of_lt hbeyond), Nat.min_zero]
      next => rfl
  have hrange := h.range
  rw [read, hf]
  dsimp only
  rw [hread, ok_bind]
  dsimp only
  rw [Nat.mod_eq_of_lt (by omega)]
  rfl

theorem FileAt.read_wraps (h : FileAt m f.node content) (hcount : 0 < count)
    (hlt : count < wordSize) (hf : files.find? (fun f => f.fd = fd) = some f)
    (hnil : content ≠ []) (hwraps : Wraps content.length f.offset count) {n : Nat}
    {bytes : List UInt8} {files' : List Io.File}
    (heq : read m files fd count = .ok (n, bytes, files')) : n = count := by
  obtain ⟨hle, hwrap⟩ := hwraps
  have hpos : 0 < content.length := List.length_pos_iff.mpr hnil
  have hrange := h.range
  have hsum : (f.offset + count) % wordSize = f.offset + count - wordSize := by
    rw [Nat.mod_eq_sub_mod hwrap, Nat.mod_eq_of_lt (by omega)]
  rw [read, hf] at heq
  dsimp only at heq
  rw [vfsRead, assert, if_pos (by simpa using h.node_ne), ok_bind, assert,
    if_pos (by simpa using hcount), ok_bind, h.readable, decide_eq_true hpos, if_pos rfl,
    h.initrdRead_eq, if_neg (by omega), if_neg (by omega), ok_bind] at heq
  exact (Prod.mk.inj (Except.ok.inj heq)).1.symm

theorem reads_iff {counts : List Nat} (h : FileAt m f.node content)
    (hf : files.find? (fun f => f.fd = fd) = some f) (hoffset : f.offset < wordSize)
    (hcounts : ∀ c ∈ counts, 0 < c ∧ c < wordSize) :
    reads m fd files counts = .ok (pieces (content.drop f.offset) counts) ↔
      (content ≠ [] → NeverWraps content.length f.offset counts) := by
  induction counts generalizing files f with
  | nil => exact iff_of_true rfl (fun _ => trivial)
  | cons count counts ih =>
    obtain ⟨hpos, hlt⟩ := hcounts count List.mem_cons_self
    have hrange := h.range
    rw [reads, pieces, NeverWraps]
    by_cases hfits : content ≠ [] → ¬ Wraps content.length f.offset count
    · have hlength := length_slice content f.offset count
      have hdrop : (content.drop f.offset).drop count =
          content.drop (f.offset + min count (content.length - f.offset)) := by
        rw [List.drop_drop]
        rcases Nat.le_total count (content.length - f.offset) with hle | hle
        · rw [Nat.min_eq_left hle]
        · rw [Nat.min_eq_right hle, List.drop_eq_nil_of_le (by omega),
            List.drop_eq_nil_of_le (by omega)]
      have hnext := ih (f := { f with
          offset := f.offset + min count (content.length - f.offset) }) h
        (find?_setOffset _ hf) (by dsimp only; omega)
        (fun c hc => hcounts c (List.mem_cons_of_mem _ hc))
      rw [h.read_eq hpos hlt hf hoffset hfits, ok_bind]
      dsimp only at hnext ⊢
      rw [hdrop, ← slice, hlength]
      constructor
      · intro heq hnil
        obtain ⟨rest, hrest, heq⟩ := bind_eq_ok.mp heq
        obtain rfl := (List.cons.inj (Except.ok.inj heq)).2
        exact ⟨hfits hnil, hnext.mp hrest hnil⟩
      · intro hall
        rw [hnext.mpr (fun hnil => (hall hnil).2), ok_bind]
        rfl
    · rw [Classical.not_imp, not_not] at hfits
      obtain ⟨hnil, hwraps⟩ := hfits
      refine iff_of_false (fun heq => ?_) (fun hall => (hall hnil).1 hwraps)
      obtain ⟨⟨n, bytes, files'⟩, hread, heq⟩ := bind_eq_ok.mp heq
      obtain ⟨rest, -, heq⟩ := bind_eq_ok.mp heq
      have hn := h.read_wraps hpos hlt hf hnil hwraps hread
      have hfirst := (Prod.mk.inj (List.cons.inj (Except.ok.inj heq)).1).1
      rw [← slice, length_slice] at hfirst
      obtain ⟨hle, hwrap⟩ := hwraps
      omega

/-- **Reads are clamped** exactly if they do not wrap: every single request, and every sequence of
requests on a descriptor. -/
theorem initrd_reads_iff (h : FileAt m node content) :
    (∀ offset size, offset < wordSize → size < wordSize →
      (Clamped m node offset size content ↔ ¬ Wraps content.length offset size)) ∧
    (∀ fd files f counts, files.find? (fun f => f.fd = fd) = some f → f.node = node →
      f.offset < wordSize → (∀ c ∈ counts, 0 < c ∧ c < wordSize) →
      (reads m fd files counts = .ok (pieces (content.drop f.offset) counts) ↔
        (content ≠ [] → NeverWraps content.length f.offset counts))) := by
  refine ⟨fun offset size _ hsize => initrdRead_clamped_iff h hsize, ?_⟩
  rintro fd files f counts hf rfl hoffset hcounts
  exact reads_iff h hf hoffset hcounts

end Read

def threeBytes : Memory :=
  { blankMemory with
    cells := fun _ => { node := { length := 3 }, data := 64, read := true }
    bytes := fun a => if a = 64 then 104 else if a = 65 then 105 else 10 }

theorem threeBytes_file : FileAt threeBytes 16 [104, 105, 10] where
  node_ne := by decide
  length := rfl
  range := by decide
  readable := rfl
  bytes := by decide

/-- It is read two bytes at a time. -/
theorem initrd_reads_three : reads threeBytes 0 [⟨0, 0, 1, 16⟩] [2, 2, 2] =
    .ok [(2, [104, 105]), (1, [10]), (0, [])] :=
  ((initrd_reads_iff threeBytes_file).2 0 _ ⟨0, 0, 1, 16⟩ [2, 2, 2] rfl rfl (by decide)
    (by decide)).mpr (fun _ => by simp [NeverWraps, Wraps, wordSize])

/-- **A request that is not clamped**: at offset 1, as many bytes as a word can count. -/
theorem initrd_read_beyond : FileAt threeBytes 16 [104, 105, 10] ∧
    ¬ Clamped threeBytes 16 1 (wordSize - 1) [104, 105, 10] := by
  refine ⟨threeBytes_file, ?_⟩
  rw [initrdRead_clamped_iff threeBytes_file (by decide), not_not]
  exact ⟨by decide, by decide⟩

end Hydrax.Initrd
