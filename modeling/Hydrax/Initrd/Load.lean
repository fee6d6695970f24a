import Hydrax.Initrd.Mkinitrd
import Hydrax.Vfs.Stat

/-!
# Loading an initrd

`kernel/initrd.c`. The image that `mkinitrd` wrote lies in memory, and `initrd_init` adds its
address to the links of the nodes. The tool took the address of its array out of them, so both
together move the tree from one array to the other.

* `initLoop_cell` — the loop of `initrd_init` changes every node of the image once,
* `Laid.loaded` — the tree of the tool is there, at the address of the image,
* `initrd_round_trip` — every entry is found and read back, and there is no other file.
-/

namespace Hydrax.Initrd

open Vfs (Node fsFile fsDirectory)

/-- A node in the kernel's memory. `read` tells whether its operation is `initrd_read`. -/
structure Cell extends ImageNode where
  read : Bool := false

/-- The memory of the kernel. `rest` holds the variables of the virtual file system. -/
structure Memory where
  cells : Nat → Cell
  bytes : Nat → UInt8
  headerSz : Nat → Nat
  rest : Vfs.State

def Memory.vfs (m : Memory) : Vfs.State := { m.rest with nodes := fun a => (m.cells a).node }

def Image.nodeAt (img : Image) (load a : Nat) : Option ImageNode :=
  if load + sizeofHeader ≤ a ∧ (a - (load + sizeofHeader)) % sizeofNode = 0 then
    img.nodes[(a - (load + sizeofHeader)) / sizeofNode]?
  else none

def Image.byteAt (img : Image) (load a : Nat) : Option UInt8 :=
  let start := load + sizeofHeader + sizeofNode * img.nodes.length
  if start ≤ a then img.contents[a - start]? else none

def Image.load (img : Image) (load : Nat) (m : Memory) : Memory :=
  { m with
    cells := fun a =>
      match img.nodeAt load a with
      | some n => { n with }
      | none => m.cells a
    bytes := fun a => (img.byteAt load a).getD (m.bytes a)
    headerSz := Function.update m.headerSz load img.sz }

def absolute (offset p : Nat) : Nat := if p ≠ 0 then (p + offset) % wordSize else p

/-- What the loop of `initrd_init` does with a node. -/
def relocate (offset : Nat) (c : Cell) : Cell :=
  { node :=
      { c.node with
        ptr := absolute offset c.node.ptr
        next := absolute offset c.node.next
        parent := absolute offset c.node.parent }
    data := if c.node.length > 0 then (c.data + offset) % wordSize else c.data
    read := if c.node.length > 0 then true else c.read }

/-- The loop of `initrd_init`. -/
def initLoop (m : Memory) (offset : Nat) : Nat → Nat → Memory
  | 0, _ => m
  | n + 1, pNode =>
    initLoop { m with cells := Function.update m.cells pNode (relocate offset (m.cells pNode)) }
      offset n (pNode + sizeofNode)

def initrdInit (m : Memory) (offset : Nat) : Nat × Memory :=
  let root := offset + sizeofHeader
  (root, initLoop m offset (m.headerSz offset) root)

/-- `initrd_read`: the number of bytes and the bytes. -/
def initrdRead (m : Memory) (node offset size : Nat) : Except Stop (Nat × List UInt8) := do
  assert (node ≠ 0)
  let length := (m.cells node).node.length
  if offset > length then return (0, [])
  else
    let size := if (offset + size) % wordSize > length then length - offset else size
    return (size, (List.range size).map (fun i => m.bytes ((m.cells node).data + offset + i)))

/-! ## The loop -/

section Loop

variable {m : Memory} {offset p : Nat}

theorem initLoop_bytes (n : Nat) : (initLoop m offset n p).bytes = m.bytes := by
  induction n generalizing m p with
  | zero => rfl
  | succ n ih => rw [initLoop, ih]

theorem initLoop_of_lt (n : Nat) {a : Nat} (ha : a < p) :
    (initLoop m offset n p).cells a = m.cells a := by
  induction n generalizing m p with
  | zero => rfl
  | succ n ih =>
    rw [initLoop, ih (by unfold sizeofNode; omega)]
    exact Function.update_of_ne (Nat.ne_of_lt ha) _ _

theorem initLoop_cell {n i : Nat} (hi : i < n) :
    (initLoop m offset n p).cells (p + sizeofNode * i) =
      relocate offset (m.cells (p + sizeofNode * i)) := by
  induction n generalizing m p i with
  | zero => omega
  | succ n ih =>
    rw [initLoop]
    cases i with
    | zero =>
      rw [Nat.mul_zero, Nat.add_zero, initLoop_of_lt n (by unfold sizeofNode; omega)]
      exact Function.update_self ..
    | succ i =>
      have hnext : p + sizeofNode * (i + 1) = p + sizeofNode + sizeofNode * i := by
        rw [Nat.mul_succ]
        omega
      rw [hnext, ih (by omega)]
      have hne : p + sizeofNode + sizeofNode * i ≠ p := by
        unfold sizeofNode
        omega
      exact congrArg (relocate offset) (Function.update_of_ne hne _ _)

end Loop

/-! ## The image in memory -/

section Load

variable {img : Image} {m : Memory} {load : Nat}

theorem Image.load_cell {i : Nat} {n : ImageNode} (hn : img.nodes[i]? = some n) :
    (img.load load m).cells (load + sizeofHeader + sizeofNode * i) = { n with } := by
  have hnode : img.nodeAt load (load + sizeofHeader + sizeofNode * i) = some n := by
    have hpos : 0 < sizeofNode := by decide
    rw [Image.nodeAt, Nat.add_sub_cancel_left, Nat.mul_mod_right, if_pos ⟨by omega, rfl⟩,
      Nat.mul_div_cancel_left _ hpos, hn]
  unfold Image.load
  dsimp only
  rw [hnode]

theorem Image.load_byte {i : Nat} {b : UInt8} (hb : img.contents[i]? = some b) :
    (img.load load m).bytes (load + sizeofHeader + sizeofNode * img.nodes.length + i) = b := by
  have hbyte : img.byteAt load (load + sizeofHeader + sizeofNode * img.nodes.length + i) =
      some b := by
    unfold Image.byteAt
    dsimp only
    rw [if_pos (Nat.le_add_right _ _), Nat.add_sub_cancel_left, hb]
  unfold Image.load
  dsimp only
  rw [hbyte]
  rfl

/-- **The two adjustments of a link** move it from the array of the tool to the image. -/
theorem absolute_relative {root i : Nat} (hroot : root ≠ 0)
    (hlimit : root + sizeofNode * i < wordSize)
    (hload : load + sizeofHeader + sizeofNode * i < wordSize) :
    absolute load (relative root (root + sizeofNode * i)) =
      load + sizeofHeader + sizeofNode * i := by
  have hrelative : relative root (root + sizeofNode * i) = sizeofNode * i + sizeofHeader := by
    rw [relative, if_neg (by omega)]
    unfold wordSize sizeofHeader sizeofNode at *
    omega
  rw [hrelative, absolute, if_pos (by unfold sizeofHeader; omega)]
  unfold wordSize sizeofHeader sizeofNode at *
  omega

end Load

/-! ## The tree of the entries -/

/-- How many nodes the entries need: the root, and one for each path and what it goes through. -/
def nodeCount (entries : List Entry) : Nat :=
  ([] :: entries.flatMap (fun e => (Vfs.names e.path).inits)).dedup.length

def imageSize (entries : List Entry) : Nat :=
  sizeofHeader + sizeofNode * nodeCount entries + total entries

theorem length_pathsOf (entries : List Entry) : (pathsOf entries).length = nodeCount entries := by
  rw [pathsOf, Arena.length_layout, List.flatMap_map]
  rfl

section Files

variable {entries : List Entry} {e : Entry} {q : Path} {o : Nat}

theorem filesFrom_of_mem (hdistinct : (entries.map (fun e => Vfs.names e.path)).Nodup)
    (he : e ∈ entries) : ∃ k, filesFrom o entries (Vfs.names e.path) =
        some (o + k, e.content.length) ∧
      ((entries.flatMap Entry.content).drop k).take e.content.length = e.content := by
  induction entries generalizing o with
  | nil => cases he
  | cons f entries ih =>
    rw [List.map_cons, List.nodup_cons] at hdistinct
    rw [filesFrom, List.flatMap_cons]
    rcases List.mem_cons.mp he with rfl | he
    · exact ⟨0, by simp, by simp⟩
    · have hne : Vfs.names f.path ≠ Vfs.names e.path := fun heq =>
        hdistinct.1 (heq ▸ List.mem_map_of_mem he)
      obtain ⟨k, hk, hcontent⟩ := ih (o := o + f.content.length) hdistinct.2 he
      refine ⟨f.content.length + k, ?_, ?_⟩
      · rw [if_neg hne, hk, Nat.add_assoc]
      · rw [List.drop_append, Nat.add_sub_cancel_left,
          List.drop_eq_nil_of_le (Nat.le_add_right _ _), List.nil_append, hcontent]

theorem length_le_total (he : e ∈ entries) : e.content.length ≤ total entries := by
  obtain ⟨before, after, rfl⟩ := List.append_of_mem he
  rw [total, List.flatMap_append, List.flatMap_cons, List.length_append, List.length_append]
  omega

theorem exists_of_filesFrom (h : (filesFrom o entries q).isSome) :
    ∃ e ∈ entries, Vfs.names e.path = q := by
  induction entries generalizing o with
  | nil => cases h
  | cons f entries ih =>
    rw [filesFrom] at h
    split at h
    next heq => exact ⟨f, List.mem_cons_self, heq⟩
    next =>
      obtain ⟨e, he, hq⟩ := ih h
      exact ⟨e, List.mem_cons_of_mem _ he, hq⟩

theorem filesFrom_eq_none (hw : WellFormed entries) (he : e ∈ entries)
    (hq : q <+: Vfs.names e.path) (hne : q ≠ Vfs.names e.path) : filesFrom o entries q = none := by
  by_contra hsome
  obtain ⟨f, hf, rfl⟩ := exists_of_filesFrom (Option.isSome_iff_ne_none.mpr hsome)
  exact hne (hw.leaves f hf e he hq)

end Files

/-! ## Moving the tree -/

section Moved

variable {t : Tool} {P : List Path} {file : Path → Option (Nat × Nat)} {nodes : Nat → Node}
  {base : Nat}

/-- **The tree of the tool is in memory** once every link was adjusted. -/
theorem Laid.moved (h : Laid t.vfs.nodes t.root P file) (g : Nat → Nat) (hg₀ : g 0 = 0)
    (hg : ∀ i < P.length, g (t.root + sizeofNode * i) = base + sizeofNode * i) (hbase : base ≠ 0)
    (hnodes : ∀ i < P.length, nodes (base + sizeofNode * i) =
      { t.vfs.nodes (t.root + sizeofNode * i) with
        ptr := g (t.vfs.nodes (t.root + sizeofNode * i)).ptr
        next := g (t.vfs.nodes (t.root + sizeofNode * i)).next
        parent := g (t.vfs.nodes (t.root + sizeofNode * i)).parent }) :
    Laid nodes base P file where
  linked := by
    refine h.linked.rebase g hg₀ hg hbase (fun i hi => ?_) (fun i hi => ?_)
    · rw [hnodes i hi]
    · rw [hnodes i hi]
  record q hq := by
    have hrecord := h.record q hq
    have hparent : g (nodeOf t.root P file q).parent = (nodeOf base P file q).parent := by
      show g (if q = [] then 0 else nodeAt t.root P q.dropLast) =
        if q = [] then 0 else nodeAt base P q.dropLast
      split
      next => exact hg₀
      next =>
        obtain ⟨j, hj, hplace⟩ := Arena.exists_place (h.linked.rooted.closed q hq) sizeofNode
        rw [nodeAt, nodeAt, hplace, hplace, hg j hj]
    obtain ⟨i, hi, hplace⟩ := Arena.exists_place hq sizeofNode
    rw [nodeAt, hplace] at hrecord
    rw [nodeAt, hplace, hnodes i hi]
    rw [← hrecord] at hparent
    -- links aside, only the parent was adjusted
    calc _ = { (t.vfs.nodes (t.root + sizeofNode * i)).unlinked with
          parent := g (t.vfs.nodes (t.root + sizeofNode * i)).unlinked.parent } := rfl
      _ = nodeOf base P file q := by
        rw [hparent, hrecord]
        rfl

end Moved

/-! ## Looking up a path -/

section Lookup

variable {s : Vfs.State} {base : Nat} {P : List Path} {file : Path → Option (Nat × Nat)} {d : Path}

theorem Laid.finddir (h : Laid s.nodes base P file) (hbase : base ≠ 0) (hlen : P.length < listFuel)
    (hd : d ∈ P) (hdir : file d = none) {w : List Char} (hmem : d ++ [w] ∈ P) :
    Vfs.finddir s (nodeAt base P d) (some w) = .ok (nodeAt base P (d ++ [w])) := by
  have hop : (s.nodes (nodeAt base P d)).finddirOp = none := by
    have hrecord := congrArg Node.finddirOp (h.record d hd)
    exact hrecord
  have hflags : (s.nodes (nodeAt base P d)).flags &&& 7 = fsDirectory := by
    rw [h.flags hd, hdir]
    decide
  have hne : nodeAt base P d ≠ 0 := by
    rw [nodeAt, Arena.place]
    omega
  unfold Vfs.finddir
  dsimp only
  rw [if_neg hne, hop]
  dsimp only
  rw [if_pos hflags, h.findName hd hlen, Loop.ok_bind, if_pos hmem,
    if_pos (h.linked.ne_zero hmem)]
  rfl

/-- **A path of the tree** leads to its node, if it goes through directories. -/
theorem Laid.lookup (h : Laid s.nodes base P file) (hbase : base ≠ 0) (hlen : P.length < listFuel)
    {ws : Path} (hmem : d ++ ws ∈ P)
    (hdirs : ∀ us, us <+: ws → us ≠ ws → file (d ++ us) = none) :
    Vfs.lookup s (nodeAt base P d) ws = .ok (nodeAt base P (d ++ ws)) := by
  have hrooted := h.linked.rooted
  induction ws generalizing d with
  | nil => rw [Vfs.lookup, List.append_nil]
  | cons w ws ih =>
    have hsplit : d ++ w :: ws = d ++ [w] ++ ws := by simp
    rw [hsplit] at hmem ⊢
    have hnext := hrooted.mem_of_initial hmem (List.prefix_append _ _)
    have hd := hrooted.mem_of_initial hnext (List.prefix_append _ _)
    have hdir : file d = none := by
      have := hdirs [] (List.nil_prefix) (by simp)
      rwa [List.append_nil] at this
    rw [Vfs.lookup, h.finddir hbase hlen hd hdir hnext, Loop.ok_bind,
      if_neg (h.linked.ne_zero hnext)]
    refine ih hmem (fun us hus hne => ?_)
    have := hdirs (w :: us) (List.cons_prefix_cons.mpr ⟨rfl, hus⟩) (by simpa using hne)
    rwa [show d ++ w :: us = d ++ [w] ++ us by simp] at this

end Lookup

/-! ## Back and forth -/

/-- Every entry is found and read back, and there is no other file. -/
structure RoundTrips (m : Memory) (root : Nat) (entries : List Entry) : Prop where
  entry : ∀ e ∈ entries, ∃ n, Vfs.lookup m.vfs root (Vfs.names e.path) = .ok n ∧
    (m.cells n).node.flags &&& 7 = fsFile ∧ (m.cells n).node.length = e.content.length ∧
    initrdRead m n 0 e.content.length = .ok (e.content.length, e.content)
  only : ∀ q n, Arena.Found (fun a => (m.cells a).node.ptr) (fun a => (m.cells a).node.next)
      (fun a => (m.cells a).node.name) root q n →
    (m.cells n).node.flags &&& 7 = fsFile →
    ∃ e ∈ entries, Vfs.names e.path = q ∧ Vfs.lookup m.vfs root q = .ok n

section RoundTrip

variable {entries : List Entry} {m : Memory} {base : Nat} {e : Entry} {q : Path}

theorem Laid.file_iff {nodes : Nat → Node} {P : List Path} {file : Path → Option (Nat × Nat)}
    (h : Laid nodes base P file) (hq : q ∈ P) :
    (nodes (nodeAt base P q)).flags &&& 7 = fsFile ↔ (file q).isSome := by
  rw [h.flags hq]
  cases (file q).isSome <;> decide

theorem initrdRead_whole {n : Nat} {content : List UInt8} (hn : n ≠ 0)
    (hlength : (m.cells n).node.length = content.length) (hlt : content.length < wordSize)
    (hbytes : ∀ i (hi : i < content.length), m.bytes ((m.cells n).data + i) = content[i]) :
    initrdRead m n 0 content.length = .ok (content.length, content) := by
  rw [initrdRead, assert, if_pos (by simpa using hn), Loop.ok_bind]
  dsimp only
  rw [hlength, if_neg (Nat.not_lt_zero _), Nat.zero_add, Nat.mod_eq_of_lt hlt,
    if_neg (Nat.lt_irrefl _)]
  refine congrArg (fun l => Except.ok (content.length, l)) (List.ext_getElem (by simp) ?_)
  intro i _ hi
  rw [List.getElem_map, List.getElem_range, Nat.add_zero]
  exact hbytes i hi

/-- **A tree that is laid out in memory** gives the entries back. -/
theorem Laid.roundTrips (hw : WellFormed entries)
    (hdistinct : (entries.map (fun e => Vfs.names e.path)).Nodup)
    (h : Laid m.vfs.nodes base (pathsOf entries) (filesFrom 0 entries)) (hbase : base ≠ 0)
    (hlen : (pathsOf entries).length < listFuel) (htotal : total entries < wordSize)
    (hbytes : ∀ e ∈ entries, ∀ i (hi : i < e.content.length),
      m.bytes ((m.cells (nodeAt base (pathsOf entries) (Vfs.names e.path))).data + i) =
        e.content[i]) : RoundTrips m base entries := by
  have hrooted := h.linked.rooted
  have hroot : nodeAt base (pathsOf entries) [] = base := Arena.place_nil hrooted
  have hlookup : ∀ e ∈ entries, Vfs.lookup m.vfs base (Vfs.names e.path) =
      .ok (nodeAt base (pathsOf entries) (Vfs.names e.path)) := by
    intro e he
    have hmem : [] ++ Vfs.names e.path ∈ pathsOf entries :=
      mem_pathsOf.mpr (Or.inr ⟨e, he, List.prefix_refl _⟩)
    have := h.lookup hbase hlen hmem (fun us hus hne => filesFrom_eq_none hw he hus hne)
    rwa [hroot] at this
  constructor
  · intro e he
    have hmem : Vfs.names e.path ∈ pathsOf entries :=
      mem_pathsOf.mpr (Or.inr ⟨e, he, List.prefix_refl _⟩)
    obtain ⟨k, hfile, -⟩ := filesFrom_of_mem (o := 0) hdistinct he
    have hflags := (h.file_iff hmem).mpr (by rw [hfile]; rfl)
    have hlength := h.length hmem
    rw [hfile] at hlength
    have hne : nodeAt base (pathsOf entries) (Vfs.names e.path) ≠ 0 := by
      rw [nodeAt, Arena.place]
      omega
    have hlt : e.content.length < wordSize := Nat.lt_of_le_of_lt (length_le_total he) htotal
    exact ⟨_, hlookup e he, hflags, hlength, initrdRead_whole hne hlength hlt (hbytes e he)⟩
  · intro q n hfound hflags
    obtain ⟨hmem, rfl⟩ := h.linked.found h.labelled hfound
    obtain ⟨e, he, rfl⟩ := exists_of_filesFrom ((h.file_iff hmem).mp hflags)
    exact ⟨e, he, rfl, hlookup e he⟩

variable {t : Tool} {load : Nat}

theorem initrdInit_cell {i : Nat} (hi : i < (pathsOf entries).length) :
    (initrdInit ((imageOf t entries).load load m) load).2.cells
        (load + sizeofHeader + sizeofNode * i) =
      relocate load
        { imageNode t (sizeofHeader + sizeofNode * (pathsOf entries).length) i with } := by
  have hsz : ((imageOf t entries).load load m).headerSz load = (pathsOf entries).length :=
    Function.update_self ..
  have hnode : (imageOf t entries).nodes[i]? =
      some (imageNode t (sizeofHeader + sizeofNode * (pathsOf entries).length) i) := by
    unfold imageOf
    dsimp only
    rw [List.getElem?_map, List.getElem?_range hi]
    rfl
  unfold initrdInit
  dsimp only
  rw [hsz, initLoop_cell hi, Image.load_cell hnode]

/-- **The tree of the tool is in the kernel's memory.** -/
theorem Built.loaded (h : Built t (pathsOf entries) (filesFrom 0 entries))
    (hlimit : t.root + sizeofNode * (pathsOf entries).length ≤ wordSize)
    (hload : load + imageSize entries ≤ wordSize) :
    Laid (initrdInit ((imageOf t entries).load load m) load).2.vfs.nodes (load + sizeofHeader)
      (pathsOf entries) (filesFrom 0 entries) := by
  unfold imageSize at hload
  rw [← length_pathsOf] at hload
  refine h.laid.moved (fun p => absolute load (relative t.root p)) rfl (fun i hi => ?_)
    (by unfold sizeofHeader; omega) (fun i hi => ?_)
  · refine absolute_relative h.root ?_ ?_
    · unfold sizeofNode at hlimit ⊢
      omega
    · unfold sizeofNode at hload ⊢
      omega
  · show ((initrdInit _ _).2.cells _).node = _
    rw [initrdInit_cell hi]
    rfl

theorem Built.loaded_bytes (h : Built t (pathsOf entries) (filesFrom 0 entries))
    (hdistinct : (entries.map (fun e => Vfs.names e.path)).Nodup)
    (hload : load + imageSize entries ≤ wordSize) (he : e ∈ entries) {i : Nat}
    (hi : i < e.content.length) :
    (initrdInit ((imageOf t entries).load load m) load).2.bytes
      (((initrdInit ((imageOf t entries).load load m) load).2.cells
        (nodeAt (load + sizeofHeader) (pathsOf entries) (Vfs.names e.path))).data + i) =
        e.content[i] := by
  unfold imageSize at hload
  rw [← length_pathsOf] at hload
  have hmem : Vfs.names e.path ∈ pathsOf entries :=
    mem_pathsOf.mpr (Or.inr ⟨e, he, List.prefix_refl _⟩)
  obtain ⟨k, hfile, hcontent⟩ := filesFrom_of_mem (o := 0) hdistinct he
  rw [Nat.zero_add] at hfile
  obtain ⟨j, hj, hplace⟩ := Arena.exists_place hmem sizeofNode
  have hlength := h.laid.length hmem
  have hdata := h.data _ hmem
  rw [hfile, nodeAt, hplace] at hlength hdata
  -- the byte of the contents
  have hget : (entries.flatMap Entry.content)[k + i]? = some e.content[i] := by
    have hi' : i < (((entries.flatMap Entry.content).drop k).take e.content.length).length := by
      rwa [hcontent]
    have := List.getElem?_eq_getElem hi'
    rw [List.getElem?_take_of_lt hi, List.getElem?_drop] at this
    rw [this]
    simp [hcontent]
  have hlt : k + i < total entries := (List.getElem?_eq_some_iff.mp hget).1
  have hpos : 0 < e.content.length := by omega
  have hcell : (relocate load { imageNode t
      (sizeofHeader + sizeofNode * (pathsOf entries).length) j with }).data =
        load + sizeofHeader + sizeofNode * (pathsOf entries).length + k := by
    unfold relocate imageNode
    dsimp only
    rw [hlength, hdata]
    dsimp only [Option.map_some, Option.getD_some]
    rw [if_pos hpos, if_pos (Nat.ne_of_gt hpos)]
    unfold wordSize at hload ⊢
    omega
  have hnodes : (imageOf t entries).nodes.length = (pathsOf entries).length := by
    unfold imageOf
    simp
  have hbyte : ((imageOf t entries).load load m).bytes
      (load + sizeofHeader + sizeofNode * (imageOf t entries).nodes.length + (k + i)) =
        e.content[i] := Image.load_byte hget
  rw [hnodes, ← Nat.add_assoc] at hbyte
  rw [nodeAt, hplace, initrdInit_cell hj, hcell]
  exact (congrFun (initLoop_bytes _) _).trans hbyte

/-- **Building and loading**: the entries come back. -/
theorem initrd_round_trip (hw : WellFormed entries)
    (hdistinct : (entries.map (fun e => Vfs.names e.path)).Nodup)
    (hnodes : nodeCount entries ≤ entries.length * 5) (himage : imageSize entries < wordSize)
    {root load : Nat} (hroot : root ≠ 0)
    (hlimit : root + sizeofNode * (entries.length * 5) ≤ wordSize)
    (hload : load + imageSize entries ≤ wordSize) (vfs : Vfs.State) (data : Nat → Nat)
    (m : Memory) :
    ∃ img, mkinitrd vfs data root entries = .ok (some img) ∧
      RoundTrips (initrdInit (img.load load m) load).2 (initrdInit (img.load load m) load).1
        entries := by
  have hcount := length_pathsOf entries
  have htotal : total entries < wordSize := by
    unfold imageSize at himage
    omega
  rw [← hcount] at hnodes
  obtain ⟨t, hcall, h, rfl⟩ := mkinitrd_spec vfs data hw hdistinct hnodes hroot hlimit htotal
  have hmul : sizeofNode * (pathsOf entries).length ≤ sizeofNode * (entries.length * 5) :=
    Nat.mul_le_mul_left _ hnodes
  have hroom : t.root + sizeofNode * (pathsOf entries).length ≤ wordSize := by omega
  have hbase : load + sizeofHeader ≠ 0 := by
    unfold sizeofHeader
    omega
  exact ⟨_, hcall, (h.loaded hroom hload).roundTrips hw hdistinct hbase (h.length_lt_fuel hroom)
    htotal (fun e he i hi => h.loaded_bytes hdistinct hload he hi)⟩

end RoundTrip

def blankMemory : Memory :=
  { cells := fun _ => { node := {}, data := 0 }, bytes := fun _ => 0, headerSz := fun _ => 0
    rest := {} }

/-- `/home/hello.txt` of three bytes, `/bin/sh` of one byte and an empty file in `/home`. -/
def hello : List Entry :=
  [{ path := "/home/hello.txt".toList, content := [104, 105, 10] },
    { path := "/bin/sh".toList, content := [127] }, { path := "/home/a".toList, content := [] }]

theorem initrd_round_trip_hello : nodeCount hello = 6 ∧
    ∃ img, mkinitrd {} (fun _ => 0) 4096 hello = .ok (some img) ∧
      RoundTrips (initrdInit (img.load 1048576 blankMemory) 1048576).2
        (initrdInit (img.load 1048576 blankMemory) 1048576).1 hello :=
  ⟨by decide, initrd_round_trip ⟨by decide, by decide, by decide⟩ (by decide) (by decide)
    (by decide) (by decide) (by decide) (by decide) {} (fun _ => 0) blankMemory⟩

/-- `/a` and `a` are two paths with the same components. -/
def twins : List Entry :=
  [{ path := "/a".toList, content := [1] }, { path := "a".toList, content := [2] }]

/-- **Two paths that differ by the leading slash** are two files of one name, and only the first is
found. -/
theorem initrd_round_trip_twins : WellFormed twins ∧ (twins.map Entry.path).Nodup ∧
    nodeCount twins ≤ twins.length * 5 ∧ imageSize twins < wordSize ∧
    ∃ img, mkinitrd {} (fun _ => 0) 4096 twins = .ok (some img) ∧ img.sz ≤ twins.length * 5 ∧
      ¬ RoundTrips (initrdInit (img.load 1048576 blankMemory) 1048576).2
        (initrdInit (img.load 1048576 blankMemory) 1048576).1 twins := by
  refine ⟨⟨by decide, by decide, by decide⟩, by decide, by decide, by decide, _, rfl, by decide, ?_⟩
  intro h
  obtain ⟨n, hlookup, -, -, hread⟩ := h.entry _ (List.mem_cons_of_mem _ List.mem_cons_self)
  have hn : Except.ok n = Except.ok (1048576 + 8 + 392) := hlookup.symm.trans rfl
  cases hn
  cases hread

end Hydrax.Initrd
