import Mathlib.Data.List.DropRight
import Hydrax.Arena
import Hydrax.Vfs.Listing

/-!
# Building an initrd

`tools/src/mkinitrd/mkinitrd.c`. The tool keeps the nodes in an array, five for each entry, and
links them by their addresses. Then it makes the links relative to the image, and writes a header,
the nodes and the contents of the files.

Its nodes have the layout that `vfs_node_t` has in the kernel, so `Vfs.Node` stands for both. The
address of a file's content is kept beside them.

* `Built.make` — a node is made and put behind its siblings,
* `findParent_spec` — `find_parent` makes the directories that are missing,
* `mkinitrd_spec` — the tree that is built for the entries.
-/

namespace Hydrax.Initrd

open Loop
open Vfs (Node fsFile fsDirectory)
open Function (update update_of_ne update_self)

def sizeofHeader : Nat := 8
def sizeofNode : Nat := 392

structure Entry where
  path : List Char
  content : List UInt8
  deriving DecidableEq, Repr

/-- The memory of the tool. `data` is that field of the node at an address, and the array of nodes
ends at `limit`. -/
structure Tool where
  vfs : Vfs.State
  data : Nat → Nat
  root : Nat
  pNode : Nat
  limit : Nat

structure ImageNode where
  node : Node
  data : Nat

structure Image where
  magic : Nat
  sz : Nat
  nodes : List ImageNode
  contents : List UInt8

/-- "p_node++", and the node is initialised. -/
def Tool.newNode (t : Tool) (node : Node) (data : Nat) : Except Stop (Nat × Tool) :=
  if t.limit < t.pNode + sizeofNode then .error .outOfBounds
  else
    .ok (t.pNode,
      { t with
        vfs := t.vfs.modify t.pNode (fun _ => node)
        data := update t.data t.pNode data
        pNode := t.pNode + sizeofNode })

/-- A new node is made and put behind the other children of its parent. -/
def Tool.addNode (t : Tool) (node : Node) (data : Nat) : Except Stop (Nat × Tool) := do
  let (tmp, t) ← t.newNode node data
  let s ← Vfs.appendNode t.vfs node.parent tmp
  return (tmp, { t with vfs := s })

/-- What `find_parent` does with a component: the number of nodes it makes, and the node it gets
to. -/
def Tool.enter (t : Tool) (node : Nat) (w : List Char) : Except Stop (Nat × Nat × Tool) := do
  let tmp ← Vfs.findName t.vfs.nodes (some w) listFuel (t.vfs.nodes node).ptr
  if tmp = 0 then
    let (tmp, t) ← t.addNode { name := w, flags := fsDirectory, parent := node } 0
    return (1, tmp, t)
  else return (0, tmp, t)

/-- The first loop of `find_parent`: the number of levels of the path. -/
def countLevels (path : List Char) : Nat → Nat → Nat
  | 0, levels => levels
  | fuel + 1, levels =>
    match Vfs.getPathLevel path levels with
    | none => levels
    | some _ => countLevels path fuel (levels + 1)

/-- The second loop of `find_parent`. -/
def parentLoop (path : List Char) (levels : Nat) :
    Nat → Nat → Nat → Option (List Char) → Nat → Tool → Except Stop (Nat × Nat × Tool)
  | 0, _, _, _, _, _ => .error .hang
  | fuel + 1, i, c, pPath, node, t =>
    match pPath with
    | none => .ok (c, node, t)
    | some w =>
      if w ≠ [] ∧ i < levels then do
        let (made, tmp, t) ← t.enter node w
        parentLoop path levels fuel (i + 1) (c + made) (Vfs.getPathLevel path i) tmp t
      else .ok (c, node, t)

/-- `find_parent`: the number of nodes it makes, and the parent. -/
def findParent (t : Tool) (path : List Char) : Except Stop (Nat × Nat × Tool) := do
  assert (path.length ≤ Vfs.maxPath)
  let levels := countLevels path (Vfs.maxPath + 2) 0
  parentLoop path levels (Vfs.maxPath + 2) 1 0 (Vfs.getPathLevel path 0) t.root t

/-- `filename`: what comes after the last slash. -/
def filename (path : List Char) : List Char := path.rtakeWhile (· != '/')

/-- The first loop of `main`, for one entry. -/
def addEntry (x : Tool × Nat × Nat) (e : Entry) : Except Stop (Tool × Nat × Nat) := do
  let (t, nodesCount, offset) := x
  let (made, node, t) ← findParent t e.path
  assert (node ≠ 0)
  let (_, t) ← t.addNode
    { name := filename e.path, flags := fsFile, length := e.content.length, parent := node } offset
  return (t, nodesCount + made + 1, (offset + e.content.length) % wordSize)

/-- A link that is made relative to the image, in words of 32 bits. -/
def relative (root p : Nat) : Nat :=
  if p = 0 then 0 else (p + (wordSize - root) + sizeofHeader) % wordSize

/-- The second loop of `main`, for the node at an index. -/
def imageNode (t : Tool) (offset i : Nat) : ImageNode :=
  let a := t.root + sizeofNode * i
  let n := t.vfs.nodes a
  { node :=
      { n with
        ptr := relative t.root n.ptr
        parent := relative t.root n.parent
        next := relative t.root n.next }
    data := if n.length ≠ 0 then (t.data a + offset) % wordSize else t.data a }

/-- `main`, with the array that `malloc` returns at `root`. There is no image when it fails. -/
def mkinitrd (vfs : Vfs.State) (data : Nat → Nat) (root : Nat) (entries : List Entry) :
    Except Stop (Option Image) :=
  if root = 0 then .ok none
  else do
    let limit := root + sizeofNode * (entries.length * 5)
    let (_, t) ← Tool.newNode { vfs, data, root, pNode := root, limit } { flags := fsDirectory } 0
    let (t, nodesCount, _) ← entries.foldlM addEntry (t, 1, 0)
    let offset := sizeofHeader + sizeofNode * nodesCount
    return some
      { magic := 0x42424242, sz := nodesCount
        nodes := (List.range nodesCount).map (imageNode t offset)
        contents := entries.flatMap Entry.content }

/-! ## The tree of the tool -/

abbrev Path := List (List Char)

/-- The place of the node of a path, in an array at `base`. -/
abbrev nodeAt (base : Nat) (P : List Path) (q : Path) : Nat := Arena.place base sizeofNode P q

/-- The node of a path. `file` tells where the content of a file begins and how long it is. -/
def nodeOf (base : Nat) (P : List Path) (file : Path → Option (Nat × Nat)) (q : Path) : Node :=
  { name := q.getLastD []
    flags := if (file q).isSome then fsFile else fsDirectory
    length := ((file q).map Prod.snd).getD 0
    parent := if q = [] then 0 else nodeAt base P q.dropLast }

/-- The nodes at `base` are those of the paths in `P`. -/
structure Laid (nodes : Nat → Node) (base : Nat) (P : List Path)
    (file : Path → Option (Nat × Nat)) : Prop where
  linked : Arena.Linked (fun a => (nodes a).ptr) (fun a => (nodes a).next) base sizeofNode P
  record : ∀ q ∈ P, (nodes (nodeAt base P q)).unlinked = nodeOf base P file q

/-- The tool has made the nodes of `P`, and nothing else. -/
structure Built (t : Tool) (P : List Path) (file : Path → Option (Nat × Nat)) : Prop where
  laid : Laid t.vfs.nodes t.root P file
  data : ∀ q ∈ P, t.data (nodeAt t.root P q) = ((file q).map Prod.fst).getD 0
  outside : ∀ q, q ∉ P → file q = none
  root : t.root ≠ 0
  pNode : t.pNode = t.root + sizeofNode * P.length
  limit : t.limit ≤ wordSize

section Laid

variable {nodes : Nat → Node} {base : Nat} {P : List Path} {file : Path → Option (Nat × Nat)}

theorem Laid.labelled (h : Laid nodes base P file) :
    Arena.Labelled (fun a => (nodes a).name) base sizeofNode P := by
  intro d w hmem
  have hrecord := congrArg Node.name (h.record _ hmem)
  rw [nodeOf, List.getLastD_concat] at hrecord
  exact hrecord

theorem Laid.flags (h : Laid nodes base P file) {q : Path} (hq : q ∈ P) :
    (nodes (nodeAt base P q)).flags = if (file q).isSome then fsFile else fsDirectory := by
  have hrecord := congrArg Node.flags (h.record q hq)
  exact hrecord

theorem Laid.length (h : Laid nodes base P file) {q : Path} (hq : q ∈ P) :
    (nodes (nodeAt base P q)).length = ((file q).map Prod.snd).getD 0 := by
  have hrecord := congrArg Node.length (h.record q hq)
  exact hrecord

theorem Laid.findName (h : Laid nodes base P file) {d : Path} (hd : d ∈ P)
    (hlen : P.length < listFuel) (w : List Char) :
    Vfs.findName nodes (some w) listFuel (nodes (nodeAt base P d)).ptr =
      .ok (if d ++ [w] ∈ P then nodeAt base P (d ++ [w]) else 0) := by
  have hkids : ((Arena.kids P d).map (nodeAt base P)).length < listFuel := by
    rw [List.length_map]
    exact Nat.lt_of_le_of_lt (List.length_filter_le _ _) hlen
  rw [Vfs.findName_eq (h.linked.chain d hd) hkids, Arena.find?_kids h.labelled]
  split <;> rfl

theorem Laid.congr {nodes' : Nat → Node} (h : Laid nodes base P file)
    (hn : ∀ q ∈ P, nodes' (nodeAt base P q) = nodes (nodeAt base P q)) :
    Laid nodes' base P file where
  linked := by
    refine ⟨h.linked.rooted, fun d hd => ?_⟩
    rw [hn d hd]
    refine (h.linked.chain d hd).congr (fun y hy => ?_)
    obtain ⟨q, hq, rfl⟩ := List.mem_map.mp hy
    rw [hn q (List.mem_of_mem_filter hq)]
  record q hq := by
    rw [hn q hq]
    exact h.record q hq

end Laid

section Built

variable {t : Tool} {P : List Path} {file file' : Path → Option (Nat × Nat)} {d : Path}
  {w : List Char}

theorem Built.length_lt_fuel (h : Built t P file)
    (hroom : t.root + sizeofNode * P.length ≤ wordSize) : P.length < listFuel := by
  have hroot := h.root
  unfold sizeofNode wordSize at hroom
  unfold listFuel
  omega

theorem Built.length_lt (h : Built t P file) (hroom : t.root + sizeofNode * P.length ≤ t.limit) :
    P.length < listFuel :=
  h.length_lt_fuel (Nat.le_trans hroom h.limit)

theorem nodeOf_concat {base : Nat} (hrooted : Arena.Rooted P) {q : Path} (hq : q ∈ P)
    (hfile : file' q = file q) (x : Path) :
    nodeOf base (P ++ [x]) file' q = nodeOf base P file q := by
  unfold nodeOf
  rw [hfile, nodeAt, Arena.place_concat_of_mem (hrooted.closed q hq)]

theorem nodeOf_new {base : Nat} (hd : d ∈ P) :
    nodeOf base (P ++ [d ++ [w]]) file (d ++ [w]) =
      { name := w
        flags := if (file (d ++ [w])).isSome then fsFile else fsDirectory
        length := ((file (d ++ [w])).map Prod.snd).getD 0
        parent := nodeAt base P d } := by
  have hparent : nodeAt base (P ++ [d ++ [w]]) (d ++ [w]).dropLast = nodeAt base P d := by
    rw [List.dropLast_concat]
    exact Arena.place_concat_of_mem hd _
  rw [nodeOf, List.getLastD_concat, hparent]
  simp

theorem Laid.append {s : Vfs.State} {base : Nat} (h : Laid s.nodes base P file) (hbase : base ≠ 0)
    (hd : d ∈ P) (hnew : d ++ [w] ∉ P) (hlen : P.length < listFuel)
    (hfile : ∀ q, q ≠ d ++ [w] → file' q = file q)
    (hnode : s.nodes (base + sizeofNode * P.length) =
      nodeOf base (P ++ [d ++ [w]]) file' (d ++ [w])) :
    ∃ s', Vfs.appendNode s (nodeAt base P d) (base + sizeofNode * P.length) = .ok s' ∧
      Laid s'.nodes base (P ++ [d ++ [w]]) file' := by
  have hsize : 0 < sizeofNode := by decide
  have hkids : ∀ y ∈ (Arena.kids P d).map (nodeAt base P), ∃ q ∈ P, y = nodeAt base P q := by
    intro y hy
    obtain ⟨q, hq, rfl⟩ := List.mem_map.mp hy
    exact ⟨q, List.mem_of_mem_filter hq, rfl⟩
  have hlength : ((Arena.kids P d).map (nodeAt base P)).length < listFuel := by
    rw [List.length_map]
    exact Nat.lt_of_le_of_lt (List.length_filter_le _ _) hlen
  have hfree : base + sizeofNode * P.length ∉ (Arena.kids P d).map (nodeAt base P) := by
    intro hmem
    obtain ⟨q, hq, heq⟩ := hkids _ hmem
    exact Arena.place_ne_new hsize hq heq.symm
  obtain ⟨s', hcall, hchain, hptr, hnext, hrest, -⟩ := Vfs.appendNode_spec
    (h.linked.chain d hd) hlength (by omega) (by rw [hnode]; rfl) hfree
  refine ⟨s', hcall, h.linked.add hd hnew hchain ?_ (fun q hq hqd => ?_) (fun q hq hqd => ?_),
    fun q hq => ?_⟩
  · have hne : base + sizeofNode * P.length ≠ nodeAt base P d :=
      (Arena.place_ne_new hsize hd).symm
    rw [hptr _ hne, hnode]
    rfl
  · exact hptr _ (fun heq => hqd (Arena.place_inj hsize hq heq))
  · refine hnext _ (fun hmem => ?_)
    obtain ⟨y, hy, heq⟩ := List.mem_map.mp hmem
    exact hqd (Arena.place_inj hsize (List.mem_of_mem_filter hy) heq ▸ hy)
  · rcases List.mem_append.mp hq with hq | hq
    · have hne : q ≠ d ++ [w] := fun heq => hnew (heq ▸ hq)
      rw [nodeAt, Arena.place_concat_of_mem hq, hrest, h.record q hq,
        nodeOf_concat h.linked.rooted hq (hfile q hne)]
    · rw [List.mem_singleton.mp hq, nodeAt, Arena.place_concat_self hnew, hrest, hnode]
      rfl

theorem Built.make (h : Built t P file) (hd : d ∈ P) (hnew : d ++ [w] ∉ P)
    (hroom : t.root + sizeofNode * (P ++ [d ++ [w]]).length ≤ t.limit) {node : Node} {data : Nat}
    (hnode : node = nodeOf t.root (P ++ [d ++ [w]]) file' (d ++ [w]))
    (hdata : data = ((file' (d ++ [w])).map Prod.fst).getD 0)
    (hfile : ∀ q, q ≠ d ++ [w] → file' q = file q) :
    ∃ t', t.addNode node data = .ok (nodeAt t.root (P ++ [d ++ [w]]) (d ++ [w]), t') ∧
      Built t' (P ++ [d ++ [w]]) file' ∧ t'.root = t.root ∧ t'.limit = t.limit := by
  have hplace : nodeAt t.root (P ++ [d ++ [w]]) (d ++ [w]) = t.pNode := by
    rw [nodeAt, Arena.place_concat_self hnew, h.pNode]
  have hold : ∀ q ∈ P, nodeAt t.root P q ≠ t.pNode := by
    rw [h.pNode]
    exact fun q hq => Arena.place_ne_new (by decide) hq
  have hparent : node.parent = nodeAt t.root P d := by rw [hnode, nodeOf_new hd]
  -- the array has room for the node
  rw [List.length_append, List.length_singleton, Nat.mul_succ, ← Nat.add_assoc, ← h.pNode] at hroom
  have hlen : P.length < listFuel := by
    refine h.length_lt ?_
    rw [← h.pNode]
    exact Nat.le_trans (Nat.le_add_right _ _) hroom
  -- the node is initialised, and then it is linked
  have hlaid : Laid (t.vfs.modify t.pNode (fun _ => node)).nodes t.root P file :=
    h.laid.congr (fun q hq => Vfs.State.modify_of_ne _ _ (hold q hq))
  have hself : (t.vfs.modify t.pNode (fun _ => node)).nodes (t.root + sizeofNode * P.length) =
      nodeOf t.root (P ++ [d ++ [w]]) file' (d ++ [w]) := by
    rw [← h.pNode, Vfs.State.modify_self, hnode]
  obtain ⟨s', hcall, hlaid'⟩ := hlaid.append h.root hd hnew hlen hfile hself
  refine ⟨{ t with
      vfs := s'
      data := update t.data t.pNode data
      pNode := t.pNode + sizeofNode },
    ?_, ⟨hlaid', fun q hq => ?_, fun q hq => ?_, h.root, ?_, h.limit⟩, rfl, rfl⟩
  · rw [Tool.addNode, Tool.newNode, if_neg (Nat.not_lt.mpr hroom), ok_bind, hplace]
    dsimp only
    rw [← h.pNode] at hcall
    rw [hparent, hcall]
    rfl
  · show update t.data t.pNode data (nodeAt t.root (P ++ [d ++ [w]]) q) = _
    rcases List.mem_append.mp hq with hq | hq
    · have hne : q ≠ d ++ [w] := fun heq => hnew (heq ▸ hq)
      rw [nodeAt, Arena.place_concat_of_mem hq, update_of_ne (hold q hq), h.data q hq,
        hfile q hne]
    · rw [List.mem_singleton.mp hq, hplace, update_self, hdata]
  · rw [List.mem_append, List.mem_singleton, not_or] at hq
    rw [hfile q hq.2, h.outside q hq.1]
  · show t.pNode + sizeofNode = t.root + sizeofNode * (P ++ [d ++ [w]]).length
    rw [h.pNode, List.length_append, List.length_singleton, Nat.mul_succ, Nat.add_assoc]

/-! ## Finding the parent -/

theorem Built.enter (h : Built t P file) (hd : d ∈ P)
    (hroom : t.root + sizeofNode * (Arena.touch P (d ++ [w])).length ≤ t.limit) :
    ∃ made t', t.enter (nodeAt t.root P d) w =
        .ok (made, nodeAt t.root (Arena.touch P (d ++ [w])) (d ++ [w]), t') ∧
      made + P.length = (Arena.touch P (d ++ [w])).length ∧
      Built t' (Arena.touch P (d ++ [w])) file ∧ t'.root = t.root ∧ t'.limit = t.limit := by
  have hlength : P.length < listFuel := by
    have hle := (Arena.touch_initial P (d ++ [w])).length_le
    refine h.length_lt ?_
    unfold sizeofNode at hroom ⊢
    omega
  rw [Tool.enter, h.laid.findName hd hlength, ok_bind]
  by_cases hmem : d ++ [w] ∈ P
  · rw [Arena.touch, if_pos hmem, if_pos hmem, if_neg (h.laid.linked.ne_zero hmem)]
    exact ⟨0, t, rfl, Nat.zero_add _, h, rfl, rfl⟩
  · rw [Arena.touch, if_neg hmem] at hroom
    rw [Arena.touch, if_neg hmem, if_neg hmem, if_pos rfl]
    have hnone : file (d ++ [w]) = none := h.outside _ hmem
    have hnode : ({ name := w, flags := fsDirectory, parent := nodeAt t.root P d } : Node) =
        nodeOf t.root (P ++ [d ++ [w]]) file (d ++ [w]) := by
      rw [nodeOf_new hd, hnone]
      rfl
    have hdata : 0 = ((file (d ++ [w])).map Prod.fst).getD 0 := by
      rw [hnone]
      rfl
    obtain ⟨t', hadd, hbuilt, hroot, hlimit⟩ :=
      h.make hd hmem hroom hnode hdata (fun _ _ => rfl)
    rw [hadd]
    exact ⟨1, t', rfl, by rw [List.length_append, Nat.add_comm]; rfl, hbuilt, hroot, hlimit⟩

theorem countLevels_eq {path : List Char} {fuel l : Nat} (hl : l ≤ (Vfs.names path).length)
    (hfuel : (Vfs.names path).length - l < fuel) :
    countLevels path fuel l = (Vfs.names path).length := by
  induction fuel generalizing l with
  | zero => omega
  | succ fuel ih =>
    rw [countLevels, Vfs.getPathLevel_names path hl]
    rcases Nat.lt_or_eq_of_le hl with hlt | heq
    · rw [List.getElem?_eq_getElem hlt]
      exact ih hlt (by omega)
    · rw [List.getElem?_eq_none (Nat.le_of_eq heq.symm)]
      exact heq

/-- **The loop of `find_parent`** makes the directories that are missing on the way to `d ++ ws`. -/
theorem parentLoop_spec {path : List Char} {ws : Path} {last : List Char}
    (hpath : Vfs.names path = d ++ ws ++ [last]) (h : Built t P file) (hd : d ∈ P)
    (hroom : t.root + sizeofNode * (Arena.touchFrom P d ws).length ≤ t.limit) {fuel : Nat}
    (hfuel : ws.length < fuel) (c : Nat) :
    ∃ c' t', parentLoop path (Vfs.names path).length fuel (d.length + 1) c
        (Vfs.names path)[d.length]? (nodeAt t.root P d) t =
          .ok (c', nodeAt t.root (Arena.touchFrom P d ws) (d ++ ws), t') ∧
      c' + P.length = c + (Arena.touchFrom P d ws).length ∧
      Built t' (Arena.touchFrom P d ws) file ∧ t'.root = t.root ∧ t'.limit = t.limit := by
  induction ws, fuel, hfuel using fuel_induction generalizing t P d c with
  | nil fuel =>
    have hlast : (Vfs.names path)[d.length]? = some last := by
      rw [hpath, List.append_nil]
      simp
    have hend : ¬ (last ≠ [] ∧ d.length + 1 < (Vfs.names path).length) := by
      rw [hpath]
      simp
    rw [hlast, parentLoop, if_neg hend, List.append_nil]
    exact ⟨c, t, rfl, rfl, h, rfl, rfl⟩
  | cons w ws fuel hfuel ih =>
    have hw : (Vfs.names path)[d.length]? = some w := by
      rw [hpath]
      simp
    have hmore : w ≠ [] ∧ d.length + 1 < (Vfs.names path).length := by
      refine ⟨Vfs.names_ne_nil (List.mem_of_getElem? hw), ?_⟩
      rw [hpath]
      simp
    have hroom' : t.root + sizeofNode * (Arena.touch P (d ++ [w])).length ≤ t.limit := by
      have hle := (Arena.touchFrom_initial (Arena.touch P (d ++ [w])) (d ++ [w]) ws).length_le
      rw [Arena.touchFrom] at hroom
      unfold sizeofNode at hroom ⊢
      omega
    obtain ⟨made, t₁, henter, hmade, h₁, hroot₁, hlimit₁⟩ := h.enter hd hroom'
    rw [Arena.touchFrom, ← hroot₁, ← hlimit₁] at hroom
    obtain ⟨c', t', hloop, hcount, h', hroot', hlimit'⟩ :=
      ih (by rw [hpath]; simp) h₁ (Arena.mem_touch.mpr (Or.inr rfl)) hroom (c + made)
    have hnext := Vfs.getPathLevel_names path (Nat.le_of_lt hmore.2)
    have hi : (d ++ [w]).length = d.length + 1 := by simp
    refine ⟨c', t', ?_, ?_, h', hroot'.trans hroot₁, hlimit'.trans hlimit₁⟩
    · rw [hw, parentLoop, if_pos hmore, henter, ok_bind]
      dsimp only
      rw [hi] at hloop
      rw [hnext, ← hroot₁, show d ++ w :: ws = d ++ [w] ++ ws by simp]
      exact hloop
    · rw [Arena.touchFrom]
      omega

theorem findParent_spec {path : List Char} {ws : Path} {last : List Char}
    (hpath : Vfs.names path = ws ++ [last]) (hlen : path.length ≤ Vfs.maxPath) (h : Built t P file)
    (hroom : t.root + sizeofNode * (Arena.touchFrom P [] ws).length ≤ t.limit) :
    ∃ made t', findParent t path = .ok (made, nodeAt t.root (Arena.touchFrom P [] ws) ws, t') ∧
      made + P.length = (Arena.touchFrom P [] ws).length ∧
      Built t' (Arena.touchFrom P [] ws) file ∧ t'.root = t.root ∧ t'.limit = t.limit := by
  have hlength := Vfs.names_length_le path
  have hrooted := h.laid.linked.rooted
  have hws : ws.length < Vfs.maxPath + 2 := by
    rw [hpath, List.length_append, List.length_singleton] at hlength
    omega
  obtain ⟨made, t', hloop, hmade, hrest⟩ :=
    parentLoop_spec (d := []) hpath h hrooted.nil_mem hroom hws 0
  refine ⟨made, t', ?_, by omega, hrest⟩
  rw [findParent, assert, if_pos (by simpa using hlen), ok_bind]
  rw [countLevels_eq (Nat.zero_le _) (by omega), Vfs.getPathLevel_names path (Nat.zero_le _)]
  rw [nodeAt, Arena.place_nil hrooted] at hloop
  exact hloop

end Built

/-! ## The entries -/

theorem filename_cons (c : Char) (p : List Char) :
    filename (c :: p) = if '/' ∈ p then filename p else if c = '/' then p else c :: p := by
  unfold filename
  rw [List.rtakeWhile, List.reverse_cons, List.takeWhile_append]
  by_cases hp : '/' ∈ p
  · have hshort : (p.reverse.takeWhile (· != '/')).length ≠ p.reverse.length := by
      intro hlen
      have hall := List.takeWhile_eq_self_iff.mp
        ((List.takeWhile_sublist _).eq_of_length hlen) '/' (List.mem_reverse.mpr hp)
      simp at hall
    rw [if_neg hshort, if_pos hp]
    rfl
  · have hall : p.reverse.takeWhile (· != '/') = p.reverse := by
      rw [List.takeWhile_eq_self_iff]
      intro x hx
      have hne : x ≠ '/' := fun heq => hp (heq ▸ List.mem_reverse.mp hx)
      simpa using hne
    rw [if_pos (congrArg List.length hall), if_neg hp]
    by_cases hc : c = '/' <;> simp [hc]

theorem getLastD_split (p : List Char) : (Vfs.split p).getLastD [] = filename p := by
  induction p with
  | nil => rfl
  | cons c p ih =>
    rw [filename_cons]
    by_cases hp : '/' ∈ p
    · rw [if_pos hp, ← ih]
      obtain ⟨w, v, ws, hsplit⟩ : ∃ w v ws, Vfs.split p = w :: v :: ws := by
        have hdrop : p.dropWhile (· != '/') ≠ [] := by
          intro hnil
          have := List.dropWhile_eq_nil_iff.mp hnil '/' hp
          simp at this
        obtain ⟨x, rest, hrest⟩ := List.exists_cons_of_ne_nil hdrop
        rw [Vfs.split_eq, hrest]
        dsimp only
        rw [Vfs.split_eq rest]
        exact ⟨_, _, _, rfl⟩
      rw [Vfs.split, hsplit]
      split <;> simp
    · rw [if_neg hp, Vfs.split, Vfs.split_of_notMem hp]
      split <;> rfl

/-- Paths are short and have no empty component, and none goes on where another ends. -/
structure WellFormed (entries : List Entry) : Prop where
  short : ∀ e ∈ entries, e.path.length ≤ Vfs.maxPath
  full : ∀ e ∈ entries, [] ∉ Vfs.split (Vfs.skipSlash e.path)
  leaves : ∀ e ∈ entries, ∀ f ∈ entries, Vfs.names e.path <+: Vfs.names f.path →
    Vfs.names e.path = Vfs.names f.path

/-- Where the content of a file begins, counted from the contents of the entries on, and how long
it is. -/
def filesFrom : Nat → List Entry → Path → Option (Nat × Nat)
  | _, [], _ => none
  | o, e :: es, q =>
    if Vfs.names e.path = q then some (o, e.content.length)
    else filesFrom (o + e.content.length) es q

def total (es : List Entry) : Nat := (es.flatMap Entry.content).length

/-- The paths of the nodes that are made, in that order. -/
def pathsOf (es : List Entry) : List Path := Arena.layout (es.map (fun e => Vfs.names e.path))

section Entries

variable {es : List Entry} {e : Entry} {q : Path} {o : Nat}

theorem total_concat (es : List Entry) (e : Entry) :
    total (es ++ [e]) = total es + e.content.length := by
  unfold total
  simp

theorem exists_names (hfull : [] ∉ Vfs.split (Vfs.skipSlash e.path)) :
    ∃ ws, Vfs.names e.path = ws ++ [filename e.path] := by
  have hnames : Vfs.names e.path = Vfs.split (Vfs.skipSlash e.path) := by
    rw [Vfs.names, List.takeWhile_eq_self_iff]
    intro w hw
    have hne : w ≠ [] := fun heq => hfull (heq ▸ hw)
    simpa using hne
  have hne : ∀ p, Vfs.split p ≠ [] := by
    intro p
    rw [Vfs.split_eq]
    exact List.cons_ne_nil _ _
  have hlast : (Vfs.split (Vfs.skipSlash e.path)).getLastD [] = filename e.path := by
    rw [← getLastD_split e.path]
    unfold Vfs.skipSlash
    split
    next hslash =>
      obtain ⟨p, hp⟩ := List.head?_eq_some_iff.mp hslash
      rw [hp, List.tail_cons, Vfs.split, if_pos rfl]
      cases hsplit : Vfs.split p with
      | nil => exact absurd hsplit (hne p)
      | cons w ws => rfl
    next => rfl
  refine ⟨(Vfs.names e.path).dropLast, ?_⟩
  rw [hnames, ← hlast, List.getLastD_eq_getLast?, List.getLast?_eq_some_getLast (hne _),
    Option.getD_some, List.dropLast_append_getLast]

theorem filesFrom_concat (o : Nat) (es : List Entry) (e : Entry) (q : Path) :
    filesFrom o (es ++ [e]) q =
      (filesFrom o es q).or
        (if Vfs.names e.path = q then some (o + total es, e.content.length) else none) := by
  induction es generalizing o with
  | nil =>
    rw [List.nil_append, filesFrom]
    rfl
  | cons f es ih =>
    rw [List.cons_append, filesFrom, filesFrom]
    split
    next => rfl
    next =>
      rw [ih, total, total, List.flatMap_cons, List.length_append, Nat.add_assoc]

theorem pathsOf_concat (es : List Entry) (e : Entry) :
    pathsOf (es ++ [e]) = Arena.touchFrom (pathsOf es) [] (Vfs.names e.path) := by
  rw [pathsOf, List.map_append, List.map_singleton, Arena.layout_concat]
  rfl

theorem pathsOf_initial (es fs : List Entry) : pathsOf es <+: pathsOf (es ++ fs) := by
  unfold pathsOf
  rw [List.map_append]
  exact Arena.layout_initial _ _

theorem mem_pathsOf : q ∈ pathsOf es ↔ q = [] ∨ ∃ e ∈ es, q <+: Vfs.names e.path := by
  rw [pathsOf, Arena.mem_layout]
  simp

end Entries

/-! ## The image -/

section Main

variable {t : Tool} {P : List Path} {file : Path → Option (Nat × Nat)} {entries : List Entry}

/-- **An entry**: the directories that are missing are made, and then the file. -/
theorem addEntry_spec {e : Entry} {ws : Path} {o : Nat} (h : Built t P file)
    (hpath : Vfs.names e.path = ws ++ [filename e.path]) (hlen : e.path.length ≤ Vfs.maxPath)
    (hnew : Vfs.names e.path ∉ P)
    (hroom : t.root + sizeofNode * (Arena.touchFrom P [] (Vfs.names e.path)).length ≤ t.limit) :
    ∃ t', addEntry (t, P.length, o) e =
        .ok (t', (Arena.touchFrom P [] (Vfs.names e.path)).length,
          (o + e.content.length) % wordSize) ∧
      Built t' (Arena.touchFrom P [] (Vfs.names e.path))
        (update file (Vfs.names e.path) (some (o, e.content.length))) ∧
      t'.root = t.root ∧ t'.limit = t.limit := by
  have hrooted := h.laid.linked.rooted
  -- the file is not among the directories above it
  have hnew' : ws ++ [filename e.path] ∉ Arena.touchFrom P [] ws := by
    rw [← hpath, Arena.mem_touchFrom hrooted.nil_mem, not_or]
    refine ⟨hnew, ?_⟩
    rintro ⟨us, hus, heq⟩
    have hle := hus.length_le
    rw [hpath, List.nil_append] at heq
    rw [← heq, List.length_append, List.length_singleton] at hle
    omega
  have hwhole : Arena.touchFrom P [] (Vfs.names e.path) =
      Arena.touchFrom P [] ws ++ [ws ++ [filename e.path]] := by
    rw [hpath, Arena.touchFrom_concat, List.nil_append, Arena.touch, if_neg hnew']
  rw [hwhole] at hroom ⊢
  obtain ⟨made, t₁, hfind, hmade, h₁, hroot₁, hlimit₁⟩ := findParent_spec hpath hlen h (by
    rw [List.length_append] at hroom
    unfold sizeofNode at hroom ⊢
    omega)
  have hws : ws ∈ Arena.touchFrom P [] ws := by
    rw [Arena.mem_touchFrom hrooted.nil_mem]
    exact Or.inr ⟨ws, List.prefix_refl ws, rfl⟩
  have hparent : nodeAt t.root (Arena.touchFrom P [] ws) ws ≠ 0 := by
    have hroot := h.root
    rw [nodeAt, Arena.place]
    omega
  rw [hpath]
  rw [← hroot₁, ← hlimit₁] at hroom
  have hself : update file (ws ++ [filename e.path]) (some (o, e.content.length))
      (ws ++ [filename e.path]) = some (o, e.content.length) := update_self ..
  have hnode : ({ name := filename e.path, flags := fsFile, length := e.content.length
                  parent := nodeAt t₁.root (Arena.touchFrom P [] ws) ws } : Node) =
      nodeOf t₁.root (Arena.touchFrom P [] ws ++ [ws ++ [filename e.path]])
        (update file (ws ++ [filename e.path]) (some (o, e.content.length)))
        (ws ++ [filename e.path]) := by
    rw [nodeOf_new hws, hself]
    rfl
  have hdata : o = ((update file (ws ++ [filename e.path]) (some (o, e.content.length))
      (ws ++ [filename e.path])).map Prod.fst).getD 0 := by
    rw [hself]
    rfl
  obtain ⟨t', hadd, h', hroot', hlimit'⟩ :=
    h₁.make hws hnew' hroom hnode hdata (fun q hq => update_of_ne hq _ _)
  refine ⟨t', ?_, h', hroot'.trans hroot₁, hlimit'.trans hlimit₁⟩
  rw [addEntry, hfind, ok_bind]
  dsimp only
  rw [assert, if_pos (by simpa using hparent), ok_bind, ← hroot₁, hadd, ok_bind,
    List.length_append, List.length_singleton]
  have hcount : P.length + made + 1 = (Arena.touchFrom P [] ws).length + 1 := by omega
  rw [← hcount]
  rfl

theorem names_notMem_pathsOf {done rest : List Entry} {e : Entry}
    (hw : WellFormed (done ++ e :: rest))
    (hdistinct : ((done ++ e :: rest).map (fun e => Vfs.names e.path)).Nodup) :
    Vfs.names e.path ∉ pathsOf done := by
  have he : e ∈ done ++ e :: rest := by simp
  rw [mem_pathsOf, not_or]
  constructor
  · obtain ⟨ws, hws⟩ := exists_names (hw.full e he)
    rw [hws]
    simp
  · rintro ⟨f, hf, hinit⟩
    have heq := hw.leaves e he f (by simp [hf]) hinit
    rw [List.map_append, List.nodup_append] at hdistinct
    refine hdistinct.2.2 _ (List.mem_map_of_mem hf) _ ?_ heq.symm
    rw [List.map_cons]
    exact List.mem_cons_self

theorem filesFrom_concat_eq_update {es : List Entry} {e : Entry}
    (hnone : filesFrom 0 es (Vfs.names e.path) = none) :
    filesFrom 0 (es ++ [e]) =
      update (filesFrom 0 es) (Vfs.names e.path) (some (total es, e.content.length)) := by
  funext q
  rw [filesFrom_concat, Nat.zero_add]
  by_cases hq : q = Vfs.names e.path
  · rw [hq, update_self, hnone, if_pos rfl, Option.none_or]
  · rw [update_of_ne hq, if_neg (Ne.symm hq), Option.or_none]

theorem addEntries_spec {done rest : List Entry} (hw : WellFormed (done ++ rest))
    (hdistinct : ((done ++ rest).map (fun e => Vfs.names e.path)).Nodup)
    (h : Built t (pathsOf done) (filesFrom 0 done))
    (hroom : t.root + sizeofNode * (pathsOf (done ++ rest)).length ≤ t.limit)
    (htotal : total (done ++ rest) < wordSize) :
    ∃ t', rest.foldlM addEntry (t, (pathsOf done).length, total done) =
        .ok (t', (pathsOf (done ++ rest)).length, total (done ++ rest)) ∧
      Built t' (pathsOf (done ++ rest)) (filesFrom 0 (done ++ rest)) ∧ t'.root = t.root := by
  induction rest generalizing t done with
  | nil =>
    rw [List.append_nil]
    exact ⟨t, rfl, h, rfl⟩
  | cons e rest ih =>
    have he : e ∈ done ++ e :: rest := by simp
    have hnew := names_notMem_pathsOf hw hdistinct
    obtain ⟨ws, hws⟩ := exists_names (hw.full e he)
    have hassoc : done ++ e :: rest = done ++ [e] ++ rest := by simp
    rw [hassoc] at hw hdistinct hroom htotal ⊢
    have hle := (pathsOf_initial (done ++ [e]) rest).length_le
    obtain ⟨t₁, hadd, h₁, hroot₁, hlimit₁⟩ := addEntry_spec (o := total done) h hws
      (hw.short e (by simp)) hnew (by
        rw [← pathsOf_concat]
        unfold sizeofNode at hroom ⊢
        omega)
    have hsum : (total done + e.content.length) % wordSize = total (done ++ [e]) := by
      rw [← total_concat, Nat.mod_eq_of_lt]
      rw [total, List.flatMap_append, List.length_append] at htotal
      exact Nat.lt_of_le_of_lt (Nat.le_add_right _ _) htotal
    rw [← pathsOf_concat, hsum] at hadd
    rw [← pathsOf_concat, ← filesFrom_concat_eq_update (h.outside _ hnew)] at h₁
    rw [← hroot₁, ← hlimit₁] at hroom
    obtain ⟨t', hfold, h', hroot'⟩ := ih hw hdistinct h₁ hroom htotal
    rw [List.foldlM_cons, hadd, ok_bind]
    exact ⟨t', hfold, h', hroot'.trans hroot₁⟩

theorem Built.start {vfs : Vfs.State} {data : Nat → Nat} {root limit : Nat} (hroot : root ≠ 0)
    (hroom : root + sizeofNode ≤ limit) (hlimit : limit ≤ wordSize) :
    ∃ t, Tool.newNode { vfs, data, root, pNode := root, limit } { flags := fsDirectory } 0 =
        .ok (root, t) ∧
      Built t (pathsOf []) (filesFrom 0 []) ∧ t.root = root ∧ t.limit = limit := by
  have hplace : nodeAt root (pathsOf []) [] = root := Arena.place_nil (Arena.rooted_layout [])
  have hkids : Arena.kids (pathsOf []) [] = [] := rfl
  obtain ⟨s, hs⟩ : ∃ s, s = vfs.modify root (fun _ => ({ flags := fsDirectory } : Node)) :=
    ⟨_, rfl⟩
  have hself : s.nodes root = { flags := fsDirectory } := by rw [hs, Vfs.State.modify_self]
  refine ⟨{ vfs := s, data := update data root 0, root, pNode := root + sizeofNode,
            limit },
    ?_, ⟨⟨⟨Arena.rooted_layout [], fun d hd => ?_⟩, fun q hq => ?_⟩, fun q hq => ?_,
    fun _ _ => rfl, hroot, rfl, hlimit⟩, rfl, rfl⟩
  · rw [Tool.newNode, if_neg (Nat.not_lt.mpr hroom), hs]
  · rw [List.mem_singleton.mp hd, hkids]
    show (s.nodes (nodeAt root (pathsOf []) [])).ptr = 0
    rw [hplace, hself]
  · rw [List.mem_singleton.mp hq, hplace, hself]
    rfl
  · rw [List.mem_singleton.mp hq, hplace]
    exact update_self ..

/-- The image that the tool writes, from its memory after the last entry. -/
def imageOf (t : Tool) (entries : List Entry) : Image :=
  { magic := 0x42424242
    sz := (pathsOf entries).length
    nodes := (List.range (pathsOf entries).length).map
      (imageNode t (sizeofHeader + sizeofNode * (pathsOf entries).length))
    contents := entries.flatMap Entry.content }

theorem mkinitrd_spec (vfs : Vfs.State) (data : Nat → Nat) {root : Nat} (hw : WellFormed entries)
    (hdistinct : (entries.map (fun e => Vfs.names e.path)).Nodup)
    (hnodes : (pathsOf entries).length ≤ entries.length * 5) (hroot : root ≠ 0)
    (hlimit : root + sizeofNode * (entries.length * 5) ≤ wordSize)
    (htotal : total entries < wordSize) :
    ∃ t, mkinitrd vfs data root entries = .ok (some (imageOf t entries)) ∧
      Built t (pathsOf entries) (filesFrom 0 entries) ∧ t.root = root := by
  have hpos : 0 < (pathsOf entries).length :=
    List.length_pos_of_mem (Arena.rooted_layout _).nil_mem
  have hmul : sizeofNode * (pathsOf entries).length ≤ sizeofNode * (entries.length * 5) :=
    Nat.mul_le_mul_left _ hnodes
  have hfirst : root + sizeofNode ≤ root + sizeofNode * (entries.length * 5) := by
    unfold sizeofNode at hmul ⊢
    omega
  obtain ⟨t₀, hnew, h₀, hroot₀, hlimit₀⟩ := Built.start hroot hfirst hlimit
  have hroom : t₀.root + sizeofNode * (pathsOf ([] ++ entries)).length ≤ t₀.limit := by
    rw [hroot₀, hlimit₀]
    exact Nat.add_le_add_left hmul _
  have hw' : WellFormed ([] ++ entries) := hw
  obtain ⟨t, hfold, h, hroot'⟩ := addEntries_spec hw' hdistinct h₀ hroom htotal
  refine ⟨t, ?_, h, hroot'.trans hroot₀⟩
  rw [mkinitrd, if_neg hroot]
  dsimp only
  rw [hnew, ok_bind]
  dsimp only
  have hfold' : entries.foldlM addEntry (t₀, 1, 0) =
      .ok (t, (pathsOf entries).length, total entries) := hfold
  rw [hfold', ok_bind]
  rfl

end Main

end Hydrax.Initrd
