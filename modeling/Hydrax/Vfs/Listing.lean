import Hydrax.Transition
import Hydrax.Vfs.Node

/-!
# Directories

What `vfs_mknod` and `vfs_rmnod` make of the lists of children, and what `vfs_readdir` and
`vfs_finddir` see of them. `Tree s children` says that the nodes attached to each node are those of
`children`, in that order.

`vfs_finddir` walks the lists. `vfs_readdir` goes over from the root's own children to those of the
mounted file system at index `vfs_root_nodes`, a counter that `vfs_mknod` counts up and `vfs_rmnod`
does not count down.

* `listing_iff` — when the two see the nodes that are attached, over every run.
-/

namespace Hydrax.Vfs

open Loop
open Function (update update_of_ne update_self)

variable {d fuel node : Nat} {l : List Nat}

/-! ## Lists of nodes -/

/-- The nodes met from `a` on are those of `l`. -/
abbrev Nodes (nodes : Nat → Node) (a : Nat) (l : List Nat) : Prop :=
  Chain (fun x => (nodes x).next) 0 a l

section Lists

variable {nodes : Nat → Node} {a : Nat} {l : List Nat}

theorem findName_eq (h : Nodes nodes a l) (hfuel : l.length < fuel) (w : List Char) :
    findName nodes (some w) fuel a = .ok ((l.find? (fun n => (nodes n).name = w)).getD 0) := by
  induction l, fuel, hfuel using fuel_induction generalizing a with
  | nil fuel =>
    have ha : a = 0 := h
    rw [findName, if_pos ha]
    rfl
  | cons x l fuel hfuel ih =>
    obtain ⟨rfl, ha, hrest⟩ := h
    rw [findName, if_neg ha]
    by_cases hw : (nodes a).name = w
    · simp [hw]
    · rw [if_neg hw, ih hrest]
      simp [hw]

theorem lastFrom_eq {x : Nat} (h : Nodes nodes a (l ++ [x])) (hfuel : l.length < fuel) :
    lastFrom nodes fuel a = .ok x := by
  induction l, fuel, hfuel using fuel_induction generalizing a with
  | nil fuel =>
    obtain ⟨rfl, -, hend⟩ := h
    have hnext : (nodes a).next = 0 := hend
    rw [lastFrom, if_pos hnext]
  | cons y l fuel hfuel ih =>
    obtain ⟨rfl, -, hrest⟩ := h
    have hnext : (nodes a).next ≠ 0 := by
      intro h0
      have := hrest.eq_nil_iff.mpr h0
      simp at this
    rw [lastFrom, if_neg hnext]
    exact ih hrest

theorem seekSibling_of_mem {p q : List Nat} (h : Nodes nodes a (p ++ node :: q))
    (hfuel : p.length < fuel) (sibling : Nat) :
    seekSibling nodes node fuel a sibling = .ok (node, p.getLastD sibling) := by
  induction p, fuel, hfuel using fuel_induction generalizing a sibling with
  | nil fuel =>
    obtain ⟨rfl, -, -⟩ := h
    rw [seekSibling, if_pos (Or.inr rfl)]
    rfl
  | cons y p fuel hfuel ih =>
    have hnodup := h.nodup
    obtain ⟨rfl, ha, hrest⟩ := h
    have hne : a ≠ node := by
      rintro rfl
      simp at hnodup
    rw [seekSibling, if_neg (by simp [ha, hne]), ih hrest]
    rw [List.getLastD_cons]

theorem seekSibling_of_notMem (h : Nodes nodes a l) (hnode : node ∉ l)
    (hfuel : l.length < fuel) (sibling : Nat) :
    ∃ last, seekSibling nodes node fuel a sibling = .ok (0, last) := by
  induction l, fuel, hfuel using fuel_induction generalizing a sibling with
  | nil fuel =>
    have ha : a = 0 := h
    exact ⟨sibling, by rw [seekSibling, if_pos (Or.inl ha), ha]⟩
  | cons y l fuel hfuel ih =>
    obtain ⟨rfl, ha, hrest⟩ := h
    rw [List.mem_cons, not_or] at hnode
    rw [seekSibling, if_neg (by simp [ha, Ne.symm hnode.1])]
    exact ih hrest hnode.2 a

theorem nodeAt_eq (h : Nodes nodes a l) (index : Nat) : nodeAt nodes a index = l[index]? := by
  induction l generalizing a index with
  | nil =>
    have ha : a = 0 := h
    rw [nodeAt, if_pos ha]
    rfl
  | cons x l ih =>
    obtain ⟨rfl, ha, hrest⟩ := h
    rw [nodeAt, if_neg ha]
    cases index with
    | zero => rfl
    | succ index =>
      rw [List.getElem?_cons_succ, ← ih hrest, skipNodes, nodeAt]

end Lists

/-! ## Attaching and removing -/

/-- **Putting a node behind the others**: one link changes. -/
theorem appendNode_spec {s : State} {p : Nat}
    (h : Nodes s.nodes (s.nodes p).ptr l) (hlen : l.length < listFuel) (hnode : node ≠ 0)
    (hend : (s.nodes node).next = 0) (hfree : node ∉ l) :
    ∃ s', appendNode s p node = .ok s' ∧ Nodes s'.nodes (s'.nodes p).ptr (l ++ [node]) ∧
      (∀ d, d ≠ p → (s'.nodes d).ptr = (s.nodes d).ptr) ∧
      (∀ x, x ∉ l → (s'.nodes x).next = (s.nodes x).next) ∧
      (∀ x, (s'.nodes x).unlinked = (s.nodes x).unlinked) ∧
      s'.root = s.root ∧ s'.rootMount = s.rootMount ∧ s'.rootNodes = s.rootNodes := by
  unfold appendNode
  rcases List.eq_nil_or_concat l with rfl | ⟨l, last, rfl⟩
  · -- the first child
    have hptr : (s.nodes p).ptr = 0 := h
    rw [if_pos hptr]
    refine ⟨_, rfl, ?_, fun d hd => ?_, fun x _ => ?_, fun x => ?_, rfl, rfl, rfl⟩
    · rw [State.setPtr_ptr, if_pos rfl]
      exact ⟨rfl, hnode, (s.setPtr_next p node node).trans hend⟩
    · rw [State.setPtr_ptr, if_neg hd]
    · exact s.setPtr_next p node x
    · exact s.modify_view Node.unlinked (by rfl) x
  · -- a child after `last`
    rw [List.concat_eq_append] at h hlen hfree ⊢
    have hptr : (s.nodes p).ptr ≠ 0 := by
      intro h0
      have := h.eq_nil_iff.mpr h0
      simp at this
    rw [List.length_append] at hlen
    rw [if_neg hptr, lastFrom_eq h (by omega)]
    refine ⟨_, rfl, ?_, fun d _ => ?_, fun x hx => ?_, fun x => ?_, rfl, rfl, rfl⟩
    · rw [List.append_assoc, State.setNext_ptr]
      have hnodup := h.nodup
      refine h.append_cell hnode (by simp) ?_ (fun y hy => ?_)
      · have hne : node ≠ last := fun heq => hfree (by simp [heq])
        rw [State.setNext_next, if_neg hne, hend]
      · have hne : y ≠ last := by
          rintro rfl
          exact (List.nodup_append.mp hnodup).2.2 y hy y (by simp) rfl
        rw [State.setNext_next, if_neg hne]
    · exact s.setNext_ptr last node d
    · have hne : x ≠ last := fun heq => hx (by simp [heq])
      rw [State.setNext_next, if_neg hne]
    · exact s.modify_view Node.unlinked (by rfl) x

structure Tree (s : State) (children : Nat → List Nat) : Prop where
  chain : ∀ d, d ≠ 0 → Nodes s.nodes (s.nodes d).ptr (children d)
  parent : ∀ d, ∀ x ∈ children d, (s.nodes x).parent = d
  addresses : ∀ d, ∀ x ∈ children d, x < wordSize

section Changes

variable {s s' : State} {children : Nat → List Nat} {p node : Nat}

theorem Tree.length_lt (h : Tree s children) (hd : d ≠ 0) : (children d).length < listFuel :=
  (h.chain d hd).length_lt (by decide) (h.addresses d)

theorem Tree.ne_of_mem (h : Tree s children) {d' x y : Nat} (hd : d ≠ d') (hx : x ∈ children d)
    (hy : y ∈ children d') : x ≠ y := by
  rintro rfl
  exact hd ((h.parent d x hx).symm.trans (h.parent d' x hy))

theorem Tree.change (h : Tree s children) (hchain : Nodes s'.nodes (s'.nodes p).ptr l)
    (hl : ∀ x ∈ l, (s'.nodes x).parent = p ∧ x < wordSize)
    (hptr : ∀ d, d ≠ p → (s'.nodes d).ptr = (s.nodes d).ptr)
    (hnext : ∀ x, x ∉ children p → (s'.nodes x).next = (s.nodes x).next)
    (hparent : ∀ d, d ≠ p → ∀ x ∈ children d, (s'.nodes x).parent = (s.nodes x).parent) :
    Tree s' (update children p l) where
  chain d hd := by
    by_cases hdp : d = p
    · subst hdp
      rw [update_self]
      exact hchain
    · rw [update_of_ne hdp, hptr d hdp]
      refine (h.chain d hd).congr (fun x hx => hnext x (fun hxp => ?_))
      exact h.ne_of_mem hdp hx hxp rfl
  parent d x hx := by
    by_cases hdp : d = p
    · subst hdp
      rw [update_self] at hx
      exact (hl x hx).1
    · rw [update_of_ne hdp] at hx
      rw [hparent d hdp x hx]
      exact h.parent d x hx
  addresses d x hx := by
    by_cases hdp : d = p
    · subst hdp
      rw [update_self] at hx
      exact (hl x hx).2
    · rw [update_of_ne hdp] at hx
      exact h.addresses d x hx

theorem Tree.appendNode (h : Tree s children) (hp : p ≠ 0) (hnode : node ≠ 0)
    (hend : (s.nodes node).next = 0) (hparent : (s.nodes node).parent = p)
    (hfree : ∀ d, node ∉ children d) (haddr : node < wordSize) :
    ∃ s', appendNode s p node = .ok s' ∧
      s'.root = s.root ∧ s'.rootMount = s.rootMount ∧ s'.rootNodes = s.rootNodes ∧
      Tree s' (update children p (children p ++ [node])) := by
  obtain ⟨s', hcall, hchain, hptr, hnext, hrest, hroot, hmount, hcount⟩ :=
    appendNode_spec (h.chain p hp) (h.length_lt hp) hnode hend (hfree p)
  have hparents : ∀ x, (s'.nodes x).parent = (s.nodes x).parent := by
    intro x
    have hview := congrArg Node.parent (hrest x)
    exact hview
  refine ⟨s', hcall, hroot, hmount, hcount, h.change hchain ?_ hptr hnext fun d _ x _ => hparents x⟩
  intro x hx
  rw [hparents x]
  rcases List.mem_append.mp hx with hx | hx
  · exact ⟨h.parent p x hx, h.addresses p x hx⟩
  · rw [List.mem_singleton.mp hx]
    exact ⟨hparent, haddr⟩

/-- The node that `vfs_mknod` attaches to. -/
def parentOf (s : State) (parent : Nat) : Nat := if parent = 0 then s.root else parent

/-- **`vfs_mknod`** attaches a node behind the others, or it refuses to and changes nothing. -/
theorem Tree.mknod (h : Tree s children) (hroot : s.root ≠ 0) (hfree : ∀ d, node ∉ children d)
    (haddr : node < wordSize) {parent : Nat} {r : Int} (hcall : mknod s parent node = .ok (r, s')) :
    (r ≠ 0 ∧ s' = s) ∨ r = 0 ∧ s'.root = s.root ∧ s'.rootMount = s.rootMount ∧
      s'.rootNodes = (if parentOf s parent = s.root then incr s.rootNodes else s.rootNodes) ∧
      Tree s' (update children (parentOf s parent)
        (children (parentOf s parent) ++ [node])) := by
  obtain ⟨_, hnode, hcall⟩ := bind_eq_ok.mp hcall
  obtain ⟨_, hend, hcall⟩ := bind_eq_ok.mp hcall
  rw [assert_eq_ok, decide_eq_true_iff] at hnode hend
  change (if (s.nodes (parentOf s parent)).flags &&& fsDirectory = 0 then _ else _) = _ at hcall
  have hp : parentOf s parent ≠ 0 := by
    unfold parentOf
    split
    next => exact hroot
    next hne => exact hne
  split at hcall
  next =>
    cases hcall
    exact Or.inl ⟨by decide, rfl⟩
  next =>
    right
    have hset : Tree (s.setParent node (parentOf s parent)) children := by
      refine ⟨fun d hd => ?_, fun d x hx => ?_, h.addresses⟩
      · rw [State.setParent_ptr]
        exact (h.chain d hd).congr (by simp)
      · have hne : x ≠ node := fun heq => hfree d (heq ▸ hx)
        rw [State.setParent_parent, if_neg hne]
        exact h.parent d x hx
    obtain ⟨s₁, happend, hsame⟩ :=
      hset.appendNode hp hnode (by simpa using hend) (by simp) hfree haddr
    obtain ⟨_, hcall₁, hcall⟩ := bind_eq_ok.mp hcall
    cases happend.symm.trans hcall₁
    cases hcall
    obtain ⟨hroot', hmount, hcount, htree⟩ := hsame
    refine ⟨rfl, hroot', hmount, ?_, htree.chain, htree.parent, htree.addresses⟩
    show (if parentOf s parent = s₁.root then incr s₁.rootNodes else s₁.rootNodes) = _
    rw [hroot', hcount]
    rfl

theorem Tree.unlinkNode (h : Tree s children) {q : List Nat} (hp : (s.nodes node).parent ≠ 0)
    (hsplit : children (s.nodes node).parent = l ++ node :: q) :
    Tree (unlinkNode s node (l.getLastD 0))
      (update children (s.nodes node).parent (l ++ q)) := by
  have hchain := h.chain _ hp
  rw [hsplit] at hchain
  have hnot : node ∉ l ++ q := (List.nodup_cons.mp (List.nodup_middle.mp hchain.nodup)).1
  have hmem : ∀ x ∈ l ++ q, (s.nodes x).parent = (s.nodes node).parent ∧ x < wordSize := by
    intro x hx
    have hx' : x ∈ children (s.nodes node).parent := by
      rw [hsplit, List.mem_append, List.mem_cons]
      rcases List.mem_append.mp hx with hx | hx
      · exact Or.inl hx
      · exact Or.inr (Or.inr hx)
    exact ⟨h.parent _ x hx', h.addresses _ x hx'⟩
  have hne : ∀ x, x ∉ children (s.nodes node).parent → x ≠ node := by
    rintro x hx rfl
    rw [hsplit] at hx
    simp at hx
  unfold Vfs.unlinkNode
  dsimp only
  rcases List.eq_nil_or_concat l with rfl | ⟨l, b, rfl⟩
  · -- the first child
    rw [List.nil_append] at hnot
    rw [List.getLastD_nil, if_pos rfl]
    refine h.change ?_ ?_ ?_ ?_ ?_
    · rw [State.setNext_ptr, State.setPtr_ptr, if_pos rfl]
      refine hchain.unlink_first (fun y hy => ?_)
      have hy' : y ≠ node := fun heq => hnot (heq ▸ hy)
      simp [hy']
    · simpa using hmem
    · intro d hd
      simp [hd]
    · intro x hx
      simp [hne x hx]
    · intro d _ x _
      simp
  · -- a child after `b`
    rw [List.concat_eq_append] at hchain hnot hmem hsplit ⊢
    have hb : b ≠ 0 := hchain.ne_null (by simp)
    have hbnode : b ≠ node := fun heq => hnot (by simp [heq])
    rw [List.getLastD_concat, if_neg hb]
    refine h.change ?_ ?_ ?_ ?_ ?_
    · rw [State.setNext_ptr, State.setNext_ptr, List.append_assoc]
      rw [List.append_assoc] at hchain
      have hbnot : b ∉ l ++ node :: q :=
        (List.nodup_cons.mp (List.nodup_middle.mp hchain.nodup)).1
      have hkeep : ∀ y ∈ l ++ q, y ≠ b ∧ y ≠ node := by
        refine fun y hy => ⟨?_, ?_⟩
        · rintro rfl
          apply hbnot
          rcases List.mem_append.mp hy with hy | hy <;> simp [hy]
        · rintro rfl
          apply hnot
          rcases List.mem_append.mp hy with hy | hy <;> simp [hy]
      refine hchain.unlink ?_ (fun y hy => ?_) (fun y hy => ?_)
      · simp [hbnode]
      · have := hkeep y (List.mem_append_left _ hy)
        simp [this]
      · have := hkeep y (List.mem_append_right _ hy)
        simp [this]
    · simpa using hmem
    · intro d _
      simp
    · intro x hx
      have hxb : x ≠ b := by
        rintro rfl
        rw [hsplit] at hx
        simp at hx
      simp [hne x hx, hxb]
    · intro d _ x _
      simp

/-- **`vfs_rmnod`** takes a node out of the list of its parent, or it changes nothing. -/
theorem Tree.rmnod (h : Tree s children) {r : Int} (hcall : rmnod s node = .ok (r, s')) :
    (r ≠ 0 ∧ s' = s) ∨ r = 0 ∧ s'.root = s.root ∧ s'.rootMount = s.rootMount ∧
      s'.rootNodes = s.rootNodes ∧ node ∈ children (s.nodes node).parent ∧
      Tree s' (update children (s.nodes node).parent
        ((children (s.nodes node).parent).erase node)) := by
  obtain ⟨_, _, hcall⟩ := bind_eq_ok.mp hcall
  obtain ⟨_, hp, hcall⟩ := bind_eq_ok.mp hcall
  rw [assert_eq_ok, decide_eq_true_iff] at hp
  have hchain := h.chain _ hp
  split at hcall
  next =>
    cases hcall
    exact Or.inl ⟨by decide, rfl⟩
  next =>
    by_cases hmem : node ∈ children (s.nodes node).parent
    · obtain ⟨l, q, hsplit⟩ := List.append_of_mem hmem
      have hlength := h.length_lt hp
      rw [hsplit] at hchain hlength
      rw [seekSibling_of_mem hchain (by rw [List.length_append] at hlength; omega),
        ok_bind] at hcall
      have hnode : node ≠ 0 := hchain.ne_null (by simp)
      dsimp only at hcall
      rw [if_neg hnode] at hcall
      cases hcall
      have hnot : node ∉ l := by
        have := hchain.nodup
        rw [List.nodup_middle, List.nodup_cons, List.mem_append, not_or] at this
        exact this.1.1
      have herase : (children (s.nodes node).parent).erase node = l ++ q := by
        rw [hsplit, List.erase_append_right _ hnot, List.erase_cons_head]
      refine Or.inr ⟨rfl, ?_, ?_, ?_, hmem, ?_⟩
      · unfold Vfs.unlinkNode
        split <;> rfl
      · unfold Vfs.unlinkNode
        split <;> rfl
      · unfold Vfs.unlinkNode
        split <;> rfl
      · rw [herase]
        exact h.unlinkNode hp hsplit
    · obtain ⟨last, hseek⟩ := seekSibling_of_notMem hchain hmem (h.length_lt hp) 0
      rw [hseek, ok_bind] at hcall
      cases hcall
      exact Or.inl ⟨by decide, rfl⟩

end Changes

/-! ## Looking up a name -/

def entries (s : State) (children : Nat → List Nat) (d : Nat) : List Nat :=
  if d = s.root then children s.root ++ children s.rootMount else children d

structure IsDirectory (s : State) (d : Nat) : Prop where
  flags : (s.nodes d).flags &&& 7 = fsDirectory
  finddir : (s.nodes d).finddirOp = none
  readdir : (s.nodes d).readdirOp = none

section Lookup

variable {s : State} {children : Nat → List Nat} {d : Nat}

theorem Tree.findName (h : Tree s children) (hd : d ≠ 0) (w : List Char) :
    findName s.nodes (some w) listFuel (s.nodes d).ptr =
      .ok (((children d).find? (fun n => (s.nodes n).name = w)).getD 0) :=
  findName_eq (h.chain d hd) (h.length_lt hd) w

theorem Tree.ne_zero_of_find (h : Tree s children) (hd : d ≠ 0) {f : Nat → Bool} {n : Nat}
    (hfind : (children d).find? f = some n) : n ≠ 0 :=
  (h.chain d hd).ne_null (List.mem_of_find?_eq_some hfind)

/-- **`vfs_finddir`** gives the first node of that name. -/
theorem Tree.finddir (h : Tree s children) (hmount : s.rootMount ≠ 0) (hd : d ≠ 0)
    (hflags : (s.nodes d).flags &&& 7 = fsDirectory) (hop : (s.nodes d).finddirOp = none)
    (w : List Char) : finddir s d (some w) =
      .ok (((entries s children d).find? (fun n => (s.nodes n).name = w)).getD 0) := by
  unfold Vfs.finddir entries
  dsimp only
  rw [if_neg hd, hop]
  dsimp only
  rw [if_pos hflags, h.findName hd, ok_bind]
  by_cases hroot : d = s.root
  · rw [if_pos hroot, if_pos hroot, ← hroot, List.find?_append]
    cases hfind : (children d).find? (fun n => (s.nodes n).name = w) with
    | none => rw [if_neg (by simp), if_neg hmount, h.findName hmount, Option.none_or]
    | some n =>
      rw [Option.getD_some, if_pos (h.ne_zero_of_find hd hfind), Option.some_or, Option.getD_some]
      rfl
  · rw [if_neg hroot, if_neg hroot]
    cases hfind : (children d).find? (fun n => (s.nodes n).name = w) with
    | none => rfl
    | some n =>
      rw [Option.getD_some, if_pos (h.ne_zero_of_find hd hfind)]
      rfl

end Lookup

/-! ## Runs -/

/-- A tree with what is attached in it, and how often a child of the root was removed. -/
structure Run where
  vfs : State
  children : Nat → List Nat
  removed : Nat := 0

inductive NodeCall where
  | mknod (parent node : Nat)
  | rmnod (node : Nat)
  deriving DecidableEq, Repr

/-- A call. A node is attached by a call of `vfs_mknod` that returns 0 and removed by a call of
`vfs_rmnod` that does. -/
inductive RunStep : Run → NodeCall → Run → Prop where
  | mknod {r : Run} {parent node : Nat} {x : Int} {s' : State} (hfree : ∀ d, node ∉ r.children d)
      (haddr : node < wordSize) (h : mknod r.vfs parent node = .ok (x, s')) :
      RunStep r (.mknod parent node)
        { r with
          vfs := s'
          children :=
            if x = 0 then
              update r.children (parentOf r.vfs parent)
                (r.children (parentOf r.vfs parent) ++ [node])
            else r.children }
  | rmnod {r : Run} {node : Nat} {x : Int} {s' : State} (h : rmnod r.vfs node = .ok (x, s')) :
      RunStep r (.rmnod node)
        { vfs := s'
          children :=
            if x = 0 then
              update r.children (r.vfs.nodes node).parent
                ((r.children (r.vfs.nodes node).parent).erase node)
            else r.children
          removed :=
            if x = 0 ∧ (r.vfs.nodes node).parent = r.vfs.root then r.removed + 1 else r.removed }

/-- The tree after `vfs_init`: the root has no child of its own, and a file system is mounted. -/
structure Mounted (r : Run) : Prop where
  tree : Tree r.vfs r.children
  root : r.vfs.root ≠ 0
  mount : r.vfs.rootMount ≠ 0
  apart : r.vfs.root ≠ r.vfs.rootMount
  empty : r.children r.vfs.root = []
  rootNodes : r.vfs.rootNodes = 0
  removed : r.removed = 0

/-- The counter counts the nodes that were ever attached to the root. -/
structure Run.Inv (r : Run) : Prop where
  tree : Tree r.vfs r.children
  root : r.vfs.root ≠ 0
  mount : r.vfs.rootMount ≠ 0
  apart : r.vfs.root ≠ r.vfs.rootMount
  rootNodes : r.vfs.rootNodes = ((r.children r.vfs.root).length + r.removed) % wordSize

theorem Mounted.inv {r : Run} (h : Mounted r) : r.Inv where
  tree := h.tree
  root := h.root
  mount := h.mount
  apart := h.apart
  rootNodes := by
    rw [h.empty, h.removed, h.rootNodes]
    rfl

section Runs

variable {r r' : Run} {c : NodeCall}

theorem Run.Inv.step (h : r.Inv) (hstep : RunStep r c r') : r'.Inv := by
  cases hstep with
  | @mknod parent node x s' hfree haddr hcall =>
    rcases h.tree.mknod h.root hfree haddr hcall with
      ⟨hx, rfl⟩ | ⟨rfl, hroot, hmount, hcount, htree⟩
    · simp only [if_neg hx]
      exact h
    · refine ⟨?_, ?_, ?_, ?_, ?_⟩
      · simpa using htree
      · simpa [hroot] using h.root
      · simpa [hmount] using h.mount
      · simpa [hroot, hmount] using h.apart
      · dsimp only
        rw [hcount, hroot, if_pos rfl]
        by_cases hp : parentOf r.vfs parent = r.vfs.root
        · rw [if_pos hp, hp, update_self, List.length_append, List.length_singleton,
            h.rootNodes, incr, Nat.mod_add_mod]
          congr 1
          omega
        · rw [if_neg hp, update_of_ne (Ne.symm hp), h.rootNodes]
  | @rmnod node x s' hcall =>
    rcases h.tree.rmnod hcall with ⟨hx, rfl⟩ | ⟨rfl, hroot, hmount, hcount, hmem, htree⟩
    · simp only [if_neg hx, if_neg (fun hand : x = 0 ∧ _ => hx hand.1)]
      exact h
    · refine ⟨?_, ?_, ?_, ?_, ?_⟩
      · simpa using htree
      · simpa [hroot] using h.root
      · simpa [hmount] using h.mount
      · simpa [hroot, hmount] using h.apart
      · dsimp only
        rw [hcount, hroot, if_pos rfl, h.rootNodes]
        by_cases hp : (r.vfs.nodes node).parent = r.vfs.root
        · rw [if_pos ⟨rfl, hp⟩, hp, update_self]
          rw [hp] at hmem
          have hlength := List.length_erase_of_mem hmem
          have hpos := List.length_pos_of_mem hmem
          congr 1
          omega
        · rw [if_neg (fun hand => hp hand.2), update_of_ne (Ne.symm hp)]

theorem Run.Inv.of_reach {r₀ : Run} (h₀ : Mounted r₀)
    (h : Reach RunStep (fun _ _ => True) r₀ r) : r.Inv :=
  h.invariant h₀.inv (fun hinv _ hstep => hinv.step hstep)

/-! ## What is seen -/

/-- `vfs_readdir` gives the entries of `l`, and then null. -/
def Lists (s : State) (d : Nat) (l : List Dirent) : Prop :=
  ∀ i ≤ l.length, readdir s d i = .ok l[i]?

/-- Listing and lookup see the nodes of a directory. -/
structure Run.Sees (r : Run) (d : Nat) : Prop where
  lists : Lists r.vfs d ((entries r.vfs r.children d).map (fun n => direntOf (r.vfs.nodes n)))
  once : (entries r.vfs r.children d).Nodup
  finds : ∀ w, finddir r.vfs d (some w) =
    .ok (((entries r.vfs r.children d).find? (fun n => (r.vfs.nodes n).name = w)).getD 0)

/-- The counter of the root has its place, or nothing comes after it. -/
def Run.Counted (r : Run) : Prop :=
  r.removed % wordSize = 0 ∨ r.children r.vfs.rootMount = [] ∧
    (r.children r.vfs.root).length + r.removed % wordSize < wordSize

theorem Run.Inv.once (h : r.Inv) (hd : d ≠ 0) : (entries r.vfs r.children d).Nodup := by
  unfold entries
  split
  next =>
    rw [List.nodup_append]
    refine ⟨(h.tree.chain _ h.root).nodup, (h.tree.chain _ h.mount).nodup, fun x hx y hy => ?_⟩
    exact h.tree.ne_of_mem h.apart hx hy
  next => exact (h.tree.chain d hd).nodup

theorem Run.Inv.readdir (h : r.Inv) (hd : d ≠ 0) (hdir : IsDirectory r.vfs d)
    (hroot : d ≠ r.vfs.root) (i : Nat) : readdir r.vfs d i =
      .ok ((r.children d)[i]?.map (fun n => direntOf (r.vfs.nodes n))) := by
  unfold Vfs.readdir
  dsimp only
  rw [if_neg hd, hdir.readdir]
  dsimp only
  rw [if_pos (Or.inl hroot), nodeAt_eq (h.tree.chain d hd)]

theorem Run.Inv.readdir_root (h : r.Inv) (hdir : IsDirectory r.vfs r.vfs.root) (i : Nat) :
    Vfs.readdir r.vfs r.vfs.root i =
      .ok ((if i < r.vfs.rootNodes then (r.children r.vfs.root)[i]?
        else (r.children r.vfs.rootMount)[i - r.vfs.rootNodes]?).map
          (fun n => direntOf (r.vfs.nodes n))) := by
  unfold Vfs.readdir
  dsimp only
  rw [if_neg h.root, hdir.readdir]
  dsimp only
  by_cases hi : i < r.vfs.rootNodes
  · rw [if_pos (Or.inr hi), if_pos hi, nodeAt_eq (h.tree.chain _ h.root)]
  · rw [if_neg (by simp [hi]), if_neg h.mount, if_neg hi, nodeAt_eq (h.tree.chain _ h.mount)]

theorem getElem?_joined_iff {α : Type} (own mounted : List α) (m : Nat) :
    (∀ i ≤ (own ++ mounted).length,
      (if i < m then own[i]? else mounted[i - m]?) = (own ++ mounted)[i]?) ↔
        m = own.length ∨ mounted = [] ∧ own.length < m := by
  constructor
  · intro h
    rcases Nat.lt_trichotomy m own.length with hlt | heq | hgt
    · -- the entry after the last mounted one is missing
      have hend := h (m + mounted.length) (by rw [List.length_append]; omega)
      rw [if_neg (by omega), Nat.add_sub_cancel_left, List.getElem?_eq_none (Nat.le_refl _),
        eq_comm, List.getElem?_eq_none_iff, List.length_append] at hend
      omega
    · exact Or.inl heq
    · -- the first mounted entry is missing
      have hnext := h own.length (by simp)
      rw [if_pos hgt, List.getElem?_eq_none (Nat.le_refl _), eq_comm,
        List.getElem?_eq_none_iff, List.length_append] at hnext
      exact Or.inr ⟨List.eq_nil_of_length_eq_zero (by omega), hgt⟩
  · rintro (rfl | ⟨rfl, hlt⟩) i hi
    · rw [List.getElem?_append]
    · rw [List.append_nil] at hi ⊢
      rw [if_pos (by omega)]

theorem Run.Inv.counted_iff (h : r.Inv) :
    (r.vfs.rootNodes = (r.children r.vfs.root).length ∨
      r.children r.vfs.rootMount = [] ∧ (r.children r.vfs.root).length < r.vfs.rootNodes) ↔
        r.Counted := by
  have hlt : (r.children r.vfs.root).length < wordSize := h.tree.length_lt h.root
  unfold Run.Counted
  rw [h.rootNodes]
  by_cases hempty : r.children r.vfs.rootMount = []
  · simp only [hempty, true_and]
    unfold wordSize at hlt ⊢
    omega
  · simp only [hempty, false_and, or_false]
    unfold wordSize at hlt ⊢
    omega

/-- **Listing and lookup see the same directory** unless children of the root were removed. Then
the counter of the root is too high, and the mounted entries are not listed. -/
theorem listing_iff {r₀ : Run} (h₀ : Mounted r₀) (hrun : Reach RunStep (fun _ _ => True) r₀ r)
    {d : Nat} (hd : d ≠ 0) (hdir : IsDirectory r.vfs d) :
    r.Sees d ↔ (d = r.vfs.root → r.Counted) := by
  have h := Run.Inv.of_reach h₀ hrun
  have hsees : r.Sees d ↔ Lists r.vfs d
      ((entries r.vfs r.children d).map (fun n => direntOf (r.vfs.nodes n))) :=
    ⟨Run.Sees.lists, fun hlists =>
      ⟨hlists, h.once hd, h.tree.finddir h.mount hd hdir.flags hdir.finddir⟩⟩
  rw [hsees]
  by_cases hroot : d = r.vfs.root
  · subst hroot
    have hjoined := getElem?_joined_iff
      ((r.children r.vfs.root).map (fun n => direntOf (r.vfs.nodes n)))
      ((r.children r.vfs.rootMount).map (fun n => direntOf (r.vfs.nodes n))) r.vfs.rootNodes
    rw [List.length_map, List.map_eq_nil_iff, h.counted_iff] at hjoined
    rw [eq_self, true_imp_iff, ← hjoined, Lists, entries, if_pos rfl, List.map_append]
    refine forall₂_congr (fun i _ => ?_)
    rw [h.readdir_root hdir, Except.ok.injEq, apply_ite (Option.map _), List.getElem?_map,
      List.getElem?_map]
  · refine iff_of_true (fun i _ => ?_) (fun heq => absurd heq hroot)
    rw [h.readdir hd hdir hroot, entries, if_neg hroot, List.getElem?_map]

end Runs

/-- A root at 16 without children, a mounted file system at 32 that has `bin`, and a node `dev` that
is not attached. -/
def smallTree : State :=
  { nodes := fun n =>
      if n = 16 then { flags := fsDirectory }
      else if n = 32 then { flags := fsDirectory, ptr := 48 }
      else if n = 48 then { name := ['b', 'i', 'n'], flags := fsDirectory, parent := 32 }
      else if n = 64 then { name := ['d', 'e', 'v'], flags := fsDirectory }
      else {}
    root := 16, rootMount := 32 }

def smallRun : Run := { vfs := smallTree, children := fun d => if d = 32 then [48] else [] }

theorem smallRun_mounted : Mounted smallRun where
  tree := by
    refine ⟨fun d _ => ?_, fun d x hx => ?_, fun d x hx => ?_⟩
    · by_cases hd : d = 32
      · subst hd
        exact ⟨rfl, by decide, rfl⟩
      · have hptr : (smallTree.nodes d).ptr = 0 := by
          unfold smallTree
          dsimp only
          rw [if_neg hd]
          split
          next => rfl
          next => split <;> [rfl; (split <;> rfl)]
        rw [show smallRun.children d = [] from if_neg hd]
        exact hptr
    · by_cases hd : d = 32
      · subst hd
        rw [List.mem_singleton.mp hx]
        rfl
      · rw [show smallRun.children d = [] from if_neg hd] at hx
        cases hx
    · by_cases hd : d = 32
      · subst hd
        rw [List.mem_singleton.mp hx]
        decide
      · rw [show smallRun.children d = [] from if_neg hd] at hx
        cases hx
  root := by decide
  mount := by decide
  apart := by decide
  empty := rfl
  rootNodes := rfl
  removed := rfl

theorem smallRun_free (d : Nat) : 64 ∉ smallRun.children d := by
  by_cases hd : d = 32
  · subst hd
    decide
  · rw [show smallRun.children d = [] from if_neg hd]
    exact List.not_mem_nil

/-- `dev` is attached to the root. -/
theorem listing_of_dev : ∃ r, Reach RunStep (fun _ _ => True) smallRun r ∧
    entries r.vfs r.children 16 = [64, 48] ∧ r.Sees 16 := by
  have hstart : Reach RunStep (fun _ _ => True) smallRun smallRun := .start
  have hmknod : mknod smallTree 0 64 = .ok (0, _) := rfl
  have hrun := hstart.step trivial (.mknod smallRun_free (by decide) hmknod)
  refine ⟨_, hrun, rfl, (listing_iff smallRun_mounted hrun (by decide) ⟨rfl, rfl, rfl⟩).mpr ?_⟩
  exact fun _ => Or.inl rfl

/-- **The mounted entries are not listed** after `dev` is attached and removed, although they are
found. -/
theorem listing_lost : ∃ r, Reach RunStep (fun _ _ => True) smallRun r ∧
    entries r.vfs r.children 16 = [48] ∧ readdir r.vfs 16 0 = .ok none ∧
    finddir r.vfs 16 (some ['b', 'i', 'n']) = .ok 48 ∧ ¬ r.Sees 16 := by
  have hstart : Reach RunStep (fun _ _ => True) smallRun smallRun := .start
  have hmknod : mknod smallTree 0 64 = .ok (0, _) := rfl
  have hattached := hstart.step trivial (.mknod smallRun_free (by decide) hmknod)
  have hremoved := hattached.step trivial (show RunStep _ (.rmnod 64) _ from .rmnod (x := 0) rfl)
  refine ⟨_, hremoved, rfl, rfl, rfl, fun h => ?_⟩
  have hfirst := h.lists 0 (Nat.zero_le _)
  cases hfirst

end Hydrax.Vfs
