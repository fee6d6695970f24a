import Hydrax.Vfs.Open

/-!
# Paths after boot

The tree that is there after boot: `vfs_init` makes the root, a relocated initrd is mounted at it,
and `vfs_mknod` attaches the nodes of the devices. No node brings an operation along, and only the
two roots have no parent.

* `Booted.tree_of_reach` — what every run of `vfs_mknod` leaves of that tree,
* `BootTree.chdir` — `chdir` goes to nodes of the tree only, but it goes to files as well,
* `boot_open_iff` — when `vfs_open` returns.
-/

namespace Hydrax.Vfs

open Loop

def enametoolong : Int := -6

/-- `chdir`. It does not look at the type of the node. -/
def chdir (s : State) (path : List Char) : Except Stop (Int × State) :=
  if path.length > maxPath then .ok (-1, { s with errno := enametoolong })
  else do
    let (node, s) ← vfsOpen s path
    if node = 0 then return (-1, { s with errno := enoent })
    else return (0, { s with cwd := node })

/-! ## The nodes of the tree -/

/-- The two roots, and what is attached to a node of the tree. -/
inductive Attached (s : State) (children : Nat → List Nat) : Nat → Prop where
  | root : Attached s children s.root
  | mount : Attached s children s.rootMount
  | child {d x : Nat} (hd : Attached s children d) (hx : x ∈ children d) : Attached s children x

/-- A tree without operations, in which the two roots have no parent. -/
structure BootTree (s : State) (children : Nat → List Nat) : Prop where
  tree : Tree s children
  root : s.root ≠ 0
  mount : s.rootMount ≠ 0
  top : (s.nodes s.root).parent = 0
  mountTop : (s.nodes s.rootMount).parent = 0
  ops : ∀ n, (s.nodes n).openOp = none ∧ (s.nodes n).finddirOp = none

/-- The walk along the components meets no `..` at the mounted root and no name at a node that is
not a directory. -/
def Steady (s : State) (children : Nat → List Nat) : Nat → List (List Char) → Prop
  | _, [] => True
  | node, w :: ws =>
    if w = ['.', '.'] then
      node = s.root ∨ node ≠ s.rootMount ∧ Steady s children (s.nodes node).parent ws
    else if w = ['.'] then Steady s children node ws
    else
      (s.nodes node).flags &&& 7 = fsDirectory ∧
        ∀ n, follow s children node w = some n → Steady s children n ws

section Tree

variable {s s' : State} {children : Nat → List Nat} {node : Nat} {w : List Char}
  {ws : List (List Char)}

theorem BootTree.vfs (h : BootTree s children) : VfsTree s children where
  tree := h.tree
  root := h.root
  mount := h.mount
  top := h.top
  lookup n _ := h.ops n

theorem Attached.ne_zero (ha : Attached s children node) (h : BootTree s children) : node ≠ 0 := by
  induction ha with
  | root => exact h.root
  | mount => exact h.mount
  | @child d x hd hx ih => exact (h.tree.chain d ih).ne_null hx

theorem Attached.parent (ha : Attached s children node) (h : BootTree s children) :
    (node = s.root ∨ node = s.rootMount) ∧ (s.nodes node).parent = 0 ∨
      Attached s children (s.nodes node).parent := by
  cases ha with
  | root => exact Or.inl ⟨Or.inl rfl, h.top⟩
  | mount => exact Or.inl ⟨Or.inr rfl, h.mountTop⟩
  | @child d _ hd hx =>
    rw [h.tree.parent d node hx]
    exact Or.inr hd

theorem Attached.of_entries (ha : Attached s children node) {n : Nat}
    (hn : n ∈ entries s children node) : Attached s children n := by
  unfold entries at hn
  split at hn
  next =>
    rcases List.mem_append.mp hn with hn | hn
    · exact .child .root hn
    · exact .child .mount hn
  next => exact .child ha hn

theorem Attached.follow (ha : Attached s children node) (h : BootTree s children) {n : Nat}
    (hn : follow s children node w = some n) : Attached s children n := by
  unfold Vfs.follow at hn
  split at hn
  next =>
    split at hn
    next => cases hn
    next hparent =>
      cases hn
      exact (ha.parent h).resolve_left (fun hand => hparent hand.2)
  next =>
    split at hn
    next =>
      cases hn
      exact ha
    next =>
      split at hn
      next => exact ha.of_entries (List.mem_of_find?_eq_some hn)
      next => cases hn

theorem BootTree.enter_of_not_directory (h : BootTree s children) (hnode : node ≠ 0)
    (hdotdot : w ≠ ['.', '.']) (hdot : w ≠ ['.'])
    (hdir : (s.nodes node).flags &&& 7 ≠ fsDirectory) : enter s node w = .error .nullDeref := by
  rw [enter, if_neg hdotdot, if_neg hdot, (h.ops node).1, finddir, if_neg hnode, (h.ops node).2]
  dsimp only
  rw [if_neg hdir]

/-- **Only the mounted root has no parent** where `vfs_open` asks for one. -/
theorem BootTree.steady_iff_safe (h : BootTree s children) (ha : Attached s children node) :
    Steady s children node ws ↔ Safe s children node ws := by
  induction ws generalizing node with
  | nil => exact Iff.rfl
  | cons w ws ih =>
    rw [Steady, Safe]
    by_cases hdotdot : w = ['.', '.']
    · rw [if_pos hdotdot, if_pos hdotdot]
      rcases ha.parent h with ⟨rfl | rfl, hparent⟩ | hparent
      · simp
      · simp [hparent]
      · have hne : node ≠ s.rootMount := by
          rintro rfl
          exact hparent.ne_zero h h.mountTop
        simp [hne, hparent.ne_zero h, ih hparent]
    · rw [if_neg hdotdot, if_neg hdotdot]
      by_cases hdot : w = ['.']
      · rw [if_pos hdot, if_pos hdot]
        exact ih ha
      · rw [if_neg hdot, if_neg hdot]
        by_cases hdir : (s.nodes node).flags &&& 7 = fsDirectory
        · rw [if_pos hdir, and_iff_right hdir]
          exact forall₂_congr (fun n hn => ih (ha.follow h hn))
        · rw [if_neg hdir]
          refine iff_of_false (fun hand => hdir hand.1) (fun hwalk => ?_)
          rw [walk, h.enter_of_not_directory (ha.ne_zero h) hdotdot hdot hdir] at hwalk
          cases hwalk

theorem BootTree.safe_of_walk (h : BootTree s children) (ha : Attached s children node) {n : Nat}
    (hwalk : walk s node ws = .ok n) : Safe s children node ws := by
  induction ws generalizing node with
  | nil => trivial
  | cons w ws ih =>
    rw [Safe]
    by_cases hdotdot : w = ['.', '.']
    · rw [if_pos hdotdot]
      rw [walk, enter, if_pos hdotdot] at hwalk
      by_cases hroot : node = s.root
      · exact Or.inl hroot
      · right
        rw [if_neg hroot] at hwalk
        by_cases hparent : (s.nodes node).parent = 0
        · rw [if_pos hparent] at hwalk
          cases hwalk
        · rw [if_neg hparent, ok_bind, if_neg hparent] at hwalk
          refine ⟨hparent, ih ((ha.parent h).resolve_left ?_) hwalk⟩
          exact fun hand => hparent hand.2
    · rw [if_neg hdotdot]
      by_cases hdot : w = ['.']
      · rw [if_pos hdot]
        rw [walk, enter, if_neg hdotdot, if_pos hdot, ok_bind,
          if_neg (ha.ne_zero h)] at hwalk
        exact ih ha hwalk
      · rw [if_neg hdot]
        by_cases hdir : (s.nodes node).flags &&& 7 = fsDirectory
        · rw [if_pos hdir]
          intro m hm
          rw [walk, h.vfs.enter_directory (ha.ne_zero h) hdotdot hdot hdir, hm, ok_bind,
            Option.getD_some, if_neg (h.vfs.follow_ne_zero (ha.ne_zero h) hm)] at hwalk
          exact ih (ha.follow h hm) hwalk
        · rw [walk, h.enter_of_not_directory (ha.ne_zero h) hdotdot hdot hdir] at hwalk
          cases hwalk

theorem BootTree.walk_iff (h : BootTree s children) (ha : Attached s children node) {n : Nat} :
    walk s node ws = .ok n ↔
      Steady s children node ws ∧ n = (resolve s children node ws).getD 0 := by
  rw [h.steady_iff_safe ha]
  constructor
  · intro hwalk
    have hsafe := h.safe_of_walk ha hwalk
    refine ⟨hsafe, ?_⟩
    rw [(h.vfs.walk_eq_resolve_iff (ha.ne_zero h)).mpr hsafe] at hwalk
    exact (Except.ok.inj hwalk).symm
  · rintro ⟨hsafe, rfl⟩
    exact (h.vfs.walk_eq_resolve_iff (ha.ne_zero h)).mpr hsafe

end Tree

/-! ## Booting -/

/-- The tree after `vfs_init`, with a relocated initrd mounted. -/
structure Booted (r : Run) : Prop extends Mounted r where
  top : (r.vfs.nodes r.vfs.root).parent = 0
  mountTop : (r.vfs.nodes r.vfs.rootMount).parent = 0
  ops : ∀ n, (r.vfs.nodes n).openOp = none ∧ (r.vfs.nodes n).finddirOp = none
  cwd : r.vfs.cwd = 0

/-- While the kernel boots, nodes of their own are attached and none is removed. -/
def BootCall (r : Run) : NodeCall → Prop
  | .mknod _ node => node ≠ r.vfs.root ∧ node ≠ r.vfs.rootMount
  | .rmnod _ => False

section Boot

variable {α : Type} (view : Node → α) {s s' : State} {parent node : Nat} {x : Int}

theorem appendNode_view (hptr : ∀ n y, view { n with ptr := y } = view n)
    (hnext : ∀ n y, view { n with next := y } = view n) (h : appendNode s parent node = .ok s')
    (n : Nat) : view (s'.nodes n) = view (s.nodes n) ∧ s'.cwd = s.cwd := by
  unfold appendNode at h
  split at h
  next =>
    cases h
    exact ⟨s.modify_view view (hptr _ _) n, rfl⟩
  next =>
    obtain ⟨tmp, -, h⟩ := bind_eq_ok.mp h
    cases h
    exact ⟨s.modify_view view (hnext _ _) n, rfl⟩

/-- **What `vfs_mknod` leaves of the nodes**, as far as the links do not show. -/
theorem mknod_view (hptr : ∀ n y, view { n with ptr := y } = view n)
    (hnext : ∀ n y, view { n with next := y } = view n) (h : mknod s parent node = .ok (x, s'))
    {n : Nat} (hparent : n ≠ node ∨ ∀ n y, view { n with parent := y } = view n) :
    view (s'.nodes n) = view (s.nodes n) ∧ s'.cwd = s.cwd := by
  obtain ⟨_, -, h⟩ := bind_eq_ok.mp h
  obtain ⟨_, -, h⟩ := bind_eq_ok.mp h
  change (if (s.nodes (parentOf s parent)).flags &&& fsDirectory = 0 then _ else _) = _ at h
  split at h
  next =>
    cases h
    exact ⟨rfl, rfl⟩
  next =>
    obtain ⟨s₁, happend, h⟩ := bind_eq_ok.mp h
    cases h
    obtain ⟨hview, hcwd⟩ := appendNode_view view hptr hnext happend n
    refine ⟨hview.trans ?_, hcwd⟩
    rcases hparent with hne | hparent
    · unfold State.setParent
      rw [State.modify_of_ne _ _ hne]
    · exact s.modify_view view (hparent _ _) n

theorem Booted.bootTree {r : Run} (h : Booted r) : BootTree r.vfs r.children where
  tree := h.toMounted.tree
  root := h.root
  mount := h.mount
  top := h.top
  mountTop := h.mountTop
  ops := h.ops

theorem BootTree.step {r r' : Run} {c : NodeCall} (h : BootTree r.vfs r.children)
    (hcwd : r.vfs.cwd = 0) (hok : BootCall r c) (hstep : RunStep r c r') :
    BootTree r'.vfs r'.children ∧ r'.vfs.cwd = 0 := by
  cases hstep with
  | rmnod => cases hok
  | @mknod parent node x s' hfree haddr hcall =>
    obtain ⟨hroot, hmount⟩ := hok
    rcases h.tree.mknod h.root hfree haddr hcall with
      ⟨hx, rfl⟩ | ⟨rfl, hroot', hmount', -, htree⟩
    · simp only [if_neg hx]
      exact ⟨h, hcwd⟩
    · have hparent : ∀ n, n ≠ node → (s'.nodes n).parent = (r.vfs.nodes n).parent := fun n hn =>
        (mknod_view Node.parent (fun _ _ => rfl) (fun _ _ => rfl) hcall (Or.inl hn)).1
      have hops : ∀ n, ((s'.nodes n).openOp, (s'.nodes n).finddirOp) =
          ((r.vfs.nodes n).openOp, (r.vfs.nodes n).finddirOp) := fun n =>
        (mknod_view (fun n => (n.openOp, n.finddirOp)) (fun _ _ => rfl) (fun _ _ => rfl) hcall
          (Or.inr fun _ _ => rfl)).1
      refine ⟨⟨by simpa using htree, ?_, ?_, ?_, ?_, fun n => ?_⟩, ?_⟩
      · exact hroot' ▸ h.root
      · exact hmount' ▸ h.mount
      · show (s'.nodes s'.root).parent = 0
        rw [hroot', hparent _ hroot.symm, h.top]
      · show (s'.nodes s'.rootMount).parent = 0
        rw [hmount', hparent _ hmount.symm, h.mountTop]
      · obtain ⟨hopen, hfinddir⟩ := Prod.ext_iff.mp (hops n)
        exact ⟨hopen.trans (h.ops n).1, hfinddir.trans (h.ops n).2⟩
      · exact (mknod_view Node.name (fun _ _ => rfl) (fun _ _ => rfl) hcall
          (n := 0) (Or.inr fun _ _ => rfl)).2.trans hcwd

theorem Booted.tree_of_reach {r₀ r : Run} (h₀ : Booted r₀) (h : Reach RunStep BootCall r₀ r) :
    BootTree r.vfs r.children ∧ r.vfs.cwd = 0 :=
  h.invariant (I := fun r => BootTree r.vfs r.children ∧ r.vfs.cwd = 0) ⟨h₀.bootTree, h₀.cwd⟩
    (fun hinv hok hstep => hinv.1.step hinv.2 hok hstep)

end Boot

/-! ## Going to a directory -/

/-- The nodes are the same except for their counters. -/
structure SameNodes (s s' : State) : Prop where
  nodes : ∀ n, ∃ k, s'.nodes n = { s.nodes n with refs := k }
  root : s'.root = s.root
  rootMount : s'.rootMount = s.rootMount

section Opened

variable {s s' : State} {children : Nat → List Nat} {filename : List Char} {n : Nat}

theorem SameNodes.view {α : Type} (view : Node → α)
    (hview : ∀ n k, view { n with refs := k } = view n) (h : SameNodes s s') (n : Nat) :
    view (s'.nodes n) = view (s.nodes n) := by
  obtain ⟨k, hk⟩ := h.nodes n
  rw [hk, hview]

theorem SameNodes.retain (s : State) (n : Nat) : SameNodes s (s.retain n) where
  nodes x := by
    unfold State.retain
    by_cases hx : x = n
    · subst hx
      rw [State.modify_self]
      exact ⟨_, rfl⟩
    · rw [State.modify_of_ne _ _ hx]
      exact ⟨_, rfl⟩
  root := rfl
  rootMount := rfl

theorem openLoop_same {fuel node i : Nat} {w : List Char}
    (h : openLoop s filename fuel node i w = .ok (n, s')) : SameNodes s s' ∧ s'.cwd = s.cwd := by
  induction fuel generalizing node i w with
  | zero => cases h
  | succ fuel ih =>
    obtain ⟨tmp, -, h⟩ := bind_eq_ok.mp h
    split at h
    next =>
      obtain ⟨-, rfl⟩ := Prod.ext_iff.mp (Except.ok.inj h)
      split
      next => exact ⟨⟨fun x => ⟨_, rfl⟩, rfl, rfl⟩, rfl⟩
      next =>
        have hretain := SameNodes.retain { s with errno := enoent } node
        exact ⟨⟨hretain.nodes, rfl, rfl⟩, rfl⟩
    next =>
      split at h
      next =>
        obtain ⟨-, rfl⟩ := Prod.ext_iff.mp (Except.ok.inj h)
        exact ⟨.retain s tmp, rfl⟩
      next => exact ih h

theorem vfsOpen_same (h : vfsOpen s filename = .ok (n, s')) :
    SameNodes s s' ∧ s'.cwd = s.cwd := by
  obtain ⟨_, -, h⟩ := bind_eq_ok.mp h
  change (if s.mallocOk s.mallocs = true then _ else _) = _ at h
  split at h
  next =>
    split at h
    next =>
      cases h
      have hretain := SameNodes.retain s.malloc.2 s.root
      exact ⟨⟨hretain.nodes, rfl, rfl⟩, rfl⟩
    next =>
      obtain ⟨hloop, hcwd⟩ := openLoop_same h
      exact ⟨⟨hloop.nodes, hloop.root, hloop.rootMount⟩, hcwd⟩
  next =>
    cases h
    exact ⟨⟨fun x => ⟨_, rfl⟩, rfl, rfl⟩, rfl⟩

theorem Attached.congr {n : Nat} (ha : Attached s children n) (hroot : s'.root = s.root)
    (hmount : s'.rootMount = s.rootMount) : Attached s' children n := by
  induction ha with
  | root =>
    rw [← hroot]
    exact .root
  | mount =>
    rw [← hmount]
    exact .mount
  | child _ hx ih => exact .child ih hx

theorem BootTree.same (h : BootTree s children) (hs : SameNodes s s') : BootTree s' children := by
  have hnext := hs.view Node.next (fun _ _ => rfl)
  have hptr := hs.view Node.ptr (fun _ _ => rfl)
  have hparent := hs.view Node.parent (fun _ _ => rfl)
  have hopen := hs.view Node.openOp (fun _ _ => rfl)
  have hfinddir := hs.view Node.finddirOp (fun _ _ => rfl)
  refine ⟨⟨fun d hd => ?_, fun d x hx => ?_, h.tree.addresses⟩, ?_, ?_, ?_, ?_, fun n => ?_⟩
  · rw [hptr]
    exact (h.tree.chain d hd).congr (fun x _ => hnext x)
  · rw [hparent]
    exact h.tree.parent d x hx
  · rw [hs.root]
    exact h.root
  · rw [hs.rootMount]
    exact h.mount
  · rw [hs.root, hparent]
    exact h.top
  · rw [hs.rootMount, hparent]
    exact h.mountTop
  · rw [hopen, hfinddir]
    exact h.ops n

/-- The current directory is a node of the tree, or the root. -/
def HomeIn (s : State) (children : Nat → List Nat) : Prop := s.cwd = 0 ∨ Attached s children s.cwd

theorem HomeIn.startNode (h : HomeIn s children) (filename : List Char) :
    Attached s children (startNode s filename) := by
  unfold Vfs.startNode
  dsimp only
  by_cases hslash : filename.head? = some '/'
  · rw [if_pos hslash]
    split
    next => exact .root
    next => exact .root
  · rw [if_neg hslash]
    split
    next => exact .root
    next hne => exact h.resolve_left hne

/-- **The invariant rule** for `vfs_open`: the node that it returns. -/
theorem BootTree.open_invariant (h : BootTree s children) {I : Nat → Prop} (hroot : I s.root)
    (hfollow : ∀ {node n w}, I node → follow s children node w = some n → I n)
    (ha : Attached s children (startNode s filename)) (hstart : I (startNode s filename))
    (hlen : filename.length ≤ maxPath) (hopen : vfsOpen s filename = .ok (n, s')) (hn : n ≠ 0) :
    I n := by
  have hfst := vfsOpen_eq (s := s) hlen
  rw [hopen] at hfst
  change Except.ok n = _ at hfst
  split at hfst
  next =>
    split at hfst
    next =>
      cases hfst
      exact hroot
    next =>
      obtain ⟨-, heq⟩ := (h.walk_iff ha).mp hfst.symm
      rw [eq_getD_iff hn] at heq
      exact resolve_invariant hfollow hstart heq
  next =>
    cases hfst
    exact absurd rfl hn

theorem BootTree.attached_of_open (h : BootTree s children) (hhome : HomeIn s children)
    (hlen : filename.length ≤ maxPath) (hopen : vfsOpen s filename = .ok (n, s')) (hn : n ≠ 0) :
    Attached s children n :=
  have hstart := hhome.startNode filename
  h.open_invariant .root (fun ha => ha.follow h) hstart hstart hlen hopen hn

/-- A call of `chdir` that returns. -/
def ChdirStep (s : State) (path : List Char) (s' : State) : Prop :=
  ∃ x, chdir s path = .ok (x, s')

theorem BootTree.chdir {path : List Char} (h : BootTree s children) (hhome : HomeIn s children)
    (hstep : ChdirStep s path s') : BootTree s' children ∧ HomeIn s' children := by
  obtain ⟨x, hcall⟩ := hstep
  unfold Vfs.chdir at hcall
  split at hcall
  next =>
    cases hcall
    refine ⟨h.same ⟨fun n => ⟨_, rfl⟩, rfl, rfl⟩, ?_⟩
    exact hhome.imp id (fun ha => ha.congr rfl rfl)
  next hlen =>
    obtain ⟨⟨node, s₁⟩, hopen, hcall⟩ := bind_eq_ok.mp hcall
    obtain ⟨hsame, hcwd⟩ := vfsOpen_same hopen
    have h₁ := h.same hsame
    dsimp only at hcall
    split at hcall
    next =>
      cases hcall
      refine ⟨h₁.same ⟨fun n => ⟨_, rfl⟩, rfl, rfl⟩, ?_⟩
      rw [HomeIn, show _ = s.cwd from hcwd]
      exact hhome.imp id (fun ha => ha.congr hsame.root hsame.rootMount)
    next hne =>
      cases hcall
      have ha := h.attached_of_open hhome (Nat.not_lt.mp hlen) hopen hne
      refine ⟨h₁.same ⟨fun n => ⟨_, rfl⟩, rfl, rfl⟩, Or.inr ?_⟩
      exact ha.congr hsame.root hsame.rootMount

end Opened

/-! ## Opening a path -/

/-- `vfs_open` returns, and it returns null when the components that it reads lead nowhere. -/
def Returns (s : State) (children : Nat → List Nat) (filename : List Char) : Prop :=
  ∃ n s', vfsOpen s filename = .ok (n, s') ∧
    (names filename ≠ [] →
      resolve s children (startNode s filename) (names filename) = none → n = 0)

section Returns

variable {s : State} {children : Nat → List Nat} {filename : List Char}

theorem BootTree.returns_iff (h : BootTree s children) (hhome : HomeIn s children)
    (hlen : filename.length ≤ maxPath) : Returns s children filename ↔
      (s.mallocOk s.mallocs = true →
        Steady s children (startNode s filename) (names filename)) := by
  have hstart := hhome.startNode filename
  have hfst := vfsOpen_eq (s := s) hlen
  constructor
  · rintro ⟨n, s', hopen, -⟩ hmalloc
    rw [hopen, if_pos hmalloc] at hfst
    split at hfst
    next hnil =>
      rw [hnil]
      trivial
    next => exact ((h.walk_iff hstart).mp hfst.symm).1
  · intro hsteady
    by_cases hmalloc : s.mallocOk s.mallocs = true
    · rw [if_pos hmalloc] at hfst
      by_cases hnil : names filename = []
      · rw [if_pos hnil] at hfst
        obtain ⟨s', hopen⟩ := (exists_ok_iff _ _).mpr hfst
        exact ⟨_, s', hopen, fun hne => absurd hnil hne⟩
      · rw [if_neg hnil, (h.walk_iff hstart).mpr ⟨hsteady hmalloc, rfl⟩] at hfst
        obtain ⟨s', hopen⟩ := (exists_ok_iff _ _).mpr hfst
        refine ⟨_, s', hopen, fun _ hnone => ?_⟩
        rw [hnone]
        rfl
    · rw [if_neg hmalloc] at hfst
      obtain ⟨s', hopen⟩ := (exists_ok_iff _ _).mpr hfst
      exact ⟨0, s', hopen, fun _ _ => rfl⟩

/-- **When a path can be opened after boot**, from any directory that `chdir` went to. -/
theorem boot_open_iff {r₀ r : Run} (h₀ : Booted r₀) (hboot : Reach RunStep BootCall r₀ r)
    (hchdir : Reach ChdirStep (fun _ _ => True) r.vfs s) (hlen : filename.length ≤ maxPath) :
    Returns s r.children filename ↔
      (s.mallocOk s.mallocs = true →
        Steady s r.children (startNode s filename) (names filename)) := by
  obtain ⟨htree, hcwd⟩ := h₀.tree_of_reach hboot
  have hinv : BootTree s r.children ∧ HomeIn s r.children :=
    hchdir.invariant (I := fun s => BootTree s r.children ∧ HomeIn s r.children)
      ⟨htree, Or.inl hcwd⟩ (fun hinv _ hstep => hinv.1.chdir hinv.2 hstep)
  exact hinv.1.returns_iff hinv.2 hlen

end Returns

theorem smallRun_booted : Booted smallRun where
  toMounted := smallRun_mounted
  top := rfl
  mountTop := rfl
  ops := smallTree_ops
  cwd := rfl

/-- `/bin/..` is the mounted root. -/
theorem boot_open_parent : (∃ s', vfsOpen smallTree "/bin/..".toList = .ok (32, s')) ∧
    Returns smallTree smallRun.children "/bin/..".toList := by
  have hboot : Reach RunStep BootCall smallRun smallRun := .start
  have hchdir : Reach ChdirStep (fun _ _ => True) smallTree smallTree := .start
  refine ⟨⟨_, rfl⟩, (boot_open_iff smallRun_booted hboot hchdir (by decide)).mpr fun _ => ?_⟩
  refine ⟨rfl, fun n hn => ?_⟩
  cases hn
  exact Or.inr ⟨by decide, trivial⟩

/-- **`/bin/../..` fails an assertion**: the mounted root has no parent. -/
theorem boot_open_above : Booted smallRun ∧
    vfsOpen smallTree "/bin/../..".toList = .error .assertFailed ∧
    ¬ Returns smallTree smallRun.children "/bin/../..".toList := by
  refine ⟨smallRun_booted, rfl, ?_⟩
  rintro ⟨n, s', heq, -⟩
  cases heq

end Hydrax.Vfs
