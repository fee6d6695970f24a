import Hydrax.Vfs.Boot

/-!
# The path of a node

`vfs_get_path` climbs from a node to the root along the parents, and `vfs_open` goes down along the
lists of children. `Under s children top ns n` says that the names `ns` lead down from `top` to `n`.

* `climb_of_placed` — the climb from a node below the root finds the names that lead to it,
* `walk_of_under` — and these names lead `vfs_open` back to the node,
* `climb_of_mounted` — the climb from a node of the mounted file system never ends well: it does not
  meet the root, since its own root has no parent,
* `getPath_back_iff` — when the path of a node leads back to it,
* `getcwd_keeps_iff` — when `getcwd` keeps to the buffer it is given.
-/

namespace Hydrax.Vfs

open Loop

def efault : Int := -4

/-- `getcwd`: what is written to the buffer, or null. -/
def getcwd (s : State) (buf size : Nat) : Except Stop (Option (List Char) × State) :=
  if buf = 0 then .ok (none, { s with errno := efault })
  else if s.cwd = 0 then .ok (some ['/'], s)
  else do
    let path ← vfsGetPath s s.cwd
    -- the path is built in a local array of `MAX_PATH + 1` characters
    if path.length > maxPath then throw .outOfBounds
    else if path.length > size then return (none, { s with errno := enametoolong })
    else
      assert (path.length < size)
      return (some path, s)

/-! ## Names that lead to a node -/

/-- The names that lead from `top` down to a node, through directories. -/
inductive Under (s : State) (children : Nat → List Nat) (top : Nat) :
    List (List Char) → Nat → Prop where
  | top : Under s children top [] top
  | child {ns : List (List Char)} {d x : Nat} (hd : Under s children top ns d)
      (hdir : (s.nodes d).flags &&& 7 = fsDirectory) (hx : x ∈ children d) :
      Under s children top (ns ++ [(s.nodes x).name]) x

/-- The names that lead down to a node along the lists of children, whatever the nodes on the way
are. -/
inductive Placed (s : State) (children : Nat → List Nat) (top : Nat) :
    List (List Char) → Nat → Prop where
  | top : Placed s children top [] top
  | child {ns : List (List Char)} {d x : Nat} (hd : Placed s children top ns d)
      (hx : x ∈ children d) : Placed s children top (ns ++ [(s.nodes x).name]) x

def pathOf (ns : List (List Char)) : List Char := if ns = [] then ['/'] else join ns

def InMount (s : State) (children : Nat → List Nat) : Nat → Prop :=
  Relation.ReflTransGen (fun d x => x ∈ children d) s.rootMount

structure GoodName (w : List Char) : Prop where
  nonempty : w ≠ []
  slash : '/' ∉ w
  dot : w ≠ ['.']
  dotdot : w ≠ ['.', '.']

/-- Names are good, and those of siblings are different. -/
structure Named (s : State) (children : Nat → List Nat) : Prop where
  good : ∀ d, ∀ x ∈ children d, GoodName (s.nodes x).name
  distinct : ∀ d, ((children d).map (fun n => (s.nodes n).name)).Nodup

section Down

variable {s : State} {children : Nat → List Nat} {top n : Nat} {ns : List (List Char)}

theorem Placed.ne_zero (ha : Placed s children top ns n) (h : Tree s children)
    (htop : top ≠ 0) : n ≠ 0 := by
  induction ha with
  | top => exact htop
  | @child _ d x _ hx ih => exact (h.chain d ih).ne_null hx

theorem Placed.eq_of_nil (ha : Placed s children top ns n) (hnil : ns = []) : n = top := by
  cases ha with
  | top => rfl
  | child => simp at hnil

theorem Placed.eq_top (ha : Placed s children top ns n) (h : Tree s children) (htop : top ≠ 0)
    (hparent : (s.nodes n).parent = 0) : n = top ∧ ns = [] := by
  cases ha with
  | top => exact ⟨rfl, rfl⟩
  | @child _ d _ hd hx =>
    rw [h.parent d n hx] at hparent
    exact absurd hparent (hd.ne_zero h htop)

theorem Under.placed (hu : Under s children top ns n) : Placed s children top ns n := by
  induction hu with
  | top => exact .top
  | child _ _ hx ih => exact .child ih hx

theorem Under.ne_zero (hu : Under s children top ns n) (h : Tree s children) (htop : top ≠ 0) :
    n ≠ 0 := hu.placed.ne_zero h htop

theorem Under.good (hu : Under s children top ns n) (hnamed : Named s children) :
    ∀ w ∈ ns, GoodName w := by
  induction hu with
  | top =>
    intro w hw
    cases hw
  | @child ns d x _ _ hx ih =>
    rw [List.forall_mem_append]
    refine ⟨ih, fun w hw => ?_⟩
    rw [List.mem_singleton.mp hw]
    exact hnamed.good d x hx

theorem find?_name {nodes : Nat → Node} {l : List Nat} (h : (l.map (fun n => (nodes n).name)).Nodup)
    {x : Nat} (hx : x ∈ l) : l.find? (fun n => (nodes n).name = (nodes x).name) = some x := by
  induction l with
  | nil => cases hx
  | cons y l ih =>
    rw [List.map_cons, List.nodup_cons] at h
    rcases List.mem_cons.mp hx with rfl | hx
    · simp
    · have hne : (nodes y).name ≠ (nodes x).name := by
        intro heq
        exact h.1 (heq ▸ List.mem_map_of_mem hx)
      rw [List.find?_cons_of_neg (by simpa using hne)]
      exact ih h.2 hx

theorem Named.find_entry (hnamed : Named s children) {d x : Nat} (hx : x ∈ children d) :
    (entries s children d).find? (fun n => (s.nodes n).name = (s.nodes x).name) = some x := by
  have hfind := find?_name (hnamed.distinct d) hx
  unfold entries
  split
  next hd =>
    rw [hd] at hfind
    rw [List.find?_append, hfind, Option.some_or]
  next => exact hfind

theorem walk_append {node m : Nat} {us : List (List Char)} (ws : List (List Char))
    (h : walk s node us = .ok m) (hm : m ≠ 0) : walk s node (us ++ ws) = walk s m ws := by
  induction us generalizing node with
  | nil =>
    cases h
    rfl
  | cons u us ih =>
    obtain ⟨tmp, henter, h⟩ := bind_eq_ok.mp h
    rw [List.cons_append, walk, henter, ok_bind]
    split at h
    next =>
      cases h
      exact absurd rfl hm
    next htmp =>
      rw [if_neg htmp]
      exact ih h

theorem walk_of_under (h : BootTree s children) (hnamed : Named s children) (htop : top ≠ 0)
    (hu : Under s children top ns n) : walk s top ns = .ok n := by
  induction hu with
  | top => rfl
  | @child ns d x hd hdir hx ih =>
    have hd0 := hd.ne_zero h.tree htop
    have hx0 := (h.tree.chain d hd0).ne_null hx
    obtain ⟨-, -, hdot, hdotdot⟩ := hnamed.good d x hx
    have hfollow : follow s children d (s.nodes x).name = some x := by
      rw [follow, if_neg hdotdot, if_neg hdot, if_pos hdir, hnamed.find_entry hx]
    rw [walk_append _ ih hd0, walk, h.vfs.enter_directory hd0 hdotdot hdot hdir, hfollow,
      ok_bind, Option.getD_some, if_neg hx0]
    rfl

end Down

/-! ## The climb -/

section Climb

variable {s : State} {children : Nat → List Nat} {n : Nat} {ns : List (List Char)}

/-- **The climb from a node below the root** notes the names that lead to it, if the array has room
for them. -/
theorem climb_of_placed (h : Tree s children) (hroot : s.root ≠ 0)
    (htop : (s.nodes s.root).parent = 0) (ha : Placed s children s.root ns n)
    (hn : n ≠ s.root) (fuel : Nat) (acc : List (List Char)) :
    climb s fuel n acc = if ns.length ≤ fuel then .ok (ns ++ acc) else .error .outOfBounds := by
  induction ha generalizing fuel acc with
  | top => exact absurd rfl hn
  | @child ns d x hd hx ih =>
    rw [List.length_append, List.length_singleton]
    cases fuel with
    | zero => rfl
    | succ fuel =>
      unfold climb
      dsimp only
      rw [h.parent d x hx, if_neg (hd.ne_zero h hroot), List.append_assoc]
      by_cases hdroot : d = s.root
      · -- nothing leads from the root to itself
        have hnil : ns = [] := by
          rw [hdroot] at hd
          exact (hd.eq_top h hroot htop).2
        rw [if_pos hdroot, hnil]
        exact (if_pos (Nat.succ_le_succ (Nat.zero_le fuel))).symm
      · rw [if_neg hdroot, ih hdroot]
        exact if_congr Nat.succ_le_succ_iff.symm rfl rfl

theorem vfsGetPath_of_placed (h : Tree s children) (hroot : s.root ≠ 0)
    (htop : (s.nodes s.root).parent = 0) (ha : Placed s children s.root ns n) :
    vfsGetPath s n =
      if ns.length ≤ maxPathNodes then .ok (pathOf ns) else .error .outOfBounds := by
  rw [vfsGetPath, assert, if_pos (by simpa using ha.ne_zero h hroot), ok_bind]
  by_cases hn : n = s.root
  · rw [hn] at ha
    rw [if_pos hn, (ha.eq_top h hroot htop).2]
    rfl
  · have hne : ns ≠ [] := fun hnil => hn (ha.eq_of_nil hnil)
    rw [if_neg hn, climb_of_placed h hroot htop ha hn, List.append_nil, pathOf, if_neg hne]
    by_cases hdepth : ns.length ≤ maxPathNodes
    · rw [if_pos hdepth, if_pos hdepth]
      rfl
    · rw [if_neg hdepth, if_neg hdepth]
      rfl

theorem InMount.ne_zero (hm : InMount s children n) (h : BootTree s children) : n ≠ 0 := by
  induction hm with
  | refl => exact h.mount
  | @tail d x _ hx ih => exact (h.tree.chain d ih).ne_null hx

theorem InMount.ne_root (hm : InMount s children n) (h : BootTree s children)
    (hapart : s.root ≠ s.rootMount) : n ≠ s.root := by
  rintro rfl
  rcases Relation.ReflTransGen.cases_tail hm with heq | ⟨d, hd, hx⟩
  · exact hapart heq
  · exact InMount.ne_zero hd h ((h.tree.parent d _ hx).symm.trans h.top)

theorem climb_of_mounted (h : BootTree s children) (hapart : s.root ≠ s.rootMount)
    (hm : InMount s children n) (fuel : Nat) (acc q : List (List Char)) :
    climb s fuel n acc ≠ .ok q := by
  induction hm generalizing fuel acc with
  | refl =>
    intro hclimb
    cases fuel with
    | zero => cases hclimb
    | succ fuel =>
      unfold climb at hclimb
      dsimp only at hclimb
      rw [if_pos h.mountTop] at hclimb
      cases hclimb
  | @tail d x hd hx ih =>
    intro hclimb
    cases fuel with
    | zero => cases hclimb
    | succ fuel =>
      unfold climb at hclimb
      dsimp only at hclimb
      rw [h.tree.parent d x hx, if_neg (InMount.ne_zero hd h),
        if_neg (InMount.ne_root hd h hapart)] at hclimb
      exact ih _ _ hclimb

end Climb

/-! ## Back and forth -/

/-- The nodes that `vfs_open` can get to. -/
def Reached (s : State) (children : Nat → List Nat) (n : Nat) : Prop :=
  (∃ ns, Under s children s.root ns n) ∨ InMount s children n

/-- `vfs_get_path` gives a path of the node, and `getcwd` gives one in that directory. -/
structure GetsBack (s : State) (n : Nat) : Prop where
  path : ∃ q, vfsGetPath s n = .ok q ∧ ∃ s', vfsOpen s q = .ok (n, s')
  cwd : ∀ buf size, buf ≠ 0 → maxPath < size → ∃ q s₁ s₂,
    getcwd { s with cwd := n } buf size = .ok (some q, s₁) ∧ vfsOpen s₁ q = .ok (n, s₂)

section Back

variable {s s₁ : State} {children : Nat → List Nat} {n : Nat} {ns : List (List Char)}

theorem Reached.follow (hr : Reached s children n) (h : BootTree s children) {w : List Char}
    {m : Nat} (hm : follow s children n w = some m) : Reached s children m := by
  unfold Vfs.follow at hm
  split at hm
  next =>
    split at hm
    next => cases hm
    next hparent =>
      cases hm
      rcases hr with ⟨ns, hu⟩ | hmount
      · cases hu with
        | top => exact absurd h.top hparent
        | @child ns d _ hd _ hx =>
          rw [h.tree.parent d n hx]
          exact Or.inl ⟨ns, hd⟩
      · rcases Relation.ReflTransGen.cases_tail hmount with rfl | ⟨d, hd, hx⟩
        · exact absurd h.mountTop hparent
        · rw [h.tree.parent d n hx]
          exact Or.inr hd
  next =>
    split at hm
    next =>
      cases hm
      exact hr
    next =>
      split at hm
      next hdir =>
        have hentry := List.mem_of_find?_eq_some hm
        unfold entries at hentry
        split at hentry
        next hroot =>
          rcases List.mem_append.mp hentry with hx | hx
          · rw [hroot] at hdir
            exact Or.inl ⟨_, .child .top hdir hx⟩
          · exact Or.inr (.single hx)
        next =>
          rcases hr with ⟨ns, hu⟩ | hmount
          · exact Or.inl ⟨_, .child hu hdir hentry⟩
          · exact Or.inr (.tail hmount hentry)
      next => cases hm

/-- **What `vfs_open` returns for an absolute path.** -/
theorem BootTree.reached_of_open (h : BootTree s children) {path : List Char}
    (hslash : path.head? = some '/') (hlen : path.length ≤ maxPath)
    (hopen : vfsOpen s path = .ok (n, s₁)) (hn : n ≠ 0) : Reached s children n := by
  have hroot : Reached s children s.root := Or.inl ⟨[], .top⟩
  have hstart : startNode s path = s.root := startNode_of_slash hslash
  refine h.open_invariant hroot (fun hr => hr.follow h) ?_ ?_ hlen hopen hn
  · rw [hstart]
    exact .root
  · rw [hstart]
    exact hroot

theorem vfsGetPath_of_under (h : BootTree s children) (hu : Under s children s.root ns n)
    (hdepth : ns.length ≤ maxPathNodes) : vfsGetPath s n = .ok (pathOf ns) := by
  rw [vfsGetPath_of_placed h.tree h.root h.top hu.placed, if_pos hdepth]

theorem vfsOpen_of_under (h : BootTree s children) (hnamed : Named s children)
    (hu : Under s children s.root ns n) (hfits : (join ns).length ≤ maxPath)
    (hmalloc : s.mallocOk s.mallocs = true) :
    ∃ s', vfsOpen s (pathOf ns) = .ok (n, s') := by
  rw [exists_ok_iff, pathOf]
  by_cases hnil : ns = []
  · rw [if_pos hnil, vfsOpen_eq (by decide), if_pos hmalloc, hu.placed.eq_of_nil hnil]
    rfl
  · have hgood := hu.good hnamed
    have hnames : names (join ns) = ns :=
      names_join hnil (fun w hw => (hgood w hw).nonempty) (fun w hw => (hgood w hw).slash)
    have hslash : (join ns).head? = some '/' := by
      cases ns with
      | nil => exact absurd rfl hnil
      | cons w ns => rfl
    rw [if_neg hnil, vfsOpen_eq hfits, if_pos hmalloc, hnames, if_neg hnil,
      startNode_of_slash hslash]
    exact walk_of_under h hnamed h.root hu

theorem Named.same (hnamed : Named s children) (hs : SameNodes s s₁) : Named s₁ children := by
  have hname := hs.view Node.name (fun _ _ => rfl)
  refine ⟨fun d x hx => ?_, fun d => ?_⟩
  · rw [hname]
    exact hnamed.good d x hx
  · simp only [hname]
    exact hnamed.distinct d

theorem Under.same {top : Nat} (hu : Under s children top ns n) (hs : SameNodes s s₁) :
    Under s₁ children top ns n := by
  have hname := hs.view Node.name (fun _ _ => rfl)
  have hflags := hs.view Node.flags (fun _ _ => rfl)
  induction hu with
  | top => exact .top
  | @child ns d x _ hdir hx ih =>
    rw [← hname]
    exact .child ih (hflags d ▸ hdir) hx

theorem getsBack_of_under (h : BootTree s children) (hnamed : Named s children)
    (hu : Under s children s.root ns n) (hdepth : ns.length ≤ maxPathNodes)
    (hfits : (join ns).length ≤ maxPath) (hmalloc : s.mallocOk s.mallocs = true) :
    GetsBack s n where
  path := ⟨_, vfsGetPath_of_under h hu hdepth, vfsOpen_of_under h hnamed hu hfits hmalloc⟩
  cwd buf size hbuf hsize := by
    -- the nodes do not depend on the current directory
    have hs : SameNodes s { s with cwd := n } := ⟨fun x => ⟨_, rfl⟩, rfl, rfl⟩
    have h₁ := h.same hs
    have hu₁ := hu.same hs
    have hn := hu.ne_zero h.tree h.root
    obtain ⟨s₂, hopen⟩ := vfsOpen_of_under h₁ (hnamed.same hs) hu₁ hfits hmalloc
    refine ⟨_, _, s₂, ?_, hopen⟩
    have hlength : (pathOf ns).length ≤ maxPath := by
      unfold pathOf
      split
      next => decide
      next => exact hfits
    unfold getcwd
    rw [if_neg hbuf, if_neg hn, vfsGetPath_of_under h₁ hu₁ hdepth, ok_bind,
      if_neg (by omega), if_neg (by omega), assert, if_pos (decide_eq_true (by omega))]
    rfl

theorem malloc_of_open {path : List Char} (h : vfsOpen s path = .ok (n, s₁)) (hn : n ≠ 0) :
    s.mallocOk s.mallocs = true := by
  obtain ⟨_, -, h⟩ := bind_eq_ok.mp h
  change (if s.mallocOk s.mallocs = true then _ else _) = _ at h
  split at h
  next hmalloc => exact hmalloc
  next =>
    cases h
    exact absurd rfl hn

theorem not_getsBack_of_mounted (h : BootTree s children) (hapart : s.root ≠ s.rootMount)
    (hm : InMount s children n) : ¬ GetsBack s n := by
  rintro ⟨⟨q, hpath, -⟩, -⟩
  obtain ⟨_, -, hpath⟩ := bind_eq_ok.mp hpath
  rw [if_neg (InMount.ne_root hm h hapart)] at hpath
  obtain ⟨ns, hclimb, -⟩ := bind_eq_ok.mp hpath
  exact climb_of_mounted h hapart hm _ _ _ hclimb

/-- **When the path of a node leads back to it**: for every node that `vfs_open` returns, in a tree
whose paths fit. -/
theorem getPath_back_iff (h : BootTree s children) (hapart : s.root ≠ s.rootMount)
    (hnamed : Named s children) {path : List Char} (hslash : path.head? = some '/')
    (hlen : path.length ≤ maxPath) (hopen : vfsOpen s path = .ok (n, s₁)) (hn : n ≠ 0)
    (hfits : ∀ ns, Under s children s.root ns n →
      ns.length ≤ maxPathNodes ∧ (join ns).length ≤ maxPath) :
    GetsBack s₁ n ↔ s₁.mallocOk s₁.mallocs = true ∧ ∃ ns, Under s children s.root ns n := by
  obtain ⟨hs, -⟩ := vfsOpen_same hopen
  have h₁ := h.same hs
  constructor
  · intro hback
    obtain ⟨q, -, s₂, hagain⟩ := hback.path
    refine ⟨malloc_of_open hagain hn, ?_⟩
    rcases h.reached_of_open hslash hlen hopen hn with hu | hm
    · exact hu
    · -- a mounted node is still one after `vfs_open`
      have hapart₁ : s₁.root ≠ s₁.rootMount := by rwa [hs.root, hs.rootMount]
      have hm₁ : InMount s₁ children n := by rwa [InMount, hs.rootMount]
      exact absurd hback (not_getsBack_of_mounted h₁ hapart₁ hm₁)
  · rintro ⟨hmalloc, ns, hu⟩
    obtain ⟨hdepth, hfits⟩ := hfits ns hu
    have hu₁ := hu.same hs
    rw [← hs.root] at hu₁
    exact getsBack_of_under h₁ (hnamed.same hs) hu₁ hdepth hfits hmalloc

end Back

/-! ## The buffer -/

/-- `getcwd` writes the path and its end to the `size` characters of the buffer, or it fails for a
path that is too long. -/
def GetcwdKeeps (s : State) (ns : List (List Char)) (buf size : Nat) : Prop :=
  (getcwd s buf size = .ok (some (pathOf ns), s) ∧ (pathOf ns).length + 1 ≤ size) ∨
    getcwd s buf size = .ok (none, { s with errno := enametoolong })

section Getcwd

variable {s : State} {children : Nat → List Nat} {ns : List (List Char)} {buf size : Nat}

theorem getcwd_of_placed (h : Tree s children) (hroot : s.root ≠ 0)
    (htop : (s.nodes s.root).parent = 0) (hcwd : Placed s children s.root ns s.cwd)
    (hbuf : buf ≠ 0) : getcwd s buf size =
      if maxPathNodes < ns.length ∨ maxPath < (pathOf ns).length then .error .outOfBounds
      else if (pathOf ns).length > size then .ok (none, { s with errno := enametoolong })
      else if (pathOf ns).length = size then .error .assertFailed
      else .ok (some (pathOf ns), s) := by
  rw [getcwd, if_neg hbuf, if_neg (hcwd.ne_zero h hroot), vfsGetPath_of_placed h hroot htop hcwd]
  by_cases hdepth : ns.length ≤ maxPathNodes
  · rw [if_pos hdepth, ok_bind]
    by_cases hlen : (pathOf ns).length > maxPath
    · rw [if_pos hlen, if_pos (Or.inr hlen)]
      rfl
    · have hfits : ¬ (maxPathNodes < ns.length ∨ maxPath < (pathOf ns).length) := by omega
      rw [if_neg hlen, if_neg hfits]
      by_cases hlong : (pathOf ns).length > size
      · rw [if_pos hlong, if_pos hlong]
        rfl
      · rw [if_neg hlong, if_neg hlong]
        by_cases heq : (pathOf ns).length = size
        · rw [if_pos heq, assert, if_neg (by simp [heq])]
          rfl
        · rw [if_neg heq, assert, if_pos (decide_eq_true (by omega))]
          rfl
  · rw [if_neg hdepth, if_pos (Or.inl (Nat.lt_of_not_le hdepth))]
    rfl

/-- **When `getcwd` keeps to the buffer**: without a current directory if there is room for two
characters, and in a directory below the root if its path fits the local arrays and is not exactly
as long as the buffer. -/
theorem getcwd_keeps_iff (h : Tree s children) (hroot : s.root ≠ 0)
    (htop : (s.nodes s.root).parent = 0)
    (hcwd : s.cwd = 0 ∧ ns = [] ∨ Placed s children s.root ns s.cwd) (hbuf : buf ≠ 0) :
    GetcwdKeeps s ns buf size ↔
      if s.cwd = 0 then 2 ≤ size
      else ns.length ≤ maxPathNodes ∧ (pathOf ns).length ≤ maxPath ∧ (pathOf ns).length ≠ size := by
  rcases hcwd with ⟨hcwd, rfl⟩ | hcwd
  · have hget : getcwd s buf size = .ok (some (pathOf []), s) := by
      rw [getcwd, if_neg hbuf, if_pos hcwd]
      rfl
    rw [GetcwdKeeps, hget, if_pos hcwd]
    constructor
    · rintro (⟨-, hsize⟩ | hnone)
      · exact hsize
      · cases hnone
    · exact fun hsize => Or.inl ⟨rfl, hsize⟩
  · rw [GetcwdKeeps, getcwd_of_placed h hroot htop hcwd hbuf, if_neg (hcwd.ne_zero h hroot)]
    split
    next hout =>
      refine iff_of_false ?_ (by omega)
      rintro (⟨hok, -⟩ | hok) <;> cases hok
    next hfits =>
      split
      next hlong => exact iff_of_true (Or.inr rfl) (by omega)
      next hlong =>
        split
        next heq =>
          refine iff_of_false ?_ (by omega)
          rintro (⟨hok, -⟩ | hok) <;> cases hok
        next heq => exact iff_of_true (Or.inl ⟨rfl, by omega⟩) (by omega)

end Getcwd

/-- The small tree with `dev` attached to the root. -/
def devTree : State := (smallTree.setParent 64 16).setPtr 16 64

def devChildren : Nat → List Nat := Function.update smallRun.children 16 [64]

theorem devTree_boot : BootTree devTree devChildren := by
  have hstart : Reach RunStep BootCall smallRun smallRun := .start
  have hmknod : mknod smallTree 0 64 = .ok (0, { devTree with rootNodes := 1 }) := rfl
  have hok : BootCall smallRun (.mknod 0 64) := ⟨by decide, by decide⟩
  have hrun := hstart.step hok (.mknod smallRun_free (by decide) hmknod)
  have h := (smallRun_booted.tree_of_reach hrun).1
  exact ⟨⟨h.tree.chain, h.tree.parent, h.tree.addresses⟩, h.root, h.mount, h.top, h.mountTop, h.ops⟩

theorem devTree_named : Named devTree devChildren := by
  have hchildren : ∀ d, devChildren d = [64] ∨ devChildren d = [48] ∨ devChildren d = [] := by
    intro d
    unfold devChildren
    by_cases hd : d = 16
    · subst hd
      exact Or.inl rfl
    · rw [Function.update_of_ne hd]
      by_cases hd' : d = 32
      · exact Or.inr (Or.inl (if_pos hd'))
      · exact Or.inr (Or.inr (if_neg hd'))
  refine ⟨fun d x hx => ?_, fun d => ?_⟩
  · rcases hchildren d with h | h | h <;> rw [h] at hx
    · rw [List.mem_singleton.mp hx]
      exact ⟨by decide, by decide, by decide, by decide⟩
    · rw [List.mem_singleton.mp hx]
      exact ⟨by decide, by decide, by decide, by decide⟩
    · cases hx
  · rcases hchildren d with h | h | h <;> rw [h] <;> simp

/-- `/dev` leads to `dev`, and back. -/
theorem getPath_back_dev : ∃ s₁, vfsOpen devTree "/dev".toList = .ok (64, s₁) ∧ GetsBack s₁ 64 := by
  have hopen : vfsOpen devTree "/dev".toList = .ok (64, _) := rfl
  refine ⟨_, hopen, (getPath_back_iff devTree_boot (by decide) devTree_named (by decide) (by decide)
    hopen (by decide) ?_).mpr ⟨rfl, _, .child .top (by decide) (List.mem_singleton_self 64)⟩⟩
  intro ns hu
  cases hu with
  | @child ns d _ hd _ hx =>
    have hd16 : d = 16 := (devTree_boot.tree.parent d 64 hx).symm
    subst hd16
    rw [(hd.placed.eq_top devTree_boot.tree (by decide) rfl).2]
    exact ⟨by decide, by decide⟩

/-- **A mounted directory has no path**: the climb from `/bin` fails an assertion, and so does
`getcwd` in it. -/
theorem getPath_back_bin : ∃ s₁, vfsOpen devTree "/bin".toList = .ok (48, s₁) ∧
    vfsGetPath s₁ 48 = .error .assertFailed ∧
    (∀ size, getcwd { s₁ with cwd := 48 } 1 size = .error .assertFailed) ∧ ¬ GetsBack s₁ 48 := by
  refine ⟨_, rfl, rfl, fun _ => rfl, ?_⟩
  rintro ⟨⟨q, hpath, -⟩, -⟩
  cases hpath

/-- In `/dev` a buffer of five characters is enough. -/
theorem getcwd_keeps_dev : GetcwdKeeps { devTree with cwd := 64 } [['d', 'e', 'v']] 1 5 := by
  have hs : SameNodes devTree { devTree with cwd := 64 } := ⟨fun x => ⟨_, rfl⟩, rfl, rfl⟩
  have h := devTree_boot.same hs
  have hx : 64 ∈ devChildren devTree.root := List.mem_singleton_self 64
  have hcwd := Placed.child (s := { devTree with cwd := 64 }) .top hx
  exact (getcwd_keeps_iff h.tree h.root h.top (Or.inr hcwd) (by decide)).mpr (by decide)

/-- A buffer of four characters fails an assertion in `/dev`, and without a current directory one of
a single character is overrun. -/
theorem getcwd_keeps_fails :
    getcwd { devTree with cwd := 64 } 1 4 = .error .assertFailed ∧
      getcwd devTree 1 1 = .ok (some ['/'], devTree) ∧
      ¬ GetcwdKeeps { devTree with cwd := 64 } [['d', 'e', 'v']] 1 4 ∧
      ¬ GetcwdKeeps devTree [] 1 1 := by
  refine ⟨rfl, rfl, ?_, ?_⟩
  · rintro (⟨hok, -⟩ | hok) <;> cases hok
  · rintro (⟨-, hsize⟩ | hok)
    · exact absurd hsize (by decide)
    · cases hok

end Hydrax.Vfs
