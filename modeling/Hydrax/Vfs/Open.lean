import Hydrax.Vfs.Listing

/-!
# Resolving a path

`vfs_open` follows the components of a path up to the first empty one. `resolve` follows all
components that are not empty, in a tree that is given by its children.

* `vfsOpen_eq` — `vfs_open` is a walk along the components that are read,
* `walk_eq_resolve_iff` — when the walk gets where the components lead,
* `vfsOpen_resolves_iff` — when `vfs_open` does.
-/

namespace Hydrax.Vfs

open Loop

/-! ## The walk -/

/-- The walk of `vfs_open` along a list of components: the node it gets to, or null. -/
def walk (s : State) : Nat → List (List Char) → Except Stop Nat
  | node, [] => .ok node
  | node, w :: ws => do
      let tmp ← enter s node w
      if tmp = 0 then return 0 else walk s tmp ws

section Walk

variable {s : State} {filename : List Char}

theorem getPathLevel_drop {i : Nat} {ws : List (List Char)} (h : (names filename).drop i = ws)
    (hi : i ≤ (names filename).length) : getPathLevel filename i = ws.head? := by
  rw [getPathLevel_names filename hi, ← h, List.head?_drop]

theorem drop_succ_of_drop_eq_cons {α : Type} {l ws : List α} {i : Nat} {v : α}
    (h : l.drop i = v :: ws) : i < l.length ∧ l.drop (i + 1) = ws := by
  constructor
  · by_contra hge
    rw [List.drop_eq_nil_of_le (by omega)] at h
    cases h
  · rw [← List.tail_drop, h, List.tail_cons]

theorem openLoop_eq {fuel node i : Nat} {w : List Char} {ws : List (List Char)}
    (h : (names filename).drop i = ws) (hi : i ≤ (names filename).length)
    (hfuel : ws.length < fuel) :
    (openLoop s filename fuel node i w).map Prod.fst = walk s node (w :: ws) := by
  induction ws, fuel, hfuel using fuel_induction generalizing node i w with
  | nil fuel =>
    rw [openLoop, walk, getPathLevel_drop h hi]
    cases enter s node w with
    | error e => rfl
    | ok tmp =>
      rw [ok_bind, ok_bind]
      split <;> rfl
  | cons v ws fuel hfuel ih =>
    obtain ⟨hlt, hdrop⟩ := drop_succ_of_drop_eq_cons h
    rw [openLoop, walk, getPathLevel_drop h hi]
    cases enter s node w with
    | error e => rfl
    | ok tmp =>
      rw [ok_bind, ok_bind]
      split
      next => rfl
      next => exact ih hdrop hlt

theorem walk_malloc (s : State) (node : Nat) (ws : List (List Char)) :
    walk s.malloc.2 node ws = walk s node ws := by
  induction ws generalizing node with
  | nil => rfl
  | cons w ws ih =>
    have henter : enter s.malloc.2 node w = enter s node w := rfl
    rw [walk, walk, henter]
    cases enter s node w with
    | error e => rfl
    | ok tmp =>
      rw [ok_bind, ok_bind]
      split
      next => rfl
      next => exact ih tmp

theorem vfsOpen_eq (hlen : filename.length ≤ maxPath) :
    (vfsOpen s filename).map Prod.fst =
      if s.mallocOk s.mallocs = true then
        if names filename = [] then .ok s.root else walk s (startNode s filename) (names filename)
      else .ok 0 := by
  rw [vfsOpen, assert, if_pos (by simpa using hlen), ok_bind]
  have hlevel := getPathLevel_names filename (Nat.zero_le _)
  show Except.map _ (if s.mallocOk s.mallocs = true then _ else _) = _
  split
  next =>
    cases hnames : names filename with
    | nil =>
      rw [hnames] at hlevel
      rw [hlevel, if_pos rfl]
      rfl
    | cons w ws =>
      have hlength := names_length_le filename
      rw [hnames, List.length_cons] at hlength
      rw [hnames] at hlevel
      rw [hlevel, if_neg (by simp), ← walk_malloc]
      refine openLoop_eq (by rw [hnames, List.drop_succ_cons, List.drop_zero]) ?_ (by omega)
      rw [hnames]
      simp
  next => rfl

end Walk

/-! ## Where the components lead -/

/-- A tree whose directories are looked up the default way. -/
structure VfsTree (s : State) (children : Nat → List Nat) : Prop where
  tree : Tree s children
  root : s.root ≠ 0
  mount : s.rootMount ≠ 0
  top : (s.nodes s.root).parent = 0
  lookup : ∀ n, (s.nodes n).flags &&& 7 = fsDirectory →
    (s.nodes n).openOp = none ∧ (s.nodes n).finddirOp = none

def follow (s : State) (children : Nat → List Nat) (node : Nat) (w : List Char) : Option Nat :=
  if w = ['.', '.'] then
    if (s.nodes node).parent = 0 then none else some (s.nodes node).parent
  else if w = ['.'] then some node
  else if (s.nodes node).flags &&& 7 = fsDirectory then
    (entries s children node).find? (fun n => (s.nodes n).name = w)
  else none

def resolve (s : State) (children : Nat → List Nat) : Nat → List (List Char) → Option Nat
  | node, [] => some node
  | node, w :: ws => (follow s children node w).bind (fun n => resolve s children n ws)

/-- The walk along the components stays on its feet: no `..` at a node that has no parent, and no
name below a node that is not a directory, unless an operation of that node ends the walk. -/
def Safe (s : State) (children : Nat → List Nat) : Nat → List (List Char) → Prop
  | _, [] => True
  | node, w :: ws =>
    if w = ['.', '.'] then
      node = s.root ∨ (s.nodes node).parent ≠ 0 ∧ Safe s children (s.nodes node).parent ws
    else if w = ['.'] then Safe s children node ws
    else if (s.nodes node).flags &&& 7 = fsDirectory then
      ∀ n, follow s children node w = some n → Safe s children n ws
    else walk s node (w :: ws) = .ok 0

section Resolve

variable {s : State} {children : Nat → List Nat} {node : Nat} {w : List Char}
  {ws : List (List Char)}

theorem Tree.entries_ne_zero (h : Tree s children) (hroot : s.root ≠ 0) (hmount : s.rootMount ≠ 0)
    (hnode : node ≠ 0) {n : Nat} (hn : n ∈ entries s children node) : n ≠ 0 := by
  unfold entries at hn
  split at hn
  next =>
    rcases List.mem_append.mp hn with hn | hn
    · exact (h.chain _ hroot).ne_null hn
    · exact (h.chain _ hmount).ne_null hn
  next => exact (h.chain _ hnode).ne_null hn

theorem VfsTree.follow_ne_zero (h : VfsTree s children) (hnode : node ≠ 0) {n : Nat}
    (hn : follow s children node w = some n) : n ≠ 0 := by
  unfold follow at hn
  split at hn
  next =>
    split at hn
    next => cases hn
    next hparent =>
      cases hn
      exact hparent
  next =>
    split at hn
    next =>
      cases hn
      exact hnode
    next =>
      split at hn
      next =>
        exact h.tree.entries_ne_zero h.root h.mount hnode (List.mem_of_find?_eq_some hn)
      next => cases hn

theorem VfsTree.enter_directory (h : VfsTree s children) (hnode : node ≠ 0)
    (hdotdot : w ≠ ['.', '.']) (hdot : w ≠ ['.'])
    (hdir : (s.nodes node).flags &&& 7 = fsDirectory) :
    enter s node w = .ok ((follow s children node w).getD 0) := by
  obtain ⟨hopen, hfinddir⟩ := h.lookup node hdir
  rw [enter, if_neg hdotdot, if_neg hdot, hopen, follow, if_neg hdotdot, if_neg hdot, if_pos hdir]
  exact h.tree.finddir h.mount hnode hdir hfinddir w

theorem VfsTree.walk_eq_resolve_iff (h : VfsTree s children) (hnode : node ≠ 0) :
    walk s node ws = .ok ((resolve s children node ws).getD 0) ↔ Safe s children node ws := by
  induction ws generalizing node with
  | nil => exact iff_of_true rfl trivial
  | cons w ws ih =>
    rw [resolve, Safe]
    by_cases hdotdot : w = ['.', '.']
    · rw [if_pos hdotdot, walk, enter, if_pos hdotdot, follow, if_pos hdotdot]
      by_cases hroot : node = s.root
      · rw [if_pos hroot, hroot, if_pos h.top]
        exact iff_of_true rfl (Or.inl rfl)
      · rw [if_neg hroot]
        by_cases hparent : (s.nodes node).parent = 0
        · rw [if_pos hparent, if_pos hparent]
          refine iff_of_false (fun heq => ?_) (by simp [hroot, hparent])
          cases heq
        · rw [if_neg hparent, if_neg hparent, ok_bind, if_neg hparent, Option.bind_some,
            ih hparent]
          simp [hroot, hparent]
    · rw [if_neg hdotdot]
      by_cases hdot : w = ['.']
      · rw [if_pos hdot, walk, enter, if_neg hdotdot, if_pos hdot, ok_bind, if_neg hnode,
          follow, if_neg hdotdot, if_pos hdot, Option.bind_some]
        exact ih hnode
      · rw [if_neg hdot]
        by_cases hdir : (s.nodes node).flags &&& 7 = fsDirectory
        · rw [if_pos hdir, walk, h.enter_directory hnode hdotdot hdot hdir, ok_bind]
          cases hfollow : follow s children node w with
          | none => exact iff_of_true rfl (fun n hn => nomatch hn)
          | some n =>
            have hn := h.follow_ne_zero hnode hfollow
            rw [Option.getD_some, if_neg hn, Option.bind_some, ih hn]
            simp
        · rw [if_neg hdir]
          have hnone : follow s children node w = none := by
            rw [follow, if_neg hdotdot, if_neg hdot, if_neg hdir]
          rw [hnone, Option.bind_none, Option.getD_none]

theorem VfsTree.resolve_of_not_safe (h : VfsTree s children) (hnode : node ≠ 0)
    (hsafe : ¬ Safe s children node ws) : resolve s children node ws = none := by
  induction ws generalizing node with
  | nil => exact absurd trivial hsafe
  | cons w ws ih =>
    rw [Safe] at hsafe
    rw [resolve]
    cases hfollow : follow s children node w with
    | none => rfl
    | some n =>
      have hn := h.follow_ne_zero hnode hfollow
      rw [Option.bind_some]
      apply ih hn
      intro hsafe'
      apply hsafe
      unfold follow at hfollow
      by_cases hdotdot : w = ['.', '.']
      · rw [if_pos hdotdot] at hfollow ⊢
        split at hfollow
        next => cases hfollow
        next hparent =>
          cases hfollow
          exact Or.inr ⟨hparent, hsafe'⟩
      · rw [if_neg hdotdot] at hfollow ⊢
        by_cases hdot : w = ['.']
        · rw [if_pos hdot] at hfollow ⊢
          cases hfollow
          exact hsafe'
        · rw [if_neg hdot] at hfollow ⊢
          split at hfollow
          next hdir =>
            rw [if_pos hdir]
            intro m hm
            rw [follow, if_neg hdotdot, if_neg hdot, if_pos hdir, hfollow] at hm
            cases hm
            exact hsafe'
          next => cases hfollow

/-- **The invariant rule** for a list of components. -/
theorem resolve_invariant {I : Nat → Prop}
    (hfollow : ∀ {node n w}, I node → follow s children node w = some n → I n) (hnode : I node)
    {n : Nat} (hn : resolve s children node ws = some n) : I n := by
  induction ws generalizing node with
  | nil =>
    cases hn
    exact hnode
  | cons w ws ih =>
    obtain ⟨m, hm, hn⟩ := Option.bind_eq_some_iff.mp hn
    exact ih (hfollow hnode hm) hn

theorem VfsTree.resolve_ne_zero (h : VfsTree s children) (hnode : node ≠ 0) {n : Nat}
    (hn : resolve s children node ws = some n) : n ≠ 0 :=
  resolve_invariant (fun hnode => h.follow_ne_zero hnode) hnode hn

theorem resolve_append (s : State) (children : Nat → List Nat) (node : Nat)
    (us ws : List (List Char)) : resolve s children node (us ++ ws) =
      (resolve s children node us).bind (fun n => resolve s children n ws) := by
  induction us generalizing node with
  | nil => rfl
  | cons u us ih =>
    rw [List.cons_append, resolve, resolve, Option.bind_assoc]
    exact Option.bind_congr (fun n _ => ih n)

theorem eq_getD_iff {n : Nat} (hn : n ≠ 0) (o : Option Nat) : n = o.getD 0 ↔ o = some n := by
  cases o with
  | none => simp [hn]
  | some m => simp [eq_comm]

theorem VfsTree.walk_eq_resolve_append_iff (h : VfsTree s children) (hnode : node ≠ 0)
    (us : List (List Char)) :
    walk s node ws = .ok ((resolve s children node (ws ++ us)).getD 0) ↔
      Safe s children node ws ∧ ∀ n, resolve s children node ws = some n →
        resolve s children n us = some n := by
  rw [resolve_append]
  by_cases hsafe : Safe s children node ws
  · rw [(h.walk_eq_resolve_iff hnode).mpr hsafe]
    cases hresolve : resolve s children node ws with
    | none => simp [hsafe]
    | some n =>
      have hn := h.resolve_ne_zero hnode hresolve
      rw [Option.bind_some, Option.getD_some, Except.ok.injEq, eq_getD_iff hn]
      simp [hsafe]
  · refine iff_of_false (fun heq => hsafe ?_) (fun hand => hsafe hand.1)
    have hnone := h.resolve_of_not_safe hnode hsafe
    rw [← h.walk_eq_resolve_iff hnode, heq, hnone]
    rfl

end Resolve

/-! ## The whole path -/

/-- The components that `vfs_open` does not read. -/
def unread (filename : List Char) : List (List Char) :=
  (components filename).drop (names filename).length

theorem names_append_unread (filename : List Char) :
    names filename ++ unread filename = components filename :=
  List.prefix_iff_eq_append.mp (names_initial filename)

/-- `vfs_open` returns the node that all components lead to, or null if they lead nowhere. -/
def OpensWhole (s : State) (children : Nat → List Nat) (filename : List Char) : Prop :=
  ∃ s', vfsOpen s filename =
    .ok ((resolve s children (startNode s filename) (components filename)).getD 0, s')

/-- The components that are not read do not matter: those that are lead nowhere, or the others lead
back to where they lead. -/
def UnreadIdle (s : State) (children : Nat → List Nat) (filename : List Char) : Prop :=
  if names filename = [] then
    resolve s children (startNode s filename) (components filename) = some s.root
  else
    Safe s children (startNode s filename) (names filename) ∧
      ∀ n, resolve s children (startNode s filename) (names filename) = some n →
        resolve s children n (unread filename) = some n

section Whole

variable {s : State} {children : Nat → List Nat} {filename : List Char}

theorem startNode_of_slash (h : filename.head? = some '/') : startNode s filename = s.root := by
  unfold startNode
  dsimp only
  rw [if_pos h]
  split <;> rfl

theorem VfsTree.startNode_ne_zero (h : VfsTree s children) (filename : List Char) :
    startNode s filename ≠ 0 := by
  unfold startNode
  dsimp only
  generalize (if filename.head? = some '/' then s.root else s.cwd) = node
  split
  next => exact h.root
  next hne => exact hne

theorem exists_ok_iff {α β : Type} (x : Except Stop (α × β)) (a : α) :
    (∃ b, x = .ok (a, b)) ↔ x.map Prod.fst = .ok a := by
  constructor
  · rintro ⟨b, rfl⟩
    rfl
  · intro h
    match x, h with
    | .ok (_, b), rfl => exact ⟨b, rfl⟩

/-- **When `vfs_open` resolves the whole path.** -/
theorem vfsOpen_resolves_iff (h : VfsTree s children) (hlen : filename.length ≤ maxPath) :
    OpensWhole s children filename ↔
      if s.mallocOk s.mallocs = true then UnreadIdle s children filename
      else resolve s children (startNode s filename) (components filename) = none := by
  have hstart := h.startNode_ne_zero filename
  rw [OpensWhole, exists_ok_iff, vfsOpen_eq hlen]
  split
  next =>
    unfold UnreadIdle
    split
    next => rw [Except.ok.injEq, eq_getD_iff h.root]
    next =>
      rw [← names_append_unread filename]
      exact h.walk_eq_resolve_append_iff hstart _
  next =>
    rw [Except.ok.injEq]
    cases hresolve : resolve s children (startNode s filename) (components filename) with
    | none => simp
    | some n => simp [h.resolve_ne_zero hstart hresolve, eq_comm]

end Whole

theorem smallTree_ops (n : Nat) :
    (smallTree.nodes n).openOp = none ∧ (smallTree.nodes n).finddirOp = none := by
  unfold smallTree
  dsimp only
  split_ifs <;> exact ⟨rfl, rfl⟩

theorem smallTree_vfs : VfsTree smallTree smallRun.children where
  tree := smallRun_mounted.tree
  root := by decide
  mount := by decide
  top := rfl
  lookup n _ := smallTree_ops n

/-- `/bin` is the mounted `bin`. -/
theorem vfsOpen_bin : resolve smallTree smallRun.children 16 [['b', 'i', 'n']] = some 48 ∧
    OpensWhole smallTree smallRun.children ['/', 'b', 'i', 'n'] :=
  ⟨rfl, (vfsOpen_resolves_iff smallTree_vfs (by decide)).mpr
    ⟨fun _ _ => trivial, fun n hn => by cases hn; rfl⟩⟩

/-- **`//bin` is the root** for `vfs_open`. -/
theorem vfsOpen_slashes : ∃ s', vfsOpen smallTree ['/', '/', 'b', 'i', 'n'] = .ok (16, s') ∧
    resolve smallTree smallRun.children 16 (components ['/', '/', 'b', 'i', 'n']) = some 48 ∧
    ¬ OpensWhole smallTree smallRun.children ['/', '/', 'b', 'i', 'n'] := by
  refine ⟨_, rfl, rfl, ?_⟩
  rintro ⟨s', heq⟩
  cases heq

end Hydrax.Vfs
