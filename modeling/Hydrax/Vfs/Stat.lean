import Hydrax.Vfs.Open

/-!
# Asking about a path

`vfs_stat` walks along a path on its own. It starts at the root whether the path is absolute or not,
it takes `.` and `..` for names, and a path without a component sends it to look up a null name.

* `statLoop_iff` — `vfs_stat` is a descent from the root that takes every component for a name,
* `walk_iff` — `vfs_open` goes where the components lead,
* `descend_of_dot` — a descent finds nothing behind a dot, as no node is called so,
* `stat_agrees_iff` — when the two agree.
-/

namespace Hydrax.Vfs

open Loop

def child (s : State) (children : Nat → List Nat) (node : Nat) (w : List Char) : Option Nat :=
  if (s.nodes node).flags &&& 7 = fsDirectory then
    (entries s children node).find? (fun n => (s.nodes n).name = w)
  else none

/-- The node that a list of names leads to, if `.` and `..` are names like any other. -/
def descend (s : State) (children : Nat → List Nat) : Nat → List (List Char) → Option Nat
  | node, [] => some node
  | node, w :: ws => (child s children node w).bind (fun n => descend s children n ws)

/-- The walk of `vfs_stat` along a list of components: the node it gets to, or null. -/
def lookup (s : State) : Nat → List (List Char) → Except Stop Nat
  | node, [] => .ok node
  | node, w :: ws => do
      let tmp ← finddir s node (some w)
      if tmp = 0 then return 0 else lookup s tmp ws

/-- The owner, the group, the length and the type of the node that was found. -/
def shown (s : State) (found : Option Nat) : Option Stat := found.map (fun n => statOf (s.nodes n))

/-- The nodes have no operations of their own that a path could meet. -/
def Plain (s : State) : Prop :=
  ∀ n, (s.nodes n).openOp = none ∧ (s.nodes n).statOp = none ∧ (s.nodes n).finddirOp = none

/-- `vfs_stat` succeeds exactly when `vfs_open` returns a node, and says what that node is. -/
def Agree (s : State) (path : List Char) : Prop :=
  ∀ st, (∃ s', vfsStat s 0 (some path) = .ok (some st, s')) ↔
    ∃ n s', vfsOpen s path = .ok (n, s') ∧ n ≠ 0 ∧ st = statOf (s.nodes n)

/-- `.` and `..`. -/
def IsDot (w : List Char) : Prop := w = ['.'] ∨ w = ['.', '.']

instance IsDot.decidable (w : List Char) : Decidable (IsDot w) :=
  inferInstanceAs (Decidable (w = ['.'] ∨ w = ['.', '.']))

variable {s : State} {children : Nat → List Nat} {path w : List Char} {node n : Nat}
  {ws : List (List Char)}

/-! ## One component -/

theorem follow_of_not_dot (hw : ¬ IsDot w) : follow s children node w = child s children node w := by
  obtain ⟨hdot, hdotdot⟩ := not_or.mp hw
  rw [follow, if_neg hdotdot, if_neg hdot, child]

theorem VfsTree.child_ne_zero (h : VfsTree s children) (hnode : node ≠ 0)
    (hn : child s children node w = some n) : n ≠ 0 := by
  rw [child] at hn
  split at hn
  · exact h.tree.entries_ne_zero h.root h.mount hnode (List.mem_of_find?_eq_some hn)
  · cases hn

theorem VfsTree.finddir_cases (h : VfsTree s children) (hs : Plain s) (hnode : node ≠ 0)
    (w : List Char) :
    finddir s node (some w) = .ok ((child s children node w).getD 0) ∨
      (∃ e, finddir s node (some w) = .error e) ∧ child s children node w = none := by
  rw [child]
  split
  next hdir => exact Or.inl (h.tree.finddir h.mount hnode hdir (hs node).2.2 w)
  next hdir =>
    refine Or.inr ⟨⟨.nullDeref, ?_⟩, rfl⟩
    unfold finddir
    dsimp only
    rw [if_neg hnode, (hs node).2.2]
    exact if_neg hdir

theorem VfsTree.enter_cases (h : VfsTree s children) (hs : Plain s) (hnode : node ≠ 0)
    (w : List Char) :
    enter s node w = .ok ((follow s children node w).getD 0) ∨
      (∃ e, enter s node w = .error e) ∧ follow s children node w = none := by
  by_cases hdotdot : w = ['.', '.']
  · rw [enter, if_pos hdotdot, follow, if_pos hdotdot]
    by_cases hroot : node = s.root
    · rw [if_pos hroot, hroot, if_pos h.top]
      exact Or.inl rfl
    · rw [if_neg hroot]
      split
      · exact Or.inr ⟨⟨_, rfl⟩, rfl⟩
      · exact Or.inl rfl
  by_cases hdot : w = ['.']
  · rw [enter, if_neg hdotdot, if_pos hdot, follow, if_neg hdotdot, if_pos hdot]
    exact Or.inl rfl
  · rw [enter, if_neg hdotdot, if_neg hdot, (hs node).1,
      follow_of_not_dot (not_or.mpr ⟨hdot, hdotdot⟩)]
    exact h.finddir_cases hs hnode w

/-! ## The walks -/

theorem VfsTree.walk_iff (h : VfsTree s children) (hs : Plain s) (hnode : node ≠ 0) :
    (walk s node ws = .ok n ∧ n ≠ 0) ↔ resolve s children node ws = some n := by
  induction ws generalizing node with
  | nil =>
    rw [walk, resolve, Except.ok.injEq, Option.some.injEq]
    exact and_iff_left_of_imp (fun heq => heq ▸ hnode)
  | cons w ws ih =>
    rw [walk, resolve]
    rcases h.enter_cases hs hnode w with henter | ⟨⟨e, henter⟩, hfollow⟩
    · rw [henter, ok_bind]
      cases hfollow : follow s children node w with
      | none =>
        rw [Option.getD_none, if_pos rfl, Option.bind_none]
        exact iff_of_false (fun hand => hand.2 (Except.ok.inj hand.1).symm) (by simp)
      | some m =>
        have hm := h.follow_ne_zero hnode hfollow
        rw [Option.getD_some, if_neg hm, Option.bind_some]
        exact ih hm
    · rw [henter, hfollow, Option.bind_none]
      exact iff_of_false (by rintro ⟨⟨⟩, -⟩) (by simp)

/-- **The loop of `vfs_stat`** looks every component up as a name. It runs once the buffer is
allocated. -/
theorem VfsTree.statLoop_iff (h : VfsTree s children) (hs : Plain s) (hnode : node ≠ 0)
    {fuel i : Nat} {st : Stat} (hdrop : (names path).drop i = ws) (hi : i ≤ (names path).length)
    (hfuel : ws.length < fuel) :
    (statLoop s.malloc.2 path fuel node i (some w)).map Prod.fst = .ok (some st) ↔
      shown s (descend s children node (w :: ws)) = some st := by
  induction fuel generalizing node i w ws with
  | zero => cases hfuel
  | succ fuel ih =>
    rw [statLoop, show (s.malloc.2.nodes node).statOp = none from (hs node).2.1, descend,
      getPathLevel_drop hdrop hi, show finddir s.malloc.2 node (some w) = finddir s node (some w)
        from rfl]
    dsimp only
    rcases h.finddir_cases hs hnode w with hfind | ⟨⟨e, hfind⟩, hchild⟩
    · rw [hfind, ok_bind]
      cases hchild : child s children node w with
      | none =>
        rw [Option.getD_none, if_pos rfl, Option.bind_none]
        exact iff_of_false (by rintro ⟨⟩) (by simp [shown])
      | some m =>
        have hm := h.child_ne_zero hnode hchild
        rw [Option.getD_some, if_neg hm, Option.bind_some]
        cases ws with
        | nil =>
          rw [descend, shown, Option.map_some, List.head?_nil]
          exact ⟨fun heq => Except.ok.inj heq, fun heq => congrArg Except.ok heq⟩
        | cons v ws =>
          obtain ⟨hlt, hdrop'⟩ := drop_succ_of_drop_eq_cons hdrop
          exact ih hm hdrop' hlt (Nat.lt_of_succ_lt_succ hfuel)
    · rw [hfind, hchild, Option.bind_none]
      exact iff_of_false (by rintro ⟨⟩) (by simp [shown])

/-- **`vfs_stat`** of a path that has a component. -/
theorem VfsTree.vfsStat_iff (h : VfsTree s children) (hs : Plain s) (hlen : path.length ≤ maxPath)
    (hnames : names path ≠ []) (hmalloc : s.mallocOk s.mallocs = true) (st : Stat) :
    (∃ s', vfsStat s 0 (some path) = .ok (some st, s')) ↔
      shown s (descend s children s.root (names path)) = some st := by
  have hlevel := getPathLevel_names path (Nat.zero_le _)
  have hlength := names_length_le path
  rw [exists_ok_iff, vfsStat, if_pos rfl]
  show Except.map _ (if s.mallocOk s.mallocs = true then _ else _) = _ ↔ _
  rw [if_pos hmalloc, assert, if_pos (by simpa using hlen), ok_bind, hlevel]
  cases hws : names path with
  | nil => exact absurd hws hnames
  | cons w ws =>
    rw [hws, List.length_cons] at hlength
    have hdrop : (names path).drop 1 = ws := by rw [hws, List.drop_succ_cons, List.drop_zero]
    have hfuel : ws.length < maxPath + 2 := by omega
    exact h.statLoop_iff hs h.root hdrop (by simp [hws]) hfuel

theorem VfsTree.vfsOpen_iff (h : VfsTree s children) (hs : Plain s) (hlen : path.length ≤ maxPath)
    (hnames : names path ≠ []) (hmalloc : s.mallocOk s.mallocs = true) (st : Stat) :
    (∃ n s', vfsOpen s path = .ok (n, s') ∧ n ≠ 0 ∧ st = statOf (s.nodes n)) ↔
      shown s (resolve s children (startNode s path) (names path)) = some st := by
  have hopen := vfsOpen_eq (s := s) hlen
  rw [if_pos hmalloc, if_neg hnames] at hopen
  rw [shown, Option.map_eq_some_iff]
  refine exists_congr (fun n => ?_)
  rw [exists_and_right, exists_ok_iff, hopen, ← and_assoc, h.walk_iff hs (h.startNode_ne_zero path),
    eq_comm (a := st)]

/-! ## When they agree -/

theorem finddir_null (hs : Plain s) {tmp : Nat} (h : finddir s node none = .ok tmp) : tmp = 0 := by
  have hfind : ∀ {fuel p}, findName s.nodes none fuel p = .ok tmp → tmp = 0 := by
    intro fuel p hp
    cases fuel with
    | zero => cases hp
    | succ fuel =>
      rw [findName] at hp
      split at hp <;> cases hp
      rfl
  unfold finddir at h
  dsimp only at h
  generalize (if node = 0 then s.root else node) = d at h
  rw [(hs d).2.2] at h
  dsimp only at h
  split at h
  next =>
    obtain ⟨t, ht, h⟩ := bind_eq_ok.mp h
    split at h
    next =>
      cases h
      exact hfind ht
    next =>
      split at h
      next => split at h <;> [cases h; exact hfind h]
      next =>
        cases h
        rfl
  next => cases h

theorem VfsTree.not_agree_of_names_nil (h : VfsTree s children) (hs : Plain s)
    (hlen : path.length ≤ maxPath) (hnames : names path = [])
    (hmalloc : s.mallocOk s.mallocs = true) : ¬ Agree s path := by
  intro hagree
  have hopen := vfsOpen_eq (s := s) hlen
  rw [if_pos hmalloc, if_pos hnames] at hopen
  obtain ⟨s', hcall⟩ := (exists_ok_iff _ _).mpr hopen
  obtain ⟨s'', hstat⟩ := (hagree _).mpr ⟨s.root, s', hcall, h.root, rfl⟩
  have hlevel := getPathLevel_names path (Nat.zero_le _)
  rw [hnames] at hlevel
  have hloop : vfsStat s 0 (some path) = statLoop s.malloc.2 path (maxPath + 2) s.root 1 none := by
    rw [vfsStat, if_pos rfl]
    show (if s.mallocOk s.mallocs = true then _ else _) = _
    rw [if_pos hmalloc, assert, if_pos (by simpa using hlen), ok_bind, hlevel]
    rfl
  have hplain : Plain s.malloc.2 := hs
  rw [hloop, statLoop, (hplain s.root).2.1] at hstat
  obtain ⟨tmp, htmp, hstat⟩ := bind_eq_ok.mp hstat
  rw [if_pos (finddir_null hplain htmp)] at hstat
  cases hstat

theorem VfsTree.agree_iff (h : VfsTree s children) (hs : Plain s) (hlen : path.length ≤ maxPath) :
    Agree s path ↔ (s.mallocOk s.mallocs = true → names path ≠ [] ∧
      shown s (descend s children s.root (names path)) =
        shown s (resolve s children (startNode s path) (names path))) := by
  by_cases hmalloc : s.mallocOk s.mallocs = true
  · rw [imp_iff_right hmalloc]
    by_cases hnames : names path = []
    · exact iff_of_false (h.not_agree_of_names_nil hs hlen hnames hmalloc) (fun hand => hand.1 hnames)
    · rw [Agree, and_iff_right hnames]
      simp only [h.vfsStat_iff hs hlen hnames hmalloc, h.vfsOpen_iff hs hlen hnames hmalloc]
      exact ⟨Option.ext, fun heq st => by rw [heq]⟩
  · -- both calls give up
    refine iff_of_true (fun st => iff_of_false ?_ ?_) (fun h => absurd h hmalloc)
    · rintro ⟨s', hstat⟩
      rw [vfsStat, if_pos rfl] at hstat
      change (if s.mallocOk s.mallocs = true then _ else _) = _ at hstat
      rw [if_neg hmalloc] at hstat
      cases hstat
    · rintro ⟨n, s', hcall, hn, -⟩
      have hopen := vfsOpen_eq (s := s) hlen
      rw [if_neg hmalloc, hcall] at hopen
      exact hn (Except.ok.inj hopen)

theorem descend_eq_resolve (hws : ∀ w ∈ ws, ¬ IsDot w) :
    descend s children node ws = resolve s children node ws := by
  induction ws generalizing node with
  | nil => rfl
  | cons w ws ih =>
    rw [List.forall_mem_cons] at hws
    rw [descend, resolve, follow_of_not_dot hws.1]
    exact Option.bind_congr (fun n _ => ih hws.2)

theorem descend_of_dot (hnames : ∀ n, ¬ IsDot (s.nodes n).name) (hw : w ∈ ws) (hdot : IsDot w) :
    descend s children node ws = none := by
  induction ws generalizing node with
  | nil => cases hw
  | cons v ws ih =>
    rw [descend, Option.bind_eq_none_iff]
    intro n hn
    rcases List.mem_cons.mp hw with rfl | hw
    · rw [child] at hn
      split at hn
      · have hname := List.find?_some hn
        exact absurd hdot (of_decide_eq_true hname ▸ hnames n)
      · cases hn
    · exact ih hw

/-- **When `vfs_stat` and `vfs_open` agree on a path.** They do if there is no memory for either. If
there is, the path must have a component, and its components must lead to nodes that look alike, or
both nowhere: from the root with dots as names, and from where the path begins with dots as they are
meant. From the root, and where no node is called a dot, they agree on the paths without dots and on
those that lead nowhere. -/
theorem stat_agrees_iff (h : VfsTree s children) (hs : Plain s) (hlen : path.length ≤ maxPath) :
    (Agree s path ↔ (s.mallocOk s.mallocs = true → names path ≠ [] ∧
      shown s (descend s children s.root (names path)) =
        shown s (resolve s children (startNode s path) (names path)))) ∧
    (startNode s path = s.root → (∀ n, ¬ IsDot (s.nodes n).name) →
      (Agree s path ↔ (s.mallocOk s.mallocs = true → names path ≠ [] ∧
        ((∀ w ∈ names path, ¬ IsDot w) ∨ resolve s children s.root (names path) = none)))) := by
  refine ⟨h.agree_iff hs hlen, fun hstart hdots => ?_⟩
  rw [h.agree_iff hs hlen, hstart]
  refine imp_congr_right (fun _ => and_congr_right (fun _ => ?_))
  by_cases hall : ∀ w ∈ names path, ¬ IsDot w
  · exact iff_of_true (by rw [descend_eq_resolve hall]) (Or.inl hall)
  · have ⟨w, hw, hdot⟩ : ∃ w ∈ names path, IsDot w := by simpa using hall
    rw [descend_of_dot hdots hw hdot, or_iff_right hall, shown, shown, Option.map_none, eq_comm,
      Option.map_eq_none_iff]

theorem smallTree_plain : Plain smallTree := by
  intro n
  unfold smallTree
  dsimp only
  split_ifs <;> exact ⟨rfl, rfl, rfl⟩

/-- `/bin`, and `/x/..`, which leads nowhere. -/
theorem stat_agrees_small : Agree smallTree "/bin".toList ∧ Agree smallTree "/x/..".toList := by
  have hiff := fun {p : List Char} (hp : p.length ≤ maxPath) =>
    (stat_agrees_iff smallTree_vfs smallTree_plain hp).1
  exact ⟨(hiff (by decide)).mpr fun _ => ⟨by decide, rfl⟩,
    (hiff (by decide)).mpr fun _ => ⟨by decide, rfl⟩⟩

/-- **`/` can be opened, and `vfs_stat` compares names with null for it**; `/bin/.` can be opened,
and `vfs_stat` does not find it. -/
theorem stat_differs : (∃ s', vfsOpen smallTree ['/'] = .ok (16, s')) ∧
    vfsStat smallTree 0 (some ['/']) = .error .nullDeref ∧ ¬ Agree smallTree ['/'] ∧
    (∃ s', vfsOpen smallTree "/bin/.".toList = .ok (48, s')) ∧
    (∃ s', vfsStat smallTree 0 (some "/bin/.".toList) = .ok (none, s')) ∧
    ¬ Agree smallTree "/bin/.".toList := by
  refine ⟨⟨_, rfl⟩, rfl, fun h => ?_, ⟨_, rfl⟩, ⟨_, rfl⟩, fun h => ?_⟩
  · obtain ⟨s', heq⟩ := (h _).mpr ⟨16, _, rfl, by decide, rfl⟩
    cases heq
  · obtain ⟨s', heq⟩ := (h _).mpr ⟨48, _, rfl, by decide, rfl⟩
    cases heq

end Hydrax.Vfs
