import Mathlib.Data.List.Infix
import Mathlib.Data.List.Dedup
import Hydrax.Chain

/-!
# Trees in an array

The nodes of a tree are kept in an array, in the order in which they were made. A node stands for
the path that leads to it from the root, so the tree is a list of paths, and the children of a node
are linked: `ptr` gives the first and `next` the one after it.

* `Rooted P` — the paths of `P` form a tree,
* `layout ps` — the tree that has the paths of `ps` and what they go through,
* `Linked ptr next base size P` — the links are those of the tree of `P`,
* `Linked.add` — a node is put behind its siblings,
* `Linked.rebase` — the array is moved and every link with it,
* `Linked.found` — what can be found along the links is what is in the tree.
-/

namespace Hydrax.Arena

variable {α : Type} {P : List (List α)} {d q x : List α} {w : α}

/-! ## Lists of paths -/

/-- The paths form a tree, and the root was made first. -/
structure Rooted (P : List (List α)) : Prop where
  nodup : P.Nodup
  root : P.head? = some []
  closed : ∀ q ∈ P, q.dropLast ∈ P

theorem Rooted.nil_mem (h : Rooted P) : [] ∈ P := List.mem_of_mem_head? h.root

/-- What a path of the tree goes through is in the tree. -/
theorem Rooted.mem_of_initial (h : Rooted P) (hq : q ∈ P) (hx : x <+: q) : x ∈ P := by
  induction q using List.reverseRecOn with
  | nil =>
    rw [List.prefix_nil.mp hx]
    exact hq
  | append_singleton q a ih =>
    rcases List.prefix_concat_iff.mp hx with rfl | hx
    · exact hq
    · have hclosed := h.closed _ hq
      rw [List.dropLast_concat] at hclosed
      exact ih hclosed hx

theorem Rooted.concat (h : Rooted P) (hq : q ∉ P) (hd : q.dropLast ∈ P) : Rooted (P ++ [q]) where
  nodup := by
    rw [List.nodup_append]
    refine ⟨h.nodup, List.nodup_singleton q, fun x hx y hy => ?_⟩
    rintro rfl
    exact hq (List.mem_singleton.mp hy ▸ hx)
  root := by
    rw [List.head?_append, h.root]
    rfl
  closed x hx := by
    rcases List.mem_append.mp hx with hx | hx
    · exact List.mem_append_left _ (h.closed x hx)
    · rw [List.mem_singleton.mp hx]
      exact List.mem_append_left _ hd

variable [DecidableEq α]

/-- The children of `d`, in the order in which they were made. -/
def kids (P : List (List α)) (d : List α) : List (List α) :=
  P.filter (fun q => q ≠ [] ∧ q.dropLast = d)

/-- Make the node of `q`, unless there is one. -/
def touch (P : List (List α)) (q : List α) : List (List α) := if q ∈ P then P else P ++ [q]

/-- Make the nodes that `ws` goes through from `d` on. -/
def touchFrom (P : List (List α)) : List α → List α → List (List α)
  | _, [] => P
  | d, w :: ws => touchFrom (touch P (d ++ [w])) (d ++ [w]) ws

/-- The tree of the paths `ps`. -/
def layout (ps : List (List α)) : List (List α) := ps.foldl (fun P q => touchFrom P [] q) [[]]

theorem mem_touch : x ∈ touch P q ↔ x ∈ P ∨ x = q := by
  unfold touch
  split
  next hq =>
    constructor
    · exact Or.inl
    · rintro (hx | rfl)
      · exact hx
      · exact hq
  next => rw [List.mem_append, List.mem_singleton]

theorem touch_initial (P : List (List α)) (q : List α) : P <+: touch P q := by
  unfold touch
  split
  next => exact List.prefix_refl P
  next => exact List.prefix_append P [q]

theorem touchFrom_initial (P : List (List α)) (d ws : List α) : P <+: touchFrom P d ws := by
  induction ws generalizing P d with
  | nil => exact List.prefix_refl P
  | cons w ws ih => exact (touch_initial P _).trans (ih _ _)

theorem Rooted.touch (h : Rooted P) (hd : q.dropLast ∈ P) : Rooted (touch P q) := by
  unfold Arena.touch
  split
  next => exact h
  next hq => exact h.concat hq hd

theorem Rooted.touchFrom (h : Rooted P) (hd : d ∈ P) (ws : List α) : Rooted (touchFrom P d ws) := by
  induction ws generalizing P d with
  | nil => exact h
  | cons w ws ih =>
    refine ih (h.touch ?_) (mem_touch.mpr (Or.inr rfl))
    rw [List.dropLast_concat]
    exact hd

/-- The last node that is made is that of the whole path. -/
theorem touchFrom_concat (P : List (List α)) (d ws : List α) (w : α) :
    touchFrom P d (ws ++ [w]) = touch (touchFrom P d ws) (d ++ ws ++ [w]) := by
  induction ws generalizing P d with
  | nil =>
    rw [List.append_nil]
    rfl
  | cons v ws ih =>
    rw [List.cons_append, touchFrom, touchFrom, ih, List.append_assoc d [v] ws]
    rfl

theorem mem_touchFrom (hd : d ∈ P) (ws : List α) :
    x ∈ touchFrom P d ws ↔ x ∈ P ∨ ∃ us, us <+: ws ∧ x = d ++ us := by
  induction ws generalizing P d with
  | nil =>
    rw [touchFrom]
    refine ⟨Or.inl, ?_⟩
    rintro (hx | ⟨us, hus, rfl⟩)
    · exact hx
    · rw [List.prefix_nil.mp hus, List.append_nil]
      exact hd
  | cons w ws ih =>
    rw [touchFrom, ih (mem_touch.mpr (Or.inr rfl)), mem_touch]
    constructor
    · rintro ((hx | rfl) | ⟨us, hus, rfl⟩)
      · exact Or.inl hx
      · exact Or.inr ⟨[w], by simp, rfl⟩
      · exact Or.inr ⟨w :: us, List.cons_prefix_cons.mpr ⟨rfl, hus⟩, by simp⟩
    · rintro (hx | ⟨us, hus, rfl⟩)
      · exact Or.inl (Or.inl hx)
      · rcases List.prefix_cons_iff.mp hus with rfl | ⟨vs, rfl, hvs⟩
        · rw [List.append_nil]
          exact Or.inl (Or.inl hd)
        · exact Or.inr ⟨vs, hvs, by simp⟩

section Layout

variable {ps : List (List α)}

theorem layout_concat (ps : List (List α)) (q : List α) :
    layout (ps ++ [q]) = touchFrom (layout ps) [] q := by
  rw [layout, List.foldl_append]
  rfl

theorem layout_initial (ps qs : List (List α)) : layout ps <+: layout (ps ++ qs) := by
  induction qs using List.reverseRecOn with
  | nil =>
    rw [List.append_nil]
  | append_singleton qs q ih =>
    rw [← List.append_assoc, layout_concat]
    exact ih.trans (touchFrom_initial _ _ _)

theorem rooted_layout (ps : List (List α)) : Rooted (layout ps) := by
  induction ps using List.reverseRecOn with
  | nil =>
    refine ⟨List.nodup_singleton [], rfl, fun q hq => ?_⟩
    rw [List.mem_singleton.mp hq]
    exact List.mem_singleton_self []
  | append_singleton ps q ih =>
    rw [layout_concat]
    exact ih.touchFrom ih.nil_mem q

/-- The nodes are the paths and what they go through. -/
theorem mem_layout : x ∈ layout ps ↔ x = [] ∨ ∃ q ∈ ps, x <+: q := by
  induction ps using List.reverseRecOn with
  | nil =>
    rw [layout, List.foldl_nil, List.mem_singleton]
    simp
  | append_singleton ps q ih =>
    rw [layout_concat, mem_touchFrom (rooted_layout ps).nil_mem, ih]
    simp only [List.nil_append, exists_eq_right', List.mem_append, List.mem_singleton,
      or_and_right, exists_or, exists_eq_left, or_assoc]

theorem length_layout (ps : List (List α)) :
    (layout ps).length = ([] :: ps.flatMap List.inits).dedup.length := by
  apply List.Perm.length_eq
  rw [List.perm_ext_iff_of_nodup (rooted_layout ps).nodup (List.nodup_dedup _)]
  intro x
  rw [mem_layout, List.mem_dedup, List.mem_cons, List.mem_flatMap]
  simp only [List.mem_inits]

end Layout

/-! ## Places -/

/-- The place of a node: nodes of `size` bytes lie from `base` on. -/
def place (base size : Nat) (P : List (List α)) (q : List α) : Nat := base + size * P.idxOf q

section Places

variable {base size : Nat}

theorem place_nil (h : Rooted P) : place base size P [] = base := by
  have hidx : P.idxOf [] = 0 := by
    match P, h.root with
    | [] :: P, rfl => rw [List.idxOf_cons_self]
  rw [place, hidx, Nat.mul_zero, Nat.add_zero]

theorem place_of_initial {P' : List (List α)} (h : P <+: P') (hq : q ∈ P) :
    place base size P' q = place base size P q := by
  obtain ⟨l, rfl⟩ := h
  rw [place, List.idxOf_append_of_mem hq, place]

theorem place_concat_of_mem (hq : q ∈ P) (x : List α) :
    place base size (P ++ [x]) q = place base size P q :=
  place_of_initial (List.prefix_append P [x]) hq

theorem place_concat_self (hq : q ∉ P) :
    place base size (P ++ [q]) q = base + size * P.length := by
  rw [place, List.idxOf_append_of_notMem hq, List.idxOf_cons_self, Nat.add_zero]

theorem exists_place (hq : q ∈ P) (size : Nat) :
    ∃ i < P.length, ∀ base, place base size P q = base + size * i :=
  ⟨P.idxOf q, List.idxOf_lt_length_of_mem hq, fun _ => rfl⟩

theorem place_inj (hsize : 0 < size) (hq : q ∈ P)
    (h : place base size P q = place base size P x) : q = x := by
  rw [place, place, Nat.add_left_cancel_iff] at h
  exact (List.idxOf_inj hq).mp (Nat.eq_of_mul_eq_mul_left hsize h)

theorem place_ne_new (hsize : 0 < size) (hq : q ∈ P) :
    place base size P q ≠ base + size * P.length := by
  intro h
  rw [place, Nat.add_left_cancel_iff] at h
  have hlt := List.idxOf_lt_length_of_mem hq
  rw [Nat.eq_of_mul_eq_mul_left hsize h] at hlt
  exact Nat.lt_irrefl _ hlt

end Places

/-! ## Links -/

theorem mem_kids : x ∈ kids P d ↔ ∃ w, x = d ++ [w] ∧ d ++ [w] ∈ P := by
  rw [kids, List.mem_filter, decide_eq_true_iff]
  constructor
  · rintro ⟨hx, hne, rfl⟩
    refine ⟨x.getLast hne, ?_, ?_⟩
    · rw [List.dropLast_append_getLast hne]
    · rwa [List.dropLast_append_getLast hne]
  · rintro ⟨w, rfl, hx⟩
    exact ⟨hx, by simp, List.dropLast_concat⟩

theorem kids_concat (P : List (List α)) (d q : List α) (w : α) :
    kids (P ++ [q ++ [w]]) d = if q = d then kids P d ++ [q ++ [w]] else kids P d := by
  rw [kids, List.filter_append]
  split
  next h =>
    rw [List.filter_cons_of_pos (by simpa using h)]
    rfl
  next h =>
    rw [List.filter_cons_of_neg (by simpa using h), List.filter_nil, List.append_nil]
    rfl

theorem Rooted.kids_eq_nil (h : Rooted P) (hd : d ∉ P) : kids P d = [] := by
  rw [List.eq_nil_iff_forall_not_mem]
  intro x hx
  obtain ⟨w, rfl, hmem⟩ := mem_kids.mp hx
  have hclosed := h.closed _ hmem
  rw [List.dropLast_concat] at hclosed
  exact hd hclosed

/-- The children of every node are linked. -/
structure Linked (ptr next : Nat → Nat) (base size : Nat) (P : List (List α)) : Prop where
  rooted : Rooted P
  chain : ∀ d ∈ P, Chain next 0 (ptr (place base size P d)) ((kids P d).map (place base size P))

section Links

variable {ptr next ptr' next' : Nat → Nat} {base size : Nat}

theorem Linked.ne_zero (h : Linked ptr next base size P) (hx : d ++ [w] ∈ P) :
    place base size P (d ++ [w]) ≠ 0 := by
  have hd := h.rooted.closed _ hx
  rw [List.dropLast_concat] at hd
  exact (h.chain d hd).ne_null (List.mem_map_of_mem (mem_kids.mpr ⟨w, rfl, hx⟩))

theorem Linked.add (h : Linked ptr next base size P) (hd : d ∈ P) (hnew : d ++ [w] ∉ P)
    (hchain : Chain next' 0 (ptr' (place base size P d))
      ((kids P d).map (place base size P) ++ [base + size * P.length]))
    (hleaf : ptr' (base + size * P.length) = 0)
    (hptr : ∀ x ∈ P, x ≠ d → ptr' (place base size P x) = ptr (place base size P x))
    (hnext : ∀ x ∈ P, x ∉ kids P d → next' (place base size P x) = next (place base size P x)) :
    Linked ptr' next' base size (P ++ [d ++ [w]]) where
  rooted := h.rooted.concat hnew (by rwa [List.dropLast_concat])
  chain x hx := by
    have hold : ∀ e, (kids P e).map (place base size (P ++ [d ++ [w]])) =
        (kids P e).map (place base size P) := fun e =>
      List.map_congr_left (fun y hy => place_concat_of_mem (List.mem_of_mem_filter hy) _)
    rcases List.mem_append.mp hx with hx | hx
    · rw [place_concat_of_mem hx, kids_concat]
      by_cases hxd : d = x
      · subst hxd
        rw [if_pos rfl, List.map_append, List.map_singleton, hold, place_concat_self hnew]
        exact hchain
      · rw [if_neg hxd, hold, hptr x hx (Ne.symm hxd)]
        refine (h.chain x hx).congr (fun y hy => ?_)
        obtain ⟨z, hz, rfl⟩ := List.mem_map.mp hy
        refine hnext z (List.mem_of_mem_filter hz) (fun hzd => hxd ?_)
        -- a node is the child of one node only
        obtain ⟨u, rfl, -⟩ := mem_kids.mp hz
        obtain ⟨v, heq, -⟩ := mem_kids.mp hzd
        exact (List.append_inj_left' heq rfl).symm
    · rw [List.mem_singleton.mp hx, place_concat_self hnew, kids_concat,
        if_neg (fun heq : d = d ++ [w] => by simp at heq), h.rooted.kids_eq_nil hnew, hleaf]
      rfl

theorem Linked.rebase (h : Linked ptr next base size P) {base' : Nat} (g : Nat → Nat)
    (hg₀ : g 0 = 0) (hg : ∀ i < P.length, g (base + size * i) = base' + size * i)
    (hbase : base' ≠ 0)
    (hptr : ∀ i < P.length, ptr' (base' + size * i) = g (ptr (base + size * i)))
    (hnext : ∀ i < P.length, next' (base' + size * i) = g (next (base + size * i))) :
    Linked ptr' next' base' size P where
  rooted := h.rooted
  chain d hd := by
    have hplace : ∀ x ∈ P, g (place base size P x) = place base' size P x := fun x hx =>
      hg _ (List.idxOf_lt_length_of_mem hx)
    have hmap : (kids P d).map (place base' size P) =
        ((kids P d).map (place base size P)).map g := by
      rw [List.map_map]
      exact List.map_congr_left (fun x hx => (hplace x (List.mem_of_mem_filter hx)).symm)
    rw [hmap, show ptr' (place base' size P d) = g (ptr (place base size P d)) from
      hptr _ (List.idxOf_lt_length_of_mem hd)]
    refine (h.chain d hd).map g hg₀ (fun y hy => ?_) (fun y hy => ?_)
    · obtain ⟨x, hx, rfl⟩ := List.mem_map.mp hy
      rw [hplace x (List.mem_of_mem_filter hx), place]
      omega
    · obtain ⟨x, hx, rfl⟩ := List.mem_map.mp hy
      rw [hplace x (List.mem_of_mem_filter hx)]
      exact hnext _ (List.idxOf_lt_length_of_mem (List.mem_of_mem_filter hx))

end Links

/-! ## Names -/

/-- Every node but the root has the last part of its path for a name. -/
def Labelled (name : Nat → α) (base size : Nat) (P : List (List α)) : Prop :=
  ∀ d w, d ++ [w] ∈ P → name (place base size P (d ++ [w])) = w

/-- What can be found from the root along the links, with the names on the way. -/
inductive Found (ptr next : Nat → Nat) (name : Nat → α) (root : Nat) : List α → Nat → Prop where
  | root : Found ptr next name root [] root
  | first {d : List α} {x : Nat} (h : Found ptr next name root d x) (hx : ptr x ≠ 0) :
      Found ptr next name root (d ++ [name (ptr x)]) (ptr x)
  | next {d : List α} {w : α} {x : Nat} (h : Found ptr next name root (d ++ [w]) x)
      (hx : next x ≠ 0) : Found ptr next name root (d ++ [name (next x)]) (next x)

section Names

variable {ptr next : Nat → Nat} {name : Nat → α} {base size : Nat}

/-- **Seeking a name** among the children of a node. -/
theorem find?_kids (hname : Labelled name base size P) (d : List α) (w : α) :
    ((kids P d).map (place base size P)).find? (fun y => name y = w) =
      if d ++ [w] ∈ P then some (place base size P (d ++ [w])) else none := by
  cases hfind : ((kids P d).map (place base size P)).find? (fun y => name y = w) with
  | none =>
    rw [if_neg]
    intro hmem
    rw [List.find?_eq_none] at hfind
    refine hfind _ (List.mem_map_of_mem (mem_kids.mpr ⟨w, rfl, hmem⟩)) ?_
    rw [decide_eq_true_iff]
    exact hname d w hmem
  | some y =>
    obtain ⟨x, hx, rfl⟩ := List.mem_map.mp (List.mem_of_find?_eq_some hfind)
    obtain ⟨v, rfl, hmem⟩ := mem_kids.mp hx
    have hv : name (place base size P (d ++ [v])) = w := by simpa using List.find?_some hfind
    rw [hname d v hmem] at hv
    subst hv
    rw [if_pos hmem]

theorem Linked.found (h : Linked ptr next base size P) (hname : Labelled name base size P) {y : Nat}
    (hf : Found ptr next name base x y) : x ∈ P ∧ y = place base size P x := by
  induction hf with
  | root => exact ⟨h.rooted.nil_mem, (place_nil h.rooted).symm⟩
  | @first d y _ hy ih =>
    obtain ⟨hd, rfl⟩ := ih
    have hchain := h.chain d hd
    cases hkids : kids P d with
    | nil =>
      rw [hkids] at hchain
      exact absurd hchain hy
    | cons x l =>
      rw [hkids] at hchain
      obtain ⟨heq, -, -⟩ := hchain
      obtain ⟨w, rfl, hmem⟩ := mem_kids.mp (hkids ▸ List.mem_cons_self : x ∈ kids P d)
      rw [heq, hname d w hmem]
      exact ⟨hmem, rfl⟩
  | @next d w y _ hy ih =>
    obtain ⟨hmem, rfl⟩ := ih
    have hd := h.rooted.closed _ hmem
    rw [List.dropLast_concat] at hd
    obtain ⟨l, l', hsplit⟩ := List.append_of_mem (mem_kids.mpr ⟨w, rfl, hmem⟩)
    have hchain := h.chain d hd
    rw [hsplit, List.map_append, List.map_cons] at hchain
    obtain ⟨-, -, hrest⟩ := hchain.of_append_cons
    cases l' with
    | nil => exact absurd hrest hy
    | cons x l' =>
      obtain ⟨heq, -, -⟩ := hrest
      have hx : x ∈ kids P d := by
        rw [hsplit]
        simp
      obtain ⟨v, rfl, hmem'⟩ := mem_kids.mp hx
      rw [heq, hname d v hmem']
      exact ⟨hmem', rfl⟩

end Names

end Hydrax.Arena
