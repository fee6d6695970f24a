import Mathlib.Data.List.Nodup
import Mathlib.Data.List.Perm.Subperm

/-!
# Linked cells

A store of cells, each with the address of the next one. `Chain next null a l` says that the cells
met from `a` on, before `null`, are those of `l`.

* `Chain.unique` — there is at most one such list,
* `Chain.nodup` — no cell is met twice,
* `Chain.congr` — only the cells of the list matter,
* `Chain.map` — the cells may be moved,
* `Chain.append_cell`, `Chain.unlink` — linking a cell behind the last one, and taking one out,
* `Chain.length_lt` — a chain in bounded memory is shorter than the bound.
-/

namespace Hydrax

variable {α : Type}

/-- The cells from `a` on are `l`, and then comes `null`. -/
def Chain (next : α → α) (null : α) : α → List α → Prop
  | a, [] => a = null
  | a, x :: l => a = x ∧ x ≠ null ∧ Chain next null (next x) l

namespace Chain

variable {next next' : α → α} {null a x b : α} {l l' p q : List α}

/-- A chain that starts at `null` is empty, and only such a chain is. -/
theorem eq_nil_iff (h : Chain next null a l) : l = [] ↔ a = null := by
  cases l with
  | nil => exact ⟨fun _ => h, fun _ => rfl⟩
  | cons x l =>
    obtain ⟨rfl, hx, -⟩ := h
    exact ⟨fun h => absurd h (by simp), fun h => absurd h hx⟩

theorem unique (h : Chain next null a l) (h' : Chain next null a l') : l = l' := by
  induction l generalizing a l' with
  | nil => exact ((eq_nil_iff h').mpr h).symm
  | cons x l ih =>
    obtain ⟨rfl, hx, hl⟩ := h
    cases l' with
    | nil => exact absurd h' hx
    | cons y l' =>
      obtain ⟨rfl, -, hl'⟩ := h'
      rw [ih hl hl']

theorem ne_null (h : Chain next null a l) (hx : x ∈ l) : x ≠ null := by
  induction l generalizing a with
  | nil => simp at hx
  | cons y l ih =>
    obtain ⟨-, hy, hl⟩ := h
    rcases List.mem_cons.mp hx with rfl | hx
    · exact hy
    · exact ih hl hx

/-- The rest of a chain is the chain from there on. -/
theorem drop (h : Chain next null a (p ++ q)) : ∃ b, Chain next null b q := by
  induction p generalizing a with
  | nil => exact ⟨a, h⟩
  | cons y p ih => exact ih h.2.2

theorem of_append_cons (h : Chain next null a (p ++ x :: q)) : Chain next null x (x :: q) := by
  obtain ⟨b, hb⟩ := h.drop
  obtain ⟨rfl, hx, hq⟩ := hb
  exact ⟨rfl, hx, hq⟩

theorem nodup (h : Chain next null a l) : l.Nodup := by
  induction l generalizing a with
  | nil => exact List.nodup_nil
  | cons x l ih =>
    obtain ⟨rfl, hx, hl⟩ := h
    refine List.nodup_cons.mpr ⟨fun hmem => ?_, ih hl⟩
    -- a second visit would make the chain from there on as long as this one
    obtain ⟨p, q, rfl⟩ := List.append_of_mem hmem
    have hagain := hl.of_append_cons
    have hfirst : Chain next null a (a :: (p ++ a :: q)) := ⟨rfl, hx, hl⟩
    have hlen := congrArg List.length (hfirst.unique hagain)
    simp at hlen
    omega

theorem congr (h : Chain next null a l) (hn : ∀ x ∈ l, next' x = next x) :
    Chain next' null a l := by
  induction l generalizing a with
  | nil => exact h
  | cons x l ih =>
    obtain ⟨rfl, hx, hl⟩ := h
    refine ⟨rfl, hx, ?_⟩
    rw [hn a (by simp)]
    exact ih hl (fun y hy => hn y (by simp [hy]))

theorem map {β : Type} {next' : β → β} {null' : β} (h : Chain next null a l) (g : α → β)
    (hnull : g null = null') (hl : ∀ x ∈ l, g x ≠ null')
    (hn : ∀ x ∈ l, next' (g x) = g (next x)) : Chain next' null' (g a) (l.map g) := by
  induction l generalizing a with
  | nil =>
    have ha : a = null := h
    exact (congrArg g ha).trans hnull
  | cons x l ih =>
    obtain ⟨rfl, -, hrest⟩ := h
    rw [List.forall_mem_cons] at hl hn
    refine ⟨rfl, hl.1, ?_⟩
    rw [hn.1]
    exact ih hrest hl.2 hn.2

theorem append_cell (h : Chain next null a (l ++ [x])) (hb : b ≠ null) (hx : next' x = b)
    (hn : next' b = null) (hl : ∀ y ∈ l, next' y = next y) :
    Chain next' null a (l ++ [x, b]) := by
  induction l generalizing a with
  | nil =>
    obtain ⟨rfl, hx0, -⟩ := h
    exact ⟨rfl, hx0, hx, hb, hn⟩
  | cons y l ih =>
    obtain ⟨rfl, hy, hrest⟩ := h
    refine ⟨rfl, hy, ?_⟩
    rw [hl a (by simp)]
    exact ih hrest (fun z hz => hl z (by simp [hz]))

theorem unlink_first (h : Chain next null a (x :: l)) (hl : ∀ y ∈ l, next' y = next y) :
    Chain next' null (next x) l :=
  h.2.2.congr hl

theorem unlink (h : Chain next null a (p ++ b :: x :: q)) (hb : next' b = next x)
    (hp : ∀ y ∈ p, next' y = next y) (hq : ∀ y ∈ q, next' y = next y) :
    Chain next' null a (p ++ b :: q) := by
  induction p generalizing a with
  | nil =>
    obtain ⟨rfl, ha, rfl, -, hrest⟩ := h
    refine ⟨rfl, ha, ?_⟩
    rw [hb]
    exact hrest.congr hq
  | cons y p ih =>
    obtain ⟨rfl, ha, hrest⟩ := h
    refine ⟨rfl, ha, ?_⟩
    rw [hp a List.mem_cons_self]
    exact ih hrest (fun z hz => hp z (List.mem_cons_of_mem _ hz))

theorem length_lt {next : Nat → Nat} {a m : Nat} {l : List Nat} (h : Chain next 0 a l) (hm : 0 < m)
    (hl : ∀ x ∈ l, x < m) : l.length < m := by
  have hnodup : (0 :: l).Nodup :=
    List.nodup_cons.mpr ⟨fun h0 => h.ne_null h0 rfl, h.nodup⟩
  have hsub : 0 :: l ⊆ List.range m := by
    intro x hx
    rcases List.mem_cons.mp hx with rfl | hx
    · exact List.mem_range.mpr hm
    · exact List.mem_range.mpr (hl x hx)
  have hle := (hnodup.subperm hsub).length_le
  rw [List.length_range, List.length_cons] at hle
  exact hle

end Chain

end Hydrax
