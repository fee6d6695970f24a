import Mathlib.Data.Fintype.Fin

/-!
# Queues in levels

A queue of at most `n` items that has no counter. Level `i` is marked when more than `i` items wait,
and slot `i` has the item at place `i` of the queue. `Encodes marks slots q` says that the levels
and slots stand for the queue `q`.

* `Encodes.push` — an item is put at the lowest level without a mark,
* `Encodes.pop` — the item in the first slot is taken, the others move down, and the highest mark
  goes,
* `Encodes.full_iff`, `Encodes.card` — the marks tell the length.
-/

namespace Hydrax.Levels

variable {α : Type} {n : Nat} {marks : Fin n → Bool} {slots slots' : Fin n → α} {q : List α}

/-- The levels and slots stand for a queue. -/
structure Encodes (marks : Fin n → Bool) (slots : Fin n → α) (q : List α) : Prop where
  mark : ∀ i, marks i = decide (i.val < q.length)
  slot : ∀ i x, q[i.val]? = some x → slots i = x
  length : q.length ≤ n

theorem Encodes.nil (h : ∀ i, marks i = false) : Encodes marks slots [] where
  mark i := by simp [h i]
  slot i x hx := by simp at hx
  length := Nat.zero_le n

theorem Encodes.marked_iff (h : Encodes marks slots q) (i : Fin n) :
    marks i = true ↔ i.val < q.length := by
  rw [h.mark i, decide_eq_true_iff]

theorem Encodes.unmarked_iff (h : Encodes marks slots q) (i : Fin n) :
    marks i = false ↔ q.length ≤ i.val := by
  rw [h.mark i, decide_eq_false_iff_not, Nat.not_lt]

/-- A marked level has marked levels below it only. -/
theorem Encodes.nested (h : Encodes marks slots q) {i j : Fin n} (hij : i ≤ j)
    (hj : marks j = true) : marks i = true := by
  rw [h.marked_iff] at hj ⊢
  exact Nat.lt_of_le_of_lt hij hj

/-! ## The length -/

theorem Encodes.full_iff (h : Encodes marks slots q) : (∀ i, marks i = true) ↔ q.length = n := by
  constructor
  · intro hall
    by_contra hne
    have hlt : q.length < n := Nat.lt_of_le_of_ne h.length hne
    exact Nat.lt_irrefl _ ((h.marked_iff ⟨q.length, hlt⟩).mp (hall _))
  · intro hlen i
    rw [h.marked_iff, hlen]
    exact i.isLt

theorem Encodes.card (h : Encodes marks slots q) :
    (Finset.univ.filter (fun i => marks i = true)).card = q.length := by
  have himage : (Finset.univ.filter (fun i => marks i = true)).image Fin.val =
      Finset.range q.length := by
    ext m
    simp only [Finset.mem_image, Finset.mem_filter, Finset.mem_univ, true_and, Finset.mem_range,
      h.marked_iff]
    constructor
    · rintro ⟨i, hi, rfl⟩
      exact hi
    · exact fun hm => ⟨⟨m, Nat.lt_of_lt_of_le hm h.length⟩, hm, rfl⟩
  rw [← Finset.card_image_of_injective _ Fin.val_injective, himage, Finset.card_range]

/-- The lowest level without a mark is the next one. -/
theorem Encodes.next_level (h : Encodes marks slots q) {i : Fin n} (hi : marks i = false)
    (hlow : ∀ j < i, marks j = true) : i.val = q.length := by
  rw [h.unmarked_iff] at hi
  refine Nat.le_antisymm ?_ hi
  by_contra hlt
  have hmarked := hlow ⟨q.length, Nat.lt_of_le_of_lt hi i.isLt⟩ (Nat.lt_of_not_le hlt)
  exact Nat.lt_irrefl _ ((h.marked_iff _).mp hmarked)

/-- The highest level with a mark is that of the last item. -/
theorem Encodes.last_level (h : Encodes marks slots q) {i : Fin n} (hi : marks i = true)
    (hhigh : ∀ j, i < j → marks j = false) : i.val + 1 = q.length := by
  rw [h.marked_iff] at hi
  refine Nat.le_antisymm hi ?_
  by_contra hlt
  have hlast : q.length - 1 < n := by have := h.length; omega
  have hunmarked := hhigh ⟨q.length - 1, hlast⟩ (by show i.val < q.length - 1; omega)
  rw [h.unmarked_iff] at hunmarked
  have : q.length ≤ q.length - 1 := hunmarked
  omega

/-! ## Putting and taking -/

theorem Encodes.push (h : Encodes marks slots q) {i : Fin n} (hi : i.val = q.length) (x : α) :
    Encodes (Function.update marks i true) (Function.update slots i x) (q ++ [x]) where
  mark j := by
    by_cases hj : j = i
    · subst hj
      simp [hi]
    · have hne : j.val ≠ q.length := fun heq => hj (Fin.ext (heq.trans hi.symm))
      rw [Function.update_of_ne hj, h.mark j, List.length_append, List.length_singleton,
        decide_eq_decide]
      omega
  slot j y hy := by
    by_cases hj : j = i
    · subst hj
      rw [hi, List.getElem?_concat_length] at hy
      rw [Function.update_self]
      exact Option.some.inj hy
    · have hne : j.val ≠ q.length := fun heq => hj (Fin.ext (heq.trans hi.symm))
      have hlt : j.val < q.length := by
        have := (List.getElem?_eq_some_iff.mp hy).1
        rw [List.length_append, List.length_singleton] at this
        omega
      rw [List.getElem?_append_left hlt] at hy
      rw [Function.update_of_ne hj]
      exact h.slot j y hy
  length := by
    rw [List.length_append, List.length_singleton, ← hi]
    exact i.isLt

theorem Encodes.pop {x : α} (h : Encodes marks slots (x :: q)) {i : Fin n} (hi : i.val = q.length)
    (hmove : ∀ j k : Fin n, k.val = j.val + 1 → slots' j = slots k) :
    Encodes (Function.update marks i false) slots' q where
  mark j := by
    by_cases hj : j = i
    · subst hj
      simp [hi]
    · have hne : j.val ≠ q.length := fun heq => hj (Fin.ext (heq.trans hi.symm))
      rw [Function.update_of_ne hj, h.mark j, List.length_cons, decide_eq_decide]
      omega
  slot j y hy := by
    have hlt := (List.getElem?_eq_some_iff.mp hy).1
    have hlen := h.length
    rw [List.length_cons] at hlen
    let k : Fin n := ⟨j.val + 1, by omega⟩
    rw [hmove j k rfl]
    exact h.slot k y (by rw [List.getElem?_cons_succ]; exact hy)
  length := Nat.le_of_succ_le h.length

end Hydrax.Levels
