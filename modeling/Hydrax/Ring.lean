import Mathlib.Data.List.Basic

/-!
# Rings

A stream of items is put into `m` cells in turn, item `i` into cell `i % m`. `Holds m cells lo xs`
says that the items of `xs` from number `lo` on are still there.

* `Holds.put` — the next item may be put as long as fewer than `m` items are kept,
* `Holds.get` — the item that is next to be taken is the one the cell has,
* `next_mod` — the cursor of item `i + 1` is the one after that of item `i`.
-/

namespace Hydrax.Ring

open Function (update update_of_ne update_self)

variable {α : Type} {m lo : Nat} {cells : Nat → α} {xs : List α}

/-- The cell after `p`. -/
def next (m p : Nat) : Nat := if m ≤ p + 1 then 0 else p + 1

theorem next_mod (hm : 0 < m) (i : Nat) : next m (i % m) = (i + 1) % m := by
  have hlt := Nat.mod_lt i hm
  rw [next, Nat.add_mod i 1 m]
  split
  next hle =>
    rcases Nat.lt_or_ge 1 m with h1 | h1
    · rw [Nat.mod_eq_of_lt h1, show i % m + 1 = m by omega, Nat.mod_self]
    · rw [show m = 1 by omega]
      simp [Nat.mod_one]
  next hlt' =>
    rw [Nat.mod_eq_of_lt (show 1 < m by omega), Nat.mod_eq_of_lt (show i % m + 1 < m by omega)]

/-- The items of `xs` from number `lo` on are in their cells. -/
def Holds (m : Nat) (cells : Nat → α) (lo : Nat) (xs : List α) : Prop :=
  ∀ i, lo ≤ i → ∀ x, xs[i]? = some x → cells (i % m) = x

theorem Holds.nil : Holds m cells lo [] := by
  intro i _ x hx
  simp at hx

/-- Different items of the ring are in different cells. -/
theorem mod_ne {i j : Nat} (hij : i < j) (hlt : j < i + m) : i % m ≠ j % m := by
  intro heq
  have hdvd := Nat.sub_mod_eq_zero_of_mod_eq heq.symm
  have : j - i = 0 := Nat.eq_zero_of_dvd_of_lt (Nat.dvd_of_mod_eq_zero hdvd) (by omega)
  omega

theorem Holds.put (h : Holds m cells lo xs) (hroom : xs.length < lo + m) (x : α) :
    Holds m (update cells (xs.length % m) x) lo (xs ++ [x]) := by
  intro i hi y hy
  rcases Nat.lt_trichotomy i xs.length with hlt | rfl | hgt
  · rw [List.getElem?_append_left hlt] at hy
    rw [update_of_ne (mod_ne hlt (by omega))]
    exact h i hi y hy
  · rw [update_self]
    simpa using hy
  · rw [List.getElem?_eq_none (by simp; omega)] at hy
    cases hy

theorem Holds.mono {lo' : Nat} (h : Holds m cells lo xs) (hle : lo ≤ lo') :
    Holds m cells lo' xs :=
  fun i hi => h i (Nat.le_trans hle hi)

theorem Holds.get (h : Holds m cells lo xs) (hlt : lo < xs.length) :
    xs[lo]? = some (cells (lo % m)) := by
  rw [List.getElem?_eq_getElem hlt, h lo (Nat.le_refl _) xs[lo] (List.getElem?_eq_getElem hlt)]

/-- The cells of a ring that lies at `base` in a memory. -/
theorem update_offset (mem : Nat → α) (base k : Nat) (x : α) :
    (fun i => update mem (base + k) x (base + i)) =
      update (fun i => mem (base + i)) k x := by
  funext i
  by_cases hi : i = k
  · subst hi
    rw [update_self, update_self]
  · rw [update_of_ne hi, update_of_ne (by omega)]

theorem snoc_of_next {ys : List α} {y : α} (h : ys <+: xs) (hy : xs[ys.length]? = some y) :
    ys ++ [y] <+: xs := by
  obtain ⟨zs, rfl⟩ := h
  cases zs with
  | nil => simp at hy
  | cons z zs =>
    rw [List.getElem?_append_right (Nat.le_refl _), Nat.sub_self, List.getElem?_cons_zero,
      Option.some.injEq] at hy
    exact ⟨zs, by rw [hy, List.append_assoc]; rfl⟩

end Hydrax.Ring
