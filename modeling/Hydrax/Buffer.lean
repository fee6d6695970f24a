import Mathlib.Data.List.Basic

/-!
# Strings in memory

Memory has a character at every place. `put` writes characters one after the other, as the loop
around `*p++ = c` does. A string begins at a place and ends before the first null.

* `put_apply` — what is at a place after `put`,
* `stringAt_put` — a string that was written with its null is there,
* `StringAt.unique` — only one string begins at a place,
* `StringAt.read_eq` — reading up to the null finds it.
-/

namespace Hydrax.Buffer

open Function (update update_of_ne update_self)

variable {α : Type} {nul c : α} {m : Nat → α} {p a : Nat} {s s' : List α}

/-- The null character. -/
def null : Char := Char.ofNat 0

/-- Write characters from place `p` on. -/
def put (m : Nat → α) : Nat → List α → Nat → α
  | _, [] => m
  | p, c :: s => put (update m p c) (p + 1) s

theorem put_of_lt (h : a < p) : put m p s a = m a := by
  induction s generalizing m p with
  | nil => rfl
  | cons c s ih => rw [put, ih (Nat.lt_succ_of_lt h), update_of_ne (Nat.ne_of_lt h)]

theorem put_add (i : Nat) : put m p s (p + i) = s[i]?.getD (m (p + i)) := by
  induction s generalizing m p i with
  | nil => rfl
  | cons c s ih =>
    rw [put]
    cases i with
    | zero =>
      show put (update m p c) (p + 1) s p = c
      rw [put_of_lt (Nat.lt_add_one p), update_self]
    | succ i =>
      rw [show p + (i + 1) = p + 1 + i by omega, ih, update_of_ne (by omega),
        List.getElem?_cons_succ]

theorem put_apply (m : Nat → α) (p : Nat) (s : List α) (a : Nat) :
    put m p s a = if p ≤ a then s[a - p]?.getD (m a) else m a := by
  split
  next h =>
    obtain ⟨i, rfl⟩ := Nat.exists_eq_add_of_le h
    rw [put_add, Nat.add_sub_cancel_left]
  next h => exact put_of_lt (Nat.lt_of_not_le h)

theorem put_of_ge (h : p + s.length ≤ a) : put m p s a = m a := by
  rw [put_apply, if_pos (by omega), List.getElem?_eq_none (by omega)]
  rfl

theorem put_append (m : Nat → α) (p : Nat) (s t : List α) :
    put m p (s ++ t) = put (put m p s) (p + s.length) t := by
  induction s generalizing m p with
  | nil => rfl
  | cons c s ih =>
    rw [List.cons_append, put, ih, put, List.length_cons]
    congr 1
    omega

/-! ## Strings -/

/-- The string `s` begins at `p`. -/
structure StringAt (nul : α) (m : Nat → α) (p : Nat) (s : List α) : Prop where
  notMem : nul ∉ s
  chars : ∀ i c, s[i]? = some c → m (p + i) = c
  ends : m (p + s.length) = nul

theorem stringAt_put (h : nul ∉ s) : StringAt nul (put m p (s ++ [nul])) p s where
  notMem := h
  chars i c hc := by
    rw [put_add, List.getElem?_append_left (List.getElem?_eq_some_iff.mp hc).1, hc]
    rfl
  ends := by
    rw [put_add, List.getElem?_concat_length]
    rfl

theorem StringAt.tail (h : StringAt nul m p (c :: s)) : StringAt nul m (p + 1) s where
  notMem := fun hmem => h.notMem (List.mem_cons_of_mem c hmem)
  chars i d hd := by
    rw [Nat.add_assoc, Nat.add_comm 1 i]
    exact h.chars (i + 1) d hd
  ends := by
    rw [Nat.add_assoc, Nat.add_comm 1]
    exact h.ends

theorem StringAt.head (h : StringAt nul m p (c :: s)) : m p = c ∧ c ≠ nul :=
  ⟨h.chars 0 c rfl, fun hc => h.notMem (hc ▸ List.mem_cons_self)⟩

theorem StringAt.unique (h : StringAt nul m p s) (h' : StringAt nul m p s') : s = s' := by
  induction s generalizing p s' with
  | nil =>
    cases s' with
    | nil => rfl
    | cons c s' => exact absurd (h'.head.1.symm.trans h.ends) h'.head.2
  | cons c s ih =>
    cases s' with
    | nil => exact absurd (h.head.1.symm.trans h'.ends) h.head.2
    | cons c' s' => rw [h.head.1.symm.trans h'.head.1, ih h.tail h'.tail]

/-- The same characters at another place, or in another memory, are the same string. -/
theorem StringAt.congr {m' : Nat → α} {p' : Nat} (h : StringAt nul m p s)
    (hm : ∀ i ≤ s.length, m' (p' + i) = m (p + i)) : StringAt nul m' p' s where
  notMem := h.notMem
  chars i c hc := by
    rw [hm i (Nat.le_of_lt (List.getElem?_eq_some_iff.mp hc).1)]
    exact h.chars i c hc
  ends := by
    rw [hm _ (Nat.le_refl _)]
    exact h.ends

theorem StringAt.cons (h : StringAt nul m (p + 1) s) (hp : m p = c) (hc : c ≠ nul) :
    StringAt nul m p (c :: s) where
  notMem hmem := (List.mem_cons.mp hmem).elim (fun heq => hc heq.symm) h.notMem
  chars i d hd := by
    cases i with
    | zero => exact hp.trans (Option.some.inj hd)
    | succ i =>
      rw [← Nat.add_assoc, Nat.add_right_comm]
      exact h.chars i d hd
  ends := by
    rw [List.length_cons, ← Nat.add_assoc, Nat.add_right_comm]
    exact h.ends

/-- Characters that are written with a null behind them are a string up to the first null. -/
theorem stringAt_takeWhile [DecidableEq α] (m : Nat → α) (p : Nat) (t : List α) :
    StringAt nul (put m p (t ++ [nul])) p (t.takeWhile (· ≠ nul)) := by
  induction t generalizing m p with
  | nil => exact stringAt_put List.not_mem_nil
  | cons c t ih =>
    have hp : put (update m p c) (p + 1) (t ++ [nul]) p = c := by
      rw [put_of_lt (Nat.lt_add_one p), update_self]
    rw [List.cons_append, put]
    by_cases hc : c = nul
    · rw [List.takeWhile_cons_of_neg (by simpa using hc)]
      exact ⟨List.not_mem_nil, fun _ _ hd => absurd hd (by simp), hp.trans hc⟩
    · rw [List.takeWhile_cons_of_pos (by simpa using hc)]
      exact (ih (update m p c) (p + 1)).cons hp hc

/-- The string at a place, if it ends before `n` more characters. -/
def read [DecidableEq α] (nul : α) (m : Nat → α) : Nat → Nat → Option (List α)
  | 0, _ => none
  | n + 1, p => if m p = nul then some [] else (read nul m n (p + 1)).map (m p :: ·)

theorem StringAt.read_eq [DecidableEq α] (h : StringAt nul m p s) {n : Nat} (hn : s.length < n) :
    read nul m n p = some s := by
  induction s generalizing p n with
  | nil =>
    obtain ⟨n, rfl⟩ := Nat.exists_eq_add_of_lt hn
    exact if_pos h.ends
  | cons c s ih =>
    rw [List.length_cons] at hn
    obtain ⟨n, rfl⟩ : ∃ k, n = k + 1 := ⟨n - 1, by omega⟩
    rw [read, h.head.1, if_neg h.head.2, ih h.tail (by omega)]
    rfl

/-- A part of memory begins with the string that is there. -/
theorem StringAt.takeWhile_eq [DecidableEq α] (h : StringAt nul m p s) {n : Nat}
    (hn : s.length < n) : ((List.range' p n).map m).takeWhile (· ≠ nul) = s := by
  induction s generalizing p n with
  | nil =>
    obtain ⟨n, rfl⟩ := Nat.exists_eq_add_of_lt hn
    have hp : m p = nul := h.ends
    rw [List.range'_succ, List.map_cons, List.takeWhile_cons_of_neg (by simp [hp])]
  | cons c s ih =>
    rw [List.length_cons] at hn
    obtain ⟨n, rfl⟩ : ∃ k, n = k + 1 := ⟨n - 1, by omega⟩
    rw [List.range'_succ, List.map_cons, h.head.1,
      List.takeWhile_cons_of_pos (by simpa using h.head.2), ih h.tail (by omega)]

/-- Reading comes to an end if there is a null in reach. -/
theorem exists_read_eq [DecidableEq α] {i n : Nat} (h : m (p + i) = nul) (hi : i < n) :
    ∃ s, read nul m n p = some s := by
  induction n generalizing p i with
  | zero => cases hi
  | succ n ih =>
    rw [read]
    split
    next => exact ⟨[], rfl⟩
    next hp =>
      cases i with
      | zero => exact absurd h hp
      | succ i =>
        rw [← Nat.add_assoc, Nat.add_right_comm] at h
        obtain ⟨s, hs⟩ := ih h (Nat.lt_of_succ_lt_succ hi)
        rw [hs]
        exact ⟨_, rfl⟩

end Hydrax.Buffer
