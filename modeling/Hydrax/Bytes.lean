import Mathlib.Order.Interval.Finset.Nat

/-!
# Pieces of a byte store

A store has a byte at every address. What is written to it are pieces: an address and the bytes
that begin there.

* `Piece.Apart` — two pieces have no address in common,
* `holds_foldl_write` — a piece that was written is there, if the others have it or are apart from it,
* `total_le` — pieces that are apart from each other need room for all of them,
* `wordAt_of_holds` — a word that was written is read back.
-/

namespace Hydrax.Bytes

/-- A byte at every address. -/
abbrev Store := Nat → UInt8

/-- Bytes and the address of the first. -/
structure Piece where
  addr : Nat
  bytes : List UInt8
  deriving DecidableEq

/-- The address behind the piece. -/
def Piece.stop (p : Piece) : Nat := p.addr + p.bytes.length

/-- The pieces have no address in common. -/
def Piece.Apart (p q : Piece) : Prop := p.stop ≤ q.addr ∨ q.stop ≤ p.addr

/-- The piece lies between the two addresses. -/
def Piece.Within (p : Piece) (lo hi : Nat) : Prop := lo ≤ p.addr ∧ p.stop ≤ hi

instance Piece.decidableWithin (p : Piece) (lo hi : Nat) : Decidable (p.Within lo hi) :=
  inferInstanceAs (Decidable (_ ∧ _))

/-- The store after the piece is written. -/
def write (m : Store) (p : Piece) : Store := fun a =>
  if p.addr ≤ a then p.bytes[a - p.addr]?.getD (m a) else m a

/-- The store has the piece. -/
def Holds (m : Store) (p : Piece) : Prop :=
  ∀ i < p.bytes.length, p.bytes[i]? = some (m (p.addr + i))

instance decidableHolds (m : Store) (p : Piece) : Decidable (Holds m p) :=
  inferInstanceAs (Decidable (∀ i < p.bytes.length, _))

section Pieces

variable {m : Store} {p q : Piece} {ps : List Piece} {lo hi : Nat}

theorem holds_write (m : Store) (p : Piece) : Holds (write m p) p := by
  intro i hi
  rw [write, if_pos (Nat.le_add_right _ _), Nat.add_sub_cancel_left, List.getElem?_eq_getElem hi]
  rfl

theorem write_of_outside {a : Nat} (h : a < p.addr ∨ p.stop ≤ a) : write m p a = m a := by
  rw [write]
  split
  next hle =>
    have hstop : p.bytes.length ≤ a - p.addr := by
      rw [Piece.stop] at h
      omega
    rw [List.getElem?_eq_none hstop]
    rfl
  next => rfl

/-- A piece stays if another one is written apart from it. -/
theorem Holds.write (h : Holds m q) (hapart : p.Apart q) : Holds (write m p) q := by
  intro i hi
  rw [write_of_outside, h i hi]
  rw [Piece.Apart, Piece.stop, Piece.stop] at hapart
  rw [Piece.stop]
  omega

theorem write_cons (m : Store) (a : Nat) (x : UInt8) (bytes : List UInt8) :
    Bytes.write (Bytes.write m ⟨a, [x]⟩) ⟨a + 1, bytes⟩ = Bytes.write m ⟨a, x :: bytes⟩ := by
  funext c
  rcases Nat.lt_trichotomy c a with hlt | rfl | hlt
  · rw [write_of_outside (Or.inl (Nat.lt_succ_of_lt hlt)), write_of_outside (Or.inl hlt),
      write_of_outside (Or.inl hlt)]
  · rw [write_of_outside (Or.inl (Nat.lt_succ_self c))]
    simp [Bytes.write]
  · obtain ⟨d, rfl⟩ := Nat.exists_eq_add_of_lt hlt
    have hrest : write m ⟨a, [x]⟩ (a + d + 1) = m (a + d + 1) := by
      apply write_of_outside
      rw [Piece.stop]
      exact Or.inr (by simp only [List.length_singleton]; omega)
    rw [Bytes.write, hrest, Bytes.write, if_pos (by simp only; omega), if_pos (by simp only; omega)]
    simp only [show a + d + 1 - (a + 1) = d by omega, show a + d + 1 - a = d + 1 by omega,
      List.getElem?_cons_succ]

theorem Holds.foldl_write (h : Holds m q)
    (hps : ∀ p ∈ ps, (∀ m, Holds (Bytes.write m p) q) ∨ p.Apart q) :
    Holds (ps.foldl Bytes.write m) q := by
  induction ps generalizing m with
  | nil => exact h
  | cons p ps ih =>
    obtain ⟨hp, hps⟩ := List.forall_mem_cons.mp hps
    exact ih (hp.elim (fun hp => hp m) h.write) hps

theorem holds_foldl_write (hq : ∃ p ∈ ps, ∀ m, Holds (Bytes.write m p) q)
    (hps : ∀ p ∈ ps, (∀ m, Holds (Bytes.write m p) q) ∨ p.Apart q) :
    Holds (ps.foldl Bytes.write m) q := by
  induction ps generalizing m with
  | nil =>
    obtain ⟨p, hp, -⟩ := hq
    cases hp
  | cons p ps ih =>
    have hrest := (List.forall_mem_cons.mp hps).2
    obtain ⟨p', hp', hholds⟩ := hq
    rcases List.mem_cons.mp hp' with rfl | hp'
    · exact (hholds m).foldl_write hrest
    · exact ih ⟨p', hp', hholds⟩ hrest

theorem holds_write_take (m : Store) (p : Piece) (n : Nat) :
    Holds (Bytes.write m p) ⟨p.addr, p.bytes.take n⟩ := by
  intro i hi
  rw [List.length_take] at hi
  rw [List.getElem?_take_of_lt (by omega)]
  exact holds_write m p i (by omega)

/-! ## Room -/

/-- The addresses of a list of pieces. -/
def cells (ps : List Piece) : Finset Nat :=
  ps.foldr (fun p s => Finset.Ico p.addr p.stop ∪ s) ∅

theorem mem_cells {a : Nat} : a ∈ cells ps ↔ ∃ p ∈ ps, p.addr ≤ a ∧ a < p.stop := by
  induction ps with
  | nil => simp [cells]
  | cons p ps ih =>
    rw [cells, List.foldr_cons, ← cells, Finset.mem_union, Finset.mem_Ico, ih]
    simp

/-- The number of bytes in a list of pieces. -/
def total : List Piece → Nat
  | [] => 0
  | p :: ps => p.bytes.length + total ps

theorem card_cells (h : ps.Pairwise Piece.Apart) : (cells ps).card = total ps := by
  induction ps with
  | nil => rfl
  | cons p ps ih =>
    obtain ⟨hp, hps⟩ := List.pairwise_cons.mp h
    have hdisjoint : Disjoint (Finset.Ico p.addr p.stop) (cells ps) := by
      rw [Finset.disjoint_left]
      intro a ha hcell
      obtain ⟨q, hq, hqa⟩ := mem_cells.mp hcell
      have hpa := Finset.mem_Ico.mp ha
      rcases hp q hq with hpq | hpq <;> omega
    rw [cells, List.foldr_cons, ← cells, Finset.card_union_of_disjoint hdisjoint, ih hps,
      Nat.card_Ico, Piece.stop, Nat.add_sub_cancel_left, total]

theorem total_le (h : ps.Pairwise Piece.Apart) (hin : ∀ p ∈ ps, p.Within lo hi) :
    total ps ≤ hi - lo := by
  rw [← card_cells h, ← Nat.card_Ico]
  apply Finset.card_le_card
  intro a ha
  obtain ⟨p, hp, hpa⟩ := mem_cells.mp ha
  obtain ⟨hlo, hhi⟩ := hin p hp
  rw [Finset.mem_Ico]
  omega

/-! ## Words -/

/-- The four bytes of a word, the lowest first. -/
def wordBytes (w : Nat) : List UInt8 :=
  [UInt8.ofNat w, UInt8.ofNat (w / 256), UInt8.ofNat (w / 65536), UInt8.ofNat (w / 16777216)]

/-- The word at an address. -/
def wordAt (m : Store) (a : Nat) : Nat :=
  (m a).toNat + 256 * (m (a + 1)).toNat + 65536 * (m (a + 2)).toNat +
    16777216 * (m (a + 3)).toNat

@[simp] theorem length_wordBytes (w : Nat) : (wordBytes w).length = 4 := rfl

theorem wordAt_of_holds {a w : Nat} (hw : w < 4294967296) (h : Holds m ⟨a, wordBytes w⟩) :
    wordAt m a = w := by
  have h₀ := Option.some.inj (h 0 (show 0 < 4 by decide))
  have h₁ := Option.some.inj (h 1 (show 1 < 4 by decide))
  have h₂ := Option.some.inj (h 2 (show 2 < 4 by decide))
  have h₃ := Option.some.inj (h 3 (show 3 < 4 by decide))
  dsimp only [Nat.add_zero] at h₀ h₁ h₂ h₃
  rw [wordAt, ← h₀, ← h₁, ← h₂, ← h₃]
  simp only [UInt8.toNat_ofNat']
  omega

end Pieces

end Hydrax.Bytes
