import Mathlib.Algebra.Group.Nat.Defs
import Mathlib.Data.Nat.Init
import Mathlib.Data.List.Basic

/-!
# Digits from the top

A number is written from its most significant digit on by dividing by the weight of each column and
going on with the rest. `fromTop` is that loop, with a fixed number of columns.

* `fromTop_eq` — what stands in each column,
* `fromTop_snoc` — the last column is the number modulo the base,
* `dropWhile_fromTop` — without the zeros in front it is the usual numeral.
-/

namespace Hydrax.Digits

/-- The digits of `n` in `l` columns, the first of which has the given weight. -/
def fromTop (base : Nat) : Nat → Nat → Nat → List Nat
  | 0, _, _ => []
  | l + 1, weight, n => n / weight :: fromTop base l (weight / base) (n - n / weight * weight)

section FromTop

variable {base l n : Nat}

theorem fromTop_succ (hbase : 0 < base) (n : Nat) :
    fromTop base (l + 2) (base ^ (l + 1)) n =
      n / base ^ (l + 1) :: fromTop base (l + 1) (base ^ l) (n % base ^ (l + 1)) := by
  have hweight : base ^ (l + 1) / base = base ^ l := by
    rw [Nat.pow_succ]
    exact Nat.mul_div_cancel _ hbase
  have hrest : n - n / base ^ (l + 1) * base ^ (l + 1) = n % base ^ (l + 1) := by
    rw [Nat.mul_comm, Nat.mod_eq_sub]
  rw [fromTop, hweight, hrest]

theorem fromTop_eq (hbase : 0 < base) (h : n < base ^ (l + 1)) :
    fromTop base (l + 1) (base ^ l) n =
      (List.range (l + 1)).map (fun j => n / base ^ (l - j) % base) := by
  induction l generalizing n with
  | zero =>
    rw [Nat.pow_one] at h
    simp [fromTop, Nat.mod_eq_of_lt h]
  | succ l ih =>
    have hpos : 0 < base ^ (l + 1) := Nat.pow_pos hbase
    have hfirst : n / base ^ (l + 1) % base = n / base ^ (l + 1) := by
      refine Nat.mod_eq_of_lt ((Nat.div_lt_iff_lt_mul hpos).mpr ?_)
      rw [Nat.mul_comm, ← Nat.pow_succ]
      exact h
    rw [fromTop_succ hbase, ih (Nat.mod_lt _ hpos)]
    conv_rhs => rw [List.range_succ_eq_map, List.map_cons, List.map_map, Nat.sub_zero, hfirst]
    refine congrArg _ (List.map_congr_left fun j hj => ?_)
    -- the columns behind the first do not depend on it
    have hj' : j ≤ l := Nat.lt_succ_iff.mp (List.mem_range.mp hj)
    have hsplit : base ^ (l + 1) = base ^ (l - j) * (base * base ^ j) := by
      rw [Nat.mul_comm base, ← Nat.pow_succ, ← Nat.pow_add]
      congr 1
      omega
    rw [Function.comp_apply, Nat.succ_sub_succ, hsplit, Nat.mod_mul_right_div_self,
      Nat.mod_mul_right_mod]

theorem fromTop_snoc (hbase : 0 < base) (h : n < base ^ (l + 2)) :
    fromTop base (l + 2) (base ^ (l + 1)) n =
      fromTop base (l + 1) (base ^ l) (n / base) ++ [n % base] := by
  have hrest : n / base < base ^ (l + 1) := by
    rw [Nat.div_lt_iff_lt_mul hbase, ← Nat.pow_succ]
    exact h
  rw [fromTop_eq hbase h, fromTop_eq hbase hrest, List.range_succ, List.map_append,
    List.map_singleton, Nat.sub_self, Nat.pow_zero, Nat.div_one]
  refine congrArg (· ++ [n % base]) (List.map_congr_left fun j hj => ?_)
  have hj' : j < l + 1 := List.mem_range.mp hj
  rw [Nat.div_div_eq_div_mul, Nat.mul_comm base, ← Nat.pow_succ, show l + 1 - j = l - j + 1 by omega]

theorem fromTop_zero (base l weight : Nat) : fromTop base l weight 0 = List.replicate l 0 := by
  induction l generalizing weight with
  | zero => rfl
  | succ l ih => simp [fromTop, ih, List.replicate_succ]

end FromTop

theorem dropWhile_fromTop {l n : Nat} (hpos : 0 < n) (h : n < 10 ^ (l + 1)) :
    ((fromTop 10 (l + 1) (10 ^ l) n).map Nat.digitChar).dropWhile (· == '0') =
      Nat.toDigits 10 n := by
  have hchar : ∀ d < 10, 0 < d → (Nat.digitChar d == '0') = false := by decide
  induction l generalizing n with
  | zero =>
    rw [Nat.zero_add, Nat.pow_one] at h
    have hone : fromTop 10 1 (10 ^ 0) n = [n] := by simp [fromTop]
    rw [hone, List.map_singleton, List.dropWhile_cons_of_neg (by simp [hchar n h hpos]),
      Nat.toDigits_of_lt_base h]
  | succ l ih =>
    have hlast : n % 10 < 10 := Nat.mod_lt _ (by decide)
    rw [fromTop_snoc (by decide) h, List.map_append, List.map_singleton, List.dropWhile_append]
    by_cases hsmall : n / 10 = 0
    · -- only the last column is not zero
      have hn : n < 10 := by omega
      have hzeros : ((fromTop 10 (l + 1) (10 ^ l) (n / 10)).map Nat.digitChar).dropWhile
          (· == '0') = [] := by
        rw [hsmall, fromTop_zero, List.map_replicate]
        simp
      rw [hzeros, List.isEmpty_nil, if_pos rfl, Nat.mod_eq_of_lt hn,
        List.dropWhile_cons_of_neg (by simp [hchar n hn hpos]), Nat.toDigits_of_lt_base hn]
    · have hrest : n / 10 < 10 ^ (l + 1) := by
        rw [Nat.pow_succ] at h
        omega
      have hne : (Nat.toDigits 10 (n / 10)).isEmpty = false := by
        simp
      rw [ih (Nat.pos_of_ne_zero hsmall) hrest, hne, ← Nat.toDigits_of_lt_base hlast]
      have happend := Nat.toDigits_append_toDigits (b := 10) (by decide)
        (Nat.pos_of_ne_zero hsmall) hlast
      rw [Nat.div_add_mod] at happend
      exact happend

end Hydrax.Digits
