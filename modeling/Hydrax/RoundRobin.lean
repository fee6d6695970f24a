import Mathlib.Data.List.Perm.Basic
import Hydrax.Transition

/-!
# Turns in a circle

The items of a list take turns. The next one is the first, in cyclic order from the one after the
last pick on, that can run.

* `order_pick` — after a pick the order goes on behind it,
* `picks_perm` — as many picks as there are items that can run pick each of them once.
-/

namespace Hydrax.RoundRobin

variable {α : Type} [DecidableEq α] {run : α → Bool} {ts l l' p q picks : List α}
  {cur cur' : Option α} {c r : α}

/-- The items in cyclic order, up to the last pick. Without one the order is that of the list. -/
def order : Option α → List α → List α
  | none, ts => ts
  | some c, ts => (ts.dropWhile (· ≠ c)).tail ++ (ts.takeWhile (· ≠ c) ++ [c])

/-- The item whose turn it is. -/
def pick (run : α → Bool) (cur : Option α) (ts : List α) : Option α := (order cur ts).find? run

theorem order_append_cons (hc : c ∉ p) : order (some c) (p ++ c :: q) = q ++ (p ++ [c]) := by
  have hp : ∀ x ∈ p, (decide (x ≠ c)) = true := by
    rintro x hx
    rw [decide_eq_true_iff]
    rintro rfl
    exact hc hx
  rw [order, List.dropWhile_append_of_pos hp, List.takeWhile_append_of_pos hp]
  simp

omit [DecidableEq α] in
theorem notMem_of_nodup (h : (p ++ c :: q).Nodup) : c ∉ p :=
  fun hc => (List.nodup_append.mp h).2.2 c hc c List.mem_cons_self rfl

theorem order_perm (hcur : ∀ c ∈ cur, c ∈ ts) (hnodup : ts.Nodup) : (order cur ts).Perm ts := by
  cases cur with
  | none => exact List.Perm.refl _
  | some c =>
    obtain ⟨p, q, rfl⟩ := List.append_of_mem (hcur c rfl)
    rw [order_append_cons (notMem_of_nodup hnodup)]
    have hfirst : (q ++ (p ++ [c])).Perm ((p ++ [c]) ++ q) := List.perm_append_comm
    simpa using hfirst

theorem order_pick (hnodup : ts.Nodup) (hcur : ∀ c ∈ cur, c ∈ ts)
    (h : order cur ts = l ++ r :: l') : order (some r) ts = l' ++ (l ++ [r]) := by
  cases cur with
  | none =>
    change ts = l ++ r :: l' at h
    subst h
    exact order_append_cons (notMem_of_nodup hnodup)
  | some c =>
    obtain ⟨p, q, rfl⟩ := List.append_of_mem (hcur c rfl)
    rw [order_append_cons (notMem_of_nodup hnodup)] at h
    -- the new pick comes after the last one in the list, before it, or it is the same
    have hsame : r = c → l' = [] → l = q ++ p →
        order (some r) (p ++ c :: q) = l' ++ (l ++ [r]) := by
      rintro rfl rfl rfl
      rw [order_append_cons (notMem_of_nodup hnodup)]
      simp
    rcases List.append_eq_append_iff.mp h with ⟨as, rfl, has⟩ | ⟨bs, rfl, hbs⟩
    · rcases List.append_eq_append_iff.mp has with ⟨as', rfl, has'⟩ | ⟨bs, rfl, hbs⟩
      · cases as' with
        | nil =>
          obtain ⟨rfl, rfl⟩ := List.cons.inj has'
          exact hsame rfl rfl (by simp)
        | cons x as' => simp at has'
      · cases bs with
        | nil =>
          obtain ⟨rfl, rfl⟩ := List.cons.inj hbs
          exact hsame rfl rfl (by simp)
        | cons x bs =>
          obtain ⟨rfl, rfl⟩ := List.cons.inj hbs
          rw [List.append_assoc, List.cons_append] at hnodup ⊢
          rw [order_append_cons (notMem_of_nodup hnodup)]
          simp
    · cases bs with
      | nil =>
        cases p with
        | nil =>
          obtain ⟨rfl, rfl⟩ := List.cons.inj hbs
          exact hsame rfl rfl (by simp)
        | cons x p =>
          obtain ⟨rfl, rfl⟩ := List.cons.inj hbs
          rw [← List.nil_append (r :: p ++ c :: (l ++ [])), List.cons_append] at hnodup ⊢
          rw [order_append_cons (notMem_of_nodup hnodup)]
          simp
      | cons x bs =>
        obtain ⟨rfl, rfl⟩ := List.cons.inj hbs
        rw [← List.cons_append, ← List.append_assoc] at hnodup ⊢
        rw [order_append_cons (notMem_of_nodup hnodup)]
        simp

theorem filter_order_pick (hnodup : ts.Nodup) (hcur : ∀ c ∈ cur, c ∈ ts)
    (h : pick run cur ts = some r) :
    ∃ rest, (order cur ts).filter run = r :: rest ∧
      (order (some r) ts).filter run = rest ++ [r] ∧ r ∈ ts := by
  obtain ⟨hrun, l, l', horder, hl⟩ := List.find?_eq_some_iff_append.mp h
  have hnil : l.filter run = [] := by
    rw [List.filter_eq_nil_iff]
    intro x hx
    simpa using hl x hx
  have hmem : r ∈ ts := by
    rw [← (order_perm hcur hnodup).mem_iff, horder]
    simp
  refine ⟨l'.filter run, ?_, ?_, hmem⟩
  · rw [horder, List.filter_append, hnil, List.filter_cons_of_pos hrun, List.nil_append]
  · rw [order_pick hnodup hcur horder, List.filter_append, List.filter_append, hnil,
      List.filter_cons_of_pos hrun, List.nil_append, List.filter_nil]

/-- The picks so far are the first of the items that can run, and the others are next. -/
theorem picks_order (hnodup : ts.Nodup) (hcur : ∀ c ∈ cur, c ∈ ts)
    (h : Path (fun cur r cur' => pick run cur ts = some r ∧ cur' = some r) cur picks cur')
    (hlen : picks.length ≤ (ts.filter run).length) :
    (∀ c ∈ cur', c ∈ ts) ∧ ∃ rest, (order cur ts).filter run = picks ++ rest ∧
      (order cur' ts).filter run = rest ++ picks := by
  induction h with
  | start => exact ⟨hcur, _, rfl, (List.append_nil _).symm⟩
  | @step c₁ c₂ r picks hs hstep ih =>
    rw [List.length_append, List.length_singleton] at hlen
    obtain ⟨hpick, rfl⟩ := hstep
    obtain ⟨hc₁, rest, hfirst, hnext⟩ := ih (by omega)
    obtain ⟨others, hothers, hafter, hmem⟩ := filter_order_pick hnodup hc₁ hpick
    -- not all of them had their turn yet
    cases rest with
    | nil =>
      have hperm := ((order_perm hcur hnodup).filter run).length_eq
      rw [hfirst, List.append_nil] at hperm
      omega
    | cons x rest =>
      rw [hnext, List.cons_append] at hothers
      obtain ⟨rfl, rfl⟩ := List.cons.inj hothers
      refine ⟨fun c hc => Option.mem_some_iff.mp hc ▸ hmem, rest, ?_, ?_⟩
      · rw [hfirst, List.append_assoc]
        rfl
      · rw [hafter, List.append_assoc]

theorem picks_perm (hnodup : ts.Nodup) (hcur : ∀ c ∈ cur, c ∈ ts)
    (h : Path (fun cur r cur' => pick run cur ts = some r ∧ cur' = some r) cur picks cur')
    (hlen : picks.length = (ts.filter run).length) : picks.Perm (ts.filter run) := by
  obtain ⟨-, rest, hfirst, -⟩ := picks_order hnodup hcur h (Nat.le_of_eq hlen)
  have hperm := (order_perm hcur hnodup).filter run
  have hnil : rest = [] := by
    have hlength := hperm.length_eq
    rw [hfirst, List.length_append] at hlength
    exact List.length_eq_zero_iff.mp (by omega)
  rw [hfirst, hnil, List.append_nil] at hperm
  exact hperm

end Hydrax.RoundRobin
