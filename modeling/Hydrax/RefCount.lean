import Mathlib.Data.Finset.Prod

/-!
# Reference counting

A pool of resources is handed out to slots. `label i` is the resource slot `i` holds, with one
label, `free`, for a slot that holds none. A counter `refs` is kept for each resource, and a flag
`used` says which resources are out of the pool.

`Balanced` is what the two are for: the counter of a resource is the number of slots that hold it,
and the flag is up exactly when that number is not zero. The rules below are the four ways a slot
changes hands that keep the balance, and the two ways the set of slots changes:

* `Balanced.take` — a free slot takes a resource from the pool,
* `Balanced.drop` — a slot gives its resource up, which goes back to the pool with the last slot,
* `Balanced.share` — a free slot takes a resource that another slot holds,
* `Balanced.move` — a slot leaves a resource that others hold for one from the pool,
* `Balanced.grow` and `Balanced.shrink` — free slots come and go.

Nothing is said about the label `free` itself: a counter kept for it by accident does no harm.
-/

namespace Hydrax.RefCount

open Function (update)

section Count

variable {ι κ : Type} [DecidableEq κ]

/-- Number of slots of `S` that hold `f`. -/
def count (S : Finset ι) (label : ι → κ) (f : κ) : Nat := (S.filter (fun i => label i = f)).card

theorem count_congr {S : Finset ι} {g g' : ι → κ} (h : ∀ i ∈ S, g i = g' i) (f : κ) :
    count S g f = count S g' f := by
  rw [count, count]
  congr 1
  apply Finset.filter_congr
  intro i hi
  rw [h i hi]

theorem count_le_card (S : Finset ι) (g : ι → κ) (f : κ) : count S g f ≤ S.card :=
  Finset.card_filter_le _ _

theorem count_pos_iff {S : Finset ι} {g : ι → κ} {f : κ} :
    0 < count S g f ↔ ∃ i ∈ S, g i = f := by
  rw [count, Finset.card_pos]
  constructor
  · rintro ⟨i, hi⟩
    exact ⟨i, (Finset.mem_filter.mp hi).1, (Finset.mem_filter.mp hi).2⟩
  · rintro ⟨i, hi, hf⟩
    exact ⟨i, Finset.mem_filter.mpr ⟨hi, hf⟩⟩

variable [DecidableEq ι]

/-- Two slots that hold the same resource count for two. -/
theorem two_le_count {S : Finset ι} {g : ι → κ} {f : κ} {i j : ι} (hi : i ∈ S) (hj : j ∈ S)
    (hij : i ≠ j) (hfi : g i = f) (hfj : g j = f) : 2 ≤ count S g f := by
  have hsub : ({i, j} : Finset ι) ⊆ S.filter (fun k => g k = f) := by
    intro k hk
    rcases Finset.mem_insert.mp hk with rfl | hk
    · exact Finset.mem_filter.mpr ⟨hi, hfi⟩
    · rw [Finset.mem_singleton.mp hk]
      exact Finset.mem_filter.mpr ⟨hj, hfj⟩
  calc 2 = ({i, j} : Finset ι).card := (Finset.card_pair hij).symm
    _ ≤ count S g f := Finset.card_le_card hsub

/-- A resource that is held once is held by one slot. -/
theorem eq_of_count_le_one {S : Finset ι} {g : ι → κ} {f : κ} {i j : ι} (h : count S g f ≤ 1)
    (hi : i ∈ S) (hj : j ∈ S) (hfi : g i = f) (hfj : g j = f) : i = j := by
  by_contra hij
  have := two_le_count hi hj hij hfi hfj
  omega

theorem count_eq_erase {S : Finset ι} {g : ι → κ} {x : ι} (hx : x ∈ S) (f : κ) :
    count S g f = count (S.erase x) g f + if g x = f then 1 else 0 := by
  rw [count, count, ← Finset.insert_erase hx, Finset.filter_insert, Finset.erase_insert (by simp)]
  split
  · rw [Finset.card_insert_of_notMem (by simp)]
  · rfl

/-- **One slot changes hands**: the count of what it held goes down, of what it takes up. -/
theorem count_update {S : Finset ι} {g : ι → κ} {x : ι} (hx : x ∈ S) (b f : κ) :
    count S (update g x b) f + (if g x = f then 1 else 0) =
      count S g f + if b = f then 1 else 0 := by
  have hrest : count (S.erase x) (update g x b) f = count (S.erase x) g f := by
    apply count_congr
    intro i hi
    exact Function.update_of_ne (Finset.ne_of_mem_erase hi) _ _
  rw [count_eq_erase hx, count_eq_erase (g := g) hx, hrest, Function.update_self]
  omega

theorem count_of_subset {S T : Finset ι} {g : ι → κ} {f : κ} (hsub : S ⊆ T)
    (h : ∀ i ∈ T, i ∉ S → g i ≠ f) : count T g f = count S g f := by
  rw [count, count]
  congr 1
  ext i
  simp only [Finset.mem_filter]
  constructor
  · rintro ⟨hi, hf⟩
    by_cases hS : i ∈ S
    · exact ⟨hS, hf⟩
    · exact absurd hf (h i hi hS)
  · rintro ⟨hi, hf⟩
    exact ⟨hsub hi, hf⟩

end Count

section Balance

variable {ι κ : Type} [DecidableEq ι] [DecidableEq κ]
variable {S T : Finset ι} {g : ι → κ} {refs refs' : κ → Nat} {used used' : κ → Bool} {free : κ}

/-- **The books balance.** -/
structure Balanced (S : Finset ι) (g : ι → κ) (refs : κ → Nat) (used : κ → Bool) (free : κ) :
    Prop where
  refs_eq : ∀ f, f ≠ free → refs f = count S g f
  used_iff : ∀ f, f ≠ free → (used f = true ↔ 0 < refs f)

omit [DecidableEq ι] in
/-- No slot holds a resource that is still in the pool. -/
theorem Balanced.not_held (h : Balanced S g refs used free) {f : κ} (hf : f ≠ free)
    (hu : used f = false) : ∀ i ∈ S, g i ≠ f := by
  intro i hi hgi
  have hpos : 0 < refs f := by
    rw [h.refs_eq f hf]
    exact count_pos_iff.mpr ⟨i, hi, hgi⟩
  rw [(h.used_iff f hf).mpr hpos] at hu
  cases hu

omit [DecidableEq ι] in
theorem Balanced.refs_pos (h : Balanced S g refs used free) {x : ι} (hx : x ∈ S)
    (hf : g x ≠ free) : 0 < refs (g x) := by
  rw [h.refs_eq _ hf]
  exact count_pos_iff.mpr ⟨x, hx, rfl⟩

omit [DecidableEq ι] in
theorem Balanced.refs_le_card (h : Balanced S g refs used free) {f : κ} (hf : f ≠ free) :
    refs f ≤ S.card := by
  rw [h.refs_eq f hf]
  exact count_le_card S g f

/-- A resource with one reference is held by one slot. -/
theorem Balanced.unique (h : Balanced S g refs used free) {x y : ι} (hx : x ∈ S) (hy : y ∈ S)
    (hf : g x ≠ free) (h1 : refs (g x) = 1) (hxy : g y = g x) : y = x := by
  rw [h.refs_eq _ hf] at h1
  exact eq_of_count_le_one (le_of_eq h1) hy hx hxy rfl

theorem Balanced.take (h : Balanced S g refs used free) {x : ι} (hx : x ∈ S) (hgx : g x = free)
    {f : κ} (hrefs : ∀ k, k ≠ free → refs' k = if k = f then refs k + 1 else refs k)
    (hused : ∀ k, k ≠ free → used' k = (decide (k = f) || used k)) :
    Balanced S (update g x f) refs' used' free := by
  refine ⟨?_, ?_⟩
  · intro k hk
    have hcount := count_update (g := g) hx f k
    rw [hgx, if_neg (Ne.symm hk)] at hcount
    rw [hrefs k hk, h.refs_eq k hk]
    by_cases hkf : k = f
    · rw [if_pos hkf]
      rw [if_pos hkf.symm] at hcount
      omega
    · rw [if_neg hkf]
      rw [if_neg (Ne.symm hkf)] at hcount
      omega
  · intro k hk
    rw [hused k hk, hrefs k hk]
    by_cases hkf : k = f
    · simp [hkf]
    · simpa [hkf] using h.used_iff k hk

theorem Balanced.drop (h : Balanced S g refs used free) {x : ι} (hx : x ∈ S) (hgx : g x ≠ free)
    (hrefs : ∀ k, k ≠ free → refs' k = if k = g x then refs k - 1 else refs k)
    (hused : ∀ k, k ≠ free → used' k = (used k && !(decide (k = g x) && decide (refs k = 1)))) :
    Balanced S (update g x free) refs' used' free := by
  have hpos := h.refs_pos hx hgx
  refine ⟨?_, ?_⟩
  · intro k hk
    have hcount := count_update (g := g) hx free k
    rw [if_neg (Ne.symm hk)] at hcount
    rw [hrefs k hk, h.refs_eq k hk]
    by_cases hkf : k = g x
    · rw [if_pos hkf]
      rw [if_pos hkf.symm] at hcount
      omega
    · rw [if_neg hkf]
      rw [if_neg (Ne.symm hkf)] at hcount
      omega
  · intro k hk
    rw [hused k hk, hrefs k hk]
    by_cases hkf : k = g x
    · subst hkf
      have := (h.used_iff (g x) hk).mpr hpos
      simp only [this, decide_true, Bool.true_and, Bool.not_eq_true', decide_eq_false_iff_not,
        if_true]
      omega
    · simpa [hkf] using h.used_iff k hk

theorem Balanced.share (h : Balanced S g refs used free) {x : ι} (hx : x ∈ S) (hgx : g x = free)
    {f : κ} (hf : f ≠ free → used f = true)
    (hrefs : ∀ k, k ≠ free → refs' k = if k = f then refs k + 1 else refs k) :
    Balanced S (update g x f) refs' used free := by
  apply h.take hx hgx hrefs
  intro k hk
  by_cases hkf : k = f
  · subst hkf
    simp [hf hk]
  · simp [hkf]

theorem Balanced.move (h : Balanced S g refs used free) {x : ι} (hx : x ∈ S)
    (hgx : g x ≠ free → refs (g x) ≠ 1) {f : κ} (hff : f ≠ free) (hf : used f = false)
    (hrefs : ∀ k, k ≠ free →
      refs' k = if k = f then refs k + 1 else if k = g x then refs k - 1 else refs k)
    (hused : ∀ k, k ≠ free → used' k = (decide (k = f) || used k)) :
    Balanced S (update g x f) refs' used' free := by
  have hne : g x ≠ f := h.not_held hff hf x hx
  refine ⟨?_, ?_⟩
  · intro k hk
    have hcount := count_update (g := g) hx f k
    rw [hrefs k hk, h.refs_eq k hk]
    by_cases hkf : k = f
    · rw [if_pos hkf]
      rw [if_pos hkf.symm, if_neg (fun hg => hne (hg.trans hkf))] at hcount
      omega
    · rw [if_neg hkf]
      rw [if_neg (Ne.symm hkf)] at hcount
      by_cases hkx : k = g x
      · rw [if_pos hkx]
        rw [if_pos hkx.symm] at hcount
        omega
      · rw [if_neg hkx]
        rw [if_neg (Ne.symm hkx)] at hcount
        omega
  · intro k hk
    rw [hused k hk, hrefs k hk]
    by_cases hkf : k = f
    · simp [hkf]
    · rw [if_neg hkf]
      simp only [hkf, decide_false, Bool.false_or]
      by_cases hkx : k = g x
      · subst hkx
        have hpos := h.refs_pos hx hk
        have := (h.used_iff _ hk).mpr hpos
        have := hgx hk
        simp only [‹used (g x) = true›, if_true, true_iff]
        omega
      · rw [if_neg hkx]
        exact h.used_iff k hk

theorem Balanced.grow (h : Balanced S g refs used free) (hsub : S ⊆ T)
    (hnew : ∀ i ∈ T, i ∉ S → g i = free) : Balanced T g refs used free := by
  refine ⟨?_, h.used_iff⟩
  intro f hf
  rw [h.refs_eq f hf, count_of_subset hsub]
  intro i hi hS hgi
  exact hf (hgi.symm.trans (hnew i hi hS))

theorem Balanced.shrink (h : Balanced T g refs used free) (hsub : S ⊆ T)
    (hold : ∀ i ∈ T, i ∉ S → g i = free) : Balanced S g refs used free := by
  refine ⟨?_, h.used_iff⟩
  intro f hf
  rw [h.refs_eq f hf, count_of_subset hsub]
  intro i hi hS hgi
  exact hf (hgi.symm.trans (hold i hi hS))

omit [DecidableEq ι] in
/-- The balance only looks at the slots, and at the resources other than `free`. -/
theorem Balanced.congr (h : Balanced S g refs used free) {g' : ι → κ} (hg : ∀ i ∈ S, g' i = g i)
    (hrefs : ∀ k, k ≠ free → refs' k = refs k) (hused : ∀ k, k ≠ free → used' k = used k) :
    Balanced S g' refs' used' free := by
  refine ⟨?_, ?_⟩
  · intro f hf
    rw [hrefs f hf, h.refs_eq f hf]
    exact (count_congr hg f).symm
  · intro f hf
    rw [hused f hf, hrefs f hf]
    exact h.used_iff f hf

end Balance

end Hydrax.RefCount
