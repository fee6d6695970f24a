import Hydrax.Mmu.Boot

/-!
# The boot mapping

When `mmu_init` turns paging on, the code that runs goes on at the address it had before, so the
memory in use has to be mapped to itself. The frames are not chosen for it: `mmu_alloc_frame` takes
the lowest free one, and `placement_address` moves while the page tables are made.

* `mmuInitKernel_identity`: the mapping is the identity, for every image that fits into memory.
-/

namespace Hydrax

/-- The state of the memory manager after the loops of `mmu_init`, with `e` as `end_of_kernel` and
`place` as the last `placement_address`. -/
structure BootMapping (e place : Nat) (s : State) : Prop where
  mapped : ∀ k, k * pageSize < place →
    (s.entry .kernel k).present = true ∧ (s.entry .kernel k).frame = k
  kernel : ∀ k, s.kernelMemmap.used k = decide (k * pageSize < place)
  physical : ∀ k, s.physicalMemmap.used k = decide (k * pageSize < place)
  default : ∀ k, (s.tasks 0).memmap.used k = decide (k * pageSize < e)
  tables : ∀ i, (s.dirs .kernel).tablesPhysical i / pageSize * pageSize =
    s.physicalOf ((s.dirs .kernel).tables i)

theorem lt_pageCount_iff {k a : Nat} : k < pageCount a ↔ k * pageSize < a := by
  simp only [pageCount, pageSize]
  omega

section Loops

variable {b : BootImage} {e p : Nat} (hL : Spread b e p) {s₁ s₂ : State}
  (h₂ : Framed s₁ (e / pageSize) (bootPages e p) s₂)

include hL h₂

theorem Framed.entry_inside {k : Nat} (hk : k < bootPages e p) :
    (s₂.entry .kernel k).present = true ∧ (s₂.entry .kernel k).frame = k := by
  obtain ⟨hle, -⟩ := hL.bootPages_le
  rw [h₂.present k (by omega), h₂.frame k (by omega), if_pos hk]
  exact ⟨decide_eq_true hk, rfl⟩

theorem Framed.tables_physical (h₁ : Filled (b.start e p) p (e / 0x400000) s₁) (i : Nat) :
    (s₂.dirs .kernel).tablesPhysical i / pageSize * pageSize =
      s₂.physicalOf ((s₂.dirs .kernel).tables i) := by
  obtain ⟨-, hpos⟩ := hL.bootPages_le
  have hp := hL.free_mod
  rw [h₂.step.dirs, h₁.tables, State.physicalOf]
  split_ifs with hi
  · obtain ⟨v, hv⟩ : ∃ v, p + i * tableStride = v * pageSize := by
      refine ⟨(p + i * tableStride) / pageSize, ?_⟩
      simp only [pageSize, tableStride] at *
      omega
    have hlt : v < bootPages e p := by
      simp only [bootPages, pageSize, tableStride] at *
      omega
    rw [h₁.physical i hi, hv, or_flags_div, mul_pageSize_div, Nat.mul_mod_left,
      (h₂.entry_inside hL hlt).2, Nat.add_zero]
  · rw [h₁.noPhysical i (not_lt.mp hi), Nat.zero_div, (h₂.entry_inside hL hpos).2, Nat.zero_mod,
      Nat.add_zero]

end Loops

/-- **The boot mapping is the identity.** `placement_address` starts at the end of the image and only
moves upwards, so it ends inside the memory only if the image does. -/
theorem mmuInitKernel_identity (b : BootImage) (hpos : 0 < b.modsEnd)
    (hle : b.modsEnd ≤ physicalPages * pageSize) :
    ∃ e s₀ s₁, mmuInitMaps b = .ok (e, s₀) ∧
      forAddr (initPage b) e addrFuel 0 s₀ = .ok s₁ ∧
      (s₁.placementAddress ≤ e → s₁.placementAddress ≤ physicalPages * pageSize →
        ∃ s, mmuInitKernel b = .ok s ∧ BootMapping e s₁.placementAddress s) := by
  obtain ⟨e, p, hL, hmaps⟩ := mmuInitMaps_ok b hpos hle
  obtain ⟨s₁, hpages, h₁⟩ := initPages_ok hL
  refine ⟨e, b.start e p, s₁, hmaps, hpages, ?_⟩
  intro _ hmemory
  have hcount := h₁.pageCount_placement hL
  have hmax : bootPages e p ≤ 65536 := by
    rw [← hcount]
    simp only [pageCount, pageSize, physicalPages] at *
    omega
  have hinside : ∀ k, k < bootPages e p ↔ k * pageSize < s₁.placementAddress := by
    intro k
    rw [← hcount, lt_pageCount_iff]
  obtain ⟨s₂, m, d, h₂, hrun, -, hmused, -, hdused⟩ :=
    mmuInitKernel_run hL hmaps hpages h₁ hmax
  refine ⟨_, hrun, ?_⟩
  constructor
  · intro k hk
    exact h₂.entry_inside hL ((hinside k).mpr hk)
  · intro k
    exact (hmused k).trans (decide_eq_decide.mpr (hinside k))
  · intro k
    exact (h₂.used k).trans (decide_eq_decide.mpr (hinside k))
  · intro k
    have hmod := hL.end_mod
    dsimp only
    rw [Function.update_self, hdused, decide_eq_decide]
    simp only [pageSize]
    omega
  · intro i
    exact h₂.tables_physical hL h₁ i

theorem mmuInitKernel_identity_small : ∃ e s₀ s₁ s,
    mmuInitMaps Boot.small.toBootImage = .ok (e, s₀) ∧
      forAddr (initPage Boot.small.toBootImage) e addrFuel 0 s₀ = .ok s₁ ∧
      s₁.placementAddress ≤ e ∧ s₁.placementAddress ≤ physicalPages * pageSize ∧
      mmuInitKernel Boot.small.toBootImage = .ok s ∧ BootMapping e s₁.placementAddress s := by
  obtain ⟨e, s₀, s₁, hmaps, hpages, hidentity⟩ :=
    mmuInitKernel_identity Boot.small.toBootImage (by decide) (by decide)
  obtain ⟨e', p, hL, hmaps'⟩ := mmuInitMaps_ok Boot.small.toBootImage (by decide) (by decide)
  obtain ⟨rfl, rfl⟩ : e = e' ∧ s₀ = Boot.small.toBootImage.start e' p := by
    rw [hmaps'] at hmaps
    cases hmaps
    exact ⟨rfl, rfl⟩
  obtain ⟨s₁', hpages', h₁⟩ := initPages_ok hL
  obtain rfl : s₁ = s₁' := by
    rw [hpages'] at hpages
    cases hpages
    rfl
  have hplace : s₁.placementAddress ≤ e := h₁.placement_lt hL
  have hmemory : s₁.placementAddress ≤ physicalPages * pageSize := by
    have hend : e ≤ 0x200000 + 0x1000000 := hL.end_le
    simp only [physicalPages, pageSize]
    omega
  obtain ⟨s, hrun, hmapping⟩ := hidentity hplace hmemory
  exact ⟨e, _, s₁, s, hmaps, hpages, hplace, hmemory, hrun, hmapping⟩

end Hydrax
