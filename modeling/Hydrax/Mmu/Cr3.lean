import Hydrax.Mmu.KernelRuns

/-!
# The address given to `cr3`

`mmu_clone_directory` takes the physical address of the directory's first page and adds the offset
of `tablesPhysical` to it. `tablesPhysical` begins with the second page, and `kalloc` gives each page
the lowest frame that is free then.

* `clone_physical_iff`: the address is right exactly if the frame after the lowest free one is free.
-/

namespace Hydrax

/-! ## Two frames -/

theorem FramesTaken.pair {m m' : Memmap} {f g : Nat} (h : FramesTaken m [f, g] m') (hf : f ≠ 0)
    (hg : g ≠ 0) : g = f + 1 ↔ m.used (f + 1) = false := by
  cases h with
  | @cons _ m₁ _ _ length used rest =>
    cases rest with
    | cons _ _ _ =>
      obtain ⟨-, hfree, hbelow⟩ | ⟨hzero, -⟩ := memmapFindFreePage_spec m
      swap
      · exact absurd hzero hf
      obtain ⟨-, hfree₁, hbelow₁⟩ | ⟨hzero, -⟩ := memmapFindFreePage_spec m₁
      swap
      · exact absurd hzero hg
      rw [used, Bool.or_eq_false_iff, decide_eq_false_iff_not] at hfree₁
      have hle : memmapFindFreePage m + 1 ≤ memmapFindFreePage m₁ := by
        by_contra hlt
        have := hbelow (memmapFindFreePage m₁) (by omega)
        rw [hfree₁.2] at this
        cases this
      constructor
      · intro heq
        rw [← heq]
        exact hfree₁.2
      · intro hnext
        by_contra hne
        have := hbelow₁ (memmapFindFreePage m + 1) (by omega)
        rw [used, hnext, Bool.or_false, decide_eq_true_eq] at this
        omega

/-! ## The clone -/

section Clone

variable {flags dir : Nat} {src : DirRef} {L : List Nat} {s s₁ s' : State} {physmem : Option Nat}
  (hI : Inv s L) (hclean : FreeClean s)
  (alloc : KernelAllocated s s₁ L dir 2 cloneKflags none physmem)
  (cloned : Cloned flags src dir L (List.range tableSize) (s₁.newDir dir) s')

include hI hclean alloc cloned

theorem Cloned.physical_iff (hout : s'.outOfFrames = false) :
    (physmem.getD 0 + offsetofTablesPhysical) % wordSize =
        s'.physicalOf (dir + offsetofTablesPhysical) ↔
      s.physicalMemmap.used (s.nextFrame + 1) = false := by
  have hout₁ := false_of_imp cloned.out hout
  have htakes := alloc.takes hclean rfl
  have hne : ∀ v ∈ pagesFrom (dir / pageSize) 2, (s₁.entry .kernel v).frame ≠ 0 := by
    intro v hv
    obtain ⟨f, hentry, -, hfresh⟩ := alloc.entry v (inRange_eq_true.mpr (mem_pagesFrom.mp hv))
    rw [hentry, allocatedPage, htakes v hv]
    exact (hfresh (htakes v hv) hout₁).ne_zero
  have hfirst : (s₁.entry .kernel (dir / pageSize)).frame = s.nextFrame :=
    alloc.frame (htakes _ (by simp [mem_pagesFrom]))
  have hpair := (alloc.order htakes).pair (hne _ (by simp [mem_pagesFrom]))
    (hne (dir / pageSize + 1) (by simp [mem_pagesFrom]))
  dsimp only at hpair
  rw [hfirst] at hpair
  have hpage : (dir + offsetofTablesPhysical) / pageSize = dir / pageSize + 1 := by
    rw [offsetofTablesPhysical, pageSize]
    omega
  have hoff : (dir + offsetofTablesPhysical) % pageSize = 0 := by
    have := alloc.aligned
    rw [offsetofTablesPhysical, pageSize] at *
    omega
  have hkept : s'.entry .kernel (dir / pageSize + 1) = s₁.entry .kernel (dir / pageSize + 1) := by
    have hfits := alloc.fits
    have hlen := alloc.alloc.length
    have hin : inRange (dir / pageSize) 2 (dir / pageSize + 1) = true :=
      inRange_eq_true.mpr (by omega)
    rw [← kernelEntry_newDir s₁ dir]
    refine (cloned.entry .kernel (kernel_mem_spaces _) _ (hI.kernel_lt (by omega)) (Or.inr ?_) ?_
      ?_).1
    · show s₁.kernelMemmap.used _ = true
      rw [alloc.used, hin]
      rfl
    · rintro - ⟨hle, -⟩
      change s₁.kernelMemmap.length ≤ _ at hle
      omega
    · intro h
      cases h
  rw [← hpair, State.physicalOf, hpage, hoff, hkept, alloc.phys (htakes _ (by simp [mem_pagesFrom])),
    Option.getD_some, offsetofTablesPhysical]
  have hlt := nextFrame_lt hI.frames
  rw [Nat.mod_eq_of_lt (by rw [pageSize, wordSize]; omega), pageSize]
  omega

end Clone

/-- **`*phys` and `tablesPhysical` are right** in the clone exactly if the frame after the lowest
free one is free. -/
theorem clone_physical_iff {flags dir phys : Nat} {src : DirRef} {L : List Nat} {s s' : State}
    (hI : Inv s L) (hsrc : src ∈ spaces L) (hshare : hasFlag flags cloneShare = false)
    (hclean : FreeClean s) (hright : TablesRight s src)
    (h : mmuCloneDirectory s src flags = .ok (dir, phys, s')) (hdir : dir ≠ 0)
    (hout : s'.outOfFrames = false) :
    (phys = s'.physicalOf (dir + offsetofTablesPhysical) ∧ TablesRight s' (.heap dir)) ↔
      s.physicalMemmap.used (s.nextFrame + 1) = false := by
  cases mmuCloneDirectory_cases hI hsrc hshare h with
  | full => exact absurd rfl hdir
  | failed => exact absurd rfl hdir
  | made _ alloc inv tables cloned _ =>
    rw [cloned.physical_iff hI hclean alloc hout]
    exact and_iff_left (tables.directory hI hsrc hclean hright alloc inv).clone

theorem cloneLinked_ok {s : State} {a N M : Nat} {L : List Nat} (hI : Inv s L)
    (hmem : DirRef.heap a ∈ spaces L) (honly : KernelOnly s (.heap a)) (hC : Complete s (.heap a))
    (hroom : Room s N M) (hN : N + 2 ≤ s.kernelMemmap.length) (hM : M + 2 ≤ 65536) :
    ∃ dir phys s', mmuCloneDirectory s (.heap a) cloneCow = .ok (dir, phys, s') ∧ dir ≠ 0 ∧
      s'.outOfFrames = false := by
  have hown : ownTables s (.heap a) (List.range tableSize) = 0 := by
    rw [ownTables, List.countP_eq_zero]
    intro i hi
    by_cases hlt : i < kernelTables s.kernelMemmap
    · simp [ownsTable, hC i hlt]
    · simp [ownsTable, honly i (List.mem_range.mp hi) (by omega)]
  obtain ⟨dir, phys, s', hclone, hdir, hroom'⟩ := @mmuCloneDirectory_ok cloneCow _ _ _ _ _ _ hI hmem
    rfl hroom (le_of_eq hown) (by omega) (by omega)
  exact ⟨dir, phys, s', hclone, hdir, hroom'.out⟩

theorem clone_physical_iff_first : ∃ a s₀ s dir phys s', mmuInit Boot.small = .ok s₀ ∧
    kheapInit s₀ = .ok s ∧ mmuCloneDirectory s (.heap a) cloneCow = .ok (dir, phys, s') ∧ dir ≠ 0 ∧
      phys = s'.physicalOf (dir + offsetofTablesPhysical) ∧ TablesRight s' (.heap dir) := by
  obtain ⟨a, s₀, s, N, M, hinit, hheap, hF⟩ := start_small
  have hpages := hF.pagesLeft
  have hframes := hF.framesLeft
  have hspace : DirRef.heap a ∈ spaces [a] := heap_mem_spaces.mpr (by simp)
  obtain ⟨dir, phys, s', hclone, hdir, hout⟩ := cloneLinked_ok hF.process.inv hspace
    hF.kernelOnly hF.process.complete hF.room (by omega) (by omega)
  obtain ⟨k, hk⟩ := hF.frames
  have hkM := hF.room.frames_le hk
  have hnext : s.nextFrame = k := by
    refine memmapFindFreePage_of_prefix ?_ hk
    simp only [Memmap.searched, pageIndex, wordBits, hF.process.inv.frames]
    omega
  refine ⟨a, s₀, s, dir, phys, s', hinit, hheap, hclone, hdir, ?_⟩
  refine (clone_physical_iff hF.process.inv hspace
    (show hasFlag cloneCow cloneShare = false from rfl) hF.clean
    hF.right hclone hdir hout).mpr ?_
  rw [hnext, hk]
  exact decide_eq_false (by omega)

/-! ## A gap in front -/

/-- Two pages are taken and the first is given back: its frame is the lowest free one, and the next
is in use. -/
theorem HeapBooks.gap {s s₁ s₂ s₃ : State} {L : List Nat} {A B k : Nat} {p₁ p₂ : Option Nat}
    (hB : HeapBooks s L s) (hreq : HeapRequest 4096 cloneKflags) (hnil : s.kernelBuffers = [])
    (hk : ∀ f, s.physicalMemmap.used f = decide (f < k)) (hlt : k + 2 ≤ 65536)
    (h₁ : KernelAllocated s s₁ L A 1 cloneKflags none p₁) (hout₁ : s₁.outOfFrames = false)
    (h₂ : KernelAllocated s₁ s₂ L B 1 cloneKflags none p₂) (hout₂ : s₂.outOfFrames = false)
    (h₃ : Hydrax.kfree s₂ A = .ok s₃) :
    HeapBooks s L s₃ ∧ s₃.nextFrame = k ∧ s₃.physicalMemmap.used (k + 1) = true := by
  have hB₁ := hB.kalloc hreq h₁ hout₁
  have hB₂ := hB₁.kalloc hreq h₂ hout₂
  have hbuffers : s₂.kernelBuffers =
      [{ address := A, pages := 1, mmap := none }, { address := B, pages := 1, mmap := none }] := by
    rw [h₂.buffers, h₁.buffers, State.newBuffers_eq hB₁.heap hreq, State.newBuffers_eq hB.heap hreq,
      hnil]
    rfl
  have hA : { address := A, pages := 1, mmap := none } ∈ s₂.kernelBuffers := by simp [hbuffers]
  obtain ⟨hB₃, hperm⟩ := hB₂.kfree hA h₃
  have hfreed := (kfree_kernel hB₂.inv (hB₂.inv.heap.find_eq hA) h₃).1
  have hbuffers₃ : s₃.kernelBuffers = [{ address := B, pages := 1, mmap := none }] := by
    rw [hbuffers] at hperm
    exact (List.singleton_perm.mp hperm.cons_inv).symm
  have hpage : ∀ v, Buffer.Covers { address := B, pages := 1, mmap := none } v →
      (s₃.entry .kernel v).frame = k + 1 := by
    intro v hcov
    obtain ⟨hle, hlt'⟩ := hcov
    obtain rfl : v = B / pageSize + 0 := by
      dsimp only at hle hlt'
      omega
    rw [hB₂.entry_rest hA hfreed (by rw [hbuffers₃]; exact List.mem_singleton_self _) ⟨hle, hlt'⟩]
    have hk₁ := (h₁.lowest hB.clean rfl hB.inv hk (by omega)).2
    exact (h₂.lowest hB₁.clean rfl hB₁.inv hk₁ (by omega)).1 0 (by decide)
  have hstart := hB₃.inv.heap.covers_start (b := { address := B, pages := 1, mmap := none })
    (by simp [hbuffers₃])
  have hkpos : 0 < k := by simpa [hk] using hB.inv.zero_frame
  have hused : ∀ f, f ≠ 0 → f ≠ k + 1 → s₃.physicalMemmap.used f = decide (f < k) := by
    intro f hf hne
    rw [← hk, Bool.eq_iff_iff, hB₃.inv.balanced.used_iff f hf, hB.inv.balanced.used_iff f hf,
      hB₃.refs f]
    intro b hb v hcov heq
    rw [hbuffers₃, List.mem_singleton] at hb
    subst hb
    exact hne (heq.symm.trans (hpage v hcov))
  refine ⟨hB₃, ?_, ?_⟩
  · have hfree : s₃.physicalMemmap.used k = false := by
      rw [hused k (by omega) (by omega)]
      simp
    have hbelow : ∀ f < k, s₃.physicalMemmap.used f = true := by
      intro f hf
      by_cases h0 : f = 0
      · rw [h0, hB₃.inv.zero_frame]
      · rw [hused f h0 (by omega)]
        exact decide_eq_true hf
    exact memmapFindFreePage_first hbelow hfree
      (by simp only [Memmap.searched, pageIndex, wordBits, hB₃.inv.frames]; omega)
  · rw [← hpage _ hstart]
    obtain ⟨hv, -⟩ := hB₃.inv.heap.covered _ (by simp [hbuffers₃]) _ hstart
    exact hB₃.inv.entry_used (kernel_mem_spaces L) (hB₃.inv.kernel_lt hv)
      (by rw [hpage _ hstart]; omega)

/-- A run after which the processor would be given the address of another frame. -/
theorem clone_physical_wrong : ∃ a s₀ s A p₁ s₁ B p₂ s₂ s₃ dir phys s',
    mmuInit Boot.small = .ok s₀ ∧ kheapInit s₀ = .ok s ∧
      kalloc s 4096 0 cloneKflags = .ok (A, p₁, s₁) ∧
      kalloc s₁ 4096 0 cloneKflags = .ok (B, p₂, s₂) ∧ kfree s₂ A = .ok s₃ ∧
      mmuCloneDirectory s₃ (.heap a) cloneCow = .ok (dir, phys, s') ∧ dir ≠ 0 ∧
      phys ≠ s'.physicalOf (dir + offsetofTablesPhysical) := by
  obtain ⟨a, s₀, s, N, M, hinit, hheap, hF⟩ := start_small
  have hpages := hF.pagesLeft
  have hframes := hF.framesLeft
  obtain ⟨k, hk⟩ := hF.frames
  have hkM := hF.room.frames_le hk
  have hB := HeapBooks.start hF.process.inv hF.clean hF.heap hF.buffers hF.kernelBuffers
  obtain ⟨hreq, A, p₁, s₁, halloc₁, -, h₁, hroom₁⟩ :=
    kallocPage_ok hF.process.inv hF.room (by omega) (by omega)
  have hB₁ := hB.kalloc hreq h₁ hroom₁.out
  have hlen₁ := hB₁.length
  obtain ⟨-, B, p₂, s₂, halloc₂, -, h₂, hroom₂⟩ :=
    kallocPage_ok hB₁.inv hroom₁ (by omega) (by omega)
  have hB₂ := hB₁.kalloc hreq h₂ hroom₂.out
  have hA : { address := A, pages := 1, mmap := none } ∈ s₂.kernelBuffers := by
    rw [h₂.buffers, h₁.buffers, State.newBuffers_eq hB.heap hreq]
    simp
  obtain ⟨s₃, hfree⟩ := hB₂.kfree_ok hA
  obtain ⟨hB₃, hnext, hused⟩ :=
    hB.gap hreq hF.kernelBuffers hk (by omega) h₁ hroom₁.out h₂ hroom₂.out hfree
  have hfreed := (kfree_kernel hB₂.inv (hB₂.inv.heap.find_eq hA) hfree).1
  have hlen₃ := hB₃.length
  have hC : Complete s₃ (.heap a) :=
    hF.process.complete.congr hlen₃ (by rw [hB₃.dirs]) (by rw [hB₃.dirs])
  have honly : KernelOnly s₃ (.heap a) := hF.kernelOnly.congr hlen₃ (by rw [hB₃.dirs])
  have hspace : DirRef.heap a ∈ spaces [a] := heap_mem_spaces.mpr (by simp)
  obtain ⟨dir, phys, s', hclone, hdir, hout⟩ := cloneLinked_ok hB₃.inv hspace honly hC
    (hfreed.room hroom₂) (by omega) (by omega)
  refine ⟨a, s₀, s, A, p₁, s₁, B, p₂, s₂, s₃, dir, phys, s', hinit, hheap, halloc₁, halloc₂, hfree,
    hclone, hdir, ?_⟩
  cases mmuCloneDirectory_cases hB₃.inv hspace (show hasFlag cloneCow cloneShare = false from rfl)
    hclone with
  | full => exact absurd rfl hdir
  | failed => exact absurd rfl hdir
  | made _ alloc _ _ cloned _ =>
    rw [Ne, cloned.physical_iff hB₃.inv hB₃.clean alloc hout, hnext, hused]
    exact Bool.noConfusion

end Hydrax
