import Hydrax.Mmu.Init
import Hydrax.Mmu.Physical
import Hydrax.Mmu.Progress

/-!
# The state after `mmu_init`

`mmu_init` comes back for every memory layout the boot loader may leave, and the state it leaves
meets the invariant of the memory manager. The three parts of the function are followed in turn:

* the early allocations, which fix the end of kernel space (`Layout`),
* the loop that makes the page tables of the kernel (`Filled`),
* the loop that gives each page below the end of the used memory the frame of the same number
  (`Framed`).

`mmuInit_ok` puts them together with the clone of the kernel's directory that the boot task runs on.
-/

namespace Hydrax

open Loop
open Function (update update_of_ne update_self)

variable {s s₀ s₁ : State} {a e k n p : Nat} {m : Memmap}

/-! ## Early allocations -/

/-- The least page address that is not below `a`. -/
def pageUp (a : Nat) : Nat := (a + 0xFFF) / 0x1000 * 0x1000

theorem pageUp_eq (h : a < 0x20000000) :
    pageUp a = if a % pageSize ≠ 0 then (a - a % pageSize + 0x1000) % wordSize else a := by
  unfold pageUp
  by_cases hm : a % pageSize = 0
  · rw [if_neg (not_not.mpr hm)]
    simp only [pageSize] at hm
    omega
  · rw [if_pos hm]
    simp only [pageSize, wordSize] at hm ⊢
    omega

theorem kallocPremmu_word {s : State} {sz : Nat} (hsz : sz < 0x100000)
    (htop : s.placementAddress < 0x20000000) :
    ∃ p phys, s.placementAddress ≤ p ∧ p < s.placementAddress + 4 ∧
      kallocPremmu s sz false = (p, phys, { s with placementAddress := p + sz }) := by
  generalize hq : s.placementAddress = q at *
  -- the address rounded up to a word
  have hword : ∃ p, q ≤ p ∧ p < q + 4 ∧ (if q % 4 ≠ 0 then (q - q % 4 + 4) % wordSize else q) = p := by
    refine ⟨_, ?_, ?_, rfl⟩
    all_goals
      simp only [wordSize]
      split_ifs <;> omega
  obtain ⟨p, hle, hlt, hp⟩ := hword
  have hsum : (p + sz) % wordSize = p + sz := Nat.mod_eq_of_lt (by simp only [wordSize]; omega)
  unfold kallocPremmu
  dsimp only
  rw [hq, hp]
  simp only [Bool.false_and, Bool.false_eq_true, if_false]
  rw [hsum]
  split
  · exact ⟨p, none, hle, hlt, rfl⟩
  · exact ⟨p, some p, hle, hlt, rfl⟩

theorem kallocPremmu_page {s : State} {sz : Nat} (hsz : sz < 0x100000)
    (htop : s.placementAddress < 0x20000000) :
    kallocPremmu s sz true = (pageUp s.placementAddress, some (pageUp s.placementAddress),
      { s with placementAddress := pageUp s.placementAddress + sz }) := by
  generalize hq : s.placementAddress = q at *
  have hup : pageUp q = (if (if q % 4 ≠ 0 then (q - q % 4 + 4) % 4294967296 else q) % 4096 ≠ 0 then
      ((if q % 4 ≠ 0 then (q - q % 4 + 4) % 4294967296 else q) -
        (if q % 4 ≠ 0 then (q - q % 4 + 4) % 4294967296 else q) % 4096 + 0x1000) % 4294967296
      else (if q % 4 ≠ 0 then (q - q % 4 + 4) % 4294967296 else q)) := by
    unfold pageUp
    split_ifs <;> omega
  simp only [kallocPremmu, hq, pageSize, wordSize, Bool.not_true, Bool.and_false,
    Bool.false_eq_true, if_false, Bool.true_and, decide_eq_true_eq]
  rw [← hup]
  have hlt : (pageUp q + sz) % 4294967296 = pageUp q + sz := by
    apply Nat.mod_eq_of_lt
    simp only [pageUp]
    omega
  rw [hlt]

/-- The state when the loops of `mmu_init` start, with free memory from `p` on and kernel space up to
`e`. -/
def BootImage.start (b : BootImage) (e p : Nat) : State :=
  { placementAddress := p, mem := b.mem, vfsRead := b.vfsRead, mallocOk := b.mallocOk
    physicalMemmap := memmapInit physicalPages, kernelMemmap := memmapInit (e / pageSize) }

/-- Where the early allocations leave the memory: kernel space ends at `e`, a multiple of 4 MB that
is far enough from the free memory at `p` for the page tables and a heap. -/
structure Spread (b : BootImage) (e p : Nat) : Prop where
  end_mod : e % 0x400000 = 0
  end_le : e ≤ b.modsEnd + 0x1000000
  free_mod : p % pageSize = 0
  free_ge : b.modsEnd ≤ p
  room : p + 0x3D0000 ≤ e
  pos : 0 < b.modsEnd
  memory : b.modsEnd ≤ 0x10000000

/-- The same for an image that leaves half of the memory free. -/
structure Layout (b : Boot) (e p : Nat) : Prop where
  end_mod : e % 0x400000 = 0
  end_le : e ≤ 0x9000000
  free_mod : p % pageSize = 0
  free_ge : b.modsEnd ≤ p
  room : p + 0x3D0000 ≤ e

theorem memmapRoom_ok {s : State} {pages : Nat} (hlow : 0 < s.placementAddress)
    (hpages : pages ≤ 1048576) (htop : s.placementAddress < 0x20000000) :
    ∃ p, s.placementAddress ≤ p ∧ p < s.placementAddress + 4 ∧
      memmapRoom s pages = .ok { s with placementAddress := p + pageIndex pages * 4 } := by
  obtain ⟨p, phys, hle, hlt, heq⟩ := @kallocPremmu_word s (pageIndex pages * 4)
    (by simp only [pageIndex, wordBits]; omega) htop
  refine ⟨p, hle, hlt, ?_⟩
  rw [memmapRoom, heq]
  dsimp only
  rw [if_neg (by omega)]

theorem endOfKernel_spec {a : Nat} (h : a < 0x20000000) :
    endOfKernel a % 0x400000 = 0 ∧ a + 0x400000 ≤ endOfKernel a ∧ endOfKernel a < a + 0x800000 := by
  have hsum : (a + mmuGlobalSpace) % wordSize = a + 0x400000 := by
    simp only [mmuGlobalSpace, wordSize]
    omega
  rw [endOfKernel, hsum]
  by_cases hm : (a + 0x400000) % 0x400000 = 0
  · rw [if_neg (not_not.mpr hm)]
    omega
  · rw [if_pos hm]
    simp only [wordSize]
    omega

/-- **The early allocations come back**, for every image in the memory. -/
theorem mmuInitMaps_ok (b : BootImage) (hpos : 0 < b.modsEnd) (hle : b.modsEnd ≤ 0x10000000) :
    ∃ e p, Spread b e p ∧ mmuInitMaps b = .ok (e, b.start e p) := by
  obtain ⟨p₁, phys, hge₁, hlt₁, h₁⟩ := @kallocPremmu_word
    { placementAddress := b.modsEnd, mem := b.mem, vfsRead := b.vfsRead, mallocOk := b.mallocOk }
    (4 * physicalPages) (by decide) (by show b.modsEnd < _; omega)
  dsimp only at hge₁ hlt₁ h₁
  obtain ⟨p₂, hge₂, hlt₂, h₂⟩ := @memmapRoom_ok
    { placementAddress := p₁ + 4 * physicalPages, mem := b.mem, vfsRead := b.vfsRead,
      mallocOk := b.mallocOk }
    physicalPages (by show _ < p₁ + _; omega) (by decide)
    (by simp only [physicalPages]; omega)
  dsimp only [physicalPages, pageIndex, wordBits] at hge₂ hlt₂ h₂
  obtain ⟨hmod, hlow, hhigh⟩ := @endOfKernel_spec (p₂ + 65536 / 32 * 4) (by omega)
  generalize he : endOfKernel (p₂ + 65536 / 32 * 4) = e at hmod hlow hhigh
  obtain ⟨p₃, hge₃, hlt₃, h₃⟩ := @memmapRoom_ok
    { placementAddress := p₂ + 65536 / 32 * 4, mem := b.mem, vfsRead := b.vfsRead,
      mallocOk := b.mallocOk }
    (e / pageSize) (by show _ < p₂ + _; omega) (by simp only [pageSize]; omega)
    (by show p₂ + _ < _; omega)
  dsimp only [pageIndex, wordBits] at hge₃ hlt₃ h₃
  obtain ⟨p₄, hge₄, hlt₄, h₄⟩ := @memmapRoom_ok
    { placementAddress := p₃ + e / pageSize / 32 * 4, mem := b.mem, vfsRead := b.vfsRead,
      mallocOk := b.mallocOk }
    (1024 * 1024) (by show _ < p₃ + _; omega) (by decide)
    (by show p₃ + _ < _; simp only [pageSize]; omega)
  dsimp only [pageIndex, wordBits] at hge₄ hlt₄ h₄
  refine ⟨e, pageUp (p₄ + 1024 * 1024 / 32 * 4), ⟨hmod, by omega, ?_, ?_, ?_, hpos, hle⟩, ?_⟩
  · simp only [pageUp, pageSize]
    omega
  · simp only [pageUp, pageSize] at *
    omega
  · simp only [pageUp, pageSize] at *
    omega
  · rw [mmuInitMaps]
    dsimp only
    rw [h₁]
    dsimp only
    rw [if_neg (by omega), physicalPages, h₂, ok_bind]
    dsimp only
    rw [he, h₃, ok_bind, h₄, ok_bind]
    dsimp only
    have hlt : p₄ + 1024 * 1024 / 32 * 4 < 0x20000000 := by
      simp only [pageSize] at *
      omega
    rw [← pageUp_eq hlt]
    rfl

theorem Spread.layout {b : Boot} (h : Spread b.toBootImage e p) : Layout b e p where
  end_mod := h.end_mod
  end_le := by
    have := h.end_le
    have := b.modsEnd_le
    omega
  free_mod := h.free_mod
  free_ge := h.free_ge
  room := h.room

/-! ## The page tables of the kernel -/

/-- Tables that `k` pages need. -/
def tablesFor (k : Nat) : Nat := (k + 1023) / 1024

/-- The bytes from one table to the next: each starts on a page of its own. -/
def tableStride : Nat := 12288

/-- The first `n` tables are there, one after the other from `p` on, and no entry has a frame. -/
structure Filled (s₀ : State) (p n : Nat) (s : State) : Prop where
  step : ∃ D T q, s = { s₀ with dirs := D, tables := T, placementAddress := q }
  placement : pageUp s.placementAddress = p + n * tableStride
  tables : ∀ i, (s.dirs .kernel).tables i = if i < n then p + i * tableStride else 0
  physical : ∀ i < n, (s.dirs .kernel).tablesPhysical i = (p + i * tableStride) ||| 7
  noPhysical : ∀ i, n ≤ i → (s.dirs .kernel).tablesPhysical i = 0
  frame : ∀ t j, (s.page t j).frame = 0
  absent : ∀ t j, (s.page t j).present = false
  refs : ∀ t, (s.tables t).refs = 0

theorem filled_zero (hp : p % pageSize = 0) (hs : s.placementAddress = p)
    (hdirs : ∀ d, s.dirs d = {}) (htables : ∀ t, s.tables t = {}) : Filled s p 0 s where
  step := ⟨_, _, _, rfl⟩
  placement := by
    rw [hs]
    simp only [pageUp, pageSize] at *
    omega
  tables i := by rw [hdirs]; simp
  physical i hi := absurd hi (by simp)
  noPhysical i _ := by rw [hdirs]
  frame t j := by rw [State.page, htables]
  absent t j := by rw [State.page, htables]
  refs t := by rw [htables]

theorem Filled.makeTable (h : Filled s₀ p n s) (hk : tableIdx k = n)
    (hp : 0 < p) (htop : p + n * tableStride < 0x20000000) :
    ∃ s₁, mmuMakeTable premmuTable s .kernel k = .ok (true, s₁) ∧ Filled s₀ p (n + 1) s₁ := by
  have hlt : s.placementAddress < 0x20000000 := by
    have := h.placement
    simp only [pageUp] at this
    omega
  have halloc := @kallocPremmu_page s sizeofPageTable (by decide) hlt
  rw [h.placement] at halloc
  generalize hq : p + n * tableStride = q at *
  have hqmod : q % 4096 = 0 := by
    have := h.placement
    simp only [pageUp] at this
    omega
  have htable : premmuTable s = .ok (q, q, { s with placementAddress := q + sizeofPageTable }) := by
    rw [premmuTable, halloc]
    rfl
  have hmake : mmuMakeTable premmuTable s .kernel k = .ok (true, { s with
      dirs := update s.dirs .kernel ((s.dirs .kernel).setTable n q (q ||| 7))
      tables := update s.tables q {}
      placementAddress := q + sizeofPageTable }) := by
    rw [mmuMakeTable, htable, ok_bind]
    dsimp only
    rw [if_neg (by omega), hk]
    rfl
  refine ⟨_, hmake, ?_, ?_, ?_, ?_, ?_, ?_, ?_, ?_⟩
  · obtain ⟨_, _, _, rfl⟩ := h.step
    exact ⟨_, _, _, rfl⟩
  · show pageUp (q + sizeofPageTable) = p + (n + 1) * tableStride
    rw [Nat.add_mul]
    simp only [pageUp, sizeofPageTable, tableStride] at *
    omega
  · intro i
    dsimp only
    rw [update_self]
    show update (s.dirs .kernel).tables n q i = _
    by_cases hi : i = n
    · rw [hi, update_self, if_pos (by omega), hq]
    · rw [update_of_ne hi, h.tables i]
      split_ifs <;> omega
  · intro i hi
    dsimp only
    rw [update_self]
    show update (s.dirs .kernel).tablesPhysical n (q ||| 7) i = _
    by_cases hi' : i = n
    · rw [hi', update_self, hq]
    · rw [update_of_ne hi', h.physical i (by omega)]
  · intro i hi
    dsimp only
    rw [update_self]
    show update (s.dirs .kernel).tablesPhysical n (q ||| 7) i = 0
    rw [update_of_ne (by omega), h.noPhysical i (by omega)]
  · intro t j
    show (((update s.tables q {}) t).pages j).frame = 0
    by_cases ht : t = q
    · rw [ht, update_self]
    · rw [update_of_ne ht]
      exact h.frame t j
  · intro t j
    show (((update s.tables q {}) t).pages j).present = false
    by_cases ht : t = q
    · rw [ht, update_self]
    · rw [update_of_ne ht]
      exact h.absent t j
  · intro t
    show ((update s.tables q {}) t).refs = 0
    by_cases ht : t = q
    · rw [ht, update_self]
    · rw [update_of_ne ht]
      exact h.refs t

theorem Filled.setupPage (h : Filled s₀ p n s) (t j flags : Nat) :
    Filled s₀ p n (mmuSetupPage s t j flags) := by
  have hdirs : (mmuSetupPage s t j flags).dirs = s.dirs := (mmuSetupPage_frames s t j flags).2.2.2
  have hplace : (mmuSetupPage s t j flags).placementAddress = s.placementAddress := by
    obtain ⟨_, _, _, _, heq⟩ := (touches_mmuSetupPage s t j flags).step
    rw [heq]
  refine ⟨?_, ?_, ?_, ?_, ?_, ?_, ?_, ?_⟩
  · obtain ⟨_, _, _, hs⟩ := h.step
    rw [mmuSetupPage]
    split
    next => exact ⟨_, _, _, by rw [hs]; rfl⟩
    next => exact ⟨_, _, _, by rw [hs]; rfl⟩
  · rw [hplace]
    exact h.placement
  · rw [hdirs]
    exact h.tables
  · rw [hdirs]
    exact h.physical
  · rw [hdirs]
    exact h.noPhysical
  · intro t' j'
    have := congrFun (frameAt_mmuSetupPage s t j flags) (t', j')
    exact this.trans (h.frame t' j')
  · intro t' j'
    rw [page_mmuSetupPage]
    split
    · exact h.absent t j
    · exact h.absent t' j'
  · intro t'
    rw [(touches_mmuSetupPage s t j flags).refs]
    exact h.refs t'

/-- The flags of the pages `mmu_init` creates. -/
def initFlags (b : BootImage) (i : Nat) : Nat :=
  if b.ucode ≤ i && i < b.ucodeEnd then allocFrameMktable ||| allocFrameUser
  else allocFrameMktable ||| allocFrameKernel ||| allocFrameWriteable

theorem initFlags_mktable (b : BootImage) (i : Nat) :
    hasFlag (initFlags b i) allocFrameMktable = true ∧
      hasFlag (initFlags b i) allocFrameAllocPhys = false := by
  rw [initFlags]
  split <;> decide

theorem initPage_of_table (b : BootImage) (h0 : s.tableOf .kernel k ≠ 0) :
    initPage b s (k * pageSize) =
      .ok (mmuSetupPage s (s.tableOf .kernel k) (pageIdx k) (initFlags b (k * pageSize))) := by
  have hphys := (initFlags_mktable b (k * pageSize)).2
  rw [initPage]
  show ((mmuAllocPage premmuTable s .kernel (k * pageSize) (initFlags b (k * pageSize))) >>= _) = _
  rw [mmuAllocPage]
  dsimp only
  rw [mul_pageSize_div, if_neg h0, pure_bind]
  dsimp only
  rw [if_neg (by simp), hphys, if_neg (by simp)]
  rfl

theorem initPage_of_made (b : BootImage) (h0 : s.tableOf .kernel k = 0)
    (hmake : mmuMakeTable premmuTable s .kernel k = .ok (true, s₁)) (h1 : s₁.tableOf .kernel k ≠ 0) :
    initPage b s (k * pageSize) = initPage b s₁ (k * pageSize) := by
  have hdiv : k * pageSize / pageSize = k := mul_pageSize_div k
  have hpage := @mmuAllocPage_of_made premmuTable s s₁ .kernel (k * pageSize)
    (initFlags b (k * pageSize)) (hdiv.symm ▸ h0) (initFlags_mktable b _).1 (hdiv.symm ▸ hmake)
    (hdiv.symm ▸ h1)
  rw [initPage, initPage]
  show ((mmuAllocPage premmuTable s .kernel (k * pageSize) (initFlags b (k * pageSize))) >>= _) =
    ((mmuAllocPage premmuTable s₁ .kernel (k * pageSize) (initFlags b (k * pageSize))) >>= _)
  rw [hpage]

theorem Filled.next (b : BootImage) {s₀ s : State} {p k : Nat} (h : Filled s₀ p (tablesFor k) s)
    (hp : 0 < p) (htop : p + tablesFor k * tableStride < 0x20000000) :
    ∃ s', initPage b s (k * pageSize) = .ok s' ∧ Filled s₀ p (tablesFor (k + 1)) s' := by
  have hidx : tableIdx k < tablesFor (k + 1) := by
    simp only [tableIdx, tablesFor, tableSize]
    omega
  have hthere : ∀ s₁, Filled s₀ p (tablesFor (k + 1)) s₁ → s₁.tableOf .kernel k ≠ 0 := by
    intro s₁ h₁
    rw [State.tableOf, h₁.tables, if_pos hidx]
    omega
  by_cases hk : k % 1024 = 0
  · -- the first page of a region
    have hn : tableIdx k = tablesFor k ∧ tablesFor (k + 1) = tablesFor k + 1 := by
      simp only [tableIdx, tablesFor, tableSize]
      omega
    have h0 : s.tableOf .kernel k = 0 := by
      rw [State.tableOf, h.tables, hn.1, if_neg (lt_irrefl _)]
    obtain ⟨s₁, hmake, h₁⟩ := h.makeTable hn.1 hp htop
    rw [← hn.2] at h₁
    have hpage := initPage_of_table b (hthere s₁ h₁)
    rw [← initPage_of_made b h0 hmake (hthere s₁ h₁)] at hpage
    exact ⟨_, hpage, h₁.setupPage _ _ _⟩
  · have hn : tablesFor (k + 1) = tablesFor k := by
      simp only [tablesFor]
      omega
    rw [hn] at hthere ⊢
    exact ⟨_, initPage_of_table b (hthere s h), h.setupPage _ _ _⟩

/-- **The loop that creates the pages of kernel space.** -/
theorem initPages_ok {b : BootImage} (hL : Spread b e p) :
    ∃ s, forAddr (initPage b) e addrFuel 0 (b.start e p) = .ok s ∧
      Filled (b.start e p) p (e / 0x400000) s := by
  have hmod := hL.end_mod
  have hle := hL.end_le
  have hge := hL.free_ge
  have hpos := hL.pos
  have hmemory := hL.memory
  have hroom := hL.room
  have hcount : pageCount e = e / 4096 := by
    simp only [pageCount]
    omega
  have htables : tablesFor (e / 4096) = e / 0x400000 := by
    simp only [tablesFor]
    omega
  have hloop := @forAddr_eq_foldlM State (initPage b) 0 e
    (by rw [hcount]; simp only [pageSize, wordSize]; omega) addrFuel
    (by rw [hcount]; simp only [addrFuel]; omega) (b.start e p)
  rw [Nat.zero_add] at hloop
  rw [hloop, hcount, ← htables]
  apply foldlM_map_range_ok (fun k => 0 + k * pageSize)
    (fun k => Filled (b.start e p) p (tablesFor k))
  · intro k hk s hs
    rw [Nat.zero_add]
    apply hs.next b (by omega)
    simp only [tablesFor, tableStride]
    omega
  · exact filled_zero hL.free_mod rfl (fun _ => rfl) (fun _ => rfl)

/-! ## The frames of the kernel -/

theorem fewSlots_kernel (s : State) : FewSlots s [] := by
  have hcard : (liveTables s.dirs []).card ≤ 1024 := by
    rw [liveTables]
    refine (Finset.card_erase_le).trans ((Finset.card_image_le).trans ?_)
    rw [Finset.card_product, Finset.card_range]
    simp [spaces, tableSize]
  rw [FewSlots, slots, Finset.card_product, Finset.card_range]
  simp only [tableSize, wordSize]
  omega

/-- After `k` turns of the loop, the first `k` pages of the kernel have the frames of the same
numbers. -/
structure Framed (s₀ : State) (n k : Nat) (s : State) : Prop where
  step : FrameStep s₀ s
  length : s.physicalMemmap.length = 65536
  used : ∀ f, s.physicalMemmap.used f = decide (f < k)
  balanced : Balanced s []
  refs : ∀ t, (s.tables t).refs = 0
  frame : ∀ v < n, (s.entry .kernel v).frame = if v < k then v else 0
  present : ∀ v < n, (s.entry .kernel v).present = decide (v < k)
  out : s.outOfFrames = false

theorem Filled.framed {b : BootImage} {m : Nat} (h : Filled (b.start e p) p n s) :
    Framed s m 0 s := by
  obtain ⟨_, _, _, hs⟩ := h.step
  have hphys : s.physicalMemmap = memmapInit 65536 := by
    rw [hs]
    rfl
  have hrefs : ∀ f, s.frameRefs f = 0 := by
    rw [hs]
    exact fun _ => rfl
  refine ⟨.refl s, by rw [hphys]; rfl, ?_, ?_, h.refs, ?_, ?_, by rw [hs]; rfl⟩
  · intro f
    rw [hphys, memmapInit_used]
    simp
  · refine ⟨fun f hf => ?_, fun f _ => ?_⟩
    · rw [hrefs]
      have : ¬ 0 < RefCount.count (slots s.dirs []) (frameAt s.tables) f := by
        rw [RefCount.count_pos_iff]
        rintro ⟨x, -, hx⟩
        exact hf (hx.symm.trans (h.frame x.1 x.2))
      omega
    · rw [hrefs, hphys, memmapInit_used]
      simp
  · intro v _
    rw [State.entry]
    split
    next => simp
    next => rw [h.frame]; simp
  · intro v _
    rw [State.entry]
    split
    next => rfl
    next => exact h.absent _ _

theorem Framed.next {s₀ s : State} {n k : Nat} (h : Framed s₀ n k s) (hk : k < n)
    (hframes : k < 65536) (htable : ∀ v < n, s₀.tableOf .kernel v ≠ 0)
    (hinj : ∀ v < n, ∀ w < n, s₀.tableOf .kernel v = s₀.tableOf .kernel w → tableIdx v = tableIdx w) :
    ∃ s', initFrame s (k * pageSize) = .ok s' ∧ Framed s₀ n (k + 1) s' := by
  have htab : ∀ v, s.tableOf .kernel v = s₀.tableOf .kernel v := fun v => h.step.tableOf .kernel v
  have hdiv : k * pageSize / pageSize = k := mul_pageSize_div k
  have ht0 : s.tableOf .kernel k ≠ 0 := by
    rw [htab]
    exact htable k hk
  obtain ⟨phys, s', halloc⟩ := mmuAllocFrame_ok h.length
    (show s.tableOf .kernel (k * pageSize / pageSize) ≠ 0 by rw [hdiv]; exact ht0)
  have hframe0 : (s.page (s.tableOf .kernel k) (pageIdx k)).frame = 0 := by
    rw [← State.entry_of_ne ht0, h.frame k hk, if_neg (lt_irrefl k)]
  obtain ⟨-, ⟨hne, -, -⟩ | ⟨-, htake⟩⟩ := mmuAllocFrame_cases halloc hdiv rfl
  · exact absurd hframe0 hne
  obtain ⟨f, htook, -⟩ := tookFrame_mmuTakeFrame htake
  obtain rfl : f = k := by
    rw [htook.first]
    apply memmapFindFreePage_of_prefix _ h.used
    simp only [Memmap.searched, pageIndex, wordBits, h.length]
    omega
  refine ⟨s', by rw [initFrame, halloc]; rfl, ?_⟩
  -- the entries of the other pages stay
  have hothers : ∀ v < n, v ≠ f → s'.entry .kernel v = s.entry .kernel v := by
    intro v hv hvf
    exact (htook.touches.entry_eq (d := .kernel) (v := v) (fun _ hslot => by
      obtain ⟨ht, hp⟩ := hslot
      rw [htab, htab] at ht
      exact hvf (page_eq_of_idx (hinj v hv f hk ht) hp))).1
  refine ⟨h.step.trans htook.touches.step, htook.touches.length.trans h.length, ?_, ?_, ?_, ?_, ?_,
    ?_⟩
  · intro g
    rw [htook.used, h.used]
    simp only [← Bool.decide_or]
    apply decide_eq_decide.mpr
    omega
  · apply h.balanced.takeFrame (fewSlots_kernel s) _ hframe0 htake
    rw [mem_slots, mem_liveTables]
    exact ⟨⟨ht0, .kernel, kernel_mem_spaces [], tableIdx f, tableIdx_lt (by omega), rfl⟩,
      pageIdx_lt f⟩
  · intro t
    rw [htook.touches.refs]
    exact h.refs t
  · intro v hv
    by_cases hvk : v = f
    · subst hvk
      rw [if_pos (by omega), State.entry_of_ne (by rw [htook.touches.step.tableOf]; exact ht0),
        htook.touches.step.tableOf, htook.page]
    · rw [hothers v hv hvk, h.frame v hv]
      split_ifs <;> omega
  · intro v hv
    by_cases hvk : v = f
    · subst hvk
      rw [decide_eq_true (by omega), State.entry_of_ne (by rw [htook.touches.step.tableOf]; exact ht0),
        htook.touches.step.tableOf, htook.page]
    · rw [hothers v hv hvk, h.present v hv]
      exact decide_eq_decide.mpr (by omega)
  · rw [htook.out, h.out, h.used]
    simp

/-- The pages of the memory that is used when the tables are made. -/
def bootPages (e p : Nat) : Nat := p / pageSize + 3 * (e / 0x400000)

section Filled

variable {b : BootImage} {e p : Nat} (hL : Spread b e p) {s : State}
  (h : Filled (b.start e p) p (e / 0x400000) s)

include hL

theorem Spread.bootPages_le : bootPages e p + 0x300 ≤ e / pageSize ∧ 0 < bootPages e p := by
  have hmod := hL.end_mod
  have hle := hL.end_le
  have hge := hL.free_ge
  have hpos := hL.pos
  have hmemory := hL.memory
  have hroom := hL.room
  have hp := hL.free_mod
  simp only [bootPages, pageSize] at *
  omega

include h

theorem Filled.tableOf {v : Nat} (hv : v < e / pageSize) :
    s.tableOf .kernel v = p + tableIdx v * tableStride := by
  have hmod := hL.end_mod
  rw [State.tableOf, h.tables, if_pos]
  simp only [tableIdx, tableSize, pageSize] at *
  omega

theorem Filled.pageCount_placement : pageCount s.placementAddress = bootPages e p := by
  have hplace := h.placement
  have hp := hL.free_mod
  simp only [pageUp, pageCount, bootPages, pageSize, tableStride] at *
  omega

theorem Filled.placement_lt : s.placementAddress ≤ e := by
  have hplace := h.placement
  obtain ⟨hle, -⟩ := hL.bootPages_le
  have hp := hL.free_mod
  simp only [pageUp, bootPages, pageSize, tableStride] at *
  omega

/-- **The loop that maps the memory in use.** There has to be a frame for each page. -/
theorem initFrames_ok (hmax : bootPages e p ≤ 65536) :
    ∃ s', forAddr initFrame s.placementAddress addrFuel 0 s = .ok s' ∧
      Framed s (e / pageSize) (bootPages e p) s' := by
  obtain ⟨hpages, -⟩ := hL.bootPages_le
  have hcount := h.pageCount_placement hL
  have hle := hL.end_le
  have hloop := @forAddr_eq_foldlM State initFrame 0 s.placementAddress
    (by rw [hcount]; simp only [pageSize, wordSize]; omega) addrFuel
    (by rw [hcount]; simp only [addrFuel]; omega) s
  rw [Nat.zero_add] at hloop
  rw [hloop, hcount]
  apply foldlM_map_range_ok (fun k => 0 + k * pageSize) (Framed s (e / pageSize))
  · intro k hk s' hs'
    rw [Nat.zero_add]
    have hpos := hL.pos
    have hge := hL.free_ge
    apply hs'.next (by omega) (by omega)
    · intro v hv
      rw [h.tableOf hL hv]
      omega
    · intro v hv w hw heq
      rw [h.tableOf hL hv, h.tableOf hL hw] at heq
      simp only [tableStride] at heq
      omega
  · exact h.framed

end Filled

theorem Layout.bootPages_le {b : Boot} (hL : Layout b e p) :
    bootPages e p + 0x360 ≤ e / pageSize ∧ bootPages e p ≤ 36864 ∧ 0 < bootPages e p := by
  have hmod := hL.end_mod
  have hle := hL.end_le
  have hge := hL.free_ge
  have hbge := b.modsEnd_ge
  have hroom := hL.room
  have hp := hL.free_mod
  simp only [bootPages, pageSize] at *
  omega

/-! ## The bitmaps -/

theorem markPages_ok {m : Memmap} {start a : Nat} (halign : start % pageSize = 0) (hle : start ≤ a)
    (ha : a < 0x20000000) :
    ∃ m', forAddr memmapSetPage a addrFuel start m = .ok m' ∧ m'.length = m.length ∧
      ∀ q, m'.used q = (inRange (start / pageSize) (pageCount (a - start)) q || m.used q) := by
  have hpages : pageCount (a - start) ≤ 131072 := by
    simp only [pageCount]
    omega
  have hloop := @forAddr_eq_foldlM Memmap memmapSetPage start (a - start)
    (by simp only [pageSize, wordSize]; omega) addrFuel (by simp only [addrFuel]; omega) m
  rw [Nat.add_sub_cancel' hle] at hloop
  obtain ⟨m', hm'⟩ := @foldlM_memmapSetPage_ok m start (pageCount (a - start)) halign
  obtain ⟨hlen, hused⟩ := foldlM_memmapSetPage halign hm'
  exact ⟨m', hloop.trans hm', hlen, hused⟩

/-- The rest of the state: there is one task, `task`, and nothing was allocated for it. -/
structure Pristine (b : Boot) (task : Task) (s : State) : Prop where
  current : s.currentTask = 0
  task_eq : s.tasks 0 = task
  live : s.live = [0]
  nextTid : s.nextTid = 1
  buffers : s.kernelBuffers = []
  kmmaps : s.kmmaps = []
  vfsRead : s.vfsRead = b.vfsRead
  mallocOk : s.mallocOk = b.mallocOk

theorem Pristine.kernelStep {b : Boot} {task : Task} {s' : State} (h : Pristine b task s)
    (hstep : KernelStep s s') (hbuffers : s'.kernelBuffers = []) : Pristine b task s' := by
  obtain ⟨_, _, _, _, _, _, _, rfl⟩ := hstep
  exact ⟨h.current, h.task_eq, h.live, h.nextTid, hbuffers, h.kmmaps, h.vfsRead, h.mallocOk⟩

theorem Pristine.setTask {b : Boot} {task : Task} (h : Pristine b task s)
    (task' : Task) : Pristine b task' (s.setTask task') := by
  refine ⟨h.current, ?_, h.live, h.nextTid, h.buffers, h.kmmaps, h.vfsRead, h.mallocOk⟩
  show update s.tasks s.currentTask task' 0 = task'
  rw [h.current, update_self]

/-- The kernel's own address space is ready: `mmu_init` is about to clone it. -/
structure KernelReady (b : Boot) (e p : Nat) (s : State) : Prop where
  inv : Inv s []
  pages : s.kernelMemmap.length = e / pageSize
  used : ∀ q, s.kernelMemmap.used q = decide (q < bootPages e p)
  frames : ∀ f, s.physicalMemmap.used f = decide (f < bootPages e p)
  frame : ∀ v < e / pageSize, (s.entry .kernel v).frame = if v < bootPages e p then v else 0
  absent : ∀ v < e / pageSize, bootPages e p ≤ v → (s.entry .kernel v).present = false
  physical : ∀ i < kernelTables s.kernelMemmap,
    (s.dirs .kernel).tablesPhysical i = (s.dirs .kernel).tables i ||| 7
  noHeap : s.kheapLen = 0
  out : s.outOfFrames = false
  task : ∃ m, (∀ q, m.used q = decide (q < e / pageSize)) ∧ m.length = 1024 * 1024 ∧
    Pristine b { memmap := m } s

/-- With no buffers and no other directories, these three are all there is to the shape of kernel
space. -/
theorem kernelHeap_nil (hmod : m.length % tableSize = 0) (hpos : 0 < m.length)
    (hle : m.length ≤ 1023 * tableSize) (hzero : m.used 0 = true) : KernelHeap m [] where
  length_mod := hmod
  length_pos := hpos
  length_le := hle
  zero_used := hzero
  zero_kept := by simp
  aligned := by simp
  pages_pos := by simp
  covered := by simp
  disjoint := .nil

theorem shape_nil {dirs : DirRef → PageDirectory}
    (hkernel : ∀ i < tableSize, (dirs .kernel).tables i ≠ 0 ↔ i < n)
    (hinj : ∀ i j, i < n → j < n → (dirs .kernel).tables i = (dirs .kernel).tables j → i = j) :
    Shape n dirs [] where
  nodup := .nil
  kernel := hkernel
  kernel_inj := hinj
  shared := by simp
  apart := by simp
  own := by simp

theorem Framed.inv {b : Boot} (hL : Layout b e p)
    (h₁ : Filled (b.start e p) p (e / 0x400000) s₁) (h : Framed s₁ (e / pageSize) (bootPages e p) s)
    (hlen : m.length = e / pageSize)
    (hused : ∀ q, m.used q = decide (q < bootPages e p)) (tasks : Nat → Task) (live : List Nat) :
    Inv { s with kernelMemmap := m, tasks := tasks, live := live } [] := by
  have hmod := hL.end_mod
  have hle := hL.end_le
  have hge := hL.free_ge
  have hbge := b.modsEnd_ge
  have hp := hL.free_mod
  obtain ⟨hroom, hmax, hpos⟩ := hL.bootPages_le
  have hdirs : s.dirs = s₁.dirs := h.step.dirs
  have hbuffers : s.kernelBuffers = [] := by
    obtain ⟨_, _, _, _, rfl⟩ := h.step
    obtain ⟨_, _, _, rfl⟩ := h₁.step
    rfl
  have hn : kernelTables m = e / 0x400000 := by
    simp only [kernelTables, hlen, pageSize, tableSize]
    omega
  have htables := h₁.tables
  rw [← hdirs] at htables
  refine ⟨?_, ?_, ?_, by simp, by simp, by simp, ?_, h.length, ?_, h.balanced⟩
  · show KernelHeap m s.kernelBuffers
    rw [hbuffers]
    apply kernelHeap_nil
    · simp only [hlen, pageSize, tableSize]
      omega
    · show 0 < m.length
      omega
    · simp only [hlen, pageSize, tableSize]
      omega
    · show m.used 0 = true
      rw [hused]
      simpa using hpos
  · show Shape (kernelTables m) s.dirs []
    rw [hn]
    apply shape_nil
    · intro i _
      rw [htables]
      split_ifs with hi
      · simp only [hi, iff_true]
        omega
      · simp [hi]
    · intro i j hi hj heq
      rw [htables, htables, if_pos hi, if_pos hj] at heq
      simp only [tableStride] at heq
      omega
  · intro t ht
    -- the tables lie below the end of the memory in use
    obtain ⟨h0, d, hd, i, -, rfl⟩ := mem_liveTables.mp ht
    obtain rfl : d = .kernel := by simpa [spaces] using hd
    dsimp only at h0 ⊢
    rw [htables] at h0 ⊢
    have hi : i < e / 0x400000 := by
      by_contra hi
      rw [if_neg hi] at h0
      exact h0 rfl
    rw [if_pos hi]
    have hpage : (p + i * tableStride) / pageSize < bootPages e p := by
      simp only [bootPages, pageSize, tableStride] at *
      omega
    refine ⟨?_, ?_, ?_, by rw [hbuffers]; simp⟩
    · simp only [pageSize, tableStride] at *
      omega
    · rw [hlen]
      omega
    · rw [hused]
      simpa using hpage
  · intro t
    show (s.tables t).refs < wordSize
    rw [h.refs]
    decide
  · show s.physicalMemmap.used 0 = true
    rw [h.used]
    simpa using hpos

theorem Spread.kernelMemmap {b : BootImage} {s₂ : State}
    (h₁ : Filled (b.start e p) p n s₁) (h₂ : Framed s₁ (e / pageSize) k s₂) :
    s₂.kernelMemmap = memmapInit (e / pageSize) := by
  obtain ⟨_, _, _, _, rfl⟩ := h₂.step
  obtain ⟨_, _, _, rfl⟩ := h₁.step
  rfl

/-- **The three loops together.** The last one marks the pages in use in the kernel's bitmap, and
those and the rest of the kernel in the bitmap of the boot task. -/
theorem mmuInitKernel_run {b : BootImage} (hL : Spread b e p)
    (hmaps : mmuInitMaps b = .ok (e, b.start e p))
    (hpages : forAddr (initPage b) e addrFuel 0 (b.start e p) = .ok s₁)
    (h₁ : Filled (b.start e p) p (e / 0x400000) s₁) (hmax : bootPages e p ≤ 65536) :
    ∃ s₂ m d, Framed s₁ (e / pageSize) (bootPages e p) s₂ ∧
      mmuInitKernel b = .ok { s₂ with
        kernelMemmap := m, tasks := update s₂.tasks 0 { memmap := d }, live := [0] } ∧
      m.length = e / pageSize ∧ (∀ q, m.used q = decide (q < bootPages e p)) ∧
      d.length = 1024 * 1024 ∧ ∀ q, d.used q = decide (q < e / pageSize) := by
  obtain ⟨s₂, hframes, h₂⟩ := initFrames_ok hL h₁ hmax
  have hcount := h₁.pageCount_placement hL
  have hplace := h₁.placement_lt hL
  have hle := hL.end_le
  have hmemory := hL.memory
  have hmod := hL.end_mod
  obtain ⟨hroom, -⟩ := hL.bootPages_le
  have hup : (s₁.placementAddress + 0xFFF) / 0x1000 * 0x1000 = bootPages e p * pageSize := by
    rw [← hcount]
    rfl
  obtain ⟨m, hm, hmlen, hmused⟩ := @markPages_ok s₂.kernelMemmap 0 s₁.placementAddress rfl
    (Nat.zero_le _) (by omega)
  obtain ⟨d, hd, hdlen, hdused⟩ := @markPages_ok (memmapInit (1024 * 1024)) 0 s₁.placementAddress rfl
    (Nat.zero_le _) (by omega)
  obtain ⟨d', hd', hdlen', hdused'⟩ := @markPages_ok d (bootPages e p * pageSize) e
    (Nat.mul_mod_left _ _) (by simp only [pageSize] at *; omega) (by omega)
  have hkernel := Spread.kernelMemmap h₁ h₂
  rw [Nat.sub_zero, hcount] at hmused hdused
  refine ⟨s₂, m, d', h₂, ?_, ?_, ?_, ?_, ?_⟩
  · rw [mmuInitKernel, hmaps, ok_bind]
    dsimp only
    rw [hpages, ok_bind, hframes, ok_bind, hm, ok_bind, hd, ok_bind, hup, hd',
      ok_bind]
    rfl
  · rw [hmlen, hkernel]
    rfl
  · intro q
    rw [hmused, hkernel, memmapInit_used]
    simp [inRange]
  · rw [hdlen', hdlen]
    rfl
  · intro q
    have hrest : pageCount (e - bootPages e p * pageSize) = e / pageSize - bootPages e p := by
      simp only [pageCount, pageSize] at *
      omega
    rw [hdused', hdused, memmapInit_used, mul_pageSize_div, hrest, Bool.or_false, Nat.zero_div,
      Bool.eq_iff_iff, Bool.or_eq_true, inRange_eq_true, inRange_eq_true, decide_eq_true_eq]
    omega

theorem mmuInitKernel_ok (b : Boot) :
    ∃ e p s, Layout b e p ∧ mmuInitKernel b.toBootImage = .ok s ∧ KernelReady b e p s := by
  have hge := b.modsEnd_ge
  have hle := b.modsEnd_le
  obtain ⟨e, p, hS, hmaps⟩ := mmuInitMaps_ok b.toBootImage (by omega) (by omega)
  have hL : Layout b e p := hS.layout
  obtain ⟨-, hmax, -⟩ := hL.bootPages_le
  have hmod := hL.end_mod
  obtain ⟨s₁, hpages, h₁⟩ := initPages_ok hS
  obtain ⟨s₂, m, d, h₂, hrun, hmlen, hmused, hdlen, hdused⟩ :=
    mmuInitKernel_run hS hmaps hpages h₁ (by omega)
  refine ⟨e, p, _, hL, hrun, ?_⟩
  have hI := h₂.inv hL h₁ hmlen hmused (update s₂.tasks 0 { memmap := d }) [0]
  have hdirs : s₂.dirs = s₁.dirs := h₂.step.dirs
  refine ⟨hI, hmlen, hmused, h₂.used, h₂.frame, ?_, ?_, ?_, h₂.out, d, hdused, hdlen, ?_⟩
  · intro v hv hle
    exact (h₂.present v hv).trans (decide_eq_false (not_lt.mpr hle))
  · intro i hi
    have hn : kernelTables m = e / 0x400000 := by
      simp only [kernelTables, hmlen, pageSize, tableSize]
      omega
    show (s₂.dirs .kernel).tablesPhysical i = (s₂.dirs .kernel).tables i ||| 7
    have hi : i < e / 0x400000 := hn ▸ hi
    rw [hdirs, h₁.physical i hi, h₁.tables, if_pos hi]
  · obtain ⟨_, _, _, _, rfl⟩ := h₂.step
    obtain ⟨_, _, _, rfl⟩ := h₁.step
    rfl
  · have htask : update s₂.tasks 0 ({ memmap := d } : Task) 0 = { memmap := d } :=
      update_self _ _ _
    obtain ⟨_, _, _, _, rfl⟩ := h₂.step
    obtain ⟨_, _, _, rfl⟩ := h₁.step
    exact ⟨rfl, htask, rfl, rfl, rfl, rfl, rfl, rfl⟩

/-! ## The boot task -/

/-- What the boot task finds: its directory at `a` has the kernel's tables and nothing else, all of
user space is free, and there is room for the heap and more. -/
structure Booted (b : Boot) (a : Nat) (s : State) : Prop where
  inv : Inv s [a]
  complete : Complete s (.heap a)
  kernelOnly : KernelOnly s (.heap a)
  clean : FreeClean s
  /-- Page `0` has frame `0`, which counts as none. -/
  zeroPage : (s.entry .kernel 0).frame = 0
  /-- The frames in use are the lowest ones. -/
  frames : ∃ k, ∀ f, s.physicalMemmap.used f = decide (f < k)
  right : TablesRight s (.heap a)
  pages : s.kernelMemmap.length ≤ 36864
  above : b.modsEnd ≤ a
  room : ∃ N M, Room s N M ∧ N + 0x350 ≤ s.kernelMemmap.length ∧ M ≤ 36866
  /-- The directory lies in kernel memory, in a page of its own. -/
  directory : ∃ f, s.entry .kernel (a / pageSize) =
    { present := true, rw := true, user := true, frame := f }
  noHeap : s.kheapLen = 0
  task : ∃ m phys, (∀ v, m.used v = decide (v < s.kernelMemmap.length)) ∧ m.length = 1024 * 1024 ∧
    Pristine b { memmap := m, directory := .heap a, directoryPhysical := phys } s

/-- The kernel's first pages have the frames of the same numbers, so its tables lie at their
physical addresses. -/
theorem KernelReady.tablesRight {b : Boot} (h : KernelReady b e p s) : TablesRight s .kernel := by
  intro i hi h0
  obtain ⟨halign, hlt, hused, -⟩ :=
    h.inv.tables_owned _ (mem_liveTables.mpr ⟨h0, .kernel, kernel_mem_spaces [], i, hi, rfl⟩)
  rw [h.used, decide_eq_true_eq] at hused
  rw [h.pages] at hlt
  rw [h.physical i ((h.inv.shape.kernel i hi).mp h0), State.physicalOf, h.frame _ hlt,
    if_pos hused, halign, Nat.add_zero]
  conv_lhs => rw [← Nat.div_mul_cancel (Nat.dvd_of_mod_eq_zero halign)]
  exact or_flags_div _

theorem KernelReady.room {b : Boot} (h : KernelReady b e p s) :
    Room s (bootPages e p) (bootPages e p) where
  pages v hv := by
    rw [h.used]
    simpa using hv
  frames f hf := by
    rw [h.frames]
    simpa using hf
  malloc hheap := absurd h.noHeap hheap
  out := h.out

theorem KernelReady.freeClean {b : Boot} (h : KernelReady b e p s) : FreeClean s := by
  intro v hv hfree
  rw [h.pages] at hv
  rw [h.used, decide_eq_false_iff_not] at hfree
  exact ⟨by rw [h.frame v hv, if_neg hfree], h.absent v hv (not_lt.mp hfree)⟩

theorem mmuInit_ok (b : Boot) : ∃ a s, mmuInit b = .ok s ∧ Booted b a s := by
  obtain ⟨e, p, s₀, hL, hinit, hR⟩ := mmuInitKernel_ok b
  obtain ⟨hroom, hmax, hpos⟩ := hL.bootPages_le
  obtain ⟨m, hmused, hmlen, hP⟩ := hR.task
  have hown : ownTables s₀ .kernel (List.range tableSize) = 0 := by
    rw [ownTables, List.countP_eq_zero]
    intro i _
    simp [ownsTable]
  obtain ⟨a, phys, s₁, hclone, ha, hroom₁⟩ := @mmuCloneDirectory_ok cloneCopy _ _ _ _ _ _ hR.inv
    (kernel_mem_spaces []) rfl hR.room (le_of_eq hown) (by rw [hR.pages]; omega) (by omega)
  have hmmu : mmuInit b = .ok (s₁.setTask { s₁.tasks s₁.currentTask with
      directory := .heap a, directoryPhysical := phys }) := by
    rw [mmuInit, hinit, ok_bind, hclone, ok_bind]
    dsimp only
    rw [if_neg ha]
    rfl
  refine ⟨a, _, hmmu, ?_⟩
  cases mmuCloneDirectory_cases hR.inv (kernel_mem_spaces []) rfl hclone with
  | full => exact absurd rfl ha
  | failed => exact absurd rfl ha
  | @made _ physmem s₂ _ _ alloc inv tables cloned inv' =>
    have hlink := tables.onlyLinked inv (kernel_mem_spaces [a]) (by simp) inv.kernelOnly
      List.nodup_range (fun i hi => List.mem_range.mp hi) rfl
    have hlen : s₁.kernelMemmap.length = e / pageSize := by
      rw [cloned.length]
      exact alloc.alloc.length.trans hR.pages
    have hkernel : s₁.dirs .kernel = s₀.dirs .kernel := by
      rw [cloned.dirs .kernel (by simp)]
      show addDir s₂.dirs a .kernel = _
      rw [addDir_of_ne (by simp), alloc.alloc.step.dirs]
    have hpage : ∀ v, s₁.entry .kernel v = s₂.entry .kernel v := by
      intro v
      refine (@entry_congr s₂ s₁ .kernel .kernel v ?_
        (fun _ => ⟨hlink.page _ _, hlink.info _ _⟩)).1
      rw [State.tableOf, State.tableOf, hkernel, alloc.alloc.step.dirs]
    have hclean := hR.freeClean
    have hright := tables.directory hR.inv (kernel_mem_spaces []) hclean hR.tablesRight alloc inv
    have hframes := (alloc.lowest hclean rfl hR.inv hR.frames (by omega)).2
    refine ⟨inv'.setTasks _, ?_, ?_, hright.clean, ?_, ⟨bootPages e p + 2, ?_⟩, hright.clone,
      ?_, ?_, ?_, ?_, ?_, ?_⟩
    · intro i hi
      have hi' : i < kernelTables (s₂.newDir a).kernelMemmap := by
        rw [kernelTables, ← cloned.length]
        exact hi
      have hlt := lt_of_lt_of_le hi' inv.kernelTables_le
      exact (cloned.linked i (List.mem_range.mpr hlt) hi').trans
        (by rw [← cloned.dirs .kernel (by simp)]; rfl)
    · intro i hi hle
      apply (cloned.created i (List.mem_range.mpr hi)).mpr
      apply inv.kernelOnly i hi
      rw [kernelTables, ← cloned.length]
      exact hle
    · show (s₁.entry .kernel 0).frame = 0
      rw [hpage, (alloc.alloc.entry_eq hR.inv (kernel_mem_spaces []) (by decide)
        (Or.inr hR.inv.heap.zero_used)).1, hR.frame 0 (by omega), if_pos hpos]
    · obtain ⟨_, _, rfl⟩ := hlink.step
      exact hframes
    · show s₁.kernelMemmap.length ≤ 36864
      rw [hlen]
      have := hL.end_le
      simp only [pageSize]
      omega
    · have hfree := alloc.start_free
      rw [hR.used, decide_eq_false_iff_not] at hfree
      have := hL.free_ge
      have := hL.free_mod
      simp only [bootPages, pageSize] at *
      omega
    · refine ⟨_, _, ⟨hroom₁.pages, hroom₁.frames, hroom₁.malloc, hroom₁.out⟩, ?_, ?_⟩
      · show _ ≤ s₁.kernelMemmap.length
        rw [hlen]
        omega
      · omega
    · obtain ⟨f, hentry, -, -⟩ := alloc.entry (a / pageSize) (inRange_start (by decide))
      have hfits := alloc.fits
      have hfree := alloc.start_free
      rw [hR.used, decide_eq_false_iff_not] at hfree
      have h0 := hR.frame (a / pageSize) (by rw [← hR.pages]; omega)
      rw [if_neg hfree] at h0
      refine ⟨f, ?_⟩
      show s₁.entry .kernel (a / pageSize) = _
      rw [hpage, hentry, allocatedPage, takesFrame, h0]
      rfl
    · obtain ⟨_, _, rfl⟩ := hlink.step
      obtain ⟨_, _, _, _, _, _, _, rfl⟩ := alloc.alloc.step
      exact hR.noHeap
    · refine ⟨m, (physmem.getD 0 + offsetofTablesPhysical) % wordSize, ?_, hmlen, ?_⟩
      · show ∀ v, m.used v = decide (v < s₁.kernelMemmap.length)
        rw [hlen]
        exact hmused
      · have hbuffers : s₂.kernelBuffers = [] := by
          rw [alloc.buffers, State.newBuffers, State.tracks, hR.noHeap, hP.buffers]
          rfl
        have hP₂ := hP.kernelStep alloc.alloc.step hbuffers
        have hP₁ : Pristine b { memmap := m } s₁ := by
          obtain ⟨_, _, rfl⟩ := hlink.step
          exact ⟨hP₂.current, hP₂.task_eq, hP₂.live, hP₂.nextTid, hbuffers, hP₂.kmmaps,
            hP₂.vfsRead, hP₂.mallocOk⟩
        rw [hP₁.current, hP₁.task_eq]
        exact hP₁.setTask _

structure Started (b : Boot) (a : Nat) (s : State) : Prop where
  inv : Inv s [a]
  complete : Complete s (.heap a)
  kernelOnly : KernelOnly s (.heap a)
  clean : FreeClean s
  /-- Page `0` has frame `0`, which counts as none. -/
  zeroPage : (s.entry .kernel 0).frame = 0
  /-- The frames in use are the lowest ones. -/
  frames : ∃ k, ∀ f, s.physicalMemmap.used f = decide (f < k)
  right : TablesRight s (.heap a)
  pages : s.kernelMemmap.length ≤ 36864
  room : (∀ k, b.mallocOk k = true) →
    ∃ N M, Room s N M ∧ N + 0x150 ≤ s.kernelMemmap.length ∧ M ≤ 37378
  heap : s.kheapLen = kheapInitialSize
  task : ∃ m phys, (∀ v, m.used v = decide (v < s.kernelMemmap.length)) ∧ m.length = 1024 * 1024 ∧
    Pristine b { memmap := m, directory := .heap a, directoryPhysical := phys } s

theorem Booted.kheapInit {b : Boot} (h : Booted b a s) :
    ∃ s', kheapInit s = .ok s' ∧ Started b a s' := by
  obtain ⟨N, M, hroom, hN, hM⟩ := h.room
  obtain ⟨k, hk⟩ := h.frames
  have hkM : k ≤ M := hroom.frames_le hk
  have hflag : hasFlag (kallocOptnAlign ||| kallocOptnKernel) kallocOptnKernel = true := rfl
  obtain ⟨r, phys, s₁, halloc, hr, hK, hroom₁⟩ := kalloc_kernel_ok (allocTableWith noTable)
    kheapInitialSize none h.inv hflag hroom (show pageCount kheapInitialSize = 512 from rfl)
    (by decide) (by omega) (by omega)
  have hkalloc : kalloc s kheapInitialSize 0 (kallocOptnAlign ||| kallocOptnKernel) =
    .ok (r, phys, s₁) := halloc
  refine ⟨{ s₁ with kheapLen := kheapInitialSize }, ?_, ?_⟩
  · rw [Hydrax.kheapInit, hkalloc, ok_bind]
    dsimp only
    rw [show assert (r != 0) = .ok () by simp [hr], ok_bind]
    rfl
  obtain ⟨m, phys₀, hmused, hmlen, hP⟩ := h.task
  have hbuffers : s₁.kernelBuffers = [] := by
    rw [hK.buffers, State.newBuffers, State.tracks, h.noHeap, hP.buffers]
    rfl
  have hP₁ := hP.kernelStep hK.alloc.step hbuffers
  have hlen : s₁.kernelMemmap.length = s.kernelMemmap.length := hK.alloc.length
  have hdirs : s₁.dirs = s.dirs := hK.alloc.step.dirs
  refine ⟨hK.inv.congr rfl, h.complete.congr hlen (by rw [← hdirs]) (by rw [← hdirs]),
    h.kernelOnly.congr hlen (by rw [← hdirs]), hK.alloc.freeClean h.inv h.clean, ?_, ⟨k + 512, ?_⟩,
    ?_, ?_, ?_, rfl, m, phys₀, ?_, hmlen, hP₁.current, hP₁.task_eq, hP₁.live, hP₁.nextTid,
    hbuffers, hP₁.kmmaps, hP₁.vfsRead, hP₁.mallocOk⟩
  · show (s₁.entry .kernel 0).frame = 0
    rw [(hK.alloc.entry_eq h.inv (kernel_mem_spaces [a]) (by decide)
      (Or.inr h.inv.heap.zero_used)).1]
    exact h.zeroPage
  · exact (hK.lowest h.clean rfl h.inv hk (by omega)).2
  · refine h.right.congr h.inv (by simp [mem_spaces]) (by rw [hdirs]) (fun v hv hu => ?_)
    exact (hK.alloc.entry_eq h.inv (kernel_mem_spaces [a]) (h.inv.kernel_lt hv) (Or.inr hu)).1
  · show s₁.kernelMemmap.length ≤ 36864
    rw [hlen]
    exact h.pages
  · intro hmalloc
    refine ⟨N + 512, M + 512, ⟨hroom₁.pages, hroom₁.frames, fun _ => ?_, hroom₁.out⟩, ?_, ?_⟩
    · show ∀ k, s₁.mallocOk k = true
      rw [hP₁.mallocOk]
      exact hmalloc
    · show N + 512 + 0x150 ≤ s₁.kernelMemmap.length
      omega
    · omega
  · show ∀ v, m.used v = decide (v < s₁.kernelMemmap.length)
    rw [hlen]
    exact hmused

/-- **The kernel starts**, for every memory layout. -/
theorem start_ok (b : Boot) :
    ∃ a s₀ s, mmuInit b = .ok s₀ ∧ kheapInit s₀ = .ok s ∧ Booted b a s₀ ∧ Started b a s := by
  obtain ⟨a, s₀, hinit, hB⟩ := mmuInit_ok b
  obtain ⟨s, hheap, hS⟩ := hB.kheapInit
  exact ⟨a, s₀, s, hinit, hheap, hB, hS⟩

/-- A kernel with one page of user code and a ramdisk that ends at 2 MB. -/
def Boot.small : Boot where
  modsEnd := 0x200000
  ucode := 0x101000
  ucodeEnd := 0x102000
  modsEnd_ge := by decide
  modsEnd_le := by decide
  ucodeEnd_le := by decide

end Hydrax
