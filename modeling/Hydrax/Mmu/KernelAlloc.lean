import Hydrax.Mmu.Range

/-!
# Allocating kernel memory

`kalloc` with `KALLOC_OPTN_KERNEL` and no address. The kernel has a page table for each of its
pages, so no table is made on the way, and the range is the first free one of `kernel_memmap`.

`KernelAlloc` is the relation between the states before and after any number of such allocations:
the entries of kernel pages that were free, and nothing else of an address space, can change.
`KernelAllocated` says what one of them returns.
-/

namespace Hydrax

open Loop

variable {L : List Nat} {m m' : Memmap} {flags r sz v : Nat}

/-! ## What an allocation leaves alone -/

/-- The fields that `kalloc` of kernel memory writes. -/
def KernelStep (s s' : State) : Prop :=
  ∃ T P R o m b k, s' = { s with
    tables := T, physicalMemmap := P, frameRefs := R, outOfFrames := o, kernelMemmap := m
    kernelBuffers := b, mallocs := k }

theorem KernelStep.trans {s₁ s₂ s₃ : State} (h : KernelStep s₁ s₂) (h' : KernelStep s₂ s₃) :
    KernelStep s₁ s₃ := by
  obtain ⟨_, _, _, _, _, _, _, rfl⟩ := h
  obtain ⟨_, _, _, _, _, _, _, rfl⟩ := h'
  exact ⟨_, _, _, _, _, _, _, rfl⟩

/-- The entries of the kernel pages that are free in `s` and in use in `s'`. -/
def NewSlots (s s' : State) (t j : Nat) : Prop :=
  ∃ v < s.kernelMemmap.length, s.kernelMemmap.used v = false ∧ s'.kernelMemmap.used v = true ∧
    Slot (s.tableOf .kernel v) (pageIdx v) t j

structure KernelAlloc (s s' : State) : Prop where
  step : KernelStep s s'
  length : s'.kernelMemmap.length = s.kernelMemmap.length
  used : ∀ v, s.kernelMemmap.used v = true → s'.kernelMemmap.used v = true
  page : ∀ t j, ¬ NewSlots s s' t j → s'.page t j = s.page t j
  info : ∀ t j, ¬ NewSlots s s' t j → s'.info t j = s.info t j
  refs : ∀ t, (s'.tables t).refs = (s.tables t).refs
  grow : FramesGrow s s'
  buffers : ∃ l, s'.kernelBuffers = s.kernelBuffers ++ l

theorem KernelStep.dirs {s s' : State} (h : KernelStep s s') : s'.dirs = s.dirs := by
  obtain ⟨_, _, _, _, _, _, _, rfl⟩ := h
  rfl

theorem KernelStep.mallocOk {s s' : State} (h : KernelStep s s') : s'.mallocOk = s.mallocOk := by
  obtain ⟨_, _, _, _, _, _, _, rfl⟩ := h
  rfl

theorem KernelStep.tableOf {s s' : State} (h : KernelStep s s') (d : DirRef) (v : Nat) :
    s'.tableOf d v = s.tableOf d v := by
  rw [State.tableOf, h.dirs, State.tableOf]

theorem KernelAlloc.used_false {s s' : State} (h : KernelAlloc s s')
    (hv : s'.kernelMemmap.used v = false) : s.kernelMemmap.used v = false :=
  false_of_imp (h.used v) hv

theorem KernelAlloc.trans {s₁ s₂ s₃ : State} (h : KernelAlloc s₁ s₂) (h' : KernelAlloc s₂ s₃) :
    KernelAlloc s₁ s₃ := by
  -- a slot that is new in one of the two steps is new in both together
  have hnew : ∀ {t j}, NewSlots s₁ s₂ t j → NewSlots s₁ s₃ t j := by
    rintro t j ⟨v, hv, hfree, hused, hslot⟩
    exact ⟨v, hv, hfree, h'.used v hused, hslot⟩
  have hnew' : ∀ {t j}, NewSlots s₂ s₃ t j → NewSlots s₁ s₃ t j := by
    rintro t j ⟨v, hv, hfree, hused, hslot⟩
    rw [h.step.tableOf] at hslot
    exact ⟨v, h.length ▸ hv, h.used_false hfree, hused, hslot⟩
  obtain ⟨l, hl⟩ := h.buffers
  obtain ⟨l', hl'⟩ := h'.buffers
  exact {
    step := h.step.trans h'.step
    length := h'.length.trans h.length
    used := fun v hv => h'.used v (h.used v hv)
    page := fun t j hP =>
      (h'.page t j (fun hn => hP (hnew' hn))).trans (h.page t j (fun hn => hP (hnew hn)))
    info := fun t j hP =>
      (h'.info t j (fun hn => hP (hnew' hn))).trans (h.info t j (fun hn => hP (hnew hn)))
    refs := fun t => (h'.refs t).trans (h.refs t)
    grow := h.grow.trans h'.grow
    buffers := ⟨l ++ l', by rw [hl', hl, List.append_assoc]⟩ }

theorem KernelAlloc.entry_eq_of_old {s s' : State} (h : KernelAlloc s s')
    (hI : Inv s L) {d : DirRef} (hd : d ∈ spaces L) (hv : v < 1048576)
    (hold : ¬ (v < s.kernelMemmap.length ∧ s.kernelMemmap.used v = false ∧
      s'.kernelMemmap.used v = true)) :
    s'.entry d v = s.entry d v ∧ s'.record d v = s.record d v := by
  refine entry_congr (h.step.tableOf d v) (fun h0 => ?_)
  have hnot : ¬ NewSlots s s' (s.tableOf d v) (pageIdx v) := by
    rintro ⟨w, hw, hfree, hused, ht, hj⟩
    obtain ⟨rfl, _⟩ := hI.slot_eq hd (kernel_mem_spaces L) hv (hI.kernel_lt hw) h0 ht hj
    exact hold ⟨hw, hfree, hused⟩
  exact ⟨h.page _ _ hnot, h.info _ _ hnot⟩

/-- **User space is left alone**, and so are the kernel pages that were in use. -/
theorem KernelAlloc.entry_eq {s s' : State} (h : KernelAlloc s s') (hI : Inv s L)
    {d : DirRef} (hd : d ∈ spaces L) (hv : v < 1048576)
    (hold : s.kernelMemmap.length ≤ v ∨ s.kernelMemmap.used v = true) :
    s'.entry d v = s.entry d v ∧ s'.record d v = s.record d v := by
  refine h.entry_eq_of_old hI hd hv (fun hnew => ?_)
  rcases hold with hold | hold
  · omega
  · rw [hnew.2.1] at hold
    cases hold

/-! ## The invariant along the way -/

theorem KernelHeap.mono {buffers : List Buffer} (h : KernelHeap m buffers)
    (hlen : m'.length = m.length) (hused : ∀ p, m.used p = true → m'.used p = true) :
    KernelHeap m' buffers where
  length_mod := by rw [hlen]; exact h.length_mod
  length_pos := by rw [hlen]; exact h.length_pos
  length_le := by rw [hlen]; exact h.length_le
  zero_used := hused 0 h.zero_used
  zero_kept := h.zero_kept
  aligned := h.aligned
  pages_pos := h.pages_pos
  covered b hb p hp := by
    rw [hlen]
    exact ⟨(h.covered b hb p hp).1, hused p (h.covered b hb p hp).2⟩
  disjoint := h.disjoint

theorem Owned.mono {buffers : List Buffer} {a : Nat} (h : Owned m buffers a)
    (hlen : m'.length = m.length) (hused : ∀ p, m.used p = true → m'.used p = true) :
    Owned m' buffers a where
  aligned := h.aligned
  lt := by rw [hlen]; exact h.lt
  used := hused _ h.used
  buffer := h.buffer

theorem Inv.mark {s : State} (hI : Inv s L) (hlen : m.length = s.kernelMemmap.length)
    (hused : ∀ p, s.kernelMemmap.used p = true → m.used p = true) :
    Inv { s with kernelMemmap := m } L where
  heap := hI.heap.mono hlen hused
  shape := by
    show Shape (kernelTables m) s.dirs L
    rw [kernelTables, hlen]
    exact hI.shape
  tables_owned t ht := (hI.tables_owned t ht).mono hlen hused
  dirs_owned a ha := (hI.dirs_owned a ha).mono hlen hused
  dirs_apart := hI.dirs_apart
  refs_own := by
    show ∀ a ∈ L, ∀ i, kernelTables m ≤ i → _
    rw [kernelTables, hlen]
    exact hI.refs_own
  refs_lt := hI.refs_lt
  frames := hI.frames
  zero_frame := hI.zero_frame
  balanced := hI.balanced

theorem Inv.track {s : State} (hI : Inv s L) {b : Buffer}
    (halign : b.address % pageSize = 0) (hpages : 0 < b.pages) (hzero : ¬ b.Covers 0)
    (hcovered : ∀ p, b.Covers p → p < s.kernelMemmap.length ∧ s.kernelMemmap.used p = true)
    (hbuffers : ∀ c ∈ s.kernelBuffers, ∀ p, c.Covers p → ¬ b.Covers p)
    (htables : ∀ t ∈ liveTables s.dirs L, ¬ b.Covers (t / pageSize))
    (hdirs : ∀ a ∈ L, ¬ b.Covers (a / pageSize)) (k : Nat) :
    Inv { s with kernelBuffers := s.kernelBuffers ++ [b], mallocs := k } L := by
  have hmem : ∀ {c}, c ∈ s.kernelBuffers ++ [b] → c ∈ s.kernelBuffers ∨ c = b := by
    intro c hc
    simpa using hc
  have howned : ∀ {a}, Owned s.kernelMemmap s.kernelBuffers a → ¬ b.Covers (a / pageSize) →
      Owned s.kernelMemmap (s.kernelBuffers ++ [b]) a := by
    intro a ho hb
    refine ⟨ho.aligned, ho.lt, ho.used, ?_⟩
    intro c hc hcov
    rcases hmem hc with hc | rfl
    · exact ho.buffer c hc hcov
    · exact absurd hcov hb
  refine ⟨?_, hI.shape, fun t ht => howned (hI.tables_owned t ht) (htables t ht),
    fun a ha => howned (hI.dirs_owned a ha) (hdirs a ha), hI.dirs_apart, hI.refs_own,
    hI.refs_lt, hI.frames, hI.zero_frame, hI.balanced⟩
  refine ⟨hI.heap.length_mod, hI.heap.length_pos, hI.heap.length_le, hI.heap.zero_used,
    ?_, ?_, ?_, ?_, ?_⟩
  · intro c hc
    rcases hmem hc with hc | rfl
    · exact hI.heap.zero_kept c hc
    · exact hzero
  · intro c hc
    rcases hmem hc with hc | rfl
    · exact hI.heap.aligned c hc
    · exact halign
  · intro c hc
    rcases hmem hc with hc | rfl
    · exact hI.heap.pages_pos c hc
    · exact hpages
  · intro c hc
    rcases hmem hc with hc | rfl
    · exact hI.heap.covered c hc
    · exact hcovered
  · apply List.pairwise_append.mpr
    refine ⟨hI.heap.disjoint, by simp, ?_⟩
    intro c hc c' hc' p hp
    rw [List.mem_singleton.mp hc']
    exact hbuffers c hc p hp

/-! ## One allocation -/

/-- `kalloc` records the range in the list of buffers. -/
def State.tracks (s : State) (flags : Nat) : Bool :=
  !hasFlag flags kallocOptnNofree && s.kheapLen != 0

def kallocBuffer (r n flags : Nat) (mmap : Option Nat) : Buffer :=
  { address := r, pages := n, mmap := if hasFlag flags kallocOptnMmap then mmap else none }

/-- What `kalloc` adds to the list of buffers. -/
def State.newBuffers (s : State) (r n flags : Nat) (mmap : Option Nat) : List Buffer :=
  if s.tracks flags then [kallocBuffer r n flags mmap] else []

/-- The kernel got `n` pages from address `r` on. -/
structure KernelAllocated (s s' : State) (L : List Nat) (r n flags : Nat) (mmap phys : Option Nat) :
    Prop where
  aligned : r % pageSize = 0
  pages_pos : 0 < n
  fits : r / pageSize + n ≤ s.kernelMemmap.length
  first : FirstRun s.kernelMemmap n (r / pageSize)
  inv : Inv s' L
  alloc : KernelAlloc s s'
  used : ∀ p, s'.kernelMemmap.used p = (inRange (r / pageSize) n p || s.kernelMemmap.used p)
  entry : ∀ v, inRange (r / pageSize) n v = true → MappedEntry s s' .kernel (pageFlags flags) v
  frame : takesFrame (pageFlags flags) (s.entry .kernel (r / pageSize)) = true →
    (s'.entry .kernel (r / pageSize)).frame = s.nextFrame
  phys : takesFrame (pageFlags flags) (s.entry .kernel (r / pageSize)) = true →
    phys = some (s.nextFrame * pageSize)
  order : (∀ v ∈ pagesFrom (r / pageSize) n, takesFrame (pageFlags flags) (s.entry .kernel v) = true) →
    FramesTaken s.physicalMemmap
      ((pagesFrom (r / pageSize) n).map (fun v => (s'.entry .kernel v).frame)) s'.physicalMemmap
  buffers : s'.kernelBuffers = s.kernelBuffers ++ s.newBuffers r n flags mmap

/-- Pages of the kernel that are free are not mapped. -/
def FreeClean (s : State) : Prop :=
  ∀ v < s.kernelMemmap.length, s.kernelMemmap.used v = false →
    (s.entry .kernel v).frame = 0 ∧ (s.entry .kernel v).present = false

theorem KernelAlloc.freeClean {s s' : State} (h : KernelAlloc s s') (hI : Inv s L)
    (hclean : FreeClean s) : FreeClean s' := by
  intro v hv hfree
  rw [h.length] at hv
  have hlt := hI.kernel_lt hv
  rw [(h.entry_eq_of_old hI (kernel_mem_spaces L) hlt (fun hnew => by
    rw [hnew.2.2] at hfree
    cases hfree)).1]
  exact hclean v hv (h.used_false hfree)

theorem kallocPlace_zero (h : kallocPlace m sz 0 = .ok r) :
    ∃ start, memmapFindFreePages m (kallocPages sz) = .ok start ∧ r = start * 0x1000 % wordSize := by
  simp only [kallocPlace, ne_eq, not_true_eq_false, if_false, bind_eq_ok, pure_eq_ok] at h
  obtain ⟨start, hfind, rfl⟩ := h
  exact ⟨start, hfind, rfl⟩

theorem searched_le (m : Memmap) : m.searched ≤ m.length := by
  simp only [Memmap.searched, pageIndex, wordBits]
  omega

theorem pageCount_of_kallocPages_pos (hsz : sz < wordSize) (h : 0 < kallocPages sz) :
    kallocPages sz = pageCount sz ∧ 0 < sz := by
  by_cases hlt : sz + 0xFFF < wordSize
  · have heq := kallocPages_eq hlt
    refine ⟨heq, ?_⟩
    rw [heq] at h
    simp only [pageCount] at h
    omega
  · simp only [kallocPages, wordSize] at h hsz hlt
    omega

theorem kernelPlace {s : State} (hI : Inv s L) (hsz : sz < wordSize)
    (h : kallocPlace s.kernelMemmap sz 0 = .ok r) (hr : r ≠ 0) :
    r % pageSize = 0 ∧ 0 < sz ∧ kallocPages sz = pageCount sz ∧ 0 < kallocPages sz ∧
      r / pageSize + kallocPages sz ≤ s.kernelMemmap.length ∧
      FirstRun s.kernelMemmap (kallocPages sz) (r / pageSize) ∧
      r + pageCount sz * pageSize < wordSize := by
  obtain ⟨start, hfind, rfl⟩ := kallocPlace_zero h
  obtain ⟨hpos, hrun⟩ := memmapFindFreePages_spec hfind
  obtain ⟨hcount, hszpos⟩ := pageCount_of_kallocPages_pos hsz hpos
  rcases hrun with ⟨hfits, hfirst⟩ | ⟨rfl, _⟩
  · have hlen := hI.heap.length_le
    have hsearch := searched_le s.kernelMemmap
    simp only [tableSize] at hlen
    have hmod : start * 0x1000 % wordSize = start * pageSize := by
      simp only [wordSize, pageSize]
      omega
    rw [hmod, mul_pageSize_div, ← hcount]
    refine ⟨Nat.mul_mod_left _ _, hszpos, rfl, hpos, by omega, hfirst, ?_⟩
    simp only [wordSize, pageSize]
    omega
  · simp at hr

theorem kallocMap_kernel {A : TableAlloc} {s s' : State}
    {phys : Option Nat} (hI : Inv s L) (hr : r % pageSize = 0) (hsz : 0 < sz)
    (hlen : r / pageSize + pageCount sz ≤ s.kernelMemmap.length)
    (hfit : r + pageCount sz * pageSize < wordSize)
    (h : kallocMap A s .kernel sz r flags = .ok (phys, s')) :
    Inv s' L ∧ MappedPages s s' .kernel (pagesFrom (r / pageSize) (pageCount sz)) (pageFlags flags) ∧
      (takesFrame (pageFlags flags) (s.entry .kernel (r / pageSize)) = true →
        (s'.entry .kernel (r / pageSize)).frame = s.nextFrame ∧
          phys = some (s.nextFrame * pageSize)) := by
  have hk := kernel_mem_spaces L
  have hcount : 0 < pageCount sz := by
    simp only [pageCount]
    omega
  have htab : ∀ v ∈ pagesFrom (r / pageSize) (pageCount sz),
      v < 1048576 ∧ s.tableOf .kernel v ≠ 0 := by
    intro v hv
    have := mem_pagesFrom.mp hv
    exact ⟨hI.kernel_lt (by omega), hI.kernel_table (by omega)⟩
  have hfold := kallocMap_foldlM hfit hsz h
  rw [pageAddrs_eq_map hr] at hfold
  obtain ⟨hI', hmapped⟩ := foldlM_kallocMapPage hk (nodup_pagesFrom _ _) hI htab hfold
  refine ⟨hI', hmapped, fun htake => ?_⟩
  -- the first page, which the rest of the loop does not touch
  obtain ⟨hv, hv0⟩ := htab (r / pageSize) (mem_pagesFrom.mpr (by omega))
  obtain ⟨s₁, hfirst, hrest⟩ := kallocMap_of_fit hfit hsz h
  obtain ⟨-, hone, hphys⟩ := mmuAllocPage_of_table hfirst rfl rfl hv0
  have hI₁ := hI.allocPage hk hv hv0 hfirst
  have htab₁ := hone.touches.step.tableOf (d := .kernel)
  rw [State.entry_of_ne hv0] at htake
  refine ⟨?_, hphys htake⟩
  have hr' : (r + pageSize) % pageSize = 0 := by simpa using hr
  have hdiv : (r + pageSize) / pageSize = r / pageSize + 1 := Nat.add_div_right r (by decide)
  rw [pageAddrs_eq_map hr', hdiv] at hrest
  have hlater : ∀ v ∈ pagesFrom (r / pageSize + 1) (pageCount sz - 1),
      v ∈ pagesFrom (r / pageSize) (pageCount sz) ∧ v ≠ r / pageSize := by
    intro v hv
    have := mem_pagesFrom.mp hv
    exact ⟨mem_pagesFrom.mpr (by omega), by omega⟩
  obtain ⟨-, hmapped₁⟩ := foldlM_kallocMapPage hk (nodup_pagesFrom _ _) hI₁
    (fun v hv => by rw [htab₁]; exact htab v (hlater v hv).1) hrest
  have hsame : s'.entry .kernel (r / pageSize) = s₁.entry .kernel (r / pageSize) := by
    apply (hmapped₁.touches.entry_eq ?_).1
    rintro - ⟨w, hw, ht, hj⟩
    rw [htab₁, htab₁] at ht
    obtain ⟨hw', hne⟩ := hlater w hw
    exact hne (hI.slot_eq hk hk hv (htab w hw').1 hv0 ht hj).1.symm
  rw [hsame, State.entry_of_ne (by rwa [htab₁]), htab₁, hone.page, allocatedPage, htake]
  rfl

theorem kallocTrack_eq {s s' : State} {mmap : Option Nat} {kernel : Bool}
    (hk : hasFlag flags kallocOptnKernel = kernel) (h : kallocTrack s sz r flags mmap = .ok s') :
    ∃ k, s' = { s with mallocs := k }.setBuffersOf kernel
      (s.buffersOf kernel ++ s.newBuffers r (kallocPages sz) flags mmap) := by
  subst hk
  simp only [kallocTrack] at h
  split at h
  · next htrack =>
      obtain ⟨_, _, h⟩ := bind_eq_ok.mp h
      rw [pure_eq_ok] at h
      refine ⟨s.mallocs + 1, ?_⟩
      rw [← h, State.newBuffers, State.tracks, htrack, State.malloc]
      split <;> rfl
  · next htrack =>
      rw [pure_eq_ok] at h
      have hno : s.tracks flags = false := by simpa [State.tracks] using htrack
      refine ⟨s.mallocs, ?_⟩
      rw [← h, State.newBuffers, hno]
      cases hasFlag flags kallocOptnKernel <;> simp [State.setBuffersOf, State.buffersOf, State.setTask]

theorem kallocTrack_kernel {s s' : State} {mmap : Option Nat}
    (hk : hasFlag flags kallocOptnKernel = true) (h : kallocTrack s sz r flags mmap = .ok s') :
    ∃ k, s' = { s with
      kernelBuffers := s.kernelBuffers ++ s.newBuffers r (kallocPages sz) flags mmap
      mallocs := k } :=
  kallocTrack_eq hk h

theorem KernelAlloc.track (s : State) (l : List Buffer) (k : Nat) :
    KernelAlloc s { s with kernelBuffers := s.kernelBuffers ++ l, mallocs := k } :=
  ⟨⟨_, _, _, _, _, _, _, rfl⟩, rfl, fun _ h => h, fun _ _ _ => rfl, fun _ _ _ => rfl, fun _ => rfl,
    ⟨fun _ h => h, fun _ _ _ => rfl, id, fun _ _ => rfl⟩, l, rfl⟩

theorem FirstRun.new {n p : Nat} (h : FirstRun m n p) (hlen : p + n ≤ m.length)
    (hused : ∀ q, m'.used q = (inRange p n q || m.used q)) {q : Nat} (hq : inRange p n q = true) :
    q < m.length ∧ m.used q = false ∧ m'.used q = true := by
  have hq' := inRange_eq_true.mp hq
  refine ⟨by omega, ?_, by rw [hused, hq]; rfl⟩
  have := h.free (q - p) (by omega)
  rwa [show p + (q - p) = q by omega] at this

theorem kernelAlloc_of_mapped {s s' : State} {p n : Nat}
    (hfirst : FirstRun s.kernelMemmap n p) (hlen : p + n ≤ s.kernelMemmap.length)
    (hmlen : m.length = s.kernelMemmap.length)
    (hused : ∀ q, m.used q = (inRange p n q || s.kernelMemmap.used q))
    (h : MappedPages { s with kernelMemmap := m } s' .kernel (pagesFrom p n) flags) :
    KernelAlloc s s' := by
  have hmap : s'.kernelMemmap = m ∧ s'.kernelBuffers = s.kernelBuffers := by
    obtain ⟨_, _, _, _, rfl⟩ := h.touches.step
    exact ⟨rfl, rfl⟩
  have hnew : ∀ {t j}, PageSlots { s with kernelMemmap := m } .kernel (pagesFrom p n) t j →
      NewSlots s s' t j := by
    rintro t j ⟨v, hv, hslot⟩
    have hv' : inRange p n v = true := inRange_eq_true.mpr (mem_pagesFrom.mp hv)
    obtain ⟨hlt, hfree, husedm⟩ := hfirst.new hlen hused hv'
    exact ⟨v, hlt, hfree, hmap.1.symm ▸ husedm, hslot⟩
  refine ⟨?_, by rw [hmap.1, hmlen], ?_, ?_, ?_, h.touches.refs,
    ⟨h.grow.used, h.grow.refs, h.grow.out, h.grow.zero⟩, [], by rw [hmap.2, List.append_nil]⟩
  · obtain ⟨_, _, _, _, rfl⟩ := h.touches.step
    exact ⟨_, _, _, _, _, _, _, rfl⟩
  · intro v hv
    rw [hmap.1, hused, hv, Bool.or_true]
  · intro t j hn
    exact h.touches.page t j (fun hP => hn (hnew hP))
  · intro t j hn
    exact h.touches.info t j (fun hP => hn (hnew hP))

theorem kalloc_kernel {A : TableAlloc} {s s' : State}
    {mmap phys : Option Nat} (hI : Inv s L) (hk : hasFlag flags kallocOptnKernel = true)
    (hsz : sz < wordSize) (h : kallocBody A s sz 0 flags mmap = .ok (r, phys, s')) :
    (r = 0 ∧ s' = s) ∨
      (r ≠ 0 ∧ KernelAllocated s s' L r (kallocPages sz) flags mmap phys) := by
  obtain ⟨_, hplace, ⟨rfl, _, rfl⟩ | ⟨hr, m, s₂, hmark, hmap, htrack⟩⟩ := kallocBody_cases hk h
  · exact Or.inl ⟨rfl, rfl⟩
  refine Or.inr ⟨hr, ?_⟩
  obtain ⟨halign, hszpos, hcount, hpos, hlen, hfirst, hfit⟩ := kernelPlace hI hsz hplace hr
  rw [forAddr_kalloc _ hfit, ← hcount] at hmark
  obtain ⟨hmlen, hmused⟩ : m.length = s.kernelMemmap.length ∧ ∀ p, m.used p =
      (inRange (r / pageSize) (kallocPages sz) p || s.kernelMemmap.used p) :=
    foldlM_memmapSetPage halign hmark
  have hI₁ : Inv { s with kernelMemmap := m } L :=
    hI.mark hmlen (fun p hp => by simp [hmused, hp])
  obtain ⟨hI₂, hmapped, hphys⟩ := kallocMap_kernel hI₁ halign hszpos
    (by rw [← hcount]; exact hmlen.symm ▸ hlen) hfit hmap
  rw [← hcount] at hmapped
  have halloc := kernelAlloc_of_mapped hfirst hlen hmlen hmused hmapped
  have hbuffers : s₂.kernelBuffers = s.kernelBuffers ∧ s₂.kheapLen = s.kheapLen ∧
      s₂.kernelMemmap = m ∧ s₂.dirs = s.dirs := by
    obtain ⟨_, _, _, _, rfl⟩ := hmapped.touches.step
    exact ⟨rfl, rfl, rfl, rfl⟩
  obtain ⟨k, rfl⟩ := kallocTrack_kernel hk htrack
  have hnew : s₂.newBuffers r (kallocPages sz) flags mmap =
      s.newBuffers r (kallocPages sz) flags mmap := by
    rw [State.newBuffers, State.newBuffers, State.tracks, State.tracks, hbuffers.2.1]
  exact {
    aligned := halign
    pages_pos := hpos
    fits := hlen
    first := hfirst
    inv := by
      rw [State.newBuffers]
      split
      · -- nothing that was there before lies in the new range
        have hcov : ∀ p, (kallocBuffer r (kallocPages sz) flags mmap).Covers p →
            p < s.kernelMemmap.length ∧ s.kernelMemmap.used p = false ∧ m.used p = true :=
          fun p hp => hfirst.new hlen hmused (inRange_eq_true.mpr hp)
        have hfree : ∀ p, s.kernelMemmap.used p = true →
            ¬ (kallocBuffer r (kallocPages sz) flags mmap).Covers p := by
          intro p hp hc
          rw [(hcov p hc).2.1] at hp
          cases hp
        apply hI₂.track halign hpos (hfree 0 hI.heap.zero_used)
        · intro p hp
          rw [hbuffers.2.2.1, hmlen]
          exact ⟨(hcov p hp).1, (hcov p hp).2.2⟩
        · intro c hc p hp
          rw [hbuffers.1] at hc
          exact hfree p (hI.heap.covered c hc p hp).2
        · intro t ht
          rw [hbuffers.2.2.2] at ht
          exact hfree _ (hI.tables_owned t ht).used
        · intro a ha
          exact hfree _ (hI.dirs_owned a ha).used
      · rw [List.append_nil]
        exact hI₂.congr rfl
    alloc := halloc.trans (.track s₂ _ k)
    used := fun p => by rw [← hmused, ← hbuffers.2.2.1]
    entry := fun v hv =>
      have hbefore : FramesGrow s { s with kernelMemmap := m } :=
        ⟨fun _ h => h, fun _ _ _ => rfl, id, fun _ _ => rfl⟩
      (hmapped.entry v (mem_pagesFrom.mpr (inRange_eq_true.mp hv))).mono hbefore
        (KernelAlloc.track s₂ _ k).grow ⟨rfl, rfl⟩ ⟨rfl, rfl⟩
    frame := fun htake => (hphys htake).1
    phys := fun htake => (hphys htake).2
    order := hmapped.order
    buffers := by rw [← hnew, ← hbuffers.1] }

end Hydrax
