import Hydrax.Mmu.UserAlloc

/-!
# Calls that come back

The specifications of the other modules say what a call has done once it is back. Here we show that
it does come back: no assertion fails, no null table is followed and every loop ends, as long as the
kernel has room. `Room s N M` says that the kernel's pages from `N` on and the frames from `M` on
are free and that `malloc` succeeds once there is a heap, and each lemma gives how far a call moves
the two marks.
-/

namespace Hydrax

open Loop

variable {s s' : State} {M N a flags i ptr r sz t vaddr : Nat} {L l : List Nat} {d src : DirRef}
  {k : Bool} {b : Buffer} {A : TableAlloc} {m : Memmap}

/-! ## Room -/

/-- All pages of the kernel from `N` on and all frames from `M` on are free. -/
structure Room (s : State) (N M : Nat) : Prop where
  pages : ∀ p, N ≤ p → s.kernelMemmap.used p = false
  frames : ∀ f, M ≤ f → s.physicalMemmap.used f = false
  malloc : s.kheapLen ≠ 0 → ∀ k, s.mallocOk k = true
  out : s.outOfFrames = false

theorem Room.frames_le {k : Nat} (h : Room s N M)
    (hk : ∀ f, s.physicalMemmap.used f = decide (f < k)) : k ≤ M := by
  by_contra hlt
  have := h.frames M le_rfl
  rw [hk, decide_eq_false_iff_not] at this
  omega

theorem Room.mono {N' M' : Nat} (h : Room s N M) (hN : N ≤ N') (hM : M ≤ M') : Room s N' M' where
  pages p hp := h.pages p (by omega)
  frames f hf := h.frames f (by omega)
  malloc := h.malloc
  out := h.out

theorem Room.place {n : Nat} (h : Room s N M) (hn : 0 < n)
    (hlen : s.kernelMemmap.length % tableSize = 0) (hroom : N + n ≤ s.kernelMemmap.length) :
    ∃ r ≤ N, memmapFindFreePages s.kernelMemmap n = .ok r ∧ FirstRun s.kernelMemmap n r := by
  obtain ⟨r, hr⟩ := @memmapFindFreePages_ok n s.kernelMemmap (by omega)
  have hrun : s.kernelMemmap.FreeRun N n := fun k _ => h.pages (N + k) (by omega)
  have hsearched : s.kernelMemmap.searched = s.kernelMemmap.length := by
    simp only [Memmap.searched, pageIndex, wordBits, tableSize] at hlen ⊢
    omega
  rcases (memmapFindFreePages_spec hr).2 with ⟨-, hfirst⟩ | ⟨-, hnone⟩
  · refine ⟨r, ?_, hr, hfirst⟩
    by_contra hlt
    exact hfirst.least N (by omega) hrun
  · exact absurd hrun (hnone N (by omega))

/-! ## Frames and pages -/

theorem nextFrame_lt (hlen : s.physicalMemmap.length = 65536) : s.nextFrame < 65536 := by
  have hsearched : s.physicalMemmap.searched ≤ 65536 := hlen ▸ searched_le s.physicalMemmap
  rcases memmapFindFreePage_spec s.physicalMemmap with ⟨hlt, -, -⟩ | ⟨hzero, -⟩
  · exact lt_of_lt_of_le hlt hsearched
  · rw [State.nextFrame, hzero]
    decide

theorem mmuTakeFrame_ok (hlen : s.physicalMemmap.length = 65536) (t j : Nat) :
    ∃ s', mmuTakeFrame s t j = .ok (s.nextFrame * pageSize, s') := by
  have hlt : s.nextFrame < 65536 := nextFrame_lt hlen
  have hne : ¬ memmapFindFreePage s.physicalMemmap = wordSize - 1 := by
    intro h
    rw [State.nextFrame, h] at hlt
    exact absurd hlt (by decide)
  obtain ⟨map, hmap⟩ := memmapSetPage_ok (m := s.physicalMemmap)
    (show s.nextFrame * pageSize % pageSize = 0 from Nat.mul_mod_left _ _)
  unfold mmuTakeFrame
  dsimp only
  rw [if_neg hne]
  rw [State.nextFrame] at hmap
  rw [hmap]
  exact ⟨_, rfl⟩

theorem mmuAllocFrame_ok (hlen : s.physicalMemmap.length = 65536)
    {addr : Nat} (ht : s.tableOf d (addr / pageSize) ≠ 0) :
    ∃ phys s', mmuAllocFrame s addr d = .ok (phys, s') := by
  unfold mmuAllocFrame
  dsimp only
  have hassert : assert (s.tableOf d (addr / pageSize) != 0) = .ok () := by simp [ht]
  rw [hassert, ok_bind]
  split
  next => exact ⟨0, s, rfl⟩
  next =>
    obtain ⟨s', hs'⟩ := mmuTakeFrame_ok hlen (s.tableOf d (addr / pageSize))
      (pageIdx (addr / pageSize))
    exact ⟨_, s', hs'⟩

/-! ## Free frames -/

/-- Page `addr` gets a frame that was free, and only the bit of that frame changes. -/
structure GotFree (s s' : State) (d : DirRef) (addr f : Nat) : Prop where
  lt : f < s.physicalMemmap.length
  free : s.physicalMemmap.used f = false
  used : ∀ g, s'.physicalMemmap.used g = (decide (g = f) || s.physicalMemmap.used g)
  page : s'.page (s.tableOf d (addr / pageSize)) (pageIdx (addr / pageSize)) =
    { s.page (s.tableOf d (addr / pageSize)) (pageIdx (addr / pageSize)) with
      present := true, accessed := false, dirty := false, frame := f }

/-- `mmu_alloc_frame` gives the page a free frame and returns its address, or stops the kernel when
no frame is free. -/
def FreeOrPanic (s : State) (addr : Nat) (d : DirRef) : Prop :=
  (∃ f s', mmuAllocFrame s addr d = .ok (f * pageSize, s') ∧ GotFree s s' d addr f) ∨
    (∀ f < s.physicalMemmap.length, s.physicalMemmap.used f = true) ∧
      mmuAllocFrame s addr d = .error .panicked

section Free

variable {s : State} {d : DirRef} {addr : Nat}

theorem mmuAllocFrame_first (hlen : s.physicalMemmap.length = 65536)
    (ht : s.tableOf d (addr / pageSize) ≠ 0)
    (hframe : (s.page (s.tableOf d (addr / pageSize)) (pageIdx (addr / pageSize))).frame = 0) :
    ∃ s', mmuAllocFrame s addr d = .ok (s.nextFrame * pageSize, s') ∧
      TookFrame s s' (s.tableOf d (addr / pageSize)) (pageIdx (addr / pageSize)) s.nextFrame := by
  obtain ⟨phys, s', halloc⟩ := mmuAllocFrame_ok hlen ht
  obtain ⟨-, ⟨hbad, -⟩ | ⟨-, htake⟩⟩ := mmuAllocFrame_cases halloc rfl rfl
  · exact absurd hframe hbad
  · obtain ⟨f, htook, rfl⟩ := tookFrame_mmuTakeFrame htake
    have hf : f = s.nextFrame := htook.first
    subst hf
    exact ⟨s', halloc, htook⟩

/-- **A frame in use is handed out exactly if none is free**: the search answers `0` then, which is
not what the caller tests for. -/
theorem mmuAllocFrame_free_iff (hlen : s.physicalMemmap.length = 65536)
    (ht : s.tableOf d (addr / pageSize) ≠ 0)
    (hframe : (s.page (s.tableOf d (addr / pageSize)) (pageIdx (addr / pageSize))).frame = 0) :
    FreeOrPanic s addr d ↔ ∃ f < 65536, s.physicalMemmap.used f = false := by
  obtain ⟨s', halloc, htook⟩ := mmuAllocFrame_first hlen ht hframe
  constructor
  · rintro (⟨f, _, -, hgot⟩ | ⟨-, hpanic⟩)
    · exact ⟨f, hlen ▸ hgot.lt, hgot.free⟩
    · cases halloc.symm.trans hpanic
  · rintro ⟨f, hf, hfree⟩
    refine Or.inl ⟨s.nextFrame, s', halloc, ?_, ?_, htook.used, htook.page⟩
    · rw [hlen]
      exact nextFrame_lt hlen
    · rcases memmapFindFreePage_spec s.physicalMemmap with ⟨-, hfirst, -⟩ | ⟨-, hall⟩
      · exact hfirst
      · -- the search looks at all 65536 bits
        have hsearched : f < s.physicalMemmap.searched := by
          rw [Memmap.searched, hlen]
          exact hf
        rw [hall f hsearched] at hfree
        cases hfree

end Free

/-- A state in which every directory has a table, with the given bitmap of frames. -/
def framesState (m : Memmap) : State :=
  { dirs := fun _ => { tables := fun _ => 1 }, physicalMemmap := m }

/-- The first frame that is handed out is frame 0. -/
theorem mmuAllocFrame_free_first : FreeOrPanic (framesState (memmapInit 65536)) 0 .kernel :=
  (mmuAllocFrame_free_iff rfl (by decide) rfl).mpr ⟨0, by decide, memmapInit_used 65536 0⟩

def fullFrames : Memmap := ⟨fun _ => BitVec.allOnes 32, 65536⟩

theorem fullFrames_used (f : Nat) : fullFrames.used f = true := by
  show (BitVec.allOnes 32).getLsbD (offsetFromBit f) = true
  rw [BitVec.getLsbD_allOnes]
  exact decide_eq_true (offsetFromBit_lt f)

/-- **With all frames in use a page gets frame 0**, which is not free. -/
theorem mmuAllocFrame_free_full :
    (∃ s', mmuAllocFrame (framesState fullFrames) 0x1000 .kernel = .ok (0, s') ∧
      (s'.page 1 1).present = true ∧ (s'.page 1 1).frame = 0) ∧
    ¬ FreeOrPanic (framesState fullFrames) 0x1000 .kernel := by
  obtain ⟨s', halloc, htook⟩ := mmuAllocFrame_first (s := framesState fullFrames) (d := .kernel)
    (show fullFrames.length = 65536 from rfl) (show 1 ≠ 0 by decide) rfl
  have hzero : (framesState fullFrames).nextFrame = 0 := by
    rcases memmapFindFreePage_spec fullFrames with ⟨-, hfirst, -⟩ | ⟨hzero, -⟩
    · rw [fullFrames_used] at hfirst
      cases hfirst
    · exact hzero
  rw [hzero] at halloc htook
  refine ⟨⟨s', halloc, congrArg Page.present htook.page, congrArg Page.frame htook.page⟩, ?_⟩
  rintro (⟨f, _, -, hgot⟩ | ⟨-, hpanic⟩)
  · exact absurd ((fullFrames_used f).symm.trans hgot.free) (by decide)
  · cases halloc.symm.trans hpanic

/-- **Mapping a page of a table that exists** comes back with it. -/
theorem mmuAllocPage_ok (A : TableAlloc) (hlen : s.physicalMemmap.length = 65536)
    (ht : s.tableOf d (vaddr / pageSize) ≠ 0) (flags : Nat) :
    ∃ phys s', mmuAllocPage A s d vaddr flags = .ok (true, phys, s') := by
  unfold mmuAllocPage
  dsimp only
  rw [if_neg ht, pure_bind]
  dsimp only
  rw [if_neg (by simp)]
  split
  next =>
    obtain ⟨phys, s', hs'⟩ := mmuAllocFrame_ok
      (s := mmuSetupPage s (s.tableOf d (vaddr / pageSize)) (pageIdx (vaddr / pageSize)) flags)
      (by rw [(mmuSetupPage_frames s _ _ flags).2.1]; exact hlen)
      (by rw [tableOf_mmuSetupPage]; exact ht)
    exact ⟨some phys, s', by rw [hs', ok_bind]; rfl⟩
  next => exact ⟨none, _, rfl⟩

/-! ## Mapping kernel pages -/

theorem nextFrame_of_free (hlen : s.physicalMemmap.length = 65536)
    (hM : M < 65536) (hfree : s.physicalMemmap.used M = false) :
    s.nextFrame ≤ M ∧ s.physicalMemmap.used s.nextFrame = false := by
  have hsearched : s.physicalMemmap.searched = 65536 := by
    simp only [Memmap.searched, pageIndex, wordBits, hlen]
  rcases memmapFindFreePage_spec s.physicalMemmap with ⟨-, hused, hleast⟩ | ⟨-, hall⟩
  · refine ⟨?_, hused⟩
    by_contra hlt
    have := hleast M (by unfold State.nextFrame at hlt; omega)
    rw [hfree] at this
    cases this
  · have := hall M (by omega)
    rw [hfree] at this
    cases this

theorem Room.nextFrame_le (h : Room s N M)
    (hlen : s.physicalMemmap.length = 65536) (hM : M < 65536) :
    s.nextFrame ≤ M ∧ s.physicalMemmap.used s.nextFrame = false :=
  nextFrame_of_free hlen hM (h.frames M (le_refl M))

theorem Room.mapPage {j : Nat} (h : Room s N M)
    (hlen : s.physicalMemmap.length = 65536) (hM : M < 65536)
    (hmap : MappedPage s s' t j flags) : Room s' N (M + 1) := by
  obtain ⟨hle, hfree⟩ := h.nextFrame_le hlen hM
  have hstep := hmap.touches.step
  refine ⟨?_, ?_, ?_, ?_⟩
  · obtain ⟨_, _, _, _, rfl⟩ := hstep
    exact h.pages
  · intro f hf
    rw [hmap.used, h.frames f (by omega)]
    have : f ≠ s.nextFrame := by omega
    simp [this]
  · obtain ⟨_, _, _, _, rfl⟩ := hstep
    exact h.malloc
  · rw [hmap.out, h.out, hfree]
    simp

theorem foldlM_kallocMapPage_ok (A : TableAlloc) (flags : Nat) (hroom : Room s N M)
    (hlen : s.physicalMemmap.length = 65536) (hM : M + l.length ≤ 65536)
    (hl : ∀ v ∈ l, s.tableOf d v ≠ 0) :
    ∃ s', (l.map (fun v => v * pageSize)).foldlM (kallocMapPage A d flags) s = .ok s' ∧
      Room s' N (M + l.length) := by
  induction l generalizing s M with
  | nil => exact ⟨s, rfl, hroom⟩
  | cons v l ih =>
    have hdiv : v * pageSize / pageSize = v := mul_pageSize_div v
    have hv0 : s.tableOf d v ≠ 0 := hl v (by simp)
    rw [List.length_cons] at hM
    obtain ⟨phys, s₁, hfirst⟩ := mmuAllocPage_ok A hlen
      (show s.tableOf d (v * pageSize / pageSize) ≠ 0 by rwa [hdiv]) (pageFlags flags)
    obtain ⟨-, hone, -⟩ := mmuAllocPage_of_table hfirst hdiv rfl hv0
    have hroom₁ := hroom.mapPage hlen (by omega) hone
    obtain ⟨s', hrest, hroom'⟩ := ih hroom₁ (hone.touches.length.trans hlen) (by omega)
      (fun w hw => by rw [hone.touches.step.tableOf]; exact hl w (by simp [hw]))
    refine ⟨s', ?_, hroom'.mono (le_refl _) (by rw [List.length_cons]; omega)⟩
    rw [List.map_cons, List.foldlM_cons, kallocMapPage_eq_ok.mpr ⟨phys, hfirst⟩, ok_bind]
    exact hrest

theorem kallocMap_of_foldlM (hfit : r + pageCount sz * pageSize < wordSize) (hsz : 0 < sz)
    (h : (pageAddrs r (pageCount sz)).foldlM (kallocMapPage A d flags) s = .ok s') :
    ∃ phys, kallocMap A s d sz r flags = .ok (phys, s') := by
  have hcount : pageCount sz = pageCount sz - 1 + 1 := by
    simp only [pageCount]
    omega
  rw [hcount, pageAddrs_succ, List.foldlM_cons, bind_eq_ok] at h
  obtain ⟨s₁, hfirst, hrest⟩ := h
  obtain ⟨phys, hfirst⟩ := kallocMapPage_eq_ok.mp hfirst
  refine ⟨phys, ?_⟩
  rw [kallocMap, hfirst, ok_bind]
  dsimp only
  rw [forAddr_kalloc_rest _ hfit hsz, hrest]
  rfl

theorem kallocTrack_ok (hmalloc : s.kheapLen ≠ 0 → ∀ k, s.mallocOk k = true)
    (sz r flags : Nat) (mmap : Option Nat) : ∃ s', kallocTrack s sz r flags mmap = .ok s' := by
  rw [kallocTrack]
  split
  next h =>
    rw [Bool.and_eq_true, bne_iff_ne] at h
    rw [State.malloc, hmalloc h.2]
    exact ⟨_, rfl⟩
  next => exact ⟨s, rfl⟩

theorem kallocTrack_room {mmap : Option Nat}
    (hroom : Room s N M) (h : kallocTrack s sz r flags mmap = .ok s') : Room s' N M := by
  obtain ⟨hpages, hframes, hmalloc, hout⟩ := hroom
  cases hk : hasFlag flags kallocOptnKernel with
  | true =>
    obtain ⟨k, rfl⟩ := kallocTrack_kernel hk h
    exact ⟨hpages, hframes, hmalloc, hout⟩
  | false =>
    obtain ⟨k, rfl⟩ := kallocTrack_user hk h
    exact ⟨hpages, hframes, hmalloc, hout⟩

theorem kallocBody_eq_ok {s₁ : State}
    {mmap phys : Option Nat} (hk : hasFlag flags kallocOptnKernel = k)
    (halign : vaddr % pageSize = 0) (hplace : kallocPlace (s.memmapOf k) sz vaddr = .ok r)
    (hr : r ≠ 0)
    (hmark : forAddr memmapSetPage (kallocBound r sz) addrFuel r (s.memmapOf k) = .ok m)
    (hmap : kallocMap A (s.setMemmapOf k m) (s.dirOf k) sz r flags = .ok (phys, s₁))
    (htrack : kallocTrack s₁ sz r flags mmap = .ok s') :
    kallocBody A s sz vaddr flags mmap = .ok (r, phys, s') := by
  subst hk
  rw [kallocBody]
  have hassert : assert (vaddr == 0 || vaddr % pageSize == 0) = .ok () := by simp [halign]
  rw [hassert, ok_bind]
  dsimp only
  rw [hplace, ok_bind, if_neg hr, hmark, ok_bind, hmap, ok_bind]
  dsimp only
  rw [htrack]
  rfl

/-- **A kernel allocation comes back** with a buffer when there is room for it. -/
theorem kalloc_kernel_ok (A : TableAlloc) (sz : Nat) {n : Nat} (mmap : Option Nat) (hI : Inv s L)
    (hk : hasFlag flags kallocOptnKernel = true) (hroom : Room s N M) (hn : pageCount sz = n)
    (hpos : 0 < n) (hN : N + n ≤ s.kernelMemmap.length) (hM : M + n ≤ 65536) :
    ∃ r phys s', kallocBody A s sz 0 flags mmap = .ok (r, phys, s') ∧ r ≠ 0 ∧
      KernelAllocated s s' L r n flags mmap phys ∧ Room s' (N + n) (M + n) := by
  subst hn
  have hsz : 0 < sz := by
    simp only [pageCount] at hpos
    omega
  have hlen := hI.heap.length_le
  have hszlt : sz + 0xFFF < wordSize := by
    have := pageCount_mul_ge sz
    simp only [tableSize, pageSize, wordSize] at *
    omega
  have hcount : kallocPages sz = pageCount sz := kallocPages_eq hszlt
  obtain ⟨start, hle, hfind, hfirst⟩ := hroom.place hpos hI.heap.length_mod hN
  have hstart : start ≠ 0 := by
    rintro rfl
    have := hfirst.free 0 hpos
    rw [Nat.add_zero, hI.heap.zero_used] at this
    cases this
  -- the range lies below the end of kernel space
  have hfit : start * pageSize + pageCount sz * pageSize < wordSize := by
    rw [← Nat.add_mul]
    have : start + pageCount sz ≤ 1023 * 1024 := by
      simp only [tableSize] at hlen
      omega
    simp only [pageSize, wordSize]
    omega
  have hr : start * 0x1000 % wordSize = start * pageSize :=
    Nat.mod_eq_of_lt (lt_of_le_of_lt (Nat.le_add_right _ _) hfit)
  have hplace : kallocPlace (s.memmapOf true) sz 0 = .ok (start * pageSize) := by
    simp only [kallocPlace, State.memmapOf, ne_eq, not_true_eq_false, if_false, if_true, hcount, hfind,
      ok_bind, hr]
    rfl
  have halign : start * pageSize % pageSize = 0 := Nat.mul_mod_left _ _
  have hne : start * pageSize ≠ 0 := by
    simp only [pageSize]
    omega
  obtain ⟨m, hmark⟩ := @foldlM_memmapSetPage_ok s.kernelMemmap (start * pageSize) (pageCount sz) halign
  obtain ⟨hmlen, hmused⟩ := foldlM_memmapSetPage halign hmark
  rw [mul_pageSize_div] at hmused
  have hroom₁ : Room { s with kernelMemmap := m } (N + pageCount sz) M := by
    refine ⟨fun p hp => ?_, hroom.frames, hroom.malloc, hroom.out⟩
    rw [hmused, hroom.pages p (by omega)]
    simp only [inRange, Bool.or_false, Bool.and_eq_false_iff, decide_eq_false_iff_not]
    omega
  obtain ⟨s₂, hloop, hroom₂⟩ := foldlM_kallocMapPage_ok A (d := .kernel) flags
    (l := pagesFrom start (pageCount sz)) hroom₁ hI.frames (by simpa [pagesFrom] using hM)
    (fun v hv => hI.kernel_table (by have := mem_pagesFrom.mp hv; omega))
  have haddrs := pageAddrs_eq_map halign (pageCount sz)
  rw [mul_pageSize_div] at haddrs
  rw [← haddrs] at hloop
  obtain ⟨phys, hmap⟩ := kallocMap_of_foldlM hfit hsz hloop
  obtain ⟨s₃, htrack⟩ := kallocTrack_ok hroom₂.malloc sz (start * pageSize) flags mmap
  have hbody := kallocBody_eq_ok hk rfl hplace hne
    (by rw [forAddr_kalloc _ hfit]; exact hmark) hmap htrack
  refine ⟨_, phys, s₃, hbody, hne, ?_, ?_⟩
  · rcases kalloc_kernel hI hk (by omega) hbody with ⟨h0, -⟩ | ⟨-, h⟩
    · exact absurd h0 hne
    · rwa [hcount] at h
  · have := kallocTrack_room hroom₂ htrack
    rwa [pagesFrom, List.length_range'] at this

/-! ## Cloning -/

theorem mmuAllocFrame_room {addr phys : Nat} (hroom : Room s N M)
    (hlen : s.physicalMemmap.length = 65536) (hM : M < 65536)
    (h : mmuAllocFrame s addr d = .ok (phys, s')) :
    FrameStep s s' ∧ Room s' N (M + 1) ∧ s'.physicalMemmap.length = 65536 := by
  obtain ⟨-, ⟨-, -, rfl⟩ | ⟨-, htake⟩⟩ := mmuAllocFrame_cases h rfl rfl
  · exact ⟨.refl s', hroom.mono (le_refl _) (by omega), hlen⟩
  · obtain ⟨f, htook, -⟩ := tookFrame_mmuTakeFrame htake
    obtain ⟨hle, hfree⟩ := hroom.nextFrame_le hlen hM
    have hf : f = s.nextFrame := htook.first
    refine ⟨htook.touches.step, ⟨?_, ?_, ?_, ?_⟩, htook.touches.length.trans hlen⟩
    · obtain ⟨_, _, _, _, rfl⟩ := htook.touches.step
      exact hroom.pages
    · intro g hg
      rw [htook.used, hroom.frames g (by omega)]
      have : g ≠ f := by omega
      simp [this]
    · obtain ⟨_, _, _, _, rfl⟩ := htook.touches.step
      exact hroom.malloc
    · rw [htook.out, hroom.out, hf, hfree]
      rfl

theorem clonePage_ok (flags src : Nat) {j : Nat}
    (hroom : Room s N M) (hlen : s.physicalMemmap.length = 65536) (hM : M < 65536) (ht : t ≠ 0)
    (htab : (s.dirs d).tables i = t) (hj : j < tableSize) :
    ∃ s', clonePage flags src t (i * 1024 * pageSize) d s j = .ok s' ∧ CopyStep s s' ∧
      Room s' N (M + 1) ∧ s'.physicalMemmap.length = 65536 := by
  rw [clonePage]
  split
  next => exact ⟨s, rfl, .refl s, hroom.mono (le_refl _) (by omega), hlen⟩
  next =>
    split
    next =>
      have hroom₁ : Room (clonePageCow s src t j) N M :=
        ⟨hroom.pages, hroom.frames, hroom.malloc, hroom.out⟩
      exact ⟨_, rfl, ⟨_, _, _, _, _, rfl⟩, hroom₁.mono (le_refl _) (by omega), hlen⟩
    next =>
      have hdiv : (i * 1024 * pageSize + j * pageSize) / pageSize = i * 1024 + j := by
        rw [← Nat.add_mul, mul_pageSize_div]
      have htable : s.tableOf d ((i * 1024 * pageSize + j * pageSize) / pageSize) ≠ 0 := by
        have hidx : tableIdx (i * 1024 + j) = i := by
          simp only [tableIdx, tableSize] at hj ⊢
          omega
        rw [hdiv, State.tableOf, hidx, htab]
        exact ht
      obtain ⟨phys, s₁, hframe⟩ := mmuAllocFrame_ok hlen htable
      obtain ⟨hstep, hroom₁, hlen₁⟩ := mmuAllocFrame_room hroom hlen hM hframe
      rw [clonePageCopy, hframe, ok_bind]
      dsimp only
      refine ⟨_, rfl, ?_, ?_, hlen₁⟩
      · apply FrameStep.copyPhysicalPage
        exact hstep.trans ⟨_, _, _, _, rfl⟩
      · exact ⟨hroom₁.pages, hroom₁.frames, hroom₁.malloc, hroom₁.out⟩

theorem foldlM_clonePage_ok (flags src : Nat) (ht : t ≠ 0)
    (hl : ∀ j ∈ l, j < tableSize) (hroom : Room s N M)
    (hlen : s.physicalMemmap.length = 65536) (hM : M + l.length ≤ 65536)
    (htab : (s.dirs d).tables i = t) :
    ∃ s', l.foldlM (clonePage flags src t (i * 1024 * pageSize) d) s = .ok s' ∧
      Room s' N (M + l.length) := by
  induction l generalizing s M with
  | nil => exact ⟨s, rfl, hroom⟩
  | cons j l ih =>
    rw [List.length_cons] at hM ⊢
    obtain ⟨s₁, hfirst, hstep, hroom₁, hlen₁⟩ :=
      clonePage_ok flags src hroom hlen (by omega) ht htab (hl j (by simp))
    obtain ⟨s', hrest, hroom'⟩ := ih (fun k hk => hl k (by simp [hk])) hroom₁ hlen₁ (by omega)
      (by rw [hstep.dirs]; exact htab)
    refine ⟨s', ?_, hroom'.mono (le_refl _) (by omega)⟩
    rw [List.foldlM_cons, hfirst, ok_bind]
    exact hrest

/-- Whether a clone of `src` gets a table of its own for the region `i`. -/
def ownsTable (s : State) (src : DirRef) (i : Nat) : Bool :=
  (s.dirs src).tables i != 0 && (s.dirs .kernel).tables i != (s.dirs src).tables i

theorem mmuCloneTable_ok (flags src : Nat)
    (hI : Inv s L) (hroom : Room s N M) (hN : N + 3 ≤ s.kernelMemmap.length)
    (hM : M + 1027 ≤ 65536) :
    ∃ t p s', mmuCloneTable s src d i flags = .ok (t, p, s') ∧ t ≠ 0 ∧
      Room s' (N + 3) (M + 1027) := by
  obtain ⟨t, phys, s₁, halloc, ht, hK, hroom₁⟩ := kalloc_kernel_ok (allocTableWith noTable)
    sizeofPageTable none hI kernel_of_cloneKflags hroom (show pageCount sizeofPageTable = 3 from rfl)
    (by decide) hN (by omega)
  have hkalloc : kalloc s sizeofPageTable 0
      (kallocOptnAlign ||| kallocOptnKernel ||| kallocOptnWriteable) = .ok (t, phys, s₁) := halloc
  rw [mmuCloneTable, hkalloc, ok_bind]
  dsimp only
  rw [if_neg ht]
  generalize hs₂ : State.setTable _ t _ = s₂
  have hroom₂ : Room s₂ (N + 3) (M + 3) := by
    subst hs₂
    exact ⟨hroom₁.pages, hroom₁.frames, hroom₁.malloc, hroom₁.out⟩
  have hlen₂ : s₂.physicalMemmap.length = 65536 := by
    subst hs₂
    exact hK.inv.frames
  have htab : (s₂.dirs d).tables i = t := by
    subst hs₂
    simp [State.setTable]
  obtain ⟨s₃, hloop, hroom₃⟩ := foldlM_clonePage_ok flags src ht
    (fun j hj => List.mem_range.mp hj) hroom₂ hlen₂
    (by rw [List.length_range, tableSize]; omega) htab
  rw [hloop, ok_bind]
  refine ⟨t, _, s₃, rfl, ht, ?_⟩
  rwa [List.length_range] at hroom₃

theorem cloneTable_ok (hI : Inv s L)
    (hshare : hasFlag flags cloneShare = false) (hroom : Room s N M)
    (hN : N + (if ownsTable s src i then 3 else 0) ≤ s.kernelMemmap.length)
    (hM : M + (if ownsTable s src i then 1027 else 0) ≤ 65536) :
    ∃ s', cloneTable s src (.heap a) i flags = .ok (true, s') ∧
      Room s' (N + (if ownsTable s src i then 3 else 0))
        (M + (if ownsTable s src i then 1027 else 0)) := by
  by_cases h0 : (s.dirs src).tables i = 0
  · refine ⟨s, ?_, hroom.mono (Nat.le_add_right _ _) (Nat.le_add_right _ _)⟩
    rw [cloneTable, if_pos h0]
    rfl
  by_cases hk : (s.dirs .kernel).tables i = (s.dirs src).tables i
  · refine ⟨linkTable s src (.heap a) i, ?_, ?_⟩
    · rw [cloneTable, if_neg h0, if_pos (by simp [hk])]
      rfl
    · have : Room (linkTable s src (.heap a) i) N M :=
        ⟨hroom.pages, hroom.frames, hroom.malloc, hroom.out⟩
      exact this.mono (Nat.le_add_right _ _) (Nat.le_add_right _ _)
  · have hown : ownsTable s src i = true := by simp [ownsTable, h0, hk]
    rw [hown] at hN hM ⊢
    simp only [if_true] at hN hM ⊢
    obtain ⟨t, p, s₁, hclone, ht, hroom₁⟩ := mmuCloneTable_ok flags ((s.dirs src).tables i)
      (i := i) (d := .heap a) hI hroom hN hM
    rw [cloneTable, if_neg h0, if_neg (by simp [hk, hshare]), hclone, ok_bind]
    dsimp only
    rw [if_neg ht]
    exact ⟨_, rfl, hroom₁.pages, hroom₁.frames, hroom₁.malloc, hroom₁.out⟩

/-- How many tables of its own a clone of `src` gets among the regions `I`. -/
def ownTables (s : State) (src : DirRef) (I : List Nat) : Nat := I.countP (ownsTable s src)

theorem ownsTable_congr (hsrc : s'.dirs src = s.dirs src)
    (hkernel : s'.dirs .kernel = s.dirs .kernel) : ownsTable s' src = ownsTable s src := by
  funext i
  rw [ownsTable, ownsTable, hsrc, hkernel]

theorem cloneTables_ok {I : List Nat}
    (hI : Inv s (a :: L)) (hsrc : src ∈ spaces (a :: L)) (hne : src ≠ .heap a)
    (hshare : hasFlag flags cloneShare = false) (hnodup : I.Nodup)
    (hI' : ∀ i ∈ I, i < tableSize ∧ (s.dirs (.heap a)).tables i = 0) (hroom : Room s N M)
    (hN : N + 3 * ownTables s src I ≤ s.kernelMemmap.length)
    (hM : M + 1027 * ownTables s src I ≤ 65536) :
    ∃ s', cloneTables src (.heap a) flags I s = .ok (true, s') ∧
      Room s' (N + 3 * ownTables s src I) (M + 1027 * ownTables s src I) := by
  induction I generalizing s N M with
  | nil => exact ⟨s, rfl, hroom⟩
  | cons i I ih =>
    obtain ⟨hi, hnodup⟩ := List.nodup_cons.mp hnodup
    obtain ⟨hlt, hnew⟩ := hI' i (by simp)
    have hcount : ownTables s src (i :: I) =
        ownTables s src I + if ownsTable s src i then 1 else 0 := List.countP_cons
    have hpages : (if ownsTable s src i then 3 else 0) = 3 * if ownsTable s src i then 1 else 0 := by
      split <;> rfl
    have hframes : (if ownsTable s src i then 1027 else 0) =
        1027 * if ownsTable s src i then 1 else 0 := by split <;> rfl
    rw [hcount] at hN hM ⊢
    obtain ⟨s₁, hfirst, hroom₁⟩ := cloneTable_ok (a := a) hI hshare hroom
      (by rw [hpages]; omega) (by rw [hframes]; omega)
    rw [hpages, hframes] at hroom₁
    have hcase := cloneTable_cases hI hsrc hlt hshare hnew hfirst
    have hone := hcase.cloned hI rfl hsrc hne hlt hnew
    have hown : ownTables s₁ src I = ownTables s src I := by
      rw [ownTables, ownTables, ownsTable_congr (hone.dirs src hne) (hone.dirs .kernel (by simp))]
    obtain ⟨s', htail, hroom'⟩ := ih (hcase.inv hI) hnodup (hone.rest hi hI') hroom₁
      (by rw [hown, hone.length]; omega) (by rw [hown]; omega)
    refine ⟨s', ?_, hroom'.mono (by rw [hown]; omega) (by rw [hown]; omega)⟩
    rw [cloneTables, hfirst, ok_bind]
    exact htail

/-- **Cloning a directory comes back** with the clone when there is room for it. -/
theorem mmuCloneDirectory_ok {flags : Nat} {src : DirRef} {L : List Nat} {s : State} {N M k : Nat}
    (hI : Inv s L) (hsrc : src ∈ spaces L) (hshare : hasFlag flags cloneShare = false)
    (hroom : Room s N M) (hk : ownTables s src (List.range tableSize) ≤ k)
    (hN : N + 2 + 3 * k ≤ s.kernelMemmap.length) (hM : M + 2 + 1027 * k ≤ 65536) :
    ∃ a phys s', mmuCloneDirectory s src flags = .ok (a, phys, s') ∧ a ≠ 0 ∧
      Room s' (N + 2 + 3 * k) (M + 2 + 1027 * k) := by
  obtain ⟨a, physmem, s₁, halloc, ha, hK, hroom₁⟩ := kalloc_kernel_ok (allocTableWith noTable)
    sizeofPageDirectory none hI kernel_of_cloneKflags hroom
    (show pageCount sizeofPageDirectory = 2 from rfl) (by decide) (by omega) (by omega)
  have hkalloc : kalloc s sizeofPageDirectory 0
      (kallocOptnAlign ||| kallocOptnKernel ||| kallocOptnWriteable) = .ok (a, physmem, s₁) := halloc
  have hne := hK.ne_heap hI hsrc
  have hown : ownTables (s₁.newDir a) src (List.range tableSize) =
      ownTables s src (List.range tableSize) := by
    rw [ownTables, ownTables]
    congr 1
    apply ownsTable_congr
    · show addDir s₁.dirs a src = s.dirs src
      rw [addDir_of_ne hne, hK.alloc.step.dirs]
    · show addDir s₁.dirs a .kernel = s.dirs .kernel
      rw [addDir_of_ne (by simp), hK.alloc.step.dirs]
  have hroom₂ : Room (s₁.newDir a) (N + 2) (M + 2) :=
    ⟨hroom₁.pages, hroom₁.frames, hroom₁.malloc, hroom₁.out⟩
  obtain ⟨s', htables, hroom'⟩ := cloneTables_ok (hK.newDir hI) (spaces_cons hsrc) hne hshare
    List.nodup_range (fun i hi => ⟨List.mem_range.mp hi, addDir_self i⟩) hroom₂
    (by rw [hown]; show _ ≤ s₁.kernelMemmap.length; rw [hK.alloc.length]; omega)
    (by rw [hown]; omega)
  refine ⟨a, (physmem.getD 0 + offsetofTablesPhysical) % wordSize, s', ?_, ha,
    hroom'.mono (by rw [hown]; omega) (by rw [hown]; omega)⟩
  rw [mmuCloneDirectory, hkalloc, ok_bind]
  dsimp only
  rw [if_neg ha]
  have hstate : { s₁ with dirs := Function.update s₁.dirs (.heap a) {} } = s₁.newDir a := rfl
  rw [hstate, htables]
  rfl

/-! ## User pages -/

theorem mmuAllocPage_of_made {A : TableAlloc} {s s₁ : State} {d : DirRef} {vaddr flags : Nat}
    (h0 : s.tableOf d (vaddr / pageSize) = 0) (hmk : hasFlag flags allocFrameMktable = true)
    (hmake : mmuMakeTable A s d (vaddr / pageSize) = .ok (true, s₁))
    (h1 : s₁.tableOf d (vaddr / pageSize) ≠ 0) :
    mmuAllocPage A s d vaddr flags = mmuAllocPage A s₁ d vaddr flags := by
  rw [mmuAllocPage, mmuAllocPage]
  dsimp only
  rw [if_pos h0, if_pos hmk, hmake, if_neg h1]
  rfl

theorem mmuAllocPage_user_ok {v : Nat} (hI : Inv s L) (hv : vaddr / pageSize = v)
    (hmk : hasFlag flags allocFrameMktable = true) (hroom : Room s N M)
    (hN : N + 3 ≤ s.kernelMemmap.length) (hM : M + 4 ≤ 65536) :
    ∃ phys s', mmuAllocPage (allocTableWith noTable) s (.heap a) vaddr flags =
      .ok (true, phys, s') ∧ Room s' (N + 3) (M + 4) := by
  by_cases h0 : s.tableOf (.heap a) v = 0
  · obtain ⟨t, phys, s₁, halloc, ht, hK, hroom₁⟩ := kalloc_kernel_ok noTable sizeofPageTable none hI
      kernel_of_tableKflags hroom (show pageCount sizeofPageTable = 3 from rfl) (by decide) hN
      (by omega)
    have hmake : mmuMakeTable (allocTableWith noTable) s (.heap a) v =
        .ok (true, s₁.addTable a (tableIdx v) t (phys.getD 0 ||| 7) {}) := by
      have htable : allocTableWith noTable s = .ok (t, phys.getD 0, s₁) := by
        have hbody : kallocBody noTable s sizeofPageTable 0 (kallocOptnAlign ||| kallocOptnKernel)
          none = .ok (t, phys, s₁) := halloc
        rw [allocTableWith, hbody]
        rfl
      rw [mmuMakeTable, htable, ok_bind]
      dsimp only
      rw [if_neg ht]
      rfl
    have htab : (s₁.addTable a (tableIdx v) t (phys.getD 0 ||| 7) {}).tableOf (.heap a) v = t := by
      rw [State.tableOf, addTable_tables, if_pos ⟨rfl, rfl⟩]
    have hroom₂ : Room (s₁.addTable a (tableIdx v) t (phys.getD 0 ||| 7) {}) (N + 3) (M + 3) :=
      ⟨hroom₁.pages, hroom₁.frames, hroom₁.malloc, hroom₁.out⟩
    have hlen₂ : (s₁.addTable a (tableIdx v) t (phys.getD 0 ||| 7) {}).physicalMemmap.length =
      65536 := hK.inv.frames
    generalize s₁.addTable a (tableIdx v) t (phys.getD 0 ||| 7) {} = s₂ at *
    obtain ⟨phys', s', hmap⟩ := mmuAllocPage_ok (allocTableWith noTable) hlen₂
      (show s₂.tableOf (.heap a) (vaddr / pageSize) ≠ 0 by rw [hv, htab]; exact ht) flags
    obtain ⟨-, hone, -⟩ := mmuAllocPage_of_table hmap hv rfl (by rw [htab]; exact ht)
    refine ⟨phys', s', ?_, hroom₂.mapPage hlen₂ (by omega) hone⟩
    rw [mmuAllocPage_of_made (hv ▸ h0) hmk (hv ▸ hmake) (by rw [hv, htab]; exact ht)]
    exact hmap
  · obtain ⟨phys, s', hmap⟩ := mmuAllocPage_ok (allocTableWith noTable) hI.frames
      (show s.tableOf (.heap a) (vaddr / pageSize) ≠ 0 by rwa [hv]) flags
    obtain ⟨-, hone, -⟩ := mmuAllocPage_of_table hmap hv rfl h0
    exact ⟨phys, s', hmap, (hroom.mapPage hI.frames (by omega) hone).mono (by omega) (by omega)⟩

theorem foldlM_kallocMapPage_user_ok (flags : Nat) (ha : a ∈ L) (hI : Inv s L)
    (hC : Complete s (.heap a)) (hl : ∀ v ∈ l, s.kernelMemmap.length ≤ v ∧ v < 1048576)
    (hroom : Room s N M) (hN : N + 3 * l.length ≤ s.kernelMemmap.length)
    (hM : M + 4 * l.length ≤ 65536) :
    ∃ s', (l.map (fun v => v * pageSize)).foldlM
      (kallocMapPage (allocTableWith noTable) (.heap a) flags) s = .ok s' ∧
      Room s' (N + 3 * l.length) (M + 4 * l.length) := by
  induction l generalizing s N M with
  | nil => exact ⟨s, rfl, hroom⟩
  | cons v l ih =>
    rw [List.length_cons] at hN hM ⊢
    obtain ⟨huser, hlt⟩ := hl v (by simp)
    have hdiv : v * pageSize / pageSize = v := mul_pageSize_div v
    obtain ⟨phys, s₁, hfirst, hroom₁⟩ := mmuAllocPage_user_ok (a := a) hI hdiv
      (pageFlags_mktable flags) hroom (by omega) (by omega)
    obtain ⟨hP, -, hU⟩ := mmuAllocPage_user hI ha hC hdiv hlt hfirst
    have hlen := (hU huser).length
    obtain ⟨s', hrest, hroom'⟩ := ih hP.inv hP.complete
      (fun w hw => by rw [hlen]; exact hl w (by simp [hw])) hroom₁ (by rw [hlen]; omega) (by omega)
    refine ⟨s', ?_, hroom'.mono (by omega) (by omega)⟩
    rw [List.map_cons, List.foldlM_cons, kallocMapPage_eq_ok.mpr ⟨phys, hfirst⟩, ok_bind]
    exact hrest

theorem anyUsed_ok {bound fuel tmp : Nat} (halign : tmp % pageSize = 0)
    (hbound : bound + pageSize ≤ wordSize) (hpos : 0 < fuel)
    (hfuel : bound ≤ tmp + (fuel - 1) * pageSize)
    (hfree : ∀ q, tmp ≤ q * pageSize → q * pageSize < bound → m.used q = false) :
    anyUsed m bound fuel tmp = .ok false := by
  induction fuel generalizing tmp with
  | zero => omega
  | succ fuel ih =>
    rw [anyUsed]
    split
    next hb =>
      have htmp : tmp / pageSize * pageSize = tmp :=
        Nat.div_mul_cancel (Nat.dvd_of_mod_eq_zero halign)
      rw [memmapTestPage_eq, hfree (tmp / pageSize) (by omega) (by omega),
        Nat.mod_eq_of_lt (by omega), if_neg (by simp)]
      have hfuel' : 0 < fuel := by
        by_contra h0
        obtain rfl : fuel = 0 := by omega
        simp at hfuel
        omega
      refine ih (by simp [halign]) hfuel' ?_ (fun q hq hqb => hfree q (by omega) hqb)
      have : (fuel + 1 - 1) * pageSize = (fuel - 1) * pageSize + pageSize := by
        rw [← Nat.succ_mul]
        congr 1
        omega
      omega
    next => rfl

theorem kallocPlace_given (h0 : vaddr ≠ 0)
    (halign : vaddr % pageSize = 0) (hfit : vaddr + pageCount sz * pageSize < wordSize)
    (hfree : ∀ p, inRange (vaddr / pageSize) (pageCount sz) p = true → m.used p = false) :
    kallocPlace m sz vaddr = .ok vaddr := by
  have hge := pageCount_mul_ge sz
  have hany : anyUsed m (kallocBound vaddr sz) addrFuel vaddr = .ok false := by
    rw [kallocBound_of_fit hfit]
    apply anyUsed_ok halign
    · simp only [pageSize, wordSize, pageCount] at *
      omega
    · decide
    · simp only [pageSize, wordSize, addrFuel] at *
      omega
    · intro q hq hqb
      apply hfree
      rw [inRange_eq_true]
      simp only [pageSize, pageCount] at *
      omega
  rw [kallocPlace, if_pos h0, hany]
  rfl

/-- **A user allocation comes back** with its buffer when there is room for the page tables. -/
theorem kalloc_user_ok (mmap : Option Nat)
    (hI : Inv s L) (ha : a ∈ L) (hcur : s.currentDirectory = .heap a) (hC : Complete s (.heap a))
    (hk : hasFlag flags kallocOptnKernel = false)
    (hmap : ∀ v < s.kernelMemmap.length, (s.tasks s.currentTask).memmap.used v = true)
    (hsz : sz < wordSize) (halign : vaddr % pageSize = 0)
    (hfit : RangeFits (s.tasks s.currentTask).memmap sz vaddr)
    (hplace : kallocPlace (s.tasks s.currentTask).memmap sz vaddr = .ok r) (hr : r ≠ 0)
    (hroom : Room s N M) (hN : N + 3 * pageCount sz ≤ s.kernelMemmap.length)
    (hM : M + 4 * pageCount sz ≤ 65536) :
    ∃ phys s', kalloc s sz vaddr flags mmap = .ok (r, phys, s') ∧
      UserAllocated s s' a L r (pageCount sz) flags mmap ∧
      Room s' (N + 3 * pageCount sz) (M + 4 * pageCount sz) := by
  obtain ⟨hr4, hcount, hpos, htop, hfree, -⟩ :=
    userPlace (hmap 0 hI.heap.length_pos) halign hsz hfit hplace hr
  obtain ⟨m, hmark⟩ := @foldlM_memmapSetPage_ok (s.tasks s.currentTask).memmap r (pageCount sz) hr4
  have hrange := fun v => user_of_free (v := v) hmap htop hfree
  have hroom₁ : Room (s.setMemmapOf false m) N M :=
    ⟨hroom.pages, hroom.frames, hroom.malloc, hroom.out⟩
  have hlength : (pagesFrom (r / pageSize) (pageCount sz)).length = pageCount sz := by
    rw [pagesFrom, List.length_range']
  obtain ⟨s₁, hloop, hroom₂⟩ := foldlM_kallocMapPage_user_ok flags ha
    (hI.setTasks (Function.update s.tasks s.currentTask
      { s.tasks s.currentTask with memmap := m })) hC hrange hroom₁
    (by rw [hlength]; exact hN) (by rw [hlength]; exact hM)
  rw [← pageAddrs_eq_map hr4] at hloop
  obtain ⟨phys, hkmap⟩ := kallocMap_of_foldlM htop hfit.1 hloop
  obtain ⟨s', htrack⟩ := kallocTrack_ok hroom₂.malloc sz r flags mmap
  have hbody : kalloc s sz vaddr flags mmap = .ok (r, phys, s') := by
    refine kallocBody_eq_ok hk halign hplace hr (m := m) ?_ ?_ htrack
    · rw [forAddr_kalloc _ htop]
      exact hmark
    · rw [show s.dirOf false = .heap a from hcur]
      exact hkmap
  refine ⟨phys, s', hbody, ?_, ?_⟩
  · rcases kalloc_user hI ha hcur hC hk hmap hsz hfit hbody with ⟨h0, -⟩ | ⟨-, -, h⟩
    · exact absurd h0 hr
    · rwa [hcount] at h
  · have := kallocTrack_room hroom₂ htrack
    rwa [hlength] at this

/-! ## Freeing -/

theorem kfreeBuffer_ok (hmmap : b.mmap = none)
    (h : ∀ v ∈ b.visited, s.tableOf (s.dirOf k) v ≠ 0) : ∃ s', kfreeBuffer s k b = .ok s' :=
  ⟨_, kfreeBuffer_iff.mpr ⟨h, by simp [hmmap], rfl⟩⟩

theorem Inv.buffer_tables (hI : Inv s L)
    (hb : b ∈ s.kernelBuffers) : ∀ v ∈ b.visited, s.tableOf .kernel v ≠ 0 := by
  intro v hv
  have hfit := hI.buffer_fits hb
  have hlen := hI.heap.length_le
  rw [tableSize] at hlen
  rw [Buffer.visited, kfreeAddrs_pages (by omega), mem_pagesFrom] at hv
  exact hI.kernel_table (by omega)

theorem Inv.find_user (hI : Inv s L) (hptr : s.kernelMemmap.length ≤ ptr / pageSize) :
    s.kernelBuffers.find? (fun c => c.address == ptr) = none := by
  rw [List.find?_eq_none]
  intro b hb heq
  rw [beq_iff_eq] at heq
  have hfit := hI.buffer_fits hb
  have hpos := hI.heap.pages_pos b hb
  rw [heq] at hfit
  omega

theorem kfree_user_ok (hI : Inv s L) (hptr : s.kernelMemmap.length ≤ ptr / pageSize)
    (hfind : (s.tasks s.currentTask).buffers.find? (fun c => c.address == ptr) = some b)
    (hmmap : b.mmap = none) (h : ∀ v ∈ b.visited, s.tableOf s.currentDirectory v ≠ 0) :
    ∃ s', kfree s ptr = .ok s' := by
  rw [kfree, hI.find_user hptr]
  dsimp only
  rw [hfind]
  exact kfreeBuffer_ok (k := false) hmmap h

theorem kfree_kernel_ok (hI : Inv s L)
    (hfind : s.kernelBuffers.find? (fun c => c.address == ptr) = some b) (hmmap : b.mmap = none) :
    ∃ s', kfree s ptr = .ok s' := by
  rw [kfree, hfind]
  exact kfreeBuffer_ok (k := true) hmmap (hI.buffer_tables (List.mem_of_find?_eq_some hfind))

end Hydrax
