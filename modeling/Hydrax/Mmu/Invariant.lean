import Hydrax.Mmu.Books

/-!
# The invariant of the memory manager

Three things hold in every state the kernel comes back to, for the list `L` of live directories:

* `KernelHeap` — the bitmap of the kernel's pages and the list of its buffers agree,
* `Shape` — a directory has the kernel's tables, and tables of its own above them,
* `Balanced` — the reference counts of the frames are right.

They are put together in `Inv`, with what keeps a page table from being handed out again while it
is in use: it lies in a kernel page that is marked, and no buffer but its own covers that page.
-/

namespace Hydrax

variable {s s' s₁ s₂ s₃ : State} {L : List Nat} {f j phys t v : Nat} {d : DirRef} {m : Memmap}

/-- Page `p` belongs to the buffer. -/
def Buffer.Covers (b : Buffer) (p : Nat) : Prop :=
  b.address / pageSize ≤ p ∧ p < b.address / pageSize + b.pages

instance (b : Buffer) (p : Nat) : Decidable (b.Covers p) :=
  inferInstanceAs (Decidable (_ ∧ _))

/-- The bitmap `m` and the buffers of the kernel. -/
structure KernelHeap (m : Memmap) (buffers : List Buffer) : Prop where
  length_mod : m.length % tableSize = 0
  length_pos : 0 < m.length
  length_le : m.length ≤ 1023 * tableSize
  /-- A buffer at address `0` would look like a failed allocation. -/
  zero_used : m.used 0 = true
  zero_kept : ∀ b ∈ buffers, ¬ b.Covers 0
  aligned : ∀ b ∈ buffers, b.address % pageSize = 0
  pages_pos : ∀ b ∈ buffers, 0 < b.pages
  covered : ∀ b ∈ buffers, ∀ p, b.Covers p → p < m.length ∧ m.used p = true
  disjoint : buffers.Pairwise (fun b c => ∀ p, b.Covers p → ¬ c.Covers p)

/-- Number of page tables of the kernel's address space. -/
def kernelTables (m : Memmap) : Nat := m.length / tableSize

/-- Which tables the directories have, the first `n` being the kernel's. -/
structure Shape (n : Nat) (dirs : DirRef → PageDirectory) (L : List Nat) : Prop where
  nodup : L.Nodup
  kernel : ∀ i < tableSize, (dirs .kernel).tables i ≠ 0 ↔ i < n
  kernel_inj : ∀ i j, i < n → j < n → (dirs .kernel).tables i = (dirs .kernel).tables j → i = j
  /-- A directory that is still being built may lack a table of the kernel. -/
  shared : ∀ a ∈ L, ∀ i < n, (dirs (.heap a)).tables i ≠ 0 →
    (dirs (.heap a)).tables i = (dirs .kernel).tables i
  apart : ∀ a ∈ L, ∀ i, n ≤ i → i < tableSize → ∀ j < n,
    (dirs (.heap a)).tables i ≠ (dirs .kernel).tables j
  own : ∀ a ∈ L, ∀ b ∈ L, ∀ i j, n ≤ i → i < tableSize → n ≤ j → j < tableSize →
    (dirs (.heap a)).tables i = (dirs (.heap b)).tables j → (dirs (.heap a)).tables i ≠ 0 →
    a = b ∧ i = j

/-- A kernel object lies at address `a`. -/
structure Owned (m : Memmap) (buffers : List Buffer) (a : Nat) : Prop where
  aligned : a % pageSize = 0
  lt : a / pageSize < m.length
  used : m.used (a / pageSize) = true
  buffer : ∀ b ∈ buffers, b.Covers (a / pageSize) → b.address = a

/-- The invariant. -/
structure Inv (s : State) (L : List Nat) : Prop where
  heap : KernelHeap s.kernelMemmap s.kernelBuffers
  shape : Shape (kernelTables s.kernelMemmap) s.dirs L
  tables_owned : ∀ t ∈ liveTables s.dirs L, Owned s.kernelMemmap s.kernelBuffers t
  dirs_owned : ∀ a ∈ L, Owned s.kernelMemmap s.kernelBuffers a
  dirs_apart : ∀ a ∈ L, a ∉ liveTables s.dirs L
  /-- Only the tables of the kernel are ever linked, so no other counter comes down to `0`. -/
  refs_own : ∀ a ∈ L, ∀ i, kernelTables s.kernelMemmap ≤ i → i < tableSize →
    (s.dirs (.heap a)).tables i ≠ 0 → (s.tables ((s.dirs (.heap a)).tables i)).refs ≠ 1
  refs_lt : ∀ t, (s.tables t).refs < wordSize
  frames : s.physicalMemmap.length = 65536
  /-- Frame `0` stands for no frame, and is never handed out. -/
  zero_frame : s.physicalMemmap.used 0 = true
  balanced : Balanced s L

/-! ## Counting -/

theorem card_le_of_owned {buffers : List Buffer} (hlen : m.length ≤ 1023 * tableSize)
    {T : Finset Nat} (h : ∀ t ∈ T, Owned m buffers t) : T.card ≤ 1048576 := by
  have hsub : T ⊆ (Finset.range 1048576).image (fun p => p * pageSize) := by
    intro t ht
    have ho := h t ht
    refine Finset.mem_image.mpr ⟨t / pageSize, Finset.mem_range.mpr ?_, ?_⟩
    · have := ho.lt
      simp only [tableSize] at hlen
      omega
    · have := ho.aligned
      simp only [pageSize] at this ⊢
      omega
  calc T.card ≤ ((Finset.range 1048576).image (fun p => p * pageSize)).card :=
        Finset.card_le_card hsub
    _ ≤ (Finset.range 1048576).card := Finset.card_image_le
    _ = 1048576 := Finset.card_range _

theorem Inv.fewSlots (hI : Inv s L) : FewSlots s L := by
  have hcard := card_le_of_owned hI.heap.length_le hI.tables_owned
  rw [FewSlots, slots, Finset.card_product, Finset.card_range]
  simp only [tableSize, wordSize]
  omega

/-! ## Where the entry of a page is -/

theorem tableIdx_lt (h : v < 1048576) : tableIdx v < tableSize := by
  simp only [tableIdx, tableSize]
  omega

theorem slot_mem (hd : d ∈ spaces L)
    (hv : v < 1048576) (ht : s.tableOf d v ≠ 0) : (s.tableOf d v, pageIdx v) ∈ slots s.dirs L :=
  mem_slots.mpr ⟨mem_liveTables.mpr ⟨ht, d, hd, tableIdx v, tableIdx_lt hv, rfl⟩, pageIdx_lt v⟩

theorem Inv.kernel_lt (hI : Inv s L) (hv : v < s.kernelMemmap.length) : v < 1048576 := by
  have := hI.heap.length_le
  simp only [tableSize] at this
  omega

theorem tableIdx_lt_kernelTables (hmod : m.length % tableSize = 0) :
    tableIdx v < kernelTables m ↔ v < m.length := by
  simp only [tableIdx, kernelTables, tableSize] at hmod ⊢
  omega

theorem Inv.kernel_table (hI : Inv s L)
    (hv : v < s.kernelMemmap.length) : s.tableOf .kernel v ≠ 0 :=
  (hI.shape.kernel _ (tableIdx_lt (hI.kernel_lt hv))).mpr
    ((tableIdx_lt_kernelTables hI.heap.length_mod).mpr hv)

/-! ## Steps that leave the invariant alone -/

def State.accounts (s : State) := (s.kernelMemmap, s.kernelBuffers, s.dirs, s.tables,
  s.physicalMemmap, s.frameRefs)

theorem Inv.congr (hI : Inv s L) (h : s'.accounts = s.accounts) : Inv s' L := by
  cases s
  cases s'
  cases h
  exact ⟨hI.heap, hI.shape, hI.tables_owned, hI.dirs_owned, hI.dirs_apart, hI.refs_own, hI.refs_lt,
    hI.frames, hI.zero_frame, hI.balanced⟩

theorem Inv.of_balanced (hI : Inv s L)
    (h : (s'.kernelMemmap, s'.kernelBuffers, s'.dirs) = (s.kernelMemmap, s.kernelBuffers, s.dirs))
    (hrefs : ∀ t, (s'.tables t).refs = (s.tables t).refs) (hlen : s'.physicalMemmap.length = 65536)
    (hzero : s'.physicalMemmap.used 0 = true) (hB : Balanced s' L) : Inv s' L := by
  cases s
  cases s'
  cases h
  refine ⟨hI.heap, hI.shape, hI.tables_owned, hI.dirs_owned, hI.dirs_apart, ?_, ?_, hlen, hzero, hB⟩
  · intro a ha i hi hi' h0
    exact ne_of_eq_of_ne (hrefs _) (hI.refs_own a ha i hi hi' h0)
  · intro t
    exact lt_of_eq_of_lt (hrefs t) (hI.refs_lt t)

def FrameStep (s s' : State) : Prop :=
  ∃ T P R o, s' = { s with tables := T, physicalMemmap := P, frameRefs := R, outOfFrames := o }

theorem FrameStep.refl (s : State) : FrameStep s s := ⟨_, _, _, _, rfl⟩

theorem FrameStep.trans (h : FrameStep s₁ s₂) (h' : FrameStep s₂ s₃) : FrameStep s₁ s₃ := by
  obtain ⟨T, P, R, o, rfl⟩ := h
  obtain ⟨T', P', R', o', rfl⟩ := h'
  exact ⟨T', P', R', o', rfl⟩

/-- Only the entries in `P` change, and no counter of a table. -/
structure Touches (P : Nat → Nat → Prop) (s s' : State) : Prop where
  step : FrameStep s s'
  page : ∀ t j, ¬ P t j → s'.page t j = s.page t j
  info : ∀ t j, ¬ P t j → s'.info t j = s.info t j
  refs : ∀ t, (s'.tables t).refs = (s.tables t).refs
  length : s'.physicalMemmap.length = s.physicalMemmap.length
  zero : s.physicalMemmap.used 0 = true → s'.physicalMemmap.used 0 = true

theorem Touches.refl (P : Nat → Nat → Prop) (s : State) : Touches P s s :=
  ⟨.refl s, fun _ _ _ => rfl, fun _ _ _ => rfl, fun _ => rfl, rfl, id⟩

theorem Touches.trans {P : Nat → Nat → Prop} (h : Touches P s₁ s₂)
    (h' : Touches P s₂ s₃) : Touches P s₁ s₃ where
  step := h.step.trans h'.step
  page t j hP := (h'.page t j hP).trans (h.page t j hP)
  info t j hP := (h'.info t j hP).trans (h.info t j hP)
  refs t := (h'.refs t).trans (h.refs t)
  length := h'.length.trans h.length
  zero h0 := h'.zero (h.zero h0)

theorem Touches.mono {P Q : Nat → Nat → Prop} (hPQ : ∀ t j, P t j → Q t j)
    (h : Touches P s s') : Touches Q s s' where
  step := h.step
  page t j hQ := h.page t j (fun hP => hQ (hPQ t j hP))
  info t j hQ := h.info t j (fun hP => hQ (hPQ t j hP))
  refs := h.refs
  length := h.length
  zero := h.zero

theorem Inv.touches {P : Nat → Nat → Prop} (hI : Inv s L)
    (h : Touches P s s') (hB : Balanced s' L) : Inv s' L := by
  have hrefs := h.refs
  have hlen := h.length
  have hzero := h.zero hI.zero_frame
  obtain ⟨T, P', R, o, rfl⟩ := h.step
  exact hI.of_balanced rfl hrefs (hlen.trans hI.frames) hzero hB

theorem false_of_imp {b c : Bool} (h : b = true → c = true) (hc : c = false) : b = false := by
  cases b with
  | false => rfl
  | true => rw [h rfl] at hc; cases hc

/-- Frames are only taken: one that is in use keeps its counter. -/
structure FramesGrow (s s' : State) : Prop where
  used : ∀ f, s.physicalMemmap.used f = true → s'.physicalMemmap.used f = true
  refs : ∀ f, f ≠ 0 → s.physicalMemmap.used f = true → s'.frameRefs f = s.frameRefs f
  out : s.outOfFrames = true → s'.outOfFrames = true
  /-- Frame `0` is taken for want of another one only. -/
  zero : s.physicalMemmap.used 0 = true → s'.outOfFrames = false → s'.frameRefs 0 = s.frameRefs 0

theorem FramesGrow.refl (s : State) : FramesGrow s s :=
  ⟨fun _ h => h, fun _ _ _ => rfl, id, fun _ _ => rfl⟩

theorem FramesGrow.out_false (h : FramesGrow s s') (ho : s'.outOfFrames = false) :
    s.outOfFrames = false :=
  false_of_imp h.out ho

theorem FramesGrow.trans (h : FramesGrow s₁ s₂) (h' : FramesGrow s₂ s₃) : FramesGrow s₁ s₃ where
  used f hf := h'.used f (h.used f hf)
  refs f h0 hf := (h'.refs f h0 (h.used f hf)).trans (h.refs f h0 hf)
  out ho := h'.out (h.out ho)
  zero h0 ho := (h'.zero (h.used 0 h0) ho).trans (h.zero h0 (h'.out_false ho))

/-- The entry `j` of the table at `t`, as a set of entries. -/
abbrev Slot (t j : Nat) (t' j' : Nat) : Prop := t' = t ∧ j' = j

/-! ## Writing an entry -/

section SetEntry

variable (s : State) (t j : Nat) (p : Page) (i : PageInfo)

theorem touches_setPage : Touches (Slot t j) s (s.setPage t j p) where
  step := ⟨_, _, _, _, rfl⟩
  page t' j' h := by rw [State.page_setPage, if_neg h]
  info t' j' _ := State.info_setPage ..
  refs t' := State.refs_setPage ..
  length := rfl
  zero := id

theorem touches_setInfo : Touches (Slot t j) s (s.setInfo t j i) where
  step := ⟨_, _, _, _, rfl⟩
  page t' j' _ := State.page_setInfo ..
  info t' j' h := by rw [State.info_setInfo, if_neg h]
  refs t' := State.refs_setInfo ..
  length := rfl
  zero := id

end SetEntry

theorem Inv.setPage (hI : Inv s L) {p : Page}
    (hp : p.frame = (s.page t j).frame) : Inv (s.setPage t j p) L := by
  have hframes : frameAt (s.setPage t j p).tables = frameAt s.tables := by
    rw [frameAt_setPage, hp]
    exact Function.update_eq_self (t, j) (frameAt s.tables)
  exact hI.touches (touches_setPage s t j p) (hI.balanced.congr rfl hframes rfl rfl)

theorem Inv.setInfo (hI : Inv s L) (t j : Nat) (i : PageInfo) : Inv (s.setInfo t j i) L :=
  hI.touches (touches_setInfo s t j i) (hI.balanced.congr rfl (frameAt_setInfo ..) rfl rfl)

/-! ## Setting up an entry -/

section SetupPage

variable (s : State) (t j flags t' j' : Nat)

theorem page_mmuSetupPage : (mmuSetupPage s t j flags).page t' j' =
    if t' = t ∧ j' = j then
      { s.page t j with
        rw := hasFlag flags allocFrameWriteable, user := !hasFlag flags allocFrameKernel }
    else s.page t' j' := by
  simp only [mmuSetupPage]
  split
  · rw [State.page_setTable _ _ _ _ (by rfl), State.page_setInfo, State.page_setPage]
  · rw [State.page_setInfo, State.page_setPage]

theorem info_mmuSetupPage : (mmuSetupPage s t j flags).info t' j' =
    if t' = t ∧ j' = j then
      { s.info t j with
        cow := hasFlag flags allocFrameCow, noshare := hasFlag flags allocFrameNoshare
        mmap := hasFlag flags allocFrameMmap }
    else s.info t' j' := by
  simp only [mmuSetupPage]
  split
  · rw [State.info_setTable _ _ _ _ (by rfl), State.info_setInfo, State.info_setPage]
  · rw [State.info_setInfo, State.info_setPage]

theorem frameAt_mmuSetupPage :
    frameAt (mmuSetupPage s t j flags).tables = frameAt s.tables := by
  funext x
  obtain ⟨t', j'⟩ := x
  have h := page_mmuSetupPage s t j flags t' j'
  simp only [State.page] at h
  simp only [frameAt, h]
  split
  · next hx => rw [hx.1, hx.2]
  · rfl

theorem mmuSetupPage_frames : (mmuSetupPage s t j flags).frameRefs = s.frameRefs ∧
    (mmuSetupPage s t j flags).physicalMemmap = s.physicalMemmap ∧
    (mmuSetupPage s t j flags).outOfFrames = s.outOfFrames ∧
    (mmuSetupPage s t j flags).dirs = s.dirs := by
  simp only [mmuSetupPage]
  split <;> exact ⟨rfl, rfl, rfl, rfl⟩

theorem touches_mmuSetupPage : Touches (Slot t j) s (mmuSetupPage s t j flags) where
  step := by
    simp only [mmuSetupPage]
    split <;> exact ⟨_, _, _, _, rfl⟩
  page t' j' h := by rw [page_mmuSetupPage, if_neg h]
  info t' j' h := by rw [info_mmuSetupPage, if_neg h]
  refs t' := by
    by_cases ht : t' = t
    · subst ht
      simp only [mmuSetupPage]
      split <;> simp [State.setInfo, State.setPage]
    · simp only [mmuSetupPage]
      split <;> simp [State.setInfo, State.setPage, State.setTable_of_ne, ht]
  length := by rw [(mmuSetupPage_frames s t j flags).2.1]
  zero h := by rwa [(mmuSetupPage_frames s t j flags).2.1]

theorem framesGrow_mmuSetupPage : FramesGrow s (mmuSetupPage s t j flags) where
  used f h := by rwa [(mmuSetupPage_frames s t j flags).2.1]
  refs f _ _ := by rw [(mmuSetupPage_frames s t j flags).1]
  out h := by rwa [(mmuSetupPage_frames s t j flags).2.2.1]
  zero _ _ := by rw [(mmuSetupPage_frames s t j flags).1]

end SetupPage

theorem Inv.setupPage (hI : Inv s L) (t j flags : Nat) : Inv (mmuSetupPage s t j flags) L := by
  obtain ⟨hrefs, hphys, _, hdirs⟩ := mmuSetupPage_frames s t j flags
  exact hI.touches (touches_mmuSetupPage s t j flags)
    (hI.balanced.congr hdirs (frameAt_mmuSetupPage s t j flags) hrefs hphys)

/-! ## Giving an entry a frame -/

/-- The entry `j` of the table at `t`, which had no frame, has frame `f` now. -/
structure TookFrame (s s' : State) (t j f : Nat) : Prop where
  touches : Touches (Slot t j) s s'
  first : f = memmapFindFreePage s.physicalMemmap
  page : s'.page t j =
    { s.page t j with present := true, accessed := false, dirty := false, frame := f }
  info : s'.info t j = { s.info t j with commited := true }
  used : ∀ g, s'.physicalMemmap.used g = (decide (g = f) || s.physicalMemmap.used g)
  refs : s'.frameRefs = Function.update s.frameRefs f (incr (s.frameRefs f))
  out : s'.outOfFrames = (s.outOfFrames || s.physicalMemmap.used f)

theorem tookFrame_mmuTakeFrame (h : mmuTakeFrame s t j = .ok (phys, s')) :
    ∃ f, TookFrame s s' t j f ∧ phys = f * pageSize := by
  obtain ⟨f, map, hf, hmap, hphys, rfl⟩ := mmuTakeFrame_eq h
  obtain ⟨_, hlen, hused⟩ := memmapSetPage_spec hmap
  rw [mul_pageSize_div] at hused
  refine ⟨f, ⟨⟨⟨_, _, _, _, rfl⟩, ?_, ?_, ?_, hlen, ?_⟩, hf, ?_, ?_, hused, rfl, rfl⟩, hphys⟩
  · intro t' j' hP
    rw [State.page_setInfo, State.page_setPage, if_neg hP]
    rfl
  · intro t' j' hP
    rw [State.info_setInfo, if_neg hP, State.info_setPage]
    rfl
  · intro t'
    rw [State.refs_setInfo, State.refs_setPage]
  · intro h0
    show map.used 0 = true
    simp [hused 0, h0]
  · rw [State.page_setInfo, State.page_setPage, if_pos ⟨rfl, rfl⟩]
  · rw [State.info_setInfo, if_pos ⟨rfl, rfl⟩]

theorem memmapFindFreePage_eq_zero (h : m.used (memmapFindFreePage m) = true) :
    memmapFindFreePage m = 0 := by
  rcases memmapFindFreePage_spec m with ⟨_, hfree, _⟩ | ⟨h0, _⟩
  · rw [hfree] at h
    cases h
  · exact h0

theorem TookFrame.free (h : TookFrame s s' t j f)
    (ho : s'.outOfFrames = false) : s.physicalMemmap.used f = false := by
  have := h.out
  rw [ho] at this
  simp only [Bool.false_eq, Bool.or_eq_false_iff] at this
  exact this.2

theorem TookFrame.grow (h : TookFrame s s' t j f) : FramesGrow s s' where
  used g hg := by simp [h.used g, hg]
  refs g h0 hg := by
    rw [h.refs]
    apply Function.update_of_ne
    rintro rfl
    rw [h.first] at hg h0
    exact h0 (memmapFindFreePage_eq_zero hg)
  out ho := by simp [h.out, ho]
  zero h0 ho := by
    rw [h.refs]
    apply Function.update_of_ne
    rintro rfl
    rw [h.free ho] at h0
    cases h0

theorem TookFrame.ne_zero (h : TookFrame s s' t j f)
    (hz : s.physicalMemmap.used 0 = true) (ho : s'.outOfFrames = false) : f ≠ 0 := by
  rintro rfl
  rw [h.free ho] at hz
  cases hz

theorem Inv.takeFrame (hI : Inv s L) (hx : (t, j) ∈ slots s.dirs L) (h0 : (s.page t j).frame = 0)
    (h : mmuTakeFrame s t j = .ok (phys, s')) : Inv s' L := by
  obtain ⟨f, hf, _⟩ := tookFrame_mmuTakeFrame h
  exact hI.touches hf.touches (hI.balanced.takeFrame hI.fewSlots hx h0 h)

theorem mmuAllocFrame_cases {addr : Nat}
    (h : mmuAllocFrame s addr d = .ok (phys, s')) (hv : addr / pageSize = v)
    (ht : s.tableOf d v = t) :
    t ≠ 0 ∧ (((s.page t (pageIdx v)).frame ≠ 0 ∧ phys = 0 ∧ s' = s) ∨
      ((s.page t (pageIdx v)).frame = 0 ∧ mmuTakeFrame s t (pageIdx v) = .ok (phys, s'))) := by
  simp only [mmuAllocFrame, hv, ht, Loop.bind_eq_ok, assert_eq_ok, bne_iff_ne] at h
  obtain ⟨_, ht, h⟩ := h
  refine ⟨ht, ?_⟩
  split at h
  · next hf =>
      rw [Loop.pure_eq_ok] at h
      cases h
      exact Or.inl ⟨hf, rfl, rfl⟩
  · next hf => exact Or.inr ⟨by simpa using hf, h⟩

theorem Inv.allocFrame {addr : Nat} (hI : Inv s L)
    (hd : d ∈ spaces L) (hv : addr / pageSize < 1048576)
    (h : mmuAllocFrame s addr d = .ok (phys, s')) : Inv s' L := by
  obtain ⟨ht, ⟨_, _, rfl⟩ | ⟨h0, htake⟩⟩ := mmuAllocFrame_cases h rfl rfl
  · exact hI
  · exact hI.takeFrame (slot_mem hd hv ht) h0 htake

end Hydrax
