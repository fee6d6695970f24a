import Hydrax.Mmu.Invariant

/-!
# Mapping pages

What `mmu_alloc_page` and the loops of `kalloc` do to the entries of an address space.

* `State.entry` and `State.record` read the entry of a page through a directory. A page whose table
  is missing reads as an empty entry, which is what a new table holds.
* `Inv.slot_eq` says that two pages share an entry only if they are the same page of the kernel.
* `MappedPage` is the effect of `mmu_alloc_page` on the entry it is called for.
-/

namespace Hydrax

open Loop

/-! ## Address spaces -/

namespace State

variable (s : State)

/-- The entry that `d` has for page `v`. -/
def entry (d : DirRef) (v : Nat) : Page :=
  if s.tableOf d v = 0 then {} else s.page (s.tableOf d v) (pageIdx v)

def record (d : DirRef) (v : Nat) : PageInfo :=
  if s.tableOf d v = 0 then {} else s.info (s.tableOf d v) (pageIdx v)

theorem entry_of_ne {s : State} {d : DirRef} {v : Nat} (h : s.tableOf d v ≠ 0) :
    s.entry d v = s.page (s.tableOf d v) (pageIdx v) := if_neg h

theorem record_of_ne {s : State} {d : DirRef} {v : Nat} (h : s.tableOf d v ≠ 0) :
    s.record d v = s.info (s.tableOf d v) (pageIdx v) := if_neg h

theorem entry_at {s : State} {d : DirRef} {v t : Nat} (h : s.tableOf d v = t) (ht : t ≠ 0) :
    s.entry d v = s.page t (pageIdx v) ∧ s.record d v = s.info t (pageIdx v) := by
  subst h
  exact ⟨entry_of_ne ht, record_of_ne ht⟩

end State

theorem entry_congr {s s' : State} {d d' : DirRef} {v : Nat}
    (ht : s'.tableOf d' v = s.tableOf d v)
    (hp : s.tableOf d v ≠ 0 → s'.page (s.tableOf d v) (pageIdx v) = s.page (s.tableOf d v) (pageIdx v) ∧
      s'.info (s.tableOf d v) (pageIdx v) = s.info (s.tableOf d v) (pageIdx v)) :
    s'.entry d' v = s.entry d v ∧ s'.record d' v = s.record d v := by
  rw [State.entry, State.entry, State.record, State.record, ht]
  by_cases h0 : s.tableOf d v = 0
  · rw [if_pos h0, if_pos h0, if_pos h0, if_pos h0]
    exact ⟨rfl, rfl⟩
  · rw [if_neg h0, if_neg h0, if_neg h0, if_neg h0]
    exact hp h0

theorem entry_of_no_table {s : State} {d : DirRef} {v : Nat} (h : s.tableOf d v = 0) :
    s.entry d v = {} ∧ s.record d v = {} := by
  rw [State.entry, State.record, if_pos h, if_pos h]
  exact ⟨rfl, rfl⟩

theorem Shape.tables_inj {n : Nat} {dirs : DirRef → PageDirectory} {L : List Nat}
    (hS : Shape n dirs L) {d d' : DirRef} (hd : d ∈ spaces L) (hd' : d' ∈ spaces L) {i j : Nat}
    (hi : i < tableSize) (hj : j < tableSize) (h : (dirs d).tables i = (dirs d').tables j)
    (h0 : (dirs d).tables i ≠ 0) : i = j ∧ (i < n ∨ d = d') := by
  -- a table below `n` is the kernel's, whatever the directory
  have hshared : ∀ {d : DirRef} {i : Nat}, d ∈ spaces L → i < n → (dirs d).tables i ≠ 0 →
      (dirs d).tables i = (dirs .kernel).tables i := by
    intro d i hd hi h0
    rcases mem_spaces.mp hd with rfl | ⟨a, ha, rfl⟩
    · rfl
    · exact hS.shared a ha i hi h0
  -- a table from `n` on belongs to a directory of its own
  have hheap : ∀ {d : DirRef} {i : Nat}, d ∈ spaces L → n ≤ i → i < tableSize →
      (dirs d).tables i ≠ 0 → ∃ a ∈ L, d = .heap a := by
    intro d i hd hi hi' h0
    rcases mem_spaces.mp hd with rfl | ha
    · exact absurd ((hS.kernel i hi').mp h0) (by omega)
    · exact ha
  have hcross : ∀ {d d' : DirRef} {i j : Nat}, d ∈ spaces L → d' ∈ spaces L → i < n → n ≤ j →
      j < tableSize → (dirs d).tables i = (dirs d').tables j → (dirs d).tables i ≠ 0 → False := by
    intro d d' i j hd hd' hi hj hj' h h0
    obtain ⟨b, hb, rfl⟩ := hheap hd' hj hj' (h ▸ h0)
    exact hS.apart b hb j hj hj' i hi (h.symm.trans (hshared hd hi h0))
  by_cases hin : i < n
  · by_cases hjn : j < n
    · have hk : (dirs .kernel).tables i = (dirs .kernel).tables j :=
        (hshared hd hin h0).symm.trans (h.trans (hshared hd' hjn (h ▸ h0)))
      exact ⟨hS.kernel_inj i j hin hjn hk, Or.inl hin⟩
    · exact (hcross hd hd' hin (by omega) hj h h0).elim
  · by_cases hjn : j < n
    · exact (hcross hd' hd hjn (by omega) hi h.symm (h ▸ h0)).elim
    · obtain ⟨a, ha, rfl⟩ := hheap hd (by omega) hi h0
      obtain ⟨b, hb, rfl⟩ := hheap hd' (by omega) hj (h ▸ h0)
      obtain ⟨rfl, rfl⟩ := hS.own a ha b hb i j (by omega) hi (by omega) hj h h0
      exact ⟨rfl, Or.inr rfl⟩

theorem Inv.kernelTables_le {s : State} {L : List Nat} (hI : Inv s L) :
    kernelTables s.kernelMemmap ≤ tableSize := by
  have := hI.heap.length_le
  simp only [kernelTables, tableSize] at this ⊢
  omega

/-- **Two pages have the same entry** only if they are the same page, and then of the same
directory or of the kernel. -/
theorem Inv.slot_eq {s : State} {L : List Nat} (hI : Inv s L) {d d' : DirRef} (hd : d ∈ spaces L)
    (hd' : d' ∈ spaces L) {v w : Nat} (hv : v < 1048576) (hw : w < 1048576)
    (h0 : s.tableOf d v ≠ 0) (ht : s.tableOf d v = s.tableOf d' w) (hp : pageIdx v = pageIdx w) :
    v = w ∧ (v < s.kernelMemmap.length ∨ d = d') := by
  obtain ⟨hidx, hdir⟩ := hI.shape.tables_inj hd hd' (tableIdx_lt hv)
    (tableIdx_lt hw) ht h0
  refine ⟨page_eq_of_idx hidx hp, ?_⟩
  rwa [tableIdx_lt_kernelTables hI.heap.length_mod] at hdir

/-- A directory that is done being built has all tables of the kernel. -/
def Complete (s : State) (d : DirRef) : Prop :=
  ∀ i < kernelTables s.kernelMemmap, (s.dirs d).tables i = (s.dirs .kernel).tables i

theorem Complete.congr {s s' : State} {d : DirRef} (h : Complete s d)
    (hlen : s'.kernelMemmap.length = s.kernelMemmap.length) (hd : s'.dirs d = s.dirs d)
    (hk : s'.dirs .kernel = s.dirs .kernel) : Complete s' d := by
  intro i hi
  rw [kernelTables, hlen] at hi
  rw [hd, hk]
  exact h i hi

theorem Complete.tableOf {s : State} {L : List Nat} (hI : Inv s L) {d : DirRef} (hd : Complete s d)
    {v : Nat} (hv : v < s.kernelMemmap.length) : s.tableOf d v = s.tableOf .kernel v :=
  hd _ ((tableIdx_lt_kernelTables hI.heap.length_mod).mpr hv)

/-! ## One page -/

/-- `mmu_alloc_page` gives this entry a frame. -/
def takesFrame (flags : Nat) (p : Page) : Bool := hasFlag flags allocFrameAllocPhys && p.frame == 0

/-- The entry after `mmu_alloc_page`, if the free frame is `f`. -/
def allocatedPage (flags f : Nat) (p : Page) : Page :=
  let q := { p with
    rw := hasFlag flags allocFrameWriteable, user := !hasFlag flags allocFrameKernel }
  if takesFrame flags p then
    { q with present := true, accessed := false, dirty := false, frame := f }
  else q

def allocatedInfo (flags : Nat) (p : Page) (i : PageInfo) : PageInfo where
  commited := takesFrame flags p || i.commited
  cow := hasFlag flags allocFrameCow
  noshare := hasFlag flags allocFrameNoshare
  mmap := hasFlag flags allocFrameMmap

def State.nextFrame (s : State) : Nat := memmapFindFreePage s.physicalMemmap

/-- The effect of `mmu_alloc_page` on the entry `j` of the table at `t`. -/
structure MappedPage (s s' : State) (t j flags : Nat) : Prop where
  touches : Touches (Slot t j) s s'
  grow : FramesGrow s s'
  page : s'.page t j = allocatedPage flags s.nextFrame (s.page t j)
  info : s'.info t j = allocatedInfo flags (s.page t j) (s.info t j)
  used : ∀ g, s'.physicalMemmap.used g =
    ((takesFrame flags (s.page t j) && decide (g = s.nextFrame)) || s.physicalMemmap.used g)
  refs : takesFrame flags (s.page t j) = true →
    s'.frameRefs = Function.update s.frameRefs s.nextFrame (incr (s.frameRefs s.nextFrame))
  out : s'.outOfFrames =
    (s.outOfFrames || (takesFrame flags (s.page t j) && s.physicalMemmap.used s.nextFrame))

theorem mappedPage_setup {s : State} {t j flags : Nat}
    (h : takesFrame flags (s.page t j) = false) :
    MappedPage s (mmuSetupPage s t j flags) t j flags := by
  obtain ⟨_, hphys, hout, _⟩ := mmuSetupPage_frames s t j flags
  refine ⟨touches_mmuSetupPage .., framesGrow_mmuSetupPage .., ?_, ?_, ?_, ?_, ?_⟩
  · rw [page_mmuSetupPage, if_pos ⟨rfl, rfl⟩, allocatedPage, h]
    rfl
  · rw [info_mmuSetupPage, if_pos ⟨rfl, rfl⟩, allocatedInfo, h]
    rfl
  · intro g
    rw [hphys, h]
    rfl
  · intro h'
    rw [h] at h'
    cases h'
  · rw [hout, h]
    simp

theorem mappedPage_take {s s' : State} {t j flags f : Nat}
    (h : takesFrame flags (s.page t j) = true)
    (hf : TookFrame (mmuSetupPage s t j flags) s' t j f) : MappedPage s s' t j flags := by
  obtain ⟨hrefs, hphys, hout, _⟩ := mmuSetupPage_frames s t j flags
  have hfirst : f = s.nextFrame := by rw [hf.first, hphys, State.nextFrame]
  subst hfirst
  refine ⟨(touches_mmuSetupPage ..).trans hf.touches, (framesGrow_mmuSetupPage ..).trans hf.grow,
    ?_, ?_, ?_, ?_, ?_⟩
  · rw [hf.page, page_mmuSetupPage, if_pos ⟨rfl, rfl⟩, allocatedPage, h]
    rfl
  · rw [hf.info, info_mmuSetupPage, if_pos ⟨rfl, rfl⟩, allocatedInfo, h]
    rfl
  · intro g
    rw [hf.used, hphys, h]
    rfl
  · intro _
    rw [hf.refs, hrefs]
  · rw [hf.out, hout, hphys, h]
    rfl

theorem tableOf_mmuSetupPage (s : State) (t j flags : Nat) (d : DirRef) (v : Nat) :
    (mmuSetupPage s t j flags).tableOf d v = s.tableOf d v := by
  rw [State.tableOf, (mmuSetupPage_frames s t j flags).2.2.2, State.tableOf]

theorem frame_mmuSetupPage (s : State) (t j flags : Nat) :
    ((mmuSetupPage s t j flags).page t j).frame = (s.page t j).frame := by
  rw [page_mmuSetupPage, if_pos ⟨rfl, rfl⟩]

/-- **`mmu_alloc_page` on a page that has its table.** -/
theorem mmuAllocPage_of_table {A : TableAlloc} {s s' : State} {d : DirRef} {vaddr flags v t : Nat}
    {ok : Bool} {phys : Option Nat} (h : mmuAllocPage A s d vaddr flags = .ok (ok, phys, s'))
    (hv : vaddr / pageSize = v) (ht : s.tableOf d v = t) (ht0 : t ≠ 0) :
    ok = true ∧ MappedPage s s' t (pageIdx v) flags ∧
      (takesFrame flags (s.page t (pageIdx v)) = true → phys = some (s.nextFrame * pageSize)) := by
  simp only [mmuAllocPage, hv, ht, if_neg ht0, bind_eq_ok, pure_eq_ok] at h
  obtain ⟨_, rfl, h⟩ := h
  simp only [Bool.not_true, Bool.false_eq_true, if_false, ht] at h
  split at h
  · next hflag =>
      obtain ⟨⟨phys', s''⟩, hframe, h⟩ := bind_eq_ok.mp h
      rw [pure_eq_ok] at h
      cases h
      obtain ⟨_, ⟨hne, _, rfl⟩ | ⟨h0, htake⟩⟩ := mmuAllocFrame_cases hframe hv
        ((tableOf_mmuSetupPage ..).trans ht)
      · rw [frame_mmuSetupPage] at hne
        have hno : takesFrame flags (s.page t (pageIdx v)) = false := by
          simp [takesFrame, hne]
        exact ⟨rfl, mappedPage_setup hno, fun hyes => by simp [hno] at hyes⟩
      · rw [frame_mmuSetupPage] at h0
        have hyes : takesFrame flags (s.page t (pageIdx v)) = true := by
          simp [takesFrame, hflag, h0]
        obtain ⟨f, hf, hphys⟩ := tookFrame_mmuTakeFrame htake
        refine ⟨rfl, mappedPage_take hyes hf, fun _ => ?_⟩
        rw [hphys, hf.first, (mmuSetupPage_frames ..).2.1, State.nextFrame]
  · next hflag =>
      rw [pure_eq_ok] at h
      cases h
      have hno : takesFrame flags (s.page t (pageIdx v)) = false := by simp [takesFrame, hflag]
      exact ⟨rfl, mappedPage_setup hno, fun hyes => by simp [hno] at hyes⟩

theorem Inv.allocPage {A : TableAlloc} {s s' : State} {L : List Nat} {d : DirRef}
    {vaddr flags : Nat} {ok : Bool} {phys : Option Nat} (hI : Inv s L) (hd : d ∈ spaces L)
    (hv : vaddr / pageSize < 1048576) (ht : s.tableOf d (vaddr / pageSize) ≠ 0)
    (h : mmuAllocPage A s d vaddr flags = .ok (ok, phys, s')) : Inv s' L := by
  simp only [mmuAllocPage, if_neg ht, bind_eq_ok, pure_eq_ok] at h
  obtain ⟨_, rfl, h⟩ := h
  simp only [Bool.not_true, Bool.false_eq_true, if_false] at h
  have hsetup := hI.setupPage (s.tableOf d (vaddr / pageSize)) (pageIdx (vaddr / pageSize)) flags
  split at h
  · obtain ⟨⟨phys', s''⟩, hframe, h⟩ := bind_eq_ok.mp h
    rw [pure_eq_ok] at h
    cases h
    exact hsetup.allocFrame hd hv hframe
  · rw [pure_eq_ok] at h
    cases h
    exact hsetup

/-! ## A frame of its own -/

/-- Frame `f` was free, and one entry has it now. -/
structure FreshFrame (s s' : State) (f : Nat) : Prop where
  ne_zero : f ≠ 0
  free : s.physicalMemmap.used f = false
  used : s'.physicalMemmap.used f = true
  refs : s'.frameRefs f = 1

theorem FreshFrame.earlier {s s₁ s' : State} {f : Nat} (h : FreshFrame s₁ s' f)
    (hused : s.physicalMemmap.used f = true → s₁.physicalMemmap.used f = true) :
    FreshFrame s s' f :=
  ⟨h.ne_zero, false_of_imp hused h.free, h.used, h.refs⟩

theorem FreshFrame.mono {s₀ s₁ s₂ s₃ : State} {f : Nat} (h : FreshFrame s₁ s₂ f)
    (hbefore : FramesGrow s₀ s₁) (hafter : FramesGrow s₂ s₃) : FreshFrame s₀ s₃ f where
  ne_zero := h.ne_zero
  free := false_of_imp (hbefore.used f) h.free
  used := hafter.used f h.used
  refs := (hafter.refs f h.ne_zero h.used).trans h.refs

theorem Inv.refs_of_free {s : State} {L : List Nat} (hI : Inv s L) {f : Nat} (h0 : f ≠ 0)
    (hf : s.physicalMemmap.used f = false) : s.frameRefs f = 0 := by
  have hiff := hI.balanced.used_iff f h0
  rw [hf] at hiff
  simp only [Bool.false_eq_true, false_iff, Nat.not_lt, Nat.le_zero] at hiff
  exact hiff

theorem TookFrame.fresh {s s' : State} {L : List Nat} {t j f : Nat} (h : TookFrame s s' t j f)
    (hI : Inv s L) (ho : s'.outOfFrames = false) : FreshFrame s s' f := by
  have hne := h.ne_zero hI.zero_frame ho
  refine ⟨hne, h.free ho, by simp [h.used], ?_⟩
  rw [h.refs, Function.update_self, hI.refs_of_free hne (h.free ho)]
  rfl

theorem MappedPage.fresh {s s' : State} {L : List Nat} {t j flags : Nat}
    (h : MappedPage s s' t j flags) (hI : Inv s L) (htake : takesFrame flags (s.page t j) = true)
    (ho : s'.outOfFrames = false) : FreshFrame s s' s.nextFrame := by
  have hout := h.out
  rw [ho, htake] at hout
  simp only [Bool.true_and, Bool.false_eq, Bool.or_eq_false_iff] at hout
  have hfree := hout.2
  have hne : s.nextFrame ≠ 0 := by
    intro h0
    rw [h0, hI.zero_frame] at hfree
    cases hfree
  refine ⟨hne, hfree, ?_, ?_⟩
  · rw [h.used, htake]
    simp
  · rw [h.refs htake, Function.update_self, hI.refs_of_free hne hfree]
    rfl

end Hydrax
