import Hydrax.Mmu.KernelAlloc

/-!
# Giving memory back

`mmu_frame_free` on a list of entries, and `kfree`. The loop of `kfree` frees the frame of a page
and clears the page's bit in one turn; `kfreePages_iff` takes the two apart, into `freeSlots` on the
page tables and `clearPages` on the bitmap.

`kfree_kernel` says what freeing a kernel buffer does.
-/

namespace Hydrax

variable {L : List Nat} {f ptr v : Nat}

/-! ## Frames -/

/-- `mmu_frame_free` on each entry of a list. -/
def freeSlots (l : List (Nat × Nat)) (s : State) : State :=
  l.foldl (fun s x => mmuFrameFree s x.1 x.2) s

/-- An entry after `mmu_frame_free`: one that had no frame is left as it was. -/
def freedPage (p : Page) : Page := if p.frame = 0 then p else {}

theorem freedPage_frame (p : Page) : (freedPage p).frame = 0 := by
  rw [freedPage]
  split
  · assumption
  · rfl

theorem freedPage_freedPage (p : Page) : freedPage (freedPage p) = freedPage p := by
  rw [freedPage, if_pos (freedPage_frame p)]

theorem page_mmuFrameFree (s : State) (t j t' j' : Nat) :
    (mmuFrameFree s t j).page t' j' =
      if t' = t ∧ j' = j then freedPage (s.page t j) else s.page t' j' := by
  by_cases hf : (s.page t j).frame = 0
  · rw [mmuFrameFree_of_eq hf]
    split
    · next h => rw [h.1, h.2, freedPage, if_pos hf]
    · rfl
  · rw [mmuFrameFree_of_ne hf, State.page_setPage]
    split
    · rw [freedPage, if_neg hf]
    · rfl

theorem info_mmuFrameFree (s : State) (t j t' j' : Nat) :
    (mmuFrameFree s t j).info t' j' = s.info t' j' := by
  by_cases hf : (s.page t j).frame = 0
  · rw [mmuFrameFree_of_eq hf]
  · rw [mmuFrameFree_of_ne hf, State.info_setPage]
    rfl

structure FramesShrink (s s' : State) : Prop where
  used : ∀ f, s'.physicalMemmap.used f = true → s.physicalMemmap.used f = true
  out : s'.outOfFrames = s.outOfFrames
  zero : s'.frameRefs 0 = s.frameRefs 0

theorem FramesShrink.refl (s : State) : FramesShrink s s := ⟨fun _ h => h, rfl, rfl⟩

theorem FramesShrink.trans {s₁ s₂ s₃ : State} (h : FramesShrink s₁ s₂) (h' : FramesShrink s₂ s₃) :
    FramesShrink s₁ s₃ :=
  ⟨fun f hf => h.used f (h'.used f hf), h'.out.trans h.out, h'.zero.trans h.zero⟩

theorem FramesShrink.free {s s' : State} (h : FramesShrink s s')
    (hf : s.physicalMemmap.used f = false) : s'.physicalMemmap.used f = false :=
  false_of_imp (h.used f) hf

theorem touches_mmuFrameFree (s : State) (t j : Nat) :
    Touches (Slot t j) s (mmuFrameFree s t j) ∧ FramesShrink s (mmuFrameFree s t j) := by
  by_cases hf : (s.page t j).frame = 0
  · rw [mmuFrameFree_of_eq hf]
    exact ⟨.refl _ _, .refl _⟩
  · have hpage := page_mmuFrameFree s t j
    have hinfo := info_mmuFrameFree s t j
    rw [mmuFrameFree_of_ne hf] at hpage hinfo ⊢
    refine ⟨⟨⟨_, _, _, _, rfl⟩, ?_, fun t' j' _ => hinfo t' j', ?_, ?_, ?_⟩, ⟨?_, rfl,
      Function.update_of_ne (Ne.symm hf) ..⟩⟩
    · intro t' j' hne
      rw [hpage, if_neg hne]
    · intro t'
      by_cases ht : t' = t
      · subst ht
        simp [State.setPage]
      · simp [State.setPage, State.setTable_of_ne, ht]
    · show Memmap.length (if _ then _ else _) = _
      split <;> rfl
    · intro h0
      show Memmap.used (if _ then _ else _) 0 = true
      split
      · rw [memmapClearPage_used, mul_pageSize_div, h0]
        simpa using Ne.symm hf
      · exact h0
    · intro f hused
      have hused' : Memmap.used (if decr (s.frameRefs (s.page t j).frame) = 0 then
        memmapClearPage s.physicalMemmap ((s.page t j).frame * pageSize)
        else s.physicalMemmap) f = true := hused
      split at hused'
      · rw [memmapClearPage_used, Bool.and_eq_true] at hused'
        exact hused'.2
      · exact hused'

theorem touches_freeSlots (l : List (Nat × Nat)) (s : State) :
    Touches (fun t j => (t, j) ∈ l) s (freeSlots l s) ∧ FramesShrink s (freeSlots l s) := by
  induction l generalizing s with
  | nil => exact ⟨.refl _ _, .refl _⟩
  | cons x l ih =>
    obtain ⟨hfirst, hshrink⟩ := touches_mmuFrameFree s x.1 x.2
    obtain ⟨hrest, hshrink'⟩ := ih (mmuFrameFree s x.1 x.2)
    refine ⟨(hfirst.mono ?_).trans (hrest.mono ?_), hshrink.trans hshrink'⟩
    · rintro t j ⟨rfl, rfl⟩
      simp
    · intro t j h
      simp [h]

theorem freeSlots_eq (l : List (Nat × Nat)) (s : State) : ∃ T P R, freeSlots l s =
    { s with tables := T, physicalMemmap := P, frameRefs := R } := by
  obtain ⟨htouch, hshrink⟩ := touches_freeSlots l s
  have hout := hshrink.out
  obtain ⟨T, P, R, o, hs⟩ := htouch.step
  rw [hs] at hout ⊢
  cases hout
  exact ⟨T, P, R, rfl⟩

theorem info_freeSlots (l : List (Nat × Nat)) (s : State) (t j : Nat) :
    (freeSlots l s).info t j = s.info t j := by
  induction l generalizing s with
  | nil => rfl
  | cons x l ih => exact (ih _).trans (info_mmuFrameFree s x.1 x.2 t j)

/-- **Freeing a list of entries** empties those that had a frame. -/
theorem page_freeSlots (l : List (Nat × Nat)) (s : State) (t j : Nat) :
    (freeSlots l s).page t j = if (t, j) ∈ l then freedPage (s.page t j) else s.page t j := by
  induction l generalizing s with
  | nil => rfl
  | cons x l ih =>
    show (freeSlots l (mmuFrameFree s x.1 x.2)).page t j = _
    rw [ih, page_mmuFrameFree]
    by_cases hx : t = x.1 ∧ j = x.2
    · obtain ⟨rfl, rfl⟩ := hx
      simp only [and_self, if_true, freedPage_freedPage, ite_self, Prod.mk.eta, List.mem_cons,
        true_or]
    · have hne : (t, j) ≠ x := by
        rintro rfl
        exact hx ⟨rfl, rfl⟩
      simp only [hx, if_false, List.mem_cons, hne, false_or]

theorem frameRefs_mmuFrameFree {s : State} {t j : Nat} (h : (s.page t j).frame ≠ f) :
    (mmuFrameFree s t j).frameRefs f = s.frameRefs f := by
  by_cases h0 : (s.page t j).frame = 0
  · rw [mmuFrameFree_of_eq h0]
  · rw [mmuFrameFree_of_ne h0]
    exact Function.update_of_ne h.symm _ _

theorem frameRefs_freeSlots {l : List (Nat × Nat)} {s : State} (h0 : f ≠ 0)
    (h : ∀ x ∈ l, (s.page x.1 x.2).frame ≠ f) : (freeSlots l s).frameRefs f = s.frameRefs f := by
  induction l generalizing s with
  | nil => rfl
  | cons x l ih =>
    show (freeSlots l (mmuFrameFree s x.1 x.2)).frameRefs f = _
    rw [ih, frameRefs_mmuFrameFree (h x (by simp))]
    intro y hy
    rw [page_mmuFrameFree]
    split
    · rw [freedPage_frame]
      exact h0.symm
    · exact h y (by simp [hy])

theorem FrameStep.dirs {s s' : State} (h : FrameStep s s') : s'.dirs = s.dirs := by
  obtain ⟨_, _, _, _, rfl⟩ := h
  rfl

theorem Balanced.freeSlots {l : List (Nat × Nat)} {s : State} (hB : Balanced s L)
    (hl : ∀ x ∈ l, x ∈ slots s.dirs L) : Balanced (freeSlots l s) L := by
  induction l generalizing s with
  | nil => exact hB
  | cons x l ih =>
    apply ih (hB.frameFree (hl x (by simp)))
    intro y hy
    rw [(touches_mmuFrameFree s x.1 x.2).1.step.dirs]
    exact hl y (by simp [hy])

theorem Inv.freeSlots {l : List (Nat × Nat)} {s : State} (hI : Inv s L)
    (hl : ∀ x ∈ l, x ∈ slots s.dirs L) : Inv (freeSlots l s) L :=
  hI.touches (touches_freeSlots l s).1 (hI.balanced.freeSlots hl)

/-! ## Bits -/

/-- `memmap_clear_page` on each page of a list. -/
def clearPages (l : List Nat) (m : Memmap) : Memmap :=
  l.foldl (fun m v => memmapClearPage m (v * pageSize)) m

theorem clearPages_length (l : List Nat) (m : Memmap) : (clearPages l m).length = m.length := by
  induction l generalizing m with
  | nil => rfl
  | cons v l ih => exact ih _

theorem clearPages_used (l : List Nat) (m : Memmap) (p : Nat) :
    (clearPages l m).used p = (decide (p ∉ l) && m.used p) := by
  induction l generalizing m with
  | nil => simp [clearPages]
  | cons v l ih =>
    show (clearPages l (memmapClearPage m (v * pageSize))).used p = _
    rw [ih, memmapClearPage_used, mul_pageSize_div]
    by_cases hv : p = v <;> simp [hv]

/-! ## The loop of `kfree` -/

section SetMemmap

variable (s : State) (k : Bool) (m m' : Memmap)

theorem mmuFrameFree_setMemmapOf (t j : Nat) :
    mmuFrameFree (s.setMemmapOf k m) t j = (mmuFrameFree s t j).setMemmapOf k m := by
  have hpage : (s.setMemmapOf k m).page t j = s.page t j := by cases k <;> rfl
  by_cases hf : (s.page t j).frame = 0
  · rw [mmuFrameFree_of_eq hf, mmuFrameFree_of_eq (by rwa [hpage])]
  · rw [mmuFrameFree_of_ne hf, mmuFrameFree_of_ne (by rwa [hpage]), hpage]
    cases k <;> rfl

theorem freeSlots_setMemmapOf (l : List (Nat × Nat)) :
    freeSlots l (s.setMemmapOf k m) = (freeSlots l s).setMemmapOf k m := by
  induction l generalizing s with
  | nil => rfl
  | cons x l ih =>
    show freeSlots l (mmuFrameFree (s.setMemmapOf k m) x.1 x.2) = _
    rw [mmuFrameFree_setMemmapOf, ih]
    rfl

theorem setMemmapOf_setMemmapOf : (s.setMemmapOf k m).setMemmapOf k m' = s.setMemmapOf k m' := by
  cases k <;> simp [State.setMemmapOf, State.setTask]

theorem memmapOf_setMemmapOf : (s.setMemmapOf k m).memmapOf k = m := by
  cases k <;> simp [State.setMemmapOf, State.memmapOf, State.setTask]

theorem tableOf_setMemmapOf (d : DirRef) (v : Nat) :
    (s.setMemmapOf k m).tableOf d v = s.tableOf d v := by
  cases k <;> rfl

theorem dirOf_setMemmapOf : (s.setMemmapOf k m).dirOf k = s.dirOf k := by
  cases k <;> simp [State.setMemmapOf, State.dirOf, State.setTask, State.currentDirectory]

theorem setMemmapOf_memmapOf : s.setMemmapOf k (s.memmapOf k) = s := by
  cases k <;> simp [State.setMemmapOf, State.memmapOf, State.setTask]

end SetMemmap

theorem FrameStep.dirOf {s s' : State} (h : FrameStep s s') (k : Bool) :
    s'.dirOf k = s.dirOf k ∧ s'.memmapOf k = s.memmapOf k := by
  obtain ⟨_, _, _, _, rfl⟩ := h
  exact ⟨rfl, rfl⟩

/-- The entries of pages `l` of the directory that `kfree` works on. -/
def State.slotsOf (s : State) (k : Bool) (l : List Nat) : List (Nat × Nat) :=
  l.map (fun v => (s.tableOf (s.dirOf k) v, pageIdx v))

section Loop

variable {s s' : State} {k : Bool} {b : Buffer}

theorem kfreePage_iff {a : Nat} : kfreePage k s a = .ok s' ↔
    s.tableOf (s.dirOf k) (a / pageSize) ≠ 0 ∧
      s' = (mmuFrameFree s (s.tableOf (s.dirOf k) (a / pageSize)) (pageIdx (a / pageSize))).setMemmapOf
        k (memmapClearPage (s.memmapOf k) a) := by
  have hstep := (touches_mmuFrameFree s (s.tableOf (s.dirOf k) (a / pageSize))
    (pageIdx (a / pageSize))).1.step
  rw [kfreePage, mmuGetPage]
  by_cases h0 : s.tableOf (s.dirOf k) (a / pageSize) = 0
  · simp [h0]
  · simp [h0, (hstep.dirOf k).2, eq_comm]

theorem kfreePages_iff {as l : List Nat} (hl : as.map (fun a => a / pageSize) = l) :
    as.foldlM (kfreePage k) s = .ok s' ↔ (∀ v ∈ l, s.tableOf (s.dirOf k) v ≠ 0) ∧
      s' = (freeSlots (s.slotsOf k l) s).setMemmapOf k (clearPages l (s.memmapOf k)) := by
  subst hl
  induction as generalizing s with
  | nil =>
    show Except.ok s = .ok s' ↔ _ ∧ s' = s.setMemmapOf k (s.memmapOf k)
    simp [setMemmapOf_memmapOf, eq_comm]
  | cons a as ih =>
    have hstep := (touches_mmuFrameFree s (s.tableOf (s.dirOf k) (a / pageSize))
      (pageIdx (a / pageSize))).1.step
    have hclear : memmapClearPage (s.memmapOf k) a =
        memmapClearPage (s.memmapOf k) (a / pageSize * pageSize) := by
      simp only [memmapClearPage, mul_pageSize_div]
    simp only [List.foldlM_cons, Loop.bind_eq_ok, kfreePage_iff, and_assoc, exists_and_left,
      exists_eq_left, ih, State.slotsOf, tableOf_setMemmapOf, dirOf_setMemmapOf, hstep.tableOf,
      (hstep.dirOf k).1, memmapOf_setMemmapOf, freeSlots_setMemmapOf, setMemmapOf_setMemmapOf,
      List.map_cons, List.forall_mem_cons, hclear]
    rfl

/-- The pages that `kfree` visits for a buffer, whatever its length. -/
def Buffer.visited (b : Buffer) : List Nat := (kfreeAddrs b).map (fun a => a / pageSize)

theorem visited_lt (hv : v ∈ b.visited) : v < 1048576 := by
  simp only [Buffer.visited, kfreeAddrs, List.map_map, List.mem_map] at hv
  obtain ⟨i, -, rfl⟩ := hv
  exact page_lt (Nat.mod_lt _ (by decide))

def withoutMmap (mmaps : List Nat) : Option Nat → List Nat
  | none => mmaps
  | some m => mmaps.erase m

theorem unlinkMmap_iff {mmap : Option Nat} : unlinkMmap s mmap = .ok s' ↔
      (∀ m, mmap = some m → m ∈ (s.tasks s.currentTask).mmaps) ∧
        s' = s.setTask { s.tasks s.currentTask with
          mmaps := withoutMmap (s.tasks s.currentTask).mmaps mmap } := by
  cases mmap with
  | none =>
    simp [unlinkMmap, State.setTask, withoutMmap]
    exact eq_comm
  | some m =>
    rw [unlinkMmap]
    dsimp only
    split
    next hm => simp [withoutMmap, hm, eq_comm]
    next hm => simp [hm]

/-- The bitmaps and lists without the buffer `b`. -/
def State.dropBuffer (s : State) (k : Bool) (b : Buffer) : State :=
  let s := s.setTask { s.tasks s.currentTask with
    mmaps := withoutMmap (s.tasks s.currentTask).mmaps b.mmap }
  let s := s.setMemmapOf k (clearPages b.visited (s.memmapOf k))
  s.setBuffersOf k ((s.buffersOf k).eraseP (fun c => c.address == b.address))

theorem dropBuffer_user (s : State) (b : Buffer) : s.dropBuffer false b =
    s.setTask { s.tasks s.currentTask with
      memmap := clearPages b.visited (s.tasks s.currentTask).memmap
      buffers := (s.tasks s.currentTask).buffers.eraseP (fun c => c.address == b.address)
      mmaps := withoutMmap (s.tasks s.currentTask).mmaps b.mmap } := by
  simp [State.dropBuffer, State.setMemmapOf, State.setBuffersOf, State.buffersOf, State.setTask,
    State.memmapOf]

/-- **Giving a buffer back**, whatever the state. -/
theorem kfreeBuffer_iff : kfreeBuffer s k b = .ok s' ↔
    (∀ v ∈ b.visited, s.tableOf (s.dirOf k) v ≠ 0) ∧
      (∀ m, b.mmap = some m → m ∈ (s.tasks s.currentTask).mmaps) ∧
      s' = (freeSlots (s.slotsOf k b.visited) s).dropBuffer k b := by
  obtain ⟨_, _, _, hs⟩ := freeSlots_eq (s.slotsOf k b.visited) s
  simp only [kfreeBuffer, Loop.bind_eq_ok, Loop.pure_eq_ok, kfreePages_iff (l := b.visited) rfl,
    unlinkMmap_iff, and_assoc, exists_and_left, exists_eq_left, hs]
  cases k <;> simp [State.dropBuffer, State.setMemmapOf, State.setBuffersOf, State.buffersOf,
    State.setTask, State.memmapOf, eq_comm]

theorem slotsOf_mem (hd : s.dirOf k ∈ spaces L)
    (htab : ∀ v ∈ b.visited, s.tableOf (s.dirOf k) v ≠ 0) :
    ∀ x ∈ s.slotsOf k b.visited, x ∈ slots s.dirs L := by
  intro x hx
  obtain ⟨v, hv, rfl⟩ := List.mem_map.mp hx
  exact slot_mem hd (visited_lt hv) (htab v hv)

end Loop

/-! ## Freeing kernel memory -/

theorem covers_iff {b : Buffer} {p : Nat} :
    b.Covers p ↔ p ∈ pagesFrom (b.address / pageSize) b.pages := mem_pagesFrom.symm

theorem kfreeAddrs_pages {b : Buffer}
    (hfit : b.address / pageSize + b.pages ≤ 1048576) :
    (kfreeAddrs b).map (fun a => a / pageSize) = pagesFrom (b.address / pageSize) b.pages := by
  rw [kfreeAddrs, List.map_map, pagesFrom, List.range'_eq_map_range]
  apply List.map_congr_left
  intro i hi
  have hi' : i < b.pages := by simpa using hi
  simp only [Function.comp_apply, pageSize, wordSize] at hfit ⊢
  omega

/-- The kernel buffer `b` was given back. -/
structure KernelFreed (s s' : State) (b : Buffer) : Prop where
  step : ∃ T P R m l ms, s' = { s with
    tables := T, physicalMemmap := P, frameRefs := R, kernelMemmap := m, kernelBuffers := l
    tasks := Function.update s.tasks s.currentTask { s.tasks s.currentTask with mmaps := ms } } ∧
    (b.mmap = none → ms = (s.tasks s.currentTask).mmaps)
  length : s'.kernelMemmap.length = s.kernelMemmap.length
  used : ∀ p, s'.kernelMemmap.used p = (decide (¬ b.Covers p) && s.kernelMemmap.used p)
  freed : ∀ v, b.Covers v → s'.page (s.tableOf .kernel v) (pageIdx v) =
    freedPage (s.page (s.tableOf .kernel v) (pageIdx v))
  page : ∀ t j, (∀ v, b.Covers v → ¬ Slot (s.tableOf .kernel v) (pageIdx v) t j) →
    s'.page t j = s.page t j
  info : ∀ t j, s'.info t j = s.info t j
  refs : ∀ t, (s'.tables t).refs = (s.tables t).refs
  shrink : FramesShrink s s'
  frameRefs : ∀ f, f ≠ 0 → (∀ v, b.Covers v → (s.page (s.tableOf .kernel v) (pageIdx v)).frame ≠ f) →
    s'.frameRefs f = s.frameRefs f
  buffers : s'.kernelBuffers = s.kernelBuffers.eraseP (fun c => c.address == b.address)

theorem KernelFreed.dirs {s s' : State} {b : Buffer} (h : KernelFreed s s' b) : s'.dirs = s.dirs := by
  obtain ⟨_, _, _, _, _, _, rfl, _⟩ := h.step
  rfl

theorem KernelFreed.tableOf {s s' : State} {b : Buffer} (h : KernelFreed s s' b) (d : DirRef)
    (v : Nat) : s'.tableOf d v = s.tableOf d v := by
  rw [State.tableOf, h.dirs, State.tableOf]

theorem KernelFreed.entry_freed {s s' : State} {b : Buffer} (h : KernelFreed s s' b)
    (hcov : b.Covers v) : s'.entry .kernel v = freedPage (s.entry .kernel v) := by
  by_cases h0 : s.tableOf .kernel v = 0
  · rw [State.entry, h.tableOf, if_pos h0, State.entry, if_pos h0]
    rfl
  · rw [State.entry_of_ne h0, State.entry_of_ne (by rw [h.tableOf]; exact h0), h.tableOf,
      h.freed v hcov]

theorem KernelFreed.entry_kept {s s' : State} {b : Buffer} (h : KernelFreed s s' b)
    (hI : Inv s L) (hfit : b.address / pageSize + b.pages ≤ s.kernelMemmap.length) {d : DirRef}
    (hd : d ∈ spaces L) (hv : v < 1048576) (hnot : ¬ b.Covers v) :
    s'.entry d v = s.entry d v ∧ s'.record d v = s.record d v := by
  refine entry_congr (h.tableOf d v) (fun h0 => ⟨h.page _ _ ?_, h.info _ _⟩)
  rintro w hcov ⟨ht, hj⟩
  have hw : w < s.kernelMemmap.length := by
    have := hcov.2
    omega
  obtain ⟨rfl, -⟩ := hI.slot_eq hd (kernel_mem_spaces L) hv (hI.kernel_lt hw) h0 ht hj
  exact hnot hcov

theorem KernelFreed.frameRefs_own {s s' : State} {b : Buffer}
    (h : KernelFreed s s' b) (hI : Inv s L) (hB : Balanced s' L)
    (hv : v < s.kernelMemmap.length) (hcov : b.Covers v) (h0 : (s.entry .kernel v).frame ≠ 0)
    (h1 : s.frameRefs (s.entry .kernel v).frame = 1) :
    s'.frameRefs (s.entry .kernel v).frame = 0 := by
  have hne := hI.kernel_table hv
  rw [State.entry_of_ne hne] at h0 h1 ⊢
  rw [hB.refs_eq _ h0]
  by_contra hpos
  obtain ⟨⟨t, j⟩, hx, hxf⟩ := RefCount.count_pos_iff.mp (Nat.pos_of_ne_zero hpos)
  by_cases hslot : ∃ w, b.Covers w ∧ Slot (s.tableOf .kernel w) (pageIdx w) t j
  · obtain ⟨w, hw, rfl, rfl⟩ := hslot
    refine h0 (hxf.symm.trans ?_)
    show (s'.page _ _).frame = 0
    rw [h.freed w hw, freedPage_frame]
  · have hkept := h.page t j (fun w hw hs => hslot ⟨w, hw, hs⟩)
    rw [h.dirs] at hx
    have heq := hI.balanced.unique (slot_mem (kernel_mem_spaces L) (hI.kernel_lt hv) hne) hx h0 h1
      ((congrArg Page.frame hkept).symm.trans hxf)
    rw [Prod.mk.injEq] at heq
    exact hslot ⟨v, hcov, heq⟩

theorem Inv.buffer_fits {s : State} (hI : Inv s L) {b : Buffer}
    (hb : b ∈ s.kernelBuffers) : b.address / pageSize + b.pages ≤ s.kernelMemmap.length := by
  have hpos := hI.heap.pages_pos b hb
  have hlast := hI.heap.covered b hb (b.address / pageSize + (b.pages - 1))
    ⟨Nat.le_add_right _ _, by omega⟩
  omega

theorem kfree_kernel {s s' : State} {b : Buffer} (hI : Inv s L)
    (hfind : s.kernelBuffers.find? (fun c => c.address == ptr) = some b)
    (h : kfree s ptr = .ok s') :
    KernelFreed s s' b ∧ Balanced s' L ∧ s'.physicalMemmap.used 0 = true ∧
      s'.physicalMemmap.length = 65536 := by
  rw [kfree, hfind] at h
  obtain ⟨htab, -, rfl⟩ := kfreeBuffer_iff.mp h
  have hfits := hI.buffer_fits (List.mem_of_find?_eq_some hfind)
  have hlen := hI.heap.length_le
  simp only [tableSize] at hlen
  have hcovers : ∀ {p}, b.Covers p ↔ p ∈ b.visited := by
    intro p
    rw [covers_iff, Buffer.visited, kfreeAddrs_pages (by omega)]
  have htouches := touches_freeSlots (s.slotsOf true b.visited) s
  have hpage := page_freeSlots (s.slotsOf true b.visited) s
  have hinfo := info_freeSlots (s.slotsOf true b.visited) s
  have hrefs : ∀ f, f ≠ 0 →
      (∀ v, b.Covers v → (s.page (s.tableOf .kernel v) (pageIdx v)).frame ≠ f) →
      (freeSlots (s.slotsOf true b.visited) s).frameRefs f = s.frameRefs f := by
    intro f h0 hP
    refine frameRefs_freeSlots h0 (fun x hx => ?_)
    obtain ⟨v, hv, rfl⟩ := List.mem_map.mp hx
    exact hP v (hcovers.mpr hv)
  have hI' := hI.freeSlots (slotsOf_mem (k := true) (kernel_mem_spaces L) htab)
  obtain ⟨T, P, R, hs⟩ := freeSlots_eq (s.slotsOf true b.visited) s
  rw [hs] at htouches hpage hinfo hrefs hI' ⊢
  obtain ⟨htouch, hshrink⟩ := htouches
  refine ⟨⟨⟨T, P, R, _, _, _, rfl, fun hb => by rw [hb]; rfl⟩, clearPages_length _ _, fun p => ?_,
    fun v hv => ?_, fun t j hP => ?_, hinfo, htouch.refs, ⟨hshrink.used, hshrink.out, hshrink.zero⟩,
    hrefs, rfl⟩, hI'.balanced, hI'.zero_frame, hI'.frames⟩
  · refine (clearPages_used _ _ p).trans ?_
    simp only [hcovers]
    rfl
  · have hmem : (s.tableOf .kernel v, pageIdx v) ∈ s.slotsOf true b.visited :=
      List.mem_map.mpr ⟨v, hcovers.mp hv, rfl⟩
    exact (hpage _ _).trans (if_pos hmem)
  · refine (hpage t j).trans (if_neg fun hx => ?_)
    obtain ⟨v, hv, hslot⟩ := List.mem_map.mp hx
    cases hslot
    exact hP v (hcovers.mpr hv) ⟨rfl, rfl⟩

theorem find_address {l : List Buffer} {b : Buffer}
    (h : l.find? (fun c => c.address == ptr) = some b) :
    b.address = ptr ∧ ∃ as bs, l = as ++ b :: bs ∧
      l.eraseP (fun c => c.address == ptr) = as ++ bs := by
  obtain ⟨hb, as, bs, hl, has⟩ := List.find?_eq_some_iff_append.mp h
  refine ⟨by simpa using hb, as, bs, hl, ?_⟩
  rw [hl, List.eraseP_append_right _ (fun c hc => by simpa using has c hc), List.eraseP_cons, hb]
  rfl

theorem KernelFreed.inv {s s' : State} {b : Buffer} (h : KernelFreed s s' b) (hI : Inv s L)
    (hfind : s.kernelBuffers.find? (fun c => c.address == ptr) = some b)
    (hB : Balanced s' L) (hzero : s'.physicalMemmap.used 0 = true)
    (hframes : s'.physicalMemmap.length = 65536)
    (htables : ptr ∉ liveTables s.dirs L) (hdirs : ptr ∉ L) : Inv s' L := by
  obtain ⟨hptr, as, bs, hl, herase⟩ := find_address hfind
  have hbuffers : s'.kernelBuffers = as ++ bs := by rw [h.buffers, hptr, herase]
  have hmem : ∀ {c}, c ∈ as ++ bs → c ∈ s.kernelBuffers := by
    intro c hc
    rw [hl]
    rcases List.mem_append.mp hc with hc | hc
    · exact List.mem_append_left _ hc
    · exact List.mem_append_right _ (List.mem_cons_of_mem _ hc)
  -- the other buffers are disjoint from the one that goes
  have hdisj := hI.heap.disjoint
  rw [hl, List.pairwise_append, List.pairwise_cons] at hdisj
  obtain ⟨has, ⟨hbbs, hbs⟩, hcross⟩ := hdisj
  have hother : ∀ {c}, c ∈ as ++ bs → ∀ p, c.Covers p → ¬ b.Covers p := by
    intro c hc p hp hbp
    rcases List.mem_append.mp hc with hc | hc
    · exact hcross c hc b (by simp) p hp hbp
    · exact hbbs c hc p hbp hp
  have hkeep : ∀ {p}, s.kernelMemmap.used p = true → ¬ b.Covers p →
      s'.kernelMemmap.used p = true := by
    intro p hp hb
    rw [h.used]
    simp [hp, hb]
  have howned : ∀ {a}, Owned s.kernelMemmap s.kernelBuffers a → a ≠ ptr →
      Owned s'.kernelMemmap s'.kernelBuffers a := by
    intro a ho hne
    have hnot : ¬ b.Covers (a / pageSize) := by
      intro hb
      exact hne ((ho.buffer b (by rw [hl]; simp) hb).symm.trans hptr)
    refine ⟨ho.aligned, by rw [h.length]; exact ho.lt, hkeep ho.used hnot, ?_⟩
    rw [hbuffers]
    exact fun c hc => ho.buffer c (hmem hc)
  have hkt : kernelTables s'.kernelMemmap = kernelTables s.kernelMemmap := by
    rw [kernelTables, h.length, kernelTables]
  refine ⟨⟨?_, ?_, ?_, ?_, ?_, ?_, ?_, ?_, ?_⟩, ?_, ?_, ?_, ?_, ?_, ?_, hframes, hzero,
    hB⟩
  · rw [h.length]; exact hI.heap.length_mod
  · rw [h.length]; exact hI.heap.length_pos
  · rw [h.length]; exact hI.heap.length_le
  · exact hkeep hI.heap.zero_used (hI.heap.zero_kept b (by rw [hl]; simp))
  · rw [hbuffers]; exact fun c hc => hI.heap.zero_kept c (hmem hc)
  · rw [hbuffers]; exact fun c hc => hI.heap.aligned c (hmem hc)
  · rw [hbuffers]; exact fun c hc => hI.heap.pages_pos c (hmem hc)
  · rw [hbuffers]
    intro c hc p hp
    obtain ⟨hlt, hused⟩ := hI.heap.covered c (hmem hc) p hp
    exact ⟨by rwa [h.length], hkeep hused (hother hc p hp)⟩
  · rw [hbuffers]
    exact List.pairwise_append.mpr
      ⟨has, hbs, fun c hc c' hc' => hcross c hc c' (List.mem_cons_of_mem _ hc')⟩
  · rw [hkt, h.dirs]; exact hI.shape
  · rw [h.dirs]
    exact fun t ht => howned (hI.tables_owned t ht) (fun heq => htables (heq ▸ ht))
  · exact fun a ha => howned (hI.dirs_owned a ha) (fun heq => hdirs (heq ▸ ha))
  · rw [h.dirs]; exact hI.dirs_apart
  · rw [hkt, h.dirs]
    intro a ha i hi hi'
    rw [h.refs]
    exact hI.refs_own a ha i hi hi'
  · intro t
    rw [h.refs]
    exact hI.refs_lt t

/-! ## Freeing user memory -/

/-- The buffer `b` of the current task was given back. -/
structure UserFreed (s s' : State) (b : Buffer) : Prop where
  step : ∃ T P R l ms, s' = { s with
    tables := T, physicalMemmap := P, frameRefs := R
    tasks := Function.update s.tasks s.currentTask { s.tasks s.currentTask with
      memmap := clearPages b.visited (s.tasks s.currentTask).memmap, buffers := l, mmaps := ms } }
  mapped : ∀ v ∈ b.visited, s.tableOf s.currentDirectory v ≠ 0
  page : ∀ t j, s'.page t j =
    if (t, j) ∈ s.slotsOf false b.visited then freedPage (s.page t j) else s.page t j
  info : ∀ t j, s'.info t j = s.info t j
  refs : ∀ t, (s'.tables t).refs = (s.tables t).refs
  shrink : FramesShrink s s'

theorem Inv.setTasks {s : State} (hI : Inv s L) (tasks : Nat → Task) :
    Inv { s with tasks := tasks } L :=
  hI.congr rfl

theorem kfree_user {s s' : State} (hI : Inv s L) (hcur : s.currentDirectory ∈ spaces L)
    (hkernel : s.kernelBuffers.find? (fun c => c.address == ptr) = none)
    (h : kfree s ptr = .ok s') :
    ∃ b, (s.tasks s.currentTask).buffers.find? (fun c => c.address == ptr) = some b ∧
      UserFreed s s' b ∧ Inv s' L := by
  simp only [kfree, hkernel] at h
  split at h
  next b hfind =>
    obtain ⟨htab, -, rfl⟩ := kfreeBuffer_iff.mp h
    have hI' := hI.freeSlots (slotsOf_mem (k := false) hcur htab)
    obtain ⟨htouch, hshrink⟩ := touches_freeSlots (s.slotsOf false b.visited) s
    refine ⟨b, hfind, ⟨?_, htab, page_freeSlots _ s, info_freeSlots _ s, htouch.refs,
      ⟨hshrink.used, hshrink.out, hshrink.zero⟩⟩, hI'.setTasks _⟩
    obtain ⟨T, P, R, hs⟩ := freeSlots_eq (s.slotsOf false b.visited) s
    rw [hs]
    exact ⟨T, P, R, _, _, dropBuffer_user ..⟩
  · cases h

/-- **`kfree` keeps the invariant**, if what it is given is not a live directory or page table. -/
theorem Inv.kfree {s s' : State} (hI : Inv s L)
    (hcur : s.currentDirectory ∈ spaces L) (htables : ptr ∉ liveTables s.dirs L) (hdirs : ptr ∉ L)
    (h : kfree s ptr = .ok s') : Inv s' L := by
  cases hfind : s.kernelBuffers.find? (fun c => c.address == ptr) with
  | none =>
    obtain ⟨_, _, _, hI'⟩ := kfree_user hI hcur hfind h
    exact hI'
  | some b =>
    obtain ⟨hfreed, hB, hzero, hframes⟩ := kfree_kernel hI hfind h
    exact hfreed.inv hI hfind hB hzero hframes htables hdirs

end Hydrax
