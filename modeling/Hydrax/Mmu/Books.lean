import Hydrax.RefCount
import Hydrax.Mmu.Kalloc

/-!
# The frames in use

The invariant that ties the reference counts of the frames to the page tables. The slots of the
reference count are the entries of all page tables that some directory has, each table once however
many directories share it, and the label of a slot is its `frame` field. Frame `0` is the label of
an entry that has no frame.

`L` is the list of the directories that are alive beside the kernel's.
-/

namespace Hydrax

open Function (update update_apply)

/-! ## What the setters change -/

namespace State

variable (s : State) (t j t' j' : Nat)

@[simp] theorem setTable_self (T : PageTable) : (s.setTable t T).tables t = T :=
  Function.update_self ..

theorem setTable_of_ne {t t' : Nat} (T : PageTable) (h : t' ≠ t) :
    (s.setTable t T).tables t' = s.tables t' :=
  Function.update_of_ne h ..

theorem page_setPage (p : Page) :
    (s.setPage t j p).page t' j' = if t' = t ∧ j' = j then p else s.page t' j' := by
  by_cases ht : t' = t
  · subst ht
    by_cases hj : j' = j
    · subst hj
      simp [page, setPage]
    · simp [page, setPage, hj]
  · simp [page, setPage, setTable_of_ne, ht]

theorem info_setInfo (i : PageInfo) :
    (s.setInfo t j i).info t' j' = if t' = t ∧ j' = j then i else s.info t' j' := by
  by_cases ht : t' = t
  · subst ht
    by_cases hj : j' = j
    · subst hj
      simp [info, setInfo]
    · simp [info, setInfo, hj]
  · simp [info, setInfo, setTable_of_ne, ht]

@[simp] theorem page_setInfo (i : PageInfo) : (s.setInfo t j i).page t' j' = s.page t' j' := by
  by_cases ht : t' = t
  · subst ht
    simp [page, setInfo]
  · simp [page, setInfo, setTable_of_ne, ht]

@[simp] theorem info_setPage (p : Page) : (s.setPage t j p).info t' j' = s.info t' j' := by
  by_cases ht : t' = t
  · subst ht
    simp [info, setPage]
  · simp [info, setPage, setTable_of_ne, ht]

theorem page_setTable {T : PageTable} (h : T.pages = (s.tables t).pages) :
    (s.setTable t T).page t' j' = s.page t' j' := by
  by_cases ht : t' = t
  · subst ht
    simp [page, h]
  · simp [page, setTable_of_ne, ht]

theorem info_setTable {T : PageTable} (h : T.pagesInfo = (s.tables t).pagesInfo) :
    (s.setTable t T).info t' j' = s.info t' j' := by
  by_cases ht : t' = t
  · subst ht
    simp [info, h]
  · simp [info, setTable_of_ne, ht]

@[simp] theorem refs_setPage (p : Page) :
    ((s.setPage t j p).tables t').refs = (s.tables t').refs := by
  by_cases ht : t' = t
  · subst ht
    simp [setPage]
  · simp [setPage, setTable_of_ne, ht]

@[simp] theorem refs_setInfo (i : PageInfo) :
    ((s.setInfo t j i).tables t').refs = (s.tables t').refs := by
  by_cases ht : t' = t
  · subst ht
    simp [setInfo]
  · simp [setInfo, setTable_of_ne, ht]

end State

/-! ## Slots -/

/-- All page directories, given those beside the kernel's. -/
def spaces (L : List Nat) : List DirRef := .kernel :: L.map .heap

theorem mem_spaces {L : List Nat} {d : DirRef} :
    d ∈ spaces L ↔ d = .kernel ∨ ∃ a ∈ L, d = .heap a := by
  simp [spaces, eq_comm]

theorem kernel_mem_spaces (L : List Nat) : DirRef.kernel ∈ spaces L := by simp [spaces]

theorem heap_mem_spaces {L : List Nat} {a : Nat} : .heap a ∈ spaces L ↔ a ∈ L := by
  simp [mem_spaces]

def liveTables (dirs : DirRef → PageDirectory) (L : List Nat) : Finset Nat :=
  (((spaces L).toFinset ×ˢ Finset.range tableSize).image
    (fun x => (dirs x.1).tables x.2)).erase 0

theorem mem_liveTables {dirs : DirRef → PageDirectory} {L : List Nat} {t : Nat} :
    t ∈ liveTables dirs L ↔
      t ≠ 0 ∧ ∃ d ∈ spaces L, ∃ i < tableSize, (dirs d).tables i = t := by
  simp only [liveTables, Finset.mem_erase, Finset.mem_image, Finset.mem_product,
    List.mem_toFinset, Finset.mem_range, Prod.exists]
  constructor
  · rintro ⟨h0, d, i, ⟨hd, hi⟩, rfl⟩
    exact ⟨h0, d, hd, i, hi, rfl⟩
  · rintro ⟨h0, d, hd, i, hi, rfl⟩
    exact ⟨h0, d, i, ⟨hd, hi⟩, rfl⟩

def slots (dirs : DirRef → PageDirectory) (L : List Nat) : Finset (Nat × Nat) :=
  liveTables dirs L ×ˢ Finset.range tableSize

theorem mem_slots {dirs : DirRef → PageDirectory} {L : List Nat} {t j : Nat} :
    (t, j) ∈ slots dirs L ↔ t ∈ liveTables dirs L ∧ j < tableSize := by
  simp [slots]

def frameAt (tables : Nat → PageTable) (x : Nat × Nat) : Nat := ((tables x.1).pages x.2).frame

theorem frameAt_setPage (s : State) (t j : Nat) (p : Page) :
    frameAt (s.setPage t j p).tables = update (frameAt s.tables) (t, j) p.frame := by
  funext x
  obtain ⟨t', j'⟩ := x
  have h := State.page_setPage s t j t' j' p
  simp only [State.page] at h
  simp only [frameAt, h, update_apply, Prod.mk.injEq]
  split <;> rfl

theorem frameAt_setTable (s : State) {t : Nat} {T : PageTable}
    (h : ∀ j, (T.pages j).frame = ((s.tables t).pages j).frame) :
    frameAt (s.setTable t T).tables = frameAt s.tables := by
  funext x
  obtain ⟨t', j'⟩ := x
  by_cases ht : t' = t
  · subst ht
    simpa [frameAt] using h j'
  · simp [frameAt, State.setTable_of_ne, ht]

@[simp] theorem frameAt_setInfo (s : State) (t j : Nat) (i : PageInfo) :
    frameAt (s.setInfo t j i).tables = frameAt s.tables :=
  frameAt_setTable s (fun _ => rfl)

/-- **The accounting of the frames**: the counter of a frame is the number of entries that map it,
and its bit is set exactly while there is one. -/
def Balanced (s : State) (L : List Nat) : Prop :=
  RefCount.Balanced (slots s.dirs L) (frameAt s.tables) s.frameRefs s.physicalMemmap.used 0

/-- There are fewer entries than a counter can count. -/
def FewSlots (s : State) (L : List Nat) : Prop := (slots s.dirs L).card + 1 < wordSize

theorem Balanced.incr_eq {s : State} {L : List Nat} (hB : Balanced s L) (hS : FewSlots s L) {f : Nat}
    (hf : f ≠ 0) : incr (s.frameRefs f) = s.frameRefs f + 1 := by
  apply incr_of_lt
  have := RefCount.Balanced.refs_le_card hB hf
  have := hS
  unfold FewSlots at this
  omega

/-! ## Taking a frame -/

theorem mmuTakeFrame_eq {s s' : State} {t j phys : Nat} (h : mmuTakeFrame s t j = .ok (phys, s')) :
    ∃ f map, f = memmapFindFreePage s.physicalMemmap ∧
      memmapSetPage s.physicalMemmap (f * pageSize) = .ok map ∧ phys = f * pageSize ∧
      s' = (({ s with
        physicalMemmap := map
        outOfFrames := s.outOfFrames || s.physicalMemmap.used f
        frameRefs := update s.frameRefs f (incr (s.frameRefs f)) }).setPage t j
          { s.page t j with present := true, accessed := false, dirty := false, frame := f }).setInfo
            t j { s.info t j with commited := true } := by
  simp only [mmuTakeFrame] at h
  split at h
  · cases h
  · simp only [Loop.bind_eq_ok, Loop.pure_eq_ok, Prod.mk.injEq] at h
    obtain ⟨map, hmap, hphys, hs'⟩ := h
    exact ⟨_, map, rfl, hmap, hphys.symm, hs'.symm⟩

theorem page_lt {addr : Nat} (h : addr < wordSize) : addr / pageSize < 1048576 := by
  simp only [wordSize, pageSize] at *
  omega

theorem mul_pageSize_div (f : Nat) : f * pageSize / pageSize = f := Nat.mul_div_cancel _ (by decide)

theorem Balanced.takeFrame {s s' : State} {L : List Nat} {t j phys : Nat} (hB : Balanced s L)
    (hS : FewSlots s L) (hx : (t, j) ∈ slots s.dirs L) (h0 : (s.page t j).frame = 0)
    (h : mmuTakeFrame s t j = .ok (phys, s')) : Balanced s' L := by
  obtain ⟨f, map, _, hmap, _, rfl⟩ := mmuTakeFrame_eq h
  obtain ⟨_, _, hused⟩ := memmapSetPage_spec hmap
  rw [mul_pageSize_div] at hused
  rw [Balanced, frameAt_setInfo, frameAt_setPage]
  apply RefCount.Balanced.take hB hx h0
  · intro k hk
    show update s.frameRefs f (incr (s.frameRefs f)) k = _
    rw [update_apply]
    split
    · next hkf => rw [← hkf, hB.incr_eq hS hk]
    · rfl
  · intro k _
    exact hused k

/-! ## Giving a frame back -/

theorem mmuFrameFree_of_ne {s : State} {t j : Nat} (h : (s.page t j).frame ≠ 0) :
    mmuFrameFree s t j = ({ s with
      frameRefs := update s.frameRefs (s.page t j).frame
        (decr (s.frameRefs (s.page t j).frame))
      physicalMemmap := if decr (s.frameRefs (s.page t j).frame) = 0 then
        memmapClearPage s.physicalMemmap ((s.page t j).frame * pageSize)
        else s.physicalMemmap } : State).setPage t j { s.page t j with
          frame := 0, present := false, accessed := false, dirty := false, rw := false
          user := false } := by
  simp only [mmuFrameFree, h, if_false]
  split <;> rfl

theorem mmuFrameFree_of_eq {s : State} {t j : Nat} (h : (s.page t j).frame = 0) :
    mmuFrameFree s t j = s := by
  simp only [mmuFrameFree, h, if_true]

theorem Balanced.frameFree {s : State} {L : List Nat} {t j : Nat} (hB : Balanced s L)
    (hx : (t, j) ∈ slots s.dirs L) : Balanced (mmuFrameFree s t j) L := by
  by_cases hf : (s.page t j).frame = 0
  · rw [mmuFrameFree_of_eq hf]
    exact hB
  · have hpos : 0 < s.frameRefs (s.page t j).frame := RefCount.Balanced.refs_pos hB hx hf
    rw [mmuFrameFree_of_ne hf, Balanced, frameAt_setPage]
    apply RefCount.Balanced.drop hB hx hf
    · intro k _
      show update s.frameRefs _ _ k = _
      rw [update_apply, decr_of_pos hpos]
      split
      · next hk => rw [hk]; exact (if_pos rfl).symm
      · next hk => exact (if_neg hk).symm
    · intro k _
      show Memmap.used (if _ then _ else _) k = (_ && !(decide (k = (s.page t j).frame) && _))
      rw [decr_of_pos hpos]
      by_cases h1 : s.frameRefs (s.page t j).frame = 1
      · rw [if_pos (by omega), memmapClearPage_used, mul_pageSize_div]
        by_cases hk : k = (s.page t j).frame
        · simp [hk, h1]
        · simp [hk]
      · rw [if_neg (by omega)]
        by_cases hk : k = (s.page t j).frame
        · simp [hk, h1]
        · simp [hk]

/-! ## Sharing a frame -/

theorem Balanced.shareFrame {s s' : State} {L : List Nat} {x y : Nat × Nat} (hB : Balanced s L)
    (hS : FewSlots s L) (hx : x ∈ slots s.dirs L) (hy : y ∈ slots s.dirs L)
    (h0 : frameAt s.tables x = 0) (hdirs : s'.dirs = s.dirs)
    (hframes : frameAt s'.tables = update (frameAt s.tables) x (frameAt s.tables y))
    (hrefs : s'.frameRefs = update s.frameRefs (frameAt s.tables y)
      (incr (s.frameRefs (frameAt s.tables y))))
    (hphys : s'.physicalMemmap = s.physicalMemmap) : Balanced s' L := by
  rw [Balanced, hdirs, hframes, hrefs, hphys]
  apply RefCount.Balanced.share hB hx h0
  · intro hf
    exact (hB.used_iff _ hf).mpr (RefCount.Balanced.refs_pos hB hy hf)
  · intro k hk
    rw [update_apply]
    split
    · next hkf => rw [← hkf, hB.incr_eq hS hk]
    · rfl

theorem Balanced.congr {s s' : State} {L : List Nat} (hB : Balanced s L) (hdirs : s'.dirs = s.dirs)
    (hframes : frameAt s'.tables = frameAt s.tables) (hrefs : s'.frameRefs = s.frameRefs)
    (hphys : s'.physicalMemmap = s.physicalMemmap) : Balanced s' L := by
  rw [Balanced, hdirs, hframes, hrefs, hphys]
  exact hB

end Hydrax
