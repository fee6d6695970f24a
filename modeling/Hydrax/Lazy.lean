import Hydrax.ForkSteps
import Hydrax.Mmu.Fault

/-!
# Lazy pages

`mmap` hands out pages without frames. The first access to such a page faults, and `page_fault` then
looks for the mapping and reads the file, provided that the record of the page has `mmap` set and
`commited` clear.

* `MappedEntry.faultable_iff`: `kalloc` leaves such a record only on pages that had no frame and a
  clear `commited` flag before. It never clears the flag, and neither does `kfree`, so
  `mmap_after_kfree_faults`. In which histories pages are like that is said in `Mmu.Recycled`.
* `fork_drops_lazy`: a page that is lazy when its process forks is not lazy in the child.
-/

namespace Hydrax

/-- A page of a mapping that nothing accessed yet. -/
def State.Lazy (s : State) (d : DirRef) (v : Nat) : Prop :=
  (s.record d v).mmap = true ∧ (s.entry d v).frame = 0

/-- The first access to the page enters the branch of `page_fault` for mapped files. -/
structure Faultable (s : State) (d : DirRef) (v : Nat) : Prop where
  frame : (s.entry d v).frame = 0
  present : (s.entry d v).present = false
  mmap : (s.record d v).mmap = true
  commited : (s.record d v).commited = false

/-! ## Allocating -/

theorem MappedEntry.lazy {s s' : State} {d : DirRef} {flags v : Nat}
    (h : MappedEntry s s' d (pageFlags flags) v) (hm : hasFlag flags kallocOptnMmap = true) :
    (s'.entry d v).frame = (s.entry d v).frame ∧ (s'.entry d v).present = (s.entry d v).present ∧
      (s'.record d v).mmap = true ∧ (s'.record d v).commited = (s.record d v).commited := by
  obtain ⟨f, hentry, hrecord, -⟩ := h
  have htakes : takesFrame (pageFlags flags) (s.entry d v) = false := by
    rw [takesFrame, pageFlags_allocPhys, hm]
    rfl
  rw [hentry, hrecord, allocatedPage, allocatedInfo, htakes, pageFlags_mmap, hm]
  exact ⟨rfl, rfl, rfl, Bool.false_or _⟩

/-- A page as a new page table has it, or as good. -/
structure Fresh (s : State) (d : DirRef) (v : Nat) : Prop where
  frame : (s.entry d v).frame = 0
  present : (s.entry d v).present = false
  commited : (s.record d v).commited = false

theorem MappedEntry.faultable_iff {s s' : State} {d : DirRef} {flags v : Nat}
    (h : MappedEntry s s' d (pageFlags flags) v) (hm : hasFlag flags kallocOptnMmap = true) :
    Faultable s' d v ↔ Fresh s d v := by
  obtain ⟨hframe, hpresent, hmmap, hcommited⟩ := h.lazy hm
  constructor
  · intro hF
    exact ⟨hframe ▸ hF.frame, hpresent ▸ hF.present, hcommited ▸ hF.commited⟩
  · intro hF
    exact ⟨hframe.trans hF.frame, hpresent.trans hF.present, hmmap, hcommited.trans hF.commited⟩

theorem pageFault_commited {s : State} {address : Nat} {write : Bool}
    (h0 : s.tableOf s.currentDirectory (address / pageSize) ≠ 0)
    (h : (s.record s.currentDirectory (address / pageSize)).commited = true) :
    pageFault s address write = .ok (.unhandled, s) := by
  rw [State.record_of_ne h0] at h
  rw [pageFault]
  dsimp only
  rw [if_neg h0, if_pos h]

theorem FirstProcess.used_and_freed {s₁ : State} {a N M : Nat} (hF : FirstProcess s₁ a N M) :
    ∃ p s₂ s₃, kalloc s₁ 4096 0x10000000 0 = .ok (0x10000000, p, s₂) ∧
      kfree s₂ 0x10000000 = .ok s₃ ∧ Process s₃ a [a] ∧ Room s₃ (N + 3) (M + 4) ∧
      s₃.kernelMemmap.length = s₁.kernelMemmap.length ∧
      (s₃.tasks s₃.currentTask).memmap.used 65536 = false ∧
      (s₃.record (.heap a) 65536).commited = true := by
  have hpages := hF.pages
  obtain ⟨p, s₂, halloc, hU, hroom₂⟩ := hF.kalloc_ok 0 none rfl
  have hP₂ := hU.process hF.process
  have hlen₂ : s₂.kernelMemmap.length = s₁.kernelMemmap.length := hU.alloc.length
  have huser : s₂.kernelMemmap.length ≤ 0x10000000 / pageSize := by
    rw [hlen₂, pageSize]
    omega
  -- the allocation sets the flag
  have hcommited : (s₂.record (.heap a) 65536).commited = true := by
    obtain ⟨f, -, hrecord, -⟩ := hU.mapped (v := 65536) rfl
    rw [hrecord, (hF.entry (v := 65536) (by omega) (by decide)).1]
    rfl
  have htable : s₂.tableOf (.heap a) 65536 ≠ 0 := by
    intro h0
    rw [(entry_of_no_table h0).2] at hcommited
    cases hcommited
  -- freeing does not touch it
  obtain ⟨m, htask, -, hused⟩ := hU.task_eq
  have hbuffers : (s₂.tasks s₂.currentTask).buffers = [kallocBuffer 0x10000000 1 0 none] := by
    rw [htask]
    show (s₁.tasks s₁.currentTask).buffers ++ s₁.newBuffers _ _ _ _ = _
    rw [hF.buffers, State.newBuffers, State.tracks, bne_iff_ne.mpr hF.heap]
    rfl
  have hvisited : ∀ v ∈ (kallocBuffer 0x10000000 1 0 none).visited, v = 65536 :=
    fun v hv => List.mem_singleton.mp hv
  obtain ⟨s₃, hfree⟩ := kfree_user_ok hP₂.inv (b := kallocBuffer 0x10000000 1 0 none) huser
    (by rw [hbuffers]; rfl) rfl (fun v hv => by rw [hvisited v hv, hP₂.current]; exact htable)
  obtain ⟨b, hfind, hfreed, hI₃⟩ := kfree_user hP₂.inv hP₂.space (hP₂.inv.find_user huser) hfree
  obtain rfl : kallocBuffer 0x10000000 1 0 none = b := by
    rw [hbuffers] at hfind
    exact Option.some.inj hfind
  obtain ⟨-, hmap₃, hdirs₃, -, -, l, ms, htask₃⟩ := hfreed.task_eq
  refine ⟨p, s₂, s₃, halloc, hfree,
    hfreed.process hI₃ hP₂ (fun v hv => by rw [hvisited v hv]; omega), hfreed.room hroom₂,
    by rw [hmap₃, hlen₂], ?_, ?_⟩
  · rw [htask₃]
    show (clearPages _ _).used 65536 = false
    rw [clearPages_used]
    rfl
  · have htab : s₃.tableOf (.heap a) 65536 = s₂.tableOf (.heap a) 65536 := by
      rw [State.tableOf, hdirs₃, State.tableOf]
    rw [State.record, htab, hfreed.info]
    exact hcommited

/-- **A mapping of freed pages cannot be faulted in.** The first read of it kills the process. -/
theorem mmap_after_kfree_faults : ∃ s₀ s₁ s₂ s₃ s₄ a p q, mmuInit Boot.small = .ok s₀ ∧
    kheapInit s₀ = .ok s₁ ∧ kalloc s₁ 4096 0x10000000 0 = .ok (0x10000000, p, s₂) ∧
    kfree s₂ 0x10000000 = .ok s₃ ∧
    kalloc s₃ 4096 0x10000000 kallocOptnMmap (some 1) = .ok (0x10000000, q, s₄) ∧
    s₁.currentDirectory = .heap a ∧ ¬ Faultable s₄ (.heap a) 65536 ∧
    pageFault s₄ 0x10000000 false = .ok (.unhandled, s₄) := by
  obtain ⟨a, s₀, s₁, N, M, hinit, hheap, hF⟩ := start_small
  have hleft := hF.pagesLeft
  have hframes := hF.framesLeft
  obtain ⟨p, s₂, s₃, halloc, hfree, hP₃, hroom₃, hlen₃, hbit, hcommited⟩ := hF.used_and_freed
  obtain ⟨q, s₄, halloc', hU, -⟩ := hP₃.kalloc_ok 4096 0x10000000 kallocOptnMmap
    (some 1) rfl rfl (by decide) (by decide) rfl (by decide)
    (fun p hp => by
      have hp' := inRange_eq_true.mp hp
      simp only [pageSize, show pageCount 4096 = 1 from rfl] at hp'
      rwa [show p = 65536 by omega]) hroom₃
    (by rw [show pageCount 4096 = 1 from rfl]; omega)
    (by rw [show pageCount 4096 = 1 from rfl]; omega)
  have hcommited' : (s₄.record (.heap a) 65536).commited = true := by
    rw [((hU.mapped (v := 65536) rfl).lazy rfl).2.2.2]
    exact hcommited
  refine ⟨s₀, s₁, s₂, s₃, s₄, a, p, q, hinit, hheap, halloc, hfree, halloc', hF.process.current,
    fun hf => ?_, ?_⟩
  · rw [hf.commited] at hcommited'
    cases hcommited'
  · have hcur := (hU.process hP₃).current
    apply pageFault_commited
    · rw [hcur]
      intro h0
      rw [(entry_of_no_table (v := 65536) h0).2] at hcommited'
      cases hcommited'
    · rw [hcur]
      exact hcommited'

/-! ## Forking -/

/-- What the child `c` needs to load page `v` as its parent would: a lazy entry, and a copy of each
mapping of the parent that covers the page. -/
structure InheritsLazy (s s' : State) (c v : Nat) : Prop where
  lazy : s'.Lazy (s'.tasks c).directory v
  commited : (s'.record (s'.tasks c).directory v).commited = false
  mapping : ∀ m ∈ (s.tasks s.currentTask).mmaps, coversAddr (s.mmapInfos m) (v * pageSize) = true →
    ∃ m' ∈ (s'.tasks c).mmaps, coversAddr (s'.mmapInfos m') (v * pageSize) = true ∧
      (s'.mmapInfos m').offset = (s.mmapInfos m).offset ∧
      (s'.mmapInfos m').len = (s.mmapInfos m).len

theorem DirectoryCloned.entry_of_no_frame {flags a phys v : Nat} {src : DirRef} {L : List Nat}
    {s s' : State} (h : DirectoryCloned flags src L s a phys s') (hI : Inv s L)
    (hsrc : src ∈ spaces L) (ha : a ≠ 0) (hv : v < 1048576) (hle : s.kernelMemmap.length ≤ v)
    (h0 : (s.entry src v).frame = 0) :
    s'.entry (.heap a) v = {} ∧ s'.record (.heap a) v = {} := by
  cases h with
  | full => exact absurd rfl ha
  | failed => exact absurd rfl ha
  | @made _ physmem s₁ _ _ alloc inv tables cloned inv' =>
    have huser : UserPage (s₁.newDir a) (List.range tableSize) v := by
      refine ⟨?_, hv, List.mem_range.mpr (tableIdx_lt hv)⟩
      show s₁.kernelMemmap.length ≤ v
      rw [alloc.alloc.length]
      exact hle
    have hframe : ((s₁.newDir a).entry src v).frame = 0 := by
      rw [(entry_newDir (alloc.ne_heap hI hsrc) v).1,
        (alloc.alloc.entry_eq hI hsrc hv (Or.inl hle)).1]
      exact h0
    cases cloned.cloned v huser with
    | skipped _ _ _ entry' record' => exact ⟨entry', record'⟩
    | shared h => exact absurd hframe h
    | copied h => exact absurd hframe h

theorem fork_child_entry {s s' : State} {a v : Nat} {L : List Nat} {ret : Int} (hP : Process s a L)
    (hv : v < 1048576) (hle : s.kernelMemmap.length ≤ v) (h0 : (s.entry (.heap a) v).frame = 0)
    (h : fork s = .ok (ret, s')) (hret : ret ≠ enomem) :
    s'.entry (s'.tasks s.nextTid).directory v = {} ∧
      s'.record (s'.tasks s.nextTid).directory v = {} := by
  cases fork_ends h with
  | noDirectory | noTask | noMemmap | noPages | noStack | noNode => exact absurd rfl hret
  | @child dir phys pagemap stack _ s₁ s₂ s₃ _ stacked node files task =>
    obtain ⟨s₀, hclone, hdir0, hlen, -, hsame⟩ := stacked.spaces hP.inv hP.space hP.full
    have hframe : (s.takeIds.entry s.currentDirectory v).frame = 0 := by
      rw [hP.current]
      exact h0
    have hempty := (mmuCloneDirectory_cases hP.inv.takeIds hP.space rfl hclone).entry_of_no_frame
      hP.inv.takeIds hP.space hdir0 hv hle hframe
    -- nothing after the clone touches the page
    obtain ⟨hbook, hdir⟩ := forkTask_state task
    have hafter : Bookkeeping s₁ s' := (bookkeeping_malloc node).trans
      (.trans ⟨_, _, _, _, _, _, rfl⟩ ((bookkeeping_cloneDescriptorTable files).trans hbook))
    have hspace : DirRef.heap dir ∈ spaces (dir :: L) := heap_mem_spaces.mpr (by simp)
    have hpage := hsame.2 _ hspace v hv (by omega)
    rw [hdir, (hafter.entry _ _).1, (hafter.entry _ _).2, hpage.1, hpage.2]
    exact hempty

/-- **The child has no lazy pages.** A page that its parent mapped but did not touch has an empty
entry in the child, so `page_fault` does not know it for a page of a mapping. -/
theorem fork_drops_lazy {s s' : State} {a v : Nat} {L : List Nat} {ret : Int} (hP : Process s a L)
    (hv : v < 1048576) (hle : s.kernelMemmap.length ≤ v) (hlazy : s.Lazy (.heap a) v)
    (h : fork s = .ok (ret, s')) (hret : ret ≠ enomem) : ¬ InheritsLazy s s' s.nextTid v := by
  intro hchild
  have hmmap := hchild.lazy.1
  rw [(fork_child_entry hP hv hle hlazy.2 h hret).2] at hmmap
  cases hmmap

/-- The mapping of the run below: one page of the file open as descriptor `3`. -/
def onePage : MmapInfo :=
  { addr := 0x10000000, len := 4096, prot := protWrite, flags := mapPrivate, offset := 0, fd := 3 }

theorem FirstProcess.maps_and_forks {s : State} {a N M : Nat} (hF : FirstProcess s a N M) :
    ∃ s₁ s₂, mmap (s.openFile 3 1) 0x10000000 4096 protWrite mapPrivate 3 0 = .ok (0x10000000, s₁) ∧
      Process s₁ a [a] ∧ s₁.kernelMemmap.length ≤ 65536 ∧ s₁.Lazy (.heap a) 65536 ∧
      fork s₁ = .ok (s₁.nextPid, s₂) := by
  have hF := hF.openFile 3 1
  generalize hs : s.openFile 3 1 = s₀ at hF
  have hfile : (s₀.tasks s₀.currentTask).files.any (fun f => f.fd == onePage.fd) = true := by
    rw [← hs, State.openFile_task]
    simp [onePage]
  have hpages := hF.pages
  have hleft := hF.pagesLeft
  have hframes := hF.framesLeft
  obtain ⟨s₁, s₂, hmmap, hU, hs₂, hP, hroom⟩ := hF.process.mmap_ok (m := onePage) (n := 1) rfl hfile
    hF.mallocOk rfl (by decide) (by decide) (by decide) (fun p hp => by
      have hp' := inRange_eq_true.mp hp
      simp only [show mmapStart onePage.addr / pageSize = 65536 from rfl] at hp'
      exact hF.userPages p (by omega)) hF.room (by omega) (by omega)
  have hlen : s₂.kernelMemmap.length = s₀.kernelMemmap.length := by
    rw [hs₂]
    exact hU.alloc.length
  have hlazy : s₂.Lazy (.heap a) 65536 := by
    rw [hs₂]
    obtain ⟨hframe, -, hmmap, -⟩ := (hU.mapped (v := 65536) rfl).lazy (mmapKflags_mmap _ _)
    refine ⟨hmmap, hframe.trans ?_⟩
    show (s₀.entry (.heap a) 65536).frame = 0
    rw [(hF.entry (v := 65536) (by omega) (by decide)).1]
  have hown : ownTables s₂ s₂.currentDirectory (List.range tableSize) ≤ 1 := by
    rw [hP.current, hs₂]
    exact hU.ownTables_le hF.process.complete hF.kernelOnly
  have hok : ∀ k, s₂.mallocOk k = true := by
    rw [hs₂]
    show ∀ k, s₁.mallocOk k = true
    rw [hU.mallocOk]
    exact hF.mallocOk
  obtain ⟨s₃, hfork⟩ := fork_ok hP.inv hP.space hP.full hroom hok hown (by omega) (by omega)
  exact ⟨s₂, s₃, hmmap, hP, by omega, hlazy, hfork⟩

/-- The rule at work on that run. -/
theorem fork_drops_lazy_first : ∃ s₀ s₁ s₂ s₃ a, mmuInit Boot.small = .ok s₀ ∧
    kheapInit s₀ = .ok s₁ ∧
    mmap (s₁.openFile 3 1) 0x10000000 4096 protWrite mapPrivate 3 0 = .ok (0x10000000, s₂) ∧
    s₂.Lazy (.heap a) 65536 ∧ fork s₂ = .ok (s₂.nextPid, s₃) ∧
    ¬ InheritsLazy s₂ s₃ s₂.nextTid 65536 := by
  obtain ⟨a, s₀, s₁, N, M, hinit, hheap, hF⟩ := start_small
  obtain ⟨s₂, s₃, hmmap, hP, hlen, hlazy, hfork⟩ := hF.maps_and_forks
  exact ⟨s₀, s₁, s₂, s₃, a, hinit, hheap, hmmap, hlazy, hfork,
    fork_drops_lazy hP (by decide) hlen hlazy hfork (by rw [enomem]; omega)⟩

/-- The record of the page in the child says that there is no mapping. -/
theorem fork_child_not_lazy : ∃ s₀ s₁ s₂ s₃ a, mmuInit Boot.small = .ok s₀ ∧
    kheapInit s₀ = .ok s₁ ∧
    mmap (s₁.openFile 3 1) 0x10000000 4096 protWrite mapPrivate 3 0 = .ok (0x10000000, s₂) ∧
    s₂.Lazy (.heap a) 65536 ∧ fork s₂ = .ok (s₂.nextPid, s₃) ∧
    (s₃.record (s₃.tasks s₂.nextTid).directory 65536).mmap = false := by
  obtain ⟨a, s₀, s₁, N, M, hinit, hheap, hF⟩ := start_small
  obtain ⟨s₂, s₃, hmmap, hP, hlen, hlazy, hfork⟩ := hF.maps_and_forks
  refine ⟨s₀, s₁, s₂, s₃, a, hinit, hheap, hmmap, hlazy, hfork, ?_⟩
  rw [(fork_child_entry hP (by decide) hlen hlazy.2 hfork (by rw [enomem]; omega)).2]

end Hydrax
