import Hydrax.Mmu.Accounting
import Hydrax.Mmu.Cr3

/-!
# Cloning and destroying an address space

A directory is cloned copy-on-write, both spaces are written to, and the clone is destroyed. The
kernel should then have the memory it had before. It has, if the directory has only the kernel's
tables. A table that is cloned starts with the counter `0`, which `mmu_destroy_directory` takes to
`2 ^ 32 - 1`: the table is never freed.

* `Restored` — what the cycle should leave behind,
* `clone_destroy_restores_iff` — when it does,
* `cycles_restore` — and then any number of cycles does.
-/

namespace Hydrax

variable {s s' s₀ s₁ s₂ s₃ : State} {a flags p phys : Nat} {L : List Nat} {src : DirRef}
  {physmem : Option Nat}

/-! ## Between the clone and its end -/

/-- A write to a page that has a frame, or something elsewhere. -/
def MmuEvent.CowWrite (m : Manager) : MmuEvent → Prop
  | .call (.pageFault address write) => write = true ∧ address < wordSize ∧
      (m.state.entry m.state.currentDirectory (address / pageSize)).frame ≠ 0
  | .elsewhere s => s.currentDirectory ∈ spaces m.dirs
  | _ => False

/-- Directories, counters of tables and the kernel's books are as they were. -/
structure BooksKept (s s' : State) : Prop where
  dirs : s'.dirs = s.dirs
  refs : ∀ t, (s'.tables t).refs = (s.tables t).refs
  memmap : s'.kernelMemmap = s.kernelMemmap
  buffers : s'.kernelBuffers = s.kernelBuffers

theorem BooksKept.refl (s : State) : BooksKept s s := ⟨rfl, fun _ => rfl, rfl, rfl⟩

theorem BooksKept.trans (h : BooksKept s₁ s₂) (h' : BooksKept s₂ s₃) : BooksKept s₁ s₃ where
  dirs := h'.dirs.trans h.dirs
  refs t := (h'.refs t).trans (h.refs t)
  memmap := h'.memmap.trans h.memmap
  buffers := h'.buffers.trans h.buffers

theorem Committed.booksKept {t j : Nat} (h : Committed s t j s') : BooksKept s s' := by
  have hrefs := h.refs
  obtain ⟨_, _, _, _, _, rfl⟩ := h.step
  exact ⟨rfl, hrefs, rfl, rfl⟩

theorem pageFault_cow {address : Nat} {r : FaultResult}
    (h0 : (s.entry s.currentDirectory (address / pageSize)).frame ≠ 0)
    (h : pageFault s address true = .ok (r, s')) :
    s.tableOf s.currentDirectory (address / pageSize) ≠ 0 ∧ (s' = s ∨
      Committed s (s.tableOf s.currentDirectory (address / pageSize))
        (pageIdx (address / pageSize)) s') := by
  obtain ⟨ht, hfaulted⟩ := pageFault_cases rfl rfl h
  have hstay : ∀ {ok : Bool} {s₁ : State}, PageLoaded s
      (s.tableOf s.currentDirectory (address / pageSize)) (pageIdx (address / pageSize)) address ok
      s₁ → s₁ = s := by
    intro ok s₁ hload
    cases hload with
    | file hfile _ => exact absurd hfile.frame h0
    | other _ => rfl
  refine ⟨ht, ?_⟩
  cases hfaulted with
  | commited _ => exact Or.inl rfl
  | unhandled load => exact Or.inl (hstay load)
  | read hw _ => cases hw
  | write _ load commit =>
    obtain rfl := hstay load
    exact Or.inr (faultCommit_cases rfl rfl rfl commit)

theorem cowWrite_step {m m' : Manager} {e : MmuEvent} (hm : Booked m) (he : e.CowWrite m)
    (h : m.Step e m') : Booked m' ∧ m'.dirs = m.dirs ∧ BooksKept m.state m'.state := by
  cases h with
  | @pageFault address write r s' hfault =>
    obtain ⟨rfl, haddr, h0⟩ := he
    have hv := page_lt haddr
    obtain ⟨ht, rfl | hcommit⟩ := pageFault_cow h0 hfault
    · exact ⟨hm, rfl, .refl _⟩
    · have hI := hcommit.inv hm.inv (slot_mem hm.current hv ht)
      have hkept := hcommit.booksKept
      refine ⟨?_, rfl, hkept⟩
      obtain ⟨_, _, _, _, _, rfl⟩ := hcommit.step
      exact hm.of_dirs hI rfl rfl rfl
  | elsewhere helse =>
    refine ⟨hm.elsewhere he helse, rfl, ?_⟩
    obtain ⟨t, n, ⟨_, _, _, _, _, _, _, _, _, _, _, rfl⟩, rfl⟩ := helse
    exact ⟨rfl, fun _ => rfl, rfl, rfl⟩
  | _ => exact he.elim

abbrev CowWrites (m m' : Manager) : Prop := Reach Manager.Step (fun m e => e.CowWrite m) m m'

theorem CowWrites.kept {m m' : Manager} (hm : Booked m) (h : CowWrites m m') :
    Booked m' ∧ m'.dirs = m.dirs ∧ BooksKept m.state m'.state := by
  induction h with
  | start => exact ⟨hm, rfl, .refl _⟩
  | step _ he hstep ih =>
    obtain ⟨hm₁, hdirs₁, hkept₁⟩ := ih
    obtain ⟨hm₂, hdirs₂, hkept₂⟩ := cowWrite_step hm₁ he hstep
    exact ⟨hm₂, hdirs₂.trans hdirs₁, hkept₁.trans hkept₂⟩

/-! ## What a clone takes -/

/-- What was added lies in kernel pages that were free. -/
structure NewBlocks (a : Nat) (s s' : State) : Prop where
  length : s'.kernelMemmap.length = s.kernelMemmap.length
  used : ∀ p, s.kernelMemmap.used p = true → s'.kernelMemmap.used p = true
  buffers : ∀ c ∈ s'.kernelBuffers,
    c ∈ s.kernelBuffers ∨ s.kernelMemmap.used (c.address / pageSize) = false
  tables : ∀ k, (s'.dirs (.heap a)).tables k = (s.dirs (.heap a)).tables k ∨
    k < kernelTables s.kernelMemmap ∨
    s.kernelMemmap.used ((s'.dirs (.heap a)).tables k / pageSize) = false

theorem NewBlocks.refl (a : Nat) (s : State) : NewBlocks a s s :=
  ⟨rfl, fun _ h => h, fun _ h => Or.inl h, fun _ => Or.inl rfl⟩

theorem NewBlocks.free (h : NewBlocks a s s')
    (hp : s'.kernelMemmap.used p = false) : s.kernelMemmap.used p = false :=
  false_of_imp (h.used p) hp

theorem NewBlocks.trans (h : NewBlocks a s₁ s₂) (h' : NewBlocks a s₂ s₃) : NewBlocks a s₁ s₃ where
  length := h'.length.trans h.length
  used p hp := h'.used p (h.used p hp)
  buffers c hc := by
    rcases h'.buffers c hc with hc | hfree
    · exact h.buffers c hc
    · exact Or.inr (h.free hfree)
  tables k := by
    rcases h'.tables k with heq | hlt | hfree
    · rw [heq]
      exact h.tables k
    · rw [kernelTables, h.length] at hlt
      exact Or.inr (Or.inl hlt)
    · exact Or.inr (Or.inr (h.free hfree))

theorem KernelAllocated.new_buffer {r n : Nat}
    {mmap phys : Option Nat} (h : KernelAllocated s s' L r n flags mmap phys) {c : Buffer}
    (hc : c ∈ s'.kernelBuffers) :
    c ∈ s.kernelBuffers ∨ c.address = r ∧ s.tracks flags = true := by
  rw [h.buffers, List.mem_append] at hc
  refine hc.imp_right (fun hc => ?_)
  rw [State.newBuffers] at hc
  split at hc
  next ht =>
    rw [List.mem_singleton.mp hc]
    exact ⟨rfl, ht⟩
  · cases hc

theorem TableCloned.newBlocks {i : Nat}
    {ok : Bool} (h : TableCloned flags src a L i s ok s') : NewBlocks a s s' := by
  cases h with
  | missing _ => exact .refl a s
  | full _ => exact .refl a s
  | linked hn _ =>
    refine ⟨rfl, fun _ h => h, fun _ h => Or.inl h, fun k => ?_⟩
    by_cases hk : k = i
    · subst hk
      exact Or.inr (Or.inl hn)
    · refine Or.inl ?_
      simp [linkTable, State.setTable, hk]
  | @made hn _ t phys s₁ s₃ ht alloc _ slots _ =>
    have htab : ∀ k, ((s₁.placeTable a i t ((s.dirs src).tables i)).dirs (.heap a)).tables k =
        if k = i then t else (s.dirs (.heap a)).tables k := by
      intro k
      rw [State.placeTable, addTable_tables, alloc.alloc.step.dirs]
      simp
    obtain ⟨_, _, _, _, _, rfl⟩ := slots.step
    refine ⟨alloc.alloc.length, alloc.alloc.used, fun c hc => ?_, fun k => ?_⟩
    · refine (alloc.new_buffer hc).imp_right (fun h => ?_)
      rw [h.1]
      exact alloc.start_free
    · rw [setPhysical_tables, htab]
      split
      · exact Or.inr (Or.inr alloc.start_free)
      · exact Or.inl rfl

theorem TablesCloned.newBlocks {I : List Nat}
    {ok : Bool} (h : TablesCloned flags src a L I s ok s') : NewBlocks a s s' := by
  induction h with
  | nil s => exact .refl a s
  | cons first _ ih => exact first.newBlocks.trans ih
  | stop first => exact first.newBlocks

/-! ## What the end of a directory leaves -/

theorem kfree_memmap_of_none {ptr : Nat}
    (hnone : s.kernelBuffers.find? (fun c => c.address == ptr) = none)
    (h : kfree s ptr = .ok s') : s'.kernelMemmap = s.kernelMemmap := by
  simp only [kfree, hnone] at h
  split at h
  next b _ =>
    obtain ⟨-, -, rfl⟩ := kfreeBuffer_iff.mp h
    exact (touches_freeSlots (s.slotsOf false b.visited) s).1.step.kernelMemmap
  · cases h

theorem kfree_page_kept {ptr : Nat} (hI : Inv s L) (hused : s.kernelMemmap.used p = true)
    (hcov : ∀ b ∈ s.kernelBuffers, b.address = ptr → ¬ b.Covers p)
    (h : kfree s ptr = .ok s') : s'.kernelMemmap.used p = true := by
  cases hfind : s.kernelBuffers.find? (fun c => c.address == ptr) with
  | none => rw [kfree_memmap_of_none hfind h, hused]
  | some b =>
    obtain ⟨hfreed, -, -, -⟩ := kfree_kernel hI hfind h
    have hnot := hcov b (List.mem_of_find?_eq_some hfind) (find_address hfind).1
    rw [hfreed.used, hused, decide_eq_true hnot]
    rfl

theorem FrameStep.kernelBuffers (h : FrameStep s s') : s'.kernelBuffers = s.kernelBuffers := by
  obtain ⟨_, _, _, _, rfl⟩ := h
  rfl

theorem mmuDestroyDirectory_ok {b : Buffer}
    (hI : Inv s (a :: L)) (hfind : s.kernelBuffers.find? (fun c => c.address == a) = some b)
    (hmmap : b.mmap = none) : ∃ s', mmuDestroyDirectory s a = .ok s' := by
  obtain ⟨s₁, hloop, hI₁, hD⟩ := hI.destroyTables
  obtain ⟨s', hfree⟩ := kfree_kernel_ok (hD.inv hI hI₁) (by rw [hD.step.kernelBuffers]; exact hfind)
    hmmap
  exact ⟨s', by rw [mmuDestroyDirectory, hloop, Loop.ok_bind, hfree]⟩

theorem destroy_page_kept (hI : Inv s (a :: L)) (hused : s.kernelMemmap.used p = true)
    (hcov : ∀ b ∈ s.kernelBuffers, b.address = a → ¬ b.Covers p)
    (h : mmuDestroyDirectory s a = .ok s') : s'.kernelMemmap.used p = true := by
  obtain ⟨s₁, hD, hI₁, -, -, hfree⟩ := mmuDestroyDirectory_spec hI h
  refine kfree_page_kept hI₁ ?_ ?_ hfree
  · rw [hD.step.kernelMemmap, hused]
  · rw [hD.step.kernelBuffers]
    exact hcov

/-! ## The cycle -/

/-- **The kernel has what it had before**: its pages, its buffers, the counters of its tables, and
the frames that the directories in `L` use. -/
structure Restored (L : List Nat) (s s' : State) : Prop where
  memmap : s'.kernelMemmap = s.kernelMemmap
  buffers : s'.kernelBuffers = s.kernelBuffers
  refs : ∀ i < kernelTables s.kernelMemmap, (s'.tables ((s.dirs .kernel).tables i)).refs =
    (s.tables ((s.dirs .kernel).tables i)).refs
  balanced : Balanced s' L

section Cycle

variable {m m' : Manager} {src : DirRef} {a phys : Nat} {s₁ : State}

theorem not_restored (hI : Inv m'.state (a :: m.dirs))
    (hfree : m.state.kernelMemmap.used p = false) (hused : m'.state.kernelMemmap.used p = true)
    (hcov : ∀ b ∈ m'.state.kernelBuffers, b.address = a → ¬ b.Covers p)
    (h : mmuDestroyDirectory m'.state a = .ok s') : ¬ Restored m.dirs m.state s' := by
  intro hR
  have hkept := destroy_page_kept hI hused hcov h
  rw [hR.memmap, hfree] at hkept
  cases hkept

theorem heap_of_restored (hI : Inv m.state m.dirs)
    (alloc : KernelAllocated m.state s₀ m.dirs a 2 cloneKflags none physmem)
    (hnew : NewBlocks a (s₀.newDir a) s₁) (hI' : Inv m'.state (a :: m.dirs))
    (hkept : BooksKept s₁ m'.state) (h : mmuDestroyDirectory m'.state a = .ok s')
    (hR : Restored m.dirs m.state s') : m.state.kheapLen ≠ 0 := by
  intro h0
  refine not_restored hI' alloc.start_free (hI'.dirs_owned a (by simp)).used ?_ h hR
  intro b hb haddr hcov
  rw [hkept.buffers] at hb
  rcases hnew.buffers b hb with hb | hfree
  · rcases alloc.new_buffer hb with hb | ⟨-, htracks⟩
    · have hused := (hI.heap.covered b hb _ hcov).2
      rw [alloc.start_free] at hused
      cases hused
    · rw [State.tracks, h0] at htracks
      simp at htracks
  · have hused : s₀.kernelMemmap.used (a / pageSize) = true := (alloc.owned hI).used
    rw [haddr] at hfree
    exact absurd (hused.symm.trans hfree) (by decide)

theorem kernelOnly_of_restored (hI : Inv m.state m.dirs) (hsrc : src ∈ spaces m.dirs)
    (alloc : KernelAllocated m.state s₀ m.dirs a 2 cloneKflags none physmem)
    (hnew : NewBlocks a (s₀.newDir a) s₁)
    (hcloned : Cloned flags src a m.dirs (List.range tableSize) (s₀.newDir a) s₁)
    (hI' : Inv m'.state (a :: m.dirs)) (hkept : BooksKept s₁ m'.state)
    (h : mmuDestroyDirectory m'.state a = .ok s') (hR : Restored m.dirs m.state s') :
    KernelOnly m.state src := by
  intro i hi hn
  by_contra h0
  have hne := alloc.ne_heap hI hsrc
  have hsrc₀ : (s₀.newDir a).dirs src = m.state.dirs src := by
    rw [← alloc.alloc.step.dirs]
    exact addDir_of_ne hne
  have ht : (s₁.dirs (.heap a)).tables i ≠ 0 := by
    rw [ne_eq, hcloned.created i (List.mem_range.mpr hi), hsrc₀]
    exact h0
  have hlive : (s₁.dirs (.heap a)).tables i ∈ liveTables m'.state.dirs (a :: m.dirs) := by
    rw [hkept.dirs]
    exact mem_liveTables.mpr ⟨ht, .heap a, heap_mem_spaces.mpr (by simp), i, hi, rfl⟩
  have howned := hI'.tables_owned _ hlive
  have hfree : m.state.kernelMemmap.used ((s₁.dirs (.heap a)).tables i / pageSize) = false := by
    rcases hnew.tables i with heq | hlt | hfree
    · exact absurd (heq.trans (addDir_self i)) ht
    · rw [kernelTables, show (s₀.newDir a).kernelMemmap.length = _ from alloc.alloc.length] at hlt
      exact absurd hlt (not_lt.mpr hn)
    · exact alloc.alloc.used_false hfree
  refine not_restored hI' hfree howned.used (fun b hb haddr hcov => ?_) h hR
  have heq := howned.buffer b hb hcov
  rw [haddr] at heq
  rw [← heq] at hlive
  exact hI'.dirs_apart a (by simp) hlive

theorem decr_incr {n : Nat} (h : n < wordSize) : decr (incr n) = n := by
  rcases Nat.lt_or_ge (n + 1) wordSize with hlt | hge
  · rw [incr_of_lt hlt, decr_of_pos (by omega)]
    omega
  · obtain rfl : n = wordSize - 1 := by omega
    rfl

theorem clone_buffer (hI : Inv m.state m.dirs)
    (alloc : KernelAllocated m.state s₀ m.dirs a 2 cloneKflags none physmem)
    (hheap : m.state.kheapLen ≠ 0) :
    s₀.kernelBuffers = m.state.kernelBuffers ++ [kallocBuffer a 2 cloneKflags none] ∧
      s₀.kernelBuffers.find? (fun c => c.address == a) = some (kallocBuffer a 2 cloneKflags none) ∧
      s₀.kernelBuffers.eraseP (fun c => c.address == a) = m.state.kernelBuffers := by
  have hbuffers : s₀.kernelBuffers =
      m.state.kernelBuffers ++ [kallocBuffer a 2 cloneKflags none] := by
    rw [alloc.buffers, State.newBuffers, if_pos]
    rw [State.tracks, Bool.and_eq_true, bne_iff_ne]
    exact ⟨by decide, hheap⟩
  have hold : ∀ c ∈ m.state.kernelBuffers, ¬ (c.address == a) = true := by
    intro c hc heq
    have hpos := hI.heap.pages_pos c hc
    have hused := (hI.heap.covered c hc (a / pageSize)
      ⟨by rw [beq_iff_eq.mp heq], by rw [beq_iff_eq.mp heq]; omega⟩).2
    rw [alloc.start_free] at hused
    cases hused
  refine ⟨hbuffers, ?_, ?_⟩
  · rw [hbuffers, List.find?_append, List.find?_eq_none.mpr hold]
    simp [kallocBuffer]
  · rw [hbuffers, List.eraseP_append_right _ hold]
    simp [kallocBuffer]

/-- **A directory with the kernel's tables only.** -/
theorem restores (hm : Booked m) (hsrc : src ∈ spaces m.dirs)
    (alloc : KernelAllocated m.state s₀ m.dirs a 2 cloneKflags none physmem)
    (inv : Inv (s₀.newDir a) (a :: m.dirs))
    (tables : TablesCloned flags src a m.dirs (List.range tableSize) (s₀.newDir a) true s₁)
    (hm' : Booked m') (hdirs : m'.dirs = a :: m.dirs) (hkept : BooksKept s₁ m'.state)
    (hheap : m.state.kheapLen ≠ 0) (honly : KernelOnly m.state src) :
    ∃ s', mmuDestroyDirectory m'.state a = .ok s' ∧ Restored m.dirs m.state s' := by
  obtain ⟨hbuffers, hfind, herase⟩ := clone_buffer hm.inv alloc hheap
  have hne := alloc.ne_heap hm.inv hsrc
  have hsrc₀ : (s₀.newDir a).dirs src = m.state.dirs src := by
    rw [← alloc.alloc.step.dirs]
    exact addDir_of_ne hne
  have honly₀ : KernelOnly (s₀.newDir a) src := honly.congr alloc.alloc.length hsrc₀
  have hlinked := tables.onlyLinked inv (spaces_cons hsrc) hne honly₀ List.nodup_range
    (fun i hi => List.mem_range.mp hi) rfl
  have hbooks : m'.state.kernelBuffers = s₀.kernelBuffers ∧
      m'.state.kernelMemmap = s₀.kernelMemmap := by
    rw [hkept.buffers, hkept.memmap]
    obtain ⟨_, _, rfl⟩ := hlinked.step
    exact ⟨rfl, rfl⟩
  -- the end of the clone
  have hI' : Inv m'.state (a :: m.dirs) := hdirs ▸ hm'.inv
  have hfind' : m'.state.kernelBuffers.find? (fun c => c.address == a) =
      some (kallocBuffer a 2 cloneKflags none) := by
    rw [hbooks.1]
    exact hfind
  obtain ⟨s', h⟩ := mmuDestroyDirectory_ok hI' hfind' rfl
  obtain ⟨s₂, hD, hI₂, -, -, hfree⟩ := mmuDestroyDirectory_spec hI' h
  obtain ⟨hfreed, hB, -, -⟩ := kfree_kernel hI₂ (by rw [hD.step.kernelBuffers]; exact hfind') hfree
  refine ⟨s', h, ?_, ?_, ?_, hB⟩
  · refine Memmap.eq_of_used ?_ (fun p => ?_)
    · rw [hfreed.length, hD.step.kernelMemmap, hbooks.2, alloc.alloc.length]
    · have hcov : (kallocBuffer a 2 cloneKflags none).Covers p ↔ inRange (a / pageSize) 2 p = true :=
        inRange_eq_true.symm
      rw [hfreed.used, hD.step.kernelMemmap, hbooks.2, alloc.used]
      by_cases hp : inRange (a / pageSize) 2 p = true
      · rw [decide_eq_false (not_not.mpr (hcov.mpr hp)), alloc.free hp]
        rfl
      · rw [decide_eq_true (mt hcov.mp hp), Bool.eq_false_iff.mpr hp]
        rfl
  · rw [hfreed.buffers, hD.step.kernelBuffers, hbooks.1]
    exact herase
  · intro i hi
    have hlt := lt_of_lt_of_le hi hm.inv.kernelTables_le
    have ht0 := (hm.inv.shape.kernel i hlt).mpr hi
    have hi' : i < kernelTables m'.state.kernelMemmap := by
      rw [kernelTables, hbooks.2, alloc.alloc.length]
      exact hi
    have hsrct : ((s₀.newDir a).dirs src).tables i = (m.state.dirs .kernel).tables i := by
      rw [hsrc₀]
      rcases mem_spaces.mp hsrc with rfl | ⟨c, hc, rfl⟩
      · rfl
      · exact hm.complete c hc i hi
    have hkernel : m'.state.dirs .kernel = m.state.dirs .kernel := by
      rw [hkept.dirs]
      obtain ⟨_, _, rfl⟩ := hlinked.step
      exact (addDir_of_ne (a := a) (by simp)).trans (congrFun alloc.alloc.step.dirs .kernel)
    have hat : (m'.state.dirs (.heap a)).tables i = (m.state.dirs .kernel).tables i := by
      rw [hm'.complete a (by rw [hdirs]; simp) i hi', hkernel]
    have hdecr := hD.refs_kernel i (List.mem_range.mpr hlt) hi' (hat ▸ ht0)
    have hincr := hlinked.refs_linked i (List.mem_range.mpr hlt) (hsrct ▸ ht0)
    rw [hat] at hdecr
    rw [hsrct] at hincr
    rw [hfreed.refs, hdecr, hkept.refs, hincr, decr_incr (inv.refs_lt _)]
    exact alloc.alloc.refs _

end Cycle

theorem clone_destroy_ok {m : Manager} (hm : Booked m) (hsrc : src ∈ spaces m.dirs)
    (hclone : mmuCloneDirectory m.state src cloneCow = .ok (a, phys, s₁)) (ha : a ≠ 0)
    (hheap : m.state.kheapLen ≠ 0) : ∃ s', mmuDestroyDirectory s₁ a = .ok s' := by
  cases mmuCloneDirectory_cases hm.inv hsrc rfl hclone with
  | full => exact absurd rfl ha
  | failed => exact absurd rfl ha
  | @made _ physmem s₀ _ _ alloc inv tables cloned inv' =>
    obtain ⟨-, hfind, -⟩ := clone_buffer hm.inv alloc hheap
    obtain ⟨l, hl⟩ := cloned.buffers
    refine mmuDestroyDirectory_ok (b := kallocBuffer a 2 cloneKflags none) inv' ?_ rfl
    rw [hl, List.find?_append, show (s₀.newDir a).kernelBuffers = s₀.kernelBuffers from rfl, hfind]
    rfl

theorem Booked.restores_iff {m m' : Manager} (hm : Booked m) (hsrc : src ∈ spaces m.dirs)
    (hclone : mmuCloneDirectory m.state src cloneCow = .ok (a, phys, s₁)) (ha : a ≠ 0)
    (hwrites : CowWrites ⟨s₁, a :: m.dirs⟩ m') :
    (∃ s', mmuDestroyDirectory m'.state a = .ok s' ∧ Restored m.dirs m.state s') ↔
      m.state.kheapLen ≠ 0 ∧ KernelOnly m.state src := by
  have hm₁ := hm.clone ⟨hsrc, rfl⟩ hclone
  rw [if_neg ha] at hm₁
  obtain ⟨hm', hdirs, hkept⟩ := hwrites.kept hm₁
  replace hdirs : m'.dirs = a :: m.dirs := hdirs
  have hI' : Inv m'.state (a :: m.dirs) := hdirs ▸ hm'.inv
  cases mmuCloneDirectory_cases hm.inv hsrc rfl hclone with
  | full => exact absurd rfl ha
  | failed => exact absurd rfl ha
  | made _ alloc inv tables cloned inv' =>
    constructor
    · rintro ⟨s', h, hR⟩
      exact ⟨heap_of_restored hm.inv alloc tables.newBlocks hI' hkept h hR,
        kernelOnly_of_restored hm.inv hsrc alloc tables.newBlocks cloned hI' hkept h hR⟩
    · rintro ⟨hheap, honly⟩
      exact restores hm hsrc alloc inv tables hm' hdirs hkept hheap honly

/-- **When a clone and its end leave nothing behind.** -/
theorem clone_destroy_restores_iff {b : Boot} {m m' : Manager} {src : DirRef} {a phys : Nat}
    {s₁ : State} (hrun : m.Run b) (hsrc : src ∈ spaces m.dirs)
    (hclone : mmuCloneDirectory m.state src cloneCow = .ok (a, phys, s₁)) (ha : a ≠ 0)
    (hwrites : CowWrites ⟨s₁, a :: m.dirs⟩ m') :
    (∃ s', mmuDestroyDirectory m'.state a = .ok s' ∧ Restored m.dirs m.state s') ↔
      m.state.kheapLen ≠ 0 ∧ KernelOnly m.state src :=
  hrun.booked.restores_iff hsrc hclone ha hwrites

/-- The directory of the boot task. -/
theorem clone_destroy_restores_first : ∃ s a dir phys s₁ s', Manager.Run Boot.small ⟨s, [a]⟩ ∧
    mmuCloneDirectory s (.heap a) cloneCow = .ok (dir, phys, s₁) ∧ dir ≠ 0 ∧
    mmuDestroyDirectory s₁ dir = .ok s' ∧ Restored [a] s s' := by
  obtain ⟨a, s, N, M, hrun, hF⟩ := start_run
  have hpages := hF.pagesLeft
  have hframes := hF.framesLeft
  have hspace : DirRef.heap a ∈ spaces [a] := heap_mem_spaces.mpr (by simp)
  obtain ⟨dir, phys, s₁, hclone, hdir, -⟩ := cloneLinked_ok hF.process.inv hspace hF.kernelOnly
    hF.process.complete hF.room (by omega) (by omega)
  obtain ⟨s', h, hR⟩ := (clone_destroy_restores_iff (m := ⟨s, [a]⟩) hrun hspace hclone hdir
    .start).mpr ⟨hF.heap, hF.kernelOnly⟩
  exact ⟨s, a, dir, phys, s₁, s', hrun, hclone, hdir, h, hR⟩

/-- **A cycle that leaks**: the boot task has a page of user memory, and so a table of its own. -/
theorem clone_destroy_leaks : ∃ s a dir phys s₁ s', Manager.Run Boot.small ⟨s, [a]⟩ ∧
    mmuCloneDirectory s (.heap a) cloneCow = .ok (dir, phys, s₁) ∧ dir ≠ 0 ∧
    mmuDestroyDirectory s₁ dir = .ok s' ∧ ¬ Restored [a] s s' := by
  obtain ⟨a, s₀, N, M, hrun₀, hF⟩ := start_run
  have hpages := hF.pages
  have hleft := hF.pagesLeft
  have hframes := hF.framesLeft
  have hspace : DirRef.heap a ∈ spaces [a] := heap_mem_spaces.mpr (by simp)
  obtain ⟨p, s, halloc, hU, hroom⟩ := hF.kalloc_ok 0 none rfl
  have hrun : Manager.Run Boot.small ⟨s, [a]⟩ :=
    hrun₀.step (e := .call (.kalloc 4096 0x10000000 0 none))
      ⟨by decide, by decide, by rw [if_neg (by decide)]; exact ⟨a, by simp, hF.process.current⟩⟩
      trivial (.kalloc halloc)
  have hlen : s.kernelMemmap.length = s₀.kernelMemmap.length := hU.alloc.length
  have hheap : s.kheapLen ≠ 0 := by
    obtain ⟨_, _, _, _, _, _, _, _, hstep⟩ := hU.alloc.step
    have hkheap := congrArg State.kheapLen hstep
    exact ne_of_eq_of_ne hkheap hF.heap
  -- the table of the page
  have hnot : ¬ KernelOnly s (.heap a) := by
    intro honly
    have hle : kernelTables s.kernelMemmap ≤ 64 := by
      rw [kernelTables, hlen, tableSize]
      omega
    have htable : s.tableOf (.heap a) 65536 = 0 := honly 64 (by decide) hle
    obtain ⟨f, hentry, -, -⟩ := hU.mapped (v := 65536) rfl
    rw [(entry_of_no_table htable).1] at hentry
    have hpresent := congrArg Page.present hentry
    rw [(hF.entry (v := 65536) (by omega) (by decide)).1] at hpresent
    cases hpresent
  obtain ⟨dir, phys, s₁, hclone, hdir, -⟩ := @mmuCloneDirectory_ok cloneCow _ _ _ _ _ _ hU.inv
    hspace rfl hroom (hU.ownTables_le hF.process.complete hF.kernelOnly) (by omega) (by omega)
  obtain ⟨s', h⟩ := clone_destroy_ok (m := ⟨s, [a]⟩) hrun.booked hspace hclone hdir hheap
  refine ⟨s, a, dir, phys, s₁, s', hrun, hclone, hdir, h, fun hR => hnot ?_⟩
  exact ((hrun.booked.restores_iff hspace hclone hdir .start).mp ⟨s', h, hR⟩).2

/-! ## Any number of cycles -/

/-- A clone of `src`, writes, and the end of the clone, which is not the directory in use then. -/
def Manager.Cycle (m : Manager) (src : DirRef) (m' : Manager) : Prop :=
  ∃ a phys s₁ m₁, mmuCloneDirectory m.state src cloneCow = .ok (a, phys, s₁) ∧ a ≠ 0 ∧
    CowWrites ⟨s₁, a :: m.dirs⟩ m₁ ∧ m₁.state.currentDirectory ≠ .heap a ∧
    mmuDestroyDirectory m₁.state a = .ok m'.state ∧ m'.dirs = m.dirs

/-- The directory is one with the kernel's tables only, and the heap is there. -/
def Manager.Clean (m : Manager) (src : DirRef) : Prop :=
  src ∈ spaces m.dirs ∧ m.state.kheapLen ≠ 0 ∧ KernelOnly m.state src

theorem clone_kernel_kept {m : Manager} (hm : Booked m) (hsrc : src ∈ spaces m.dirs)
    (hclone : mmuCloneDirectory m.state src cloneCow = .ok (a, phys, s₁)) (ha : a ≠ 0) :
    s₁.dirs .kernel = m.state.dirs .kernel := by
  cases mmuCloneDirectory_cases hm.inv hsrc rfl hclone with
  | full => exact absurd rfl ha
  | failed => exact absurd rfl ha
  | made _ alloc _ _ cloned _ => exact (cloned.old hm.inv alloc).1 .kernel (kernel_mem_spaces _)

theorem Manager.Cycle.kept {m m' : Manager} (h : m.Cycle src m') (hm : Booked m)
    (hclean : m.Clean src) : Booked m' ∧ m'.dirs = m.dirs ∧
      m'.state.dirs .kernel = m.state.dirs .kernel ∧ Restored m.dirs m.state m'.state := by
  obtain ⟨a, phys, s₁, m₁, hclone, ha, hwrites, hcur, hdestroy, hdirs⟩ := h
  obtain ⟨hsrc, hheap, honly⟩ := hclean
  obtain ⟨s', h', hR⟩ := (hm.restores_iff hsrc hclone ha hwrites).mpr ⟨hheap, honly⟩
  obtain rfl : s' = m'.state := Except.ok.inj (h'.symm.trans hdestroy)
  have hm₀ := hm.clone ⟨hsrc, rfl⟩ hclone
  rw [if_neg ha] at hm₀
  obtain ⟨hm₁, hdirs₁, hkept⟩ := hwrites.kept hm₀
  replace hdirs₁ : m₁.dirs = a :: m.dirs := hdirs₁
  have hm' := hm₁.destroy ⟨by rw [hdirs₁]; simp, hcur⟩ hdestroy
  rw [hdirs₁, List.erase_cons_head, ← hdirs] at hm'
  refine ⟨hm', hdirs, ?_, hR⟩
  have hI₁ := hm₁.inv
  have hcur₁ := hm₁.current
  rw [hdirs₁] at hI₁ hcur₁
  rw [(destroy_spacesKept hI₁ (spaces_of_cons hcur₁ hcur) hdestroy).dirs, hkept.dirs]
  exact clone_kernel_kept hm hsrc hclone ha

theorem Restored.trans (h : Restored L s₁ s₂)
    (h' : Restored L s₂ s₃) (hkernel : s₂.dirs .kernel = s₁.dirs .kernel) : Restored L s₁ s₃ where
  memmap := h'.memmap.trans h.memmap
  buffers := h'.buffers.trans h.buffers
  refs i hi := by
    have hrefs := h'.refs i (by rw [h.memmap]; exact hi)
    rw [hkernel] at hrefs
    exact hrefs.trans (h.refs i hi)
  balanced := h'.balanced

/-- **Cycles of clean directories leave nothing behind**, however many there are. -/
theorem cycles_restore {m m' : Manager} (hm : Booked m)
    (h : Reach Manager.Cycle Manager.Clean m m') : Restored m.dirs m.state m'.state := by
  suffices hall : Booked m' ∧ m'.dirs = m.dirs ∧ m'.state.dirs .kernel = m.state.dirs .kernel ∧
      Restored m.dirs m.state m'.state from hall.2.2.2
  induction h with
  | start => exact ⟨hm, rfl, rfl, rfl, rfl, fun _ _ => rfl, hm.inv.balanced⟩
  | step _ hclean hcycle ih =>
    obtain ⟨hm₁, hdirs₁, hkernel₁, hR₁⟩ := ih
    obtain ⟨hm₂, hdirs₂, hkernel₂, hR₂⟩ := hcycle.kept hm₁ hclean
    rw [hdirs₁] at hR₂ hdirs₂
    exact ⟨hm₂, hdirs₂, hkernel₂.trans hkernel₁, hR₁.trans hR₂ hkernel₁⟩

theorem cycles_restore_first : ∃ m m' : Manager, ∃ src, m.Cycle src m' ∧
    Restored m.dirs m.state m'.state := by
  obtain ⟨a, s, N, M, hrun, hF⟩ := start_run
  have hm := hrun.booked
  have hpages := hF.pagesLeft
  have hframes := hF.framesLeft
  have hspace : DirRef.heap a ∈ spaces [a] := heap_mem_spaces.mpr (by simp)
  obtain ⟨dir, phys, s₁, hclone, hdir, -⟩ := cloneLinked_ok hF.process.inv hspace hF.kernelOnly
    hF.process.complete hF.room (by omega) (by omega)
  have hcur : s₁.currentDirectory ≠ .heap dir := by
    cases mmuCloneDirectory_cases hm.inv hspace rfl hclone with
    | full | failed => exact absurd rfl hdir
    | made _ alloc _ _ cloned _ =>
      rw [(cloned.old hm.inv alloc).2.1]
      exact alloc.ne_heap hm.inv hm.current
  obtain ⟨s', h⟩ := clone_destroy_ok hm hspace hclone hdir hF.heap
  have hcycle : Manager.Cycle ⟨s, [a]⟩ (.heap a) ⟨s', [a]⟩ :=
    ⟨_, _, _, _, hclone, hdir, .start, hcur, h, rfl⟩
  exact ⟨_, _, _, hcycle,
    cycles_restore hm (.step .start ⟨hspace, hF.heap, hF.kernelOnly⟩ hcycle)⟩

end Hydrax
