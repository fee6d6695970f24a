import Hydrax.Mmu.Process

/-!
# Allocations of user memory at a given address

`mmap` and the program loader pass `kalloc` an address and a size that come from a file. All its
loops are bounded by `vaddr + sz` in 32 bits.

* `kalloc_user_kept`: whatever the two are, the accounting of frames and the tables of the kernel
  stay in order.
* `kalloc_stays_iff`: the call stays in its range exactly if the sum does not wrap and no page table
  has to be made. When it wraps the test and the marking are skipped, and the page is mapped
  whoever owns it.
-/

namespace Hydrax

open Loop

variable {a flags r sz vaddr : Nat} {s s' : State} {L : List Nat} {mmap phys : Option Nat}
  {m : Memmap}

/-! ## Ranges of any kind -/

/-- What an allocation of user memory keeps, also if its range wraps: the bitmap becomes `m` and a
buffer is recorded. -/
structure UserKept (s s' : State) (a : Nat) (L : List Nat) (m : Memmap) : Prop where
  inv : Inv s' L
  complete : Complete s' (.heap a)
  length : s'.kernelMemmap.length = s.kernelMemmap.length
  step : UserStep s { s' with tasks := s.tasks }
  task : ∃ l, s'.tasks = Function.update s.tasks s.currentTask
    { s.tasks s.currentTask with memmap := m, buffers := l }

theorem kallocMap_kept (hI : Inv s L) (ha : a ∈ L) (hC : Complete s (.heap a)) (hr : r < wordSize)
    (h : kallocMap (allocTableWith noTable) s (.heap a) sz r flags = .ok (phys, s')) :
    Inv s' L ∧ Complete s' (.heap a) ∧ s'.kernelMemmap.length = s.kernelMemmap.length ∧
      UserStep s s' := by
  refine kallocMap_inv (I := fun t => Inv t L ∧ Complete t (.heap a) ∧
    t.kernelMemmap.length = s.kernelMemmap.length ∧ UserStep s t) h (fun htmp hp ht => ?_)
    ⟨hI, hC, rfl, .refl s⟩
  obtain ⟨hI₁, hC₁, hlen₁, hstep₁⟩ := ht
  have hP := (mmuAllocPage_user hI₁ ha hC₁ rfl (page_lt (htmp hr)) hp).1
  exact ⟨hP.inv, hP.complete, hP.length.trans hlen₁, hstep₁.trans hP.step⟩

theorem markLoop_mono {m' : Memmap} {bound fuel : Nat} (hr : r < wordSize)
    (h : forAddr memmapSetPage bound fuel r m = .ok m') :
    m'.length = m.length ∧ ∀ p, m.used p = true → m'.used p = true := by
  apply forAddr_inv (fun m' => m'.length = m.length ∧ ∀ p, m.used p = true → m'.used p = true) ?_ hr
    ⟨rfl, fun _ h => h⟩ h
  rintro m₁ m₂ tmp - ⟨hlen, hused⟩ hset
  obtain ⟨-, hlen', hused'⟩ := memmapSetPage_spec hset
  refine ⟨hlen'.trans hlen, fun p hp => ?_⟩
  rw [hused', hused p hp, Bool.or_true]

/-- **Any allocation of user memory**, for a task with a live directory. -/
theorem kalloc_live_kept (hI : Inv s L) (ha : a ∈ L) (hcur : s.currentDirectory = .heap a)
    (hC : Complete s (.heap a)) (hk : hasFlag flags kallocOptnKernel = false)
    (hvaddr : vaddr < wordSize) (h : kalloc s sz vaddr flags mmap = .ok (r, phys, s')) :
    (r = 0 ∧ s' = s) ∨ (r ≠ 0 ∧ r < wordSize ∧ ∃ m,
      forAddr memmapSetPage (kallocBound r sz) addrFuel r (s.tasks s.currentTask).memmap = .ok m ∧
      UserKept s s' a L m) := by
  obtain ⟨-, hplace, ⟨rfl, -, rfl⟩ | ⟨hr, m, s₁, hmark, hmapped, htrack⟩⟩ := kallocBody_cases hk h
  · exact Or.inl ⟨rfl, rfl⟩
  have hlt : r < wordSize := by
    rw [kallocPlace] at hplace
    split at hplace
    · simp only [bind_eq_ok, pure_eq_ok] at hplace
      obtain ⟨taken, -, rfl⟩ := hplace
      split
      · decide
      · exact hvaddr
    · simp only [bind_eq_ok, pure_eq_ok] at hplace
      obtain ⟨start, -, rfl⟩ := hplace
      exact Nat.mod_lt _ (by decide)
  rw [show s.dirOf false = .heap a from hcur] at hmapped
  obtain ⟨hI₁, hC₁, hlen₁, hstep₁⟩ := kallocMap_kept (hI.setTasks _) ha
    (show Complete (s.setMemmapOf false m) (.heap a) from hC) hlt hmapped
  obtain ⟨k, rfl⟩ := kallocTrack_user hk htrack
  refine Or.inr ⟨hr, hlt, m, hmark, hI₁.congr rfl, hC₁, hlen₁, ?_, ?_⟩
  · obtain ⟨_, _, _, _, _, _, _, _, rfl⟩ := hstep₁
    exact ⟨_, _, _, _, _, _, _, _, rfl⟩
  · obtain ⟨_, _, _, _, _, _, _, _, rfl⟩ := hstep₁
    refine ⟨(s.tasks s.currentTask).buffers ++
      (s.setMemmapOf false m).newBuffers r (kallocPages sz) flags mmap, ?_⟩
    simp [State.setMemmapOf, State.setTask, State.newBuffers, State.tracks]

theorem kalloc_user_kept (hP : Process s a L) (hk : hasFlag flags kallocOptnKernel = false)
    (hvaddr : vaddr < wordSize) (h : kalloc s sz vaddr flags mmap = .ok (r, phys, s')) :
    (r = 0 ∧ s' = s) ∨ (r ≠ 0 ∧ r < wordSize ∧ ∃ m,
      forAddr memmapSetPage (kallocBound r sz) addrFuel r (s.tasks s.currentTask).memmap = .ok m ∧
      UserKept s s' a L m) :=
  kalloc_live_kept hP.inv hP.mem hP.current hP.complete hk hvaddr h

theorem UserKept.task_eq (h : UserKept s s' a L m) : ∃ l, s'.tasks s'.currentTask =
      { s.tasks s.currentTask with memmap := m, buffers := l } := by
  obtain ⟨l, htasks⟩ := h.task
  obtain ⟨_, _, _, _, _, _, _, _, hstep⟩ := h.step
  have hcur : s'.currentTask = s.currentTask := by
    have := congrArg State.currentTask hstep
    exact this
  exact ⟨l, by rw [hcur, htasks, Function.update_self]⟩

theorem UserKept.process (h : UserKept s s' a L m) (hP : Process s a L)
    (hlen : m.length = (s.tasks s.currentTask).memmap.length)
    (hused : ∀ p, (s.tasks s.currentTask).memmap.used p = true → m.used p = true) :
    Process s' a L := by
  obtain ⟨l, htask⟩ := h.task_eq
  refine ⟨h.inv, hP.mem, ?_, h.complete, ?_, ?_⟩
  · rw [State.currentDirectory, htask]
    exact hP.current
  · intro v hv
    rw [h.length] at hv
    rw [htask]
    exact hused v (hP.kernelPages v hv)
  · rw [FullMemmap, htask]
    exact hlen.trans hP.full

theorem Process.kalloc {s s' : State} {a sz vaddr flags r : Nat} {L : List Nat}
    {mmap phys : Option Nat} (hP : Process s a L) (hk : hasFlag flags kallocOptnKernel = false)
    (hvaddr : vaddr < wordSize) (h : kalloc s sz vaddr flags mmap = .ok (r, phys, s')) :
    Process s' a L := by
  rcases kalloc_user_kept hP hk hvaddr h with ⟨-, rfl⟩ | ⟨-, hr, m, hmark, hkept⟩
  · exact hP
  · obtain ⟨hlen, hused⟩ := markLoop_mono hr hmark
    exact hkept.process hP hlen hused

/-! ## Staying in the range -/

/-- The entries and records of a page are the same in both states. -/
def SamePage (s s' : State) (d : DirRef) (v : Nat) : Prop :=
  s'.entry d v = s.entry d v ∧ s'.record d v = s.record d v

/-- A call for the `n` pages from `p` on either refused and changed nothing, or marked these pages,
which were free, and touched no other entry of any live directory. -/
inductive StaysInRange (s s' : State) (L : List Nat) (p n : Nat) : Nat → Prop where
  | refused (memmap : (s'.tasks s'.currentTask).memmap = (s.tasks s.currentTask).memmap)
      (pages : ∀ d ∈ spaces L, ∀ v < 1048576, SamePage s s' d v) : StaysInRange s s' L p n 0
  | granted {r : Nat} (hr : r ≠ 0)
      (free : ∀ q, inRange p n q = true → (s.tasks s.currentTask).memmap.used q = false)
      (marked : ∀ q, (s'.tasks s'.currentTask).memmap.used q =
        (inRange p n q || (s.tasks s.currentTask).memmap.used q))
      (pages : ∀ d ∈ spaces L, ∀ v < 1048576, (d = s.currentDirectory → inRange p n v = false) →
        SamePage s s' d v) : StaysInRange s s' L p n r

section Given

variable {s s' : State} {a sz vaddr flags r : Nat} {L : List Nat} {mmap phys : Option Nat}
  (hP : Process s a L) (hk : hasFlag flags kallocOptnKernel = false) (h0 : vaddr ≠ 0)
  (h : kalloc s sz vaddr flags mmap = .ok (r, phys, s'))

include hP hk h0 h

theorem kalloc_wraps (hvaddr : vaddr < wordSize) (hpos : 0 < sz) (hsz : sz < wordSize)
    (hwrap : wordSize ≤ vaddr + sz) :
    ¬ StaysInRange s s' L (vaddr / pageSize) (pageCount sz) r := by
  have hbound : kallocBound vaddr sz ≤ vaddr := by
    rw [kallocBound, Nat.mod_eq_sub_mod hwrap, Nat.mod_eq_of_lt (by omega)]
    omega
  have hr : r = vaddr := by
    have hplace := kalloc_place hk h
    rw [kallocPlace, if_pos h0, addrFuel, anyUsed, if_neg (by omega), ok_bind] at hplace
    exact (Except.ok.inj hplace).symm
  subst hr
  rcases kalloc_user_kept hP hk hvaddr h with ⟨hr, -⟩ | ⟨-, -, m, hmark, hkept⟩
  · exact absurd hr h0
  rw [addrFuel, forAddr_of_le hbound] at hmark
  obtain rfl : (s.tasks s.currentTask).memmap = m := Except.ok.inj hmark
  obtain ⟨l, htask⟩ := hkept.task_eq
  intro hstays
  cases hstays with
  | refused => exact h0 rfl
  | granted _ free marked _ =>
    -- the first page of the range would have to be free before and marked after
    have hfirst : inRange (r / pageSize) (pageCount sz) (r / pageSize) = true :=
      inRange_start (Nat.div_pos (Nat.add_le_add_right hpos 0xFFF) (by decide))
    have hmarked := marked (r / pageSize)
    rw [htask, hfirst, Bool.true_or, free _ hfirst] at hmarked
    cases hmarked

theorem kalloc_given (hpos : 0 < sz) (hfit : vaddr + sz < wordSize) :
    (r = 0 ∧ s' = s) ∨ (r ≠ 0 ∧ UserAllocated s s' a L vaddr (pageCount sz) flags mmap) := by
  have halign : vaddr % pageSize = 0 := (kallocBody_cases hk h).1
  have hcount : kallocPages sz = pageCount sz := by
    apply kallocPages_eq
    have := Nat.le_of_dvd (by omega) (Nat.dvd_of_mod_eq_zero halign)
    rw [pageSize] at this
    omega
  rcases kalloc_user hP.inv hP.mem hP.current hP.complete hk hP.kernelPages (by omega)
    ⟨hpos, fun _ => hfit, fun h => absurd h h0⟩ h with hrefused | ⟨hr, hfixed, hU⟩
  · exact Or.inl hrefused
  · rw [hfixed h0, hcount] at hU
    exact Or.inr ⟨hr, hU⟩

theorem kalloc_stays (hpos : 0 < sz) (hfit : vaddr + sz < wordSize)
    (htables : ∀ v, inRange (vaddr / pageSize) (pageCount sz) v = true → s.tableOf (.heap a) v ≠ 0) :
    StaysInRange s s' L (vaddr / pageSize) (pageCount sz) r := by
  rcases kalloc_given hP hk h0 h hpos hfit with ⟨rfl, rfl⟩ | ⟨hr, hU⟩
  · exact .refused rfl (fun _ _ _ _ => ⟨rfl, rfl⟩)
  obtain ⟨m, htask, -, hused⟩ := hU.task_eq
  refine .granted hr hU.free (fun q => by rw [htask]; exact hused q) (fun d hd v hv hout => ?_)
  -- no kernel memory was taken, for no table was missing
  have hquiet := hU.quiet (fun w hw => htables w (inRange_eq_true.mpr (mem_pagesFrom.mp hw)))
  refine hU.alloc.entry d hd v hv (fun hnew => ?_) (fun hmem hheap => ?_)
  · have hused' := hnew.2.2
    rw [show ({ s' with tasks := s.tasks } : State).kernelMemmap = s.kernelMemmap from hquiet,
      hnew.2.1] at hused'
    cases hused'
  · rw [hP.current] at hout
    have := hout hheap
    rw [inRange_eq_true.mpr (mem_pagesFrom.mp hmem)] at this
    cases this

theorem kalloc_makes_table (hclean : FreeClean s) (hpos : 0 < sz) (hfit : vaddr + sz < wordSize)
    (hr : r ≠ 0)
    (hmissing : ∃ v, inRange (vaddr / pageSize) (pageCount sz) v = true ∧
      s.tableOf (.heap a) v = 0) :
    ¬ StaysInRange s s' L (vaddr / pageSize) (pageCount sz) r := by
  rcases kalloc_given hP hk h0 h hpos hfit with ⟨rfl, -⟩ | ⟨-, hU⟩
  · exact absurd rfl hr
  obtain ⟨v, hv, hv0⟩ := hmissing
  obtain ⟨p, hnew, hframe⟩ := hU.made ⟨v, mem_pagesFrom.mpr (inRange_eq_true.mp hv), hv0⟩
  obtain ⟨hp0, habsent⟩ := hclean p hnew.1 hnew.2.1
  have hlt := hP.inv.kernel_lt hnew.1
  intro hstays
  cases hstays with
  | refused => exact hr rfl
  | granted _ _ _ pages =>
    have hsame := pages .kernel (kernel_mem_spaces L) p hlt (fun h => by
      rw [hP.current] at h
      cases h)
    have hpresent := hframe hp0
    rw [hsame.1, habsent] at hpresent
    cases hpresent

end Given

/-- **When an allocation stays in its range.** Exactly if `vaddr + sz` does not wrap, and a page of
the range is taken or all of them have their page tables. -/
theorem kalloc_stays_iff {s s' : State} {a sz vaddr flags r : Nat} {L : List Nat}
    {mmap phys : Option Nat} (hP : Process s a L) (hclean : FreeClean s)
    (hk : hasFlag flags kallocOptnKernel = false) (h0 : vaddr ≠ 0) (hvaddr : vaddr < wordSize)
    (hpos : 0 < sz) (hsz : sz < wordSize)
    (h : kalloc s sz vaddr flags mmap = .ok (r, phys, s')) :
    StaysInRange s s' L (vaddr / pageSize) (pageCount sz) r ↔
      vaddr + sz < wordSize ∧ (kallocPlace (s.tasks s.currentTask).memmap sz vaddr = .ok 0 ∨
        ∀ v, inRange (vaddr / pageSize) (pageCount sz) v = true → s.tableOf (.heap a) v ≠ 0) := by
  have hplace := kalloc_place hk h
  constructor
  · intro hstays
    have hfit : vaddr + sz < wordSize := by
      by_contra hwrap
      exact kalloc_wraps hP hk h0 h hvaddr hpos hsz (not_lt.mp hwrap) hstays
    refine ⟨hfit, ?_⟩
    by_cases hr : r = 0
    · exact Or.inl (by rw [hplace, hr])
    · refine Or.inr (fun v hv hv0 => ?_)
      exact kalloc_makes_table hP hk h0 h hclean hpos hfit hr ⟨v, hv, hv0⟩ hstays
  · rintro ⟨hfit, hrefused | htables⟩
    · obtain rfl : r = 0 := Except.ok.inj (hplace.symm.trans hrefused)
      rcases kalloc_given hP hk h0 h hpos hfit with ⟨-, rfl⟩ | ⟨hr, -⟩
      · exact .refused rfl (fun _ _ _ _ => ⟨rfl, rfl⟩)
      · exact absurd rfl hr
    · exact kalloc_stays hP hk h0 h hpos hfit htables

/-- The boot task asks for a page, and then for the one after it, whose table is there by then. -/
theorem kalloc_stays_second : ∃ s₀ s₁ s₂ s₃ a p q, mmuInit Boot.small = .ok s₀ ∧
    kheapInit s₀ = .ok s₁ ∧ kalloc s₁ 4096 0x10000000 0 = .ok (0x10000000, p, s₂) ∧
    kalloc s₂ 4096 0x10001000 0 = .ok (0x10001000, q, s₃) ∧ s₁.currentDirectory = .heap a ∧
    StaysInRange s₂ s₃ [a] 65537 1 0x10001000 := by
  obtain ⟨a, s₀, s₁, N, M, hinit, hheap, hF⟩ := start_small
  have hpages := hF.pages
  have hleft := hF.pagesLeft
  have hframes := hF.framesLeft
  obtain ⟨p, s₂, halloc, hU, hroom₂⟩ := hF.kalloc_ok 0 none rfl
  have hP₂ := hU.process hF.process
  have hlen₂ : s₂.kernelMemmap.length = s₁.kernelMemmap.length := hU.alloc.length
  obtain ⟨m, htask, -, hused⟩ := hU.task_eq
  obtain ⟨q, s₃, halloc', -, -⟩ := hP₂.kalloc_ok (n := 1) 4096 0x10001000 0 none rfl rfl
    (by decide) (by decide) rfl (by decide) (fun p hp => by
      have hp' := inRange_eq_true.mp hp
      simp only [pageSize] at hp'
      rw [htask]
      show m.used p = false
      rw [hused, hF.userPages p (by omega), Bool.or_false, Bool.eq_false_iff]
      intro hin
      have := inRange_eq_true.mp hin
      simp only [pageSize] at this
      omega) hroom₂ (by omega) (by omega)
  refine ⟨s₀, s₁, s₂, s₃, a, p, q, hinit, hheap, halloc, halloc', hF.process.current, ?_⟩
  refine (kalloc_stays_iff hP₂ (hU.freeClean hF.process.inv hF.clean) rfl (by decide) (by decide)
    (by decide) (by decide) halloc').mpr ⟨by decide, Or.inr (fun v hv => ?_)⟩
  -- both pages are in table 64
  have hv' := inRange_eq_true.mp hv
  simp only [pageSize, show pageCount 4096 = 1 from rfl] at hv'
  obtain rfl : v = 65537 := by omega
  have htable : s₂.tableOf (.heap a) 65536 ≠ 0 := hU.tableOf rfl
  rwa [State.tableOf, show tableIdx 65537 = tableIdx 65536 from rfl]

/-- The mapping loop on the page at the top of the address space and on page `0`, where the cursor
is next. Page `0` of the kernel gets another frame. -/
theorem kallocMap_wrap_ok {N M : Nat} (hP : Process s a [a]) (hroom : Room s N M)
    (hN : N + 3 ≤ s.kernelMemmap.length) (hM : M + 5 ≤ 65536)
    (h0 : (s.entry .kernel 0).frame = 0) :
    ∃ phys s', kallocMap (allocTableWith noTable) s (.heap a) 0x2000 0xFFFFF000 0 = .ok (phys, s') ∧
      Room s' (N + 3) (M + 5) ∧ (s'.entry .kernel 0).frame ≠ 0 := by
  have hlen := hP.inv.heap.length_le
  obtain ⟨phys, s₁, hfirst, hroom₁⟩ := mmuAllocPage_user_ok (a := a) hP.inv
    (show 0xFFFFF000 / pageSize = 1048575 from rfl) (pageFlags_mktable 0) hroom hN (by omega)
  obtain ⟨hmapped, -, hU⟩ := mmuAllocPage_user hP.inv hP.mem hP.complete
    (show 0xFFFFF000 / pageSize = 1048575 from rfl) (by decide) hfirst
  have huser : s.kernelMemmap.length ≤ 1048575 := by
    simp only [tableSize] at hlen
    omega
  -- page 0, in the table that the process shares with the kernel
  have hzero : s₁.entry .kernel 0 = s.entry .kernel 0 :=
    ((hU huser).entry .kernel (kernel_mem_spaces [a]) 0 (by decide)
      (fun hnew => absurd hnew.2.1 (by rw [hP.inv.heap.zero_used]; decide)) (fun _ h => by cases h)).1
  have htable : s₁.tableOf (.heap a) (0 / pageSize) = s₁.tableOf .kernel 0 :=
    hmapped.complete.tableOf hmapped.inv hmapped.inv.heap.length_pos
  have hne : s₁.tableOf .kernel 0 ≠ 0 := hmapped.inv.kernel_table hmapped.inv.heap.length_pos
  obtain ⟨q, s₂, hsecond⟩ := mmuAllocPage_ok (allocTableWith noTable) hmapped.inv.frames
    (show s₁.tableOf (.heap a) (0 / pageSize) ≠ 0 by rwa [htable]) (pageFlags 0)
  obtain ⟨-, hM₂, -⟩ := mmuAllocPage_of_table hsecond (Nat.zero_div _) htable hne
  have hroom₂ := hroom₁.mapPage hmapped.inv.frames (by omega) hM₂
  refine ⟨phys, s₂, ?_, hroom₂, ?_⟩
  · rw [kallocMap, hfirst, ok_bind]
    dsimp only
    rw [show assert true = .ok () from rfl, ok_bind, addrFuel,
      forAddr_one (by decide) (by decide) (by decide)]
    show (kallocMapPage _ _ _ s₁ 0 >>= _) = _
    rw [kallocMapPage_eq_ok.mpr ⟨q, hsecond⟩]
    rfl
  · obtain ⟨f, hentry, -, hfresh⟩ := hM₂.mappedEntry hmapped.inv hne
    have htakes : takesFrame (pageFlags 0) (s₁.entry .kernel 0) = true := by
      rw [takesFrame, hzero, h0]
      rfl
    rw [hentry, allocatedPage, if_pos htakes]
    exact (hfresh htakes hroom₂.out).ne_zero

/-- **A range that wraps maps over the kernel.** With `vaddr = 0xFFFFF000` and `sz = 0x2000`, as a
program header may have them, page `0` of the kernel gets a new frame. -/
theorem kalloc_wrap_remaps_kernel : ∃ s₀ s₁ s₂ a phys, mmuInit Boot.small = .ok s₀ ∧
    kheapInit s₀ = .ok s₁ ∧ s₁.currentDirectory = .heap a ∧
    kalloc s₁ 0x2000 0xFFFFF000 0 = .ok (0xFFFFF000, phys, s₂) ∧
    (s₁.entry .kernel 0).frame = 0 ∧ (s₂.entry .kernel 0).frame ≠ 0 ∧
    ¬ StaysInRange s₁ s₂ [a] (0xFFFFF000 / pageSize) (pageCount 0x2000) 0xFFFFF000 := by
  obtain ⟨a, s₀, s, N, M, hinit, hheap, hF⟩ := start_small
  have hleft := hF.pagesLeft
  have hframes := hF.framesLeft
  obtain ⟨phys, s₁, hmap, hroom₁, hzero⟩ := kallocMap_wrap_ok hF.process hF.room (by omega) (by omega)
    hF.zeroPage
  obtain ⟨s', htrack⟩ := kallocTrack_ok hroom₁.malloc 0x2000 0xFFFFF000 0 none
  have hplace : kallocPlace (s.memmapOf false) 0x2000 0xFFFFF000 = .ok 0xFFFFF000 := by
    rw [kallocPlace, if_pos (by decide), addrFuel, anyUsed, if_neg (by decide)]
    rfl
  have hkalloc : kalloc s 0x2000 0xFFFFF000 0 = .ok (0xFFFFF000, phys, s') := by
    have hk : hasFlag 0 kallocOptnKernel = false := rfl
    refine kallocBody_eq_ok (m := s.memmapOf false) hk rfl hplace (by decide) ?_ ?_ htrack
    · rw [addrFuel, forAddr_of_le (by decide)]
    · rw [setMemmapOf_memmapOf, show s.dirOf false = .heap a from hF.process.current]
      exact hmap
  refine ⟨s₀, s, s', a, phys, hinit, hheap, hF.process.current, hkalloc, hF.zeroPage, ?_,
    kalloc_wraps hF.process rfl (by decide) hkalloc (by decide) (by decide) (by decide) (by decide)⟩
  obtain ⟨k, rfl⟩ := kallocTrack_user rfl htrack
  exact hzero

end Hydrax
