import Hydrax.Mmu.Process

/-!
# Runs of the kernel's page allocator

After `kheap_init` the kernel takes pages with `kalloc` and gives them back with `kfree`.

* `HeapBooks` is what such runs keep: the pages in use are those of the start and those of the
  buffers, and each page of a buffer has a frame that nobody else has.
* `HeapBooks.kalloc` and `HeapBooks.kfree` are its steps, `HeapRun.books` is about whole runs.
* `HeapBooks.freeAll`: giving everything back, in whatever order, leads back to the start.
-/

namespace Hydrax

variable {L : List Nat} {s s₀ : State} {b c : Buffer} {f v : Nat} {buffers : List Buffer}
  {m : Memmap}

/-- The calls of `kalloc` by which the kernel takes memory it can give back. -/
structure HeapRequest (sz flags : Nat) : Prop where
  size_pos : 1 ≤ sz
  size_le : sz ≤ wordSize - 4096
  kernel : hasFlag flags kallocOptnKernel = true
  tracked : hasFlag flags kallocOptnNofree = false
  mapped : hasFlag flags kallocOptnMmap = false

/-- The states that such calls and `kfree` lead to, as long as frames do not run out. -/
inductive HeapRun (s₀ : State) : State → Prop where
  | start : HeapRun s₀ s₀
  | kalloc {s s' : State} {sz flags r : Nat} {mmap phys : Option Nat} (hs : HeapRun s₀ s)
      (hreq : HeapRequest sz flags) (h : kalloc s sz 0 flags mmap = .ok (r, phys, s'))
      (hout : s'.outOfFrames = false) : HeapRun s₀ s'
  | kfree {s s' : State} {ptr : Nat} (hs : HeapRun s₀ s) (h : kfree s ptr = .ok s') : HeapRun s₀ s'

/-- The page is there, and no other page has its frame. -/
structure OwnFrame (s : State) (v : Nat) : Prop where
  present : (s.entry .kernel v).present = true
  frame : (s.entry .kernel v).frame ≠ 0
  refs : s.frameRefs (s.entry .kernel v).frame = 1

theorem OwnFrame.eq (h : OwnFrame s v) (hI : Inv s L)
    (hv : v < s.kernelMemmap.length) {d : DirRef} (hd : d ∈ spaces L) {w : Nat} (hw : w < 1048576)
    (heq : (s.entry d w).frame = (s.entry .kernel v).frame) : w = v := by
  obtain ⟨-, hf, hrefs⟩ := h
  have hne := hI.kernel_table hv
  have hne' : s.tableOf d w ≠ 0 := by
    intro h0
    rw [(entry_of_no_table h0).1] at heq
    exact hf heq.symm
  rw [State.entry_of_ne hne] at hf hrefs heq
  rw [State.entry_of_ne hne'] at heq
  have hslot := hI.balanced.unique (slot_mem (kernel_mem_spaces L) (hI.kernel_lt hv) hne)
    (slot_mem hd hw hne') hf hrefs heq
  rw [Prod.mk.injEq] at hslot
  exact (hI.slot_eq hd (kernel_mem_spaces L) hw (hI.kernel_lt hv) hne' hslot.1 hslot.2).1

/-- What a run of the allocator keeps, from the state `s₀` on. -/
structure HeapBooks (s₀ : State) (L : List Nat) (s : State) : Prop where
  base : Inv s₀ L
  inv : Inv s L
  clean : FreeClean s
  dirs : s.dirs = s₀.dirs
  heap : s.kheapLen ≠ 0
  noUser : (s.tasks s.currentTask).buffers = []
  length : s.kernelMemmap.length = s₀.kernelMemmap.length
  used : ∀ p, s.kernelMemmap.used p = true ↔
    s₀.kernelMemmap.used p = true ∨ ∃ b ∈ s.kernelBuffers, b.Covers p
  reserved : ∀ b ∈ s.kernelBuffers, ∀ p, b.Covers p → s₀.kernelMemmap.used p = false
  kept : ∀ v < s₀.kernelMemmap.length, s₀.kernelMemmap.used v = true →
    s.entry .kernel v = s₀.entry .kernel v
  unmapped : ∀ b ∈ s.kernelBuffers, b.mmap = none
  own : ∀ b ∈ s.kernelBuffers, ∀ v, b.Covers v → OwnFrame s v
  taken : ∀ b ∈ s.kernelBuffers, ∀ v, b.Covers v →
    s₀.physicalMemmap.used (s.entry .kernel v).frame = false
  refs : ∀ f, (∀ b ∈ s.kernelBuffers, ∀ v, b.Covers v → (s.entry .kernel v).frame ≠ f) →
    s.frameRefs f = s₀.frameRefs f

/-! ## Taking pages -/

section Kalloc

variable {s₀ s s' : State} {L : List Nat} {sz flags r n : Nat} {mmap phys : Option Nat}

theorem State.newBuffers_eq (hheap : s.kheapLen ≠ 0) (hreq : HeapRequest sz flags) :
    s.newBuffers r n flags mmap = [{ address := r, pages := n, mmap := none }] := by
  rw [State.newBuffers, State.tracks, hreq.tracked, kallocBuffer, hreq.mapped]
  simp [hheap]

theorem covers_new {p : Nat} :
    Buffer.Covers { address := r, pages := n, mmap := none } p ↔ inRange (r / pageSize) n p = true :=
  inRange_eq_true.symm

theorem KernelAllocated.used_new (h : KernelAllocated s s' L r n flags mmap phys) (hI : Inv s L)
    (hf : f ≠ 0) (hnot : ∀ v, inRange (r / pageSize) n v = true → (s'.entry .kernel v).frame ≠ f)
    (hused : s'.physicalMemmap.used f = true) : s.physicalMemmap.used f = true := by
  have hpos := (h.inv.balanced.used_iff f hf).mp hused
  rw [h.inv.balanced.refs_eq f hf] at hpos
  obtain ⟨⟨t, j⟩, hx, hxf⟩ := RefCount.count_pos_iff.mp hpos
  rw [h.alloc.step.dirs] at hx
  by_cases hslot : NewSlots s s' t j
  · obtain ⟨v, hv, hfree, hnow, rfl, rfl⟩ := hslot
    rw [h.used, hfree, Bool.or_false] at hnow
    refine absurd ?_ (hnot v hnow)
    rw [State.entry_of_ne (by rw [h.alloc.step.tableOf]; exact hI.kernel_table hv),
      h.alloc.step.tableOf]
    exact hxf
  · have hkept := h.alloc.page t j hslot
    have hframe : (s.page t j).frame = f := by rw [← hkept]; exact hxf
    rw [← hframe] at hf ⊢
    exact hI.frame_used hx hf

theorem KernelAllocated.frameRefs_eq (h : KernelAllocated s s' L r n flags mmap phys) (hI : Inv s L)
    (hout : s'.outOfFrames = false)
    (hnot : ∀ v, inRange (r / pageSize) n v = true → (s'.entry .kernel v).frame ≠ f) :
    s'.frameRefs f = s.frameRefs f := by
  by_cases hf : f = 0
  · subst hf
    exact h.alloc.grow.zero hI.zero_frame hout
  · cases hused : s.physicalMemmap.used f with
    | true => exact h.alloc.grow.refs f hf hused
    | false =>
      rw [hI.refs_of_free hf hused, h.inv.refs_of_free hf]
      by_contra hnow
      rw [h.used_new hI hf hnot (by simpa using hnow)] at hused
      cases hused

theorem KernelAllocated.ownFrame (h : KernelAllocated s s' L r n flags mmap phys)
    (hclean : FreeClean s) (hm : hasFlag flags kallocOptnMmap = false)
    (hout : s'.outOfFrames = false) (hv : inRange (r / pageSize) n v = true) :
    OwnFrame s' v ∧ s.physicalMemmap.used (s'.entry .kernel v).frame = false := by
  obtain ⟨f, hentry, -, hfresh⟩ := h.entry v hv
  have htakes := h.takes hclean hm v (mem_pagesFrom.mpr (inRange_eq_true.mp hv))
  obtain ⟨hne, hfree, -, hrefs⟩ := hfresh htakes hout
  have heq : (s'.entry .kernel v).frame = f ∧ (s'.entry .kernel v).present = true := by
    rw [hentry, allocatedPage, htakes]
    exact ⟨rfl, rfl⟩
  exact ⟨⟨heq.2, heq.1 ▸ hne, heq.1 ▸ hrefs⟩, heq.1 ▸ hfree⟩

theorem HeapBooks.kalloc (hB : HeapBooks s₀ L s) (hreq : HeapRequest sz flags)
    (h : KernelAllocated s s' L r n flags mmap phys) (hout : s'.outOfFrames = false) :
    HeapBooks s₀ L s' := by
  have hbuffers : ∀ b, b ∈ s'.kernelBuffers ↔
      b ∈ s.kernelBuffers ∨ b = { address := r, pages := n, mmap := none } := by
    intro b
    rw [h.buffers, State.newBuffers_eq hB.heap hreq, List.mem_append, List.mem_singleton]
  have hold : ∀ b ∈ s.kernelBuffers, ∀ v, b.Covers v → s'.entry .kernel v = s.entry .kernel v := by
    intro b hb v hcov
    obtain ⟨hv, hu⟩ := hB.inv.heap.covered b hb v hcov
    exact (h.alloc.entry_eq hB.inv (kernel_mem_spaces L) (hB.inv.kernel_lt hv) (Or.inr hu)).1
  have hnew := fun {v} hv => h.ownFrame hB.clean hreq.mapped hout (v := v) hv
  have hused : ∀ b ∈ s.kernelBuffers, ∀ v, b.Covers v →
      s.physicalMemmap.used (s.entry .kernel v).frame = true := by
    intro b hb v hcov
    obtain ⟨hv, -⟩ := hB.inv.heap.covered b hb v hcov
    exact hB.inv.entry_used (kernel_mem_spaces L) (hB.inv.kernel_lt hv) (hB.own b hb v hcov).frame
  obtain ⟨hstep, -⟩ := h.alloc
  refine ⟨hB.base, h.inv, h.alloc.freeClean hB.inv hB.clean, hstep.dirs.trans hB.dirs, ?_, ?_,
    h.alloc.length.trans hB.length, ?_, ?_, ?_, ?_, ?_, ?_, ?_⟩
  · obtain ⟨_, _, _, _, _, _, _, rfl⟩ := hstep
    exact hB.heap
  · obtain ⟨_, _, _, _, _, _, _, rfl⟩ := hstep
    exact hB.noUser
  · intro p
    rw [h.used, Bool.or_eq_true, hB.used]
    constructor
    · rintro (hp | hp | ⟨b, hb, hcov⟩)
      · exact Or.inr ⟨_, (hbuffers _).mpr (Or.inr rfl), covers_new.mpr hp⟩
      · exact Or.inl hp
      · exact Or.inr ⟨b, (hbuffers b).mpr (Or.inl hb), hcov⟩
    · rintro (hp | ⟨b, hb, hcov⟩)
      · exact Or.inr (Or.inl hp)
      · rcases (hbuffers b).mp hb with hb | rfl
        · exact Or.inr (Or.inr ⟨b, hb, hcov⟩)
        · exact Or.inl (covers_new.mp hcov)
  · intro b hb p hcov
    rcases (hbuffers b).mp hb with hb | rfl
    · exact hB.reserved b hb p hcov
    · by_contra hp
      have := (hB.used p).mpr (Or.inl (by simpa using hp))
      rw [h.free (covers_new.mp hcov)] at this
      cases this
  · intro v hv hu
    rw [← hB.length] at hv
    rw [(h.alloc.entry_eq hB.inv (kernel_mem_spaces L) (hB.inv.kernel_lt hv)
      (Or.inr ((hB.used v).mpr (Or.inl hu)))).1]
    exact hB.kept v (hB.length ▸ hv) hu
  · intro b hb
    rcases (hbuffers b).mp hb with hb | rfl
    · exact hB.unmapped b hb
    · rfl
  · intro b hb v hcov
    rcases (hbuffers b).mp hb with hb | rfl
    · obtain ⟨hp, hf, hr⟩ := hB.own b hb v hcov
      rw [← hold b hb v hcov] at hp hf hr
      exact ⟨hp, hf, (h.alloc.grow.refs _ hf (by rw [hold b hb v hcov]; exact hused b hb v hcov)).trans
        hr⟩
    · exact (hnew (covers_new.mp hcov)).1
  · intro b hb v hcov
    rcases (hbuffers b).mp hb with hb | rfl
    · rw [hold b hb v hcov]
      exact hB.taken b hb v hcov
    · obtain ⟨⟨-, hf, -⟩, hfree⟩ := hnew (covers_new.mp hcov)
      have hrefs := hB.refs (s'.entry .kernel v).frame (fun c hc w hw heq => by
        rw [← heq, hused c hc w hw] at hfree
        cases hfree)
      rw [hB.inv.refs_of_free hf hfree] at hrefs
      by_contra hu
      have := (hB.base.balanced.used_iff _ hf).mp (by simpa using hu)
      omega
  · intro f hnot
    rw [h.frameRefs_eq hB.inv hout (fun v hv => hnot _ ((hbuffers _).mpr (Or.inr rfl)) v
      (covers_new.mpr hv))]
    refine hB.refs f (fun b hb v hcov => ?_)
    rw [← hold b hb v hcov]
    exact hnot b ((hbuffers b).mpr (Or.inl hb)) v hcov

end Kalloc

/-! ## Giving pages back -/

theorem KernelHeap.eq_of_covers (h : KernelHeap m buffers) (hb : b ∈ buffers) (hc : c ∈ buffers)
    {p : Nat} (hbp : b.Covers p) (hcp : c.Covers p) : b = c := by
  have : Std.Symm (fun b c : Buffer => ∀ p, b.Covers p → ¬ c.Covers p) :=
    ⟨fun _ _ hxy q hx hy => hxy q hy hx⟩
  by_contra hne
  exact h.disjoint.forall hb hc hne p hbp hcp

theorem KernelHeap.covers_start (h : KernelHeap m buffers) (hb : b ∈ buffers) :
    b.Covers (b.address / pageSize) :=
  ⟨le_rfl, Nat.lt_add_of_pos_right (h.pages_pos b hb)⟩

theorem KernelHeap.find_eq (h : KernelHeap m buffers) (hb : b ∈ buffers) :
    buffers.find? (fun c => c.address == b.address) = some b := by
  cases hfind : buffers.find? (fun c => c.address == b.address) with
  | none => exact absurd (List.find?_eq_none.mp hfind b hb) (by simp)
  | some c =>
    have hc := List.mem_of_find?_eq_some hfind
    have haddr := (find_address hfind).1
    rw [h.eq_of_covers hc hb (h.covers_start hc) (haddr ▸ h.covers_start hb)]

section Kfree

variable {s₀ s s' : State} {L : List Nat} {b : Buffer}

theorem KernelFreed.perm (h : KernelFreed s s' b) (hI : Inv s L) (hb : b ∈ s.kernelBuffers) :
    s.kernelBuffers.Perm (b :: s'.kernelBuffers) := by
  obtain ⟨-, as, bs, hsplit, herase⟩ := find_address (hI.heap.find_eq hb)
  rw [h.buffers, herase, hsplit]
  exact List.perm_middle

section Freed

variable (hB : HeapBooks s₀ L s) (hb : b ∈ s.kernelBuffers) (h : KernelFreed s s' b)

include hB hb h

theorem HeapBooks.rest (hc : c ∈ s'.kernelBuffers) :
    c ∈ s.kernelBuffers ∧ ∀ p, b.Covers p → ¬ c.Covers p := by
  have hperm := h.perm hB.inv hb
  have hdisj := (hperm.pairwise_iff (fun hxy q hx hy => hxy q hy hx)).mp hB.inv.heap.disjoint
  exact ⟨hperm.mem_iff.mpr (List.mem_cons_of_mem b hc), List.rel_of_pairwise_cons hdisj hc⟩

theorem HeapBooks.entry_rest (hc : c ∈ s'.kernelBuffers) (hcov : c.Covers v) :
    s'.entry .kernel v = s.entry .kernel v := by
  obtain ⟨hcs, hdisj⟩ := hB.rest hb h hc
  obtain ⟨hv, -⟩ := hB.inv.heap.covered c hcs v hcov
  exact (h.entry_kept hB.inv (hB.inv.buffer_fits hb) (kernel_mem_spaces L) (hB.inv.kernel_lt hv)
    (fun hbv => hdisj v hbv hcov)).1

theorem HeapBooks.freed_clean : FreeClean s' := by
  intro v hv hfree
  rw [h.length] at hv
  by_cases hcov : b.Covers v
  · rw [h.entry_freed hcov, freedPage, if_neg (hB.own b hb v hcov).frame]
    exact ⟨rfl, rfl⟩
  · rw [(h.entry_kept hB.inv (hB.inv.buffer_fits hb) (kernel_mem_spaces L) (hB.inv.kernel_lt hv)
      hcov).1]
    rw [h.used, decide_eq_true hcov] at hfree
    exact hB.clean v hv hfree

theorem HeapBooks.freed_used (p : Nat) : s'.kernelMemmap.used p = true ↔
    s₀.kernelMemmap.used p = true ∨ ∃ c ∈ s'.kernelBuffers, c.Covers p := by
  rw [h.used, Bool.and_eq_true, decide_eq_true_eq, hB.used]
  constructor
  · rintro ⟨hnb, hp | ⟨c, hc, hcov⟩⟩
    · exact Or.inl hp
    · rcases List.mem_cons.mp ((h.perm hB.inv hb).mem_iff.mp hc) with rfl | hc
      · exact absurd hcov hnb
      · exact Or.inr ⟨c, hc, hcov⟩
  · rintro (hp | ⟨c, hc, hcov⟩)
    · refine ⟨fun hbp => ?_, Or.inl hp⟩
      rw [hB.reserved b hb p hbp] at hp
      cases hp
    · obtain ⟨hcs, hdisj⟩ := hB.rest hb h hc
      exact ⟨fun hbp => hdisj p hbp hcov, Or.inr ⟨c, hcs, hcov⟩⟩

theorem HeapBooks.freed_own (hc : c ∈ s'.kernelBuffers) (hcov : c.Covers v) : OwnFrame s' v := by
  obtain ⟨hcs, hdisj⟩ := hB.rest hb h hc
  have hown := hB.own c hcs v hcov
  have hentry := hB.entry_rest hb h hc hcov
  refine ⟨by rw [hentry]; exact hown.present, by rw [hentry]; exact hown.frame, ?_⟩
  rw [hentry, h.frameRefs _ hown.frame, hown.refs]
  intro w hw heq
  have hwlt := (hB.inv.heap.covered b hb w hw).1
  rw [← State.entry_of_ne (hB.inv.kernel_table hwlt)] at heq
  have hwv := hown.eq hB.inv (hB.inv.heap.covered c hcs v hcov).1 (kernel_mem_spaces L)
    (hB.inv.kernel_lt hwlt) heq
  exact hdisj w hw (hwv ▸ hcov)

theorem HeapBooks.freed_refs (hbal : Balanced s' L)
    (hnot : ∀ c ∈ s'.kernelBuffers, ∀ v, c.Covers v → (s'.entry .kernel v).frame ≠ f) :
    s'.frameRefs f = s₀.frameRefs f := by
  by_cases hf : f = 0
  · subst hf
    rw [h.shrink.zero]
    exact hB.refs 0 (fun c hc v hcov => (hB.own c hc v hcov).frame)
  by_cases hof : ∃ v, b.Covers v ∧ (s.entry .kernel v).frame = f
  · -- a frame of the buffer, which was free at the start
    obtain ⟨v, hcov, rfl⟩ := hof
    rw [h.frameRefs_own hB.inv hbal (hB.inv.heap.covered b hb v hcov).1 hcov hf
      (hB.own b hb v hcov).refs, hB.base.refs_of_free hf (hB.taken b hb v hcov)]
  · rw [h.frameRefs f hf]
    · refine hB.refs f (fun c hc v hcov heq => ?_)
      rcases List.mem_cons.mp ((h.perm hB.inv hb).mem_iff.mp hc) with rfl | hc
      · exact hof ⟨v, hcov, heq⟩
      · exact hnot c hc v hcov (by rw [hB.entry_rest hb h hc hcov]; exact heq)
    · intro v hcov heq
      refine hof ⟨v, hcov, ?_⟩
      rw [State.entry_of_ne (hB.inv.kernel_table (hB.inv.heap.covered b hb v hcov).1)]
      exact heq

end Freed

theorem HeapBooks.not_owned (hB : HeapBooks s₀ L s) (hb : b ∈ s.kernelBuffers) :
    b.address ∉ liveTables s.dirs L ∧ b.address ∉ L := by
  have hfree := hB.reserved b hb _ (hB.inv.heap.covers_start hb)
  rw [hB.dirs]
  constructor
  · intro hmem
    rw [(hB.base.tables_owned _ hmem).used] at hfree
    cases hfree
  · intro hmem
    rw [(hB.base.dirs_owned _ hmem).used] at hfree
    cases hfree

theorem HeapBooks.kfree (hB : HeapBooks s₀ L s) (hb : b ∈ s.kernelBuffers)
    (h : Hydrax.kfree s b.address = .ok s') :
    HeapBooks s₀ L s' ∧ s.kernelBuffers.Perm (b :: s'.kernelBuffers) := by
  have hfind := hB.inv.heap.find_eq hb
  obtain ⟨hfreed, hbal, hzero, hlen⟩ := kfree_kernel hB.inv hfind h
  obtain ⟨htables, hdirs⟩ := hB.not_owned hb
  have hrest := fun {c} hc => hB.rest hb hfreed (c := c) hc
  refine ⟨⟨hB.base, hfreed.inv hB.inv hfind hbal hzero hlen htables hdirs, hB.freed_clean hb hfreed,
    hfreed.dirs.trans hB.dirs, ?_, ?_, hfreed.length.trans hB.length, hB.freed_used hb hfreed,
    fun c hc => hB.reserved c (hrest hc).1, ?_, fun c hc => hB.unmapped c (hrest hc).1,
    fun c hc v hcov => hB.freed_own hb hfreed hc hcov, ?_,
    fun f hnot => hB.freed_refs hb hfreed hbal hnot⟩, hfreed.perm hB.inv hb⟩
  · obtain ⟨_, _, _, _, _, _, rfl, -⟩ := hfreed.step
    exact hB.heap
  · obtain ⟨_, _, _, _, _, _, rfl, -⟩ := hfreed.step
    simp only [Function.update_self]
    exact hB.noUser
  · intro v hv hu
    rw [← hB.length] at hv
    rw [(hfreed.entry_kept hB.inv (hB.inv.buffer_fits hb) (kernel_mem_spaces L)
      (hB.inv.kernel_lt hv) (fun hcov => ?_)).1]
    · exact hB.kept v (hB.length ▸ hv) hu
    · rw [hB.reserved b hb v hcov] at hu
      cases hu
  · intro c hc v hcov
    rw [hB.entry_rest hb hfreed hc hcov]
    exact hB.taken c (hrest hc).1 v hcov

theorem HeapBooks.kfree_ok (hB : HeapBooks s₀ L s) (hb : b ∈ s.kernelBuffers) :
    ∃ s', Hydrax.kfree s b.address = .ok s' :=
  kfree_kernel_ok hB.inv (hB.inv.heap.find_eq hb) (hB.unmapped b hb)

theorem HeapBooks.kfree_live (hB : HeapBooks s₀ L s) {ptr : Nat}
    (h : Hydrax.kfree s ptr = .ok s') : ∃ b ∈ s.kernelBuffers, b.address = ptr := by
  cases hfind : s.kernelBuffers.find? (fun c => c.address == ptr) with
  | some b => exact ⟨b, List.mem_of_find?_eq_some hfind, (find_address hfind).1⟩
  | none =>
    rw [Hydrax.kfree, hfind, hB.noUser] at h
    cases h

end Kfree

/-! ## Whole runs -/

theorem HeapBooks.freeAll {l : List Nat} (hB : HeapBooks s₀ L s)
    (hl : l.Perm (s.kernelBuffers.map Buffer.address)) :
    ∃ s', l.foldlM Hydrax.kfree s = .ok s' ∧ HeapBooks s₀ L s' ∧ s'.kernelBuffers = [] := by
  induction l generalizing s with
  | nil => exact ⟨s, rfl, hB, List.map_eq_nil_iff.mp (List.perm_nil.mp hl.symm)⟩
  | cons ptr l ih =>
    obtain ⟨b, hb, rfl⟩ := List.mem_map.mp (hl.mem_iff.mp (List.mem_cons_self))
    obtain ⟨s₁, hfree⟩ := hB.kfree_ok hb
    obtain ⟨hB₁, hperm⟩ := hB.kfree hb hfree
    have hl₁ : l.Perm (s₁.kernelBuffers.map Buffer.address) :=
      (hl.trans (hperm.map Buffer.address)).cons_inv
    obtain ⟨s', hrest, hB', hnil⟩ := ih hB₁ hl₁
    exact ⟨s', by rw [List.foldlM_cons, hfree, Loop.ok_bind]; exact hrest, hB', hnil⟩

theorem HeapBooks.restored (hB : HeapBooks s₀ L s) (hnil : s.kernelBuffers = []) :
    s.kernelMemmap = s₀.kernelMemmap ∧ s.physicalMemmap = s₀.physicalMemmap ∧
      s.frameRefs = s₀.frameRefs := by
  have hrefs : s.frameRefs = s₀.frameRefs := by
    funext f
    exact hB.refs f (by simp [hnil])
  refine ⟨Memmap.eq_of_used hB.length (fun p => ?_), Memmap.eq_of_used ?_ (fun f => ?_), hrefs⟩
  · rw [Bool.eq_iff_iff, hB.used, hnil]
    simp
  · rw [hB.inv.frames, hB.base.frames]
  · by_cases hf : f = 0
    · rw [hf, hB.inv.zero_frame, hB.base.zero_frame]
    · rw [Bool.eq_iff_iff, hB.inv.balanced.used_iff f hf, hB.base.balanced.used_iff f hf, hrefs]

theorem HeapRequest.size_lt {sz flags : Nat} (h : HeapRequest sz flags) : sz < wordSize := by
  have := h.size_le
  rw [wordSize] at *
  omega

theorem HeapRun.books (h₀ : HeapBooks s₀ L s₀) (h : HeapRun s₀ s) : HeapBooks s₀ L s := by
  induction h with
  | start => exact h₀
  | kalloc _ hreq h hout hB =>
    rcases kalloc_kernel hB.inv hreq.kernel hreq.size_lt h with ⟨-, rfl⟩ | ⟨-, hK⟩
    · exact hB
    · exact hB.kalloc hreq hK hout
  | kfree _ h hB =>
    obtain ⟨b, hb, rfl⟩ := hB.kfree_live h
    exact (hB.kfree hb h).1

theorem HeapBooks.start (hI : Inv s L) (hclean : FreeClean s)
    (hheap : s.kheapLen ≠ 0) (huser : (s.tasks s.currentTask).buffers = [])
    (hnil : s.kernelBuffers = []) : HeapBooks s L s := by
  refine ⟨hI, hI, hclean, rfl, hheap, huser, rfl, ?_, ?_, fun _ _ _ => rfl, ?_, ?_, ?_,
    fun _ _ => rfl⟩
  all_goals simp [hnil]

/-- The allocator is in order in the state `s` of a run that began in `s₀`. -/
structure HeapOk (s₀ : State) (L : List Nat) (s : State) : Prop where
  /-- The pages in use are those of the start and those of the buffers. -/
  used : ∀ p, s.kernelMemmap.used p = true ↔
    s₀.kernelMemmap.used p = true ∨ ∃ b ∈ s.kernelBuffers, b.Covers p
  reserved : ∀ b ∈ s.kernelBuffers, ∀ p, b.Covers p → s₀.kernelMemmap.used p = false
  disjoint : s.kernelBuffers.Pairwise (fun b c => ∀ p, b.Covers p → ¬ c.Covers p)
  /-- A page of a buffer has a frame, and it is the only page that has it. -/
  own : ∀ b ∈ s.kernelBuffers, ∀ v, b.Covers v →
    (s.entry .kernel v).present = true ∧ (s.entry .kernel v).frame ≠ 0 ∧
      ∀ d ∈ spaces L, ∀ w < 1048576,
        (s.entry d w).frame = (s.entry .kernel v).frame → w = v
  /-- New pages belong to no buffer. -/
  kalloc : ∀ {sz flags r : Nat} {mmap phys : Option Nat} {s' : State}, HeapRequest sz flags →
    Hydrax.kalloc s sz 0 flags mmap = .ok (r, phys, s') → r ≠ 0 →
      r % pageSize = 0 ∧ ∀ b ∈ s.kernelBuffers, ∀ p, b.Covers p →
        ¬ (r / pageSize ≤ p ∧ p < r / pageSize + pageCount sz)
  kfree : ∀ b ∈ s.kernelBuffers, ∃ s', Hydrax.kfree s b.address = .ok s' ∧
    s.kernelBuffers.Perm (b :: s'.kernelBuffers)
  freeAll : ∀ l : List Nat, l.Perm (s.kernelBuffers.map Buffer.address) →
    ∃ s', l.foldlM Hydrax.kfree s = .ok s' ∧ s'.kernelMemmap = s₀.kernelMemmap ∧
      s'.physicalMemmap = s₀.physicalMemmap ∧ s'.frameRefs = s₀.frameRefs ∧
      s'.kernelBuffers = s₀.kernelBuffers

theorem HeapBooks.ok (hB : HeapBooks s₀ L s) (hnil : s₀.kernelBuffers = []) : HeapOk s₀ L s where
  used := hB.used
  reserved := hB.reserved
  disjoint := hB.inv.heap.disjoint
  own b hb v hcov := by
    have hown := hB.own b hb v hcov
    exact ⟨hown.present, hown.frame, fun d hd w hw heq =>
      hown.eq hB.inv (hB.inv.heap.covered b hb v hcov).1 hd hw heq⟩
  kalloc {sz flags r mmap phys s'} hreq h hr := by
    rcases kalloc_kernel hB.inv hreq.kernel hreq.size_lt h with ⟨hr', -⟩ | ⟨-, hK⟩
    · exact absurd hr' hr
    · refine ⟨hK.aligned, fun b hb p hcov hp => ?_⟩
      have hfree := hK.free (v := p) (inRange_eq_true.mpr ?_)
      · rw [(hB.inv.heap.covered b hb p hcov).2] at hfree
        cases hfree
      · rw [(pageCount_of_kallocPages_pos hreq.size_lt hK.pages_pos).1]
        exact hp
  kfree b hb := by
    obtain ⟨s', hfree⟩ := hB.kfree_ok hb
    exact ⟨s', hfree, (hB.kfree hb hfree).2⟩
  freeAll l hl := by
    obtain ⟨s', hfree, hB', hnil'⟩ := hB.freeAll hl
    obtain ⟨hpages, hframes, hrefs⟩ := hB'.restored hnil'
    exact ⟨s', hfree, hpages, hframes, hrefs, by rw [hnil', hnil]⟩

/-- **The kernel's page allocator** is in order in every run from the end of `kheap_init`. -/
theorem kernel_allocator_ok {b : Boot} {s₁ s₀ s : State} (hinit : mmuInit b = .ok s₁)
    (hheap : kheapInit s₁ = .ok s₀) (hrun : HeapRun s₀ s) :
    ∃ a, s₀.currentDirectory = .heap a ∧ HeapOk s₀ [a] s := by
  obtain ⟨a, s₁', s₀', hinit', hheap', -, hS⟩ := start_ok b
  obtain rfl : s₁' = s₁ := Except.ok.inj (hinit'.symm.trans hinit)
  obtain rfl : s₀' = s₀ := Except.ok.inj (hheap'.symm.trans hheap)
  obtain ⟨m, phys, -, -, hP⟩ := hS.task
  have htask : s₀'.tasks s₀'.currentTask =
      { memmap := m, directory := .heap a, directoryPhysical := phys } := by
    rw [hP.current, hP.task_eq]
  have hstart := HeapBooks.start hS.inv hS.clean (by rw [hS.heap]; decide) (by rw [htask]) hP.buffers
  refine ⟨a, ?_, (hrun.books hstart).ok hP.buffers⟩
  rw [State.currentDirectory, htask]

theorem kallocPage_ok {N M : Nat} (hI : Inv s L)
    (hroom : Room s N M) (hN : N < s.kernelMemmap.length) (hM : M < 65536) :
    HeapRequest 4096 cloneKflags ∧ ∃ r phys s', kalloc s 4096 0 cloneKflags = .ok (r, phys, s') ∧
      r ≠ 0 ∧ KernelAllocated s s' L r 1 cloneKflags none phys ∧ Room s' (N + 1) (M + 1) :=
  ⟨⟨by decide, by decide, rfl, rfl, rfl⟩,
    kalloc_kernel_ok (allocTableWith noTable) 4096 none hI rfl hroom rfl (by decide) hN hM⟩

theorem kernel_allocator_ok_first : ∃ s₁ s₀ s a, mmuInit Boot.small = .ok s₁ ∧
    kheapInit s₁ = .ok s₀ ∧ HeapRun s₀ s ∧ s.kernelBuffers ≠ [] ∧ HeapOk s₀ [a] s := by
  obtain ⟨a, s₁, s₀, N, M, hinit, hheap, hF⟩ := start_small
  have hpages := hF.pagesLeft
  have hframes := hF.framesLeft
  obtain ⟨hreq, r, phys, s, halloc, -, hK, hroom⟩ :=
    kallocPage_ok hF.process.inv hF.room (by omega) (by omega)
  have hrun : HeapRun s₀ s := .kalloc .start hreq halloc hroom.out
  obtain ⟨a', -, hok⟩ := kernel_allocator_ok hinit hheap hrun
  refine ⟨s₁, s₀, s, a', hinit, hheap, hrun, ?_, hok⟩
  rw [hK.buffers, State.newBuffers_eq hF.heap hreq]
  simp

end Hydrax
