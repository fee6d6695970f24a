import Hydrax.Mmu.Pages

/-!
# The loops of `kalloc`

`kalloc` walks the pages of its range three times: to test them, to mark them and to map them. For a
range that ends below the top of the address space the three loops visit the same pages, once each
and in order; `kallocBody_cases` cuts the function at them.

* `foldlM_memmapSetPage` is the effect of the marking loop,
* `foldlM_kallocMapPage` that of the mapping loop, on pages that have their tables.
-/

namespace Hydrax

open Loop

variable {s s' : State} {d : DirRef} {m : Memmap} {a flags n r sz v : Nat} {A : TableAlloc}
  {phys : Option Nat}

/-! ## The pages of a range -/

/-- `n` pages from page `p` on. -/
def pagesFrom (p n : Nat) : List Nat := List.range' p n

theorem mem_pagesFrom {p : Nat} : v ∈ pagesFrom p n ↔ p ≤ v ∧ v < p + n := by
  simp [pagesFrom, List.mem_range'_1]

theorem pagesFrom_succ (p n : Nat) : pagesFrom p (n + 1) = p :: pagesFrom (p + 1) n := rfl

theorem nodup_pagesFrom (p n : Nat) : (pagesFrom p n).Nodup := List.nodup_range'

theorem pageAddrs_eq_map (ha : a % pageSize = 0) (n : Nat) :
    pageAddrs a n = (pagesFrom (a / pageSize) n).map (fun v => v * pageSize) := by
  induction n generalizing a with
  | zero => rfl
  | succ n ih =>
    have hnext : (a + pageSize) / pageSize = a / pageSize + 1 :=
      Nat.add_div_right a (by decide)
    have hself : a / pageSize * pageSize = a := Nat.div_mul_cancel (Nat.dvd_of_mod_eq_zero ha)
    rw [pageAddrs_succ, pagesFrom_succ, List.map_cons, hself, ih (by simpa using ha), hnext]

/-! ## The bounds of the loops -/

theorem pageCount_mul_ge (sz : Nat) : sz ≤ pageCount sz * pageSize := by
  simp only [pageCount, pageSize]
  omega

theorem kallocPages_eq (h : sz + 0xFFF < wordSize) : kallocPages sz = pageCount sz := by
  rw [kallocPages, Nat.mod_eq_of_lt h, pageCount]

section Fit

variable {σ : Type} (body : σ → Nat → Except Stop σ) {r sz : Nat}
  (hfit : r + pageCount sz * pageSize < wordSize)

include hfit

theorem kallocBound_of_fit : kallocBound r sz = r + sz := by
  have := pageCount_mul_ge sz
  exact Nat.mod_eq_of_lt (by omega)

theorem pageCount_lt_addrFuel : pageCount sz < addrFuel := by
  simp only [pageSize, wordSize] at hfit
  simp only [addrFuel]
  omega

theorem forAddr_kalloc (s : σ) :
    forAddr body (kallocBound r sz) addrFuel r s = (pageAddrs r (pageCount sz)).foldlM body s := by
  rw [kallocBound_of_fit hfit]
  exact forAddr_eq_foldlM body hfit (pageCount_lt_addrFuel hfit) s

theorem forAddr_kalloc_rest (hsz : 0 < sz) (s : σ) :
    forAddr body (kallocBound r sz) addrFuel ((r + 0x1000) % wordSize) s =
      (pageAddrs (r + pageSize) (pageCount sz - 1)).foldlM body s := by
  have hcount : 0 < pageCount sz := by
    simp only [pageCount]
    omega
  have hnext : (r + 0x1000) % wordSize = r + pageSize := by
    apply Nat.mod_eq_of_lt
    simp only [pageSize] at hfit
    omega
  rw [kallocBound_of_fit hfit, hnext]
  by_cases hle : pageSize ≤ sz
  · have hrest : pageCount sz - 1 = pageCount (sz - pageSize) := by
      simp only [pageCount, pageSize] at hle ⊢
      omega
    have hbound : r + sz = r + pageSize + (sz - pageSize) := by omega
    have hfit' : r + pageSize + pageCount (sz - pageSize) * pageSize < wordSize := by
      rw [← hrest]
      simp only [pageSize] at hfit ⊢
      omega
    rw [hrest, hbound]
    exact forAddr_eq_foldlM body hfit' (pageCount_lt_addrFuel hfit') s
  · -- one page: the loop ends at once
    have hone : pageCount sz - 1 = 0 := by
      simp only [pageCount, pageSize] at hle ⊢
      omega
    rw [hone, pageAddrs_zero, List.foldlM_nil, addrFuel, forAddr, if_neg (by omega)]
    rfl

end Fit

/-! ## Marking -/

/-- Page `q` is one of `n` pages from page `p` on. -/
def inRange (p n q : Nat) : Bool := p ≤ q && q < p + n

theorem inRange_eq_true {p q : Nat} : inRange p n q = true ↔ p ≤ q ∧ q < p + n := by
  simp [inRange]

theorem foldlM_memmapSetPage {m' : Memmap} (ha : a % pageSize = 0)
    (h : (pageAddrs a n).foldlM memmapSetPage m = .ok m') :
    m'.length = m.length ∧ ∀ q, m'.used q = (inRange (a / pageSize) n q || m.used q) := by
  induction n generalizing a m with
  | zero =>
    rw [pageAddrs_zero, List.foldlM_nil, pure_eq_ok] at h
    subst h
    refine ⟨rfl, fun q => ?_⟩
    have : inRange (a / pageSize) 0 q = false := by
      rw [Bool.eq_false_iff]
      intro hq
      have := inRange_eq_true.mp hq
      omega
    simp [this]
  | succ n ih =>
    rw [pageAddrs_succ, List.foldlM_cons, bind_eq_ok] at h
    obtain ⟨m₁, hfirst, hrest⟩ := h
    obtain ⟨_, hlen₁, hused₁⟩ := memmapSetPage_spec hfirst
    obtain ⟨hlen, hused⟩ := ih (by simpa using ha) hrest
    refine ⟨hlen.trans hlen₁, fun q => ?_⟩
    rw [hused, hused₁, Nat.add_div_right a (by decide)]
    have : inRange (a / pageSize) (n + 1) q =
        (inRange (a / pageSize + 1) n q || decide (q = a / pageSize)) := by
      rw [Bool.eq_iff_iff]
      simp only [Bool.or_eq_true, inRange_eq_true, decide_eq_true_eq]
      omega
    rw [this, Bool.or_assoc]

theorem foldlM_memmapSetPage_ok (ha : a % pageSize = 0) :
    ∃ m', (pageAddrs a n).foldlM memmapSetPage m = .ok m' := by
  induction n generalizing a m with
  | zero => exact ⟨m, rfl⟩
  | succ n ih =>
    obtain ⟨m₁, hfirst⟩ := memmapSetPage_ok (m := m) ha
    obtain ⟨m', hrest⟩ := ih (m := m₁) (a := a + pageSize) (by simpa using ha)
    exact ⟨m', by rw [pageAddrs_succ, List.foldlM_cons, hfirst]; exact hrest⟩

/-! ## Mapping -/

/-- The entries of the pages `l` of `d`. -/
def PageSlots (s : State) (d : DirRef) (l : List Nat) (t j : Nat) : Prop :=
  ∃ v ∈ l, Slot (s.tableOf d v) (pageIdx v) t j

/-- The entry and the record of page `v` are those `mmu_alloc_page` leaves, and if it took a frame
the frame is one that nobody had. -/
def MappedEntry (s s' : State) (d : DirRef) (flags v : Nat) : Prop :=
  ∃ f, s'.entry d v = allocatedPage flags f (s.entry d v) ∧
    s'.record d v = allocatedInfo flags (s.entry d v) (s.record d v) ∧
    (takesFrame flags (s.entry d v) = true → s'.outOfFrames = false → FreshFrame s s' f)

/-- The frames `fs` were taken from a bitmap one after the other, each the lowest free one. -/
inductive FramesTaken : Memmap → List Nat → Memmap → Prop where
  | nil (m : Memmap) : FramesTaken m [] m
  | cons {m m₁ m' : Memmap} {fs : List Nat} (length : m₁.length = m.length)
      (used : ∀ g, m₁.used g = (decide (g = memmapFindFreePage m) || m.used g))
      (rest : FramesTaken m₁ fs m') : FramesTaken m (memmapFindFreePage m :: fs) m'

theorem FramesTaken.lowest {m' : Memmap} {fs : List Nat} (h : FramesTaken m fs m') {k : Nat}
    (hk : ∀ f, m.used f = decide (f < k)) (hroom : k + fs.length ≤ m.searched) :
    fs = List.range' k fs.length ∧ ∀ f, m'.used f = decide (f < k + fs.length) := by
  induction h generalizing k with
  | nil m => exact ⟨rfl, hk⟩
  | @cons m m₁ m' fs length used rest ih =>
    rw [List.length_cons] at hroom
    have hfirst := memmapFindFreePage_of_prefix (by omega) hk
    have hk₁ : ∀ f, m₁.used f = decide (f < k + 1) := by
      intro f
      rw [used, hfirst, hk, ← Bool.decide_or]
      exact decide_eq_decide.mpr (by omega)
    have hsearched : m₁.searched = m.searched := by rw [Memmap.searched, length, Memmap.searched]
    obtain ⟨hfs, hused⟩ := ih hk₁ (by omega)
    refine ⟨?_, fun f => ?_⟩
    · rw [hfirst, List.length_cons, List.range'_succ, ← hfs]
    · rw [hused, List.length_cons]
      exact decide_eq_decide.mpr (by omega)

/-- The effect of the mapping loop on pages that have their tables. -/
structure MappedPages (s s' : State) (d : DirRef) (l : List Nat) (flags : Nat) : Prop where
  touches : Touches (PageSlots s d l) s s'
  grow : FramesGrow s s'
  entry : ∀ v ∈ l, MappedEntry s s' d flags v
  order : (∀ v ∈ l, takesFrame flags (s.entry d v) = true) →
    FramesTaken s.physicalMemmap (l.map (fun v => (s'.entry d v).frame)) s'.physicalMemmap

theorem FrameStep.tableOf (h : FrameStep s s') (d : DirRef) (v : Nat) :
    s'.tableOf d v = s.tableOf d v := by
  obtain ⟨_, _, _, _, rfl⟩ := h
  rfl

theorem Touches.entry_eq {P : Nat → Nat → Prop} (h : Touches P s s')
    (hP : s.tableOf d v ≠ 0 → ¬ P (s.tableOf d v) (pageIdx v)) :
    s'.entry d v = s.entry d v ∧ s'.record d v = s.record d v :=
  entry_congr (h.step.tableOf d v) (fun h0 => ⟨h.page _ _ (hP h0), h.info _ _ (hP h0)⟩)

theorem MappedPage.mappedEntry {L : List Nat} (hI : Inv s L) (h0 : s.tableOf d v ≠ 0)
    (h : MappedPage s s' (s.tableOf d v) (pageIdx v) flags) : MappedEntry s s' d flags v := by
  have h0' : s'.tableOf d v ≠ 0 := by rwa [h.touches.step.tableOf]
  rw [MappedEntry, State.entry_of_ne h0, State.entry_of_ne h0', State.record_of_ne h0,
    State.record_of_ne h0', h.touches.step.tableOf]
  exact ⟨s.nextFrame, h.page, h.info, h.fresh hI⟩

theorem MappedEntry.mono {s₀ s₁ s₂ s₃ : State}
    (h : MappedEntry s₁ s₂ d flags v) (hbefore : FramesGrow s₀ s₁) (hafter : FramesGrow s₂ s₃)
    (hentry : s₁.entry d v = s₀.entry d v ∧ s₁.record d v = s₀.record d v)
    (hentry' : s₃.entry d v = s₂.entry d v ∧ s₃.record d v = s₂.record d v) :
    MappedEntry s₀ s₃ d flags v := by
  obtain ⟨f, hpage, hinfo, hfresh⟩ := h
  rw [hentry.1] at hpage hinfo hfresh
  rw [hentry.2] at hinfo
  refine ⟨f, hentry'.1.trans hpage, hentry'.2.trans hinfo, fun htake ho => ?_⟩
  exact (hfresh htake (hafter.out_false ho)).mono hbefore hafter

theorem kallocMapPage_eq_ok {vaddr : Nat} : kallocMapPage A d flags s vaddr = .ok s' ↔
      ∃ phys, mmuAllocPage A s d vaddr (pageFlags flags) = .ok (true, phys, s') := by
  simp only [kallocMapPage, bind_eq_ok, Prod.exists, assert_eq_ok, pure_eq_ok]
  constructor
  · rintro ⟨ok, phys, s₁, h, _, rfl, rfl⟩
    exact ⟨phys, h⟩
  · rintro ⟨phys, h⟩
    exact ⟨true, phys, s', h, (), rfl, rfl⟩

/-- **The rule for the mapping loop**, whatever its range: it keeps what mapping one page keeps. -/
theorem kallocMap_inv {I : State → Prop} (h : kallocMap A s d sz r flags = .ok (phys, s'))
    (step : ∀ {t t' tmp p}, (r < wordSize → tmp < wordSize) →
      mmuAllocPage A t d tmp (pageFlags flags) = .ok (true, p, t') → I t → I t') (h₀ : I s) :
    I s' := by
  simp only [kallocMap, bind_eq_ok, Prod.exists, assert_eq_ok, pure_eq_ok] at h
  obtain ⟨ok, phys', s₁, hfirst, _, rfl, s₂, hrest, h⟩ := h
  cases h
  refine forAddr_inv I (fun t t' tmp htmp ht hbody => ?_) (Nat.mod_lt _ (by decide))
    (step id hfirst h₀) hrest
  obtain ⟨p, hp⟩ := kallocMapPage_eq_ok.mp hbody
  exact step (fun _ => htmp) hp ht

theorem foldlM_kallocMapPage {L : List Nat}
    (hd : d ∈ spaces L) {l : List Nat} (hnodup : l.Nodup) (hI : Inv s L)
    (hl : ∀ v ∈ l, v < 1048576 ∧ s.tableOf d v ≠ 0)
    (h : (l.map (fun v => v * pageSize)).foldlM (kallocMapPage A d flags) s = .ok s') :
    Inv s' L ∧ MappedPages s s' d l (pageFlags flags) := by
  induction l generalizing s with
  | nil =>
    rw [List.map_nil, List.foldlM_nil, pure_eq_ok] at h
    subst h
    exact ⟨hI, .refl _ _, .refl _, fun v hv => absurd hv (by simp), fun _ => .nil _⟩
  | cons v l ih =>
    rw [List.map_cons, List.foldlM_cons, bind_eq_ok] at h
    obtain ⟨s₁, hfirst, hrest⟩ := h
    obtain ⟨phys, hfirst⟩ := kallocMapPage_eq_ok.mp hfirst
    obtain ⟨hv, hv0⟩ := hl v (by simp)
    obtain ⟨hnotin, hnodup⟩ := List.nodup_cons.mp hnodup
    have hdiv : v * pageSize / pageSize = v := mul_pageSize_div v
    have hI₁ : Inv s₁ L := hI.allocPage hd (by rwa [hdiv]) (by rwa [hdiv]) hfirst
    obtain ⟨-, hone, -⟩ := mmuAllocPage_of_table hfirst hdiv rfl hv0
    have htab := hone.touches.step.tableOf (d := d)
    obtain ⟨hI', hmapped⟩ := ih hnodup hI₁
      (fun w hw => ⟨(hl w (by simp [hw])).1, by rw [htab]; exact (hl w (by simp [hw])).2⟩) hrest
    -- the entry of `v` is not one of those the rest of the loop works on
    have hsep : ∀ w ∈ l, ¬ Slot (s.tableOf d w) (pageIdx w) (s.tableOf d v) (pageIdx v) := by
      rintro w hw ⟨ht, hj⟩
      have := (hI.slot_eq hd hd hv (hl w (by simp [hw])).1 hv0 ht hj).1
      exact hnotin (this ▸ hw)
    have hkept : s'.entry d v = s₁.entry d v ∧ s'.record d v = s₁.record d v := by
      apply hmapped.touches.entry_eq
      rintro - ⟨x, hx, hslot⟩
      rw [htab, htab] at hslot
      exact hsep x hx hslot
    have hlater : ∀ w ∈ l, s₁.entry d w = s.entry d w ∧ s₁.record d w = s.record d w := by
      intro w hw
      apply hone.touches.entry_eq
      rintro - ⟨ht, hj⟩
      exact hsep w hw ⟨ht.symm, hj.symm⟩
    refine ⟨hI', ?_, hone.grow.trans hmapped.grow, ?_, fun htakes => ?_⟩
    · refine (hone.touches.mono ?_).trans (hmapped.touches.mono ?_)
      · intro t j hslot
        exact ⟨v, by simp, hslot⟩
      · rintro t j ⟨w, hw, hslot⟩
        rw [htab] at hslot
        exact ⟨w, by simp [hw], hslot⟩
    · intro w hw
      rcases List.mem_cons.mp hw with rfl | hw'
      · exact (hone.mappedEntry hI hv0).mono (.refl s) hmapped.grow ⟨rfl, rfl⟩ hkept
      · exact (hmapped.entry w hw').mono hone.grow (.refl s') (hlater w hw') ⟨rfl, rfl⟩
    · have htake := htakes v (by simp)
      rw [State.entry_of_ne hv0] at htake
      have hframe : (s'.entry d v).frame = s.nextFrame := by
        rw [hkept.1, State.entry_of_ne (by rwa [htab]), htab, hone.page, allocatedPage,
          if_pos htake]
      rw [List.map_cons, hframe]
      refine .cons hone.touches.length (fun g => ?_) (hmapped.order (fun w hw => ?_))
      · rw [hone.used, htake, Bool.true_and, State.nextFrame]
      · rw [(hlater w hw).1]
        exact htakes w (by simp [hw])

/-! ## The cut -/

theorem kallocBody_cases {vaddr : Nat}
    {mmap : Option Nat} {k : Bool} (hk : hasFlag flags kallocOptnKernel = k)
    (h : kallocBody A s sz vaddr flags mmap = .ok (r, phys, s')) :
    vaddr % pageSize = 0 ∧ kallocPlace (s.memmapOf k) sz vaddr = .ok r ∧
      ((r = 0 ∧ phys = none ∧ s' = s) ∨
        (r ≠ 0 ∧ ∃ m s₁,
          forAddr memmapSetPage (kallocBound r sz) addrFuel r (s.memmapOf k) = .ok m ∧
          kallocMap A (s.setMemmapOf k m) (s.dirOf k) sz r flags = .ok (phys, s₁) ∧
          kallocTrack s₁ sz r flags mmap = .ok s')) := by
  simp only [kallocBody, hk, bind_eq_ok, assert_eq_ok, Bool.or_eq_true, beq_iff_eq] at h
  obtain ⟨_, halign, r', hplace, h⟩ := h
  have halign' : vaddr % pageSize = 0 := by
    rcases halign with rfl | halign
    · rfl
    · exact halign
  split at h
  · next h0 =>
      rw [pure_eq_ok] at h
      cases h
      exact ⟨halign', h0 ▸ hplace, Or.inl ⟨rfl, rfl, rfl⟩⟩
  · next h0 =>
      simp only [bind_eq_ok, pure_eq_ok, Prod.exists, Prod.mk.injEq] at h
      obtain ⟨m, hmark, phys', s₁, hmap, s₂, htrack, rfl, rfl, rfl⟩ := h
      exact ⟨halign', hplace, Or.inr ⟨h0, m, s₁, hmark, hmap, htrack⟩⟩

theorem kallocMap_of_fit (hfit : r + pageCount sz * pageSize < wordSize) (hsz : 0 < sz)
    (h : kallocMap A s d sz r flags = .ok (phys, s')) :
    ∃ s₁, mmuAllocPage A s d r (pageFlags flags) = .ok (true, phys, s₁) ∧
      (pageAddrs (r + pageSize) (pageCount sz - 1)).foldlM (kallocMapPage A d flags) s₁ = .ok s' := by
  simp only [kallocMap, bind_eq_ok, Prod.exists, assert_eq_ok, pure_eq_ok] at h
  obtain ⟨ok, phys', s₁, hfirst, _, rfl, s₂, hrest, h⟩ := h
  cases h
  rw [forAddr_kalloc_rest _ hfit hsz] at hrest
  exact ⟨s₁, hfirst, hrest⟩

theorem kallocMap_foldlM (hfit : r + pageCount sz * pageSize < wordSize) (hsz : 0 < sz)
    (h : kallocMap A s d sz r flags = .ok (phys, s')) :
    (pageAddrs r (pageCount sz)).foldlM (kallocMapPage A d flags) s = .ok s' := by
  obtain ⟨s₁, hfirst, hrest⟩ := kallocMap_of_fit hfit hsz h
  have hcount : pageCount sz = pageCount sz - 1 + 1 := by
    simp only [pageCount]
    omega
  rw [hcount, pageAddrs_succ, List.foldlM_cons, kallocMapPage_eq_ok.mpr ⟨phys, hfirst⟩]
  exact hrest

/-! ## The flags of `kalloc` -/

section PageFlags

variable (flags : Nat)

@[simp] theorem pageFlags_mktable : hasFlag (pageFlags flags) allocFrameMktable = true := by
  simp only [pageFlags]
  split <;> split <;> split <;> rfl

@[simp] theorem pageFlags_writeable : hasFlag (pageFlags flags) allocFrameWriteable = true := by
  simp only [pageFlags]
  split <;> split <;> split <;> rfl

@[simp] theorem pageFlags_kernel : hasFlag (pageFlags flags) allocFrameKernel = false := by
  simp only [pageFlags]
  split <;> split <;> split <;> rfl

@[simp] theorem pageFlags_mmap :
    hasFlag (pageFlags flags) allocFrameMmap = hasFlag flags kallocOptnMmap := by
  simp only [pageFlags]
  cases hasFlag flags kallocOptnNocow <;> cases hasFlag flags kallocOptnNoshare <;>
    cases hasFlag flags kallocOptnMmap <;> rfl

@[simp] theorem pageFlags_allocPhys :
    hasFlag (pageFlags flags) allocFrameAllocPhys = !hasFlag flags kallocOptnMmap := by
  simp only [pageFlags]
  cases hasFlag flags kallocOptnNocow <;> cases hasFlag flags kallocOptnNoshare <;>
    cases hasFlag flags kallocOptnMmap <;> rfl

end PageFlags

end Hydrax
