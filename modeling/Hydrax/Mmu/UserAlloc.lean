import Hydrax.Mmu.Spaces

/-!
# Allocating user memory

`kalloc` without `KALLOC_OPTN_KERNEL`, on the directory of the current process. A page whose table
is missing gets one first, from kernel memory.

`UserAlloc` is what the mapping loop may change when the pages in a list are mapped: their entries
in the directory that maps them, and the entries of kernel pages that were free before, which now
hold page tables.
-/

namespace Hydrax

open Loop

variable {s s' s₁ : State} {L l : List Nat} {a flags r sz v vaddr : Nat} {mmap phys : Option Nat}

/-! ## What an allocation leaves alone -/

/-- The fields that mapping pages of a process writes. -/
def UserStep (s s' : State) : Prop :=
  ∃ D T P R o m b k, s' = { s with
    dirs := D, tables := T, physicalMemmap := P, frameRefs := R, outOfFrames := o
    kernelMemmap := m, kernelBuffers := b, mallocs := k }

theorem UserStep.refl (s : State) : UserStep s s := ⟨_, _, _, _, _, _, _, _, rfl⟩

theorem UserStep.trans {s₂ s₃ : State} (h : UserStep s₁ s₂) (h' : UserStep s₂ s₃) :
    UserStep s₁ s₃ := by
  obtain ⟨_, _, _, _, _, _, _, _, rfl⟩ := h
  obtain ⟨_, _, _, _, _, _, _, _, rfl⟩ := h'
  exact ⟨_, _, _, _, _, _, _, _, rfl⟩

theorem FrameStep.userStep (h : FrameStep s s') : UserStep s s' := by
  obtain ⟨_, _, _, _, rfl⟩ := h
  exact ⟨_, _, _, _, _, _, _, _, rfl⟩

/-- Page `v` of the kernel was free and is not any more. -/
def NewKernelPage (s s' : State) (v : Nat) : Prop :=
  v < s.kernelMemmap.length ∧ s.kernelMemmap.used v = false ∧ s'.kernelMemmap.used v = true

/-- The pages `l` of the directory at `a` were mapped. -/
structure UserAlloc (a : Nat) (L l : List Nat) (flags : Nat) (s s' : State) : Prop where
  step : UserStep s s'
  dirs : ∀ d, d ≠ .heap a → s'.dirs d = s.dirs d
  tables : ∀ i, (s.dirs (.heap a)).tables i ≠ 0 →
    (s'.dirs (.heap a)).tables i = (s.dirs (.heap a)).tables i
  length : s'.kernelMemmap.length = s.kernelMemmap.length
  kernelUsed : ∀ v, s.kernelMemmap.used v = true → s'.kernelMemmap.used v = true
  grow : FramesGrow s s'
  /-- Other pages keep their entries. -/
  entry : ∀ d ∈ spaces L, ∀ v < 1048576, ¬ NewKernelPage s s' v → (v ∈ l → d ≠ .heap a) →
    s'.entry d v = s.entry d v ∧ s'.record d v = s.record d v
  mapped : ∀ v ∈ l, MappedEntry s s' (.heap a) flags v

theorem UserAlloc.refl (a : Nat) (L : List Nat) (flags : Nat) (s : State) :
    UserAlloc a L [] flags s s :=
  ⟨.refl s, fun _ _ => rfl, fun _ _ => rfl, rfl, fun _ h => h, .refl s,
    fun _ _ _ _ _ _ => ⟨rfl, rfl⟩, fun _ h => absurd h (by simp)⟩

theorem not_newKernelPage (hlen : s₁.kernelMemmap.length = s.kernelMemmap.length)
    (hused : ∀ v, s.kernelMemmap.used v = true → s₁.kernelMemmap.used v = true)
    (hused' : ∀ v, s₁.kernelMemmap.used v = true → s'.kernelMemmap.used v = true)
    (h : ¬ NewKernelPage s s' v) : ¬ NewKernelPage s s₁ v ∧ ¬ NewKernelPage s₁ s' v := by
  constructor
  · rintro ⟨hlt, hfree, hnew⟩
    exact h ⟨hlt, hfree, hused' v hnew⟩
  · rintro ⟨hlt, hfree, hnew⟩
    exact h ⟨hlen ▸ hlt, false_of_imp (hused v) hfree, hnew⟩

theorem UserAlloc.append {l' : List Nat} (ha : a ∈ L) (hdisj : ∀ v ∈ l, v ∉ l')
    (hl : ∀ v, v ∈ l ∨ v ∈ l' → s.kernelMemmap.length ≤ v ∧ v < 1048576)
    (h : UserAlloc a L l flags s s₁) (h' : UserAlloc a L l' flags s₁ s') :
    UserAlloc a L (l ++ l') flags s s' := by
  have hd : DirRef.heap a ∈ spaces L := heap_mem_spaces.mpr ha
  refine ⟨h.step.trans h'.step, fun d hd => (h'.dirs d hd).trans (h.dirs d hd), ?_,
    h'.length.trans h.length, fun v hv => h'.kernelUsed v (h.kernelUsed v hv), h.grow.trans h'.grow,
    ?_, ?_⟩
  · intro i h0
    rw [h'.tables i (by rwa [h.tables i h0]), h.tables i h0]
  · intro d hd v hv hnew hP
    obtain ⟨hnew₁, hnew'⟩ := not_newKernelPage h.length h.kernelUsed h'.kernelUsed hnew
    obtain ⟨he, hr⟩ := h.entry d hd v hv hnew₁ (fun hvl => hP (List.mem_append_left _ hvl))
    obtain ⟨he', hr'⟩ := h'.entry d hd v hv hnew' (fun hvl => hP (List.mem_append_right _ hvl))
    exact ⟨he'.trans he, hr'.trans hr⟩
  · intro v hv
    rcases List.mem_append.mp hv with hvl | hvl
    · obtain ⟨hlen, hlt⟩ := hl v (Or.inl hvl)
      refine (h.mapped v hvl).mono (.refl s) h'.grow ⟨rfl, rfl⟩ ?_
      exact h'.entry _ hd v hlt (fun hn => by have := hn.1; rw [h.length] at this; omega)
        (fun hvl' => absurd hvl' (hdisj v hvl))
    · obtain ⟨hlen, hlt⟩ := hl v (Or.inr hvl)
      refine (h'.mapped v hvl).mono h.grow (.refl s') ?_ ⟨rfl, rfl⟩
      exact h.entry _ hd v hlt (fun hn => by have := hn.1; omega)
        (fun hvl' => absurd hvl (hdisj v hvl'))

/-! ## One page -/

def tableKflags : Nat := kallocOptnAlign ||| kallocOptnKernel

theorem kernel_of_tableKflags : hasFlag tableKflags kallocOptnKernel = true := rfl

theorem Complete.user_of_missing {d : DirRef} (hI : Inv s L)
    (hC : Complete s d) (h0 : s.tableOf d v = 0) : s.kernelMemmap.length ≤ v := by
  by_contra hlt
  rw [hC.tableOf hI (not_le.mp hlt)] at h0
  exact hI.kernel_table (not_le.mp hlt) h0

theorem mmuMakeTable_cases {ok : Bool} (hI : Inv s L)
    (ha : a ∈ L) (hC : Complete s (.heap a)) (hv : v < 1048576) (h0 : s.tableOf (.heap a) v = 0)
    (h : mmuMakeTable (allocTableWith noTable) s (.heap a) v = .ok (ok, s')) :
    ok = false ∨ (ok = true ∧ ∃ t phys s₁, t ≠ 0 ∧ KernelAllocated s s₁ L t 3 tableKflags none phys ∧
      s' = s₁.addTable a (tableIdx v) t (phys.getD 0 ||| 7) {} ∧ Inv s' L) := by
  simp only [mmuMakeTable, allocTableWith, bind_eq_ok, Prod.exists, pure_eq_ok] at h
  obtain ⟨t, p, s₁, ⟨t', phys, s₁', halloc, hpair⟩, h⟩ := h
  cases hpair
  by_cases ht : t = 0
  · subst ht
    rw [if_pos rfl] at h
    cases h
    exact Or.inl rfl
  · rw [if_neg ht] at h
    cases h
    refine Or.inr ⟨rfl, t, phys, s₁, ht, ?_⟩
    rcases kalloc_kernel hI kernel_of_tableKflags (by decide) halloc with ⟨rfl, -⟩ | ⟨-, hK⟩
    · exact absurd rfl ht
    have hK : KernelAllocated s s₁ L t 3 tableKflags none phys := hK
    refine ⟨hK, rfl, ?_⟩
    have huser := hC.user_of_missing hI h0
    have hidx : kernelTables s₁.kernelMemmap ≤ tableIdx v := by
      rw [kernelTables, hK.alloc.length]
      by_contra hlt
      have := (tableIdx_lt_kernelTables hI.heap.length_mod).mp (not_le.mp hlt)
      omega
    refine hK.inv.addTable ha hidx (tableIdx_lt hv) ht ?_ ?_ (hK.not_mem_dirs hI) (hK.owned hI)
      ⟨fun _ => rfl, rfl⟩
    · rw [hK.alloc.step.dirs]
      exact h0
    · rw [hK.alloc.step.dirs]
      exact hK.not_mem_liveTables hI

theorem userAlloc_makeTable {t kflags : Nat} (hI : Inv s L) (ht : t ≠ 0)
    (h0 : s.tableOf (.heap a) v = 0) (hK : KernelAllocated s s₁ L t 3 kflags none phys) (p : Nat) :
    UserAlloc a L [] flags s (s₁.addTable a (tableIdx v) t p {}) := by
  have hdirs := hK.alloc.step.dirs
  have hold : (s₁.dirs (.heap a)).tables (tableIdx v) = 0 := by
    rw [hdirs]
    exact h0
  refine ⟨?_, ?_, ?_, hK.alloc.length, hK.alloc.used,
    ⟨hK.alloc.grow.used, hK.alloc.grow.refs, hK.alloc.grow.out, hK.alloc.grow.zero⟩, ?_,
    fun _ h => absurd h (by simp)⟩
  · obtain ⟨_, _, _, _, _, _, _, rfl⟩ := hK.alloc.step
    exact ⟨_, _, _, _, _, _, _, _, rfl⟩
  · intro d hd
    rw [State.addTable, hdirs]
    exact Function.update_of_ne hd _ _
  · intro i hi
    rw [addTable_tables, if_neg ?_, hdirs]
    rintro ⟨-, rfl⟩
    exact hi h0
  · intro d hd w hw hnew _
    have hnew₁ : t ∉ liveTables s₁.dirs L := by
      rw [hdirs]
      exact hK.not_mem_liveTables hI
    obtain ⟨he, hr⟩ : (s₁.addTable a (tableIdx v) t p {}).entry d w = s₁.entry d w ∧
        (s₁.addTable a (tableIdx v) t p {}).record d w = s₁.record d w :=
      entry_addTable hold hnew₁ ht (fun _ => ⟨rfl, rfl⟩) hd hw
    obtain ⟨he', hr'⟩ := hK.alloc.entry_eq_of_old hI hd hw hnew
    exact ⟨he.trans he', hr.trans hr'⟩

theorem userAlloc_mapped (hI : Inv s L) (ha : a ∈ L)
    (hv : v < 1048576) (huser : s.kernelMemmap.length ≤ v) (h0 : s.tableOf (.heap a) v ≠ 0)
    (h : MappedPage s s' (s.tableOf (.heap a) v) (pageIdx v) flags) :
    UserAlloc a L [v] flags s s' := by
  have hmap := h.touches.step.kernelMemmap
  refine ⟨h.touches.step.userStep, fun d _ => by rw [h.touches.step.dirs],
    fun i _ => by rw [h.touches.step.dirs], by rw [hmap], fun w hw => by rwa [hmap], h.grow, ?_, ?_⟩
  · intro d hd w hw _ hP
    refine h.touches.entry_eq (fun h0' hslot => ?_)
    obtain ⟨rfl, hor⟩ := hI.slot_eq hd (heap_mem_spaces.mpr ha) hw hv h0' hslot.1
      hslot.2
    rcases hor with hlt | rfl
    · omega
    · exact hP (by simp) rfl
  · intro w hw
    rw [List.mem_singleton.mp hw]
    exact h.mappedEntry hI h0

theorem mmuAllocPage_of_missing {A : TableAlloc} {d : DirRef} (h0 : s.tableOf d (vaddr / pageSize) = 0)
    (h : mmuAllocPage A s d vaddr flags = .ok (true, phys, s')) :
    ∃ s₁, mmuMakeTable A s d (vaddr / pageSize) = .ok (true, s₁) ∧
      (s₁.tableOf d (vaddr / pageSize) ≠ 0 →
        mmuAllocPage A s₁ d vaddr flags = .ok (true, phys, s')) := by
  simp only [mmuAllocPage, h0, if_true] at h
  split at h
  · rw [bind_eq_ok] at h
    obtain ⟨⟨ok, s₁⟩, hmake, h⟩ := h
    cases ok with
    | false =>
      rw [Bool.not_false, if_pos rfl] at h
      cases h
    | true =>
      refine ⟨s₁, hmake, fun h1 => ?_⟩
      simp only [mmuAllocPage, h1, if_false, pure_bind]
      exact h
  · rw [pure_bind, Bool.not_false, if_pos rfl] at h
    cases h

/-- Page tables are made for the pages of `l` only. -/
def OnlyTables (a : Nat) (l : List Nat) (s s' : State) : Prop :=
  ∀ i, (∀ v ∈ l, tableIdx v ≠ i) → (s'.dirs (.heap a)).tables i = (s.dirs (.heap a)).tables i

/-- What mapping the pages of `l` in the directory at `a` keeps, wherever the pages are. -/
structure PagesMapped (a : Nat) (L l : List Nat) (s s' : State) : Prop where
  inv : Inv s' L
  complete : Complete s' (.heap a)
  step : UserStep s s'
  length : s'.kernelMemmap.length = s.kernelMemmap.length
  only : OnlyTables a l s s'
  kept : ∀ i, (s.dirs (.heap a)).tables i ≠ 0 →
    (s'.dirs (.heap a)).tables i = (s.dirs (.heap a)).tables i
  /-- Kernel memory is only taken for tables. -/
  quiet : (∀ v ∈ l, s.tableOf (.heap a) v ≠ 0) → s'.kernelMemmap = s.kernelMemmap

theorem PagesMapped.refl (hI : Inv s L) (hC : Complete s (.heap a)) : PagesMapped a L [] s s :=
  ⟨hI, hC, .refl s, rfl, fun _ _ => rfl, fun _ _ => rfl, fun _ => rfl⟩

theorem PagesMapped.append {l' : List Nat}
    (h : PagesMapped a L l s s₁) (h' : PagesMapped a L l' s₁ s') : PagesMapped a L (l ++ l') s s' where
  inv := h'.inv
  complete := h'.complete
  step := h.step.trans h'.step
  length := h'.length.trans h.length
  only i hi := by
    rw [h'.only i (fun v hv => hi v (by simp [hv])), h.only i (fun v hv => hi v (by simp [hv]))]
  kept i hi := by
    have hi₁ := h.kept i hi
    rw [h'.kept i (by rwa [hi₁]), hi₁]
  quiet htab := by
    have htab₁ : ∀ v ∈ l', s₁.tableOf (.heap a) v ≠ 0 := by
      intro v hv
      have hv₀ := htab v (by simp [hv])
      rw [State.tableOf, h.kept (tableIdx v) hv₀]
      exact hv₀
    rw [h'.quiet htab₁, h.quiet (fun v hv => htab v (by simp [hv]))]

/-- Kernel memory was taken for a table: a page of the kernel that was free is present now. -/
def TableMade (s s' : State) : Prop :=
  ∃ p, NewKernelPage s s' p ∧
    ((s.entry .kernel p).frame = 0 → (s'.entry .kernel p).present = true)

theorem KernelAllocated.tableMade {i t x : Nat} (hI : Inv s L) (ht : t ≠ 0)
    (h0 : (s.dirs (.heap a)).tables i = 0) (hK : KernelAllocated s s₁ L t 3 tableKflags none phys)
    (hs : s' = s₁.addTable a i t x {}) : TableMade s s' := by
  have hstart := inRange_start (p := t / pageSize) (n := 3) (by decide)
  have hnew := hK.first.new hK.fits hK.used hstart
  have hdirs := hK.alloc.step.dirs
  have hentry : s'.entry .kernel (t / pageSize) = s₁.entry .kernel (t / pageSize) := by
    have hlt := hI.kernel_lt hnew.1
    rw [hs]
    refine (@entry_addTable L a .kernel s₁ i t x {} ?_ ?_ ht (fun _ => ⟨rfl, rfl⟩) (by simp [spaces])
      (t / pageSize) hlt).1
    · rw [hdirs]
      exact h0
    · rw [hdirs]
      exact hK.not_mem_liveTables hI
  refine ⟨t / pageSize, ⟨hnew.1, hnew.2.1, by rw [hs]; exact hnew.2.2⟩, fun hframe => ?_⟩
  obtain ⟨f, hf, -, -⟩ := hK.entry _ hstart
  have htakes : takesFrame (pageFlags tableKflags) (s.entry .kernel (t / pageSize)) = true := by
    rw [takesFrame, hframe]
    rfl
  rw [hentry, hf, allocatedPage, if_pos htakes]

theorem TableMade.after (h : TableMade s s₁)
    (hlt : s.kernelMemmap.length ≤ 1048576) (hU : UserAlloc a L l flags s₁ s') :
    TableMade s s' := by
  obtain ⟨p, hnew, hframe⟩ := h
  refine ⟨p, ⟨hnew.1, hnew.2.1, hU.kernelUsed p hnew.2.2⟩, fun h0 => ?_⟩
  rw [(hU.entry .kernel (by simp [spaces]) p (lt_of_lt_of_le hnew.1 hlt) ?_ (fun _ h => by cases h)).1]
  · exact hframe h0
  · intro hnew'
    exact Bool.false_ne_true (hnew'.2.1.symm.trans hnew.2.2)

theorem TableMade.before (h : TableMade s₁ s')
    (hlt : s.kernelMemmap.length ≤ 1048576) (hU : UserAlloc a L l flags s s₁) : TableMade s s' := by
  obtain ⟨p, hnew, hframe⟩ := h
  have hfree := false_of_imp (hU.kernelUsed p) hnew.2.1
  have hp : p < s.kernelMemmap.length := by
    have := hnew.1
    rwa [hU.length] at this
  refine ⟨p, ⟨hp, hfree, hnew.2.2⟩, fun h0 => hframe ?_⟩
  rw [(hU.entry .kernel (by simp [spaces]) p (lt_of_lt_of_le hp hlt) ?_ (fun _ h => by cases h)).1]
  · exact h0
  · intro hnew'
    exact Bool.false_ne_true (hnew.2.1.symm.trans hnew'.2.2)

theorem mmuAllocPage_user
    (hI : Inv s L) (ha : a ∈ L) (hC : Complete s (.heap a)) (hv : vaddr / pageSize = v)
    (hlt : v < 1048576)
    (h : mmuAllocPage (allocTableWith noTable) s (.heap a) vaddr flags = .ok (true, phys, s')) :
    PagesMapped a L [v] s s' ∧ (s.tableOf (.heap a) v = 0 → TableMade s s') ∧
      (s.kernelMemmap.length ≤ v → UserAlloc a L [v] flags s s') := by
  have hd : DirRef.heap a ∈ spaces L := heap_mem_spaces.mpr ha
  by_cases h0 : s.tableOf (.heap a) v = 0
  · obtain ⟨s₁, hmake, hrest⟩ := mmuAllocPage_of_missing (hv ▸ h0) h
    rw [hv] at hmake hrest
    obtain hfalse | ⟨-, t, p, s₀, ht, hK, rfl, hI₁⟩ := mmuMakeTable_cases hI ha hC hlt h0 hmake
    · cases hfalse
    have htab : (s₀.addTable a (tableIdx v) t (p.getD 0 ||| 7) {}).tableOf (.heap a) v = t := by
      rw [State.tableOf, addTable_tables, if_pos ⟨rfl, rfl⟩]
    have h' := hrest (by rwa [htab])
    have huser := hC.user_of_missing hI h0
    have halloc : UserAlloc a L [] flags s (s₀.addTable a (tableIdx v) t (p.getD 0 ||| 7) {}) :=
      userAlloc_makeTable hI ht h0 hK (p.getD 0 ||| 7)
    have honly : OnlyTables a [v] s (s₀.addTable a (tableIdx v) t (p.getD 0 ||| 7) {}) := by
      intro i hi
      rw [addTable_tables, if_neg (fun h => hi v (by simp) h.2.symm), hK.alloc.step.dirs]
    have hmade := hK.tableMade hI ht h0 (x := p.getD 0 ||| 7) rfl
    generalize s₀.addTable a (tableIdx v) t (p.getD 0 ||| 7) {} = s₁ at *
    obtain ⟨-, hM, -⟩ := mmuAllocPage_of_table h' hv rfl (by rwa [htab])
    have hmapped := userAlloc_mapped hI₁ ha hlt (by rw [halloc.length]; exact huser)
      (by rwa [htab]) hM
    have hdirs := hM.touches.step.dirs
    have hlen : s.kernelMemmap.length ≤ 1048576 := by
      have := hI.heap.length_le
      simp only [tableSize] at this
      omega
    refine ⟨⟨hI₁.allocPage hd (by rwa [hv]) (by rw [hv, htab]; exact ht) h', ?_,
      halloc.step.trans hmapped.step, hmapped.length.trans halloc.length,
      fun i hi => by rw [hdirs]; exact honly i hi, fun i hi => by rw [hdirs]; exact halloc.tables i hi,
      fun hne => absurd h0 (hne v (by simp))⟩, fun _ => hmade.after hlen hmapped,
      fun _ => ?_⟩
    · intro i hi
      rw [hdirs, halloc.dirs .kernel (by simp)]
      rw [hM.touches.step.kernelMemmap, kernelTables, halloc.length] at hi
      have hk := hC i hi
      rw [halloc.tables i ?_]
      · exact hk
      · rw [hk]
        exact (hI.shape.kernel i (lt_of_lt_of_le hi hI.kernelTables_le)).mpr hi
    · have happ : UserAlloc a L ([] ++ [v]) flags s s' := halloc.append ha (by simp)
        (fun w hw => by
          obtain rfl : w = v := by simpa using hw
          exact ⟨huser, hlt⟩) hmapped
      simpa using happ
  · obtain ⟨-, hM, -⟩ := mmuAllocPage_of_table h hv rfl h0
    have hdirs := hM.touches.step.dirs
    have hmap := hM.touches.step.kernelMemmap
    refine ⟨⟨hI.allocPage hd (by rwa [hv]) (by rwa [hv]) h, ?_, hM.touches.step.userStep,
      by rw [hmap], fun i _ => by rw [hdirs], fun i _ => by rw [hdirs], fun _ => hmap⟩,
      fun h => absurd h h0, fun huser => userAlloc_mapped hI ha hlt huser h0 hM⟩
    intro i hi
    rw [hdirs]
    exact hC i (by rwa [hmap] at hi)

/-! ## Where the range is -/

/-- The range a process asks for stays below the top of the address space: it is given and does not
wrap, or it is searched for and the search does not end in the last page. -/
def RangeFits (m : Memmap) (sz vaddr : Nat) : Prop :=
  0 < sz ∧ (vaddr ≠ 0 → vaddr + sz < wordSize) ∧
    (vaddr = 0 → ∀ p, FirstRun m (kallocPages sz) p → p + kallocPages sz < 1048576)

/-- The test loop passes only over free pages, and not over the top: it would come back to page
`0`, which is never free. -/
theorem anyUsed_false {m : Memmap} {bound fuel tmp : Nat} (h0 : m.used 0 = true)
    (halign : tmp % pageSize = 0) (hlt : tmp < wordSize)
    (h : anyUsed m bound fuel tmp = .ok false) :
    ∀ q, tmp ≤ q * pageSize → q * pageSize < bound →
      m.used q = false ∧ (q + 1) * pageSize < wordSize := by
  induction fuel generalizing tmp with
  | zero => cases h
  | succ fuel ih =>
    rw [anyUsed] at h
    split at h
    · next hb =>
        rw [memmapTestPage_eq] at h
        split at h
        · cases h
        · next hfree =>
            have hnext : tmp + pageSize < wordSize := by
              by_contra hge
              have hwrap : (tmp + pageSize) % wordSize = 0 := by
                simp only [pageSize, wordSize] at *
                omega
              rw [hwrap] at h
              cases fuel with
              | zero => cases h
              | succ fuel =>
                rw [anyUsed, if_pos (by omega), memmapTestPage_eq, Nat.zero_div, h0] at h
                cases h
            rw [Nat.mod_eq_of_lt hnext] at h
            intro q hq hqb
            by_cases heq : q * pageSize = tmp
            · subst heq
              rw [mul_pageSize_div] at hfree
              refine ⟨by simpa using hfree, ?_⟩
              rwa [Nat.add_mul, Nat.one_mul]
            · refine ih ?_ hnext h q ?_ hqb
              · simp only [pageSize] at *
                omega
              · simp only [pageSize] at *
                omega
    · next hb =>
        intro q hq hqb
        omega

theorem userPlace {m : Memmap} (h0 : m.used 0 = true)
    (halign : vaddr % pageSize = 0) (hsz : sz < wordSize)
    (hfit : RangeFits m sz vaddr) (h : kallocPlace m sz vaddr = .ok r) (hr : r ≠ 0) :
    r % pageSize = 0 ∧ kallocPages sz = pageCount sz ∧ 0 < pageCount sz ∧
      r + pageCount sz * pageSize < wordSize ∧
      (∀ p, inRange (r / pageSize) (pageCount sz) p = true → m.used p = false) ∧
      (vaddr ≠ 0 → r = vaddr) := by
  obtain ⟨hpos, hfixed, hsearch⟩ := hfit
  by_cases hv : vaddr = 0
  · subst hv
    obtain ⟨start, hfind, rfl⟩ := kallocPlace_zero h
    obtain ⟨hpages, hrun⟩ := memmapFindFreePages_spec hfind
    obtain ⟨hcount, -⟩ := pageCount_of_kallocPages_pos hsz hpages
    rcases hrun with ⟨hfits, hfirst⟩ | ⟨rfl, _⟩
    · have htop := hsearch rfl start hfirst
      have hmod : start * 0x1000 % wordSize = start * pageSize := by
        simp only [wordSize, pageSize]
        omega
      rw [hmod, mul_pageSize_div, ← hcount]
      refine ⟨Nat.mul_mod_left _ _, rfl, hpages, ?_, ?_, fun h => absurd rfl h⟩
      · simp only [wordSize, pageSize]
        omega
      · intro p hp
        obtain ⟨hle, hlt⟩ := inRange_eq_true.mp hp
        have := hfirst.free (p - start) (by omega)
        rwa [Nat.add_sub_cancel' hle] at this
    · simp at hr
  · have hfit := hfixed hv
    simp only [kallocPlace, ne_eq, hv, not_false_eq_true, if_true, bind_eq_ok,
      pure_eq_ok] at h
    obtain ⟨taken, hany, rfl⟩ := h
    cases taken with
    | true => simp at hr
    | false =>
      simp only [Bool.false_eq_true, if_false] at hr ⊢
      have hbound : kallocBound vaddr sz = vaddr + sz := Nat.mod_eq_of_lt hfit
      rw [hbound] at hany
      have hfree := anyUsed_false h0 halign (by omega) hany
      clear hany hbound hsearch hfixed
      simp only [pageSize, wordSize, pageCount, inRange_eq_true] at hfree halign hfit ⊢
      -- the last page of the range is below the top
      have hlast := (hfree (vaddr / 4096 + ((sz + 0xFFF) / 0x1000 - 1)) (by omega) (by omega)).2
      refine ⟨halign, kallocPages_eq (by simp only [wordSize]; omega), by omega, by omega, ?_,
        fun _ => trivial⟩
      rintro p ⟨hle, hlt⟩
      have hlo : vaddr ≤ p * 4096 := by omega
      have hhi : p * 4096 < vaddr + sz := by
        clear hlast hfit
        omega
      exact (hfree p hlo hhi).1

/-! ## The range -/

theorem foldlM_kallocMapPage_user (ha : a ∈ L) (hnodup : l.Nodup) (hI : Inv s L)
    (hC : Complete s (.heap a)) (hl : ∀ v ∈ l, s.kernelMemmap.length ≤ v ∧ v < 1048576)
    (h : (l.map (fun v => v * pageSize)).foldlM
      (kallocMapPage (allocTableWith noTable) (.heap a) flags) s = .ok s') :
    PagesMapped a L l s s' ∧ ((∃ v ∈ l, s.tableOf (.heap a) v = 0) → TableMade s s') ∧
      UserAlloc a L l (pageFlags flags) s s' := by
  induction l generalizing s with
  | nil =>
    rw [List.map_nil, List.foldlM_nil, pure_eq_ok] at h
    cases h
    exact ⟨.refl hI hC, fun ⟨v, hv, _⟩ => absurd hv (by simp), .refl a L _ _⟩
  | cons v l ih =>
    rw [List.map_cons, List.foldlM_cons, bind_eq_ok] at h
    obtain ⟨s₁, hfirst, hrest⟩ := h
    obtain ⟨hv, hnodup⟩ := List.nodup_cons.mp hnodup
    obtain ⟨phys, hpage⟩ := kallocMapPage_eq_ok.mp hfirst
    obtain ⟨hlen, hlt⟩ := hl v (by simp)
    obtain ⟨hP, hmade, hU⟩ := mmuAllocPage_user hI ha hC (mul_pageSize_div v) hlt hpage
    have hU := hU hlen
    obtain ⟨hP', hmade', hU'⟩ := ih hnodup hP.inv hP.complete
      (fun w hw => by rw [hU.length]; exact hl w (by simp [hw])) hrest
    refine ⟨hP.append hP', ?_, hU.append ha (by simpa using hv) (fun w hw => ?_) hU'⟩
    · rintro ⟨w, hw, h0⟩
      by_cases hv0 : s.tableOf (.heap a) v = 0
      · exact (hmade hv0).after (by omega) hU'
      · -- the page is further on, and its table is still missing
        have hne : tableIdx v ≠ tableIdx w := by
          intro heq
          rw [State.tableOf, heq] at hv0
          exact hv0 h0
        have hw' : w ∈ l := by
          rcases List.mem_cons.mp hw with rfl | hw
          · exact absurd rfl hne
          · exact hw
        refine (hmade' ⟨w, hw', ?_⟩).before (by omega) hU
        rw [State.tableOf, hP.only (tableIdx w) (fun x hx => by
          rw [List.mem_singleton.mp hx]
          exact hne)]
        exact h0
    · exact hl w (by simpa using hw)

/-- What `kalloc` returned to the process of the directory at `a`. -/
structure UserAllocated (s s' : State) (a : Nat) (L : List Nat) (r n flags : Nat)
    (mmap : Option Nat) : Prop where
  aligned : r % pageSize = 0
  pages_pos : 0 < n
  fits : r / pageSize + n < 1048576
  free : ∀ p, inRange (r / pageSize) n p = true → (s.tasks s.currentTask).memmap.used p = false
  inv : Inv s' L
  complete : Complete s' (.heap a)
  alloc : UserAlloc a L (pagesFrom (r / pageSize) n) (pageFlags flags) s { s' with tasks := s.tasks }
  tables : OnlyTables a (pagesFrom (r / pageSize) n) s s'
  quiet : (∀ v ∈ pagesFrom (r / pageSize) n, s.tableOf (.heap a) v ≠ 0) →
    s'.kernelMemmap = s.kernelMemmap
  made : (∃ v ∈ pagesFrom (r / pageSize) n, s.tableOf (.heap a) v = 0) → TableMade s s'
  task : ∃ m, s'.tasks = Function.update s.tasks s.currentTask { s.tasks s.currentTask with
      memmap := m
      buffers := (s.tasks s.currentTask).buffers ++ s.newBuffers r n flags mmap } ∧
    m.length = (s.tasks s.currentTask).memmap.length ∧
    ∀ p, m.used p = (inRange (r / pageSize) n p || (s.tasks s.currentTask).memmap.used p)

theorem kallocTrack_user
    (hk : hasFlag flags kallocOptnKernel = false) (h : kallocTrack s sz r flags mmap = .ok s') :
    ∃ k, s' = { s with
      tasks := Function.update s.tasks s.currentTask { s.tasks s.currentTask with
        buffers := (s.tasks s.currentTask).buffers ++ s.newBuffers r (kallocPages sz) flags mmap }
      mallocs := k } :=
  kallocTrack_eq hk h

theorem UserAlloc.forget_tasks {tasks : Nat → Task}
    (h : UserAlloc a L l flags { s with tasks := tasks } s₁) (k : Nat) :
    UserAlloc a L l flags s { s₁ with tasks := s.tasks, mallocs := k } ∧
      s₁.tasks = tasks ∧ s₁.currentTask = s.currentTask ∧ s₁.kheapLen = s.kheapLen := by
  refine ⟨⟨?_, h.dirs, h.tables, h.length, h.kernelUsed,
      ⟨h.grow.used, h.grow.refs, h.grow.out, h.grow.zero⟩,
    h.entry, ?_⟩, ?_⟩
  · obtain ⟨_, _, _, _, _, _, _, _, rfl⟩ := h.step
    exact ⟨_, _, _, _, _, _, _, _, rfl⟩
  · intro v hv
    obtain ⟨f, hentry, hrecord, hfresh⟩ := h.mapped v hv
    refine ⟨f, hentry, hrecord, fun htake ho => ?_⟩
    obtain ⟨h0, hfree, hused, hrefs⟩ := hfresh htake ho
    exact ⟨h0, hfree, hused, hrefs⟩
  · obtain ⟨_, _, _, _, _, _, _, _, rfl⟩ := h.step
    exact ⟨rfl, rfl, rfl⟩

theorem kalloc_place (hk : hasFlag flags kallocOptnKernel = false)
    (h : kalloc s sz vaddr flags mmap = .ok (r, phys, s')) :
    kallocPlace (s.tasks s.currentTask).memmap sz vaddr = .ok r := by
  obtain ⟨-, hplace, -⟩ := kallocBody_cases hk h
  exact hplace

theorem user_of_free {m : Memmap} {k n : Nat} (hmap : ∀ v < k, m.used v = true)
    (htop : r + n * pageSize < wordSize)
    (hfree : ∀ p, inRange (r / pageSize) n p = true → m.used p = false)
    (hv : v ∈ pagesFrom (r / pageSize) n) : k ≤ v ∧ v < 1048576 := by
  obtain ⟨hle, hlt⟩ := mem_pagesFrom.mp hv
  constructor
  · by_contra hk
    have := hfree v (inRange_eq_true.mpr ⟨hle, hlt⟩)
    rw [hmap v (not_le.mp hk)] at this
    cases this
  · simp only [pageSize, wordSize] at htop hlt
    omega

theorem kalloc_user (hI : Inv s L) (ha : a ∈ L) (hcur : s.currentDirectory = .heap a)
    (hC : Complete s (.heap a)) (hk : hasFlag flags kallocOptnKernel = false)
    (hmap : ∀ v < s.kernelMemmap.length, (s.tasks s.currentTask).memmap.used v = true)
    (hsz : sz < wordSize) (hfit : RangeFits (s.tasks s.currentTask).memmap sz vaddr)
    (h : kalloc s sz vaddr flags mmap = .ok (r, phys, s')) :
    (r = 0 ∧ s' = s) ∨
      (r ≠ 0 ∧ (vaddr ≠ 0 → r = vaddr) ∧ UserAllocated s s' a L r (kallocPages sz) flags mmap) := by
  obtain ⟨halign, hplace, ⟨rfl, -, rfl⟩ | ⟨hr, m, s₁, hmark, hmapped, htrack⟩⟩ := kallocBody_cases hk h
  · exact Or.inl ⟨rfl, rfl⟩
  refine Or.inr ⟨hr, ?_⟩
  obtain ⟨hr4, hcount, hpos, htop, hfree, hfixed⟩ :=
    userPlace (hmap 0 hI.heap.length_pos) halign hsz hfit hplace hr
  refine ⟨hfixed, ?_⟩
  rw [hcount]
  rw [forAddr_kalloc _ htop] at hmark
  obtain ⟨hmlen, hmused⟩ := foldlM_memmapSetPage hr4 hmark
  have hrange := fun v => user_of_free (v := v) hmap htop hfree
  have hfold := kallocMap_foldlM htop hfit.1 hmapped
  rw [pageAddrs_eq_map hr4, show s.dirOf false = .heap a from hcur] at hfold
  have hI₀ : Inv (s.setMemmapOf false m) L := hI.setTasks _
  have hC₀ : Complete (s.setMemmapOf false m) (.heap a) := hC
  obtain ⟨hP, hmade, hU⟩ := foldlM_kallocMapPage_user ha (nodup_pagesFrom _ _) hI₀ hC₀ hrange hfold
  obtain ⟨k, rfl⟩ := kallocTrack_user hk htrack
  obtain ⟨hU, htasks, hcurrent, hheap⟩ := UserAlloc.forget_tasks (s := s) hU k
  refine ⟨hr4, hpos, ?_, hfree, hP.inv.congr rfl, hP.complete, hU, hP.only, hP.quiet, hmade, m, ?_,
    hmlen, hmused⟩
  · simp only [pageSize, wordSize] at htop ⊢
    omega
  · simp [htasks, hcurrent, State.newBuffers, State.tracks, hheap, hcount]

end Hydrax
