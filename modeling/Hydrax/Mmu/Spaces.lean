import Hydrax.Mmu.Destroy

/-!
# Address spaces that come and go

`mmu_clone_directory` as a whole. It ends in one of three ways (`DirectoryCloned`): there is no room
for the directory, the clone is made, or there is no room for one of its tables and what was made
of it is destroyed again.
-/

namespace Hydrax

open Loop

variable {a flags : Nat} {src : DirRef} {I L : List Nat}

/-- The state in which the loop over the tables starts: the directory at `a` is empty. -/
def State.newDir (s : State) (a : Nat) : State := { s with dirs := addDir s.dirs a }

theorem entry_newDir {s : State} {d : DirRef} (h : d ≠ .heap a) (v : Nat) :
    (s.newDir a).entry d v = s.entry d v ∧ (s.newDir a).record d v = s.record d v :=
  entry_congr (congrArg (fun dir => dir.tables (tableIdx v)) (addDir_of_ne h)) (fun _ => ⟨rfl, rfl⟩)

/-- How `mmu_clone_directory` ends. -/
inductive DirectoryCloned (flags : Nat) (src : DirRef) (L : List Nat) (s : State) :
    Nat → Nat → State → Prop where
  | full : DirectoryCloned flags src L s 0 0 s
  | made {a : Nat} {physmem : Option Nat} {s₁ s' : State} (ha : a ≠ 0)
      (alloc : KernelAllocated s s₁ L a 2 cloneKflags none physmem)
      (inv : Inv (s₁.newDir a) (a :: L))
      (tables : TablesCloned flags src a L (List.range tableSize) (s₁.newDir a) true s')
      (cloned : Cloned flags src a L (List.range tableSize) (s₁.newDir a) s')
      (inv' : Inv s' (a :: L)) :
      DirectoryCloned flags src L s a ((physmem.getD 0 + offsetofTablesPhysical) % wordSize) s'
  | failed {a : Nat} {physmem : Option Nat} {J : List Nat} {s₁ s₂ s' : State} (ha : a ≠ 0)
      (alloc : KernelAllocated s s₁ L a 2 cloneKflags none physmem)
      (inv : Inv (s₁.newDir a) (a :: L))
      (cloned : Cloned flags src a L J (s₁.newDir a) s₂) (inv' : Inv s₂ (a :: L))
      (destroyed : mmuDestroyDirectory s₂ a = .ok s') :
      DirectoryCloned flags src L s 0 ((physmem.getD 0 + offsetofTablesPhysical) % wordSize) s'

theorem KernelAllocated.newDir {s s₁ : State} {n : Nat}
    {mmap phys : Option Nat} (hI : Inv s L) (h : KernelAllocated s s₁ L a n flags mmap phys) :
    Inv (s₁.newDir a) (a :: L) := by
  refine h.inv.addDir (h.not_mem_dirs hI) ?_ (h.owned hI)
  rw [h.alloc.step.dirs]
  exact h.not_mem_liveTables hI

theorem mmuCloneDirectory_cases {addr phys : Nat} {s s' : State}
    (hI : Inv s L) (hsrc : src ∈ spaces L) (hshare : hasFlag flags cloneShare = false)
    (h : mmuCloneDirectory s src flags = .ok (addr, phys, s')) :
    DirectoryCloned flags src L s addr phys s' := by
  simp only [mmuCloneDirectory, bind_eq_ok, Prod.exists] at h
  obtain ⟨a, physmem, s₁, halloc, h⟩ := h
  rcases kalloc_kernel hI kernel_of_cloneKflags (by decide) halloc with ⟨rfl, rfl⟩ | ⟨ha, hK⟩
  · rw [if_pos rfl, pure_eq_ok] at h
    cases h
    exact .full
  · rw [if_neg ha, bind_eq_ok] at h
    obtain ⟨⟨ok, s₂⟩, htables, h⟩ := h
    have hI₁ := hK.newDir hI
    have hne := hK.ne_heap hI hsrc
    obtain ⟨hchain, hI₂, J, -, hcloned, hJ⟩ := cloneTables_spec hI₁ (spaces_cons hsrc) hne hshare
      List.nodup_range (fun i hi => ⟨List.mem_range.mp hi, addDir_self i⟩) htables
    cases ok with
    | true =>
      rw [if_pos rfl, pure_eq_ok, Prod.mk.injEq, Prod.mk.injEq] at h
      obtain ⟨rfl, rfl, rfl⟩ := h
      rw [hJ rfl] at hcloned
      exact .made ha hK hI₁ hchain hcloned hI₂
    | false =>
      simp only [Bool.false_eq_true, if_false, bind_eq_ok, pure_eq_ok] at h
      obtain ⟨s₃, hdestroy, h⟩ := h
      rw [Prod.mk.injEq, Prod.mk.injEq] at h
      obtain ⟨rfl, rfl, rfl⟩ := h
      exact .failed ha hK hI₁ hcloned hI₂ hdestroy

/-! ## A directory with the kernel's tables only -/

/-- All tables of `src` are the kernel's. -/
def KernelOnly (s : State) (src : DirRef) : Prop :=
  ∀ i < tableSize, kernelTables s.kernelMemmap ≤ i → (s.dirs src).tables i = 0

theorem KernelOnly.congr {s s' : State} (h : KernelOnly s src)
    (hlen : s'.kernelMemmap.length = s.kernelMemmap.length) (hsrc : s'.dirs src = s.dirs src) :
    KernelOnly s' src := by
  intro i hi hle
  rw [kernelTables, hlen] at hle
  rw [hsrc]
  exact h i hi hle

theorem Inv.kernelOnly {s : State} (hI : Inv s L) : KernelOnly s .kernel := by
  intro i hi hle
  by_contra h0
  exact absurd ((hI.shape.kernel i hi).mp h0) (not_lt.mpr hle)

theorem KernelOnly.entry {s : State} {v : Nat} (h : KernelOnly s src) (hI : Inv s L)
    (hle : s.kernelMemmap.length ≤ v) (hv : v < 1048576) :
    s.entry src v = {} ∧ s.record src v = {} := by
  refine entry_of_no_table (h (tableIdx v) (tableIdx_lt hv) ?_)
  rw [← not_lt, tableIdx_lt_kernelTables hI.heap.length_mod]
  omega

/-- Cloning such a directory links its tables and does nothing else. -/
structure OnlyLinked (src : DirRef) (a : Nat) (I : List Nat) (s s' : State) : Prop where
  step : ∃ D T, s' = { s with dirs := Function.update s.dirs (.heap a) D, tables := T }
  page : ∀ t j, s'.page t j = s.page t j
  info : ∀ t j, s'.info t j = s.info t j
  refs : ∀ t, (∀ i ∈ I, (s.dirs src).tables i ≠ t) → (s'.tables t).refs = (s.tables t).refs
  refs_linked : ∀ i ∈ I, (s.dirs src).tables i ≠ 0 →
    (s'.tables ((s.dirs src).tables i)).refs = incr (s.tables ((s.dirs src).tables i)).refs

theorem OnlyLinked.nil (src : DirRef) (a : Nat) (s : State) : OnlyLinked src a [] s s where
  step := ⟨s.dirs (.heap a), s.tables, by rw [Function.update_eq_self]⟩
  page _ _ := rfl
  info _ _ := rfl
  refs _ _ := rfl
  refs_linked i hi := absurd hi (by simp)

theorem OnlyLinked.cons {src : DirRef} {a i : Nat} {I : List Nat} {s s₁ s' : State}
    (hne : src ≠ .heap a) (hi : i ∉ I)
    (hinj : ∀ k ∈ I, (s.dirs src).tables i ≠ 0 → (s.dirs src).tables k ≠ (s.dirs src).tables i)
    (h : OnlyLinked src a [i] s s₁) (h' : OnlyLinked src a I s₁ s') :
    OnlyLinked src a (i :: I) s s' := by
  have hsrc : s₁.dirs src = s.dirs src := by
    obtain ⟨_, _, rfl⟩ := h.step
    exact Function.update_of_ne hne _ _
  refine ⟨?_, ?_, ?_, ?_, ?_⟩
  · obtain ⟨_, _, rfl⟩ := h.step
    obtain ⟨D, T, rfl⟩ := h'.step
    exact ⟨D, T, by simp only [Function.update_idem]⟩
  · intro t j
    rw [h'.page, h.page]
  · intro t j
    rw [h'.info, h.info]
  · intro t ht
    rw [h'.refs t (fun k hk => by rw [hsrc]; exact ht k (by simp [hk])),
      h.refs t (fun k hk => ht k (by simp [List.mem_singleton.mp hk]))]
  · intro k hk h0
    rcases List.mem_cons.mp hk with rfl | hk'
    · rw [h'.refs _ (fun l hl => by rw [hsrc]; exact hinj l hl h0), h.refs_linked k (by simp) h0]
    · rw [← hsrc] at h0 ⊢
      rw [h'.refs_linked k hk' h0, hsrc, h.refs]
      intro l hl
      obtain rfl := List.mem_singleton.mp hl
      rw [hsrc] at h0
      intro heq
      exact hinj k hk' (heq ▸ h0) heq.symm

theorem onlyLinked_link {s : State} {i : Nat} :
    OnlyLinked src a [i] s (linkTable s src (.heap a) i) := by
  refine ⟨⟨_, _, rfl⟩, fun t j => (linkTable_page s src a i t j).1,
    fun t j => (linkTable_page s src a i t j).2, ?_, ?_⟩
  · intro t ht
    rw [linkTable_table, if_neg (fun h => ht i (by simp) h.symm)]
  · intro k hk _
    obtain rfl := List.mem_singleton.mp hk
    rw [linkTable_table, if_pos rfl]

theorem OnlyLinked.kernelOnly {s s' : State}
    (hne : src ≠ .heap a) (hK : KernelOnly s src) (h : OnlyLinked src a I s s') :
    KernelOnly s' src := by
  obtain ⟨_, _, rfl⟩ := h.step
  exact hK.congr rfl (Function.update_of_ne hne _ _)

theorem TablesCloned.onlyLinked {s s' : State}
    {ok : Bool} (hI : Inv s (a :: L)) (hsrc : src ∈ spaces (a :: L)) (hne : src ≠ .heap a)
    (hK : KernelOnly s src) (hnodup : I.Nodup) (hlt : ∀ i ∈ I, i < tableSize) (hok : ok = true)
    (h : TablesCloned flags src a L I s ok s') : OnlyLinked src a I s s' := by
  induction h with
  | nil s => exact .nil src a s
  | stop first => cases hok
  | @cons i I s s₁ s' ok first rest ih =>
    obtain ⟨hi, hnodup⟩ := List.nodup_cons.mp hnodup
    have hone : OnlyLinked src a [i] s s₁ := by
      cases first with
      | missing h0 =>
        refine ⟨⟨_, _, by rw [Function.update_eq_self]⟩, fun _ _ => rfl, fun _ _ => rfl,
          fun _ _ => rfl, ?_⟩
        intro k hk hne0
        exact absurd h0 (List.mem_singleton.mp hk ▸ hne0)
      | linked hn heq => exact onlyLinked_link
      | made hn h0 ht alloc inv slots inv' => exact absurd (hK i (hlt i (by simp)) hn) h0
    apply OnlyLinked.cons hne hi _ hone
    · exact ih (first.inv hI) (hone.kernelOnly hne hK) hnodup (fun k hk => hlt k (by simp [hk])) hok
    · intro k hk h0 heq
      have := (hI.shape.tables_inj hsrc hsrc (hlt k (by simp [hk])) (hlt i (by simp)) heq
        (heq ▸ h0)).1
      exact hi (this ▸ hk)

end Hydrax
