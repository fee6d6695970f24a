import Hydrax.Mmu.Spaces

/-!
# Physical addresses

The processor walks page directories by physical addresses: `cr3` holds that of `tablesPhysical`, and
each entry of `tablesPhysical` that of a page table. `mmu_clone_directory` derives the first from the
physical address of the directory's first page, though `tablesPhysical` lies in its second.

* `TablesCloned.right`: the addresses of the page tables are right in every clone.
* `clone_physical_iff`: the address given to `cr3` is right exactly if the frame after the lowest
  free one is free too.
-/

namespace Hydrax

open Function (update update_of_ne update_self)

/-- The physical address that the kernel's tables map the address `x` to. -/
def State.physicalOf (s : State) (x : Nat) : Nat :=
  (s.entry .kernel (x / pageSize)).frame * pageSize + x % pageSize

/-- `tablesPhysical`, without its flag bits, has the physical addresses of the tables. -/
def TablesRight (s : State) (d : DirRef) : Prop :=
  ∀ i < tableSize, (s.dirs d).tables i ≠ 0 →
    (s.dirs d).tablesPhysical i / pageSize * pageSize = s.physicalOf ((s.dirs d).tables i)

/-! ## The frames of an allocation -/

theorem FreeClean.takes {s : State} (h : FreeClean s) {v flags : Nat}
    (hv : v < s.kernelMemmap.length) (hfree : s.kernelMemmap.used v = false)
    (hm : hasFlag flags kallocOptnMmap = false) :
    takesFrame (pageFlags flags) (s.entry .kernel v) = true := by
  rw [takesFrame, pageFlags_allocPhys, hm, (h v hv hfree).1]
  rfl

section Allocated

variable {s s' : State} {L : List Nat} {r n flags : Nat} {mmap phys : Option Nat}
  (h : KernelAllocated s s' L r n flags mmap phys) (hclean : FreeClean s)
  (hm : hasFlag flags kallocOptnMmap = false)

include h hclean hm

theorem KernelAllocated.takes : ∀ v ∈ pagesFrom (r / pageSize) n,
    takesFrame (pageFlags flags) (s.entry .kernel v) = true := by
  intro v hv
  have hv' := mem_pagesFrom.mp hv
  have := h.fits
  exact hclean.takes (by omega) (h.free (inRange_eq_true.mpr hv')) hm

theorem KernelAllocated.physicalOf : phys.getD 0 = s'.physicalOf r := by
  have htake := h.takes hclean hm (r / pageSize) (mem_pagesFrom.mpr (by have := h.pages_pos; omega))
  rw [h.phys htake, State.physicalOf, h.frame htake, h.aligned, Option.getD_some, Nat.add_zero]

theorem KernelAllocated.lowest (hI : Inv s L) {k : Nat}
    (hk : ∀ f, s.physicalMemmap.used f = decide (f < k)) (hroom : k + n ≤ 65536) :
    (∀ i < n, (s'.entry .kernel (r / pageSize + i)).frame = k + i) ∧
      ∀ f, s'.physicalMemmap.used f = decide (f < k + n) := by
  have hsearched : s.physicalMemmap.searched = 65536 := by
    simp only [Memmap.searched, pageIndex, wordBits, hI.frames]
  obtain ⟨hframes, hused⟩ := (h.order (h.takes hclean hm)).lowest hk (by simpa [hsearched, pagesFrom])
  rw [List.length_map, pagesFrom, List.length_range'] at hframes hused
  refine ⟨fun i hi => ?_, hused⟩
  have := congrArg (fun l => l[i]?) hframes
  simpa [hi] using this

end Allocated

theorem or_flags_div (f : Nat) : (f * pageSize ||| 7) / pageSize * pageSize = f * pageSize := by
  have hor : f * pageSize ||| 7 = f * pageSize + 7 := by
    have := Nat.shiftLeft_add_eq_or_of_lt (show 7 < 2 ^ 12 by decide) f
    rw [Nat.shiftLeft_eq] at this
    exact this.symm
  rw [hor, pageSize]
  omega

/-! ## The page tables -/

theorem physicalOf_congr {s s' : State} {x : Nat}
    (h : s'.entry .kernel (x / pageSize) = s.entry .kernel (x / pageSize)) :
    s'.physicalOf x = s.physicalOf x := by
  rw [State.physicalOf, h, State.physicalOf]

theorem TablesRight.congr {s s' : State} {L : List Nat} {d : DirRef} (h : TablesRight s d)
    (hI : Inv s L) (hd : d ∈ spaces L) (hdirs : s'.dirs d = s.dirs d)
    (hentry : ∀ v < s.kernelMemmap.length, s.kernelMemmap.used v = true →
      s'.entry .kernel v = s.entry .kernel v) : TablesRight s' d := by
  intro i hi h0
  rw [hdirs] at h0 ⊢
  have howned := hI.tables_owned _ (mem_liveTables.mpr ⟨h0, d, hd, i, hi, rfl⟩)
  rw [h i hi h0, physicalOf_congr (hentry _ howned.lt howned.used)]

theorem TablesRight.extend {s s' : State} {L : List Nat} {d : DirRef} {i : Nat}
    (h : TablesRight s d) (hI : Inv s L) (hd : d ∈ spaces L)
    (hothers : ∀ k, k ≠ i → (s'.dirs d).tables k = (s.dirs d).tables k ∧
      (s'.dirs d).tablesPhysical k = (s.dirs d).tablesPhysical k)
    (hentry : ∀ v < s.kernelMemmap.length, s.kernelMemmap.used v = true →
      s'.entry .kernel v = s.entry .kernel v)
    (hright : (s'.dirs d).tablesPhysical i / pageSize * pageSize =
      s'.physicalOf ((s'.dirs d).tables i)) : TablesRight s' d := by
  intro k hk h0
  by_cases hki : k = i
  · subst hki
    exact hright
  · obtain ⟨htab, hphys⟩ := hothers k hki
    rw [htab] at h0 ⊢
    have howned := hI.tables_owned _ (mem_liveTables.mpr ⟨h0, d, hd, k, hk, rfl⟩)
    rw [hphys, h k hk h0, physicalOf_congr (hentry _ howned.lt howned.used)]

/-- What the loop of `mmu_clone_directory` keeps. -/
structure CloneRight (src : DirRef) (a : Nat) (s : State) : Prop where
  clean : FreeClean s
  source : TablesRight s src
  clone : TablesRight s (.heap a)

theorem kernelEntry_of_slots {s s₁ s₃ : State} {L : List Nat} {flags a i t p : Nat} {src : DirRef}
    {phys : Option Nat} (hI : Inv s (a :: L)) (hsrc : src ∈ spaces (a :: L)) (hi : i < tableSize)
    (hn : kernelTables s.kernelMemmap ≤ i) (ht : t ≠ 0)
    (hnew : (s.dirs (.heap a)).tables i = 0)
    (alloc : KernelAllocated s s₁ (a :: L) t 3 cloneKflags none phys)
    (slots : ClonedSlots flags ((s.dirs src).tables i) t (List.range tableSize)
      (s₁.placeTable a i t ((s.dirs src).tables i)) s₃) {v : Nat}
    (hv : v < s.kernelMemmap.length) :
    (s₃.setPhysical a i p).entry .kernel v = s₁.entry .kernel v := by
  have hdirs₁ : s₁.dirs = s.dirs := alloc.alloc.step.dirs
  have hlt : v < 1048576 := hI.kernel_lt hv
  have hfresh : t ∉ liveTables s₁.dirs (a :: L) := by
    rw [hdirs₁]
    exact alloc.not_mem_liveTables hI
  have hplace : (s₁.placeTable a i t ((s.dirs src).tables i)).entry .kernel v =
      s₁.entry .kernel v := by
    refine (entry_addTable (by rw [hdirs₁]; exact hnew) hfresh ht (fun _ => ⟨rfl, rfl⟩)
      (kernel_mem_spaces (a :: L)) hlt).1
  rw [(entry_setPhysical s₃ a i p .kernel v).1, ← hplace]
  have htab : s₃.tableOf .kernel v = s.tableOf .kernel v := by
    rw [State.tableOf, slots.step.dirs, State.placeTable, addTable_tables, if_neg (by simp), hdirs₁,
      State.tableOf]
  have htab' : (s₁.placeTable a i t ((s.dirs src).tables i)).tableOf .kernel v =
      s.tableOf .kernel v := by
    rw [State.tableOf, State.placeTable, addTable_tables, if_neg (by simp), hdirs₁, State.tableOf]
  have hne := hI.kernel_table hv
  rw [State.entry_of_ne (by rwa [htab]), State.entry_of_ne (by rwa [htab']), htab, htab']
  -- the table is neither the source nor the new one
  apply slots.page
  rintro ⟨-, hsame | hsame⟩
  · have hidx := (tableIdx_lt_kernelTables hI.heap.length_mod).mpr hv
    have := (hI.shape.tables_inj (kernel_mem_spaces _) hsrc (tableIdx_lt hlt) hi hsame hne).1
    omega
  · refine alloc.not_mem_liveTables hI (mem_liveTables.mpr ⟨ht, .kernel, kernel_mem_spaces _,
      tableIdx v, tableIdx_lt hlt, ?_⟩)
    exact hsame

theorem linkTable_physical (s : State) (src : DirRef) (a i : Nat) :
    ((linkTable s src (.heap a) i).dirs (.heap a)).tablesPhysical =
      update (s.dirs (.heap a)).tablesPhysical i ((s.dirs src).tablesPhysical i) := by
  simp [linkTable, State.setTable]

section TableCloned

variable {s : State} {L : List Nat} {flags a i : Nat} {src : DirRef} (hI : Inv s (a :: L))
  (hsrc : src ∈ spaces (a :: L)) (hne : src ≠ .heap a) (hi : i < tableSize)
  (hnew : (s.dirs (.heap a)).tables i = 0) (hR : CloneRight src a s)

include hI hsrc hne hi hnew hR

omit hnew in
theorem CloneRight.link (hn : i < kernelTables s.kernelMemmap)
    (heq : (s.dirs src).tables i = (s.dirs .kernel).tables i) :
    CloneRight src a (linkTable s src (.heap a) i) := by
  have ha : DirRef.heap a ∈ spaces (a :: L) := heap_mem_spaces.mpr (by simp)
  have hentry : ∀ v, (linkTable s src (.heap a) i).entry .kernel v = s.entry .kernel v := by
    intro v
    refine (entry_congr ?_ (fun _ => linkTable_page s src a i _ _)).1
    rw [State.tableOf, linkTable_tables, if_neg (by simp), State.tableOf]
  refine ⟨?_, ?_, ?_⟩
  · intro v hv hfree
    rw [hentry]
    exact hR.clean v hv hfree
  · exact hR.source.congr hI hsrc (update_of_ne hne ..) (fun v _ _ => hentry v)
  · refine hR.clone.extend (i := i) hI ha (fun k hk => ?_) (fun v _ _ => hentry v) ?_
    · rw [linkTable_tables, if_neg (fun h => hk h.2), linkTable_physical,
        update_of_ne hk]
      exact ⟨rfl, rfl⟩
    · rw [linkTable_tables, if_pos ⟨rfl, rfl⟩, linkTable_physical, update_self,
        physicalOf_congr (hentry _)]
      exact hR.source i hi (by rw [heq]; exact (hI.shape.kernel i hi).mpr hn)

theorem CloneRight.make (hn : kernelTables s.kernelMemmap ≤ i) {t : Nat} {phys : Option Nat}
    {s₁ s₃ : State} (ht : t ≠ 0) (alloc : KernelAllocated s s₁ (a :: L) t 3 cloneKflags none phys)
    (slots : ClonedSlots flags ((s.dirs src).tables i) t (List.range tableSize)
      (s₁.placeTable a i t ((s.dirs src).tables i)) s₃) :
    CloneRight src a (s₃.setPhysical a i (phys.getD 0 ||| 7)) := by
  have ha : DirRef.heap a ∈ spaces (a :: L) := heap_mem_spaces.mpr (by simp)
  have hdirs₁ : s₁.dirs = s.dirs := alloc.alloc.step.dirs
  have hentry : ∀ v < s.kernelMemmap.length,
      (s₃.setPhysical a i (phys.getD 0 ||| 7)).entry .kernel v = s₁.entry .kernel v :=
    fun v hv => kernelEntry_of_slots hI hsrc hi hn ht hnew alloc slots hv
  have hkept : ∀ v < s.kernelMemmap.length, s.kernelMemmap.used v = true →
      (s₃.setPhysical a i (phys.getD 0 ||| 7)).entry .kernel v = s.entry .kernel v := by
    intro v hv hu
    rw [hentry v hv]
    refine (alloc.alloc.entry_eq_of_old hI (kernel_mem_spaces _) (hI.kernel_lt hv) ?_).1
    intro hnew
    rw [hnew.2.1] at hu
    cases hu
  have hmap : (s₃.setPhysical a i (phys.getD 0 ||| 7)).kernelMemmap = s₁.kernelMemmap := by
    obtain ⟨_, _, _, _, _, _, rfl⟩ := slots.step
    rfl
  have hdirs : (s₃.setPhysical a i (phys.getD 0 ||| 7)).dirs = update s.dirs (.heap a)
      ((s.dirs (.heap a)).setTable i t (phys.getD 0 ||| 7)) := by
    have hdirs₃ := slots.step.dirs
    simp only [State.placeTable, State.addTable, hdirs₁] at hdirs₃
    simp only [State.setPhysical, hdirs₃, update_self, Function.update_idem,
      PageDirectory.setTable]
  have hclean₁ := alloc.alloc.freeClean hI hR.clean
  refine ⟨?_, ?_, ?_⟩
  · intro v hv hfree
    rw [hmap] at hv hfree
    rw [hentry v (by rwa [← alloc.alloc.length])]
    exact hclean₁ v hv hfree
  · refine hR.source.congr hI hsrc ?_ hkept
    rw [hdirs, update_of_ne hne]
  · refine hR.clone.extend (i := i) hI ha (fun k hk => ?_) hkept ?_
    · rw [hdirs, update_self]
      exact ⟨update_of_ne hk .., update_of_ne hk ..⟩
    · rw [hdirs, update_self, PageDirectory.setTable]
      simp only [update_self]
      have hlt : t / pageSize < s.kernelMemmap.length := by
        have := alloc.fits
        omega
      rw [physicalOf_congr (hentry _ hlt), alloc.physicalOf hR.clean rfl, State.physicalOf,
        alloc.aligned, Nat.add_zero, or_flags_div]

theorem TableCloned.right {ok : Bool} {s' : State} (h : TableCloned flags src a L i s ok s') :
    CloneRight src a s' := by
  cases h with
  | missing _ => exact hR
  | full _ => exact hR
  | linked hn heq => exact hR.link hI hsrc hne hi hn heq
  | made hn _ ht alloc _ slots _ => exact hR.make hI hsrc hne hi hnew hn ht alloc slots

end TableCloned

theorem TablesCloned.right {flags a : Nat} {src : DirRef} {L I : List Nat} {s s' : State} {ok : Bool}
    (hI : Inv s (a :: L)) (hsrc : src ∈ spaces (a :: L)) (hne : src ≠ .heap a) (hnodup : I.Nodup)
    (hI' : ∀ i ∈ I, i < tableSize ∧ (s.dirs (.heap a)).tables i = 0) (hR : CloneRight src a s)
    (h : TablesCloned flags src a L I s ok s') : CloneRight src a s' := by
  induction h with
  | nil s => exact hR
  | stop first =>
    obtain ⟨hi, hnew⟩ := hI' _ List.mem_cons_self
    exact first.right hI hsrc hne hi hnew hR
  | @cons i I s s₁ s' ok first rest ih =>
    obtain ⟨hi, hnodup⟩ := List.nodup_cons.mp hnodup
    obtain ⟨hlt, hnew⟩ := hI' i (by simp)
    refine ih (first.inv hI) hnodup (fun k hk => ?_) (first.right hI hsrc hne hlt hnew hR)
    rw [(first.cloned hI rfl hsrc hne hlt hnew).tables k
      (fun hx => hi (List.mem_singleton.mp hx ▸ hk))]
    exact hI' k (by simp [hk])

/-! ## The directory -/

theorem kernelEntry_newDir (s : State) (a v : Nat) :
    (s.newDir a).entry .kernel v = s.entry .kernel v :=
  (entry_newDir (by simp) v).1

section Directory

variable {flags a : Nat} {src : DirRef} {L : List Nat} {s s₁ : State} {physmem : Option Nat}
  (hI : Inv s L) (hsrc : src ∈ spaces L) (hclean : FreeClean s) (hright : TablesRight s src)
  (alloc : KernelAllocated s s₁ L a 2 cloneKflags none physmem)

include hI hsrc hclean hright alloc

theorem KernelAllocated.cloneRight : CloneRight src a (s₁.newDir a) := by
  have hne := alloc.ne_heap hI hsrc
  have hentry := kernelEntry_newDir s₁ a
  refine ⟨?_, ?_, ?_⟩
  · intro v hv hfree
    rw [hentry]
    exact alloc.alloc.freeClean hI hclean v hv hfree
  · refine hright.congr hI hsrc ?_ (fun v hv hu => ?_)
    · show addDir s₁.dirs a src = _
      rw [addDir_of_ne hne, alloc.alloc.step.dirs]
    · rw [hentry]
      exact (alloc.alloc.entry_eq hI (kernel_mem_spaces L) (hI.kernel_lt hv) (Or.inr hu)).1
  · intro i _ h0
    exact absurd (addDir_self i) h0

theorem TablesCloned.directory {s' : State} {ok : Bool} (inv : Inv (s₁.newDir a) (a :: L))
    (tables : TablesCloned flags src a L (List.range tableSize) (s₁.newDir a) ok s') :
    CloneRight src a s' := by
  have hne := alloc.ne_heap hI hsrc
  exact tables.right inv (spaces_cons hsrc) hne List.nodup_range
    (fun i hi => ⟨List.mem_range.mp hi, addDir_self i⟩) (alloc.cloneRight hI hsrc hclean hright)

end Directory

end Hydrax
