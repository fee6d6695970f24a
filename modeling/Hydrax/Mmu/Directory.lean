import Hydrax.Mmu.Clone
import Hydrax.Mmu.Free

/-!
# Tables and directories come and go

The steps that change which page tables a directory has, or which directories there are:

* `Inv.addTable` — a directory gets a new, empty table,
* `Inv.link` — a directory gets one of the kernel's tables,
* `Inv.addDir` — there is a new, empty directory,
* `Inv.dropDir` — a directory whose own tables map nothing is forgotten.

A table or a directory is new when it was just allocated: every live one lies in a kernel page that
is marked, and `kalloc` hands out pages that are not.
-/

namespace Hydrax

open Function (update update_apply update_of_ne update_self)

variable {L : List Nat} {a : Nat} {d : DirRef}

/-! ## New objects -/

theorem inRange_start {p n : Nat} (h : 0 < n) : inRange p n p = true :=
  inRange_eq_true.mpr ⟨Nat.le_refl p, by omega⟩

section New

variable {s s' : State} {L : List Nat} {r n flags : Nat} {mmap phys : Option Nat}
  (h : KernelAllocated s s' L r n flags mmap phys)

include h

theorem KernelAllocated.free {v : Nat} (hv : inRange (r / pageSize) n v = true) :
    s.kernelMemmap.used v = false :=
  (h.first.new h.fits h.used hv).2.1

theorem KernelAllocated.start_free : s.kernelMemmap.used (r / pageSize) = false :=
  h.free (inRange_start h.pages_pos)

theorem KernelAllocated.owned (hI : Inv s L) : Owned s'.kernelMemmap s'.kernelBuffers r where
  aligned := h.aligned
  lt := by
    have := h.fits
    have := h.pages_pos
    rw [h.alloc.length]
    omega
  used := by rw [h.used, inRange_start h.pages_pos]; rfl
  buffer := by
    intro b hb hcov
    rw [h.buffers, List.mem_append] at hb
    rcases hb with hb | hb
    · have hused := (hI.heap.covered b hb _ hcov).2
      rw [h.start_free] at hused
      cases hused
    · rw [State.newBuffers] at hb
      split at hb
      · rw [List.mem_singleton.mp hb]
        rfl
      · cases hb

theorem KernelAllocated.not_mem_liveTables (hI : Inv s L) : r ∉ liveTables s.dirs L := by
  intro hr
  have hused := (hI.tables_owned r hr).used
  rw [h.start_free] at hused
  cases hused

theorem KernelAllocated.not_mem_dirs (hI : Inv s L) : r ∉ L := by
  intro hr
  have hused := (hI.dirs_owned r hr).used
  rw [h.start_free] at hused
  cases hused

theorem KernelAllocated.ne_heap (hI : Inv s L) (hd : d ∈ spaces L) : d ≠ .heap r := by
  rintro rfl
  exact h.not_mem_dirs hI (heap_mem_spaces.mp hd)

end New

/-! ## A directory gets a table -/

/-- Put `t` at index `i` of the tables of `d`. -/
def PageDirectory.setTable (d : PageDirectory) (i t phys : Nat) : PageDirectory where
  tables := update d.tables i t
  tablesPhysical := update d.tablesPhysical i phys

def PageTable.Empty (T : PageTable) : Prop := (∀ j, (T.pages j).frame = 0) ∧ T.refs = 0

section AddTable

variable {s : State} {L : List Nat} {a i t phys : Nat} {T : PageTable}

/-- The state after a directory got a table. -/
def State.addTable (s : State) (a i t phys : Nat) (T : PageTable) : State :=
  { s with
    dirs := update s.dirs (.heap a) ((s.dirs (.heap a)).setTable i t phys)
    tables := update s.tables t T }

theorem addTable_tables (s : State) (a i t phys : Nat) (T : PageTable) (d : DirRef) (k : Nat) :
    ((s.addTable a i t phys T).dirs d).tables k =
      if d = .heap a ∧ k = i then t else (s.dirs d).tables k := by
  by_cases hd : d = .heap a
  · subst hd
    by_cases hk : k = i
    · subst hk
      simp [State.addTable, PageDirectory.setTable]
    · simp [State.addTable, PageDirectory.setTable, hk]
  · simp [State.addTable, hd]

theorem mem_liveTables_addTable (ha : a ∈ L) (hi : i < tableSize) (ht : t ≠ 0)
    (hold : (s.dirs (.heap a)).tables i = 0) {t' : Nat} :
    t' ∈ liveTables (s.addTable a i t phys T).dirs L ↔ t' = t ∨ t' ∈ liveTables s.dirs L := by
  simp only [mem_liveTables, addTable_tables]
  constructor
  · rintro ⟨h0, d, hd, k, hk, rfl⟩
    split at h0
    · next hx => exact Or.inl (if_pos hx)
    · next hx =>
        rw [if_neg hx]
        exact Or.inr ⟨h0, d, hd, k, hk, rfl⟩
  · rintro (rfl | ⟨h0, d, hd, k, hk, rfl⟩)
    · exact ⟨ht, .heap a, heap_mem_spaces.mpr ha, i, hi, if_pos ⟨rfl, rfl⟩⟩
    · refine ⟨h0, d, hd, k, hk, if_neg ?_⟩
      rintro ⟨rfl, rfl⟩
      exact h0 hold

theorem Shape.addTable {n : Nat} {dirs dirs' : DirRef → PageDirectory} (h : Shape n dirs L)
    (hle : n ≤ tableSize) (hn : n ≤ i)
    (hnew : ∀ {d k}, d ∈ spaces L → k < tableSize → (dirs d).tables k ≠ t)
    (htab : ∀ d k, (dirs' d).tables k = if d = .heap a ∧ k = i then t else (dirs d).tables k) :
    Shape n dirs' L := by
  have hheap : ∀ {b}, b ∈ L → DirRef.heap b ∈ spaces L :=
    fun hb => heap_mem_spaces.mpr hb
  have hkernel : ∀ k, (dirs' .kernel).tables k = (dirs .kernel).tables k := by
    intro k
    rw [htab, if_neg (by simp)]
  refine ⟨h.nodup, ?_, ?_, ?_, ?_, ?_⟩
  · intro k hk
    rw [hkernel]
    exact h.kernel k hk
  · intro k l hk hl
    rw [hkernel, hkernel]
    exact h.kernel_inj k l hk hl
  · intro b hb k hk
    have hki : ¬ (DirRef.heap b = .heap a ∧ k = i) := by
      rintro ⟨-, rfl⟩
      exact absurd hk (Nat.not_lt.mpr hn)
    rw [hkernel, htab, if_neg hki]
    exact h.shared b hb k hk
  · intro b hb k hk hk' l hl
    rw [hkernel, htab]
    split
    · exact (hnew (kernel_mem_spaces L) (lt_of_lt_of_le hl hle)).symm
    · exact h.apart b hb k hk hk' l hl
  · intro b hb c hc k l hk hk' hl hl'
    rw [htab, htab]
    split
    · next hx =>
        split
        · next hy =>
            intro _ _
            have := hx.1.trans hy.1.symm
            exact ⟨by simpa using this, hx.2.trans hy.2.symm⟩
        · intro heq
          exact absurd heq.symm (hnew (hheap hc) hl')
    · split
      · intro heq
        exact absurd heq (hnew (hheap hb) hk')
      · exact h.own b hb c hc k l hk hk' hl hl'

theorem Inv.addTable (hI : Inv s L) (ha : a ∈ L) (hn : kernelTables s.kernelMemmap ≤ i)
    (hi : i < tableSize) (ht : t ≠ 0) (hold : (s.dirs (.heap a)).tables i = 0)
    (hnew : t ∉ liveTables s.dirs L) (htL : t ∉ L)
    (howned : Owned s.kernelMemmap s.kernelBuffers t) (hT : T.Empty) :
    Inv (s.addTable a i t phys T) L := by
  have hmem : ∀ {t'}, t' ∈ liveTables (s.addTable a i t phys T).dirs L ↔
      t' = t ∨ t' ∈ liveTables s.dirs L := mem_liveTables_addTable ha hi ht hold
  have hlive : ∀ {d k}, d ∈ spaces L → k < tableSize → (s.dirs d).tables k ≠ t := by
    rintro d k hd hk rfl
    exact hnew (mem_liveTables.mpr ⟨ht, d, hd, k, hk, rfl⟩)
  refine ⟨hI.heap, hI.shape.addTable hI.kernelTables_le hn hlive (addTable_tables s a i t phys T),
    ?_, hI.dirs_owned, ?_, ?_, ?_, hI.frames, hI.zero_frame, ?_⟩
  · intro t' ht'
    rcases hmem.mp ht' with rfl | ht'
    · exact howned
    · exact hI.tables_owned t' ht'
  · intro b hb hlive'
    rcases hmem.mp hlive' with rfl | hlive'
    · exact htL hb
    · exact hI.dirs_apart b hb hlive'
  · intro b hb k hk hk'
    rw [addTable_tables]
    show _ → (update s.tables t T _).refs ≠ 1
    split
    · rw [update_self, hT.2]
      exact fun _ => by decide
    · rw [update_of_ne (hlive (heap_mem_spaces.mpr hb) hk')]
      exact hI.refs_own b hb k hk hk'
  · intro t'
    show (update s.tables t T t').refs < wordSize
    rw [update_apply]
    split
    · rw [hT.2]
      decide
    · exact hI.refs_lt t'
  · -- the entries of the new table are new slots, and all of them are free
    have hsub : slots s.dirs L ⊆ slots (s.addTable a i t phys T).dirs L := by
      rintro ⟨t', j⟩ hx
      rw [mem_slots] at hx ⊢
      exact ⟨hmem.mpr (Or.inr hx.1), hx.2⟩
    have hframe : ∀ x ∈ slots s.dirs L,
        frameAt (s.addTable a i t phys T).tables x = frameAt s.tables x := by
      rintro ⟨t', j⟩ hx
      have hne : t' ≠ t := fun heq => hnew (heq ▸ (mem_slots.mp hx).1)
      simp [frameAt, State.addTable, hne]
    apply RefCount.Balanced.grow
      (RefCount.Balanced.congr hI.balanced hframe (fun _ _ => rfl) (fun _ _ => rfl)) hsub
    rintro ⟨t', j⟩ hx hx'
    rw [mem_slots] at hx hx'
    rcases hmem.mp hx.1 with rfl | hlive'
    · simp [frameAt, State.addTable, hT.1]
    · exact absurd ⟨hlive', hx.2⟩ hx'

end AddTable

/-! ## A directory gets a table of the kernel -/

theorem liveTables_congr {dirs dirs' : DirRef → PageDirectory} {L' : List Nat}
    (h : ∀ t, t ≠ 0 → ((∃ d ∈ spaces L', ∃ i < tableSize, (dirs' d).tables i = t) ↔
      ∃ d ∈ spaces L, ∃ i < tableSize, (dirs d).tables i = t)) :
    liveTables dirs' L' = liveTables dirs L := by
  ext t
  rw [mem_liveTables, mem_liveTables]
  exact and_congr_right (h t)

theorem linkTable_tables (s : State) (src : DirRef) (a i : Nat) (d : DirRef) (k : Nat) :
    ((linkTable s src (.heap a) i).dirs d).tables k =
      if d = .heap a ∧ k = i then (s.dirs src).tables i else (s.dirs d).tables k := by
  by_cases hd : d = .heap a
  · subst hd
    by_cases hk : k = i
    · subst hk
      simp [linkTable, State.setTable]
    · simp [linkTable, State.setTable, hk]
  · simp [linkTable, State.setTable, hd]

theorem linkTable_table (s : State) (src : DirRef) (a i t : Nat) :
    (linkTable s src (.heap a) i).tables t =
      if t = (s.dirs src).tables i then { s.tables t with refs := incr (s.tables t).refs }
      else s.tables t := by
  simp only [linkTable, State.setTable]
  rw [update_apply]
  split
  · next h => rw [h]
  · rfl

theorem linkTable_page (s : State) (src : DirRef) (a i t j : Nat) :
    (linkTable s src (.heap a) i).page t j = s.page t j ∧
      (linkTable s src (.heap a) i).info t j = s.info t j := by
  rw [State.page, State.info, linkTable_table]
  split <;> exact ⟨rfl, rfl⟩

theorem incr_lt (n : Nat) : incr n < wordSize := Nat.mod_lt _ (by decide)

theorem Shape.link {n i : Nat} {dirs dirs' : DirRef → PageDirectory} (h : Shape n dirs L)
    (hi : i < n)
    (htab : ∀ d k, (dirs' d).tables k =
      if d = .heap a ∧ k = i then (dirs .kernel).tables i else (dirs d).tables k) :
    Shape n dirs' L := by
  have hkernel : ∀ k, (dirs' .kernel).tables k = (dirs .kernel).tables k := by
    intro k
    rw [htab, if_neg (by simp)]
  -- a table above the kernel's is where it was
  have hown : ∀ b k, n ≤ k → (dirs' (.heap b)).tables k = (dirs (.heap b)).tables k := by
    intro b k hk
    rw [htab, if_neg (by rintro ⟨-, rfl⟩; omega)]
  refine ⟨h.nodup, ?_, ?_, ?_, ?_, ?_⟩
  · intro k hk
    rw [hkernel]
    exact h.kernel k hk
  · intro k l hk hl
    rw [hkernel, hkernel]
    exact h.kernel_inj k l hk hl
  · intro b hb k hk
    rw [hkernel, htab]
    split
    · next hx =>
        intro _
        rw [hx.2]
    · exact h.shared b hb k hk
  · intro b hb k hk hk' l hl
    rw [hkernel, hown b k hk]
    exact h.apart b hb k hk hk' l hl
  · intro b hb c hc k l hk hk' hl hl'
    rw [hown b k hk, hown c l hl]
    exact h.own b hb c hc k l hk hk' hl hl'

theorem Inv.link {s : State} {src : DirRef} {i : Nat} (hI : Inv s L)
    (ha : a ∈ L) (hi : i < kernelTables s.kernelMemmap)
    (hsrc : (s.dirs src).tables i = (s.dirs .kernel).tables i) :
    Inv (linkTable s src (.heap a) i) L := by
  have hits : i < tableSize := lt_of_lt_of_le hi hI.kernelTables_le
  have h0 : (s.dirs .kernel).tables i ≠ 0 := (hI.shape.kernel i hits).mpr hi
  have htab := linkTable_tables s src a i
  rw [hsrc] at htab
  have hlive : liveTables (linkTable s src (.heap a) i).dirs L = liveTables s.dirs L := by
    apply liveTables_congr
    intro t ht
    constructor
    · rintro ⟨d, hd, k, hk, heq⟩
      rw [htab] at heq
      split at heq
      · exact ⟨.kernel, kernel_mem_spaces L, i, hits, heq⟩
      · exact ⟨d, hd, k, hk, heq⟩
    · rintro ⟨d, hd, k, hk, heq⟩
      by_cases hx : d = .heap a ∧ k = i
      · -- what was there before was the same table
        obtain ⟨rfl, rfl⟩ := hx
        refine ⟨.kernel, kernel_mem_spaces L, k, hk, ?_⟩
        rw [htab, if_neg (by simp), ← heq]
        exact (hI.shape.shared a ha k hi (by rw [heq]; exact ht)).symm
      · refine ⟨d, hd, k, hk, ?_⟩
        rw [htab, if_neg hx]
        exact heq
  refine ⟨hI.heap, hI.shape.link hi htab, ?_, hI.dirs_owned, ?_, ?_, ?_, hI.frames, hI.zero_frame,
    ?_⟩
  · rw [hlive]
    exact hI.tables_owned
  · rw [hlive]
    exact hI.dirs_apart
  · intro b hb k hk hk'
    have hki : k ≠ i := fun heq => absurd (heq ▸ hk) (Nat.not_le.mpr hi)
    rw [htab, if_neg (fun hx => hki hx.2), linkTable_table, hsrc,
      if_neg (hI.shape.apart b hb k hk hk' i hi)]
    exact hI.refs_own b hb k hk hk'
  · intro t
    rw [linkTable_table]
    split
    · exact incr_lt _
    · exact hI.refs_lt t
  · have hframe : frameAt (linkTable s src (.heap a) i).tables = frameAt s.tables := by
      funext x
      exact congrArg Page.frame (linkTable_page s src a i x.1 x.2).1
    rw [Balanced, slots, hlive, hframe]
    exact hI.balanced

/-! ## Directories -/

section AddDir

variable {n : Nat} {dirs : DirRef → PageDirectory} {L : List Nat} {a : Nat}

/-- The directories with a new one, which has no tables yet. -/
def addDir (dirs : DirRef → PageDirectory) (a : Nat) : DirRef → PageDirectory :=
  update dirs (.heap a) {}

theorem addDir_self (k : Nat) : (addDir dirs a (.heap a)).tables k = 0 := by
  rw [addDir, update_self]

theorem addDir_of_ne (h : d ≠ .heap a) : addDir dirs a d = dirs d :=
  update_of_ne h ..

theorem addDir_of_mem (hnew : a ∉ L) {b : Nat} (hb : b ∈ L) :
    addDir dirs a (.heap b) = dirs (.heap b) :=
  addDir_of_ne (fun h => hnew (by cases h; exact hb))

theorem Shape.addDir (hS : Shape n dirs L) (hnew : a ∉ L) (hn : n ≤ tableSize) :
    Shape n (addDir dirs a) (a :: L) where
  nodup := List.nodup_cons.mpr ⟨hnew, hS.nodup⟩
  kernel := hS.kernel
  kernel_inj := hS.kernel_inj
  shared b hb i hi h0 := by
    rcases List.mem_cons.mp hb with rfl | hb
    · exact absurd (addDir_self i) h0
    · rw [addDir_of_mem hnew hb] at h0 ⊢
      exact hS.shared b hb i hi h0
  apart b hb i hi hi' j hj := by
    rcases List.mem_cons.mp hb with rfl | hb
    · rw [addDir_self]
      exact ((hS.kernel j (lt_of_lt_of_le hj hn)).mpr hj).symm
    · rw [addDir_of_mem hnew hb]
      exact hS.apart b hb i hi hi' j hj
  own b hb c hc i j hi hi' hj hj' heq h0 := by
    rcases List.mem_cons.mp hb with rfl | hb
    · exact absurd (addDir_self i) h0
    · rcases List.mem_cons.mp hc with rfl | hc
      · exact absurd (heq.trans (addDir_self j)) h0
      · rw [addDir_of_mem hnew hb, addDir_of_mem hnew hc] at heq
        rw [addDir_of_mem hnew hb] at h0
        exact hS.own b hb c hc i j hi hi' hj hj' heq h0

theorem liveTables_addDir (hnew : a ∉ L) :
    liveTables (addDir dirs a) (a :: L) = liveTables dirs L := by
  apply liveTables_congr
  intro t ht
  constructor
  · rintro ⟨d, hd, k, hk, heq⟩
    rcases mem_spaces.mp hd with rfl | ⟨b, hb, rfl⟩
    · exact ⟨.kernel, kernel_mem_spaces L, k, hk, heq⟩
    · rcases List.mem_cons.mp hb with rfl | hb
      · exact absurd ((addDir_self k).symm.trans heq).symm ht
      · rw [addDir_of_mem hnew hb] at heq
        exact ⟨.heap b, heap_mem_spaces.mpr hb, k, hk, heq⟩
  · rintro ⟨d, hd, k, hk, heq⟩
    rcases mem_spaces.mp hd with rfl | ⟨b, hb, rfl⟩
    · exact ⟨.kernel, kernel_mem_spaces _, k, hk, heq⟩
    · refine ⟨.heap b, heap_mem_spaces.mpr (by simp [hb]), k, hk, ?_⟩
      rw [addDir_of_mem hnew hb]
      exact heq

theorem Inv.addDir {s : State} (hI : Inv s L) (hnew : a ∉ L) (hapart : a ∉ liveTables s.dirs L)
    (howned : Owned s.kernelMemmap s.kernelBuffers a) :
    Inv { s with dirs := Hydrax.addDir s.dirs a } (a :: L) where
  heap := hI.heap
  shape := hI.shape.addDir hnew hI.kernelTables_le
  tables_owned t ht := by
    rw [liveTables_addDir hnew] at ht
    exact hI.tables_owned t ht
  dirs_owned b hb := by
    rcases List.mem_cons.mp hb with rfl | hb
    · exact howned
    · exact hI.dirs_owned b hb
  dirs_apart b hb := by
    rw [liveTables_addDir hnew]
    rcases List.mem_cons.mp hb with rfl | hb
    · exact hapart
    · exact hI.dirs_apart b hb
  refs_own b hb i hi hi' := by
    show (Hydrax.addDir s.dirs a (.heap b)).tables i ≠ 0 →
      (s.tables ((Hydrax.addDir s.dirs a (.heap b)).tables i)).refs ≠ 1
    rcases List.mem_cons.mp hb with rfl | hb
    · intro h0
      exact absurd (addDir_self i) h0
    · rw [addDir_of_mem hnew hb]
      exact hI.refs_own b hb i hi hi'
  refs_lt := hI.refs_lt
  frames := hI.frames
  zero_frame := hI.zero_frame
  balanced := by
    rw [Balanced, slots, liveTables_addDir hnew]
    exact hI.balanced

end AddDir

theorem Inv.congr_tables {s : State} (hI : Inv s L) {D : DirRef → PageDirectory}
    (hD : ∀ d, (D d).tables = (s.dirs d).tables) : Inv { s with dirs := D } L := by
  have hlive : liveTables D L = liveTables s.dirs L := by
    simp only [liveTables, hD]
  refine ⟨hI.heap, ⟨hI.shape.nodup, ?_, ?_, ?_, ?_, ?_⟩, ?_, hI.dirs_owned, ?_, ?_, hI.refs_lt,
    hI.frames, hI.zero_frame, ?_⟩
  · simpa only [hD] using hI.shape.kernel
  · simpa only [hD] using hI.shape.kernel_inj
  · simpa only [hD] using hI.shape.shared
  · simpa only [hD] using hI.shape.apart
  · simpa only [hD] using hI.shape.own
  · simpa only [hlive] using hI.tables_owned
  · simpa only [hlive] using hI.dirs_apart
  · simpa only [hD] using hI.refs_own
  · rw [Balanced, slots, hlive]
    exact hI.balanced

/-! ## A directory is forgotten -/

/-- The tables that `d` does not share with the kernel map nothing. -/
def OwnTablesFree (s : State) (a : Nat) : Prop :=
  ∀ i, kernelTables s.kernelMemmap ≤ i → i < tableSize → (s.dirs (.heap a)).tables i ≠ 0 →
    ∀ j < tableSize, (s.page ((s.dirs (.heap a)).tables i) j).frame = 0

theorem spaces_cons (hd : d ∈ spaces L) : d ∈ spaces (a :: L) := by
  rcases mem_spaces.mp hd with rfl | ⟨b, hb, rfl⟩
  · exact kernel_mem_spaces _
  · exact heap_mem_spaces.mpr (by simp [hb])

theorem liveTables_cons {dirs : DirRef → PageDirectory} (a : Nat) :
    liveTables dirs L ⊆ liveTables dirs (a :: L) := by
  intro t ht
  obtain ⟨h0, d, hd, i, hi, heq⟩ := mem_liveTables.mp ht
  exact mem_liveTables.mpr ⟨h0, d, spaces_cons hd, i, hi, heq⟩

theorem Inv.dropDir {s : State} (hI : Inv s (a :: L)) (hfree : OwnTablesFree s a) : Inv s L where
  heap := hI.heap
  shape :=
    { nodup := (List.nodup_cons.mp hI.shape.nodup).2
      kernel := hI.shape.kernel
      kernel_inj := hI.shape.kernel_inj
      shared := fun b hb => hI.shape.shared b (by simp [hb])
      apart := fun b hb => hI.shape.apart b (by simp [hb])
      own := fun b hb c hc => hI.shape.own b (by simp [hb]) c (by simp [hc]) }
  tables_owned t ht := hI.tables_owned t (liveTables_cons a ht)
  dirs_owned b hb := hI.dirs_owned b (by simp [hb])
  dirs_apart b hb ht := hI.dirs_apart b (by simp [hb]) (liveTables_cons a ht)
  refs_own b hb := hI.refs_own b (by simp [hb])
  refs_lt := hI.refs_lt
  frames := hI.frames
  zero_frame := hI.zero_frame
  balanced := by
    have hsub : slots s.dirs L ⊆ slots s.dirs (a :: L) := by
      rintro ⟨t, j⟩ hx
      rw [mem_slots] at hx ⊢
      exact ⟨liveTables_cons a hx.1, hx.2⟩
    apply RefCount.Balanced.shrink hI.balanced hsub
    rintro ⟨t, j⟩ hx hx'
    rw [mem_slots] at hx hx'
    obtain ⟨h0, d, hd, i, hi, rfl⟩ := mem_liveTables.mp hx.1
    -- a table that only the forgotten directory has is one of its own
    have hgone : ¬ ∃ d' ∈ spaces L, ∃ k < tableSize, (s.dirs d').tables k = (s.dirs d).tables i :=
      fun hlive => hx' ⟨mem_liveTables.mpr ⟨h0, hlive⟩, hx.2⟩
    rcases mem_spaces.mp hd with rfl | ⟨b, hb, rfl⟩
    · exact absurd ⟨.kernel, kernel_mem_spaces L, i, hi, rfl⟩ hgone
    · rcases List.mem_cons.mp hb with rfl | hb
      · by_cases hn : i < kernelTables s.kernelMemmap
        · exact absurd ⟨.kernel, kernel_mem_spaces L, i, hi,
            (hI.shape.shared b (by simp) i hn h0).symm⟩ hgone
        · exact hfree i (by omega) hi h0 j hx.2
      · exact absurd ⟨.heap b, heap_mem_spaces.mpr hb, i, hi, rfl⟩ hgone

/-! ## Entries -/

theorem entry_addTable {s : State} {i t phys : Nat} {T : PageTable}
    (hold : (s.dirs (.heap a)).tables i = 0) (hnew : t ∉ liveTables s.dirs L) (ht : t ≠ 0)
    (hT : ∀ j, T.pages j = {} ∧ T.pagesInfo j = {}) (hd : d ∈ spaces L) {v : Nat}
    (hv : v < 1048576) :
    (s.addTable a i t phys T).entry d v = s.entry d v ∧
      (s.addTable a i t phys T).record d v = s.record d v := by
  by_cases hx : d = .heap a ∧ tableIdx v = i
  · -- the new table holds empty entries, which is what a missing table reads as
    obtain ⟨rfl, rfl⟩ := hx
    have htab : (s.addTable a (tableIdx v) t phys T).tableOf (.heap a) v = t := by
      rw [State.tableOf, addTable_tables, if_pos ⟨rfl, rfl⟩]
    rw [(entry_of_no_table hold).1, (entry_of_no_table hold).2, (State.entry_at htab ht).1,
      (State.entry_at htab ht).2]
    simp only [State.page, State.info, State.addTable, update_self]
    exact hT (pageIdx v)
  · apply entry_congr
    · rw [State.tableOf, addTable_tables, if_neg hx, State.tableOf]
    · intro h0
      have hne : s.tableOf d v ≠ t := by
        intro heq
        exact hnew (mem_liveTables.mpr ⟨ht, d, hd, tableIdx v, tableIdx_lt hv, heq⟩)
      simp [State.page, State.info, State.addTable, hne]

end Hydrax
