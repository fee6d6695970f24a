import Hydrax.Mmu.CloneTable

/-!
# Cloning a directory

The loop of `mmu_clone_directory` over the tables of an address space. In terms of pages: a page of
the kernel has the same entry in the clone, and a page above the kernel goes through `ClonedEntry`,
which is `ClonedSlot` read through the two directories.

`Cloned` is the effect of the loop on the tables with indices in a list. It composes, so what holds
of one table (`cloneTable_cases`) holds of all (`cloneTables_spec`).
-/

namespace Hydrax

open Loop
open Function (update update_eq_self update_of_ne)

variable {L : List Nat} {a flags i v : Nat} {src : DirRef}

/-- What becomes of page `v` of `src` and of its clone in `d`. -/
inductive ClonedEntry (flags : Nat) (src d : DirRef) (s s' : State) (v : Nat) : Prop where
  | skipped (h0 : (s.entry src v).frame = 0)
      (entry : s'.entry src v = s.entry src v) (record : s'.record src v = s.record src v)
      (entry' : s'.entry d v = {}) (record' : s'.record d v = {})
  | shared (h0 : (s.entry src v).frame ≠ 0) (hs : shares flags (s.record src v) = true)
      (entry : s'.entry src v = cowPage (s.entry src v))
      (record : s'.record src v = cowInfo (s.record src v))
      (entry' : s'.entry d v = cowPage (s.entry src v))
      (record' : s'.record d v = cowInfo (s.record src v))
  | copied (h0 : (s.entry src v).frame ≠ 0) (hs : shares flags (s.record src v) = false) (f : Nat)
      (entry : s'.entry src v = s.entry src v) (record : s'.record src v = s.record src v)
      (entry' : s'.entry d v = copyPage f (s.entry src v))
      (record' : s'.record d v = copyInfo (s.record src v))
      (fresh : s'.outOfFrames = false → FreshFrame s s' f)
      (mem : s'.outOfFrames = false → s'.mem f = s.mem (s.entry src v).frame)

def CloneStep (s s' : State) : Prop :=
  ∃ D T P R o m b k c, s' = { s with
    dirs := D, tables := T, physicalMemmap := P, frameRefs := R, outOfFrames := o
    kernelMemmap := m, kernelBuffers := b, mallocs := k, mem := c }

theorem CloneStep.refl (s : State) : CloneStep s s := ⟨_, _, _, _, _, _, _, _, _, rfl⟩

theorem CloneStep.trans {s₁ s₂ s₃ : State} (h : CloneStep s₁ s₂) (h' : CloneStep s₂ s₃) :
    CloneStep s₁ s₃ := by
  obtain ⟨_, _, _, _, _, _, _, _, _, rfl⟩ := h
  obtain ⟨_, _, _, _, _, _, _, _, _, rfl⟩ := h'
  exact ⟨_, _, _, _, _, _, _, _, _, rfl⟩

theorem KernelStep.cloneStep {s s' : State} (h : KernelStep s s') : CloneStep s s' := by
  obtain ⟨_, _, _, _, _, _, _, rfl⟩ := h
  exact ⟨_, _, _, _, _, _, _, _, _, rfl⟩

theorem CopyStep.cloneStep {s s' : State} (h : CopyStep s s') : CloneStep s s' := by
  obtain ⟨_, _, _, _, _, rfl⟩ := h
  exact ⟨_, _, _, _, _, _, _, _, _, rfl⟩

/-- A page of user space whose table has an index in `I`. -/
def UserPage (s : State) (I : List Nat) (v : Nat) : Prop :=
  s.kernelMemmap.length ≤ v ∧ v < 1048576 ∧ tableIdx v ∈ I

/-- Page `v` of `src` shares frame `g` with its clone. -/
def SharesPage (flags : Nat) (src : DirRef) (s : State) (g v : Nat) : Prop :=
  (s.entry src v).frame = g ∧ shares flags (s.record src v) = true

/-- The tables of `src` with indices in `I` were cloned to the directory at `a`. -/
structure Cloned (flags : Nat) (src : DirRef) (a : Nat) (L I : List Nat) (s s' : State) : Prop where
  step : CloneStep s s'
  dirs : ∀ d, d ≠ .heap a → s'.dirs d = s.dirs d
  tables : ∀ i, i ∉ I → (s'.dirs (.heap a)).tables i = (s.dirs (.heap a)).tables i
  linked : ∀ i ∈ I, i < kernelTables s.kernelMemmap →
    (s'.dirs (.heap a)).tables i = (s.dirs src).tables i
  created : ∀ i ∈ I, ((s'.dirs (.heap a)).tables i = 0 ↔ (s.dirs src).tables i = 0)
  length : s'.kernelMemmap.length = s.kernelMemmap.length
  kernelUsed : ∀ v, s.kernelMemmap.used v = true → s'.kernelMemmap.used v = true
  used : ∀ g, s.physicalMemmap.used g = true → s'.physicalMemmap.used g = true
  out : s.outOfFrames = true → s'.outOfFrames = true
  /-- Other pages keep their entries. -/
  entry : ∀ d ∈ spaces (a :: L), ∀ v < 1048576,
    s.kernelMemmap.length ≤ v ∨ s.kernelMemmap.used v = true →
    (d = src → ¬ UserPage s I v) → (d = .heap a → tableIdx v ∉ I) →
    s'.entry d v = s.entry d v ∧ s'.record d v = s.record d v
  cloned : ∀ v, UserPage s I v → ClonedEntry flags src (.heap a) s s' v
  frameRefs : ∀ g, g ≠ 0 → s.physicalMemmap.used g = true →
    (∀ v, UserPage s I v → ¬ SharesPage flags src s g v) → s'.frameRefs g = s.frameRefs g
  mem : ∀ g, g ≠ 0 → s.physicalMemmap.used g = true → s'.mem g = s.mem g
  buffers : ∃ l, s'.kernelBuffers = s.kernelBuffers ++ l

theorem Cloned.nil (flags : Nat) (src : DirRef) (a : Nat) (L : List Nat) (s : State) :
    Cloned flags src a L [] s s :=
  ⟨.refl s, fun _ _ => rfl, fun _ _ => rfl, fun _ h => absurd h (by simp),
    fun _ h => absurd h (by simp), rfl, fun _ h => h, fun _ h => h, id,
    fun _ _ _ _ _ _ _ => ⟨rfl, rfl⟩, fun _ h => absurd h.2.2 (by simp), fun _ _ _ _ => rfl,
    fun _ _ _ => rfl, [], (List.append_nil _).symm⟩

theorem ClonedEntry.later {d : DirRef} {s s₁ s' : State} (h : ClonedEntry flags src d s s₁ v)
    (hsrc : s'.entry src v = s₁.entry src v ∧ s'.record src v = s₁.record src v)
    (hd : s'.entry d v = s₁.entry d v ∧ s'.record d v = s₁.record d v)
    (hout : s₁.outOfFrames = true → s'.outOfFrames = true)
    (hframe : ∀ f, FreshFrame s s₁ f → FreshFrame s s' f ∧ s'.mem f = s₁.mem f) :
    ClonedEntry flags src d s s' v := by
  obtain ⟨he, hr⟩ := hsrc
  obtain ⟨he', hr'⟩ := hd
  cases h with
  | skipped h0 entry record entry' record' =>
    exact .skipped h0 (he.trans entry) (hr.trans record) (he'.trans entry') (hr'.trans record')
  | shared h0 hs entry record entry' record' =>
    exact .shared h0 hs (he.trans entry) (hr.trans record) (he'.trans entry') (hr'.trans record')
  | copied h0 hs f entry record entry' record' fresh mem =>
    refine .copied h0 hs f (he.trans entry) (hr.trans record) (he'.trans entry')
      (hr'.trans record') (fun ho => ?_) (fun ho => ?_)
    · exact (hframe f (fresh (false_of_imp hout ho))).1
    · have ho₁ := false_of_imp hout ho
      exact (hframe f (fresh ho₁)).2.trans (mem ho₁)

theorem ClonedEntry.earlier {d : DirRef} {s s₁ s' : State} (h : ClonedEntry flags src d s₁ s' v)
    (hsrc : s₁.entry src v = s.entry src v ∧ s₁.record src v = s.record src v)
    (hused : ∀ f, s.physicalMemmap.used f = true → s₁.physicalMemmap.used f = true)
    (hmem : (s.entry src v).frame ≠ 0 →
      s₁.mem (s.entry src v).frame = s.mem (s.entry src v).frame) :
    ClonedEntry flags src d s s' v := by
  obtain ⟨he, hr⟩ := hsrc
  cases h with
  | skipped h0 entry record entry' record' =>
    exact .skipped (he ▸ h0) (entry.trans he) (record.trans hr) entry' record'
  | shared h0 hs entry record entry' record' =>
    rw [he] at h0 entry entry'
    rw [hr] at hs record record'
    exact .shared h0 hs entry record entry' record'
  | copied h0 hs f entry record entry' record' fresh mem =>
    rw [he] at h0 entry entry' mem
    rw [hr] at hs record record'
    exact .copied h0 hs f entry record entry' record' (fun ho => (fresh ho).earlier (hused f))
      (fun ho => (mem ho).trans (hmem h0))

theorem ClonedSlot.entry {d : DirRef} {s s' : State} {t t' j : Nat}
    (h : ClonedSlot flags t t' s s' j) (hempty : s.page t' j = {} ∧ s.info t' j = {})
    (hsrc : s.entry src v = s.page t j ∧ s.record src v = s.info t j)
    (hsrc' : s'.entry src v = s'.page t j ∧ s'.record src v = s'.info t j)
    (hd : s'.entry d v = s'.page t' j ∧ s'.record d v = s'.info t' j) :
    ClonedEntry flags src d s s' v := by
  obtain ⟨he, hr⟩ := hsrc
  obtain ⟨he', hr'⟩ := hsrc'
  obtain ⟨hed, hrd⟩ := hd
  cases h with
  | skipped h0 page info page' info' =>
    refine .skipped (by rw [he]; exact h0) ?_ ?_ ?_ ?_
    · rw [he', page, he]
    · rw [hr', info, hr]
    · rw [hed, page', hempty.1]
    · rw [hrd, info', hempty.2]
  | shared h0 hs page info page' info' =>
    refine .shared (by rw [he]; exact h0) (by rw [hr]; exact hs) ?_ ?_ ?_ ?_
    · rw [he', page, he]
    · rw [hr', info, hr]
    · rw [hed, page', he]
    · rw [hrd, info', hr]
  | copied h0 hs f page info page' info' fresh mem =>
    refine .copied (by rw [he]; exact h0) (by rw [hr]; exact hs) f ?_ ?_ ?_ ?_ fresh ?_
    · rw [he', page, he]
    · rw [hr', info, hr]
    · rw [hed, page', he]
    · rw [hrd, info', hr]
    · rw [he]
      exact mem

theorem Inv.entry_used {s : State} (hI : Inv s L) {d : DirRef} (hd : d ∈ spaces L)
    (hv : v < 1048576) (h0 : (s.entry d v).frame ≠ 0) :
    s.physicalMemmap.used (s.entry d v).frame = true := by
  by_cases ht : s.tableOf d v = 0
  · rw [State.entry, if_pos ht] at h0
    exact absurd rfl h0
  · rw [State.entry_of_ne ht] at h0 ⊢
    exact hI.frame_used (slot_mem hd hv ht) h0

theorem Cloned.cons {flags a i : Nat} {src : DirRef} {L I : List Nat} {s s₁ s' : State}
    (hI : Inv s (a :: L)) (hsrc : src ∈ spaces (a :: L)) (hne : src ≠ .heap a) (hi : i ∉ I)
    (h : Cloned flags src a L [i] s s₁) (h' : Cloned flags src a L I s₁ s') :
    Cloned flags src a L (i :: I) s s' := by
  have hl : ∀ k ∈ I, k ≠ i := fun k hk heq => hi (heq ▸ hk)
  have ha : DirRef.heap a ∈ spaces (a :: L) := heap_mem_spaces.mpr (by simp)
  have hkt : kernelTables s₁.kernelMemmap = kernelTables s.kernelMemmap := by
    rw [kernelTables, h.length, kernelTables]
  have hdsrc : s₁.dirs src = s.dirs src := h.dirs src hne
  -- a page still to be done is as it was
  have huser : ∀ {v}, UserPage s₁ I v ↔ UserPage s I v := by
    intro v
    rw [UserPage, UserPage, h.length]
  have hbefore : ∀ {v}, UserPage s I v →
      s₁.entry src v = s.entry src v ∧ s₁.record src v = s.record src v := by
    intro v hv
    exact h.entry src hsrc v hv.2.1 (Or.inl hv.1)
      (fun _ hx => hl _ hv.2.2 (by simpa using hx.2.2)) (fun hd => absurd hd hne)
  have hafter : ∀ {v d}, UserPage s [i] v → d ∈ spaces (a :: L) →
      s'.entry d v = s₁.entry d v ∧ s'.record d v = s₁.record d v := by
    intro v d hv hd
    have hnot : tableIdx v ∉ I := by
      rw [List.mem_singleton.mp hv.2.2]
      exact hi
    exact h'.entry d hd v hv.2.1 (Or.inl (by rw [h.length]; exact hv.1))
      (fun _ hx => hnot hx.2.2) (fun _ => hnot)
  have hshares : ∀ {g v}, UserPage s I v → SharesPage flags src s₁ g v →
      SharesPage flags src s g v := by
    intro g v hv hs
    rw [SharesPage, (hbefore hv).1, (hbefore hv).2] at hs
    exact hs
  obtain ⟨l, hb⟩ := h.buffers
  obtain ⟨l', hb'⟩ := h'.buffers
  refine ⟨h.step.trans h'.step, fun d hd => (h'.dirs d hd).trans (h.dirs d hd), ?_, ?_, ?_,
    h'.length.trans h.length, fun v hv => h'.kernelUsed v (h.kernelUsed v hv),
    fun g hg => h'.used g (h.used g hg), fun ho => h'.out (h.out ho), ?_, ?_, ?_, ?_,
    l ++ l', by rw [hb', hb, List.append_assoc]⟩
  · intro k hk
    have hk' : k ≠ i ∧ k ∉ I := by simpa using hk
    rw [h'.tables k hk'.2, h.tables k (by simpa using hk'.1)]
  · intro k hk hn
    rcases List.mem_cons.mp hk with rfl | hk
    · rw [h'.tables k hi, h.linked k (by simp) hn]
    · rw [h'.linked k hk (by rwa [hkt]), hdsrc]
  · intro k hk
    rcases List.mem_cons.mp hk with rfl | hk
    · rw [h'.tables k hi, h.created k (by simp)]
    · rw [h'.created k hk, hdsrc]
  · intro d hd v hv hold hs hda
    have hold' : s₁.kernelMemmap.length ≤ v ∨ s₁.kernelMemmap.used v = true := by
      rw [h.length]
      exact hold.imp_right (h.kernelUsed v)
    have h1 := h.entry d hd v hv hold
      (fun hd' hx => hs hd' ⟨hx.1, hx.2.1, by simpa using Or.inl (List.mem_singleton.mp hx.2.2)⟩)
      (fun hd' hx => hda hd' (by simpa using Or.inl (List.mem_singleton.mp hx)))
    have h2 := h'.entry d hd v hv hold'
      (fun hd' hx => hs hd' ⟨(huser.mp hx).1, hx.2.1, by simpa using Or.inr hx.2.2⟩)
      (fun hd' hx => hda hd' (by simpa using Or.inr hx))
    exact ⟨h2.1.trans h1.1, h2.2.trans h1.2⟩
  · intro v hv
    rcases List.mem_cons.mp hv.2.2 with hvi | hvI
    · -- done first: the rest of the loop keeps it
      have hv' : UserPage s [i] v := ⟨hv.1, hv.2.1, by simpa using hvi⟩
      refine (h.cloned v hv').later (hafter hv' hsrc) (hafter hv' ha) h'.out (fun f hf => ⟨?_, ?_⟩)
      · -- the frame was free, so no page shares it
        refine ⟨hf.ne_zero, hf.free, h'.used f hf.used, ?_⟩
        rw [h'.frameRefs f hf.ne_zero hf.used ?_, hf.refs]
        intro w hw hs'
        have hw' := huser.mp hw
        have hs'' := hshares hw' hs'
        have hu := hI.entry_used hsrc hw'.2.1 (by rw [hs''.1]; exact hf.ne_zero)
        rw [hs''.1, hf.free] at hu
        cases hu
      · exact h'.mem f hf.ne_zero hf.used
    · have hv' : UserPage s I v := ⟨hv.1, hv.2.1, hvI⟩
      exact (h'.cloned v (huser.mpr hv')).earlier (hbefore hv') h.used
        (fun h0 => h.mem _ h0 (hI.entry_used hsrc hv'.2.1 h0))
  · intro g hg hu hns
    rw [h'.frameRefs g hg (h.used g hu) (fun v hv hs =>
      hns v ⟨(huser.mp hv).1, hv.2.1, by simp [hv.2.2]⟩ (hshares (huser.mp hv) hs))]
    exact h.frameRefs g hg hu (fun v hv =>
      hns v ⟨hv.1, hv.2.1, by simpa using Or.inl (List.mem_singleton.mp hv.2.2)⟩)
  · intro g hg hu
    exact (h'.mem g hg (h.used g hu)).trans (h.mem g hg hu)

/-! ## A table that is linked or missing -/

section OneTable

variable {s s' : State} {L : List Nat} {flags a i : Nat} {src : DirRef}

theorem tableIdx_of_user (hI : Inv s (a :: L)) (hv : UserPage s [i] v) :
    tableIdx v = i ∧ kernelTables s.kernelMemmap ≤ i := by
  have hidx := List.mem_singleton.mp hv.2.2
  refine ⟨hidx, ?_⟩
  have hlt := (tableIdx_lt_kernelTables hI.heap.length_mod (v := v)).not.mpr (by have := hv.1; omega)
  omega

theorem cloned_of_missing (hI : Inv s (a :: L)) (hnew : (s.dirs (.heap a)).tables i = 0)
    (hmissing : (s.dirs src).tables i = 0) : Cloned flags src a L [i] s s := by
  refine ⟨.refl s, fun _ _ => rfl, fun _ _ => rfl, ?_, ?_, rfl, fun _ h => h, fun _ h => h, id,
    fun _ _ _ _ _ _ _ => ⟨rfl, rfl⟩, ?_, fun _ _ _ _ => rfl, fun _ _ _ => rfl, [],
    (List.append_nil _).symm⟩
  · intro k hk _
    rw [List.mem_singleton.mp hk, hnew, hmissing]
  · intro k hk
    rw [List.mem_singleton.mp hk, hnew, hmissing]
  · intro v hv
    have hidx := (tableIdx_of_user hI hv).1
    have hs : s.tableOf src v = 0 := by rw [State.tableOf, hidx, hmissing]
    have ha : s.tableOf (.heap a) v = 0 := by rw [State.tableOf, hidx, hnew]
    exact .skipped (by rw [(entry_of_no_table hs).1]) rfl rfl (entry_of_no_table ha).1
      (entry_of_no_table ha).2

theorem cloned_of_linked (hI : Inv s (a :: L)) (hn : i < kernelTables s.kernelMemmap) :
    Cloned flags src a L [i] s (linkTable s src (.heap a) i) := by
  have htab := linkTable_tables s src a i
  refine ⟨⟨_, _, _, _, _, _, _, _, _, rfl⟩, ?_, ?_, ?_, ?_, rfl, fun _ h => h, fun _ h => h, id,
    ?_, ?_, fun _ _ _ _ => rfl, fun _ _ _ => rfl, [], (List.append_nil _).symm⟩
  · intro d hd
    exact update_of_ne hd ..
  · intro k hk
    rw [htab, if_neg (fun hx => hk (by simp [hx.2]))]
  · intro k hk _
    rw [List.mem_singleton.mp hk, htab, if_pos ⟨rfl, rfl⟩]
  · intro k hk
    rw [List.mem_singleton.mp hk, htab, if_pos ⟨rfl, rfl⟩]
  · intro d _ v _ _ _ hda
    apply entry_congr
    · show ((linkTable s src (.heap a) i).dirs d).tables (tableIdx v) = _
      rw [htab, if_neg (fun hx => hda hx.1 (by simp [hx.2]))]
      rfl
    · intro _
      exact linkTable_page s src a i _ _
  · intro v hv
    have := (tableIdx_of_user hI hv).2
    omega

end OneTable

/-! ## A table that is cloned -/

/-- A new table at `t`, cleared but for the flag of the table it will be a clone of. -/
def State.placeTable (s : State) (a i t src : Nat) : State :=
  s.addTable a i t ((s.dirs (.heap a)).tablesPhysical i) { noshare := (s.tables src).noshare }

theorem placeTable_eq (s : State) (a i t src : Nat) :
    State.setTable { s with dirs := update s.dirs (.heap a) ⟨
      update (s.dirs (.heap a)).tables i t, (s.dirs (.heap a)).tablesPhysical⟩ } t
      { noshare := (s.tables src).noshare } = s.placeTable a i t src := by
  simp [State.placeTable, State.addTable, PageDirectory.setTable, State.setTable,
    update_eq_self]

theorem userPage_of_slot {s : State} (hI : Inv s L) {j : Nat}
    (hn : kernelTables s.kernelMemmap ≤ i) (hi : i < tableSize) (hj : j < tableSize) :
    UserPage s [i] (i * 1024 + j) ∧ tableIdx (i * 1024 + j) = i ∧ pageIdx (i * 1024 + j) = j := by
  have hidx : tableIdx (i * 1024 + j) = i ∧ pageIdx (i * 1024 + j) = j := by
    simp only [tableIdx, pageIdx, tableSize] at hj ⊢
    omega
  refine ⟨⟨?_, ?_, by rw [hidx.1]; simp⟩, hidx⟩
  · have := (tableIdx_lt_kernelTables hI.heap.length_mod (v := i * 1024 + j)).not.mp
      (by rw [hidx.1]; omega)
    omega
  · simp only [tableSize] at hi hj
    omega

/-- From the entries of the two tables to the pages of the two directories. The states are before
the new table is allocated, once it is in place, and after the loop. -/
theorem Cloned.of_slots {s s₂ s₃ : State} {t : Nat}
    (hI : Inv s (a :: L)) (hI₂ : Inv s₂ (a :: L)) (hsrc : src ∈ spaces (a :: L)) (hne : src ≠ .heap a)
    (hn : kernelTables s.kernelMemmap ≤ i) (hi : i < tableSize) (ht : t ≠ 0)
    (hsrc0 : (s.dirs src).tables i ≠ 0)
    (hdirs : ∀ d k, (s₂.dirs d).tables k = if d = .heap a ∧ k = i then t else (s.dirs d).tables k)
    (hempty : ∀ j, s₂.page t j = {} ∧ s₂.info t j = {})
    (hlen : s₂.kernelMemmap.length = s.kernelMemmap.length) (hgrow : FramesGrow s s₂)
    (hmem : s₂.mem = s.mem)
    (hentry : ∀ d ∈ spaces (a :: L), ∀ v < 1048576,
      s.kernelMemmap.length ≤ v ∨ s.kernelMemmap.used v = true →
      s₂.entry d v = s.entry d v ∧ s₂.record d v = s.record d v)
    (h : ClonedSlots flags ((s.dirs src).tables i) t (List.range tableSize) s₂ s₃) :
    (∀ d ∈ spaces (a :: L), ∀ v < 1048576,
      s.kernelMemmap.length ≤ v ∨ s.kernelMemmap.used v = true →
      (d = src → ¬ UserPage s [i] v) → (d = .heap a → tableIdx v ∉ [i]) →
      s₃.entry d v = s.entry d v ∧ s₃.record d v = s.record d v) ∧
    (∀ v, UserPage s [i] v → ClonedEntry flags src (.heap a) s s₃ v) ∧
    (∀ g, g ≠ 0 → s.physicalMemmap.used g = true →
      (∀ v, UserPage s [i] v → ¬ SharesPage flags src s g v) → s₃.frameRefs g = s.frameRefs g) := by
  have ha : DirRef.heap a ∈ spaces (a :: L) := heap_mem_spaces.mpr (by simp)
  have hd₃ : ∀ d v, s₃.tableOf d v = s₂.tableOf d v := by
    intro d v
    rw [State.tableOf, h.step.dirs, State.tableOf]
  have htsrc : ∀ {v}, tableIdx v = i → s₂.tableOf src v = (s.dirs src).tables i := by
    intro v hv
    rw [State.tableOf, hdirs, if_neg (fun hx => hne hx.1), hv]
  have hta : ∀ {v}, tableIdx v = i → s₂.tableOf (.heap a) v = t := by
    intro v hv
    rw [State.tableOf, hdirs, if_pos ⟨rfl, hv⟩]
  -- the entry of a page of `src` is the entry of its table
  have hpsrc : ∀ {v}, UserPage s [i] v →
      s₂.entry src v = s₂.page ((s.dirs src).tables i) (pageIdx v) ∧
      s₂.record src v = s₂.info ((s.dirs src).tables i) (pageIdx v) :=
    fun hv => State.entry_at (htsrc (tableIdx_of_user hI hv).1) hsrc0
  have hold : ∀ {v}, UserPage s [i] v →
      s₂.entry src v = s.entry src v ∧ s₂.record src v = s.record src v :=
    fun hv => hentry src hsrc _ hv.2.1 (Or.inl hv.1)
  have hpsrc₃ : ∀ {v}, UserPage s [i] v →
      s₃.entry src v = s₃.page ((s.dirs src).tables i) (pageIdx v) ∧
      s₃.record src v = s₃.info ((s.dirs src).tables i) (pageIdx v) :=
    fun hv => State.entry_at ((hd₃ _ _).trans (htsrc (tableIdx_of_user hI hv).1)) hsrc0
  have hpa₃ : ∀ {v}, UserPage s [i] v →
      s₃.entry (.heap a) v = s₃.page t (pageIdx v) ∧
      s₃.record (.heap a) v = s₃.info t (pageIdx v) :=
    fun hv => State.entry_at ((hd₃ _ _).trans (hta (tableIdx_of_user hI hv).1)) ht
  refine ⟨?_, ?_, ?_⟩
  · intro d hd v hv hold hs hda
    obtain ⟨he, hr⟩ := hentry d hd v hv hold
    rw [← he, ← hr]
    apply entry_congr (hd₃ d v)
    intro h0
    have hnot : ¬ (pageIdx v ∈ List.range tableSize ∧
        (s₂.tableOf d v = (s.dirs src).tables i ∨ s₂.tableOf d v = t)) := by
      rintro ⟨-, heq⟩
      obtain ⟨huser, hidx, hpidx⟩ := userPage_of_slot hI hn hi (pageIdx_lt v)
      have hkernel : ¬ i * 1024 + pageIdx v < s₂.kernelMemmap.length := by
        have := huser.1
        omega
      rcases heq with heq | heq
      · obtain ⟨hvw, hk | hd'⟩ := hI₂.slot_eq hd hsrc hv huser.2.1 h0
          (heq.trans (htsrc hidx).symm) hpidx.symm
        · exact hkernel (hvw ▸ hk)
        · exact hs hd' (hvw ▸ huser)
      · obtain ⟨hvw, hk | hd'⟩ := hI₂.slot_eq hd ha hv huser.2.1 h0
          (heq.trans (hta hidx).symm) hpidx.symm
        · exact hkernel (hvw ▸ hk)
        · exact hda hd' (by rw [hvw, hidx]; simp)
    exact ⟨h.page _ _ hnot, h.info _ _ hnot⟩
  · intro v hv
    have hslot := h.slot (pageIdx v) (by simpa using pageIdx_lt v)
    exact (hslot.entry (hempty _) (hpsrc hv) (hpsrc₃ hv) (hpa₃ hv)).earlier (hold hv) hgrow.used
      (fun _ => by rw [hmem])
  · intro g hg hu hns
    rw [h.frameRefs g hg (hgrow.used g hu) ?_, hgrow.refs g hg hu]
    intro j hj hs
    obtain ⟨huser, -, hpidx⟩ := userPage_of_slot hI hn hi (by simpa using hj : j < tableSize)
    obtain ⟨he, hr⟩ := hpsrc huser
    rw [(hold huser).1, hpidx] at he
    rw [(hold huser).2, hpidx] at hr
    exact hns _ huser ⟨by rw [he]; exact hs.1, by rw [hr]; exact hs.2⟩

/-! ## One table -/

def cloneKflags : Nat := kallocOptnAlign ||| kallocOptnKernel ||| kallocOptnWriteable

/-- `dir->tablesPhysical[i] = p`. -/
def State.setPhysical (s : State) (a i p : Nat) : State :=
  { s with dirs := update s.dirs (.heap a) ⟨(s.dirs (.heap a)).tables,
      update (s.dirs (.heap a)).tablesPhysical i p⟩ }

theorem setPhysical_tables (s : State) (a i p : Nat) (d : DirRef) :
    ((s.setPhysical a i p).dirs d).tables = (s.dirs d).tables := by
  by_cases hd : d = .heap a
  · subst hd
    simp [State.setPhysical]
  · simp [State.setPhysical, hd]

theorem entry_setPhysical (s : State) (a i p : Nat) (d : DirRef) (v : Nat) :
    (s.setPhysical a i p).entry d v = s.entry d v ∧
      (s.setPhysical a i p).record d v = s.record d v :=
  entry_congr (by rw [State.tableOf, setPhysical_tables, State.tableOf]) (fun _ => ⟨rfl, rfl⟩)

theorem ClonedEntry.setPhysical {d : DirRef} {s s' : State}
    (h : ClonedEntry flags src d s s' v) (a i p : Nat) :
    ClonedEntry flags src d s (s'.setPhysical a i p) v :=
  h.later (entry_setPhysical s' a i p src v) (entry_setPhysical s' a i p d v) id
    (fun _ hf => ⟨⟨hf.ne_zero, hf.free, hf.used, hf.refs⟩, rfl⟩)

/-- What the loop of `mmu_clone_directory` can do with table `i`. -/
inductive TableCloned (flags : Nat) (src : DirRef) (a : Nat) (L : List Nat) (i : Nat) (s : State) :
    Bool → State → Prop where
  | missing (h : (s.dirs src).tables i = 0) : TableCloned flags src a L i s true s
  | linked (hn : i < kernelTables s.kernelMemmap)
      (h : (s.dirs src).tables i = (s.dirs .kernel).tables i) :
      TableCloned flags src a L i s true (linkTable s src (.heap a) i)
  | full (h : (s.dirs src).tables i ≠ 0) : TableCloned flags src a L i s false s
  | made (hn : kernelTables s.kernelMemmap ≤ i) (h : (s.dirs src).tables i ≠ 0)
      {t : Nat} {phys : Option Nat} {s₁ s₃ : State} (ht : t ≠ 0)
      (alloc : KernelAllocated s s₁ (a :: L) t 3 cloneKflags none phys)
      (inv : Inv (s₁.placeTable a i t ((s.dirs src).tables i)) (a :: L))
      (slots : ClonedSlots flags ((s.dirs src).tables i) t (List.range tableSize)
        (s₁.placeTable a i t ((s.dirs src).tables i)) s₃)
      (inv' : Inv s₃ (a :: L)) :
      TableCloned flags src a L i s true (s₃.setPhysical a i (phys.getD 0 ||| 7))

theorem kernel_of_cloneKflags : hasFlag cloneKflags kallocOptnKernel = true := rfl

theorem mmuCloneTable_cases {s s' : State} {t p : Nat}
    (hI : Inv s (a :: L)) (hsrc : src ∈ spaces (a :: L))
    (hi : i < tableSize) (hn : kernelTables s.kernelMemmap ≤ i)
    (hnew : (s.dirs (.heap a)).tables i = 0) (h0 : (s.dirs src).tables i ≠ 0)
    (h : mmuCloneTable s ((s.dirs src).tables i) (.heap a) i flags = .ok (t, p, s')) :
    (t = 0 ∧ s' = s) ∨ (t ≠ 0 ∧ ∃ phys s₁, p = phys.getD 0 ∧
      KernelAllocated s s₁ (a :: L) t 3 cloneKflags none phys ∧
      Inv (s₁.placeTable a i t ((s.dirs src).tables i)) (a :: L) ∧
      ClonedSlots flags ((s.dirs src).tables i) t (List.range tableSize)
        (s₁.placeTable a i t ((s.dirs src).tables i)) s' ∧ Inv s' (a :: L)) := by
  simp only [mmuCloneTable, bind_eq_ok, Prod.exists] at h
  obtain ⟨r, phys, s₁, halloc, h⟩ := h
  rcases kalloc_kernel hI kernel_of_cloneKflags (by decide) halloc with ⟨rfl, rfl⟩ | ⟨hr, hK⟩
  · rw [if_pos rfl, pure_eq_ok] at h
    cases h
    refine Or.inl ⟨rfl, ?_⟩
    -- the null pointer is stored where there was one
    have hd : update (s₁.dirs (.heap a)).tables i 0 = (s₁.dirs (.heap a)).tables := by
      rw [← hnew]
      exact update_eq_self ..
    simp [hd]
  · rw [if_neg hr] at h
    obtain ⟨s₃, hloop, h⟩ := bind_eq_ok.mp h
    rw [pure_eq_ok] at h
    cases h
    have hdirs : s₁.dirs = s.dirs := hK.alloc.step.dirs
    have hn₁ : kernelTables s₁.kernelMemmap ≤ i := by
      rwa [kernelTables, hK.alloc.length, ← kernelTables]
    have hnew₁ : (s₁.dirs (.heap a)).tables i = 0 := by rw [hdirs]; exact hnew
    have hfresh : t ∉ liveTables s₁.dirs (a :: L) := by
      rw [hdirs]
      exact hK.not_mem_liveTables hI
    have hI₂ : Inv (s₁.placeTable a i t ((s.dirs src).tables i)) (a :: L) :=
      hK.inv.addTable (by simp) hn₁ hi hr hnew₁ hfresh (hK.not_mem_dirs hI) (hK.owned hI)
        ⟨fun _ => rfl, rfl⟩
    rw [placeTable_eq] at hloop
    have hlive : ∀ {x}, x ∈ liveTables (s₁.placeTable a i t ((s.dirs src).tables i)).dirs (a :: L) ↔
        x = t ∨ x ∈ liveTables s₁.dirs (a :: L) :=
      mem_liveTables_addTable (by simp) hi hr hnew₁
    have hsrclive : (s.dirs src).tables i ∈ liveTables s₁.dirs (a :: L) := by
      rw [hdirs]
      exact mem_liveTables.mpr ⟨h0, src, hsrc, i, hi, rfl⟩
    have hne : (s.dirs src).tables i ≠ t := fun heq => hfresh (heq ▸ hsrclive)
    obtain ⟨hI₃, hslots⟩ := foldlM_clonePage hne List.nodup_range (by simp) hI₂
      (hlive.mpr (Or.inr hsrclive)) (hlive.mpr (Or.inl rfl))
      (by rw [State.placeTable, addTable_tables, if_pos ⟨rfl, rfl⟩])
      (fun j _ => by simp [State.page, State.placeTable, State.addTable]) hloop
    exact Or.inr ⟨hr, phys, s₁, rfl, hK, hI₂, hslots, hI₃⟩

theorem cloneTable_cases {s s' : State} {ok : Bool}
    (hI : Inv s (a :: L)) (hsrc : src ∈ spaces (a :: L)) (hi : i < tableSize)
    (hshare : hasFlag flags cloneShare = false) (hnew : (s.dirs (.heap a)).tables i = 0)
    (h : cloneTable s src (.heap a) i flags = .ok (ok, s')) : TableCloned flags src a L i s ok s' := by
  simp only [cloneTable, hshare, Bool.false_and, Bool.false_or, beq_iff_eq] at h
  split at h
  · next h0 =>
      rw [pure_eq_ok] at h
      cases h
      exact .missing h0
  · next h0 =>
      split at h
      · next hk =>
          rw [pure_eq_ok] at h
          cases h
          exact .linked ((hI.shape.kernel i hi).mp (by rw [hk]; exact h0)) hk.symm
      · next hk =>
          have hn : kernelTables s.kernelMemmap ≤ i := by
            by_contra hlt
            -- a table with an index of the kernel's is the kernel's
            have hlt' : i < kernelTables s.kernelMemmap := by omega
            rcases mem_spaces.mp hsrc with rfl | ⟨b, hb, rfl⟩
            · exact hk rfl
            · exact hk (hI.shape.shared b hb i hlt' h0).symm
          simp only [bind_eq_ok, Prod.exists] at h
          obtain ⟨t, p, s₃, hclone, h⟩ := h
          rcases mmuCloneTable_cases hI hsrc hi hn hnew h0 hclone with
            ⟨rfl, rfl⟩ | ⟨ht, phys, s₁, rfl, hK, hI₂, hslots, hI₃⟩
          · rw [if_pos rfl, pure_eq_ok] at h
            cases h
            exact .full h0
          · rw [if_neg ht, pure_eq_ok] at h
            cases h
            exact .made hn h0 ht hK hI₂ hslots hI₃

section TableCloned

variable {s s' : State} {L : List Nat} {flags a i : Nat} {src : DirRef} {ok : Bool}
  (hI : Inv s (a :: L)) (h : TableCloned flags src a L i s ok s')

include hI h

theorem TableCloned.inv : Inv s' (a :: L) := by
  cases h with
  | missing _ => exact hI
  | linked hn heq => exact hI.link (by simp) hn heq
  | full _ => exact hI
  | made _ _ _ _ _ _ inv' => exact inv'.congr_tables (fun d => setPhysical_tables _ _ _ _ d)

theorem TableCloned.cloned (hok : ok = true) (hsrc : src ∈ spaces (a :: L)) (hne : src ≠ .heap a)
    (hi : i < tableSize) (hnew : (s.dirs (.heap a)).tables i = 0) :
    Cloned flags src a L [i] s s' := by
  cases h with
  | missing h0 => exact cloned_of_missing hI hnew h0
  | linked hn _ => exact cloned_of_linked hI hn
  | full _ => cases hok
  | @made hn h0 t phys s₁ s₃ ht alloc inv slots inv' =>
    have hdirs₁ : s₁.dirs = s.dirs := alloc.alloc.step.dirs
    have hdirs : ∀ d k, ((s₁.placeTable a i t ((s.dirs src).tables i)).dirs d).tables k =
        if d = .heap a ∧ k = i then t else (s.dirs d).tables k := by
      intro d k
      rw [State.placeTable, addTable_tables, hdirs₁]
    have hfresh : t ∉ liveTables s₁.dirs (a :: L) := by
      rw [hdirs₁]
      exact alloc.not_mem_liveTables hI
    have hentry : ∀ d ∈ spaces (a :: L), ∀ v < 1048576,
        s.kernelMemmap.length ≤ v ∨ s.kernelMemmap.used v = true →
        (s₁.placeTable a i t ((s.dirs src).tables i)).entry d v = s.entry d v ∧
        (s₁.placeTable a i t ((s.dirs src).tables i)).record d v = s.record d v := by
      intro d hd v hv hold
      obtain ⟨he, hr⟩ := alloc.alloc.entry_eq hI hd hv hold
      rw [← he, ← hr]
      exact entry_addTable (by rw [hdirs₁]; exact hnew) hfresh ht (fun _ => ⟨rfl, rfl⟩) hd hv
    have hempty : ∀ j, (s₁.placeTable a i t ((s.dirs src).tables i)).page t j = {} ∧
        (s₁.placeTable a i t ((s.dirs src).tables i)).info t j = {} := by
      intro j
      simp [State.page, State.info, State.placeTable, State.addTable]
    have hmem₁ : s₁.mem = s.mem := by
      obtain ⟨_, _, _, _, _, _, _, rfl⟩ := alloc.alloc.step
      rfl
    obtain ⟨hother, hcloned, hrefs⟩ := Cloned.of_slots hI inv hsrc hne hn hi ht h0 hdirs hempty
      alloc.alloc.length ⟨alloc.alloc.grow.used, alloc.alloc.grow.refs, alloc.alloc.grow.out,
        alloc.alloc.grow.zero⟩ hmem₁ hentry slots
    have htables : ∀ d k, ((s₃.setPhysical a i (phys.getD 0 ||| 7)).dirs d).tables k =
        if d = .heap a ∧ k = i then t else (s.dirs d).tables k := by
      intro d k
      rw [setPhysical_tables, slots.step.dirs, hdirs]
    have hmap : s₃.kernelMemmap = s₁.kernelMemmap ∧ s₃.kernelBuffers = s₁.kernelBuffers := by
      obtain ⟨_, _, _, _, _, hs₃⟩ := slots.step
      rw [hs₃]
      exact ⟨rfl, rfl⟩
    refine ⟨?_, ?_, ?_, ?_, ?_, ?_, ?_, ?_, ?_, ?_, ?_, hrefs, ?_, ?_⟩
    · refine (alloc.alloc.step.cloneStep.trans ?_).trans (slots.step.cloneStep.trans ?_)
      · exact ⟨_, _, _, _, _, _, _, _, _, rfl⟩
      · exact ⟨_, _, _, _, _, _, _, _, _, rfl⟩
    · intro d hd
      have h₃ : (s₃.setPhysical a i (phys.getD 0 ||| 7)).dirs d = s₃.dirs d :=
        update_of_ne hd ..
      rw [h₃, slots.step.dirs, ← hdirs₁]
      exact update_of_ne hd ..
    · intro k hk
      rw [htables, if_neg (fun hx => hk (by simp [hx.2]))]
    · intro k hk hlt
      rw [List.mem_singleton.mp hk] at hlt
      omega
    · intro k hk
      rw [List.mem_singleton.mp hk, htables, if_pos ⟨rfl, rfl⟩]
      exact ⟨fun h => absurd h ht, fun h => absurd h h0⟩
    · exact (congrArg Memmap.length hmap.1).trans alloc.alloc.length
    · intro v hv
      show s₃.kernelMemmap.used v = true
      rw [hmap.1]
      exact alloc.alloc.used v hv
    · exact fun g hg => slots.used g (alloc.alloc.grow.used g hg)
    · exact fun ho => slots.out (alloc.alloc.grow.out ho)
    · intro d hd v hv hold hs hda
      obtain ⟨he, hr⟩ := entry_setPhysical s₃ a i (phys.getD 0 ||| 7) d v
      rw [he, hr]
      exact hother d hd v hv hold hs hda
    · exact fun v hv => (hcloned v hv).setPhysical a i _
    · intro g hg hu
      show s₃.mem g = s.mem g
      rw [slots.mem g hg (alloc.alloc.grow.used g hu), ← hmem₁]
      rfl
    · obtain ⟨l, hl⟩ := alloc.alloc.buffers
      exact ⟨l, hmap.2.trans hl⟩

end TableCloned

/-! ## All tables -/

/-- The turns of the loop, up to the first that fails. -/
inductive TablesCloned (flags : Nat) (src : DirRef) (a : Nat) (L : List Nat) :
    List Nat → State → Bool → State → Prop where
  | nil (s : State) : TablesCloned flags src a L [] s true s
  | cons {i : Nat} {I : List Nat} {s s₁ s' : State} {ok : Bool}
      (first : TableCloned flags src a L i s true s₁)
      (rest : TablesCloned flags src a L I s₁ ok s') :
      TablesCloned flags src a L (i :: I) s ok s'
  | stop {i : Nat} {I : List Nat} {s s' : State} (first : TableCloned flags src a L i s false s') :
      TablesCloned flags src a L (i :: I) s false s'

theorem TableCloned.eq_of_false {s s' : State}
    (h : TableCloned flags src a L i s false s') : s' = s := by
  cases h
  rfl

theorem Cloned.rest {I : List Nat} {s s₁ : State} (h : Cloned flags src a L [i] s s₁) (hi : i ∉ I)
    (hI : ∀ k ∈ i :: I, k < tableSize ∧ (s.dirs (.heap a)).tables k = 0) :
    ∀ k ∈ I, k < tableSize ∧ (s₁.dirs (.heap a)).tables k = 0 := by
  intro k hk
  rw [h.tables k (fun hx => hi (List.mem_singleton.mp hx ▸ hk))]
  exact hI k (by simp [hk])

theorem cloneTables_spec {I : List Nat} {s s' : State} {ok : Bool}
    (hI : Inv s (a :: L)) (hsrc : src ∈ spaces (a :: L)) (hne : src ≠ .heap a)
    (hshare : hasFlag flags cloneShare = false) (hnodup : I.Nodup)
    (hI' : ∀ i ∈ I, i < tableSize ∧ (s.dirs (.heap a)).tables i = 0)
    (h : cloneTables src (.heap a) flags I s = .ok (ok, s')) :
    TablesCloned flags src a L I s ok s' ∧ Inv s' (a :: L) ∧
      ∃ J, J <+: I ∧ Cloned flags src a L J s s' ∧ (ok = true → J = I) := by
  induction I generalizing s with
  | nil =>
    cases h
    exact ⟨.nil _, hI, [], List.prefix_rfl, .nil flags src a L _, fun _ => rfl⟩
  | cons i I ih =>
    simp only [cloneTables, bind_eq_ok, Prod.exists] at h
    obtain ⟨ok₁, s₁, hfirst, h⟩ := h
    obtain ⟨hi, hnodup⟩ := List.nodup_cons.mp hnodup
    obtain ⟨hlt, hnew⟩ := hI' i (by simp)
    have hcase := cloneTable_cases hI hsrc hlt hshare hnew hfirst
    have hI₁ := hcase.inv hI
    cases ok₁ with
    | false =>
      simp only [Bool.false_eq_true, if_false, pure_eq_ok] at h
      cases h
      have heq := hcase.eq_of_false
      subst heq
      exact ⟨.stop hcase, hI, [], List.nil_prefix, .nil flags src a L _, fun h => by cases h⟩
    | true =>
      simp only [if_true] at h
      have hone := hcase.cloned hI rfl hsrc hne hlt hnew
      obtain ⟨hchain, hI₂, J, hJ, hcloned, hok⟩ := ih hI₁ hnodup (hone.rest hi hI') h
      refine ⟨.cons hcase hchain, hI₂, i :: J, (List.cons_prefix_cons).mpr ⟨rfl, hJ⟩, ?_, ?_⟩
      · exact .cons hI hsrc hne (fun hx => hi (hJ.subset hx)) hone hcloned
      · intro h
        rw [hok h]

end Hydrax
