import Hydrax.Mmu.CloneDirectory

/-!
# Destroying a directory

`mmu_destroy_directory` gives back the frames of the tables that are not the kernel's, takes one
reference off each table, and frees the directory. A table's counter is taken off before it is
tested, and only tables of the kernel were ever counted up, so no table is freed here
(`TableDestroyed` has no case for it).
-/

namespace Hydrax

variable {I L : List Nat} {a i : Nat}

/-! ## One table -/

theorem destroyPage_eq (t : Nat) (s : State) (j : Nat) : destroyPage t s j = mmuFrameFree s t j := by
  simp only [destroyPage]
  split
  · rfl
  · next h => rw [mmuFrameFree_of_eq (by simpa using h)]

/-- The entries of the table at `t`. -/
def tableSlots (t : Nat) : List (Nat × Nat) := (List.range tableSize).map (fun j => (t, j))

theorem mem_tableSlots {t t' j : Nat} : (t', j) ∈ tableSlots t ↔ t' = t ∧ j < tableSize := by
  simp only [tableSlots, List.mem_map, List.mem_range, Prod.mk.injEq]
  constructor
  · rintro ⟨k, hk, rfl, rfl⟩
    exact ⟨rfl, hk⟩
  · rintro ⟨rfl, hj⟩
    exact ⟨j, hj, rfl, rfl⟩

theorem foldl_destroyPage (t : Nat) (s : State) :
    (List.range tableSize).foldl (destroyPage t) s = freeSlots (tableSlots t) s := by
  rw [freeSlots, tableSlots, List.foldl_map]
  congr 1
  funext s j
  exact destroyPage_eq t s j

/-- `table->refs = r`. -/
def State.setRefs (s : State) (t r : Nat) : State := s.setTable t { s.tables t with refs := r }

theorem page_setRefs (s : State) (t r t' j : Nat) :
    (s.setRefs t r).page t' j = s.page t' j ∧ (s.setRefs t r).info t' j = s.info t' j :=
  ⟨State.page_setTable _ _ _ _ (by rfl), State.info_setTable _ _ _ _ (by rfl)⟩

theorem refs_setRefs (s : State) (t r t' : Nat) :
    ((s.setRefs t r).tables t').refs = if t' = t then r else (s.tables t').refs := by
  by_cases h : t' = t
  · subst h
    simp [State.setRefs]
  · simp [State.setRefs, State.setTable_of_ne, h]

theorem frameRefs_setRefs (s : State) (t r : Nat) : (s.setRefs t r).frameRefs = s.frameRefs := rfl

/-- The state with the counters of all tables forgotten. While a directory is being destroyed its
own tables have counters that no live table has. -/
def State.zeroRefs (s : State) : State :=
  { s with tables := fun t => { s.tables t with refs := 0 } }

theorem zeroRefs_setRefs (s : State) (t r : Nat) : (s.setRefs t r).zeroRefs = s.zeroRefs := by
  have h : (fun t' => ({ (s.setRefs t r).tables t' with refs := 0 } : PageTable)) =
      fun t' => { s.tables t' with refs := 0 } := by
    funext t'
    by_cases ht : t' = t
    · subst ht
      simp [State.setRefs]
    · simp [State.setRefs, State.setTable_of_ne, ht]
  rw [State.zeroRefs, h]
  rfl

theorem zeroRefs_setPage (s : State) (t j : Nat) (p : Page) :
    (s.setPage t j p).zeroRefs = s.zeroRefs.setPage t j p := by
  have h : (fun t' => ({ (s.setPage t j p).tables t' with refs := 0 } : PageTable)) =
      (s.zeroRefs.setPage t j p).tables := by
    funext t'
    by_cases ht : t' = t
    · subst ht
      simp [State.setPage, State.zeroRefs]
    · simp [State.setPage, State.setTable_of_ne, State.zeroRefs, ht]
  rw [State.zeroRefs, h]
  rfl

theorem zeroRefs_mmuFrameFree (s : State) (t j : Nat) :
    (mmuFrameFree s t j).zeroRefs = mmuFrameFree s.zeroRefs t j := by
  have hpage : s.zeroRefs.page t j = s.page t j := rfl
  by_cases hf : (s.page t j).frame = 0
  · rw [mmuFrameFree_of_eq hf, mmuFrameFree_of_eq (by rwa [hpage])]
  · rw [mmuFrameFree_of_ne hf, mmuFrameFree_of_ne (by rwa [hpage]), zeroRefs_setPage]
    rfl

theorem zeroRefs_freeSlots (l : List (Nat × Nat)) (s : State) :
    (freeSlots l s).zeroRefs = freeSlots l s.zeroRefs := by
  induction l generalizing s with
  | nil => rfl
  | cons x l ih =>
    show (freeSlots l (mmuFrameFree s x.1 x.2)).zeroRefs = _
    rw [ih, zeroRefs_mmuFrameFree]
    rfl

theorem Inv.of_zeroRefs {s : State} (hI : Inv s.zeroRefs L)
    (hown : ∀ a ∈ L, ∀ i, kernelTables s.kernelMemmap ≤ i → i < tableSize →
      (s.dirs (.heap a)).tables i ≠ 0 → (s.tables ((s.dirs (.heap a)).tables i)).refs ≠ 1)
    (hlt : ∀ t, (s.tables t).refs < wordSize) : Inv s L :=
  ⟨hI.heap, hI.shape, hI.tables_owned, hI.dirs_owned, hI.dirs_apart, hown, hlt, hI.frames,
    hI.zero_frame, hI.balanced⟩

theorem Inv.zeroRefs {s : State} (hI : Inv s L) : Inv s.zeroRefs L :=
  ⟨hI.heap, hI.shape, hI.tables_owned, hI.dirs_owned, hI.dirs_apart,
    fun _ _ _ _ _ _ => by simp [State.zeroRefs], fun _ => by simp [State.zeroRefs, wordSize],
    hI.frames, hI.zero_frame, hI.balanced⟩

theorem FramesShrink.setRefs {s s' : State} (h : FramesShrink s s') (t r : Nat) :
    FramesShrink s (s'.setRefs t r) :=
  ⟨h.used, h.out, h.zero⟩

theorem decr_lt {n : Nat} (h : n < wordSize) : decr n < wordSize := by
  rw [decr]
  split
  · decide
  · omega

theorem decr_eq_zero {n : Nat} : decr n = 0 ↔ n = 1 := by
  rw [decr]
  split
  · next h =>
      subst h
      decide
  · omega

/-- What the loop of `mmu_destroy_directory` can do with table `i` of the directory at `a`. -/
inductive TableDestroyed (a i : Nat) (s : State) : State → Prop where
  | missing (h : (s.dirs (.heap a)).tables i = 0) : TableDestroyed a i s s
  | own (hn : kernelTables s.kernelMemmap ≤ i) (h : (s.dirs (.heap a)).tables i ≠ 0) :
      TableDestroyed a i s ((freeSlots (tableSlots ((s.dirs (.heap a)).tables i)) s).setRefs
        ((s.dirs (.heap a)).tables i) (decr (s.tables ((s.dirs (.heap a)).tables i)).refs))
  | kernel (hn : i < kernelTables s.kernelMemmap)
      (h : (s.dirs (.heap a)).tables i = (s.dirs .kernel).tables i) :
      TableDestroyed a i s (s.setRefs ((s.dirs (.heap a)).tables i)
        (decr (s.tables ((s.dirs (.heap a)).tables i)).refs))

/-- No counter of the tables of the directory at `a` with indices in `I` comes down to `0`, except
those of the kernel. -/
def OwnCounted (a : Nat) (I : List Nat) (s : State) : Prop :=
  ∀ i ∈ I, kernelTables s.kernelMemmap ≤ i → (s.dirs (.heap a)).tables i ≠ 0 →
    (s.tables ((s.dirs (.heap a)).tables i)).refs ≠ 1

theorem destroyTable_ok {s : State} (hI : Inv s.zeroRefs (a :: L)) (hi : i < tableSize)
    (hown : OwnCounted a [i] s) :
    ∃ s', destroyTable (.heap a) s i = .ok s' ∧ TableDestroyed a i s s' := by
  simp only [destroyTable]
  split
  next h0 => exact ⟨s, rfl, .missing h0⟩
  next h0 =>
    split
    next hk =>
      have hn : kernelTables s.kernelMemmap ≤ i := by
        by_contra hlt
        exact hk (hI.shape.shared a (by simp) i (not_le.mp hlt) h0).symm
      have hne : decr (s.tables ((s.dirs (.heap a)).tables i)).refs ≠ 0 := by
        rw [ne_eq, decr_eq_zero]
        exact hown i (by simp) hn h0
      rw [foldl_destroyPage, (touches_freeSlots _ s).1.refs, if_neg hne]
      exact ⟨_, rfl, .own hn h0⟩
    next hk =>
      have hk' : (s.dirs .kernel).tables i = (s.dirs (.heap a)).tables i := by simpa using hk
      exact ⟨_, rfl, .kernel ((hI.shape.kernel i hi).mp (fun h => h0 (hk'.symm.trans h))) hk'.symm⟩

/-! ## All tables -/

/-- The tables of the directory at `a` with indices in `I` were given up. -/
structure Destroyed (a : Nat) (I : List Nat) (s s' : State) : Prop where
  step : FrameStep s s'
  info : ∀ t j, s'.info t j = s.info t j
  page : ∀ t j, (∀ i ∈ I, kernelTables s.kernelMemmap ≤ i → (s.dirs (.heap a)).tables i ≠ t) →
    s'.page t j = s.page t j
  freed : ∀ i ∈ I, kernelTables s.kernelMemmap ≤ i → (s.dirs (.heap a)).tables i ≠ 0 →
    ∀ j < tableSize, s'.page ((s.dirs (.heap a)).tables i) j =
      freedPage (s.page ((s.dirs (.heap a)).tables i) j)
  refs : ∀ t, (∀ i ∈ I, (s.dirs (.heap a)).tables i ≠ t) → (s'.tables t).refs = (s.tables t).refs
  refs_kernel : ∀ i ∈ I, i < kernelTables s.kernelMemmap → (s.dirs (.heap a)).tables i ≠ 0 →
    (s'.tables ((s.dirs (.heap a)).tables i)).refs =
      decr (s.tables ((s.dirs (.heap a)).tables i)).refs
  refs_lt : (∀ t, (s.tables t).refs < wordSize) → ∀ t, (s'.tables t).refs < wordSize
  shrink : FramesShrink s s'
  frameRefs : ∀ f, f ≠ 0 → (∀ i ∈ I, kernelTables s.kernelMemmap ≤ i →
    (s.dirs (.heap a)).tables i ≠ 0 → ∀ j < tableSize,
      (s.page ((s.dirs (.heap a)).tables i) j).frame ≠ f) → s'.frameRefs f = s.frameRefs f

theorem Destroyed.nil (a : Nat) (s : State) : Destroyed a [] s s :=
  ⟨.refl s, fun _ _ => rfl, fun _ _ _ => rfl, fun _ h => absurd h (by simp), fun _ _ => rfl,
    fun _ h => absurd h (by simp), id, .refl s, fun _ _ _ => rfl⟩

theorem FrameStep.kernelMemmap {s s' : State} (h : FrameStep s s') :
    s'.kernelMemmap = s.kernelMemmap := by
  obtain ⟨_, _, _, _, rfl⟩ := h
  rfl

theorem Destroyed.cons {s s₁ s' : State} {I : List Nat} {a i : Nat} (hi : i ∉ I)
    (hinj : ∀ k l, (k = i ∨ k ∈ I) → (l = i ∨ l ∈ I) → (s.dirs (.heap a)).tables k ≠ 0 →
      (s.dirs (.heap a)).tables l = (s.dirs (.heap a)).tables k → l = k)
    (h : Destroyed a [i] s s₁) (h' : Destroyed a I s₁ s') : Destroyed a (i :: I) s s' := by
  have hpage' := h'.page
  have hfreed' := h'.freed
  have hrefs' := h'.refs
  have hkernel' := h'.refs_kernel
  have hframeRefs' := h'.frameRefs
  rw [h.step.dirs, h.step.kernelMemmap] at hpage' hfreed' hkernel' hframeRefs'
  rw [h.step.dirs] at hrefs'
  -- the table at index `i` is none of those that come later
  have hfirst : (s.dirs (.heap a)).tables i ≠ 0 →
      ∀ l ∈ I, (s.dirs (.heap a)).tables l ≠ (s.dirs (.heap a)).tables i := by
    intro h0 l hl heq
    exact hi (hinj i l (Or.inl rfl) (Or.inr hl) h0 heq ▸ hl)
  have hlater : ∀ {k}, k ∈ I → (s.dirs (.heap a)).tables k ≠ 0 →
      ∀ l ∈ [i], (s.dirs (.heap a)).tables l ≠ (s.dirs (.heap a)).tables k := by
    intro k hk h0 l hl heq
    rw [List.mem_singleton.mp hl] at heq
    exact hi (hinj k i (Or.inr hk) (Or.inl rfl) h0 heq ▸ hk)
  refine ⟨h.step.trans h'.step, fun t j => (h'.info t j).trans (h.info t j), ?_, ?_, ?_, ?_,
    fun hlt => h'.refs_lt (h.refs_lt hlt), h.shrink.trans h'.shrink, ?_⟩
  · intro t j hP
    rw [hpage' t j (fun k hk => hP k (by simp [hk]))]
    exact h.page t j (fun k hk => hP k (by simpa using Or.inl (List.mem_singleton.mp hk)))
  · intro k hk hn h0 j hj
    rcases List.mem_cons.mp hk with rfl | hk
    · rw [hpage' _ j (fun l hl _ => hfirst h0 l hl), h.freed k (by simp) hn h0 j hj]
    · rw [hfreed' k hk hn h0 j hj, h.page _ j (fun l hl _ => hlater hk h0 l hl)]
  · intro t hP
    rw [hrefs' t (fun k hk => hP k (by simp [hk]))]
    exact h.refs t (fun k hk => hP k (by simpa using Or.inl (List.mem_singleton.mp hk)))
  · intro k hk hn h0
    rcases List.mem_cons.mp hk with rfl | hk
    · rw [hrefs' _ (hfirst h0), h.refs_kernel k (by simp) hn h0]
    · rw [hkernel' k hk hn h0, h.refs _ (hlater hk h0)]
  · intro f hf hP
    rw [hframeRefs' f hf ?_]
    · exact h.frameRefs f hf (fun k hk => hP k (by simpa using Or.inl (List.mem_singleton.mp hk)))
    · intro k hk hn h0 j hj
      rw [h.page _ j (fun l hl _ => hlater hk h0 l hl)]
      exact hP k (by simp [hk]) hn h0 j hj

theorem TableDestroyed.destroyed {s s' : State}
    (hI : Inv s.zeroRefs (a :: L)) (hi : i < tableSize) (h : TableDestroyed a i s s') :
    Inv s'.zeroRefs (a :: L) ∧ Destroyed a [i] s s' := by
  have hsingle : ∀ {P : Nat → Prop}, P i → ∀ k ∈ [i], P k := by
    intro P hP k hk
    rw [List.mem_singleton.mp hk]
    exact hP
  cases h with
  | missing h0 =>
    refine ⟨hI, .refl s, fun _ _ => rfl, fun _ _ _ => rfl, ?_, fun _ _ => rfl, ?_, id, .refl s,
      fun _ _ _ => rfl⟩
    · exact hsingle (fun _ hne => absurd h0 hne)
    · exact hsingle (fun _ hne => absurd h0 hne)
  | own hn h0 =>
    generalize ht : (s.dirs (.heap a)).tables i = t at h0
    obtain ⟨htouch, hshrink⟩ := touches_freeSlots (tableSlots t) s
    have hpage := page_setRefs (freeSlots (tableSlots t) s) t (decr (s.tables t).refs)
    have hrefs := refs_setRefs (freeSlots (tableSlots t) s) t (decr (s.tables t).refs)
    refine ⟨?_, ?_, ?_, ?_, ?_, ?_, ?_, ?_, hshrink.setRefs _ _, ?_⟩
    · rw [zeroRefs_setRefs, zeroRefs_freeSlots]
      apply hI.freeSlots
      rintro ⟨t', j⟩ hx
      obtain ⟨rfl, hj⟩ := mem_tableSlots.mp hx
      exact mem_slots.mpr ⟨mem_liveTables.mpr ⟨h0, .heap a,
        heap_mem_spaces.mpr (by simp), i, hi, ht⟩, hj⟩
    · obtain ⟨_, _, _, _, hs⟩ := htouch.step
      rw [State.setRefs, State.setTable, hs]
      exact ⟨_, _, _, _, rfl⟩
    · intro t' j
      rw [(hpage t' j).2, info_freeSlots]
    · intro t' j hP
      have hne : t' ≠ t := fun heq => hP i (by simp) hn (ht.trans heq.symm)
      rw [(hpage t' j).1, page_freeSlots, if_neg (fun hx => hne (mem_tableSlots.mp hx).1)]
    · refine hsingle (fun _ _ j hj => ?_)
      rw [ht, (hpage t j).1, page_freeSlots, if_pos (mem_tableSlots.mpr ⟨rfl, hj⟩)]
    · intro t' hP
      rw [hrefs, if_neg (fun heq => hP i (by simp) (ht.trans heq.symm)), htouch.refs]
    · exact hsingle (fun hlt _ => absurd hlt (by omega))
    · intro hlt t'
      rw [hrefs]
      split
      · exact decr_lt (hlt t)
      · rw [htouch.refs]
        exact hlt t'
    · intro f hf hP
      rw [frameRefs_setRefs]
      refine frameRefs_freeSlots hf (fun x hx => ?_)
      obtain ⟨hxt, hj⟩ := mem_tableSlots.mp (show (x.1, x.2) ∈ tableSlots t from hx)
      have hne := hP i (by simp) hn (ht ▸ h0) x.2 hj
      rw [ht] at hne
      rw [hxt]
      exact hne
  | kernel hn heq =>
    generalize ht : (s.dirs (.heap a)).tables i = t
    have hpage := page_setRefs s t (decr (s.tables t).refs)
    have hrefs := refs_setRefs s t (decr (s.tables t).refs)
    refine ⟨by rw [zeroRefs_setRefs]; exact hI, ⟨_, _, _, _, rfl⟩, fun t' j => (hpage t' j).2,
      fun t' j _ => (hpage t' j).1, ?_, ?_, ?_, ?_, (FramesShrink.refl s).setRefs _ _,
      fun _ _ _ => rfl⟩
    · exact hsingle (fun hle => absurd hn (by omega))
    · intro t' hP
      rw [hrefs, if_neg (fun heq => hP i (by simp) (ht.trans heq.symm))]
    · refine hsingle (fun _ _ => ?_)
      rw [ht, hrefs, if_pos rfl]
    · intro hlt t'
      rw [hrefs]
      split
      · exact decr_lt (hlt t)
      · exact hlt t'

theorem Destroyed.own_kept {s s' : State}
    (hI : Inv s.zeroRefs (a :: L)) (hi : i ∉ I) (hlt : ∀ k ∈ i :: I, k < tableSize)
    (hown : OwnCounted a (i :: I) s) (h : Destroyed a [i] s s') : OwnCounted a I s' := by
  have ha : DirRef.heap a ∈ spaces (a :: L) := heap_mem_spaces.mpr (by simp)
  rw [OwnCounted, h.step.dirs, h.step.kernelMemmap]
  intro k hk hn h0
  rw [h.refs _ (fun l hl heq => hi ?_)]
  · exact hown k (by simp [hk]) hn h0
  · rw [List.mem_singleton.mp hl] at heq
    have hik := (hI.shape.tables_inj ha ha (hlt i (by simp)) (hlt k (by simp [hk])) heq
      (heq ▸ h0)).1
    exact hik ▸ hk

/-- **The loop over the tables** ends, and gives them up. -/
theorem destroyTables_ok (hnodup : I.Nodup) (hlt : ∀ i ∈ I, i < tableSize) {s : State}
    (hI : Inv s.zeroRefs (a :: L)) (hown : OwnCounted a I s) :
    ∃ s', I.foldlM (destroyTable (.heap a)) s = .ok s' ∧ Inv s'.zeroRefs (a :: L) ∧
      Destroyed a I s s' := by
  induction I generalizing s with
  | nil => exact ⟨s, rfl, hI, .nil a s⟩
  | cons i I ih =>
    obtain ⟨hi, hnodup⟩ := List.nodup_cons.mp hnodup
    have ha : DirRef.heap a ∈ spaces (a :: L) := heap_mem_spaces.mpr (by simp)
    have hinj : ∀ k l, (k = i ∨ k ∈ I) → (l = i ∨ l ∈ I) → (s.dirs (.heap a)).tables k ≠ 0 →
        (s.dirs (.heap a)).tables l = (s.dirs (.heap a)).tables k → l = k := by
      intro k l hk hl h0 heq
      exact (hI.shape.tables_inj ha ha (hlt l (by simpa using hl)) (hlt k (by simpa using hk))
        heq (heq ▸ h0)).1
    obtain ⟨s₁, hfirst, hT⟩ := destroyTable_ok hI (hlt i (by simp))
      (fun k hk => hown k (by simpa using Or.inl (List.mem_singleton.mp hk)))
    obtain ⟨hI₁, hD⟩ := hT.destroyed hI (hlt i (by simp))
    obtain ⟨s', hrest, hI', hD'⟩ := ih hnodup (fun k hk => hlt k (by simp [hk])) hI₁
      (hD.own_kept hI hi hlt hown)
    exact ⟨s', by rw [List.foldlM_cons, hfirst, Loop.ok_bind, hrest], hI', hD.cons hi hinj hD'⟩

theorem Inv.destroyTables {s : State} (hI : Inv s (a :: L)) :
    ∃ s', (List.range tableSize).foldlM (destroyTable (.heap a)) s = .ok s' ∧
      Inv s'.zeroRefs (a :: L) ∧ Destroyed a (List.range tableSize) s s' :=
  destroyTables_ok List.nodup_range (fun i hi => List.mem_range.mp hi) hI.zeroRefs
    (fun i hi hn h0 => hI.refs_own a (by simp) i hn (List.mem_range.mp hi) h0)

/-- What is left once all tables of a directory were given up: the entries of the other address
spaces, and the invariant without the directory. -/
theorem Destroyed.inv {s s' : State} (hI : Inv s (a :: L))
    (hI' : Inv s'.zeroRefs (a :: L)) (h : Destroyed a (List.range tableSize) s s') : Inv s' L := by
  have hdirs := h.step.dirs
  have hmap := h.step.kernelMemmap
  have hfree : OwnTablesFree s'.zeroRefs a := by
    intro i hn hi h0 j hj
    have hn' : kernelTables s.kernelMemmap ≤ i := hmap ▸ hn
    have h0' : (s.dirs (.heap a)).tables i ≠ 0 := hdirs ▸ h0
    show (s'.page ((s'.dirs (.heap a)).tables i) j).frame = 0
    rw [hdirs, h.freed i (List.mem_range.mpr hi) hn' h0' j hj, freedPage_frame]
  refine (hI'.dropDir hfree).of_zeroRefs ?_ (h.refs_lt hI.refs_lt)
  intro b hb i hn hi h0
  rw [hdirs] at h0 ⊢
  rw [hmap] at hn
  rw [h.refs _ ?_]
  · exact hI.refs_own b (by simp [hb]) i hn hi h0
  · intro k hk heq
    have hne : a ≠ b := fun hab => (List.nodup_cons.mp hI.shape.nodup).1 (hab ▸ hb)
    obtain ⟨rfl, hor⟩ := hI.shape.tables_inj (heap_mem_spaces.mpr (by simp))
      (heap_mem_spaces.mpr (by simp [hb])) (List.mem_range.mp hk) hi heq (heq ▸ h0)
    rcases hor with hlt | heq
    · omega
    · exact hne (by simpa using heq)

/-! ## The directory -/

/-- **Destroying a directory**: its tables, and then the memory it lies in. -/
theorem mmuDestroyDirectory_spec {s s' : State} (hI : Inv s (a :: L))
    (h : mmuDestroyDirectory s a = .ok s') :
    ∃ s₁, Destroyed a (List.range tableSize) s s₁ ∧ Inv s₁ L ∧ a ∉ liveTables s₁.dirs L ∧ a ∉ L ∧
      kfree s₁ a = .ok s' := by
  rw [mmuDestroyDirectory, Loop.bind_eq_ok] at h
  obtain ⟨s₁, hloop, hfree⟩ := h
  obtain ⟨s₁', hloop', hI₁, hD⟩ := hI.destroyTables
  obtain rfl : s₁ = s₁' := Except.ok.inj (hloop.symm.trans hloop')
  refine ⟨s₁, hD, hD.inv hI hI₁, ?_, (List.nodup_cons.mp hI.shape.nodup).1, hfree⟩
  rw [hD.step.dirs]
  exact fun hmem => hI.dirs_apart a (by simp) (liveTables_cons a hmem)

theorem FrameStep.currentDirectory {s s' : State} (h : FrameStep s s') :
    s'.currentDirectory = s.currentDirectory := by
  obtain ⟨_, _, _, _, rfl⟩ := h
  rfl

/-- **`mmu_destroy_directory` keeps the invariant** of the directories that are left. -/
theorem Inv.destroy {s s' : State} (hI : Inv s (a :: L))
    (hcur : s.currentDirectory ∈ spaces L) (h : mmuDestroyDirectory s a = .ok s') : Inv s' L := by
  obtain ⟨s₁, hD, hI₁, htables, hdirs, hfree⟩ := mmuDestroyDirectory_spec hI h
  exact hI₁.kfree (by rwa [hD.step.currentDirectory]) htables hdirs hfree

end Hydrax
