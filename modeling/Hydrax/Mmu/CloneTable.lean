import Hydrax.Mmu.Directory

/-!
# Cloning a page table

The loop of `mmu_clone_table`, entry by entry. `ClonedSlot` is what becomes of one entry: it is
skipped if it has no frame, shared copy-on-write, or copied to a frame of its own. `ClonedSlots`
adds what the loop leaves alone, and composes.
-/

namespace Hydrax

variable {s s' : State} {L : List Nat} {flags j src t : Nat} {d : DirRef}

/-! ## One entry -/

/-- The test of `mmu_clone_table` for an entry that is shared. -/
def shares (flags : Nat) (i : PageInfo) : Bool := hasFlag flags cloneCow && i.cow && !i.noshare

/-- An entry that is shared, on both sides, and its record. -/
def cowPage (p : Page) : Page := { p with rw := false, accessed := false, dirty := false }
def cowInfo (i : PageInfo) : PageInfo := { i with commited := false }

/-- The copy of an entry, with the frame it got, and its record. -/
def copyPage (f : Nat) (p : Page) : Page := { p with frame := f, accessed := false, dirty := false }
def copyInfo (i : PageInfo) : PageInfo := { i with commited := true }

/-- What becomes of entry `j` of the table at `src` and of its clone in the table at `t`. -/
inductive ClonedSlot (flags src t : Nat) (s s' : State) (j : Nat) : Prop where
  | skipped (h0 : (s.page src j).frame = 0)
      (page : s'.page src j = s.page src j) (info : s'.info src j = s.info src j)
      (page' : s'.page t j = s.page t j) (info' : s'.info t j = s.info t j)
  | shared (h0 : (s.page src j).frame ≠ 0) (hs : shares flags (s.info src j) = true)
      (page : s'.page src j = cowPage (s.page src j))
      (info : s'.info src j = cowInfo (s.info src j))
      (page' : s'.page t j = cowPage (s.page src j)) (info' : s'.info t j = cowInfo (s.info src j))
  | copied (h0 : (s.page src j).frame ≠ 0) (hs : shares flags (s.info src j) = false) (f : Nat)
      (page : s'.page src j = s.page src j) (info : s'.info src j = s.info src j)
      (page' : s'.page t j = copyPage f (s.page src j))
      (info' : s'.info t j = copyInfo (s.info src j))
      (fresh : s'.outOfFrames = false → FreshFrame s s' f)
      (mem : s'.outOfFrames = false → s'.mem f = s.mem (s.page src j).frame)

theorem ClonedSlot.later {s s₁ s' : State} (h : ClonedSlot flags src t s s₁ j)
    (hpage : ∀ t', s'.page t' j = s₁.page t' j) (hinfo : ∀ t', s'.info t' j = s₁.info t' j)
    (hout : s₁.outOfFrames = true → s'.outOfFrames = true)
    (hframe : ∀ f, FreshFrame s s₁ f → FreshFrame s s' f ∧ s'.mem f = s₁.mem f) :
    ClonedSlot flags src t s s' j := by
  have hp := hpage src
  have hi := hinfo src
  have htp := hpage t
  have hti := hinfo t
  cases h with
  | skipped h0 page info page' info' =>
    exact .skipped h0 (hp.trans page) (hi.trans info) (htp.trans page') (hti.trans info')
  | shared h0 hs page info page' info' =>
    exact .shared h0 hs (hp.trans page) (hi.trans info) (htp.trans page') (hti.trans info')
  | copied h0 hs f page info page' info' fresh mem =>
    refine .copied h0 hs f (hp.trans page) (hi.trans info) (htp.trans page') (hti.trans info')
      (fun ho => ?_) (fun ho => ?_)
    · exact (hframe f (fresh (false_of_imp hout ho))).1
    · have ho₁ := false_of_imp hout ho
      exact (hframe f (fresh ho₁)).2.trans (mem ho₁)

theorem ClonedSlot.earlier {s s₁ s' : State} (h : ClonedSlot flags src t s₁ s' j)
    (hpage : ∀ t', s₁.page t' j = s.page t' j) (hinfo : ∀ t', s₁.info t' j = s.info t' j)
    (hused : ∀ f, s.physicalMemmap.used f = true → s₁.physicalMemmap.used f = true)
    (hmem : (s.page src j).frame ≠ 0 →
      s₁.mem (s.page src j).frame = s.mem (s.page src j).frame) :
    ClonedSlot flags src t s s' j := by
  have hp := hpage src
  have hi := hinfo src
  cases h with
  | skipped h0 page info page' info' =>
    exact .skipped (hp ▸ h0) (page.trans hp) (info.trans hi) (page'.trans (hpage t))
      (info'.trans (hinfo t))
  | shared h0 hs page info page' info' =>
    rw [hp] at h0 page page'
    rw [hi] at hs info info'
    exact .shared h0 hs page info page' info'
  | copied h0 hs f page info page' info' fresh mem =>
    rw [hp] at h0 page page' mem
    rw [hi] at hs info info'
    exact .copied h0 hs f page info page' info' (fun ho => (fresh ho).earlier (hused f))
      (fun ho => (mem ho).trans (hmem h0))

def CopyStep (s s' : State) : Prop :=
  ∃ T P R o m, s' = { s with
    tables := T, physicalMemmap := P, frameRefs := R, outOfFrames := o, mem := m }

theorem CopyStep.refl (s : State) : CopyStep s s := ⟨_, _, _, _, _, rfl⟩

theorem CopyStep.trans {s₁ s₂ s₃ : State} (h : CopyStep s₁ s₂) (h' : CopyStep s₂ s₃) :
    CopyStep s₁ s₃ := by
  obtain ⟨_, _, _, _, _, rfl⟩ := h
  obtain ⟨_, _, _, _, _, rfl⟩ := h'
  exact ⟨_, _, _, _, _, rfl⟩

theorem CopyStep.dirs (h : CopyStep s s') : s'.dirs = s.dirs := by
  obtain ⟨_, _, _, _, _, rfl⟩ := h
  rfl

theorem FrameStep.copyPhysicalPage (h : FrameStep s s') (dest src : Nat) :
    CopyStep s (s'.copyPhysicalPage dest src) := by
  obtain ⟨_, _, _, _, rfl⟩ := h
  exact ⟨_, _, _, _, _, rfl⟩

/-- Entry `j` of the table at `src` shares frame `g` with its clone. -/
def SharesFrame (flags src : Nat) (s : State) (g j : Nat) : Prop :=
  (s.page src j).frame = g ∧ shares flags (s.info src j) = true

/-- The entries `l` of the table at `src` were cloned to the table at `t`. -/
structure ClonedSlots (flags src t : Nat) (l : List Nat) (s s' : State) : Prop where
  step : CopyStep s s'
  page : ∀ t' j, ¬ (j ∈ l ∧ (t' = src ∨ t' = t)) → s'.page t' j = s.page t' j
  info : ∀ t' j, ¬ (j ∈ l ∧ (t' = src ∨ t' = t)) → s'.info t' j = s.info t' j
  refs : ∀ t', (s'.tables t').refs = (s.tables t').refs
  used : ∀ g, s.physicalMemmap.used g = true → s'.physicalMemmap.used g = true
  out : s.outOfFrames = true → s'.outOfFrames = true
  frameRefs : ∀ g, g ≠ 0 → s.physicalMemmap.used g = true →
    (∀ j ∈ l, ¬ SharesFrame flags src s g j) → s'.frameRefs g = s.frameRefs g
  mem : ∀ g, g ≠ 0 → s.physicalMemmap.used g = true → s'.mem g = s.mem g
  slot : ∀ j ∈ l, ClonedSlot flags src t s s' j

theorem ClonedSlots.nil (flags src t : Nat) (s : State) : ClonedSlots flags src t [] s s :=
  ⟨.refl s, fun _ _ _ => rfl, fun _ _ _ => rfl, fun _ => rfl, fun _ h => h, id, fun _ _ _ _ => rfl,
    fun _ _ _ => rfl, fun _ h => absurd h (by simp)⟩

theorem Inv.frame_used (hI : Inv s L) (hx : (t, j) ∈ slots s.dirs L) (h0 : (s.page t j).frame ≠ 0) :
    s.physicalMemmap.used (s.page t j).frame = true :=
  (hI.balanced.used_iff _ h0).mpr (RefCount.Balanced.refs_pos hI.balanced hx h0)

theorem ClonedSlots.cons {flags src t j : Nat} {l : List Nat} {s s₁ s' : State} {L : List Nat}
    (hI : Inv s L) (hj : j ∉ l) (hsrc : ∀ k, k = j ∨ k ∈ l → (src, k) ∈ slots s.dirs L)
    (h : ClonedSlots flags src t [j] s s₁) (h' : ClonedSlots flags src t l s₁ s') :
    ClonedSlots flags src t (j :: l) s s' := by
  have hl : ∀ k ∈ l, k ≠ j := fun k hk heq => hj (heq ▸ hk)
  -- an entry still to be done is as it was
  have hpage : ∀ t' k, k ∈ l → s₁.page t' k = s.page t' k :=
    fun t' k hk => h.page t' k (fun hx => hl k hk (by simpa using hx.1))
  have hinfo : ∀ t' k, k ∈ l → s₁.info t' k = s.info t' k :=
    fun t' k hk => h.info t' k (fun hx => hl k hk (by simpa using hx.1))
  have hpage' : ∀ t', s'.page t' j = s₁.page t' j := fun t' => h'.page t' j (fun hx => hj hx.1)
  have hinfo' : ∀ t', s'.info t' j = s₁.info t' j := fun t' => h'.info t' j (fun hx => hj hx.1)
  have hshares : ∀ {g k}, k ∈ l → SharesFrame flags src s₁ g k → SharesFrame flags src s g k := by
    intro g k hk hs
    rw [SharesFrame, hpage src k hk, hinfo src k hk] at hs
    exact hs
  refine ⟨h.step.trans h'.step, ?_, ?_, fun t' => (h'.refs t').trans (h.refs t'),
    fun g hg => h'.used g (h.used g hg), fun ho => h'.out (h.out ho), ?_, ?_, ?_⟩
  · intro t' k hk
    rw [h'.page t' k (fun hx => hk ⟨by simp [hx.1], hx.2⟩)]
    exact h.page t' k (fun hx => hk ⟨by simpa using Or.inl hx.1, hx.2⟩)
  · intro t' k hk
    rw [h'.info t' k (fun hx => hk ⟨by simp [hx.1], hx.2⟩)]
    exact h.info t' k (fun hx => hk ⟨by simpa using Or.inl hx.1, hx.2⟩)
  · intro g hg hu hns
    rw [h'.frameRefs g hg (h.used g hu) (fun k hk hs => hns k (by simp [hk]) (hshares hk hs))]
    exact h.frameRefs g hg hu (fun k hk => hns k (by simpa using Or.inl hk))
  · intro g hg hu
    exact (h'.mem g hg (h.used g hu)).trans (h.mem g hg hu)
  · intro k hk
    rcases List.mem_cons.mp hk with rfl | hk
    · -- done first: the rest of the loop keeps it
      refine (h.slot k (by simp)).later hpage' hinfo' h'.out (fun f hf => ⟨?_, ?_⟩)
      · -- the frame was free, so no entry of the table shares it
        refine ⟨hf.ne_zero, hf.free, h'.used f hf.used, ?_⟩
        rw [h'.frameRefs f hf.ne_zero hf.used ?_, hf.refs]
        intro m hm hs'
        have hs'' := hshares hm hs'
        have hu := hI.frame_used (hsrc m (Or.inr hm)) (by rw [hs''.1]; exact hf.ne_zero)
        rw [hs''.1, hf.free] at hu
        cases hu
      · exact h'.mem f hf.ne_zero hf.used
    · exact (h'.slot k hk).earlier (fun t' => hpage t' k hk) (fun t' => hinfo t' k hk) h.used
        (fun h0 => h.mem _ h0 (hI.frame_used (hsrc k (Or.inr hk)) h0))

/-! ## The two branches -/

section Cow

variable (s : State) (src t j : Nat)

def State.cowEntries : State :=
  (((s.setPage src j (cowPage (s.page src j))).setInfo src j (cowInfo (s.info src j))).setPage t j
    (cowPage (s.page src j))).setInfo t j (cowInfo (s.info src j))

theorem page_clonePageCow (t' j' : Nat) : (clonePageCow s src t j).page t' j' =
    if j' = j ∧ (t' = src ∨ t' = t) then cowPage (s.page src j) else s.page t' j' := by
  show (s.cowEntries src t j).page t' j' = _
  rw [State.cowEntries, State.page_setInfo, State.page_setPage, State.page_setInfo, State.page_setPage]
  by_cases hj : j' = j
  · by_cases ht : t' = t
    · simp [hj, ht]
    · simp [hj, ht]
  · simp [hj]

theorem info_clonePageCow (t' j' : Nat) : (clonePageCow s src t j).info t' j' =
    if j' = j ∧ (t' = src ∨ t' = t) then cowInfo (s.info src j) else s.info t' j' := by
  show (s.cowEntries src t j).info t' j' = _
  rw [State.cowEntries, State.info_setInfo, State.info_setPage, State.info_setInfo, State.info_setPage]
  by_cases hj : j' = j
  · by_cases ht : t' = t
    · simp [hj, ht]
    · simp [hj, ht]
  · simp [hj]

theorem refs_clonePageCow (t' : Nat) :
    ((clonePageCow s src t j).tables t').refs = (s.tables t').refs := by
  show ((s.cowEntries src t j).tables t').refs = _
  rw [State.cowEntries, State.refs_setInfo, State.refs_setPage, State.refs_setInfo, State.refs_setPage]

theorem frameAt_clonePageCow : frameAt (clonePageCow s src t j).tables =
    Function.update (frameAt s.tables) (t, j) (frameAt s.tables (src, j)) := by
  show frameAt (s.cowEntries src t j).tables = _
  rw [State.cowEntries, frameAt_setInfo, frameAt_setPage, frameAt_setInfo, frameAt_setPage]
  congr 1
  exact Function.update_eq_self (src, j) (frameAt s.tables)

end Cow

theorem clonePageCow_spec (hI : Inv s L)
    (hsrc : (src, j) ∈ slots s.dirs L) (ht : (t, j) ∈ slots s.dirs L)
    (h0 : (s.page t j).frame = 0) (hf : (s.page src j).frame ≠ 0)
    (hs : shares flags (s.info src j) = true) :
    Inv (clonePageCow s src t j) L ∧ ClonedSlots flags src t [j] s (clonePageCow s src t j) := by
  have hpage := page_clonePageCow s src t j
  have hinfo := info_clonePageCow s src t j
  have htouch : Touches (fun t' j' => j' = j ∧ (t' = src ∨ t' = t)) s (clonePageCow s src t j) :=
    ⟨⟨_, _, _, _, rfl⟩, fun t' j' hP => by rw [hpage, if_neg hP],
      fun t' j' hP => by rw [hinfo, if_neg hP], refs_clonePageCow s src t j, rfl, id⟩
  refine ⟨?_, ⟨⟨_, _, _, _, _, rfl⟩, ?_, ?_, htouch.refs, fun _ h => h, id, ?_, fun _ _ _ => rfl, ?_⟩⟩
  · exact hI.touches htouch (hI.balanced.shareFrame hI.fewSlots ht hsrc h0 rfl
      (frameAt_clonePageCow s src t j) rfl rfl)
  · intro t' j' hP
    exact htouch.page t' j' (fun hx => hP (by simpa using hx))
  · intro t' j' hP
    exact htouch.info t' j' (fun hx => hP (by simpa using hx))
  · intro g hg _ hns
    show Function.update s.frameRefs (s.page src j).frame _ g = s.frameRefs g
    apply Function.update_of_ne
    rintro rfl
    exact hns j (by simp) ⟨rfl, hs⟩
  · intro k hk
    rw [List.mem_singleton.mp hk]
    refine .shared hf hs ?_ ?_ ?_ ?_
    · rw [hpage, if_pos (by simp)]
    · rw [hinfo, if_pos (by simp)]
    · rw [hpage, if_pos (by simp)]
    · rw [hinfo, if_pos (by simp)]

theorem Inv.setMem (hI : Inv s L) (m : Nat → Nat → UInt8) : Inv { s with mem := m } L :=
  hI.congr rfl

theorem clonePageCopy_spec {vaddr v : Nat}
    (hI : Inv s L) (hne : src ≠ t) (ht : (t, j) ∈ slots s.dirs L) (hv : vaddr / pageSize = v)
    (htab : s.tableOf d v = t) (hidx : pageIdx v = j) (h0 : (s.page t j).frame = 0)
    (hf : (s.page src j).frame ≠ 0) (hs : shares flags (s.info src j) = false)
    (h : clonePageCopy s src t j vaddr d = .ok s') :
    Inv s' L ∧ ClonedSlots flags src t [j] s s' := by
  simp only [clonePageCopy, Loop.bind_eq_ok, Prod.exists, Loop.pure_eq_ok] at h
  obtain ⟨phys, s₁, hframe, rfl⟩ := h
  obtain ⟨_, ⟨hbad, _⟩ | ⟨_, htake⟩⟩ := mmuAllocFrame_cases hframe hv htab
  · rw [hidx] at hbad
    exact absurd h0 hbad
  rw [hidx] at htake
  have hI₁ := hI.takeFrame ht h0 htake
  obtain ⟨f, htook, _⟩ := tookFrame_mmuTakeFrame htake
  have hsrcp : s₁.page src j = s.page src j := htook.touches.page src j (fun hx => hne hx.1)
  have hsrci : s₁.info src j = s.info src j := htook.touches.info src j (fun hx => hne hx.1)
  have hf₁ : (s₁.page t j).frame = f := by rw [htook.page]
  rw [hf₁, hsrcp, hsrci]
  -- the entry is written once more, with the same frame
  have hcopy : Touches (Slot t j) s₁ ((s₁.setPage t j (copyPage f (s.page src j))).setInfo t j
      (copyInfo (s.info src j))) :=
    (touches_setPage _ _ _ _).trans (touches_setInfo _ _ _ _)
  have hall := htook.touches.trans hcopy
  have hsrc' := hcopy.page src j (fun hx => hne hx.1)
  have hI₂ : Inv ((s₁.setPage t j (copyPage f (s.page src j))).setInfo t j
      (copyInfo (s.info src j))) L := (hI₁.setPage hf₁.symm).setInfo _ _ _
  refine ⟨hI₂.setMem _, ⟨?_, ?_, ?_, hall.refs, htook.grow.used, htook.grow.out, ?_, ?_, ?_⟩⟩
  · exact hall.step.copyPhysicalPage _ _
  · intro t' j' hP
    exact hall.page t' j' (fun hx => hP ⟨by simp [hx.2], Or.inr hx.1⟩)
  · intro t' j' hP
    exact hall.info t' j' (fun hx => hP ⟨by simp [hx.2], Or.inr hx.1⟩)
  · intro g hg hu _
    exact htook.grow.refs g hg hu
  · intro g hg hu
    show Function.update s₁.mem f _ g = s.mem g
    rw [Function.update_of_ne]
    · obtain ⟨_, _, _, _, hs₁⟩ := htook.touches.step
      rw [hs₁]
    · -- a frame that is in use is not the one that was taken
      rintro rfl
      rw [htook.first] at hu hg
      exact hg (memmapFindFreePage_eq_zero hu)
  · intro k hk
    rw [List.mem_singleton.mp hk]
    have hpage' : ((s₁.setPage t j (copyPage f (s.page src j))).setInfo t j
        (copyInfo (s.info src j))).page t j = copyPage f (s.page src j) := by
      rw [State.page_setInfo, State.page_setPage, if_pos ⟨rfl, rfl⟩]
    have hinfo' : ((s₁.setPage t j (copyPage f (s.page src j))).setInfo t j
        (copyInfo (s.info src j))).info t j = copyInfo (s.info src j) := by
      rw [State.info_setInfo, if_pos ⟨rfl, rfl⟩]
    refine .copied hf hs f (hsrc'.trans hsrcp) (hall.info src j (fun hx => hne hx.1)) hpage' hinfo'
      (fun ho => ?_) (fun _ => ?_)
    · have hfresh := htook.fresh hI ho
      exact ⟨hfresh.ne_zero, hfresh.free, hfresh.used, hfresh.refs⟩
    · show Function.update s₁.mem f (s₁.mem (((s₁.setPage t j (copyPage f (s.page src j))).setInfo
        t j (copyInfo (s.info src j))).page src j).frame) f = _
      rw [Function.update_self, hsrc', hsrcp]
      obtain ⟨_, _, _, _, hs₁⟩ := htook.touches.step
      rw [hs₁]

/-! ## The loop -/

theorem clonePage_spec {i : Nat}
    (hI : Inv s L) (hne : src ≠ t) (hj : j < tableSize) (hsrc : (src, j) ∈ slots s.dirs L)
    (ht : (t, j) ∈ slots s.dirs L) (htab : (s.dirs d).tables i = t) (h0 : (s.page t j).frame = 0)
    (h : clonePage flags src t (i * 1024 * pageSize) d s j = .ok s') :
    Inv s' L ∧ ClonedSlots flags src t [j] s s' := by
  simp only [clonePage] at h
  split at h
  · next hf =>
      cases h
      refine ⟨hI, ⟨.refl s, fun _ _ _ => rfl, fun _ _ _ => rfl, fun _ => rfl, fun _ h => h, id,
        fun _ _ _ _ => rfl, fun _ _ _ => rfl, ?_⟩⟩
      intro k hk
      rw [List.mem_singleton.mp hk]
      exact .skipped hf rfl rfl rfl rfl
  · next hf =>
      split at h
      · next hs =>
          cases h
          exact clonePageCow_spec hI hsrc ht h0 hf hs
      · next hs =>
          have hv : (i * 1024 * pageSize + j * pageSize) / pageSize = i * 1024 + j := by
            rw [← Nat.add_mul, mul_pageSize_div]
          have hidx : pageIdx (i * 1024 + j) = j ∧ tableIdx (i * 1024 + j) = i := by
            simp only [pageIdx, tableIdx, tableSize] at hj ⊢
            omega
          exact clonePageCopy_spec hI hne ht hv (by rw [State.tableOf, hidx.2, htab]) hidx.1 h0 hf
            (by simpa [shares] using hs) h

theorem foldlM_clonePage {i : Nat} (hne : src ≠ t)
    {l : List Nat} (hnodup : l.Nodup) (hl : ∀ j ∈ l, j < tableSize) (hI : Inv s L)
    (hsrc : src ∈ liveTables s.dirs L) (ht : t ∈ liveTables s.dirs L)
    (htab : (s.dirs d).tables i = t) (h0 : ∀ j ∈ l, (s.page t j).frame = 0)
    (h : l.foldlM (clonePage flags src t (i * 1024 * pageSize) d) s = .ok s') :
    Inv s' L ∧ ClonedSlots flags src t l s s' := by
  induction l generalizing s with
  | nil =>
    rw [List.foldlM_nil, Loop.pure_eq_ok] at h
    subst h
    exact ⟨hI, .nil flags src t s⟩
  | cons j l ih =>
    rw [List.foldlM_cons, Loop.bind_eq_ok] at h
    obtain ⟨s₁, hfirst, hrest⟩ := h
    obtain ⟨hj, hnodup⟩ := List.nodup_cons.mp hnodup
    have hslot : ∀ k, k = j ∨ k ∈ l → (src, k) ∈ slots s.dirs L := fun k hk =>
      mem_slots.mpr ⟨hsrc, hl k (by simpa using hk)⟩
    obtain ⟨hI₁, hone⟩ := clonePage_spec hI hne (hl j (by simp)) (hslot j (Or.inl rfl))
      (mem_slots.mpr ⟨ht, hl j (by simp)⟩) htab (h0 j (by simp)) hfirst
    have hdirs := hone.step.dirs
    obtain ⟨hI', hall⟩ := ih hnodup (fun k hk => hl k (by simp [hk])) hI₁ (by rwa [hdirs])
      (by rwa [hdirs]) (by rwa [hdirs])
      (fun k hk => by
        rw [hone.page t k (fun hx => hj (by rw [← List.mem_singleton.mp hx.1]; exact hk))]
        exact h0 k (by simp [hk])) hrest
    exact ⟨hI', .cons hI hj hslot hone hall⟩

end Hydrax
