import Hydrax.Mmu.FileFault

/-!
# Faults that lose a frame

What becomes of the frame in a fault that loses one: it is counted, and nothing maps it
(`LosesFrame.lost`), so the accounting of the frames is broken (`Lost.not_balanced`). The handler
comes back from such a fault like from any other (`LosesFrame.pageFault_ok`).
-/

namespace Hydrax

variable {s s' : State} {address j t : Nat} {L : List Nat}

/-! ## A lost frame -/

/-- Frame `f` is counted, and nothing maps it. -/
structure Lost (s : State) (L : List Nat) (f : Nat) : Prop where
  ne_zero : f ≠ 0
  refs : s.frameRefs f ≠ 0
  used : s.physicalMemmap.used f = true
  unmapped : ∀ t j, (t, j) ∈ slots s.dirs L → (s.page t j).frame ≠ f

theorem Lost.not_balanced {f : Nat} (h : Lost s L f) : ¬ Balanced s L := by
  intro hB
  have hcount := hB.refs_eq f h.ne_zero
  have hpos : 0 < s.frameRefs f := Nat.pos_of_ne_zero h.refs
  rw [hcount] at hpos
  obtain ⟨⟨t, j⟩, hx, hf⟩ := RefCount.count_pos_iff.mp hpos
  exact h.unmapped t j hx hf

theorem Committed.lost {f : Nat} (h : Committed s t j s')
    (hl : Lost s L f) (hx : (t, j) ∈ slots s.dirs L) : Lost s' L f := by
  cases h with
  | owner _ =>
    refine ⟨hl.ne_zero, hl.refs, hl.used, fun t' j' hx' => ?_⟩
    rw [State.commitOwner, State.page_setInfo, State.page_setPage]
    split
    next hs =>
      obtain ⟨rfl, rfl⟩ := hs
      exact hl.unmapped t' j' hx'
    · exact hl.unmapped t' j' hx'
  | @moved s' g h1 moved =>
    have hfg : f ≠ g := by
      rintro rfl
      have hfree := moved.free
      rw [hl.used] at hfree
      cases hfree
    refine ⟨hl.ne_zero, ?_, by rw [moved.used, hl.used, Bool.or_true], fun t' j' hx' => ?_⟩
    · rw [moved.frameRefs]
      dsimp only
      rw [Function.update_of_ne (Ne.symm (hl.unmapped t j hx)), Function.update_of_ne hfg]
      exact hl.refs
    · rw [moved.step.dirs] at hx'
      by_cases hs : Slot t j t' j'
      · obtain ⟨rfl, rfl⟩ := hs
        rw [moved.entry]
        exact Ne.symm hfg
      · rw [moved.page t' j' hs]
        exact hl.unmapped t' j' hx'

/-- The frame that the faulting page gets is lost when the entry of the master is copied over it. -/
theorem faultExisting_lost {k : KMmap} {mmap : Nat}
    (hI : Inv s L) (hcur : s.currentDirectory ∈ spaces L) (hk : k.directory ∈ spaces L)
    (hv : address / pageSize < 1048576)
    (h0 : s.tableOf s.currentDirectory (address / pageSize) ≠ 0) (hfault : FileFault s address)
    (hshort : (s.mmapInfos mmap).len ≤ (s.mmapInfos k.mmap).len)
    (hfree : s.physicalMemmap.used s.nextFrame = false)
    (htab : s.tableOf k.directory (address / pageSize) =
      s.tableOf s.currentDirectory (address / pageSize))
    (habsent : (s.entry k.directory (masterPage s k mmap address)).present = false)
    (hne : masterPage s k mmap address ≠ address / pageSize)
    (h : faultExisting s k mmap k.node (s.tableOf s.currentDirectory (address / pageSize))
      (pageIdx (address / pageSize)) address = .ok s') :
    CopyStep s s' ∧ Lost s' L s.nextFrame := by
  obtain ⟨hmt, s₁, hready, hend⟩ := faultExisting_cases rfl rfl h
  have hmv := masterPage_lt s k mmap address
  have hslot : (s.tableOf k.directory (masterPage s k mmap address),
      pageIdx (masterPage s k mmap address)) ≠
      (s.tableOf s.currentDirectory (address / pageSize), pageIdx (address / pageSize)) := by
    intro heq
    obtain ⟨ht, hp⟩ := Prod.mk.inj heq
    exact hne (hI.slot_eq hk hcur hmv hv hmt ht hp).1
  rw [State.entry_of_ne hmt] at habsent
  have hframe := hfault.frame
  rw [State.entry_of_ne h0] at hframe
  have hx := slot_mem hcur hv h0
  have hxm := slot_mem hk hmv hmt
  generalize s.tableOf k.directory (masterPage s k mmap address) = mt at *
  generalize pageIdx (masterPage s k mmap address) = mj at *
  generalize ht : s.tableOf s.currentDirectory (address / pageSize) = t at *
  generalize hj : pageIdx (address / pageSize) = j at *
  rcases hend with ⟨heq, -⟩ | ⟨-, hshare⟩
  · exact absurd heq hslot
  cases hready with
  | present hp =>
    rw [habsent] at hp
    cases hp
  | @asked phys s₀ s₁ _ alloc read =>
    obtain ⟨m, rfl⟩ := readPage_state read
    obtain ⟨-, ⟨hbad, -⟩ | ⟨-, htake⟩⟩ := mmuAllocFrame_cases alloc (page_of_aligned address) htab
    · rw [hj] at hbad
      exact absurd hframe hbad
    rw [hj] at htake
    obtain ⟨f, htook, -⟩ := tookFrame_mmuTakeFrame htake
    obtain rfl : f = s.nextFrame := htook.first
    have hf0 : s.nextFrame ≠ 0 := by
      intro h0
      rw [h0, hI.zero_frame] at hfree
      cases hfree
    -- a free frame is mapped nowhere
    have hnot : ∀ t' j', (t', j') ∈ slots s.dirs L → (s.page t' j').frame ≠ s.nextFrame :=
      fun t' j' hx => hI.balanced.not_held hf0 hfree (t', j') hx
    have hmaster : ({ s₀ with mem := m } : State).page mt mj = s.page mt mj :=
      htook.touches.page mt mj (fun hs => hslot (Prod.ext hs.1 hs.2))
    have hlen : (({ s₀ with mem := m } : State).mmapInfos mmap).len ≤
        (({ s₀ with mem := m } : State).mmapInfos k.mmap).len := by
      obtain ⟨_, _, _, _, rfl⟩ := htook.touches.step
      exact hshort
    have hS := faultShare_cases hslot hlen hshare
    have hstep : CopyStep s s' := by
      obtain ⟨_, _, _, _, rfl⟩ := hS.step
      obtain ⟨_, _, _, _, rfl⟩ := htook.touches.step
      exact ⟨_, _, _, _, _, rfl⟩
    refine ⟨hstep, hf0, ?_, ?_, fun t' j' hx' => ?_⟩
    · rw [hS.frameRefs, hmaster, Function.update_of_ne (Ne.symm (hnot mt mj hxm))]
      show s₀.frameRefs s.nextFrame ≠ 0
      rw [htook.refs, Function.update_self, hI.refs_of_free hf0 hfree]
      decide
    · rw [hS.physicalMemmap]
      show s₀.physicalMemmap.used s.nextFrame = true
      rw [htook.used, decide_eq_true rfl, Bool.true_or]
    · rw [hstep.dirs] at hx'
      by_cases hs : Slot t j t' j'
      · obtain ⟨rfl, rfl⟩ := hs
        rw [hS.entry, hmaster]
        exact hnot mt mj hxm
      by_cases hs' : Slot mt mj t' j'
      · obtain ⟨rfl, rfl⟩ := hs'
        rw [hS.master, hmaster]
        exact hnot t' j' hxm
      · rw [hS.page t' j' hs hs']
        show (s₀.page t' j').frame ≠ s.nextFrame
        rw [htook.touches.page t' j' hs]
        exact hnot t' j' hx'

theorem LosesFrame.lost {write : Bool}
    {r : FaultResult} (hlose : LosesFrame s address) (hI : Inv s L)
    (hcur : s.currentDirectory ∈ spaces L) (haddr : address < wordSize)
    (hlive : ∀ k ∈ s.kmmaps, k.directory ∈ spaces L) (hshort : ¬ Promotes s address)
    (hfree : s.physicalMemmap.used s.nextFrame = false)
    (h : Hydrax.pageFault s address write = .ok (r, s')) : Lost s' L s.nextFrame := by
  obtain ⟨hfault, mmap, k, hmasters, htab, habsent, hne⟩ := hlose
  have hv := page_lt haddr
  have hk := hlive k (findKmmap_node hmasters.offset).2
  have hlen := Nat.not_lt.mp (fun hlt => hshort ⟨mmap, k, hmasters, hlt⟩)
  obtain ⟨h0, hfaulted⟩ := pageFault_cases rfl rfl h
  have hload : ∀ {ok : Bool} {s₁ : State}, PageLoaded s
      (s.tableOf s.currentDirectory (address / pageSize)) (pageIdx (address / pageSize)) address
      ok s₁ → ok = true ∧ CopyStep s s₁ ∧ Lost s₁ L s.nextFrame := by
    intro ok s₁ load
    cases load with
    | other hno => exact absurd hfault hno
    | file _ h =>
      obtain ⟨hok, hexisting⟩ := h.of_masters hmasters
      exact ⟨hok, faultExisting_lost hI hcur hk hv h0 hfault hlen hfree htab habsent hne hexisting⟩
  cases hfaulted with
  | commited hc =>
    have hcommited := hfault.commited
    rw [State.record_of_ne h0, hc] at hcommited
    cases hcommited
  | unhandled load => cases (hload load).1
  | read _ load => exact (hload load).2.2
  | write _ load commit =>
    obtain ⟨-, ⟨_, _, _, _, _, rfl⟩, hlost⟩ := hload load
    exact (faultCommit_cases rfl rfl rfl commit).lost hlost (slot_mem hcur hv h0)

/-! ## The handler comes back -/

theorem readPage_ok (node offset : Nat)
    (hp : (s.page t j).present = true) (hw : (s.page t j).rw = true) :
    ∃ s', readPage s node offset t j = .ok s' := by
  simp only [readPage, hp, hw, Bool.and_true, if_true]
  split
  · exact ⟨_, rfl⟩
  · exact ⟨_, rfl⟩

theorem allocFrame_aligned {d : DirRef} (hlen : s.physicalMemmap.length = 65536)
    (ht : s.tableOf d (address / pageSize) = t) (h0 : t ≠ 0)
    (hj : pageIdx (address / pageSize) = j) (hframe : (s.page t j).frame = 0) :
    ∃ phys s₁, mmuAllocFrame s (address - address % pageSize) d = .ok (phys, s₁) ∧
      TookFrame s s₁ t j s.nextFrame := by
  subst ht hj
  rw [← page_of_aligned address] at h0 hframe ⊢
  obtain ⟨s₁, halloc, htook⟩ := mmuAllocFrame_first hlen h0 hframe
  exact ⟨_, s₁, halloc, htook⟩

theorem allocFrame_read_ok {d : DirRef} (node offset : Nat)
    (hlen : s.physicalMemmap.length = 65536) (ht : s.tableOf d (address / pageSize) = t)
    (h0 : t ≠ 0) (hj : pageIdx (address / pageSize) = j) (hframe : (s.page t j).frame = 0)
    (hw : (s.page t j).rw = true) :
    ∃ phys s₁ s₂, mmuAllocFrame s (address - address % pageSize) d = .ok (phys, s₁) ∧
      readPage s₁ node offset t j = .ok s₂ := by
  obtain ⟨phys, s₁, halloc, htook⟩ := allocFrame_aligned hlen ht h0 hj hframe
  obtain ⟨s₂, hread⟩ := readPage_ok (s := s₁) (t := t) (j := j) node offset (by rw [htook.page])
    (by rw [htook.page]; exact hw)
  exact ⟨phys, s₁, s₂, halloc, hread⟩

theorem pageFault_of_file {ok : Bool} (hfault : FileFault s address)
    (h0 : s.tableOf s.currentDirectory (address / pageSize) ≠ 0)
    (h : faultMmap s (s.tableOf s.currentDirectory (address / pageSize))
      (pageIdx (address / pageSize)) address = .ok (ok, s')) :
    pageFault s address false = .ok (if ok then .handled else .unhandled, s') := by
  obtain ⟨hcommited, hmmap, hframe⟩ := hfault
  rw [State.record_of_ne h0] at hcommited hmmap
  rw [State.entry_of_ne h0] at hframe
  simp only [pageFault, if_neg h0, hcommited, hmmap, hframe, h, Loop.ok_bind, decide_true,
    Bool.and_true, if_true, Bool.false_eq_true, if_false]
  cases ok <;> rfl

theorem pageFault_first_ok {mmap node : Nat}
    (hframes : s.physicalMemmap.length = 65536) (hfault : FileFault s address)
    (h0 : s.tableOf s.currentDirectory (address / pageSize) ≠ 0)
    (hw : (s.entry s.currentDirectory (address / pageSize)).rw = true)
    (hfound : findMmap s address = some mmap)
    (hfile : getFileNode s (s.mmapInfos mmap).fd = some node)
    (hnone : findKmmap s node (s.mmapInfos mmap).offset = none)
    (hok : s.mallocOk s.mallocs = true) : ∃ s', pageFault s address false = .ok (.handled, s') := by
  have hframe := hfault.frame
  rw [State.entry_of_ne h0] at hframe hw
  obtain ⟨phys, s₁, s₂, halloc, hread⟩ := allocFrame_read_ok
    (s := { s with mallocs := s.mallocs + 1 }) (d := s.currentDirectory) node
    (fileOffset (s.mmapInfos mmap) (address - address % pageSize)) hframes rfl h0 rfl hframe hw
  have hfirst : ∃ s', faultMmap s (s.tableOf s.currentDirectory (address / pageSize))
      (pageIdx (address / pageSize)) address = .ok (true, s') := by
    have hcur : ({ s with mallocs := s.mallocs + 1 } : State).currentDirectory =
      s.currentDirectory := rfl
    have hread' : readPage s₁ node (fileOffset (s.mmapInfos mmap) (address - address % pageSize))
      (s.tableOf s.currentDirectory (address / pageSize)) (pageIdx (address / pageSize)) = .ok s₂ :=
      hread
    simp only [faultMmap, hfound, hfile, hnone, faultFirst, State.malloc, hok, if_true,
      Option.isNone_some, Bool.false_eq_true, if_false, hcur, halloc, Loop.ok_bind, hread']
    exact ⟨_, rfl⟩
  obtain ⟨s', hmmap⟩ := hfirst
  exact ⟨s', pageFault_of_file hfault h0 hmmap⟩

theorem LosesFrame.pageFault_ok (hlose : LosesFrame s address)
    (hframes : s.physicalMemmap.length = 65536) (hshort : ¬ Promotes s address)
    (h0 : s.tableOf s.currentDirectory (address / pageSize) ≠ 0)
    (hw : (s.entry s.currentDirectory (address / pageSize)).rw = true)
    (hmt : ∀ mmap k, Masters s address mmap k →
      s.tableOf k.directory (masterPage s k mmap address) ≠ 0) :
    ∃ s', pageFault s address false = .ok (.handled, s') := by
  obtain ⟨hfault, mmap, k, hmasters, htab, habsent, -⟩ := hlose
  have hframe := hfault.frame
  have hmt := hmt mmap k hmasters
  rw [State.entry_of_ne h0] at hframe hw
  rw [State.entry_of_ne hmt] at habsent
  obtain ⟨phys, s₁, s₂, halloc, hread⟩ := allocFrame_read_ok (s := s) k.node
    (fileOffset (s.mmapInfos mmap) (address - address % pageSize)) hframes htab h0 rfl hframe hw
  have hlen : (s₂.mmapInfos mmap).len ≤ (s₂.mmapInfos k.mmap).len := by
    obtain ⟨_, _, _, _, rfl⟩ := (mmuAllocFrame_touches halloc).step
    obtain ⟨_, rfl⟩ := readPage_state hread
    exact Nat.not_lt.mp (fun hlt => hshort ⟨mmap, k, hmasters, hlt⟩)
  have hmmap : ∃ s', faultMmap s (s.tableOf s.currentDirectory (address / pageSize))
      (pageIdx (address / pageSize)) address = .ok (true, s') := by
    rw [masterPage] at hmt habsent
    simp only [faultMmap, hmasters.found, hmasters.file, hmasters.offset, faultExisting, if_neg hmt,
      habsent, Bool.not_false, if_true, halloc, Loop.ok_bind, hread]
    split
    · rw [faultShare_eq hlen]
      exact ⟨_, rfl⟩
    · exact ⟨_, rfl⟩
  obtain ⟨s', hmmap⟩ := hmmap
  exact ⟨s', pageFault_of_file hfault h0 hmmap⟩

end Hydrax
