import Hydrax.Mmu.WriteFault

/-!
# The branch of `page_fault` for mapped files

The first access to a page of a mapped file. If the file is not mapped yet the page gets a frame,
the file is read into it and the mapping becomes the master mapping of the file. Otherwise the page
gets the frame of the master's page for the same part of the file.

The handler makes sure that the master's page has a frame before it shares it. It asks
`mmu_alloc_frame` for one with the faulting address, though, where it wants the master's. If the two
are different pages of one space (`LosesFrame`), the faulting page gets the frame and loses it again
when the entry of the master is copied over it. In every other case the frames are accounted for
(`Inv.pageFault`).
-/

namespace Hydrax

open Loop

variable {address j mj mmap mt node offset t : Nat} {k : KMmap} {L : List Nat} {ok write : Bool}

/-! ## Reading a page -/

theorem readPage_cases {s s' : State} (h : readPage s node offset t j = .ok s') :
    (s.vfsRead node offset pageSize = [] ∧ s' = s) ∨
      ((s.page t j).present = true ∧ (s.page t j).rw = true ∧
        s' = { s with mem := Function.update s.mem (s.page t j).frame (fun k =>
          (s.vfsRead node offset pageSize).getD k (s.mem (s.page t j).frame k)) }) := by
  simp only [readPage] at h
  split at h
  next hnil =>
    cases h
    exact Or.inl ⟨hnil, rfl⟩
  · split at h
    next hp =>
      rw [Bool.and_eq_true] at hp
      cases h
      exact Or.inr ⟨hp.1, hp.2, rfl⟩
    · cases h

theorem readPage_state {s s' : State}
    (h : readPage s node offset t j = .ok s') : ∃ m, s' = { s with mem := m } := by
  rcases readPage_cases h with ⟨-, rfl⟩ | ⟨-, -, rfl⟩
  · exact ⟨_, rfl⟩
  · exact ⟨_, rfl⟩

/-! ## Sharing the master's page -/

def masterShared (p : Page) : Page := { p with rw := false }
def masterRecord (p : Page) (i : PageInfo) : PageInfo :=
  if p.rw then { i with commited := false } else i

/-- The entry `j` of the table at `t` became a copy of the entry `mj` of the table at `mt`. -/
structure PageShared (s s' : State) (t j mt mj : Nat) : Prop where
  step : FrameStep s s'
  page : ∀ t' j', ¬ Slot t j t' j' → ¬ Slot mt mj t' j' → s'.page t' j' = s.page t' j'
  info : ∀ t' j', ¬ Slot t j t' j' → ¬ Slot mt mj t' j' → s'.info t' j' = s.info t' j'
  master : s'.page mt mj = masterShared (s.page mt mj)
  masterInfo : s'.info mt mj = masterRecord (s.page mt mj) (s.info mt mj)
  entry : s'.page t j = masterShared (s.page mt mj)
  record : s'.info t j = masterRecord (s.page mt mj) (s.info mt mj)
  refs : ∀ t', (s'.tables t').refs = (s.tables t').refs
  physicalMemmap : s'.physicalMemmap = s.physicalMemmap
  out : s'.outOfFrames = s.outOfFrames
  frameRefs : s'.frameRefs = Function.update s.frameRefs (s.page mt mj).frame
    (incr (s.frameRefs (s.page mt mj).frame))

def State.shareMaster (s : State) (mt mj : Nat) : State :=
  (s.setPage mt mj (masterShared (s.page mt mj))).setInfo mt mj
    (masterRecord (s.page mt mj) (s.info mt mj))

theorem setPage_page (s : State) (t j : Nat) : s.setPage t j (s.page t j) = s := by
  simp [State.setPage, State.setTable, State.page]

theorem setInfo_info (s : State) (t j : Nat) : s.setInfo t j (s.info t j) = s := by
  simp [State.setInfo, State.setTable, State.info]

theorem shareMaster_eq (s : State) (mt mj : Nat) :
    (if (s.page mt mj).rw then (s.setPage mt mj { s.page mt mj with rw := false }).setInfo mt mj
      { s.info mt mj with commited := false } else s) = s.shareMaster mt mj := by
  rw [State.shareMaster, masterShared, masterRecord]
  split
  · rfl
  next hrw =>
    have hpage : { s.page mt mj with rw := false } = s.page mt mj := by
      rw [← Bool.eq_false_iff.mpr hrw]
    rw [hpage, setPage_page, setInfo_info]

def State.countMaster (s : State) (mt mj : Nat) : State :=
  { s with
    frameRefs := Function.update s.frameRefs (s.page mt mj).frame
      (incr (s.frameRefs (s.page mt mj).frame)) }

/-- The entry `j` of the table at `t` becomes a copy of the master's entry, which is shared now. -/
def State.sharePage (s : State) (t j mt mj : Nat) : State :=
  let s₁ := (s.countMaster mt mj).shareMaster mt mj
  (s₁.setPage t j (s₁.page mt mj)).setInfo t j (s₁.info mt mj)

theorem faultShare_sharePage (s : State) : faultShare s k mmap t j mt mj =
    if (s.mmapInfos k.mmap).len < (s.mmapInfos mmap).len then do
      let s₁ ← mmapDup (s.sharePage t j mt mj) k.directory (s.mmapInfos k.mmap).addr
        (s.mmapInfos mmap).addr (s.mmapInfos k.mmap).len
      let k' := { k with mmap := mmap, directory := s₁.currentDirectory }
      return { s₁ with kmmaps := s₁.kmmaps.replace k k' }
    else .ok (s.sharePage t j mt mj) := by
  rw [State.sharePage, ← shareMaster_eq]
  by_cases hrw : (s.page mt mj).rw = true
  · rw [if_pos (show ((s.countMaster mt mj).page mt mj).rw = true from hrw)]
    simp only [faultShare, hrw, if_true]
    rfl
  · rw [if_neg (show ¬ ((s.countMaster mt mj).page mt mj).rw = true from hrw)]
    simp only [faultShare, hrw]
    rfl

theorem faultShare_eq {s : State} (hlen : (s.mmapInfos mmap).len ≤ (s.mmapInfos k.mmap).len) :
    faultShare s k mmap t j mt mj = .ok (s.sharePage t j mt mj) := by
  rw [faultShare_sharePage, if_neg (Nat.not_lt.mpr hlen)]

theorem pageShared_sharePage {s : State} (hne : (mt, mj) ≠ (t, j)) :
    PageShared s (s.sharePage t j mt mj) t j mt mj := by
  have hslot : ¬ Slot t j mt mj := fun hx => hne (Prod.ext hx.1 hx.2)
  have hpage : ((s.countMaster mt mj).shareMaster mt mj).page mt mj =
      masterShared (s.page mt mj) := by
    rw [State.shareMaster, State.page_setInfo, State.page_setPage, if_pos ⟨rfl, rfl⟩]
    rfl
  have hinfo : ((s.countMaster mt mj).shareMaster mt mj).info mt mj =
      masterRecord (s.page mt mj) (s.info mt mj) := by
    rw [State.shareMaster, State.info_setInfo, if_pos ⟨rfl, rfl⟩]
    rfl
  have htouch : Touches (Slot mt mj) (s.countMaster mt mj)
      ((s.countMaster mt mj).shareMaster mt mj) :=
    (touches_setPage _ _ _ _).trans (touches_setInfo _ _ _ _)
  unfold State.sharePage
  refine ⟨⟨_, _, _, _, rfl⟩, ?_, ?_, ?_, ?_, ?_, ?_, ?_, rfl, rfl, rfl⟩
  · intro t' j' hs hm
    rw [State.page_setInfo, State.page_setPage, if_neg hs, htouch.page t' j' hm]
    rfl
  · intro t' j' hs hm
    rw [State.info_setInfo, if_neg hs, State.info_setPage, htouch.info t' j' hm]
    rfl
  · rw [State.page_setInfo, State.page_setPage, if_neg hslot, hpage]
  · rw [State.info_setInfo, if_neg hslot, State.info_setPage, hinfo]
  · rw [State.page_setInfo, State.page_setPage, if_pos ⟨rfl, rfl⟩, hpage]
  · rw [State.info_setInfo, if_pos ⟨rfl, rfl⟩, hinfo]
  · intro t'
    rw [State.refs_setInfo, State.refs_setPage, htouch.refs]
    rfl

/-- **The page is shared**, if its mapping is not longer than the master. -/
theorem faultShare_cases {s s' : State}
    (hne : (mt, mj) ≠ (t, j)) (hlen : (s.mmapInfos mmap).len ≤ (s.mmapInfos k.mmap).len)
    (h : faultShare s k mmap t j mt mj = .ok s') : PageShared s s' t j mt mj := by
  rw [faultShare_eq hlen] at h
  cases h
  exact pageShared_sharePage hne

theorem PageShared.inv {s s' : State}
    (h : PageShared s s' t j mt mj) (hI : Inv s L) (hx : (t, j) ∈ slots s.dirs L)
    (hm : (mt, mj) ∈ slots s.dirs L) (h0 : (s.page t j).frame = 0) : Inv s' L := by
  have hframes : frameAt s'.tables =
      Function.update (frameAt s.tables) (t, j) (frameAt s.tables (mt, mj)) := by
    funext x
    obtain ⟨t', j'⟩ := x
    rw [Function.update_apply]
    show (s'.page t' j').frame = _
    by_cases hs : Slot t j t' j'
    · obtain ⟨rfl, rfl⟩ := hs
      rw [if_pos rfl, h.entry]
      rfl
    · rw [if_neg (fun heq => hs (Prod.mk.inj heq))]
      by_cases hs' : Slot mt mj t' j'
      · obtain ⟨rfl, rfl⟩ := hs'
        rw [h.master]
        rfl
      · rw [h.page t' j' hs hs']
        rfl
  have hB : Balanced s' L := hI.balanced.shareFrame hI.fewSlots hx hm h0 h.step.dirs hframes
    h.frameRefs h.physicalMemmap
  have hrefs := h.refs
  have hphys := h.physicalMemmap
  obtain ⟨T, P, R, o, rfl⟩ := h.step
  obtain rfl : P = s.physicalMemmap := hphys
  exact hI.of_balanced rfl hrefs hI.frames hI.zero_frame hB

/-! ## The lookups -/

/-- The handler finds for `address` the record `mmap`, and `k` as the master of its file. -/
structure Masters (s : State) (address mmap : Nat) (k : KMmap) : Prop where
  found : findMmap s address = some mmap
  file : getFileNode s (s.mmapInfos mmap).fd = some k.node
  offset : findKmmap s k.node (s.mmapInfos mmap).offset = some k

/-- The page of the master mapping for the page at `address`. -/
def masterPage (s : State) (k : KMmap) (mmap address : Nat) : Nat :=
  masterAddress (s.mmapInfos k.mmap) (s.mmapInfos mmap) address / pageSize

structure FileFault (s : State) (address : Nat) : Prop where
  commited : (s.record s.currentDirectory (address / pageSize)).commited = false
  mmap : (s.record s.currentDirectory (address / pageSize)).mmap = true
  frame : (s.entry s.currentDirectory (address / pageSize)).frame = 0

/-- The fault costs a frame: the page of the master is not there, and it is another page than the
faulting one, which the master's directory maps as well. -/
def LosesFrame (s : State) (address : Nat) : Prop :=
  FileFault s address ∧ ∃ mmap k, Masters s address mmap k ∧
    s.tableOf k.directory (address / pageSize) =
      s.tableOf s.currentDirectory (address / pageSize) ∧
    (s.entry k.directory (masterPage s k mmap address)).present = false ∧
    masterPage s k mmap address ≠ address / pageSize

/-- The mapping is made the master of its file, because it is longer. -/
def Promotes (s : State) (address : Nat) : Prop :=
  ∃ mmap k, Masters s address mmap k ∧ (s.mmapInfos k.mmap).len < (s.mmapInfos mmap).len

theorem findKmmap_node {s : State}
    (h : findKmmap s node offset = some k) : k.node = node ∧ k ∈ s.kmmaps := by
  have hk := List.find?_some h
  simp only [Bool.and_eq_true, beq_iff_eq] at hk
  exact ⟨hk.1, List.mem_of_find?_eq_some h⟩

theorem masterPage_lt (s : State) (k : KMmap) (mmap address : Nat) :
    masterPage s k mmap address < 1048576 := by
  simp only [masterPage, masterAddress, wordSize, pageSize]
  omega

/-! ## The branches -/

/-- The master's page is there, or a frame was asked for with the faulting address. -/
inductive MasterReady (s : State) (k : KMmap) (mmap node t j address mt mj : Nat) :
    State → Prop where
  | present (h : (s.page mt mj).present = true) :
      MasterReady s k mmap node t j address mt mj s
  | asked {phys : Nat} {s₁ s₂ : State} (h : (s.page mt mj).present = false)
      (alloc : mmuAllocFrame s (address - address % pageSize) k.directory = .ok (phys, s₁))
      (read : readPage s₁ node (fileOffset (s.mmapInfos mmap) (address - address % pageSize)) t j =
        .ok s₂) :
      MasterReady s k mmap node t j address mt mj s₂

theorem faultExisting_cases {s s' : State} {mv : Nat}
    (hmv : masterPage s k mmap address = mv) (hmt : s.tableOf k.directory mv = mt)
    (h : faultExisting s k mmap node t j address = .ok s') :
    mt ≠ 0 ∧ ∃ s₁, MasterReady s k mmap node t j address mt (pageIdx mv) s₁ ∧
      (((mt, pageIdx mv) = (t, j) ∧ s' = s₁) ∨
        ((mt, pageIdx mv) ≠ (t, j) ∧ faultShare s₁ k mmap t j mt (pageIdx mv) = .ok s')) := by
  rw [masterPage] at hmv
  simp only [faultExisting, hmv, hmt] at h
  split at h
  · cases h
  next h0 =>
    have hend : ∀ {s₁ : State}, (if (mt, pageIdx mv) ≠ (t, j) then
        faultShare s₁ k mmap t j mt (pageIdx mv) else pure s₁) = Except.ok s' →
        ((mt, pageIdx mv) = (t, j) ∧ s' = s₁) ∨
          ((mt, pageIdx mv) ≠ (t, j) ∧ faultShare s₁ k mmap t j mt (pageIdx mv) = .ok s') := by
      intro s₁ h
      split at h
      next hne => exact Or.inr ⟨hne, h⟩
      next heq =>
        cases h
        exact Or.inl ⟨by simpa using heq, rfl⟩
    refine ⟨h0, ?_⟩
    split at h
    next hp =>
      simp only [bind_eq_ok, Prod.exists] at h
      obtain ⟨phys, s₁, halloc, s₂, hread, h⟩ := h
      exact ⟨s₂, .asked (by simpa using hp) halloc hread, hend h⟩
    next hp =>
      rw [ok_bind] at h
      exact ⟨s, .present (by simpa using hp), hend h⟩

inductive FileFaulted (s : State) (t j address : Nat) : Bool → State → Prop where
  | unknown (h : ∀ mmap, findMmap s address = some mmap →
      getFileNode s (s.mmapInfos mmap).fd = none) : FileFaulted s t j address false s
  | full {mmap node : Nat} (found : findMmap s address = some mmap)
      (file : getFileNode s (s.mmapInfos mmap).fd = some node)
      (none : findKmmap s node (s.mmapInfos mmap).offset = none) :
      FileFaulted s t j address false { s with mallocs := s.mallocs + 1 }
  | existing {mmap : Nat} {k : KMmap} {s' : State} (masters : Masters s address mmap k)
      (h : faultExisting s k mmap k.node t j address = .ok s') :
      FileFaulted s t j address true s'
  | first {mmap node phys : Nat} {s₁ s₂ : State} (found : findMmap s address = some mmap)
      (file : getFileNode s (s.mmapInfos mmap).fd = some node)
      (none : findKmmap s node (s.mmapInfos mmap).offset = none)
      (alloc : mmuAllocFrame { s with mallocs := s.mallocs + 1 } (address - address % pageSize)
        s.currentDirectory = .ok (phys, s₁))
      (read : readPage s₁ node (fileOffset (s.mmapInfos mmap) (address - address % pageSize)) t j =
        .ok s₂) :
      FileFaulted s t j address true { s₂ with
        kmmaps := s₂.kmmaps ++ [{ mmap := mmap, node := node, directory := s₂.currentDirectory }] }

theorem faultFirst_cases {s s' : State} (found : findMmap s address = some mmap)
    (file : getFileNode s (s.mmapInfos mmap).fd = some node)
    (none : findKmmap s node (s.mmapInfos mmap).offset = none)
    (h : faultFirst s mmap node t j address = .ok (ok, s')) :
    FileFaulted s t j address ok s' := by
  simp only [faultFirst, State.malloc] at h
  cases hok : s.mallocOk s.mallocs with
  | false =>
    simp only [hok, Bool.false_eq_true, if_false, Option.isNone_none, if_true] at h
    cases h
    exact .full found file none
  | true =>
    simp only [hok, if_true, Option.isNone_some, Bool.false_eq_true, if_false, bind_eq_ok,
      Prod.exists] at h
    obtain ⟨phys, s₁, halloc, s₂, hread, h⟩ := h
    cases h
    exact .first found file none halloc hread

theorem faultMmap_cases {s s' : State}
    (h : faultMmap s t j address = .ok (ok, s')) : FileFaulted s t j address ok s' := by
  simp only [faultMmap] at h
  split at h
  next hnone =>
    cases h
    exact .unknown (fun mmap hfound => by rw [hnone] at hfound; cases hfound)
  next mmap hfound =>
    split at h
    next hnone =>
      cases h
      exact .unknown (fun mmap' hfound' => by
        rw [hfound] at hfound'
        cases hfound'
        exact hnone)
    next node hfile =>
      split at h
      next k hk =>
        obtain ⟨s₁, hexisting, h⟩ := bind_eq_ok.mp h
        cases h
        obtain ⟨rfl, -⟩ := findKmmap_node hk
        exact .existing ⟨hfound, hfile, hk⟩ hexisting
      next hk => exact faultFirst_cases hfound hfile hk h

theorem FileFaulted.of_masters {s s' : State}
    (hm : Masters s address mmap k) (h : FileFaulted s t j address ok s') :
    ok = true ∧ faultExisting s k mmap k.node t j address = .ok s' := by
  have hnode : ∀ {mmap' node : Nat}, findMmap s address = some mmap' →
      getFileNode s (s.mmapInfos mmap').fd = some node → mmap' = mmap ∧ node = k.node := by
    intro mmap' node found file
    obtain rfl : mmap' = mmap := Option.some.inj (found.symm.trans hm.found)
    exact ⟨rfl, Option.some.inj (file.symm.trans hm.file)⟩
  cases h with
  | unknown h =>
    have := hm.file
    rw [h mmap hm.found] at this
    cases this
  | full found file none =>
    obtain ⟨rfl, rfl⟩ := hnode found file
    cases none.symm.trans hm.offset
  | @existing mmap' k' s' masters h =>
    obtain ⟨rfl, hk⟩ := hnode masters.found masters.file
    have hoffset := masters.offset
    rw [hk, hm.offset] at hoffset
    obtain rfl := Option.some.inj hoffset
    exact ⟨rfl, h⟩
  | first found file none =>
    obtain ⟨rfl, rfl⟩ := hnode found file
    cases none.symm.trans hm.offset

/-! ## The handler -/

/-- What the handler did before it looks at the kind of access. -/
inductive PageLoaded (s : State) (t j address : Nat) : Bool → State → Prop where
  | file {ok : Bool} {s' : State} (fault : FileFault s address)
      (h : FileFaulted s t j address ok s') : PageLoaded s t j address ok s'
  | other (fault : ¬ FileFault s address) : PageLoaded s t j address true s

/-- How `page_fault` ends. -/
inductive Faulted (s : State) (t j address : Nat) (write : Bool) : FaultResult → State → Prop where
  | commited (h : (s.info t j).commited = true) : Faulted s t j address write .unhandled s
  | unhandled {s' : State} (load : PageLoaded s t j address false s') :
      Faulted s t j address write .unhandled s'
  | read {s' : State} (hw : write = false) (load : PageLoaded s t j address true s') :
      Faulted s t j address write .handled s'
  | write {s₁ s' : State} (hw : write = true) (load : PageLoaded s t j address true s₁)
      (commit : faultCommit s₁ t j address = .ok s') : Faulted s t j address write .handled s'

theorem pageFault_cases {s s' : State} {r : FaultResult}
    (ht : s.tableOf s.currentDirectory (address / pageSize) = t)
    (hj : pageIdx (address / pageSize) = j) (h : pageFault s address write = .ok (r, s')) :
    t ≠ 0 ∧ Faulted s t j address write r s' := by
  simp only [pageFault, ht, hj] at h
  split at h
  · cases h
  next h0 =>
    refine ⟨h0, ?_⟩
    split at h
    next hc =>
      cases h
      exact .commited hc
    next hc =>
      have hentry : s.entry s.currentDirectory (address / pageSize) = s.page t j := by
        rw [State.entry_of_ne (by rwa [ht]), ht, hj]
      have hrecord : s.record s.currentDirectory (address / pageSize) = s.info t j := by
        rw [State.record_of_ne (by rwa [ht]), ht, hj]
      have hend : ∀ {ok : Bool} {s₁ : State}, PageLoaded s t j address ok s₁ →
          (if (!ok) = true then pure (FaultResult.unhandled, s₁) else if write = true then do
            let s ← faultCommit s₁ t j address
            pure (FaultResult.handled, s) else pure (FaultResult.handled, s₁)) =
              Except.ok (r, s') → Faulted s t j address write r s' := by
        intro ok s₁ hload h
        cases ok with
        | false =>
          cases h
          exact .unhandled hload
        | true =>
          simp only [Bool.not_true, Bool.false_eq_true, if_false] at h
          split at h
          next hw =>
            obtain ⟨s₂, hcommit, h⟩ := bind_eq_ok.mp h
            cases h
            exact .write hw hload hcommit
          next hw =>
            cases h
            exact .read (by simpa using hw) hload
      split at h
      next hf =>
        rw [Bool.and_eq_true, decide_eq_true_eq] at hf
        simp only [bind_eq_ok, Prod.exists] at h
        obtain ⟨ok, s₁, hmmap, h⟩ := h
        have hfault : FileFault s address :=
          ⟨by rw [hrecord]; simpa using hc, by rw [hrecord]; exact hf.1, by rw [hentry]; exact hf.2⟩
        exact hend (.file hfault (faultMmap_cases hmmap)) h
      next hf =>
        rw [ok_bind] at h
        refine hend (.other (fun hfault => hf ?_)) h
        rw [Bool.and_eq_true, decide_eq_true_eq, ← hrecord, ← hentry]
        exact ⟨hfault.mmap, hfault.frame⟩

/-! ## The invariant -/

theorem page_of_aligned (address : Nat) :
    (address - address % pageSize) / pageSize = address / pageSize := by
  rw [pageSize]
  omega

theorem mmuAllocFrame_touches {s s' : State} {d : DirRef} {addr phys : Nat}
    (h : mmuAllocFrame s addr d = .ok (phys, s')) :
    Touches (Slot (s.tableOf d (addr / pageSize)) (pageIdx (addr / pageSize))) s s' := by
  obtain ⟨-, ⟨-, -, rfl⟩ | ⟨-, htake⟩⟩ := mmuAllocFrame_cases h rfl rfl
  · exact .refl _ _
  · obtain ⟨f, htook, -⟩ := tookFrame_mmuTakeFrame htake
    exact htook.touches

section MasterReady

variable {s s' : State} {L : List Nat} {k : KMmap} {mmap node t j address mt mj : Nat}
  (h : MasterReady s k mmap node t j address mt mj s')

include h

theorem MasterReady.step : CopyStep s s' := by
  cases h with
  | present _ => exact .refl s
  | asked _ alloc read =>
    obtain ⟨_, _, _, _, rfl⟩ := (mmuAllocFrame_touches alloc).step
    obtain ⟨_, rfl⟩ := readPage_state read
    exact ⟨_, _, _, _, _, rfl⟩

theorem MasterReady.inv (hI : Inv s L) (hk : k.directory ∈ spaces L)
    (hv : address / pageSize < 1048576) : Inv s' L := by
  cases h with
  | present _ => exact hI
  | asked _ alloc read =>
    obtain ⟨m, rfl⟩ := readPage_state read
    exact (hI.allocFrame hk (by rwa [page_of_aligned]) alloc).setMem m

theorem MasterReady.page (hp : (s.page mt mj).present = true ∨
    s.tableOf k.directory (address / pageSize) ≠ t) : s'.page t j = s.page t j := by
  cases h with
  | present _ => rfl
  | asked habsent alloc read =>
    rcases hp with hp | hne
    · rw [habsent] at hp
      cases hp
    · obtain ⟨m, rfl⟩ := readPage_state read
      refine (mmuAllocFrame_touches alloc).page t j (fun hx => hne ?_)
      rw [page_of_aligned] at hx
      exact hx.1.symm

end MasterReady

/-- **A page of a file that has a master mapping.** -/
theorem Inv.faultExisting {s s' : State}
    (hI : Inv s L) (hcur : s.currentDirectory ∈ spaces L) (hv : address / pageSize < 1048576)
    (h0 : s.tableOf s.currentDirectory (address / pageSize) ≠ 0) (hfault : FileFault s address)
    (hmasters : Masters s address mmap k) (hk : k.directory ∈ spaces L)
    (hshort : (s.mmapInfos mmap).len ≤ (s.mmapInfos k.mmap).len) (hkeep : ¬ LosesFrame s address)
    (h : Hydrax.faultExisting s k mmap k.node (s.tableOf s.currentDirectory (address / pageSize))
      (pageIdx (address / pageSize)) address = .ok s') : Inv s' L := by
  obtain ⟨hmt, s₁, hready, hend⟩ := faultExisting_cases rfl rfl h
  have hI₁ := hready.inv hI hk hv
  rcases hend with ⟨-, rfl⟩ | ⟨hne, hshare⟩
  · exact hI₁
  have hstep := hready.step
  have hinfos : s₁.mmapInfos = s.mmapInfos := by
    obtain ⟨_, _, _, _, _, rfl⟩ := hstep
    rfl
  have hlen : (s₁.mmapInfos mmap).len ≤ (s₁.mmapInfos k.mmap).len := by
    rw [hinfos]
    exact hshort
  -- the faulting page still has no frame
  have hpage := hready.page (by
    by_contra hlost
    rw [not_or, Bool.not_eq_true, not_not] at hlost
    refine hkeep ⟨hfault, mmap, k, hmasters, hlost.2, ?_, fun heq => hne ?_⟩
    · rw [State.entry_of_ne hmt]
      exact hlost.1
    · rw [heq, hlost.2])
  have hframe : (s₁.page (s.tableOf s.currentDirectory (address / pageSize))
      (pageIdx (address / pageSize))).frame = 0 := by
    rw [hpage, ← State.entry_of_ne h0]
    exact hfault.frame
  refine (faultShare_cases hne hlen hshare).inv hI₁ ?_ ?_ hframe
  · rw [hstep.dirs]
    exact slot_mem hcur hv h0
  · rw [hstep.dirs]
    exact slot_mem hk (masterPage_lt s k mmap address) hmt

theorem Inv.setMallocs {s : State} (hI : Inv s L) (n : Nat) : Inv { s with mallocs := n } L :=
  hI.congr rfl

theorem Inv.setKmmaps {s : State} (hI : Inv s L) (l : List KMmap) : Inv { s with kmmaps := l } L :=
  hI.congr rfl

def FaultStep (s s' : State) : Prop :=
  ∃ T P R o m l n, s' = { s with
    tables := T, physicalMemmap := P, frameRefs := R, outOfFrames := o, mem := m, kmmaps := l
    mallocs := n }

theorem CopyStep.faultStep {s s' : State} (h : CopyStep s s') : FaultStep s s' := by
  obtain ⟨_, _, _, _, _, rfl⟩ := h
  exact ⟨_, _, _, _, _, _, _, rfl⟩

theorem FaultStep.trans {s₁ s₂ s₃ : State} (h : FaultStep s₁ s₂) (h' : FaultStep s₂ s₃) :
    FaultStep s₁ s₃ := by
  obtain ⟨_, _, _, _, _, _, _, rfl⟩ := h
  obtain ⟨_, _, _, _, _, _, _, rfl⟩ := h'
  exact ⟨_, _, _, _, _, _, _, rfl⟩

theorem PageLoaded.step {s s' : State} {t j address : Nat} {ok : Bool}
    (hshort : ¬ Promotes s address) (h : PageLoaded s t j address ok s') : FaultStep s s' := by
  cases h with
  | other _ => exact ⟨_, _, _, _, _, _, _, rfl⟩
  | file fault h =>
    cases h with
    | unknown _ => exact ⟨_, _, _, _, _, _, _, rfl⟩
    | full _ _ _ => exact ⟨_, _, _, _, _, _, _, rfl⟩
    | @existing mmap k s' masters h =>
      obtain ⟨-, s₁, hready, ⟨-, rfl⟩ | ⟨hne, hshare⟩⟩ := faultExisting_cases rfl rfl h
      · exact hready.step.faultStep
      · have hinfos : s₁.mmapInfos = s.mmapInfos := by
          obtain ⟨_, _, _, _, _, rfl⟩ := hready.step
          rfl
        have hlen : (s₁.mmapInfos mmap).len ≤ (s₁.mmapInfos k.mmap).len := by
          rw [hinfos]
          exact Nat.not_lt.mp (fun hlt => hshort ⟨mmap, k, masters, hlt⟩)
        obtain ⟨_, _, _, _, rfl⟩ := (faultShare_cases hne hlen hshare).step
        exact hready.step.faultStep.trans ⟨_, _, _, _, _, _, _, rfl⟩
    | first found file none alloc read =>
      obtain ⟨_, _, _, _, rfl⟩ := (mmuAllocFrame_touches alloc).step
      obtain ⟨_, rfl⟩ := readPage_state read
      exact ⟨_, _, _, _, _, _, _, rfl⟩

section PageLoaded

variable {s s' : State} {L : List Nat} {address : Nat} (hI : Inv s L)
  (hcur : s.currentDirectory ∈ spaces L) (hv : address / pageSize < 1048576)
  (h0 : s.tableOf s.currentDirectory (address / pageSize) ≠ 0)
  (hlive : ∀ k ∈ s.kmmaps, k.directory ∈ spaces L) (hshort : ¬ Promotes s address)
  (hkeep : ¬ LosesFrame s address)
  (h : PageLoaded s (s.tableOf s.currentDirectory (address / pageSize))
    (pageIdx (address / pageSize)) address ok s')

include hI hcur hv h0 hlive hshort hkeep h

theorem PageLoaded.inv : Inv s' L := by
  cases h with
  | other _ => exact hI
  | file fault h =>
    cases h with
    | unknown _ => exact hI
    | full _ _ _ => exact hI.setMallocs _
    | @existing mmap k s' masters h =>
      refine hI.faultExisting hcur hv h0 fault masters (hlive k (findKmmap_node masters.offset).2)
        (Nat.not_lt.mp (fun hlt => hshort ⟨mmap, k, masters, hlt⟩)) hkeep h
    | first found file none alloc read =>
      obtain ⟨m, rfl⟩ := readPage_state read
      have hframe := (hI.setMallocs (s.mallocs + 1)).allocFrame hcur (by rwa [page_of_aligned])
        alloc
      exact (hframe.setMem m).setKmmaps _

end PageLoaded

theorem Inv.pageFault {s s' : State} {L : List Nat} {address : Nat} {write : Bool}
    {r : FaultResult} (hI : Inv s L) (hcur : s.currentDirectory ∈ spaces L)
    (haddr : address < wordSize) (hlive : ∀ k ∈ s.kmmaps, k.directory ∈ spaces L)
    (hshort : ¬ Promotes s address) (hkeep : ¬ LosesFrame s address)
    (h : Hydrax.pageFault s address write = .ok (r, s')) : Inv s' L := by
  have hv := page_lt haddr
  obtain ⟨h0, hfault⟩ := pageFault_cases rfl rfl h
  cases hfault with
  | commited _ => exact hI
  | unhandled load => exact load.inv hI hcur hv h0 hlive hshort hkeep
  | read _ load => exact load.inv hI hcur hv h0 hlive hshort hkeep
  | @write s₁ _ _ load commit =>
    have hI₁ := load.inv hI hcur hv h0 hlive hshort hkeep
    obtain ⟨_, _, _, _, _, _, _, rfl⟩ := load.step hshort
    exact hI₁.faultCommit hcur hv h0 commit

theorem pageFault_step {s s' : State} {r : FaultResult}
    (hshort : ¬ Promotes s address) (h : pageFault s address write = .ok (r, s')) :
    FaultStep s s' := by
  obtain ⟨-, hfault⟩ := pageFault_cases rfl rfl h
  cases hfault with
  | commited _ => exact ⟨_, _, _, _, _, _, _, rfl⟩
  | unhandled load => exact load.step hshort
  | read _ load => exact load.step hshort
  | @write s₁ _ _ load commit =>
    have hstep := load.step hshort
    obtain ⟨_, _, _, _, _, _, _, rfl⟩ := load.step hshort
    exact hstep.trans (faultCommit_cases rfl rfl rfl commit).step.faultStep

end Hydrax
