import Hydrax.Mmu.MmapDup
import Hydrax.Mmu.Accounting

/-!
# Sharing a page with the master mapping

A read fault in a mapping of a file that has a master mapping should end with both mappings on one
frame, and the bytes of the file in it (`HandlesRead`).

The handler asks for the frame with the faulting address, where it should ask with the address of
the page in the master mapping. So it fails as soon as the master has not touched the page, unless
the two pages have the same address. `Sharable` is what is needed, and `two_mappings` leads to a
state without it.
-/

namespace Hydrax

/-- The bytes of the file for the page at `address` of a mapping of `node`. -/
def fileBytes (s : State) (node mmap address : Nat) : List UInt8 :=
  s.vfsRead node (fileOffset (s.mmapInfos mmap) (address - address % pageSize)) pageSize

/-- Frame `f` begins with `bytes`. -/
def State.Holds (s : State) (f : Nat) (bytes : List UInt8) : Prop :=
  ∀ i < bytes.length, bytes[i]? = some (s.mem f i)

/-- A read of a page of a mapped file that has no frame yet. -/
structure ReadFault (s : State) (address : Nat) : Prop extends FileFault s address where
  absent : (s.entry s.currentDirectory (address / pageSize)).present = false

/-- The two pages are there with one frame, and the frame holds the bytes of the file. -/
structure SharesMaster (s s' : State) (address mmap : Nat) (k : KMmap) : Prop where
  page : (s'.entry s.currentDirectory (address / pageSize)).present = true
  master : (s'.entry k.directory (masterPage s k mmap address)).present = true
  frame : (s'.entry s.currentDirectory (address / pageSize)).frame =
    (s'.entry k.directory (masterPage s k mmap address)).frame
  bytes : s'.Holds (s'.entry k.directory (masterPage s k mmap address)).frame
    (fileBytes s k.node mmap address)

/-- The handler comes back from the read, and the page is shared. It never comes back if its own
`vfs_read` faults. -/
def HandlesRead (s : State) (address mmap : Nat) (k : KMmap) : Prop :=
  ∃ s', pageFault s address false = .ok (.handled, s') ∧ SharesMaster s s' address mmap k

/-- The page that gets the frame is the master's, and `vfs_read` can write to the faulting page. -/
structure FillsMaster (s : State) (address mmap : Nat) (k : KMmap) : Prop where
  table : s.tableOf k.directory (address / pageSize) =
    s.tableOf k.directory (masterPage s k mmap address)
  index : pageIdx (address / pageSize) = pageIdx (masterPage s k mmap address)
  frame : (s.entry k.directory (masterPage s k mmap address)).frame = 0
  read : fileBytes s k.node mmap address = [] ∨
    (s.tableOf k.directory (address / pageSize) =
        s.tableOf s.currentDirectory (address / pageSize) ∧
      (s.entry s.currentDirectory (address / pageSize)).rw = true)

/-- The faulting page and the master's page are one entry. -/
def IsMasterPage (s : State) (address mmap : Nat) (k : KMmap) : Prop :=
  (s.tableOf k.directory (masterPage s k mmap address),
      pageIdx (masterPage s k mmap address)) =
    (s.tableOf s.currentDirectory (address / pageSize), pageIdx (address / pageSize))

/-- **What the handler needs** to share the page. -/
structure Sharable (s : State) (address mmap : Nat) (k : KMmap) : Prop where
  table : s.tableOf k.directory (masterPage s k mmap address) ≠ 0
  present : (s.entry k.directory (masterPage s k mmap address)).present = true →
    s.Holds (s.entry k.directory (masterPage s k mmap address)).frame
      (fileBytes s k.node mmap address)
  absent : (s.entry k.directory (masterPage s k mmap address)).present = false →
    FillsMaster s address mmap k
  longer : (s.mmapInfos k.mmap).len < (s.mmapInfos mmap).len → ¬ IsMasterPage s address mmap k →
    DupFits s k.directory (s.mmapInfos k.mmap).addr (s.mmapInfos mmap).addr (s.mmapInfos k.mmap).len

/-! ## The second part: sharing -/

theorem State.Holds.congr {s s' : State} {f : Nat} {bytes : List UInt8} (hmem : s'.mem = s.mem) :
    s'.Holds f bytes ↔ s.Holds f bytes := by
  rw [State.Holds, State.Holds, hmem]

theorem FrameStep.mem {s s' : State} (h : FrameStep s s') : s'.mem = s.mem := by
  obtain ⟨_, _, _, _, rfl⟩ := h
  rfl

/-- What sharing leaves: the pages as after `sharePage`, but for what `mmap_dup` fills. -/
structure Shared (s s' : State) (k : KMmap) (mmap t j mt mj : Nat) : Prop where
  mem : s'.mem = s.mem
  dirs : s'.dirs = s.dirs
  kept : ∀ t' j', ((s.sharePage t j mt mj).page t' j').present = true →
    (s'.page t' j').present = true ∧
      (s'.page t' j').frame = ((s.sharePage t j mt mj).page t' j').frame
  absent : ∀ t' j', ((s.mmapInfos k.mmap).len < (s.mmapInfos mmap).len →
      ¬ DupFills s (s.mmapInfos mmap).addr (s.mmapInfos k.mmap).len t' j') →
    ((s.sharePage t j mt mj).page t' j').present = false → (s'.page t' j').present = false

/-- The end of the branch: nothing is left to do for the master's own page, and another one is
shared. -/
def ShareEnds (s s' : State) (k : KMmap) (mmap t j mt mj : Nat) : Prop :=
  ((mt, mj) = (t, j) ∧ s' = s) ∨
    ((mt, mj) ≠ (t, j) ∧ faultShare s k mmap t j mt mj = .ok s')

section Share

variable {s s' : State} {k : KMmap} {mmap t j mt mj : Nat}
  (hlen : (s.mmapInfos k.mmap).len < wordSize)

include hlen

theorem faultShare_ok (hfits : (s.mmapInfos k.mmap).len < (s.mmapInfos mmap).len →
    DupFits s k.directory (s.mmapInfos k.mmap).addr (s.mmapInfos mmap).addr
      (s.mmapInfos k.mmap).len) : ∃ s', faultShare s k mmap t j mt mj = .ok s' := by
  by_cases hlong : (s.mmapInfos k.mmap).len < (s.mmapInfos mmap).len
  · have hfits' : DupFits (s.sharePage t j mt mj) k.directory (s.mmapInfos k.mmap).addr
        (s.mmapInfos mmap).addr (s.mmapInfos k.mmap).len := hfits hlong
    obtain ⟨s₁, hdup, -⟩ := hfits'.mmapDup hlen
    rw [faultShare_sharePage, if_pos hlong, hdup]
    exact ⟨_, rfl⟩
  · rw [faultShare_eq (Nat.not_lt.mp hlong)]
    exact ⟨_, rfl⟩

theorem faultShare_shared (hne : (mt, mj) ≠ (t, j)) (h : faultShare s k mmap t j mt mj = .ok s') :
    Shared s s' k mmap t j mt mj ∧ ((s.mmapInfos k.mmap).len < (s.mmapInfos mmap).len →
      DupFits s k.directory (s.mmapInfos k.mmap).addr (s.mmapInfos mmap).addr
        (s.mmapInfos k.mmap).len) := by
  have hstep := (pageShared_sharePage (s := s) hne).step
  by_cases hlong : (s.mmapInfos k.mmap).len < (s.mmapInfos mmap).len
  · rw [faultShare_sharePage, if_pos hlong, Loop.bind_eq_ok] at h
    obtain ⟨s₁, hdup, h⟩ := h
    rw [Loop.pure_eq_ok] at h
    subst h
    have hD := mmapDup_duplicated hlen hdup
    have hfits := (mmapDup_ok_iff hlen).mp ⟨s₁, hdup⟩
    exact ⟨⟨hD.step.mem.trans hstep.mem, hD.step.dirs.trans hstep.dirs, hD.kept,
      fun t' j' hout => hD.absent t' j' (hout hlong)⟩, fun _ => hfits⟩
  · rw [faultShare_eq (Nat.not_lt.mp hlong)] at h
    cases h
    exact ⟨⟨hstep.mem, hstep.dirs, fun t' j' hp => ⟨hp, rfl⟩, fun t' j' _ hp => hp⟩,
      fun hlt => absurd hlt hlong⟩

theorem ShareEnds.dirs (h : ShareEnds s s' k mmap t j mt mj) : s'.dirs = s.dirs := by
  rcases h with ⟨-, rfl⟩ | ⟨hne, hshare⟩
  · rfl
  · exact (faultShare_shared hlen hne hshare).1.dirs

/-- **Sharing is right exactly if the master's page was**, unless `mmap_dup` fills that page. -/
theorem ShareEnds.good_iff {bytes : List UInt8}
    (hapart : (s.mmapInfos k.mmap).len < (s.mmapInfos mmap).len →
      ¬ DupFills s (s.mmapInfos mmap).addr (s.mmapInfos k.mmap).len mt mj)
    (h : ShareEnds s s' k mmap t j mt mj) :
    ((s'.page t j).present = true ∧ (s'.page mt mj).present = true ∧
      (s'.page t j).frame = (s'.page mt mj).frame ∧ s'.Holds (s'.page mt mj).frame bytes) ↔
      (s.page mt mj).present = true ∧ s.Holds (s.page mt mj).frame bytes := by
  rcases h with ⟨heq, rfl⟩ | ⟨hne, h⟩
  · obtain ⟨rfl, rfl⟩ := Prod.mk.inj heq
    constructor
    · rintro ⟨hp, -, -, hb⟩
      exact ⟨hp, hb⟩
    · rintro ⟨hp, hb⟩
      exact ⟨hp, hp, rfl, hb⟩
  obtain ⟨hS, -⟩ := faultShare_shared hlen hne h
  have hP := pageShared_sharePage (s := s) hne
  cases hp : (s.page mt mj).present with
  | false =>
    have habsent := hS.absent mt mj hapart (by rw [hP.master]; exact hp)
    rw [habsent]
    simp
  | true =>
    obtain ⟨hm, hmf⟩ := hS.kept mt mj (by rw [hP.master]; exact hp)
    obtain ⟨he, hef⟩ := hS.kept t j (by rw [hP.entry]; exact hp)
    rw [hP.master] at hmf
    rw [hP.entry] at hef
    rw [hm, he, hmf, hef, State.Holds.congr hS.mem]
    simp [masterShared]

end Share

/-! ## The first part: the frame -/

section Ready

variable {s s₁ : State} {k : KMmap} {mmap node t j address mt mj : Nat}

theorem readPage_holds {s s' : State} {node offset t j : Nat}
    (h : readPage s node offset t j = .ok s') :
    s'.Holds (s.page t j).frame (s.vfsRead node offset pageSize) := by
  intro i hi
  rcases readPage_cases h with ⟨hnil, -⟩ | ⟨-, -, rfl⟩
  · rw [hnil] at hi
    cases hi
  · dsimp only
    rw [Function.update_self, List.getD_eq_getElem?_getD, List.getElem?_eq_getElem hi,
      Option.getD_some]

theorem MasterReady.fills (h : MasterReady s k mmap node t j address mt mj s₁)
    (hj : pageIdx (address / pageSize) = j) (habsent : (s.page t j).present = false)
    (hm : (s.page mt mj).present = false) (hp : (s₁.page mt mj).present = true) :
    s.tableOf k.directory (address / pageSize) = mt ∧ j = mj ∧ (s.page mt mj).frame = 0 ∧
      (fileBytes s node mmap address = [] ∨ (mt = t ∧ (s.page t j).rw = true)) := by
  cases h with
  | present h =>
    rw [hm] at h
    cases h
  | @asked phys s₀ _ _ alloc read =>
    obtain ⟨-, ⟨-, -, rfl⟩ | ⟨hframe, htake⟩⟩ :=
      mmuAllocFrame_cases alloc (page_of_aligned address) rfl
    · obtain ⟨m, rfl⟩ := readPage_state read
      have hbad : (s₀.page mt mj).present = true := hp
      rw [hm] at hbad
      cases hbad
    rw [hj] at hframe htake
    obtain ⟨f, htook, -⟩ := tookFrame_mmuTakeFrame htake
    have hslot : Slot (s.tableOf k.directory (address / pageSize)) j mt mj := by
      by_contra hout
      obtain ⟨m, rfl⟩ := readPage_state read
      have hbad : (s₀.page mt mj).present = true := hp
      rw [htook.touches.page mt mj hout, hm] at hbad
      cases hbad
    obtain ⟨rfl, rfl⟩ := hslot
    refine ⟨rfl, rfl, hframe, ?_⟩
    have hvfs : s₀.vfsRead = s.vfsRead := by
      obtain ⟨_, _, _, _, rfl⟩ := htook.touches.step
      rfl
    rcases readPage_cases read with ⟨hnil, -⟩ | ⟨hp', hw, -⟩
    · rw [hvfs] at hnil
      exact Or.inl hnil
    · by_cases ht : s.tableOf k.directory (address / pageSize) = t
      · subst ht
        rw [htook.page] at hw
        exact Or.inr ⟨rfl, hw⟩
      · rw [htook.touches.page t mj (fun hs => ht hs.1.symm), habsent] at hp'
        cases hp'

theorem masterReady_of_fills (hframes : s.physicalMemmap.length = 65536)
    (hj : pageIdx (address / pageSize) = j) (hm0 : mt ≠ 0)
    (hmt : s.tableOf k.directory (address / pageSize) = mt) (hframe : (s.page mt j).frame = 0)
    (hm : (s.page mt j).present = false)
    (hread : fileBytes s node mmap address = [] ∨ (mt = t ∧ (s.page t j).rw = true)) :
    ∃ s₁, MasterReady s k mmap node t j address mt j s₁ ∧ (s₁.page mt j).present = true ∧
      s₁.Holds (s₁.page mt j).frame (fileBytes s node mmap address) := by
  obtain ⟨phys, s₀, halloc, htook⟩ := allocFrame_aligned hframes hmt hm0 hj hframe
  have hvfs : s₀.vfsRead = s.vfsRead := by
    obtain ⟨_, _, _, _, rfl⟩ := htook.touches.step
    rfl
  have hpresent : (s₀.page mt j).present = true := by rw [htook.page]
  rcases hread with hnil | ⟨rfl, hw⟩
  · have hread : readPage s₀ node
        (fileOffset (s.mmapInfos mmap) (address - address % pageSize)) t j = .ok s₀ := by
      rw [readPage]
      dsimp only
      rw [hvfs]
      exact if_pos hnil
    refine ⟨s₀, .asked hm halloc hread, hpresent, fun i hi => ?_⟩
    rw [hnil] at hi
    cases hi
  · obtain ⟨s₁, hread⟩ := readPage_ok node
      (fileOffset (s.mmapInfos mmap) (address - address % pageSize)) hpresent
      (by rw [htook.page]; exact hw)
    have hholds := readPage_holds hread
    rw [hvfs] at hholds
    obtain ⟨m, rfl⟩ := readPage_state hread
    exact ⟨_, .asked hm halloc hread, hpresent, hholds⟩

end Ready

/-! ## The handler -/

section Handler

variable {s : State} {address mmap : Nat} {k : KMmap}

theorem pageFault_existing_iff {s' : State} (hfault : FileFault s address)
    (h0 : s.tableOf s.currentDirectory (address / pageSize) ≠ 0) (hm : Masters s address mmap k) :
    pageFault s address false = .ok (.handled, s') ↔
      faultExisting s k mmap k.node (s.tableOf s.currentDirectory (address / pageSize))
        (pageIdx (address / pageSize)) address = .ok s' := by
  constructor
  · intro h
    obtain ⟨-, hfaulted⟩ := pageFault_cases rfl rfl h
    cases hfaulted with
    | write hw => cases hw
    | read _ load =>
      cases load with
      | other hno => exact absurd hfault hno
      | file _ hfile => exact (hfile.of_masters hm).2
  · intro h
    have hmmap : faultMmap s (s.tableOf s.currentDirectory (address / pageSize))
        (pageIdx (address / pageSize)) address = .ok (true, s') := by
      simp only [faultMmap, hm.found, hm.file, hm.offset, h]
      rfl
    exact pageFault_of_file hfault h0 hmmap

theorem faultExisting_of_ready {s₁ s' : State} {node t j mv mt : Nat}
    (hmv : masterPage s k mmap address = mv) (hmt : s.tableOf k.directory mv = mt) (hm0 : mt ≠ 0)
    (hready : MasterReady s k mmap node t j address mt (pageIdx mv) s₁)
    (hend : ShareEnds s₁ s' k mmap t j mt (pageIdx mv)) :
    faultExisting s k mmap node t j address = .ok s' := by
  have hlast : (if (mt, pageIdx mv) ≠ (t, j) then faultShare s₁ k mmap t j mt (pageIdx mv)
      else pure s₁) = Except.ok s' := by
    rcases hend with ⟨heq, rfl⟩ | ⟨hne, hshare⟩
    · rw [if_neg (not_not_intro heq)]
      rfl
    · rw [if_pos hne, hshare]
  rw [masterPage] at hmv
  simp only [faultExisting, hmv, hmt, if_neg hm0]
  cases hready with
  | present hp =>
    rw [hp]
    exact hlast
  | asked hp halloc hread =>
    rw [hp]
    simp only [Bool.not_false, if_true, halloc, hread, Loop.ok_bind]
    exact hlast

/-- The master's page is not one of the entries that `mmap_dup` fills when the master changes. -/
def MasterApart (s : State) (address mmap : Nat) (k : KMmap) : Prop :=
  (s.mmapInfos k.mmap).len < (s.mmapInfos mmap).len →
    ¬ DupFills s (s.mmapInfos mmap).addr (s.mmapInfos k.mmap).len
      (s.tableOf k.directory (masterPage s k mmap address))
      (pageIdx (masterPage s k mmap address))

theorem FileFault.table (h : FileFault s address) :
    s.tableOf s.currentDirectory (address / pageSize) ≠ 0 := by
  intro h0
  have hmmap := h.mmap
  rw [(entry_of_no_table h0).2] at hmmap
  cases hmmap

theorem CopyStep.dup {s s₁ : State} (h : CopyStep s s₁) :
    s₁.mmapInfos = s.mmapInfos ∧
      (∀ dir src dst len, DupFits s₁ dir src dst len ↔ DupFits s dir src dst len) ∧
      ∀ dst len t j, DupFills s₁ dst len t j ↔ DupFills s dst len t j := by
  obtain ⟨_, _, _, _, _, rfl⟩ := h
  exact ⟨rfl, fun _ _ _ _ => Iff.rfl, fun _ _ _ _ => Iff.rfl⟩

theorem entry_of_dirs {s s' : State} (hdirs : s'.dirs = s.dirs) {d : DirRef} {v : Nat}
    (h0 : s.tableOf d v ≠ 0) : s'.entry d v = s'.page (s.tableOf d v) (pageIdx v) := by
  have htab : s'.tableOf d v = s.tableOf d v := by rw [State.tableOf, State.tableOf, hdirs]
  rw [State.entry_of_ne (by rw [htab]; exact h0), htab]

variable (hfault : ReadFault s address) (hm : Masters s address mmap k)
  (hlen : (s.mmapInfos k.mmap).len < wordSize) (hapart : MasterApart s address mmap k)

include hfault hm hlen hapart

/-- **The handler succeeds only with what it needs.** -/
theorem HandlesRead.sharable (h : HandlesRead s address mmap k) : Sharable s address mmap k := by
  obtain ⟨s', hs', hgood⟩ := h
  have h0 := hfault.table
  have hexisting := (pageFault_existing_iff hfault.toFileFault h0 hm).mp hs'
  obtain ⟨hm0, s₁, hready, hend⟩ := faultExisting_cases rfl rfl hexisting
  have hends : ShareEnds s₁ s' k mmap _ _ _ _ := hend
  obtain ⟨hinfos, hfits, hfills⟩ := hready.step.dup
  rw [MasterApart, ← hinfos] at hapart
  rw [← hinfos] at hlen
  have hdirs := (hends.dirs hlen).trans hready.step.dirs
  have hmaster := (hends.good_iff hlen (fun hlong hx => hapart hlong ((hfills ..).mp hx))).mp
    ⟨by rw [← entry_of_dirs hdirs h0]; exact hgood.page,
      by rw [← entry_of_dirs hdirs hm0]; exact hgood.master,
      by rw [← entry_of_dirs hdirs h0, ← entry_of_dirs hdirs hm0]; exact hgood.frame,
      by rw [← entry_of_dirs hdirs hm0]; exact hgood.bytes⟩
  have habsent := hfault.absent
  rw [State.entry_of_ne h0] at habsent
  refine ⟨hm0, fun hp => ?_, fun hp => ?_, fun hlong hpage => ?_⟩
  · rw [State.entry_of_ne hm0] at hp ⊢
    cases hready with
    | present _ => exact hmaster.2
    | asked hno =>
      rw [hp] at hno
      cases hno
  · rw [State.entry_of_ne hm0] at hp
    obtain ⟨htab, hidx, hframe, hread⟩ := hready.fills rfl habsent hp hmaster.1
    refine ⟨htab, hidx, by rw [State.entry_of_ne hm0]; exact hframe, hread.imp id ?_⟩
    rintro ⟨ht, hw⟩
    exact ⟨htab.trans ht, by rw [State.entry_of_ne h0]; exact hw⟩
  · rcases hend with ⟨heq, -⟩ | ⟨hne, hshare⟩
    · exact absurd heq hpage
    · rw [← hinfos] at hlong ⊢
      exact (hfits ..).mp ((faultShare_shared hlen hne hshare).2 hlong)

theorem Sharable.handlesRead (hframes : s.physicalMemmap.length = 65536)
    (h : Sharable s address mmap k) : HandlesRead s address mmap k := by
  have h0 := hfault.table
  have hm0 := h.table
  -- the master's page, with the bytes of the file
  obtain ⟨s₁, hready, hmaster⟩ : ∃ s₁, MasterReady s k mmap k.node
      (s.tableOf s.currentDirectory (address / pageSize)) (pageIdx (address / pageSize)) address
      (s.tableOf k.directory (masterPage s k mmap address)) (pageIdx (masterPage s k mmap address))
      s₁ ∧
      (s₁.page (s.tableOf k.directory (masterPage s k mmap address))
        (pageIdx (masterPage s k mmap address))).present = true ∧
      s₁.Holds (s₁.page (s.tableOf k.directory (masterPage s k mmap address))
        (pageIdx (masterPage s k mmap address))).frame (fileBytes s k.node mmap address) := by
    cases hp : (s.entry k.directory (masterPage s k mmap address)).present with
    | true =>
      have hbytes := h.present hp
      rw [State.entry_of_ne hm0] at hp hbytes
      exact ⟨s, .present hp, hp, hbytes⟩
    | false =>
      have hfills := h.absent hp
      have hframe := hfills.frame
      rw [State.entry_of_ne hm0, ← hfills.index] at hp hframe
      rw [← hfills.index]
      refine masterReady_of_fills hframes rfl hm0 hfills.table hframe hp (hfills.read.imp id ?_)
      rintro ⟨ht, hw⟩
      rw [State.entry_of_ne h0] at hw
      exact ⟨hfills.table.symm.trans ht, hw⟩
  obtain ⟨hinfos, hfits, hfills⟩ := hready.step.dup
  rw [MasterApart, ← hinfos] at hapart
  rw [← hinfos] at hlen
  -- the faulting page
  obtain ⟨s', hends⟩ : ∃ s', ShareEnds s₁ s' k mmap
      (s.tableOf s.currentDirectory (address / pageSize)) (pageIdx (address / pageSize))
      (s.tableOf k.directory (masterPage s k mmap address))
      (pageIdx (masterPage s k mmap address)) := by
    by_cases heq : IsMasterPage s address mmap k
    · exact ⟨s₁, Or.inl ⟨heq, rfl⟩⟩
    · obtain ⟨s', hshare⟩ := faultShare_ok hlen (fun hlong => by
        rw [hinfos] at hlong ⊢
        exact (hfits ..).mpr (h.longer hlong heq))
      exact ⟨s', Or.inr ⟨heq, hshare⟩⟩
  have hdirs := (hends.dirs hlen).trans hready.step.dirs
  obtain ⟨hpage, hmaster, hframe, hbytes⟩ :=
    (hends.good_iff hlen (fun hlong hx => hapart hlong ((hfills ..).mp hx))).mpr hmaster
  refine ⟨s', (pageFault_existing_iff hfault.toFileFault h0 hm).mpr
    (faultExisting_of_ready rfl rfl hm0 hready hends), ?_, ?_, ?_, ?_⟩
  · rw [entry_of_dirs hdirs h0]
    exact hpage
  · rw [entry_of_dirs hdirs hm0]
    exact hmaster
  · rw [entry_of_dirs hdirs h0, entry_of_dirs hdirs hm0]
    exact hframe
  · rw [entry_of_dirs hdirs hm0]
    exact hbytes

end Handler

/-- **When a read through another mapping is handled rightly**: exactly if the master's page is
there with the bytes of the file, or the page at the same address of the master's directory is the
master's page and can be read into, and `mmap_dup` can walk over the old master if the mapping is
longer. -/
theorem pageFault_shares_iff {s : State} {address mmap : Nat} {k : KMmap}
    (hframes : s.physicalMemmap.length = 65536) (hfault : ReadFault s address)
    (hm : Masters s address mmap k) (hlen : (s.mmapInfos k.mmap).len < wordSize)
    (hapart : MasterApart s address mmap k) :
    HandlesRead s address mmap k ↔ Sharable s address mmap k :=
  ⟨fun h => h.sharable hfault hm hlen hapart, fun h => h.handlesRead hfault hm hlen hapart hframes⟩

/-- Two mappings of a page of a file. The first was read, and the frame has the byte `42`. -/
def mappedTwice : State where
  dirs _ := { tables := fun _ => 1 }
  tables _ :=
    { pages := fun j => if j = 0 then { present := true, user := true, frame := 5 } else {}
      pagesInfo := fun _ => { mmap := true } }
  kmmaps := [{ mmap := 1, node := 7, directory := .heap 1 }]
  mmapInfos m := { addr := if m = 1 then 0 else 4096, len := 4096, fd := 3 }
  tasks _ := { directory := .heap 1, mmaps := [2, 1], files := [{ fd := 3, node := 7 }] }
  mem _ _ := 42
  vfsRead _ _ _ := [42]

theorem pageFault_shares_twice :
    HandlesRead mappedTwice 4096 2 { mmap := 1, node := 7, directory := .heap 1 } := by
  have hmaster : masterPage mappedTwice { mmap := 1, node := 7, directory := .heap 1 } 2 4096 = 0 :=
    rfl
  have hshort : ¬ (mappedTwice.mmapInfos 1).len < (mappedTwice.mmapInfos 2).len := by decide
  refine (pageFault_shares_iff rfl ⟨⟨rfl, rfl, rfl⟩, rfl⟩ ⟨rfl, rfl, rfl⟩ (by decide)
    (fun h => absurd h hshort)).mpr ⟨by decide, fun _ i hi => ?_, fun hp => ?_,
    fun h => absurd h hshort⟩
  · obtain rfl : i = 0 := Nat.lt_one_iff.mp hi
    rfl
  · rw [hmaster] at hp
    cases hp

/-- **A read that is handled wrongly**: a process maps two pages of a file twice, reads the first
page through the first mapping, and then the second page through the second mapping. The handler
comes back, and the two pages do not share a frame with the bytes of the file. -/
theorem pageFault_not_shared : ∃ (m : Manager) (s' : State) (address mmap : Nat) (k : KMmap),
    m.Run Boot.small ∧ ReadFault m.state address ∧ Masters m.state address mmap k ∧ mmap ≠ k.mmap ∧
    pageFault m.state address false = .ok (.handled, s') ∧
    ¬ SharesMaster m.state s' address mmap k := by
  obtain ⟨s, a, r₁, r₂, node, hrun, hT⟩ := two_mappings
  obtain ⟨s', hs'⟩ := hT.pageFault_ok
  have hcur := hT.process.current
  have hpage := hT.untouched 131073 (by simp)
  have hmaster := hT.untouched 65537 (by simp)
  rw [← hcur] at hpage
  have hfault : ReadFault s 0x20001000 := ⟨hpage.fileFault, hpage.present⟩
  have hother : r₂ ≠ r₁ := by
    rintro rfl
    have haddr := congrArg MmapInfo.addr (hT.first.symm.trans hT.second)
    exact absurd haddr (by decide)
  have hlen : (s.mmapInfos r₁).len < wordSize := by
    rw [hT.first]
    decide
  refine ⟨⟨s, [a]⟩, s', 0x20001000, r₂, _, hrun, hfault, hT.masters, hother, hs', fun hgood => ?_⟩
  have hsharable := HandlesRead.sharable hfault hT.masters hlen
    (fun hlong => absurd (Exists.intro r₂ ⟨_, hT.masters, hlong⟩) hT.not_promotes)
    ⟨s', hs', hgood⟩
  -- the frame went to page 131073, and the master's page is 65537
  have htable := (hsharable.absent (by rw [hT.masterPage_eq]; exact hmaster.present)).table
  rw [hT.masterPage_eq] at htable
  have hspace := hT.process.space
  rw [hcur] at hspace
  have heq := (hT.process.inv.slot_eq hspace hspace (by decide) (by decide) hmaster.table
    htable.symm rfl).1
  exact absurd heq (by decide)

end Hydrax
