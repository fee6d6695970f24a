import Hydrax.Mmu.Accounting

/-!
# Pages that are used again

Runs of the memory manager with a ledger: the bitmap of the process of every directory, and for the
pages that are free in it what was left on them when they were given back.

* `Recycled.step` — a free page has no frame, and the ledger says what is left on it,
* `kalloc_faultable_iff` — so a mapping can be faulted in exactly if nothing is left on its pages.
-/

namespace Hydrax

/-! ## What leaves free pages alone -/

abbrev State.task (s : State) : Task := s.tasks s.currentTask

theorem SamePage.trans {s₁ s₂ s₃ : State} {d : DirRef} {v : Nat} (h : SamePage s₁ s₂ d v)
    (h' : SamePage s₂ s₃ d v) : SamePage s₁ s₃ d v :=
  ⟨h'.1.trans h.1, h'.2.trans h.2⟩

/-- The buffers of the task that runs lie in user memory. -/
def UserBuffers (s : State) : Prop := ∀ b ∈ s.task.buffers,
  s.kernelMemmap.length ≤ b.address / pageSize ∧ ∀ v ∈ b.visited, s.kernelMemmap.length ≤ v

/-- The task that runs has its bitmap and its buffers, and the pages in `P` of the directories in
`L` have their entries, unless they have frames. -/
structure UserSame (P : Nat → Nat → Prop) (L : List Nat) (s s' : State) : Prop where
  memmap : s'.task.memmap = s.task.memmap
  buffers : s'.task.buffers = s.task.buffers
  current : s'.currentDirectory = s.currentDirectory
  length : s'.kernelMemmap.length = s.kernelMemmap.length
  page : ∀ a ∈ L, ∀ v < 1048576, s.kernelMemmap.length ≤ v → P a v →
    (s.entry (.heap a) v).frame = 0 → SamePage s s' (.heap a) v

section Same

variable {P : Nat → Nat → Prop} {L : List Nat} {s s₁ s' : State} {a v : Nat} {d : DirRef}

theorem UserSame.trans (h : UserSame P L s s₁) (h' : UserSame P L s₁ s') : UserSame P L s s' where
  memmap := h'.memmap.trans h.memmap
  buffers := h'.buffers.trans h.buffers
  current := h'.current.trans h.current
  length := h'.length.trans h.length
  page a ha v hv hle hP h0 := by
    have hpage := h.page a ha v hv hle hP h0
    refine hpage.trans (h'.page a ha v hv (h.length ▸ hle) hP ?_)
    rw [hpage.1]
    exact h0

theorem UserBuffers.same (h : UserBuffers s) (hs : UserSame P L s s') : UserBuffers s' := by
  rw [UserBuffers, hs.buffers, hs.length]
  exact h

theorem KernelAlloc.userSame (h : KernelAlloc s s') (hI : Inv s L) : UserSame P L s s' := by
  have hlen := h.length
  have hpage := fun a (ha : a ∈ L) v hv hle =>
    h.entry_eq hI (v := v) (heap_mem_spaces.mpr ha) hv (Or.inl hle)
  obtain ⟨_, _, _, _, _, _, _, rfl⟩ := h.step
  exact ⟨rfl, rfl, rfl, hlen, fun a ha v hv hle _ _ => hpage a ha v hv hle⟩

theorem KernelFreed.userSame {b : Buffer} (h : KernelFreed s s' b) (hI : Inv s L)
    (hb : b ∈ s.kernelBuffers) : UserSame P L s s' := by
  have hfits := hI.buffer_fits hb
  have hlen := h.length
  have hpage := fun a (ha : a ∈ L) v hv (hle : s.kernelMemmap.length ≤ v) =>
    h.entry_kept hI hfits (v := v) (heap_mem_spaces.mpr ha) hv
      (fun hcov => absurd hcov.2 (by omega))
  obtain ⟨_, _, _, _, _, _, rfl, -⟩ := h.step
  refine ⟨?_, ?_, ?_, hlen, fun a ha v hv hle _ _ => hpage a ha v hv hle⟩
  all_goals simp [State.task, State.currentDirectory]

theorem kfree_dir_same (hI : Inv s L) (hcur : s.currentDirectory ∈ spaces L)
    (hbuffers : UserBuffers s) (ha : a / pageSize < s.kernelMemmap.length)
    (h : kfree s a = .ok s') : UserSame P L s s' := by
  cases hfind : s.kernelBuffers.find? (fun c => c.address == a) with
  | some b => exact (kfree_kernel hI hfind h).1.userSame hI (List.mem_of_find?_eq_some hfind)
  | none =>
    obtain ⟨b, hb, -, -⟩ := kfree_user hI hcur hfind h
    have hle := (hbuffers b (List.mem_of_find?_eq_some hb)).1
    rw [(find_address hb).1] at hle
    omega

theorem destroy_same (hI : Inv s (a :: L)) (hcur : s.currentDirectory ∈ spaces L)
    (hbuffers : UserBuffers s) (h : mmuDestroyDirectory s a = .ok s') : UserSame P L s s' := by
  obtain ⟨s₁, hD, hI₁, -, hnot, hfree⟩ := mmuDestroyDirectory_spec hI h
  have hmap := hD.step.kernelMemmap
  have hcur₁ := hD.step.currentDirectory
  have hpage : ∀ c ∈ L, ∀ v < 1048576, SamePage s s₁ (.heap c) v := by
    intro c hc v hv
    refine entry_congr (hD.step.tableOf _ v) (fun h0 => ⟨hD.page _ _ ?_, hD.info _ _⟩)
    -- a table of the user belongs to one directory
    intro i hi hle heq
    obtain ⟨-, hlt | hdir⟩ := hI.shape.tables_inj (heap_mem_spaces.mpr List.mem_cons_self)
      (spaces_cons (heap_mem_spaces.mpr hc)) (List.mem_range.mp hi) (tableIdx_lt hv) heq (heq ▸ h0)
    · omega
    · cases hdir
      exact hnot hc
  have htask : s₁.task = s.task := by
    obtain ⟨_, _, _, _, rfl⟩ := hD.step
    rfl
  have hsame : UserSame P L s s₁ := ⟨by rw [htask], by rw [htask], hcur₁, by rw [hmap],
    fun c hc v hv _ _ _ => hpage c hc v hv⟩
  have hlt : a / pageSize < s₁.kernelMemmap.length := by
    rw [hmap]
    exact (hI.dirs_owned a List.mem_cons_self).lt
  exact hsame.trans (kfree_dir_same hI₁ (by rwa [hcur₁]) (hbuffers.same hsame) hlt hfree)

theorem Cloned.userSame {flags n kflags : Nat} {src : DirRef} {J : List Nat} {s₂ : State}
    {mmap phys : Option Nat} (hI : Inv s L) (alloc : KernelAllocated s s₁ L a n kflags mmap phys)
    (h : Cloned flags src a L J (s₁.newDir a) s₂) : UserSame P L s s₂ := by
  have hsame := alloc.alloc.userSame (P := P) hI
  obtain ⟨-, hcur, hlen⟩ := h.old hI alloc
  have htask : s₂.task = s₁.task := by
    obtain ⟨_, _, _, _, _, _, _, _, _, rfl⟩ := h.step
    rfl
  refine ⟨by rw [htask, hsame.memmap], by rw [htask, hsame.buffers], hcur, hlen, ?_⟩
  intro c hc v hv hle hP h0
  have hne := alloc.ne_heap hI (heap_mem_spaces.mpr hc)
  have hold := (hsame.page c hc v hv hle hP h0).trans (entry_newDir hne v)
  refine hold.trans ?_
  have hle' : (s₁.newDir a).kernelMemmap.length ≤ v := hsame.length ▸ hle
  by_cases huser : .heap c = src ∧ UserPage (s₁.newDir a) J v
  · obtain ⟨rfl, huser⟩ := huser
    have hframe : ((s₁.newDir a).entry (.heap c) v).frame = 0 := by
      rw [hold.1]
      exact h0
    cases h.cloned v huser with
    | skipped _ entry record => exact ⟨entry, record⟩
    | shared h | copied h => exact absurd hframe h
  · exact h.entry (.heap c) (spaces_cons (heap_mem_spaces.mpr hc)) v hv (Or.inl hle')
      (fun hd hpage => huser ⟨hd, hpage⟩) (fun hd => absurd hd hne)

theorem clone_same {flags phys : Nat} {src : DirRef} (hI : Inv s L) (hsrc : src ∈ spaces L)
    (hcur : s.currentDirectory ∈ spaces L) (hbuffers : UserBuffers s)
    (hshare : hasFlag flags cloneShare = false)
    (h : mmuCloneDirectory s src flags = .ok (a, phys, s')) : UserSame P L s s' := by
  cases mmuCloneDirectory_cases hI hsrc hshare h with
  | full => exact ⟨rfl, rfl, rfl, rfl, fun _ _ _ _ _ _ _ => ⟨rfl, rfl⟩⟩
  | made _ alloc _ _ cloned => exact cloned.userSame hI alloc
  | failed _ alloc _ cloned inv' destroyed =>
    have hsame := cloned.userSame (P := P) hI alloc
    exact hsame.trans (destroy_same inv' (by rwa [hsame.current]) (hbuffers.same hsame) destroyed)

end Same

/-! ## Faults -/

/-- The pages whose entries a fault may change: the one that is accessed, the master's page for it,
and if that is not there the page that has the same address for the master. -/
inductive FaultPage (s : State) (address : Nat) : DirRef → Nat → Prop where
  | own : FaultPage s address s.currentDirectory (address / pageSize)
  | master {mmap : Nat} {k : KMmap} (h : Masters s address mmap k) :
      FaultPage s address k.directory (masterPage s k mmap address)
  | asked {mmap : Nat} {k : KMmap} (h : Masters s address mmap k)
      (habsent : (s.entry k.directory (masterPage s k mmap address)).present = false) :
      FaultPage s address k.directory (address / pageSize)

/-- The slots of these pages. -/
def FaultSlot (s : State) (address t j : Nat) : Prop :=
  ∃ d v, FaultPage s address d v ∧ Slot (s.tableOf d v) (pageIdx v) t j

/-- No other slot has changed. -/
def FaultsOnly (s s' : State) (address : Nat) : Prop :=
  ∀ t j, ¬ FaultSlot s address t j → s'.page t j = s.page t j ∧ s'.info t j = s.info t j

section Fault

variable {s s' : State} {address : Nat} {write ok : Bool} {r : FaultResult}

theorem PageLoaded.only (hshort : ¬ Promotes s address)
    (h : PageLoaded s (s.tableOf s.currentDirectory (address / pageSize))
      (pageIdx (address / pageSize)) address ok s') : FaultsOnly s s' address := by
  intro t j hnot
  have hown : ¬ Slot (s.tableOf s.currentDirectory (address / pageSize))
      (pageIdx (address / pageSize)) t j := fun hs => hnot ⟨_, _, .own, hs⟩
  cases h with
  | other _ => exact ⟨rfl, rfl⟩
  | file fault h =>
    cases h with
    | unknown _ | full _ _ _ => exact ⟨rfl, rfl⟩
    | first found file none alloc read =>
      obtain ⟨_, rfl⟩ := readPage_state read
      have htouch := mmuAllocFrame_touches alloc
      rw [page_of_aligned] at htouch
      exact ⟨htouch.page t j hown, htouch.info t j hown⟩
    | @existing mmap k _ masters h =>
      obtain ⟨hmt, s₁, hready, hend⟩ := faultExisting_cases rfl rfl h
      have hmaster : ¬ Slot (s.tableOf k.directory (masterPage s k mmap address))
          (pageIdx (masterPage s k mmap address)) t j := fun hs => hnot ⟨_, _, .master masters, hs⟩
      have hsame : s₁.page t j = s.page t j ∧ s₁.info t j = s.info t j := by
        -- the handler may first ask for a frame at the faulting address
        cases hready with
        | present _ => exact ⟨rfl, rfl⟩
        | asked habsent alloc read =>
          obtain ⟨_, rfl⟩ := readPage_state read
          have htouch := mmuAllocFrame_touches alloc
          rw [page_of_aligned] at htouch
          have hasked : ¬ Slot (s.tableOf k.directory (address / pageSize))
              (pageIdx (address / pageSize)) t j :=
            fun hs => hnot ⟨_, _, .asked masters (by rwa [State.entry_of_ne hmt]), hs⟩
          exact ⟨htouch.page t j hasked, htouch.info t j hasked⟩
      rcases hend with ⟨-, rfl⟩ | ⟨hne, hshare⟩
      · exact hsame
      · have hinfos : s₁.mmapInfos = s.mmapInfos := by
          obtain ⟨_, _, _, _, _, rfl⟩ := hready.step
          rfl
        have hshared := faultShare_cases hne (by
          rw [hinfos]
          exact Nat.not_lt.mp (fun hlt => hshort ⟨mmap, k, masters, hlt⟩)) hshare
        exact ⟨(hshared.page t j hown hmaster).trans hsame.1,
          (hshared.info t j hown hmaster).trans hsame.2⟩

theorem pageFault_only (hshort : ¬ Promotes s address)
    (h : pageFault s address write = .ok (r, s')) : FaultsOnly s s' address := by
  obtain ⟨-, hfault⟩ := pageFault_cases rfl rfl h
  cases hfault with
  | commited _ => exact fun _ _ _ => ⟨rfl, rfl⟩
  | unhandled load => exact load.only hshort
  | read _ load => exact load.only hshort
  | @write s₁ _ _ load commit =>
    intro t j hnot
    have hold := load.only hshort t j hnot
    have hown : ¬ Slot (s.tableOf s.currentDirectory (address / pageSize))
        (pageIdx (address / pageSize)) t j := fun hs => hnot ⟨_, _, .own, hs⟩
    have htable : s₁.tableOf s₁.currentDirectory (address / pageSize) =
        s.tableOf s.currentDirectory (address / pageSize) := by
      obtain ⟨_, _, _, _, _, _, _, rfl⟩ := load.step hshort
      rfl
    cases faultCommit_cases rfl htable rfl commit with
    | owner _ =>
      refine ⟨?_, ?_⟩
      · rw [State.commitOwner, State.page_setInfo, State.page_setPage, if_neg hown]
        exact hold.1
      · rw [State.commitOwner, State.info_setInfo, if_neg hown, State.info_setPage]
        exact hold.2
    | moved _ moved => exact ⟨(moved.page t j hown).trans hold.1, (moved.info t j hown).trans hold.2⟩

theorem pageFault_same {m : Manager} {s' : State} {P : Nat → Nat → Prop} (hm : Booked m)
    (hproper : (Call.pageFault address write).Proper m)
    (hP : ∀ a v, P a v → ¬ FaultPage m.state address (.heap a) v)
    (h : pageFault m.state address write = .ok (r, s')) : UserSame P m.dirs m.state s' := by
  obtain ⟨haddr, hshort, hlive⟩ := hproper
  have honly := pageFault_only hshort h
  have hpages : ∀ {d w}, FaultPage m.state address d w → d ∈ spaces m.dirs ∧ w < 1048576 := by
    intro d w hw
    cases hw with
    | own => exact ⟨hm.current, page_lt haddr⟩
    | master h => exact ⟨hlive _ (findKmmap_node h.offset).2, masterPage_lt ..⟩
    | asked h => exact ⟨hlive _ (findKmmap_node h.offset).2, page_lt haddr⟩
  have hpage : ∀ a ∈ m.dirs, ∀ v < 1048576, m.state.kernelMemmap.length ≤ v → P a v →
      ∀ t j, m.state.tableOf (.heap a) v = t → pageIdx v = j → t ≠ 0 →
      s'.page t j = m.state.page t j ∧ s'.info t j = m.state.info t j := by
    rintro a ha v hv hle hfree _ _ rfl rfl h0
    refine honly _ _ ?_
    -- another page has the slot only in kernel space
    rintro ⟨d, w, hw, ht, hj⟩
    obtain ⟨hd, hlt⟩ := hpages hw
    obtain ⟨rfl, hk | rfl⟩ := hm.inv.slot_eq (heap_mem_spaces.mpr ha) hd hv hlt h0 ht hj
    · omega
    · exact hP a v hfree hw
  obtain ⟨_, _, _, _, _, _, _, rfl⟩ := pageFault_step hshort h
  exact ⟨rfl, rfl, rfl, rfl, fun a ha v hv hle hfree _ =>
    entry_congr rfl (hpage a ha v hv hle hfree _ _ rfl rfl)⟩

end Fault

/-! ## Handing pages out -/

section Handed

variable {s s' : State} {a r n flags : Nat} {L : List Nat} {mmap : Option Nat}

theorem UserAllocated.userBuffers (h : UserAllocated s s' a L r n flags mmap)
    (hmap : ∀ v < s.kernelMemmap.length, s.task.memmap.used v = true) (hbuffers : UserBuffers s) :
    UserBuffers s' := by
  obtain ⟨m, htask, -, -⟩ := h.task_eq
  have hlen : s'.kernelMemmap.length = s.kernelMemmap.length := h.alloc.length
  have hfits := h.fits
  have huser : ∀ v ∈ pagesFrom (r / pageSize) n, s.kernelMemmap.length ≤ v := by
    intro v hv
    by_contra hlt
    have := h.free v (inRange_eq_true.mpr (mem_pagesFrom.mp hv))
    rw [hmap v (not_le.mp hlt)] at this
    cases this
  rw [UserBuffers, hlen, State.task, htask]
  intro b hb
  rcases List.mem_append.mp hb with hold | hnew
  · exact hbuffers b hold
  · rw [State.newBuffers] at hnew
    split at hnew
    · obtain rfl := List.mem_singleton.mp hnew
      have hvisited : (kallocBuffer r n flags mmap).visited = pagesFrom (r / pageSize) n :=
        kfreeAddrs_pages (le_of_lt hfits)
      rw [hvisited]
      have hpos := h.pages_pos
      exact ⟨huser (r / pageSize) (mem_pagesFrom.mpr ⟨le_rfl, by omega⟩), huser⟩
    · cases hnew

theorem UserAllocated.same (h : UserAllocated s s' a L r n flags mmap) {c v : Nat} (hc : c ∈ L)
    (hv : v < 1048576) (hle : s.kernelMemmap.length ≤ v)
    (hne : inRange (r / pageSize) n v = true → c ≠ a) : SamePage s s' (.heap c) v := by
  refine h.alloc.entry (.heap c) (heap_mem_spaces.mpr hc) v hv
    (fun hnew => absurd hnew.1 (by omega)) (fun hmem heq => ?_)
  exact hne (inRange_eq_true.mpr (mem_pagesFrom.mp hmem)) (DirRef.heap.inj heq)

end Handed

/-! ## Giving pages back -/

/-- What `kfree` would leave on a page: it clears the entries that have frames, and no records. -/
def State.leaves (s : State) (d : DirRef) (v : Nat) : Bool :=
  (s.record d v).commited || ((s.entry d v).frame == 0 && (s.entry d v).present)

theorem SamePage.leaves {s s' : State} {d : DirRef} {v : Nat} (h : SamePage s s' d v) :
    s'.leaves d v = s.leaves d v := by
  rw [State.leaves, State.leaves, h.1, h.2]

section Freed

variable {s s' : State} {b : Buffer} {L : List Nat} {v : Nat}

theorem UserFreed.entry_eq (h : UserFreed s s' b) (d : DirRef) (v : Nat) :
    s'.record d v = s.record d v ∧
      (s'.entry d v = s.entry d v ∨ s'.entry d v = freedPage (s.entry d v)) := by
  obtain ⟨-, -, hdirs, -⟩ := h.task_eq
  have ht : s'.tableOf d v = s.tableOf d v := by rw [State.tableOf, hdirs, State.tableOf]
  rw [State.entry, State.entry, State.record, State.record, ht]
  by_cases h0 : s.tableOf d v = 0
  · simp [h0]
  · simp only [if_neg h0, h.info, h.page, true_and]
    split
    · exact Or.inr rfl
    · exact Or.inl rfl

theorem UserFreed.same (h : UserFreed s s' b) {d : DirRef} (h0 : (s.entry d v).frame = 0) :
    SamePage s s' d v := by
  obtain ⟨hrecord, hentry | hentry⟩ := h.entry_eq d v
  · exact ⟨hentry, hrecord⟩
  · exact ⟨by rw [hentry, freedPage, if_pos h0], hrecord⟩

theorem UserFreed.left (h : UserFreed s s' b) (hv : v ∈ b.visited) :
    (s'.entry s.currentDirectory v).frame = 0 ∧
      s'.leaves s.currentDirectory v = s.leaves s.currentDirectory v := by
  by_cases h0 : (s.entry s.currentDirectory v).frame = 0
  · have hsame := h.same h0
    exact ⟨by rw [hsame.1, h0], hsame.leaves⟩
  · have htab := h.mapped v hv
    obtain ⟨-, -, hdirs, -⟩ := h.task_eq
    have hslot : (s.tableOf s.currentDirectory v, pageIdx v) ∈ s.slotsOf false b.visited :=
      List.mem_map.mpr ⟨v, hv, rfl⟩
    have hentry : s'.entry s.currentDirectory v = {} := by
      have ht : s'.tableOf s.currentDirectory v = s.tableOf s.currentDirectory v := by
        rw [State.tableOf, hdirs, State.tableOf]
      rw [State.entry_of_ne (by rwa [ht]), ht, h.page, if_pos hslot,
        ← State.entry_of_ne htab, freedPage, if_neg h0]
    exact ⟨by rw [hentry], by simp [State.leaves, hentry, (h.entry_eq _ v).1, h0]⟩

theorem kfree_user_buffers {ptr : Nat}
    (hkernel : s.kernelBuffers.find? (fun c => c.address == ptr) = none)
    (h : kfree s ptr = .ok s') : ∀ c ∈ s'.task.buffers, c ∈ s.task.buffers := by
  simp only [kfree, hkernel] at h
  split at h
  next b hfind =>
    obtain ⟨-, -, rfl⟩ := kfreeBuffer_iff.mp h
    obtain ⟨_, _, _, hs⟩ := freeSlots_eq (s.slotsOf false b.visited) s
    rw [dropBuffer_user, hs]
    intro c hc
    simp only [State.task, State.setTask, Function.update_self] at hc
    exact List.mem_of_mem_eraseP hc
  · cases h

end Freed

/-! ## The ledger -/

/-- The memory manager, the bitmap of the process of each directory, and for each page what the last
`kfree` of it left on it. -/
structure Ledger where
  manager : Manager
  bitmap : Nat → Memmap
  left : Nat → Nat → Bool

/-- The directory that an event copies. -/
def MmuEvent.source : MmuEvent → DirRef
  | .call (.cloneDirectory src _) => src
  | _ => .kernel

/-- The bitmaps after an event. The bitmap of the task that runs is that of its directory, and a new
directory gets a copy of the bitmap of its source, as `fork` makes it. -/
def Ledger.bitmaps (l : Ledger) (e : MmuEvent) (m : Manager) (a : Nat) : Memmap :=
  if m.state.currentDirectory = .heap a then m.state.task.memmap
  else if a ∈ l.manager.dirs then l.bitmap a
  else match e.source with
    | .heap c => l.bitmap c
    | .kernel => l.bitmap a

/-- The ledger after an event. -/
def Ledger.after (l : Ledger) (e : MmuEvent) (m : Manager) : Ledger where
  manager := m
  bitmap := l.bitmaps e m
  left a v :=
    if a ∉ l.manager.dirs then false
    else if (l.bitmap a).used v && !(l.bitmaps e m a).used v then l.manager.state.leaves (.heap a) v
    else l.left a v

/-- One event. -/
def Ledger.Step (l : Ledger) (e : MmuEvent) (l' : Ledger) : Prop :=
  ∃ m, l.manager.Step e m ∧ l' = l.after e m

/-- What processes do: their memory does not wrap around, only they fork, the pages that are loaded
for them are in use, and the tasks that share a directory share its bitmap. -/
def MmuEvent.Ordinary (l : Ledger) : MmuEvent → Prop
  | .call (.kalloc sz vaddr flags _) =>
    hasFlag flags kallocOptnKernel = false → RangeFits l.manager.state.task.memmap sz vaddr
  | .call (.cloneDirectory src _) => src ≠ .kernel
  | .call (.pageFault address _) =>
    ∀ a v, FaultPage l.manager.state address (.heap a) v → (l.bitmap a).used v = true
  | .elsewhere s => UserBuffers s ∧ ∀ a, s.currentDirectory = .heap a → s.task.memmap = l.bitmap a
  | _ => True

/-- The runs from the end of `mmu_init` on. -/
def Ledger.Run (b : Boot) (l : Ledger) : Prop :=
  ∃ s₀ a, mmuInit b = .ok s₀ ∧ s₀.currentDirectory = .heap a ∧
    Reach Ledger.Step (fun l e => e.Proper l.manager ∧ e.Keeps l.manager ∧ e.Ordinary l)
      ⟨⟨s₀, [a]⟩, fun _ => s₀.task.memmap, fun _ _ => false⟩ l

/-! ## What the events keep -/

/-- The free pages of a directory have no frames, and the ledger says what was left on them. -/
structure FreePages (l : Ledger) (a : Nat) : Prop where
  kernelUsed : ∀ v < l.manager.state.kernelMemmap.length, (l.bitmap a).used v = true
  frame : ∀ v < 1048576, (l.bitmap a).used v = false → (l.manager.state.entry (.heap a) v).frame = 0
  left : ∀ v < 1048576, (l.bitmap a).used v = false →
    l.manager.state.leaves (.heap a) v = l.left a v

structure Recycled (l : Ledger) : Prop where
  booked : Booked l.manager
  memmap : ∀ a, l.manager.state.currentDirectory = .heap a → l.manager.state.task.memmap = l.bitmap a
  buffers : UserBuffers l.manager.state
  pages : ∀ a ∈ l.manager.dirs, FreePages l a

section Step

variable {l : Ledger} {e : MmuEvent} {m : Manager} {s' : State} {a : Nat}

theorem FreePages.user (h : FreePages l a) {v : Nat} (hv : (l.bitmap a).used v = false) :
    l.manager.state.kernelMemmap.length ≤ v := by
  by_contra hlt
  rw [h.kernelUsed v (not_le.mp hlt)] at hv
  cases hv

theorem FreePages.kept (h : FreePages l a) (ha : a ∈ l.manager.dirs)
    (hlen : m.state.kernelMemmap.length = l.manager.state.kernelMemmap.length)
    (hfree : ∀ v, (l.bitmaps e m a).used v = false → (l.bitmap a).used v = false)
    (hpage : ∀ v < 1048576, (l.bitmaps e m a).used v = false →
      SamePage l.manager.state m.state (.heap a) v) : FreePages (l.after e m) a where
  kernelUsed v hv := by
    refine Bool.not_eq_false _ ▸ fun hfalse => ?_
    have := h.user (hfree v hfalse)
    exact absurd hv (by rw [Ledger.after, hlen]; omega)
  frame v hv hfalse := by
    show (m.state.entry (.heap a) v).frame = 0
    rw [(hpage v hv hfalse).1]
    exact h.frame v hv (hfree v hfalse)
  left v hv hfalse := by
    have hold := hfree v hfalse
    show m.state.leaves (.heap a) v = if _ then _ else _
    rw [if_neg (not_not.mpr ha), hold, (hpage v hv hfalse).leaves, h.left v hv hold]
    rfl

theorem FreePages.of_empty
    (hkernel : ∀ v < l.manager.state.kernelMemmap.length, (l.bitmap a).used v = true)
    (hempty : ∀ v < 1048576, (l.bitmap a).used v = false →
      l.manager.state.entry (.heap a) v = {} ∧ l.manager.state.record (.heap a) v = {})
    (hleft : ∀ v, l.left a v = false) : FreePages l a := by
  refine ⟨hkernel, fun v hv hfree => ?_, fun v hv hfree => ?_⟩
  · rw [(hempty v hv hfree).1]
  · rw [State.leaves, (hempty v hv hfree).1, (hempty v hv hfree).2, hleft]
    rfl

theorem Ledger.bitmaps_of_mem (ha : a ∈ l.manager.dirs)
    (hmap : m.state.currentDirectory = .heap a → m.state.task.memmap = l.bitmap a) :
    l.bitmaps e m a = l.bitmap a := by
  rw [Ledger.bitmaps]
  split
  next hcur => exact hmap hcur
  · rfl

theorem FreePages.same {P : Nat → Nat → Prop} {L : List Nat} (hl : Recycled l) (ha : a ∈ L)
    (hold : a ∈ l.manager.dirs) (hP : ∀ v, (l.bitmap a).used v = false → P a v)
    (h : UserSame P L l.manager.state m.state) : FreePages (l.after e m) a := by
  have hpages := hl.pages a hold
  have hbits : l.bitmaps e m a = l.bitmap a := Ledger.bitmaps_of_mem hold (fun hcur => by
    rw [h.memmap]
    exact hl.memmap a (h.current ▸ hcur))
  refine hpages.kept hold h.length (fun v hv => hbits ▸ hv) (fun v hv hfree => ?_)
  rw [hbits] at hfree
  exact h.page a ha v hv (hpages.user hfree) (hP v hfree) (hpages.frame v hv hfree)

theorem Recycled.of_same {P : Nat → Nat → Prop} (hl : Recycled l) (hm : Booked m)
    (hsub : ∀ a ∈ m.dirs, a ∈ l.manager.dirs) (hP : ∀ a v, (l.bitmap a).used v = false → P a v)
    (h : UserSame P m.dirs l.manager.state m.state) : Recycled (l.after e m) :=
  ⟨hm, fun _ hcur => (if_pos hcur).symm, hl.buffers.same h,
    fun a ha => .same hl ha (hsub a ha) (hP a) h⟩

theorem Recycled.of_all (hl : Recycled l) (hm : Booked ⟨s', l.manager.dirs⟩)
    (h : UserSame (fun _ _ => True) l.manager.dirs l.manager.state s') :
    Recycled (l.after e ⟨s', l.manager.dirs⟩) :=
  hl.of_same hm (fun _ ha => ha) (fun _ _ _ => trivial) h

theorem Recycled.allocated {r n flags c : Nat} {mmap : Option Nat} (hl : Recycled l)
    (hcur : l.manager.state.currentDirectory = .heap c) (hm : Booked ⟨s', l.manager.dirs⟩)
    (hc : c ∈ l.manager.dirs)
    (h : UserAllocated l.manager.state s' c l.manager.dirs r n flags mmap) :
    Recycled (l.after e ⟨s', l.manager.dirs⟩) := by
  have hmap := hl.memmap c hcur
  have hlen : s'.kernelMemmap.length = l.manager.state.kernelMemmap.length := h.alloc.length
  obtain ⟨m', htask, -, hused⟩ := h.task_eq
  have hcur' : s'.currentDirectory = .heap c := by
    rw [State.currentDirectory, htask]
    exact hcur
  refine ⟨hm, fun a ha => (if_pos ha).symm,
    h.userBuffers (hmap ▸ (hl.pages c hc).kernelUsed) hl.buffers, fun a (ha : a ∈ l.manager.dirs) => ?_⟩
  -- what is still free was free, and is no page of the new buffer
  have hbits : ∀ v, (l.bitmaps e ⟨s', l.manager.dirs⟩ a).used v = false →
      (l.bitmap a).used v = false ∧ (inRange (r / pageSize) n v = true → a ≠ c) := by
    intro v hv
    by_cases hac : a = c
    · subst hac
      rw [Ledger.bitmaps, if_pos hcur'] at hv
      change (s'.tasks s'.currentTask).memmap.used v = false at hv
      rw [htask] at hv
      obtain ⟨hrange, hold⟩ := Bool.or_eq_false_iff.mp ((hused v).symm.trans hv)
      exact ⟨hmap ▸ hold, fun h => by rw [hrange] at h; cases h⟩
    · rw [Ledger.bitmaps_of_mem ha
        (fun h => absurd (DirRef.heap.inj (h.symm.trans hcur')) hac)] at hv
      exact ⟨hv, fun _ => hac⟩
  exact (hl.pages a ha).kept ha hlen (fun v hv => (hbits v hv).1) (fun v hv hfree =>
    h.same ha hv ((hl.pages a ha).user (hbits v hfree).1) (hbits v hfree).2)

theorem UserSame.refl (L : List Nat) (s : State) : UserSame (fun _ _ => True) L s s :=
  ⟨rfl, rfl, rfl, rfl, fun _ _ _ _ _ _ _ => ⟨rfl, rfl⟩⟩

theorem Recycled.kalloc {sz vaddr flags r : Nat} {mmap phys : Option Nat} (hl : Recycled l)
    (hproper : (Call.kalloc sz vaddr flags mmap).Proper l.manager)
    (hfit : hasFlag flags kallocOptnKernel = false →
      RangeFits l.manager.state.task.memmap sz vaddr)
    (h : Hydrax.kalloc l.manager.state sz vaddr flags mmap = .ok (r, phys, s')) :
    Recycled (l.after e ⟨s', l.manager.dirs⟩) := by
  have hm := hl.booked.kalloc hproper h
  obtain ⟨hsz, -, hplace⟩ := hproper
  cases hk : hasFlag flags kallocOptnKernel with
  | true =>
    rw [hk, if_pos rfl] at hplace
    subst hplace
    rcases kalloc_kernel hl.booked.inv hk hsz h with ⟨-, rfl⟩ | ⟨-, hK⟩
    · exact hl.of_all hm (.refl ..)
    · exact hl.of_all hm (hK.alloc.userSame hl.booked.inv)
  | false =>
    rw [hk, if_neg (by decide)] at hplace
    obtain ⟨c, hc, hcur⟩ := hplace
    have hbits := (hl.pages c hc).kernelUsed
    rw [← hl.memmap c hcur] at hbits
    rcases kalloc_user hl.booked.inv hc hcur (hl.booked.complete c hc) hk hbits hsz (hfit hk) h with
      ⟨-, rfl⟩ | ⟨-, -, hU⟩
    · exact hl.of_all hm (.refl ..)
    · exact hl.allocated hcur hm hc hU

theorem FreePages.freed {b : Buffer} (h : FreePages l a) (hl : Recycled l) (ha : a ∈ l.manager.dirs)
    (hcur : l.manager.state.currentDirectory = .heap a) (hb : b ∈ l.manager.state.task.buffers)
    (hfreed : UserFreed l.manager.state s' b) : FreePages (l.after e ⟨s', l.manager.dirs⟩) a := by
  obtain ⟨-, hlen, -, -, -, bs, ms, htask⟩ := hfreed.task_eq
  have hcur' : s'.currentDirectory = .heap a := by
    rw [State.currentDirectory, htask]
    exact hcur
  have hbits : ∀ v, (l.bitmaps e ⟨s', l.manager.dirs⟩ a).used v =
      (decide (v ∉ b.visited) && (l.bitmap a).used v) := by
    intro v
    rw [Ledger.bitmaps, if_pos hcur', ← clearPages_used, ← hl.memmap a hcur]
    show (s'.tasks s'.currentTask).memmap.used v = _
    rw [htask]
  have hold : ∀ {v}, v ∉ b.visited → (l.bitmaps e ⟨s', l.manager.dirs⟩ a).used v = false →
      (l.bitmap a).used v = false := by
    intro v hv hfree
    simpa [hbits, hv] using hfree
  -- a page of the buffer has lost its frame, and one that was free is as it was
  have hleft : ∀ v < 1048576, (l.bitmaps e ⟨s', l.manager.dirs⟩ a).used v = false →
      (s'.entry (.heap a) v).frame = 0 ∧
        s'.leaves (.heap a) v = l.manager.state.leaves (.heap a) v := by
    intro v hv hfree
    by_cases hmem : v ∈ b.visited
    · exact hcur ▸ hfreed.left hmem
    · have h0 := h.frame v hv (hold hmem hfree)
      have hsame := hfreed.same h0
      exact ⟨by rw [hsame.1, h0], hsame.leaves⟩
  refine ⟨fun v hv => ?_, fun v hv hfree => (hleft v hv hfree).1, fun v hv hfree => ?_⟩
  · have hv' : v < l.manager.state.kernelMemmap.length := hlen ▸ hv
    have hmem : v ∉ b.visited := fun hmem => absurd ((hl.buffers b hb).2 v hmem) (by omega)
    show (l.bitmaps e _ a).used v = true
    rw [hbits, h.kernelUsed v hv', decide_eq_true hmem]
    rfl
  · show s'.leaves (.heap a) v = if _ then _ else _
    rw [if_neg (not_not.mpr ha), (hleft v hv hfree).2, show (l.bitmaps e _ a).used v = false from hfree]
    cases hused : (l.bitmap a).used v with
    | true => rfl
    | false => exact h.left v hv hused

theorem Recycled.kfree {ptr : Nat} (hl : Recycled l)
    (hproper : (Call.kfree ptr).Proper l.manager)
    (h : Hydrax.kfree l.manager.state ptr = .ok s') :
    Recycled (l.after e ⟨s', l.manager.dirs⟩) := by
  have hm := hl.booked.kfree hproper h
  have hI := hl.booked.inv
  cases hfind : l.manager.state.kernelBuffers.find? (fun c => c.address == ptr) with
  | some b =>
    exact hl.of_all hm
      ((kfree_kernel hI hfind h).1.userSame hI (List.mem_of_find?_eq_some hfind))
  | none =>
    obtain ⟨b, hb, hfreed, -⟩ := kfree_user hI hl.booked.current hfind h
    obtain ⟨-, hlen, -⟩ := hfreed.task_eq
    have hcur := (kfree_spacesKept hI hl.booked.current h).current
    refine ⟨hm, fun a ha => (if_pos ha).symm, fun c hc => ?_,
      fun a (ha : a ∈ l.manager.dirs) => ?_⟩
    · show s'.kernelMemmap.length ≤ _ ∧ ∀ v ∈ c.visited, s'.kernelMemmap.length ≤ v
      rw [hlen]
      exact hl.buffers c (kfree_user_buffers hfind h c hc)
    · have hpages := hl.pages a ha
      by_cases hac : l.manager.state.currentDirectory = .heap a
      · exact hpages.freed hl ha hac (List.mem_of_find?_eq_some hb) hfreed
      · have hbits : l.bitmaps e ⟨s', l.manager.dirs⟩ a = l.bitmap a :=
          Ledger.bitmaps_of_mem ha (fun h => absurd (hcur.symm.trans h) hac)
        exact hpages.kept ha (by rw [hlen]) (fun v hv => hbits ▸ hv)
          (fun v hv hfree => hfreed.same (hpages.frame v hv (hbits ▸ hfree)))

theorem Recycled.destroy (hl : Recycled l)
    (hproper : (Call.destroyDirectory a).Proper l.manager)
    (h : mmuDestroyDirectory l.manager.state a = .ok s') :
    Recycled (l.after e ⟨s', l.manager.dirs.erase a⟩) := by
  have hm := hl.booked.destroy hproper h
  obtain ⟨ha, hne⟩ := hproper
  have hperm := List.perm_cons_erase ha
  have hcur := spaces_of_cons ((spaces_perm hperm).mp hl.booked.current) hne
  exact hl.of_same hm (fun _ hb => List.mem_of_mem_erase hb) (fun _ _ _ => trivial)
    (destroy_same (hl.booked.inv.perm hperm) hcur hl.buffers h)

theorem Recycled.clone {c flags phys : Nat} (hl : Recycled l)
    (hproper : (Call.cloneDirectory (.heap c) flags).Proper l.manager)
    (h : mmuCloneDirectory l.manager.state (.heap c) flags = .ok (a, phys, s')) :
    Recycled (l.after (.call (.cloneDirectory (.heap c) flags))
      ⟨s', if a = 0 then l.manager.dirs else a :: l.manager.dirs⟩) := by
  have hm := hl.booked.clone hproper h
  obtain ⟨hsrc, hshare⟩ := hproper
  have hI := hl.booked.inv
  have hsame := clone_same (P := fun _ _ => True) hI hsrc hl.booked.current hl.buffers hshare h
  by_cases h0 : a = 0
  · rw [if_pos h0] at hm ⊢
    exact hl.of_all hm hsame
  rw [if_neg h0] at hm ⊢
  have hc : c ∈ l.manager.dirs := heap_mem_spaces.mp hsrc
  have hnot : a ∉ l.manager.dirs := (List.nodup_cons.mp hm.inv.shape.nodup).1
  have hcur : s'.currentDirectory ≠ .heap a := by
    rw [hsame.current]
    rintro heq
    have := hl.booked.current
    rw [heq] at this
    exact hnot (heap_mem_spaces.mp this)
  refine ⟨hm, fun b hb => (if_pos hb).symm, hl.buffers.same hsame, fun b hb => ?_⟩
  rcases List.mem_cons.mp hb with rfl | hb
  · -- the new directory has no page where its source has no frame
    have hbits : l.bitmaps (.call (.cloneDirectory (.heap c) flags)) ⟨s', b :: l.manager.dirs⟩ b =
        l.bitmap c := by
      rw [Ledger.bitmaps, if_neg hcur, if_neg hnot]
      rfl
    have hsource := hl.pages c hc
    refine .of_empty (fun v hv => ?_) (fun v hv hfree => ?_) (fun _ => if_pos hnot)
    · show (l.bitmaps _ _ b).used v = true
      rw [hbits]
      exact hsource.kernelUsed v (hsame.length ▸ hv)
    · have hfree' : (l.bitmap c).used v = false := hbits ▸ hfree
      exact (mmuCloneDirectory_cases hI hsrc hshare h).entry_of_no_frame hI hsrc h0 hv
        (hsource.user hfree') (hsource.frame v hv hfree')
  · exact .same hl hb hb (fun _ _ => trivial) hsame

theorem Recycled.pageFault {address : Nat} {write : Bool} {r : FaultResult} (hl : Recycled l)
    (hproper : (Call.pageFault address write).Proper l.manager)
    (hkeep : ¬ LosesFrame l.manager.state address)
    (hord : ∀ a v, FaultPage l.manager.state address (.heap a) v → (l.bitmap a).used v = true)
    (h : Hydrax.pageFault l.manager.state address write = .ok (r, s')) :
    Recycled (l.after e ⟨s', l.manager.dirs⟩) := by
  refine hl.of_same (hl.booked.pageFault hproper hkeep h) (fun _ ha => ha) (fun a v hfree => ?_)
    (pageFault_same hl.booked hproper (fun a v hP => hP) h)
  intro hpage
  rw [hord a v hpage] at hfree
  cases hfree

theorem Recycled.heap (hl : Recycled l) (h : kheapInit l.manager.state = .ok s') :
    Recycled (l.after e ⟨s', l.manager.dirs⟩) := by
  have hm := hl.booked.heap h
  simp only [kheapInit, Loop.bind_eq_ok, Prod.exists, Loop.pure_eq_ok] at h
  obtain ⟨r, phys, s₁, halloc, -, -, rfl⟩ := h
  rcases kalloc_kernel hl.booked.inv rfl (by decide) halloc with ⟨-, rfl⟩ | ⟨-, hK⟩
  · exact hl.of_all hm ⟨rfl, rfl, rfl, rfl, fun _ _ _ _ _ _ _ => ⟨rfl, rfl⟩⟩
  · have hsame := hK.alloc.userSame (P := fun _ _ => True) hl.booked.inv
    exact hl.of_all hm ⟨hsame.memmap, hsame.buffers, hsame.current, hsame.length, hsame.page⟩

theorem Recycled.elsewhere (hl : Recycled l) (hcur : s'.currentDirectory ∈ spaces l.manager.dirs)
    (hbuffers : UserBuffers s')
    (hmap : ∀ a, s'.currentDirectory = .heap a → s'.task.memmap = l.bitmap a)
    (h : Elsewhere l.manager.state s') : Recycled (l.after e ⟨s', l.manager.dirs⟩) := by
  refine ⟨hl.booked.elsewhere hcur h, fun _ hcur => (if_pos hcur).symm, hbuffers,
    fun a (ha : a ∈ l.manager.dirs) => ?_⟩
  have hbits : l.bitmaps e ⟨s', l.manager.dirs⟩ a = l.bitmap a :=
    Ledger.bitmaps_of_mem ha (hmap a)
  obtain ⟨t, n, ⟨_, _, _, _, _, _, _, _, _, _, _, rfl⟩, rfl⟩ := h
  exact (hl.pages a ha).kept ha rfl (fun v hv => hbits ▸ hv) (fun _ _ _ => ⟨rfl, rfl⟩)

theorem Recycled.step {l' : Ledger} (hl : Recycled l) (hproper : e.Proper l.manager)
    (hkeep : e.Keeps l.manager) (hord : e.Ordinary l) (h : l.Step e l') : Recycled l' := by
  obtain ⟨m, h, rfl⟩ := h
  cases h with
  | kalloc h => exact hl.kalloc hproper hord h
  | kfree h => exact hl.kfree hproper h
  | @clone src _ _ _ _ h =>
    cases src with
    | kernel => exact absurd rfl hord
    | heap c => exact hl.clone hproper h
  | destroy h => exact hl.destroy hproper h
  | pageFault h => exact hl.pageFault hproper hkeep hord h
  | heap h => exact hl.heap h
  | elsewhere h => exact hl.elsewhere hproper hord.1 hord.2 h

end Step

/-! ## The run lemma -/

theorem Booted.recycled {b : Boot} {a : Nat} {s : State} (h : Booted b a s) :
    Recycled ⟨⟨s, [a]⟩, fun _ => s.task.memmap, fun _ _ => false⟩ := by
  obtain ⟨m, phys, hused, -, hP⟩ := h.task
  have htask : s.task = { memmap := m, directory := .heap a, directoryPhysical := phys } := by
    rw [State.task, hP.current, hP.task_eq]
  refine ⟨h.booked, fun _ _ => rfl, fun c hc => ?_, fun c hc => ?_⟩
  · change c ∈ s.task.buffers at hc
    rw [htask] at hc
    cases hc
  · obtain rfl := List.mem_singleton.mp hc
    refine .of_empty (fun v hv => ?_) (fun v hv hfree => ?_) (fun _ => rfl)
    · show s.task.memmap.used v = true
      rw [htask, hused]
      exact decide_eq_true hv
    · change s.task.memmap.used v = false at hfree
      rw [htask, hused, decide_eq_false_iff_not, not_lt] at hfree
      exact h.kernelOnly.entry h.inv hfree hv

theorem Ledger.Run.recycled {b : Boot} {l : Ledger} (h : l.Run b) : Recycled l := by
  obtain ⟨s₀, a, hinit, hcur, hrun⟩ := h
  obtain ⟨a', s₀', hinit', hB⟩ := mmuInit_ok b
  obtain rfl : s₀' = s₀ := Except.ok.inj (hinit'.symm.trans hinit)
  obtain rfl : a' = a := DirRef.heap.inj (hB.current.symm.trans hcur)
  exact hrun.invariant hB.recycled (fun hl hok h => hl.step hok.1 hok.2.1 hok.2.2 h)

/-! ## Mapping pages -/

/-- **When a mapped page can be faulted in.** In every run, the pages that `kalloc` hands out with
`KALLOC_OPTN_MMAP` have no frames and are marked as mapped. The first access to each of them is a
fault that loads it exactly if the last `kfree` of each page in the same directory, if there was one,
did not leave it commited, or present without a frame. -/
theorem kalloc_faultable_iff {b : Boot} {l : Ledger} {a sz vaddr flags r : Nat}
    {mmap phys : Option Nat} {s' : State} (hl : l.Run b)
    (hcur : l.manager.state.currentDirectory = .heap a)
    (hk : hasFlag flags kallocOptnKernel = false) (hm : hasFlag flags kallocOptnMmap = true)
    (hsz : sz < wordSize) (hfit : RangeFits l.manager.state.task.memmap sz vaddr)
    (h : kalloc l.manager.state sz vaddr flags mmap = .ok (r, phys, s')) (hr : r ≠ 0) :
    (∀ v, inRange (r / pageSize) (kallocPages sz) v = true →
      (s'.entry (.heap a) v).frame = 0 ∧ (s'.record (.heap a) v).mmap = true) ∧
    ((∀ v, inRange (r / pageSize) (kallocPages sz) v = true → Faultable s' (.heap a) v) ↔
      ∀ v, inRange (r / pageSize) (kallocPages sz) v = true → l.left a v = false) := by
  have hR := hl.recycled
  have ha : a ∈ l.manager.dirs := heap_mem_spaces.mp (hcur ▸ hR.booked.current)
  have hpages := hR.pages a ha
  have hmap := hR.memmap a hcur
  rcases kalloc_user hR.booked.inv ha hcur (hR.booked.complete a ha) hk
    (hmap ▸ hpages.kernelUsed) hsz hfit h with ⟨h0, -⟩ | ⟨-, -, hU⟩
  · exact absurd h0 hr
  have hold : ∀ v, inRange (r / pageSize) (kallocPages sz) v = true →
      (l.manager.state.entry (.heap a) v).frame = 0 ∧
        l.manager.state.leaves (.heap a) v = l.left a v := by
    intro v hv
    have hlt : v < 1048576 := lt_trans (inRange_eq_true.mp hv).2 hU.fits
    have hfree : (l.bitmap a).used v = false := hmap ▸ hU.free v hv
    exact ⟨hpages.frame v hlt hfree, hpages.left v hlt hfree⟩
  refine ⟨fun v hv => ?_, forall₂_congr (fun v hv => ?_)⟩
  · obtain ⟨hframe, -, hmmap, -⟩ := (hU.mapped hv).lazy hm
    exact ⟨hframe.trans (hold v hv).1, hmmap⟩
  · obtain ⟨hframe, hleft⟩ := hold v hv
    rw [(hU.mapped hv).faultable_iff hm, ← hleft, State.leaves, hframe]
    simp only [beq_self_eq_true, Bool.true_and, Bool.or_eq_false_iff]
    exact ⟨fun hF => ⟨hF.commited, hF.present⟩, fun hF => ⟨hframe, hF.2, hF.1⟩⟩

/-- The first page that the boot task maps is faultable. -/
theorem kalloc_faultable_first : ∃ l a s' phys, Ledger.Run Boot.small l ∧
    kalloc l.manager.state 4096 0x10000000 kallocOptnMmap (some 1) = .ok (0x10000000, phys, s') ∧
    l.manager.state.currentDirectory = .heap a ∧ Faultable s' (.heap a) 65536 := by
  obtain ⟨a, s₀, s, N, M, hinit, hheap, hF⟩ := start_small
  obtain ⟨c, s₀', hinit', hB⟩ := mmuInit_ok Boot.small
  obtain rfl : s₀' = s₀ := Except.ok.inj (hinit'.symm.trans hinit)
  have hrun : Ledger.Run Boot.small
      (Ledger.after ⟨⟨s₀', [c]⟩, fun _ => s₀'.task.memmap, fun _ _ => false⟩ .heap ⟨s, [c]⟩) :=
    ⟨s₀', c, hinit, hB.current, .step .start (e := .heap) ⟨trivial, trivial, trivial⟩
      ⟨⟨s, [c]⟩, .heap hheap, rfl⟩⟩
  obtain ⟨phys, s', halloc, -, -⟩ := hF.kalloc_ok kallocOptnMmap (some 1) rfl
  have hfit : RangeFits s.task.memmap 4096 0x10000000 :=
    ⟨by decide, fun _ => by decide, fun h => absurd h (by decide)⟩
  have hR := hrun.recycled
  have ha := heap_mem_spaces.mp (hF.process.current ▸ hR.booked.current)
  have hpages := hF.pages
  refine ⟨_, a, s', phys, hrun, halloc, hF.process.current, ?_⟩
  refine (kalloc_faultable_iff hrun hF.process.current rfl rfl (by decide) hfit halloc
    (by decide)).2.mpr (fun v hv => ?_) 65536 rfl
  have hv' := inRange_eq_true.mp hv
  simp only [pageSize, show kallocPages 4096 = 1 from rfl] at hv'
  -- nothing was given back yet
  have hfree := hF.userPages v (by omega)
  rw [← (hR.pages a ha).left v (by omega) (hR.memmap a hF.process.current ▸ hfree)]
  obtain ⟨hentry, hrecord⟩ := hF.entry (v := v) (by omega) (by omega)
  show s.leaves (.heap a) v = false
  rw [State.leaves, hentry, hrecord]
  rfl

end Hydrax
