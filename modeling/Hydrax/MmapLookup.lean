import Hydrax.ForkSteps
import Hydrax.Mmu.Fault
import Hydrax.Mmu.UserSpace
import Hydrax.Transition

/-!
# Finding the mapping of a fault

`mmap` records the address that it was asked for, and `page_fault` looks for the first record whose
closed range has the faulting address. The pages of a mapping are others: they are whole, and they
lie where `kalloc` put them.

* `Recorded` — what a run of `mmap` calls leaves in the list of the task,
* `fault_finds_iff` — when the handler finds the mapping of a page, and reads the right bytes for it.
-/

namespace Hydrax

open Loop

/-! ## Blocks are never given out twice -/

/-- The count of blocks only grows, and no buffer of the kernel gets a mapping. -/
structure Accrues (s s' : State) : Prop where
  mallocs : s.mallocs ≤ s'.mallocs
  unmapped : (∀ b ∈ s.kernelBuffers, b.mmap = none) → ∀ b ∈ s'.kernelBuffers, b.mmap = none

section Accrues

variable {A : TableAlloc} {s s' : State} {d : DirRef} {v vaddr sz r flags : Nat}
  {mmap phys : Option Nat}

theorem Accrues.refl (s : State) : Accrues s s := ⟨Nat.le_refl _, id⟩

theorem Accrues.trans {s₁ s₂ s₃ : State} (h : Accrues s₁ s₂) (h' : Accrues s₂ s₃) :
    Accrues s₁ s₃ :=
  ⟨Nat.le_trans h.mallocs h'.mallocs, fun hb => h'.unmapped (h.unmapped hb)⟩

theorem FrameStep.accrues (h : FrameStep s s') : Accrues s s' := by
  obtain ⟨_, _, _, _, rfl⟩ := h
  exact ⟨Nat.le_refl _, id⟩

section Tables

variable (hA : ∀ {s t p s'}, A s = .ok (t, p, s') → Accrues s s')

include hA

theorem mmuMakeTable_accrues (h : mmuMakeTable A s d v = .ok (true, s')) :
    Accrues s s' ∧ s'.tableOf d v ≠ 0 := by
  simp only [mmuMakeTable, bind_eq_ok, Prod.exists] at h
  obtain ⟨t, p, s₁, hA', h⟩ := h
  split at h
  · cases h
  next ht =>
    have hR := hA hA'
    cases h
    refine ⟨⟨hR.mallocs, hR.unmapped⟩, ?_⟩
    simpa [State.tableOf] using ht

theorem mmuAllocPage_accrues (h : mmuAllocPage A s d vaddr flags = .ok (true, phys, s')) :
    Accrues s s' := by
  have hmapped : ∀ {s}, s.tableOf d (vaddr / pageSize) ≠ 0 →
      mmuAllocPage A s d vaddr flags = .ok (true, phys, s') → Accrues s s' :=
    fun ht h => (mmuAllocPage_of_table h rfl rfl ht).2.1.touches.step.accrues
  by_cases h0 : s.tableOf d (vaddr / pageSize) = 0
  · obtain ⟨s₁, hmake, hpage⟩ := mmuAllocPage_of_missing h0 h
    obtain ⟨hR, ht⟩ := mmuMakeTable_accrues hA hmake
    exact hR.trans (hmapped ht (hpage ht))
  · exact hmapped h0 h

theorem kallocMap_accrues (h : kallocMap A s d sz r flags = .ok (phys, s')) : Accrues s s' :=
  kallocMap_inv h (fun _ hp hR => hR.trans (mmuAllocPage_accrues hA hp)) (.refl s)

end Tables

theorem kallocTrack_accrues (hmmap : hasFlag flags kallocOptnKernel = true → mmap = none)
    (h : kallocTrack s sz r flags mmap = .ok s') : Accrues s s' := by
  have hmallocs : s.mallocs ≤ s'.mallocs := by
    simp only [kallocTrack] at h
    split at h
    · simp only [bind_eq_ok] at h
      obtain ⟨-, -, h⟩ := h
      cases h
      rw [State.setBuffersOf, State.malloc]
      split <;> split <;> exact Nat.le_succ _
    · cases h
      exact Nat.le_refl _
  refine ⟨hmallocs, fun hb b hmem => ?_⟩
  cases hk : hasFlag flags kallocOptnKernel with
  | false =>
    obtain ⟨n, rfl⟩ := kallocTrack_user hk h
    exact hb b hmem
  | true =>
    obtain ⟨n, rfl⟩ := kallocTrack_kernel hk h
    rcases List.mem_append.mp hmem with hmem | hmem
    · exact hb b hmem
    · rw [State.newBuffers] at hmem
      split at hmem
      · rw [List.mem_singleton.mp hmem, kallocBuffer, hmmap hk]
        exact ite_self none
      · cases hmem

theorem kallocBody_accrues (hA : ∀ {s t p s'}, A s = .ok (t, p, s') → Accrues s s')
    (hmmap : hasFlag flags kallocOptnKernel = true → mmap = none)
    (h : kallocBody A s sz vaddr flags mmap = .ok (r, phys, s')) : Accrues s s' := by
  obtain ⟨-, -, ⟨-, -, rfl⟩ | ⟨-, m, s₁, -, hmap, htrack⟩⟩ := kallocBody_cases rfl h
  · exact .refl _
  · have hmark : Accrues s (s.setMemmapOf (hasFlag flags kallocOptnKernel) m) := by
      rw [State.setMemmapOf]
      split <;> exact ⟨Nat.le_refl _, id⟩
    exact (hmark.trans (kallocMap_accrues hA hmap)).trans (kallocTrack_accrues hmmap htrack)

theorem allocTableWith_accrues {s t p s'} (h : allocTableWith noTable s = .ok (t, p, s')) :
    Accrues s s' := by
  simp only [allocTableWith, bind_eq_ok, Prod.exists] at h
  obtain ⟨t', phys, s₁, hbody, h⟩ := h
  cases h
  exact kallocBody_accrues (fun h => by cases h) (fun _ => rfl) hbody

theorem kalloc_accrues (hmmap : hasFlag flags kallocOptnKernel = true → mmap = none)
    (h : kalloc s sz vaddr flags mmap = .ok (r, phys, s')) : Accrues s s' :=
  kallocBody_accrues allocTableWith_accrues hmmap h

end Accrues

/-! ## Runs of `mmap` -/

/-- A successful call of `mmap`: its arguments, the block of its record and what it returned. -/
structure MmapCall where
  info : MmapInfo
  record : Nat
  result : Nat

def MmapCall.start (c : MmapCall) : Nat := c.result + c.info.addr % pageSize

def MmapStep (s : State) (c : MmapCall) (s' : State) : Prop :=
  c.info.addr < wordSize ∧ 0 < c.info.len ∧ c.result ≠ 0 ∧ s.malloc.1 = some c.record ∧
  mmap s c.info.addr c.info.len c.info.prot c.info.flags c.info.fd c.info.offset =
    .ok (c.result, s')

/-- What a run of calls leaves behind in a process that had no mappings. -/
structure Recorded (a : Nat) (L : List Nat) (cs : List MmapCall) (s : State) : Prop where
  process : Process s a L
  mmaps : (s.tasks s.currentTask).mmaps = cs.map MmapCall.record
  infos : ∀ c ∈ cs, s.mmapInfos c.record = c.info
  le : ∀ c ∈ cs, c.record ≤ s.mallocs
  nodup : (cs.map MmapCall.record).Nodup
  /-- Null, and any other address in page 0, leaves the choice to `kalloc`. -/
  placed : ∀ c ∈ cs, c.info.addr < wordSize ∧ c.result ≠ 0 ∧ c.result < wordSize ∧
    (mmapStart c.info.addr ≠ 0 → c.result = mmapStart c.info.addr)

theorem kallocPlace_given_eq {m : Memmap} {sz vaddr r : Nat} (h : kallocPlace m sz vaddr = .ok r)
    (h0 : vaddr ≠ 0) (hr : r ≠ 0) : r = vaddr := by
  rw [kallocPlace, if_pos h0] at h
  simp only [bind_eq_ok, pure_eq_ok] at h
  obtain ⟨taken, -, rfl⟩ := h
  split
  next htaken =>
    rw [if_pos htaken] at hr
    exact absurd rfl hr
  · rfl

/-- **One call** adds its record at the end of the list. -/
theorem Recorded.step {a : Nat} {L : List Nat} {cs : List MmapCall} {c : MmapCall} {s s' : State}
    (h : Recorded a L cs s) (hstep : MmapStep s c s') : Recorded a L (cs ++ [c]) s' := by
  obtain ⟨haddr, -, hne, hblock, hmmap⟩ := hstep
  rcases mmap_cases hmmap with h0 | ⟨-, -, -, phys, s₁, halloc, rfl⟩
  · exact absurd h0 hne
  -- the block of the record is a new one
  have hrecord : c.record = s.mallocs + 1 := by
    rw [State.malloc] at hblock
    split at hblock
    · exact (Option.some.inj hblock).symm
    · cases hblock
  have hP₀ : Process (s.newMmap c.info) a L :=
    ⟨(bookkeeping_newMmap s c.info).inv h.process.inv, h.process.mem, h.process.current,
      h.process.complete, h.process.kernelPages, h.process.full⟩
  have hstart : mmapStart c.info.addr < wordSize := by
    rw [mmapStart]
    omega
  have hkernel := mmapKflags_kernel c.info.prot c.info.flags
  have hmallocs : s.mallocs + 1 ≤ s₁.mallocs :=
    (kalloc_accrues (by rw [hkernel]; exact fun h => absurd h Bool.false_ne_true) halloc).mallocs
  have hP₁ := hP₀.kalloc hkernel hstart halloc
  rcases kalloc_user_kept hP₀ hkernel hstart halloc with ⟨h0, -⟩ | ⟨-, hlt, m, -, hkept⟩
  · exact absurd h0 hne
  have hinfos : s₁.mmapInfos = Function.update s.mmapInfos (s.mallocs + 1) c.info := by
    obtain ⟨_, _, _, _, _, _, _, _, hstep⟩ := hkept.step
    have := congrArg State.mmapInfos hstep
    exact this
  obtain ⟨l, htask⟩ := hkept.task_eq
  have hold : ∀ d ∈ cs, d.record ≠ s.mallocs + 1 := by
    intro d hd heq
    have := h.le d hd
    omega
  refine
    { process := hP₁.setTask rfl rfl
      mmaps := ?_
      infos := fun d hd => ?_
      le := fun d hd => ?_
      nodup := ?_
      placed := fun d hd => ?_ }
  · have hself : (s₁.tasks s₁.currentTask).mmaps = (s.tasks s.currentTask).mmaps := by
      rw [htask]
      rfl
    simp only [State.setTask, Function.update_self, List.map_append, List.map_cons, List.map_nil]
    rw [hself, h.mmaps, hrecord]
  · show s₁.mmapInfos d.record = d.info
    rw [hinfos]
    rcases List.mem_append.mp hd with hd | hd
    · rw [Function.update_of_ne (hold d hd), h.infos d hd]
    · rw [List.mem_singleton.mp hd, hrecord, Function.update_self]
  · show d.record ≤ s₁.mallocs
    rcases List.mem_append.mp hd with hd | hd
    · have := h.le d hd
      omega
    · rw [List.mem_singleton.mp hd, hrecord]
      exact hmallocs
  · rw [List.map_append, List.nodup_append']
    refine ⟨h.nodup, List.nodup_singleton _, ?_⟩
    rw [List.map_singleton, List.disjoint_singleton, hrecord]
    intro hmem
    obtain ⟨d, hd, heq⟩ := List.mem_map.mp hmem
    exact hold d hd heq
  · rcases List.mem_append.mp hd with hd | hd
    · exact h.placed d hd
    · rw [List.mem_singleton.mp hd]
      exact ⟨haddr, hne, hlt, fun h0 => kallocPlace_given_eq (kalloc_place hkernel halloc) h0 hne⟩

theorem recorded {a : Nat} {L : List Nat} {cs : List MmapCall} {s₀ s : State}
    (hP : Process s₀ a L) (hnone : (s₀.tasks s₀.currentTask).mmaps = [])
    (h : Path MmapStep s₀ cs s) : Recorded a L cs s := by
  refine h.invariant (I := Recorded a L) ⟨hP, hnone, ?_, ?_, List.nodup_nil, ?_⟩
    (fun hr hstep => hr.step hstep)
  all_goals
    intro c hc
    cases hc

/-! ## The search -/

/-- The handler finds the mapping for a fault at `x`, and reads for its page what the mapping has
there: the byte at `v` is byte `v - start` from the offset of the mapping on. -/
def FindsMapping (s : State) (c : MmapCall) (x : Nat) : Prop :=
  findMmap s x = some c.record ∧
  ∀ v, v / pageSize = x / pageSize →
    (fileOffset (s.mmapInfos c.record) (x - x % pageSize) + v % pageSize) % wordSize =
      (c.info.offset + (v + (wordSize - c.start))) % wordSize

theorem Recorded.findMmap_iff {a i x : Nat} {L : List Nat} {cs : List MmapCall} {c : MmapCall}
    {s : State} (h : Recorded a L cs s) (hc : cs[i]? = some c) :
    findMmap s x = some c.record ↔ coversAddr c.info x = true ∧
      ∀ j < i, ∀ d, cs[j]? = some d → coversAddr d.info x = false := by
  have hget : ∀ {j : Nat} {d : MmapCall}, cs[j]? = some d →
      (cs.map MmapCall.record)[j]? = some d.record := by
    intro j d hd
    rw [List.getElem?_map, hd, Option.map_some]
  have hinfo : ∀ {j : Nat} {d : MmapCall}, cs[j]? = some d → s.mmapInfos d.record = d.info :=
    fun hd => h.infos _ (List.mem_of_getElem? hd)
  rw [findMmap, h.mmaps, List.find?_eq_some_iff_getElem, hinfo hc]
  refine and_congr_right (fun _ => ⟨?_, fun hbefore => ?_⟩)
  · rintro ⟨k, hk, heq, hbefore⟩ j hj d hd
    -- no other record is in the same block
    have hki : k = i := by
      have hi := List.getElem?_eq_some_iff.mp (hget hc)
      obtain ⟨hi, heq'⟩ := hi
      exact (h.nodup.getElem_inj_iff).mp (heq.trans heq'.symm)
    subst hki
    obtain ⟨hj', heq'⟩ := List.getElem?_eq_some_iff.mp (hget hd)
    have hcover := hbefore j hj
    rw [heq', hinfo hd] at hcover
    simpa using hcover
  · obtain ⟨hi, heq⟩ := List.getElem?_eq_some_iff.mp (hget hc)
    refine ⟨i, hi, heq, fun j hj => ?_⟩
    have hlt : j < cs.length := by
      rw [List.length_map] at hi
      omega
    have hd := List.getElem?_eq_getElem hlt
    rw [List.getElem_map, hinfo hd, hbefore j hj _ hd]
    rfl

theorem Recorded.offset_iff {a x : Nat} {L : List Nat} {cs : List MmapCall} {c : MmapCall}
    {s : State} (h : Recorded a L cs s) (hc : c ∈ cs) :
    (∀ v, v / pageSize = x / pageSize →
      (fileOffset (s.mmapInfos c.record) (x - x % pageSize) + v % pageSize) % wordSize =
        (c.info.offset + (v + (wordSize - c.start))) % wordSize) ↔ pageSize ≤ c.info.addr := by
  obtain ⟨haddr, hne, hlt, hgiven⟩ := h.placed c hc
  rw [h.infos c hc]
  simp only [fileOffset, MmapCall.start, Nat.mod_eq_of_lt haddr]
  constructor
  · intro hv
    by_contra hsmall
    have := hv x rfl
    simp only [pageSize, wordSize] at *
    omega
  · intro hle v hv
    have hres : c.result = mmapStart c.info.addr := by
      apply hgiven
      simp only [mmapStart, pageSize] at *
      omega
    rw [hres, mmapStart]
    simp only [pageSize, wordSize] at *
    omega

/-- **When the handler finds the mapping of a page.** Exactly if the mapping was asked for at an
address that is not in page 0, its record covers the faulting address, and no earlier record does. -/
theorem fault_finds_iff {a i x : Nat} {L : List Nat} {cs : List MmapCall} {c : MmapCall}
    {s₀ s : State} (hP : Process s₀ a L) (hnone : (s₀.tasks s₀.currentTask).mmaps = [])
    (h : Path MmapStep s₀ cs s) (hc : cs[i]? = some c) :
    FindsMapping s c x ↔ pageSize ≤ c.info.addr ∧ coversAddr c.info x = true ∧
      ∀ j < i, ∀ d, cs[j]? = some d → coversAddr d.info x = false := by
  have hr := recorded hP hnone h
  rw [FindsMapping, hr.findMmap_iff hc, hr.offset_iff (List.mem_of_getElem? hc)]
  exact and_comm

/-- The page of the address is one that the call allocated. -/
def MmapCall.Allocated (c : MmapCall) (x : Nat) : Prop :=
  inRange (c.result / pageSize) (pageCount (mmapSize c.info.addr c.info.len)) (x / pageSize) = true

/-- The mapping of the runs below: 100 bytes of the file open as descriptor `3`. -/
def hundredBytes : MmapInfo :=
  { addr := 0x10000000, len := 100, prot := 0, flags := mapPrivate, offset := 0, fd := 3 }

theorem FirstProcess.maps_hundred {s : State} {a N M : Nat} (hF : FirstProcess s a N M) :
    ∃ c s', Path MmapStep (s.openFile 3 1) [c] s' ∧ c.info = hundredBytes ∧
      c.result = 0x10000000 := by
  have hF := hF.openFile 3 1
  generalize hs : s.openFile 3 1 = s₀ at hF
  have hfile : (s₀.tasks s₀.currentTask).files.any (fun f => f.fd == hundredBytes.fd) = true := by
    rw [← hs, State.openFile_task]
    simp [hundredBytes]
  have hpages := hF.pages
  have hleft := hF.pagesLeft
  have hframes := hF.framesLeft
  obtain ⟨s₁, s₂, hmmap, -⟩ := hF.process.mmap_ok (m := hundredBytes) (n := 1) rfl hfile
    hF.mallocOk rfl (by decide) (by decide) (by decide) (fun p hp => by
      have hp' := inRange_eq_true.mp hp
      simp only [show mmapStart hundredBytes.addr / pageSize = 65536 from rfl] at hp'
      exact hF.userPages p (by omega)) hF.room (by omega) (by omega)
  refine ⟨⟨hundredBytes, s₀.mallocs + 1, 0x10000000⟩, s₂, Path.start.step ?_, rfl, rfl⟩
  refine ⟨show hundredBytes.addr < wordSize by decide, show 0 < hundredBytes.len by decide,
    show (0x10000000 : Nat) ≠ 0 by decide, ?_, hmmap⟩
  rw [State.malloc, hF.mallocOk]
  rfl

theorem fault_finds_first : ∃ s₀ s₁ s₂ c, mmuInit Boot.small = .ok s₀ ∧ kheapInit s₀ = .ok s₁ ∧
    Path MmapStep (s₁.openFile 3 1) [c] s₂ ∧ c.Allocated 0x10000000 ∧
    FindsMapping s₂ c 0x10000000 := by
  obtain ⟨a, s₀, s₁, N, M, hinit, hheap, hF⟩ := start_small
  obtain ⟨c, s₂, hpath, hinfo, hresult⟩ := hF.maps_hundred
  refine ⟨s₀, s₁, s₂, c, hinit, hheap, hpath, ?_, ?_⟩
  · rw [MmapCall.Allocated, hinfo, hresult]
    decide
  · refine (fault_finds_iff (i := 0) (hF.openFile 3 1).process (hF.openFile 3 1).mmaps hpath rfl).mpr
      ⟨?_, ?_, fun j hj => absurd hj (Nat.not_lt_zero j)⟩
    · rw [hinfo]
      decide
    · rw [hinfo]
      rfl

/-- **A page of a mapping that no record covers.** The task maps 100 bytes and touches the 512th
byte of the page that it got. -/
theorem fault_misses_tail : ∃ s₀ s₁ s₂ c, mmuInit Boot.small = .ok s₀ ∧ kheapInit s₀ = .ok s₁ ∧
    Path MmapStep (s₁.openFile 3 1) [c] s₂ ∧ c.Allocated 0x10000200 ∧
    findMmap s₂ 0x10000200 = none ∧ ¬ FindsMapping s₂ c 0x10000200 := by
  obtain ⟨a, s₀, s₁, N, M, hinit, hheap, hF⟩ := start_small
  obtain ⟨c, s₂, hpath, hinfo, hresult⟩ := hF.maps_hundred
  have hr := recorded (hF.openFile 3 1).process (hF.openFile 3 1).mmaps hpath
  have hmiss : findMmap s₂ 0x10000200 = none := by
    rw [findMmap, hr.mmaps, List.find?_eq_none]
    intro m hm
    rw [List.map_singleton, List.mem_singleton] at hm
    rw [hm, hr.infos c (List.mem_singleton_self c), hinfo]
    decide
  refine ⟨s₀, s₁, s₂, c, hinit, hheap, hpath, ?_, hmiss, fun hfinds => ?_⟩
  · rw [MmapCall.Allocated, hinfo, hresult]
    decide
  · cases hmiss.symm.trans hfinds.1

end Hydrax
