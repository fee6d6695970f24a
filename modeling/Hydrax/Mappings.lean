import Hydrax.Lazy
import Hydrax.MmapLookup
import Hydrax.Mmu.LostFrame

/-!
# Pages of a mapping

A page of a mapping is `Untouched` until its first access. Other allocations leave it so, and so do
first accesses to other pages. `FirstAccess` is what the first access to a mapped file does: the page
gets a frame, and the mapping becomes the master mapping of the file.
-/

namespace Hydrax

variable {s s' : State} {d : DirRef} {mmap node v : Nat}

/-- The page waits for its first access, which will read the file into it. -/
structure Untouched (s : State) (d : DirRef) (v : Nat) : Prop extends Faultable s d v where
  rw : (s.entry d v).rw = true

theorem Untouched.table (h : Untouched s d v) : s.tableOf d v ≠ 0 := by
  intro h0
  have hrw := h.rw
  rw [(entry_of_no_table h0).1] at hrw
  cases hrw

theorem Untouched.congr (h : Untouched s d v)
    (hsame : s'.entry d v = s.entry d v ∧ s'.record d v = s.record d v) : Untouched s' d v := by
  obtain ⟨hentry, hrecord⟩ := hsame
  exact ⟨⟨by rw [hentry]; exact h.frame, by rw [hentry]; exact h.present,
    by rw [hrecord]; exact h.mmap, by rw [hrecord]; exact h.commited⟩, by rw [hentry]; exact h.rw⟩

theorem Untouched.fileFault {address : Nat}
    (h : Untouched s s.currentDirectory (address / pageSize)) : FileFault s address :=
  ⟨h.commited, h.mmap, h.frame⟩

section UserAllocated

variable {s s' : State} {a r n flags v : Nat} {L : List Nat} {mmap : Option Nat}
  (h : UserAllocated s s' a L r n flags mmap)

include h

theorem UserAllocated.untouched (hm : hasFlag flags kallocOptnMmap = true)
    (hv : inRange (r / pageSize) n v = true) (hfresh : Fresh s (.heap a) v) :
    Untouched s' (.heap a) v := by
  refine ⟨((h.mapped hv).faultable_iff hm).mpr hfresh, ?_⟩
  obtain ⟨f, hentry, -, -⟩ := h.mapped hv
  rw [hentry, allocatedPage, pageFlags_writeable]
  split <;> rfl

theorem UserAllocated.entry_kept (ha : a ∈ L) (hlt : v < 1048576) (hle : s.kernelMemmap.length ≤ v)
    (hv : inRange (r / pageSize) n v = false) :
    s'.entry (.heap a) v = s.entry (.heap a) v ∧ s'.record (.heap a) v = s.record (.heap a) v := by
  refine h.alloc.entry (.heap a) (heap_mem_spaces.mpr ha) v hlt
    (fun hnew => absurd hnew.1 (by omega)) (fun hmem => absurd (mem_pagesFrom.mp hmem) ?_)
  rw [← inRange_eq_true, hv]
  decide

end UserAllocated

/-- What a mapping of `n` pages at a given address does to its process. -/
structure NewMapping (s s' : State) (a : Nat) (L : List Nat) (m : MmapInfo) (n : Nat) : Prop where
  step : MmapStep s ⟨m, s.mallocs + 1, mmapStart m.addr⟩ s'
  process : Process s' a L
  length : s'.kernelMemmap.length = s.kernelMemmap.length
  mallocOk : s'.mallocOk = s.mallocOk
  kmmaps : s'.kmmaps = s.kmmaps
  files : (s'.tasks s'.currentTask).files = (s.tasks s.currentTask).files
  used : ∀ p, (s'.tasks s'.currentTask).memmap.used p =
    (inRange (mmapStart m.addr / pageSize) n p || (s.tasks s.currentTask).memmap.used p)
  untouched : ∀ v, inRange (mmapStart m.addr / pageSize) n v = true → Fresh s (.heap a) v →
    Untouched s' (.heap a) v
  kept : ∀ v < 1048576, s.kernelMemmap.length ≤ v →
    inRange (mmapStart m.addr / pageSize) n v = false →
    s'.entry (.heap a) v = s.entry (.heap a) v ∧ s'.record (.heap a) v = s.record (.heap a) v

/-- **A mapping at a given address** of a process with room for it. -/
theorem Process.maps {a n N M : Nat} {L : List Nat} {m : MmapInfo}
    (hP : Process s a L) (hkind : hasFlag m.flags (mapShared ||| mapPrivate) = true)
    (hfile : (s.tasks s.currentTask).files.any (fun f => f.fd == m.fd) = true)
    (hok : ∀ k, s.mallocOk k = true) (hn : pageCount (mmapSize m.addr m.len) = n)
    (hsz : 0 < mmapSize m.addr m.len) (haddr : m.addr < wordSize) (hlen : 0 < m.len)
    (h0 : mmapStart m.addr ≠ 0) (hfit : mmapStart m.addr + n * pageSize < wordSize)
    (hfree : ∀ p, inRange (mmapStart m.addr / pageSize) n p = true →
      (s.tasks s.currentTask).memmap.used p = false)
    (hroom : Room s N M) (hN : N + 3 * n ≤ s.kernelMemmap.length) (hM : M + 4 * n ≤ 65536) :
    ∃ s', NewMapping s s' a L m n ∧ Room s' (N + 3 * n) (M + 4 * n) := by
  obtain ⟨s₁, s', hmmap, hU, rfl, hP', hroom'⟩ := hP.mmap_ok hkind hfile hok hn hsz h0 hfit hfree
    hroom hN hM
  obtain ⟨map, htask, -, hused⟩ := hU.task_eq
  have hself : (s₁.setTask { s₁.tasks s₁.currentTask with
      mmaps := (s₁.tasks s₁.currentTask).mmaps ++ [s.mallocs + 1] }).tasks
      (s₁.setTask { s₁.tasks s₁.currentTask with
        mmaps := (s₁.tasks s₁.currentTask).mmaps ++ [s.mallocs + 1] }).currentTask =
      { s₁.tasks s₁.currentTask with
        mmaps := (s₁.tasks s₁.currentTask).mmaps ++ [s.mallocs + 1] } := Function.update_self _ _ _
  refine ⟨_, ⟨⟨haddr, hlen, h0, ?_, hmmap⟩, hP', hU.alloc.length, hU.mallocOk, ?_, ?_, ?_, ?_, ?_⟩,
    hroom'⟩
  · rw [State.malloc, hok]
    rfl
  · obtain ⟨_, _, _, _, _, _, _, _, hstep⟩ := hU.alloc.step
    have := congrArg State.kmmaps hstep
    exact this
  · rw [hself, htask]
    rfl
  · intro p
    rw [hself, htask]
    exact hused p
  · intro v hv hfresh
    exact (hU.untouched (mmapKflags_mmap _ _) hv
      ⟨hfresh.frame, hfresh.present, hfresh.commited⟩).congr ⟨rfl, rfl⟩
  · exact fun v hlt hle hv => hU.entry_kept hP.mem hlt hle hv

/-! ## The first access -/

/-- The first access to the file at `node` went to the entry `j` of the table at `t`. -/
structure FirstAccess (s s' : State) (t j mmap node : Nat) : Prop where
  step : FaultStep s s'
  page : ∀ t' j', ¬ Slot t j t' j' → s'.page t' j' = s.page t' j'
  info : ∀ t' j', ¬ Slot t j t' j' → s'.info t' j' = s.info t' j'
  entry : s'.page t j = { s.page t j with
    present := true, accessed := false, dirty := false, frame := s.nextFrame }
  record : s'.info t j = { s.info t j with commited := true }
  frames : ∀ f, s'.physicalMemmap.used f = (decide (f = s.nextFrame) || s.physicalMemmap.used f)
  kmmaps : s'.kmmaps =
    s.kmmaps ++ [{ mmap := mmap, node := node, directory := s.currentDirectory }]

theorem FaultStep.tableOf (h : FaultStep s s') (d : DirRef) (v : Nat) :
    s'.tableOf d v = s.tableOf d v := by
  obtain ⟨_, _, _, _, _, _, _, rfl⟩ := h
  rfl

theorem FirstAccess.entry_kept {L : List Nat} {w : Nat} {d' : DirRef}
    (h : FirstAccess s s' (s.tableOf d v) (pageIdx v) mmap node) (hI : Inv s L)
    (hd : d ∈ spaces L) (hd' : d' ∈ spaces L) (hv : v < 1048576) (hw : w < 1048576) (hne : w ≠ v) :
    s'.entry d' w = s.entry d' w ∧ s'.record d' w = s.record d' w := by
  refine entry_congr (h.step.tableOf d' w) (fun h0 => ?_)
  have hslot : ¬ Slot (s.tableOf d v) (pageIdx v) (s.tableOf d' w) (pageIdx w) :=
    fun hs => hne (hI.slot_eq hd' hd hw hv h0 hs.1 hs.2).1
  exact ⟨h.page _ _ hslot, h.info _ _ hslot⟩

theorem FirstAccess.nextFrame_free {t j N M : Nat}
    (h : FirstAccess s s' t j mmap node) (hroom : Room s N M)
    (hlen : s.physicalMemmap.length = 65536) (hlen' : s'.physicalMemmap.length = 65536)
    (hM : M + 1 < 65536) : s'.physicalMemmap.used s'.nextFrame = false := by
  have hnext := (hroom.nextFrame_le hlen (by omega)).1
  exact (nextFrame_of_free hlen' hM (by
    rw [h.frames, hroom.frames (M + 1) (by omega), Bool.or_false, decide_eq_false_iff_not]
    omega)).2

theorem pageFault_first {address : Nat} (hframes : s.physicalMemmap.length = 65536)
    (hpage : Untouched s s.currentDirectory (address / pageSize))
    (hfound : findMmap s address = some mmap)
    (hfile : getFileNode s (s.mmapInfos mmap).fd = some node)
    (hnone : findKmmap s node (s.mmapInfos mmap).offset = none)
    (hok : s.mallocOk s.mallocs = true) :
    ∃ s', pageFault s address false = .ok (.handled, s') ∧
      FirstAccess s s' (s.tableOf s.currentDirectory (address / pageSize))
        (pageIdx (address / pageSize)) mmap node := by
  obtain ⟨s', h⟩ := pageFault_first_ok hframes hpage.fileFault hpage.table hpage.rw hfound hfile
    hnone hok
  refine ⟨s', h, ?_⟩
  obtain ⟨h0, hfaulted⟩ := pageFault_cases rfl rfl h
  cases hfaulted with
  | write hw => cases hw
  | read _ load =>
    cases load with
    | other hno => exact absurd hpage.fileFault hno
    | file _ hfile' =>
      cases hfile' with
      | existing masters =>
        obtain rfl := Option.some.inj (masters.found.symm.trans hfound)
        obtain rfl := Option.some.inj (masters.file.symm.trans hfile)
        cases masters.offset.symm.trans hnone
      | @first mmap' node' phys s₁ s₂ found file none alloc read =>
        obtain rfl := Option.some.inj (found.symm.trans hfound)
        obtain rfl := Option.some.inj (file.symm.trans hfile)
        obtain ⟨-, ⟨hbad, -⟩ | ⟨-, htake⟩⟩ := mmuAllocFrame_cases alloc
          (page_of_aligned address) rfl
        · have hframe := hpage.frame
          rw [State.entry_of_ne h0] at hframe
          exact absurd hframe hbad
        obtain ⟨f, htook, -⟩ := tookFrame_mmuTakeFrame htake
        obtain rfl : f = s.nextFrame := htook.first
        obtain ⟨m, rfl⟩ := readPage_state read
        refine ⟨?_, htook.touches.page, htook.touches.info, htook.page, htook.info,
          htook.used, ?_⟩
        · obtain ⟨_, _, _, _, rfl⟩ := htook.touches.step
          exact ⟨_, _, _, _, _, _, _, rfl⟩
        · obtain ⟨_, _, _, _, rfl⟩ := htook.touches.step
          rfl

end Hydrax
