import Hydrax.Mappings
import Hydrax.Mmu.Runs

/-!
# The accounting of the frames

Runs of the memory manager from the end of `mmu_init` on, with the list of the directories that are
alive. `Booked` is what every call keeps: the invariant, which has the accounting of the frames in
it, and that all directories are complete.

A fault that loses a frame is the one call that breaks it, so `frames_accounted` is about the runs
that have no such fault. `frames_lost` is a run that has one.
-/

namespace Hydrax

/-! ## The order of the directories does not matter -/

theorem spaces_perm {L L' : List Nat} (h : L.Perm L') {d : DirRef} : d ∈ spaces L ↔ d ∈ spaces L' := by
  rw [mem_spaces, mem_spaces]
  simp only [h.mem_iff]

theorem spaces_of_cons {a : Nat} {L : List Nat} {d : DirRef} (h : d ∈ spaces (a :: L))
    (hne : d ≠ .heap a) : d ∈ spaces L := by
  rcases mem_spaces.mp h with hk | ⟨b, hb, hd⟩
  · exact mem_spaces.mpr (Or.inl hk)
  · rcases List.mem_cons.mp hb with rfl | hb
    · exact absurd hd hne
    · exact mem_spaces.mpr (Or.inr ⟨b, hb, hd⟩)

theorem liveTables_perm {dirs : DirRef → PageDirectory} {L L' : List Nat} (h : L.Perm L') :
    liveTables dirs L = liveTables dirs L' := by
  ext t
  rw [mem_liveTables, mem_liveTables]
  simp only [spaces_perm h]

theorem Inv.perm {s : State} {L L' : List Nat} (hI : Inv s L) (h : L.Perm L') : Inv s L' where
  heap := hI.heap
  shape :=
    { nodup := h.nodup_iff.mp hI.shape.nodup
      kernel := hI.shape.kernel
      kernel_inj := hI.shape.kernel_inj
      shared := fun a ha => hI.shape.shared a (h.mem_iff.mpr ha)
      apart := fun a ha => hI.shape.apart a (h.mem_iff.mpr ha)
      own := fun a ha b hb => hI.shape.own a (h.mem_iff.mpr ha) b (h.mem_iff.mpr hb) }
  tables_owned t ht := hI.tables_owned t (by rwa [liveTables_perm h])
  dirs_owned a ha := hI.dirs_owned a (h.mem_iff.mpr ha)
  dirs_apart a ha := by
    rw [← liveTables_perm h]
    exact hI.dirs_apart a (h.mem_iff.mpr ha)
  refs_own a ha := hI.refs_own a (h.mem_iff.mpr ha)
  refs_lt := hI.refs_lt
  frames := hI.frames
  zero_frame := hI.zero_frame
  balanced := by
    rw [Balanced, slots, ← liveTables_perm h]
    exact hI.balanced

/-! ## Directories that an allocation leaves alone -/

theorem mmuAllocPage_dirs {s s' : State} {L : List Nat} {a vaddr flags : Nat} {phys : Option Nat}
    (hI : Inv s L) (ha : a ∈ L) (hC : Complete s (.heap a)) (hlt : vaddr / pageSize < 1048576)
    (h : mmuAllocPage (allocTableWith noTable) s (.heap a) vaddr flags = .ok (true, phys, s'))
    {d : DirRef} (hd : d ≠ .heap a) : s'.dirs d = s.dirs d := by
  by_cases h0 : s.tableOf (.heap a) (vaddr / pageSize) = 0
  · obtain ⟨s₁, hmake, hpage⟩ := mmuAllocPage_of_missing h0 h
    obtain hfalse | ⟨-, t, p, s₀, ht, hK, rfl, hI₁⟩ := mmuMakeTable_cases hI ha hC hlt h0 hmake
    · cases hfalse
    · have htab : (s₀.addTable a (tableIdx (vaddr / pageSize)) t (p.getD 0 ||| 7) {}).tableOf
          (.heap a) (vaddr / pageSize) = t := by
        rw [State.tableOf, addTable_tables, if_pos ⟨rfl, rfl⟩]
      rw [(mmuAllocPage_of_table (hpage (by rwa [htab])) rfl htab ht).2.1.touches.step.dirs,
        State.addTable, hK.alloc.step.dirs]
      exact Function.update_of_ne hd _ _
  · rw [(mmuAllocPage_of_table h rfl rfl h0).2.1.touches.step.dirs]

/-- What holds of the directories stays so in an allocation of user memory, if mapping one page keeps
it. -/
theorem kalloc_live_inv {s s' : State} {a sz vaddr flags r : Nat} {L : List Nat}
    {mmap phys : Option Nat} {Q : (DirRef → PageDirectory) → Prop} (hI : Inv s L) (ha : a ∈ L)
    (hcur : s.currentDirectory = .heap a) (hC : Complete s (.heap a))
    (hk : hasFlag flags kallocOptnKernel = false) (hr : r < wordSize)
    (h : kalloc s sz vaddr flags mmap = .ok (r, phys, s'))
    (hQ : ∀ {t t' : State} {tmp : Nat} {p : Option Nat}, Inv t L → Complete t (.heap a) →
      tmp / pageSize < 1048576 → mmuAllocPage (allocTableWith noTable) t (.heap a) tmp
        (pageFlags flags) = .ok (true, p, t') → Q t.dirs → Q t'.dirs) (h₀ : Q s.dirs) :
    Q s'.dirs := by
  obtain ⟨-, -, ⟨-, -, rfl⟩ | ⟨-, m, s₁, -, hmapped, htrack⟩⟩ := kallocBody_cases hk h
  · exact h₀
  obtain ⟨k, rfl⟩ := kallocTrack_user hk htrack
  show Q s₁.dirs
  rw [show s.dirOf false = .heap a from hcur] at hmapped
  refine (kallocMap_inv (I := fun t => Inv t L ∧ Complete t (.heap a) ∧ Q t.dirs) hmapped
    (fun htmp hp ht => ?_) ⟨hI.setTasks _, hC, h₀⟩).2.2
  obtain ⟨hI₁, hC₁, hQ₁⟩ := ht
  have hP := (mmuAllocPage_user hI₁ ha hC₁ rfl (page_lt (htmp hr)) hp).1
  exact ⟨hP.inv, hP.complete, hQ hI₁ hC₁ (page_lt (htmp hr)) hp hQ₁⟩

theorem kalloc_live_dirs {s s' : State} {a sz vaddr flags r : Nat} {L : List Nat}
    {mmap phys : Option Nat} (hI : Inv s L) (ha : a ∈ L) (hcur : s.currentDirectory = .heap a)
    (hC : Complete s (.heap a)) (hk : hasFlag flags kallocOptnKernel = false)
    (hr : r < wordSize) (h : kalloc s sz vaddr flags mmap = .ok (r, phys, s')) {d : DirRef}
    (hd : d ≠ .heap a) : s'.dirs d = s.dirs d :=
  kalloc_live_inv (Q := fun dirs => dirs d = s.dirs d) hI ha hcur hC hk hr h
    (fun hI' hC' hlt hp hsame => (mmuAllocPage_dirs hI' ha hC' hlt hp hd).trans hsame) rfl

/-! ## Runs -/

/-- The memory manager, and the directories that are alive beside the kernel's. -/
structure Manager where
  state : State
  dirs : List Nat

/-- What happens next: a call, `kheap_init`, or something elsewhere that leads to a given state. -/
inductive MmuEvent where
  | call (c : Call)
  | heap
  | elsewhere (s : State)

/-- What may happen elsewhere. The rest of the kernel takes blocks from the heap, too. -/
def Elsewhere (s s' : State) : Prop := ∃ t n, Between s t ∧ s' = { t with mallocs := n }

/-- One event. -/
inductive Manager.Step (m : Manager) : MmuEvent → Manager → Prop where
  | kalloc {sz vaddr flags r : Nat} {mmap phys : Option Nat} {s' : State}
      (h : Hydrax.kalloc m.state sz vaddr flags mmap = .ok (r, phys, s')) :
      Step m (.call (.kalloc sz vaddr flags mmap)) ⟨s', m.dirs⟩
  | kfree {ptr : Nat} {s' : State} (h : Hydrax.kfree m.state ptr = .ok s') :
      Step m (.call (.kfree ptr)) ⟨s', m.dirs⟩
  | clone {src : DirRef} {flags a phys : Nat} {s' : State}
      (h : mmuCloneDirectory m.state src flags = .ok (a, phys, s')) :
      Step m (.call (.cloneDirectory src flags)) ⟨s', if a = 0 then m.dirs else a :: m.dirs⟩
  | destroy {a : Nat} {s' : State} (h : mmuDestroyDirectory m.state a = .ok s') :
      Step m (.call (.destroyDirectory a)) ⟨s', m.dirs.erase a⟩
  | pageFault {address : Nat} {write : Bool} {r : FaultResult} {s' : State}
      (h : Hydrax.pageFault m.state address write = .ok (r, s')) :
      Step m (.call (.pageFault address write)) ⟨s', m.dirs⟩
  | heap {s' : State} (h : kheapInit m.state = .ok s') : Step m .heap ⟨s', m.dirs⟩
  | elsewhere {s' : State} (h : Elsewhere m.state s') : Step m (.elsewhere s') ⟨s', m.dirs⟩

/-- The calls that the kernel makes. It leaves the place of its own memory to `kalloc`, allocates
user memory for a task that has a directory, frees neither the directories nor the tables that are in
use, and does not destroy the directory it runs on. Faults that change the master of a file are left
out. -/
def Call.Proper (m : Manager) : Call → Prop
  | .kalloc sz vaddr flags _ => sz < wordSize ∧ vaddr < wordSize ∧
      if hasFlag flags kallocOptnKernel then vaddr = 0
      else ∃ a ∈ m.dirs, m.state.currentDirectory = .heap a
  | .kfree ptr => ptr ∉ liveTables m.state.dirs m.dirs ∧ ptr ∉ m.dirs
  | .cloneDirectory src flags => src ∈ spaces m.dirs ∧ hasFlag flags cloneShare = false
  | .destroyDirectory a => a ∈ m.dirs ∧ m.state.currentDirectory ≠ .heap a
  | .pageFault address _ => address < wordSize ∧ ¬ Promotes m.state address ∧
      ∀ k ∈ m.state.kmmaps, k.directory ∈ spaces m.dirs

/-- Elsewhere, the kernel switches between tasks whose directories are alive. -/
def MmuEvent.Proper (m : Manager) : MmuEvent → Prop
  | .call c => c.Proper m
  | .heap => True
  | .elsewhere s => s.currentDirectory ∈ spaces m.dirs

def MmuEvent.Keeps (m : Manager) : MmuEvent → Prop
  | .call (.pageFault address _) => ¬ LosesFrame m.state address
  | _ => True

/-! ## What the events keep -/

structure Booked (m : Manager) : Prop where
  inv : Inv m.state m.dirs
  current : m.state.currentDirectory ∈ spaces m.dirs
  complete : ∀ a ∈ m.dirs, Complete m.state (.heap a)

theorem Booked.of_dirs {m : Manager} {s' : State} (hm : Booked m) (hI : Inv s' m.dirs)
    (hcur : s'.currentDirectory = m.state.currentDirectory)
    (hlen : s'.kernelMemmap.length = m.state.kernelMemmap.length)
    (hdirs : s'.dirs = m.state.dirs) : Booked ⟨s', m.dirs⟩ :=
  ⟨hI, hcur ▸ hm.current,
    fun a ha => (hm.complete a ha).congr hlen (by rw [hdirs]) (by rw [hdirs])⟩

theorem Booked.kalloc {m : Manager} {sz vaddr flags r : Nat} {mmap phys : Option Nat} {s' : State}
    (hm : Booked m) (hproper : (Call.kalloc sz vaddr flags mmap).Proper m)
    (h : Hydrax.kalloc m.state sz vaddr flags mmap = .ok (r, phys, s')) : Booked ⟨s', m.dirs⟩ := by
  obtain ⟨hsz, hvaddr, hplace⟩ := hproper
  cases hk : hasFlag flags kallocOptnKernel with
  | true =>
    rw [hk, if_pos rfl] at hplace
    subst hplace
    rcases kalloc_kernel hm.inv hk hsz h with ⟨-, rfl⟩ | ⟨-, hK⟩
    · exact hm
    · refine hm.of_dirs hK.inv ?_ hK.alloc.length hK.alloc.step.dirs
      obtain ⟨_, _, _, _, _, _, _, rfl⟩ := hK.alloc.step
      rfl
  | false =>
    rw [hk, if_neg (by decide)] at hplace
    obtain ⟨a, ha, hcur⟩ := hplace
    have hC := hm.complete a ha
    rcases kalloc_live_kept hm.inv ha hcur hC hk hvaddr h with ⟨-, rfl⟩ | ⟨-, hr, m', -, hkept⟩
    · exact hm
    · have hdirs : ∀ {d}, d ≠ .heap a → s'.dirs d = m.state.dirs d :=
        fun hd => kalloc_live_dirs hm.inv ha hcur hC hk hr h hd
      obtain ⟨l, htask⟩ := hkept.task_eq
      refine ⟨hkept.inv, ?_, fun b hb => ?_⟩
      · rw [State.currentDirectory, htask]
        exact hm.current
      · by_cases hba : b = a
        · rw [hba]
          exact hkept.complete
        · exact (hm.complete b hb).congr hkept.length (hdirs (by simpa using hba)) (hdirs (by simp))

structure SpacesKept (s s' : State) : Prop where
  dirs : s'.dirs = s.dirs
  current : s'.currentDirectory = s.currentDirectory
  length : s'.kernelMemmap.length = s.kernelMemmap.length

theorem SpacesKept.trans {s₁ s₂ s₃ : State} (h : SpacesKept s₁ s₂) (h' : SpacesKept s₂ s₃) :
    SpacesKept s₁ s₃ :=
  ⟨h'.dirs.trans h.dirs, h'.current.trans h.current, h'.length.trans h.length⟩

theorem kfree_spacesKept {s s' : State} {L : List Nat} {ptr : Nat} (hI : Inv s L)
    (hcur : s.currentDirectory ∈ spaces L) (h : kfree s ptr = .ok s') : SpacesKept s s' := by
  cases hfind : s.kernelBuffers.find? (fun c => c.address == ptr) with
  | none =>
    obtain ⟨b, -, hfreed, -⟩ := kfree_user hI hcur hfind h
    obtain ⟨-, hmap, hdirs, -, -, l, ms, htask⟩ := hfreed.task_eq
    refine ⟨hdirs, ?_, by rw [hmap]⟩
    rw [State.currentDirectory, htask]
    rfl
  | some b =>
    obtain ⟨hfreed, -⟩ := kfree_kernel hI hfind h
    refine ⟨hfreed.dirs, ?_, hfreed.length⟩
    obtain ⟨_, _, _, _, _, _, rfl, -⟩ := hfreed.step
    simp [State.currentDirectory]

theorem destroy_spacesKept {s s' : State} {L : List Nat} {a : Nat} (hI : Inv s (a :: L))
    (hcur : s.currentDirectory ∈ spaces L) (h : mmuDestroyDirectory s a = .ok s') :
    SpacesKept s s' := by
  obtain ⟨s₁, hD, hI₁, -, -, hfree⟩ := mmuDestroyDirectory_spec hI h
  have hcur₁ := hD.step.currentDirectory
  have hkept : SpacesKept s s₁ := ⟨hD.step.dirs, hcur₁, by rw [hD.step.kernelMemmap]⟩
  exact hkept.trans (kfree_spacesKept hI₁ (by rwa [hcur₁]) hfree)

theorem Booked.of_spacesKept {m : Manager} {s' : State} {L : List Nat} (hm : Booked m)
    (hI : Inv s' L) (hkept : SpacesKept m.state s') (hsub : ∀ a ∈ L, a ∈ m.dirs)
    (hcur : m.state.currentDirectory ∈ spaces L) : Booked ⟨s', L⟩ :=
  ⟨hI, by rwa [hkept.current], fun a ha => (hm.complete a (hsub a ha)).congr hkept.length
    (by rw [hkept.dirs]) (by rw [hkept.dirs])⟩

theorem Booked.kfree {m : Manager} {ptr : Nat} {s' : State} (hm : Booked m)
    (hproper : (Call.kfree ptr).Proper m) (h : Hydrax.kfree m.state ptr = .ok s') :
    Booked ⟨s', m.dirs⟩ :=
  hm.of_spacesKept (hm.inv.kfree hm.current hproper.1 hproper.2 h)
    (kfree_spacesKept hm.inv hm.current h) (fun _ ha => ha) hm.current

theorem Booked.destroy {m : Manager} {a : Nat} {s' : State} (hm : Booked m)
    (hproper : (Call.destroyDirectory a).Proper m)
    (h : mmuDestroyDirectory m.state a = .ok s') : Booked ⟨s', m.dirs.erase a⟩ := by
  obtain ⟨ha, hne⟩ := hproper
  have hI : Inv m.state (a :: m.dirs.erase a) := hm.inv.perm (List.perm_cons_erase ha)
  have hcur : m.state.currentDirectory ∈ spaces (m.dirs.erase a) :=
    spaces_of_cons ((spaces_perm (List.perm_cons_erase ha)).mp hm.current) hne
  exact hm.of_spacesKept (hI.destroy hcur h) (destroy_spacesKept hI hcur h)
    (fun b hb => List.mem_of_mem_erase hb) hcur

theorem CloneStep.currentDirectory {s s' : State} (h : CloneStep s s') :
    s'.currentDirectory = s.currentDirectory := by
  obtain ⟨_, _, _, _, _, _, _, _, _, rfl⟩ := h
  rfl

theorem Cloned.old {flags a n kflags : Nat} {src : DirRef} {L J : List Nat} {s s₁ s₂ : State}
    {mmap phys : Option Nat} (hI : Inv s L) (alloc : KernelAllocated s s₁ L a n kflags mmap phys)
    (h : Cloned flags src a L J (s₁.newDir a) s₂) :
    (∀ d ∈ spaces L, s₂.dirs d = s.dirs d) ∧ s₂.currentDirectory = s.currentDirectory ∧
      s₂.kernelMemmap.length = s.kernelMemmap.length := by
  refine ⟨fun d hd => ?_, ?_, h.length.trans alloc.alloc.length⟩
  · have hne := alloc.ne_heap hI hd
    rw [h.dirs d hne, ← alloc.alloc.step.dirs]
    exact addDir_of_ne hne
  · rw [h.step.currentDirectory]
    obtain ⟨_, _, _, _, _, _, _, rfl⟩ := alloc.alloc.step
    rfl

theorem Booked.clone {m : Manager} {src : DirRef} {flags a phys : Nat} {s' : State} (hm : Booked m)
    (hproper : (Call.cloneDirectory src flags).Proper m)
    (h : mmuCloneDirectory m.state src flags = .ok (a, phys, s')) :
    Booked ⟨s', if a = 0 then m.dirs else a :: m.dirs⟩ := by
  obtain ⟨hsrc, hshare⟩ := hproper
  have hkernel := kernel_mem_spaces m.dirs
  cases mmuCloneDirectory_cases hm.inv hsrc hshare h with
  | full => exact hm
  | @made _ physmem s₁ _ ha alloc inv tables cloned inv' =>
    obtain ⟨hdirs, hcur, hlen⟩ := cloned.old hm.inv alloc
    rw [if_neg ha]
    refine ⟨inv', spaces_cons (hcur ▸ hm.current), fun b hb => ?_⟩
    rcases List.mem_cons.mp hb with rfl | hb
    · -- the new directory has the tables of a complete one
      intro i hi
      rw [kernelTables, hlen] at hi
      have hi' : i < kernelTables (s₁.newDir b).kernelMemmap := by
        rw [kernelTables, show (s₁.newDir b).kernelMemmap.length = _ from alloc.alloc.length]
        exact hi
      have hne := alloc.ne_heap hm.inv hsrc
      have hlt := lt_of_lt_of_le hi hm.inv.kernelTables_le
      rw [cloned.linked i (List.mem_range.mpr hlt) hi', ← cloned.dirs src hne, hdirs src hsrc,
        hdirs .kernel hkernel]
      rcases mem_spaces.mp hsrc with rfl | ⟨c, hc, rfl⟩
      · rfl
      · exact hm.complete c hc i hi
    · exact (hm.complete b hb).congr hlen (hdirs _ (heap_mem_spaces.mpr hb))
        (hdirs .kernel hkernel)
  | @failed a physmem J s₁ s₂ _ ha alloc inv cloned inv' destroyed =>
    obtain ⟨hdirs, hcur, hlen⟩ := cloned.old hm.inv alloc
    have hcur₂ : s₂.currentDirectory ∈ spaces m.dirs := hcur ▸ hm.current
    have hkept := destroy_spacesKept inv' hcur₂ destroyed
    rw [if_pos rfl]
    refine ⟨inv'.destroy hcur₂ destroyed, by rwa [hkept.current], fun b hb => ?_⟩
    refine (hm.complete b hb).congr (hkept.length.trans hlen) ?_ ?_
    · rw [hkept.dirs, hdirs _ (heap_mem_spaces.mpr hb)]
    · rw [hkept.dirs, hdirs .kernel hkernel]

theorem Booked.pageFault {m : Manager} {address : Nat} {write : Bool} {r : FaultResult} {s' : State}
    (hm : Booked m) (hproper : (Call.pageFault address write).Proper m)
    (hkeep : ¬ LosesFrame m.state address)
    (h : Hydrax.pageFault m.state address write = .ok (r, s')) : Booked ⟨s', m.dirs⟩ := by
  obtain ⟨haddr, hshort, hlive⟩ := hproper
  have hI := hm.inv.pageFault hm.current haddr hlive hshort hkeep h
  obtain ⟨_, _, _, _, _, _, _, rfl⟩ := pageFault_step hshort h
  exact hm.of_dirs hI rfl rfl rfl

theorem Booked.heap {m : Manager} {s' : State} (hm : Booked m)
    (h : kheapInit m.state = .ok s') : Booked ⟨s', m.dirs⟩ := by
  simp only [kheapInit, Loop.bind_eq_ok, Prod.exists, Loop.pure_eq_ok] at h
  obtain ⟨r, phys, s₁, halloc, -, -, rfl⟩ := h
  have hproper : (Call.kalloc kheapInitialSize 0 (kallocOptnAlign ||| kallocOptnKernel) none).Proper
      m := ⟨by decide, by decide, by rw [if_pos (by rfl)]⟩
  have hm₁ := hm.kalloc hproper halloc
  exact ⟨hm₁.inv.congr rfl, hm₁.current, hm₁.complete⟩

theorem Booked.elsewhere {m : Manager} {s' : State} (hm : Booked m)
    (hcur : s'.currentDirectory ∈ spaces m.dirs) (h : Elsewhere m.state s') :
    Booked ⟨s', m.dirs⟩ := by
  obtain ⟨t, n, ⟨_, _, _, _, _, _, _, _, _, _, _, rfl⟩, rfl⟩ := h
  exact ⟨hm.inv.congr rfl, hcur, hm.complete⟩

theorem Booked.step {m m' : Manager} {e : MmuEvent} (hm : Booked m) (hproper : e.Proper m)
    (hkeep : e.Keeps m) (h : m.Step e m') : Booked m' := by
  cases h with
  | kalloc h => exact hm.kalloc hproper h
  | kfree h => exact hm.kfree hproper h
  | clone h => exact hm.clone hproper h
  | destroy h => exact hm.destroy hproper h
  | pageFault h => exact hm.pageFault hproper hkeep h
  | heap h => exact hm.heap h
  | elsewhere h => exact hm.elsewhere hproper h

theorem Booted.current {b : Boot} {a : Nat} {s : State} (h : Booted b a s) :
    s.currentDirectory = .heap a := by
  obtain ⟨m, phys, -, -, hP⟩ := h.task
  rw [State.currentDirectory, hP.current, hP.task_eq]

theorem Booted.booked {b : Boot} {a : Nat} {s : State} (h : Booted b a s) : Booked ⟨s, [a]⟩ := by
  refine ⟨h.inv, ?_, fun c hc => ?_⟩
  · rw [h.current, mem_spaces]
    exact Or.inr ⟨a, by simp, rfl⟩
  · rw [List.mem_singleton.mp hc]
    exact h.complete

/-! ## The run lemma -/

/-- The runs from the end of `mmu_init` on in which no fault loses a frame. -/
def Manager.Run (b : Boot) (m : Manager) : Prop :=
  ∃ s₀ a, mmuInit b = .ok s₀ ∧ s₀.currentDirectory = .heap a ∧
    Reach Manager.Step (fun m e => e.Proper m ∧ e.Keeps m) ⟨s₀, [a]⟩ m

theorem Manager.Run.booked {b : Boot} {m : Manager} (h : m.Run b) : Booked m := by
  obtain ⟨s₀, a, hinit, hcur, hrun⟩ := h
  obtain ⟨a', s₀', hinit', hB⟩ := mmuInit_ok b
  obtain rfl : s₀' = s₀ := Except.ok.inj (hinit'.symm.trans hinit)
  obtain rfl : a' = a := DirRef.heap.inj (hB.current.symm.trans hcur)
  induction hrun with
  | start => exact hB.booked
  | step _ hok h ih => exact ih.step hok.1 hok.2 h

theorem Manager.Run.step {b : Boot} {m m' : Manager} {e : MmuEvent} (h : m.Run b) (hproper : e.Proper m)
    (hkeep : e.Keeps m) (hstep : m.Step e m') : m'.Run b := by
  obtain ⟨s₀, a, hinit, hcur, hrun⟩ := h
  exact ⟨s₀, a, hinit, hcur, hrun.step ⟨hproper, hkeep⟩ hstep⟩

theorem Manager.Run.elsewhere {b : Boot} {m : Manager} {s' : State} (h : m.Run b)
    (hcur : s'.currentDirectory = m.state.currentDirectory) (hstep : Elsewhere m.state s') :
    Manager.Run b ⟨s', m.dirs⟩ := by
  refine h.step (e := .elsewhere s') ?_ trivial (.elsewhere hstep)
  show s'.currentDirectory ∈ spaces m.dirs
  rw [hcur]
  exact h.booked.current

theorem elsewhere_newMmap (s : State) (info : MmapInfo) : Elsewhere s (s.newMmap info) :=
  ⟨{ s with mmapInfos := Function.update s.mmapInfos (s.mallocs + 1) info }, s.mallocs + 1,
    ⟨_, _, _, _, _, _, _, _, _, _, _, rfl⟩, rfl⟩

theorem elsewhere_setTask (s : State) (task : Task) : Elsewhere s (s.setTask task) :=
  ⟨s.setTask task, s.mallocs, ⟨_, _, _, _, _, _, _, _, _, _, _, rfl⟩, rfl⟩

theorem Manager.Run.mmap {b : Boot} {s s' : State} {a : Nat} {L : List Nat} {c : MmapCall}
    (h : Manager.Run b ⟨s, L⟩) (ha : a ∈ L) (hcur : s.currentDirectory = .heap a)
    (hstep : MmapStep s c s') : Manager.Run b ⟨s', L⟩ := by
  obtain ⟨haddr, -, hne, -, hmmap⟩ := hstep
  rcases mmap_cases hmmap with h0 | ⟨-, -, -, phys, s₁, halloc, rfl⟩
  · exact absurd h0 hne
  have hbegun : Manager.Run b ⟨s.newMmap c.info, L⟩ := h.elsewhere rfl (elsewhere_newMmap s c.info)
  have hproper : (Call.kalloc (mmapSize c.info.addr c.info.len) (mmapStart c.info.addr)
      (mmapKflags c.info.prot c.info.flags) (some (s.mallocs + 1))).Proper
      ⟨s.newMmap c.info, L⟩ := by
    refine ⟨Nat.mod_lt _ (by decide), lt_of_le_of_lt (Nat.sub_le _ _) haddr, ?_⟩
    rw [mmapKflags_kernel, if_neg (by decide)]
    exact ⟨a, ha, hcur⟩
  have hmade : Manager.Run b ⟨s₁, L⟩ :=
    hbegun.step (e := .call (.kalloc _ _ _ _)) hproper trivial (.kalloc halloc)
  refine hmade.elsewhere ?_ (elsewhere_setTask s₁ _)
  simp [State.currentDirectory, State.setTask]

/-- **The frames are accounted for** in every run in which no fault loses one: the counter of a frame
is the number of entries that map it, and its bit is set exactly while there is one. So no frame that
an address space maps is ever free. -/
theorem frames_accounted {b : Boot} {m : Manager} (h : m.Run b) :
    Balanced m.state m.dirs ∧ ∀ d ∈ spaces m.dirs, ∀ v < 1048576, (m.state.entry d v).frame ≠ 0 →
      m.state.physicalMemmap.used (m.state.entry d v).frame = true :=
  ⟨h.booked.inv.balanced, fun _ hd _ hv h0 => h.booked.inv.entry_used hd hv h0⟩

theorem start_run : ∃ a s N M, Manager.Run Boot.small ⟨s, [a]⟩ ∧ FirstProcess s a N M := by
  obtain ⟨a, s₀, s, N, M, hinit, hheap, hF⟩ := start_small
  obtain ⟨c, s₀', hinit', hB⟩ := mmuInit_ok Boot.small
  obtain rfl : s₀' = s₀ := Except.ok.inj (hinit'.symm.trans hinit)
  have hrun : Manager.Run Boot.small ⟨s₀', [c]⟩ := ⟨s₀', c, hinit, hB.current, .start⟩
  have hrun' : Manager.Run Boot.small ⟨s, [c]⟩ := hrun.step (e := .heap) trivial trivial (.heap hheap)
  have hcur := hrun'.booked.current
  rw [show ({ state := s, dirs := [c] } : Manager).state.currentDirectory = .heap a from
    hF.process.current] at hcur
  obtain rfl : a = c := by simpa [mem_spaces] using hcur
  exact ⟨a, s, N, M, hrun', hF⟩

/-- A page of user memory. -/
theorem frames_accounted_first : ∃ s a, Manager.Run Boot.small ⟨s, [a]⟩ ∧
    (s.entry (.heap a) 65536).present = true ∧ Balanced s [a] := by
  obtain ⟨a, s, N, M, hrun, hF⟩ := start_run
  obtain ⟨phys, s', halloc, hU, -⟩ := hF.kalloc_ok 0 none rfl
  have hproper : (Call.kalloc 4096 0x10000000 0 none).Proper ⟨s, [a]⟩ :=
    ⟨by decide, by decide, by rw [if_neg (by decide)]; exact ⟨a, by simp, hF.process.current⟩⟩
  have hrun' : Manager.Run Boot.small ⟨s', [a]⟩ :=
    hrun.step (e := .call (.kalloc 4096 0x10000000 0 none)) hproper trivial (.kalloc halloc)
  refine ⟨s', a, hrun', ?_, (frames_accounted hrun').1⟩
  have hpages := hF.pages
  obtain ⟨f, hentry, -, -⟩ := hU.mapped (v := 65536) rfl
  rw [hentry, (hF.entry (v := 65536) (by omega) (by decide)).1]
  rfl

/-! ## A run that loses a frame -/

/-- Two pages of the file open as descriptor `3`. -/
def twoPages (addr : Nat) : MmapInfo :=
  { addr := addr, len := 8192, prot := protWrite, flags := mapPrivate, offset := 0, fd := 3 }

/-- The process with the directory at `a` mapped the same two pages of a file twice and read the
first byte through the first mapping. -/
structure TwoMappings (s : State) (a r₁ r₂ node : Nat) : Prop where
  process : Process s a [a]
  free : s.physicalMemmap.used s.nextFrame = false
  kmmaps : s.kmmaps = [{ mmap := r₁, node := node, directory := .heap a }]
  mmaps : (s.tasks s.currentTask).mmaps = [r₁, r₂]
  file : getFileNode s 3 = some node
  first : s.mmapInfos r₁ = twoPages 0x10000000
  second : s.mmapInfos r₂ = twoPages 0x20000000
  untouched : ∀ v ∈ [65537, 131072, 131073], Untouched s (.heap a) v

theorem FirstProcess.maps_twice {s : State} {a N M : Nat} (hF : FirstProcess s a N M) :
    ∃ s₁ s₂ N' M', NewMapping (s.openFile 3 1) s₁ a [a] (twoPages 0x10000000) 2 ∧
      NewMapping s₁ s₂ a [a] (twoPages 0x20000000) 2 ∧ Room s₂ N' M' ∧ M' + 1 < 65536 ∧
      ∀ v ∈ [65536, 65537, 131072, 131073], Untouched s₂ (.heap a) v := by
  have hF := hF.openFile 3 1
  have hpages := hF.pages
  have hleft := hF.pagesLeft
  have hframes := hF.framesLeft
  have hfiles : ((s.openFile 3 1).tasks (s.openFile 3 1).currentTask).files.any
      (fun f => f.fd == 3) = true := by
    rw [State.openFile_task]
    simp
  generalize s.openFile 3 1 = s₀ at *
  have hstart : mmapStart (twoPages 0x10000000).addr / pageSize = 65536 ∧
      mmapStart (twoPages 0x20000000).addr / pageSize = 131072 := ⟨rfl, rfl⟩
  obtain ⟨s₁, hmap₁, hroom₁⟩ := hF.process.maps (m := twoPages 0x10000000) (n := 2) rfl hfiles
    hF.mallocOk rfl (by decide) (by decide) (by decide) (by decide) (by decide) (fun p hp => by
      have hp' := inRange_eq_true.mp hp
      rw [hstart.1] at hp'
      exact hF.userPages p (by omega)) hF.room (by omega) (by omega)
  have hlen₁ := hmap₁.length
  obtain ⟨s₂, hmap₂, hroom₂⟩ := hmap₁.process.maps (m := twoPages 0x20000000) (n := 2) rfl
    (by rw [hmap₁.files]; exact hfiles) (by rw [hmap₁.mallocOk]; exact hF.mallocOk) rfl (by decide)
    (by decide) (by decide) (by decide) (by decide) (fun p hp => by
      have hp' := inRange_eq_true.mp hp
      rw [hstart.2] at hp'
      rw [hmap₁.used, hF.userPages p (by omega), Bool.or_false, hstart.1]
      exact Bool.eq_false_iff.mpr (fun h => by
        have := inRange_eq_true.mp h
        omega)) hroom₁ (by omega) (by omega)
  have hfresh : ∀ v, s₀.kernelMemmap.length ≤ v → v < 1048576 → Fresh s₀ (.heap a) v := by
    intro v hle hlt
    obtain ⟨hentry, hrecord⟩ := hF.entry hle hlt
    exact ⟨by rw [hentry], by rw [hentry], by rw [hrecord]⟩
  have hold : ∀ v, inRange 65536 2 v = true → Untouched s₂ (.heap a) v := by
    intro v hv
    have hv' := inRange_eq_true.mp hv
    have hnot : inRange 131072 2 v = false :=
      Bool.eq_false_iff.mpr (fun h => by have := inRange_eq_true.mp h; omega)
    exact (hmap₁.untouched v hv (hfresh v (by omega) (by omega))).congr
      (hmap₂.kept v (by omega) (by omega) hnot)
  have hnew : ∀ v, inRange 131072 2 v = true → Untouched s₂ (.heap a) v := by
    intro v hv
    have hv' := inRange_eq_true.mp hv
    have hnot : inRange 65536 2 v = false :=
      Bool.eq_false_iff.mpr (fun h => by have := inRange_eq_true.mp h; omega)
    obtain ⟨hentry, hrecord⟩ := hmap₁.kept v (by omega) (by omega) hnot
    have hF₀ := hfresh v (by omega) (by omega)
    exact hmap₂.untouched v hv
      ⟨by rw [hentry]; exact hF₀.frame, by rw [hentry]; exact hF₀.present,
        by rw [hrecord]; exact hF₀.commited⟩
  refine ⟨s₁, s₂, _, _, hmap₁, hmap₂, hroom₂, by omega, fun v hv => ?_⟩
  simp only [List.mem_cons, List.not_mem_nil, or_false] at hv
  rcases hv with rfl | rfl | rfl | rfl
  · exact hold 65536 rfl
  · exact hold 65537 rfl
  · exact hnew 131072 rfl
  · exact hnew 131073 rfl

theorem no_masters {s : State} (h : s.kmmaps = []) (address : Nat) :
    ¬ Promotes s address ∧ ¬ LosesFrame s address := by
  have hnone : ∀ mmap k, ¬ Masters s address mmap k := by
    intro mmap k hm
    have hmem := (findKmmap_node hm.offset).2
    rw [h] at hmem
    cases hmem
  constructor
  · rintro ⟨mmap, k, hm, -⟩
    exact hnone mmap k hm
  · rintro ⟨-, mmap, k, hm, -⟩
    exact hnone mmap k hm

theorem FaultStep.process {s s' : State} {a : Nat} {L : List Nat} (h : FaultStep s s')
    (hP : Process s a L) (hI : Inv s' L) : Process s' a L := by
  obtain ⟨_, _, _, _, _, _, _, rfl⟩ := h
  exact ⟨hI, hP.mem, hP.current, hP.complete, hP.kernelPages, hP.full⟩

theorem FaultStep.mappings {s s' : State} (h : FaultStep s s') :
    s'.mmapInfos = s.mmapInfos ∧ s'.tasks s'.currentTask = s.tasks s.currentTask := by
  obtain ⟨_, _, _, _, _, _, _, rfl⟩ := h
  exact ⟨rfl, rfl⟩

theorem two_mappings : ∃ s a r₁ r₂ node, Manager.Run Boot.small ⟨s, [a]⟩ ∧
    TwoMappings s a r₁ r₂ node := by
  obtain ⟨a, s, N, M, hrun, hF⟩ := start_run
  obtain ⟨s₁, s₂, N', M', hmap₁, hmap₂, hroom, hM, hpages⟩ := hF.maps_twice
  have hrun₀ : Manager.Run Boot.small ⟨s.openFile 3 1, [a]⟩ :=
    hrun.elsewhere (by simp [State.openFile, State.currentDirectory, State.setTask])
      (elsewhere_setTask s _)
  have hF₀ := hF.openFile 3 1
  have hrun₂ := (hrun₀.mmap (by simp) hF₀.process.current hmap₁.step).mmap (by simp)
    hmap₁.process.current hmap₂.step
  -- the records of the two mappings
  have hrec := recorded hF₀.process hF₀.mmaps ((Path.start.step hmap₁.step).step hmap₂.step)
  have hmmaps := hrec.mmaps
  have hinfo₁ := hrec.infos _ (List.mem_append_left _ List.mem_concat_self)
  have hinfo₂ := hrec.infos _ List.mem_concat_self
  simp only [List.nil_append, List.cons_append, List.map_cons, List.map_nil] at hmmaps hinfo₁ hinfo₂
  have hfound : findMmap s₂ 0x10000000 = some ((s.openFile 3 1).mallocs + 1) := by
    rw [findMmap, hmmaps, List.find?_cons_of_pos]
    rw [hinfo₁]
    rfl
  obtain ⟨node, hfile⟩ : ∃ node, getFileNode s₂ 3 = some node := by
    rw [getFileNode, hmap₂.files, hmap₁.files, State.openFile_task, ← Option.isSome_iff_exists]
    simp
  have hkmmaps : s₂.kmmaps = [] := by rw [hmap₂.kmmaps, hmap₁.kmmaps, hF₀.kmmaps]
  have hcur := hmap₂.process.current
  have hpage : Untouched s₂ s₂.currentDirectory (0x10000000 / pageSize) := by
    rw [hcur]
    exact hpages 65536 (by simp)
  -- the first access, through the first mapping
  obtain ⟨s₃, hfault, hfirst⟩ := pageFault_first hmap₂.process.inv.frames hpage hfound
    (by rw [hinfo₁]; exact hfile) (by rw [findKmmap, hkmmaps]; rfl)
    (by rw [hmap₂.mallocOk, hmap₁.mallocOk]; exact hF₀.mallocOk _)
  obtain ⟨hshort, hkeep⟩ := no_masters hkmmaps 0x10000000
  have hrun₃ : Manager.Run Boot.small ⟨s₃, [a]⟩ :=
    hrun₂.step (e := .call (.pageFault 0x10000000 false))
      ⟨by decide, hshort, by rw [hkmmaps]; simp⟩ hkeep (.pageFault hfault)
  have hP₃ := hfirst.step.process hmap₂.process hrun₃.booked.inv
  obtain ⟨hinfos, htask⟩ := hfirst.step.mappings
  refine ⟨s₃, a, (s.openFile 3 1).mallocs + 1, s₁.mallocs + 1, node, hrun₃, hP₃, ?_, ?_, ?_, ?_, ?_,
    ?_, fun v hv => ?_⟩
  · exact hfirst.nextFrame_free hroom hmap₂.process.inv.frames hP₃.inv.frames hM
  · rw [hfirst.kmmaps, hkmmaps, hcur]
    rfl
  · rw [htask, hmmaps]
  · rw [getFileNode, htask]
    exact hfile
  · rw [hinfos, hinfo₁]
  · rw [hinfos, hinfo₂]
  · have hd := hmap₂.process.space
    rw [hcur] at hd
    have hv' : v ≠ 65536 ∧ v < 1048576 := by
      simp only [List.mem_cons, List.not_mem_nil, or_false] at hv
      omega
    rw [hcur] at hfirst
    exact (hpages v (List.mem_cons_of_mem _ hv)).congr
      (hfirst.entry_kept hmap₂.process.inv hd hd (by decide) hv'.2 hv'.1)

namespace TwoMappings

variable {s : State} {a r₁ r₂ node : Nat} (h : TwoMappings s a r₁ r₂ node)

include h

theorem masters :
    Masters s 0x20001000 r₂ { mmap := r₁, node := node, directory := .heap a } := by
  refine ⟨?_, ?_, ?_⟩
  · rw [findMmap, h.mmaps, List.find?_cons_of_neg, List.find?_cons_of_pos]
    · rw [h.second]
      rfl
    · rw [h.first]
      decide
  · rw [h.second]
    exact h.file
  · rw [findKmmap, h.kmmaps, List.find?_cons_of_pos]
    rw [h.first, h.second]
    simp [twoPages]

theorem masters_eq {mmap : Nat} {k : KMmap} (hm : Masters s 0x20001000 mmap k) :
    mmap = r₂ ∧ k = { mmap := r₁, node := node, directory := .heap a } := by
  obtain rfl := Option.some.inj (hm.found.symm.trans h.masters.found)
  have hk := (findKmmap_node hm.offset).2
  rw [h.kmmaps, List.mem_singleton] at hk
  exact ⟨rfl, hk⟩

theorem masterPage_eq :
    masterPage s { mmap := r₁, node := node, directory := .heap a } r₂ 0x20001000 = 65537 := by
  rw [masterPage, h.first, h.second]
  rfl

theorem not_promotes : ¬ Promotes s 0x20001000 := by
  rintro ⟨mmap, k, hm, hlt⟩
  obtain ⟨rfl, rfl⟩ := h.masters_eq hm
  rw [h.first, h.second] at hlt
  exact absurd hlt (by decide)

theorem losesFrame : LosesFrame s 0x20001000 := by
  have hcur := h.process.current
  have hpage := h.untouched 131073 (by simp)
  refine ⟨by rw [← hcur] at hpage; exact hpage.fileFault, r₂, _, h.masters, by rw [hcur], ?_, ?_⟩
  · rw [h.masterPage_eq]
    exact (h.untouched 65537 (by simp)).present
  · rw [h.masterPage_eq]
    decide

theorem pageFault_ok : ∃ s', pageFault s 0x20001000 false = .ok (.handled, s') := by
  have hcur := h.process.current
  have hpage := h.untouched 131073 (by simp)
  refine h.losesFrame.pageFault_ok h.process.inv.frames h.not_promotes
    (by rw [hcur]; exact hpage.table) (by rw [hcur]; exact hpage.rw) (fun mmap k hm => ?_)
  obtain ⟨rfl, rfl⟩ := h.masters_eq hm
  rw [h.masterPage_eq]
  exact (h.untouched 65537 (by simp)).table

end TwoMappings

/-- **A frame is lost**: a process maps two pages of a file twice, reads the first page through the
first mapping, and then the second page through the second mapping. -/
theorem frames_lost : ∃ m m' address, m.Run Boot.small ∧ (Call.pageFault address false).Proper m ∧
    m.Step (.call (.pageFault address false)) m' ∧ ¬ Balanced m'.state m'.dirs := by
  obtain ⟨s, a, r₁, r₂, node, hrun, hT⟩ := two_mappings
  have hlive : ∀ k ∈ s.kmmaps, k.directory ∈ spaces [a] := by
    have hspace := hT.process.space
    rw [hT.kmmaps]
    simpa [hT.process.current] using hspace
  obtain ⟨s', hfault⟩ := hT.pageFault_ok
  refine ⟨⟨s, [a]⟩, ⟨s', [a]⟩, 0x20001000, hrun, ⟨by decide, hT.not_promotes, hlive⟩,
    .pageFault hfault, ?_⟩
  exact (hT.losesFrame.lost hT.process.inv hT.process.space (by decide) hlive hT.not_promotes hT.free
    hfault).not_balanced

end Hydrax
