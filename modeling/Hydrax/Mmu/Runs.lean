import Hydrax.Mmu.Boot
import Hydrax.Mmu.Fault

/-!
# Runs of the memory manager

The calls of `kernel/mmu.c` that the rest of the kernel makes once `mmu_init` is back, in any order.
Between two calls other parts of the kernel work on the tasks, and the processes on their memory:
`Between` lets them change all that the memory manager only reads.

The first result about runs is a negative one. Every page of kernel memory is handed out with the
`user` bit set, since `kalloc` loses the flag that would clear it, and the first such page is the
directory that `mmu_init` itself clones.
-/

namespace Hydrax

inductive Call where
  | kalloc (sz vaddr flags : Nat) (mmap : Option Nat)
  | kfree (ptr : Nat)
  | cloneDirectory (src : DirRef) (flags : Nat)
  | destroyDirectory (addr : Nat)
  | pageFault (address : Nat) (write : Bool)

def Call.exec (s : State) : Call → Except Stop State
  | .kalloc sz vaddr flags mmap => do
      let (_, _, s) ← Hydrax.kalloc s sz vaddr flags mmap
      return s
  | .kfree ptr => Hydrax.kfree s ptr
  | .cloneDirectory src flags => do
      let (_, _, s) ← mmuCloneDirectory s src flags
      return s
  | .destroyDirectory addr => mmuDestroyDirectory s addr
  | .pageFault address write => do
      let (_, s) ← Hydrax.pageFault s address write
      return s

/-- What may happen between two calls: tasks are created, switched and ended, mappings are recorded,
files and memory are written. -/
def Between (s s' : State) : Prop :=
  ∃ tasks current live pid tid procfs refs infos mem vfs ok, s' = { s with
    tasks := tasks, currentTask := current, live := live, nextPid := pid, nextTid := tid
    procfs := procfs, nodeRefs := refs, mmapInfos := infos, mem := mem, vfsRead := vfs
    mallocOk := ok }

/-- The states that runs from the end of `mmu_init` reach. -/
inductive Reachable (b : Boot) : State → Prop where
  | boot {s : State} (h : mmuInit b = .ok s) : Reachable b s
  | call {s s' : State} (c : Call) (hs : Reachable b s) (h : c.exec s = .ok s') : Reachable b s'
  | between {s s' : State} (hs : Reachable b s) (h : Between s s') : Reachable b s'

/-! ## Kernel memory and user mode -/

/-- The pages of the section that user code may run. -/
def Boot.isUcode (b : Boot) (v : Nat) : Prop := b.ucode ≤ v * pageSize ∧ v * pageSize < b.ucodeEnd

/-- No page of the kernel that is there can be accessed in user mode, but for the `ucode` section. -/
def KernelPrivate (b : Boot) (s : State) : Prop :=
  ∀ v < s.kernelMemmap.length, (s.entry .kernel v).present = true → ¬ b.isUcode v →
    (s.entry .kernel v).user = false

theorem allocatedPage_user (flags f : Nat) (p : Page) :
    (allocatedPage (pageFlags flags) f p).user = true := by
  simp only [allocatedPage, pageFlags_kernel]
  split <;> rfl

theorem Booted.not_private {b : Boot} {a : Nat} {s : State} (h : Booted b a s) :
    ¬ KernelPrivate b s := by
  intro hprivate
  obtain ⟨f, hentry⟩ := h.directory
  have howned := h.inv.dirs_owned a (by simp)
  have hoff : ¬ b.isUcode (a / pageSize) := by
    rintro ⟨-, hlt⟩
    have hdiv : a / pageSize * pageSize = a :=
      Nat.div_mul_cancel (Nat.dvd_of_mod_eq_zero howned.aligned)
    have := h.above
    have := b.ucodeEnd_le
    omega
  have := hprivate (a / pageSize) howned.lt (by rw [hentry]) hoff
  rw [hentry] at this
  cases this

/-- **Kernel memory is open to user mode.** The first state of every run breaks the rule, and so does
every later allocation of kernel memory, on every page it hands out. -/
theorem kernel_memory_never_private (b : Boot) :
    (∃ s, Reachable b s ∧ ¬ KernelPrivate b s) ∧
      ∀ (s s' : State) (L : List Nat) (sz flags r : Nat) (mmap phys : Option Nat), Inv s L →
        hasFlag flags kallocOptnKernel = true → sz < wordSize →
        kalloc s sz 0 flags mmap = .ok (r, phys, s') → r ≠ 0 →
        ∀ v, inRange (r / pageSize) (kallocPages sz) v = true → (s'.entry .kernel v).user = true := by
  constructor
  · obtain ⟨a, s, hinit, hB⟩ := mmuInit_ok b
    exact ⟨s, .boot hinit, hB.not_private⟩
  · intro s s' L sz flags r mmap phys hI hk hsz h hr v hv
    rcases kalloc_kernel hI hk hsz h with ⟨h0, -⟩ | ⟨-, hK⟩
    · exact absurd h0 hr
    · obtain ⟨f, hentry, -, -⟩ := hK.entry v hv
      rw [hentry]
      exact allocatedPage_user flags f _

/-- The kernel heap of a small machine is handed out that way. -/
theorem kernel_memory_never_private_heap :
    ∃ s s' r phys, mmuInit Boot.small = .ok s ∧
      kalloc s kheapInitialSize 0 (kallocOptnAlign ||| kallocOptnKernel) = .ok (r, phys, s') ∧
      r ≠ 0 ∧ ∀ v, inRange (r / pageSize) (kallocPages kheapInitialSize) v = true →
        (s'.entry .kernel v).user = true := by
  obtain ⟨a, s, hinit, hB⟩ := mmuInit_ok Boot.small
  obtain ⟨N, M, hroom, hN, hM⟩ := hB.room
  have hflag : hasFlag (kallocOptnAlign ||| kallocOptnKernel) kallocOptnKernel = true := rfl
  obtain ⟨r, phys, s', halloc, hr, -, -⟩ := kalloc_kernel_ok (allocTableWith noTable)
    kheapInitialSize none hB.inv hflag hroom (show pageCount kheapInitialSize = 512 from rfl)
    (by decide) (by omega) (by omega)
  exact ⟨s, s', r, phys, hinit, halloc, hr, (kernel_memory_never_private Boot.small).2 s s' [a]
    kheapInitialSize _ r none phys hB.inv hflag (by decide) halloc hr⟩

/-- The state that `mmu_init` leaves on a small machine has a page of the kernel that user mode can
write to. -/
theorem kernel_not_private_at_boot :
    ∃ s, mmuInit Boot.small = .ok s ∧ ¬ KernelPrivate Boot.small s := by
  obtain ⟨a, s, hinit, hB⟩ := mmuInit_ok Boot.small
  exact ⟨s, hinit, hB.not_private⟩

end Hydrax
