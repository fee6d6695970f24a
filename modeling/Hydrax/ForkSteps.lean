import Hydrax.Fork
import Hydrax.Mmu.Process

/-!
# The steps of `mmap` and `fork`

`fork` clones the directory and then allocates what else the child needs. Of these later steps only
two touch a page table, and only entries of free kernel pages: the child's bitmap and its kernel
stack. The others change lists and counters (`Bookkeeping`).

* `fork_ends` takes a call that made a child apart, `fork_ok` shows that it does when there is
  room.
* `mmap_cases` and `mmap_ok` do the same for `mmap`.
-/

namespace Hydrax

open Loop

variable {L : List Nat} {M N dir pagemap phys stack : Nat} {m : MmapInfo}

/-! ## Lists and counters -/

def Bookkeeping (s s' : State) : Prop :=
  ∃ tasks live procfs refs infos k, s' = { s with
    tasks := tasks, live := live, procfs := procfs, nodeRefs := refs, mmapInfos := infos
    mallocs := k }

theorem Bookkeeping.refl (s : State) : Bookkeeping s s := ⟨_, _, _, _, _, _, rfl⟩

theorem Bookkeeping.trans {s₁ s₂ s₃ : State} (h : Bookkeeping s₁ s₂) (h' : Bookkeeping s₂ s₃) :
    Bookkeeping s₁ s₃ := by
  obtain ⟨_, _, _, _, _, _, rfl⟩ := h
  obtain ⟨_, _, _, _, _, _, rfl⟩ := h'
  exact ⟨_, _, _, _, _, _, rfl⟩

section Bookkeeping

variable {s s' : State} (h : Bookkeeping s s')

include h

theorem Bookkeeping.entry (d : DirRef) (v : Nat) :
    s'.entry d v = s.entry d v ∧ s'.record d v = s.record d v := by
  obtain ⟨_, _, _, _, _, _, rfl⟩ := h
  exact ⟨rfl, rfl⟩

theorem Bookkeeping.inv (hI : Inv s L) : Inv s' L := by
  obtain ⟨_, _, _, _, _, _, rfl⟩ := h
  exact hI.congr rfl

theorem Bookkeeping.room (hroom : Room s N M) : Room s' N M := by
  obtain ⟨_, _, _, _, _, _, rfl⟩ := h
  exact ⟨hroom.pages, hroom.frames, hroom.malloc, hroom.out⟩

theorem Bookkeeping.kernelMemmap : s'.kernelMemmap = s.kernelMemmap := by
  obtain ⟨_, _, _, _, _, _, rfl⟩ := h
  rfl

theorem Bookkeeping.mallocOk : s'.mallocOk = s.mallocOk := by
  obtain ⟨_, _, _, _, _, _, rfl⟩ := h
  rfl

end Bookkeeping

theorem malloc_state {s s' : State} {r : Option Nat} (h : s.malloc = (r, s')) :
    s' = { s with mallocs := s.mallocs + 1 } := by
  rw [State.malloc] at h
  split at h <;> exact (Prod.mk.inj h).2.symm

theorem bookkeeping_malloc {s s' : State} {r : Option Nat} (h : s.malloc = (r, s')) :
    Bookkeeping s s' := by
  rw [malloc_state h]
  exact ⟨_, _, _, _, _, _, rfl⟩

theorem bookkeeping_setTask (s : State) (task : Task) : Bookkeeping s (s.setTask task) :=
  ⟨_, _, _, _, _, _, rfl⟩

theorem bookkeeping_cloneDescriptors {l : List File} {s s' : State} {ok : Bool}
    (h : cloneDescriptors l s = (ok, s')) : Bookkeeping s s' := by
  induction l generalizing s with
  | nil =>
    rw [cloneDescriptors] at h
    rw [← (Prod.mk.inj h).2]
    exact .refl s
  | cons f l ih =>
    rw [cloneDescriptors] at h
    split at h
    next hm =>
      rw [← (Prod.mk.inj h).2]
      exact (bookkeeping_malloc hm).trans (bookkeeping_setTask _ _)
    next hm => exact (bookkeeping_malloc hm).trans (.trans ⟨_, _, _, _, _, _, rfl⟩ (ih h))

theorem bookkeeping_cloneDescriptorTable {s s' : State} {ok : Bool}
    (h : cloneDescriptorTable s = (ok, s')) : Bookkeeping s s' := by
  rw [cloneDescriptorTable] at h
  split at h
  next hm =>
    rw [← (Prod.mk.inj h).2]
    exact (bookkeeping_malloc hm).trans (bookkeeping_setTask _ _)
  next hm => exact (bookkeeping_malloc hm).trans (bookkeeping_cloneDescriptors h)

theorem bookkeeping_copyMmap {s s' : State} {m m' : Nat} (h : copyMmap s m = .ok (m', s')) :
    Bookkeeping s s' := by
  rw [copyMmap] at h
  split at h
  next => cases h
  next hm =>
    cases h
    exact (bookkeeping_malloc hm).trans ⟨_, _, _, _, _, _, rfl⟩

theorem bookkeeping_copyBuffer {acc acc' : Copied × State} {b : Buffer}
    (h : copyBuffer acc b = .ok acc') : Bookkeeping acc.2 acc'.2 := by
  obtain ⟨c, s⟩ := acc
  rw [copyBuffer] at h
  dsimp only at h
  cases hm : s.malloc with
  | mk buf s₁ =>
    rw [hm, bind_eq_ok] at h
    obtain ⟨_, -, h⟩ := h
    have hbook := bookkeeping_malloc hm
    cases hb : b.mmap with
    | none =>
      rw [hb] at h
      cases h
      exact hbook
    | some m =>
      rw [hb] at h
      dsimp only at h
      rw [bind_eq_ok] at h
      obtain ⟨⟨m', s₂⟩, hcopy, h⟩ := h
      cases h
      exact hbook.trans (bookkeeping_copyMmap hcopy)

theorem bookkeeping_copyBuffers {c : Copied} {s s' : State} (h : copyBuffers s = .ok (c, s')) :
    Bookkeeping s s' := by
  rw [copyBuffers] at h
  exact foldlM_rel (fun acc acc' => Bookkeeping acc.2 acc'.2) (fun acc => .refl acc.2)
    (fun _ _ _ => .trans) (fun _ _ _ _ => bookkeeping_copyBuffer) h

theorem forkTask_state {s s' : State} {pid tid : Nat}
    (h : forkTask s pid tid dir phys pagemap stack = .ok s') :
    Bookkeeping s s' ∧ (s'.tasks tid).directory = .heap dir := by
  rw [forkTask, bind_eq_ok] at h
  obtain ⟨⟨c, s₁⟩, hcopy, h⟩ := h
  dsimp only at h
  cases h
  have hbook := bookkeeping_copyBuffers hcopy
  refine ⟨hbook.trans ⟨_, _, _, _, _, _, rfl⟩, ?_⟩
  simp only [Function.update_self]

/-! ## How `fork` ends -/

/-- The state in which `fork` starts to allocate: the ids are taken. -/
def State.takeIds (s : State) : State :=
  { s with nextPid := s.nextPid + 1, nextTid := s.nextTid + 1 }

theorem Inv.takeIds {s : State} (hI : Inv s L) : Inv s.takeIds L :=
  hI.congr rfl

/-- The directory was cloned, and the two small blocks after it were allocated. -/
structure ForkBegun (s : State) (dir phys : Nat) (s' : State) : Prop where
  stages : ∃ s₁ s₂ a b, mmuCloneDirectory s.takeIds s.currentDirectory cloneCow =
      .ok (dir, phys, s₁) ∧ s₁.malloc = (some a, s₂) ∧ s₂.malloc = (some b, s')
  ne_zero : dir ≠ 0

/-- The child's bitmap was allocated too. -/
structure ForkMapped (s : State) (dir phys pagemap : Nat) (s' : State) : Prop where
  begun : ∃ s₁, ForkBegun s dir phys s₁ ∧
    memmapClone s₁ (s₁.tasks s₁.currentTask).memmap = .ok (pagemap, s')
  ne_zero : pagemap ≠ 0

/-- And so was its stack. -/
structure ForkStacked (s : State) (dir phys pagemap stack : Nat) (s' : State) : Prop where
  mapped : ∃ s₁ p, ForkMapped s dir phys pagemap s₁ ∧
    kalloc s₁ schedKernelStackSize 0 (kallocOptnAlign ||| kallocOptnKernel) = .ok (stack, p, s')
  ne_zero : stack ≠ 0

/-- How `fork` ends: at one of its allocations, or with a child. -/
inductive ForkEnds (s : State) : Int → State → Prop where
  | noDirectory {phys : Nat} {s' : State}
      (clone : mmuCloneDirectory s.takeIds s.currentDirectory cloneCow = .ok (0, phys, s')) :
      ForkEnds s enomem s'
  | noTask {dir phys : Nat} {s₁ s₂ s' : State}
      (clone : mmuCloneDirectory s.takeIds s.currentDirectory cloneCow = .ok (dir, phys, s₁))
      (hdir : dir ≠ 0) (full : s₁.malloc = (none, s₂))
      (destroy : mmuDestroyDirectory s₂ dir = .ok s') : ForkEnds s enomem s'
  | noMemmap {dir phys a : Nat} {s₁ s₂ s₃ s' : State}
      (clone : mmuCloneDirectory s.takeIds s.currentDirectory cloneCow = .ok (dir, phys, s₁))
      (hdir : dir ≠ 0) (task : s₁.malloc = (some a, s₂)) (full : s₂.malloc = (none, s₃))
      (destroy : mmuDestroyDirectory s₃ dir = .ok s') : ForkEnds s enomem s'
  | noPages {dir phys : Nat} {s₁ s₂ s' : State} (begun : ForkBegun s dir phys s₁)
      (full : memmapClone s₁ (s₁.tasks s₁.currentTask).memmap = .ok (0, s₂))
      (destroy : mmuDestroyDirectory s₂ dir = .ok s') : ForkEnds s enomem s'
  | noStack {dir phys pagemap : Nat} {p : Option Nat} {s₁ s₂ s₃ s' : State}
      (mapped : ForkMapped s dir phys pagemap s₁)
      (full : kalloc s₁ schedKernelStackSize 0 (kallocOptnAlign ||| kallocOptnKernel) =
        .ok (0, p, s₂))
      (free : kfree s₂ pagemap = .ok s₃) (destroy : mmuDestroyDirectory s₃ dir = .ok s') :
      ForkEnds s enomem s'
  | noNode {dir phys pagemap stack : Nat} {s₁ s₂ s₃ s₄ s' : State}
      (stacked : ForkStacked s dir phys pagemap stack s₁) (full : s₁.malloc = (none, s₂))
      (destroy : mmuDestroyDirectory s₂ dir = .ok s₃) (free : kfree s₃ pagemap = .ok s₄)
      (free' : kfree s₄ stack = .ok s') : ForkEnds s enomem s'
  | child {dir phys pagemap stack a : Nat} {s₁ s₂ s₃ s' : State}
      (stacked : ForkStacked s dir phys pagemap stack s₁) (node : s₁.malloc = (some a, s₂))
      (files : cloneDescriptorTable { s₂ with procfs := s₂.procfs ++ [s.nextTid] } = (true, s₃))
      (task : forkTask s₃ s.nextPid s.nextTid dir phys pagemap stack = .ok s') :
      ForkEnds s s.nextPid s'

theorem fork_ends {s s' : State} {ret : Int} (h : fork s = .ok (ret, s')) : ForkEnds s ret s' := by
  rw [fork] at h
  dsimp only at h
  rw [bind_eq_ok] at h
  obtain ⟨⟨dir, phys, s₁⟩, hclone, h⟩ := h
  dsimp only at h
  split at h
  next hdir =>
    subst hdir
    cases h
    exact .noDirectory hclone
  next hdir =>
    split at h
    next hm₁ =>
      rw [bind_eq_ok] at h
      obtain ⟨_, hdestroy, h⟩ := h
      cases h
      exact .noTask hclone hdir hm₁ hdestroy
    next hm₁ =>
      split at h
      next hm₂ =>
        rw [bind_eq_ok] at h
        obtain ⟨_, hdestroy, h⟩ := h
        cases h
        exact .noMemmap hclone hdir hm₁ hm₂ hdestroy
      next hm₂ =>
        have hbegun : ForkBegun s dir phys _ := ⟨⟨_, _, _, _, hclone, hm₁, hm₂⟩, hdir⟩
        rw [bind_eq_ok] at h
        obtain ⟨⟨pagemap, s₃⟩, hmemmap, h⟩ := h
        dsimp only at h
        split at h
        next hp =>
          subst hp
          rw [bind_eq_ok] at h
          obtain ⟨_, hdestroy, h⟩ := h
          cases h
          exact .noPages hbegun hmemmap hdestroy
        next hp =>
          have hmapped : ForkMapped s dir phys pagemap s₃ := ⟨⟨_, hbegun, hmemmap⟩, hp⟩
          rw [bind_eq_ok] at h
          obtain ⟨⟨stack, p, s₄⟩, hstack, h⟩ := h
          dsimp only at h
          split at h
          next hs =>
            subst hs
            rw [bind_eq_ok] at h
            obtain ⟨_, hfree, h⟩ := h
            rw [bind_eq_ok] at h
            obtain ⟨_, hdestroy, h⟩ := h
            cases h
            exact .noStack hmapped hstack hfree hdestroy
          next hs =>
            have hstacked : ForkStacked s dir phys pagemap stack s₄ := ⟨⟨_, _, hmapped, hstack⟩, hs⟩
            split at h
            next hm₃ =>
              rw [bind_eq_ok] at h
              obtain ⟨_, hdestroy, h⟩ := h
              rw [bind_eq_ok] at h
              obtain ⟨_, hfree, h⟩ := h
              rw [bind_eq_ok] at h
              obtain ⟨_, hfree', h⟩ := h
              cases h
              exact .noNode hstacked hm₃ hdestroy hfree hfree'
            next hm₃ =>
              split at h
              next => cases h
              next hok =>
                rw [bind_eq_ok] at h
                obtain ⟨_, htask, h⟩ := h
                cases h
                exact .child hstacked hm₃ (Prod.ext (by simpa using hok) rfl) htask

/-! ## The address spaces after a fork -/

/-- The pages of user space are as they were, in every space of `L`. -/
def SameUserPages (L : List Nat) (s s' : State) : Prop :=
  s'.kernelMemmap.length = s.kernelMemmap.length ∧
    ∀ d ∈ spaces L, ∀ v < 1048576, s.kernelMemmap.length ≤ v →
      s'.entry d v = s.entry d v ∧ s'.record d v = s.record d v

theorem SameUserPages.trans {s₁ s₂ s₃ : State} (h : SameUserPages L s₁ s₂)
    (h' : SameUserPages L s₂ s₃) : SameUserPages L s₁ s₃ := by
  refine ⟨h'.1.trans h.1, fun d hd v hv hle => ?_⟩
  have h₁ := h.2 d hd v hv hle
  have h₂ := h'.2 d hd v hv (by rw [h.1]; exact hle)
  exact ⟨h₂.1.trans h₁.1, h₂.2.trans h₁.2⟩

theorem Bookkeeping.sameUserPages {s s' : State} (h : Bookkeeping s s') (L : List Nat) :
    SameUserPages L s s' :=
  ⟨by rw [h.kernelMemmap], fun d _ v _ _ => h.entry d v⟩

theorem kalloc_sameUserPages {s s' : State} {sz flags r : Nat}
    {mmap phys : Option Nat} (hI : Inv s L) (hk : hasFlag flags kallocOptnKernel = true)
    (hsz : sz < wordSize) (h : kalloc s sz 0 flags mmap = .ok (r, phys, s')) :
    Inv s' L ∧ SameUserPages L s s' := by
  rcases kalloc_kernel hI hk hsz h with ⟨-, rfl⟩ | ⟨-, hK⟩
  · exact ⟨hI, rfl, fun _ _ _ _ _ => ⟨rfl, rfl⟩⟩
  · exact ⟨hK.inv, hK.alloc.length, fun d hd v hv hle => hK.alloc.entry_eq hI hd hv (Or.inl hle)⟩

theorem ForkStacked.spaces {s s' : State}
    (h : ForkStacked s dir phys pagemap stack s') (hI : Inv s L)
    (hcur : s.currentDirectory ∈ spaces L) (hmap : FullMemmap s) :
    ∃ s₁, mmuCloneDirectory s.takeIds s.currentDirectory cloneCow = .ok (dir, phys, s₁) ∧ dir ≠ 0 ∧
      s₁.kernelMemmap.length = s.kernelMemmap.length ∧ Inv s' (dir :: L) ∧
      SameUserPages (dir :: L) s₁ s' := by
  obtain ⟨s₄, p, hmapped, hstack⟩ := h.mapped
  obtain ⟨s₃, hbegun, hpages⟩ := hmapped.begun
  obtain ⟨s₁, s₂, a, b, hclone, hm, hm'⟩ := hbegun.stages
  cases mmuCloneDirectory_cases hI.takeIds hcur rfl hclone with
  | full => exact absurd rfl hbegun.ne_zero
  | failed => exact absurd rfl hbegun.ne_zero
  | @made _ physmem s₀ _ _ alloc inv tables cloned inv' =>
    refine ⟨s₁, hclone, hbegun.ne_zero, cloned.length.trans alloc.alloc.length, ?_⟩
    have hbook : Bookkeeping s₁ s₃ := (bookkeeping_malloc hm).trans (bookkeeping_malloc hm')
    -- nothing touched the tasks since the call
    have htasks : (s₃.tasks s₃.currentTask).memmap.length = 1024 * 1024 := by
      rw [malloc_state hm', malloc_state hm]
      obtain ⟨_, _, _, _, _, _, _, _, _, rfl⟩ := cloned.step
      obtain ⟨_, _, _, _, _, _, _, rfl⟩ := alloc.alloc.step
      exact hmap
    rw [memmapClone, htasks, bind_eq_ok] at hpages
    obtain ⟨⟨r, phys', s₅⟩, hkalloc, hpages⟩ := hpages
    cases hpages
    obtain ⟨hI₄, hsame⟩ := kalloc_sameUserPages (hbook.inv inv') rfl (by decide) hkalloc
    obtain ⟨hI₅, hsame'⟩ := kalloc_sameUserPages hI₄ rfl (by decide) hstack
    exact ⟨hI₅, ((hbook.sameUserPages _).trans hsame).trans hsame'⟩

/-! ## A fork that has room -/

theorem malloc_of_ok {s : State} (h : ∀ k, s.mallocOk k = true) :
    s.malloc = (some (s.mallocs + 1), { s with mallocs := s.mallocs + 1 }) := by
  rw [State.malloc, h]
  rfl

theorem malloc_ok {s : State} (h : ∀ k, s.mallocOk k = true) :
    ∃ a s', s.malloc = (some a, s') :=
  ⟨_, _, malloc_of_ok h⟩

theorem cloneDescriptors_ok (l : List File) {s : State} (h : ∀ k, s.mallocOk k = true) :
    ∃ s', cloneDescriptors l s = (true, s') := by
  induction l generalizing s with
  | nil => exact ⟨s, rfl⟩
  | cons f l ih =>
    rw [cloneDescriptors, malloc_of_ok h]
    exact ih h

theorem cloneDescriptorTable_ok {s : State} (h : ∀ k, s.mallocOk k = true) :
    ∃ s', cloneDescriptorTable s = (true, s') := by
  rw [cloneDescriptorTable, malloc_of_ok h]
  exact cloneDescriptors_ok _ h

theorem copyMmap_ok {s : State} (m : Nat) (h : ∀ k, s.mallocOk k = true) :
    ∃ m' s', copyMmap s m = .ok (m', s') := by
  rw [copyMmap, malloc_of_ok h]
  exact ⟨_, _, rfl⟩

theorem copyBuffer_ok {acc : Copied × State} (b : Buffer) (h : ∀ k, acc.2.mallocOk k = true) :
    ∃ acc', copyBuffer acc b = .ok acc' := by
  obtain ⟨c, s⟩ := acc
  rw [copyBuffer]
  dsimp only
  rw [malloc_of_ok h]
  cases b.mmap with
  | none => exact ⟨_, rfl⟩
  | some m =>
    obtain ⟨m', s', hcopy⟩ := copyMmap_ok (s := { s with mallocs := s.mallocs + 1 }) m h
    refine ⟨(⟨c.buffers ++ [{ b with mmap := some m' }], c.mmaps ++ [m']⟩, s'), ?_⟩
    show (copyMmap _ m >>= _) = _
    rw [hcopy, ok_bind]
    rfl

theorem forkTask_ok {s : State} (pid tid dir phys pagemap stack : Nat)
    (h : ∀ k, s.mallocOk k = true) : ∃ s', forkTask s pid tid dir phys pagemap stack = .ok s' := by
  obtain ⟨⟨c, s₁⟩, hcopy, -⟩ := foldlM_ok (f := copyBuffer)
    (l := (s.tasks s.currentTask).buffers) (fun acc => ∀ k, acc.2.mallocOk k = true)
    (fun b _ acc hacc => by
      obtain ⟨acc', hb⟩ := copyBuffer_ok b hacc
      refine ⟨acc', hb, ?_⟩
      rw [(bookkeeping_copyBuffer hb).mallocOk]
      exact hacc) (s := (⟨[], []⟩, s)) h
  rw [forkTask, copyBuffers, hcopy]
  exact ⟨_, rfl⟩

theorem fork_of_child {s s₁ s₂ s₃ s' : State} {a : Nat}
    (stacked : ForkStacked s dir phys pagemap stack s₁) (node : s₁.malloc = (some a, s₂))
    (files : cloneDescriptorTable { s₂ with procfs := s₂.procfs ++ [s.nextTid] } = (true, s₃))
    (task : forkTask s₃ s.nextPid s.nextTid dir phys pagemap stack = .ok s') :
    fork s = .ok (s.nextPid, s') := by
  obtain ⟨t₄, p, hmapped, hstack⟩ := stacked.mapped
  obtain ⟨t₃, hbegun, hpages⟩ := hmapped.begun
  obtain ⟨t₁, t₂, b, c, hclone, hm, hm'⟩ := hbegun.stages
  rw [fork]
  dsimp only
  unfold State.takeIds State.currentDirectory at hclone
  unfold State.currentDirectory
  rw [hclone, ok_bind]
  dsimp only
  rw [if_neg hbegun.ne_zero, hm]
  dsimp only
  rw [hm']
  dsimp only
  rw [hpages, ok_bind]
  dsimp only
  rw [if_neg hmapped.ne_zero, hstack, ok_bind]
  dsimp only
  rw [if_neg stacked.ne_zero, node]
  dsimp only
  rw [files]
  dsimp only
  rw [if_neg (by simp), task]
  rfl

theorem forkStacked_ok {s : State} {k : Nat} (hI : Inv s L)
    (hcur : s.currentDirectory ∈ Hydrax.spaces L) (hmap : FullMemmap s) (hroom : Room s N M)
    (hok : ∀ j, s.mallocOk j = true)
    (hk : ownTables s s.currentDirectory (List.range tableSize) ≤ k)
    (hN : N + 50 + 3 * k ≤ s.kernelMemmap.length) (hM : M + 50 + 1027 * k ≤ 65536) :
    ∃ dir phys pagemap stack s', ForkStacked s dir phys pagemap stack s' ∧
      s'.mallocOk = s.mallocOk := by
  have hI₀ := hI.takeIds
  have hroom₀ : Room s.takeIds N M := ⟨hroom.pages, hroom.frames, hroom.malloc, hroom.out⟩
  obtain ⟨dir, phys, s₁, hclone, hdir, hroom₁⟩ := mmuCloneDirectory_ok hI₀ hcur
    (show hasFlag cloneCow cloneShare = false from rfl) hroom₀ hk
    (show N + 2 + 3 * k ≤ s.kernelMemmap.length by omega) (by omega)
  have hcloned : Inv s₁ (dir :: L) ∧ s₁.mallocOk = s.mallocOk ∧
      s₁.kernelMemmap.length = s.kernelMemmap.length ∧
      (s₁.tasks s₁.currentTask).memmap.length = 1024 * 1024 := by
    cases mmuCloneDirectory_cases hI₀ hcur rfl hclone with
    | full => exact absurd rfl hdir
    | failed => exact absurd rfl hdir
    | @made _ physmem s₀ _ _ alloc inv tables cloned inv' =>
      refine ⟨inv', ?_, cloned.length.trans alloc.alloc.length, ?_⟩
      all_goals
        obtain ⟨_, _, _, _, _, _, _, _, _, rfl⟩ := cloned.step
        obtain ⟨_, _, _, _, _, _, _, rfl⟩ := alloc.alloc.step
      · rfl
      · exact hmap
  obtain ⟨hI₁, hok₁, hlen₁, hmap₁⟩ := hcloned
  have hok₁' : ∀ j, s₁.mallocOk j = true := by rwa [hok₁]
  -- the blocks for the task and for its bitmap
  obtain ⟨x, s₂, hm⟩ := malloc_ok hok₁'
  obtain ⟨y, s₃, hm'⟩ := malloc_ok (s := s₂) (by rwa [(bookkeeping_malloc hm).mallocOk])
  have hbegun : ForkBegun s dir phys s₃ := ⟨⟨s₁, s₂, x, y, hclone, hm, hm'⟩, hdir⟩
  have hbook : Bookkeeping s₁ s₃ := (bookkeeping_malloc hm).trans (bookkeeping_malloc hm')
  have hlen₃ : s₃.kernelMemmap.length = s.kernelMemmap.length := by rw [hbook.kernelMemmap, hlen₁]
  have hmap₃ : (s₃.tasks s₃.currentTask).memmap.length = 1024 * 1024 := by
    rw [malloc_state hm', malloc_state hm]
    exact hmap₁
  -- the words of the bitmap
  obtain ⟨pagemap, p, s₄, hpages, hp, hK, hroom₄⟩ := kalloc_kernel_ok (allocTableWith noTable)
    131072 none (hbook.inv hI₁) (show hasFlag kallocOptnKernel kallocOptnKernel = true from rfl)
    (hbook.room hroom₁) (show pageCount 131072 = 32 from rfl) (by decide)
    (by rw [hlen₃]; omega) (by omega)
  have hmapped : ForkMapped s dir phys pagemap s₄ := by
    refine ⟨⟨s₃, hbegun, ?_⟩, hp⟩
    rw [memmapClone, hmap₃]
    show (kallocBody _ s₃ 131072 0 kallocOptnKernel none >>= _) = _
    rw [hpages]
    rfl
  -- the stack
  obtain ⟨stack, q, s₅, hstack, hs, hK', -⟩ := kalloc_kernel_ok (allocTableWith noTable)
    schedKernelStackSize none hK.inv
    (show hasFlag (kallocOptnAlign ||| kallocOptnKernel) kallocOptnKernel = true from rfl) hroom₄
    (show pageCount schedKernelStackSize = 16 from rfl) (by decide)
    (by rw [hK.alloc.length, hlen₃]; omega) (by omega)
  refine ⟨dir, phys, pagemap, stack, s₅, ⟨⟨s₄, q, hmapped, hstack⟩, hs⟩, ?_⟩
  rw [hK'.alloc.step.mallocOk, hK.alloc.step.mallocOk, hbook.mallocOk, hok₁]

theorem fork_ok {s : State} {k : Nat} (hI : Inv s L)
    (hcur : s.currentDirectory ∈ Hydrax.spaces L) (hmap : FullMemmap s) (hroom : Room s N M)
    (hok : ∀ j, s.mallocOk j = true)
    (hk : ownTables s s.currentDirectory (List.range tableSize) ≤ k)
    (hN : N + 50 + 3 * k ≤ s.kernelMemmap.length) (hM : M + 50 + 1027 * k ≤ 65536) :
    ∃ s', fork s = .ok (s.nextPid, s') := by
  obtain ⟨dir, phys, pagemap, stack, s₁, hstacked, hok₁⟩ :=
    forkStacked_ok hI hcur hmap hroom hok hk hN hM
  obtain ⟨a, s₂, hnode⟩ := malloc_ok (s := s₁) (by rwa [hok₁])
  have hok₂ : s₂.mallocOk = s.mallocOk := by rw [(bookkeeping_malloc hnode).mallocOk, hok₁]
  obtain ⟨s₃, hfiles⟩ := cloneDescriptorTable_ok
    (s := { s₂ with procfs := s₂.procfs ++ [s.nextTid] }) (by rwa [hok₂])
  have hok₃ : s₃.mallocOk = s.mallocOk := by
    rw [(bookkeeping_cloneDescriptorTable hfiles).mallocOk]
    exact hok₂
  obtain ⟨s', htask⟩ := forkTask_ok (s := s₃) s.nextPid s.nextTid dir phys pagemap stack
    (by rwa [hok₃])
  exact ⟨s', fork_of_child hstacked hnode hfiles htask⟩

/-! ## `mmap` -/

/-- The state in which `mmap` calls `kalloc`: the record of the mapping is filled in. -/
def State.newMmap (s : State) (info : MmapInfo) : State :=
  { s with mallocs := s.mallocs + 1
           mmapInfos := Function.update s.mmapInfos (s.mallocs + 1) info }

theorem bookkeeping_newMmap (s : State) (info : MmapInfo) : Bookkeeping s (s.newMmap info) :=
  ⟨_, _, _, _, _, _, rfl⟩

/-- The size and the address that `mmap` asks `kalloc` for. -/
def mmapSize (addr len : Nat) : Nat := (len + addr % pageSize) % wordSize
def mmapStart (addr : Nat) : Nat := addr - addr % pageSize

/-- A successful `mmap`: the record is `m`, and its pages are those of a buffer that points to it. -/
structure Mmapped (s s' : State) (m : MmapInfo) (ap : Nat) : Prop where
  kind : hasFlag m.flags (mapShared ||| mapPrivate) = true
  file : (s.tasks s.currentTask).files.any (fun f => f.fd == m.fd) = true
  alloc : ∃ phys s₁, kalloc (s.newMmap m) (mmapSize m.addr m.len) (mmapStart m.addr)
      (mmapKflags m.prot m.flags) (some (s.mallocs + 1)) = .ok (ap, phys, s₁) ∧
    s' = s₁.setTask { s₁.tasks s₁.currentTask with
      mmaps := (s₁.tasks s₁.currentTask).mmaps ++ [s.mallocs + 1] }

theorem mmap_cases {s s' : State} {ap : Nat}
    (h : mmap s m.addr m.len m.prot m.flags m.fd m.offset = .ok (ap, s')) :
    ap = 0 ∨ (ap ≠ 0 ∧ Mmapped s s' m ap) := by
  rw [mmap] at h
  split at h
  next => cases h; exact Or.inl rfl
  next hkind =>
    split at h
    next => cases h; exact Or.inl rfl
    next hfile =>
      split at h
      next => cases h; exact Or.inl rfl
      next info s₀ hm =>
        have hs₀ := malloc_state hm
        have hinfo : info = s.mallocs + 1 := by
          rw [State.malloc] at hm
          split at hm
          · exact (Option.some.inj (Prod.mk.inj hm).1).symm
          · cases (Prod.mk.inj hm).1
        subst hs₀ hinfo
        rw [bind_eq_ok] at h
        obtain ⟨⟨ap', phys, s₁⟩, halloc, h⟩ := h
        dsimp only at h
        split at h
        next => cases h; exact Or.inl rfl
        next hap =>
          cases h
          exact Or.inr ⟨hap, by simpa using hkind, by simpa using hfile, phys, s₁, halloc, rfl⟩

theorem mmap_ok {s s₁ : State} {ap : Nat} {phys : Option Nat}
    (hkind : hasFlag m.flags (mapShared ||| mapPrivate) = true)
    (hfile : (s.tasks s.currentTask).files.any (fun f => f.fd == m.fd) = true)
    (hmalloc : s.mallocOk s.mallocs = true)
    (halloc : kalloc (s.newMmap m) (mmapSize m.addr m.len) (mmapStart m.addr)
      (mmapKflags m.prot m.flags) (some (s.mallocs + 1)) = .ok (ap, phys, s₁)) (hap : ap ≠ 0) :
    mmap s m.addr m.len m.prot m.flags m.fd m.offset = .ok (ap, s₁.setTask
      { s₁.tasks s₁.currentTask with
        mmaps := (s₁.tasks s₁.currentTask).mmaps ++ [s.mallocs + 1] }) := by
  have hm : s.malloc = (some (s.mallocs + 1), { s with mallocs := s.mallocs + 1 }) := by
    rw [State.malloc, hmalloc]
    rfl
  rw [mmap, if_neg (by simp [hkind]), if_neg (by simp [hfile]), hm]
  dsimp only
  unfold State.newMmap mmapSize mmapStart at halloc
  rw [halloc, ok_bind]
  dsimp only
  rw [if_neg hap]
  rfl

theorem mmapKflags_kernel (prot flags : Nat) :
    hasFlag (mmapKflags prot flags) kallocOptnKernel = false := by
  simp only [mmapKflags]
  split <;> split <;> rfl

theorem mmapKflags_mmap (prot flags : Nat) :
    hasFlag (mmapKflags prot flags) kallocOptnMmap = true := by
  simp only [mmapKflags]
  split <;> split <;> rfl

theorem Process.mmap_ok {s : State} {a n : Nat}
    (hP : Process s a L) (hkind : hasFlag m.flags (mapShared ||| mapPrivate) = true)
    (hfile : (s.tasks s.currentTask).files.any (fun f => f.fd == m.fd) = true)
    (hok : ∀ k, s.mallocOk k = true) (hn : pageCount (mmapSize m.addr m.len) = n)
    (hsz : 0 < mmapSize m.addr m.len) (h0 : mmapStart m.addr ≠ 0)
    (hfit : mmapStart m.addr + n * pageSize < wordSize)
    (hfree : ∀ p, inRange (mmapStart m.addr / pageSize) n p = true →
      (s.tasks s.currentTask).memmap.used p = false)
    (hroom : Room s N M) (hN : N + 3 * n ≤ s.kernelMemmap.length) (hM : M + 4 * n ≤ 65536) :
    ∃ s₁ s', mmap s m.addr m.len m.prot m.flags m.fd m.offset = .ok (mmapStart m.addr, s') ∧
      UserAllocated (s.newMmap m) s₁ a L (mmapStart m.addr) n (mmapKflags m.prot m.flags)
        (some (s.mallocs + 1)) ∧
      s' = s₁.setTask { s₁.tasks s₁.currentTask with
        mmaps := (s₁.tasks s₁.currentTask).mmaps ++ [s.mallocs + 1] } ∧
      Process s' a L ∧ Room s' (N + 3 * n) (M + 4 * n) := by
  have hbook := bookkeeping_newMmap s m
  have hP₀ : Process (s.newMmap m) a L :=
    ⟨hbook.inv hP.inv, hP.mem, hP.current, hP.complete, hP.kernelPages, hP.full⟩
  have halign : mmapStart m.addr % pageSize = 0 := by
    simp only [mmapStart, pageSize]
    omega
  obtain ⟨phys, s₁, halloc, hU, hroom₁⟩ := hP₀.kalloc_ok (mmapSize m.addr m.len)
    (mmapStart m.addr) _ (some (s.mallocs + 1)) (mmapKflags_kernel m.prot m.flags) hn hsz h0
    halign hfit hfree (hbook.room hroom) hN hM
  refine ⟨s₁, _, Hydrax.mmap_ok hkind hfile (hok _) halloc h0, hU, rfl,
    (hU.process hP₀).setTask rfl rfl, ?_⟩
  exact ⟨hroom₁.pages, hroom₁.frames, hroom₁.malloc, hroom₁.out⟩

end Hydrax
