import Hydrax.Machine

/-!
# The kernel stack of a child

`arch_scheduler_move_the_fucking_task_stack` of `kernel/arch/x86/scheduler.c`, which `kfork` calls
to give a new task a copy of the kernel stack it runs on. Words that point into the part of the stack
in use are moved by the distance of the two stacks.

The copy goes down from the top word and stops when it gets to the stack pointer, before the word
there is copied (`moveTaskStack_relocates_iff`).
-/

namespace Hydrax.StackCopy

open Function (update)

/-- `SCHED_KERNEL_STACK_SIZE`. -/
def schedKernelStackSize : Nat := 0x10000

/-- `ARCH_STACK_START`: the top word of the stack that the first task runs on. -/
def archStackStart : Nat := 0xDFFFFFFC

/-- `ARCH_STACK_INITIAL_SIZE`. -/
def archStackInitialSize : Nat := 0x8000

structure Task where
  id : Nat
  kernelStack : Nat
  esp : Nat
  ebp : Nat
  registers : Nat

abbrev Mem := Nat → Nat

def addWord (x : Nat) (d : Int) : Nat := ((x + d) % (wordSize : Int)).toNat

/-- `--p` for a pointer to words. -/
def wordBefore (p : Nat) : Nat := (p + (wordSize - 4)) % wordSize

def topOf (kernelStack : Nat) : Nat := (kernelStack + (schedKernelStackSize - 4)) % wordSize

def Task.stackTop (t : Task) : Nat := if t.id = 0 then archStackStart else topOf t.kernelStack

/-- A word of the copy: one that points into the stack is moved. -/
def moved (start stack2End : Nat) (tmpi : Int) (w : Nat) : Nat :=
  if w ≤ start ∧ w ≥ stack2End then addWord w tmpi else w

/-- "while ((uint32_t) stack != stack_end && (uint32_t) stack2 != stack2_end)". -/
def copyLoop (start stackEnd stack2End : Nat) (tmpi : Int) :
    Nat → Nat → Nat → Mem → Except Stop Mem
  | 0, _, _, _ => .error .hang
  | fuel + 1, stack, stack2, mem =>
    if stack ≠ stackEnd ∧ stack2 ≠ stack2End then
      copyLoop start stackEnd stack2End tmpi fuel (wordBefore stack) (wordBefore stack2)
        (update mem stack (moved start stack2End tmpi (mem stack2)))
    else .ok mem

/-- `arch_scheduler_move_the_fucking_task_stack`. The stack pointer of the new task is the one that
the current task had when its state was saved. -/
def archSchedulerMoveTheFuckingTaskStack (mem : Mem) (currentTask newTask : Task) :
    Except Stop (Mem × Task) := do
  let stackEnd := newTask.kernelStack
  let stack := topOf stackEnd
  let stack2 := currentTask.stackTop
  let stack2End := newTask.esp
  let tmpi : Int := (stack : Int) - stack2
  let mem ← copyLoop stack2 stackEnd stack2End tmpi wordSize stack stack2 mem
  return (mem, { newTask with
    registers := addWord currentTask.registers tmpi
    esp := addWord newTask.esp tmpi
    ebp := addWord newTask.ebp tmpi })

/-! ## What the copy should be -/

/-- The lowest word of the stack that a task runs on. -/
def Task.stackBase (t : Task) : Nat :=
  if t.id = 0 then archStackStart + 4 - archStackInitialSize else t.kernelStack

def displacement (currentTask newTask : Task) : Int :=
  (topOf newTask.kernelStack : Int) - currentTask.stackTop

/-- The stacks are two blocks of words, and the saved stack pointer is in that of the current
task. -/
structure Layout (currentTask newTask : Task) : Prop where
  parent : currentTask.id ≠ 0 →
    currentTask.kernelStack % 4 = 0 ∧ currentTask.kernelStack + schedKernelStackSize ≤ wordSize
  childAligned : newTask.kernelStack % 4 = 0
  child : newTask.kernelStack + schedKernelStackSize ≤ wordSize
  apart : newTask.kernelStack + schedKernelStackSize ≤ currentTask.stackBase ∨
    currentTask.stackTop < newTask.kernelStack
  espAligned : newTask.esp % 4 = 0
  esp : currentTask.stackBase ≤ newTask.esp ∧ newTask.esp ≤ currentTask.stackTop

/-- An address of a word in the part of the stack in use. -/
def InUse (currentTask newTask : Task) (a : Nat) : Prop :=
  newTask.esp ≤ a ∧ a ≤ currentTask.stackTop ∧ a % 4 = 0

/-- The frames that the saved frame pointers lead to. -/
def frames (mem : Mem) (ebp : Nat) : Nat → Nat
  | 0 => ebp
  | n + 1 => mem (frames mem ebp n)

/-- **A relocated copy of the stack**: each word down to the one at the stack pointer is at the same
distance from the top, moved if it points into the stack, the pointers of the task are moved, and
the frame pointers lead to the images of the frames. -/
structure Relocated (mem : Mem) (currentTask newTask : Task) (mem' : Mem) (newTask' : Task) :
    Prop where
  words : ∀ d, d % 4 = 0 → newTask.esp + d ≤ currentTask.stackTop →
    mem' (topOf newTask.kernelStack - d) = moved currentTask.stackTop newTask.esp
      (displacement currentTask newTask) (mem (currentTask.stackTop - d))
  esp : newTask'.esp = addWord newTask.esp (displacement currentTask newTask)
  ebp : newTask'.ebp = addWord newTask.ebp (displacement currentTask newTask)
  registers : newTask'.registers =
    addWord currentTask.registers (displacement currentTask newTask)
  frames : ∀ n, (∀ k ≤ n, InUse currentTask newTask (frames mem newTask.ebp k)) →
    StackCopy.frames mem' newTask'.ebp n =
      addWord (StackCopy.frames mem newTask.ebp n) (displacement currentTask newTask)

/-! ## The loop -/

theorem wordBefore_eq {p : Nat} (h4 : 4 ≤ p) (hp : p < wordSize) : wordBefore p = p - 4 := by
  rw [wordBefore, show p + (wordSize - 4) = p - 4 + wordSize by simp only [wordSize]; omega,
    Nat.add_mod_right, Nat.mod_eq_of_lt (by omega)]

/-- Where the two stacks are, and how many words lie above the stack pointer. -/
structure Span (stackEnd esp start top n : Nat) : Prop where
  start_eq : start = esp + 4 * n
  top_eq : top = stackEnd + (schedKernelStackSize - 4)
  room : 4 * n ≤ schedKernelStackSize - 4
  start_lt : start < wordSize
  top_lt : top < wordSize
  aligned : top % 4 = 0
  apart : top < esp ∨ start < stackEnd

/-- Memory when `k` words are copied. -/
def copied (mem : Mem) (esp start top : Nat) (tmpi : Int) (k : Nat) : Mem := fun a =>
  if top < a + 4 * k ∧ a ≤ top ∧ a % 4 = 0 then moved start esp tmpi (mem (a + start - top))
  else mem a

section Loop

variable {stackEnd esp start top n k : Nat} {tmpi : Int} {mem : Mem}

theorem copied_zero : copied mem esp start top tmpi 0 = mem := by
  funext a
  exact if_neg (by omega)

theorem Span.copied_parent (h : Span stackEnd esp start top n) (hk : k ≤ n) {a : Nat}
    (ha : esp ≤ a ∧ a ≤ start) : copied mem esp start top tmpi k a = mem a := by
  obtain ⟨-, htop, hroom, -, -, -, hapart⟩ := h
  simp only [schedKernelStackSize] at htop hroom
  exact if_neg (by omega)

theorem Span.copied_succ (h : Span stackEnd esp start top n) (hk : k < n) :
    update (copied mem esp start top tmpi k) (top - 4 * k)
        (moved start esp tmpi (mem (start - 4 * k))) =
      copied mem esp start top tmpi (k + 1) := by
  obtain ⟨hstart, htop, hroom, -, -, haligned, -⟩ := h
  simp only [schedKernelStackSize] at htop hroom
  funext a
  rw [Function.update_apply, copied, copied]
  by_cases ha : a = top - 4 * k
  · rw [if_pos ha, if_pos (by omega), show a + start - top = start - 4 * k by omega]
  · rw [if_neg ha]
    exact if_congr (by omega) rfl rfl

theorem Span.copyLoop_eq (h : Span stackEnd esp start top n) {fuel : Nat} (hk : k ≤ n)
    (hfuel : n - k < fuel) :
    copyLoop start stackEnd esp tmpi fuel (top - 4 * k) (start - 4 * k)
        (copied mem esp start top tmpi k) = .ok (copied mem esp start top tmpi n) := by
  induction fuel generalizing k with
  | zero => exact absurd hfuel (Nat.not_lt_zero _)
  | succ fuel ih =>
    have hstart := h.start_eq
    have htop := h.top_eq
    have hroom := h.room
    have hlt := h.start_lt
    have hlt' := h.top_lt
    have haligned := h.aligned
    simp only [schedKernelStackSize] at htop hroom
    rw [copyLoop]
    by_cases hend : k = n
    · rw [if_neg (by omega), hend]
    · have hread : copied mem esp start top tmpi k (start - 4 * k) = mem (start - 4 * k) :=
        h.copied_parent hk (by omega)
      rw [if_pos (by omega), hread, h.copied_succ (by omega), wordBefore_eq (by omega) (by omega),
        wordBefore_eq (by omega) (by omega), Nat.sub_sub, Nat.sub_sub,
        show 4 * k + 4 = 4 * (k + 1) by omega]
      exact ih (by omega) (by omega)

end Loop

/-! ## The two stacks -/

section Layout

variable {currentTask newTask newTask' : Task} {mem mem' : Mem}

theorem topOf_eq {kernelStack : Nat} (h : kernelStack + schedKernelStackSize ≤ wordSize) :
    topOf kernelStack = kernelStack + (schedKernelStackSize - 4) := by
  simp only [schedKernelStackSize, wordSize] at h
  exact Nat.mod_eq_of_lt (by simp only [schedKernelStackSize, wordSize]; omega)

theorem Layout.parent_bounds (h : Layout currentTask newTask) :
    currentTask.stackTop % 4 = 0 ∧ currentTask.stackTop < wordSize ∧
      currentTask.stackTop ≤ currentTask.stackBase + (schedKernelStackSize - 4) := by
  unfold Task.stackTop Task.stackBase
  by_cases hid : currentTask.id = 0
  · rw [if_pos hid, if_pos hid]
    decide
  · obtain ⟨haligned, hle⟩ := h.parent hid
    rw [if_neg hid, if_neg hid, topOf_eq hle]
    simp only [schedKernelStackSize, wordSize] at hle ⊢
    omega

theorem Layout.span (h : Layout currentTask newTask) :
    ∃ n, Span newTask.kernelStack newTask.esp currentTask.stackTop (topOf newTask.kernelStack)
      n := by
  obtain ⟨haligned, hlt, hsize⟩ := h.parent_bounds
  obtain ⟨-, hchild, hfits, hapart, hesp, hbase, hle⟩ := h
  have htop := topOf_eq hfits
  simp only [schedKernelStackSize, wordSize] at hsize hfits hlt hapart htop
  refine ⟨(currentTask.stackTop - newTask.esp) / 4, ?_, ?_, ?_, ?_, ?_, ?_, ?_⟩
  · omega
  · exact htop
  · simp only [schedKernelStackSize]
    omega
  · exact hlt
  · simp only [wordSize]
    omega
  · omega
  · omega

theorem Layout.addWord_eq (h : Layout currentTask newTask) {a : Nat} (hesp : newTask.esp ≤ a)
    (htop : a ≤ currentTask.stackTop) : addWord a (displacement currentTask newTask) =
      topOf newTask.kernelStack - (currentTask.stackTop - a) := by
  obtain ⟨n, hn⟩ := h.span
  have hstart := hn.start_eq
  have htop' := hn.top_eq
  have hroom := hn.room
  have hlt := hn.top_lt
  simp only [schedKernelStackSize, wordSize] at htop' hroom hlt
  unfold addWord displacement
  simp only [wordSize]
  omega

theorem frames_moved (h : Layout currentTask newTask)
    (hwords : ∀ d, d % 4 = 0 → newTask.esp + d ≤ currentTask.stackTop →
      mem' (topOf newTask.kernelStack - d) = moved currentTask.stackTop newTask.esp
        (displacement currentTask newTask) (mem (currentTask.stackTop - d)))
    {ebp : Nat} (n : Nat) (hframes : ∀ k ≤ n, InUse currentTask newTask (frames mem ebp k)) :
    frames mem' (addWord ebp (displacement currentTask newTask)) n =
      addWord (frames mem ebp n) (displacement currentTask newTask) := by
  induction n with
  | zero => rfl
  | succ n ih =>
    obtain ⟨hesp, htop, haligned⟩ := hframes n (Nat.le_succ n)
    obtain ⟨hesp', htop', -⟩ := hframes (n + 1) (Nat.le_refl _)
    have hstart := h.parent_bounds.1
    have hword := hwords (currentTask.stackTop - frames mem ebp n) (by omega) (by omega)
    rw [Nat.sub_sub_self htop] at hword
    rw [frames, ih (fun k hk => hframes k (Nat.le_succ_of_le hk)), h.addWord_eq hesp htop, hword]
    exact if_pos ⟨htop', hesp'⟩

theorem Layout.move_eq (h : Layout currentTask newTask) (mem : Mem) :
    ∃ n, Span newTask.kernelStack newTask.esp currentTask.stackTop (topOf newTask.kernelStack) n ∧
      archSchedulerMoveTheFuckingTaskStack mem currentTask newTask =
        .ok (copied mem newTask.esp currentTask.stackTop (topOf newTask.kernelStack)
            (displacement currentTask newTask) n,
          { newTask with
            registers := addWord currentTask.registers (displacement currentTask newTask)
            esp := addWord newTask.esp (displacement currentTask newTask)
            ebp := addWord newTask.ebp (displacement currentTask newTask) }) := by
  obtain ⟨n, hn⟩ := h.span
  have hroom := hn.room
  simp only [schedKernelStackSize] at hroom
  have hfuel : n - 0 < wordSize := by
    simp only [wordSize]
    omega
  have hloop : copyLoop currentTask.stackTop newTask.kernelStack newTask.esp
      (displacement currentTask newTask) wordSize (topOf newTask.kernelStack - 4 * 0)
      (currentTask.stackTop - 4 * 0) (copied mem _ _ _ _ 0) = .ok (copied mem _ _ _ _ n) :=
    hn.copyLoop_eq (Nat.zero_le n) hfuel
  rw [copied_zero, Nat.mul_zero, Nat.sub_zero, Nat.sub_zero] at hloop
  exact ⟨n, hn, Loop.bind_eq_ok.mpr ⟨_, hloop, rfl⟩⟩

theorem Layout.words_iff (h : Layout currentTask newTask) {n : Nat}
    (hn : Span newTask.kernelStack newTask.esp currentTask.stackTop (topOf newTask.kernelStack) n)
    (mem : Mem) :
    (∀ d, d % 4 = 0 → newTask.esp + d ≤ currentTask.stackTop →
      copied mem newTask.esp currentTask.stackTop (topOf newTask.kernelStack)
          (displacement currentTask newTask) n (topOf newTask.kernelStack - d) =
        moved currentTask.stackTop newTask.esp (displacement currentTask newTask)
          (mem (currentTask.stackTop - d))) ↔
      mem (addWord newTask.esp (displacement currentTask newTask)) =
        moved currentTask.stackTop newTask.esp (displacement currentTask newTask)
          (mem newTask.esp) := by
  have hstart := hn.start_eq
  have htop := hn.top_eq
  have hroom := hn.room
  have haligned := hn.aligned
  simp only [schedKernelStackSize] at htop hroom
  rw [h.addWord_eq (Nat.le_refl _) (by omega)]
  constructor
  · intro hwords
    have hlast := hwords (currentTask.stackTop - newTask.esp) (by omega) (by omega)
    rwa [copied, if_neg (by omega), Nat.sub_sub_self (by omega)] at hlast
  · intro hlast d hd hle
    by_cases hend : newTask.esp + d = currentTask.stackTop
    · rw [copied, if_neg (by omega), show d = currentTask.stackTop - newTask.esp by omega, hlast,
        Nat.sub_sub_self (by omega)]
    · have hsame : topOf newTask.kernelStack - d + currentTask.stackTop -
          topOf newTask.kernelStack = currentTask.stackTop - d := by omega
      rw [copied, if_pos (by omega), hsame]

/-- **The child gets a relocated copy exactly if the word at its stack pointer was right before**:
this one is not copied. -/
theorem moveTaskStack_relocates_iff (h : Layout currentTask newTask) (mem : Mem) :
    (∃ mem' newTask', archSchedulerMoveTheFuckingTaskStack mem currentTask newTask =
        .ok (mem', newTask') ∧ Relocated mem currentTask newTask mem' newTask') ↔
      mem (addWord newTask.esp (displacement currentTask newTask)) =
        moved currentTask.stackTop newTask.esp (displacement currentTask newTask)
          (mem newTask.esp) := by
  obtain ⟨n, hn, hmove⟩ := h.move_eq mem
  rw [← h.words_iff hn mem]
  constructor
  · rintro ⟨mem', newTask', hmove', hrelocated⟩
    cases hmove.symm.trans hmove'
    exact hrelocated.words
  · intro hwords
    exact ⟨_, _, hmove, hwords, rfl, rfl, rfl, frames_moved h hwords⟩

end Layout

/-- A task with its stack at 64 KiB, and a new one with the stack behind it. -/
def parentTask : Task := ⟨1, 0x10000, 0, 0, 0x1FFFC⟩

def childTask : Task := ⟨2, 0x20000, 0x1FFF8, 0x1FFFC, 0⟩

theorem parent_child_layout : Layout parentTask childTask :=
  ⟨fun _ => by decide, by decide, by decide, by decide, by decide, by decide⟩

/-- The frame pointer at the top of the stack, which points to itself, is relocated. -/
theorem moveTaskStack_frame : ∃ mem' newTask',
    archSchedulerMoveTheFuckingTaskStack (update (fun _ => 0) 0x1FFFC 0x1FFFC) parentTask
        childTask = .ok (mem', newTask') ∧
      mem' 0x2FFFC = 0x2FFFC ∧
      Relocated (update (fun _ => 0) 0x1FFFC 0x1FFFC) parentTask childTask mem' newTask' := by
  obtain ⟨mem', newTask', hmove, hrelocated⟩ := (moveTaskStack_relocates_iff parent_child_layout
    (update (fun _ => 0) 0x1FFFC 0x1FFFC)).mpr (by decide)
  exact ⟨mem', newTask', hmove, hrelocated.words 0 rfl (by decide), hrelocated⟩

/-- **The word at the stack pointer is not copied**: with 7 there, the child has 0. -/
theorem moveTaskStack_misses : ∃ mem' newTask',
    archSchedulerMoveTheFuckingTaskStack (update (fun _ => 0) 0x1FFF8 7) parentTask
        childTask = .ok (mem', newTask') ∧
      newTask'.esp = 0x2FFF8 ∧ mem' 0x2FFF8 = 0 ∧
      ¬ Relocated (update (fun _ => 0) 0x1FFF8 7) parentTask childTask mem' newTask' := by
  obtain ⟨n, hn, hmove⟩ := parent_child_layout.move_eq (update (fun _ => 0) 0x1FFF8 7)
  have hone : n = 1 := by
    have hstart : 0x1FFFC = 0x1FFF8 + 4 * n := hn.start_eq
    omega
  subst hone
  refine ⟨_, _, hmove, by decide, by decide, fun hrelocated => ?_⟩
  exact absurd (hrelocated.words 4 (by decide) (by decide)) (by decide)

end Hydrax.StackCopy
