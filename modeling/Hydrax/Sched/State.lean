import Hydrax.LinkedList

/-!
# Tasks

The data of `kernel/scheduler.c` and the two calls of `kernel/fork.c` that make a task.

Tasks are kept in a store indexed by the address of their `task_t`, and the items of the lists they
are on in a store of their own. A null pointer is `0`. A block that `malloc` returns has a content
already, and what the kernel does not write into it stays there.

The address space of a task is the business of `Hydrax.Mmu`. Here a task is what the scheduler, the
signals and the calls of `wait` see of it.
-/

namespace Hydrax.Sched

/-- `TASK_STATE_*`. -/
inductive TaskState where
  | running
  | waiting
  | stopped
  | zombie
  deriving DecidableEq, Repr

/-- The `sa_handler` of a signal: `SIG_DFL`, `SIG_ERR`, `SIG_HOLD`, `SIG_IGN` or a function. -/
inductive Handler where
  | dfl
  | err
  | hold
  | ign
  | fn (addr : Nat)
  deriving DecidableEq, Repr

/-- The levels of `sig_pending` have numerals. -/
instance neZeroLevels : @NeZero Nat Zero.ofOfNat0 4 := ⟨Nat.succ_ne_zero 3⟩

/-- The fields of `task_t` that belong to the scheduler. -/
structure Task where
  id : Int := 0
  pid : Int := 0
  uid : UInt32 := 0
  gid : UInt32 := 0
  euid : UInt32 := 0
  egid : UInt32 := 0
  errno : Int := 0
  status : TaskState := .running
  exitCode : Int := 0
  sigmask : BitVec 32 := 0
  sigPending : Fin 4 → BitVec 32 := fun _ => 0
  sigDelivered : Fin 4 → BitVec 32 := fun _ => 0
  sigAction : Nat → Handler := fun _ => .dfl
  parent : Nat := 0
  mainThread : Nat := 0
  childrenList : LinkedList := {}
  threadsList : LinkedList := {}

structure State where
  tasks : Nat → Task := fun _ => {}
  items : Nat → Item := fun _ => {}
  tasksList : LinkedList := {}
  currentTask : Nat := 0
  nextPid : Int := 1
  nextTid : Int := 1
  /-- The tasks whose `task_t` was freed. -/
  freed : List Nat := []

def enomem : Int := -8
def echild : Int := -13
def eperm : Int := -16

namespace State

variable (s : State)

/-- `*current_task`. -/
def current : Task := s.tasks s.currentTask

/-- Change the task at `t`. -/
def modify (t : Nat) (f : Task → Task) : State :=
  { s with tasks := Function.update s.tasks t (f (s.tasks t)) }

@[simp] theorem modify_self (t : Nat) (f : Task → Task) : (s.modify t f).tasks t = f (s.tasks t) :=
  Function.update_self ..

@[simp] theorem modify_of_ne {t u : Nat} (f : Task → Task) (h : u ≠ t) :
    (s.modify t f).tasks u = s.tasks u :=
  Function.update_of_ne h ..

theorem modify_view {α : Type} (view : Task → α) {f : Task → Task}
    (hf : ∀ t, view (f t) = view t) (t u : Nat) :
    view ((s.modify t f).tasks u) = view (s.tasks u) := by
  by_cases h : u = t
  · subst h
    rw [modify_self, hf]
  · rw [modify_of_ne _ _ h]

end State

/-! ## Making a task -/

/-- What the allocations of `fork` and `clone` return: the block for the `task_t` with what it
holds, and the blocks for the items of the three lists the task is put on. -/
structure Blocks where
  task : Nat
  content : Task
  thread : Nat
  child : Nat
  entry : Nat

/-- `LINKED_LIST_APPEND_NEW` to the `threads_list` of the task at `t`. -/
def appendThread (s : State) (t block task : Nat) : State :=
  let a := linkedListAppendNew s.items (s.tasks t).threadsList block task
  { s with items := a.items }.modify t (fun t => { t with threadsList := a.list })

/-- `LINKED_LIST_APPEND_NEW` to the `children_list` of the task at `t`. -/
def appendChild (s : State) (t block task : Nat) : State :=
  let a := linkedListAppendNew s.items (s.tasks t).childrenList block task
  { s with items := a.items }.modify t (fun t => { t with childrenList := a.list })

/-- `kfork`, up to the switch to another task. It returns the new task's `errno`. -/
def kfork (s : State) (newTask entry : Nat) : Int × State :=
  let handlers := s.current.sigAction
  let s := s.modify newTask (fun t =>
    { t with sigPending := fun _ => 0, sigDelivered := fun _ => 0, sigAction := handlers })
  let a := linkedListAppendNew s.items s.tasksList entry newTask
  ((s.tasks newTask).errno, { s with items := a.items, tasksList := a.list })

/-- The initialisation of the new task in `fork`. -/
def forkTask (s : State) (b : Blocks) (pid tid : Int) : Task :=
  { b.content with
    id := tid, pid := pid, mainThread := b.task
    uid := s.current.uid, gid := s.current.gid, euid := s.current.euid, egid := s.current.egid
    status := .running, sigmask := s.current.sigmask, exitCode := 0
    parent := s.currentTask, errno := pid, childrenList := {}, threadsList := {} }

/-- `fork`. There are no blocks when one of its allocations fails. -/
def fork (s : State) (blocks : Option Blocks) : Except Stop (Int × State) :=
  let pid := s.nextPid
  let tid := s.nextTid
  let s := { s with nextPid := pid + 1, nextTid := tid + 1 }
  match blocks with
  | none => .ok (enomem, s)
  | some b =>
    let s := s.modify b.task (fun _ => forkTask s b pid tid)
    let s := appendThread s b.task b.thread b.task
    if b.child = 0 then .error .panicked
    else
      let s := appendChild s s.currentTask b.child b.task
      .ok (kfork s b.task b.entry)

/-- The initialisation of the new task in `clone`. -/
def cloneTask (s : State) (b : Blocks) (tid : Int) : Task :=
  { b.content with
    id := tid, pid := s.current.pid, uid := s.current.uid, gid := s.current.gid
    status := .running, sigmask := s.current.sigmask, exitCode := 0
    mainThread := s.current.mainThread, parent := s.current.mainThread
    errno := tid, childrenList := {}, threadsList := {} }

/-- `clone`. There are no blocks when one of its allocations fails. -/
def clone (s : State) (blocks : Option Blocks) : Except Stop (Int × State) :=
  let tid := s.nextTid
  let s := { s with nextTid := tid + 1 }
  match blocks with
  | none => .ok (enomem, s)
  | some b =>
    let s := s.modify b.task (fun _ => cloneTask s b tid)
    if b.thread = 0 then .error .panicked
    else
      let s := appendThread s s.current.mainThread b.thread b.task
      .ok (kfork s b.task b.entry)

section Views

variable {α : Type} (view : Task → α) {s s' : State}

theorem appendThread_view (hview : ∀ t l, view { t with threadsList := l } = view t)
    (t block task u : Nat) :
    view ((appendThread s t block task).tasks u) = view (s.tasks u) := by
  unfold appendThread
  exact State.modify_view _ view (fun t => hview t _) t u

theorem appendChild_view (hview : ∀ t l, view { t with childrenList := l } = view t)
    (t block task u : Nat) :
    view ((appendChild s t block task).tasks u) = view (s.tasks u) := by
  unfold appendChild
  exact State.modify_view _ view (fun t => hview t _) t u

theorem kfork_view
    (hview : ∀ t p d a, view { t with sigPending := p, sigDelivered := d, sigAction := a } = view t)
    (new entry u : Nat) : view ((kfork s new entry).2.tasks u) = view (s.tasks u) := by
  unfold kfork
  exact State.modify_view _ view (fun t => hview t _ _ _) new u

/-- **What `fork` leaves of the tasks**, as far as lists and signals do not show. -/
theorem fork_view {b : Blocks} {r : Int} (h : fork s (some b) = .ok (r, s'))
    (hthread : ∀ t l, view { t with threadsList := l } = view t)
    (hchild : ∀ t l, view { t with childrenList := l } = view t)
    (hsig : ∀ t p d a, view { t with sigPending := p, sigDelivered := d, sigAction := a } = view t)
    (u : Nat) :
    view (s'.tasks u) =
      if u = b.task then view (forkTask s b s.nextPid s.nextTid) else view (s.tasks u) := by
  unfold fork at h
  simp only at h
  split at h
  · cases h
  · obtain ⟨-, rfl⟩ := Prod.ext_iff.mp (Except.ok.inj h)
    rw [kfork_view view hsig, appendChild_view view hchild, appendThread_view view hthread]
    by_cases hu : u = b.task
    · subst hu
      rw [if_pos rfl, State.modify_self]
      rfl
    · rw [if_neg hu, State.modify_of_ne _ _ hu]

/-- **What `clone` leaves of the tasks**, as far as lists and signals do not show. -/
theorem clone_view {b : Blocks} {r : Int} (h : clone s (some b) = .ok (r, s'))
    (hthread : ∀ t l, view { t with threadsList := l } = view t)
    (hsig : ∀ t p d a, view { t with sigPending := p, sigDelivered := d, sigAction := a } = view t)
    (u : Nat) :
    view (s'.tasks u) =
      if u = b.task then view (cloneTask s b s.nextTid) else view (s.tasks u) := by
  unfold clone at h
  simp only at h
  split at h
  · cases h
  · obtain ⟨-, rfl⟩ := Prod.ext_iff.mp (Except.ok.inj h)
    rw [kfork_view view hsig, appendThread_view view hthread]
    by_cases hu : u = b.task
    · subst hu
      rw [if_pos rfl, State.modify_self]
      rfl
    · rw [if_neg hu, State.modify_of_ne _ _ hu]

end Views

end Hydrax.Sched
