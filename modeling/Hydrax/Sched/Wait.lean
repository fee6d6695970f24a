import Hydrax.Sched.State

/-!
# Waiting for a child

`free_task_entry`, `wait` and `waitpid` of `kernel/scheduler.c`.

A call of `waitpid` may go to sleep several times. The states that it finds when it is woken are a
parameter of the model, so that a result about all of them is one about everything that other tasks
can do meanwhile.

* `wait_waitpid_ok_iff` — `wait` never frees what it should, and `waitpid` does the right thing
  only when there is nothing to wait for and some other process has a thread.

Both search for the wrong task: `wait` for the first child that is *not* a zombie, and `waitpid` for
the first task that is not the main thread of its process, whatever `pid` is.
-/

namespace Hydrax.Sched

/-! ## The calls -/

def seekTask (s : State) (first t : Nat) : Except Stop Nat :=
  linkedListSeekUntil s.items (fun i => i.val == t) first

/-- Remove a process from its parent's `children_list`. -/
def removeChild (s : State) (t : Nat) : Except Stop State := do
  let parent := (s.tasks t).parent
  if parent = 0 then return s
  else
    let list := (s.tasks parent).childrenList
    let iter ← seekTask s list.first t
    let (list, _, _) ← linkedListRemoveCurrent s.items list iter
    return s.modify parent (fun p => { p with childrenList := list })

/-- Remove a task from `tasks_list`, and free it. -/
def removeEntry (s : State) (t : Nat) : Except Stop (Int × State) := do
  let iter ← seekTask s s.tasksList.first t
  let (list, _, _) ← linkedListRemoveCurrent s.items s.tasksList iter
  return ((s.tasks t).id, { s with tasksList := list, freed := t :: s.freed })

/-- `free_task_entry`. It returns the thread id. -/
def freeTaskEntry (s : State) (t : Nat) : Except Stop (Int × State) := do
  assert (t != 0)
  assert ((s.tasks t).mainThread != 0)
  if s.tasksList.count = 0 then return (-1, s)
  else if t ≠ (s.tasks t).mainThread then removeEntry s t
  else
    let s ← removeChild s t
    removeEntry s t

/-- `wait`. It moves the cursor of the caller's own list. -/
def wait (s : State) : Except Stop (Int × State) := do
  assert (s.tasksList.count != 0)
  let list := linkedListMoveFirst s.current.childrenList
  let cur ← linkedListSeekUntil s.items (fun i => (s.tasks i.val).status != .zombie) list.current
  let s := s.modify s.currentTask (fun t => { t with childrenList := { list with current := cur } })
  if cur = 0 then .error .nullDeref else freeTaskEntry s (s.items cur).val

/-- How a call of `waitpid` stands: it returned a value and stored an exit code, or it is asleep. -/
inductive Waited where
  | returned (r : Int) (code : Option Int) (s : State)
  | waiting (s : State)

/-- The condition both searches of `waitpid` seek for. -/
def isThread (s : State) (i : Item) : Bool :=
  (s.tasks i.val).pid != 0 && (s.tasks i.val).mainThread != i.val

/-- The loop of `waitpid`. `woken` are the states in which `pause` comes back. -/
def waitpidLoop (woken : List State) (s : State) (iter : Nat) : Except Stop Waited := do
  if iter = 0 then .error .assertFailed
  else if (s.tasks (s.items iter).val).status = .zombie then
    let code := (s.tasks (s.items iter).val).exitCode
    let (r, s) ← freeTaskEntry s (s.items iter).val
    return .returned r (some code) s
  else
    assert (s.current.id != 0)
    match woken with
    | [] => return .waiting s
    | s :: woken =>
      if s.tasksList.count = 0 then return .returned (-1) none s
      else
        let iter ← linkedListSeekUntil s.items (isThread s) s.tasksList.first
        waitpidLoop woken s iter

def waitpid (s : State) (pid : Int) (woken : List State) : Except Stop Waited := do
  if pid = -1 then
    let (r, s) ← wait s
    return .returned r none s
  else
    let iter ← linkedListSeekUntil s.items (isThread s) s.tasksList.first
    if iter = 0 then .error .nullDeref
    else if (s.items iter).val = 0 ∨ (s.tasks (s.items iter).val).parent ≠ s.currentTask then
      return .returned echild none s
    else waitpidLoop woken s iter

/-! ## What they should do -/

/-- `c` is a process that the current task has for a child, with the process id `pid`. -/
structure IsChild (s : State) (pid : Int) (c : Nat) : Prop where
  listed : ∃ l, Linked s.items s.tasksList l ∧ ∃ x ∈ l, (s.items x).val = c
  process : (s.tasks c).mainThread = c
  parent : (s.tasks c).parent = s.currentTask
  pid : (s.tasks c).pid = pid

/-- `wait` dereferences no null cursor, and what it frees is a child that is a zombie. -/
def WaitOk (s : State) : Prop :=
  wait s ≠ .error .nullDeref ∧
    ∀ r s', wait s = .ok (r, s') → ∀ c, s'.freed = c :: s.freed →
      (s.tasks c).status = .zombie ∧ (s.tasks c).parent = s.currentTask

/-- `waitpid` stands as it should: it has reaped the child, with its process id and its exit code;
or there is no such child, it returned `ECHILD` and changed nothing; or the child is there and is
not a zombie yet. `seen` are the states in which the call ran. -/
def Waited.Ok (s : State) (pid : Int) (seen : List State) : Waited → Prop
  | .returned r code s' =>
    (∃ s₁ ∈ seen, ∃ c, IsChild s₁ pid c ∧ (s₁.tasks c).status = .zombie ∧ r = pid ∧
      code = some (s₁.tasks c).exitCode ∧ s'.freed = c :: s₁.freed) ∨
    ((∀ c, ¬ IsChild s pid c) ∧ r = echild ∧ code = none ∧ s' = s)
  | .waiting s' =>
    (∃ c, IsChild s pid c) ∧ ∀ c, IsChild s' pid c → (s'.tasks c).status ≠ .zombie

/-- `waitpid` does so whatever happens while it sleeps. -/
def WaitpidOk (s : State) (pid : Int) : Prop :=
  ∀ woken, ∃ w, waitpid s pid woken = .ok w ∧ w.Ok s pid (s :: woken)

/-- The lists of a state in which the current task runs: the items `l` of the tasks, and the items
`lc` of its children. -/
structure Lists (s : State) (l lc : List Nat) : Prop where
  tasks : Linked s.items s.tasksList l
  children : Linked s.items s.current.childrenList lc
  count : s.tasksList.count ≠ 0
  current : s.currentTask ≠ 0 ∧ s.current.id ≠ 0
  entry : ∀ x ∈ l, (s.items x).val ≠ 0 ∧ (s.tasks (s.items x).val).mainThread ≠ 0
  child : ∀ x ∈ lc, (s.items x).val ≠ 0 ∧
    (s.tasks (s.items x).val).mainThread = (s.items x).val ∧
    (s.tasks (s.items x).val).parent = s.currentTask

/-! ## Freeing a task -/

section Free

variable {s : State} {l m : List Nat} {t : Nat}

theorem removeCurrent_ne_zero (items : Nat → Item) (list : LinkedList) {x : Nat} (hx : x ≠ 0) :
    ∃ list' iter, linkedListRemoveCurrent items list x = .ok (list', iter, x) :=
  ⟨_, _, removeCurrent_eq hx⟩

theorem removeEntry_cases (h : Linked s.items s.tasksList l) (t : Nat) :
    removeEntry s t = .error .nullDeref ∨
      ∃ list, removeEntry s t =
        .ok ((s.tasks t).id, { s with tasksList := list, freed := t :: s.freed }) := by
  unfold removeEntry seekTask
  rcases linkedListSeekUntil_cases h with ⟨hseek, -⟩ | ⟨x, -, hx0, -, hseek⟩
  · left
    rw [hseek]
    rfl
  · right
    obtain ⟨list, iter, hremove⟩ := removeCurrent_ne_zero s.items s.tasksList hx0
    refine ⟨list, ?_⟩
    rw [hseek]
    simp only [bind, Except.bind, hremove]
    rfl

theorem removeChild_cases
    (h : (s.tasks t).parent ≠ 0 → Linked s.items (s.tasks (s.tasks t).parent).childrenList l) :
    removeChild s t = .error .nullDeref ∨ removeChild s t = .ok s ∨
      ∃ list, removeChild s t =
        .ok (s.modify (s.tasks t).parent (fun p => { p with childrenList := list })) := by
  unfold removeChild seekTask
  by_cases h0 : (s.tasks t).parent = 0
  · exact Or.inr (Or.inl (if_pos h0))
  · simp only [if_neg h0]
    rcases linkedListSeekUntil_cases (h h0) with ⟨hseek, -⟩ | ⟨x, -, hx0, -, hseek⟩
    · left
      rw [hseek]
      rfl
    · obtain ⟨list, iter, hremove⟩ :=
        removeCurrent_ne_zero s.items (s.tasks (s.tasks t).parent).childrenList hx0
      refine Or.inr (Or.inr ⟨list, ?_⟩)
      rw [hseek]
      simp only [bind, Except.bind, hremove]
      rfl

/-- **`free_task_entry`** frees the task it is given, unless it runs into a null cursor. -/
theorem freeTaskEntry_cases (ht : t ≠ 0) (hmain : (s.tasks t).mainThread ≠ 0)
    (hcount : s.tasksList.count ≠ 0) (htasks : Linked s.items s.tasksList l)
    (hchildren : t = (s.tasks t).mainThread → (s.tasks t).parent ≠ 0 →
      Linked s.items (s.tasks (s.tasks t).parent).childrenList m) :
    freeTaskEntry s t = .error .nullDeref ∨
      ∃ r s', freeTaskEntry s t = .ok (r, s') ∧ s'.freed = t :: s.freed := by
  have hassert : ∀ {n : Nat}, n ≠ 0 → assert (n != 0) = .ok () := by
    intro n hn
    simp [hn]
  unfold freeTaskEntry
  simp only [hassert ht, hassert hmain, bind, Except.bind, if_neg hcount]
  by_cases hself : t = (s.tasks t).mainThread
  · rw [if_neg (by simpa using hself)]
    rcases removeChild_cases (hchildren hself) with hrem | hrem | ⟨list, hrem⟩
    · exact Or.inl (by rw [hrem])
    · rw [hrem]
      rcases removeEntry_cases htasks t with he | ⟨list, he⟩
      · exact Or.inl he
      · exact Or.inr ⟨_, _, he, rfl⟩
    · rw [hrem]
      have htasks' : Linked (s.modify (s.tasks t).parent
        (fun p => { p with childrenList := list })).items s.tasksList l := htasks
      rcases removeEntry_cases htasks' t with he | ⟨list, he⟩
      · exact Or.inl he
      · exact Or.inr ⟨_, _, he, rfl⟩
  · rw [if_pos hself]
    rcases removeEntry_cases htasks t with he | ⟨list, he⟩
    · exact Or.inl he
    · exact Or.inr ⟨_, _, he, rfl⟩

end Free

/-! ## `wait` -/

section Wait

variable {s : State} {l lc : List Nat}

theorem wait_eq (h : Lists s l lc) :
    ∃ cur, ∃ list : LinkedList, list.first = s.current.childrenList.first ∧
      (cur ≠ 0 → cur ∈ lc ∧ (s.tasks (s.items cur).val).status ≠ .zombie) ∧
      wait s = if cur = 0 then .error .nullDeref else
        freeTaskEntry (s.modify s.currentTask (fun t => { t with childrenList := list }))
          (s.items cur).val := by
  have hcount : assert (s.tasksList.count != 0) = .ok () := by
    simp [h.count]
  unfold wait
  simp only [hcount, bind, Except.bind, linkedListMoveFirst]
  rcases @linkedListSeekUntil_cases _ (fun i => (s.tasks i.val).status != .zombie) _ _ h.children
    with ⟨hseek, -⟩ | ⟨x, hx, hx0, hlive, hseek⟩
  · rw [hseek]
    exact ⟨0, { s.current.childrenList with current := 0 }, rfl, fun h0 => absurd rfl h0, rfl⟩
  · rw [hseek]
    exact ⟨x, { s.current.childrenList with current := x }, rfl,
      fun _ => ⟨hx, by simpa using hlive⟩, rfl⟩

/-- **`wait`** dereferences a null cursor or frees a child that is alive. -/
theorem not_waitOk (h : Lists s l lc) : ¬ WaitOk s := by
  rintro ⟨hnull, hfreed⟩
  obtain ⟨x, list, hfirst, hx, hwait⟩ := wait_eq h
  rw [hwait] at hnull hfreed
  by_cases hx0 : x = 0
  · exact hnull (if_pos hx0)
  · rw [if_neg hx0] at hnull hfreed
    obtain ⟨hmem, hlive⟩ := hx hx0
    obtain ⟨hval, hself, hparent⟩ := h.child x hmem
    have hview : ∀ u, ((s.modify s.currentTask (fun t => { t with childrenList := list })).tasks
        u).mainThread = (s.tasks u).mainThread ∧
        ((s.modify s.currentTask (fun t => { t with childrenList := list })).tasks u).parent =
          (s.tasks u).parent := by
      intro u
      constructor
      · exact s.modify_view Task.mainThread (fun _ => by rfl) _ _
      · exact s.modify_view Task.parent (fun _ => by rfl) _ _
    have hlinked : Linked s.items list lc := ⟨hfirst ▸ h.children.chain, h.children.addresses⟩
    have hcases := freeTaskEntry_cases (l := l) (m := lc)
      (s := s.modify s.currentTask (fun t => { t with childrenList := list })) hval
      (by rw [(hview _).1, hself]; exact hval) h.count h.tasks
      (fun _ _ => by
        rw [(hview _).2, hparent, State.modify_self]
        exact hlinked)
    rcases hcases with herr | ⟨r, s', hok, hs'⟩
    · exact hnull herr
    · exact hlive (hfreed r s' hok _ hs').1

end Wait

/-! ## `waitpid` -/

section Waitpid

variable {s : State} {l lc : List Nat} {pid : Int}

theorem waitpid_eq (h : Lists s l lc) (hpid : 0 < pid) (woken : List State) :
    waitpid s pid woken =
      match l.find? (fun x => isThread s (s.items x)) with
      | none => .error .nullDeref
      | some x =>
        if (s.tasks (s.items x).val).parent ≠ s.currentTask then .ok (.returned echild none s)
        else waitpidLoop woken s x := by
  unfold waitpid
  rw [if_neg (by omega), linkedListSeekUntil_eq h.tasks]
  cases hfind : l.find? (fun x => isThread s (s.items x)) with
  | none => rfl
  | some x =>
    have hx := List.mem_of_find?_eq_some hfind
    simp only [bind, Except.bind, Option.getD_some]
    rw [if_neg (h.tasks.chain.ne_null hx)]
    by_cases hparent : (s.tasks (s.items x).val).parent = s.currentTask
    · rw [if_neg (by simp [(h.entry x hx).1, hparent]), if_neg (by simp [hparent])]
    · rw [if_pos (Or.inr hparent), if_pos hparent]
      rfl

theorem not_isChild_of_isThread {s₁ : State} {i : Item} (h : isThread s i = true)
    (hmain : (s₁.tasks i.val).mainThread = (s.tasks i.val).mainThread) : ¬ IsChild s₁ pid i.val := by
  intro hc
  have := hc.process
  rw [hmain] at this
  simp [isThread, this] at h

theorem waitpidLoop_zombie {x : Nat} (h : Lists s l lc) (hx : x ∈ l)
    (hthread : isThread s (s.items x) = true)
    (hz : (s.tasks (s.items x).val).status = .zombie) (woken : List State) :
    waitpidLoop woken s x = .error .nullDeref ∨
      ∃ r s', waitpidLoop woken s x =
          .ok (.returned r (some (s.tasks (s.items x).val).exitCode) s') ∧
        s'.freed = (s.items x).val :: s.freed := by
  have hself : (s.items x).val ≠ (s.tasks (s.items x).val).mainThread := by
    intro heq
    simp [isThread, ← heq] at hthread
  unfold waitpidLoop
  rw [if_neg (h.tasks.chain.ne_null hx), if_pos hz]
  rcases freeTaskEntry_cases (m := []) (h.entry x hx).1 (h.entry x hx).2 h.count h.tasks
    (fun heq => absurd heq hself) with herr | ⟨r, s', hok, hfreed⟩
  · left
    rw [herr]
    rfl
  · right
    refine ⟨r, s', ?_, hfreed⟩
    rw [hok]
    rfl

theorem waitpidLoop_live {x : Nat} (hx : x ≠ 0)
    (hlive : (s.tasks (s.items x).val).status ≠ .zombie) (hid : s.current.id ≠ 0)
    (woken : List State) :
    waitpidLoop woken s x =
      match woken with
      | [] => .ok (.waiting s)
      | s :: woken =>
        if s.tasksList.count = 0 then .ok (.returned (-1) none s)
        else linkedListSeekUntil s.items (isThread s) s.tasksList.first >>= waitpidLoop woken s := by
  have hassert : assert (s.current.id != 0) = .ok () := by
    simp [hid]
  rw [waitpidLoop.eq_def, if_neg hx, if_neg hlive, hassert]
  cases woken with
  | nil => rfl
  | cons s₁ woken => rfl

/-- The state after the child `c` has become a zombie. -/
def State.exited (s : State) (c : Nat) : State := s.modify c (fun t => { t with status := .zombie })

theorem isChild_exited {c : Nat} (h : IsChild s pid c) : IsChild (s.exited c) pid c where
  listed := h.listed
  process := (s.modify_view Task.mainThread (fun _ => by rfl) c c).trans h.process
  parent := (s.modify_view Task.parent (fun _ => by rfl) c c).trans h.parent
  pid := (s.modify_view Task.pid (fun _ => by rfl) c c).trans h.pid

theorem isThread_exited (c : Nat) : isThread (s.exited c) = isThread s := by
  funext i
  unfold isThread State.exited
  rw [s.modify_view Task.pid (fun _ => by rfl), s.modify_view Task.mainThread (fun _ => by rfl)]

theorem not_waitpidOk_of_thread {x : Nat} (h : Lists s l lc) (hpid : 0 < pid)
    (hfind : l.find? (fun x => isThread s (s.items x)) = some x)
    (hparent : (s.tasks (s.items x).val).parent = s.currentTask) : ¬ WaitpidOk s pid := by
  intro hok
  have hx := List.mem_of_find?_eq_some hfind
  have hthread : isThread s (s.items x) = true := by
    have := List.find?_some hfind
    exact this
  have hx0 := h.tasks.chain.ne_null hx
  have hloop : ∀ woken, waitpid s pid woken = waitpidLoop woken s x := by
    intro woken
    rw [waitpid_eq h hpid, hfind]
    exact if_neg (by simp [hparent])
  obtain ⟨w, hw, hgood⟩ := hok []
  rw [hloop] at hw
  by_cases hz : (s.tasks (s.items x).val).status = .zombie
  · -- the thread is reaped in place of a child
    rcases waitpidLoop_zombie h hx hthread hz [] with herr | ⟨r, s', hret, hfreed⟩
    · rw [herr] at hw
      cases hw
    · rw [hret] at hw
      cases hw
      rcases hgood with ⟨s₁, hs₁, c, hc, -, -, -, hfreed'⟩ | ⟨-, -, hcode, -⟩
      · obtain rfl : s₁ = s := by simpa using hs₁
        rw [hfreed, List.cons.injEq] at hfreed'
        exact not_isChild_of_isThread hthread rfl (hfreed'.1 ▸ hc)
      · cases hcode
  · rw [waitpidLoop_live hx0 hz h.current.2] at hw
    cases hw
    obtain ⟨⟨c, hc⟩, -⟩ := hgood
    have hne : (s.items x).val ≠ c := by
      rintro rfl
      exact not_isChild_of_isThread hthread rfl hc
    obtain ⟨w, hw, hgood⟩ := hok [s.exited c]
    have hid : (s.exited c).current.id = s.current.id :=
      s.modify_view Task.id (fun _ => by rfl) c s.currentTask
    have hlive : ((s.exited c).tasks ((s.exited c).items x).val).status ≠ .zombie := by
      have hsame : (s.exited c).tasks (s.items x).val = s.tasks (s.items x).val :=
        s.modify_of_ne _ hne
      show ((s.exited c).tasks (s.items x).val).status ≠ .zombie
      rwa [hsame]
    have hseek : linkedListSeekUntil (s.exited c).items (isThread (s.exited c))
        (s.exited c).tasksList.first = .ok x := by
      rw [isThread_exited]
      exact (linkedListSeekUntil_eq h.tasks).trans (by rw [hfind]; rfl)
    rw [hloop, waitpidLoop_live hx0 hz h.current.2] at hw
    simp only [hseek, bind, Except.bind] at hw
    rw [if_neg (show (s.exited c).tasksList.count ≠ 0 from h.count),
      waitpidLoop_live hx0 hlive (hid ▸ h.current.2)] at hw
    cases hw
    exact hgood.2 c (isChild_exited hc) (by rw [State.exited, State.modify_self])

/-- **`waitpid`** does what it should exactly when the caller has no such child and the first thread
on the list belongs to another process. -/
theorem waitpidOk_iff (h : Lists s l lc) (hpid : 0 < pid) :
    WaitpidOk s pid ↔ (∀ c, ¬ IsChild s pid c) ∧
      ∃ x, l.find? (fun x => isThread s (s.items x)) = some x ∧
        (s.tasks (s.items x).val).parent ≠ s.currentTask := by
  constructor
  · intro hok
    cases hfind : l.find? (fun x => isThread s (s.items x)) with
    | none =>
      obtain ⟨w, hw, -⟩ := hok []
      rw [waitpid_eq h hpid, hfind] at hw
      cases hw
    | some x =>
      by_cases hparent : (s.tasks (s.items x).val).parent = s.currentTask
      · exact absurd hok (not_waitpidOk_of_thread h hpid hfind hparent)
      · refine ⟨?_, x, rfl, hparent⟩
        obtain ⟨w, hw, hgood⟩ := hok []
        rw [waitpid_eq h hpid, hfind] at hw
        simp only [if_pos hparent] at hw
        cases hw
        rcases hgood with ⟨s₁, hs₁, c, -, -, -, hcode, -⟩ | ⟨hno, -⟩
        · cases hcode
        · exact hno
  · rintro ⟨hno, x, hfind, hparent⟩ woken
    refine ⟨.returned echild none s, ?_, Or.inr ⟨hno, rfl, rfl, rfl⟩⟩
    rw [waitpid_eq h hpid, hfind]
    exact if_pos hparent

/-- **Waiting**: for every caller and all lists, `wait` never frees a zombie child and nothing else,
and `waitpid` does what it should exactly when the caller has no child with that process id and the
first task on the list that is not the main thread of its process was made by another one. -/
theorem wait_waitpid_ok_iff (h : Lists s l lc) :
    ¬ WaitOk s ∧ ∀ pid, 0 < pid →
      (WaitpidOk s pid ↔ (∀ c, ¬ IsChild s pid c) ∧
        ∃ x, l.find? (fun x => isThread s (s.items x)) = some x ∧
          (s.tasks (s.items x).val).parent ≠ s.currentTask) :=
  ⟨not_waitOk h, fun _ hpid => waitpidOk_iff h hpid⟩

end Waitpid

/-- A task at `16` with one child at `32`, which runs. -/
def parentAndChild : State where
  tasks := fun t =>
    if t = 16 then
      { id := 1, pid := 1, mainThread := 16
        childrenList := { first := 100, last := 100, current := 100, count := 1 } }
    else { id := 2, pid := 2, mainThread := 32, parent := 16 }
  items := fun x =>
    if x = 100 then { val := 32 } else if x = 200 then { val := 16, next := 216 } else { val := 32 }
  tasksList := { first := 200, last := 216, current := 200, count := 2 }
  currentTask := 16

/-- `wait` frees the child, and `waitpid` dereferences a null cursor. -/
theorem wait_frees_running_child :
    (∃ s, wait parentAndChild = .ok (2, s) ∧ s.freed = [32]) ∧
      (parentAndChild.tasks 32).status = .running ∧ ¬ WaitOk parentAndChild ∧
      waitpid parentAndChild 2 [] = .error .nullDeref := by
  have hwait : ∃ s, wait parentAndChild = .ok (2, s) ∧ s.freed = [32] := ⟨_, rfl, rfl⟩
  refine ⟨hwait, rfl, ?_, rfl⟩
  rintro ⟨-, hfreed⟩
  obtain ⟨s, hs, h32⟩ := hwait
  exact absurd (hfreed 2 s hs 32 h32).1 (by decide)

/-- A task at `16` without children, and a process at `48` with a thread at `64`. -/
def twoProcesses : State where
  tasks := fun t =>
    if t = 16 then { id := 1, pid := 1, mainThread := 16 }
    else if t = 48 then { id := 2, pid := 2, mainThread := 48 }
    else { id := 3, pid := 2, mainThread := 48, parent := 48 }
  items := fun x =>
    if x = 200 then { val := 16, next := 216 } else if x = 216 then { val := 48, next := 232 }
    else { val := 64 }
  tasksList := { first := 200, last := 232, current := 200, count := 3 }
  currentTask := 16

/-- There `waitpid` answers that there is no such child. -/
theorem wait_waitpid_ok_two_processes : WaitpidOk twoProcesses 5 := by
  have hlists : Lists twoProcesses [200, 216, 232] [] :=
    { tasks := ⟨by simp [twoProcesses, Chain], by decide⟩
      children := ⟨rfl, by simp⟩
      count := by decide
      current := by decide
      entry := by decide
      child := by simp }
  refine ((wait_waitpid_ok_iff hlists).2 5 (by decide)).mpr ⟨?_, 232, rfl, by decide⟩
  intro c hc
  have hpid : (twoProcesses.tasks c).pid = 5 := hc.pid
  simp only [twoProcesses] at hpid
  split at hpid
  · cases hpid
  · split at hpid <;> cases hpid

end Hydrax.Sched
