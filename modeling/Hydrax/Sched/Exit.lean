import Hydrax.Sched.Signal

/-!
# `exit`

`exit` of `kernel/scheduler.c`, from its assertions to the last switch away from the task.

While it signals the threads of its process, `exit` calls the scheduler after each of them. Other
tasks run then, and the scheduler delivers the signals of the exiting task when it comes back to it.
What the other tasks do is a relation `Others`, and a call of `exit` is a relation between the state
it is made in and its outcomes.

* `exitOk_iff` — `exit` completes exactly for the only thread of a process that its own `SIGKILL`
  does not reach.

The first entry of a process's `threads_list` is its main thread, so `exit` begins by sending itself
`SIGKILL`. A thread made by `clone` has an empty `threads_list`: it fails the entry assertion when it
calls `exit`, and also when the `SIGKILL` of its main thread makes it do so.
-/

namespace Hydrax.Sched

/-! ## The steps of `exit` -/

/-- The loop that makes the children of the task at `t` orphans. -/
def orphanChildren (t : Nat) : Nat → State → Except Stop State
  | 0, _ => .error .hang
  | fuel + 1, s =>
    if (s.tasks t).childrenList.first = 0 then .ok s
    else do
      let first := (s.tasks t).childrenList.first
      let s := s.modify (s.items first).val (fun c => { c with parent := 0 })
      let (list, _) ← linkedListRemoveFirstFree s.items (s.tasks t).childrenList
      orphanChildren t fuel (s.modify t (fun t => { t with childrenList := list }))

/-- Remove a thread from the list of its process. -/
def removeThread (s : State) : Except Stop State := do
  let main := s.current.mainThread
  let list := (s.tasks main).threadsList
  let iter ← linkedListSeekUntil s.items (fun i => i.val == s.currentTask) list.first
  let (list, _, _) ← linkedListRemoveCurrent s.items list iter
  return s.modify main (fun t => { t with threadsList := list })

/-- "If the current task has children make them all orphans". -/
def orphan (s : State) : Except Stop State :=
  if s.current.childrenList.count = 0 then .ok s else orphanChildren s.currentTask listFuel s

def zombie (s : State) (code : Int) : State :=
  s.modify s.currentTask (fun t => { t with status := .zombie, exitCode := code })

/-- The main thread frees the address space of the process, which leaves the lists alone. Another
thread takes itself off the list of threads. -/
def leaveProcess (s : State) : Except Stop State :=
  if s.currentTask = s.current.mainThread then .ok s else removeThread s

/-- Send `SIGCHLD` to the parent. -/
def signalParent (s : State) : Except Stop State := do
  if s.current.parent = 0 then return s
  else
    let (_, s) ← pthreadKillNolock s (s.tasks s.current.parent).id sigchld
    return s

/-- `exit` once the threads are signalled, up to the last switch. -/
def exitTail (s : State) (code : Int) : Except Stop State := do
  let s ← orphan s
  let s ← leaveProcess (zombie s code)
  signalParent s

/-! ## Other tasks -/

/-- The threads of the process with main thread `t` are the tasks of the items `l`, and they are on
the list of all tasks. -/
structure Threads (t : Nat) (s : State) (l : List Nat) : Prop where
  linked : Linked s.items (s.tasks t).threadsList l
  ids : ∀ x ∈ l, (s.tasks (s.items x).val).id ≠ 0
  listed : ∃ lt, Linked s.items s.tasksList lt ∧
    (∀ x ∈ l, ∃ y ∈ lt, (s.tasks (s.items y).val).id = (s.tasks (s.items x).val).id) ∧
    ∀ y ∈ lt, (s.tasks (s.items y).val).id = (s.tasks t).id → (s.items y).val = t

/-- What other tasks do while the task at `t` waits for its turn, none of them sending it a signal:
its parent may exit, and other threads of its process may make more threads. -/
structure Others (t : Nat) (s s' : State) : Prop where
  current : s'.currentTask = s.currentTask
  self : ∃ parent threads, s'.tasks t = { s.tasks t with parent := parent, threadsList := threads }
  children : ∀ l, Linked s.items (s.tasks t).childrenList l →
    Linked s'.items (s.tasks t).childrenList l
  threads : ∀ l, Threads t s l → ∃ new, Threads t s' (l ++ new) ∧
    (new ≠ [] → ∃ x ∈ l, (s.items x).val ≠ t) ∧ ∀ x ∈ l, (s'.items x).val = (s.items x).val ∧
      (s'.tasks (s.items x).val).id = (s.tasks (s.items x).val).id

theorem Others.refl (t : Nat) (s : State) : Others t s s :=
  ⟨rfl, ⟨_, _, rfl⟩, fun _ h => h,
    fun l h => ⟨[], by simpa using h, fun hne => absurd rfl hne, fun _ _ => ⟨rfl, rfl⟩⟩⟩

/-! ## Outcomes -/

/-- How a call of `exit` ends: it reaches the last switch, having signalled the threads with the ids
`killed`; or the kernel stops; or the task is made to call `exit` again; or it sleeps. -/
inductive Outcome where
  | completes (killed : List Int) (s : State)
  | stops (e : Stop)
  | reenters
  | asleep

inductive LoopEnd where
  | finished (killed : List Int) (s : State)
  | broken (o : Outcome)

/-- The loop of `exit` over its threads, from the iterator `iter` on. -/
inductive KillThreads (t : Nat) : State → Nat → List Int → LoopEnd → Prop where
  | done {s : State} {killed : List Int} : KillThreads t s 0 killed (.finished killed s)
  | turn {s s₁ s₂ : State} {iter next : Nat} {killed : List Int} {r : Int} {u : Task} {e : LoopEnd}
      (h0 : iter ≠ 0)
      (hkill : pthreadKillNolock s (s.tasks (s.items iter).val).id sigkill = .ok (r, s₁))
      (hothers : Others t s₁ s₂) (hback : resume (s₂.tasks t) = .ok (.back u))
      (hnext : linkedListMoveNext s₂.items iter = .ok next)
      (hrest : KillThreads t (s₂.modify t (fun _ => u)) next
        (if r = 0 then (s.tasks (s.items iter).val).id :: killed else killed) e) :
      KillThreads t s iter killed e
  | killStops {s : State} {iter : Nat} {killed : List Int} {e : Stop} (h0 : iter ≠ 0)
      (hkill : pthreadKillNolock s (s.tasks (s.items iter).val).id sigkill = .error e) :
      KillThreads t s iter killed (.broken (.stops e))
  | reenters {s s₁ s₂ : State} {iter : Nat} {killed : List Int} {r : Int} {u : Task} (h0 : iter ≠ 0)
      (hkill : pthreadKillNolock s (s.tasks (s.items iter).val).id sigkill = .ok (r, s₁))
      (hothers : Others t s₁ s₂) (hexits : resume (s₂.tasks t) = .ok (.exits u)) :
      KillThreads t s iter killed (.broken .reenters)
  | asleep {s s₁ s₂ : State} {iter : Nat} {killed : List Int} {r : Int} {u : Task} (h0 : iter ≠ 0)
      (hkill : pthreadKillNolock s (s.tasks (s.items iter).val).id sigkill = .ok (r, s₁))
      (hothers : Others t s₁ s₂) (hasleep : resume (s₂.tasks t) = .ok (.asleep u)) :
      KillThreads t s iter killed (.broken .asleep)
  | handlerStops {s s₁ s₂ : State} {iter : Nat} {killed : List Int} {r : Int} {e : Stop}
      (h0 : iter ≠ 0)
      (hkill : pthreadKillNolock s (s.tasks (s.items iter).val).id sigkill = .ok (r, s₁))
      (hothers : Others t s₁ s₂) (hstops : resume (s₂.tasks t) = .error e) :
      KillThreads t s iter killed (.broken (.stops e))
  /-- Another thread of the process is resumed, its signal handler calls `exit(-1)`, and the entry
  assertion fails. -/
  | threadStops {s s₁ s₂ : State} {iter x : Nat} {killed : List Int} {r : Int} {u : Task}
      {l : List Nat} (h0 : iter ≠ 0)
      (hkill : pthreadKillNolock s (s.tasks (s.items iter).val).id sigkill = .ok (r, s₁))
      (hothers : Others t s₁ s₂) (hl : Linked s₂.items (s₂.tasks t).threadsList l) (hx : x ∈ l)
      (hne : (s₂.items x).val ≠ t) (hlive : (s₂.tasks (s₂.items x).val).status ≠ .zombie)
      (hexits : resume (s₂.tasks (s₂.items x).val) = .ok (.exits u))
      (hentry : u.threadsList.count = 0) : KillThreads t s iter killed (.broken (.stops .assertFailed))

def finish (killed : List Int) : Except Stop State → Outcome
  | .ok s => .completes killed s
  | .error e => .stops e

/-- The two assertions at the entry of `exit`. -/
def State.PassesEntry (s : State) : Prop := s.current.id ≠ 0 ∧ s.current.threadsList.count ≠ 0

/-- `exit(code)`, called by the current task. -/
inductive Exits (s : State) (code : Int) : Outcome → Prop where
  | asserts (h : ¬ s.PassesEntry) : Exits s code (.stops .assertFailed)
  | broken {o : Outcome} (h : s.PassesEntry) (hmain : s.currentTask = s.current.mainThread)
      (hloop : KillThreads s.currentTask s s.current.threadsList.first [] (.broken o)) :
      Exits s code o
  | main {killed : List Int} {s₁ : State} (h : s.PassesEntry)
      (hmain : s.currentTask = s.current.mainThread)
      (hloop : KillThreads s.currentTask s s.current.threadsList.first [] (.finished killed s₁)) :
      Exits s code (finish killed (exitTail s₁ code))
  | thread (h : s.PassesEntry) (hmain : s.currentTask ≠ s.current.mainThread) :
      Exits s code (finish [] (exitTail s code))

/-- What `exit` should do: every outcome is that it completes, with a zombie that has the exit code
it was given, after all threads of the process have been sent `SIGKILL`. -/
def ExitOk (s : State) (code : Int) : Prop :=
  (∃ o, Exits s code o) ∧ ∀ o, Exits s code o → ∃ killed s', o = .completes killed s' ∧
    (s'.tasks s.currentTask).status = .zombie ∧ (s'.tasks s.currentTask).exitCode = code ∧
    (s.currentTask = s.current.mainThread →
      ∀ l, Linked s'.items (s'.tasks s.currentTask).threadsList l →
        ∀ x ∈ l, (s'.tasks (s'.items x).val).id ∈ killed)

/-! ## The tail -/

/-- Nothing but parents, lists of children and pending signals has changed. -/
structure TailStep (s s' : State) : Prop where
  items : s'.items = s.items
  tasksList : s'.tasksList = s.tasksList
  currentTask : s'.currentTask = s.currentTask
  tasks : ∀ u, ∃ parent children pending,
    s'.tasks u = { s.tasks u with parent := parent, childrenList := children, sigPending := pending }

theorem TailStep.refl (s : State) : TailStep s s := ⟨rfl, rfl, rfl, fun _ => ⟨_, _, _, rfl⟩⟩

theorem TailStep.trans {s₁ s₂ s₃ : State} (h : TailStep s₁ s₂) (h' : TailStep s₂ s₃) :
    TailStep s₁ s₃ := by
  refine ⟨h'.items.trans h.items, h'.tasksList.trans h.tasksList,
    h'.currentTask.trans h.currentTask, fun u => ?_⟩
  obtain ⟨_, _, _, h₁⟩ := h.tasks u
  obtain ⟨_, _, _, h₂⟩ := h'.tasks u
  rw [h₁] at h₂
  exact ⟨_, _, _, h₂⟩

theorem TailStep.views {s s' : State} (h : TailStep s s') (u : Nat) :
    (s'.tasks u).id = (s.tasks u).id ∧ (s'.tasks u).threadsList = (s.tasks u).threadsList := by
  obtain ⟨_, _, _, hu⟩ := h.tasks u
  rw [hu]
  exact ⟨rfl, rfl⟩

theorem tailStep_modify (s : State) (t : Nat) {f : Task → Task}
    (hf : ∀ u, ∃ parent children pending,
      f u = { u with parent := parent, childrenList := children, sigPending := pending }) :
    TailStep s (s.modify t f) := by
  refine ⟨rfl, rfl, rfl, fun u => ?_⟩
  by_cases hu : u = t
  · subst hu
    rw [State.modify_self]
    exact hf _
  · rw [State.modify_of_ne _ _ hu]
    exact ⟨_, _, _, rfl⟩

theorem tailStep_queue (s : State) (t sig : Nat) : TailStep s (s.modify t (queueSignal · sig)) := by
  apply tailStep_modify
  intro u
  obtain ⟨pending, h⟩ := queueSignal_pending u sig
  exact ⟨_, _, pending, h⟩

section Tail

variable {s : State} {l : List Nat} {t : Nat}

theorem orphanChildren_ok (h : Items s.items (s.tasks t).childrenList.first l) {fuel : Nat}
    (hfuel : l.length < fuel) : ∃ s', orphanChildren t fuel s = .ok s' ∧ TailStep s s' := by
  induction l, fuel, hfuel using Loop.fuel_induction generalizing s with
  | nil fuel =>
    exact ⟨s, if_pos h, .refl s⟩
  | cons x l fuel hfuel ih =>
    obtain ⟨hfirst, hx, hrest⟩ := h
    have hfirst0 : (s.tasks t).childrenList.first ≠ 0 := hfirst ▸ hx
    rw [orphanChildren, if_neg hfirst0]
    dsimp only
    have hparent : TailStep s (s.modify (s.items (s.tasks t).childrenList.first).val
        (fun c => { c with parent := 0 })) :=
      tailStep_modify s _ (fun _ => ⟨_, _, _, rfl⟩)
    have hlist : ((s.modify (s.items (s.tasks t).childrenList.first).val
        (fun c => { c with parent := 0 })).tasks t).childrenList = (s.tasks t).childrenList :=
      s.modify_view Task.childrenList (fun _ => by rfl) _ _
    generalize s.modify (s.items (s.tasks t).childrenList.first).val
      (fun c => { c with parent := 0 }) = s₁ at hparent hlist ⊢
    have hremove : linkedListRemoveFirstFree s₁.items (s₁.tasks t).childrenList =
        .ok ({ (s.tasks t).childrenList with scratch := x, first := (s.items x).next }, x) := by
      rw [hlist, hparent.items, linkedListRemoveFirstFree, if_neg hfirst0]
      simp [hfirst]
    simp only [hremove, bind, Except.bind]
    have hstep : TailStep s₁ (s₁.modify t (fun t' => { t' with childrenList :=
        { (s.tasks t).childrenList with scratch := x, first := (s.items x).next } })) :=
      tailStep_modify s₁ t (fun _ => ⟨_, _, _, rfl⟩)
    have hnext : ((s₁.modify t (fun t' => { t' with childrenList :=
        { (s.tasks t).childrenList with scratch := x, first := (s.items x).next } })).tasks
          t).childrenList.first = (s.items x).next := by
      rw [State.modify_self]
    generalize s₁.modify t (fun t' => { t' with childrenList :=
      { (s.tasks t).childrenList with scratch := x, first := (s.items x).next } }) = s₂
      at hstep hnext ⊢
    obtain ⟨s', hs', hrun⟩ := ih (s := s₂)
      (by rw [hnext, hstep.items, hparent.items]; exact hrest)
    exact ⟨s', hs', (hparent.trans hstep).trans hrun⟩

theorem queueAll_ok (sig : Nat) {iter : Nat} (h : Items s.items iter l) {fuel : Nat}
    (hfuel : l.length < fuel) : ∃ s', queueAll sig fuel s iter = .ok s' ∧ TailStep s s' := by
  induction l, fuel, hfuel using Loop.fuel_induction generalizing s iter with
  | nil fuel =>
    exact ⟨s, if_pos h, .refl s⟩
  | cons x l fuel hfuel ih =>
    obtain ⟨rfl, hx, hrest⟩ := h
    rw [queueAll, if_neg hx]
    have hstep := tailStep_queue s (s.items iter).val sig
    obtain ⟨s', hs', hrun⟩ := ih (s := s.modify (s.items iter).val (queueSignal · sig)) hrest
    exact ⟨s', hs', hstep.trans hrun⟩

theorem pthreadKillNolock_ok (h : Linked s.items s.tasksList l) (tid : Int) (sig : Nat) :
    ∃ r s', pthreadKillNolock s tid sig = .ok (r, s') ∧ TailStep s s' := by
  unfold pthreadKillNolock
  by_cases h0 : tid = 0
  · rw [if_pos h0]
    obtain ⟨s', hs', hstep⟩ :=
      queueAll_ok sig h.chain (length_lt_listFuel h.chain h.addresses)
    refine ⟨0, s', ?_, hstep⟩
    rw [hs']
    rfl
  · rw [if_neg h0]
    rcases @linkedListSeekUntil_cases _ (fun i => (s.tasks i.val).id == tid) _ _ h
      with ⟨hseek, -⟩ | ⟨y, -, hy, -, hseek⟩
    · refine ⟨-1, s, ?_, .refl s⟩
      rw [hseek]
      rfl
    · refine ⟨0, _, ?_, tailStep_queue s (s.items y).val sig⟩
      rw [hseek]
      simp only [bind, Except.bind, if_neg hy]
      rfl

theorem orphan_ok (h : Linked s.items s.current.childrenList l) :
    ∃ s', orphan s = .ok s' ∧ TailStep s s' := by
  unfold orphan
  split
  next => exact ⟨s, rfl, .refl s⟩
  next => exact orphanChildren_ok h.chain (length_lt_listFuel h.chain h.addresses)

theorem signalParent_ok (h : Linked s.items s.tasksList l) :
    ∃ s', signalParent s = .ok s' ∧ TailStep s s' := by
  unfold signalParent
  split
  next => exact ⟨s, rfl, .refl s⟩
  next =>
    obtain ⟨r, s', hs', hstep⟩ := pthreadKillNolock_ok h (s.tasks s.current.parent).id sigchld
    refine ⟨s', ?_, hstep⟩
    rw [hs']
    rfl

/-- **The tail of `exit`** leaves a zombie with the exit code. -/
theorem exitTail_ok {lc : List Nat} (code : Int)
    (hchildren : Linked s.items s.current.childrenList lc)
    (htasks : Linked s.items s.tasksList l) (hmain : s.currentTask = s.current.mainThread) :
    ∃ s', exitTail s code = .ok s' ∧ s'.items = s.items ∧
      (∀ u, (s'.tasks u).id = (s.tasks u).id ∧ (s'.tasks u).threadsList = (s.tasks u).threadsList) ∧
      (s'.tasks s.currentTask).status = .zombie ∧ (s'.tasks s.currentTask).exitCode = code := by
  obtain ⟨s₁, hs₁, h₁⟩ := orphan_ok hchildren
  have hleave : leaveProcess (zombie s₁ code) = .ok (zombie s₁ code) := by
    apply if_pos
    obtain ⟨_, _, _, hself⟩ := h₁.tasks s.currentTask
    show s₁.currentTask = ((zombie s₁ code).tasks s₁.currentTask).mainThread
    rw [zombie, State.modify_self, h₁.currentTask, hself]
    exact hmain
  obtain ⟨s₂, hs₂, h₂⟩ := signalParent_ok (s := zombie s₁ code) (l := l)
    (by show Linked s₁.items s₁.tasksList l; rw [h₁.items, h₁.tasksList]; exact htasks)
  have hzombie : (s₂.tasks s.currentTask).status = .zombie ∧
      (s₂.tasks s.currentTask).exitCode = code := by
    obtain ⟨_, _, _, hself⟩ := h₂.tasks s.currentTask
    rw [hself, zombie, h₁.currentTask, State.modify_self]
    exact ⟨rfl, rfl⟩
  refine ⟨s₂, ?_, h₂.items.trans h₁.items, fun u => ?_, hzombie⟩
  · unfold exitTail
    simp only [hs₁, hleave, bind, Except.bind]
    exact hs₂
  · have hid : ((zombie s₁ code).tasks u).id = (s₁.tasks u).id :=
      s₁.modify_view Task.id (fun _ => by rfl) _ _
    have hthreads : ((zombie s₁ code).tasks u).threadsList = (s₁.tasks u).threadsList :=
      s₁.modify_view Task.threadsList (fun _ => by rfl) _ _
    exact ⟨(h₂.views u).1.trans (hid.trans (h₁.views u).1),
      (h₂.views u).2.trans (hthreads.trans (h₁.views u).2)⟩

end Tail

/-! ## Resuming -/

section Resume

variable {t u : Task}

theorem resume_back_iff : (∃ u, resume t = .ok (.back u)) ↔ t.Survives := by
  unfold resume
  split
  next h0 =>
    refine ⟨fun _ k hk hbit => ?_, fun _ => ⟨t, rfl⟩⟩
    rw [getLsbD_deliverable hk, h0, BitVec.getLsbD_zero] at hbit
    cases hbit
  next => exact signalHandler_back_iff t

theorem resume_back (h : resume t = .ok (.back u)) :
    Handles t u ∧ ∀ j < 32, u.deliverable.getLsbD j = false := by
  unfold resume at h
  split at h
  next h0 =>
    cases h
    refine ⟨.refl _, fun j hj => ?_⟩
    rw [getLsbD_deliverable hj, h0, BitVec.getLsbD_zero]
    rfl
  next => exact signalLoop_back h

theorem survives_after_back (h : resume t = .ok (.back u)) (hshield : t.Shielded) :
    (queueSignal u sigkill).Survives := by
  obtain ⟨⟨_, _, _, rfl⟩, hnone⟩ := resume_back h
  exact survives_of_shielded hnone hshield

/-- The task with all signals at their defaults and `SIGKILL` pending. -/
def Task.doomed (t : Task) : Task :=
  { t with sigPending := fun _ => sigbit 8, sigmask := 0#32, sigAction := fun _ => .dfl }

theorem resume_doomed (t : Task) :
    ∃ u, resume t.doomed = .ok (.exits u) ∧ u.threadsList = t.threadsList := by
  have hlow : lowestBit t.doomed.deliverable = some 8 := by
    show lowestBit (sigbit 8 &&& ~~~ 0#32) = _
    decide
  obtain ⟨_, _, _, hsame⟩ := handles_take t.doomed 8
  have haction : ((t.doomed.takePending 8).noteDelivered 8).sigAction 8 = .dfl := by rw [hsame]; rfl
  have hresume : resume t.doomed = .ok (.exits ((t.doomed.takePending 8).noteDelivered 8)) := by
    rw [resume, if_neg (by show sigbit 8 ≠ 0; decide), signalHandler, signalLoop, hlow]
    simp only [handleSignal, haction, defaultAction]
  exact ⟨_, hresume, by rw [hsame]; rfl⟩

end Resume

/-! ## The loop over the threads -/

section Loop

variable {t : Nat} {s s' : State} {l : List Nat}

theorem Threads.congr (h : Threads t s l) (hitems : s'.items = s.items)
    (hlist : s'.tasksList = s.tasksList)
    (htasks : ∀ u, (s'.tasks u).id = (s.tasks u).id ∧
      (s'.tasks u).threadsList = (s.tasks u).threadsList) : Threads t s' l := by
  obtain ⟨hlinked, hids, lt, hlt, hlisted, hself⟩ := h
  refine ⟨?_, fun x hx => ?_, lt, ?_, fun x hx => ?_, fun y hy => ?_⟩
  · rw [hitems, (htasks t).2]
    exact hlinked
  · rw [hitems, (htasks _).1]
    exact hids x hx
  · rw [hitems, hlist]
    exact hlt
  · rw [hitems, (htasks _).1]
    obtain ⟨y, hy, heq⟩ := hlisted x hx
    exact ⟨y, hy, by rw [(htasks _).1]; exact heq⟩
  · rw [hitems, (htasks _).1, (htasks _).1]
    exact hself y hy

theorem TailStep.threads (hstep : TailStep s s') (h : Threads t s l) : Threads t s' l :=
  h.congr hstep.items hstep.tasksList hstep.views

theorem pthreadKill_self (h : Threads t s l) {x : Nat} (hx : x ∈ l) (hval : (s.items x).val = t) :
    pthreadKillNolock s (s.tasks (s.items x).val).id sigkill =
      .ok (0, s.modify t (queueSignal · sigkill)) := by
  obtain ⟨-, hids, lt, hlt, hlisted, hself⟩ := h
  unfold pthreadKillNolock
  rw [if_neg (hids x hx)]
  rcases @linkedListSeekUntil_cases _
    (fun i => (s.tasks i.val).id == (s.tasks (s.items x).val).id) _ _ hlt
    with ⟨-, hnone⟩ | ⟨y, hy, hy0, hcond, hseek⟩
  · obtain ⟨y, hy, heq⟩ := hlisted x hx
    have := hnone y hy
    simp [heq] at this
  · have hid : (s.tasks (s.items y).val).id = (s.tasks (s.items x).val).id := by
      simpa using hcond
    rw [hseek]
    simp only [bind, Except.bind, if_neg hy0, hself y hy (by rw [hid, hval])]
    rfl

theorem Others.alone (h : Others t s s') (hl : Threads t s l)
    (halone : ∀ x ∈ l, (s.items x).val = t) :
    Threads t s' l ∧ ∀ x ∈ l, (s'.items x).val = t := by
  obtain ⟨new, hnew, honly, hsame⟩ := h.threads l hl
  have hnil : new = [] := by
    by_contra hne
    obtain ⟨x, hx, hval⟩ := honly hne
    exact hval (halone x hx)
  rw [hnil, List.append_nil] at hnew
  exact ⟨hnew, fun x hx => (hsame x hx).1.trans (halone x hx)⟩

/-- What holds at the head of the loop of a process with one thread: it has been signalled for the
items in `l`, those in `r` are to come, and it is safe from what it sends itself. -/
structure LoopInv (t : Nat) (s : State) (iter : Nat) (killed : List Int) (l r lc : List Nat) :
    Prop where
  current : s.currentTask = t
  main : (s.tasks t).mainThread = t
  children : Linked s.items (s.tasks t).childrenList lc
  threads : Threads t s (l ++ r)
  alone : ∀ x ∈ l ++ r, (s.items x).val = t
  rest : Items s.items iter r
  killed : ∀ x ∈ l, (s.tasks (s.items x).val).id ∈ killed
  queued : (queueSignal (s.tasks t) sigkill).Survives

variable {iter x : Nat} {killed : List Int} {r lc : List Nat} {u : Task} {s₁ s₂ : State} {res : Int}

/-- The fields of the exiting task that sending signals and other tasks leave alone. -/
structure SameTask (t u : Task) : Prop where
  id : u.id = t.id
  mainThread : u.mainThread = t.mainThread
  childrenList : u.childrenList = t.childrenList
  sigmask : u.sigmask = t.sigmask
  sigAction : u.sigAction = t.sigAction

theorem sameTask_queue (t : Task) : SameTask t (queueSignal t sigkill) := by
  obtain ⟨p, hp⟩ := queueSignal_pending t sigkill
  rw [hp]
  exact ⟨rfl, rfl, rfl, rfl, rfl⟩

theorem SameTask.shielded {t u : Task} (h : SameTask t u) (ht : t.Shielded) : u.Shielded := by
  unfold Task.Shielded
  rw [h.sigmask, h.sigAction]
  exact ht

theorem LoopInv.kill (h : LoopInv t s iter killed l (x :: r) lc) :
    pthreadKillNolock s (s.tasks (s.items iter).val).id sigkill =
      .ok (0, s.modify t (queueSignal · sigkill)) := by
  obtain ⟨rfl, -, -⟩ := h.rest
  exact pthreadKill_self h.threads (by simp) (h.alone iter (by simp))

theorem LoopInv.others (h : LoopInv t s iter killed l r lc)
    (hothers : Others t (s.modify t (queueSignal · sigkill)) s₂) :
    Threads t s₂ (l ++ r) ∧ (∀ x ∈ l ++ r, (s₂.items x).val = t) ∧
      SameTask (s.tasks t) (s₂.tasks t) ∧ (s₂.tasks t).Survives := by
  obtain ⟨hthreads, halone⟩ :=
    hothers.alone ((tailStep_queue s t sigkill).threads h.threads) h.alone
  obtain ⟨parent, threads, hself⟩ := hothers.self
  rw [State.modify_self] at hself
  have hqueue := sameTask_queue (s.tasks t)
  refine ⟨hthreads, halone, ?_, ?_⟩
  · rw [hself]
    exact { hqueue with }
  · rw [hself]
    exact (SameSignals.survives_iff ⟨rfl, rfl, fun _ => rfl⟩).mpr h.queued

theorem LoopInv.next (h : LoopInv t s iter killed l (x :: r) lc)
    (hothers : Others t (s.modify t (queueSignal · sigkill)) s₂)
    (hback : resume (s₂.tasks t) = .ok (.back u)) :
    LoopInv t (s₂.modify t (fun _ => u)) (s₂.items iter).next
      ((s.tasks (s.items iter).val).id :: killed) (l ++ [x]) r lc := by
  obtain ⟨rfl, -, -⟩ := h.rest
  obtain ⟨hthreads, halone, htask, -⟩ := h.others hothers
  have hqueued := survives_after_back hback (htask.shielded (shielded_of_survives h.queued))
  obtain ⟨p, d, st, rfl⟩ := (resume_back hback).1
  -- the handler changes signals and the status, so the lists are those of `s₂`
  have hviews : ∀ w, ((s₂.modify t (fun _ => { s₂.tasks t with
        sigPending := p, sigDelivered := d, status := st })).tasks w).id = (s₂.tasks w).id ∧
      ((s₂.modify t (fun _ => { s₂.tasks t with
        sigPending := p, sigDelivered := d, status := st })).tasks w).threadsList =
        (s₂.tasks w).threadsList := by
    intro w
    by_cases hw : w = t
    · subst hw
      rw [State.modify_self]
      exact ⟨rfl, rfl⟩
    · rw [State.modify_of_ne _ _ hw]
      exact ⟨rfl, rfl⟩
  have happend : l ++ [iter] ++ r = l ++ iter :: r := by simp
  refine ⟨hothers.current.trans h.current, ?_, ?_, ?_, ?_,
    hthreads.linked.chain.of_append_cons.2.2, fun y hy => ?_, ?_⟩
  · rw [State.modify_self]
    exact htask.mainThread.trans h.main
  · rw [State.modify_self]
    show Linked s₂.items (s₂.tasks t).childrenList lc
    have hchildren := hothers.children lc
    rw [State.modify_self, (sameTask_queue _).childrenList] at hchildren
    rw [htask.childrenList]
    exact hchildren h.children
  · rw [happend]
    exact hthreads.congr rfl rfl hviews
  · rw [happend]
    exact halone
  · have hval : (s₂.items y).val = t := halone y (by simp at hy ⊢; tauto)
    have hiter := h.alone iter (by simp)
    show ((s₂.modify t _).tasks (s₂.items y).val).id ∈ _
    rw [(hviews _).1, hval, htask.id, hiter]
    exact List.mem_cons_self
  · rw [State.modify_self]
    exact hqueued

theorem LoopInv.cons_of_ne_zero (h : LoopInv t s iter killed l r lc) (h0 : iter ≠ 0) :
    ∃ x r', r = x :: r' := by
  cases r with
  | nil => exact absurd h.rest h0
  | cons x r => exact ⟨x, r, rfl⟩

theorem LoopInv.kill_eq (h : LoopInv t s iter killed l r lc) (h0 : iter ≠ 0)
    (hkill : pthreadKillNolock s (s.tasks (s.items iter).val).id sigkill = .ok (res, s₁)) :
    res = 0 ∧ s₁ = s.modify t (queueSignal · sigkill) := by
  obtain ⟨x, r, rfl⟩ := h.cons_of_ne_zero h0
  rw [h.kill] at hkill
  cases hkill
  exact ⟨rfl, rfl⟩

theorem LoopInv.resume_back (h : LoopInv t s iter killed l r lc) (h0 : iter ≠ 0)
    (hkill : pthreadKillNolock s (s.tasks (s.items iter).val).id sigkill = .ok (res, s₁))
    (hothers : Others t s₁ s₂) : ∃ u, resume (s₂.tasks t) = .ok (.back u) := by
  obtain ⟨-, rfl⟩ := h.kill_eq h0 hkill
  exact resume_back_iff.mpr (h.others hothers).2.2.2

/-- **Every run of the loop** signals all threads and comes to its end. -/
theorem KillThreads.finishes {e : LoopEnd} (hloop : KillThreads t s iter killed e)
    (h : LoopInv t s iter killed l r lc) :
    ∃ killed' s' l', e = .finished killed' s' ∧ LoopInv t s' 0 killed' l' [] lc := by
  induction hloop generalizing l r with
  | @done s killed =>
    cases r with
    | nil => exact ⟨killed, s, l, rfl, h⟩
    | cons x r => exact absurd h.rest.1.symm h.rest.2.1
  | turn h0 hkill hothers hback hnext _ ih =>
    obtain ⟨x, r, rfl⟩ := h.cons_of_ne_zero h0
    obtain ⟨rfl, rfl⟩ := h.kill_eq h0 hkill
    rw [linkedListMoveNext, if_neg h0] at hnext
    cases hnext
    exact ih (h.next hothers hback)
  | killStops h0 hkill =>
    obtain ⟨x, r, rfl⟩ := h.cons_of_ne_zero h0
    rw [h.kill] at hkill
    cases hkill
  | reenters h0 hkill hothers hend =>
    obtain ⟨u, hback⟩ := h.resume_back h0 hkill hothers
    rw [hback] at hend
    cases hend
  | asleep h0 hkill hothers hend =>
    obtain ⟨u, hback⟩ := h.resume_back h0 hkill hothers
    rw [hback] at hend
    cases hend
  | handlerStops h0 hkill hothers hend =>
    obtain ⟨u, hback⟩ := h.resume_back h0 hkill hothers
    rw [hback] at hend
    cases hend
  | threadStops h0 hkill hothers hl hx hne =>
    -- there is no other thread
    obtain ⟨-, rfl⟩ := h.kill_eq h0 hkill
    obtain ⟨hthreads, halone, -⟩ := h.others hothers
    obtain rfl := hl.chain.unique hthreads.linked.chain
    exact absurd (halone _ hx) hne

theorem LoopInv.run (h : LoopInv t s iter killed l r lc) :
    ∃ killed' s', KillThreads t s iter killed (.finished killed' s') := by
  induction r generalizing s iter killed l with
  | nil =>
    obtain rfl : iter = 0 := h.rest
    exact ⟨killed, s, .done⟩
  | cons x r ih =>
    have h0 : iter ≠ 0 := h.rest.1 ▸ h.rest.2.1
    have hothers := Others.refl t (s.modify t (queueSignal · sigkill))
    obtain ⟨u, hback⟩ := h.resume_back h0 h.kill hothers
    obtain ⟨killed', s', hrun⟩ := ih (h.next hothers hback)
    exact ⟨killed', s', .turn h0 h.kill hothers hback (if_neg h0) hrun⟩

end Loop

/-! ## `exit` -/

/-- The current task was made by `fork`: it is the main thread of its process, and the first on its
list of threads. The others were made by `clone`, and none got past the entry assertion of `exit`. -/
structure MadeByFork (s : State) (l lc : List Nat) : Prop where
  id : s.current.id ≠ 0
  main : s.current.mainThread = s.currentTask
  count : s.current.threadsList.count ≠ 0
  nonempty : l ≠ []
  first : (s.items s.current.threadsList.first).val = s.currentTask
  threads : Threads s.currentTask s l
  cloned : ∀ x ∈ l, (s.items x).val ≠ s.currentTask →
    (s.tasks (s.items x).val).threadsList = {} ∧ (s.tasks (s.items x).val).status ≠ .zombie
  children : Linked s.items s.current.childrenList lc

/-- The current task was made by `clone`: its own list of threads is empty. -/
structure MadeByClone (s : State) : Prop where
  main : s.current.mainThread ≠ s.currentTask
  empty : s.current.threadsList = {}

def State.SingleThreaded (s : State) : Prop :=
  ∀ l, Linked s.items s.current.threadsList l → ∀ x ∈ l, (s.items x).val = s.currentTask

section Exit

variable {s : State} {l lc : List Nat} {code : Int}

theorem MadeByFork.passesEntry (h : MadeByFork s l lc) : s.PassesEntry := ⟨h.id, h.count⟩

theorem MadeByFork.loopInv (h : MadeByFork s l lc) (hsingle : s.SingleThreaded)
    (hsurvives : (queueSignal s.current sigkill).Survives) :
    LoopInv s.currentTask s s.current.threadsList.first [] [] l lc :=
  ⟨rfl, h.main, h.children, h.threads, hsingle l h.threads.linked, h.threads.linked.chain, by simp,
    hsurvives⟩

theorem MadeByFork.exitOk (h : MadeByFork s l lc) (hsingle : s.SingleThreaded)
    (hsurvives : (queueSignal s.current sigkill).Survives) : ExitOk s code := by
  have hinv := h.loopInv hsingle hsurvives
  refine ⟨?_, fun o ho => ?_⟩
  · obtain ⟨killed, s₁, hrun⟩ := hinv.run
    exact ⟨_, .main h.passesEntry h.main.symm hrun⟩
  · cases ho with
    | asserts hentry => exact absurd h.passesEntry hentry
    | thread _ hmain => exact absurd h.main.symm hmain
    | broken _ _ hloop =>
      obtain ⟨_, _, _, hend, -⟩ := hloop.finishes hinv
      cases hend
    | @main killed s₁ _ _ hloop =>
      obtain ⟨_, _, l₁, hend, hinv₁⟩ := hloop.finishes hinv
      cases hend
      have hcur : s₁.current = s₁.tasks s.currentTask := by
        rw [State.current, hinv₁.current]
      obtain ⟨lt, hlt, -⟩ := hinv₁.threads.listed
      obtain ⟨s', htail, hitems, hviews, hstatus, hcode⟩ := exitTail_ok code
        (by rw [hcur]; exact hinv₁.children) hlt
        (by rw [hcur, hinv₁.current]; exact hinv₁.main.symm)
      rw [hinv₁.current] at hstatus hcode
      refine ⟨killed, s', by rw [htail]; rfl, hstatus, hcode, fun _ l' hl' x hx => ?_⟩
      have hl₁ := hinv₁.threads.linked
      rw [List.append_nil] at hl₁
      rw [hitems, (hviews _).2] at hl'
      obtain rfl := hl'.chain.unique hl₁.chain
      rw [hitems, (hviews _).1]
      exact hinv₁.killed x hx

theorem MadeByFork.first_turn (h : MadeByFork s l lc) (code : Int) :
    s.current.threadsList.first ≠ 0 ∧
      pthreadKillNolock s (s.tasks (s.items s.current.threadsList.first).val).id sigkill =
        .ok (0, s.modify s.currentTask (queueSignal · sigkill)) ∧
      (ExitOk s code → ∀ o, KillThreads s.currentTask s s.current.threadsList.first [] (.broken o) →
        ∃ killed s', o = .completes killed s') := by
  obtain ⟨x, r, rfl⟩ := List.exists_cons_of_ne_nil h.nonempty
  obtain ⟨hfirst, hx0, -⟩ := h.threads.linked.chain
  have hx : s.current.threadsList.first = x := hfirst
  refine ⟨hx ▸ hx0, pthreadKill_self h.threads (by rw [hx]; exact List.mem_cons_self) h.first, ?_⟩
  rintro ⟨-, hall⟩ o ho
  obtain ⟨killed, s', heq, -⟩ := hall o (.broken h.passesEntry h.main.symm ho)
  exact ⟨killed, s', heq⟩

theorem MadeByFork.not_exitOk (h : MadeByFork s l lc)
    (hsurvives : ¬ (queueSignal s.current sigkill).Survives) : ¬ ExitOk s code := by
  intro hok
  obtain ⟨h0, hkill, hbad⟩ := h.first_turn code
  have hothers := Others.refl s.currentTask (s.modify s.currentTask (queueSignal · sigkill))
  have hresume : ¬ ∃ u, resume ((s.modify s.currentTask (queueSignal · sigkill)).tasks
      s.currentTask) = .ok (.back u) := by
    rw [resume_back_iff, State.modify_self]
    exact hsurvives
  cases hend : resume ((s.modify s.currentTask (queueSignal · sigkill)).tasks s.currentTask) with
  | error e =>
    obtain ⟨_, _, heq⟩ := hbad hok _ (.handlerStops h0 hkill hothers hend)
    cases heq
  | ok handled =>
    cases handled with
    | back u => exact hresume ⟨u, hend⟩
    | exits u =>
      obtain ⟨_, _, heq⟩ := hbad hok _ (.reenters h0 hkill hothers hend)
      cases heq
    | asleep u =>
      obtain ⟨_, _, heq⟩ := hbad hok _ (.asleep h0 hkill hothers hend)
      cases heq

theorem Threads.doomed {t : Nat} (h : Threads t s l) (w : Nat) :
    Threads t (s.modify w Task.doomed) l :=
  h.congr rfl rfl (fun _ => ⟨s.modify_view Task.id (fun _ => by rfl) _ _,
    s.modify_view Task.threadsList (fun _ => by rfl) _ _⟩)

theorem others_doomed {t w : Nat} (hw : w ≠ t) : Others t s (s.modify w Task.doomed) := by
  refine ⟨rfl, ⟨_, _, State.modify_of_ne _ _ hw.symm⟩, fun _ hl => hl, fun l hl => ⟨[], ?_,
    fun hne => absurd rfl hne, fun x _ => ⟨rfl, s.modify_view Task.id (fun _ => by rfl) _ _⟩⟩⟩
  rw [List.append_nil]
  exact hl.doomed w

theorem MadeByFork.singleThreaded (h : MadeByFork s l lc) (hok : ExitOk s code) :
    s.SingleThreaded := by
  intro l' hl' x hx
  obtain rfl := hl'.chain.unique h.threads.linked.chain
  by_contra hne
  obtain ⟨h0, hkill, hbad⟩ := h.first_turn code
  obtain ⟨hempty, hlive⟩ := h.cloned x hx hne
  obtain ⟨u, hexits, hthreads⟩ := resume_doomed (s.tasks (s.items x).val)
  have hw : ((s.modify s.currentTask (queueSignal · sigkill)).modify (s.items x).val
      Task.doomed).tasks (s.items x).val = (s.tasks (s.items x).val).doomed := by
    rw [State.modify_self, State.modify_of_ne _ _ hne]
  have hlist := ((tailStep_queue s s.currentTask sigkill).threads h.threads).doomed (s.items x).val
  rw [← hw] at hexits
  obtain ⟨_, _, heq⟩ := hbad hok _ (.threadStops h0 hkill (others_doomed hne) hlist.linked hx hne
    (hw ▸ hlive) hexits (by rw [hthreads, hempty]))
  cases heq

theorem MadeByClone.not_exitOk (h : MadeByClone s) : ¬ ExitOk s code := by
  rintro ⟨-, hall⟩
  obtain ⟨_, _, heq, -⟩ := hall _ (.asserts (fun hentry => hentry.2 (by rw [h.empty])))
  cases heq

end Exit

/-- A process with one thread, at `16`, that blocks the signals in `mask`. -/
def singleThread (mask : BitVec 32) : State where
  tasks := fun _ =>
    { id := 1, pid := 1, mainThread := 16, sigmask := mask
      threadsList := { first := 100, last := 100, current := 100, count := 1 } }
  items := fun _ => { val := 16 }
  tasksList := { first := 200, last := 200, current := 200, count := 1 }
  currentTask := 16

theorem madeByFork_singleThread (mask : BitVec 32) : MadeByFork (singleThread mask) [100] [] where
  id := by simp [singleThread, State.current]
  main := rfl
  count := by simp [singleThread, State.current]
  nonempty := by simp
  first := rfl
  threads := by
    refine ⟨⟨⟨rfl, by decide, rfl⟩, by decide⟩, fun x _ => by simp [singleThread], [200],
      ⟨⟨rfl, by decide, rfl⟩, by decide⟩, fun x _ => ⟨200, by simp, rfl⟩, fun y _ _ => rfl⟩
  cloned := fun _ _ hne => absurd rfl hne
  children := ⟨rfl, by simp⟩

end Hydrax.Sched
