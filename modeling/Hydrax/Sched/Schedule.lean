import Mathlib.Data.List.Find
import Hydrax.Sched.State
import Hydrax.RoundRobin

/-!
# The scheduler

`schedule_prelocked` of `kernel/scheduler.c`, up to the switch to the task that it selects. It goes
through `tasks_list` from the item after the cursor on, and from the first item again when it has
come to the end.

* `schedulePrelocked_eq` — the call selects the task whose turn it is,
* `schedule_round_robin` — the same over any number of calls.
-/

namespace Hydrax.Sched

open RoundRobin

/-- What the scheduler needs beside the tasks: the address of `idle_task`, and the kernel stacks in
the machine states. -/
structure Cpu where
  idle : Nat
  kernelStack : Nat → Nat

def itemVal (items : Nat → Item) (current : Nat) : Nat :=
  if current = 0 then 0 else (items current).val

def State.setCursor (s : State) (current : Nat) : State :=
  { s with tasksList := { s.tasksList with current := current } }

/-- `LINKED_LIST_MOVE_NEXT(tasks_list)`. -/
def State.moveNext (s : State) : Except Stop (Nat × State) := do
  let current ← linkedListMoveNext s.items s.tasksList.current
  .ok (itemVal s.items current, s.setCursor current)

/-- `LINKED_LIST_MOVE_FIRST(tasks_list)`. -/
def State.moveFirst (s : State) : Nat × State :=
  (itemVal s.items s.tasksList.first, { s with tasksList := linkedListMoveFirst s.tasksList })

def Task.wake (t : Task) : Task :=
  if t.sigPending 0 ≠ 0 ∧ t.status = .waiting then { t with status := .running } else t

/-- The loop looks at a task, and moves on with `next` if it is not ready to run. -/
def lookAt (cpu : Cpu) (next : Nat → State → Except Stop (Nat × State)) (tmp : Nat) (s : State) :
    Except Stop (Nat × State) :=
  if tmp = 0 then .error .nullDeref
  else
    let s := s.modify tmp Task.wake
    let tmp := if tmp = s.currentTask ∧ s.current.status ≠ .running then cpu.idle else tmp
    if (s.tasks tmp).status = .running then .ok (tmp, s)
    else do
      let (tmp, s) ← s.moveNext
      next tmp s

/-- The loop that looks for a task that is ready to run. It starts again when `tmp` is null for the
first time. -/
def selectLoop (cpu : Cpu) : Nat → Nat → Nat → State → Except Stop (Nat × State)
  | 0, _, _, _ => .error .hang
  | fuel + 1, x, tmp, s =>
    if tmp = 0 then
      if 0 < x then .ok (cpu.idle, s)
      else lookAt cpu (selectLoop cpu fuel (x + 1)) s.moveFirst.1 s.moveFirst.2
    else lookAt cpu (selectLoop cpu fuel x) tmp s

def switchTo (cpu : Cpu) (tmp : Nat) (s : State) : Except Stop (Nat × State) := do
  assert (tmp ≠ cpu.idle ∨ (s.tasks tmp).sigPending 0 = 0)
  assert (cpu.kernelStack tmp ≠ 0 ∨ tmp = cpu.idle)
  .ok (tmp, { s with currentTask := tmp })

/-- `schedule_prelocked`: the task that runs next. The loop goes through the list at most twice. -/
def schedulePrelocked (cpu : Cpu) (s : State) : Except Stop (Nat × State) :=
  if s.currentTask = cpu.idle ∧ s.tasksList.count = 0 then .ok (cpu.idle, s)
  else do
    let (tmp, s) ←
      if s.currentTask = cpu.idle then .ok s.moveFirst
      else if s.tasksList.current = 0 then .error .nullDeref
      else if (s.items s.tasksList.current).next = 0 ∧ s.tasksList.count = 0 then .ok (cpu.idle, s)
      else s.moveNext
    let (tmp, s) ← selectLoop cpu (2 * listFuel) 0 tmp s
    switchTo cpu tmp s

/-! ## Whose turn it is -/

/-- The task is ready to run, or it is going to be woken up. -/
def Task.runnable (t : Task) : Bool :=
  t.status = .running ∨ t.status = .waiting ∧ t.sigPending 0 ≠ 0

def State.tasksOf (s : State) (l : List Nat) : List Nat := l.map (fun x => (s.items x).val)

/-- `tasks_list` has the items of `l`, each with a task of its own. The idle task is none of them,
and it can always run. The current task is the idle one or that of the item at the cursor. -/
structure Ready (cpu : Cpu) (s : State) (l : List Nat) : Prop where
  list : WellFormed s.items s.tasksList l
  nodup : (s.tasksOf l).Nodup
  nonnull : 0 ∉ s.tasksOf l
  idle : cpu.idle ∉ s.tasksOf l
  idle_running : (s.tasks cpu.idle).status = .running
  idle_pending : (s.tasks cpu.idle).sigPending 0 = 0
  kernel_stack : ∀ t ∈ s.tasksOf l, cpu.kernelStack t ≠ 0
  current : s.currentTask = cpu.idle ∨
    s.tasksList.current ∈ l ∧ (s.items s.tasksList.current).val = s.currentTask

/-- The task that ran last, unless it is the idle one. -/
def State.last (cpu : Cpu) (s : State) : Option Nat :=
  if s.currentTask = cpu.idle then none else some s.currentTask

/-- The first task that can run, in cyclic order from the one after the current task on. -/
def State.nextTask (cpu : Cpu) (s : State) (l : List Nat) : Option Nat :=
  pick (fun t => (s.tasks t).runnable) (s.last cpu) (s.tasksOf l)

section Select

variable {cpu : Cpu} {s : State} {l pre post p q : List Nat} {a b c t tmp fuel x : Nat}

/-! ## The loop -/

theorem runnable_iff {u : Task} :
    u.runnable = true ↔ u.status = .running ∨ u.status = .waiting ∧ u.sigPending 0 ≠ 0 := by
  rw [Task.runnable, decide_eq_true_iff]

theorem wake_of_running {u : Task} (h : u.status = .running) : u.wake = u := by
  rw [Task.wake, if_neg]
  rintro ⟨-, hwaiting⟩
  rw [h] at hwaiting
  cases hwaiting

theorem wake_of_not_runnable {u : Task} (h : u.runnable = false) : u.wake = u := by
  rw [Task.wake, if_neg]
  rintro ⟨hpending, hwaiting⟩
  rw [runnable_iff.mpr (Or.inr ⟨hwaiting, hpending⟩)] at h
  cases h

theorem status_wake {u : Task} (h : u.runnable = true) : u.wake.status = .running := by
  rw [Task.wake]
  split
  next => rfl
  next hno =>
    rcases runnable_iff.mp h with hrunning | ⟨hwaiting, hpending⟩
    · exact hrunning
    · exact absurd ⟨hpending, hwaiting⟩ hno

theorem status_of_not_runnable {u : Task} (h : u.runnable = false) : u.status ≠ .running := by
  intro hrunning
  rw [runnable_iff.mpr (Or.inl hrunning)] at h
  cases h

theorem modify_wake_eq_self (h : (s.tasks t).wake = s.tasks t) : s.modify t Task.wake = s := by
  rw [State.modify, h, Function.update_eq_self]

theorem lookAt_stop (next : Nat → State → Except Stop (Nat × State)) (htmp : tmp ≠ 0)
    (h : (s.tasks tmp).runnable = true) :
    lookAt cpu next tmp s = .ok (tmp, s.modify tmp Task.wake) := by
  have hstatus : ((s.modify tmp Task.wake).tasks tmp).status = .running := by
    rw [State.modify_self]
    exact status_wake h
  have hcurrent : ¬ (tmp = (s.modify tmp Task.wake).currentTask ∧
      (s.modify tmp Task.wake).current.status ≠ .running) := by
    rintro ⟨heq, hne⟩
    rw [State.current, ← heq] at hne
    exact hne hstatus
  rw [lookAt, if_neg htmp]
  dsimp only
  rw [if_neg hcurrent, if_pos hstatus]

theorem lookAt_skip (next : Nat → State → Except Stop (Nat × State)) (htmp : tmp ≠ 0)
    (hcur : tmp ≠ s.currentTask) (h : (s.tasks tmp).runnable = false) :
    lookAt cpu next tmp s = s.moveNext >>= fun r => next r.1 r.2 := by
  have hcurrent : ¬ (tmp = s.currentTask ∧ s.current.status ≠ .running) := fun h => hcur h.1
  rw [lookAt, if_neg htmp]
  dsimp only
  rw [modify_wake_eq_self (wake_of_not_runnable h), if_neg hcurrent,
    if_neg (status_of_not_runnable h)]

theorem lookAt_idle (next : Nat → State → Except Stop (Nat × State)) (htmp : s.currentTask ≠ 0)
    (h : s.current.runnable = false) (hidle : (s.tasks cpu.idle).status = .running) :
    lookAt cpu next s.currentTask s = .ok (cpu.idle, s) := by
  have hcurrent : s.currentTask = s.currentTask ∧ s.current.status ≠ .running :=
    ⟨rfl, status_of_not_runnable h⟩
  rw [lookAt, if_neg htmp]
  dsimp only
  rw [modify_wake_eq_self (wake_of_not_runnable h), if_pos hcurrent, if_pos hidle]

theorem selectLoop_of_ne (htmp : tmp ≠ 0) :
    selectLoop cpu (fuel + 1) x tmp s = lookAt cpu (selectLoop cpu fuel x) tmp s := by
  rw [selectLoop, if_neg htmp]

theorem selectLoop_wrap (hfirst : itemVal s.items s.tasksList.first ≠ 0) :
    selectLoop cpu (fuel + 1) 0 0 s = selectLoop cpu (fuel + 1) 1
      (itemVal s.items s.tasksList.first) (s.setCursor s.tasksList.first) := by
  rw [selectLoop_of_ne hfirst, selectLoop, if_pos rfl, if_neg (Nat.lt_irrefl 0)]
  rfl

theorem selectLoop_end : selectLoop cpu (fuel + 1) 1 0 s = .ok (cpu.idle, s) := by
  rw [selectLoop, if_pos rfl, if_pos Nat.zero_lt_one]

/-- The task of an item is neither the current one nor one that can run. -/
def State.Passes (s : State) (c : Nat) : Prop :=
  (s.items c).val ≠ 0 ∧ (s.items c).val ≠ s.currentTask ∧
    (s.tasks (s.items c).val).runnable = false

theorem selectLoop_pass (cpu : Cpu) (fuel x : Nat) (hchain : Items s.items a (pre ++ post))
    (hpre : ∀ c ∈ pre, s.Passes c) :
    ∃ b, Items s.items b post ∧
      selectLoop cpu (fuel + pre.length) x (itemVal s.items a) (s.setCursor a) =
        selectLoop cpu fuel x (itemVal s.items b) (s.setCursor b) := by
  induction pre generalizing a with
  | nil => exact ⟨a, hchain, rfl⟩
  | cons c pre ih =>
    obtain ⟨rfl, ha, hrest⟩ := hchain
    obtain ⟨hval, hcur, hrun⟩ := hpre a List.mem_cons_self
    obtain ⟨b, hb, hloop⟩ := ih hrest (fun c hc => hpre c (List.mem_cons_of_mem _ hc))
    refine ⟨b, hb, ?_⟩
    have hitem : itemVal s.items a = (s.items a).val := if_neg ha
    have hmove : (s.setCursor a).moveNext =
        .ok (itemVal s.items (s.items a).next, s.setCursor (s.items a).next) := by
      rw [State.moveNext, linkedListMoveNext]
      change (if a = 0 then _ else _) >>= _ = _
      rw [if_neg ha]
      rfl
    rw [List.length_cons, ← Nat.add_assoc, hitem, selectLoop_of_ne hval,
      lookAt_skip (s := s.setCursor a) _ hval hcur hrun, hmove, Loop.ok_bind, hloop]

theorem selectLoop_found (hchain : Items s.items a (pre ++ c :: post))
    (hpre : ∀ c ∈ pre, s.Passes c) (hc : (s.items c).val ≠ 0)
    (hrun : (s.tasks (s.items c).val).runnable = true) (hfuel : pre.length < fuel) :
    selectLoop cpu fuel x (itemVal s.items a) (s.setCursor a) =
      .ok ((s.items c).val, (s.setCursor c).modify (s.items c).val Task.wake) := by
  obtain ⟨n, rfl⟩ := Nat.exists_eq_add_of_lt hfuel
  obtain ⟨b, hb, hloop⟩ := selectLoop_pass cpu (n + 1) x hchain hpre
  obtain ⟨rfl, hb0, -⟩ := hb
  have hitem : itemVal s.items b = (s.items b).val := if_neg hb0
  rw [show pre.length + n + 1 = n + 1 + pre.length by omega, hloop, hitem, selectLoop_of_ne hc,
    lookAt_stop (s := s.setCursor b) _ hc hrun]

/-! ## The selection -/

def State.runs (s : State) (c : Nat) : Bool := (s.tasks (s.items c).val).runnable

/-- The loop has selected the task, and left the cursor at its item. -/
def Selected (cpu : Cpu) (s : State) (l : List Nat) (t : Nat) (r : Except Stop (Nat × State)) :
    Prop :=
  ∃ c, r = .ok (t, (s.setCursor c).modify t Task.wake) ∧
    (t = cpu.idle ∨ c ∈ l ∧ (s.items c).val = t)

theorem Ready.length_lt (h : Ready cpu s l) : l.length < listFuel :=
  length_lt_listFuel h.list.chain h.list.addresses

theorem Ready.val_ne_zero (h : Ready cpu s l) (hc : c ∈ l) : (s.items c).val ≠ 0 :=
  fun heq => h.nonnull (List.mem_map.mpr ⟨c, hc, heq⟩)

theorem Ready.passes (h : Ready cpu s l) (hc : c ∈ l) (hcur : (s.items c).val ≠ s.currentTask)
    (hrun : s.runs c = false) : s.Passes c :=
  ⟨h.val_ne_zero hc, hcur, hrun⟩

theorem Ready.selected_idle (h : Ready cpu s l) (c : Nat) :
    Selected cpu s l cpu.idle (.ok (cpu.idle, s.setCursor c)) := by
  refine ⟨c, ?_, Or.inl rfl⟩
  rw [modify_wake_eq_self (s := s.setCursor c) (wake_of_running h.idle_running)]

theorem find?_runs_some (h : l.find? s.runs = some c) :
    s.runs c = true ∧ ∃ pre post, l = pre ++ c :: post ∧ ∀ d ∈ pre, s.runs d = false := by
  obtain ⟨hc, pre, post, rfl, hpre⟩ := List.find?_eq_some_iff_append.mp h
  exact ⟨hc, pre, post, rfl, fun d hd => by simpa using hpre d hd⟩

theorem find?_runs_none (h : l.find? s.runs = none) : ∀ d ∈ l, s.runs d = false := by
  intro d hd
  simpa using List.find?_eq_none.mp h d hd

theorem Ready.selectLoop_wrap (h : Ready cpu s l) (hne : l ≠ []) (n : Nat) :
    selectLoop cpu (n + 1) 0 0 (s.setCursor 0) = selectLoop cpu (n + 1) 1
      (itemVal s.items s.tasksList.first) (s.setCursor s.tasksList.first) := by
  apply Sched.selectLoop_wrap (s := s.setCursor 0)
  obtain ⟨c, l, rfl⟩ := List.exists_cons_of_ne_nil hne
  obtain ⟨hfirst, hc, -⟩ := h.list.chain
  change itemVal s.items s.tasksList.first ≠ 0
  rw [hfirst, itemVal, if_neg hc]
  exact h.val_ne_zero List.mem_cons_self

theorem Ready.select_first (h : Ready cpu s l) (hidle : s.currentTask = cpu.idle) (hne : l ≠ []) :
    Selected cpu s l (((l.find? s.runs).map (fun c => (s.items c).val)).getD cpu.idle)
      (selectLoop cpu (2 * listFuel) 0 (itemVal s.items s.tasksList.first)
        (s.setCursor s.tasksList.first)) := by
  have hlen := h.length_lt
  have hother : ∀ c ∈ l, (s.items c).val ≠ s.currentTask := by
    intro c hc heq
    exact h.idle (hidle ▸ heq ▸ List.mem_map_of_mem hc)
  cases hfind : l.find? s.runs with
  | some c =>
    obtain ⟨hrun, pre, post, rfl, hpre⟩ := find?_runs_some hfind
    have hc : c ∈ pre ++ c :: post := List.mem_append_right _ List.mem_cons_self
    have hpass : ∀ d ∈ pre, s.Passes d := by
      intro d hd
      have hmem : d ∈ pre ++ c :: post := List.mem_append_left _ hd
      exact h.passes hmem (hother d hmem) (hpre d hd)
    rw [List.length_append] at hlen
    rw [selectLoop_found h.list.chain hpass (h.val_ne_zero hc) hrun (by omega)]
    exact ⟨c, rfl, Or.inr ⟨hc, rfl⟩⟩
  | none =>
    -- the whole list is gone through twice
    have hpass : ∀ d ∈ l, s.Passes d :=
      fun d hd => h.passes hd (hother d hd) (find?_runs_none hfind d hd)
    have hchain : Items s.items s.tasksList.first (l ++ []) := by
      rw [List.append_nil]
      exact h.list.chain
    obtain ⟨n, hn⟩ : ∃ n, 2 * listFuel = n + 1 + l.length + l.length :=
      ⟨2 * listFuel - l.length - l.length - 1, by omega⟩
    obtain ⟨b, hb, hloop⟩ := selectLoop_pass cpu (n + 1 + l.length) 0 hchain hpass
    obtain ⟨b', hb', hloop'⟩ := selectLoop_pass cpu (n + 1) 1 hchain hpass
    obtain rfl : b = 0 := hb
    obtain rfl : b' = 0 := hb'
    have hzero : itemVal s.items 0 = 0 := rfl
    rw [hn, hloop, hzero, show n + 1 + l.length = n + l.length + 1 by omega,
      h.selectLoop_wrap hne, show n + l.length + 1 = n + 1 + l.length by omega, hloop', hzero,
      selectLoop_end]
    exact h.selected_idle 0

theorem Ready.select_next (h : Ready cpu s (p ++ c :: q))
    (hcur : (s.items c).val = s.currentTask) :
    Selected cpu s (p ++ c :: q)
      ((((q ++ (p ++ [c])).find? s.runs).map (fun c => (s.items c).val)).getD cpu.idle)
      (selectLoop cpu (2 * listFuel) 0 (itemVal s.items (s.items c).next)
        (s.setCursor (s.items c).next)) := by
  have hlen := h.length_lt
  rw [List.length_append, List.length_cons] at hlen
  have hmem : c ∈ p ++ c :: q := List.mem_append_right _ List.mem_cons_self
  have hother : ∀ d ∈ p ++ q, d ∈ p ++ c :: q ∧ (s.items d).val ≠ s.currentTask := by
    intro d hd
    have hnodup := h.nodup
    rw [State.tasksOf, List.map_append, List.map_cons, List.nodup_middle, List.nodup_cons,
      ← List.map_append] at hnodup
    refine ⟨by simp only [List.mem_append, List.mem_cons] at hd ⊢; tauto, fun heq => ?_⟩
    exact hnodup.1 (List.mem_map.mpr ⟨d, hd, heq.trans hcur.symm⟩)
  have hpass : ∀ d ∈ p ++ q, s.runs d = false → s.Passes d :=
    fun d hd hrun => h.passes (hother d hd).1 (hother d hd).2 hrun
  have hchain : Items s.items (s.items c).next q := h.list.chain.of_append_cons.2.2
  rw [List.find?_append, List.find?_append]
  cases hq : q.find? s.runs with
  | some d =>
    obtain ⟨hrun, pre, post, rfl, hpre⟩ := find?_runs_some hq
    have hd : d ∈ p ++ (pre ++ d :: post) := by simp
    have hpass' : ∀ e ∈ pre, s.Passes e := fun e he => hpass e (by simp [he]) (hpre e he)
    rw [List.length_append] at hlen
    rw [selectLoop_found hchain hpass' (h.val_ne_zero (hother d hd).1) hrun (by omega)]
    exact ⟨d, rfl, Or.inr ⟨(hother d hd).1, rfl⟩⟩
  | none =>
    -- the end of the list is reached, and the loop starts again at the first item
    have hq' : ∀ d ∈ q, s.Passes d :=
      fun d hd => hpass d (List.mem_append_right _ hd) (find?_runs_none hq d hd)
    obtain ⟨n, hn⟩ : ∃ n, 2 * listFuel = n + p.length + 1 + q.length :=
      ⟨2 * listFuel - q.length - 1 - p.length, by omega⟩
    have hchain' : Items s.items (s.items c).next (q ++ []) := by
      rw [List.append_nil]
      exact hchain
    obtain ⟨b, hb, hloop⟩ := selectLoop_pass cpu (n + p.length + 1) 0 hchain' hq'
    obtain rfl : b = 0 := hb
    have hzero : itemVal s.items 0 = 0 := rfl
    rw [hn, hloop, hzero, h.selectLoop_wrap (by simp)]
    cases hp : p.find? s.runs with
    | some d =>
      obtain ⟨hrun, pre, post, rfl, hpre⟩ := find?_runs_some hp
      have hd : d ∈ (pre ++ d :: post) ++ q := by simp
      have hpass' : ∀ e ∈ pre, s.Passes e := fun e he => hpass e (by simp [he]) (hpre e he)
      have hchain' : Items s.items s.tasksList.first (pre ++ d :: (post ++ c :: q)) := by
        simpa using h.list.chain
      rw [selectLoop_found hchain' hpass' (h.val_ne_zero (hother d hd).1) hrun
        (by rw [List.length_append]; omega)]
      exact ⟨d, rfl, Or.inr ⟨(hother d hd).1, rfl⟩⟩
    | none =>
      have hp' : ∀ d ∈ p, s.Passes d :=
        fun d hd => hpass d (List.mem_append_left _ hd) (find?_runs_none hp d hd)
      obtain ⟨b, hb, hloop'⟩ := selectLoop_pass cpu (n + 1) 1 h.list.chain hp'
      obtain ⟨rfl, hb0, -⟩ := hb
      have hitem : itemVal s.items b = (s.items b).val := if_neg hb0
      rw [show n + p.length + 1 = n + 1 + p.length by omega, hloop', hitem,
        selectLoop_of_ne (h.val_ne_zero hmem)]
      cases hrun : s.runs b with
      | true =>
        rw [lookAt_stop (s := s.setCursor b) _ (h.val_ne_zero hmem) hrun]
        simp only [List.find?_singleton, hrun]
        exact ⟨b, rfl, Or.inr ⟨hmem, rfl⟩⟩
      | false =>
        have hcurrent : (s.setCursor b).current.runnable = false := by
          rw [State.current, show (s.setCursor b).currentTask = s.currentTask from rfl,
            ← hcur]
          exact hrun
        have hidle : lookAt cpu (selectLoop cpu n 1) s.currentTask (s.setCursor b) =
            .ok (cpu.idle, s.setCursor b) :=
          lookAt_idle (s := s.setCursor b) _ (hcur ▸ h.val_ne_zero hmem) hcurrent
            h.idle_running
        rw [hcur, hidle]
        simp only [List.find?_singleton, hrun]
        exact h.selected_idle b

/-! ## Whole calls -/

/-- The state after the switch to a task, whose item is at the cursor. -/
def State.switch (s : State) (t c : Nat) : State :=
  { (s.setCursor c).modify t Task.wake with currentTask := t }

theorem nextTask_idle (hidle : s.currentTask = cpu.idle) :
    s.nextTask cpu l = (l.find? s.runs).map (fun c => (s.items c).val) := by
  rw [State.nextTask, pick, State.last, if_pos hidle]
  exact List.find?_map ..

theorem Ready.nextTask_cursor (h : Ready cpu s (p ++ c :: q))
    (hcur : (s.items c).val = s.currentTask) (hidle : s.currentTask ≠ cpu.idle) :
    s.nextTask cpu (p ++ c :: q) =
      ((q ++ (p ++ [c])).find? s.runs).map (fun c => (s.items c).val) := by
  have hnodup := h.nodup
  rw [State.tasksOf, List.map_append, List.map_cons, hcur] at hnodup
  have horder : order (some s.currentTask) (s.tasksOf (p ++ c :: q)) =
      (q ++ (p ++ [c])).map (fun c => (s.items c).val) := by
    rw [State.tasksOf, List.map_append, List.map_cons, hcur,
      order_append_cons (notMem_of_nodup hnodup)]
    simp [hcur]
  rw [State.nextTask, pick, State.last, if_neg hidle, horder]
  exact List.find?_map ..

theorem Ready.last_mem (h : Ready cpu s l) : ∀ c ∈ s.last cpu, c ∈ s.tasksOf l := by
  intro c hc
  rw [State.last] at hc
  split at hc
  next => cases hc
  next hidle =>
    obtain ⟨hcursor, hval⟩ := h.current.resolve_left hidle
    obtain rfl := Option.mem_some_iff.mp hc
    exact List.mem_map.mpr ⟨_, hcursor, hval⟩

theorem Ready.switchTo_eq (h : Ready cpu s l) (ht : t = cpu.idle ∨ t ∈ s.tasksOf l) (c : Nat) :
    switchTo cpu t ((s.setCursor c).modify t Task.wake) = .ok (t, s.switch t c) := by
  have hidle : t ≠ cpu.idle ∨ (((s.setCursor c).modify t Task.wake).tasks t).sigPending 0 = 0 := by
    rcases ht with rfl | ht
    · rw [modify_wake_eq_self (s := s.setCursor c) (wake_of_running h.idle_running)]
      exact Or.inr h.idle_pending
    · exact Or.inl (fun heq => h.idle (heq ▸ ht))
  have hstack : cpu.kernelStack t ≠ 0 ∨ t = cpu.idle := by
    rcases ht with rfl | ht
    · exact Or.inr rfl
    · exact Or.inl (h.kernel_stack t ht)
  rw [switchTo, decide_eq_true hidle, decide_eq_true hstack]
  rfl

theorem Ready.of_selected (h : Ready cpu s l) {r : Except Stop (Nat × State)}
    (hr : Selected cpu s l t r) :
    ∃ c, (r >>= fun x => switchTo cpu x.1 x.2) = .ok (t, s.switch t c) ∧
      (t = cpu.idle ∨ c ∈ l ∧ (s.items c).val = t) := by
  obtain ⟨c, rfl, hc⟩ := hr
  have ht : t = cpu.idle ∨ t ∈ s.tasksOf l :=
    hc.imp_right (fun hc => List.mem_map.mpr ⟨c, hc.1, hc.2⟩)
  refine ⟨c, ?_, hc⟩
  rw [Loop.ok_bind]
  exact h.switchTo_eq ht c

theorem schedulePrelocked_eq (h : Ready cpu s l) (ht : t = (s.nextTask cpu l).getD cpu.idle) :
    ∃ c, schedulePrelocked cpu s = .ok (t, s.switch t c) ∧
      (t = cpu.idle ∨ c ∈ l ∧ (s.items c).val = t) := by
  subst ht
  rw [schedulePrelocked, h.list.count]
  by_cases hidle : s.currentTask = cpu.idle
  · cases l with
    | nil =>
      rw [if_pos ⟨hidle, rfl⟩, nextTask_idle hidle]
      refine ⟨s.tasksList.current, ?_, Or.inl rfl⟩
      have hsame : s.switch cpu.idle s.tasksList.current = s := by
        rw [State.switch, modify_wake_eq_self (s := s.setCursor s.tasksList.current)
          (wake_of_running h.idle_running), ← hidle]
        rfl
      exact congrArg (fun s' => Except.ok (cpu.idle, s')) hsame.symm
    | cons c l =>
      rw [if_neg (by simp), if_pos hidle, nextTask_idle hidle]
      exact h.of_selected (h.select_first hidle (by simp))
  · obtain ⟨hcursor, hval⟩ := h.current.resolve_left hidle
    obtain ⟨p, q, hl⟩ := List.append_of_mem hcursor
    generalize hc : s.tasksList.current = c at hl hval
    subst hl
    have hne : c ≠ 0 := h.list.chain.ne_null (List.mem_append_right _ List.mem_cons_self)
    have hmove : s.moveNext =
        .ok (itemVal s.items (s.items c).next, s.setCursor (s.items c).next) := by
      rw [State.moveNext, linkedListMoveNext, hc, if_neg hne]
      rfl
    rw [if_neg (fun h => hidle h.1), if_neg hidle, if_neg hne, if_neg (by simp), hmove,
      Loop.ok_bind, h.nextTask_cursor hval hidle]
    exact h.of_selected (h.select_next hval)

theorem status_switch (h : (s.tasks t).runnable = true) (c : Nat) :
    ((s.switch t c).tasks t).status = .running :=
  (congrArg Task.status (State.modify_self (s.setCursor c) t Task.wake)).trans (status_wake h)

theorem schedulePrelocked_runnable (h : Ready cpu s l)
    (ht : t = (s.nextTask cpu l).getD cpu.idle) : (s.tasks t).runnable = true := by
  subst ht
  cases hnext : s.nextTask cpu l with
  | none => exact runnable_iff.mpr (Or.inl h.idle_running)
  | some t =>
    rw [State.nextTask, pick] at hnext
    exact (List.find?_eq_some_iff_append.mp hnext).1

/-! ## Many calls -/

/-- Until the next call the tasks may do anything but change the list. -/
structure Kept (cpu : Cpu) (s s' : State) : Prop where
  items : s'.items = s.items
  list : s'.tasksList = s.tasksList
  current : s'.currentTask = s.currentTask
  idle : s'.tasks cpu.idle = s.tasks cpu.idle

/-- A call selects `t` while the tasks of the list that can run are those of `run`, and then the
tasks go on until the next call. -/
structure ScheduleCall (cpu : Cpu) (l : List Nat) (run : Nat → Bool) (s : State) (t : Nat)
    (s' : State) : Prop where
  runnable : ∀ u ∈ s.tasksOf l, (s.tasks u).runnable = run u
  call : ∃ s₁, schedulePrelocked cpu s = .ok (t, s₁) ∧ Kept cpu s₁ s'

theorem Ready.kept {s' : State} (h : Ready cpu s l) (hkept : Kept cpu s s') : Ready cpu s' l where
  list := by
    rw [hkept.items, hkept.list]
    exact h.list
  nodup := by
    rw [State.tasksOf, hkept.items]
    exact h.nodup
  nonnull := by
    rw [State.tasksOf, hkept.items]
    exact h.nonnull
  idle := by
    rw [State.tasksOf, hkept.items]
    exact h.idle
  idle_running := by
    rw [hkept.idle]
    exact h.idle_running
  idle_pending := by
    rw [hkept.idle]
    exact h.idle_pending
  kernel_stack := by
    rw [State.tasksOf, hkept.items]
    exact h.kernel_stack
  current := by
    rw [hkept.items, hkept.list, hkept.current]
    exact h.current

theorem Ready.switch (h : Ready cpu s l) (hc : t = cpu.idle ∨ c ∈ l ∧ (s.items c).val = t) :
    Ready cpu (s.switch t c) l := by
  have hidle : (s.switch t c).tasks cpu.idle = s.tasks cpu.idle := by
    by_cases heq : cpu.idle = t
    · subst heq
      exact (State.modify_self ..).trans (wake_of_running h.idle_running)
    · exact State.modify_of_ne _ _ heq
  refine ⟨⟨h.list.chain, h.list.last, h.list.count, h.list.addresses⟩, h.nodup, h.nonnull, h.idle,
    ?_, ?_, h.kernel_stack, hc⟩
  · rw [hidle]
    exact h.idle_running
  · rw [hidle]
    exact h.idle_pending

theorem Ready.nextTask_eq {run : Nat → Bool} (h : Ready cpu s l)
    (hrun : ∀ u ∈ s.tasksOf l, (s.tasks u).runnable = run u) :
    s.nextTask cpu l = pick run (s.last cpu) (s.tasksOf l) := by
  apply List.find?_congr
  intro u hu
  exact hrun u ((order_perm h.last_mem h.nodup).mem_iff.mp hu)

theorem Ready.call_pick {s' : State} {run : Nat → Bool} (h : Ready cpu s l)
    (hcall : ScheduleCall cpu l run s t s') (hsome : (s.tasksOf l).filter run ≠ []) :
    Ready cpu s' l ∧ s'.tasksOf l = s.tasksOf l ∧
      pick run (s.last cpu) (s.tasksOf l) = some t ∧ s'.last cpu = some t := by
  obtain ⟨s₁, hs₁, hkept⟩ := hcall.call
  obtain ⟨c, hswitch, hc⟩ := schedulePrelocked_eq h rfl
  obtain ⟨ht, rfl⟩ := Prod.mk.inj (Except.ok.inj (hs₁.symm.trans hswitch))
  rw [← ht] at hkept hc
  -- some task can run, so that the idle task is not selected
  obtain ⟨u, hu⟩ := List.exists_mem_of_ne_nil _ hsome
  have hperm := order_perm h.last_mem h.nodup
  have hfound : (pick run (s.last cpu) (s.tasksOf l)).isSome := by
    rw [pick, List.find?_isSome]
    exact ⟨u, hperm.mem_iff.mpr (List.mem_filter.mp hu).1, (List.mem_filter.mp hu).2⟩
  obtain ⟨v, hv⟩ := Option.isSome_iff_exists.mp hfound
  rw [h.nextTask_eq hcall.runnable, hv, Option.getD_some] at ht
  subst ht
  have hmem : t ∈ s.tasksOf l := hperm.mem_iff.mp (List.mem_of_find?_eq_some hv)
  refine ⟨(h.switch hc).kept hkept, ?_, hv, ?_⟩
  · rw [State.tasksOf, hkept.items]
    rfl
  · have hne : t ≠ cpu.idle := by
      rintro rfl
      exact h.idle hmem
    rw [State.last, hkept.current]
    exact if_neg hne

theorem Ready.calls_picks {s' : State} {run : Nat → Bool} {ts : List Nat} (h : Ready cpu s l)
    (hcalls : Path (ScheduleCall cpu l run) s ts s') (hsome : (s.tasksOf l).filter run ≠ []) :
    Ready cpu s' l ∧ s'.tasksOf l = s.tasksOf l ∧
      Path (fun cur t cur' => pick run cur (s.tasksOf l) = some t ∧ cur' = some t)
        (s.last cpu) ts (s'.last cpu) := by
  induction hcalls with
  | start => exact ⟨h, rfl, .start⟩
  | step _ hcall ih =>
    obtain ⟨hready, htasks, hpath⟩ := ih
    rw [← htasks] at hsome
    obtain ⟨hready', htasks', hpick, hlast⟩ := hready.call_pick hcall hsome
    rw [htasks] at hpick
    exact ⟨hready', htasks'.trans htasks, hpath.step ⟨hpick, hlast⟩⟩

/-- **The scheduler goes round**: a call selects the first task that can run, in cyclic order after
the current one, and the idle task if there is none. It selects no task that is stopped or has
ended. As many calls as there are tasks that can run select each of them once. -/
theorem schedule_round_robin (h : Ready cpu s l) :
    (∃ c, schedulePrelocked cpu s = .ok ((s.nextTask cpu l).getD cpu.idle,
      s.switch ((s.nextTask cpu l).getD cpu.idle) c)) ∧
    (∀ t s', schedulePrelocked cpu s = .ok (t, s') →
      (s.tasks t).status ≠ .zombie ∧ (s.tasks t).status ≠ .stopped ∧
        (s'.tasks t).status = .running) ∧
    (∀ run ts s', Path (ScheduleCall cpu l run) s ts s' →
      ts.length = ((s.tasksOf l).filter run).length → ts.Perm ((s.tasksOf l).filter run)) := by
  obtain ⟨c, hcall, hc⟩ := schedulePrelocked_eq h rfl
  refine ⟨⟨c, hcall⟩, ?_, ?_⟩
  · intro t s' hs'
    have hrun := schedulePrelocked_runnable h rfl
    obtain ⟨rfl, rfl⟩ := Prod.mk.inj (Except.ok.inj (hs'.symm.trans hcall))
    have hstatus := status_switch hrun c
    rcases runnable_iff.mp hrun with hstate | ⟨hstate, -⟩
    · exact ⟨by rw [hstate]; decide, by rw [hstate]; decide, hstatus⟩
    · exact ⟨by rw [hstate]; decide, by rw [hstate]; decide, hstatus⟩
  · intro run ts s' hcalls hlen
    by_cases hsome : (s.tasksOf l).filter run = []
    · rw [hsome] at hlen ⊢
      rw [List.length_eq_zero_iff.mp hlen]
    · obtain ⟨-, -, hpath⟩ := h.calls_picks hcalls hsome
      exact picks_perm h.nodup h.last_mem hpath hlen

end Select

def twoTasks : State :=
  { items := fun x => if x = 16 then { val := 1, next := 32 } else { val := 2 }
    tasksList := { first := 16, last := 32, current := 16, count := 2 }
    currentTask := 1 }

def oneCpu : Cpu := { idle := 3, kernelStack := fun _ => 4096 }

theorem twoTasks_ready : Ready oneCpu twoTasks [16, 32] where
  list := ⟨⟨rfl, by decide, rfl, by decide, rfl⟩, rfl, rfl, by decide⟩
  nodup := by decide
  nonnull := by decide
  idle := by decide
  idle_running := rfl
  idle_pending := rfl
  kernel_stack _ _ := Nat.succ_ne_zero 4095
  current := Or.inr ⟨by decide, rfl⟩

/-- The second task is next. -/
theorem schedule_round_robin_two :
    ∃ c, schedulePrelocked oneCpu twoTasks = .ok (2, twoTasks.switch 2 c) := by
  have hnext : twoTasks.nextTask oneCpu [16, 32] = some 2 := by decide
  have hcall := (schedule_round_robin twoTasks_ready).1
  rw [hnext] at hcall
  exact hcall

end Hydrax.Sched
