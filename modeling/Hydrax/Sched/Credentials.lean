import Hydrax.Sched.State

/-!
# User and group ids

`setuid`, `setgid`, `seteuid` and `setegid` of `kernel/scheduler.c`, and what becomes of the ids of
a task in the tasks that descend from it.

* `family_unprivileged` — without a `clone` that finds a null `euid` in the memory it is given, no
  descendant of an unprivileged task is ever privileged.

`clone` does not write `euid` and `egid`, so the new thread has whatever `malloc` left there.
-/

namespace Hydrax.Sched

variable {r : Int} {l : List Nat}

/-! ## The calls -/

def setuid (s : State) (uid : UInt32) : Int × State :=
  if s.current.euid = 0 then
    (0, s.modify s.currentTask (fun t => { t with uid := uid, euid := uid }))
  else if uid = s.current.uid then
    (0, s.modify s.currentTask (fun t => { t with euid := uid }))
  else (-1, s.modify s.currentTask (fun t => { t with errno := eperm }))

def setgid (s : State) (gid : UInt32) : Int × State :=
  if s.current.euid = 0 then
    (0, s.modify s.currentTask (fun t => { t with gid := gid, egid := gid }))
  else if s.current.gid = gid then
    (0, s.modify s.currentTask (fun t => { t with egid := gid }))
  else (-1, s.modify s.currentTask (fun t => { t with errno := eperm }))

def seteuid (s : State) (uid : UInt32) : Int × State :=
  if s.current.uid = uid ∨ s.current.uid = 0 then
    (0, s.modify s.currentTask (fun t => { t with euid := uid }))
  else (-1, s.modify s.currentTask (fun t => { t with errno := eperm }))

def setegid (s : State) (gid : UInt32) : Int × State :=
  if s.current.gid = gid ∨ s.current.uid = 0 then
    (0, s.modify s.currentTask (fun t => { t with egid := gid }))
  else (-1, s.modify s.currentTask (fun t => { t with errno := eperm }))

inductive Call where
  | setuid (uid : UInt32)
  | setgid (gid : UInt32)
  | seteuid (uid : UInt32)
  | setegid (gid : UInt32)
  | fork (blocks : Option Blocks)
  | clone (blocks : Option Blocks)

def call (s : State) : Call → Except Stop (Int × State)
  | .setuid uid => .ok (setuid s uid)
  | .setgid gid => .ok (setgid s gid)
  | .seteuid uid => .ok (seteuid s uid)
  | .setegid gid => .ok (setegid s gid)
  | .fork blocks => fork s blocks
  | .clone blocks => clone s blocks

def Call.made : Call → List Nat
  | .fork (some b) => [b.task]
  | .clone (some b) => [b.task]
  | _ => []

/-! ## The four ids -/

structure Ids where
  uid : UInt32
  gid : UInt32
  euid : UInt32
  egid : UInt32
  deriving DecidableEq, Repr

def Task.ids (t : Task) : Ids := { uid := t.uid, gid := t.gid, euid := t.euid, egid := t.egid }

/-- Neither the real nor the effective user is the superuser. -/
def Task.Unprivileged (t : Task) : Prop := t.uid ≠ 0 ∧ t.euid ≠ 0

theorem unprivileged_of_ids {t u : Task} (h : t.ids = u.ids) (hu : u.Unprivileged) :
    t.Unprivileged := by
  simp only [Task.ids, Ids.mk.injEq] at h
  exact ⟨h.1 ▸ hu.1, h.2.2.1 ▸ hu.2⟩

/-! ## What one call does to them -/

section Calls

variable {s s' : State}

/-- **The ids after a `fork`**: the child has those of its parent. -/
theorem fork_ids {b : Blocks} (h : fork s (some b) = .ok (r, s')) (u : Nat) :
    (s'.tasks u).ids = if u = b.task then s.current.ids else (s.tasks u).ids :=
  fork_view Task.ids h (fun _ _ => rfl) (fun _ _ => rfl) (fun _ _ _ _ => rfl) u

/-- **The ids after a `clone`**: the new thread has the real ids of its maker, and the effective
ids that lay in the block. -/
theorem clone_ids {b : Blocks} (h : clone s (some b) = .ok (r, s')) (u : Nat) : (s'.tasks u).ids =
      if u = b.task then { s.current.ids with euid := b.content.euid, egid := b.content.egid }
      else (s.tasks u).ids :=
  clone_view Task.ids h (fun _ _ => rfl) (fun _ _ _ _ => rfl) u

/-- A call of `setuid` and its like changes no other task, and gives the caller no null user id
that it did not have. -/
structure SetIds (s : State) (r : Int × State) : Prop where
  other : ∀ u, u ≠ s.currentTask → r.2.tasks u = s.tasks u
  unprivileged : s.current.Unprivileged → (r.2.tasks s.currentTask).Unprivileged
  failed : r.1 < 0 → (r.2.tasks s.currentTask).ids = s.current.ids

theorem setIds_ok {f : Task → Task} (h : s.current.Unprivileged → (f s.current).Unprivileged) :
    SetIds s (0, s.modify s.currentTask f) := by
  refine ⟨fun u hu => s.modify_of_ne f hu, ?_, fun h => absurd h (by simp)⟩
  show _ → ((s.modify s.currentTask f).tasks s.currentTask).Unprivileged
  rw [State.modify_self]
  exact h

theorem setIds_refused :
    SetIds s (-1, s.modify s.currentTask (fun t => { t with errno := eperm })) := by
  have hids : ((s.modify s.currentTask (fun t => { t with errno := eperm })).tasks
      s.currentTask).ids = s.current.ids := by
    apply s.modify_view Task.ids
    intro _
    rfl
  refine ⟨?_, unprivileged_of_ids hids, fun _ => hids⟩
  intro u hu
  exact s.modify_of_ne (fun t => { t with errno := eperm }) hu

theorem setuid_setIds (s : State) (uid : UInt32) : SetIds s (setuid s uid) := by
  unfold setuid
  split
  next h0 =>
    apply setIds_ok
    intro h
    exact absurd h0 h.2
  next =>
    split
    next hu =>
      apply setIds_ok
      intro h
      exact ⟨h.1, hu ▸ h.1⟩
    next => exact setIds_refused

theorem setgid_setIds (s : State) (gid : UInt32) : SetIds s (setgid s gid) := by
  unfold setgid
  split
  next h0 =>
    apply setIds_ok
    intro h
    exact absurd h0 h.2
  next =>
    split
    next =>
      apply setIds_ok
      exact id
    next => exact setIds_refused

theorem seteuid_setIds (s : State) (uid : UInt32) : SetIds s (seteuid s uid) := by
  unfold seteuid
  split
  next hu =>
    apply setIds_ok
    intro h
    refine ⟨h.1, ?_⟩
    rcases hu with rfl | h0
    · exact h.1
    · exact absurd h0 h.1
  next => exact setIds_refused

theorem setegid_setIds (s : State) (gid : UInt32) : SetIds s (setegid s gid) := by
  unfold setegid
  split
  next =>
    apply setIds_ok
    exact id
  next => exact setIds_refused

/-- A block that `clone` makes a thread of an unprivileged task in must not hold a null `euid`. -/
def Call.Clean : Call → Prop
  | .clone (some b) => b.content.euid ≠ 0
  | _ => True

theorem SetIds.keep (h : SetIds s (r, s'))
    (hl : ∀ u ∈ l, (s.tasks u).Unprivileged) : ∀ u ∈ l, (s'.tasks u).Unprivileged := by
  intro u hu
  by_cases hcur : u = s.currentTask
  · subst hcur
    exact h.unprivileged (hl _ hu)
  · rw [h.other u hcur]
    exact hl u hu

theorem SetIds.ids_of_failed (h : SetIds s (r, s')) (hr : r < 0) (u : Nat) :
    (s'.tasks u).ids = (s.tasks u).ids := by
  by_cases hcur : u = s.currentTask
  · subst hcur
    exact h.failed hr
  · rw [h.other u hcur]

theorem call_cases {c : Call} (h : call s c = .ok (r, s')) :
    SetIds s (r, s') ∨ ∀ u, u ∉ c.made → (s'.tasks u).ids = (s.tasks u).ids := by
  cases c with
  | setuid uid => exact Or.inl (Except.ok.inj h ▸ setuid_setIds s uid)
  | setgid gid => exact Or.inl (Except.ok.inj h ▸ setgid_setIds s gid)
  | seteuid uid => exact Or.inl (Except.ok.inj h ▸ seteuid_setIds s uid)
  | setegid gid => exact Or.inl (Except.ok.inj h ▸ setegid_setIds s gid)
  | fork blocks =>
    refine Or.inr (fun u hu => ?_)
    cases blocks with
    | none =>
      cases h
      rfl
    | some b =>
      have hids := fork_ids h u
      rwa [if_neg (by simpa [Call.made] using hu)] at hids
  | clone blocks =>
    refine Or.inr (fun u hu => ?_)
    cases blocks with
    | none =>
      cases h
      rfl
    | some b =>
      have hids := clone_ids h u
      rwa [if_neg (by simpa [Call.made] using hu)] at hids

/-- **A call that fails** leaves the ids of every task. -/
theorem call_failed_ids {c : Call} (h : call s c = .ok (r, s')) (hr : r < 0) {u : Nat}
    (hu : u ∉ c.made) : (s'.tasks u).ids = (s.tasks u).ids := by
  rcases call_cases h with hset | hids
  · exact hset.ids_of_failed hr u
  · exact hids u hu

theorem call_other {c : Call} (h : call s c = .ok (r, s')) {u : Nat}
    (hcur : u ≠ s.currentTask) (hu : u ∉ c.made) : (s'.tasks u).ids = (s.tasks u).ids := by
  rcases call_cases h with hset | hids
  · rw [hset.other u hcur]
  · exact hids u hu

/-- **One call** of an unprivileged task makes no task of its family privileged. -/
theorem call_unprivileged {c : Call} (h : call s c = .ok (r, s')) (hc : c.Clean)
    (hcur : s.currentTask ∈ l) (hl : ∀ u ∈ l, (s.tasks u).Unprivileged) :
    ∀ u ∈ c.made ++ l, (s'.tasks u).Unprivileged := by
  have hold : ∀ u ∈ l, u ∉ c.made → (s'.tasks u).Unprivileged := by
    intro u hu hmade
    rcases call_cases h with hset | hids
    · exact hset.keep hl u hu
    · exact unprivileged_of_ids (hids u hmade) (hl u hu)
  intro u hu
  by_cases hmade : u ∈ c.made
  · cases c with
    | fork blocks =>
      cases blocks with
      | none => cases hmade
      | some b =>
        have hids := fork_ids h u
        rw [if_pos (by simpa [Call.made] using hmade)] at hids
        exact unprivileged_of_ids hids (hl _ hcur)
    | clone blocks =>
      cases blocks with
      | none => cases hmade
      | some b =>
        have hids := clone_ids h u
        rw [if_pos (by simpa [Call.made] using hmade)] at hids
        simp only [Task.ids, Ids.mk.injEq] at hids
        exact ⟨hids.1 ▸ (hl _ hcur).1, hids.2.2.1 ▸ hc⟩
    | _ => cases hmade
  · exact hold u ((List.mem_append.mp hu).resolve_left hmade) hmade

theorem clone_privileged {c : Call} (h : call s c = .ok (r, s')) (hc : ¬ c.Clean) :
    ∃ u ∈ c.made, (s'.tasks u).euid = 0 := by
  cases c with
  | clone blocks =>
    cases blocks with
    | none => exact absurd trivial hc
    | some b =>
      have hids := clone_ids h b.task
      rw [if_pos rfl] at hids
      simp only [Task.ids, Ids.mk.injEq] at hids
      exact ⟨b.task, by simp [Call.made], hids.2.2.1.trans (not_not.mp hc)⟩
  | _ => exact absurd trivial hc

end Calls

/-! ## Runs -/

/-- The runs in which the calls of the descendants of a task `t₀` are all `ok`: the state reached,
and the descendants. Other tasks make calls in between. -/
inductive Family (ok : Call → Prop) (s₀ : State) (t₀ : Nat) : State → List Nat → Prop where
  | start : Family ok s₀ t₀ s₀ [t₀]
  | call {s s' : State} {l : List Nat} {t : Nat} {c : Call} {r : Int} (h : Family ok s₀ t₀ s l)
      (ht : t ∈ l) (hnew : ∀ u ∈ c.made, u ∉ l) (hok : ok c)
      (hcall : call { s with currentTask := t } c = .ok (r, s')) : Family ok s₀ t₀ s' (c.made ++ l)
  | other {s s' : State} {l : List Nat} {t : Nat} {c : Call} {r : Int} (h : Family ok s₀ t₀ s l)
      (ht : t ∉ l) (hnew : ∀ u ∈ c.made, u ∉ l)
      (hcall : call { s with currentTask := t } c = .ok (r, s')) : Family ok s₀ t₀ s' l

theorem Family.all_unprivileged {s₀ s : State} {t₀ : Nat}
    (h : Family Call.Clean s₀ t₀ s l) (h₀ : (s₀.tasks t₀).Unprivileged) :
    ∀ u ∈ l, (s.tasks u).Unprivileged := by
  induction h with
  | start =>
    intro u hu
    rwa [List.mem_singleton.mp hu]
  | call _ ht _ hok hcall ih => exact call_unprivileged hcall hok ht ih
  | other _ ht hnew hcall ih =>
    intro u hu
    apply unprivileged_of_ids (call_other hcall ?_ (fun hmade => hnew u hmade hu)) (ih u hu)
    rintro rfl
    exact ht hu

/-- **Dropped privilege stays dropped**: in every run of a family of an unprivileged task in which
no thread is made in a block with a null `euid`, no task of the family is privileged, and a call
that fails leaves all ids. A thread that is made in such a block is privileged at once. -/
theorem family_unprivileged {s₀ s : State} {t₀ : Nat} {l : List Nat}
    (h : Family Call.Clean s₀ t₀ s l) (h₀ : (s₀.tasks t₀).Unprivileged) :
    (∀ u ∈ l, (s.tasks u).uid ≠ 0 ∧ (s.tasks u).euid ≠ 0) ∧
      ∀ t ∈ l, ∀ c r s', call { s with currentTask := t } c = .ok (r, s') →
        (∀ u ∈ c.made, u ∉ l) →
          (r < 0 → ∀ u ∈ l, (s'.tasks u).ids = (s.tasks u).ids) ∧
            (¬ c.Clean → ∃ u ∈ c.made ++ l, (s'.tasks u).euid = 0) := by
  refine ⟨h.all_unprivileged h₀, fun t ht c r s' hcall hnew => ⟨fun hr u hu => ?_, fun hc => ?_⟩⟩
  · exact call_failed_ids hcall hr (fun hmade => hnew u hmade hu)
  · obtain ⟨u, hu, h0⟩ := clone_privileged hcall hc
    exact ⟨u, List.mem_append_left _ hu, h0⟩

/-- A task of user `7`. -/
def userTask : State := { tasks := fun _ => { id := 1, pid := 1, uid := 7, euid := 7 } }

/-- It makes a thread in a block with another user in it. The thread may become user `7`, and both
stay unprivileged. -/
theorem family_unprivileged_setuid : ∃ s, Family Call.Clean userTask 16 s [32, 16] ∧
    (s.tasks 32).euid = 7 ∧ ∀ u ∈ [32, 16], (s.tasks u).uid ≠ 0 ∧ (s.tasks u).euid ≠ 0 := by
  have hclone : Family Call.Clean userTask 16 _ [32, 16] :=
    .call (t := 16) (c := .clone (some ⟨32, { euid := 9 }, 48, 0, 64⟩)) .start (by decide)
      (by decide) (show (9 : UInt32) ≠ 0 by decide) rfl
  have hrun : Family Call.Clean userTask 16 _ [32, 16] :=
    .call (t := 32) (c := .setuid 7) hclone (by decide) (by simp [Call.made]) trivial rfl
  exact ⟨_, hrun, rfl, (family_unprivileged hrun ⟨by decide, by decide⟩).1⟩

/-- It makes a thread in a block that holds zeros. The thread's effective user is the superuser, and
`setuid` then makes it so for good. -/
theorem family_privileged_by_clone :
    let b : Blocks := { task := 32, content := {}, thread := 48, child := 0, entry := 64 }
    ∃ s, clone { userTask with currentTask := 16 } (some b) = .ok (1, s) ∧
      Family (fun _ => True) userTask 16 s [32, 16] ∧ (s.tasks 32).euid = 0 ∧
      ((setuid { s with currentTask := 32 } 0).2.tasks 32).uid = 0 := by
  intro b
  refine ⟨_, rfl, ?_, rfl, rfl⟩
  exact .call (c := .clone (some b)) .start (by decide) (by decide) trivial rfl

end Hydrax.Sched
