import Hydrax.Sched.SigQueue

/-!
# Dispositions and masks

The calls of `kernel/signal.c` with which a task says what becomes of its signals, and what `fork`
and `execve` make of it. `SIGKILL` and `SIGSTOP` are to be out of their reach, which `signal` and
`sigaction` see to and the other calls do not.

* `run_protected_iff` — the runs in which the two signals stay protected.
-/

namespace Hydrax.Sched

def sigstop : Nat := 17

def efault : Int := -4

def sigBlock : Int := 2
def sigUnblock : Int := 3
def sigSetmask : Int := 4

/-! ## The calls -/

/-- `sig_action[sig - 1].sa_handler = disp`, for the current task. -/
def State.setHandler (s : State) (sig : Int) (disp : Handler) : State :=
  s.modify s.currentTask (fun t =>
    { t with sigAction := Function.update t.sigAction (sig - 1).toNat disp })

def State.setMask (s : State) (f : BitVec 32 → BitVec 32) : State :=
  s.modify s.currentTask (fun t => { t with sigmask := f t.sigmask })

def signal (s : State) (sig : Int) (disp : Handler) : Int × State :=
  if sig < 1 ∨ 32 < sig ∨ sig = sigkill ∨ sig = sigstop then (einval, s)
  else (0, s.setHandler sig disp)

/-- `sigaction`: what it returns and what it writes to `oldact`. A null `act` is `none`. -/
def sigaction (s : State) (signum : Int) (act : Option Handler) (oldact : Bool) :
    Int × Option Handler × State :=
  if signum < 1 ∨ 32 < signum ∨ signum = sigkill ∨ signum = sigstop then (einval, none, s)
  else
    match act, oldact with
    | some disp, true =>
      (0, some (s.current.sigAction (signum - 1).toNat), s.setHandler signum disp)
    | _, _ => (efault, none, s)

/-- `sigset`. It returns a disposition. -/
def sigset (s : State) (sig : Int) (disp : Handler) : Handler × State :=
  if sig < 1 ∨ 32 < sig then (.err, s)
  else (s.current.sigAction (sig - 1).toNat, s.setHandler sig disp)

def sighold (s : State) (sig : Int) : Int × State :=
  if sig < 1 ∨ 32 < sig then (-1, s)
  else (0, s.setMask (· ||| sigbit (sig - 1).toNat))

def sigrelse (s : State) (sig : Int) : Int × State :=
  if sig < 1 ∨ 32 < sig then (-1, s)
  else (0, s.setMask (· &&& ~~~ sigbit (sig - 1).toNat))

def sigignore (s : State) (sig : Int) : Int × State :=
  if sig < 1 ∨ 32 < sig then (-1, s)
  else (0, s.setHandler sig .ign)

/-- `sigprocmask`: what it returns and what it writes to `oldset`. A null `set` is `none`. Otherwise
`set` is the word that is read from it, which happens after `*oldset` is written. -/
def sigprocmask (s : State) (how : Int) (set : Option (BitVec 32)) (oldset : Bool) :
    Except Stop (Int × Option (BitVec 32) × State) :=
  let old := if oldset then some s.current.sigmask else none
  if how = sigBlock then
    match set with
    | none => .error .nullDeref
    | some set => .ok (0, old, s.setMask (· ||| set))
  else if how = sigUnblock then
    match set with
    | none => .error .nullDeref
    | some set => .ok (0, old, s.setMask (· &&& ~~~ set))
  else if how = sigSetmask then
    match set with
    | none => .error .nullDeref
    | some set => .ok (0, old, s.setMask (fun _ => set))
  else .ok (einval, old, s)

/-- How `execve` ends: the file cannot be opened, it cannot be loaded, or the program starts. -/
inductive Exec where
  | refused
  | notLoaded
  | started
  deriving DecidableEq, Repr

/-- What `execve` does to the signals of the current task. -/
def execve (s : State) : Exec → State
  | .refused => s
  | .notLoaded =>
    s.modify s.currentTask (fun t =>
      { t with sigmask := 0, sigPending := fun _ => 0, sigDelivered := fun _ => 0 })
  | .started =>
    s.modify s.currentTask (fun t =>
      { t with
        sigmask := 0, sigPending := fun _ => 0, sigDelivered := fun _ => 0
        sigAction := fun k => if k < 32 then .dfl else t.sigAction k })

/-- The calls that have to do with dispositions and masks. -/
inductive SigCall where
  | signal (sig : Int) (disp : Handler)
  | sigaction (signum : Int) (act : Option Handler) (oldact : Bool)
  | sigset (sig : Int) (disp : Handler)
  | sigignore (sig : Int)
  | sighold (sig : Int)
  | sigrelse (sig : Int)
  | sigprocmask (how : Int) (set : Option (BitVec 32)) (oldset : Bool)
  | fork (blocks : Option Blocks)
  | execve (e : Exec)

def SigCall.exec (s : State) : SigCall → Except Stop State
  | .signal sig disp => .ok (Sched.signal s sig disp).2
  | .sigaction signum act oldact => .ok (Sched.sigaction s signum act oldact).2.2
  | .sigset sig disp => .ok (Sched.sigset s sig disp).2
  | .sigignore sig => .ok (Sched.sigignore s sig).2
  | .sighold sig => .ok (Sched.sighold s sig).2
  | .sigrelse sig => .ok (Sched.sigrelse s sig).2
  | .sigprocmask how set oldset => do
      let (_, _, s) ← Sched.sigprocmask s how set oldset
      return s
  | .fork blocks => do
      let (_, s) ← Sched.fork s blocks
      return s
  | .execve e => .ok (Sched.execve s e)

def SigCall.made : SigCall → List Nat
  | .fork (some b) => [b.task]
  | _ => []

/-! ## Protected signals -/

/-- The bits of `SIGKILL` and `SIGSTOP`. -/
def Reserved (k : Nat) : Prop := k + 1 = sigkill ∨ k + 1 = sigstop

/-- The two signals are neither caught nor ignored nor blocked. -/
structure Task.Protected (t : Task) : Prop where
  action : ∀ k, Reserved k → t.sigAction k = .dfl
  mask : ∀ k, Reserved k → t.sigmask.getLsbD k = false

def SigCall.Permitted : SigCall → Prop
  | .sigset sig disp => sig = sigkill ∨ sig = sigstop → disp = .dfl
  | .sigignore sig => sig ≠ sigkill ∧ sig ≠ sigstop
  | .sighold sig => sig ≠ sigkill ∧ sig ≠ sigstop
  | .sigprocmask how set _ => how = sigBlock ∨ how = sigSetmask →
      ∃ word, set = some word ∧ ∀ k, Reserved k → word.getLsbD k = false
  | _ => True

/-- The two signals are protected for all tasks of a list. -/
def AllProtected (l : List Nat) (s : State) : Prop := ∀ u ∈ l, (s.tasks u).Protected

section Calls

variable {s s' : State} {l : List Nat} {sig : Int}

theorem reserved_iff (h1 : 1 ≤ sig) :
    Reserved (sig - 1).toNat ↔ sig = sigkill ∨ sig = sigstop := by
  unfold Reserved sigkill sigstop
  omega

theorem AllProtected.current (h : AllProtected l s) (hcur : s.currentTask ∈ l) :
    s.current.Protected :=
  h s.currentTask hcur

theorem AllProtected.modify_iff (h : AllProtected l s) (hcur : s.currentTask ∈ l)
    (f : Task → Task) :
    AllProtected l (s.modify s.currentTask f) ↔ (f s.current).Protected := by
  constructor
  · intro hall
    have hnew := hall s.currentTask hcur
    rwa [State.modify_self] at hnew
  · intro hf u hu
    by_cases heq : u = s.currentTask
    · rw [heq, State.modify_self]
      exact hf
    · rw [State.modify_of_ne _ _ heq]
      exact h u hu

theorem AllProtected.setHandler_iff (h : AllProtected l s) (hcur : s.currentTask ∈ l)
    (h1 : 1 ≤ sig) (disp : Handler) :
    AllProtected l (s.setHandler sig disp) ↔ (sig = sigkill ∨ sig = sigstop → disp = .dfl) := by
  rw [State.setHandler, h.modify_iff hcur, ← reserved_iff h1]
  constructor
  · intro hf hk
    have hnew := hf.action _ hk
    dsimp only at hnew
    rwa [Function.update_self] at hnew
  · intro hdisp
    refine ⟨fun k hk => ?_, (h.current hcur).mask⟩
    dsimp only
    by_cases heq : k = (sig - 1).toNat
    · subst heq
      rw [Function.update_self]
      exact hdisp hk
    · rw [Function.update_of_ne heq]
      exact (h.current hcur).action k hk

theorem AllProtected.setMask_iff (h : AllProtected l s) (hcur : s.currentTask ∈ l)
    (f : BitVec 32 → BitVec 32) :
    AllProtected l (s.setMask f) ↔
      ∀ k, Reserved k → (f s.current.sigmask).getLsbD k = false := by
  rw [State.setMask, h.modify_iff hcur]
  exact ⟨fun hf => hf.mask, fun hf => ⟨(h.current hcur).action, hf⟩⟩

theorem AllProtected.block_iff (h : AllProtected l s) (hcur : s.currentTask ∈ l) (b : BitVec 32) :
    AllProtected l (s.setMask (· ||| b)) ↔ ∀ k, Reserved k → b.getLsbD k = false := by
  rw [h.setMask_iff hcur]
  refine forall₂_congr (fun k hk => ?_)
  rw [BitVec.getLsbD_or, (h.current hcur).mask k hk, Bool.false_or]

theorem AllProtected.unblock (h : AllProtected l s) (hcur : s.currentTask ∈ l) (b : BitVec 32) :
    AllProtected l (s.setMask (· &&& b)) := by
  rw [h.setMask_iff hcur]
  intro k hk
  rw [BitVec.getLsbD_and, (h.current hcur).mask k hk, Bool.false_and]

theorem sigbit_reserved_iff (h1 : 1 ≤ sig) (h32 : sig ≤ 32) :
    (∀ k, Reserved k → (sigbit (sig - 1).toNat).getLsbD k = false) ↔
      sig ≠ sigkill ∧ sig ≠ sigstop := by
  rw [← not_or, ← reserved_iff h1]
  constructor
  · intro h hk
    have := h _ hk
    rw [getLsbD_sigbit (by omega)] at this
    simp at this
  · intro h k hk
    rw [getLsbD_sigbit (by omega), decide_eq_false_iff_not]
    rintro rfl
    exact h hk

theorem AllProtected.sigprocmask_iff (h : AllProtected l s) (hcur : s.currentTask ∈ l) {how r : Int}
    {set : Option (BitVec 32)} {oldset : Bool} {old : Option (BitVec 32)}
    (hcall : sigprocmask s how set oldset = .ok (r, old, s')) :
    AllProtected l s' ↔ (SigCall.sigprocmask how set oldset).Permitted := by
  unfold sigprocmask at hcall
  dsimp only at hcall
  cases set with
  | none =>
    split at hcall
    next => cases hcall
    next hblock =>
      split at hcall
      next => cases hcall
      next =>
        split at hcall
        next => cases hcall
        next hset =>
          cases hcall
          exact iff_of_true h (fun hhow => absurd hhow (by simp [hblock, hset]))
  | some set =>
    unfold SigCall.Permitted
    split at hcall
    next hblock =>
      cases hcall
      rw [h.block_iff hcur]
      simp [hblock]
    next hblock =>
      split at hcall
      next hunblock =>
        cases hcall
        refine iff_of_true (h.unblock hcur _) (fun hhow => ?_)
        rw [hunblock] at hhow
        exact absurd hhow (by decide)
      next =>
        split at hcall
        next hset =>
          cases hcall
          rw [h.setMask_iff hcur]
          simp [hset]
        next hset =>
          cases hcall
          exact iff_of_true h (fun hhow => absurd hhow (by simp [hblock, hset]))

theorem kfork_sigAction (s : State) (new entry u : Nat) :
    ((kfork s new entry).2.tasks u).sigAction =
      if u = new then s.current.sigAction else (s.tasks u).sigAction := by
  unfold kfork
  dsimp only
  by_cases hu : u = new
  · subst hu
    rw [State.modify_self, if_pos rfl]
  · rw [State.modify_of_ne _ _ hu, if_neg hu]

theorem fork_sigAction {b : Blocks} {r : Int} (h : fork s (some b) = .ok (r, s'))
    (hnew : b.task ≠ s.currentTask) (u : Nat) :
    (s'.tasks u).sigAction =
      if u = b.task then s.current.sigAction else (s.tasks u).sigAction := by
  unfold fork at h
  simp only at h
  split at h
  · cases h
  · obtain ⟨-, rfl⟩ := Prod.ext_iff.mp (Except.ok.inj h)
    rw [kfork_sigAction]
    unfold State.current
    rw [appendChild_view Task.sigAction (fun _ _ => rfl),
      appendThread_view Task.sigAction (fun _ _ => rfl),
      appendChild_view Task.sigAction (fun _ _ => rfl),
      appendThread_view Task.sigAction (fun _ _ => rfl)]
    split
    next => exact congrArg Task.sigAction (State.modify_of_ne _ _ hnew.symm)
    next hu => rw [State.modify_of_ne _ _ hu]

theorem AllProtected.fork {b : Blocks} {r : Int} (hs : AllProtected l s)
    (hcur : s.currentTask ∈ l) (hnew : b.task ∉ l) (h : fork s (some b) = .ok (r, s')) :
    AllProtected (b.task :: l) s' := by
  have haction := fork_sigAction h (fun heq => hnew (heq ▸ hcur))
  have hmask := fork_view Task.sigmask h (fun _ _ => rfl) (fun _ _ => rfl) (fun _ _ _ _ => rfl)
  intro u hu
  by_cases heq : u = b.task
  · have hparent := hs.current hcur
    refine ⟨fun k hk => ?_, fun k hk => ?_⟩
    · rw [haction, if_pos heq]
      exact hparent.action k hk
    · rw [hmask, if_pos heq]
      exact hparent.mask k hk
  · have hold := hs u ((List.mem_cons.mp hu).resolve_left heq)
    refine ⟨fun k hk => ?_, fun k hk => ?_⟩
    · rw [haction, if_neg heq]
      exact hold.action k hk
    · rw [hmask, if_neg heq]
      exact hold.mask k hk

theorem AllProtected.execve (h : AllProtected l s) (hcur : s.currentTask ∈ l) (e : Exec) :
    AllProtected l (execve s e) := by
  cases e with
  | refused => exact h
  | notLoaded =>
    rw [Sched.execve, h.modify_iff hcur]
    exact ⟨(h.current hcur).action, fun k _ => BitVec.getLsbD_zero⟩
  | started =>
    rw [Sched.execve, h.modify_iff hcur]
    refine ⟨fun k hk => if_pos ?_, fun k _ => BitVec.getLsbD_zero⟩
    unfold Reserved sigkill sigstop at hk
    omega

theorem AllProtected.sigignore_iff (h : AllProtected l s) (hcur : s.currentTask ∈ l) (sig : Int) :
    AllProtected l (sigignore s sig).2 ↔ sig ≠ sigkill ∧ sig ≠ sigstop := by
  unfold sigignore
  split
  next hsig =>
    refine iff_of_true h ?_
    unfold sigkill sigstop
    omega
  next hsig =>
    rw [h.setHandler_iff hcur (by omega), ← not_or]
    simp

theorem AllProtected.sighold_iff (h : AllProtected l s) (hcur : s.currentTask ∈ l) (sig : Int) :
    AllProtected l (sighold s sig).2 ↔ sig ≠ sigkill ∧ sig ≠ sigstop := by
  unfold sighold
  split
  next hsig =>
    refine iff_of_true h ?_
    unfold sigkill sigstop
    omega
  next hsig =>
    rw [h.block_iff hcur]
    exact sigbit_reserved_iff (by omega) (by omega)

/-- **One call** leaves the two signals protected exactly when it is permitted. -/
theorem AllProtected.exec_iff (h : AllProtected l s) (hcur : s.currentTask ∈ l) {c : SigCall}
    (hnew : ∀ u ∈ c.made, u ∉ l) (hcall : c.exec s = .ok s') :
    AllProtected (c.made ++ l) s' ↔ c.Permitted := by
  cases c with
  | signal sig disp =>
    cases hcall
    refine iff_of_true ?_ trivial
    unfold Sched.signal
    split
    next => exact h
    next hsig =>
      exact (h.setHandler_iff hcur (by omega) disp).mpr (fun hk => absurd hk (by omega))
  | sigaction signum act oldact =>
    cases hcall
    refine iff_of_true ?_ trivial
    unfold Sched.sigaction
    split
    next => exact h
    next hsig =>
      split
      next disp =>
        exact (h.setHandler_iff hcur (by omega) disp).mpr (fun hk => absurd hk (by omega))
      next => exact h
  | sigset sig disp =>
    cases hcall
    unfold Sched.sigset SigCall.Permitted
    split
    next hsig =>
      refine iff_of_true h (fun hk => ?_)
      unfold sigkill sigstop at hk
      omega
    next hsig => exact h.setHandler_iff hcur (by omega) disp
  | sigignore sig =>
    cases hcall
    exact h.sigignore_iff hcur sig
  | sighold sig =>
    cases hcall
    exact h.sighold_iff hcur sig
  | sigrelse sig =>
    cases hcall
    refine iff_of_true ?_ trivial
    unfold Sched.sigrelse
    split
    next => exact h
    next => exact h.unblock hcur _
  | sigprocmask how set oldset =>
    obtain ⟨⟨r, old, s₁⟩, hmask, heq⟩ := Loop.bind_eq_ok.mp hcall
    cases heq
    exact h.sigprocmask_iff hcur hmask
  | fork blocks =>
    obtain ⟨⟨r, s₁⟩, hfork, heq⟩ := Loop.bind_eq_ok.mp hcall
    cases heq
    refine iff_of_true ?_ trivial
    cases blocks with
    | none =>
      cases hfork
      exact h
    | some b => exact h.fork hcur (hnew b.task (List.mem_singleton_self _)) hfork
  | execve e =>
    cases hcall
    exact iff_of_true (h.execve hcur e) trivial

end Calls

/-! ## Runs -/

structure Kin where
  sched : State
  members : List Nat

/-- What happens: a task of the family makes a call, or something that does not concern the
dispositions and masks of the family. -/
inductive KinEvent where
  | call (t : Nat) (c : SigCall)
  | other

inductive KinStep : Kin → KinEvent → Kin → Prop where
  | call {m : Kin} {t : Nat} {c : SigCall} {s' : State} (ht : t ∈ m.members)
      (hnew : ∀ u ∈ c.made, u ∉ m.members)
      (h : c.exec { m.sched with currentTask := t } = .ok s') :
      KinStep m (.call t c) { sched := s', members := c.made ++ m.members }
  | other {m : Kin} {s' : State}
      (h : ∀ t ∈ m.members, (s'.tasks t).sigAction = (m.sched.tasks t).sigAction ∧
        (s'.tasks t).sigmask = (m.sched.tasks t).sigmask) :
      KinStep m .other { m with sched := s' }

def KinEvent.Permitted : KinEvent → Prop
  | .call _ c => c.Permitted
  | .other => True

/-- The two signals are protected for the whole family. -/
def Kin.Protected (m : Kin) : Prop := AllProtected m.members m.sched

theorem Kin.Protected.step_iff {m m' : Kin} {e : KinEvent} (h : m.Protected)
    (hstep : KinStep m e m') : m'.Protected ↔ e.Permitted := by
  cases hstep with
  | @call t _ _ ht hnew hcall =>
    exact AllProtected.exec_iff (s := { m.sched with currentTask := t }) h ht hnew hcall
  | other hsame =>
    refine iff_of_true (fun u hu => ?_) trivial
    obtain ⟨haction, hmask⟩ := hsame u hu
    refine ⟨fun k hk => ?_, fun k hk => ?_⟩
    · rw [haction]
      exact (h u hu).action k hk
    · rw [hmask]
      exact (h u hu).mask k hk

/-- **`SIGKILL` and `SIGSTOP` stay protected** all along a run exactly when every call of it is
permitted. -/
theorem run_protected_iff {s₀ : State} {t₀ : Nat} {es : List KinEvent} {m : Kin}
    (hdfl : ∀ k < 32, (s₀.tasks t₀).sigAction k = .dfl) (hmask : (s₀.tasks t₀).sigmask = 0)
    (h : Path KinStep { sched := s₀, members := [t₀] } es m) :
    (∀ e ∈ es, e.Permitted) ↔ ∀ es' m', es' <+: es →
      Path KinStep { sched := s₀, members := [t₀] } es' m' → m'.Protected := by
  refine h.forall_iff ?_ (fun m e m' hm hstep => hm.step_iff hstep)
  intro u hu
  rw [List.mem_singleton.mp hu]
  refine ⟨fun k hk => hdfl k ?_, fun k _ => ?_⟩
  · unfold Reserved sigkill sigstop at hk
    omega
  · rw [hmask]
    exact BitVec.getLsbD_zero

/-- A task that ignores `SIGINT`. -/
theorem run_protected_sigint :
    ∃ m, Path KinStep { sched := {}, members := [16] } [.call 16 (.sigignore 2)] m ∧
      m.Protected := by
  have hstep : KinStep { sched := {}, members := [16] } (.call 16 (.sigignore 2)) _ :=
    .call (by decide) (by decide) rfl
  have hrun := Path.start.step hstep
  refine ⟨_, hrun,
    (run_protected_iff (fun _ _ => rfl) rfl hrun).mp ?_ _ _ (List.prefix_refl _) hrun⟩
  intro e he
  rw [List.mem_singleton.mp he]
  exact ⟨by decide, by decide⟩

/-- **A task that ignores `SIGKILL`**: `sigignore` lets it. -/
theorem run_unprotected :
    ∃ m, Path KinStep { sched := {}, members := [16] } [.call 16 (.sigignore 9)] m ∧
      (m.sched.tasks 16).sigAction 8 = .ign ∧ ¬ m.Protected := by
  have hstep : KinStep { sched := {}, members := [16] } (.call 16 (.sigignore 9)) _ :=
    .call (by decide) (by decide) rfl
  refine ⟨_, Path.start.step hstep, rfl, fun h => ?_⟩
  have hdfl := (h 16 (by decide)).action 8 (Or.inl rfl)
  cases hdfl

end Hydrax.Sched
