import Hydrax.Vfs.Boot

/-!
# References to nodes

`vfs_open` counts a reference to the node it returns, and `vfs_close` takes one off. Every exit of
`vfs_open` has its own line for it. The exit for a component that is not there counts a reference to
the directory it was looked for in, and returns null.

* `openLoop_refs`, `vfsOpen_refs_iff` — one call,
* `refs_exact` — calls in a row.
-/

namespace Hydrax.Vfs

def fsAutofree : BitVec 32 := 0x20000

/-- `--node->refs`. -/
def State.release (s : State) (n : Nat) : State :=
  s.modify n (fun node => { node with refs := decr node.refs })

/-- `vfs_close`, and whether it frees the node. -/
def vfsClose (s : State) (node : Nat) : Except Stop (Bool × State) := do
  assert (node ≠ 0)
  let s := s.release node
  return ((s.nodes node).refs = 0 ∧ (s.nodes node).flags &&& fsAutofree ≠ 0, s)

/-! ## One call -/

/-- The walk along the components comes to one that is not there. -/
def Misses (s : State) : Nat → List (List Char) → Prop
  | _, [] => False
  | node, w :: ws =>
    enter s node w = .ok 0 ∧ w ≠ ['.', '.'] ∨
      ∃ tmp, tmp ≠ 0 ∧ enter s node w = .ok tmp ∧ Misses s tmp ws

def Missing (s : State) (filename : List Char) : Prop :=
  s.mallocOk s.mallocs = true ∧ Misses s (startNode s filename) (names filename)

/-- The node that is returned has one reference more, and no other node has. -/
def OneReference (s : State) (n : Nat) (s' : State) : Prop :=
  ∀ x, (s'.nodes x).refs = if x = n ∧ n ≠ 0 then incr (s.nodes x).refs else (s.nodes x).refs

section Call

variable {s s' : State} {filename : List Char} {n node : Nat}

theorem incr_ne (k : Nat) : incr k ≠ k := by
  unfold incr wordSize
  omega

theorem refs_retain (s : State) (n x : Nat) :
    ((s.retain n).nodes x).refs = if x = n then incr (s.nodes x).refs else (s.nodes x).refs := by
  unfold State.retain
  by_cases h : x = n
  · rw [if_pos h, h, State.modify_self]
  · rw [if_neg h, State.modify_of_ne _ _ h]

theorem oneReference_retain (hn : n ≠ 0) : OneReference s n (s.retain n) := by
  intro x
  rw [refs_retain]
  simp [hn]

theorem not_oneReference_retain (s : State) (node : Nat) : ¬ OneReference s 0 (s.retain node) := by
  intro h
  have hnode := h node
  rw [refs_retain, if_pos rfl, if_neg (by simp)] at hnode
  exact incr_ne _ hnode

theorem misses_malloc (s : State) (node : Nat) (ws : List (List Char)) :
    Misses s.malloc.2 node ws ↔ Misses s node ws := by
  induction ws generalizing node with
  | nil => exact Iff.rfl
  | cons w ws ih =>
    have henter : enter s.malloc.2 node w = enter s node w := rfl
    rw [Misses, Misses, henter]
    simp only [ih]

theorem openLoop_refs {fuel i : Nat} {w : List Char} {ws : List (List Char)}
    (hws : (names filename).drop i = ws) (hi : i ≤ (names filename).length)
    (h : openLoop s filename fuel node i w = .ok (n, s')) :
    OneReference s n s' ↔ ¬ Misses s node (w :: ws) := by
  induction fuel generalizing node i w ws with
  | zero => cases h
  | succ fuel ih =>
    rw [openLoop] at h
    obtain ⟨tmp, henter, h⟩ := Loop.bind_eq_ok.mp h
    rw [Misses, henter]
    by_cases htmp : tmp = 0
    · subst htmp
      rw [if_pos rfl] at h
      obtain ⟨rfl, rfl⟩ := Prod.mk.inj (Except.ok.inj h)
      by_cases hdots : w = ['.', '.']
      · -- `..` at the root
        rw [if_pos hdots]
        refine iff_of_true (fun x => by simp) ?_
        rintro (⟨-, hne⟩ | ⟨tmp, htmp, heq, -⟩)
        · exact hne hdots
        · exact htmp (Except.ok.inj heq).symm
      · rw [if_neg hdots]
        exact iff_of_false (not_oneReference_retain _ node) (not_not.mpr (Or.inl ⟨rfl, hdots⟩))
    · rw [if_neg htmp, getPathLevel_drop hws hi] at h
      have hmisses : (Except.ok tmp = (Except.ok 0 : Except Stop Nat) ∧ w ≠ ['.', '.'] ∨
          ∃ tmp', tmp' ≠ 0 ∧ (Except.ok tmp : Except Stop Nat) = .ok tmp' ∧ Misses s tmp' ws) ↔
            Misses s tmp ws := by
        constructor
        · rintro (⟨heq, -⟩ | ⟨tmp', -, heq, hmiss⟩)
          · exact absurd (Except.ok.inj heq) htmp
          · rwa [Except.ok.inj heq]
        · exact fun hmiss => Or.inr ⟨tmp, htmp, rfl, hmiss⟩
      rw [hmisses]
      cases ws with
      | nil =>
        obtain ⟨rfl, rfl⟩ := Prod.mk.inj (Except.ok.inj h)
        exact iff_of_true (oneReference_retain htmp) id
      | cons v ws =>
        obtain ⟨hlt, hdrop⟩ := drop_succ_of_drop_eq_cons hws
        exact ih hdrop hlt h

theorem vfsOpen_refs_iff (hroot : s.root ≠ 0) (h : vfsOpen s filename = .ok (n, s')) :
    OneReference s n s' ↔ ¬ Missing s filename := by
  rw [vfsOpen] at h
  obtain ⟨-, -, h⟩ := Loop.bind_eq_ok.mp h
  have hlevel := getPathLevel_names filename (Nat.zero_le _)
  change (if s.mallocOk s.mallocs = true then _ else _) = _ at h
  rw [Missing]
  split at h
  next hok =>
    cases hnames : names filename with
    | nil =>
      rw [hlevel, hnames] at h
      obtain ⟨rfl, rfl⟩ := Prod.mk.inj (Except.ok.inj h)
      refine iff_of_true (oneReference_retain (s := s.malloc.2) hroot) ?_
      rintro ⟨-, hmiss⟩
      exact hmiss
    | cons w ws =>
      rw [hlevel, hnames] at h
      have hdrop : (names filename).drop 1 = ws := by
        rw [hnames, List.drop_succ_cons, List.drop_zero]
      have hone : 1 ≤ (names filename).length := by
        rw [hnames]
        simp
      have hrefs := openLoop_refs (s := s.malloc.2) hdrop hone h
      rw [misses_malloc] at hrefs
      simp only [hok, true_and]
      exact hrefs
  next hok =>
    obtain ⟨rfl, rfl⟩ := Prod.mk.inj (Except.ok.inj h)
    exact iff_of_true (fun x => by simp) (fun hmiss => hok hmiss.1)

end Call

/-! ## Calls in a row -/

/-- A call of `vfs_open` with what it returned, or of `vfs_close`. -/
inductive RefEvent where
  | opened (filename : List Char) (n : Nat)
  | closed (n : Nat)

/-- One call. A node that is closed is not one that is freed by it. -/
inductive RefStep (s : State) : RefEvent → State → Prop where
  | opened {filename : List Char} {n : Nat} {s' : State} (h : vfsOpen s filename = .ok (n, s')) :
      RefStep s (.opened filename n) s'
  | closed {n : Nat} {freed : Bool} {s' : State} (hkept : (s.nodes n).flags &&& fsAutofree = 0)
      (h : vfsClose s n = .ok (freed, s')) : RefStep s (.closed n) s'

/-- The call is a successful `vfs_open` of the node. -/
def RefEvent.opens (n : Nat) : RefEvent → Bool
  | .opened _ r => r = n && r ≠ 0
  | .closed _ => false

/-- The call is a `vfs_close` of the node. -/
def RefEvent.closes (n : Nat) : RefEvent → Bool
  | .opened _ _ => false
  | .closed r => r = n

/-- No component of the path of a `vfs_open` is missing. -/
def RefEvent.Permitted (s : State) : RefEvent → Prop
  | .opened filename _ => ¬ Missing s filename
  | .closed _ => True

/-- The counters, which have 32 bits, have counted the calls. -/
def RefsExact (s₀ : State) (es : List RefEvent) (s : State) : Prop :=
  ∀ n, ((s.nodes n).refs : Int) =
    ((s₀.nodes n).refs + es.countP (RefEvent.opens n) - es.countP (RefEvent.closes n)) % wordSize

section Runs

variable {s s' s₀ : State} {es : List RefEvent} {e : RefEvent}

theorem vfsClose_eq {n : Nat} {freed : Bool} (h : vfsClose s n = .ok (freed, s')) :
    s' = s.release n := by
  rw [vfsClose] at h
  obtain ⟨-, -, h⟩ := Loop.bind_eq_ok.mp h
  exact (Prod.mk.inj (Except.ok.inj h)).2.symm

theorem refs_release (s : State) (n x : Nat) :
    ((s.release n).nodes x).refs = if x = n then decr (s.nodes x).refs else (s.nodes x).refs := by
  unfold State.release
  by_cases h : x = n
  · rw [if_pos h, h, State.modify_self]
  · rw [if_neg h, State.modify_of_ne _ _ h]

theorem intCast_incr (k : Nat) : (incr k : Int) = (k + 1) % wordSize := by
  unfold incr
  push_cast
  rfl

theorem intCast_decr {k : Nat} (h : k < wordSize) : (decr k : Int) = (k - 1) % wordSize := by
  unfold decr wordSize at *
  split <;> omega

theorem RefsExact.step (h : RefsExact s₀ es s) (hroot : s.root ≠ 0) (hstep : RefStep s e s')
    (hok : e.Permitted s) : RefsExact s₀ (es ++ [e]) s' := by
  intro x
  have hx := h x
  rw [List.countP_append, List.countP_append, List.countP_singleton, List.countP_singleton]
  cases hstep with
  | @opened filename n _ hopen =>
    have hone := (vfsOpen_refs_iff hroot hopen).mpr hok x
    rw [hone]
    simp only [RefEvent.opens, RefEvent.closes, Bool.and_eq_true, decide_eq_true_eq]
    by_cases hx' : x = n ∧ n ≠ 0
    · rw [if_pos hx', if_pos ⟨hx'.1.symm, hx'.2⟩, intCast_incr, hx, Int.emod_add_emod]
      congr 1
      push_cast
      omega
    · rw [if_neg hx', if_neg (fun h => hx' ⟨h.1.symm, h.2⟩), hx]
      simp
  | @closed n freed _ hkept hclose =>
    rw [vfsClose_eq hclose, refs_release]
    simp only [RefEvent.opens, RefEvent.closes, decide_eq_true_eq]
    by_cases hx' : x = n
    · have hlt : (s.nodes x).refs < wordSize := by
        have := Int.emod_lt_of_pos ((s₀.nodes x).refs + es.countP (RefEvent.opens x) -
          es.countP (RefEvent.closes x) : Int) (show (0 : Int) < wordSize by decide)
        omega
      rw [if_pos hx', if_pos hx'.symm, intCast_decr hlt, hx, Int.emod_sub_emod]
      congr 1
      push_cast
      omega
    · rw [if_neg hx', if_neg (fun h => hx' h.symm), hx]
      simp

theorem RefStep.root (hstep : RefStep s e s') : s'.root = s.root := by
  cases hstep with
  | opened hopen => exact (vfsOpen_same hopen).1.root
  | closed _ hclose =>
    rw [vfsClose_eq hclose]
    rfl

theorem refs_exact (hroot : s₀.root ≠ 0) (hrange : ∀ n, (s₀.nodes n).refs < wordSize)
    (h : Path (fun s e s' => RefStep s e s' ∧ e.Permitted s) s₀ es s) : RefsExact s₀ es s := by
  refine (h.invariant (I := fun es s => RefsExact s₀ es s ∧ s.root ≠ 0)
    ⟨fun n => ?_, hroot⟩ ?_).1
  · have := hrange n
    rw [List.countP_nil, List.countP_nil, Int.emod_eq_of_lt (by omega) (by omega)]
    omega
  · rintro es s e s' ⟨hexact, hroot⟩ ⟨hstep, hok⟩
    exact ⟨hexact.step hroot hstep hok, by rw [hstep.root]; exact hroot⟩

/-- **Opening and closing count references**: a call of `vfs_open` changes exactly one counter,
unless a component of the path is missing, and the counters of a run without such calls are
exact. -/
theorem vfs_references (s : State) (hroot : s.root ≠ 0) :
    (∀ filename n s', vfsOpen s filename = .ok (n, s') →
      (OneReference s n s' ↔ ¬ Missing s filename)) ∧
    ((∀ n, (s.nodes n).refs < wordSize) → ∀ es s',
      Path (fun s e s' => RefStep s e s' ∧ e.Permitted s) s es s' → RefsExact s es s') :=
  ⟨fun _ _ _ h => vfsOpen_refs_iff hroot h, fun hrange _ _ h => refs_exact hroot hrange h⟩

end Runs

/-- `/bin` is opened, and one reference is counted. -/
theorem vfs_references_bin : ∃ s', vfsOpen smallTree ['/', 'b', 'i', 'n'] = .ok (48, s') ∧
    OneReference smallTree 48 s' := by
  refine ⟨_, rfl, ((vfs_references smallTree (by decide)).1 ['/', 'b', 'i', 'n'] 48 _ rfl).mpr ?_⟩
  rintro ⟨-, ⟨hzero, -⟩ | ⟨tmp, -, -, hmiss⟩⟩
  · cases hzero
  · exact hmiss

/-- **A path that leads nowhere** leaves a reference to the root behind. -/
theorem vfs_references_missing : ∃ s', vfsOpen smallTree ['/', 'x'] = .ok (0, s') ∧
    (s'.nodes 16).refs = incr (smallTree.nodes 16).refs ∧ ¬ OneReference smallTree 0 s' := by
  refine ⟨_, rfl, rfl, fun h => ?_⟩
  have hroot := h 16
  cases hroot

end Hydrax.Vfs
