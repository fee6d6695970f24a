import Mathlib.Data.List.TakeWhile
import Hydrax.Machine
import Hydrax.Transition

/-!
# The environment of a task

`setenv` of `kernel/env.c`. The environment is a table of pointers to strings `name=value`, ended by
a null pointer. The table is allocated once and has room for 256 pointers.

A variable is replaced and appended by the same code, which ends the table after the entry that it
writes: what stood behind a variable that is replaced is lost.

* `Sets` — what a call should do,
* `setenv_sets_iff` — when it does, in every table that calls of `setenv` build.
-/

namespace Hydrax.Env

def einval : Int := -14
def enomem : Int := -8

/-- Pointers in a table of `CONFIG_ENV_INITIAL_SIZE` bytes. -/
def tableSlots : Nat := 256

/-- A table: each slot is null or points to a string. -/
abbrev Table := Nat → Option (List Char)

/-- What `setenv` sees of the current task, and the outcome of each `malloc` to come. -/
structure Environ where
  envp : Option Table := none
  envLock : Bool := false
  mallocs : Nat := 0
  mallocOk : Nat → Bool := fun _ => true

def Environ.malloc (s : Environ) : Bool × Environ :=
  (s.mallocOk s.mallocs, { s with mallocs := s.mallocs + 1 })

/-- The table of the task. One that is not there yet is allocated and cleared. -/
def Environ.table (s : Environ) : Option Table × Environ :=
  match s.envp with
  | some T => (some T, s)
  | none =>
    let (ok, s) := s.malloc
    if ok then (some (fun _ => none), { s with envp := some (fun _ => none) }) else (none, s)

/-- The loop that compares an entry with a name. It leaves what it has not read of both. -/
def compare : List Char → List Char → List Char × List Char
  | e :: envs, n :: namep =>
    if e = '=' ∨ e ≠ n then (e :: envs, n :: namep) else compare envs namep
  | envs, namep => (envs, namep)

/-- "if (*envs == '=' && *namep == NULL)". -/
def isEntryOf (entry name : List Char) : Bool :=
  let (envs, namep) := compare entry name
  envs.head? == some '=' && namep.isEmpty

/-- "First check where the last entry is stored": the slot, and whether it holds the name. -/
def seek (T : Table) (name : List Char) : Nat → Nat → Except Stop (Nat × Bool)
  | 0, _ => .error .outOfBounds
  | fuel + 1, i =>
    match T i with
    | none => .ok (i, false)
    | some entry => if isEntryOf entry name then .ok (i, true) else seek T name fuel (i + 1)

/-- "*envp++ = envs; *envp = NULL". -/
def store (T : Table) (i : Nat) (entry : List Char) : Except Stop Table :=
  if i + 1 < tableSlots then .ok (Function.update (Function.update T i (some entry)) (i + 1) none)
  else .error .outOfBounds

/-- `setenv`, with a null `name` as `none`. The lock is not given back when there is no memory for
the entry. -/
def setenv (s : Environ) (name : Option (List Char)) (value : List Char) (overwrite : Int) :
    Except Stop (Int × Environ) :=
  match name with
  | none => .ok (einval, s)
  | some name =>
    if name = [] ∨ '=' ∈ name then .ok (einval, s)
    else if s.envLock then .error .hang
    else
      let (T, s) := { s with envLock := true }.table
      match T with
      | none => .ok (enomem, { s with envLock := false })
      | some T => do
          let (i, found) ← seek T name tableSlots 0
          if found = true ∧ overwrite = 0 then return (-1, { s with envLock := false })
          else
            let (ok, s) := s.malloc
            if ok then
              let T ← store T i (name ++ '=' :: value)
              return (0, { s with envp := some T, envLock := false })
            else return (enomem, s)

/-! ## Variables -/

abbrev Variable := List Char × List Char

def entryOf (x : Variable) : List Char := x.1 ++ '=' :: x.2

def variableOf (entry : List Char) : Variable :=
  (entry.takeWhile (· != '='), (entry.dropWhile (· != '=')).drop 1)

/-- The strings of a table from slot `i` on. -/
def entriesFrom (T : Table) : Nat → Nat → List (List Char)
  | 0, _ => []
  | fuel + 1, i =>
    match T i with
    | none => []
    | some entry => entry :: entriesFrom T fuel (i + 1)

def Environ.vars (s : Environ) : List Variable :=
  match s.envp with
  | none => []
  | some T => (entriesFrom T tableSlots 0).map variableOf

def Environ.names (s : Environ) : List (List Char) := s.vars.map Prod.fst

def Environ.value (s : Environ) (name : List Char) : Option (List Char) := s.vars.lookup name

/-- A name that `setenv` takes. -/
def ValidName (name : List Char) : Prop := name ≠ [] ∧ '=' ∉ name

instance ValidName.decidable (name : List Char) : Decidable (ValidName name) :=
  inferInstanceAs (Decidable (_ ∧ _))

/-- **What `setenv` should do**: a variable that is there and must not be overwritten stays, and
otherwise the variable gets the value and no other one changes. -/
structure Sets (s : Environ) (name value : List Char) (overwrite r : Int) (s' : Environ) :
    Prop where
  kept : name ∈ s.names → overwrite = 0 → r = -1 ∧ s'.envp = s.envp
  set : ¬ (name ∈ s.names ∧ overwrite = 0) → r = 0 ∧
    ∀ n, s'.value n = if n = name then some value else s.value n
  nodup : s'.names.Nodup

/-! ## Comparing and seeking -/

theorem isEntryOf_cons {e c : Char} {envs namep : List Char} (he : e ≠ '=') :
    isEntryOf (e :: envs) (c :: namep) = (decide (e = c) && isEntryOf envs namep) := by
  by_cases hec : e = c
  · simp [isEntryOf, compare, hec ▸ he, hec]
  · simp [isEntryOf, compare, hec]

theorem isEntryOf_iff {x : Variable} {name : List Char} (hx : '=' ∉ x.1) (hname : '=' ∉ name) :
    isEntryOf (entryOf x) name = true ↔ x.1 = name := by
  obtain ⟨k, v⟩ := x
  show isEntryOf (k ++ '=' :: v) name = true ↔ k = name
  replace hx : '=' ∉ k := hx
  induction k generalizing name with
  | nil => cases name <;> simp [isEntryOf, compare]
  | cons e k ih =>
    rw [List.mem_cons, not_or] at hx
    cases name with
    | nil => simp [isEntryOf, compare, Ne.symm hx.1]
    | cons c name =>
      rw [List.mem_cons, not_or] at hname
      rw [List.cons_append, isEntryOf_cons (Ne.symm hx.1), Bool.and_eq_true, decide_eq_true_eq,
        List.cons.injEq]
      exact and_congr_right (fun _ => ih hname.2 hx.2)

theorem variableOf_entryOf {x : Variable} (hx : '=' ∉ x.1) : variableOf (entryOf x) = x := by
  have hall : ∀ c ∈ x.1, (c != '=') = true := by
    intro c hc
    rw [bne_iff_ne]
    rintro rfl
    exact hx hc
  rw [variableOf, entryOf, List.takeWhile_append_of_pos hall, List.dropWhile_append_of_pos hall]
  simp

/-! ## The variables before one -/

/-- The variables that stand before `name`. -/
def before (name : List Char) (l : List Variable) : List Variable :=
  l.takeWhile (fun x => x.1 != name)

section Before

variable {l : List Variable} {name : List Char}

theorem before_cons (x : Variable) :
    before name (x :: l) = if x.1 = name then [] else x :: before name l := by
  rw [before, List.takeWhile_cons]
  by_cases hx : x.1 = name
  · simp [hx]
  · simp [hx, before]

theorem before_sublist (name : List Char) (l : List Variable) : (before name l).Sublist l :=
  List.takeWhile_sublist _

theorem before_append_rest (name : List Char) (l : List Variable) :
    before name l ++ l.dropWhile (fun x => x.1 != name) = l :=
  List.takeWhile_append_dropWhile

theorem not_mem_before : name ∉ (before name l).map Prod.fst := by
  intro hmem
  obtain ⟨x, hx, rfl⟩ := List.mem_map.mp hmem
  simpa using List.mem_takeWhile_imp hx

theorem before_eq_self (h : name ∉ l.map Prod.fst) : before name l = l := by
  rw [before, List.takeWhile_eq_self_iff]
  intro x hx
  rw [bne_iff_ne]
  rintro rfl
  exact h (List.mem_map.mpr ⟨x, hx, rfl⟩)

theorem before_append (h : name ∈ l.map Prod.fst) :
    ∃ v back, l = before name l ++ (name, v) :: back := by
  induction l with
  | nil => cases h
  | cons x l ih =>
    rw [before_cons]
    split
    next hx => exact ⟨x.2, l, by rw [← hx]; rfl⟩
    next hx =>
      rw [List.map_cons, List.mem_cons] at h
      obtain ⟨v, back, hl⟩ := ih (h.resolve_left (Ne.symm hx))
      exact ⟨v, back, by rw [List.cons_append, ← hl]⟩

theorem before_length_lt (h : name ∈ l.map Prod.fst) : (before name l).length < l.length := by
  obtain ⟨v, back, hl⟩ := before_append h
  conv_rhs => rw [hl]
  simp

end Before

/-! ## The table -/

/-- The slots from `i` on hold the variables `l`, and a null pointer after them. -/
def HoldsFrom (T : Table) (i : Nat) (l : List Variable) : Prop :=
  ∀ j ≤ l.length, T (i + j) = (l.map entryOf)[j]?

theorem HoldsFrom.tail {T : Table} {i : Nat} {x : Variable} {l : List Variable}
    (h : HoldsFrom T i (x :: l)) : T i = some (entryOf x) ∧ HoldsFrom T (i + 1) l := by
  refine ⟨h 0 (Nat.zero_le _), fun j hj => ?_⟩
  have := h (j + 1) (by simpa using hj)
  rwa [show i + (j + 1) = i + 1 + j by omega] at this

theorem HoldsFrom.nil {T : Table} {i : Nat} (h : HoldsFrom T i []) : T i = none :=
  h 0 (Nat.le_refl 0)

section Table

variable {T : Table} {l : List Variable} {name : List Char} (hl : ∀ x ∈ l, '=' ∉ x.1)

include hl

theorem entriesFrom_eq {i fuel : Nat} (h : HoldsFrom T i l) (hfuel : l.length ≤ fuel) :
    (entriesFrom T fuel i).map variableOf = l := by
  induction l generalizing i fuel with
  | nil =>
    cases fuel with
    | zero => rfl
    | succ fuel => simp [entriesFrom, h.nil]
  | cons x l ih =>
    obtain ⟨hfirst, hrest⟩ := h.tail
    cases fuel with
    | zero => exact absurd hfuel (by simp)
    | succ fuel =>
      rw [entriesFrom, hfirst, List.map_cons, variableOf_entryOf (hl x (by simp)),
        ih (fun y hy => hl y (by simp [hy])) hrest (by simpa using hfuel)]

theorem seek_eq {i fuel : Nat} (h : HoldsFrom T i l) (hname : '=' ∉ name)
    (hfuel : l.length < fuel) :
    seek T name fuel i = .ok (i + (before name l).length, decide (name ∈ l.map Prod.fst)) := by
  induction l generalizing i fuel with
  | nil =>
    cases fuel with
    | zero => exact absurd hfuel (by simp)
    | succ fuel => simp [seek, h.nil, before]
  | cons x l ih =>
    obtain ⟨hfirst, hrest⟩ := h.tail
    cases fuel with
    | zero => exact absurd hfuel (by simp)
    | succ fuel =>
      have hiff := isEntryOf_iff (hl x (by simp)) hname
      rw [seek, hfirst]
      dsimp only
      by_cases hx : x.1 = name
      · rw [if_pos (hiff.mpr hx), before_cons, if_pos hx]
        simp [hx]
      · rw [if_neg (mt hiff.mp hx), ih (fun y hy => hl y (by simp [hy])) hrest
          (by simpa using hfuel), before_cons, if_neg hx, List.length_cons,
          Nat.add_right_comm i, Nat.add_assoc]
        simp [Ne.symm hx]

end Table

theorem HoldsFrom.store {T T' : Table} {front back : List Variable} {x : Variable}
    (h : HoldsFrom T 0 (front ++ back)) (hstore : store T front.length (entryOf x) = .ok T') :
    HoldsFrom T' 0 (front ++ [x]) := by
  unfold Env.store at hstore
  split at hstore
  next =>
    cases hstore
    intro j hj
    rw [List.length_append, List.length_singleton] at hj
    rw [Nat.zero_add, List.map_append, Function.update_apply, Function.update_apply]
    split
    next hend => simp [hend]
    next hend =>
      split
      next hat => simp [hat]
      next hat =>
        have hlt : j < front.length := by omega
        have hold := h j (by rw [List.length_append]; omega)
        rw [Nat.zero_add, List.map_append, List.getElem?_append_left (by simpa using hlt)] at hold
        rw [hold, List.getElem?_append_left (by simpa using hlt)]
  next => cases hstore

/-! ## Runs -/

/-- The task has the variables `l`, and its lock is free. -/
structure Holds (s : Environ) (l : List Variable) : Prop where
  unlocked : s.envLock = false
  valid : ∀ x ∈ l, '=' ∉ x.1
  nodup : (l.map Prod.fst).Nodup
  length : l.length < tableSlots
  table : match s.envp with
    | none => l = []
    | some T => HoldsFrom T 0 l
  mallocOk : ∀ k, s.mallocOk k = true

theorem Holds.vars {s : Environ} {l : List Variable} (h : Holds s l) : s.vars = l := by
  have htable := h.table
  unfold Environ.vars
  split at htable
  next hnone => rw [htable]
  next T hsome => exact entriesFrom_eq h.valid htable (Nat.le_of_lt h.length)

theorem Holds.opened {s : Environ} {l : List Variable} (h : Holds s l) :
    ∃ T k, { s with envLock := true }.table =
      (some T, { s with envLock := true, envp := some T, mallocs := k }) ∧ HoldsFrom T 0 l ∧
      (l ≠ [] → s.envp = some T) := by
  have htable := h.table
  unfold Environ.table
  split at htable
  next hnone =>
    subst htable
    refine ⟨fun _ => none, s.mallocs + 1, ?_, fun j hj => by simp, fun h => absurd rfl h⟩
    simp [hnone, Environ.malloc, h.mallocOk]
  next T hsome =>
    refine ⟨T, s.mallocs, ?_, htable, fun _ => hsome⟩
    rw [hsome]

section Written

variable {l : List Variable} {name value : List Char}

theorem written_nodup (h : (l.map Prod.fst).Nodup) :
    ((before name l ++ [(name, value)]).map Prod.fst).Nodup := by
  rw [List.map_append, List.nodup_append]
  refine ⟨h.sublist ((before_sublist name l).map _), by simp, ?_⟩
  rintro n hn m hm rfl
  rw [List.map_singleton, List.mem_singleton] at hm
  subst hm
  exact not_mem_before hn

theorem written_valid (h : ∀ x ∈ l, '=' ∉ x.1) (hname : '=' ∉ name) :
    ∀ x ∈ before name l ++ [(name, value)], '=' ∉ x.1 := by
  intro x hx
  rcases List.mem_append.mp hx with hx | hx
  · exact h x ((before_sublist name l).subset hx)
  · rw [List.mem_singleton.mp hx]
    exact hname

theorem lookup_eq_none {n : List Char} (h : n ∉ l.map Prod.fst) : l.lookup n = none := by
  rw [List.lookup_eq_none_iff]
  intro x hx
  rw [bne_iff_ne]
  rintro rfl
  exact h (List.mem_map.mpr ⟨x, hx, rfl⟩)

theorem lookup_cons_of_ne {n : List Char} (h : n ≠ name) :
    ((name, value) :: l).lookup n = l.lookup n := by
  rw [List.lookup_cons, beq_eq_false_iff_ne.mpr h]

theorem lookup_written (n : List Char) : (before name l ++ [(name, value)]).lookup n =
    if n = name then some value else (before name l).lookup n := by
  rw [List.lookup_append]
  split
  next heq =>
    subst heq
    rw [lookup_eq_none not_mem_before]
    simp
  next hne => rw [lookup_cons_of_ne hne, List.lookup_nil, Option.or_none]

theorem lookup_before_iff (hnodup : (l.map Prod.fst).Nodup) :
    (∀ n, n ≠ name → (before name l).lookup n = l.lookup n) ↔
      name ∉ l.map Prod.fst ∨ (l.map Prod.fst).getLast? = some name := by
  by_cases hmem : name ∈ l.map Prod.fst
  · obtain ⟨v, back, hl⟩ := before_append hmem
    have hnames : l.map Prod.fst = (before name l).map Prod.fst ++ name :: back.map Prod.fst := by
      conv_lhs => rw [hl]
      rw [List.map_append, List.map_cons]
    rw [hnames, List.nodup_append, List.nodup_cons] at hnodup
    obtain ⟨-, ⟨hname, -⟩, hapart⟩ := hnodup
    cases back with
    | nil =>
      refine iff_of_true (fun n hne => ?_) (Or.inr (by rw [hnames]; simp))
      conv_rhs => rw [hl]
      rw [List.lookup_append, lookup_cons_of_ne hne, List.lookup_nil, Option.or_none]
    | cons x back =>
      -- the variable behind it is gone
      have hx : x.1 ≠ name := by
        rintro rfl
        simp at hname
      refine iff_of_false (fun hkept => ?_) ?_
      · have hgone : (before name l).lookup x.1 = none :=
          lookup_eq_none (fun hin => hapart x.1 hin x.1 (by simp) rfl)
        have hthere : l.lookup x.1 = some x.2 := by
          rw [hl, List.lookup_append, hgone, lookup_cons_of_ne hx, List.lookup_cons]
          simp
        rw [hkept x.1 hx, hthere] at hgone
        cases hgone
      · rintro (hnot | hlast)
        · exact hnot hmem
        · rw [hnames, List.getLast?_append_of_ne_nil _ (by simp), List.map_cons,
            List.getLast?_cons_cons] at hlast
          exact hname (List.mem_of_getLast? hlast)
  · rw [before_eq_self hmem]
    simp [hmem]

end Written

/-- **How `setenv` ends**, in a task with the variables `l`. -/
inductive SetenvEnds (s : Environ) (l : List Variable) (name value : List Char) (overwrite : Int) :
    Except Stop (Int × Environ) → Prop where
  | refused {s' : Environ} (hmem : name ∈ l.map Prod.fst) (h0 : overwrite = 0)
      (same : s'.envp = s.envp) (holds : Holds s' l) :
      SetenvEnds s l name value overwrite (.ok (-1, s'))
  | done {s' : Environ} (h : ¬ (name ∈ l.map Prod.fst ∧ overwrite = 0))
      (room : (before name l).length + 1 < tableSlots)
      (holds : Holds s' (before name l ++ [(name, value)])) :
      SetenvEnds s l name value overwrite (.ok (0, s'))
  | full (h : ¬ (name ∈ l.map Prod.fst ∧ overwrite = 0))
      (full : ¬ (before name l).length + 1 < tableSlots) :
      SetenvEnds s l name value overwrite (.error .outOfBounds)

theorem Holds.setenv_ends {s : Environ} {l : List Variable} (h : Holds s l) {name : List Char}
    (hname : ValidName name) (value : List Char) (overwrite : Int) :
    SetenvEnds s l name value overwrite (setenv s (some name) value overwrite) := by
  obtain ⟨T, k, hopen, hT, hsame⟩ := h.opened
  obtain ⟨hne, heq⟩ := hname
  have hseek := seek_eq h.valid hT heq h.length
  simp only [setenv, hne, heq, or_self, if_false, h.unlocked, Bool.false_eq_true, hopen, hseek,
    Nat.zero_add, Loop.ok_bind, decide_eq_true_eq, Environ.malloc, h.mallocOk, if_true]
  split
  next hkept =>
    refine .refused hkept.1 hkept.2 ?_ ⟨rfl, h.valid, h.nodup, h.length, hT, h.mallocOk⟩
    have hl : l ≠ [] := by
      rintro rfl
      simp at hkept
    exact (hsame hl).symm
  next hwrite =>
    by_cases hroom : (before name l).length + 1 < tableSlots
    · have hstore : store T (before name l).length (name ++ '=' :: value) = .ok _ := if_pos hroom
      rw [hstore]
      refine .done hwrite hroom ⟨rfl, written_valid h.valid heq, written_nodup h.nodup, ?_, ?_,
        h.mallocOk⟩
      · simpa using hroom
      · rw [← before_append_rest name l] at hT
        exact hT.store (x := (name, value)) hstore
    · rw [store, if_neg hroom]
      exact .full hwrite hroom

/-- A call of `setenv`. -/
structure Call where
  name : Option (List Char)
  value : List Char
  overwrite : Int

/-- The call comes back and leads from `s` to `s'`. -/
def Step (s : Environ) (c : Call) (s' : Environ) : Prop :=
  ∃ r, setenv s c.name c.value c.overwrite = .ok (r, s')

/-- The tables that calls build, starting without one. -/
abbrev Built (s : Environ) : Prop := Reach Step (fun _ _ => True) {} s

theorem Holds.step {s s' : Environ} {l : List Variable} {c : Call} (h : Holds s l)
    (hstep : Step s c s') : ∃ l', Holds s' l' := by
  obtain ⟨r, hcall⟩ := hstep
  cases hn : c.name with
  | none =>
    rw [hn] at hcall
    cases hcall
    exact ⟨l, h⟩
  | some name =>
    rw [hn] at hcall
    by_cases hvalid : ValidName name
    · have hends := h.setenv_ends hvalid c.value c.overwrite
      rw [hcall] at hends
      cases hends with
      | refused _ _ _ holds => exact ⟨l, holds⟩
      | done _ _ holds => exact ⟨_, holds⟩
    · have hbad : name = [] ∨ '=' ∈ name := by
        by_contra hnot
        rw [not_or] at hnot
        exact hvalid hnot
      simp only [setenv, if_pos hbad] at hcall
      cases hcall
      exact ⟨l, h⟩

theorem Built.holds {s : Environ} (h : Built s) : ∃ l, Holds s l := by
  refine h.invariant (I := fun s => ∃ l, Holds s l) ⟨[], rfl, by simp, by simp, by decide, rfl,
    fun _ => rfl⟩ ?_
  rintro s c s' ⟨l, hl⟩ - hstep
  exact hl.step hstep

/-! ## When a call does what it should -/

/-- **When `setenv` sets one variable and no other.** -/
theorem setenv_sets_iff {s : Environ} (hs : Built s) {name : List Char} (hname : ValidName name)
    (value : List Char) (overwrite : Int) :
    (∃ r s', setenv s (some name) value overwrite = .ok (r, s') ∧
      Sets s name value overwrite r s') ↔
    (name ∈ s.names ∧ overwrite = 0) ∨ (name ∉ s.names ∧ s.vars.length < 255) ∨
      s.names.getLast? = some name := by
  obtain ⟨l, h⟩ := hs.holds
  have hvars := h.vars
  have hnames : s.names = l.map Prod.fst := by rw [Environ.names, hvars]
  rw [hnames, hvars]
  have hends := h.setenv_ends hname value overwrite
  generalize setenv s (some name) value overwrite = result at hends
  cases hends with
  | @refused s' hmem h0 same holds =>
    refine iff_of_true ⟨-1, s', rfl, fun _ _ => ⟨rfl, same⟩, ?_, ?_⟩ (Or.inl ⟨hmem, h0⟩)
    · rw [hnames]
      exact fun hnot => absurd ⟨hmem, h0⟩ hnot
    · rw [Environ.names, holds.vars]
      exact holds.nodup
  | @done s' hwrite room holds =>
    have hset : Sets s name value overwrite 0 s' ↔
        ∀ n, n ≠ name → (before name l).lookup n = l.lookup n := by
      have hvalue : ∀ n, s'.value n =
          if n = name then some value else (before name l).lookup n := by
        intro n
        rw [Environ.value, holds.vars, lookup_written]
      constructor
      · intro hsets n hne
        have hn := (hsets.set (hnames ▸ hwrite)).2 n
        rwa [hvalue, if_neg hne, if_neg hne, Environ.value, hvars] at hn
      · intro hkept
        refine ⟨fun hmem h0 => absurd ⟨hnames ▸ hmem, h0⟩ hwrite, fun _ => ⟨rfl, fun n => ?_⟩, ?_⟩
        · rw [hvalue]
          split
          · rfl
          next hne => rw [hkept n hne, Environ.value, hvars]
        · rw [Environ.names, holds.vars]
          exact holds.nodup
    have hroom : name ∉ l.map Prod.fst → l.length < 255 := by
      intro hnot
      rw [before_eq_self hnot, tableSlots] at room
      omega
    rw [lookup_before_iff h.nodup] at hset
    constructor
    · rintro ⟨r, s'', heq, hsets⟩
      cases heq
      exact Or.inr ((hset.mp hsets).imp_left (fun hnot => ⟨hnot, hroom hnot⟩))
    · rintro (hkept | hset')
      · exact absurd hkept hwrite
      · exact ⟨0, s', rfl, hset.mpr (hset'.imp_left And.left)⟩
  | full hwrite full =>
    refine iff_of_false ?_ ?_
    · rintro ⟨r, s', heq, -⟩
      cases heq
    have hlength := h.length
    rw [tableSlots] at full hlength
    rintro (hkept | ⟨hnot, hlt⟩ | hlast)
    · exact hwrite hkept
    · rw [before_eq_self hnot] at full
      omega
    · have hlt := before_length_lt (List.mem_of_getLast? hlast)
      omega

/-- A second variable. -/
theorem setenv_sets_first : ∃ s r s', Built s ∧ s.value ['A'] = some ['1'] ∧
    setenv s (some ['B']) ['2'] 1 = .ok (r, s') ∧ Sets s ['B'] ['2'] 1 r s' := by
  have hstart : Built {} := .start
  have hone := hstart.step trivial (⟨0, rfl⟩ : Step {} ⟨some ['A'], ['1'], 0⟩ _)
  obtain ⟨r, s', hcall, hsets⟩ := (setenv_sets_iff hone (show ValidName ['B'] by decide) ['2'] 1).mpr
    (Or.inr (Or.inl ⟨by decide, by decide⟩))
  exact ⟨_, r, s', hone, rfl, hcall, hsets⟩

/-- **A variable is lost**: `A` and `B` are set, and `A` is set again. -/
theorem setenv_loses : ∃ s r s', Built s ∧ setenv s (some ['A']) ['2'] 1 = .ok (r, s') ∧
    s.value ['B'] = some ['1'] ∧ s'.value ['B'] = none ∧ ¬ Sets s ['A'] ['2'] 1 r s' := by
  have hstart : Built {} := .start
  have hone := hstart.step trivial (⟨0, rfl⟩ : Step {} ⟨some ['A'], ['1'], 0⟩ _)
  have htwo := hone.step trivial (⟨0, rfl⟩ : Step _ ⟨some ['B'], ['1'], 0⟩ _)
  refine ⟨_, 0, _, htwo, rfl, rfl, rfl, fun h => ?_⟩
  have hlost := (h.set (by decide)).2 ['B']
  cases hlost

end Hydrax.Env
