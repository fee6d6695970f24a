import Hydrax.Env

/-!
# The strings of the environment

`kernel/env.c` once more, with the blocks that its strings are in: `setenv`, `unsetenv` and
`free_env`. Blocks are numbered in the order in which `malloc` hands them out and no number is used
twice, so that a pointer to a block that was freed stays one. Reading or freeing such a block stops
the model.

* `setenv_refines_built` — `setenv` is the one of `Hydrax.Env`,
* `setenv_fails_iff` — when a call of `setenv` without memory leaves the environment as it was. The
  lock is kept when there is no memory for the string, and a string that was to be replaced is freed
  by then,
* `unsetenv_removes_iff` — when `unsetenv` comes back: it does not go on to the second variable.
-/

namespace Hydrax.EnvBlocks

open Loop
open Env (Variable Environ entryOf variableOf isEntryOf ValidName)
open Function (update update_apply update_of_ne update_self)

/-- The slots of a table: numbers of blocks, with `0` for the null pointer. -/
abbrev Pointers := Nat → Nat

/-- What the functions see of the current task and of the kernel's heap. The table has a block of
its own, to which nothing but `envp` points. -/
structure State where
  envp : Option Pointers := none
  envLock : Bool := false
  /-- The characters in each block. They are still there when it is freed. -/
  string : Nat → List Char := fun _ => []
  live : Nat → Bool := fun _ => false
  nextBlock : Nat := 1
  mallocs : Nat := 0
  mallocOk : Nat → Bool := fun _ => true

namespace State

variable (s : State)

/-- `malloc`, for a string. -/
def malloc : Nat × State :=
  if s.mallocOk s.mallocs then
    (s.nextBlock, { s with
      live := update s.live s.nextBlock true
      nextBlock := s.nextBlock + 1
      mallocs := s.mallocs + 1 })
  else (0, { s with mallocs := s.mallocs + 1 })

def free (p : Nat) : Except Stop State :=
  if s.live p then .ok { s with live := update s.live p false } else .error .useAfterFree

/-- "free(*envp)", if there is a string to replace. -/
def release (found : Bool) (p : Nat) : Except Stop State := if found then s.free p else .ok s

def deref (p : Nat) : Except Stop (List Char) :=
  if s.live p then .ok (s.string p) else .error .useAfterFree

/-- The table of the task. One that is not there yet is allocated and cleared. -/
def table : Option Pointers × State :=
  match s.envp with
  | some T => (some T, s)
  | none =>
    if s.mallocOk s.mallocs then
      (some (fun _ => 0), { s with envp := some (fun _ => 0), mallocs := s.mallocs + 1 })
    else (none, { s with mallocs := s.mallocs + 1 })

end State

/-! ## `free_env` -/

/-- "while (*envs != NULL)". -/
def freeStrings (T : Pointers) : Nat → Nat → State → Except Stop State
  | 0, _, _ => .error .outOfBounds
  | fuel + 1, i, s =>
    if T i = 0 then .ok s
    else do
      let s ← s.free (T i)
      freeStrings T fuel (i + 1) s

def freeEnv (s : State) : Except Stop State :=
  if s.envLock then .error .hang
  else
    match s.envp with
    | none => .ok s
    | some T => do
        let s ← freeStrings T Env.tableSlots 0 s
        return { s with envp := none }

/-! ## `unsetenv` -/

/-- The loop that compares an entry with a name. It asks for the end of the name where it should ask
whether there is more of it. -/
def compareUnset : List Char → List Char → List Char × List Char
  | [], namep => ([], namep)
  | e :: envs, namep =>
    if e ≠ '=' ∧ namep = [] then
      if namep.head? ≠ some e then (e :: envs, namep) else compareUnset envs namep.tail
    else (e :: envs, namep)

/-- "while (envp[1] != NULL)": the entries behind a slot move up. The last one stays where it is. -/
def moveUp : Nat → Nat → Pointers → Except Stop Pointers
  | 0, _, _ => .error .outOfBounds
  | fuel + 1, i, T =>
    if T (i + 1) = 0 then .ok T else moveUp fuel (i + 1) (update T i (T (i + 1)))

/-- "while (*envp != NULL)". -/
def unsetLoop (s : State) (T : Pointers) (name : List Char) : Nat → Nat → Except Stop (Int × State)
  | 0, _ => .error .hang
  | fuel + 1, i =>
    if T i = 0 then .ok (0, s)
    else do
      let entry ← s.deref (T i)
      let (envs, namep) := compareUnset entry name
      if envs.head? = some '=' ∧ namep = [] then
        let s ← s.free (T i)
        let T ← moveUp Env.tableSlots i T
        return (0, { s with envp := some T })
      else
        -- no "envp++" here
        unsetLoop s T name fuel i

/-- `unsetenv`, with a null `name` as `none`. -/
def unsetenv (fuel : Nat) (s : State) (name : Option (List Char)) : Except Stop (Int × State) :=
  match name with
  | none => .ok (Env.einval, s)
  | some name =>
    if name = [] then .ok (Env.einval, s)
    else
      match s.envp with
      | none => .ok (0, s)
      | some T => unsetLoop s T name fuel 0

/-! ## `setenv` -/

/-- "First check where the last entry is stored": the slot, and whether it holds the name. -/
def seek (s : State) (T : Pointers) (name : List Char) : Nat → Nat → Except Stop (Nat × Bool)
  | 0, _ => .error .outOfBounds
  | fuel + 1, i =>
    if T i = 0 then .ok (i, false)
    else do
      let entry ← s.deref (T i)
      if isEntryOf entry name then return (i, true) else seek s T name fuel (i + 1)

/-- "*envp++ = envs; *envp = NULL". -/
def store (T : Pointers) (i envs : Nat) : Except Stop Pointers :=
  if i + 1 < Env.tableSlots then .ok (update (update T i envs) (i + 1) 0)
  else .error .outOfBounds

/-- The rest of `setenv` once the slot is known: the string that was there is freed, and the new one
is allocated. The lock is not given back when there is no memory for it. -/
def writeEntry (s : State) (T : Pointers) (i : Nat) (found : Bool) (name value : List Char) :
    Except Stop (Int × State) := do
  let s ← s.release found (T i)
  let (envs, s) := s.malloc
  if envs = 0 then return (Env.enomem, s)
  else
    let T ← store T i envs
    return (0, { s with
      envp := some T
      string := update s.string envs (name ++ '=' :: value)
      envLock := false })

/-- `setenv`, with a null `name` as `none`. -/
def setenv (s : State) (name : Option (List Char)) (value : List Char) (overwrite : Int) :
    Except Stop (Int × State) :=
  match name with
  | none => .ok (Env.einval, s)
  | some name =>
    if name = [] ∨ '=' ∈ name then .ok (Env.einval, s)
    else if s.envLock then .error .hang
    else
      let (T, s) := { s with envLock := true }.table
      match T with
      | none => .ok (Env.enomem, { s with envLock := false })
      | some T => do
          let (i, found) ← seek s T name Env.tableSlots 0
          if found = true ∧ overwrite = 0 then return (-1, { s with envLock := false })
          else writeEntry s T i found name value

/-! ## Forgetting the blocks -/

def State.strings (s : State) (T : Pointers) : Env.Table :=
  fun i => if T i = 0 then none else some (s.string (T i))

def State.environ (s : State) : Environ where
  envp := s.envp.map s.strings
  envLock := s.envLock
  mallocs := s.mallocs
  mallocOk := s.mallocOk

/-- The pointers of a table from slot `i` on. -/
def pointersFrom (T : Pointers) : Nat → Nat → List Nat
  | 0, _ => []
  | fuel + 1, i => if T i = 0 then [] else T i :: pointersFrom T fuel (i + 1)

def State.pointers (s : State) : List Nat :=
  match s.envp with
  | none => []
  | some T => pointersFrom T Env.tableSlots 0

/-! ## Sound tables -/

/-- The slots from `i` on hold the pointers `ps`, and a null pointer after them. -/
def PointsFrom (T : Pointers) (i : Nat) (ps : List Nat) : Prop :=
  ∀ j ≤ ps.length, T (i + j) = (ps[j]?).getD 0

section Points

variable {s : State} {T : Pointers} {i p : Nat} {ps : List Nat} {name : List Char}

theorem PointsFrom.nil (h : PointsFrom T i []) : T i = 0 := h 0 (Nat.le_refl 0)

theorem PointsFrom.tail (h : PointsFrom T i (p :: ps)) : T i = p ∧ PointsFrom T (i + 1) ps := by
  refine ⟨h 0 (Nat.zero_le _), fun j hj => ?_⟩
  have hnext := h (j + 1) (Nat.succ_le_succ hj)
  rwa [← Nat.add_assoc, Nat.add_right_comm] at hnext

theorem pointersFrom_eq (h : PointsFrom T i ps) (hne : ∀ p ∈ ps, p ≠ 0) {fuel : Nat}
    (hfuel : ps.length < fuel) : pointersFrom T fuel i = ps := by
  induction ps, fuel, hfuel using fuel_induction generalizing i with
  | nil fuel =>
    rw [pointersFrom, if_pos h.nil]
  | cons p ps fuel hfuel ih =>
    obtain ⟨hp, hrest⟩ := h.tail
    rw [List.forall_mem_cons] at hne
    rw [pointersFrom, hp, if_neg hne.1, ih hrest hne.2]

theorem seek_eq_strings (h : PointsFrom T i ps) (hlive : ∀ p ∈ ps, p ≠ 0 ∧ s.live p = true)
    (fuel : Nat) : seek s T name fuel i = Env.seek (s.strings T) name fuel i := by
  induction ps generalizing i fuel with
  | nil =>
    cases fuel with
    | zero => rfl
    | succ fuel => rw [seek, Env.seek, State.strings, if_pos h.nil, if_pos h.nil]
  | cons p ps ih =>
    cases fuel with
    | zero => rfl
    | succ fuel =>
      obtain ⟨hp, hrest⟩ := h.tail
      rw [List.forall_mem_cons] at hlive
      obtain ⟨⟨hne, hp'⟩, hlive⟩ := hlive
      have hslot : s.strings T i = some (s.string p) := by rw [State.strings, hp, if_neg hne]
      rw [seek, Env.seek, hslot, hp, if_neg hne, State.deref, if_pos hp', ok_bind,
        ih hrest hlive]
      rfl

theorem freeStrings_ok (h : PointsFrom T i ps) (hlive : ∀ p ∈ ps, p ≠ 0 ∧ s.live p = true)
    (hnodup : ps.Nodup) {fuel : Nat} (hfuel : ps.length < fuel) :
    ∃ live, freeStrings T fuel i s = .ok { s with live := live } := by
  induction ps, fuel, hfuel using fuel_induction generalizing i s with
  | nil fuel =>
    exact ⟨s.live, if_pos h.nil⟩
  | cons p ps fuel hfuel ih =>
    obtain ⟨hp, hrest⟩ := h.tail
    rw [List.forall_mem_cons] at hlive
    rw [List.nodup_cons] at hnodup
    obtain ⟨⟨hne, hp'⟩, hlive⟩ := hlive
    rw [freeStrings, hp, if_neg hne, State.free, if_pos hp', ok_bind]
    refine ih hrest (fun q hq => ⟨(hlive q hq).1, ?_⟩) hnodup.2
    -- the blocks behind are other ones
    have hqp : q ≠ p := by
      rintro rfl
      exact hnodup.1 hq
    exact (update_of_ne hqp _ _).trans (hlive q hq).2

end Points

/-- The table points to different strings, one for each of the variables, with the pointers before
them. -/
structure Blocks (s : State) (T : Pointers) (l : List (Nat × Variable)) : Prop where
  points : PointsFrom T 0 (l.map Prod.fst)
  below : ∀ i, T i < s.nextBlock
  live : ∀ b ∈ l, b.1 ≠ 0 ∧ s.live b.1 = true
  string : ∀ b ∈ l, s.string b.1 = entryOf b.2
  valid : ∀ b ∈ l, '=' ∉ b.2.1
  nodup : (l.map Prod.fst).Nodup
  length : l.length < Env.tableSlots

/-- The lock is free, and there is no table yet or it is one of these. -/
structure Sound (s : State) (l : List (Nat × Variable)) : Prop where
  unlocked : s.envLock = false
  table : s.envp = none ∧ l = [] ∧ 0 < s.nextBlock ∨ ∃ T, s.envp = some T ∧ Blocks s T l

section Blocks

variable {s : State} {T : Pointers} {l : List (Nat × Variable)} {name : List Char}

theorem Blocks.live_fst (h : Blocks s T l) : ∀ p ∈ l.map Prod.fst, p ≠ 0 ∧ s.live p = true := by
  intro p hp
  obtain ⟨b, hb, rfl⟩ := List.mem_map.mp hp
  exact h.live b hb

theorem Blocks.valid_snd (h : Blocks s T l) : ∀ x ∈ l.map Prod.snd, '=' ∉ x.1 := by
  intro x hx
  obtain ⟨b, hb, rfl⟩ := List.mem_map.mp hx
  exact h.valid b hb

theorem Blocks.holdsFrom (h : Blocks s T l) :
    Env.HoldsFrom (s.strings T) 0 (l.map Prod.snd) := by
  intro j hj
  have hT := h.points j (by simpa using hj)
  rw [List.getElem?_map] at hT
  rw [State.strings, hT, List.getElem?_map, List.getElem?_map]
  cases hb : l[j]? with
  | none => rfl
  | some b =>
    have hmem := List.mem_of_getElem? hb
    show (if b.1 = 0 then none else some (s.string b.1)) = some (entryOf b.2)
    rw [if_neg (h.live b hmem).1, h.string b hmem]

theorem Blocks.seek_eq (h : Blocks s T l) (hname : '=' ∉ name) :
    seek s T name Env.tableSlots 0 = .ok ((Env.before name (l.map Prod.snd)).length,
      decide (name ∈ l.map (fun b => b.2.1))) := by
  rw [seek_eq_strings h.points h.live_fst,
    Env.seek_eq h.valid_snd h.holdsFrom hname (by simpa using h.length), Nat.zero_add, List.map_map]
  rfl

end Blocks

/-! ## How `setenv` ends -/

def State.TableOk (s : State) : Prop := s.envp = none → s.mallocOk s.mallocs = true

/-- The call of `malloc` for the string. -/
def State.entryMalloc (s : State) : Nat := if s.envp = none then s.mallocs + 1 else s.mallocs

/-- The state in which a call looks for the variable. -/
def State.opened (s : State) (T : Pointers) : State :=
  { s with envLock := true, envp := some T, mallocs := s.entryMalloc }

section Setenv

variable {s s' : State} {T : Pointers} {l front back : List (Nat × Variable)} {found : Bool}
  {name value : List Char} {overwrite : Int}

theorem Sound.opened (h : Sound s l) (hok : s.TableOk) :
    ∃ T, { s with envLock := true }.table = (some T, s.opened T) ∧ Blocks (s.opened T) T l ∧
      (s.envp = none ∧ l = [] ∨ s.envp = some T) := by
  rcases h.table with ⟨hnone, rfl, hpos⟩ | ⟨T, hsome, hT⟩
  · have hmalloc : s.mallocOk s.mallocs = true := hok hnone
    refine ⟨fun _ => 0, ?_, ⟨?_, fun _ => hpos, ?_, ?_, ?_, List.nodup_nil, by decide⟩,
      Or.inl ⟨hnone, rfl⟩⟩
    · rw [State.table, State.opened, State.entryMalloc, if_pos hnone]
      simp only [hnone, hmalloc, if_true]
    · intro j hj
      rw [Nat.le_zero.mp hj]
      rfl
    · rintro b ⟨⟩
    · rintro b ⟨⟩
    · rintro b ⟨⟩
  · refine ⟨T, ?_, ⟨hT.points, hT.below, hT.live, hT.string, hT.valid, hT.nodup, hT.length⟩,
      Or.inr hsome⟩
    have hentry : s.entryMalloc = s.mallocs := if_neg (by rw [hsome]; exact Option.some_ne_none T)
    rw [State.table, State.opened, hentry]
    simp only [hsome]

theorem table_of_not_ok (h : ¬ s.TableOk) : { s with envLock := true }.table =
    (none, { s with envLock := true, mallocs := s.mallocs + 1 }) := by
  obtain ⟨hnone, hfail⟩ := Classical.not_imp.mp h
  rw [State.table]
  simp only [hnone, hfail]
  rfl

theorem exists_split (name : List Char) (l : List (Nat × Variable)) :
    ∃ front back, l = front ++ back ∧ (Env.before name (l.map Prod.snd)).length = front.length ∧
      (name ∈ l.map (fun b => b.2.1) → back ≠ []) := by
  generalize hk : (Env.before name (l.map Prod.snd)).length = k
  have hle := (Env.before_sublist name (l.map Prod.snd)).length_le
  rw [hk, List.length_map] at hle
  refine ⟨l.take k, l.drop k, (List.take_append_drop k l).symm, ?_, fun hmem hnil => ?_⟩
  · rw [List.length_take, Nat.min_eq_left hle]
  · have hmem' : name ∈ (l.map Prod.snd).map Prod.fst := by
      rw [List.map_map]
      exact hmem
    have hlt := Env.before_length_lt hmem'
    rw [hk, List.length_map] at hlt
    exact absurd (List.drop_eq_nil_iff.mp hnil) (Nat.not_le_of_lt hlt)

theorem Blocks.release (h : Blocks s T (front ++ back)) (hback : found = true → back ≠ []) :
    ∃ live, s.release found (T front.length) = .ok { s with live := live } ∧
      ∀ b ∈ front, live b.1 = true := by
  have hfront : ∀ b ∈ front, s.live b.1 = true :=
    fun b hb => (h.live b (List.mem_append_left _ hb)).2
  cases found with
  | false => exact ⟨s.live, rfl, hfront⟩
  | true =>
    obtain ⟨b₀, back, rfl⟩ := List.exists_cons_of_ne_nil (hback rfl)
    have hT : T front.length = b₀.1 := by
      have hslot := h.points front.length (by simp)
      rwa [Nat.zero_add, List.map_append, List.getElem?_append_right (by simp), List.length_map,
        Nat.sub_self] at hslot
    refine ⟨update s.live b₀.1 false, ?_, fun b hb => ?_⟩
    · rw [State.release, if_pos rfl, State.free, hT, if_pos (h.live b₀ (by simp)).2]
    · -- the pointers before it are other ones
      have hne : b.1 ≠ b₀.1 := by
        have hnodup := h.nodup
        rw [List.map_append, List.nodup_append] at hnodup
        exact hnodup.2.2 b.1 (List.mem_map_of_mem hb) b₀.1 (List.mem_map_of_mem (by simp))
      rw [update_of_ne hne]
      exact hfront b hb

theorem Blocks.lt_nextBlock (h : Blocks s T l) : ∀ p ∈ l.map Prod.fst, p < s.nextBlock := by
  intro p hp
  obtain ⟨j, hj⟩ := List.mem_iff_getElem?.mp hp
  have hlt := (List.getElem?_eq_some_iff.mp hj).1
  have hT := h.points j (Nat.le_of_lt hlt)
  rw [Nat.zero_add, hj] at hT
  rw [← show T j = p from hT]
  exact h.below j

theorem Blocks.write (h : Blocks s T (front ++ back)) (hroom : front.length + 1 < Env.tableSlots)
    (hname : '=' ∉ name) (hlive : ∀ b ∈ front, s'.live b.1 = true)
    (hnew : s'.live s.nextBlock = true)
    (hstring : s'.string = update s.string s.nextBlock (name ++ '=' :: value))
    (hnext : s'.nextBlock = s.nextBlock + 1) :
    Blocks s' (update (update T front.length s.nextBlock) (front.length + 1) 0)
      (front ++ [(s.nextBlock, (name, value))]) where
  points j hj := by
    rw [List.length_map, List.length_append, List.length_singleton] at hj
    rw [Nat.zero_add, List.map_append, update_apply, update_apply]
    split
    next hend => simp [hend]
    next hend =>
      split
      next hat => simp [hat]
      next hat =>
        have hlt : j < (front.map Prod.fst).length := by
          rw [List.length_map]
          omega
        have hold := h.points j (by simp at hlt ⊢; omega)
        rw [Nat.zero_add, List.map_append, List.getElem?_append_left hlt] at hold
        rw [hold, List.getElem?_append_left hlt]
  below j := by
    rw [hnext, update_apply, update_apply]
    have hj := h.below j
    split
    · exact Nat.succ_pos _
    · split
      · exact Nat.lt_succ_self _
      · exact Nat.lt_succ_of_lt hj
  live := by
    rw [List.forall_mem_append, List.forall_mem_singleton]
    refine ⟨fun b hb => ⟨(h.live b (List.mem_append_left _ hb)).1, hlive b hb⟩, ?_, hnew⟩
    exact Nat.ne_of_gt (Nat.lt_of_le_of_lt (Nat.zero_le _) (h.below 0))
  string := by
    rw [List.forall_mem_append, List.forall_mem_singleton, hstring]
    refine ⟨fun b hb => ?_, update_self _ _ _⟩
    have hlt := h.lt_nextBlock b.1 (List.mem_map_of_mem (List.mem_append_left _ hb))
    rw [update_of_ne (Nat.ne_of_lt hlt)]
    exact h.string b (List.mem_append_left _ hb)
  valid := by
    rw [List.forall_mem_append, List.forall_mem_singleton]
    exact ⟨fun b hb => h.valid b (List.mem_append_left _ hb), hname⟩
  nodup := by
    have hnodup := h.nodup
    rw [List.map_append, List.nodup_append] at hnodup
    rw [List.map_append, List.nodup_append]
    refine ⟨hnodup.1, List.pairwise_singleton _ _, fun p hp q hq => ?_⟩
    have hlt := h.lt_nextBlock p (by rw [List.map_append]; exact List.mem_append_left _ hp)
    rw [List.mem_singleton.mp hq]
    exact Nat.ne_of_lt hlt
  length := by
    rw [List.length_append, List.length_singleton]
    exact hroom

theorem Blocks.writeEntry_cases (h : Blocks s T (front ++ back)) (hlock : s.envLock = true)
    (hback : found = true → back ≠ []) (hname : '=' ∉ name) (value : List Char) :
    (s.mallocOk s.mallocs = false ∧ ∃ s', s'.envLock = true ∧
        writeEntry s T front.length found name value = .ok (Env.enomem, s')) ∨
      s.mallocOk s.mallocs = true ∧
        ((∃ s', Sound s' (front ++ [(s.nextBlock, (name, value))]) ∧
            writeEntry s T front.length found name value = .ok (0, s')) ∨
          writeEntry s T front.length found name value = .error .outOfBounds) := by
  obtain ⟨live, hfree, hlive⟩ := h.release hback
  have hpos : s.nextBlock ≠ 0 := Nat.ne_of_gt (Nat.lt_of_le_of_lt (Nat.zero_le _) (h.below 0))
  rw [writeEntry, hfree, ok_bind]
  unfold State.malloc
  dsimp only
  cases hmalloc : s.mallocOk s.mallocs with
  | false =>
    rw [if_neg Bool.false_ne_true, if_pos rfl]
    refine Or.inl ⟨rfl, _, ?_, rfl⟩
    exact hlock
  | true =>
    refine Or.inr ⟨rfl, ?_⟩
    rw [if_pos rfl]
    dsimp only
    rw [if_neg hpos, store]
    split
    next hroom =>
      refine Or.inl ⟨_, ⟨rfl, Or.inr ⟨_, rfl, ?_⟩⟩, rfl⟩
      refine h.write hroom hname (fun b hb => ?_) (update_self _ _ _) rfl rfl
      have hlt := h.lt_nextBlock b.1 (List.mem_map_of_mem (List.mem_append_left _ hb))
      exact (update_of_ne (Nat.ne_of_lt hlt) _ _).trans (hlive b hb)
    next => exact Or.inr rfl

end Setenv

/-- **How `setenv` ends**, in a task with the variables `l`. -/
inductive SetenvEnds (s : State) (l : List (Nat × Variable)) (name : List Char) (overwrite : Int) :
    Except Stop (Int × State) → Prop where
  | noTable (h : ¬ s.TableOk) :
      SetenvEnds s l name overwrite (.ok (Env.enomem, { s with mallocs := s.mallocs + 1 }))
  | refused {s' : State} (table : s.TableOk) (hmem : name ∈ l.map (fun b => b.2.1))
      (h0 : overwrite = 0) (sound : Sound s' l) : SetenvEnds s l name overwrite (.ok (-1, s'))
  | noEntry {s' : State} (table : s.TableOk)
      (write : ¬ (name ∈ l.map (fun b => b.2.1) ∧ overwrite = 0))
      (fails : s.mallocOk s.entryMalloc = false) (locked : s'.envLock = true) :
      SetenvEnds s l name overwrite (.ok (Env.enomem, s'))
  | done {s' : State} {l' : List (Nat × Variable)} (table : s.TableOk)
      (write : ¬ (name ∈ l.map (fun b => b.2.1) ∧ overwrite = 0))
      (ok : s.mallocOk s.entryMalloc = true) (sound : Sound s' l') :
      SetenvEnds s l name overwrite (.ok (0, s'))
  | full (table : s.TableOk) (write : ¬ (name ∈ l.map (fun b => b.2.1) ∧ overwrite = 0))
      (ok : s.mallocOk s.entryMalloc = true) :
      SetenvEnds s l name overwrite (.error .outOfBounds)

theorem Sound.setenv_ends {s : State} {l : List (Nat × Variable)} (h : Sound s l)
    {name : List Char} (hname : ValidName name) (value : List Char) (overwrite : Int) :
    SetenvEnds s l name overwrite (setenv s (some name) value overwrite) := by
  have hinvalid : ¬ (name = [] ∨ '=' ∈ name) := not_or.mpr hname
  have hunlocked : ¬ s.envLock = true := by rw [h.unlocked]; decide
  rw [setenv]
  dsimp only
  rw [if_neg hinvalid, if_neg hunlocked]
  by_cases hok : s.TableOk
  · obtain ⟨T, hopen, hT, -⟩ := h.opened hok
    obtain ⟨front, back, hl, hlength, hback⟩ := exists_split name l
    rw [hopen]
    dsimp only
    rw [hT.seek_eq hname.2, hlength, ok_bind]
    dsimp only
    by_cases hkept : decide (name ∈ l.map (fun b => b.2.1)) = true ∧ overwrite = 0
    · rw [if_pos hkept]
      exact .refused hok (of_decide_eq_true hkept.1) hkept.2 ⟨rfl, Or.inr ⟨T, rfl, hT.points,
        hT.below, hT.live, hT.string, hT.valid, hT.nodup, hT.length⟩⟩
    · rw [if_neg hkept]
      rw [decide_eq_true_eq] at hkept
      rcases (hl ▸ hT).writeEntry_cases rfl (fun hfound => hback (of_decide_eq_true hfound)) hname.2
        value with ⟨hfail, s', hlocked, hs'⟩ | ⟨hmalloc, ⟨s', hsound, hs'⟩ | hfull⟩
      · rw [hs']
        exact .noEntry hok hkept hfail hlocked
      · rw [hs']
        exact .done hok hkept hmalloc hsound
      · rw [hfull]
        exact .full hok hkept hmalloc
  · rw [table_of_not_ok hok]
    dsimp only
    rw [← h.unlocked]
    exact .noTable hok

/-! ## Strings and blocks -/

section Refines

variable {s : State} {T : Pointers} {l front back : List (Nat × Variable)} {found : Bool}
  {name : List Char}

theorem strings_store {s s' : State} (hbelow : ∀ i, T i < s.nextBlock) (i : Nat)
    (entry : List Char) (hstring : s'.string = update s.string s.nextBlock entry) :
    s'.strings (update (update T i s.nextBlock) (i + 1) 0) =
      update (update (s.strings T) i (some entry)) (i + 1) none := by
  have hpos : s.nextBlock ≠ 0 := Nat.ne_of_gt (Nat.lt_of_le_of_lt (Nat.zero_le _) (hbelow 0))
  funext j
  rw [State.strings, hstring]
  by_cases hend : j = i + 1
  · rw [hend, update_self, update_self, if_pos rfl]
  · rw [update_of_ne hend, update_of_ne hend]
    by_cases hat : j = i
    · rw [hat, update_self, update_self, if_neg hpos, update_self]
    · rw [update_of_ne hat, update_of_ne hat, State.strings,
        update_of_ne (Nat.ne_of_lt (hbelow j))]

theorem Blocks.writeEntry_refines (h : Blocks s T (front ++ back))
    (hback : found = true → back ≠ []) (name value : List Char) :
    (writeEntry s T front.length found name value).map (Prod.map id State.environ) =
      (let (ok, e) := s.environ.malloc
      if ok then do
        let T' ← Env.store (s.strings T) front.length (name ++ '=' :: value)
        return (0, { e with envp := some T', envLock := false })
      else return (Env.enomem, e)) := by
  obtain ⟨live, hfree, -⟩ := h.release hback
  have hpos : s.nextBlock ≠ 0 := Nat.ne_of_gt (Nat.lt_of_le_of_lt (Nat.zero_le _) (h.below 0))
  rw [writeEntry, hfree, ok_bind]
  unfold State.malloc Environ.malloc
  dsimp only [State.environ]
  cases hmalloc : s.mallocOk s.mallocs with
  | false =>
    rw [if_neg Bool.false_ne_true, if_neg Bool.false_ne_true, if_pos rfl]
    rfl
  | true =>
    rw [if_pos rfl, if_pos rfl]
    dsimp only
    rw [if_neg hpos, store, Env.store]
    split
    next hroom =>
      let s' : State :=
        { s with string := update s.string s.nextBlock (name ++ '=' :: value) }
      have hstrings : s'.strings _ = _ := strings_store h.below front.length _ rfl
      rw [← hstrings]
      rfl
    next => rfl

theorem table_refines (s : State) :
    s.environ.table = (s.table.1.map s.table.2.strings, s.table.2.environ) := by
  unfold Environ.table State.table Environ.malloc
  cases henvp : s.envp with
  | some T =>
    have henv : s.environ.envp = some (s.strings T) := by rw [State.environ, henvp]; rfl
    simp only [henv, Option.map_some]
  | none =>
    have henv : s.environ.envp = none := by rw [State.environ, henvp]; rfl
    simp only [henv]
    cases hmalloc : s.mallocOk s.mallocs with
    | false =>
      have hfail : s.environ.mallocOk s.environ.mallocs = false := hmalloc
      simp only [hfail, Bool.false_eq_true, if_false]
      rw [Option.map_none]
      rfl
    | true =>
      have hok : s.environ.mallocOk s.environ.mallocs = true := hmalloc
      simp only [hok, if_true]
      rfl

/-- **`setenv` is the one over strings** where the table points to blocks that are there. -/
theorem Sound.setenv_refines (h : Sound s l) (name : Option (List Char)) (value : List Char)
    (overwrite : Int) : (setenv s name value overwrite).map (Prod.map id State.environ) =
      Env.setenv s.environ name value overwrite := by
  cases name with
  | none => rfl
  | some name =>
    rw [setenv, Env.setenv]
    dsimp only
    by_cases hinvalid : name = [] ∨ '=' ∈ name
    · rw [if_pos hinvalid, if_pos hinvalid]
      rfl
    have hname := not_or.mp hinvalid
    have hunlocked : ¬ s.envLock = true := by rw [h.unlocked]; decide
    have hunlocked' : ¬ s.environ.envLock = true := hunlocked
    rw [if_neg hinvalid, if_neg hinvalid, if_neg hunlocked, if_neg hunlocked']
    have htable := table_refines { s with envLock := true }
    by_cases hok : s.TableOk
    · obtain ⟨T, hopen, hT, -⟩ := h.opened hok
      obtain ⟨front, back, hl, hlength, hback⟩ := exists_split name l
      have hseek := hT.seek_eq hname.2
      have hseek' := hseek
      rw [seek_eq_strings hT.points hT.live_fst] at hseek'
      rw [hopen] at htable
      have htable' : { s.environ with envLock := true }.table =
        (some ((s.opened T).strings T), (s.opened T).environ) := htable
      rw [hopen, htable']
      dsimp only
      rw [hseek, hseek', hlength, ok_bind, ok_bind]
      dsimp only
      by_cases hkept : decide (name ∈ l.map (fun b => b.2.1)) = true ∧ overwrite = 0
      · rw [if_pos hkept, if_pos hkept]
        rfl
      · rw [if_neg hkept, if_neg hkept]
        exact (hl ▸ hT).writeEntry_refines (fun hfound => hback (of_decide_eq_true hfound)) name
          value
    · have hnone := table_of_not_ok hok
      rw [hnone] at htable
      have htable' : { s.environ with envLock := true }.table =
        (none, { s.environ with envLock := true, mallocs := s.mallocs + 1 }) := htable
      rw [hnone, htable']
      rfl

end Refines

/-! ## Runs -/

inductive Call where
  | setenv (name : Option (List Char)) (value : List Char) (overwrite : Int)
  | unsetenv (name : Option (List Char))
  | freeEnv

/-- The call comes back and leads from `s` to `s'`. -/
inductive Step : State → Call → State → Prop where
  | setenv {s s' : State} {name : Option (List Char)} {value : List Char} {overwrite r : Int}
      (h : setenv s name value overwrite = .ok (r, s')) : Step s (.setenv name value overwrite) s'
  | unsetenv {s s' : State} {name : Option (List Char)} {fuel : Nat} {r : Int}
      (h : unsetenv fuel s name = .ok (r, s')) : Step s (.unsetenv name) s'
  | freeEnv {s s' : State} (h : freeEnv s = .ok s') : Step s .freeEnv s'

structure Start (s : State) : Prop where
  envp : s.envp = none
  unlocked : s.envLock = false
  blocks : 0 < s.nextBlock

abbrev Built (s₀ s : State) : Prop := Reach Step (fun _ _ => True) s₀ s

section Unset

variable {s s' : State} {T : Pointers} {i : Nat} {name : List Char}

theorem compareUnset_snd (entry : List Char) (hname : name ≠ []) :
    (compareUnset entry name).2 = name := by
  cases entry with
  | nil => rfl
  | cons e envs =>
    rw [compareUnset, if_neg (fun h => hname h.2)]

theorem unsetLoop_succ (hi : T i ≠ 0) (hlive : s.live (T i) = true) (hname : name ≠ [])
    (fuel : Nat) : unsetLoop s T name (fuel + 1) i = unsetLoop s T name fuel i := by
  have hsnd := compareUnset_snd (s.string (T i)) hname
  rw [unsetLoop, if_neg hi, State.deref, if_pos hlive, ok_bind]
  dsimp only
  rw [hsnd, if_neg (fun h => hname h.2)]

theorem unsetLoop_hangs (hi : T i ≠ 0) (hlive : s.live (T i) = true) (hname : name ≠ [])
    (fuel : Nat) : unsetLoop s T name fuel i = .error .hang := by
  induction fuel with
  | zero => rfl
  | succ fuel ih => rw [unsetLoop_succ hi hlive hname, ih]

theorem unsetLoop_ne_ok (hi : T i ≠ 0) (hname : name ≠ []) (fuel : Nat) (r : Int × State) :
    unsetLoop s T name fuel i ≠ .ok r := by
  by_cases hlive : s.live (T i) = true
  · rw [unsetLoop_hangs hi hlive hname]
    exact fun h => by cases h
  · cases fuel with
    | zero => exact fun h => by cases h
    | succ fuel =>
      rw [unsetLoop, if_neg hi, State.deref, if_neg hlive]
      exact fun h => by cases h

theorem unsetenv_eq_ok {fuel : Nat} {r : Int} (hname : name ≠ [])
    (h : unsetenv fuel s (some name) = .ok (r, s')) : s.pointers = [] ∧ r = 0 ∧ s' = s := by
  rw [unsetenv, if_neg hname] at h
  rw [State.pointers]
  cases henvp : s.envp with
  | none =>
    rw [henvp] at h
    cases h
    exact ⟨rfl, rfl, rfl⟩
  | some T =>
    rw [henvp] at h
    dsimp only at h ⊢
    by_cases hzero : T 0 = 0
    · cases fuel with
      | zero => cases h
      | succ fuel =>
        rw [unsetLoop, if_pos hzero] at h
        cases h
        exact ⟨if_pos hzero, rfl, rfl⟩
    · exact absurd h (unsetLoop_ne_ok hzero hname fuel _)

theorem unsetenv_state {fuel : Nat} {r : Int} {name : Option (List Char)}
    (h : unsetenv fuel s name = .ok (r, s')) : s' = s := by
  cases name with
  | none =>
    cases h
    rfl
  | some name =>
    by_cases hname : name = []
    · rw [unsetenv, if_pos hname] at h
      cases h
      rfl
    · exact (unsetenv_eq_ok hname h).2.2

end Unset

/-! ## `unsetenv` -/

/-- **What `unsetenv` should do**: the pointers to the other strings stay, in their order, each once,
and the strings are still there. -/
structure Removes (s : State) (name : List Char) (s' : State) : Prop where
  pointers : s'.pointers = s.pointers.filter (fun p => (variableOf (s.string p)).1 ≠ name)
  strings : ∀ p ∈ s'.pointers, s'.string p = s.string p
  ended : s'.pointers.length < Env.tableSlots
  nodup : s'.pointers.Nodup
  live : ∀ p ∈ s'.pointers, s'.live p = true

/-- **When `unsetenv` comes back having removed the variable**: if there are no variables at all. -/
theorem unsetenv_removes_iff (s : State) {name : List Char} (hname : name ≠ []) :
    (∃ fuel s', unsetenv fuel s (some name) = .ok (0, s') ∧ Removes s name s') ↔
      s.pointers = [] := by
  constructor
  · rintro ⟨fuel, s', h, -⟩
    exact (unsetenv_eq_ok hname h).1
  · intro hnil
    have hremoves : Removes s name s := by
      refine ⟨?_, fun p _ => rfl, ?_, ?_, ?_⟩
      · rw [hnil]
        rfl
      · rw [hnil]
        decide
      · rw [hnil]
        exact List.nodup_nil
      · rw [hnil]
        rintro p ⟨⟩
    refine ⟨1, s, ?_, hremoves⟩
    rw [State.pointers] at hnil
    rw [unsetenv, if_neg hname]
    cases henvp : s.envp with
    | none => rfl
    | some T =>
      rw [henvp] at hnil
      dsimp only at hnil ⊢
      have hzero : T 0 = 0 := by
        by_contra hne
        rw [Env.tableSlots, pointersFrom, if_neg hne] at hnil
        cases hnil
      rw [unsetLoop, if_pos hzero]

/-- Without an environment there is nothing to remove. -/
theorem unsetenv_removes_none : ∃ fuel s', unsetenv fuel {} (some ['a']) = .ok (0, s') ∧
    Removes {} ['a'] s' :=
  (unsetenv_removes_iff {} (by decide)).mpr rfl

/-- The environment `a=b`. -/
def oneVariable : State where
  envp := some (update (update (fun _ => 0) 0 1) 1 0)
  string := update (fun _ => []) 1 ['a', '=', 'b']
  live := update (fun _ => false) 1 true
  nextBlock := 2
  mallocs := 2

/-- **`unsetenv("a")` does not come back** in the environment that `setenv("a", "b", 1)` builds. -/
theorem unsetenv_one_hangs :
    setenv {} (some ['a']) ['b'] 1 = .ok (0, oneVariable) ∧
      (∀ fuel, unsetenv fuel oneVariable (some ['a']) = .error .hang) ∧
      ¬ ∃ fuel s', unsetenv fuel oneVariable (some ['a']) = .ok (0, s') ∧
        Removes oneVariable ['a'] s' := by
  refine ⟨rfl, fun fuel => unsetLoop_hangs (by decide) (by decide) (by decide) fuel, ?_⟩
  rintro ⟨fuel, s', h, -⟩
  exact unsetLoop_ne_ok (by decide) (by decide) fuel _ h

/-! ## No memory -/

section Invariant

variable {s s' : State} {l : List (Nat × Variable)}

theorem Sound.vars (h : Sound s l) : s.environ.vars = l.map Prod.snd := by
  rw [Environ.vars, State.environ]
  rcases h.table with ⟨hnone, rfl, -⟩ | ⟨T, hsome, hT⟩
  · rw [hnone]
    rfl
  · rw [hsome]
    exact Env.entriesFrom_eq hT.valid_snd hT.holdsFrom (by simpa using Nat.le_of_lt hT.length)

theorem Sound.names (h : Sound s l) : s.environ.names = l.map (fun b => b.2.1) := by
  rw [Environ.names, h.vars, List.map_map]
  rfl

theorem Sound.live_pointers (h : Sound s l) : ∀ p ∈ s.pointers, s.live p = true := by
  rw [State.pointers]
  rcases h.table with ⟨hnone, -⟩ | ⟨T, hsome, hT⟩
  · rw [hnone]
    rintro p ⟨⟩
  · rw [hsome]
    dsimp only
    rw [pointersFrom_eq hT.points (fun p hp => (hT.live_fst p hp).1) (by simpa using hT.length)]
    exact fun p hp => (hT.live_fst p hp).2

theorem Sound.freeEnv_ok (h : Sound s l) : ∃ s', freeEnv s = .ok s' ∧ Sound s' [] := by
  have hunlocked : ¬ s.envLock = true := by rw [h.unlocked]; decide
  rw [freeEnv, if_neg hunlocked]
  rcases h.table with ⟨hnone, -, hpos⟩ | ⟨T, hsome, hT⟩
  · rw [hnone]
    exact ⟨s, rfl, h.unlocked, Or.inl ⟨hnone, rfl, hpos⟩⟩
  · obtain ⟨live, hfree⟩ := freeStrings_ok hT.points hT.live_fst hT.nodup
      (show (l.map Prod.fst).length < Env.tableSlots by simpa using hT.length)
    rw [hsome]
    dsimp only
    rw [hfree]
    exact ⟨_, rfl, h.unlocked, Or.inl ⟨rfl, rfl, Nat.lt_of_le_of_lt (Nat.zero_le _) (hT.below 0)⟩⟩

theorem setenv_of_invalid {name value : List Char} {overwrite : Int} (hname : ¬ ValidName name) :
    setenv s (some name) value overwrite = .ok (Env.einval, s) := by
  have hinvalid : name = [] ∨ '=' ∈ name := by
    by_contra hnot
    exact hname (not_or.mp hnot)
  exact if_pos hinvalid

theorem setenv_of_locked {name value : List Char} {overwrite : Int} (hname : ValidName name)
    (hlock : s.envLock = true) : setenv s (some name) value overwrite = .error .hang := by
  rw [setenv]
  dsimp only
  rw [if_neg (not_or.mpr hname), if_pos hlock]

theorem Sound.setenv_safe (h : Sound s l) (name : Option (List Char)) (value : List Char)
    (overwrite : Int) : setenv s name value overwrite ≠ .error .hang ∧
      setenv s name value overwrite ≠ .error .useAfterFree := by
  cases name with
  | none => exact ⟨by rintro ⟨⟩, by rintro ⟨⟩⟩
  | some name =>
    by_cases hname : ValidName name
    · have hends := h.setenv_ends hname value overwrite
      constructor
      · intro hcall
        rw [hcall] at hends
        cases hends
      · intro hcall
        rw [hcall] at hends
        cases hends
    · rw [setenv_of_invalid hname]
      exact ⟨by rintro ⟨⟩, by rintro ⟨⟩⟩

theorem Sound.setMallocs (h : Sound s l) (k : Nat) : Sound { s with mallocs := k } l := by
  refine ⟨h.unlocked, h.table.imp_right ?_⟩
  rintro ⟨T, hsome, hT⟩
  exact ⟨T, hsome, hT.points, hT.below, hT.live, hT.string, hT.valid, hT.nodup, hT.length⟩

end Invariant

/-- The lock was kept by a call that failed, or the environment is sound. -/
def Safe (s : State) : Prop := s.envLock = true ∨ ∃ l, Sound s l

theorem Safe.step {s s' : State} {c : Call} (h : Safe s) (hstep : Step s c s') : Safe s' := by
  cases hstep with
  | unsetenv hcall =>
    rw [unsetenv_state hcall]
    exact h
  | freeEnv hcall =>
    rcases h with hlock | ⟨l, hl⟩
    · rw [freeEnv, if_pos hlock] at hcall
      cases hcall
    · obtain ⟨s₁, hfree, hsound⟩ := hl.freeEnv_ok
      cases hcall.symm.trans hfree
      exact Or.inr ⟨[], hsound⟩
  | @setenv _ name value overwrite r hcall =>
    cases name with
    | none =>
      cases hcall
      exact h
    | some name =>
      by_cases hname : ValidName name
      · rcases h with hlock | ⟨l, hl⟩
        · rw [setenv_of_locked hname hlock] at hcall
          cases hcall
        · have hends := hl.setenv_ends hname value overwrite
          rw [hcall] at hends
          cases hends with
          | noTable _ => exact Or.inr ⟨l, hl.setMallocs _⟩
          | refused _ _ _ sound => exact Or.inr ⟨l, sound⟩
          | noEntry _ _ _ locked => exact Or.inl locked
          | done _ _ _ sound => exact Or.inr ⟨_, sound⟩
      · rw [setenv_of_invalid hname] at hcall
        cases hcall
        exact h

theorem Built.safe {s₀ s : State} (h : Built s₀ s) (h₀ : Start s₀) : Safe s :=
  h.invariant (Or.inr ⟨[], h₀.unlocked, Or.inl ⟨h₀.envp, rfl, h₀.blocks⟩⟩)
    (fun hsafe _ hstep => hsafe.step hstep)

/-- **`setenv` is the one over strings** in every environment that calls build. -/
theorem setenv_refines_built {s₀ s : State} (h₀ : Start s₀) (hs : Built s₀ s)
    (name : Option (List Char)) (value : List Char) (overwrite : Int) :
    (setenv s name value overwrite).map (Prod.map id State.environ) =
      Env.setenv s.environ name value overwrite := by
  rcases hs.safe h₀ with hlock | ⟨l, hl⟩
  · -- both wait for the lock
    cases name with
    | none => rfl
    | some name =>
      have hlock' : s.environ.envLock = true := hlock
      rw [setenv, Env.setenv]
      dsimp only
      rw [if_pos hlock, if_pos hlock']
      split <;> rfl
  · exact hl.setenv_refines name value overwrite

/-- A variable is set anew, and another is there. -/
theorem setenv_refines_first : ∃ s, Built {} s ∧ s.environ.names = [['a'], ['b']] ∧
    (setenv s (some ['b']) ['3'] 1).map (Prod.map id State.environ) =
      Env.setenv s.environ (some ['b']) ['3'] 1 := by
  have hone : Built {} _ := .step .start trivial
    (.setenv (show setenv {} (some ['a']) ['1'] 0 = .ok _ from rfl))
  have htwo := hone.step trivial (.setenv (show setenv _ (some ['b']) ['2'] 0 = .ok _ from rfl))
  exact ⟨_, htwo, rfl, setenv_refines_built ⟨rfl, rfl, by decide⟩ htwo ..⟩

/-- One of the allocations of the call fails: that of the table, or that of the string. -/
def AllocFails (s : State) (name : List Char) (overwrite : Int) : Prop :=
  ¬ s.TableOk ∨
    ¬ (name ∈ s.environ.names ∧ overwrite = 0) ∧ s.mallocOk s.entryMalloc = false

/-- **How a call should fail**: the lock is given back, the variables are the same, the strings are
there, and later calls neither wait for ever nor free a string twice. -/
structure Clean (s s' : State) : Prop where
  unlocked : s'.envLock = false
  vars : s'.environ.vars = s.environ.vars
  live : ∀ p ∈ s'.pointers, s'.live p = true
  setenv : ∀ name value overwrite, setenv s' name value overwrite ≠ .error .hang ∧
    EnvBlocks.setenv s' name value overwrite ≠ .error .useAfterFree
  freeEnv : ∃ s'', freeEnv s' = .ok s''

theorem Sound.clean {s s' : State} {l : List (Nat × Variable)} (h : Sound s l) (h' : Sound s' l) :
    Clean s s' where
  unlocked := h'.unlocked
  vars := by rw [h.vars, h'.vars]
  live := h'.live_pointers
  setenv := h'.setenv_safe
  freeEnv := by
    obtain ⟨s'', hfree, -⟩ := h'.freeEnv_ok
    exact ⟨s'', hfree⟩

/-- **When `setenv` fails cleanly**, if one of its allocations fails: if the lock is free and it is
the allocation of the table. -/
theorem setenv_fails_iff {s₀ s : State} (h₀ : Start s₀) (hs : Built s₀ s) {name : List Char}
    (hname : ValidName name) (value : List Char) {overwrite : Int}
    (hfail : AllocFails s name overwrite) :
    (∃ s', setenv s (some name) value overwrite = .ok (Env.enomem, s') ∧ Clean s s') ↔
      s.envLock = false ∧ s.envp = none ∧ s.mallocOk s.mallocs = false := by
  rcases hs.safe h₀ with hlock | ⟨l, hl⟩
  · -- an earlier call has kept the lock
    refine iff_of_false ?_ ?_
    · rintro ⟨s', hcall, -⟩
      rw [setenv_of_locked hname hlock] at hcall
      cases hcall
    · rintro ⟨hunlocked, -⟩
      rw [hlock] at hunlocked
      cases hunlocked
  · have hends := hl.setenv_ends hname value overwrite
    rw [AllocFails, hl.names] at hfail
    generalize setenv s (some name) value overwrite = result at hends
    cases hends with
    | noTable hno =>
      obtain ⟨hnone, hmalloc⟩ := Classical.not_imp.mp hno
      exact iff_of_true ⟨_, rfl, hl.clean (hl.setMallocs _)⟩
        ⟨hl.unlocked, hnone, Bool.eq_false_iff.mpr hmalloc⟩
    | refused table hmem h0 _ =>
      exact absurd hfail (not_or.mpr ⟨not_not.mpr table, fun h => h.1 ⟨hmem, h0⟩⟩)
    | noEntry table _ _ locked =>
      refine iff_of_false ?_ ?_
      · rintro ⟨_, hcall, hclean⟩
        cases hcall
        rw [hclean.unlocked] at locked
        cases locked
      · rintro ⟨-, hnone, hmalloc⟩
        rw [table hnone] at hmalloc
        cases hmalloc
    | done table _ ok _ =>
      refine absurd hfail (not_or.mpr ⟨not_not.mpr table, fun h => ?_⟩)
      rw [ok] at h
      cases h.2
    | full table _ ok =>
      refine absurd hfail (not_or.mpr ⟨not_not.mpr table, fun h => ?_⟩)
      rw [ok] at h
      cases h.2

/-- Without memory for the first table `setenv` fails cleanly. -/
theorem setenv_fails_first : ∃ s', setenv { mallocOk := fun _ => false } (some ['a']) ['b'] 1 =
    .ok (Env.enomem, s') ∧ Clean { mallocOk := fun _ => false } s' :=
  (setenv_fails_iff ⟨rfl, rfl, by decide⟩ .start (by decide) ['b']
    (Or.inl (fun h => absurd (h rfl) (by decide)))).mpr ⟨rfl, rfl, rfl⟩

/-- **A value that cannot be replaced is lost**: `setenv("a", "c", 1)` in the environment `a=b`, with
no memory for the string, keeps the lock and leaves a pointer to the string it has freed, so that
`free_env` waits for ever. -/
theorem setenv_fails_overwrite : ∃ s s', setenv { mallocOk := fun k => decide (k < 2) } (some ['a'])
      ['b'] 1 = .ok (0, s) ∧
    setenv s (some ['a']) ['c'] 1 = .ok (Env.enomem, s') ∧ s'.envLock = true ∧ s'.pointers = [1] ∧
    s'.live 1 = false ∧ freeEnv s' = .error .hang ∧ ¬ Clean s s' := by
  refine ⟨_, _, rfl, rfl, rfl, rfl, rfl, rfl, fun hclean => ?_⟩
  cases hclean.unlocked

end Hydrax.EnvBlocks
