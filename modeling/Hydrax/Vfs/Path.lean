import Mathlib.Data.List.TakeWhile
import Hydrax.Buffer
import Hydrax.Machine

/-!
# Paths

Paths of `kernel/vfs.c`, as lists of characters. `vfs_get_path_level` scans a path from its start
for each component. A component that is empty and one that is not there look the same to its callers, so
they read the components up to the first empty one.

* `getPathLevel_eq` — the component at a level,
* `getPathLevel_names` — the components that a loop over the levels reads,
* `vfsGetPathLevel_component` — the same with the buffer that the component is copied to,
* `names_join` — the components of a path that is put together from names.
-/

namespace Hydrax.Vfs

def maxPath : Nat := 255

/-- "if (*filename == '/') filename++". -/
def skipSlash (filename : List Char) : List Char :=
  if filename.head? = some '/' then filename.tail else filename

def skipLevels : Nat → List Char → Option (List Char)
  | 0, filename => some filename
  | level + 1, filename =>
    match filename.dropWhile (· != '/') with
    | [] => none
    | _ :: filename => skipLevels level filename

/-- `vfs_get_path_level`. -/
def getPathLevel (filename : List Char) (level : Nat) : Option (List Char) :=
  match skipLevels level (skipSlash filename) with
  | none => none
  | some start =>
    let name := start.takeWhile (· != '/')
    if name = [] then none else some name

/-- All of `vfs_get_path_level`: with its assertion, and with the buffer that it copies the
component to and returns. The caller may have none. -/
def vfsGetPathLevel (filename : List Char) (level : Nat) (buf : Option (Nat → Char)) :
    Except Stop (Option (Nat → Char)) := do
  assert (filename.length ≤ maxPath)
  match getPathLevel filename level, buf with
  | some name, some s => return some (Buffer.put s 0 (name ++ [Buffer.null]))
  | _, _ => return none

/-! ## Components -/

def split : List Char → List (List Char)
  | [] => [[]]
  | c :: p =>
    if c = '/' then [] :: split p
    else
      match split p with
      | [] => [[c]]
      | w :: ws => (c :: w) :: ws

/-- The components that are read: those up to the first empty one. -/
def names (filename : List Char) : List (List Char) :=
  (split (skipSlash filename)).takeWhile (· ≠ [])

def components (filename : List Char) : List (List Char) := (split filename).filter (· ≠ [])

theorem split_eq (p : List Char) :
    split p = p.takeWhile (· != '/') ::
      match p.dropWhile (· != '/') with
      | [] => []
      | _ :: rest => split rest := by
  induction p with
  | nil => rfl
  | cons c p ih =>
    rw [split]
    by_cases hc : c = '/'
    · simp [hc]
    · rw [if_neg hc, ih]
      simp [hc]

theorem skipLevels_eq (level : Nat) (p : List Char) :
    (skipLevels level p).map (List.takeWhile (· != '/')) = (split p)[level]? := by
  induction level generalizing p with
  | zero =>
    rw [split_eq]
    rfl
  | succ level ih =>
    rw [skipLevels, split_eq, List.getElem?_cons_succ]
    cases p.dropWhile (· != '/') with
    | nil => rfl
    | cons c rest => exact ih rest

theorem getPathLevel_eq (filename : List Char) (level : Nat) :
    getPathLevel filename level =
      (split (skipSlash filename))[level]?.bind (fun w => if w = [] then none else some w) := by
  rw [getPathLevel, ← skipLevels_eq]
  cases skipLevels level (skipSlash filename) <;> rfl

theorem getPathLevel_names (filename : List Char) {level : Nat}
    (h : level ≤ (names filename).length) :
    getPathLevel filename level = (names filename)[level]? := by
  rw [getPathLevel_eq]
  unfold names at h ⊢
  generalize split (skipSlash filename) = ws at h ⊢
  induction ws generalizing level with
  | nil => rfl
  | cons w ws ih =>
    by_cases hw : w = []
    · have hlevel : level = 0 := by simpa [hw] using h
      simp [hw, hlevel]
    · rw [List.takeWhile_cons_of_pos (by simpa using hw)] at h ⊢
      cases level with
      | zero => simp [hw]
      | succ level =>
        rw [List.getElem?_cons_succ, List.getElem?_cons_succ]
        exact ih (by simpa using h)

theorem names_ne_nil {filename w : List Char} (h : w ∈ names filename) : w ≠ [] := by
  simpa using List.mem_takeWhile_imp h

theorem split_length_le (p : List Char) : (split p).length ≤ p.length + 1 := by
  induction p with
  | nil => simp [split]
  | cons c p ih =>
    rw [split]
    split
    next => simpa using ih
    next =>
      split
      next => simp
      next w ws hsplit =>
        rw [hsplit] at ih
        simp only [List.length_cons] at ih ⊢
        omega

theorem names_length_le (filename : List Char) : (names filename).length ≤ filename.length + 1 := by
  have htake : (names filename).length ≤ (split (skipSlash filename)).length :=
    (List.takeWhile_sublist _).length_le
  have hskip : (skipSlash filename).length ≤ filename.length := by
    unfold skipSlash
    split <;> simp
  have := split_length_le (skipSlash filename)
  omega

theorem components_skipSlash (filename : List Char) :
    components (skipSlash filename) = components filename := by
  unfold skipSlash
  split
  next h =>
    obtain ⟨p, rfl⟩ : ∃ p, filename = '/' :: p := by
      cases filename with
      | nil => cases h
      | cons c p => exact ⟨p, by simpa using h⟩
    simp [components, split]
  next => rfl

theorem names_initial (filename : List Char) : names filename <+: components filename := by
  rw [← components_skipSlash]
  unfold names components
  generalize split (skipSlash filename) = ws
  induction ws with
  | nil => exact List.nil_prefix
  | cons w ws ih =>
    by_cases hw : w = []
    · simp [hw]
    · simpa [hw] using ih

theorem names_eq_components {filename : List Char}
    (h : [] ∉ (split (skipSlash filename)).dropLast) : names filename = components filename := by
  rw [← components_skipSlash]
  unfold names components
  generalize split (skipSlash filename) = ws at h ⊢
  induction ws with
  | nil => rfl
  | cons w ws ih =>
    cases ws with
    | nil => by_cases hw : w = [] <;> simp [hw]
    | cons w' ws =>
      rw [List.dropLast_cons_cons, List.mem_cons, not_or] at h
      have hw : w ≠ [] := fun hw => h.1 hw.symm
      rw [List.takeWhile_cons_of_pos (by simpa using hw),
        List.filter_cons_of_pos (by simpa using hw), ih h.2]

/-! ## The buffer -/

section Buffer

variable {filename : List Char} {level : Nat}

theorem mem_of_mem_split {p w : List Char} {c : Char} (hw : w ∈ split p) (hc : c ∈ w) : c ∈ p := by
  induction p generalizing w with
  | nil =>
    rw [split, List.mem_singleton] at hw
    rw [hw] at hc
    cases hc
  | cons d p ih =>
    rw [split] at hw
    split at hw
    next =>
      rcases List.mem_cons.mp hw with rfl | hw
      · cases hc
      · exact List.mem_cons_of_mem d (ih hw hc)
    next =>
      split at hw
      next =>
        rw [List.mem_singleton.mp hw, List.mem_singleton] at hc
        exact hc ▸ List.mem_cons_self
      next w' ws hsplit =>
        rw [hsplit] at ih
        rcases List.mem_cons.mp hw with rfl | hw
        · rcases List.mem_cons.mp hc with rfl | hc
          · exact List.mem_cons_self
          · exact List.mem_cons_of_mem d (ih List.mem_cons_self hc)
        · exact List.mem_cons_of_mem d (ih (List.mem_cons_of_mem w' hw) hc)

theorem null_notMem_getPathLevel {w : List Char} (hnull : Buffer.null ∉ filename)
    (hw : getPathLevel filename level = some w) : Buffer.null ∉ w := by
  rw [getPathLevel_eq, Option.bind_eq_some_iff] at hw
  obtain ⟨w', hw', hsome⟩ := hw
  split at hsome
  next => cases hsome
  next =>
    obtain rfl := Option.some.inj hsome
    intro hc
    have hmem := mem_of_mem_split (List.mem_of_getElem? hw') hc
    unfold skipSlash at hmem
    split at hmem
    next => exact hnull (List.mem_of_mem_tail hmem)
    next => exact hnull hmem

theorem vfsGetPathLevel_rel (hnull : Buffer.null ∉ filename) (hlen : filename.length ≤ maxPath)
    (level : Nat) (buf : Nat → Char) : ∃ r, vfsGetPathLevel filename level (some buf) = .ok r ∧
      Option.Rel (Buffer.StringAt Buffer.null · 0 ·) r (getPathLevel filename level) := by
  unfold vfsGetPathLevel
  rw [decide_eq_true hlen]
  cases hw : getPathLevel filename level with
  | none => exact ⟨none, rfl, .none⟩
  | some w =>
    exact ⟨_, rfl, .some (Buffer.stringAt_put (null_notMem_getPathLevel hnull hw))⟩

end Buffer

/-- **The component at a level.** It is the part of the path at that place, without the slash in
front of the path, and a loop over the levels reads all components if only the last part is
empty. -/
theorem vfsGetPathLevel_component (filename : List Char) (hnull : Buffer.null ∉ filename)
    (hlen : filename.length ≤ maxPath) (buf : Nat → Char) :
    (∀ level, ∃ r, vfsGetPathLevel filename level (some buf) = .ok r ∧
      Option.Rel (Buffer.StringAt Buffer.null · 0 ·) r
        ((split (skipSlash filename))[level]?.filter (· ≠ []))) ∧
    ([] ∉ (split (skipSlash filename)).dropLast →
      ∀ level ≤ (components filename).length,
        ∃ r, vfsGetPathLevel filename level (some buf) = .ok r ∧
          Option.Rel (Buffer.StringAt Buffer.null · 0 ·) r (components filename)[level]?) := by
  constructor
  · intro level
    have hfilter : (split (skipSlash filename))[level]?.filter (· ≠ []) =
        getPathLevel filename level := by
      rw [getPathLevel_eq]
      cases (split (skipSlash filename))[level]? with
      | none => rfl
      | some w => by_cases hw : w = [] <;> simp [hw]
    rw [hfilter]
    exact vfsGetPathLevel_rel hnull hlen level buf
  · intro hinner level hlevel
    rw [← names_eq_components hinner] at hlevel ⊢
    rw [← getPathLevel_names filename hlevel]
    exact vfsGetPathLevel_rel hnull hlen level buf

theorem vfsGetPathLevel_component_trailing :
    ∃ buf, vfsGetPathLevel ['/', 'a', '/', 'b', '/'] 1 (some fun _ => 'x') = .ok (some buf) ∧
      Buffer.StringAt Buffer.null buf 0 ['b'] := by
  have hpath := vfsGetPathLevel_component ['/', 'a', '/', 'b', '/'] (by decide) (by decide)
    (fun _ => 'x')
  obtain ⟨r, hr, hrel⟩ := hpath.2 (by decide) 1 (by decide)
  cases hrel with
  | some hat => exact ⟨_, hr, hat⟩

/-! ## Joining names -/

def join (ns : List (List Char)) : List Char := ns.flatMap ('/' :: ·)

theorem split_append {w : List Char} (hw : '/' ∉ w) (p : List Char) :
    split (w ++ '/' :: p) = w :: split p := by
  induction w with
  | nil => rfl
  | cons c w ih =>
    rw [List.mem_cons, not_or] at hw
    rw [List.cons_append, split, if_neg (fun hc => hw.1 hc.symm), ih hw.2]

theorem split_of_notMem {w : List Char} (hw : '/' ∉ w) : split w = [w] := by
  induction w with
  | nil => rfl
  | cons c w ih =>
    rw [List.mem_cons, not_or] at hw
    rw [split, if_neg (fun hc => hw.1 hc.symm), ih hw.2]

theorem split_join (w : List Char) (ns : List (List Char)) (hw : '/' ∉ w)
    (hns : ∀ n ∈ ns, '/' ∉ n) :
    split (w ++ join ns) = w :: ns := by
  induction ns generalizing w with
  | nil => rw [join, List.flatMap_nil, List.append_nil, split_of_notMem hw]
  | cons n ns ih =>
    rw [join, List.flatMap_cons, List.cons_append, split_append hw]
    congr 1
    exact ih n (hns n List.mem_cons_self) (fun m hm => hns m (List.mem_cons_of_mem _ hm))

theorem names_join {ns : List (List Char)} (hne : ns ≠ []) (hempty : ∀ n ∈ ns, n ≠ [])
    (hslash : ∀ n ∈ ns, '/' ∉ n) : names (join ns) = ns := by
  cases ns with
  | nil => exact absurd rfl hne
  | cons n ns =>
    have hskip : skipSlash (join (n :: ns)) = n ++ join ns := rfl
    rw [names, hskip, split_join n ns (hslash n List.mem_cons_self)
      (fun m hm => hslash m (List.mem_cons_of_mem _ hm)), List.takeWhile_eq_self_iff]
    exact fun m hm => by simpa using hempty m hm

end Hydrax.Vfs
