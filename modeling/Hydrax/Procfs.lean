import Hydrax.ExecArgs
import Hydrax.Memmap
import Hydrax.Sched.Schedule
import Hydrax.Vfs.Node

/-!
# The files of a task

`procfs_open`, `procfs_read` and `procfs_readstrings` of `kernel/procfs.c`. Every task has a
directory below `/proc` with the files `cmdline`, `environ` and `memmap`. Opening one looks for the
task of the directory, and reading looks for the task of the file, both of them in `tasks_list`.

* `copyStrings_eq`, `map_pagemapByte_eq` — what the loops copy,
* `procfsReadstringsTo_spec` — where `procfs_readstrings` writes it,
* `Listed.procfsOpen_eq_ok_iff`, `Listed.procfsRead_eq_ok_iff` — the task that is found,
* `procfs_shows_iff` — when a file shows the task whose directory it was opened in.
-/

namespace Hydrax.Procfs

open Sched ExecArgs Loop

inductive ProcFile where
  | cmdline
  | environ
  | memmap
  deriving DecidableEq, Repr

def ProcFile.name : ProcFile → List Char
  | .cmdline => ['c', 'm', 'd', 'l', 'i', 'n', 'e']
  | .environ => ['e', 'n', 'v', 'i', 'r', 'o', 'n']
  | .memmap => ['m', 'e', 'm', 'm', 'a', 'p']

/-- The calls of `strcmp`, in the order they are made in. -/
def ProcFile.ofName (path : List Char) : Option ProcFile :=
  if path = ProcFile.cmdline.name then some .cmdline
  else if path = ProcFile.environ.name then some .environ
  else if path = ProcFile.memmap.name then some .memmap
  else none

/-- The fields of `task_t` that only `procfs` looks at: pointers. -/
structure Entry where
  procfsNode : Nat := 0
  argv : Nat := 0
  envp : Nat := 0
  memmap : Nat := 0

/-- The tasks, and the blocks that their pointers lead to. The main thread of a task frees them when
it exits, and it stays on the list until its parent has waited for it. -/
structure Procs extends Sched.State where
  entries : Nat → Entry := fun _ => {}
  strings : Nat → List CStr := fun _ => []
  memmaps : Nat → Memmap := fun _ => { pagemap := fun _ => 0, length := 0 }
  freedBlocks : List Nat := []

def Procs.deref (ps : Procs) (p : Nat) : Except Stop Unit :=
  if p = 0 then .error .nullDeref
  else if p ∈ ps.freedBlocks then .error .useAfterFree
  else .ok ()

/-- The `id` of a task as the `inode` of a file, which has 32 bits and no sign. -/
def Procs.inode (ps : Procs) (t : Nat) : Nat := ((ps.tasks t).id % wordSize).toNat

/-! ## Opening -/

def Procs.setCursor (ps : Procs) (current : Nat) : Procs :=
  { ps with tasksList := { ps.tasksList with current := current } }

/-- `LINKED_LIST_SEEK_UNTIL(tasks_list, iter.current->val->procfs_node == node)`. The loop moves the
cursor of the list, and the condition is about the item that `iter` is at. -/
def seekNode (ps : Procs) (iter node : Nat) : Except Stop Procs := do
  if ps.tasksList.current ≠ 0 ∧ iter = 0 then .error .nullDeref
  else
    let current ← linkedListSeekUntil ps.items
      (fun _ => (ps.entries (ps.items iter).val).procfsNode = node) ps.tasksList.current
    .ok (ps.setCursor current)

/-- Bytes of the part of `pagemap` that can be read. -/
def memmapLength (m : Memmap) : Nat := m.length / 32 * 4

/-- What `procfs_open` writes into the new node. The block had a content already. -/
def openFile (ps : Procs) (tmp : Nat) (content : Vfs.Node) : ProcFile → Except Stop Vfs.Node
  | .cmdline => .ok { content with
      name := ProcFile.cmdline.name, uid := 1, gid := 1, inode := ps.inode tmp, length := 43 }
  | .environ => .ok { content with
      name := ProcFile.environ.name, uid := 1, gid := 1, inode := ps.inode tmp, length := 43 }
  | .memmap => do
      ps.deref (ps.entries tmp).memmap
      .ok { content with
        name := ProcFile.memmap.name, uid := 0, gid := 0, inode := ps.inode tmp
        length := memmapLength (ps.memmaps (ps.entries tmp).memmap) }

/-- `procfs_open`, where `malloc` returns `block`. -/
def procfsOpen (ps : Procs) (node : Nat) (path : List Char) (block : Nat) (content : Vfs.Node) :
    Except Stop (Option Vfs.Node × Procs) := do
  let iter := ps.tasksList.first
  let ps ← seekNode ps iter node
  let tmp := itemVal ps.items iter
  if tmp = 0 then .ok (none, ps)
  else
    match ProcFile.ofName path with
    | none => .ok (none, ps)
    | some file =>
      if block = 0 then .ok (none, ps)
      else
        let openNode ← openFile ps tmp content file
        .ok (some openNode, ps)

/-! ## Reading -/

/-- The loop over the characters of a string: the characters that are copied, and the room that is
left. -/
def copyChars : List UInt8 → Nat → List UInt8 × Nat
  | [], sz => ([], sz)
  | c :: s, sz =>
    if sz = 0 then ([], 0)
    else
      let rest := copyChars s (sz - 1)
      (c :: rest.1, rest.2)

def copyStrings : List CStr → Nat → List UInt8
  | [], _ => []
  | s :: strings, sz =>
    if sz = 0 then []
    else
      let copied := copyChars s.chars sz
      if copied.2 ≠ 0 then copied.1 ++ 32 :: copyStrings strings (copied.2 - 1)
      else copied.1 ++ copyStrings strings copied.2

/-- `procfs_readstrings`: what it writes to `buf`. It returns the number of bytes. -/
def procfsReadstrings (ps : Procs) (strings sz : Nat) : Except Stop (List UInt8) :=
  if strings = 0 then .ok []
  else do
    ps.deref strings
    .ok (copyStrings (ps.strings strings) sz)

/-- The byte `i` of `pagemap`. Words have their lowest byte first. -/
def pagemapByte (m : Memmap) (i : Nat) : UInt8 :=
  UInt8.ofNat ((m.pagemap (i / 4)).toNat / 256 ^ (i % 4))

/-- The `end_byte` of the loop. -/
def endByte (m : Memmap) (offset sz : Nat) : Nat :=
  if memmapLength m < (sz + offset) % wordSize then memmapLength m else (sz + offset) % wordSize

/-- The branch for `memmap`: what it writes to `buf`. -/
def readMemmap (ps : Procs) (memmap offset sz : Nat) : Except Stop (List UInt8) := do
  ps.deref memmap
  let m := ps.memmaps memmap
  .ok ((List.range' offset (endByte m offset sz - offset)).map (pagemapByte m))

/-- What `procfs_read` does when it has found the task. -/
def readTask (ps : Procs) (task : Nat) (name : List Char) (offset sz : Nat) :
    Except Stop (List UInt8) :=
  if task = 0 ∨ (ps.entries task).argv = 0 then .ok []
  else
    match ProcFile.ofName name with
    | some .cmdline => procfsReadstrings ps (ps.entries task).argv sz
    | some .environ => procfsReadstrings ps (ps.entries task).envp sz
    | some .memmap => readMemmap ps (ps.entries task).memmap offset sz
    | none => .ok []

/-- `procfs_read`: what it writes to `buf`. It returns the number of bytes and changes nothing
else, since its iterator is its own. -/
def procfsRead (ps : Procs) (node : Vfs.Node) (offset sz : Nat) : Except Stop (List UInt8) :=
  if sz = 0 then .ok []
  else do
    let iter ← linkedListSeekUntil ps.items (fun i => ps.inode i.val ≠ node.inode)
      ps.tasksList.first
    if iter = 0 then .error .nullDeref
    else readTask ps (ps.items iter).val node.name offset sz

/-! ## What a file should show -/

def joined (strings : List CStr) : List UInt8 := strings.flatMap (fun s => s.chars ++ [32])

def Procs.stringsAt (ps : Procs) (p : Nat) : List CStr := if p = 0 then [] else ps.strings p

/-- The part of `pagemap` that can be read. -/
def pagemapBytes (m : Memmap) : List UInt8 := (List.range (memmapLength m)).map (pagemapByte m)

/-- The data of a task: its arguments or its environment, which are read from the start on, or the
bytes of its `pagemap` from the offset on. -/
def Procs.data (ps : Procs) (t offset sz : Nat) : ProcFile → List UInt8
  | .cmdline => (joined (ps.stringsAt (ps.entries t).argv)).take sz
  | .environ => (joined (ps.stringsAt (ps.entries t).envp)).take sz
  | .memmap => ((pagemapBytes (ps.memmaps (ps.entries t).memmap)).drop offset).take sz

def Procs.Readable (ps : Procs) (t : Nat) : ProcFile → Prop
  | .cmdline => (ps.entries t).argv = 0 ∨ (ps.entries t).argv ∉ ps.freedBlocks
  | .environ => (ps.entries t).envp = 0 ∨ (ps.entries t).envp ∉ ps.freedBlocks
  | .memmap => (ps.entries t).memmap ≠ 0 ∧ (ps.entries t).memmap ∉ ps.freedBlocks

/-- What there is to see of a task: its data, unless it has no `argv` or the end of the part that is
read overflows. -/
def Procs.shown (ps : Procs) (t offset sz : Nat) (file : ProcFile) : List UInt8 :=
  if (ps.entries t).argv = 0 ∨ file = .memmap ∧ wordSize ≤ sz + offset then []
  else ps.data t offset sz file

section Strings

theorem copyChars_eq (s : List UInt8) (sz : Nat) : copyChars s sz = (s.take sz, sz - s.length) := by
  induction s generalizing sz with
  | nil => rw [copyChars, List.take_nil, List.length_nil, Nat.sub_zero]
  | cons c s ih =>
    cases sz with
    | zero => rw [copyChars, if_pos rfl, List.take_zero, Nat.zero_sub]
    | succ sz =>
      rw [copyChars, if_neg (Nat.succ_ne_zero sz), Nat.add_sub_cancel, ih sz,
        List.take_succ_cons, List.length_cons, Nat.add_sub_add_right]

theorem copyStrings_zero (strings : List CStr) : copyStrings strings 0 = [] := by
  cases strings with
  | nil => rfl
  | cons s strings => rw [copyStrings, if_pos rfl]

theorem joined_cons (s : CStr) (strings : List CStr) :
    joined (s :: strings) = s.chars ++ 32 :: joined strings := by
  rw [joined, List.flatMap_cons, List.append_assoc, List.singleton_append, joined]

theorem copyStrings_eq (strings : List CStr) (sz : Nat) :
    copyStrings strings sz = (joined strings).take sz := by
  induction strings generalizing sz with
  | nil => rw [copyStrings, joined, List.flatMap_nil, List.take_nil]
  | cons s strings ih =>
    by_cases hsz : sz = 0
    · rw [hsz, copyStrings_zero, List.take_zero]
    · rw [copyStrings, if_neg hsz, copyChars_eq, joined_cons, List.take_append]
      dsimp only
      by_cases hroom : sz - s.chars.length = 0
      · rw [if_neg (not_not_intro hroom), hroom, copyStrings_zero, List.take_zero]
      · rw [if_pos hroom, ih]
        obtain ⟨room, hroom⟩ := Nat.exists_eq_succ_of_ne_zero hroom
        rw [hroom, List.take_succ_cons, Nat.succ_sub_one]

variable {ps : Procs} {p sz : Nat} {out : List UInt8}

theorem deref_eq_ok_iff : ps.deref p = .ok () ↔ p ≠ 0 ∧ p ∉ ps.freedBlocks := by
  by_cases hp : p = 0
  · simp [Procs.deref, hp]
  · by_cases hfreed : p ∈ ps.freedBlocks
    · simp [Procs.deref, hp, hfreed]
    · simp [Procs.deref, hp, hfreed]

theorem procfsReadstrings_eq_ok_iff : procfsReadstrings ps p sz = .ok out ↔
    (p = 0 ∨ p ∉ ps.freedBlocks) ∧ out = (joined (ps.stringsAt p)).take sz := by
  rw [procfsReadstrings, Procs.stringsAt]
  split
  · rename_i h
    rw [joined, List.flatMap_nil, List.take_nil, Except.ok.injEq]
    exact ⟨fun h' => ⟨Or.inl h, h'.symm⟩, fun h' => h'.2.symm⟩
  · rename_i h
    rw [bind_eq_ok]
    constructor
    · rintro ⟨⟨⟩, hderef, hout⟩
      rw [← Except.ok.inj hout]
      exact ⟨Or.inr (deref_eq_ok_iff.mp hderef).2, copyStrings_eq _ _⟩
    · rintro ⟨hlive, rfl⟩
      refine ⟨(), deref_eq_ok_iff.mpr ⟨h, hlive.resolve_left h⟩, ?_⟩
      rw [copyStrings_eq]

end Strings

/-! ## The buffer of the reader -/

/-- The variables of `procfs_readstrings`: the memory, the place in it, the bytes so far, and the
room that is left. -/
structure Cursor where
  mem : Nat → UInt8
  buf : Nat
  i : UInt32 := 0
  sz : UInt32

namespace Cursor

/-- "*buf++ = c; i++; sz--". -/
def store (k : Cursor) (c : UInt8) : Cursor where
  mem := Function.update k.mem k.buf c
  buf := k.buf + 1
  i := k.i + 1
  sz := k.sz - 1

def copyChars (k : Cursor) : List UInt8 → Cursor
  | [] => k
  | c :: s => if k.sz = 0 then k else (k.store c).copyChars s

def copyStrings (k : Cursor) : List CStr → Cursor
  | [] => k
  | s :: strings =>
    if k.sz = 0 then k
    else
      let k := k.copyChars s.chars
      (if k.sz ≠ 0 then k.store 32 else k).copyStrings strings

end Cursor

/-- `procfs_readstrings` with the memory it writes to: the number it returns, and the memory. -/
def procfsReadstringsTo (strings : Option (List CStr)) (sz : UInt32) (buf : Nat)
    (mem : Nat → UInt8) : UInt32 × (Nat → UInt8) :=
  match strings with
  | none => (0, mem)
  | some strings =>
    let k := Cursor.copyStrings { mem := mem, buf := buf, sz := sz } strings
    (k.i, k.mem)

namespace Cursor

variable {k : Cursor} {s t : List UInt8}

def stores (k : Cursor) (s : List UInt8) : Cursor := s.foldl store k

theorem mem_stores (k : Cursor) (s : List UInt8) : (k.stores s).mem = Buffer.put k.mem k.buf s := by
  induction s generalizing k with
  | nil => rfl
  | cons c s ih => exact ih (k.store c)

theorem i_stores (k : Cursor) (s : List UInt8) :
    (k.stores s).i = k.i + UInt32.ofNat s.length := by
  induction s generalizing k with
  | nil => exact (UInt32.add_zero k.i).symm
  | cons c s ih =>
    show ((k.store c).stores s).i = _
    rw [ih, List.length_cons, UInt32.ofNat_add, store, UInt32.add_assoc,
      UInt32.add_comm (UInt32.ofNat s.length)]
    rfl

theorem toNat_sz_stores (h : s.length ≤ k.sz.toNat) :
    (k.stores s).sz.toNat = k.sz.toNat - s.length := by
  induction s generalizing k with
  | nil => rfl
  | cons c s ih =>
    rw [List.length_cons] at h
    have hsz : k.sz ≠ 0 := by
      rintro h0
      rw [h0] at h
      exact absurd h (by simp)
    obtain ⟨n, hn, hpred⟩ := toNat_eq_succ hsz
    have hstore : (k.store c).sz.toNat = n := hpred
    show ((k.store c).stores s).sz.toNat = _
    rw [ih (by omega), hstore, hn, List.length_cons, Nat.add_sub_add_right]

theorem stores_append (k : Cursor) (s t : List UInt8) :
    k.stores (s ++ t) = (k.stores s).stores t :=
  List.foldl_append

theorem copyChars_eq (k : Cursor) (s : List UInt8) :
    k.copyChars s = k.stores (s.take k.sz.toNat) := by
  induction s generalizing k with
  | nil => rw [copyChars, List.take_nil, stores, List.foldl_nil]
  | cons c s ih =>
    rw [copyChars]
    split
    next h =>
      rw [h]
      rfl
    next h =>
      obtain ⟨n, hn, hpred⟩ := toNat_eq_succ h
      have hstore : (k.store c).sz.toNat = n := hpred
      rw [ih, hstore, hn, List.take_succ_cons]
      rfl

theorem copyStrings_eq (k : Cursor) (strings : List CStr) :
    k.copyStrings strings = k.stores ((joined strings).take k.sz.toNat) := by
  induction strings generalizing k with
  | nil => rw [copyStrings, joined, List.flatMap_nil, List.take_nil, stores, List.foldl_nil]
  | cons s strings ih =>
    rw [copyStrings]
    split
    next h =>
      rw [h]
      rfl
    next h =>
      have hroom : (k.stores (s.chars.take k.sz.toNat)).sz.toNat =
          k.sz.toNat - s.chars.length := by
        rw [toNat_sz_stores (List.length_take_le ..), List.length_take]
        omega
      rw [joined_cons, List.take_append, stores_append, ← hroom, copyChars_eq]
      generalize k.stores (s.chars.take k.sz.toNat) = k'
      dsimp only
      rw [ih]
      split
      next hsz =>
        obtain ⟨n, hn, hpred⟩ := toNat_eq_succ hsz
        have hstore : (k'.store 32).sz.toNat = n := hpred
        rw [hstore, hn, List.take_succ_cons]
        rfl
      next hsz =>
        rw [not_not.mp hsz]
        rfl

end Cursor

theorem procfsReadstringsTo_snd (strings : List CStr) (sz : UInt32) (buf : Nat)
    (mem : Nat → UInt8) : (procfsReadstringsTo (some strings) sz buf mem).2 =
      Buffer.put mem buf (copyStrings strings sz.toNat) := by
  rw [copyStrings_eq, procfsReadstringsTo]
  simp only [Cursor.copyStrings_eq, Cursor.mem_stores]

/-- **What is written and returned**: the strings, each with a blank after it, as far as there is
room, and their length. -/
theorem procfsReadstringsTo_spec (strings : List CStr) (sz : UInt32) (buf : Nat)
    (mem : Nat → UInt8) :
    let r := procfsReadstringsTo (some strings) sz buf mem
    let n := min sz.toNat (joined strings).length
    r.1.toNat = n ∧ (∀ i < n, (joined strings)[i]? = some (r.2 (buf + i))) ∧
      ∀ a, a < buf ∨ buf + n ≤ a → r.2 a = mem a := by
  intro r n
  have hlength : ((joined strings).take sz.toNat).length = n := List.length_take
  have hcount : r.1 = 0 + UInt32.ofNat ((joined strings).take sz.toNat).length := by
    simp only [r, procfsReadstringsTo, Cursor.copyStrings_eq, Cursor.i_stores]
  have hmem : r.2 = Buffer.put mem buf ((joined strings).take sz.toNat) := by
    rw [← copyStrings_eq]
    exact procfsReadstringsTo_snd ..
  have hn : n < 2 ^ 32 := Nat.lt_of_le_of_lt (Nat.min_le_left ..) sz.toNat_lt
  refine ⟨?_, fun i hi => ?_, fun a ha => ?_⟩
  · rw [hcount, hlength, UInt32.zero_add, UInt32.toNat_ofNat_of_lt' hn]
  · have hi' : i < sz.toNat := Nat.lt_of_lt_of_le hi (Nat.min_le_left ..)
    obtain ⟨c, hc⟩ : ∃ c, (joined strings)[i]? = some c :=
      ⟨_, List.getElem?_eq_getElem (Nat.lt_of_lt_of_le hi (Nat.min_le_right ..))⟩
    rw [hmem, Buffer.put_add, List.getElem?_take_of_lt hi', hc]
    rfl
  · rw [hmem]
    rcases ha with ha | ha
    · exact Buffer.put_of_lt ha
    · exact Buffer.put_of_ge (hlength ▸ ha)

/-! ## Reading a task -/

section Read

variable {ps : Procs} {m : Memmap} {p t offset sz : Nat} {file : ProcFile} {out : List UInt8}

theorem endByte_le_offset (hsz : sz < wordSize) (hover : wordSize ≤ sz + offset)
    (hoffset : offset < wordSize) : endByte m offset sz ≤ offset := by
  have hend : (sz + offset) % wordSize = sz + offset - wordSize := by
    rw [Nat.mod_eq_sub_mod hover, Nat.mod_eq_of_lt (by omega)]
  rw [endByte, hend]
  split <;> omega

theorem endByte_eq_min (hover : sz + offset < wordSize) :
    endByte m offset sz = min (memmapLength m) (sz + offset) := by
  rw [endByte, Nat.mod_eq_of_lt hover]
  split <;> omega

theorem map_pagemapByte_eq (hoffset : offset < wordSize) (hsz : sz < wordSize) :
    (List.range' offset (endByte m offset sz - offset)).map (pagemapByte m) =
      if wordSize ≤ sz + offset then [] else ((pagemapBytes m).drop offset).take sz := by
  split
  · rename_i hover
    rw [Nat.sub_eq_zero_of_le (endByte_le_offset hsz hover hoffset)]
    rfl
  · rename_i hover
    rw [endByte_eq_min (Nat.lt_of_not_le hover), pagemapBytes]
    apply List.ext_getElem
    · simp only [List.length_map, List.length_range', List.length_take, List.length_drop,
        List.length_range]
      omega
    · intro i hi hi'
      simp only [List.getElem_map, List.getElem_range', List.getElem_take, List.getElem_drop,
        List.getElem_range, Nat.one_mul]

theorem readMemmap_eq_ok_iff (hoffset : offset < wordSize) (hsz : sz < wordSize) :
    readMemmap ps p offset sz = .ok out ↔ (p ≠ 0 ∧ p ∉ ps.freedBlocks) ∧
      out = if wordSize ≤ sz + offset then []
        else ((pagemapBytes (ps.memmaps p)).drop offset).take sz := by
  rw [readMemmap, bind_eq_ok, ← map_pagemapByte_eq hoffset hsz]
  constructor
  · rintro ⟨⟨⟩, hderef, hout⟩
    exact ⟨deref_eq_ok_iff.mp hderef, (Except.ok.inj hout).symm⟩
  · rintro ⟨hlive, rfl⟩
    exact ⟨(), deref_eq_ok_iff.mpr hlive, rfl⟩

@[simp] theorem ofName_name (file : ProcFile) : ProcFile.ofName file.name = some file := by
  cases file <;> rfl

/-- **What is read of a task**, once it has been found. -/
theorem readTask_eq_ok_iff (ht : t ≠ 0) (hoffset : offset < wordSize) (hsz : sz < wordSize) :
    readTask ps t file.name offset sz = .ok out ↔
      ((ps.entries t).argv ≠ 0 → ps.Readable t file) ∧ out = ps.shown t offset sz file := by
  rw [readTask, Procs.shown, ofName_name]
  by_cases hargv : (ps.entries t).argv = 0
  · rw [if_pos (Or.inr hargv), if_pos (Or.inl hargv), Except.ok.injEq]
    exact ⟨fun h => ⟨fun h' => absurd hargv h', h.symm⟩, fun h => h.2.symm⟩
  · rw [if_neg (not_or_intro ht hargv), imp_iff_right hargv]
    cases file with
    | cmdline =>
      rw [if_neg (by simp [hargv])]
      exact procfsReadstrings_eq_ok_iff
    | environ =>
      rw [if_neg (by simp [hargv])]
      exact procfsReadstrings_eq_ok_iff
    | memmap =>
      simp only [hargv, true_and, false_or]
      exact readMemmap_eq_ok_iff hoffset hsz

end Read

/-! ## The task that is found -/

/-- `tasks_list` has the items of `l`. Every task on it has an `id` of its own, and the cursor is at
one of the items or has run off the end. -/
structure Listed (ps : Procs) (l : List Nat) : Prop where
  list : WellFormed ps.items ps.tasksList l
  cursor : ps.tasksList.current = 0 ∨ ps.tasksList.current ∈ l
  nonnull : 0 ∉ ps.tasksOf l
  ids : ((ps.tasksOf l).map (fun t => (ps.tasks t).id)).Nodup
  id_range : ∀ t ∈ ps.tasksOf l, -2147483648 ≤ (ps.tasks t).id ∧ (ps.tasks t).id < 2147483648

section Found

variable {ps ps' : Procs} {l l' q : List Nat} {t u a x node block offset sz : Nat}
  {file : ProcFile} {content n : Vfs.Node}

theorem Listed.inode_inj (h : Listed ps l) (ht : t ∈ ps.tasksOf l) (hu : u ∈ ps.tasksOf l)
    (heq : ps.inode t = ps.inode u) : t = u := by
  have hid : (ps.tasks t).id = (ps.tasks u).id := by
    have hrange := h.id_range t ht
    have hrange' := h.id_range u hu
    rw [Procs.inode, Procs.inode, show (wordSize : Int) = 4294967296 from rfl] at heq
    omega
  exact List.inj_on_of_nodup_map h.ids ht hu hid

theorem seekUntil_const (b : Bool) (h : Items ps.items a q) (hq : q.length < listFuel) :
    linkedListSeekUntil ps.items (fun _ => b) a = .ok (if b then a else 0) := by
  rw [linkedListSeekUntil, seekUntil_eq h hq]
  cases q with
  | nil =>
    have ha : a = 0 := h
    cases b <;> simp [ha]
  | cons y q =>
    obtain ⟨rfl, -, -⟩ := h
    cases b with
    | true => rfl
    | false =>
      rw [List.find?_eq_none.mpr (fun _ _ => Bool.false_ne_true)]
      rfl

theorem Listed.from_cursor (h : Listed ps l) :
    ∃ q, Items ps.items ps.tasksList.current q ∧ q.length < listFuel := by
  have hlen := length_lt_listFuel h.list.chain h.list.addresses
  rcases h.cursor with hcur | hcur
  · exact ⟨[], hcur, Nat.lt_of_le_of_lt (Nat.zero_le _) hlen⟩
  · obtain ⟨p, q, hl⟩ := List.append_of_mem hcur
    refine ⟨ps.tasksList.current :: q, (hl ▸ h.list.chain).of_append_cons, ?_⟩
    refine Nat.lt_of_le_of_lt ?_ hlen
    rw [hl, List.length_append]
    exact Nat.le_add_left _ _

/-- The cursor after the loop of `procfs_open`, when the first task is `u`. -/
def Procs.cursorAfter (ps : Procs) (u node : Nat) : Nat :=
  if (ps.entries u).procfsNode = node then ps.tasksList.current else 0

theorem Listed.seekNode_eq (h : Listed ps (x :: l)) :
    seekNode ps ps.tasksList.first node =
      .ok (ps.setCursor (ps.cursorAfter (ps.items x).val node)) := by
  obtain ⟨hfirst, hx, -⟩ := h.list.chain
  obtain ⟨q, hq, hlen⟩ := h.from_cursor
  rw [seekNode, hfirst, if_neg (fun h => hx h.2), seekUntil_const _ hq hlen, ok_bind,
    Procs.cursorAfter]
  simp only [decide_eq_true_eq]

theorem openFile_setCursor :
    openFile (ps.setCursor a) u content file = openFile ps u content file := by
  cases file <;> rfl

theorem openFile_node (h : openFile ps u content file = .ok n) :
    n.inode = ps.inode u ∧ n.name = file.name := by
  cases file with
  | cmdline =>
    obtain rfl := Except.ok.inj h
    exact ⟨rfl, rfl⟩
  | environ =>
    obtain rfl := Except.ok.inj h
    exact ⟨rfl, rfl⟩
  | memmap =>
    obtain ⟨-, -, hn⟩ := bind_eq_ok.mp h
    obtain rfl := Except.ok.inj hn
    exact ⟨rfl, rfl⟩

theorem openFile_ok_iff :
    (∃ n, openFile ps u content file = .ok n) ↔ (file = .memmap → ps.Readable u .memmap) := by
  cases file with
  | cmdline => exact ⟨fun _ h => (by cases h), fun _ => ⟨_, rfl⟩⟩
  | environ => exact ⟨fun _ h => (by cases h), fun _ => ⟨_, rfl⟩⟩
  | memmap =>
    constructor
    · rintro ⟨n, hn⟩ -
      obtain ⟨⟨⟩, hderef, -⟩ := bind_eq_ok.mp hn
      exact deref_eq_ok_iff.mp hderef
    · intro h
      exact ⟨_, bind_eq_ok.mpr ⟨(), deref_eq_ok_iff.mpr (h rfl), rfl⟩⟩

/-- **Opening** finds the first task on the list, whatever directory the file is opened in. The
cursor stays where it is if that was the directory of the first task. -/
theorem Listed.procfsOpen_eq_ok_iff (h : Listed ps l) (hu : (ps.tasksOf l).head? = some u) :
    procfsOpen ps node file.name block content = .ok (some n, ps') ↔
      block ≠ 0 ∧ openFile ps u content file = .ok n ∧
        ps' = ps.setCursor (ps.cursorAfter u node) := by
  cases l with
  | nil => cases hu
  | cons x l =>
    have hux : (ps.items x).val = u := Option.some.inj hu
    have hu0 : u ≠ 0 := ne_of_mem_of_not_mem (List.mem_of_mem_head? hu) h.nonnull
    have hx := h.list.chain.ne_null List.mem_cons_self
    have hval : itemVal (ps.setCursor (ps.cursorAfter u node)).items x = u := by
      rw [itemVal, if_neg hx]
      exact hux
    rw [procfsOpen, h.seekNode_eq, ok_bind, h.list.chain.1, hux, hval, if_neg hu0,
      ofName_name]
    dsimp only
    by_cases hblock : block = 0
    · rw [if_pos hblock]
      exact ⟨fun h => (by cases h), fun h => absurd hblock h.1⟩
    · rw [if_neg hblock, openFile_setCursor, bind_eq_ok]
      constructor
      · rintro ⟨n', hn, hret⟩
        obtain ⟨hn', rfl⟩ := Prod.mk.inj (Except.ok.inj hret)
        obtain rfl := Option.some.inj hn'
        exact ⟨hblock, hn, rfl⟩
      · rintro ⟨-, hn, rfl⟩
        exact ⟨n, hn, rfl⟩

/-- The first task on the list but `t`. -/
def Procs.firstOther (ps : Procs) (l : List Nat) (t : Nat) : Option Nat :=
  (ps.tasksOf l).find? (fun u => u ≠ t)

/-- **Reading** a file that was opened for `t` finds the first task but `t`, since the loop stops
where the `id` is not the one that it looks for. -/
theorem Listed.find_eq (h : Listed ps l) (ht : t ∈ ps.tasksOf l) :
    (l.find? (fun y => ps.inode (ps.items y).val ≠ ps.inode t)).map (fun y => (ps.items y).val) =
      ps.firstOther l t := by
  rw [Procs.firstOther, Sched.State.tasksOf, List.find?_map]
  congr 1
  apply List.find?_congr
  intro y hy
  have hy' : (ps.items y).val ∈ ps.tasksOf l := List.mem_map_of_mem hy
  rw [Function.comp, decide_eq_decide]
  exact not_congr ⟨fun heq => h.inode_inj hy' ht heq, fun heq => by rw [heq]⟩

theorem Listed.procfsRead_eq_ok_iff {out : List UInt8} (h : Listed ps l)
    (ht : t ∈ ps.tasksOf l) (hsz : sz ≠ 0) (hn : n.inode = ps.inode t) :
    procfsRead ps n offset sz = .ok out ↔
      ∃ u, ps.firstOther l t = some u ∧ readTask ps u n.name offset sz = .ok out := by
  have hseek : linkedListSeekUntil ps.items (fun i => ps.inode i.val ≠ n.inode)
      ps.tasksList.first = .ok ((l.find? (fun y => ps.inode (ps.items y).val ≠ n.inode)).getD 0) :=
    linkedListSeekUntil_eq ⟨h.list.chain, h.list.addresses⟩
  rw [procfsRead, if_neg hsz, hseek, ok_bind, hn, ← h.find_eq ht]
  cases hfind : l.find? (fun y => ps.inode (ps.items y).val ≠ ps.inode t) with
  | none =>
    rw [Option.getD_none, if_pos rfl]
    constructor
    · intro h
      cases h
    · rintro ⟨u, hu, -⟩
      cases hu
  | some y =>
    have hy := h.list.chain.ne_null (List.mem_of_find?_eq_some hfind)
    rw [Option.getD_some, if_neg hy, Option.map_some]
    constructor
    · intro hread
      exact ⟨_, rfl, hread⟩
    · rintro ⟨u, hu, hread⟩
      rw [Option.some.inj hu]
      exact hread

end Found

/-! ## The whole of it -/

/-- The file that is opened in the directory of `t` shows `t`: the node is one for `t`, a read
later on gives data of `t`, and nothing was changed by opening it. -/
def Shows (ps ps' : Procs) (t : Nat) (file : ProcFile) (block : Nat) (content : Vfs.Node)
    (offset sz : Nat) : Prop :=
  ∃ n, procfsOpen ps (ps.entries t).procfsNode file.name block content = .ok (some n, ps) ∧
    n.inode = ps.inode t ∧ procfsRead ps' n offset sz = .ok (ps'.data t offset sz file)

/-- When that is so: there is memory for the node, `t` is the first task when the file is opened,
and what there is to see of the first task but `t` is the data of `t`. -/
structure SameData (ps ps' : Procs) (l l' : List Nat) (t : Nat) (file : ProcFile)
    (block offset sz : Nat) : Prop where
  block : block ≠ 0
  first : (ps.tasksOf l).head? = some t
  memmap : file = .memmap → ps.Readable t .memmap
  other : sz = 0 ∨ ∃ u, ps'.firstOther l' t = some u ∧
    ((ps'.entries u).argv ≠ 0 → ps'.Readable u file) ∧
    ps'.data t offset sz file = ps'.shown u offset sz file

section Shows

variable {ps ps' : Procs} {l l' : List Nat} {t block offset sz : Nat} {file : ProcFile}
  {content n : Vfs.Node}

theorem data_zero (ps : Procs) (t offset : Nat) (file : ProcFile) :
    ps.data t offset 0 file = [] := by
  cases file <;> rfl

theorem Listed.mem_other {u : Nat} (h : Listed ps l) (hu : ps.firstOther l t = some u) : u ≠ 0 :=
  ne_of_mem_of_not_mem (List.mem_of_find?_eq_some hu) h.nonnull

theorem Listed.read_iff (h : Listed ps l) (ht : t ∈ ps.tasksOf l) (hoffset : offset < wordSize)
    (hsz : sz < wordSize) (hn : n.inode = ps.inode t) (hname : n.name = file.name) :
    procfsRead ps n offset sz = .ok (ps.data t offset sz file) ↔
      sz = 0 ∨ ∃ u, ps.firstOther l t = some u ∧
        ((ps.entries u).argv ≠ 0 → ps.Readable u file) ∧
        ps.data t offset sz file = ps.shown u offset sz file := by
  by_cases hzero : sz = 0
  · subst hzero
    rw [data_zero, procfsRead, if_pos rfl]
    exact ⟨fun _ => Or.inl rfl, fun _ => rfl⟩
  · rw [h.procfsRead_eq_ok_iff ht hzero hn, or_iff_right hzero, hname]
    refine exists_congr fun u => and_congr_right fun hu => ?_
    exact readTask_eq_ok_iff (h.mem_other hu) hoffset hsz

theorem Listed.first_of_open (h : Listed ps l) (ht : t ∈ ps.tasksOf l) {node : Nat} {ps₁ : Procs}
    (hopen : procfsOpen ps node file.name block content = .ok (some n, ps₁))
    (hn : n.inode = ps.inode t) : (ps.tasksOf l).head? = some t := by
  cases hhead : (ps.tasksOf l).head? with
  | none =>
    rw [List.head?_eq_none_iff] at hhead
    rw [hhead] at ht
    cases ht
  | some u =>
    obtain ⟨-, hfile, -⟩ := (h.procfsOpen_eq_ok_iff hhead).mp hopen
    have hu : u ∈ ps.tasksOf l := List.mem_of_mem_head? hhead
    rw [h.inode_inj ht hu (hn.symm.trans (openFile_node hfile).1)]

/-- **The files of a task** show it exactly when it is the first task and the one that is read
instead of it has the same data, for every list, every task, file, offset and size. -/
theorem procfs_shows_iff (h : Listed ps l) (h' : Listed ps' l') (ht : t ∈ ps.tasksOf l)
    (ht' : t ∈ ps'.tasksOf l') (hid : (ps'.tasks t).id = (ps.tasks t).id)
    (hoffset : offset < wordSize) (hsz : sz < wordSize) :
    Shows ps ps' t file block content offset sz ↔ SameData ps ps' l l' t file block offset sz := by
  have hinode : ps.inode t = ps'.inode t := by rw [Procs.inode, Procs.inode, hid]
  constructor
  · rintro ⟨n, hopen, hn, hread⟩
    have hfirst := h.first_of_open ht hopen hn
    obtain ⟨hblock, hfile, -⟩ := (h.procfsOpen_eq_ok_iff hfirst).mp hopen
    have hname := (openFile_node hfile).2
    exact ⟨hblock, hfirst, openFile_ok_iff.mp ⟨n, hfile⟩,
      (h'.read_iff ht' hoffset hsz (hn.trans hinode) hname).mp hread⟩
  · intro hsame
    have hex : ∃ n, openFile ps t content file = .ok n := openFile_ok_iff.mpr hsame.memmap
    obtain ⟨n, hfile⟩ := hex
    obtain ⟨hn, hname⟩ := openFile_node hfile
    refine ⟨n, (h.procfsOpen_eq_ok_iff hsame.first).mpr ⟨hsame.block, hfile, ?_⟩, hn,
      (h'.read_iff ht' hoffset hsz (hn.trans hinode) hname).mpr hsame.other⟩
    rw [Procs.cursorAfter, if_pos rfl]
    rfl

end Shows

/-- Two tasks with the ids `1` and `2`, and the arguments that they were started with. -/
def twoTasks (args args' : List CStr) : Procs :=
  { tasks := fun t => if t = 4096 then { id := 1 } else { id := 2 }
    items := fun x => if x = 16 then { val := 4096, next := 32 } else { val := 8192 }
    tasksList := { first := 16, last := 32, current := 16, count := 2 }
    entries := fun t => if t = 4096 then { procfsNode := 64, argv := 128 }
      else { procfsNode := 96, argv := 256 }
    strings := fun p => if p = 128 then args else args' }

theorem tasksOf_twoTasks (args args' : List CStr) :
    (twoTasks args args').tasksOf [16, 32] = [4096, 8192] :=
  rfl

theorem listed_twoTasks (args args' : List CStr) : Listed (twoTasks args args') [16, 32] where
  list := ⟨by simp [Chain, twoTasks], rfl, rfl, by decide⟩
  cursor := Or.inr List.mem_cons_self
  nonnull := by
    rw [tasksOf_twoTasks]
    decide
  ids := by
    rw [tasksOf_twoTasks]
    exact (by decide : [(1 : Int), 2].Nodup)
  id_range := by
    rw [tasksOf_twoTasks]
    simp [twoTasks]

/-- Two tasks that were started in the same way: the first one's arguments are shown. -/
theorem procfs_shows_twin :
    let args : List CStr := [⟨[97], by decide⟩]
    Shows (twoTasks args args) (twoTasks args args) 4096 .cmdline 48 {} 0 10 :=
  (procfs_shows_iff (listed_twoTasks _ _) (listed_twoTasks _ _) (by decide) (by decide) rfl
    (by decide) (by decide)).mpr
    { block := by decide
      first := rfl
      memmap := fun h => by cases h
      other := Or.inr ⟨8192, by decide, fun _ => Or.inr (List.not_mem_nil), by decide⟩ }

/-- The file in the directory of the second task is opened for the first one, and the scheduler's
cursor runs off the list. The file in the directory of the first task shows the arguments of the
second one. -/
theorem procfs_shows_neighbour :
    let ps := twoTasks [⟨[97], by decide⟩] [⟨[98], by decide⟩]
    Listed ps [16, 32] ∧
      (∃ n, procfsOpen ps 96 ProcFile.cmdline.name 48 {} = .ok (some n, ps.setCursor 0) ∧
        n.inode = ps.inode 4096) ∧
      ¬ Shows ps ps 8192 .cmdline 48 {} 0 10 ∧ ¬ Shows ps ps 4096 .cmdline 48 {} 0 10 := by
  intro ps
  have hlisted : Listed ps [16, 32] := listed_twoTasks _ _
  have hfirst : (ps.tasksOf [16, 32]).head? = some 4096 := rfl
  have hother : ps.firstOther [16, 32] 4096 = some 8192 := by decide
  refine ⟨hlisted, ⟨_, (hlisted.procfsOpen_eq_ok_iff hfirst).mpr ⟨by decide, rfl, rfl⟩, rfl⟩,
    ?_, ?_⟩
  · rintro ⟨n, hopen, hn, -⟩
    have hhead := hlisted.first_of_open (by decide) hopen hn
    rw [hfirst] at hhead
    exact absurd (Option.some.inj hhead) (by decide)
  · rintro ⟨n, hopen, hn, hread⟩
    obtain ⟨-, hfile, -⟩ := (hlisted.procfsOpen_eq_ok_iff hfirst).mp hopen
    have hdata := (hlisted.read_iff (by decide) (by decide) (by decide) hn
      (openFile_node hfile).2).mp hread
    obtain ⟨u, hu, -, heq⟩ := hdata.resolve_left (by decide)
    obtain rfl := Option.some.inj (hother.symm.trans hu)
    exact absurd heq (by decide)

end Hydrax.Procfs
