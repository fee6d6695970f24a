import Hydrax.Buffer
import Hydrax.Bytes
import Hydrax.Exec

/-!
# The arguments of a program

After it has loaded the program, `execve` copies its arguments to one block of the kernel's heap: an
array of pointers, then the path and the strings. It reads them through the pointers of the caller,
whose memory is gone by then. The size of the block is the sum of the lengths, but the copying goes
forward by the length of the string that comes next, not by that of the string it has just copied.

* `readArgs` — the path and the arguments, as a view of the memory has them,
* `marshal` — the copying, and `execveArgs`, the call up to its end,
* `HandedOver` — the block has the path, the caller's strings and a null pointer,
* `marshal_iff` — when the block has what was read,
* `execveArgs_iff` — when it has what the caller passed.
-/

namespace Hydrax.ExecArgs

open Bytes Loop

/-- A string: the characters before the zero that ends it. -/
structure CStr where
  chars : List UInt8
  nonzero : 0 ∉ chars
  deriving DecidableEq

def strlen (s : CStr) : Nat := s.chars.length

def CStr.piece (s : CStr) (a : Nat) : Piece := ⟨a, s.chars ++ [0]⟩

/-! ## The caller's pointers -/

/-- The byte at every address, or nothing where a read does not come back. -/
abbrev View := Nat → Option UInt8

/-- The memory of the current task, as the kernel reads it. -/
def viewOf (s : State) : View := fun a =>
  match loadByte s a with
  | .ok (x, _) => x
  | .error _ => none

def readStr (v : View) : Nat → Nat → Except Stop CStr
  | 0, _ => .error .hang
  | fuel + 1, a =>
    match v a with
    | none => .error .panicked
    | some x =>
      if hx : x = 0 then .ok ⟨[], List.not_mem_nil⟩
      else do
        let s ← readStr v fuel ((a + 1) % wordSize)
        return ⟨x :: s.chars, by simp [s.nonzero, Ne.symm hx]⟩

def readWord (v : View) (a : Nat) : Except Stop Nat :=
  match v a, v ((a + 1) % wordSize), v ((a + 2) % wordSize), v ((a + 3) % wordSize) with
  | some x, some y, some z, some w =>
    .ok (x.toNat + 256 * y.toNat + 65536 * z.toNat + 16777216 * w.toNat)
  | _, _, _, _ => .error .panicked

def readArgv (v : View) : Nat → Nat → Except Stop (List CStr)
  | 0, _ => .error .hang
  | fuel + 1, a => do
      let p ← readWord v a
      if p = 0 then return []
      else
        let s ← readStr v wordSize p
        let rest ← readArgv v fuel ((a + 4) % wordSize)
        return s :: rest

/-- The path and the arguments. A null `argv` has none. -/
def readArgs (v : View) (path argv : Nat) : Except Stop (CStr × List CStr) := do
  let strings ← (if argv = 0 then .ok [] else readArgv v wordSize argv)
  let s ← readStr v wordSize path
  return (s, strings)

/-! ## The copying -/

/-- `argv[k]` of the caller, whose last pointer is null. -/
def callerArg (argv : List CStr) (k : Nat) : Except Stop (Option CStr) :=
  if k ≤ argv.length then .ok argv[k]? else .error .outOfBounds

/-- The loop that counts the arguments. A null `argv` has none. -/
def countArgs : List CStr → Nat → Nat → Nat × Nat
  | [], i, l => (i, l)
  | s :: argv, i, l => countArgs argv (i + 1) ((l + (strlen s + 1)) % wordSize)

/-- The size of the block, which is a multiple of four. -/
def blockSize (path : CStr) (argv : List CStr) : Nat :=
  let (i, l) := countArgs argv 0 0
  let l := (l + 4 * (i + 2)) % wordSize
  let l := (l + (strlen path + 1)) % wordSize
  if l % 4 = 0 then l else (l - l % 4 + 4) % wordSize

structure Block where
  base : Nat
  size : Nat
  base_pos : 0 < base
  room : base + size ≤ wordSize

/-- The address of the `k`th pointer. -/
def Block.slot (b : Block) (k : Nat) : Nat := (b.base + 4 * k) % wordSize

/-- A write through a pointer into the block. Elsewhere there is other memory of the kernel. -/
def store (b : Block) (m : Store) (p : Piece) : Except Stop Store :=
  if p.Within b.base (b.base + b.size) then .ok (write m p) else .error .outOfBounds

def strcpy (b : Block) (m : Store) (dest : Nat) : List UInt8 → Except Stop Store
  | [] => store b m ⟨dest, [0]⟩
  | c :: src => do
      let m ← store b m ⟨dest, [c]⟩
      strcpy b m (dest + 1) src

/-- A turn of the loop that copies. The page at address zero belongs to the kernel, so the length
of the string at the null pointer is that of `low`, which is there. -/
def copyArg (b : Block) (argv : List CStr) (low : CStr) (x : Nat × Store) (j : Nat) :
    Except Stop (Nat × Store) := do
  let m ← store b x.2 ⟨b.slot (j + 1), wordBytes x.1⟩
  let arg ← callerArg argv j
  let m ← strcpy b m x.1 (arg.getD low).chars
  let following ← callerArg argv (j + 1)
  .ok ((x.1 + (strlen (following.getD low) + 1)) % wordSize, m)

/-- The block is filled. -/
def marshal (b : Block) (m : Store) (path : CStr) (argv : List CStr) (low : CStr) :
    Except Stop Store := do
  let i := (countArgs argv 0 0).1
  let nextArg := (b.base + 4 * (i + 2)) % wordSize
  let m ← store b m ⟨b.slot 0, wordBytes nextArg⟩
  let m ← strcpy b m nextArg path.chars
  let x ← (List.range i).foldlM (copyArg b argv low) ((nextArg + (strlen path + 1)) % wordSize, m)
  store b x.2 ⟨b.slot (i + 1), wordBytes 0⟩

/-- What is left of the memory when a block of the heap is freed. -/
def View.free (v : View) (old : Option Block) : View := fun a =>
  match old with
  | none => v a
  | some b => if b.base ≤ a ∧ a < b.base + b.size then none else v a

/-- `execve`, where `old` is the block with the arguments that the task has so far, and `malloc`
returns the block `alloc n` if it is asked for `n` bytes. Nobody has a pointer to that, so the copying
does not change what is read. -/
def execveArgs (c : Caller) (path argv : Nat) (node : Option Nat) (heap : Nat → Hydrax.Block)
    (old : Option Block) (alloc : Nat → Block) (m : Store) (low : CStr) :
    Except Stop (Option (Block × Store)) := do
  let s ← readStr (viewOf c.mm) wordSize path
  let (res, c) ← execve c (s.chars.map Char.ofUInt8) node heap
  match res with
  | .returned _ => return none
  | .loaded _ =>
    let (s, strings) ← readArgs ((viewOf c.mm).free old) path argv
    let b := alloc (blockSize s strings)
    let m ← marshal b m s strings low
    return some (b, m)

/-! ## What should be in the block -/

/-- The `k`th pointer of the array that was built. -/
def pointer (b : Block) (m : Store) (k : Nat) : Nat := wordAt m (b.base + 4 * k)

/-- The path and the arguments are in the block, behind the pointers and apart from each other. -/
structure HandedOver (b : Block) (m : Store) (path : CStr) (argv : List CStr) : Prop where
  strings : ∀ k (s : CStr), (path :: argv)[k]? = some s → Holds m (s.piece (pointer b m k))
  null : pointer b m (argv.length + 1) = 0
  inside : ∀ k (s : CStr), (path :: argv)[k]? = some s →
    (s.piece (pointer b m k)).Within (b.base + 4 * (argv.length + 2)) (b.base + b.size)
  apart : ∀ k (s : CStr) k' (s' : CStr), (path :: argv)[k]? = some s →
    (path :: argv)[k']? = some s' → k ≠ k' →
    (s.piece (pointer b m k)).Apart (s'.piece (pointer b m k'))

def lengths : List CStr → Nat
  | [] => 0
  | s :: argv => strlen s + 1 + lengths argv

/-- The bytes that the pointers, the path and the arguments take. -/
def needed (path : CStr) (argv : List CStr) : Nat :=
  4 * (argv.length + 2) + (strlen path + 1) + lengths argv

/-- What is added to get a multiple of four. -/
def padding (n : Nat) : Nat := (4 - n % 4) % 4

/-- No argument is shorter than the one before it. -/
def Rising (argv : List CStr) : Prop :=
  ∀ k s t, argv[k]? = some s → argv[k + 1]? = some t → strlen s ≤ strlen t

/-- No argument is shorter than the one before it, and the last is not longer than the first, but
for the padding. All of them fit in the address space. -/
structure Fits (path : CStr) (argv : List CStr) : Prop where
  room : needed path argv + padding (needed path argv) < wordSize
  rising : Rising argv
  last : ∀ s t, argv.head? = some s → argv.getLast? = some t →
    strlen t ≤ strlen s + padding (needed path argv)

section Copying

variable {b : Block} {m m' : Store} {path low s t : CStr} {argv rest : List CStr} {j k next : Nat}

/-! ## Sizes -/

theorem countArgs_eq (argv : List CStr) (i l : Nat) (hl : l < wordSize) :
    countArgs argv i l = (i + argv.length, (l + lengths argv) % wordSize) := by
  induction argv generalizing i l with
  | nil =>
    rw [countArgs, lengths, Nat.add_zero, Nat.mod_eq_of_lt hl]
    rfl
  | cons s argv ih =>
    rw [countArgs, ih _ _ (Nat.mod_lt _ (by decide)), lengths, List.length_cons, Nat.mod_add_mod,
      Nat.add_assoc, Nat.add_assoc, Nat.add_comm 1]

theorem countArgs_fst (argv : List CStr) : (countArgs argv 0 0).1 = argv.length := by
  rw [countArgs_eq argv 0 0 (by decide), Nat.zero_add]

theorem blockSize_eq (path : CStr) (argv : List CStr) :
    blockSize path argv = (needed path argv + padding (needed path argv)) % wordSize := by
  rw [blockSize, countArgs_eq argv 0 0 (by decide), needed, padding]
  dsimp only
  rw [wordSize]
  split <;> omega

theorem CStr.stop_piece (s : CStr) (a : Nat) : (s.piece a).stop = a + (strlen s + 1) := by
  rw [Piece.stop, CStr.piece, List.length_append]
  rfl

theorem HandedOver.needed_le (h : HandedOver b m path argv) : needed path argv ≤ b.size := by
  let ps := (path :: argv).zipIdx.map (fun x => x.1.piece (pointer b m x.2))
  have hapart : ps.Pairwise Piece.Apart := by
    rw [List.pairwise_map, List.pairwise_iff_getElem]
    intro i j hi hj hij
    rw [List.length_zipIdx] at hi hj
    rw [List.getElem_zipIdx, List.getElem_zipIdx, Nat.zero_add, Nat.zero_add]
    exact h.apart i _ j _ (List.getElem?_eq_getElem hi) (List.getElem?_eq_getElem hj)
      (Nat.ne_of_lt hij)
  have hin : ∀ p ∈ ps, p.Within (b.base + 4 * (argv.length + 2)) (b.base + b.size) := by
    intro p hp
    obtain ⟨x, hx, rfl⟩ := List.mem_map.mp hp
    exact h.inside x.2 x.1 (List.mem_zipIdx_iff_getElem?.mp hx)
  have htotal : ∀ (l : List CStr) i,
      total ((l.zipIdx i).map (fun x => x.1.piece (pointer b m x.2))) = lengths l := by
    intro l
    induction l with
    | nil => exact fun _ => rfl
    | cons s l ih =>
      intro i
      rw [List.zipIdx_cons, List.map_cons, total, ih (i + 1), lengths, CStr.piece,
        List.length_append]
      rfl
  have hle := total_le hapart hin
  obtain ⟨hlo, hhi⟩ := h.inside 0 path rfl
  rw [CStr.stop_piece] at hhi
  rw [htotal, lengths] at hle
  rw [needed]
  change b.base + 4 * (argv.length + 2) ≤ pointer b m 0 at hlo
  omega

/-! ## The writes -/

theorem store_eq_ok {p : Piece} :
    store b m p = .ok m' ↔ p.Within b.base (b.base + b.size) ∧ m' = write m p := by
  rw [store]
  split
  next h => exact ⟨fun heq => ⟨h, (Except.ok.inj heq).symm⟩, fun heq => congrArg _ heq.2.symm⟩
  next h => exact iff_of_false (by simp) (fun heq => h heq.1)

theorem strcpy_eq_ok {dest : Nat} {src : List UInt8} :
    strcpy b m dest src = .ok m' ↔
      (Piece.mk dest (src ++ [0])).Within b.base (b.base + b.size) ∧
        m' = write m ⟨dest, src ++ [0]⟩ := by
  induction src generalizing m dest with
  | nil => exact store_eq_ok
  | cons c src ih =>
    rw [strcpy, bind_eq_ok]
    simp only [store_eq_ok, ih, List.cons_append]
    constructor
    · rintro ⟨_, ⟨hc, rfl⟩, hsrc, rfl⟩
      exact ⟨⟨hc.1, by simpa [Piece.stop, Nat.add_assoc, Nat.add_comm 1] using hsrc.2⟩,
        write_cons ..⟩
    · rintro ⟨⟨hlo, hhi⟩, rfl⟩
      simp only [Piece.stop, List.length_cons, List.length_append] at hlo hhi
      refine ⟨_, ⟨⟨hlo, ?_⟩, rfl⟩, ⟨?_, ?_⟩, (write_cons ..).symm⟩ <;>
        simp only [Piece.stop, List.length_append, List.length_singleton] <;>
        omega

/-- The pieces that the loop writes, where the strings from `rest` on are still to be copied. -/
def argPieces (b : Block) (low : CStr) : Nat → Nat → List CStr → List Piece
  | _, _, [] => []
  | j, next, s :: rest =>
    ⟨b.base + 4 * (j + 1), wordBytes next⟩ :: s.piece next ::
      argPieces b low (j + 1) (next + (strlen (rest.head?.getD low) + 1)) rest

theorem Block.slot_eq (h : b.base + 4 * k < wordSize) : b.slot k = b.base + 4 * k :=
  Nat.mod_eq_of_lt h

theorem callerArg_of_drop (h : argv.drop j = s :: rest) :
    callerArg argv j = .ok (some s) ∧ callerArg argv (j + 1) = .ok rest.head? := by
  have hj : j < argv.length := by
    by_contra hle
    rw [List.drop_eq_nil_of_le (Nat.le_of_not_lt hle)] at h
    cases h
  have hs : argv[j]? = some s := by
    rw [← Nat.add_zero j, ← List.getElem?_drop, h]
    rfl
  have hrest : argv[j + 1]? = rest.head? := by
    rw [← List.getElem?_drop, h, List.getElem?_cons_succ, List.head?_eq_getElem?]
  constructor
  · rw [callerArg, if_pos (Nat.le_of_lt hj), hs]
  · rw [callerArg, if_pos (Nat.succ_le_of_lt hj), hrest]

theorem copyArg_eq_ok {x : Nat × Store} (hrest : argv.drop j = s :: rest)
    (hslot : b.base + 4 * (j + 1) < wordSize) :
    copyArg b argv low (next, m) j = .ok x ↔
      ((Piece.mk (b.base + 4 * (j + 1)) (wordBytes next)).Within b.base (b.base + b.size) ∧
        (s.piece next).Within b.base (b.base + b.size)) ∧
        x = ((next + (strlen (rest.head?.getD low) + 1)) % wordSize,
          write (write m ⟨b.base + 4 * (j + 1), wordBytes next⟩) (s.piece next)) := by
  obtain ⟨hs, hfollowing⟩ := callerArg_of_drop hrest
  rw [copyArg, hs, hfollowing, Block.slot_eq hslot]
  simp only [ok_bind, bind_eq_ok, store_eq_ok, strcpy_eq_ok, Option.getD_some]
  constructor
  · rintro ⟨_, ⟨hw, rfl⟩, _, ⟨hp, rfl⟩, heq⟩
    exact ⟨⟨hw, hp⟩, (Except.ok.inj heq).symm⟩
  · rintro ⟨⟨hw, hp⟩, rfl⟩
    exact ⟨_, ⟨hw, rfl⟩, _, ⟨hp, rfl⟩, rfl⟩

theorem copyArgs_eq_ok (hrest : argv.drop j = rest)
    (hslots : b.base + 4 * (j + rest.length) < wordSize)
    (hnext : rest = [] ∨ next + lengths rest.tail < wordSize) :
    (∃ x, (List.range' j rest.length).foldlM (copyArg b argv low) (next % wordSize, m) = .ok x ∧
      x.2 = m') ↔
      (∀ p ∈ argPieces b low j next rest, p.Within b.base (b.base + b.size)) ∧
        m' = (argPieces b low j next rest).foldl write m := by
  induction rest generalizing j next m with
  | nil =>
    constructor
    · rintro ⟨x, hx, rfl⟩
      cases hx
      exact ⟨by simp [argPieces], rfl⟩
    · rintro ⟨-, rfl⟩
      exact ⟨_, rfl, rfl⟩
  | cons s rest ih =>
    rw [List.length_cons] at hslots
    have hdrop : argv.drop (j + 1) = rest := by
      rw [← List.tail_drop, hrest]
      rfl
    have hbound := hnext.resolve_left (by simp)
    rw [List.tail_cons] at hbound
    -- the next position does not wrap, unless this is the last string
    have hlast : rest = [] ∨ next + (strlen (rest.head?.getD low) + 1) + lengths rest.tail <
        wordSize := by
      cases rest with
      | nil => exact Or.inl rfl
      | cons t rest =>
        rw [lengths] at hbound
        exact Or.inr (by simpa [Nat.add_assoc] using hbound)
    have hstep := fun m => ih (m := m) hdrop (by omega) hlast
    have hslot : b.base + 4 * (j + 1) < wordSize := by omega
    rw [List.length_cons, List.range'_succ, List.foldlM_cons, argPieces,
      Nat.mod_eq_of_lt (Nat.lt_of_le_of_lt (Nat.le_add_right _ _) hbound)]
    simp only [bind_eq_ok, copyArg_eq_ok hrest hslot]
    constructor
    · rintro ⟨x, ⟨y, ⟨⟨hw, hp⟩, rfl⟩, hx⟩, hm'⟩
      obtain ⟨hall, heq⟩ := (hstep _).mp ⟨x, hx, hm'⟩
      exact ⟨by simpa [hw, hp] using hall, heq⟩
    · rintro ⟨hall, heq⟩
      simp only [List.forall_mem_cons] at hall
      obtain ⟨hw, hp, hall⟩ := hall
      obtain ⟨x, hx, hm'⟩ := (hstep _).mpr ⟨hall, heq⟩
      exact ⟨x, ⟨_, ⟨⟨hw, hp⟩, rfl⟩, hx⟩, hm'⟩

/-! ## All pieces -/

/-- Where the `k`th string is copied to. -/
def position (b : Block) (path : CStr) (argv : List CStr) : Nat → Nat
  | 0 => b.base + 4 * (argv.length + 2)
  | k + 1 => b.base + 4 * (argv.length + 2) + (strlen path + 1) + lengths (argv.tail.take k)

/-- Everything that is written, in the order of the writes. -/
def pieces (b : Block) (path : CStr) (argv : List CStr) (low : CStr) : List Piece :=
  ⟨b.base, wordBytes (position b path argv 0)⟩ :: path.piece (position b path argv 0) ::
    (argPieces b low 0 (position b path argv 1) argv ++
      [⟨b.base + 4 * (argv.length + 1), wordBytes 0⟩])

theorem position_one (b : Block) (path : CStr) (argv : List CStr) :
    position b path argv 1 = position b path argv 0 + (strlen path + 1) := by
  rw [position, position, List.take_zero]
  rfl

theorem marshal_eq_ok (hroom : b.base + needed path argv ≤ wordSize) :
    marshal b m path argv low = .ok m' ↔
      (∀ p ∈ pieces b path argv low, p.Within b.base (b.base + b.size)) ∧
        m' = (pieces b path argv low).foldl write m := by
  have hbound : argv = [] ∨ position b path argv 1 + lengths argv.tail < wordSize := by
    rw [position_one, position]
    cases argv with
    | nil => exact Or.inl rfl
    | cons s argv =>
      rw [needed, lengths] at hroom
      exact Or.inr (by rw [List.tail_cons]; omega)
  rw [needed] at hroom
  have hstart : (b.base + 4 * (argv.length + 2)) % wordSize = position b path argv 0 :=
    Nat.mod_eq_of_lt (by omega)
  have hslot : b.slot 0 = b.base := Block.slot_eq (by omega)
  have hnull : b.slot (argv.length + 1) = b.base + 4 * (argv.length + 1) :=
    Block.slot_eq (by omega)
  have hloop : ∀ m m', (∃ x, (List.range' 0 argv.length).foldlM (copyArg b argv low)
      (position b path argv 1 % wordSize, m) = .ok x ∧ x.2 = m') ↔ _ :=
    fun m m' => copyArgs_eq_ok (show argv.drop 0 = argv from rfl) (by omega) hbound
  rw [marshal, countArgs_fst, hstart, hslot, hnull, ← position_one, List.range_eq_range', pieces]
  simp only [bind_eq_ok, store_eq_ok, strcpy_eq_ok]
  constructor
  · rintro ⟨_, ⟨hw, rfl⟩, _, ⟨hp, rfl⟩, x, hx, hz, rfl⟩
    obtain ⟨hall, heq⟩ := (hloop _ _).mp ⟨x, hx, rfl⟩
    refine ⟨?_, ?_⟩
    · simp only [List.forall_mem_cons, List.forall_mem_append]
      exact ⟨hw, hp, hall, hz, by simp⟩
    · rw [heq, List.foldl_cons, List.foldl_cons, List.foldl_append]
      rfl
  · rintro ⟨hall, rfl⟩
    simp only [List.forall_mem_cons, List.forall_mem_append] at hall
    obtain ⟨hw, hp, hall, hz, -⟩ := hall
    obtain ⟨x, hx, heq⟩ := (hloop _ _).mpr ⟨hall, rfl⟩
    refine ⟨_, ⟨hw, rfl⟩, _, ⟨hp, rfl⟩, x, hx, hz, ?_⟩
    rw [heq, List.foldl_cons, List.foldl_cons, List.foldl_append]
    rfl

/-! ## Where the strings are -/

theorem lengths_take_succ {l : List CStr} (h : l[k]? = some s) :
    lengths (l.take (k + 1)) = lengths (l.take k) + (strlen s + 1) := by
  induction l generalizing k with
  | nil => cases h
  | cons t l ih =>
    cases k with
    | zero =>
      cases h
      exact (Nat.zero_add _).symm
    | succ k =>
      rw [List.take_succ_cons, List.take_succ_cons, lengths, lengths, ih h, ← Nat.add_assoc]

theorem mem_argPieces {p : Piece} :
    p ∈ argPieces b low j next rest ↔ ∃ k s, rest[k]? = some s ∧
      (p = ⟨b.base + 4 * (j + k + 1), wordBytes (next + lengths (rest.tail.take k))⟩ ∨
        p = s.piece (next + lengths (rest.tail.take k))) := by
  induction rest generalizing j next with
  | nil => simp [argPieces]
  | cons s rest ih =>
    rw [argPieces, List.mem_cons, List.mem_cons, ih]
    have hmove : ∀ k t, rest[k]? = some t →
        next + (strlen (rest.head?.getD low) + 1) + lengths (rest.tail.take k) =
          next + lengths (rest.take (k + 1)) := by
      intro k t ht
      cases rest with
      | nil => cases ht
      | cons t' rest =>
        rw [List.take_succ_cons, lengths]
        simp [Nat.add_assoc]
    constructor
    · rintro (rfl | rfl | ⟨k, t, ht, hp⟩)
      · exact ⟨0, s, rfl, Or.inl rfl⟩
      · exact ⟨0, s, rfl, Or.inr rfl⟩
      · rw [hmove k t ht, Nat.add_right_comm j 1 k] at hp
        exact ⟨k + 1, t, ht, hp⟩
    · rintro ⟨k, t, ht, hp⟩
      cases k with
      | zero =>
        cases ht
        rcases hp with rfl | rfl
        · exact Or.inl rfl
        · exact Or.inr (Or.inl rfl)
      | succ k =>
        refine Or.inr (Or.inr ⟨k, t, ht, ?_⟩)
        rw [hmove k t ht, Nat.add_right_comm j 1 k]
        exact hp

theorem mem_pieces {p : Piece} :
    p ∈ pieces b path argv low ↔
      (∃ k s, (path :: argv)[k]? = some s ∧
        (p = ⟨b.base + 4 * k, wordBytes (position b path argv k)⟩ ∨
          p = s.piece (position b path argv k))) ∨
        p = ⟨b.base + 4 * (argv.length + 1), wordBytes 0⟩ := by
  rw [pieces, List.mem_cons, List.mem_cons, List.mem_append, List.mem_singleton, mem_argPieces]
  simp only [position_one, Nat.zero_add]
  constructor
  · rintro (rfl | rfl | ⟨k, s, hs, hp⟩ | rfl)
    · exact Or.inl ⟨0, path, rfl, Or.inl rfl⟩
    · exact Or.inl ⟨0, path, rfl, Or.inr rfl⟩
    · exact Or.inl ⟨k + 1, s, hs, hp⟩
    · exact Or.inr rfl
  · rintro (⟨k, s, hs, hp⟩ | rfl)
    · cases k with
      | zero =>
        cases hs
        rcases hp with rfl | rfl
        · exact Or.inl rfl
        · exact Or.inr (Or.inl rfl)
      | succ k => exact Or.inr (Or.inr (Or.inl ⟨k, s, hs, hp⟩))
    · exact Or.inr (Or.inr (Or.inr rfl))

theorem position_succ (ht : argv[k + 1]? = some t) :
    position b path argv (k + 2) = position b path argv (k + 1) + (strlen t + 1) := by
  have htail : argv.tail[k]? = some t := by
    rw [← List.drop_one, List.getElem?_drop, Nat.add_comm 1]
    exact ht
  rw [position, position, lengths_take_succ htail, ← Nat.add_assoc]

theorem position_le_succ (b : Block) (path : CStr) (argv : List CStr) (k : Nat) :
    position b path argv k ≤ position b path argv (k + 1) := by
  cases k with
  | zero =>
    rw [position_one]
    exact Nat.le_add_right _ _
  | succ k =>
    cases ht : argv[k + 1]? with
    | some t =>
      rw [position_succ ht]
      exact Nat.le_add_right _ _
    | none =>
      have hlen : argv.tail.length ≤ k := by
        rw [List.length_tail]
        have := List.getElem?_eq_none_iff.mp ht
        omega
      rw [position, position, List.take_of_length_le hlen,
        List.take_of_length_le (Nat.le_succ_of_le hlen)]

theorem position_mono (b : Block) (path : CStr) (argv : List CStr) :
    Monotone (position b path argv) :=
  monotone_nat_of_le_succ (position_le_succ b path argv)

theorem position_last (b : Block) (path : CStr) (s : CStr) (argv : List CStr) :
    position b path (s :: argv) (argv.length + 1) + (strlen s + 1) =
      b.base + needed path (s :: argv) := by
  rw [position, needed, List.tail_cons, List.take_length, lengths]
  omega

theorem position_le (b : Block) (path : CStr) (argv : List CStr) (h : k ≤ argv.length) :
    position b path argv k < b.base + needed path argv := by
  cases argv with
  | nil =>
    obtain rfl := Nat.le_zero.mp h
    rw [position, needed]
    omega
  | cons s argv =>
    have hlast := position_last b path s argv
    have hle : position b path (s :: argv) k ≤ position b path (s :: argv) (argv.length + 1) :=
      position_mono b path (s :: argv) h
    omega

theorem le_length_of_some (hs : (path :: argv)[k]? = some s) : k ≤ argv.length :=
  Nat.le_of_lt_succ (List.getElem?_eq_some_iff.mp hs).1

theorem le_position (b : Block) (path : CStr) (argv : List CStr) (k : Nat) :
    b.base + 4 * (argv.length + 2) ≤ position b path argv k :=
  position_mono b path argv (Nat.zero_le k)

/-- The `k`th pointer that is written. -/
def slotPiece (b : Block) (path : CStr) (argv : List CStr) (k : Nat) : Piece :=
  ⟨b.base + 4 * k, wordBytes (if k ≤ argv.length then position b path argv k else 0)⟩

theorem slotPiece_mem (hk : k ≤ argv.length + 1) :
    slotPiece b path argv k ∈ pieces b path argv low := by
  rw [slotPiece, mem_pieces]
  rcases Nat.le_or_eq_of_le_succ hk with hk | rfl
  · have hs := List.getElem?_eq_getElem (l := path :: argv) (Nat.lt_succ_of_le hk)
    rw [if_pos hk]
    exact Or.inl ⟨k, _, hs, Or.inl rfl⟩
  · rw [if_neg (Nat.not_succ_le_self _)]
    exact Or.inr rfl

theorem apart_slotPiece (hk : k ≤ argv.length + 1) :
    ∀ p ∈ pieces b path argv low,
      p = slotPiece b path argv k ∨ p.Apart (slotPiece b path argv k) := by
  intro p hp
  rcases mem_pieces.mp hp with ⟨k', s, hs, rfl | rfl⟩ | rfl
  · by_cases heq : k' = k
    · subst heq
      rw [slotPiece, if_pos (le_length_of_some hs)]
      exact Or.inl rfl
    · refine Or.inr ?_
      simp only [Piece.Apart, Piece.stop, slotPiece, length_wordBytes]
      omega
  · refine Or.inr (Or.inr ?_)
    have hle := le_position b path argv k'
    simp only [Piece.stop, slotPiece, length_wordBytes, CStr.piece]
    omega
  · by_cases heq : k = argv.length + 1
    · subst heq
      rw [slotPiece, if_neg (Nat.not_succ_le_self _)]
      exact Or.inl rfl
    · refine Or.inr ?_
      simp only [Piece.Apart, Piece.stop, slotPiece, length_wordBytes]
      omega

theorem pointer_eq (hroom : b.base + needed path argv ≤ wordSize) (hk : k ≤ argv.length + 1) :
    pointer b ((pieces b path argv low).foldl write m) k =
      if k ≤ argv.length then position b path argv k else 0 := by
  apply wordAt_of_holds
  · split
    next hle => exact Nat.lt_of_lt_of_le (position_le b path argv hle) hroom
    next => decide
  · exact holds_foldl_write ⟨_, slotPiece_mem hk, fun m => holds_write m _⟩
      (fun p hp => (apart_slotPiece hk p hp).imp_left (by rintro rfl m; exact holds_write m _))

theorem pointer_of_some (hroom : b.base + needed path argv ≤ wordSize)
    (hs : (path :: argv)[k]? = some s) :
    pointer b ((pieces b path argv low).foldl write m) k = position b path argv k := by
  have hk := le_length_of_some hs
  rw [pointer_eq hroom (Nat.le_succ_of_le hk), if_pos hk]

/-! ## When the block is right -/

theorem Fits.of_handedOver (hsize : b.size = needed path argv + padding (needed path argv))
    (h : HandedOver b ((pieces b path argv low).foldl write m) path argv) (hb : b.size < wordSize) :
    Fits path argv := by
  have hroom : b.base + needed path argv ≤ wordSize := by
    have := b.room
    omega
  refine ⟨hsize ▸ hb, ?_, ?_⟩
  · intro k s t hs ht
    have hs' : (path :: argv)[k + 1]? = some s := hs
    have ht' : (path :: argv)[k + 2]? = some t := ht
    have hapart := h.apart (k + 1) s (k + 2) t hs' ht' (by omega)
    rw [pointer_of_some hroom hs', pointer_of_some hroom ht', Piece.Apart, CStr.stop_piece,
      CStr.stop_piece, CStr.piece, CStr.piece, position_succ ht] at hapart
    dsimp only at hapart
    omega
  · intro s t hs ht
    obtain ⟨argv', rfl⟩ := List.head?_eq_some_iff.mp hs
    have ht' : (path :: s :: argv')[argv'.length + 1]? = some t := by
      rw [List.getLast?_eq_getElem?] at ht
      exact ht
    have hin := (h.inside (argv'.length + 1) t ht').2
    have hlast := position_last b path s argv'
    rw [pointer_of_some hroom ht', CStr.stop_piece, hsize] at hin
    omega

theorem position_add_le (hs : (path :: argv)[k]? = some s) (hk : k < argv.length)
    (hrise : ∀ i t, k = i + 1 → argv[i + 1]? = some t → strlen s ≤ strlen t) :
    position b path argv k + (strlen s + 1) ≤ position b path argv (k + 1) := by
  cases k with
  | zero =>
    cases hs
    rw [position_one]
  | succ k =>
    have ht := List.getElem?_eq_getElem hk
    have hle := hrise k _ rfl ht
    rw [position_succ ht]
    omega

theorem Rising.position_add_le_of_lt (h : Rising argv) (hs : (path :: argv)[k]? = some s)
    (hk : k < j) (hj : j ≤ argv.length) :
    position b path argv k + (strlen s + 1) ≤ position b path argv j := by
  refine Nat.le_trans (position_add_le hs (Nat.lt_of_lt_of_le hk hj) ?_) (position_mono b path argv hk)
  rintro i t rfl ht
  exact h i s t hs ht

theorem Fits.position_add_le_size (h : Fits path argv) (hs : (path :: argv)[k]? = some s) :
    position b path argv k + (strlen s + 1) ≤
      b.base + (needed path argv + padding (needed path argv)) := by
  rcases Nat.lt_or_eq_of_le (le_length_of_some hs) with hk | rfl
  · have hle := h.rising.position_add_le_of_lt (b := b) hs (Nat.lt_add_one k) hk
    have hlt := position_le b path argv (show k + 1 ≤ argv.length from hk)
    omega
  · cases argv with
    | nil =>
      cases hs
      rw [List.length_nil, position, needed, List.length_nil]
      omega
    | cons t argv =>
      have hlast : (t :: argv).getLast? = some s := by
        rw [List.getLast?_eq_getElem?]
        exact hs
      have hle := h.last t s rfl hlast
      have hpos := position_last b path t argv
      rw [List.length_cons]
      omega

theorem Fits.within (h : Fits path argv)
    (hsize : b.size = needed path argv + padding (needed path argv)) :
    ∀ p ∈ pieces b path argv low, p.Within b.base (b.base + b.size) := by
  have hpointers : 4 * (argv.length + 2) ≤ b.size := by
    rw [hsize, needed]
    omega
  intro p hp
  rcases mem_pieces.mp hp with ⟨k, s, hs, rfl | rfl⟩ | rfl
  · have hk := le_length_of_some hs
    simp only [Piece.Within, Piece.stop, length_wordBytes]
    omega
  · have hle := le_position b path argv k
    have hend := h.position_add_le_size (b := b) hs
    rw [Piece.Within, CStr.stop_piece, hsize]
    exact ⟨Nat.le_trans (Nat.le_add_right _ _) hle, hend⟩
  · simp only [Piece.Within, Piece.stop, length_wordBytes]
    omega

theorem Rising.apart {k' : Nat} {s' : CStr} (h : Rising argv) (hs : (path :: argv)[k]? = some s)
    (hs' : (path :: argv)[k']? = some s') (hne : k ≠ k') :
    (s.piece (position b path argv k)).Apart (s'.piece (position b path argv k')) := by
  rw [Piece.Apart, CStr.stop_piece, CStr.stop_piece]
  rcases Nat.lt_or_gt_of_ne hne with hlt | hlt
  · exact Or.inl (h.position_add_le_of_lt hs hlt (le_length_of_some hs'))
  · exact Or.inr (h.position_add_le_of_lt hs' hlt (le_length_of_some hs))

theorem slot_apart_string {w : List UInt8} (bytes : List UInt8) (hw : w.length = 4)
    (hj : j ≤ argv.length + 1) :
    (Piece.mk (b.base + 4 * j) w).Apart ⟨position b path argv k, bytes⟩ := by
  have hle := le_position b path argv k
  refine Or.inl ?_
  simp only [Piece.stop, hw]
  omega

/-- What one string writes is there at the end, if the other strings are apart from it. -/
theorem holds_of_apart {bytes : List UInt8} (hs : (path :: argv)[k]? = some s)
    (hself : ∀ m, Holds (write m (s.piece (position b path argv k))) ⟨position b path argv k, bytes⟩)
    (hother : ∀ k' u, (path :: argv)[k']? = some u → k' ≠ k →
      (u.piece (position b path argv k')).Apart ⟨position b path argv k, bytes⟩) :
    Holds ((pieces b path argv low).foldl write m) ⟨position b path argv k, bytes⟩ := by
  apply holds_foldl_write ⟨_, mem_pieces.mpr (Or.inl ⟨k, s, hs, Or.inr rfl⟩), hself⟩
  intro p hp
  rcases mem_pieces.mp hp with ⟨k', u, hu, rfl | rfl⟩ | rfl
  · exact Or.inr (slot_apart_string _ rfl (Nat.le_succ_of_le (le_length_of_some hu)))
  · by_cases heq : k' = k
    · subst heq
      cases hs.symm.trans hu
      exact Or.inl hself
    · exact Or.inr (hother k' u hu heq)
  · exact Or.inr (slot_apart_string _ rfl (Nat.le_refl _))

theorem Rising.holds (h : Rising argv) (hs : (path :: argv)[k]? = some s) :
    Holds ((pieces b path argv low).foldl write m) (s.piece (position b path argv k)) :=
  holds_of_apart hs (fun m => holds_write m _) (fun _ _ hu hne => h.apart hu hs hne)

theorem Fits.handedOver (h : Fits path argv)
    (hsize : b.size = needed path argv + padding (needed path argv))
    (hroom : b.base + needed path argv ≤ wordSize) :
    HandedOver b ((pieces b path argv low).foldl write m) path argv where
  strings k s hs := by
    rw [pointer_of_some hroom hs]
    exact h.rising.holds hs
  null := by
    rw [pointer_eq hroom (Nat.le_refl _), if_neg (Nat.not_succ_le_self _)]
  inside k s hs := by
    rw [pointer_of_some hroom hs, Piece.Within, CStr.stop_piece, hsize]
    exact ⟨le_position b path argv k, h.position_add_le_size hs⟩
  apart k s k' s' hs hs' hne := by
    rw [pointer_of_some hroom hs, pointer_of_some hroom hs']
    exact h.rising.apart hs hs' hne

/-- What was read is in the block exactly if no argument is shorter than the one before it and the
last is not longer than the first, but for the padding. -/
theorem marshal_iff (hb : b.size = blockSize path argv) (m : Store) (low : CStr) :
    (∃ m', marshal b m path argv low = .ok m' ∧ HandedOver b m' path argv) ↔ Fits path argv := by
  rw [blockSize_eq] at hb
  by_cases hlt : needed path argv + padding (needed path argv) < wordSize
  · rw [Nat.mod_eq_of_lt hlt] at hb
    have hroom : b.base + needed path argv ≤ wordSize := by
      have := b.room
      omega
    constructor
    · rintro ⟨m', hm', h⟩
      obtain ⟨-, rfl⟩ := (marshal_eq_ok hroom).mp hm'
      exact Fits.of_handedOver hb h (hb ▸ hlt)
    · intro h
      exact ⟨_, (marshal_eq_ok hroom).mpr ⟨h.within hb, rfl⟩, h.handedOver hb hroom⟩
  · -- the size has wrapped, and the strings cannot all be in the block
    refine iff_of_false ?_ (fun h => hlt h.room)
    rintro ⟨m', -, h⟩
    have hle := h.needed_le
    have hpad : padding (needed path argv) < 4 := Nat.mod_lt _ (by decide)
    rw [hb] at hle
    have hmod : (needed path argv + padding (needed path argv)) % wordSize ≤
        needed path argv + padding (needed path argv) - wordSize := by
      rw [Nat.mod_eq_sub_mod (Nat.le_of_not_lt hlt)]
      exact Nat.mod_le _ _
    rw [wordSize] at hmod hlt
    rw [wordSize] at hle
    omega

/-! ## What the caller passed -/

theorem CStr.eq_of_holds {a : Nat} (hs : Holds m (s.piece a)) (ht : Holds m (t.piece a)) : s = t := by
  have hstr : ∀ {u : CStr}, Holds m (u.piece a) → Buffer.StringAt 0 m a u.chars := by
    intro u hu
    have hlen : (u.chars ++ [0]).length = u.chars.length + 1 := by simp
    refine ⟨u.nonzero, fun i c hc => ?_, ?_⟩
    · have hi := (List.getElem?_eq_some_iff.mp hc).1
      have hget := hu i (by rw [CStr.piece, hlen]; omega)
      rw [CStr.piece, List.getElem?_append_left hi, hc] at hget
      exact (Option.some.inj hget).symm
    · have hget := hu u.chars.length (by rw [CStr.piece, hlen]; omega)
      rw [CStr.piece, List.getElem?_concat_length] at hget
      exact (Option.some.inj hget).symm
  have heq := (hstr hs).unique (hstr ht)
  cases s
  cases t
  cases heq
  rfl

section Changed

variable {path' : CStr} {argv' : List CStr}
  (hroom : b.base + needed path' argv' ≤ wordSize)
  (h : HandedOver b ((pieces b path' argv' low).foldl write m) path argv)

include hroom h

theorem length_of_handedOver : argv'.length = argv.length := by
  have hbase := b.base_pos
  rcases Nat.lt_trichotomy argv'.length argv.length with hlt | heq | hlt
  · -- the null pointer would be an argument
    have hs := List.getElem?_eq_getElem (l := path :: argv) (Nat.succ_lt_succ hlt)
    have hin := (h.inside _ _ hs).1
    rw [CStr.piece, pointer_eq hroom (Nat.le_refl _), if_neg (Nat.not_succ_le_self _)] at hin
    dsimp only at hin
    omega
  · exact heq
  · -- an argument would be the null pointer
    have hnull := h.null
    have hle := le_position b path' argv' (argv.length + 1)
    rw [pointer_eq hroom (by omega), if_pos (by omega)] at hnull
    omega

theorem rising_of_handedOver : Rising argv' := by
  have hlen := length_of_handedOver hroom h
  intro k
  induction k using Nat.strong_induction_on with
  | _ k ih =>
    intro s t hs ht
    by_contra hlt
    have hs' : (path' :: argv')[k + 1]? = some s := hs
    have ht' : (path' :: argv')[k + 2]? = some t := ht
    have hk : k + 1 < argv'.length := (List.getElem?_eq_some_iff.mp ht).1
    have hnext : position b path' argv' (k + 2) = _ := position_succ ht
    have htake : (s.chars.take (strlen t + 1)).length = strlen t + 1 := by
      rw [List.length_take]
      exact Nat.min_eq_left (Nat.lt_of_not_le hlt)
    -- the bytes up to the next position are those of this string
    have hholds : Holds ((pieces b path' argv' low).foldl write m)
        ⟨position b path' argv' (k + 1), s.chars.take (strlen t + 1)⟩ := by
      refine holds_of_apart hs' (fun m => ?_) (fun k' u hu hne => ?_)
      · have hprefix := holds_write_take m (s.piece (position b path' argv' (k + 1))) (strlen t + 1)
        rwa [CStr.piece, List.take_append_of_le_length (Nat.lt_of_not_le hlt)] at hprefix
      · rcases Nat.lt_or_gt_of_ne hne with hk' | hk'
        · refine Or.inl ?_
          rw [CStr.stop_piece]
          refine Nat.le_trans (position_add_le hu (by omega) ?_) (position_mono b path' argv' hk')
          rintro i v rfl hv
          exact ih i (by omega) u v hu hv
        · refine Or.inr ?_
          rw [Piece.stop, htake, ← hnext]
          exact position_mono b path' argv' hk'
    -- but the string that should be there ends before
    have hex : ∀ i ≤ argv'.length, ∃ u, (path :: argv)[i]? = some u := fun i hi =>
      ⟨_, List.getElem?_eq_getElem (by rw [List.length_cons]; omega)⟩
    obtain ⟨u, hu⟩ := hex (k + 1) (by omega)
    obtain ⟨v, hv⟩ := hex (k + 2) (by omega)
    have hapart := h.apart _ _ _ _ hu hv (by omega)
    have hstring := h.strings _ _ hu
    rw [pointer_of_some hroom hs', pointer_of_some hroom ht', Piece.Apart, CStr.stop_piece,
      CStr.stop_piece, CStr.piece, CStr.piece, hnext] at hapart
    rw [pointer_of_some hroom hs'] at hstring
    have hend : strlen u < strlen t + 1 := by
      dsimp only at hapart
      omega
    have hzero := hstring (strlen u) (by rw [CStr.piece, List.length_append]; exact Nat.lt_succ_self _)
    have hchar := hholds (strlen u) (by rw [htake]; exact hend)
    rw [CStr.piece, show strlen u = u.chars.length from rfl, List.getElem?_concat_length] at hzero
    rw [List.getElem?_take_of_lt hend, show strlen u = u.chars.length from rfl] at hchar
    exact s.nonzero (List.mem_of_getElem? (hchar.trans hzero.symm))

/-- **A block hands over what it was filled with**, and nothing else. -/
theorem eq_of_handedOver : (path', argv') = (path, argv) := by
  have hlen := length_of_handedOver hroom h
  have hrising := rising_of_handedOver hroom h
  have hall : path' :: argv' = path :: argv := by
    apply List.ext_getElem (by simp [hlen])
    intro k hk hk'
    have hs := List.getElem?_eq_getElem hk
    have hstring := h.strings k _ (List.getElem?_eq_getElem hk')
    rw [pointer_of_some hroom hs] at hstring
    exact CStr.eq_of_holds (hrising.holds hs) hstring
  cases hall
  rfl

end Changed

end Copying

def shortArg : CStr := ⟨[97], by decide⟩

def longArg : CStr := ⟨[98, 99, 100], by decide⟩

theorem blockAt_room (n : Nat) : 0 < (if n < 0x80000000 then 0x80000000 else 1) ∧
    (if n < 0x80000000 then 0x80000000 else 1) + n % wordSize ≤ wordSize := by
  rw [wordSize]
  split <;> omega

def blockAt (n : Nat) : Block where
  base := if n < 0x80000000 then 0x80000000 else 1
  size := n % wordSize
  base_pos := (blockAt_room n).1
  room := (blockAt_room n).2

/-- A task that has a path and two arguments at `0x1000`, in memory of the kernel, and a copy of
that page among its own. All files are programs without segments. -/
def launcher (first : List UInt8) : Caller :=
  { shell with
    mm := { shell.mm with
      dirs := fun _ => { tables := fun i => if i = 256 then 1 else if i = 0 then 2 else 0 }
      tables := fun i =>
        if i = 2 then { pages := fun j => if j = 1 then { present := true, frame := 6 } else {} }
        else { shell.mm.tables i with pagesInfo := fun _ => { commited := true } }
      mem := fun _ i => ([97, 0, 0, 0, 16, 16, 0, 0, 20, 16, 0, 0, 0, 0, 0, 0] ++ first ++
        [97, 0]).getD i 0
      vfsRead := fun _ _ n => ([0x7F, 0x45, 0x4C, 0x46, (1 : UInt8)] ++ List.replicate 22 0 ++ [64] ++
        List.replicate 24 0).take n } }

theorem fits_equal : Fits shortArg [shortArg, shortArg] := by
  refine ⟨by decide, ?_, ?_⟩
  · intro k s t hs ht
    rw [List.eq_of_mem_replicate (n := 2) (List.mem_of_getElem? hs),
      List.eq_of_mem_replicate (n := 2) (List.mem_of_getElem? ht)]
  · rintro s t ⟨⟩ ⟨⟩
    exact Nat.le_add_right _ _

end Hydrax.ExecArgs
