import Hydrax.Buffer
import Hydrax.Machine

/-!
# Symbols of a linker map

`tools/src/symclean/main.c` goes through a linker map line by line and writes a record for each line
that has an address from column 18 on and the name of a symbol from column 50 on. All lines are read
to the same array, and the columns are looked at even where the line has ended before.

* `mainLoop_eq` — the loop takes the lines of the file one after the other,
* `lineStep_own` — a line with both fields makes its record,
* `records_iff` — the records are those of the lines exactly when no line is taken for one with
  both fields because of what earlier lines have left in the array.
-/

namespace Hydrax.Symclean

open Loop
open Function (update update_of_ne update_self)

/-- The size of `buff`. -/
def buffSize : Nat := 1024

/-- The size of `symname`. -/
def symnameSize : Nat := 100

def newline : Char := Char.ofNat 10

/-- A record of the output: four bytes for the address, and all of `symname`. -/
structure Record where
  addr : Nat
  symname : List Char
  deriving DecidableEq

/-- The two arrays, and what was written. `buff` is static, and nothing initialises `symname`. -/
structure State where
  buff : Nat → Char := fun _ => Buffer.null
  symname : Nat → Char
  out : List Record := []

/-! ## The program -/

/-- "buff[p] = c". -/
def store (buff : Nat → Char) (p : Nat) (c : Char) : Except Stop (Nat → Char) :=
  if p < buffSize then .ok (update buff p c) else .error .outOfBounds

/-- The loop of `readline`, and the null behind the line: the array, and the rest of the file. -/
def readChars : List Char → Nat → (Nat → Char) → Except Stop ((Nat → Char) × List Char)
  | [], p, buff => do return (← store buff p Buffer.null, [])
  | c :: f, p, buff =>
    if c = newline then do return (← store buff p Buffer.null, f)
    else do
      let buff ← store buff p c
      readChars f (p + 1) buff

/-- `readline`, or `none` at the end of the file. -/
def readline (f : List Char) (buff : Nat → Char) :
    Except Stop (Option ((Nat → Char) × List Char)) :=
  if f = [] then .ok none else do return some (← readChars f 0 buff)

/-- The string at "&buff[p]". -/
def stringFrom (buff : Nat → Char) (p : Nat) : Except Stop (List Char) :=
  match Buffer.read Buffer.null buff (buffSize - p) p with
  | some s => .ok s
  | none => .error .outOfBounds

def isValidSymbol (sym : List Char) : Bool :=
  if sym = [] then false
  else if sym.length < 2 then false
  else sym.all (fun c => !(c == '.' || c == '/' || c == '='))

def hexDigits : List Char :=
  ['0', '1', '2', '3', '4', '5', '6', '7', '8', '9', 'a', 'b', 'c', 'd', 'e', 'f']

def isValidAddress (addr : List Char) : Bool :=
  if addr = [] then false else addr.all (fun c => hexDigits.contains c)

/-- What "%x" reads. A number that is too long for an `unsigned int` is cut. -/
def scanHex (s : List Char) : Nat :=
  s.foldl (fun n c => 16 * n + hexDigits.idxOf c) 0 % wordSize

/-- The body of the loop of `main`. -/
def processLine (s : State) : Except Stop State := do
  let s := { s with buff := update s.buff 34 Buffer.null }
  let addr ← stringFrom s.buff 18
  if isValidAddress addr then
    let sym ← stringFrom s.buff 50
    if isValidSymbol sym then
      -- "strcpy(symname, &buff[50])"
      if sym.length < symnameSize then
        let symname := Buffer.put s.symname 0 (sym ++ [Buffer.null])
        let record := ⟨scanHex addr, (List.range symnameSize).map symname⟩
        .ok { s with symname := symname, out := s.out ++ [record] }
      else .error .outOfBounds
    else .ok s
  else .ok s

/-- "while (!readline(fin))". -/
def mainLoop : Nat → List Char → State → Except Stop State
  | 0, _, _ => .error .hang
  | fuel + 1, f, s => do
      match ← readline f s.buff with
      | none => return s
      | some (buff, f) =>
        let s ← processLine { s with buff := buff }
        mainLoop fuel f s

/-- `main`: what it writes. The input may be missing, and `stack` is what `symname` held before. -/
def main (fuel : Nat) (fin : Option (List Char)) (stack : Nat → Char) :
    Except Stop (List Record) :=
  match fin with
  | none => .ok []
  | some f => do
      let s ← mainLoop fuel f { symname := stack }
      return s.out

/-! ## What it should write -/

/-- The lines of a file. The last one may lack its end. -/
def lines : List Char → List (List Char)
  | [] => []
  | c :: f =>
    if c = newline then [] :: lines f
    else
      match lines f with
      | [] => [[c]]
      | line :: rest => (c :: line) :: rest

/-- **The symbol of a line**: all of columns 18 to 33 are hexadecimal digits, and the string from
column 50 on is the name of a symbol. -/
def own (line : List Char) : Option (Nat × List Char) :=
  let addr := (line.drop 18).take 16
  let name := (line.drop 50).takeWhile (· ≠ Buffer.null)
  if addr.length = 16 ∧ isValidAddress addr ∧ isValidSymbol name then some (scanHex addr, name)
  else none

def Record.entry (r : Record) : Nat × List Char :=
  (r.addr, r.symname.takeWhile (· ≠ Buffer.null))

def lineBuffer (buff : Nat → Char) (line : List Char) : Nat → Char :=
  update (Buffer.put buff 0 (line ++ [Buffer.null])) 34 Buffer.null

def accepts (buff : Nat → Char) : Bool :=
  match stringFrom buff 18, stringFrom buff 50 with
  | .ok addr, .ok sym => isValidAddress addr && isValidSymbol sym
  | _, _ => false

def tested (buff : Nat → Char) : List (List Char) → List (List Char × (Nat → Char))
  | [] => []
  | line :: rest => (line, lineBuffer buff line) :: tested (lineBuffer buff line) rest

/-! ## Lines -/

section Lines

variable {f : List Char} {buff : Nat → Char} {p : Nat}

theorem lines_eq (hf : f ≠ []) : lines f =
    f.takeWhile (· ≠ newline) :: lines (f.dropWhile (· ≠ newline)).tail := by
  induction f with
  | nil => exact absurd rfl hf
  | cons c f ih =>
    rw [lines]
    by_cases hc : c = newline
    · simp [hc]
    · rw [if_neg hc, List.takeWhile_cons_of_pos (by simpa using hc),
        List.dropWhile_cons_of_pos (by simpa using hc)]
      cases f with
      | nil => rfl
      | cons d f => rw [ih (List.cons_ne_nil d f)]

theorem readChars_eq (h : p + (f.takeWhile (· ≠ newline)).length < buffSize) :
    readChars f p buff = .ok (Buffer.put buff p (f.takeWhile (· ≠ newline) ++ [Buffer.null]),
      (f.dropWhile (· ≠ newline)).tail) := by
  have hp : p < buffSize := Nat.lt_of_le_of_lt (Nat.le_add_right ..) h
  induction f generalizing p buff with
  | nil =>
    rw [readChars, store, if_pos hp]
    rfl
  | cons c f ih =>
    rw [readChars, store, if_pos hp]
    by_cases hc : c = newline
    · rw [if_pos hc, List.takeWhile_cons_of_neg (by simpa using hc),
        List.dropWhile_cons_of_neg (by simpa using hc)]
      rfl
    · rw [List.takeWhile_cons_of_pos (by simpa using hc), List.length_cons] at h
      rw [if_neg hc, store, if_pos hp, List.takeWhile_cons_of_pos (by simpa using hc),
        List.dropWhile_cons_of_pos (by simpa using hc)]
      exact ih (by omega) (by omega)

def lineStep (s : State) (line : List Char) : Except Stop State :=
  processLine { s with buff := Buffer.put s.buff 0 (line ++ [Buffer.null]) }

theorem mainLoop_eq {fuel : Nat} (hfuel : f.length < fuel)
    (hlines : ∀ line ∈ lines f, line.length < buffSize) (s : State) :
    mainLoop fuel f s = (lines f).foldlM lineStep s := by
  induction fuel generalizing f s with
  | zero => cases hfuel
  | succ fuel ih =>
    rw [mainLoop, readline]
    by_cases hf : f = []
    · rw [if_pos hf, hf]
      rfl
    · rw [lines_eq hf, List.forall_mem_cons] at hlines
      have hread := @readChars_eq f s.buff 0 (by simpa using hlines.1)
      have hshort : (f.dropWhile (· ≠ newline)).tail.length < fuel := by
        have := (List.dropWhile_sublist (l := f) (· ≠ newline)).length_le
        have := List.length_pos_iff.mpr hf
        rw [List.length_tail]
        omega
      rw [if_neg hf, hread, lines_eq hf, List.foldlM_cons]
      exact congrArg (processLine _ >>= ·) (funext fun s => ih hshort hlines.2 s)

end Lines

/-! ## One line -/

section Line

variable {s s' : State} {buff : Nat → Char} {line addr sym : List Char} {p : Nat}

theorem lineBuffer_last (hbuff : buff 1023 = Buffer.null) (hline : line.length < buffSize) :
    lineBuffer buff line 1023 = Buffer.null := by
  rw [lineBuffer, update_of_ne (by decide)]
  by_cases hlast : line.length = 1023
  · have hends := (Buffer.put_add (m := buff) (p := 0) (s := line ++ [Buffer.null]) line.length)
    rw [Nat.zero_add, List.getElem?_concat_length, hlast] at hends
    exact hends
  · have hlt : line.length < 1024 := hline
    rw [Buffer.put_of_ge (by simp; omega), hbuff]

theorem stringFrom_eq (h : Buffer.StringAt Buffer.null buff p sym)
    (hsym : p + sym.length < buffSize) : stringFrom buff p = .ok sym := by
  rw [stringFrom, h.read_eq (Nat.lt_sub_of_add_lt (Nat.add_comm p _ ▸ hsym))]

theorem stringFrom_ok (h : buff 1023 = Buffer.null) (hp : p ≤ 1023) :
    ∃ s, stringFrom buff p = .ok s := by
  have hplace : p + (1023 - p) = 1023 := by omega
  have hreach : 1023 - p < buffSize - p := by
    have : buffSize = 1024 := rfl
    omega
  obtain ⟨s, hs⟩ := Buffer.exists_read_eq (hplace ▸ h) hreach
  exact ⟨s, by rw [stringFrom, hs]⟩

theorem lineStep_eq (haddr : stringFrom (lineBuffer s.buff line) 18 = .ok addr)
    (hsym : stringFrom (lineBuffer s.buff line) 50 = .ok sym) :
    lineStep s line =
      if isValidAddress addr && isValidSymbol sym then
        if sym.length < symnameSize then
          let symname := Buffer.put s.symname 0 (sym ++ [Buffer.null])
          let record := ⟨scanHex addr, (List.range symnameSize).map symname⟩
          .ok { buff := lineBuffer s.buff line, symname := symname, out := s.out ++ [record] }
        else .error .outOfBounds
      else .ok { s with buff := lineBuffer s.buff line } := by
  rw [lineBuffer] at haddr hsym
  rw [lineStep, processLine]
  dsimp only
  rw [haddr, ok_bind, hsym, lineBuffer]
  cases isValidAddress addr <;> rfl

theorem lineStep_reject (hbuff : s.buff 1023 = Buffer.null) (hline : line.length < buffSize)
    (h : accepts (lineBuffer s.buff line) = false) :
    lineStep s line = .ok { s with buff := lineBuffer s.buff line } := by
  have hlast := lineBuffer_last hbuff hline
  obtain ⟨addr, haddr⟩ := stringFrom_ok hlast (show 18 ≤ 1023 by decide)
  obtain ⟨sym, hsym⟩ := stringFrom_ok hlast (show 50 ≤ 1023 by decide)
  rw [accepts, haddr, hsym] at h
  rw [lineStep_eq haddr hsym]
  exact if_neg (Bool.not_eq_true _ ▸ h)

theorem lineStep_out (hbuff : s.buff 1023 = Buffer.null) (hline : line.length < buffSize)
    (h : lineStep s line = .ok s') : s'.buff = lineBuffer s.buff line ∧
      s'.out.length = s.out.length + if accepts (lineBuffer s.buff line) then 1 else 0 := by
  have hlast := lineBuffer_last hbuff hline
  obtain ⟨addr, haddr⟩ := stringFrom_ok hlast (show 18 ≤ 1023 by decide)
  obtain ⟨sym, hsym⟩ := stringFrom_ok hlast (show 50 ≤ 1023 by decide)
  rw [lineStep_eq haddr hsym] at h
  rw [accepts, haddr, hsym]
  dsimp only
  split at h
  next haccepts =>
    rw [if_pos haccepts]
    split at h
    next =>
      cases h
      exact ⟨rfl, List.length_append⟩
    next => cases h
  next haccepts =>
    rw [if_neg haccepts]
    cases h
    exact ⟨rfl, rfl⟩

theorem null_notMem_of_valid (h : isValidAddress addr = true) : Buffer.null ∉ addr := by
  have hdigits : hexDigits.contains Buffer.null = false := by decide
  rw [isValidAddress] at h
  split at h
  next => cases h
  next =>
    intro hnull
    have hmem := List.all_eq_true.mp h _ hnull
    rw [hdigits] at hmem
    cases hmem

theorem lineStep_own {e : Nat × List Char} (hline : line.length < buffSize)
    (hown : own line = some e) (hname : e.2.length < symnameSize) :
    accepts (lineBuffer s.buff line) = true ∧
      ∃ s' r, lineStep s line = .ok s' ∧ s'.buff = lineBuffer s.buff line ∧
        s'.out = s.out ++ [r] ∧ r.entry = e := by
  rw [own] at hown
  split at hown
  next hvalid =>
    cases hown
    obtain ⟨hlen, haddr, hsym⟩ := hvalid
    have hwidth : 50 < line.length := by
      by_contra hshort
      rw [List.drop_eq_nil_of_le (Nat.le_of_not_lt hshort), List.takeWhile_nil] at hsym
      cases hsym
    -- the address ends at the null in column 34, and the name with the line
    have haddrAt : Buffer.StringAt Buffer.null (lineBuffer s.buff line) 18
        ((line.drop 18).take 16) := by
      refine ⟨null_notMem_of_valid haddr, fun i c hc => ?_, ?_⟩
      · have hi : i < 16 := hlen ▸ (List.getElem?_eq_some_iff.mp hc).1
        rw [List.getElem?_take_of_lt hi, List.getElem?_drop] at hc
        have hput := @Buffer.put_add _ s.buff 0 (line ++ [Buffer.null]) (18 + i)
        rw [Nat.zero_add, List.getElem?_append_left (by omega), hc] at hput
        rw [lineBuffer, update_of_ne (by omega), hput]
        rfl
      · rw [hlen, lineBuffer, update_self]
    have hsymAt : Buffer.StringAt Buffer.null (lineBuffer s.buff line) 50
        ((line.drop 50).takeWhile (· ≠ Buffer.null)) := by
      have hput : Buffer.put s.buff 0 (line ++ [Buffer.null]) =
          Buffer.put (Buffer.put s.buff 0 (line.take 50)) 50 (line.drop 50 ++ [Buffer.null]) := by
        have hsplit : line ++ [Buffer.null] = line.take 50 ++ (line.drop 50 ++ [Buffer.null]) := by
          rw [← List.append_assoc, List.take_append_drop]
        rw [hsplit, Buffer.put_append, List.length_take_of_le (Nat.le_of_lt hwidth), Nat.zero_add]
      rw [lineBuffer, hput]
      exact (Buffer.stringAt_takeWhile _ 50 _).congr fun i _ => update_of_ne (by omega) ..
    have hnameLen := (List.takeWhile_sublist (p := (· ≠ Buffer.null)) (l := line.drop 50)).length_le
    rw [List.length_drop] at hnameLen
    have haddrFrom := stringFrom_eq haddrAt (by rw [hlen]; decide)
    have hsymFrom := stringFrom_eq hsymAt (by omega)
    have haccepts : (isValidAddress ((line.drop 18).take 16) &&
        isValidSymbol ((line.drop 50).takeWhile (· ≠ Buffer.null))) = true := by
      rw [haddr, hsym]
      rfl
    refine ⟨by rw [accepts, haddrFrom, hsymFrom]; exact haccepts, ?_⟩
    rw [lineStep_eq haddrFrom hsymFrom, if_pos haccepts, if_pos hname]
    refine ⟨_, _, rfl, rfl, rfl, Prod.ext rfl ?_⟩
    rw [Record.entry, List.range_eq_range']
    exact (Buffer.stringAt_put hsymAt.notMem).takeWhile_eq hname
  next => cases hown

end Line

/-! ## All lines -/

section File

variable {ls : List (List Char)} {s s' : State}

theorem length_out_le (hbuff : s.buff 1023 = Buffer.null)
    (hlines : ∀ line ∈ ls, line.length < buffSize)
    (hnames : ∀ line ∈ ls, ∀ e, own line = some e → e.2.length < symnameSize)
    (h : ls.foldlM lineStep s = .ok s') :
    s.out.length + (ls.filterMap own).length ≤ s'.out.length := by
  induction ls generalizing s with
  | nil =>
    cases h
    exact Nat.le_refl _
  | cons line ls ih =>
    rw [List.forall_mem_cons] at hlines hnames
    rw [List.foldlM_cons, bind_eq_ok] at h
    obtain ⟨s₁, hs₁, hrest⟩ := h
    obtain ⟨hbuff₁, hout⟩ := lineStep_out hbuff hlines.1 hs₁
    have hle := ih (hbuff₁ ▸ lineBuffer_last hbuff hlines.1) hlines.2 hnames.2 hrest
    cases hown : own line with
    | none =>
      rw [List.filterMap_cons_none hown]
      omega
    | some e =>
      have haccepts := (@lineStep_own s line e hlines.1 hown (hnames.1 e hown)).1
      rw [haccepts, if_pos rfl] at hout
      rw [List.filterMap_cons_some hown, List.length_cons]
      omega

/-- By induction on the lines. A line that is accepted without a symbol of its own makes one record
too many, and no later line makes up for it. -/
theorem foldlM_records_iff (hbuff : s.buff 1023 = Buffer.null)
    (hlines : ∀ line ∈ ls, line.length < buffSize)
    (hnames : ∀ line ∈ ls, ∀ e, own line = some e → e.2.length < symnameSize) :
    (∃ s', ls.foldlM lineStep s = .ok s' ∧
      s'.out.map Record.entry = s.out.map Record.entry ++ ls.filterMap own) ↔
    ∀ x ∈ tested s.buff ls, own x.1 = none → accepts x.2 = false := by
  induction ls generalizing s with
  | nil => exact ⟨fun _ _ hx => absurd hx List.not_mem_nil, fun _ => ⟨s, rfl, by simp⟩⟩
  | cons line ls ih =>
    rw [List.forall_mem_cons] at hlines hnames
    have hlast := lineBuffer_last hbuff hlines.1
    rw [tested, List.forall_mem_cons, List.foldlM_cons]
    cases hown : own line with
    | some e =>
      obtain ⟨-, s₁, r, hs₁, hbuff₁, hout, hentry⟩ :=
        @lineStep_own s line e hlines.1 hown (hnames.1 e hown)
      have hrest := @ih s₁ (hbuff₁ ▸ hlast) hlines.2 hnames.2
      rw [hout, hbuff₁, List.map_append, List.map_singleton, hentry, List.append_assoc,
        List.singleton_append] at hrest
      rw [hs₁, ok_bind, List.filterMap_cons_some hown, hrest]
      simp
    | none =>
      rw [List.filterMap_cons_none hown]
      cases haccepts : accepts (lineBuffer s.buff line) with
      | false =>
        rw [lineStep_reject hbuff hlines.1 haccepts, ok_bind,
          @ih { s with buff := lineBuffer s.buff line } hlast hlines.2 hnames.2]
        simp
      | true =>
        refine ⟨?_, fun h => absurd (h.1 rfl) (by simp)⟩
        rintro ⟨s', h, hentries⟩
        rw [bind_eq_ok] at h
        obtain ⟨s₁, hs₁, hrest⟩ := h
        obtain ⟨hbuff₁, hout⟩ := lineStep_out hbuff hlines.1 hs₁
        have hle := length_out_le (hbuff₁ ▸ hlast) hlines.2 hnames.2 hrest
        have hlength := congrArg List.length hentries
        rw [List.length_append, List.length_map, List.length_map] at hlength
        rw [haccepts, if_pos rfl] at hout
        omega

end File

/-- **The records of a map** are those of its lines exactly when no line without both fields is
accepted. -/
theorem records_iff (file : List Char) (stack : Nat → Char) (fuel : Nat)
    (hfuel : file.length < fuel) (hlines : ∀ line ∈ lines file, line.length < buffSize)
    (hnames : ∀ line ∈ lines file, ∀ e, own line = some e → e.2.length < symnameSize) :
    (∃ records, main fuel (some file) stack = .ok records ∧
      records.map Record.entry = (lines file).filterMap own) ↔
    ∀ x ∈ tested (fun _ => Buffer.null) (lines file), own x.1 = none → accepts x.2 = false := by
  rw [← @foldlM_records_iff _ { symname := stack } rfl hlines hnames, main,
    mainLoop_eq hfuel hlines]
  constructor
  · rintro ⟨records, h, hentries⟩
    rw [bind_eq_ok] at h
    obtain ⟨s', hs', hout⟩ := h
    cases hout
    exact ⟨s', hs', hentries⟩
  · rintro ⟨s', hs', hentries⟩
    exact ⟨s'.out, by rw [hs']; rfl, hentries⟩

/-- A line with the address 0x1000 and the name "ab". -/
def sampleLine : List Char :=
  List.replicate 18 ' ' ++ List.replicate 12 '0' ++ ['1', '0', '0', '0'] ++
    List.replicate 16 ' ' ++ ['a', 'b']

def sampleFile : List Char :=
  "SYMBOL TABLE:".toList ++ newline :: sampleLine ++ newline :: sampleLine ++ ['c', newline]

theorem records_iff_sample : (lines sampleFile).filterMap own =
      [(0x1000, ['a', 'b']), (0x1000, ['a', 'b', 'c'])] ∧
    ∃ records, main 200 (some sampleFile) (fun _ => 'x') = .ok records ∧
      records.map Record.entry = (lines sampleFile).filterMap own :=
  ⟨by decide +kernel,
    (records_iff _ _ 200 (by decide) (by decide) (by decide)).mpr (by decide +kernel)⟩

/-- An empty line behind it makes the same record once more. -/
theorem main_repeats_symbol :
    (main 100 (some (sampleLine ++ [newline, newline])) (fun _ => 'x')).map
        (List.map Record.entry) = .ok [(0x1000, ['a', 'b']), (0x1000, ['a', 'b'])] ∧
      lines (sampleLine ++ [newline, newline]) = [sampleLine, []] ∧
      [sampleLine, []].filterMap own = [(0x1000, ['a', 'b'])] := by
  decide +kernel

end Hydrax.Symclean
