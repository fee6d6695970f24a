import Hydrax.Buffer
import Hydrax.Digits
import Hydrax.Machine

/-!
# Formatted output

`kvprintf` of `kernel/printk.c` and its copy in `libs/stdio.c`, with `itoa` and `itox` of
`kernel/string.c`. A format is a null-terminated string, and the arguments are the words above it on
the stack.

`printed` says what a format stands for: its text, with each conversion replaced by its argument.
The conversion `%c` does not go on to the rest of the format, so the loop stays at it for ever, and
`itoa` takes a negative number for an unsigned one. In all other cases `kvprintf` writes what it
should (`kvprintf_printed_iff`). The buffer of `itoa` holds the numeral of a positive number
(`itoaTo_numeral`).
-/

namespace Hydrax.Printk

/-- The words that `va_arg` returns one after the other, and the string at each address. -/
structure VaList where
  word : Nat → Nat
  string : Nat → List Char
  word_lt : ∀ k, word k < wordSize

/-! ## Numbers -/

/-- `itoa`, with the argument as the unsigned number it is used as. The ten digits are followed by a
null character, and those behind the zeros in front are moved to the front. -/
def itoa (val : Nat) : List Char :=
  if val = 0 then []
  else
    ((Digits.fromTop 10 10 1000000000 val).map (fun i => Char.ofNat ('0'.toNat + i))).dropWhile
      (· == '0')

def itox (val : Nat) : List Char :=
  if val = 0 then ['0']
  else
    (Digits.fromTop 16 8 0x10000000 val).map
      (fun i => Char.ofNat ('0'.toNat + if i ≥ 0xA then i + 7 else i))

/-! ## The loop -/

/-- The loop of `kvprintf` over the format, from argument `k` on. `writeString` puts a string of the
caller behind what was written so far. -/
def printLoop (writeString : List Char → List Char → List Char) (args : VaList) :
    Nat → List Char → Nat → List Char → Except Stop (List Char)
  | 0, _, _, _ => .error .hang
  | _ + 1, [], _, out => .ok out
  | fuel + 1, c :: fmt, k, out =>
    let next := printLoop writeString args fuel
    if c ≠ '%' then next fmt k (out ++ [c])
    else
      match fmt with
      | 'x' :: fmt =>
        let u := args.word k
        next fmt (k + 1) (out ++ if u ≠ 0 then itox u else ['0'])
      | 'c' :: fmt =>
        -- no "fmt += 2" here
        next (c :: 'c' :: fmt) (k + 1) (out ++ [Char.ofNat (args.word k % 256)])
      | 'i' :: fmt =>
        let i := args.word k
        next fmt (k + 1) (out ++ if i ≠ 0 then itoa i else ['0'])
      | 's' :: fmt => next fmt (k + 1) (writeString out (args.string (args.word k)))
      | fmt => next fmt k (out ++ [c])

/-- `kvprintf` of the kernel, which writes to the console. -/
def kvprintf (args : VaList) (fuel : Nat) (fmt : List Char) : Except Stop (List Char) :=
  printLoop (fun out s => out ++ s) args fuel fmt 0 []

/-- `kvprintf` of `libs/stdio.c`, which writes to the standard output. A string goes there one
character at a time. The `itoa` and `itox` of `libs/string.c` are disabled by an `#if 0`, so those
of the kernel are called. -/
def stdioKvprintf (args : VaList) (fuel : Nat) (fmt : List Char) : Except Stop (List Char) :=
  printLoop (fun out s => s.foldl (fun out c => out ++ [c]) out) args fuel fmt 0 []

/-! ## What a format stands for -/

/-- A conversion that `kvprintf` knows. -/
inductive Conversion where
  | hex
  | char
  | int
  | string
  deriving DecidableEq

def Conversion.ofChar : Char → Option Conversion
  | 'x' => some .hex
  | 'c' => some .char
  | 'i' => some .int
  | 's' => some .string
  | _ => none

def hexChar (d : Nat) : Char := if d < 10 then Char.ofNat (48 + d) else Char.ofNat (55 + d)

/-- The rendering of a word: as eight hexadecimal digits, as a character, as a signed decimal number,
or as the string it points to. -/
def render (args : VaList) (w : Nat) : Conversion → List Char
  | .hex => if w = 0 then ['0'] else (List.range 8).map (fun j => hexChar (w / 16 ^ (7 - j) % 16))
  | .char => [Char.ofNat (w % 256)]
  | .int => if w < 2 ^ 31 then Nat.toDigits 10 w else '-' :: Nat.toDigits 10 (2 ^ 32 - w)
  | .string => args.string w

/-- A format with each conversion replaced: `r k conv` is put for conversion `k`. -/
def expand (r : Nat → Conversion → List Char) : List Char → Nat → List Char
  | [], _ => []
  | c :: fmt, k =>
    if c ≠ '%' then c :: expand r fmt k
    else
      match fmt with
      | [] => ['%']
      | d :: fmt =>
        match Conversion.ofChar d with
        | some conv => r k conv ++ expand r fmt (k + 1)
        | none => '%' :: expand r (d :: fmt) k

/-- **The text that a format stands for.** -/
def printed (args : VaList) (fmt : List Char) : List Char :=
  expand (fun k => render args (args.word k)) fmt 0

def conversions : List Char → List Conversion
  | [] => []
  | c :: fmt =>
    if c ≠ '%' then conversions fmt
    else
      match fmt with
      | [] => []
      | d :: fmt =>
        match Conversion.ofChar d with
        | some conv => conv :: conversions fmt
        | none => conversions (d :: fmt)

/-! ## Numbers -/

theorem mem_fromTop_lt {base l n d : Nat} (hbase : 0 < base) (h : n < base ^ (l + 1))
    (hd : d ∈ Digits.fromTop base (l + 1) (base ^ l) n) : d < base := by
  rw [Digits.fromTop_eq hbase h] at hd
  obtain ⟨j, -, rfl⟩ := List.mem_map.mp hd
  exact Nat.mod_lt _ hbase

theorem itoa_eq {w : Nat} (hpos : w ≠ 0) (hw : w < wordSize) : itoa w = Nat.toDigits 10 w := by
  have hlt : w < 10 ^ (9 + 1) := Nat.lt_trans hw (by decide)
  have hchars : ∀ d < 10, Char.ofNat ('0'.toNat + d) = Nat.digitChar d := by decide
  rw [itoa, if_neg hpos, show 1000000000 = 10 ^ 9 from rfl,
    List.map_congr_left fun d hd => hchars d (mem_fromTop_lt (by decide) hlt hd)]
  exact Digits.dropWhile_fromTop (Nat.pos_of_ne_zero hpos) hlt

theorem itox_eq (args : VaList) {w : Nat} (hpos : w ≠ 0) (hw : w < wordSize) :
    itox w = render args w .hex := by
  have hlt : w < 16 ^ (7 + 1) := Nat.lt_of_lt_of_le hw (by decide)
  have hchars : ∀ d < 16,
      Char.ofNat ('0'.toNat + if d ≥ 0xA then d + 7 else d) = hexChar d := by decide
  rw [itox, if_neg hpos, render, if_neg hpos, show 0x10000000 = 16 ^ 7 from rfl,
    List.map_congr_left fun d hd => hchars d (mem_fromTop_lt (by decide) hlt hd),
    Digits.fromTop_eq (by decide) hlt, List.map_map]
  rfl

/-- What the source writes for an argument: a decimal number is unsigned. -/
def written (args : VaList) (w : Nat) : Conversion → List Char
  | .int => Nat.toDigits 10 w
  | conv => render args w conv

theorem written_int {w : Nat} (hw : w < wordSize) :
    (if w ≠ 0 then itoa w else ['0']) = Nat.toDigits 10 w := by
  split
  next hpos => exact itoa_eq hpos hw
  next hzero =>
    rw [not_not.mp hzero]
    rfl

theorem written_hex (args : VaList) {w : Nat} (hw : w < wordSize) :
    (if w ≠ 0 then itox w else ['0']) = render args w .hex := by
  split
  next hpos => exact itox_eq args hpos hw
  next hzero =>
    rw [not_not.mp hzero]
    rfl

theorem head_toDigits (n : Nat) : ∃ c l, Nat.toDigits 10 n = c :: l ∧ c ≠ '-' := by
  cases h : Nat.toDigits 10 n with
  | nil => simp at h
  | cons c l =>
    refine ⟨c, l, rfl, ?_⟩
    rintro rfl
    have hdigit : '-' ∈ Nat.toDigits 10 n := by simp [h]
    have := Nat.isDigit_of_mem_toDigits (by decide) (by decide) hdigit
    exact absurd this (by decide)

theorem written_eq_or (args : VaList) (w : Nat) (conv : Conversion) :
    (written args w conv = render args w conv ∧ (conv = .int → w < 2 ^ 31)) ∨
      (conv = .int ∧ ¬ w < 2 ^ 31 ∧ ∃ c c' l l', written args w conv = c :: l ∧
        render args w conv = c' :: l' ∧ c ≠ c') := by
  cases conv with
  | hex => exact Or.inl ⟨rfl, fun h => by cases h⟩
  | char => exact Or.inl ⟨rfl, fun h => by cases h⟩
  | string => exact Or.inl ⟨rfl, fun h => by cases h⟩
  | int =>
    by_cases hw : w < 2 ^ 31
    · exact Or.inl ⟨by rw [written, render, if_pos hw], fun _ => hw⟩
    · obtain ⟨c, l, hl, hc⟩ := head_toDigits w
      exact Or.inr ⟨rfl, hw, c, '-', l, _, hl, by rw [render, if_neg hw], hc⟩

/-! ## The parts of a format -/

/-- How a format is read: character by character, but for a conversion. -/
inductive Parsed : List Char → Prop where
  | nil : Parsed []
  | plain {c : Char} {fmt : List Char} (hc : c ≠ '%') (rest : Parsed fmt) : Parsed (c :: fmt)
  | trailing : Parsed ['%']
  | conversion {d : Char} {fmt : List Char} {conv : Conversion}
      (hd : Conversion.ofChar d = some conv) (rest : Parsed fmt) : Parsed ('%' :: d :: fmt)
  | unknown {d : Char} {fmt : List Char} (hd : Conversion.ofChar d = none)
      (rest : Parsed (d :: fmt)) : Parsed ('%' :: d :: fmt)

theorem parsed (fmt : List Char) : Parsed fmt := by
  fun_induction conversions fmt with
  | case1 => exact .nil
  | case2 c fmt hc ih => exact .plain hc ih
  | case3 c hc =>
    rw [not_not.mp hc]
    exact .trailing
  | case4 c hc d fmt conv hd ih =>
    rw [not_not.mp hc]
    exact .conversion hd ih
  | case5 c hc d fmt hd ih =>
    rw [not_not.mp hc]
    exact .unknown hd ih

section Parts

variable {r : Nat → Conversion → List Char} {k : Nat} {c d : Char} {fmt : List Char}
  {conv : Conversion}

theorem conversions_plain (hc : c ≠ '%') : conversions (c :: fmt) = conversions fmt := by
  rw [conversions.eq_def]
  exact if_pos hc

theorem conversions_conversion (hd : Conversion.ofChar d = some conv) :
    conversions ('%' :: d :: fmt) = conv :: conversions fmt := by
  simp [conversions, hd]

theorem conversions_unknown (hd : Conversion.ofChar d = none) :
    conversions ('%' :: d :: fmt) = conversions (d :: fmt) := by
  rw [conversions]
  simp [hd]

theorem expand_plain (hc : c ≠ '%') : expand r (c :: fmt) k = c :: expand r fmt k := by
  rw [expand.eq_def]
  exact if_pos hc

theorem expand_conversion (hd : Conversion.ofChar d = some conv) :
    expand r ('%' :: d :: fmt) k = r k conv ++ expand r fmt (k + 1) := by
  simp [expand, hd]

theorem expand_unknown (hd : Conversion.ofChar d = none) :
    expand r ('%' :: d :: fmt) k = '%' :: expand r (d :: fmt) k := by
  rw [expand]
  simp [hd]

end Parts

/-! ## The loop -/

section Loop

variable {ws : List Char → List Char → List Char} {args : VaList} {fuel k : Nat} {c d : Char}
  {fmt out : List Char} {conv : Conversion}

theorem printLoop_plain (hc : c ≠ '%') : printLoop ws args (fuel + 1) (c :: fmt) k out =
    printLoop ws args fuel fmt k (out ++ [c]) := if_pos hc

theorem printLoop_trailing : printLoop ws args (fuel + 1) ['%'] k out =
    printLoop ws args fuel [] k (out ++ ['%']) := rfl

theorem printLoop_unknown (hd : Conversion.ofChar d = none) :
    printLoop ws args (fuel + 1) ('%' :: d :: fmt) k out =
      printLoop ws args fuel (d :: fmt) k (out ++ ['%']) := by
  rw [printLoop, if_neg (not_not.mpr rfl)]
  · rintro _ ⟨⟩
    cases hd
  · rintro _ ⟨⟩
    cases hd
  · rintro _ ⟨⟩
    cases hd
  · rintro _ ⟨⟩
    cases hd

theorem printLoop_char (hd : Conversion.ofChar d = some .char) :
    printLoop ws args (fuel + 1) ('%' :: d :: fmt) k out =
      printLoop ws args fuel ('%' :: d :: fmt) (k + 1)
        (out ++ [Char.ofNat (args.word k % 256)]) := by
  unfold Conversion.ofChar at hd
  split at hd
  case h_2 => rfl
  all_goals cases hd

theorem printLoop_conversion (hws : ∀ out s, ws out s = out ++ s)
    (hd : Conversion.ofChar d = some conv) (hconv : conv ≠ .char) :
    printLoop ws args (fuel + 1) ('%' :: d :: fmt) k out =
      printLoop ws args fuel fmt (k + 1) (out ++ written args (args.word k) conv) := by
  have hw := args.word_lt k
  unfold Conversion.ofChar at hd
  split at hd
  case h_1 =>
    cases hd
    show _ = printLoop ws args fuel fmt (k + 1) (out ++ render args (args.word k) .hex)
    rw [← written_hex args hw]
    rfl
  case h_2 =>
    cases hd
    exact absurd rfl hconv
  case h_3 =>
    cases hd
    rw [written, ← written_int hw]
    rfl
  case h_4 =>
    cases hd
    show _ = printLoop ws args fuel fmt (k + 1) (out ++ args.string (args.word k))
    rw [← hws]
    rfl
  case h_5 => cases hd

theorem printLoop_of_char (hws : ∀ out s, ws out s = out ++ s) (h : .char ∈ conversions fmt) :
    printLoop ws args fuel fmt k out = .error .hang := by
  induction fuel generalizing fmt k out with
  | zero => rfl
  | succ fuel ih =>
    cases parsed fmt with
    | nil => cases h
    | plain hc _ =>
      rw [conversions_plain hc] at h
      rw [printLoop_plain hc]
      exact ih h
    | trailing => cases h
    | @conversion d fmt conv hd _ =>
      by_cases hconv : conv = .char
      · subst hconv
        rw [printLoop_char hd]
        exact ih h
      · rw [conversions_conversion hd, List.mem_cons] at h
        rw [printLoop_conversion hws hd hconv]
        exact ih (h.resolve_left (Ne.symm hconv))
    | unknown hd _ =>
      rw [conversions_unknown hd] at h
      rw [printLoop_unknown hd]
      exact ih h

/-- **Any other format is finished**, with each conversion replaced once. Its length bounds the number
of rounds. -/
theorem printLoop_eq_or (hws : ∀ out s, ws out s = out ++ s) (h : .char ∉ conversions fmt) :
    printLoop ws args fuel fmt k out =
        .ok (out ++ expand (fun k => written args (args.word k)) fmt k) ∨
      fuel ≤ fmt.length ∧ printLoop ws args fuel fmt k out = .error .hang := by
  induction fuel generalizing fmt k out with
  | zero => exact Or.inr ⟨Nat.zero_le _, rfl⟩
  | succ fuel ih =>
    cases parsed fmt with
    | nil =>
      rw [expand, List.append_nil]
      exact Or.inl rfl
    | plain hc _ =>
      rw [conversions_plain hc] at h
      rw [expand_plain hc, List.append_cons, printLoop_plain hc]
      exact (ih h).imp_right (And.imp_left Nat.succ_le_succ)
    | trailing =>
      have hnil : .char ∉ conversions [] := h
      rw [expand, if_neg (not_not.mpr rfl), List.append_cons, printLoop_trailing]
      exact (ih hnil).imp_right (And.imp_left Nat.succ_le_succ)
    | @conversion d fmt conv hd _ =>
      rw [conversions_conversion hd, List.mem_cons, not_or] at h
      rw [printLoop_conversion hws hd (Ne.symm h.1), expand_conversion hd, ← List.append_assoc]
      exact (ih h.2).imp_right (And.imp_left fun h' => Nat.succ_le_succ (Nat.le_succ_of_le h'))
    | unknown hd _ =>
      rw [conversions_unknown hd] at h
      rw [expand_unknown hd, List.append_cons, printLoop_unknown hd]
      exact (ih h).imp_right (And.imp_left Nat.succ_le_succ)

end Loop

/-! ## What is written and what should be -/

/-- The conversions of a format, from argument `k` on, that are written as they should be. -/
def Faithful (args : VaList) (k : Nat) (convs : List Conversion) : Prop :=
  ∀ j conv, convs[j]? = some conv → conv = .int → args.word (k + j) < 2 ^ 31

theorem faithful_nil (args : VaList) (k : Nat) : Faithful args k [] := by
  rintro j conv ⟨⟩

theorem faithful_cons {args : VaList} {k : Nat} {conv : Conversion} {convs : List Conversion} :
    Faithful args k (conv :: convs) ↔
      (conv = .int → args.word k < 2 ^ 31) ∧ Faithful args (k + 1) convs := by
  constructor
  · intro h
    refine ⟨h 0 conv rfl, fun j conv' hj => ?_⟩
    rw [Nat.add_right_comm]
    exact h (j + 1) conv' hj
  · rintro ⟨hhead, htail⟩ j conv' hj
    cases j with
    | zero =>
      cases hj
      exact hhead
    | succ j =>
      rw [← Nat.add_assoc, Nat.add_right_comm]
      exact htail j conv' hj

theorem expand_written_iff {args : VaList} {k : Nat} {fmt : List Char} :
    expand (fun k => written args (args.word k)) fmt k =
        expand (fun k => render args (args.word k)) fmt k ↔
      Faithful args k (conversions fmt) := by
  induction parsed fmt generalizing k with
  | nil => exact iff_of_true rfl (faithful_nil args k)
  | plain hc _ ih =>
    rw [expand_plain hc, expand_plain hc, conversions_plain hc, List.cons_inj_right]
    exact ih
  | trailing => exact iff_of_true rfl (faithful_nil args k)
  | @conversion d fmt conv hd _ ih =>
    rw [expand_conversion hd, expand_conversion hd, conversions_conversion hd, faithful_cons]
    obtain ⟨heq, hint⟩ | ⟨hconv, hw, c, c', l, l', hl, hl', hne⟩ :=
      written_eq_or args (args.word k) conv
    · rw [heq, List.append_cancel_left_eq, ih, and_iff_right hint]
    · rw [hl, hl']
      refine iff_of_false (fun h => hne (List.cons.inj h).1) fun h => hw (h.1 hconv)
  | unknown hd _ ih =>
    rw [expand_unknown hd, expand_unknown hd, conversions_unknown hd, List.cons_inj_right]
    exact ih

theorem printLoop_printed_iff {ws : List Char → List Char → List Char}
    (hws : ∀ out s, ws out s = out ++ s) (args : VaList) (fmt : List Char) :
    (∃ fuel, printLoop ws args fuel fmt 0 [] = .ok (printed args fmt)) ↔
      .char ∉ conversions fmt ∧ Faithful args 0 (conversions fmt) := by
  by_cases hchar : .char ∈ conversions fmt
  · refine iff_of_false ?_ fun h => h.1 hchar
    rintro ⟨fuel, h⟩
    rw [printLoop_of_char hws hchar] at h
    cases h
  · rw [and_iff_right hchar, ← expand_written_iff]
    have hends : ∀ fuel, printLoop ws args fuel fmt 0 [] =
          .ok ([] ++ expand (fun k => written args (args.word k)) fmt 0) ∨
        fuel ≤ fmt.length ∧ printLoop ws args fuel fmt 0 [] = .error .hang :=
      fun fuel => printLoop_eq_or hws hchar
    constructor
    · rintro ⟨fuel, h⟩
      obtain h' | ⟨-, h'⟩ := hends fuel
      · exact Except.ok.inj (h'.symm.trans h)
      · cases h'.symm.trans h
    · intro h
      obtain h' | ⟨hle, -⟩ := hends (fmt.length + 1)
      · exact ⟨fmt.length + 1, h'.trans (congrArg _ h)⟩
      · exact absurd hle (Nat.not_succ_le_self _)

theorem foldl_append_singleton (out s : List Char) :
    s.foldl (fun out c => out ++ [c]) out = out ++ s := by
  induction s generalizing out with
  | nil => rw [List.foldl_nil, List.append_nil]
  | cons c s ih => rw [List.foldl_cons, ih, ← List.append_cons]

/-- **A format is written as the text it stands for exactly if it has no `%c` and no negative number
is to be written**; with a `%c` the loop never ends. This holds of both copies of `kvprintf`. -/
theorem kvprintf_printed_iff (args : VaList) (fmt : List Char) :
    ((∃ fuel, kvprintf args fuel fmt = .ok (printed args fmt)) ↔
        ∀ j conv, (conversions fmt)[j]? = some conv →
          conv ≠ .char ∧ (conv = .int → args.word j < 2 ^ 31)) ∧
      ((∃ fuel, stdioKvprintf args fuel fmt = .ok (printed args fmt)) ↔
        ∃ fuel, kvprintf args fuel fmt = .ok (printed args fmt)) ∧
      (.char ∈ conversions fmt → ∀ fuel, kvprintf args fuel fmt = .error .hang) := by
  have hplain : ∀ out s : List Char, out ++ s = out ++ s := fun _ _ => rfl
  refine ⟨(printLoop_printed_iff hplain args fmt).trans ⟨?_, ?_⟩,
    (printLoop_printed_iff foldl_append_singleton args fmt).trans
      (printLoop_printed_iff hplain args fmt).symm,
    fun hchar fuel => printLoop_of_char hplain hchar⟩
  · rintro ⟨hchar, hfaithful⟩ j conv hj
    refine ⟨fun hconv => hchar (hconv ▸ List.mem_of_getElem? hj), fun hconv => ?_⟩
    rw [← Nat.zero_add j]
    exact hfaithful j conv hj hconv
  · intro h
    refine ⟨fun hchar => ?_, fun j conv hj hconv => ?_⟩
    · obtain ⟨j, hj⟩ := List.mem_iff_getElem?.mp hchar
      exact (h j .char hj).1 rfl
    · rw [Nat.zero_add]
      exact (h j conv hj).2 hconv

def minusOnes : VaList := ⟨fun _ => 0xFFFFFFFF, fun _ => [], fun _ => by decide⟩

/-- `kvprintf("%c")` does not return, and `kvprintf("%i")` of -1 writes 4294967295. -/
theorem kvprintf_char_hangs :
    (∀ fuel, kvprintf minusOnes fuel ['%', 'c'] = .error .hang) ∧
      kvprintf minusOnes 2 ['%', 'i'] = .ok "4294967295".toList ∧
      printed minusOnes ['%', 'i'] = "-1".toList := by
  refine ⟨fun fuel => printLoop_of_char (fun _ _ => rfl) (by decide), ?_, ?_⟩
  · decide +kernel
  · decide +kernel

/-! ## The buffer of `itoa`

The digits are made and moved in one static array of eleven characters. The loop that moves them also
moves the character behind the array. -/

section Buffer

open Function (update update_of_ne update_self)
open Buffer (StringAt)

/-- The loop over the columns, where `b` goes through the buffer. -/
def itoaDigits : Nat → Nat → Nat → Nat → (Nat → Char) → Nat → Char
  | 0, _, _, _, buff => buff
  | l + 1, digit, val, b, buff =>
    let i := val / digit
    itoaDigits l (digit / 10) (val - i * digit) (b + 1)
      (update buff b (Char.ofNat ('0'.toNat + i)))

/-- "while (buff[i] == '0') i++". -/
def skipZeros (buff : Nat → Char) : Nat → Nat → Except Stop Nat
  | 0, _ => .error .hang
  | fuel + 1, i => if buff i = '0' then skipZeros buff fuel (i + 1) else .ok i

/-- The turns of "*b++ = buff[i++]". -/
def moveLeft : Nat → Nat → Nat → (Nat → Char) → Nat → Char
  | 0, _, _, buff => buff
  | n + 1, b, i, buff => moveLeft n (b + 1) (i + 1) (update buff b (buff i))

/-- `itoa` with the memory from `buff` on. -/
def itoaTo (buff : Nat → Char) (val : Nat) : Except Stop (Nat → Char) :=
  let buff := update buff 0 Buffer.null
  if val = 0 then .ok buff
  else do
    let buff := update (itoaDigits 10 1000000000 val 0 buff) 10 Buffer.null
    let i ← skipZeros buff 11 0
    -- "while (i <= 11)"
    .ok (moveLeft (12 - i) 0 i buff)

/-- "strcpy(procfs_node->name, itoa(new_tid))" of `fork`: the buffer of `itoa`, and the name. -/
def nameNode (buff name : Nat → Char) (newTid : Nat) :
    Except Stop ((Nat → Char) × (Nat → Char)) := do
  let buff ← itoaTo buff newTid
  match Buffer.read Buffer.null buff 11 0 with
  | none => .error .outOfBounds
  | some s => .ok (buff, Buffer.put name 0 (s ++ [Buffer.null]))

variable {buff : Nat → Char} {b i p : Nat} {s : List Char}

theorem itoaDigits_eq (l digit val b : Nat) (buff : Nat → Char) :
    itoaDigits l digit val b buff = Buffer.put buff b
      ((Digits.fromTop 10 l digit val).map (fun i => Char.ofNat ('0'.toNat + i))) := by
  induction l generalizing digit val b buff with
  | zero => rfl
  | succ l ih => exact ih ..

theorem skipZeros_eq (h : StringAt Buffer.null buff p s) {fuel : Nat} (hfuel : s.length < fuel) :
    ∃ k, skipZeros buff fuel p = .ok k ∧
      k + (s.dropWhile (· == '0')).length = p + s.length ∧
      StringAt Buffer.null buff k (s.dropWhile (· == '0')) := by
  induction s generalizing p fuel with
  | nil =>
    obtain ⟨fuel, rfl⟩ := Nat.exists_eq_add_of_lt hfuel
    have hnull : buff p ≠ '0' := fun h0 => absurd (h.ends.symm.trans h0) (by decide)
    exact ⟨p, if_neg hnull, rfl, h⟩
  | cons c s ih =>
    rw [List.length_cons] at hfuel ⊢
    obtain ⟨fuel, rfl⟩ : ∃ k, fuel = k + 1 := ⟨fuel - 1, by omega⟩
    rw [skipZeros, h.head.1]
    by_cases hc : c = '0'
    · obtain ⟨k, hk, hlen, hat⟩ := ih h.tail (Nat.lt_of_succ_lt_succ hfuel)
      rw [if_pos hc, List.dropWhile_cons_of_pos (by simpa using hc)]
      exact ⟨k, hk, by omega, hat⟩
    · rw [if_neg hc, List.dropWhile_cons_of_neg (by simpa using hc)]
      exact ⟨p, rfl, rfl, h⟩

theorem moveLeft_apply (n : Nat) (h : b ≤ i) (a : Nat) :
    moveLeft n b i buff a = if b ≤ a ∧ a < b + n then buff (i + (a - b)) else buff a := by
  induction n generalizing b i buff with
  | zero => rw [moveLeft, if_neg (by omega)]
  | succ n ih =>
    rw [moveLeft, ih (Nat.succ_le_succ h)]
    rcases Nat.lt_trichotomy a b with hlt | rfl | hlt
    · rw [if_neg (by omega), if_neg (by omega), update_of_ne (Nat.ne_of_lt hlt)]
    · rw [if_neg (by omega), if_pos (by omega), update_self, Nat.sub_self, Nat.add_zero]
    · rw [update_of_ne (Nat.ne_of_gt hlt), update_of_ne (by omega)]
      simp only [show i + 1 + (a - (b + 1)) = i + (a - b) by omega,
        show b + 1 ≤ a ∧ a < b + 1 + n ↔ b ≤ a ∧ a < b + (n + 1) by omega]

theorem null_notMem_toDigits (val : Nat) : Buffer.null ∉ Nat.toDigits 10 val := fun h =>
  absurd (Nat.isDigit_of_mem_toDigits (by decide) (by decide) h) (by decide)

theorem itoaTo_eq {val : Nat} (hpos : val ≠ 0) (hval : val < wordSize) (buff : Nat → Char) :
    ∃ buff', itoaTo buff val = .ok buff' ∧ StringAt Buffer.null buff' 0 (itoa val) ∧
      ∀ a ≥ 11, buff' a = buff a := by
  have hlt : val < 10 ^ (9 + 1) := Nat.lt_trans hval (by decide)
  have hchars : ∀ d < 10, Char.ofNat ('0'.toNat + d) ≠ Buffer.null := by decide
  rw [itoaTo, if_neg hpos, itoa, if_neg hpos, itoaDigits_eq]
  generalize hs : (Digits.fromTop 10 10 1000000000 val).map
    (fun i => Char.ofNat ('0'.toNat + i)) = s
  have hlen : s.length = 10 := by
    rw [← hs, show 1000000000 = 10 ^ 9 from rfl, Digits.fromTop_eq (by decide) hlt]
    simp
  have hnull : Buffer.null ∉ s := by
    rw [← hs, show 1000000000 = 10 ^ 9 from rfl]
    intro h
    obtain ⟨d, hd, h⟩ := List.mem_map.mp h
    exact hchars d (mem_fromTop_lt (by decide) hlt hd) h
  have hput : update (Buffer.put (update buff 0 Buffer.null) 0 s) 10 Buffer.null =
      Buffer.put (update buff 0 Buffer.null) 0 (s ++ [Buffer.null]) := by
    rw [Buffer.put_append, hlen]
    rfl
  rw [hput]
  have hbehind : ∀ a ≥ 11, Buffer.put (update buff 0 Buffer.null) 0 (s ++ [Buffer.null]) a =
      buff a := by
    intro a ha
    rw [Buffer.put_of_ge (by simp [hlen, ha]), update_of_ne (by omega)]
  have hat := @Buffer.stringAt_put _ _ (update buff 0 Buffer.null) 0 s hnull
  generalize Buffer.put (update buff 0 Buffer.null) 0 (s ++ [Buffer.null]) = filled at hat hbehind ⊢
  have hfuel : s.length < 11 := by omega
  obtain ⟨k, hk, hklen, hrest⟩ := skipZeros_eq hat hfuel
  simp only [hk, Loop.ok_bind]
  refine ⟨_, rfl, hrest.congr fun i hi => ?_, fun a ha => ?_⟩
  · rw [moveLeft_apply _ (Nat.zero_le k), if_pos (by omega)]
    simp
  · -- the character behind the array is moved to where it was, if it is moved at all
    rw [moveLeft_apply _ (Nat.zero_le k)]
    split
    next hmoved => rw [show k + (a - 0) = a by omega, hbehind a ha]
    next => exact hbehind a ha

/-- The node is called `s`. -/
def Named (buff name : Nat → Char) (newTid : Nat) (s : List Char) : Prop :=
  ∃ r, nameNode buff name newTid = .ok r ∧ StringAt Buffer.null r.2 0 s

theorem Named.unique {buff name : Nat → Char} {tid : Nat} {s s' : List Char}
    (h : Named buff name tid s) (h' : Named buff name tid s') : s = s' := by
  obtain ⟨r, hr, hat⟩ := h
  obtain ⟨r', hr', hat'⟩ := h'
  obtain rfl : r = r' := Except.ok.inj (hr.symm.trans hr')
  exact hat.unique hat'

theorem named_toDigits {val : Nat} (hpos : 1 ≤ val) (hval : val < 2 ^ 31)
    (buff name : Nat → Char) : Named buff name val (Nat.toDigits 10 val) := by
  have hword : val < wordSize := Nat.lt_trans hval (by decide)
  have hne : val ≠ 0 := Nat.ne_of_gt hpos
  obtain ⟨buff', hbuff, hat, -⟩ := itoaTo_eq hne hword buff
  rw [itoa_eq hne hword] at hat
  have hlen : (Nat.toDigits 10 val).length < 11 := by
    rw [Nat.lt_succ_iff, Nat.length_toDigits_le_iff (by decide) (by decide)]
    exact Nat.lt_trans hword (by decide)
  refine ⟨(buff', Buffer.put name 0 (Nat.toDigits 10 val ++ [Buffer.null])), ?_,
    Buffer.stringAt_put (null_notMem_toDigits val)⟩
  rw [nameNode, hbuff, Loop.ok_bind, hat.read_eq hlen]

end Buffer

/-- **The numeral of a number** is in the buffer, so that two tasks never have nodes of one name. -/
theorem itoaTo_numeral (val : Nat) (hpos : 1 ≤ val) (hval : val < 2 ^ 31) :
    (∀ buff, ∃ buff', itoaTo buff val = .ok buff' ∧
      Buffer.StringAt Buffer.null buff' 0 (Nat.toDigits 10 val) ∧ ∀ a ≥ 11, buff' a = buff a) ∧
    (∀ buff name, Named buff name val (Nat.toDigits 10 val)) ∧
    ∀ tid, 1 ≤ tid → tid < 2 ^ 31 → tid ≠ val → ∀ buff buff' name name' s s',
      Named buff name val s → Named buff' name' tid s' → s ≠ s' := by
  refine ⟨fun buff => ?_, named_toDigits hpos hval, ?_⟩
  · have hword : val < wordSize := Nat.lt_trans hval (by decide)
    rw [← itoa_eq (Nat.ne_of_gt hpos) hword]
    exact itoaTo_eq (Nat.ne_of_gt hpos) hword buff
  · intro tid htid htid' hne buff buff' name name' s s' hs hs'
    rw [hs.unique (named_toDigits hpos hval buff name),
      hs'.unique (named_toDigits htid htid' buff' name')]
    intro heq
    have hval' := congrArg (Nat.ofDigitChars 10 · 0) heq
    rw [Nat.ofDigitChars_toDigits (by decide) (by decide),
      Nat.ofDigitChars_toDigits (by decide) (by decide)] at hval'
    exact hne hval'.symm

theorem itoaTo_numeral_ten : ∃ buff, itoaTo (fun _ => 'x') 10 = .ok buff ∧
    Buffer.StringAt Buffer.null buff 0 ['1', '0'] := by
  obtain ⟨buff, hbuff, hat, -⟩ := (itoaTo_numeral 10 (by decide) (by decide)).1 (fun _ => 'x')
  exact ⟨buff, hbuff, hat⟩

end Hydrax.Printk
