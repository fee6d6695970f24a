import Mathlib.Data.List.Find
import Hydrax.Machine

/-!
# Page bitmaps

`kernel/memmap.c`: a set of pages as an array of 32-bit words, one bit a page, a set bit meaning
that the page is in use. The physical memory, the kernel's address space and every process have
one each.

The functions are embedded word by word. Everything above them sees a bitmap through `used`, the
bit of a page, and through what the two searches return:

* `memmapFindFreePage_spec` — the lowest clear bit,
* `memmapFindFreePages_spec` — the lowest run of clear bits that is long enough,
* `memmapFind_firstFit` — both of them, in a bitmap whose first page is in use.
-/

namespace Hydrax

open Loop

variable {j p pages : Nat}

/-- `memmap_t`, without its lock. -/
structure Memmap where
  /-- The words of `pagemap`. -/
  pagemap : Nat → BitVec 32
  /-- Number of pages. -/
  length : Nat

/-- Bits of a word of `pagemap`. -/
def wordBits : Nat := 32

/-- `memmap_page_index`. -/
def pageIndex (page : Nat) : Nat := page / wordBits

/-- `OFFSET_FROM_BIT`. -/
def offsetFromBit (page : Nat) : Nat := page % wordBits

/-- The test `word & (1 << j)`. -/
def testBit (w : BitVec 32) (j : Nat) : Bool := w &&& (1#32 <<< j) != 0#32

/-- `memmap_init`: all pages free. -/
def memmapInit (pages : Nat) : Memmap := { pagemap := fun _ => 0#32, length := pages }

def memmapSetPage (m : Memmap) (pageAddr : Nat) : Except Stop Memmap := do
  assert (pageAddr % pageSize == 0)
  let page := pageAddr / pageSize
  let word := m.pagemap (pageIndex page) ||| (1#32 <<< offsetFromBit page)
  return { m with pagemap := Function.update m.pagemap (pageIndex page) word }

def memmapClearPage (m : Memmap) (pageAddr : Nat) : Memmap :=
  let frame := pageAddr / pageSize
  let word := m.pagemap (pageIndex frame) &&& ~~~(1#32 <<< offsetFromBit frame)
  { m with pagemap := Function.update m.pagemap (pageIndex frame) word }

def memmapTestPage (m : Memmap) (pageAddr : Nat) : Bool :=
  let frame := pageAddr / pageSize
  testBit (m.pagemap (pageIndex frame)) (offsetFromBit frame)

/-- The inner loop of `memmap_find_free_page`: the lowest clear bit of a word. -/
def findClearBit (w : BitVec 32) : Option Nat :=
  (List.range wordBits).find? (fun j => !testBit w j)

/-- `memmap_find_free_page`. It returns `0` when there is none, which is also the number of the
first page. -/
def memmapFindFreePage (m : Memmap) : Nat :=
  let found := (List.range (pageIndex m.length)).findSome? (fun i =>
    if m.pagemap i != BitVec.allOnes 32 then
      (findClearBit (m.pagemap i)).map (fun j => i * 4 * 8 + j)
    else none)
  found.getD 0

/-- The locals `found` and `start_page` of `memmap_find_free_pages`. -/
structure Scan where
  found : Nat
  startPage : Nat

/-- The body of its inner loop, on bit `j` of word `i`. `.error r` is `return r`. -/
def scanBit (pages i : Nat) (w : BitVec 32) (c : Scan) (j : Nat) : Except Nat Scan :=
  if !testBit w j then
    let start := if c.found = 0 then i * 4 * 8 + j else c.startPage
    if c.found + 1 = pages then .error start else .ok ⟨c.found + 1, start⟩
  else .ok { c with found := 0 }

/-- The body of its outer loop: a full word is skipped without looking at its bits. -/
def scanWord (m : Memmap) (pages : Nat) (c : Scan) (i : Nat) : Except Nat Scan :=
  if m.pagemap i != BitVec.allOnes 32 then
    (List.range wordBits).foldlM (scanBit pages i (m.pagemap i)) c
  else .ok { c with found := 0 }

/-- `memmap_find_free_pages`. It returns `0` when there is no such run. -/
def memmapFindFreePages (m : Memmap) (pages : Nat) : Except Stop Nat := do
  assert (pages != 0)
  match (List.range (pageIndex m.length)).foldlM (scanWord m pages) ⟨0, 0⟩ with
  | .error start => return start
  | .ok _ => return 0

/-! ## The bit of a page -/

/-- Page `p` is in use. -/
def Memmap.used (m : Memmap) (p : Nat) : Bool :=
  (m.pagemap (pageIndex p)).getLsbD (offsetFromBit p)

theorem Memmap.eq_of_used {m m' : Memmap} (hlen : m.length = m'.length)
    (h : ∀ p, m.used p = m'.used p) : m = m' := by
  obtain ⟨w, n⟩ := m
  obtain ⟨w', n'⟩ := m'
  obtain rfl : n = n' := hlen
  have hwords : w = w' := by
    funext i
    refine BitVec.eq_of_getLsbD_eq (fun j hj => ?_)
    have := h (i * wordBits + j)
    rw [Memmap.used, Memmap.used, pageIndex, offsetFromBit, wordBits] at this
    rwa [show (i * 32 + j) / 32 = i by omega, show (i * 32 + j) % 32 = j by omega] at this
  rw [hwords]

theorem testBit_eq (w : BitVec 32) (hj : j < 32) : testBit w j = w.getLsbD j := by
  have hand : (w &&& (1#32 <<< j)) = if w.getLsbD j then 1#32 <<< j else 0#32 := by
    apply BitVec.eq_of_getLsbD_eq
    intro i hi
    rw [BitVec.getLsbD_and, ← BitVec.twoPow_eq, BitVec.getLsbD_twoPow]
    by_cases hij : j = i
    · subst hij
      cases h : w.getLsbD j <;> simp [hj]
    · cases h : w.getLsbD j <;> simp [hij]
  have hne : (1#32 <<< j) ≠ 0#32 := by
    intro h0
    have := congrArg (fun v => v.getLsbD j) h0
    simp [hj] at this
  rw [testBit, hand]
  cases w.getLsbD j <;> simp [hne]

theorem offsetFromBit_lt (p : Nat) : offsetFromBit p < 32 := Nat.mod_lt _ (by decide)

theorem page_eq_of_index_offset {q : Nat} (hi : pageIndex p = pageIndex q)
    (ho : offsetFromBit p = offsetFromBit q) : p = q := by
  simp only [pageIndex, offsetFromBit, wordBits] at hi ho
  omega

theorem memmapTestPage_eq (m : Memmap) (addr : Nat) :
    memmapTestPage m addr = m.used (addr / pageSize) :=
  testBit_eq _ (offsetFromBit_lt _)

theorem memmapSetPage_spec {m m' : Memmap} {addr : Nat} (h : memmapSetPage m addr = .ok m') :
    addr % pageSize = 0 ∧ m'.length = m.length ∧
      ∀ q, m'.used q = (decide (q = addr / pageSize) || m.used q) := by
  simp only [memmapSetPage, bind_eq_ok, assert_eq_ok, beq_iff_eq, pure_eq_ok] at h
  obtain ⟨_, halign, rfl⟩ := h
  refine ⟨halign, rfl, ?_⟩
  intro q
  simp only [Memmap.used, Function.update_apply]
  by_cases hi : pageIndex q = pageIndex (addr / pageSize)
  · rw [if_pos hi, BitVec.getLsbD_or, ← BitVec.twoPow_eq, BitVec.getLsbD_twoPow, hi]
    by_cases ho : offsetFromBit q = offsetFromBit (addr / pageSize)
    · have hq := page_eq_of_index_offset hi ho
      simp [← hq, offsetFromBit_lt]
    · have hq : q ≠ addr / pageSize := fun hq => ho (by rw [hq])
      simp [hq, Ne.symm ho]
  · have hq : q ≠ addr / pageSize := fun hq => hi (by rw [hq])
    rw [if_neg hi]
    simp [hq]

theorem memmapSetPage_ok {m : Memmap} {addr : Nat} (h : addr % pageSize = 0) :
    ∃ m', memmapSetPage m addr = .ok m' := by
  simp [memmapSetPage, assert, h, bind, Except.bind, pure, Except.pure]

/-- **Clearing a page** removes it and nothing else. -/
theorem memmapClearPage_used (m : Memmap) (addr q : Nat) :
    (memmapClearPage m addr).used q = (decide (q ≠ addr / pageSize) && m.used q) := by
  simp only [memmapClearPage, Memmap.used, Function.update_apply]
  by_cases hi : pageIndex q = pageIndex (addr / pageSize)
  · rw [if_pos hi, BitVec.getLsbD_and, BitVec.getLsbD_not, ← BitVec.twoPow_eq,
      BitVec.getLsbD_twoPow, hi]
    by_cases ho : offsetFromBit q = offsetFromBit (addr / pageSize)
    · have hq := page_eq_of_index_offset hi ho
      simp [← hq, offsetFromBit_lt]
    · have hq : q ≠ addr / pageSize := fun hq => ho (by rw [hq])
      simp [hq, Ne.symm ho, offsetFromBit_lt]
  · have hq : q ≠ addr / pageSize := fun hq => hi (by rw [hq])
    rw [if_neg hi]
    simp [hq]

theorem memmapInit_used (pages p : Nat) : (memmapInit pages).used p = false := by
  simp [memmapInit, Memmap.used]

/-! ## First fit, one page -/

/-- Pages a search can see: the words that lie whole below `length`. -/
def Memmap.searched (m : Memmap) : Nat := pageIndex m.length * wordBits

theorem used_of_full {m : Memmap} {i : Nat} (h : m.pagemap i = BitVec.allOnes 32) (hj : j < 32) :
    m.used (i * 32 + j) = true := by
  simp only [Memmap.used, pageIndex, offsetFromBit, wordBits]
  rw [show (i * 32 + j) / 32 = i by omega, show (i * 32 + j) % 32 = j by omega, h,
    BitVec.getLsbD_allOnes]
  simpa using hj

theorem testBit_eq_used (m : Memmap) (i : Nat) (hj : j < 32) :
    testBit (m.pagemap i) j = m.used (i * 32 + j) := by
  rw [testBit_eq _ hj]
  simp only [Memmap.used, pageIndex, offsetFromBit, wordBits]
  rw [show (i * 32 + j) / 32 = i by omega, show (i * 32 + j) % 32 = j by omega]

theorem findClearBit_eq (m : Memmap) (i : Nat) :
    (if m.pagemap i != BitVec.allOnes 32 then
      (findClearBit (m.pagemap i)).map (fun j => i * 4 * 8 + j) else none) =
    ((List.range 32).map (fun j => i * 32 + j)).find? (fun p => !m.used p) := by
  rw [List.find?_map]
  split
  · rw [findClearBit]
    have hcongr : (List.range wordBits).find? (fun j => !testBit (m.pagemap i) j) =
        (List.range 32).find? ((fun p => !m.used p) ∘ fun j => i * 32 + j) := by
      apply List.find?_congr
      intro j hj
      have hj' : j < 32 := by simpa [wordBits] using hj
      simp [testBit_eq_used m i hj']
    rw [hcongr]
    congr 1
    funext j
    omega
  · next hfull =>
      have hfull' : m.pagemap i = BitVec.allOnes 32 := by simpa using hfull
      have hnone : (List.range 32).find? ((fun p => !m.used p) ∘ fun j => i * 32 + j) = none := by
        rw [List.find?_eq_none]
        intro j hj
        have hj' : j < 32 := by simpa using hj
        simp [used_of_full hfull' hj']
      rw [hnone]
      rfl

theorem range_mul_wordBits (k : Nat) :
    List.range (k * 32) =
      (List.range k).flatMap (fun i => (List.range 32).map (fun j => i * 32 + j)) := by
  induction k with
  | zero => rfl
  | succ k ih =>
    rw [Nat.add_mul, List.range_add, ih, List.range_succ (n := k), List.flatMap_append]
    simp

theorem memmapFindFreePage_eq (m : Memmap) :
    memmapFindFreePage m = ((List.range m.searched).find? (fun p => !m.used p)).getD 0 := by
  rw [memmapFindFreePage, Memmap.searched, wordBits, range_mul_wordBits, List.find?_flatMap]
  congr 2
  funext i
  exact findClearBit_eq m i

theorem memmapFindFreePage_spec (m : Memmap) :
    (memmapFindFreePage m < m.searched ∧ m.used (memmapFindFreePage m) = false ∧
        ∀ q < memmapFindFreePage m, m.used q = true) ∨
      (memmapFindFreePage m = 0 ∧ ∀ q < m.searched, m.used q = true) := by
  rw [memmapFindFreePage_eq]
  cases h : (List.range m.searched).find? (fun p => !m.used p) with
  | none =>
    right
    rw [List.find?_range_eq_none] at h
    exact ⟨rfl, fun q hq => by simpa using h q hq⟩
  | some p =>
    left
    rw [List.find?_range_eq_some] at h
    obtain ⟨hfree, hlt, hbelow⟩ := h
    exact ⟨by simpa using hlt, by simpa using hfree, fun q hq => by simpa using hbelow q hq⟩

theorem memmapFindFreePage_first {m : Memmap} {k : Nat} (hbelow : ∀ f < k, m.used f = true)
    (hfree : m.used k = false) (hk : k < m.searched) : memmapFindFreePage m = k := by
  rcases memmapFindFreePage_spec m with ⟨-, hfirst, hleast⟩ | ⟨-, hall⟩
  · rcases Nat.lt_trichotomy (memmapFindFreePage m) k with hlt | heq | hgt
    · rw [hbelow _ hlt] at hfirst
      cases hfirst
    · exact heq
    · rw [hleast k hgt] at hfree
      cases hfree
  · rw [hall k hk] at hfree
    cases hfree

theorem memmapFindFreePage_of_prefix {m : Memmap} {k : Nat} (hk : k < m.searched)
    (h : ∀ f, m.used f = decide (f < k)) : memmapFindFreePage m = k :=
  memmapFindFreePage_first (fun f hf => by rw [h f]; exact decide_eq_true hf)
    (by rw [h k]; exact decide_eq_false (lt_irrefl k)) hk

/-! ## First fit, several pages -/

/-- The `n` pages from `s` on are free. -/
def Memmap.FreeRun (m : Memmap) (s n : Nat) : Prop := ∀ k < n, m.used (s + k) = false

/-- Where the run that takes in page `p` starts. -/
def Scan.runStart (c : Scan) (p : Nat) : Nat := if c.found = 0 then p else c.startPage

/-- One bit of the search, with the words forgotten. -/
def scanPage (m : Memmap) (pages : Nat) (c : Scan) (p : Nat) : Except Nat Scan :=
  if m.used p then .ok { c with found := 0 }
  else if c.found + 1 = pages then .error (c.runStart p)
  else .ok ⟨c.found + 1, c.runStart p⟩

theorem scanBit_eq (m : Memmap) (pages i : Nat) (c : Scan) (hj : j < 32) :
    scanBit pages i (m.pagemap i) c j = scanPage m pages c (i * 32 + j) := by
  have hnum : i * 4 * 8 + j = i * 32 + j := by omega
  rw [scanBit, scanPage, testBit_eq_used m i hj, hnum]
  cases m.used (i * 32 + j) <;> simp [Scan.runStart]

theorem foldlM_scanPage_used (m : Memmap) (pages : Nat) {l : List Nat} (hne : l ≠ [])
    (h : ∀ p ∈ l, m.used p = true) (c : Scan) :
    l.foldlM (scanPage m pages) c = .ok { c with found := 0 } := by
  induction l generalizing c with
  | nil => exact absurd rfl hne
  | cons p l ih =>
    have hp : scanPage m pages c p = .ok { c with found := 0 } := by
      rw [scanPage, if_pos (h p (by simp))]
    rw [List.foldlM_cons, hp]
    by_cases hl : l = []
    · subst hl
      rfl
    · exact ih hl (fun q hq => h q (by simp [hq])) _

theorem scanWord_eq (m : Memmap) (pages : Nat) (c : Scan) (i : Nat) :
    scanWord m pages c i =
      ((List.range 32).map (fun j => i * 32 + j)).foldlM (scanPage m pages) c := by
  rw [scanWord]
  split
  · rw [List.foldlM_map, wordBits]
    apply foldlM_congr
    intro j hj c'
    exact scanBit_eq m pages i c' (by simpa using hj)
  · next hfull =>
      have hfull' : m.pagemap i = BitVec.allOnes 32 := by simpa using hfull
      rw [foldlM_scanPage_used m pages (by simp) ?_ c]
      intro p hp
      obtain ⟨j, hj, rfl⟩ := List.mem_map.mp hp
      exact used_of_full hfull' (by simpa using hj)

theorem foldlM_scanWord_eq (m : Memmap) (pages k : Nat) (c : Scan) :
    (List.range k).foldlM (scanWord m pages) c =
      (List.range (k * 32)).foldlM (scanPage m pages) c := by
  induction k with
  | zero => rfl
  | succ k ih =>
    rw [List.range_succ, List.foldlM_append, ih, Nat.add_mul, List.range_add,
      List.foldlM_append]
    congr 1
    funext c'
    simp only [List.foldlM_cons, List.foldlM_nil, bind_pure]
    exact scanWord_eq m pages c' k

/-- **The invariant of the search**, with the pages below `p` done: `found` is the length of the
free run that ends at `p`, and no run below `p` is long enough. -/
structure ScanInv (m : Memmap) (pages p : Nat) (c : Scan) : Prop where
  found_le : c.found ≤ p
  start : c.found ≠ 0 → c.startPage + c.found = p
  free : ∀ q, p - c.found ≤ q → q < p → m.used q = false
  maximal : c.found = p ∨ m.used (p - c.found - 1) = true
  short : c.found < pages
  none_below : ∀ s, s + pages ≤ p → ¬ m.FreeRun s pages

/-- What the search returns when it returns from inside the loop. -/
structure FirstRun (m : Memmap) (pages s : Nat) : Prop where
  free : m.FreeRun s pages
  least : ∀ t < s, ¬ m.FreeRun t pages

theorem ScanInv.runStart_add {m : Memmap} {c : Scan} (hI : ScanInv m pages p c) :
    c.runStart p + c.found = p := by
  rw [Scan.runStart]
  split
  · next h0 => omega
  · next h0 => exact hI.start h0

theorem scanPage_ok {m : Memmap} {c c' : Scan} (hI : ScanInv m pages p c)
    (h : scanPage m pages c p = .ok c') : ScanInv m pages (p + 1) c' := by
  rw [scanPage] at h
  split at h
  · next hused =>
      -- a page in use: no run of free pages goes through it
      cases h
      refine ⟨by simp, by simp, fun q h1 h2 => by simp at h1; omega, Or.inr (by simpa using hused),
        Nat.lt_of_le_of_lt (Nat.zero_le _) hI.short, ?_⟩
      intro s hs hrun
      by_cases hle : s + pages ≤ p
      · exact hI.none_below s hle hrun
      · have hshort := hI.short
        have hp := hrun (p - s) (by omega)
        rw [show s + (p - s) = p by omega, hused] at hp
        exact absurd hp (by simp)
  · next hused =>
      have hfree : m.used p = false := by simpa using hused
      split at h
      · cases h
      · next hne =>
          cases h
          have hfound := hI.found_le
          refine ⟨by simp only; omega, ?_, ?_, ?_, by have := hI.short; simp only; omega, ?_⟩
          · intro _
            have := hI.runStart_add
            simp only
            omega
          · intro q h1 h2
            by_cases hq : q = p
            · exact hq ▸ hfree
            · exact hI.free q (by simp only at h1; omega) (by omega)
          · rcases hI.maximal with hmax | hmax
            · exact Or.inl (by simp only; omega)
            · refine Or.inr ?_
              simp only
              rwa [show p + 1 - (c.found + 1) - 1 = p - c.found - 1 by omega]
          · intro s hs hrun
            by_cases hle : s + pages ≤ p
            · exact hI.none_below s hle hrun
            · -- a run that ends at `p` starts before the run that the search is in
              have hshort := hI.short
              rcases hI.maximal with hmax | hmax
              · omega
              · have hp := hrun (p - c.found - 1 - s) (by omega)
                rw [show s + (p - c.found - 1 - s) = p - c.found - 1 by omega, hmax] at hp
                exact absurd hp (by simp)

theorem scanPage_error {m : Memmap} {r : Nat} {c : Scan} (hI : ScanInv m pages p c)
    (h : scanPage m pages c p = .error r) : r + pages = p + 1 ∧ FirstRun m pages r := by
  rw [scanPage] at h
  split at h
  · cases h
  · next hused =>
      have hfree : m.used p = false := by simpa using hused
      split at h
      · next hlast =>
          have hfound := hI.found_le
          have hr : r + pages = p + 1 := by
            cases h
            have := hI.runStart_add
            omega
          refine ⟨hr, ?_, ?_⟩
          · intro k hk
            by_cases hq : r + k = p
            · exact hq ▸ hfree
            · exact hI.free (r + k) (by omega) (by omega)
          · intro t ht
            exact hI.none_below t (by omega)
      · cases h

theorem foldlM_scanPage_spec (m : Memmap) (hpages : 0 < pages) (p : Nat) :
    match (List.range p).foldlM (scanPage m pages) ⟨0, 0⟩ with
    | .ok c => ScanInv m pages p c
    | .error r => r + pages ≤ p ∧ FirstRun m pages r := by
  induction p with
  | zero =>
    refine ⟨by simp, by simp, fun q _ h => absurd h (by simp), Or.inl rfl, hpages, ?_⟩
    intro s hs
    omega
  | succ p ih =>
    rw [List.range_succ, List.foldlM_append]
    revert ih
    cases (List.range p).foldlM (scanPage m pages) ⟨0, 0⟩ with
    | error r =>
      intro ih
      exact ⟨Nat.le_succ_of_le ih.1, ih.2⟩
    | ok c =>
      intro ih
      show match (scanPage m pages c p >>= pure) with
        | .ok c => ScanInv m pages (p + 1) c
        | .error r => r + pages ≤ p + 1 ∧ FirstRun m pages r
      rw [bind_pure]
      cases hp : scanPage m pages c p with
      | ok c' => exact scanPage_ok ih hp
      | error r =>
        obtain ⟨hr, hrun⟩ := scanPage_error ih hp
        exact ⟨by omega, hrun⟩

theorem memmapFindFreePages_spec {m : Memmap} {r : Nat} (h : memmapFindFreePages m pages = .ok r) :
    0 < pages ∧
      ((r + pages ≤ m.searched ∧ FirstRun m pages r) ∨
        (r = 0 ∧ ∀ s, s + pages ≤ m.searched → ¬ m.FreeRun s pages)) := by
  simp only [memmapFindFreePages, bind_eq_ok, assert_eq_ok, bne_iff_ne] at h
  obtain ⟨_, hne, h⟩ := h
  have hpos : 0 < pages := Nat.pos_of_ne_zero hne
  refine ⟨hpos, ?_⟩
  have hspec := foldlM_scanPage_spec m hpos m.searched
  rw [foldlM_scanWord_eq] at h
  rw [Memmap.searched, wordBits] at hspec ⊢
  revert h hspec
  cases (List.range (pageIndex m.length * 32)).foldlM (scanPage m pages) ⟨0, 0⟩ with
  | error s =>
    intro h hspec
    rw [pure_eq_ok] at h
    subst h
    exact Or.inl hspec
  | ok c =>
    intro h hspec
    rw [pure_eq_ok] at h
    exact Or.inr ⟨h.symm, hspec.none_below⟩

theorem memmapFindFreePages_ok (m : Memmap) (h : pages ≠ 0) :
    ∃ r, memmapFindFreePages m pages = .ok r := by
  simp only [memmapFindFreePages, assert, bne_iff_ne, ne_eq, h, not_false_eq_true, if_true, bind,
    Except.bind]
  split <;> exact ⟨_, rfl⟩

theorem freeRun_one {m : Memmap} {s : Nat} : m.FreeRun s 1 ↔ m.used s = false := by
  rw [Memmap.FreeRun, Nat.forall_lt_succ_right]
  simp

theorem memmapFindFreePages_one (m : Memmap) :
    memmapFindFreePages m 1 = .ok (memmapFindFreePage m) := by
  obtain ⟨r, hr⟩ := memmapFindFreePages_ok m Nat.one_ne_zero
  rw [hr]
  congr 1
  obtain ⟨-, ⟨hlt, hfirst⟩ | ⟨rfl, hnone⟩⟩ := memmapFindFreePages_spec hr
  · refine (memmapFindFreePage_first (fun q hq => ?_) (freeRun_one.mp hfirst.free) hlt).symm
    simpa [freeRun_one] using hfirst.least q hq
  · rcases memmapFindFreePage_spec m with ⟨hlt, hfree, -⟩ | ⟨hzero, -⟩
    · exact absurd (freeRun_one.mpr hfree) (hnone _ hlt)
    · exact hzero.symm

/-- The pages from `s` on can be given out. -/
def Memmap.Fits (m : Memmap) (pages s : Nat) : Prop := m.FreeRun s pages ∧ s + pages ≤ m.length

theorem Memmap.searched_eq {m : Memmap} (h : m.length % 32 = 0) : m.searched = m.length := by
  rw [Memmap.searched, pageIndex, wordBits]
  omega

/-- **The searches are first fit**, in a bitmap of whole words. While page `0` is in use, a result
of `0` can only mean that there is no room. -/
theorem memmapFind_firstFit (m : Memmap) (hlen : m.length % 32 = 0) :
    (m.used 0 = true → ∀ pages, 1 ≤ pages → ∃ r, memmapFindFreePages m pages = .ok r ∧
      ((∃ s, m.Fits pages s) → m.Fits pages r ∧ ∀ s, m.Fits pages s → r ≤ s) ∧
      (r = 0 ↔ ¬ ∃ s, m.Fits pages s)) ∧
    memmapFindFreePages m 1 = .ok (memmapFindFreePage m) := by
  refine ⟨fun hzero pages hpages => ?_, memmapFindFreePages_one m⟩
  obtain ⟨r, hr⟩ := memmapFindFreePages_ok m (Nat.ne_of_gt hpages)
  obtain ⟨-, hspec⟩ := memmapFindFreePages_spec hr
  rw [m.searched_eq hlen] at hspec
  refine ⟨r, hr, ?_⟩
  rcases hspec with ⟨hroom, hfirst⟩ | ⟨rfl, hnone⟩
  · have hleast : ∀ s, m.Fits pages s → r ≤ s := fun s hs =>
      Nat.le_of_not_lt fun hlt => hfirst.least s hlt hs.1
    refine ⟨fun _ => ⟨⟨hfirst.free, hroom⟩, hleast⟩, fun hr0 => ?_, fun hno => ?_⟩
    · -- the run would begin with page 0
      have hpage := hfirst.free 0 hpages
      rw [hr0, hzero] at hpage
      cases hpage
    · exact absurd ⟨r, hfirst.free, hroom⟩ hno
  · have hno : ¬ ∃ s, m.Fits pages s := fun ⟨s, hrun, hs⟩ => hnone s hs hrun
    exact ⟨fun hs => absurd hs hno, fun _ => hno, fun _ => rfl⟩

/-- Two words, where the first run of three pages goes over the end of the first word. -/
theorem memmapFind_firstFit_across :
    let m : Memmap := { pagemap := fun i => if i = 0 then 0x7fffffff#32 else 0#32, length := 64 }
    m.used 0 = true ∧ memmapFindFreePages m 3 = .ok 31 ∧
      (m.Fits 3 31 ∧ ∀ s, m.Fits 3 s → 31 ≤ s) := by
  intro m
  have hfree : m.Fits 3 31 := ⟨by unfold Memmap.FreeRun; decide, by decide⟩
  obtain ⟨r, hr, hleast, -⟩ := (memmapFind_firstFit m (by decide)).1 (by decide) 3 (by decide)
  have hr' : memmapFindFreePages m 3 = .ok 31 := by decide
  obtain rfl : r = 31 := Except.ok.inj (hr.symm.trans hr')
  exact ⟨by decide, hr', hleast ⟨31, hfree⟩⟩

end Hydrax
