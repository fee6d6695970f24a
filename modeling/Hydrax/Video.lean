import Hydrax.Machine

/-!
# The screen

`arch/x86/video.c` and `console_write` of `kernel/console.c`. The screen has 25 rows of 80 cells,
and a cell holds a character and its colours. A character is written at the cursor, and at the end
of the last row the screen scrolls.

`Page` is a terminal with as many rows as are needed, which never scrolls. `Shows` relates the two:
the screen is a window on the last rows of the page. Every byte keeps it (`Follows.put`), so the
screen shows the end of the page after any bytes that are written (`screen_window`).
-/

namespace Hydrax.Video

open Loop
open Function (update update_apply)

/-- A byte that is written, as the `char` it becomes. -/
abbrev Byte := BitVec 8

def columns : Nat := 80
def rows : Nat := 25

/-- `MEM_CHAR(c)`: the character in the low byte, the colours in the high one. A `char` is signed,
so one above 127 spoils the colours. -/
def memChar (c : Byte) : BitVec 16 := c.signExtend 16 ||| 0x0700#16

def charByte (cell : BitVec 16) : Byte := cell.setWidth 8

theorem charByte_memChar (c : Byte) : charByte (memChar c) = c := by
  revert c
  decide

/-- The variables of `video.c`, and the position the hardware cursor was moved to. -/
structure State where
  curX : Nat := 0
  curY : Nat := 0
  vmem : Nat → BitVec 16 := fun _ => 0
  cursor : Nat := 0

def blank : Byte := 0x20#8

/-- A cell of `vmem`, which is memory of the graphics card for `80 * 25` of them. -/
def State.cell (s : State) (i : Nat) : Except Stop (BitVec 16) :=
  if i < columns * rows then .ok (s.vmem i) else .error .outOfBounds

/-- "vmem[i] = cell". -/
def State.setCell (s : State) (i : Nat) (cell : BitVec 16) : Except Stop State :=
  if i < columns * rows then .ok { s with vmem := update s.vmem i cell }
  else .error .outOfBounds

def moveCursor (s : State) : State := { s with cursor := (s.curY * 80 + s.curX) % 65536 }

/-- The body of the loop of `scroll` that moves the rows up. -/
def scrollCell (s : State) (i : Nat) : Except Stop State := do
  let c ← s.cell (i + 80)
  s.setCell i c

def clearCell (s : State) (i : Nat) : Except Stop State := s.setCell i (memChar blank)

def scroll (s : State) : Except Stop State :=
  if s.curY ≥ 25 then do
    let s ← (List.range (24 * 80)).foldlM scrollCell s
    let s ← ((List.range 80).map (24 * 80 + ·)).foldlM clearCell s
    return { s with curY := 24 }
  else .ok s

/-- The switch of `arch_video_put`, with `& ~(8-1)` as a division. -/
def putSwitch (s : State) (c : Byte) : Except Stop State :=
  if c = 0x08#8 then -- '\b'
    if s.curX ≠ 0 then
      let s := { s with curX := s.curX - 1 }
      s.setCell (s.curY * 80 + s.curX) (memChar blank)
    else .ok s
  else if c = 0x09#8 then -- '\t'
    .ok { s with curX := (s.curX + 8) / 8 * 8 % 256 }
  else if c = 0x0D#8 then -- '\r'
    .ok { s with curX := 0 }
  else if c = 0x0A#8 then -- '\n'
    .ok { s with curY := (s.curY + 1) % 256, curX := 0 }
  else do
    let s ← s.setCell (s.curY * 80 + s.curX) (memChar c)
    return { s with curX := (s.curX + 1) % 256 }

def archVideoPut (s : State) (c : Byte) : Except Stop State := do
  let s ← putSwitch s c
  let s := if s.curX ≥ 80 then { s with curX := 0, curY := (s.curY + 1) % 256 } else s
  let s ← scroll s
  return moveCursor s

/-- `arch_video_clear`, which is all that `arch_video_init` does with the screen. -/
def archVideoClear (s : State) : Except Stop State := do
  let s ← (List.range (80 * 25)).foldlM clearCell s
  return moveCursor { s with curX := 0, curY := 0 }

/-- `console_write`: the number of bytes, all of which are put. -/
def consoleWrite (s : State) (buf : List Byte) : Except Stop (Nat × State) := do
  let s ← buf.foldlM archVideoPut s
  return (buf.length, s)

/-! ## A terminal that never scrolls -/

structure Page where
  row : Nat := 0
  col : Nat := 0
  char : Nat → Nat → Byte := fun _ _ => blank

def Page.set (p : Page) (r k : Nat) (c : Byte) : Page :=
  { p with char := update p.char r (update (p.char r) k c) }

def Page.wrap (p : Page) : Page :=
  if p.col ≥ columns then { p with col := 0, row := p.row + 1 } else p

/-- **What a byte means.** -/
def Page.put (p : Page) (c : Byte) : Page :=
  if c = 0x08#8 then
    if p.col = 0 then p else { p.set p.row (p.col - 1) blank with col := p.col - 1 }
  else if c = 0x09#8 then { p with col := (p.col / 8 + 1) * 8 }.wrap
  else if c = 0x0D#8 then { p with col := 0 }
  else if c = 0x0A#8 then { p with row := p.row + 1, col := 0 }
  else { p.set p.row p.col c with col := p.col + 1 }.wrap

def Page.after (bytes : List Byte) : Page := bytes.foldl Page.put {}

/-- Row `r` of the last 25 rows of the page, which has the rows up to that of the cursor. A row past
them is blank. -/
def Page.lastRows (p : Page) (r k : Nat) : Byte :=
  let i := p.row + 1 - rows + r
  if i ≤ p.row then p.char i k else blank

/-- **The screen shows the end of the page.** -/
structure Shows (s : State) (p : Page) : Prop where
  curX : s.curX < columns
  curY : s.curY < rows
  screen : ∀ r < rows, ∀ k < columns, charByte (s.vmem (r * columns + k)) = p.lastRows r k

/-! ## The loops -/

theorem setCell_ok {s : State} {i : Nat} (h : i < columns * rows) (cell : BitVec 16) :
    s.setCell i cell = .ok { s with vmem := update s.vmem i cell } := if_pos h

theorem foldlM_scrollCell (s : State) {n : Nat} (hn : n ≤ 24 * 80) :
    (List.range n).foldlM scrollCell s =
      .ok { s with vmem := fun j => if j < n then s.vmem (j + 80) else s.vmem j } := by
  induction n with
  | zero => rfl
  | succ n ih =>
    have hread : n + 80 < columns * rows := by
      simp only [columns, rows]
      omega
    rw [List.range_succ, List.foldlM_append, ih (by omega), ok_bind, List.foldlM_cons,
      scrollCell, State.cell, if_pos hread, ok_bind, setCell_ok (by omega), ok_bind,
      List.foldlM_nil]
    refine congrArg (fun v => Except.ok { s with vmem := v }) (funext fun j => ?_)
    dsimp only
    rw [update_apply, if_neg (show ¬ n + 80 < n by omega)]
    split
    next hj => rw [hj, if_pos (by omega)]
    next hj =>
      by_cases hlt : j < n
      · rw [if_pos hlt, if_pos (by omega)]
      · rw [if_neg hlt, if_neg (by omega)]

theorem foldlM_clearCell (s : State) {a n : Nat} (hn : a + n ≤ columns * rows) :
    ((List.range n).map (a + ·)).foldlM clearCell s =
      .ok { s with vmem := fun j => if a ≤ j ∧ j < a + n then memChar blank else s.vmem j } := by
  induction n with
  | zero =>
    have hnone : ∀ j, ¬ (a ≤ j ∧ j < a + 0) := fun j => by omega
    simp only [hnone, if_false]
    rfl
  | succ n ih =>
    rw [List.range_succ, List.map_append, List.foldlM_append, ih (by omega), ok_bind,
      List.map_singleton, List.foldlM_cons, clearCell, setCell_ok (by omega), ok_bind,
      List.foldlM_nil]
    refine congrArg (fun v => Except.ok { s with vmem := v }) (funext fun j => ?_)
    dsimp only
    rw [update_apply]
    split
    next hj => rw [hj, if_pos (by omega)]
    next hj =>
      by_cases hin : a ≤ j ∧ j < a + n
      · rw [if_pos hin, if_pos (by omega)]
      · rw [if_neg hin, if_neg (by omega)]

/-! ## The window -/

/-- The screen shows the rows of the page from `top` on, and the cursors agree. -/
structure Window (top : Nat) (s : State) (p : Page) : Prop where
  col : s.curX = p.col
  row : p.row = top + s.curY
  cells : ∀ r < rows, ∀ k < columns, charByte (s.vmem (r * columns + k)) = p.char (top + r) k
  below : ∀ i, p.row < i → ∀ k, p.char i k = blank

/-- Between two bytes the window is on the last rows. -/
structure Follows (s : State) (p : Page) : Prop where
  window : Window (p.row + 1 - rows) s p
  curX : s.curX < columns
  curY : s.curY < rows

theorem Follows.shows {s : State} {p : Page} (h : Follows s p) : Shows s p := by
  refine ⟨h.curX, h.curY, fun r hr k hk => ?_⟩
  rw [h.window.cells r hr k hk, Page.lastRows]
  split
  · rfl
  next hlow => exact h.window.below _ (by omega) k

theorem follows_start {s : State} (hx : s.curX = 0) (hy : s.curY = 0)
    (hcells : ∀ i < columns * rows, s.vmem i = memChar blank) : Follows s {} where
  window :=
    { col := hx
      row := by
        rw [hy]
        rfl
      cells := fun r hr k hk => by
        have hlt : r * columns + k < columns * rows := by
          simp only [columns, rows] at *
          omega
        rw [hcells _ hlt, charByte_memChar]
      below := fun _ _ _ => rfl }
  curX := by rw [hx]; decide
  curY := by rw [hy]; decide

theorem archVideoClear_follows (s : State) : ∃ s', archVideoClear s = .ok s' ∧ Follows s' {} := by
  have hall : List.range (80 * 25) = (List.range (80 * 25)).map (0 + ·) := by simp
  rw [archVideoClear, hall, foldlM_clearCell s (show 0 + 80 * 25 ≤ columns * rows by decide),
    ok_bind]
  refine ⟨_, rfl, follows_start rfl rfl fun i hi => ?_⟩
  exact if_pos ⟨Nat.zero_le i, by simpa [columns, rows] using hi⟩

def scrolled (vmem : Nat → BitVec 16) (j : Nat) : BitVec 16 :=
  if 24 * 80 ≤ j ∧ j < 24 * 80 + 80 then memChar blank
  else if j < 24 * 80 then vmem (j + 80) else vmem j

theorem scroll_eq {s : State} (h : s.curY ≥ 25) :
    scroll s = .ok { s with curY := 24, vmem := scrolled s.vmem } := by
  rw [scroll, if_pos h, foldlM_scrollCell s (Nat.le_refl _), ok_bind,
    foldlM_clearCell _ (show 24 * 80 + 80 ≤ columns * rows by decide), ok_bind]
  rfl

/-- **Scrolling** moves the window down by one row, which is still blank. -/
theorem Window.scrolled {top : Nat} {s : State} {p : Page} (h : Window top s p)
    (hy : s.curY = rows) (hblank : ∀ k, p.char p.row k = blank) :
    Window (top + 1) { s with curY := 24, vmem := Video.scrolled s.vmem } p := by
  have hrow : p.row = top + 25 := by rw [h.row, hy, rows]
  refine ⟨h.col, ?_, fun r hr k hk => ?_, h.below⟩
  · show p.row = top + 1 + 24
    omega
  rw [rows] at hr
  have hk' : k < 80 := hk
  show charByte (Video.scrolled s.vmem (r * 80 + k)) = _
  rw [Video.scrolled]
  by_cases hlast : r = 24
  · -- the last row is a new one
    rw [if_pos (by omega), charByte_memChar, hlast, show top + 1 + 24 = p.row by omega, hblank]
  · have hcell : charByte (s.vmem ((r + 1) * 80 + k)) = p.char (top + (r + 1)) k :=
      h.cells (r + 1) (by rw [rows]; omega) k hk
    rw [if_neg (by omega), if_pos (by omega), show r * 80 + k + 80 = (r + 1) * 80 + k by omega,
      hcell, show top + 1 + r = top + (r + 1) by omega]

/-- The end of `arch_video_put`. -/
def settle (s : State) : Except Stop State := do
  let s := if s.curX ≥ 80 then { s with curX := 0, curY := (s.curY + 1) % 256 } else s
  let s ← scroll s
  return moveCursor s

theorem archVideoPut_eq (s : State) (c : Byte) : archVideoPut s c = putSwitch s c >>= settle := rfl

theorem Window.finish {top : Nat} {s : State} {p : Page} (h : Window top s p)
    (htop : top = 0 ∨ 24 ≤ s.curY) (hx : s.curX < columns) (hy : s.curY ≤ rows)
    (hblank : s.curY = rows → ∀ k, p.char p.row k = blank) :
    ∃ s', (scroll s >>= fun s => pure (moveCursor s)) = .ok s' ∧ Follows s' p := by
  have hrow := h.row
  rcases Nat.lt_or_eq_of_le hy with hlt | heq
  · have hno : ¬ s.curY ≥ 25 := Nat.not_le.mpr hlt
    have hlast : p.row + 1 - rows = top := by
      rw [rows] at hlt ⊢
      omega
    rw [scroll, if_neg hno, ok_bind]
    refine ⟨_, rfl, ?_, hx, hlt⟩
    rw [hlast]
    exact ⟨h.col, h.row, h.cells, h.below⟩
  · have hlast : p.row + 1 - rows = top + 1 := by
      rw [hrow, heq]
      simp only [rows]
      omega
    have hscrolled := h.scrolled heq (hblank heq)
    rw [scroll_eq (Nat.le_of_eq heq.symm), ok_bind]
    refine ⟨_, rfl, ?_, hx, show 24 < rows by decide⟩
    rw [hlast]
    exact ⟨hscrolled.col, hscrolled.row, hscrolled.cells, hscrolled.below⟩

theorem Window.settle {top : Nat} {s : State} {p : Page} (h : Window top s p)
    (htop : top = 0 ∨ 24 ≤ s.curY) (hy : s.curY ≤ rows) (hroom : columns ≤ s.curX → s.curY < rows)
    (hblank : s.curY = rows → ∀ k, p.char p.row k = blank) :
    ∃ s', Video.settle s = .ok s' ∧ Follows s' p.wrap := by
  have hcol := h.col
  rw [Video.settle]
  by_cases hx : s.curX ≥ 80
  · have hlt : s.curY < 25 := hroom hx
    have hmod : (s.curY + 1) % 256 = s.curY + 1 := Nat.mod_eq_of_lt (by omega)
    have hwrap : p.wrap = { p with col := 0, row := p.row + 1 } :=
      if_pos (by rw [← hcol]; exact hx)
    rw [if_pos hx, hwrap, hmod]
    refine @Window.finish top _ _ ⟨rfl, ?_, h.cells, fun i hi => h.below i ?_⟩
      (htop.imp_right Nat.le_succ_of_le) (show 0 < columns by decide) hlt fun _ => h.below _ ?_
    · show p.row + 1 = top + (s.curY + 1)
      rw [h.row]
      omega
    · exact Nat.lt_of_succ_lt hi
    · exact Nat.lt_succ_self _
  · have hwrap : p.wrap = p := if_neg (by rw [← hcol]; exact hx)
    rw [if_neg hx, hwrap]
    exact h.finish htop (Nat.not_le.mp hx) hy hblank

/-! ## A byte -/

theorem Window.set {top k : Nat} {s : State} {p : Page} (h : Window top s p) (hk : k < columns)
    (c : Byte) :
    Window top { s with vmem := update s.vmem (s.curY * columns + k) (memChar c) }
      (p.set p.row k c) := by
  refine ⟨h.col, h.row, fun r hr j hj => ?_, fun i hi j => ?_⟩
  · have hcell := h.cells r hr j hj
    have hrow := h.row
    simp only [Page.set, update_apply, columns] at *
    by_cases hr' : r = s.curY
    · subst hr'
      rw [if_pos hrow.symm, update_apply, hrow]
      by_cases hj' : j = k
      · rw [if_pos (by omega), if_pos hj', charByte_memChar]
      · rw [if_neg (by omega), if_neg hj', hcell]
    · rw [if_neg (by omega), if_neg (by omega), hcell]
  · have hne : i ≠ p.row := Nat.ne_of_gt hi
    simp only [Page.set, Function.update_of_ne hne]
    exact h.below i hi j

theorem Follows.put {s : State} {p : Page} (h : Follows s p) (c : Byte) :
    ∃ s', archVideoPut s c = .ok s' ∧ Follows s' (p.put c) := by
  have hW := h.window
  have hx := h.curX
  have hy := h.curY
  have hcol := hW.col
  have hrow := hW.row
  have htop : p.row + 1 - rows = 0 ∨ 24 ≤ s.curY := by
    rw [rows] at hrow hy ⊢
    omega
  have hcell : ∀ k < columns, s.curY * 80 + k < columns * rows := by
    intro k hk
    simp only [columns, rows] at *
    omega
  -- a page whose cursor is in the row stays as it is
  have hstay : ∀ q : Page, q.col < columns → q.wrap = q :=
    fun q hq => if_neg (Nat.not_le.mpr hq)
  -- in a byte that does not go to the next row, the rest has only the right margin to look at
  have hsame : ∀ (s₁ : State) (q : Page), Window (p.row + 1 - rows) s₁ q → s₁.curY = s.curY →
      ∃ s', settle s₁ = .ok s' ∧ Follows s' q.wrap := by
    intro s₁ q hq heq
    refine hq.settle (heq ▸ htop) (heq ▸ Nat.le_of_lt hy) (fun _ => heq ▸ hy) fun hfull => ?_
    rw [heq] at hfull
    exact absurd hfull (Nat.ne_of_lt hy)
  rw [archVideoPut_eq, putSwitch, Page.put]
  by_cases hb : c = 0x08#8
  · rw [if_pos hb, if_pos hb]
    by_cases h0 : s.curX = 0
    · rw [if_neg (not_not.mpr h0), if_pos (hcol ▸ h0), ok_bind, ← hstay p (hcol ▸ hx)]
      exact hsame s p hW rfl
    · have hk : s.curX - 1 < columns := by omega
      have hset := hW.set hk blank
      rw [if_pos h0, if_neg (hcol ▸ h0)]
      dsimp only
      rw [setCell_ok (hcell _ hk), ok_bind, ← hcol,
        ← hstay { p.set p.row (s.curX - 1) blank with col := s.curX - 1 } hk]
      exact hsame _ _ ⟨rfl, hset.row, hset.cells, hset.below⟩ rfl
  rw [if_neg hb, if_neg hb]
  by_cases ht : c = 0x09#8
  · have htab : (s.curX + 8) / 8 * 8 % 256 = (s.curX / 8 + 1) * 8 := by
      rw [columns] at hx
      omega
    rw [if_pos ht, if_pos ht, ok_bind, htab]
    exact hsame _ _ ⟨by rw [← hcol], hW.row, hW.cells, hW.below⟩ rfl
  rw [if_neg ht, if_neg ht]
  by_cases hr : c = 0x0D#8
  · rw [if_pos hr, if_pos hr, ok_bind,
      ← hstay { p with col := 0 } (show 0 < columns by decide)]
    exact hsame _ _ ⟨rfl, hW.row, hW.cells, hW.below⟩ rfl
  rw [if_neg hr, if_neg hr]
  by_cases hn : c = 0x0A#8
  · have hmod : (s.curY + 1) % 256 = s.curY + 1 := by
      rw [rows] at hy
      omega
    rw [if_pos hn, if_pos hn, ok_bind, hmod,
      ← hstay { p with row := p.row + 1, col := 0 } (show 0 < columns by decide)]
    refine @Window.settle (p.row + 1 - rows) _ _ ⟨rfl, ?_, hW.cells, fun i hi => hW.below i ?_⟩
      (htop.imp_right Nat.le_succ_of_le) hy (fun hfull => ?_) fun _ => hW.below _ ?_
    · show p.row + 1 = p.row + 1 - rows + (s.curY + 1)
      omega
    · exact Nat.lt_of_succ_lt hi
    · exact absurd hfull (show ¬ columns ≤ 0 by decide)
    · exact Nat.lt_succ_self _
  · have hmod : (s.curX + 1) % 256 = s.curX + 1 := by
      rw [columns] at hx
      omega
    have hset := hW.set hx c
    rw [if_neg hn, if_neg hn, setCell_ok (hcell _ hx), ok_bind, ← hcol]
    dsimp only
    rw [hmod]
    exact hsame _ _ ⟨rfl, hset.row, hset.cells, hset.below⟩ rfl

/-! ## All bytes -/

theorem Follows.puts {s : State} {p : Page} (h : Follows s p) (bytes : List Byte) :
    ∃ s', bytes.foldlM archVideoPut s = .ok s' ∧ Follows s' (bytes.foldl Page.put p) := by
  induction bytes generalizing s p with
  | nil => exact ⟨s, rfl, h⟩
  | cons c bytes ih =>
    obtain ⟨s₁, hput, h₁⟩ := h.put c
    rw [List.foldlM_cons, hput, ok_bind]
    exact ih h₁

/-- Several calls of `console_write`. -/
def writes (s : State) (bufs : List (List Byte)) : Except Stop State :=
  bufs.foldlM (fun s buf => do
    let (_, s) ← consoleWrite s buf
    return s) s

theorem writes_eq (s : State) (bufs : List (List Byte)) :
    writes s bufs = bufs.flatten.foldlM archVideoPut s := by
  unfold writes
  induction bufs generalizing s with
  | nil => rfl
  | cons buf bufs ih =>
    rw [List.flatten_cons, List.foldlM_cons, List.foldlM_append, consoleWrite]
    cases buf.foldlM archVideoPut s with
    | error e => rfl
    | ok s₁ => exact ih s₁

/-- **The screen is a window on the page.** Whatever `video.c` starts with, and whatever is written
through `console_write` after that: no cell outside the screen is touched, the cursor is on the
screen after every byte, and the screen shows the last rows of the page. -/
theorem screen_window (s : State) (bufs : List (List Byte)) :
    ∃ s₀ s', archVideoClear s = .ok s₀ ∧ writes s₀ bufs = .ok s' ∧
      Shows s' (Page.after bufs.flatten) ∧
      ∀ bytes, bytes <+: bufs.flatten → ∃ s₁, bytes.foldlM archVideoPut s₀ = .ok s₁ ∧
        Shows s₁ (Page.after bytes) := by
  obtain ⟨s₀, hclear, h₀⟩ := archVideoClear_follows s
  obtain ⟨s', hputs, h'⟩ := h₀.puts bufs.flatten
  refine ⟨s₀, s', hclear, by rw [writes_eq, hputs], h'.shows, fun bytes _ => ?_⟩
  obtain ⟨s₁, hputs₁, h₁⟩ := h₀.puts bytes
  exact ⟨s₁, hputs₁, h₁.shows⟩

end Hydrax.Video
