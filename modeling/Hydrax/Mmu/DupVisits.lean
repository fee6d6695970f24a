import Hydrax.Mmu.MmapDup

/-!
# The pages that `mmap_dup` visits

`mmap_dup` should go through two ranges of pages, one beside the other. Here its loop keeps a log of
the entries it looks at, and `mmapDup_exact_iff` says when these are the entries of the two ranges.
Both must lie in one table each, or the cursors go astray, and the length must be a whole number of
pages.
-/

namespace Hydrax

open Loop

/-- An entry of the source and one of the destination, each with its table. -/
structure Visit where
  srcTable : Nat
  srcEntry : Nat
  dstTable : Nat
  dstEntry : Nat
  deriving DecidableEq

/-- What should happen at two entries: the page is shared if only the source has it. -/
def State.visit (s : State) (x : Visit) : State :=
  if (s.page x.srcTable x.srcEntry).present && !(s.page x.dstTable x.dstEntry).present then
    s.sharePage x.dstTable x.dstEntry x.srcTable x.srcEntry
  else s

/-- The entries of two ranges of `n` pages. -/
def visitsOf (s : State) (dir : DirRef) (src dst n : Nat) : List Visit :=
  (List.range n).map fun i =>
    ⟨s.tableOf dir (src / pageSize + i), pageIdx (src / pageSize + i),
      s.tableOf s.currentDirectory (dst / pageSize + i), pageIdx (dst / pageSize + i)⟩

/-- The number of pages that `len` bytes take up. -/
def pagesIn (len : Nat) : Nat := (len + (pageSize - 1)) / pageSize

/-! ## The log -/

/-- The loop of `mmap_dup`, with a log of what it visits. -/
def dupLoopLog (dir : DirRef) :
    Nat → State → DupCursor → DupCursor → Nat → Except Stop (List Visit × State)
  | 0, _, _, _, _ => .error .hang
  | fuel + 1, s, src, dst, len =>
    if len = 0 then .ok ([], s)
    else do
      let s ← dupPage s src dst
      let moved := dupMove s dir src dst
      let (log, s) ←
        dupLoopLog dir fuel s moved.1 moved.2 ((len + (wordSize - pageSize)) % wordSize)
      return (⟨src.table, src.entry, dst.table, dst.entry⟩ :: log, s)

/-- `mmap_dup`, with the log. -/
def mmapDupLog (s : State) (dir : DirRef) (src dst len : Nat) :
    Except Stop (List Visit × State) :=
  dupLoopLog dir addrFuel s (DupCursor.start s dir src) (DupCursor.start s s.currentDirectory dst)
    len

theorem dupLoopLog_state (dir : DirRef) (fuel : Nat) (s : State) (src dst : DupCursor) (len : Nat) :
    (dupLoopLog dir fuel s src dst len).map Prod.snd = dupLoop dir fuel s src dst len := by
  induction fuel generalizing s src dst len with
  | zero => rfl
  | succ fuel ih =>
    rw [dupLoopLog, dupLoop]
    split
    · rfl
    · cases hpage : dupPage s src dst with
      | error e => rfl
      | ok s₁ =>
        rw [ok_bind, ok_bind]
        dsimp only
        rw [← ih]
        cases dupLoopLog dir fuel s₁ (dupMove s₁ dir src dst).1 (dupMove s₁ dir src dst).2
            ((len + (wordSize - pageSize)) % wordSize) with
        | error e => rfl
        | ok r => rfl

theorem dupLoop_of_log {dir : DirRef} {fuel len : Nat} {s s' : State} {src dst : DupCursor}
    {log : List Visit} (h : dupLoopLog dir fuel s src dst len = .ok (log, s')) :
    dupLoop dir fuel s src dst len = .ok s' := by
  rw [← dupLoopLog_state, h]
  rfl

theorem dupPage_visit {s s' : State} {src dst : DupCursor} (h : dupPage s src dst = .ok s') :
    s' = s.visit ⟨src.table, src.entry, dst.table, dst.entry⟩ := by
  have hok := h
  rw [dupPage] at hok
  split at hok
  · cases hok
  next htables =>
    split at hok
    · cases hok
    next hbounds =>
      rw [not_or] at htables hbounds
      rw [dupPage_eq htables.1 htables.2 (Nat.not_le.mp hbounds.1) (Nat.not_le.mp hbounds.2)] at h
      cases h
      rfl

/-- **The effect is that of the visits**, one after the other. -/
theorem foldl_of_log {dir : DirRef} {fuel len : Nat} {s s' : State} {src dst : DupCursor}
    {log : List Visit} (h : dupLoopLog dir fuel s src dst len = .ok (log, s')) :
    s' = log.foldl State.visit s := by
  induction fuel generalizing s src dst len log with
  | zero => cases h
  | succ fuel ih =>
    rw [dupLoopLog] at h
    split at h
    · cases h
      rfl
    · obtain ⟨s₁, hpage, h⟩ := bind_eq_ok.mp h
      obtain ⟨⟨log', s₂⟩, hrest, h⟩ := bind_eq_ok.mp h
      cases h
      rw [List.foldl_cons, ← dupPage_visit hpage]
      exact ih hrest

/-! ## What is visited -/

/-- Visit `i` of a walk. Behind the end of its table the source goes on in a table that depends on
how many pages were visited. -/
def cursorVisit (s : State) (dir : DirRef) (src dst : DupCursor) (i : Nat) : Visit :=
  if src.entry + i < 1024 then ⟨src.table, src.entry + i, dst.table, dst.entry + i⟩
  else ⟨(s.dirs dir).tables (src.indx + (1024 - src.entry) + 1), src.entry + i - 1024, dst.table,
    dst.entry + i⟩

section Cursor

variable {s s₁ : State} {dir : DirRef} {src dst : DupCursor} {n i : Nat}

theorem cursorVisit_zero (hsrc : src.Inside) : cursorVisit s dir src dst 0 =
    ⟨src.table, src.entry, dst.table, dst.entry⟩ := if_pos hsrc.lt

theorem cursorVisit_next (hdirs : s₁.dirs = s.dirs) (hsrc : src.entry + 1 < 1024) :
    cursorVisit s₁ dir src.next dst.next i = cursorVisit s dir src dst (i + 1) := by
  have hindx : src.indx + 1 + (1024 - (src.entry + 1)) + 1 = src.indx + (1024 - src.entry) + 1 := by
    omega
  unfold cursorVisit DupCursor.next
  dsimp only
  rw [hdirs, hindx, Nat.add_right_comm src.entry, Nat.add_right_comm dst.entry]
  rfl

theorem cursorVisit_cross (hdirs : s₁.dirs = s.dirs) (hsrc : src.entry + 1 = 1024)
    (hi : i < 1024) :
    cursorVisit s₁ dir (src.cross ((s₁.dirs dir).tables (src.indx + 1 + 1))) dst.next i =
      cursorVisit s dir src dst (i + 1) := by
  have hone : 1024 - src.entry = 1 := by omega
  unfold cursorVisit DupCursor.next DupCursor.cross
  dsimp only
  rw [hdirs, if_pos (by omega), if_neg (by omega), hone, Nat.zero_add,
    show src.entry + (i + 1) - 1024 = i by omega, Nat.add_right_comm dst.entry]
  rfl

theorem log_nil {fuel : Nat} {s' : State} {log : List Visit}
    (h : dupLoopLog dir fuel s src dst (0 * pageSize) = .ok (log, s')) : log = [] := by
  cases fuel with
  | zero => cases h
  | succ fuel =>
    rw [dupLoopLog, if_pos (Nat.zero_mul _)] at h
    cases h
    rfl

theorem log_eq {fuel : Nat} {s' : State} {log : List Visit} (hsrc : src.Inside) (hdst : dst.Inside)
    (hn : n * pageSize < wordSize)
    (h : dupLoopLog dir fuel s src dst (n * pageSize) = .ok (log, s')) :
    log = (List.range n).map (cursorVisit s dir src dst) := by
  induction n generalizing fuel s src dst log with
  | zero => exact log_nil h
  | succ n ih =>
    have hn' : n * pageSize < wordSize :=
      lt_of_le_of_lt (Nat.mul_le_mul_right pageSize (Nat.le_succ n)) hn
    have hfits := (walkFits_of_dupLoop hsrc hdst hn (dupLoop_of_log h)).resolve_left
      (Nat.succ_ne_zero n)
    cases fuel with
    | zero => cases h
    | succ fuel =>
      rw [dupLoopLog, if_neg (dupLeft hn).1, (dupLeft hn).2] at h
      obtain ⟨s₁, hpage, h⟩ := bind_eq_ok.mp h
      obtain ⟨⟨log', s₂⟩, hrest, h⟩ := bind_eq_ok.mp h
      cases h
      obtain ⟨ht, ht', hdst', -⟩ := hfits
      have hsrc' := hsrc.lt
      obtain ⟨s₁', hpage', hdup⟩ := dupPage_duplicated (s := s) ht ht' hsrc.lt hdst.lt
      obtain rfl : s₁' = s₁ := Except.ok.inj (hpage'.symm.trans hpage)
      have hdirs := hdup.step.dirs
      rw [List.range_succ_eq_map, List.map_cons, cursorVisit_zero hsrc, List.map_map]
      refine congrArg _ ?_
      cases n with
      | zero => exact log_nil hrest
      | succ n =>
        have hoffs : dst.offs + 1 ≠ 1024 := by
          rw [hdst.offs]
          omega
        by_cases hcross : src.entry + 1 = 1024
        · rw [dupMove_cross _ _ (by rw [hsrc.offs]; exact hcross) hoffs] at hrest
          rw [ih (.cross ..) (hdst.next (by omega)) hn' hrest]
          refine List.map_congr_left fun i hi => ?_
          rw [List.mem_range] at hi
          exact cursorVisit_cross hdirs hcross (by omega)
        · rw [dupMove_inside _ _ (by rw [hsrc.offs]; exact hcross) hoffs] at hrest
          rw [ih (hsrc.next (by omega)) (hdst.next (by omega)) hn' hrest]
          exact List.map_congr_left fun i _ => cursorVisit_next hdirs (by omega)

end Cursor

/-! ## The call -/

/-- **What `mmap_dup` should do**: it comes back having visited the pages of the two ranges, one after
the other, and has shared those that only the source had. -/
def DupsExactly (s : State) (dir : DirRef) (src dst len : Nat) : Prop :=
  ∃ s', mmapDup s dir src dst len = .ok s' ∧
    mmapDupLog s dir src dst len = .ok (visitsOf s dir src dst (pagesIn len), s') ∧
    s' = (visitsOf s dir src dst (pagesIn len)).foldl State.visit s

section Ranges

variable (s : State) (dir : DirRef) {v i : Nat}

theorem page_inside (h : pageIdx v + i < 1024) :
    s.tableOf dir (v + i) = s.tableOf dir v ∧ pageIdx (v + i) = pageIdx v + i := by
  have hidx : tableIdx (v + i) = tableIdx v := by
    simp only [pageIdx, tableIdx, tableSize] at *
    omega
  refine ⟨congrArg (s.dirs dir).tables hidx, ?_⟩
  simp only [pageIdx, tableSize] at *
  omega

theorem page_crossed (h : 1024 ≤ pageIdx v + i) (h' : i ≤ 1024) :
    s.tableOf dir (v + i) = (s.dirs dir).tables (tableIdx v + 1) ∧
      pageIdx (v + i) = pageIdx v + i - 1024 := by
  have hidx : tableIdx (v + i) = tableIdx v + 1 := by
    simp only [pageIdx, tableIdx, tableSize] at *
    omega
  refine ⟨congrArg (s.dirs dir).tables hidx, ?_⟩
  simp only [pageIdx, tableSize] at *
  omega

end Ranges

section Exact

variable {s : State} {dir : DirRef} {src dst len : Nat}

/-- The source stays in its table, or the table that it crosses to is the next one by chance. -/
def SourceFits (s : State) (dir : DirRef) (src n : Nat) : Prop :=
  let v := src / pageSize
  pageIdx v + n ≤ 1024 ∨
    (s.dirs dir).tables (tableIdx v + (1024 - pageIdx v) + 1) = (s.dirs dir).tables (tableIdx v + 1)

theorem visits_eq_iff {n : Nat} (hdst : pageIdx (dst / pageSize) + n ≤ 1024) :
    (List.range n).map (cursorVisit s dir (DupCursor.start s dir src)
        (DupCursor.start s s.currentDirectory dst)) = visitsOf s dir src dst n ↔
      SourceFits s dir src n := by
  have hsrc := pageIdx_lt (src / pageSize)
  rw [tableSize] at hsrc
  unfold visitsOf SourceFits cursorVisit DupCursor.start
  dsimp only
  rw [List.map_inj_left]
  constructor
  · intro h
    by_cases hfits : pageIdx (src / pageSize) + n ≤ 1024
    · exact Or.inl hfits
    · -- the first page behind the end of the table
      have hvisit := h (1024 - pageIdx (src / pageSize)) (List.mem_range.mpr (by omega))
      rw [if_neg (by omega), (page_crossed s dir (by omega) (by omega)).1] at hvisit
      exact Or.inr (congrArg Visit.srcTable hvisit)
  · intro h i hi
    rw [List.mem_range] at hi
    obtain ⟨hdtable, hdentry⟩ := page_inside s s.currentDirectory
      (show pageIdx (dst / pageSize) + i < 1024 by omega)
    rw [hdtable, hdentry]
    by_cases hin : pageIdx (src / pageSize) + i < 1024
    · obtain ⟨htable, hentry⟩ := page_inside s dir hin
      rw [if_pos hin, htable, hentry]
    · obtain ⟨htable, hentry⟩ := page_crossed s dir (Nat.le_of_not_lt hin)
        (show i ≤ 1024 by omega)
      rw [if_neg hin, htable, hentry, h.resolve_left (by omega)]

theorem SourceFits.dupFits (h : SourceFits s dir src (len / pageSize))
    (haligned : len % pageSize = 0) (hpos : 0 < len)
    (hdst : pageIdx (dst / pageSize) + len / pageSize ≤ 1024)
    (htables : ∀ i < len / pageSize, s.tableOf dir (src / pageSize + i) ≠ 0 ∧
      s.tableOf s.currentDirectory (dst / pageSize + i) ≠ 0) : DupFits s dir src dst len := by
  have hn : 0 < len / pageSize := by
    simp only [pageSize] at *
    omega
  have hsrc := pageIdx_lt (src / pageSize)
  rw [tableSize] at hsrc
  obtain ⟨hstable, hdtable⟩ := htables 0 hn
  refine ⟨haligned, Or.inr ⟨hstable, hdtable, hdst, ?_⟩⟩
  by_cases hfits : pageIdx (src / pageSize) + len / pageSize ≤ 1024
  · exact Or.inl hfits
  · -- the next table is there, since the source has pages in it
    have hthere := (htables (1024 - pageIdx (src / pageSize)) (by omega)).1
    rw [(page_crossed s dir (by omega) (by omega)).1, ← h.resolve_left hfits] at hthere
    exact Or.inr hthere

theorem log_of_mmapDup {s' : State} (h : mmapDup s dir src dst len = .ok s') :
    ∃ log, mmapDupLog s dir src dst len = .ok (log, s') := by
  rw [mmapDup, ← dupLoopLog_state] at h
  unfold mmapDupLog
  cases hlog : dupLoopLog dir addrFuel s (DupCursor.start s dir src)
      (DupCursor.start s s.currentDirectory dst) len with
  | error e =>
    rw [hlog] at h
    cases h
  | ok r =>
    rw [hlog] at h
    cases h
    exact ⟨r.1, rfl⟩

/-- **When `mmap_dup` copies exactly the source range**: the length is a whole number of pages, the
destination lies in one table, and so does the source. -/
theorem mmapDup_exact_iff (hlen : len < wordSize) (hpos : 0 < len)
    (htables : ∀ i < pagesIn len, s.tableOf dir (src / pageSize + i) ≠ 0 ∧
      s.tableOf s.currentDirectory (dst / pageSize + i) ≠ 0) :
    DupsExactly s dir src dst len ↔
      len % pageSize = 0 ∧ pageIdx (dst / pageSize) + len / pageSize ≤ 1024 ∧
        SourceFits s dir src (len / pageSize) := by
  have hpages : len % pageSize = 0 → pagesIn len = len / pageSize := by
    intro haligned
    simp only [pagesIn, pageSize] at *
    omega
  have hmul : len % pageSize = 0 → len / pageSize * pageSize = len := fun haligned =>
    Nat.div_mul_cancel (Nat.dvd_of_mod_eq_zero haligned)
  have hlog : len % pageSize = 0 → ∀ {log s'}, mmapDupLog s dir src dst len = .ok (log, s') →
      log = (List.range (len / pageSize)).map (cursorVisit s dir (DupCursor.start s dir src)
        (DupCursor.start s s.currentDirectory dst)) := by
    intro haligned log s' h
    rw [mmapDupLog, ← hmul haligned] at h
    exact log_eq (.start ..) (.start ..) (by rw [hmul haligned]; exact hlen) h
  constructor
  · rintro ⟨s', hok, hvisits, -⟩
    obtain ⟨haligned, hfits⟩ := (mmapDup_ok_iff hlen).mp ⟨s', hok⟩
    have hn : len / pageSize ≠ 0 := by
      simp only [pageSize] at *
      omega
    have hdst := (hfits.resolve_left hn).2.2.1
    refine ⟨haligned, hdst, (visits_eq_iff hdst).mp ?_⟩
    rw [← hlog haligned hvisits, hpages haligned]
  · rintro ⟨haligned, hdst, hsource⟩
    rw [hpages haligned] at htables
    obtain ⟨s', hok⟩ := (mmapDup_ok_iff hlen).mpr (hsource.dupFits haligned hpos hdst htables)
    obtain ⟨log, hlogged⟩ := log_of_mmapDup hok
    have hvisits : log = visitsOf s dir src dst (pagesIn len) := by
      rw [hlog haligned hlogged, hpages haligned]
      exact (visits_eq_iff hdst).mpr hsource
    subst hvisits
    exact ⟨s', hok, hlogged, foldl_of_log hlogged⟩

end Exact

/-- A state whose directories have the tables 1, 2, 3 and so on, with page 0 of each in frame 9. -/
def dupState : State where
  dirs := fun _ => { tables := fun i => i + 1 }
  tables := fun _ => { pages := fun j => if j = 0 then { present := true, frame := 9 } else {} }

theorem dupState_tables (d : DirRef) (v : Nat) : dupState.tableOf d v ≠ 0 := Nat.succ_ne_zero _

/-- Two pages of the first table are duplicated to the second one. -/
theorem mmapDup_exact_two : DupsExactly dupState .kernel 0 0x401000 0x2000 :=
  (mmapDup_exact_iff (by decide) (by decide) fun _ _ =>
    ⟨dupState_tables _ _, dupState_tables _ _⟩).mpr ⟨by decide, by decide, Or.inl (by decide)⟩

/-- **A single byte is never done**, and from the last page of a table the walk goes on in the table
after the next one. -/
theorem mmapDup_exact_fails :
    (∀ s', mmapDup dupState .kernel 0 0x401000 1 ≠ .ok s') ∧
      (∃ log s', mmapDupLog dupState .kernel 0x3FF000 0x401000 0x2000 = .ok (log, s') ∧
        log = [⟨1, 1023, 2, 1⟩, ⟨3, 0, 2, 2⟩] ∧
        visitsOf dupState .kernel 0x3FF000 0x401000 2 = [⟨1, 1023, 2, 1⟩, ⟨2, 0, 2, 2⟩]) ∧
      ¬ DupsExactly dupState .kernel 0 0x401000 1 ∧
      ¬ DupsExactly dupState .kernel 0x3FF000 0x401000 0x2000 := by
  have hunaligned : ∀ s', mmapDup dupState .kernel 0 0x401000 1 ≠ .ok s' := fun s' =>
    dupLoop_of_unaligned (by decide) _ _ s' _ _
  have hfits : DupFits dupState .kernel 0x3FF000 0x401000 0x2000 :=
    ⟨by decide, Or.inr ⟨Nat.succ_ne_zero _, Nat.succ_ne_zero _, by decide,
      Or.inr (Nat.succ_ne_zero _)⟩⟩
  obtain ⟨s', hok⟩ := (mmapDup_ok_iff (by decide)).mpr hfits
  obtain ⟨log, hlogged⟩ := log_of_mmapDup hok
  have hlog : log = [⟨1, 1023, 2, 1⟩, ⟨3, 0, 2, 2⟩] :=
    (log_eq (n := 2) (.start ..) (.start ..) (by decide) hlogged).trans (by decide)
  refine ⟨hunaligned, ⟨log, s', hlogged, hlog, by decide⟩, ?_, ?_⟩
  · rintro ⟨s'', hbyte, -⟩
    exact hunaligned s'' hbyte
  · rintro ⟨s'', -, hexact, -⟩
    cases hlogged.symm.trans hexact
    exact absurd hlog (by decide)

end Hydrax
