import Hydrax.Mmu.FileFault

/-!
# Duplicating a mapping

When a mapping becomes the master of its file, `mmap_dup` of `kernel/mmu.c` maps the pages of the
old master into it.

* `Duplicated` is what the call may do to the entries: one that is there keeps its frame, and only
  the entries of the destination can become present.
* `mmapDup_ok_iff` says when the call comes back. Its cursors do not cross from one table to the
  next as they should, so the destination has to lie in one table.
-/

namespace Hydrax

variable {s s' : State} {dir : DirRef} {dst fuel len n src : Nat}

/-- An entry that is there keeps its frame, and only the entries of `P` may become present. -/
structure Duplicated (P : Nat → Nat → Prop) (s s' : State) : Prop where
  step : FrameStep s s'
  kept : ∀ t j, (s.page t j).present = true →
    (s'.page t j).present = true ∧ (s'.page t j).frame = (s.page t j).frame
  absent : ∀ t j, ¬ P t j → (s.page t j).present = false → (s'.page t j).present = false

theorem Duplicated.refl (P : Nat → Nat → Prop) (s : State) : Duplicated P s s :=
  ⟨.refl s, fun _ _ h => ⟨h, rfl⟩, fun _ _ _ h => h⟩

theorem Duplicated.trans {P Q R : Nat → Nat → Prop} {s₁ s₂ s₃ : State} (h : Duplicated P s₁ s₂)
    (h' : Duplicated Q s₂ s₃) (hP : ∀ t j, P t j → R t j) (hQ : ∀ t j, Q t j → R t j) :
    Duplicated R s₁ s₃ := by
  refine ⟨h.step.trans h'.step, fun t j hp => ?_, fun t j hR hp => ?_⟩
  · obtain ⟨hp₂, hf₂⟩ := h.kept t j hp
    obtain ⟨hp₃, hf₃⟩ := h'.kept t j hp₂
    exact ⟨hp₃, hf₃.trans hf₂⟩
  · exact h'.absent t j (fun hx => hR (hQ t j hx)) (h.absent t j (fun hx => hR (hP t j hx)) hp)

theorem PageShared.duplicated {t j mt mj : Nat} (h : PageShared s s' t j mt mj)
    (hm : (s.page mt mj).present = true) (hp : (s.page t j).present = false) :
    Duplicated (Slot t j) s s' := by
  refine ⟨h.step, fun t' j' hp' => ?_, fun t' j' hs hp' => ?_⟩
  · have hs : ¬ Slot t j t' j' := by
      rintro ⟨rfl, rfl⟩
      rw [hp] at hp'
      cases hp'
    by_cases hs' : Slot mt mj t' j'
    · obtain ⟨rfl, rfl⟩ := hs'
      rw [h.master]
      exact ⟨hm, rfl⟩
    · rw [h.page t' j' hs hs']
      exact ⟨hp', rfl⟩
  · have hs' : ¬ Slot mt mj t' j' := by
      rintro ⟨rfl, rfl⟩
      rw [hm] at hp'
      cases hp'
    rw [h.page t' j' hs hs']
    exact hp'

/-! ## One page -/

theorem dupPage_eq {src dst : DupCursor} (hsrc : src.table ≠ 0) (hdst : dst.table ≠ 0)
    (hsrc' : src.entry < tableSize) (hdst' : dst.entry < tableSize) :
    dupPage s src dst = .ok (
      if (s.page src.table src.entry).present && !(s.page dst.table dst.entry).present then
        s.sharePage dst.table dst.entry src.table src.entry
      else s) := by
  have htables : ¬ (src.table = 0 ∨ dst.table = 0) := not_or.mpr ⟨hsrc, hdst⟩
  have hbounds : ¬ (src.entry ≥ tableSize ∨ dst.entry ≥ tableSize) :=
    not_or.mpr ⟨Nat.not_le.mpr hsrc', Nat.not_le.mpr hdst'⟩
  rw [dupPage, if_neg htables, if_neg hbounds]
  dsimp only
  split
  · rw [State.sharePage, ← shareMaster_eq]
    rfl
  · rfl

theorem dupPage_duplicated {src dst : DupCursor} (hsrc : src.table ≠ 0)
    (hdst : dst.table ≠ 0) (hsrc' : src.entry < tableSize) (hdst' : dst.entry < tableSize) :
    ∃ s', dupPage s src dst = .ok s' ∧ Duplicated (Slot dst.table dst.entry) s s' := by
  rw [dupPage_eq hsrc hdst hsrc' hdst']
  refine ⟨_, rfl, ?_⟩
  split
  next h =>
    rw [Bool.and_eq_true, Bool.not_eq_true'] at h
    have hne : (src.table, src.entry) ≠ (dst.table, dst.entry) := by
      intro heq
      obtain ⟨ht, he⟩ := Prod.mk.inj heq
      rw [ht, he, h.2] at h
      cases h.1
    exact (pageShared_sharePage hne).duplicated h.1 h.2
  · exact .refl _ s

theorem dupPage_ok {src dst : DupCursor} (h : dupPage s src dst = .ok s') :
    src.table ≠ 0 ∧ dst.table ≠ 0 ∧ dst.entry < tableSize := by
  rw [dupPage] at h
  split at h
  · cases h
  next htables =>
    split at h
    · cases h
    next hbounds =>
      rw [not_or] at htables hbounds
      exact ⟨htables.1, htables.2, Nat.not_le.mp hbounds.2⟩

/-! ## The walk -/

/-- The entries that a walk of `n` pages from `dst` on may fill. -/
def DupTarget (dst : DupCursor) (n t j : Nat) : Prop :=
  t = dst.table ∧ dst.entry ≤ j ∧ j < dst.entry + n

/-- A walk of `n` pages comes back. The destination has to lie in one table. The source may cross to
another one, but it is not the next: `s_indx` counts pages. -/
def WalkFits (s : State) (dir : DirRef) (src dst : DupCursor) (n : Nat) : Prop :=
  n = 0 ∨ (src.table ≠ 0 ∧ dst.table ≠ 0 ∧ dst.entry + n ≤ 1024 ∧
    (src.entry + n ≤ 1024 ∨ (s.dirs dir).tables (src.indx + (1024 - src.entry) + 1) ≠ 0))

theorem dupLoop_of_unaligned (hlen : len % pageSize ≠ 0) (fuel : Nat)
    (s s' : State) (src dst : DupCursor) : dupLoop dir fuel s src dst len ≠ .ok s' := by
  induction fuel generalizing s src dst len with
  | zero =>
    intro h
    cases h
  | succ fuel ih =>
    intro h
    have h0 : len ≠ 0 := by
      rintro rfl
      exact hlen rfl
    rw [dupLoop, if_neg h0, Loop.bind_eq_ok] at h
    obtain ⟨s₁, -, h⟩ := h
    refine ih ?_ s₁ _ _ h
    simp only [pageSize, wordSize] at *
    omega

theorem dupLeft (hn : (n + 1) * pageSize < wordSize) : (n + 1) * pageSize ≠ 0 ∧
    ((n + 1) * pageSize + (wordSize - pageSize)) % wordSize = n * pageSize := by
  simp only [pageSize, wordSize] at *
  omega

theorem dupLoop_succ {src dst : DupCursor} (hn : (n + 1) * pageSize < wordSize) :
    dupLoop dir (fuel + 1) s src dst ((n + 1) * pageSize) = .ok s' ↔
      ∃ s₁, dupPage s src dst = .ok s₁ ∧
        dupLoop dir fuel s₁ (dupMove s₁ dir src dst).1 (dupMove s₁ dir src dst).2 (n * pageSize) =
          .ok s' := by
  rw [dupLoop, if_neg (dupLeft hn).1, (dupLeft hn).2, Loop.bind_eq_ok]

structure DupCursor.Inside (c : DupCursor) : Prop where
  offs : c.offs = c.entry
  lt : c.entry < 1024

def DupCursor.next (c : DupCursor) : DupCursor :=
  { c with entry := c.entry + 1, indx := c.indx + 1, offs := c.offs + 1 }

def DupCursor.cross (c : DupCursor) (table : Nat) : DupCursor :=
  { table := table, entry := 0, indx := c.indx + 1 + 1, offs := 0 }

theorem DupCursor.Inside.cross (c : DupCursor) (table : Nat) : (c.cross table).Inside :=
  ⟨rfl, Nat.zero_lt_succ 1023⟩

theorem DupCursor.Inside.next {c : DupCursor} (h : c.Inside) (hlt : c.entry + 1 < 1024) :
    c.next.Inside :=
  ⟨congrArg (· + 1) h.offs, hlt⟩

section Move

variable (s : State) (dir : DirRef) (src : DupCursor) {dst : DupCursor}

theorem dupMove_of_end (hdst : dst.offs + 1 = 1024) : (dupMove s dir src dst).2.entry = 1024 := by
  unfold dupMove
  dsimp only
  rw [if_pos hdst]
  exact hdst

variable {src}

theorem dupMove_inside (hsrc : src.offs + 1 ≠ 1024) (hdst : dst.offs + 1 ≠ 1024) :
    dupMove s dir src dst = (src.next, dst.next) := by
  unfold dupMove
  dsimp only
  rw [if_neg hsrc, if_neg hdst]
  rfl

theorem dupMove_cross (hsrc : src.offs + 1 = 1024) (hdst : dst.offs + 1 ≠ 1024) :
    dupMove s dir src dst =
      (src.cross ((s.dirs dir).tables (src.indx + 1 + 1)), dst.next) := by
  unfold dupMove
  dsimp only
  rw [if_pos hsrc, if_neg hdst]
  rfl

end Move

theorem dupLoop_behind {src dst : DupCursor}
    (hn : n * pageSize < wordSize) (hdst : 1024 ≤ dst.entry)
    (h : dupLoop dir fuel s src dst (n * pageSize) = .ok s') : n = 0 := by
  cases n with
  | zero => rfl
  | succ n =>
    cases fuel with
    | zero => cases h
    | succ fuel =>
      obtain ⟨s₁, hpage, -⟩ := (dupLoop_succ hn).mp h
      have hlt := (dupPage_ok hpage).2.2
      rw [tableSize] at hlt
      omega

theorem dupLoop_zero (hfuel : 0 < fuel) (s : State)
    (src dst : DupCursor) : dupLoop dir fuel s src dst 0 = .ok s := by
  obtain ⟨fuel, rfl⟩ := Nat.exists_eq_succ_of_ne_zero hfuel.ne'
  rw [dupLoop, if_pos rfl]

theorem walkFits_of_dupLoop {src dst : DupCursor}
    (hsrc : src.Inside) (hdst : dst.Inside) (hn : n * pageSize < wordSize)
    (h : dupLoop dir fuel s src dst (n * pageSize) = .ok s') : WalkFits s dir src dst n := by
  induction n generalizing fuel s src dst with
  | zero => exact Or.inl rfl
  | succ n ih =>
    have hn' : n * pageSize < wordSize :=
      lt_of_le_of_lt (Nat.mul_le_mul_right pageSize (Nat.le_succ n)) hn
    cases fuel with
    | zero => cases h
    | succ fuel =>
      obtain ⟨s₁, hpage, hrest⟩ := (dupLoop_succ hn).mp h
      obtain ⟨ht, ht', hlt⟩ := dupPage_ok hpage
      obtain ⟨s₁', hpage', hdup⟩ := dupPage_duplicated (s := s) ht ht' hsrc.lt hlt
      obtain rfl : s₁' = s₁ := Except.ok.inj (hpage'.symm.trans hpage)
      have hsrc' := hsrc.lt
      have hdst' := hdst.lt
      refine Or.inr ⟨ht, ht', ?_⟩
      by_cases hend : dst.entry + 1 = 1024
      · -- the last page of the destination's table is the last page of the walk
        have hbehind := dupMove_of_end s₁' dir src
          (show dst.offs + 1 = 1024 by rw [hdst.offs]; exact hend)
        obtain rfl := dupLoop_behind hn' hbehind.ge hrest
        exact ⟨by omega, Or.inl (by omega)⟩
      have hoffs : dst.offs + 1 ≠ 1024 := by
        rw [hdst.offs]
        exact hend
      have hnext := hdst.next (by omega)
      by_cases hcross : src.entry + 1 = 1024
      · rw [dupMove_cross _ _ (by rw [hsrc.offs]; exact hcross) hoffs] at hrest
        have hone : 1024 - src.entry = 1 := by omega
        rcases ih (.cross ..) hnext hn' hrest with h0 | ⟨htab, -, hfits, -⟩
        · exact ⟨by omega, Or.inl (by omega)⟩
        · rw [hdup.step.dirs] at htab
          rw [hone]
          simp only [DupCursor.next] at hfits
          exact ⟨by omega, Or.inr htab⟩
      · rw [dupMove_inside _ _ (by rw [hsrc.offs]; exact hcross) hoffs] at hrest
        rcases ih (hsrc.next (by omega)) hnext hn' hrest with h0 | ⟨-, -, hfits, hfits'⟩
        · exact ⟨by omega, Or.inl (by omega)⟩
        · rw [hdup.step.dirs] at hfits'
          simp only [DupCursor.next] at hfits hfits'
          refine ⟨by omega, hfits'.imp (fun h => by omega) (fun h => ?_)⟩
          rwa [show src.indx + 1 + (1024 - (src.entry + 1)) + 1 =
            src.indx + (1024 - src.entry) + 1 by omega] at h

theorem WalkFits.dupLoop {src dst : DupCursor}
    (hsrc : src.Inside) (hdst : dst.Inside) (hn : n * pageSize < wordSize) (hfuel : n < fuel)
    (h : WalkFits s dir src dst n) :
    ∃ s', Hydrax.dupLoop dir fuel s src dst (n * pageSize) = .ok s' ∧
      Duplicated (DupTarget dst n) s s' := by
  induction n generalizing fuel s src dst with
  | zero => exact ⟨s, by rw [Nat.zero_mul]; exact dupLoop_zero hfuel s src dst, .refl _ s⟩
  | succ n ih =>
    have hn' : n * pageSize < wordSize :=
      lt_of_le_of_lt (Nat.mul_le_mul_right pageSize (Nat.le_succ n)) hn
    obtain ⟨fuel, rfl⟩ := Nat.exists_eq_succ_of_ne_zero (Nat.ne_of_gt (Nat.zero_lt_of_lt hfuel))
    have hfuel' : n < fuel := Nat.lt_of_succ_lt_succ hfuel
    obtain ⟨ht, ht', hfits, hfits'⟩ := h.resolve_left (Nat.succ_ne_zero n)
    obtain ⟨s₁, hpage, hdup⟩ := dupPage_duplicated (s := s) ht ht' hsrc.lt hdst.lt
    have hfirst : ∀ t j, Slot dst.table dst.entry t j → DupTarget dst (n + 1) t j := by
      rintro t j ⟨rfl, rfl⟩
      exact ⟨rfl, le_rfl, by omega⟩
    -- what is left of the walk, from wherever the cursors moved
    have hrest : ∃ s', Hydrax.dupLoop dir fuel s₁ (dupMove s₁ dir src dst).1
        (dupMove s₁ dir src dst).2 (n * pageSize) = .ok s' ∧
        Duplicated (DupTarget dst (n + 1)) s₁ s' := by
      have hlater : ∀ t j, DupTarget dst.next n t j → DupTarget dst (n + 1) t j := by
        rintro t j ⟨rfl, hle, hlt⟩
        simp only [DupCursor.next] at hle hlt
        exact ⟨rfl, by omega, by omega⟩
      cases n with
      | zero =>
        refine ⟨s₁, ?_, .refl _ s₁⟩
        rw [Nat.zero_mul]
        exact dupLoop_zero hfuel' _ _ _
      | succ n =>
        have hoffs : dst.offs + 1 ≠ 1024 := by
          rw [hdst.offs]
          omega
        have hnext := hdst.next (by omega)
        by_cases hcross : src.entry + 1 = 1024
        · rw [dupMove_cross _ _ (by rw [hsrc.offs]; exact hcross) hoffs]
          have htab := hfits'.resolve_left (by omega)
          rw [show 1024 - src.entry = 1 by omega] at htab
          rw [← hdup.step.dirs] at htab
          obtain ⟨s', hs', hdup'⟩ := ih (s := s₁) (.cross src _) hnext hn' hfuel'
            (Or.inr ⟨htab, ht', by simp only [DupCursor.next]; omega,
              Or.inl (by simp only [DupCursor.cross]; omega)⟩)
          exact ⟨s', hs', (Duplicated.refl _ s₁).trans hdup' hlater hlater⟩
        · rw [dupMove_inside _ _ (by rw [hsrc.offs]; exact hcross) hoffs]
          have hsrc' := hsrc.lt
          obtain ⟨s', hs', hdup'⟩ := ih (s := s₁) (hsrc.next (by omega)) hnext hn' hfuel'
            (Or.inr ⟨ht, ht', by simp only [DupCursor.next]; omega, by
              rw [hdup.step.dirs]
              simp only [DupCursor.next]
              refine hfits'.imp (fun h => by omega) (fun h => ?_)
              rwa [show src.indx + 1 + (1024 - (src.entry + 1)) + 1 =
                src.indx + (1024 - src.entry) + 1 by omega]⟩)
          exact ⟨s', hs', (Duplicated.refl _ s₁).trans hdup' hlater hlater⟩
    obtain ⟨s', hs', hdup'⟩ := hrest
    exact ⟨s', (dupLoop_succ hn).mpr ⟨s₁, hpage, hs'⟩,
      hdup.trans hdup' hfirst (fun _ _ h => h)⟩

/-! ## The call -/

theorem DupCursor.Inside.start (s : State) (dir : DirRef) (address : Nat) :
    (DupCursor.start s dir address).Inside :=
  ⟨rfl, pageIdx_lt _⟩

/-- `mmap_dup` comes back: the length is a whole number of pages, and the walk fits. -/
def DupFits (s : State) (dir : DirRef) (src dst len : Nat) : Prop :=
  len % pageSize = 0 ∧ WalkFits s dir (DupCursor.start s dir src)
    (DupCursor.start s s.currentDirectory dst) (len / pageSize)

/-- The entries that `mmap_dup` may fill. -/
def DupFills (s : State) (dst len t j : Nat) : Prop :=
  DupTarget (DupCursor.start s s.currentDirectory dst) (len / pageSize) t j

theorem DupFits.mmapDup (hlen : len < wordSize) (h : DupFits s dir src dst len) :
    ∃ s', Hydrax.mmapDup s dir src dst len = .ok s' ∧ Duplicated (DupFills s dst len) s s' := by
  obtain ⟨haligned, hfits⟩ := h
  have hmul : len / pageSize * pageSize = len :=
    Nat.div_mul_cancel (Nat.dvd_of_mod_eq_zero haligned)
  have hfuel : len / pageSize < addrFuel := by
    simp only [addrFuel, pageSize, wordSize] at *
    omega
  have hloop := hfits.dupLoop (.start ..) (.start ..) (by rw [hmul]; exact hlen) hfuel
  rw [hmul] at hloop
  exact hloop

theorem mmapDup_ok_iff (hlen : len < wordSize) :
    (∃ s', mmapDup s dir src dst len = .ok s') ↔ DupFits s dir src dst len := by
  constructor
  · rintro ⟨s', h⟩
    have haligned : len % pageSize = 0 := by
      by_contra hne
      exact dupLoop_of_unaligned hne _ _ _ _ _ h
    have hmul : len / pageSize * pageSize = len :=
      Nat.div_mul_cancel (Nat.dvd_of_mod_eq_zero haligned)
    rw [mmapDup, ← hmul] at h
    exact ⟨haligned, walkFits_of_dupLoop (.start ..) (.start ..) (by rw [hmul]; exact hlen) h⟩
  · intro hfits
    obtain ⟨s', h, -⟩ := hfits.mmapDup hlen
    exact ⟨s', h⟩

theorem mmapDup_duplicated (hlen : len < wordSize)
    (h : mmapDup s dir src dst len = .ok s') : Duplicated (DupFills s dst len) s s' := by
  obtain ⟨s₁, h₁, hdup⟩ := ((mmapDup_ok_iff hlen).mp ⟨s', h⟩).mmapDup hlen
  obtain rfl : s₁ = s' := Except.ok.inj (h₁.symm.trans h)
  exact hdup

end Hydrax
