import Hydrax.Mmu.Fault
import Hydrax.Mmu.Progress

/-!
# The write branch of `page_fault`

The first write to a page that is not commited. If no other entry maps its frame the page only gets
its write access back. Otherwise the entry leaves the frame for a new one with a copy of the
contents.

* `Committed` — the two ways the branch ends, `faultCommit_cases` — that there is no other,
* `Inv.faultCommit` — it keeps the invariant: the frame that was left still has an entry.
-/

namespace Hydrax

open Function (update update_apply update_of_ne)

variable {j t : Nat} {L : List Nat}

/-- The entry `j` of the table at `t` left its frame for the free frame `f`. -/
structure Moved (s s' : State) (t j f : Nat) : Prop where
  step : CopyStep s s'
  page : ∀ t' j', ¬ Slot t j t' j' → s'.page t' j' = s.page t' j'
  info : ∀ t' j', ¬ Slot t j t' j' → s'.info t' j' = s.info t' j'
  refs : ∀ t', (s'.tables t').refs = (s.tables t').refs
  entry : s'.page t j = { s.page t j with
    present := true, rw := true, accessed := false, dirty := false, frame := f }
  record : s'.info t j = { s.info t j with commited := true }
  ne_zero : f ≠ 0
  free : s.physicalMemmap.used f = false
  length : s'.physicalMemmap.length = s.physicalMemmap.length
  used : ∀ g, s'.physicalMemmap.used g = (decide (g = f) || s.physicalMemmap.used g)
  out : s'.outOfFrames = s.outOfFrames
  frameRefs : s'.frameRefs =
    let refs := update s.frameRefs f (incr (s.frameRefs f))
    update refs (s.page t j).frame (decr (refs (s.page t j).frame))
  mem : s'.mem = update s.mem f (s.mem (s.page t j).frame)

/-- An entry that has its frame for itself gets its write access back. -/
def State.commitOwner (s : State) (t j : Nat) : State :=
  (s.setPage t j { s.page t j with rw := true }).setInfo t j { s.info t j with commited := true }

inductive Committed (s : State) (t j : Nat) : State → Prop where
  | owner (h1 : s.frameRefs (s.page t j).frame = 1) : Committed s t j (s.commitOwner t j)
  | moved {s' : State} {f : Nat} (h1 : s.frameRefs (s.page t j).frame ≠ 1)
      (moved : Moved s s' t j f) : Committed s t j s'

theorem faultCommit_cases {s s' : State} {v address : Nat} (hv : address / pageSize = v)
    (ht : s.tableOf s.currentDirectory v = t) (hj : pageIdx v = j)
    (h : faultCommit s t j address = .ok s') : Committed s t j s' := by
  simp only [faultCommit] at h
  split at h
  next h1 =>
    cases h
    exact .owner h1
  next h1 =>
    simp only [Loop.bind_eq_ok, Prod.exists, assert_eq_ok, bne_iff_ne, Loop.pure_eq_ok] at h
    obtain ⟨phys, s₁, hframe, -, hne, rfl⟩ := h
    have htab : (s.setPage t j { s.page t j with frame := 0 }).tableOf
        (s.setPage t j { s.page t j with frame := 0 }).currentDirectory v = t := ht
    have hzero : ((s.setPage t j { s.page t j with frame := 0 }).page t j) =
        { s.page t j with frame := 0 } := by
      rw [State.page_setPage, if_pos ⟨rfl, rfl⟩]
    obtain ⟨-, ⟨hbad, -⟩ | ⟨-, htake⟩⟩ := mmuAllocFrame_cases hframe hv htab
    · rw [hj, hzero] at hbad
      exact absurd rfl hbad
    rw [hj] at htake
    obtain ⟨f, htook, -⟩ := tookFrame_mmuTakeFrame htake
    have hpage := htook.page
    rw [hzero] at hpage
    rw [hpage] at hne
    -- a frame that is not `0` was free
    have hfree : s.physicalMemmap.used f = false := by
      cases hu : s.physicalMemmap.used f with
      | false => rfl
      | true =>
        have hfirst := htook.first
        exact absurd (hfirst.trans (memmapFindFreePage_eq_zero (hfirst ▸ hu))) hne
    have hall : Touches (Slot t j) s (s₁.setPage t j { s₁.page t j with rw := true }) :=
      ((touches_setPage _ _ _ _).trans htook.touches).trans (touches_setPage _ _ _ _)
    have hentry : (s₁.setPage t j { s₁.page t j with rw := true }).page t j = { s.page t j with
        present := true, rw := true, accessed := false, dirty := false, frame := f } := by
      rw [State.page_setPage, if_pos ⟨rfl, rfl⟩, hpage]
    refine .moved h1 ⟨?_, hall.page, hall.info, hall.refs, hentry, ?_, hne, hfree, hall.length,
      htook.used, ?_, ?_, ?_⟩
    · obtain ⟨_, _, _, _, hs⟩ := hall.step
      rw [hs]
      exact ⟨_, _, _, _, _, rfl⟩
    · show (s₁.setPage t j _).info t j = _
      rw [State.info_setPage, htook.info, State.info_setPage]
    · have hout := htook.out
      show s₁.outOfFrames = s.outOfFrames
      rw [hout]
      show (s.outOfFrames || s.physicalMemmap.used f) = s.outOfFrames
      rw [hfree, Bool.or_false]
    · have hrefs : s₁.frameRefs = update s.frameRefs f (incr (s.frameRefs f)) := htook.refs
      show update s₁.frameRefs _ (decr (s₁.frameRefs _)) = _
      rw [hrefs]
    · have hmem : s₁.mem = s.mem := by
        obtain ⟨_, _, _, _, hs⟩ := htook.touches.step
        rw [hs]
        rfl
      show update s₁.mem ((s₁.setPage t j _).page t j).frame (s₁.mem (s.page t j).frame) = _
      rw [hentry, hmem]

/-! ## The invariant -/

theorem Moved.frameRefs_eq {s s' : State} {f : Nat} (h : Moved s s' t j f)
    (hI : Inv s L) (hx : (t, j) ∈ slots s.dirs L) {k : Nat} (hk : k ≠ 0) :
    s'.frameRefs k = if k = f then s.frameRefs k + 1
      else if k = (s.page t j).frame then s.frameRefs k - 1 else s.frameRefs k := by
  have hne : (s.page t j).frame ≠ f := by
    rintro rfl
    have hused := hI.frame_used hx h.ne_zero
    rw [h.free] at hused
    cases hused
  rw [h.frameRefs]
  dsimp only
  rw [update_apply, update_of_ne hne]
  by_cases hkf : k = f
  · subst hkf
    rw [if_neg (Ne.symm hne), if_pos rfl, Function.update_self,
      hI.balanced.incr_eq hI.fewSlots h.ne_zero]
  · rw [if_neg hkf, update_of_ne hkf]
    split
    next hkx =>
      subst hkx
      exact decr_of_pos (RefCount.Balanced.refs_pos hI.balanced hx hk)
    · rfl

theorem Moved.inv {s s' : State} {f : Nat} (h : Moved s s' t j f)
    (hI : Inv s L) (hx : (t, j) ∈ slots s.dirs L)
    (h1 : s.frameRefs (s.page t j).frame ≠ 1) : Inv s' L := by
  have hframes : frameAt s'.tables = update (frameAt s.tables) (t, j) f := by
    funext x
    obtain ⟨t', j'⟩ := x
    rw [update_apply]
    show (s'.page t' j').frame = _
    by_cases hs : Slot t j t' j'
    · obtain ⟨rfl, rfl⟩ := hs
      rw [if_pos rfl, h.entry]
    · rw [if_neg (fun heq => hs (Prod.mk.inj heq)), h.page t' j' hs]
      rfl
  have hB : Balanced s' L := by
    rw [Balanced, h.step.dirs, hframes]
    exact hI.balanced.move hx (fun _ => h1) h.ne_zero h.free
      (fun k hk => h.frameRefs_eq hI hx hk) (fun k _ => h.used k)
  have hrefs := h.refs
  have hlen := h.length.trans hI.frames
  have hzero : s'.physicalMemmap.used 0 = true := by
    rw [h.used, hI.zero_frame, Bool.or_true]
  obtain ⟨_, _, _, _, _, rfl⟩ := h.step
  exact hI.of_balanced rfl hrefs hlen hzero hB

theorem Committed.inv {s s' : State} (h : Committed s t j s')
    (hI : Inv s L) (hx : (t, j) ∈ slots s.dirs L) : Inv s' L := by
  cases h with
  | owner _ =>
    have hpage : Inv (s.setPage t j { s.page t j with rw := true }) L := hI.setPage rfl
    exact hpage.setInfo _ _ _
  | moved h1 moved => exact moved.inv hI hx h1

theorem Committed.step {s s' : State} {t j : Nat} (h : Committed s t j s') : CopyStep s s' := by
  cases h with
  | owner _ => exact ⟨_, _, _, _, _, rfl⟩
  | moved _ moved => exact moved.step

theorem Committed.refs {s s' : State} (h : Committed s t j s') (t' : Nat) :
    (s'.tables t').refs = (s.tables t').refs := by
  cases h with
  | owner _ => rw [State.commitOwner, State.refs_setInfo, State.refs_setPage]
  | moved _ moved => exact moved.refs t'

theorem Inv.faultCommit {s s' : State} {address : Nat} (hI : Inv s L)
    (hcur : s.currentDirectory ∈ spaces L) (hv : address / pageSize < 1048576)
    (h0 : s.tableOf s.currentDirectory (address / pageSize) ≠ 0)
    (h : Hydrax.faultCommit s (s.tableOf s.currentDirectory (address / pageSize))
      (pageIdx (address / pageSize)) address = .ok s') : Inv s' L :=
  (faultCommit_cases rfl rfl rfl h).inv hI (slot_mem hcur hv h0)

end Hydrax
