import Hydrax.Io.Descriptor

/-!
# Descriptor numbers

Numbers come from the counter `fd_next` of a table, and from the caller of `dup2`. The counter is not
told about the caller's numbers, so the two meet if the caller is ahead of it.

* `descriptors_unique` — as long as no caller of `dup2` is ahead of the counter, the numbers of each
  table are different.
-/

namespace Hydrax.Io

open Loop

variable {t : DescTable} {fs : List File} {fd mode node pid r : Nat} {s s' : IoState}

/-! ## One table -/

/-- The numbers are different, and all from below the counter. -/
structure DescTable.Numbered (t : DescTable) : Prop where
  below : ∀ f ∈ t.fileDescriptors, f.fd < t.fdNext
  nodup : (t.fileDescriptors.map File.fd).Nodup
  range : t.fdNext < 2 ^ 32

theorem DescTable.numbered_empty : DescTable.Numbered {} :=
  ⟨fun _ hf => absurd hf List.not_mem_nil, List.nodup_nil, by decide⟩

theorem DescTable.Numbered.congr {t' : DescTable} (h : t.Numbered) (hnext : t'.fdNext = t.fdNext)
    (hfiles : t'.fileDescriptors = t.fileDescriptors) : t'.Numbered :=
  ⟨hfiles ▸ hnext ▸ h.below, hfiles ▸ h.nodup, hnext ▸ h.range⟩

theorem DescTable.Numbered.append (h : t.Numbered) (fd mode node : Nat)
    (hfree : ∀ f ∈ t.fileDescriptors, f.fd ≠ fd)
    (hle : t.fdNext ≤ next) (hlt : fd < next) (hrange : next < 2 ^ 32) :
    DescTable.Numbered { t with
      fdNext := next, fileDescriptors := t.fileDescriptors ++ [⟨fd, 0, mode, node⟩] } where
  below := by
    intro f hf
    rcases List.mem_append.mp hf with hf | hf
    · exact lt_of_lt_of_le (h.below f hf) hle
    · rw [List.mem_singleton.mp hf]
      exact hlt
  nodup := by
    rw [List.map_append, List.nodup_append]
    refine ⟨h.nodup, List.nodup_singleton _, ?_⟩
    intro x hx y hy
    obtain ⟨f, hf, rfl⟩ := List.mem_map.mp hx
    rw [List.mem_singleton.mp hy]
    exact hfree f hf
  range := hrange

theorem DescTable.Numbered.create_next (h : t.Numbered) (hroom : t.fdNext + 1 < 2 ^ 32) :
    (t.create node minusOne mode).Numbered := by
  have := h.append t.fdNext mode node
    (fun f hf => Nat.ne_of_lt (h.below f hf)) (Nat.le_succ _) (Nat.lt_succ_self _) hroom
  rw [create, number, if_pos rfl, if_pos rfl, Nat.mod_eq_of_lt hroom]
  exact this

theorem DescTable.Numbered.create_given (h : t.Numbered) (hlt : fd < t.fdNext)
    (hfree : ∀ f ∈ t.fileDescriptors, f.fd ≠ fd) : (t.create node fd mode).Numbered := by
  have hrange := h.range
  have hne : fd ≠ minusOne := by
    rw [minusOne]
    omega
  have := h.append fd mode node hfree (Nat.le_refl _) hlt hrange
  rw [create, number, if_neg hne, if_neg hne]
  exact this

theorem DescTable.Numbered.erase (h : t.Numbered) (fd : Nat) : (t.erase fd).Numbered where
  below := fun f hf => h.below f (List.mem_of_mem_eraseP hf)
  nodup := h.nodup.sublist (List.eraseP_sublist.map _)
  range := h.range

theorem fd_ne_of_mem_eraseP (h : (fs.map File.fd).Nodup) :
    ∀ f ∈ fs.eraseP (fun f => f.fd = fd), f.fd ≠ fd := by
  induction fs with
  | nil => exact fun f hf => absurd hf List.not_mem_nil
  | cons g fs ih =>
    rw [List.map_cons, List.nodup_cons] at h
    intro f hf
    by_cases hg : g.fd = fd
    · rw [List.eraseP_cons_of_pos (by simpa using hg)] at hf
      exact fun heq => h.1 (hg.trans heq.symm ▸ List.mem_map_of_mem hf)
    · rw [List.eraseP_cons_of_neg (by simpa using hg)] at hf
      rcases List.mem_cons.mp hf with rfl | hf
      · exact hg
      · exact ih h.2 f hf

theorem setOffset_fd (fd offset : Nat) (fs : List File) :
    (setOffset fd offset fs).map File.fd = fs.map File.fd := by
  fun_induction setOffset fd offset fs with
  | case1 => rfl
  | case2 f fs _ => rfl
  | case3 f fs _ ih => rw [List.map_cons, ih, List.map_cons]

theorem DescTable.Numbered.setOffset (h : t.Numbered) (fd offset : Nat) :
    DescTable.Numbered { t with fileDescriptors := setOffset fd offset t.fileDescriptors } := by
  have hfds := setOffset_fd fd offset t.fileDescriptors
  refine ⟨fun f hf => ?_, hfds ▸ h.nodup, h.range⟩
  have hmem : f.fd ∈ t.fileDescriptors.map File.fd := hfds ▸ List.mem_map_of_mem hf
  obtain ⟨f', hf', heq⟩ := List.mem_map.mp hmem
  exact heq ▸ h.below f' hf'

theorem DescTable.Numbered.find_eq_last (h : t.Numbered) (n : Nat) :
    t.fileDescriptors.find? (fun f => f.fd = n) =
      t.fileDescriptors.reverse.find? (fun f => f.fd = n) := by
  have hone := List.inj_on_of_nodup_map h.nodup
  cases hlast : t.fileDescriptors.reverse.find? (fun f => f.fd = n) with
  | none =>
    rw [List.find?_eq_none] at hlast ⊢
    exact fun f hf => hlast f (List.mem_reverse.mpr hf)
  | some f =>
    have hf := List.mem_reverse.mp (List.mem_of_find?_eq_some hlast)
    have hfd : f.fd = n := by simpa using List.find?_some hlast
    cases hfirst : t.fileDescriptors.find? (fun f => f.fd = n) with
    | none => exact absurd hfd (by simpa using List.find?_eq_none.mp hfirst f hf)
    | some g =>
      have hgd : g.fd = n := by simpa using List.find?_some hfirst
      rw [hone (List.mem_of_find?_eq_some hfirst) hf (hgd.trans hfd.symm)]

/-! ## All tables -/

/-- Every process has its numbers in order. -/
def Numbered (s : IoState) : Prop := ∀ pid t, s.tables pid = some t → t.Numbered

theorem Numbered.of_tables (h : Numbered s) (htables : s'.tables = s.tables) : Numbered s' := by
  intro pid t ht
  exact h pid t (htables ▸ ht)

theorem Numbered.update (h : Numbered s) {new : Option DescTable}
    (hnew : ∀ t, new = some t → t.Numbered)
    (htables : s'.tables = Function.update s.tables pid new) : Numbered s' := by
  intro pid' t ht
  rw [htables] at ht
  by_cases hp : pid' = pid
  · subst hp
    rw [Function.update_self] at ht
    exact hnew t ht
  · rw [Function.update_of_ne hp] at ht
    exact h pid' t ht

theorem Numbered.set (h : Numbered s)
    (htables : s'.tables = Function.update s.tables pid (some t)) (ht : t.Numbered) :
    Numbered s' :=
  h.update (fun _ heq => Option.some.inj heq ▸ ht) htables

theorem Numbered.create_next
    (hok : s.createFileDescriptor pid node minusOne mode = .ok (r, s')) (h : Numbered s)
    (hroom : ∀ t, s.tables pid = some t → t.fdNext + 1 < 2 ^ 32) :
    Numbered s' ∧ ∀ t', s'.tables pid = some t' → ∃ t, s.tables pid = some t ∧
      t'.fdNext ≤ t.fdNext + 1 := by
  rcases IoState.createFileDescriptor_cases hok with ⟨-, rfl⟩ | ⟨t, ht, -, -, rfl⟩
  · exact ⟨h.of_tables rfl, fun t' ht' => ⟨t', ht', Nat.le_succ _⟩⟩
  · refine ⟨h.set rfl ((h pid t ht).create_next (hroom t ht)), fun t' ht' => ⟨t, ht, ?_⟩⟩
    have heq : some (t.create node minusOne mode) = some t' :=
      (Function.update_self pid _ s.tables).symm.trans ht'
    cases heq
    rw [DescTable.create, if_pos rfl]
    exact Nat.mod_le _ _

theorem Numbered.close (h : Numbered s) (hok : s.close pid fd = .ok (r, s')) : Numbered s' := by
  rcases IoState.close_cases hok with ⟨-, rfl⟩ | ⟨t, f, live, ht, -, rfl⟩
  · exact h.of_tables rfl
  · exact h.set rfl ((h pid t ht).erase fd)

theorem Numbered.closeTarget (h : Numbered s) {oldfd newfd : Nat}
    (hok : s.closeTarget pid oldfd newfd = .ok s') :
    Numbered s' ∧ ∀ t', s'.tables pid = some t' →
      (∀ f ∈ t'.fileDescriptors, f.fd ≠ newfd) ∧
        ∃ t, s.tables pid = some t ∧ t'.fdNext = t.fdNext := by
  rw [IoState.closeTarget] at hok
  split at hok
  next hnone =>
    cases hok
    refine ⟨h, fun t ht => ⟨fun f hf => ?_, t, ht, rfl⟩⟩
    rw [IoState.getFileDescriptor, IoState.files, ht] at hnone
    simpa using List.find?_eq_none.mp hnone f hf
  next newDesc hnew =>
    split at hok
    · cases hok
    obtain ⟨⟨r, s''⟩, hclose, rfl⟩ := map_eq_ok.mp hok
    refine ⟨h.close hclose, fun t' ht' => ?_⟩
    have hfd : newDesc.fd = newfd := by simpa using List.find?_some hnew
    rcases IoState.close_cases hclose with ⟨hnil, -⟩ | ⟨t, f, live, ht, -, rfl⟩
    · rw [IoState.getFileDescriptor, hnil] at hnew
      cases hnew
    · have heq : some (t.erase newDesc.fd) = some t' :=
        (Function.update_self pid _ s.tables).symm.trans ht'
      cases heq
      rw [hfd]
      exact ⟨fd_ne_of_mem_eraseP (h pid t ht).nodup, t, ht, rfl⟩

theorem Numbered.create_free {s₀ : IoState} {newfd : Nat} (h : Numbered s)
    (hfree : ∀ t', s.tables pid = some t' → (∀ f ∈ t'.fileDescriptors, f.fd ≠ newfd) ∧
      ∃ t, s₀.tables pid = some t ∧ t'.fdNext = t.fdNext)
    (hnew : ∀ t, s₀.tables pid = some t →
      newfd = minusOne ∧ t.fdNext + 1 < 2 ^ 32 ∨ newfd < t.fdNext)
    (hok : (s.incrRefs node).createFileDescriptor pid node newfd mode = .ok (r, s')) :
    Numbered s' := by
  rcases IoState.createFileDescriptor_cases hok with ⟨-, rfl⟩ | ⟨t', ht', -, -, rfl⟩
  · exact h.of_tables rfl
  · obtain ⟨hne, t, ht, hnext⟩ := hfree t' ht'
    refine h.set rfl ?_
    rcases hnew t ht with ⟨rfl, hroom⟩ | hlt
    · exact (h pid t' ht').create_next (hnext ▸ hroom)
    · exact (h pid t' ht').create_given (hnext ▸ hlt) hne

theorem Numbered.dup2 (h : Numbered s) {oldfd newfd : Nat}
    (hnew : ∀ t, s.tables pid = some t →
      newfd = minusOne ∧ t.fdNext + 1 < 2 ^ 32 ∨ newfd < t.fdNext)
    (hok : s.dup2 pid oldfd newfd = .ok (r, s')) : Numbered s' := by
  rw [IoState.dup2] at hok
  split at hok
  next =>
    cases hok
    exact h.of_tables rfl
  next oldDesc hold =>
    rw [bind_eq_ok] at hok
    obtain ⟨s₁, htarget, hok⟩ := hok
    obtain ⟨h₁, hfree⟩ := h.closeTarget htarget
    split at hok
    · cases hok
    rw [bind_eq_ok] at hok
    obtain ⟨⟨fd, s₂⟩, hcreate, hok⟩ := hok
    have h₂ : Numbered s₂ := h₁.create_free hfree hnew hcreate
    dsimp only at hok
    split at hok
    · cases hok
      exact h₂
    split at hok
    · cases hok
    next t ht =>
      cases hok
      exact h₂.set rfl ((h₂ pid t ht).setOffset _ _)

theorem Numbered.pipe {res : Option (Nat × Nat)} (h : Numbered s)
    (hroom : ∀ t, s.tables pid = some t → t.fdNext + 2 < 2 ^ 32)
    (hok : s.pipe pid = .ok (res, s')) : Numbered s' := by
  rw [IoState.pipe] at hok
  rcases IoState.mallocPipe_cases s with ⟨live, mallocs, hm⟩ | hm
  · rw [hm, ok_bind] at hok
    cases hok
    exact h.of_tables rfl
  · rw [hm, ok_bind] at hok
    dsimp only at hok
    rw [bind_eq_ok] at hok
    obtain ⟨⟨fd₀, s₁⟩, hread, hok⟩ := hok
    rw [bind_eq_ok] at hok
    obtain ⟨⟨fd₁, s₂⟩, hwrite, hok⟩ := hok
    cases hok
    obtain ⟨h₁, hnext⟩ := Numbered.create_next hread (h.of_tables rfl)
      (fun t ht => Nat.lt_trans (Nat.lt_succ_self _) (hroom t ht))
    refine (Numbered.create_next hwrite h₁ (fun t' ht' => ?_)).1
    obtain ⟨t, ht, hle⟩ := hnext t' ht'
    have := hroom t ht
    omega

theorem Numbered.fork (h : Numbered s) (hok : s.fork pid = .ok (r, s')) : Numbered s' := by
  obtain ⟨-, hnone | ⟨t, ht, htables⟩⟩ := IoState.fork_cases hok
  · exact h.update (fun t ht => by cases ht) hnone
  · exact h.set htables ((h pid t ht).congr rfl rfl)

theorem Numbered.destroyDescriptorTable (h : Numbered s)
    (hok : s.destroyDescriptorTable pid = .ok s') : Numbered s' := by
  rw [IoState.destroyDescriptorTable] at hok
  split at hok
  · cases hok
  next t ht =>
    split at hok
    next =>
      rw [bind_eq_ok] at hok
      obtain ⟨s₁, hloop, hok⟩ := hok
      cases hok
      refine Numbered.update ?_ (fun t ht => by cases ht) rfl
      refine foldlM_inv_mem Numbered ?_ h hloop
      intro f _ s s' hI hstep
      obtain ⟨⟨r, s''⟩, hclose, rfl⟩ := map_eq_ok.mp hstep
      exact hI.close hclose
    next =>
      cases hok
      exact h.set rfl ((h pid t ht).congr rfl rfl)

/-! ## Runs -/

/-- The counter of the caller does not wrap in the call, and a number given to `dup2` is behind it. -/
def NumberBehind (s : IoState) (e : Nat × IoCall) : Prop :=
  ∀ t, s.tables e.1 = some t →
    match e.2 with
    | .openFile _ | .pipe | .dup _ => t.fdNext + 2 < 2 ^ 32
    | .dup2 _ newfd => newfd < t.fdNext
    | .close _ | .fork | .exit => True

theorem Numbered.step {e : Nat × IoCall} (h : Numbered s) (hok : NumberBehind s e)
    (hstep : IoStep s e s') : Numbered s' := by
  obtain ⟨-, hexec⟩ := hstep
  obtain ⟨pid, call⟩ := e
  cases call with
  | openFile found =>
    obtain ⟨⟨r, s''⟩, hopen, rfl⟩ := map_eq_ok.mp hexec
    cases found with
    | none =>
      cases hopen
      exact h
    | some node =>
      change (s.incrRefs node).createFileDescriptor pid node minusOne _ = _ at hopen
      refine (Numbered.create_next hopen (h.of_tables rfl) (fun t ht => ?_)).1
      have : t.fdNext + 2 < 2 ^ 32 := hok t ht
      omega
  | pipe =>
    obtain ⟨⟨r, s''⟩, hpipe, rfl⟩ := map_eq_ok.mp hexec
    exact h.pipe hok hpipe
  | dup oldfd =>
    obtain ⟨⟨r, s''⟩, hdup, rfl⟩ := map_eq_ok.mp hexec
    refine h.dup2 (fun t ht => Or.inl ⟨rfl, ?_⟩) hdup
    have : t.fdNext + 2 < 2 ^ 32 := hok t ht
    omega
  | dup2 oldfd newfd =>
    obtain ⟨⟨r, s''⟩, hdup, rfl⟩ := map_eq_ok.mp hexec
    exact h.dup2 (fun t ht => Or.inr (hok t ht)) hdup
  | close fd =>
    obtain ⟨⟨r, s''⟩, hclose, rfl⟩ := map_eq_ok.mp hexec
    exact h.close hclose
  | fork =>
    obtain ⟨⟨r, s''⟩, hfork, rfl⟩ := map_eq_ok.mp hexec
    exact h.fork hfork
  | exit => exact h.destroyDescriptorTable hexec

theorem numbered_boot (mallocOk : Nat → Bool) (mallocs : Nat) (nodes : Nat → Node)
    (live : Nat → Bool) : Numbered (ioBoot mallocOk mallocs nodes live) := by
  have hnone : Numbered { ioBoot mallocOk mallocs nodes live with tables := fun _ => none } :=
    fun pid t ht => by cases ht
  exact hnone.set rfl DescTable.numbered_empty

/-- **Descriptor numbers are unique**, and a number stands for the descriptor that was created last
for it, in every run in which no number given to `dup2` is ahead of the counter. -/
theorem descriptors_unique (mallocOk : Nat → Bool) (mallocs : Nat) (nodes : Nat → Node)
    (live : Nat → Bool) {s : IoState}
    (h : Reach IoStep NumberBehind (ioBoot mallocOk mallocs nodes live) s) (pid : Nat) :
    ((s.files pid).map File.fd).Nodup ∧
      ∀ n, s.getFileDescriptor pid n = (s.files pid).reverse.find? (fun f => f.fd = n) := by
  have hnum : Numbered s :=
    h.invariant (numbered_boot mallocOk mallocs nodes live) (fun hI hok hstep => hI.step hok hstep)
  rw [IoState.files]
  cases ht : s.tables pid with
  | none =>
    refine ⟨List.nodup_nil, fun n => ?_⟩
    rw [IoState.getFileDescriptor, IoState.files, ht]
    rfl
  | some t =>
    refine ⟨(hnum pid t ht).nodup, fun n => ?_⟩
    rw [IoState.getFileDescriptor, IoState.files, ht]
    exact (hnum pid t ht).find_eq_last n

/-- The machine after boot, with memory for everything. -/
def ioBootSmall : IoState := ioBoot (fun _ => true) 0 (fun _ => {}) (fun _ => false)

theorem descriptors_unique_pipe :
    ∃ s, Reach IoStep NumberBehind ioBootSmall s ∧ (s.files 0).map File.fd = [1, 0] ∧
      ((s.files 0).map File.fd).Nodup ∧
      ∀ n, s.getFileDescriptor 0 n = (s.files 0).reverse.find? (fun f => f.fd = n) := by
  have hpipe : Reach IoStep NumberBehind ioBootSmall _ :=
    .step .start (e := (0, .pipe)) (fun t ht => by cases ht; decide)
      ⟨⟨Nat.one_pos, fun _ => nofun⟩, rfl⟩
  have hrun := hpipe.step (e := (0, .dup2 1 0)) (fun t ht => by cases ht; decide)
    ⟨⟨Nat.one_pos, fun _ => nofun⟩, rfl⟩
  exact ⟨_, hrun, rfl, descriptors_unique _ _ _ _ hrun 0⟩

/-- `dup2` gives out a number, and the counter comes to it later: what was meant for the write end
of the pipe goes to the read end. -/
theorem descriptors_collide :
    ∃ s, Reach IoStep (fun _ _ => True) ioBootSmall s ∧ (s.files 0).map File.fd = [0, 1, 2, 2] ∧
      s.getFileDescriptor 0 2 ≠ (s.files 0).reverse.find? (fun f => f.fd = 2) := by
  have hpipe : Reach IoStep (fun _ _ => True) ioBootSmall _ :=
    .step .start (e := (0, .pipe)) trivial ⟨⟨Nat.one_pos, fun _ => nofun⟩, rfl⟩
  have hdup := hpipe.step (e := (0, .dup2 0 2)) trivial ⟨⟨Nat.one_pos, fun _ => nofun⟩, rfl⟩
  have hrun := hdup.step (e := (0, .dup 1)) trivial ⟨⟨Nat.one_pos, fun _ => nofun⟩, rfl⟩
  exact ⟨_, hrun, rfl, by decide⟩

end Hydrax.Io
