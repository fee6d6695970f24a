import Hydrax.Io.Descriptor

/-!
# Calls that fail

What `close`, `dup2`, `pipe` and `clone_descriptor_table` leave behind when a number is not open or
a call of `malloc` fails. `dup2` and `clone_descriptor_table` take references before the allocation
that may fail, and `pipe` does not look at what `create_file_descriptor` returns.

* `fails_cleanly_iff` — when such a call reports the failure and leaves everything as it was.
-/

namespace Hydrax.Io

open Loop
open Function (update update_self)

inductive DescCall where
  | close (fd : Nat)
  | dup2 (oldfd newfd : Nat)
  | pipe
  | cloneTable

/-- Whether the call reports a failure, and the state it leaves. -/
def DescCall.exec (s : IoState) (pid : Nat) : DescCall → Except Stop (Bool × IoState)
  | .close fd => (fun x => (x.1 == minusOne, x.2)) <$> s.close pid fd
  | .dup2 oldfd newfd => (fun x => (x.1 == minusOne, x.2)) <$> s.dup2 pid oldfd newfd
  | .pipe => (fun x => (x.1.isNone, x.2)) <$> s.pipe pid
  | .cloneTable => (fun x => (x.1.isNone, x.2)) <$> s.cloneDescriptorTable pid

/-- A call of `malloc` for a block that is no `file_t`, after `k` others, succeeds. -/
def IoState.BlockFree (s : IoState) (k : Nat) : Prop := s.mallocOk (s.mallocs + k) = true

/-- The same for a `file_t`, of which `i` were allocated since. -/
def IoState.FileFree (s : IoState) (k i : Nat) : Prop :=
  s.mallocOk (s.mallocs + k) = true ∧ s.fileBlocks + i < 2 ^ 31

/-- The call has to fail: a number is not open, or an allocation does not succeed. -/
def DescCall.Fails (s : IoState) (pid : Nat) : DescCall → Prop
  | .close fd => s.getFileDescriptor pid fd = none
  | .dup2 oldfd newfd =>
    s.getFileDescriptor pid oldfd = none ∨
      s.getFileDescriptor pid newfd = none ∧ ¬ s.FileFree 0 0
  | .pipe => ¬ (s.BlockFree 0 ∧ s.BlockFree 1 ∧ s.BlockFree 2 ∧ s.FileFree 3 0 ∧ s.FileFree 4 1)
  | .cloneTable => ¬ (s.BlockFree 0 ∧ ∀ i < (s.files pid).length, s.FileFree (i + 1) i)

/-- What `errno` should say. -/
def DescCall.reason (s : IoState) (pid : Nat) : DescCall → Int
  | .close _ => ebadf
  | .dup2 oldfd _ => if s.getFileDescriptor pid oldfd = none then ebadf else enomem
  | .pipe => enomem
  | .cloneTable => enomem

/-- The call reports the failure, and no table and no counter has changed. -/
def DescCall.FailsCleanly (s : IoState) (pid : Nat) (c : DescCall) : Prop :=
  ∃ s', c.exec s pid = .ok (true, s') ∧ s'.errno pid = c.reason s pid ∧ s'.tables = s.tables ∧
    ∀ n, (s'.nodes n).refs = (s.nodes n).refs

/-- The call fails before it has done anything: `close` on an empty table, `dup2` of a number that
is not open, `pipe` without memory for its node, and a copy of a table without memory for the table
or its first descriptor. -/
def DescCall.FailsEarly (s : IoState) (pid : Nat) : DescCall → Prop
  | .close _ => s.files pid = []
  | .dup2 oldfd _ => s.getFileDescriptor pid oldfd = none
  | .pipe => ¬ (s.BlockFree 0 ∧ s.BlockFree 1 ∧ s.BlockFree 2)
  | .cloneTable => ¬ s.BlockFree 0 ∨ s.files pid ≠ [] ∧ ¬ s.FileFree 1 0

section Failures

variable {s s' : IoState} {pid fd oldfd newfd : Nat}

theorem refs_incrRefs_ne (s : IoState) (n : Nat) :
    ((s.incrRefs n).nodes n).refs ≠ (s.nodes n).refs := by
  rw [IoState.incrRefs, IoState.setRefs_self]
  dsimp only
  omega

theorem close_fails_iff (h : s.getFileDescriptor pid fd = none) :
    (DescCall.close fd).FailsCleanly s pid ↔ s.files pid = [] := by
  rw [DescCall.FailsCleanly, DescCall.exec, IoState.close]
  cases ht : s.tables pid with
  | none =>
    refine iff_of_true ⟨_, rfl, update_self .., rfl, fun _ => rfl⟩ ?_
    rw [IoState.files, ht]
    rfl
  | some t =>
    have hfiles : s.files pid = t.fileDescriptors := by
      rw [IoState.files, ht]
      rfl
    rw [IoState.getFileDescriptor, hfiles] at h
    dsimp only
    rw [hfiles]
    by_cases hnil : t.fileDescriptors = []
    · rw [if_pos hnil]
      exact iff_of_true ⟨_, rfl, update_self .., rfl, fun _ => rfl⟩ hnil
    · rw [if_neg hnil, h]
      refine iff_of_false ?_ hnil
      rintro ⟨s', hs', -⟩
      cases hs'

theorem mallocFile_of_full (h : ¬ s.FileFree 0 0) :
    s.mallocFile = (false, { s with mallocs := s.mallocs + 1, outOfMemory := true }) :=
  if_neg h

theorem mallocFile_of_free (h : s.FileFree 0 0) :
    s.mallocFile =
      (true, { s with mallocs := s.mallocs + 1, fileBlocks := s.fileBlocks + 1 }) :=
  if_pos h

theorem dup2_fails_iff (h : (DescCall.dup2 oldfd newfd).Fails s pid) :
    (DescCall.dup2 oldfd newfd).FailsCleanly s pid ↔ s.getFileDescriptor pid oldfd = none := by
  rw [DescCall.FailsCleanly, DescCall.exec, IoState.dup2, DescCall.reason]
  cases hold : s.getFileDescriptor pid oldfd with
  | none => exact iff_of_true ⟨_, rfl, update_self .., rfl, fun _ => rfl⟩ rfl
  | some f =>
    rw [DescCall.Fails, hold] at h
    obtain ⟨hnew, hfull⟩ := h.resolve_left (by simp)
    refine iff_of_false ?_ (by simp)
    rintro ⟨s', hs', -, -, hrefs⟩
    dsimp only at hs'
    rw [IoState.closeTarget, hnew, ok_bind] at hs'
    split at hs'
    next => cases hs'
    next =>
      rw [IoState.createFileDescriptor,
        mallocFile_of_full (s := s.incrRefs f.node) hfull] at hs'
      cases hs'
      exact refs_incrRefs_ne s f.node (hrefs f.node)

/-! ## Pipes -/

theorem malloc_of_full (h : ¬ s.BlockFree 0) :
    s.malloc = (none, { s with mallocs := s.mallocs + 1, outOfMemory := true }) :=
  if_neg h

theorem malloc_of_free (h : s.BlockFree 0) :
    s.malloc = (some s.mallocs,
      { s with mallocs := s.mallocs + 1, live := update s.live s.mallocs true }) :=
  if_pos h

theorem mallocPipe_isSome_iff {node : Option Nat} (h : s.mallocPipe = .ok (node, s')) :
    node.isSome ↔ s.BlockFree 0 ∧ s.BlockFree 1 ∧ s.BlockFree 2 := by
  rw [IoState.mallocPipe] at h
  by_cases h₀ : s.BlockFree 0
  swap
  · rw [malloc_of_full h₀] at h
    cases h
    simp [h₀]
  rw [malloc_of_free h₀] at h
  dsimp only at h
  by_cases h₁ : s.BlockFree 1
  swap
  · rw [malloc_of_full (show ¬ IoState.BlockFree _ 0 from h₁)] at h
    dsimp only at h
    obtain ⟨_, -, h⟩ := bind_eq_ok.mp h
    cases h
    simp [h₁]
  rw [malloc_of_free (show IoState.BlockFree _ 0 from h₁)] at h
  dsimp only at h
  by_cases h₂ : s.BlockFree 2
  swap
  · rw [malloc_of_full (show ¬ IoState.BlockFree _ 0 from h₂)] at h
    dsimp only at h
    obtain ⟨_, -, h⟩ := bind_eq_ok.mp h
    obtain ⟨_, -, h⟩ := bind_eq_ok.mp h
    cases h
    simp [h₂]
  rw [malloc_of_free (show IoState.BlockFree _ 0 from h₂)] at h
  cases h
  simp [h₀, h₁, h₂]

theorem pipe_fails_iff :
    DescCall.pipe.FailsCleanly s pid ↔ ¬ (s.BlockFree 0 ∧ s.BlockFree 1 ∧ s.BlockFree 2) := by
  rw [DescCall.FailsCleanly, DescCall.exec, IoState.pipe]
  rcases s.mallocPipe_cases with ⟨live, mallocs, hpipe⟩ | hpipe
  · have hfull := mallocPipe_isSome_iff hpipe
    rw [hpipe, ok_bind, ← hfull]
    exact iff_of_true ⟨_, rfl, update_self .., rfl, fun _ => rfl⟩ (by simp)
  · have hfree := mallocPipe_isSome_iff hpipe
    rw [hpipe, ok_bind, ← hfree]
    -- the results of the two calls of `create_file_descriptor` are stored, and not looked at
    refine iff_of_false ?_ (by simp)
    rintro ⟨s', hs', -⟩
    obtain ⟨⟨fds, s₁⟩, hcreate, heq⟩ := map_eq_ok.mp hs'
    obtain ⟨_, -, hcreate⟩ := bind_eq_ok.mp hcreate
    obtain ⟨_, -, hcreate⟩ := bind_eq_ok.mp hcreate
    cases hcreate
    cases heq

/-! ## Copies of tables -/

theorem cloneFiles_refs {copies fs : List File} {res : Option (List File)}
    (h : IoState.cloneFiles s copies fs = .ok (res, s')) (n : Nat) :
    ∃ c, c ≤ 2 ^ 31 - s.fileBlocks ∧
      (s'.nodes n).refs = if c = 0 then (s.nodes n).refs else ((s.nodes n).refs + c) % 2 ^ 32 := by
  induction fs generalizing s copies with
  | nil =>
    cases h
    exact ⟨0, Nat.zero_le _, rfl⟩
  | cons f fs ih =>
    rw [IoState.cloneFiles] at h
    by_cases hfree : s.FileFree 0 0
    swap
    · rw [mallocFile_of_full hfree] at h
      cases h
      exact ⟨0, Nat.zero_le _, rfl⟩
    rw [mallocFile_of_free hfree] at h
    dsimp only at h
    split at h
    next =>
      obtain ⟨c, hc, hrefs⟩ := ih h
      have hroom : s.fileBlocks + 0 < 2 ^ 31 := hfree.2
      change c ≤ 2 ^ 31 - (s.fileBlocks + 1) at hc
      by_cases hn : n = f.node
      · subst hn
        refine ⟨c + 1, by omega, ?_⟩
        rw [hrefs, IoState.incrRefs, IoState.setRefs_self, if_neg (Nat.succ_ne_zero c)]
        dsimp only
        split <;> omega
      · rw [IoState.incrRefs, IoState.setRefs_of_ne _ hn] at hrefs
        exact ⟨c, by omega, hrefs⟩
    next => cases h

theorem cloneTable_fails_iff (h : DescCall.cloneTable.Fails s pid) :
    DescCall.cloneTable.FailsCleanly s pid ↔ DescCall.cloneTable.FailsEarly s pid := by
  rw [DescCall.FailsCleanly, DescCall.exec, IoState.cloneDescriptorTable, DescCall.FailsEarly]
  by_cases h₀ : s.BlockFree 0
  swap
  · have hok : s.mallocOk s.mallocs = false := by simpa [IoState.BlockFree] using h₀
    rw [hok]
    exact iff_of_true ⟨_, rfl, update_self .., rfl, fun _ => rfl⟩ (Or.inl h₀)
  have hok : s.mallocOk s.mallocs = true := h₀
  rw [hok]
  dsimp only
  -- there is a descriptor whose copy has no room
  have hnil : s.files pid ≠ [] := by
    intro hnil
    exact h ⟨h₀, fun i hi => by simp [hnil] at hi⟩
  cases ht : s.tables pid with
  | none =>
    rw [IoState.files, ht] at hnil
    exact absurd rfl hnil
  | some t =>
    have hfiles : s.files pid = t.fileDescriptors := by
      rw [IoState.files, ht]
      rfl
    dsimp only
    obtain ⟨f, fs, hcons⟩ := List.exists_cons_of_ne_nil (hfiles ▸ hnil)
    rw [hcons, IoState.cloneFiles]
    by_cases hfile : s.FileFree 1 0
    swap
    · rw [mallocFile_of_full (show ¬ IoState.FileFree _ 0 0 from hfile)]
      exact iff_of_true ⟨_, rfl, update_self .., rfl, fun _ => rfl⟩
        (Or.inr ⟨hnil, hfile⟩)
    rw [mallocFile_of_free (show IoState.FileFree _ 0 0 from hfile)]
    refine iff_of_false ?_ (by simp [h₀, hfile])
    rintro ⟨s', hs', -, -, hrefs⟩
    obtain ⟨⟨copy, s₁⟩, hclone, heq⟩ := map_eq_ok.mp hs'
    obtain ⟨⟨copies, s₂⟩, hloop, hclone⟩ := bind_eq_ok.mp hclone
    dsimp only at hloop
    split at hloop
    swap
    · cases hloop
    -- the reference to the first node is taken and not given back
    obtain ⟨c, hc, hcount⟩ := cloneFiles_refs hloop f.node
    have hs' : (s'.nodes f.node).refs = (s₂.nodes f.node).refs := by
      cases copies <;> cases hclone <;> cases heq
      rfl
    have hroom : s.fileBlocks + 0 < 2 ^ 31 := hfile.2
    have hfirst := hrefs f.node
    rw [hs', hcount, IoState.incrRefs, IoState.setRefs_self] at hfirst
    dsimp only at hfirst
    change c ≤ 2 ^ 31 - (s.fileBlocks + 1) at hc
    split at hfirst <;> omega

/-- **When a call that fails does so cleanly**: exactly if it fails before it has done anything. -/
theorem fails_cleanly_iff {c : DescCall} (h : c.Fails s pid) :
    c.FailsCleanly s pid ↔ c.FailsEarly s pid := by
  cases c with
  | close fd => exact close_fails_iff h
  | dup2 oldfd newfd => exact dup2_fails_iff h
  | pipe => exact pipe_fails_iff
  | cloneTable => exact cloneTable_fails_iff h

end Failures

def oneDescriptor : IoState :=
  { tables := update (fun _ => none) 0
      (some { fdNext := 1, fileDescriptors := [⟨0, 0, 1, 5⟩] })
    nodes := fun _ => { refs := 1 }
    live := fun _ => true
    mallocOk := fun _ => false
    fileBlocks := 1 }

/-- A number that is not open is not duplicated. -/
theorem fails_cleanly_unopened : (DescCall.dup2 1 2).Fails oneDescriptor 0 ∧
    (DescCall.dup2 1 2).FailsCleanly oneDescriptor 0 := by
  have hfails : (DescCall.dup2 1 2).Fails oneDescriptor 0 := Or.inl rfl
  exact ⟨hfails, (fails_cleanly_iff hfails).mpr rfl⟩

/-- **Failures that are not clean**: `close` of a number that is not open follows a null pointer,
and `dup2` without memory keeps the reference it took. -/
theorem fails_not_cleanly :
    ((DescCall.close 1).Fails oneDescriptor 0 ∧
      (DescCall.close 1).exec oneDescriptor 0 = .error .nullDeref ∧
      ¬ (DescCall.close 1).FailsCleanly oneDescriptor 0) ∧
    ((DescCall.dup2 0 1).Fails oneDescriptor 0 ∧
      (∃ s', (DescCall.dup2 0 1).exec oneDescriptor 0 = .ok (true, s') ∧ (s'.nodes 5).refs = 2) ∧
      ¬ (DescCall.dup2 0 1).FailsCleanly oneDescriptor 0) := by
  refine ⟨⟨rfl, rfl, ?_⟩, ⟨Or.inr ⟨rfl, ?_⟩, ⟨_, rfl, rfl⟩, ?_⟩⟩
  · rintro ⟨s', hs', -⟩
    cases hs'
  · exact fun hfree => Bool.false_ne_true hfree.1
  · rintro ⟨s', hs', -, -, hrefs⟩
    cases hs'
    exact absurd (hrefs 5) (by decide)

end Hydrax.Io
