import Hydrax.Io.PipeRuns

/-!
# Duplicating descriptors

`dup2` for all pairs of numbers. It closes the descriptor that has the new number, and goes on with
the record of the old one. If both are one descriptor, that record is freed by then.

* `Held` — what `dup2` needs to know of the nodes,
* `PipeBooks.nodesHeld` — it follows from the books of the pipes, so it holds in every run,
* `dup2_iff` — when the descriptor is duplicated.
-/

namespace Hydrax.Io

open Loop
open Function (update update_idem update_of_ne update_self)

variable {s s' : IoState} {t : DescTable} {fs : List File} {f g : File} {pid fd oldfd newfd o : Nat}

/-- The parts of a pipe are in use, and nothing else is in their place. -/
structure PartsHeld (s : IoState) (fs : List File) (node data : Nat) : Prop where
  live_data : s.live data = true
  live_buf : s.live (s.pipeBuf data) = true
  data_ne : data ≠ node
  buf_ne : s.pipeBuf data ≠ node
  parts_ne : s.pipeBuf data ≠ data
  apart : ∀ g ∈ fs, g.node ≠ data ∧ g.node ≠ s.pipeBuf data

/-- The nodes of the descriptors are in use, and two descriptors of a pipe are two references. -/
structure Held (s : IoState) (fs : List File) : Prop where
  live : ∀ f ∈ fs, s.live f.node = true
  refs : ∀ f ∈ fs, ∀ g ∈ fs, f.fd ≠ g.fd → f.node = g.node → s.IsPipe g.node →
    1 < (s.nodes g.node).refs
  parts : ∀ f ∈ fs, s.IsPipe f.node → ∀ data, (s.nodes f.node).flags &&& fsPipe ≠ 0 →
    (s.nodes f.node).data = some data → PartsHeld s fs f.node data

theorem PipeBooks.nodesHeld (h : PipeBooks s (fun _ => 0) 0) (pid : Nat) :
    Held s (s.files pid) where
  live f hf := h.live hf
  refs f hf g hg hne hnode hpipe := by
    have hpair : [f, g].Subperm (s.files pid) :=
      List.subperm_of_subset (by simpa using fun heq : f = g => hne (congrArg File.fd heq))
        (by simp [hf, hg])
    calc 1 < [f, g].countP (refersTo g.node) := by simp [refersTo, hnode]
      _ ≤ (s.files pid).countP (refersTo g.node) := hpair.countP_le _
      _ ≤ s.count (refersTo g.node) := IoState.countP_le_count (h.lt_nextPid hg)
      _ = (s.nodes g.node).refs := (h.refs g.node hpipe (h.live hg)).symm
  parts f hf hpipe data _ hdata := by
    have hp := h.parts f.node hpipe
    obtain rfl : f.node + 1 = data := Option.some.inj (hp.data.symm.trans hdata)
    rw [hp.data] at hdata
    have hlive := h.live hf
    have hlower := hp.lower
    refine ⟨hp.live_data.trans hlive, hp.buf ▸ hp.live_buf.trans hlive, by omega,
      by rw [hp.buf]; omega, by rw [hp.buf]; omega, fun g hg => ?_⟩
    rw [hp.buf]
    rcases h.held pid g hg with hfs | ⟨hg, -⟩
    · omega
    · exact ⟨fun heq => hp.apart_data (heq ▸ hg), fun heq => hp.apart_buf (heq ▸ hg)⟩

/-! ## Closing the descriptor that is replaced -/

theorem Held.freeNode (h : Held s fs) (hg : g ∈ fs) (hpipe : s.IsPipe g.node) (r : Nat) :
    ∃ live, (s.setRefs g.node r).freeNode g.node = .ok { s.setRefs g.node r with live := live } ∧
      ∀ f ∈ fs, f.node ≠ g.node → live f.node = true := by
  have hlive := h.live g hg
  rw [IoState.freeNode, IoState.freePipe, IoState.setRefs_flags, IoState.setRefs_data]
  split
  next data hdata =>
    split at hdata
    next hflags =>
      have hparts := h.parts g hg hpipe data hflags hdata
      have hbuf : (s.setRefs g.node r).live ((s.setRefs g.node r).pipeBuf data) = true :=
        hparts.live_buf
      refine ⟨update (update (update s.live (s.pipeBuf data) false)
        data false) g.node false, ?_, fun f hf hne => ?_⟩
      · rw [IoState.free, if_pos hbuf, ok_bind, IoState.free, if_pos, ok_bind,
          IoState.free, if_pos]
        · rfl
        · dsimp only
          rw [update_of_ne hparts.data_ne.symm]
          exact (update_of_ne hparts.buf_ne.symm _ _).trans hlive
        · exact (update_of_ne hparts.parts_ne.symm _ _).trans hparts.live_data
      · obtain ⟨hdata, hbuf⟩ := hparts.apart f hf
        rw [update_of_ne hne, update_of_ne hdata, update_of_ne hbuf]
        exact h.live f hf
    next => cases hdata
  next =>
    refine ⟨update s.live g.node false, ?_, fun f hf hne => ?_⟩
    · rw [ok_bind, IoState.free, if_pos]
      · rfl
      · exact hlive
    · rw [update_of_ne hne]
      exact h.live f hf

theorem Held.vfsClose (h : Held s fs) (hg : g ∈ fs) :
    ∃ live, s.vfsClose g.node = .ok { s.decrRefs g.node with live := live } ∧
      ∀ f ∈ fs, f.fd ≠ g.fd → live f.node = true := by
  rw [IoState.vfsClose, if_pos (h.live g hg)]
  dsimp only
  split
  next hlast =>
    obtain ⟨hzero, hauto⟩ := hlast
    have hpipe : s.IsPipe g.node := (s.isPipe_setRefs g.node _ g.node).mp hauto
    -- another descriptor of the node would be another reference
    have hone : (s.nodes g.node).refs = 1 := by
      rw [IoState.decrRefs, IoState.setRefs_self] at hzero
      unfold decr wordSize at hzero
      dsimp only at hzero
      split at hzero <;> omega
    have hother : ∀ f ∈ fs, f.fd ≠ g.fd → f.node ≠ g.node := by
      intro f hf hne hnode
      have := h.refs f hf g hg hne hnode hpipe
      omega
    obtain ⟨live, hfree, hkept⟩ := h.freeNode hg hpipe (decr (s.nodes g.node).refs)
    exact ⟨live, hfree, fun f hf hne => hkept f hf (hother f hf hne)⟩
  next => exact ⟨s.live, rfl, fun f hf _ => h.live f hf⟩

/-! ## Lists of descriptors -/

theorem find?_eraseP_of_ne (hne : fd ≠ newfd) :
    (fs.eraseP (fun f => f.fd = newfd)).find? (fun f => f.fd = fd) =
      fs.find? (fun f => f.fd = fd) := by
  induction fs with
  | nil => rfl
  | cons g fs ih =>
    by_cases hg : g.fd = newfd
    · rw [List.eraseP_cons_of_pos (by simpa using hg),
        List.find?_cons_of_neg (by simpa [hg] using hne.symm)]
    · rw [List.eraseP_cons_of_neg (by simpa using hg), List.find?_cons, List.find?_cons, ih]

theorem setOffset_append (hfs : ∀ f ∈ fs, f.fd ≠ fd) (hg : g.fd = fd) :
    setOffset fd o (fs ++ [g]) = fs ++ [{ g with offset := o }] := by
  induction fs with
  | nil => rw [List.nil_append, setOffset, if_pos hg, List.nil_append]
  | cons f fs ih =>
    rw [List.cons_append, setOffset, if_neg (hfs f List.mem_cons_self),
      ih (fun f hf => hfs f (List.mem_cons_of_mem _ hf)), List.cons_append]

/-- The descriptors once `newfd` is made a duplicate of `f`. -/
def replaced (fs : List File) (f : File) (newfd : Nat) : List File :=
  fs.eraseP (fun f => f.fd = newfd) ++ [{ f with fd := newfd }]

theorem find?_replaced_self (hnodup : (fs.map File.fd).Nodup) :
    (replaced fs f newfd).find? (fun f => f.fd = newfd) = some { f with fd := newfd } := by
  have hnone : (fs.eraseP (fun f => f.fd = newfd)).find? (fun f => f.fd = newfd) = none :=
    List.find?_eq_none.mpr (fun g hg => by simpa using fd_ne_of_mem_eraseP hnodup g hg)
  rw [replaced, List.find?_append, hnone]
  simp

theorem find?_replaced_of_ne (hne : fd ≠ newfd) :
    (replaced fs f newfd).find? (fun f => f.fd = fd) = fs.find? (fun f => f.fd = fd) := by
  rw [replaced, List.find?_append, find?_eraseP_of_ne hne,
    List.find?_cons_of_neg (by simpa using hne.symm)]
  simp

/-! ## The call -/

/-- `newfd` becomes a duplicate of `f`, which is `oldfd`, and nothing else happens to the
descriptors. -/
structure Duplicated (s s' : IoState) (pid oldfd newfd : Nat) (f : File) : Prop where
  old : s'.getFileDescriptor pid oldfd = some f
  new : s'.getFileDescriptor pid newfd = some { f with fd := newfd }
  others : ∀ fd, fd ≠ newfd → s'.getFileDescriptor pid fd = s.getFileDescriptor pid fd
  tables : ∀ p, p ≠ pid → s'.tables p = s.tables p
  live : s'.live f.node = true

theorem duplicated_of_replaced (ht : s.tables pid = some t)
    (hnodup : (t.fileDescriptors.map File.fd).Nodup)
    (hold : s.getFileDescriptor pid oldfd = some f) (hne : newfd ≠ oldfd) {t' : DescTable}
    {fs' : List File} (hfiles : fs' = replaced t.fileDescriptors f newfd)
    (htables : s'.tables = update s.tables pid (some { t' with fileDescriptors := fs' }))
    (hlive : s'.live f.node = true) : Duplicated s s' pid oldfd newfd f := by
  have hafter : ∀ fd, s'.getFileDescriptor pid fd =
      (replaced t.fileDescriptors f newfd).find? (fun f => f.fd = fd) := by
    intro fd
    rw [IoState.getFileDescriptor,
      IoState.files_of_some (by rw [htables, update_self]), hfiles]
  have hbefore : ∀ fd, s.getFileDescriptor pid fd =
      t.fileDescriptors.find? (fun f => f.fd = fd) := by
    intro fd
    rw [IoState.getFileDescriptor, IoState.files_of_some ht]
  refine ⟨?_, ?_, fun fd hfd => ?_, fun p hp => ?_, hlive⟩
  · rw [hafter, find?_replaced_of_ne hne.symm, ← hbefore, hold]
  · rw [hafter, find?_replaced_self hnodup]
  · rw [hafter, find?_replaced_of_ne hfd, hbefore]
  · rw [htables, update_of_ne hp]

theorem Held.closeTarget (h : Held s (s.files pid)) (ht : s.tables pid = some t)
    (hold : s.getFileDescriptor pid oldfd = some f) (hne : newfd ≠ oldfd) :
    ∃ s₁, s.closeTarget pid oldfd newfd = .ok s₁ ∧
      s₁.tables = update s.tables pid (some (t.erase newfd)) ∧
      s₁.live f.node = true ∧ s₁.mallocOk = s.mallocOk ∧ s₁.mallocs = s.mallocs ∧
      s₁.fileBlocks ≤ s.fileBlocks := by
  have hfiles := IoState.files_of_some ht
  have hf : f ∈ s.files pid := List.mem_of_find?_eq_some hold
  have hfd : f.fd = oldfd := by simpa using List.find?_some hold
  rw [IoState.closeTarget]
  split
  next hnone =>
    have herase : t.erase newfd = t := by
      rw [IoState.getFileDescriptor, hfiles, List.find?_eq_none] at hnone
      rw [DescTable.erase, List.eraseP_of_forall_not hnone]
    refine ⟨s, rfl, ?_, h.live f hf, rfl, rfl, Nat.le_refl _⟩
    rw [herase, ← ht, Function.update_eq_self]
  next g hg =>
    have hgfd : g.fd = newfd := by simpa using List.find?_some hg
    rw [if_neg hne, IoState.close, ht]
    dsimp only
    have hmem : g ∈ s.files pid := List.mem_of_find?_eq_some hg
    rw [IoState.getFileDescriptor, hfiles, ← hgfd] at hg
    have hnil : t.fileDescriptors ≠ [] := by
      intro hnil
      rw [hnil] at hg
      cases hg
    rw [if_neg hnil, hg]
    dsimp only
    -- the table has changed, but the nodes have not
    have hheld : Held (s.setTable pid (some (t.erase g.fd))) (s.files pid) :=
      ⟨h.live, h.refs, fun f hf hpipe data hflags hdata =>
        have hparts := h.parts f hf hpipe data hflags hdata
        ⟨hparts.live_data, hparts.live_buf, hparts.data_ne, hparts.buf_ne, hparts.parts_ne,
          hparts.apart⟩⟩
    obtain ⟨live, hclose, hlive⟩ := hheld.vfsClose hmem
    rw [hclose, ok_bind]
    refine ⟨_, rfl, ?_, hlive f hf (by rw [hfd, hgfd]; exact hne.symm), rfl, rfl, Nat.sub_le _ _⟩
    rw [← hgfd]
    rfl

theorem createFileDescriptor_eq {node mode : Nat} (hmalloc : s.mallocOk s.mallocs = true)
    (hroom : s.fileBlocks < 2 ^ 31) (ht : s.tables pid = some t) :
    s.createFileDescriptor pid node fd mode = .ok (t.number fd,
      { s.setTable pid (some (t.create node fd mode)) with
        mallocs := s.mallocs + 1, fileBlocks := s.fileBlocks + 1 }) := by
  rw [IoState.createFileDescriptor, IoState.mallocFile, if_pos ⟨hmalloc, hroom⟩]
  dsimp only
  rw [ht]
  rfl

/-- **`dup2` duplicates the descriptor** exactly if the two numbers are different. -/
theorem dup2_iff (h : Held s (s.files pid)) (ht : s.tables pid = some t)
    (hnodup : (t.fileDescriptors.map File.fd).Nodup)
    (hold : s.getFileDescriptor pid oldfd = some f) (hnew : ¬ Negative newfd)
    (hmalloc : s.mallocOk s.mallocs = true) (hroom : s.fileBlocks < 2 ^ 31) :
    (∃ s', s.dup2 pid oldfd newfd = .ok (newfd, s') ∧ Duplicated s s' pid oldfd newfd f) ↔
      newfd ≠ oldfd := by
  constructor
  · rintro ⟨s', hdup, -⟩ rfl
    rw [IoState.dup2, hold] at hdup
    dsimp only at hdup
    rw [IoState.closeTarget, hold] at hdup
    dsimp only at hdup
    rw [if_pos rfl] at hdup
    cases hdup
  · intro hne
    obtain ⟨s₁, htarget, htables, hlive, hok, hmallocs, hblocks⟩ := h.closeTarget ht hold hne
    have hfd : newfd ≠ minusOne := by
      rintro rfl
      exact hnew (by decide)
    rw [IoState.dup2, hold]
    dsimp only
    rw [htarget, ok_bind, if_neg (by rw [hlive]; decide)]
    have ht₁ : (s₁.incrRefs f.node).tables pid = some (t.erase newfd) := by
      rw [show (s₁.incrRefs f.node).tables = s₁.tables from rfl, htables, update_self]
    have hmalloc₁ : (s₁.incrRefs f.node).mallocOk (s₁.incrRefs f.node).mallocs = true := by
      rw [show (s₁.incrRefs f.node).mallocOk = s₁.mallocOk from rfl,
        show (s₁.incrRefs f.node).mallocs = s₁.mallocs from rfl, hok, hmallocs]
      exact hmalloc
    have hnumber : (t.erase newfd).number newfd = newfd := if_neg hfd
    rw [createFileDescriptor_eq hmalloc₁ (Nat.lt_of_le_of_lt hblocks hroom) ht₁, ok_bind,
      hnumber]
    dsimp only
    rw [if_neg hnew, IoState.setTable]
    dsimp only
    rw [update_self]
    dsimp only
    have hfresh : ∀ f ∈ (t.erase newfd).fileDescriptors, f.fd ≠ newfd := fd_ne_of_mem_eraseP hnodup
    have hfiles : setOffset newfd f.offset
        ((t.erase newfd).create f.node newfd f.mode).fileDescriptors =
          replaced t.fileDescriptors f newfd := by
      rw [DescTable.create]
      dsimp only
      rw [hnumber, setOffset_append hfresh rfl]
      rfl
    have hafter : ∀ x y : Option DescTable, update
        (update (s₁.incrRefs f.node).tables pid x) pid y =
          update s.tables pid y := by
      intro x y
      rw [update_idem, show (s₁.incrRefs f.node).tables = s₁.tables from rfl, htables,
        update_idem]
    exact ⟨_, rfl, duplicated_of_replaced ht hnodup hold hne hfiles (hafter _ _) hlive⟩

/-- The read end of a pipe replaces its write end. -/
theorem dup2_second : ∃ s s', Reach IoStep (fun s e => Orderly s e ∧ Allocates s e) ioBootSmall s ∧
    s.IsPipe 0 ∧ s.dup2 0 0 1 = .ok (1, s') ∧ Duplicated s s' 0 0 1 ⟨0, 0, 1, 0⟩ := by
  have hrun : Reach IoStep (fun s e => Orderly s e ∧ Allocates s e) ioBootSmall _ :=
    orderly_call .start 0 .pipe (by simp) Nat.one_pos ⟨⟨_, rfl⟩, trivial⟩ rfl rfl
  have hheld := (pipeBooks_run noPipes_small hrun).nodesHeld 0
  obtain ⟨s', hdup, hnew⟩ :=
    (dup2_iff hheld rfl (by decide) (show IoState.getFileDescriptor _ 0 0 = some _ from rfl)
      (show ¬ Negative 1 by decide) rfl (by decide)).mpr (by decide)
  exact ⟨_, s', hrun, by decide, hdup, hnew⟩

def twoDescriptors : IoState :=
  { tables := update (fun _ => none) 0
      (some { fdNext := 2, fileDescriptors := [⟨0, 7, 1, 5⟩, ⟨1, 3, 2, 5⟩] })
    nodes := fun _ => { refs := 2 }
    live := fun _ => true
    mallocOk := fun _ => true
    fileBlocks := 2 }

/-- **A descriptor that is duplicated to itself** is used after it is freed. -/
theorem dup2_same : twoDescriptors.dup2 0 0 0 = .error .useAfterFree ∧
    ¬ ∃ s', twoDescriptors.dup2 0 0 0 = .ok (0, s') ∧
      Duplicated twoDescriptors s' 0 0 0 ⟨0, 7, 1, 5⟩ := by
  have hstop : twoDescriptors.dup2 0 0 0 = .error .useAfterFree := rfl
  refine ⟨hstop, ?_⟩
  rintro ⟨s', hdup, -⟩
  rw [hstop] at hdup
  cases hdup

end Hydrax.Io
