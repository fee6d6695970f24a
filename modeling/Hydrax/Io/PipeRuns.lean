import Hydrax.Io.References
import Hydrax.Io.Numbers

/-!
# Runs of calls on pipes

What the books of the pipes say in every run of the calls of any number of processes, from boot.

* `pipe_refs_exact` — reference counting is exact, and the blocks of a pipe are in use as long as
  some descriptor refers to it,
* `pipe_write_raises_iff` — `SIGPIPE` is raised for want of a second reference, which is not the
  same as for want of a reader.
-/

namespace Hydrax.Io

open Loop

variable {s s' : IoState} {f : File} {pid n : Nat} {e : Nat × IoCall}

instance IoState.decidableIsPipe (s : IoState) (n : Nat) : Decidable (s.IsPipe n) :=
  inferInstanceAs (Decidable (_ ≠ _))

instance IoState.decidableRaises (s : IoState) (n : Nat) : Decidable (s.pipeWriteRaises n) :=
  inferInstanceAs (Decidable (_ < _))

/-- The caller has a table, `dup2` gets two numbers, and what is closed is open. A `dup` is a `dup2`
to `-1`, which is a number as any other. -/
def Orderly (s : IoState) (e : Nat × IoCall) : Prop :=
  (∃ t, s.tables e.1 = some t) ∧
    match e.2 with
    | .dup oldfd => ∀ f, s.getFileDescriptor e.1 oldfd = some f → oldfd ≠ minusOne
    | .dup2 oldfd newfd => oldfd ≠ newfd
    | .close fd => ∃ f, s.getFileDescriptor e.1 fd = some f
    | .openFile _ | .pipe | .fork | .exit => True

/-- The calls of `malloc` in the call succeed. -/
def Allocates (s : IoState) (e : Nat × IoCall) : Prop :=
  ∀ s', e.2.exec s e.1 = .ok s' → s'.outOfMemory = false

/-- **Every orderly call returns**, with the books right if there was memory. -/
theorem PipeBooks.exec (h : PipeBooks s (fun _ => 0) 0) (hpossible : IoCall.Possible s e)
    (horderly : Orderly s e) :
    ∃ s', e.2.exec s e.1 = .ok s' ∧ (s'.outOfMemory = true ∨ PipeBooks s' (fun _ => 0) 0) := by
  obtain ⟨pid, call⟩ := e
  obtain ⟨⟨t, ht⟩, hcall⟩ := horderly
  cases call with
  | openFile found =>
    obtain ⟨r, s', hopen, h'⟩ := h.openFile ht
      (fun n hn => hpossible.2 n (congrArg IoCall.openFile hn))
    exact ⟨s', map_eq_ok.mpr ⟨_, hopen, rfl⟩, h'⟩
  | pipe =>
    obtain ⟨r, s', hpipe, h'⟩ := h.pipe ht
    exact ⟨s', map_eq_ok.mpr ⟨_, hpipe, rfl⟩, h'⟩
  | dup oldfd =>
    obtain ⟨r, s', hdup, h'⟩ := h.dup2 ht hcall
    exact ⟨s', map_eq_ok.mpr ⟨_, hdup, rfl⟩, h'⟩
  | dup2 oldfd newfd =>
    obtain ⟨r, s', hdup, h'⟩ := h.dup2 ht (fun _ _ => hcall)
    exact ⟨s', map_eq_ok.mpr ⟨_, hdup, rfl⟩, h'⟩
  | close fd =>
    obtain ⟨f, hf⟩ := hcall
    rw [IoState.getFileDescriptor, IoState.files_of_some ht] at hf
    obtain ⟨s', hclose, -, -, h'⟩ := h.close ht hf rfl
    exact ⟨s', map_eq_ok.mpr ⟨_, hclose, rfl⟩, Or.inr h'⟩
  | fork =>
    obtain ⟨r, s', hfork, h'⟩ := h.fork ht
    exact ⟨s', map_eq_ok.mpr ⟨_, hfork, rfl⟩, h'⟩
  | exit =>
    obtain ⟨s', hexit, h'⟩ := h.destroyDescriptorTable ht
    exact ⟨s', hexit, Or.inr h'⟩

theorem PipeBooks.step (h : PipeBooks s (fun _ => 0) 0) (hok : Orderly s e ∧ Allocates s e)
    (hstep : IoStep s e s') : PipeBooks s' (fun _ => 0) 0 := by
  obtain ⟨s'', hexec, h'⟩ := h.exec hstep.1 hok.1
  cases hstep.2.symm.trans hexec
  refine h'.resolve_left (fun hout => ?_)
  rw [hok.2 s' hexec] at hout
  cases hout

/-- At boot there are no pipes, and the nodes of the file system are in use. -/
structure NoPipes (mallocs : Nat) (nodes : Nat → Node) (live : Nat → Bool) : Prop where
  flags : ∀ n, (nodes n).flags &&& fsAutofree = 0
  live : ∀ n < mallocs, live n = true

theorem pipeBooks_boot {mallocOk : Nat → Bool} {mallocs : Nat} {nodes : Nat → Node}
    {live : Nat → Bool} (h : NoPipes mallocs nodes live) :
    PipeBooks (ioBoot mallocOk mallocs nodes live) (fun _ => 0) 0 := by
  have hno : ∀ n, ¬ (ioBoot mallocOk mallocs nodes live).IsPipe n := fun n hn => hn (h.flags n)
  have hnone : ∀ p, p ≠ 0 → (ioBoot mallocOk mallocs nodes live).tables p = none := fun p hp => by
    show Function.update (fun _ => none) 0 (some ({} : DescTable)) p = none
    rw [Function.update_of_ne hp]
  have hfiles : ∀ p, (ioBoot mallocOk mallocs nodes live).files p = [] := fun p => by
    by_cases hp : p = 0
    · rw [hp]
      rfl
    · exact IoState.files_of_none (hnone p hp)
  refine ⟨fun n hn => absurd hn (hno n), fun n hn => absurd hn (hno n),
    fun n hn => absurd hn (hno n), fun n hn => ⟨h.live n hn, hno n⟩, Nat.le_refl _,
    fun p f hf => ?_, fun p hp => ?_, ?_, Nat.zero_le _⟩
  · rw [hfiles p] at hf
    cases hf
  · exact hnone p (Nat.ne_of_gt hp)
  · rw [IoState.count, Finset.sum_eq_zero (fun p _ => by rw [hfiles p]; rfl)]
    exact Nat.zero_le _

/-- **Pipe reference counting is exact.** -/
structure PipesExact (s : IoState) : Prop where
  /-- The counter of a pipe in use is the number of descriptors that refer to it. -/
  refs : ∀ n, s.IsPipe n → s.live n = true → (s.nodes n).refs = s.count (refersTo n)
  /-- The node, the `pipe_t` and the buffer are in use until the last descriptor is closed. -/
  parts : ∀ n, s.IsPipe n → ∃ p, (s.nodes n).data = some p ∧
    (s.live n = true ↔ 0 < s.count (refersTo n)) ∧ (s.live p = true ↔ 0 < s.count (refersTo n)) ∧
    (s.live (s.pipeBuf p) = true ↔ 0 < s.count (refersTo n))
  /-- No table has a descriptor to a freed node. -/
  held : ∀ pid, ∀ f ∈ s.files pid, s.live f.node = true
  /-- The processes that are counted are all that have descriptors. -/
  outside : ∀ pid, s.nextPid ≤ pid → s.files pid = []
  /-- No orderly call stops the kernel. -/
  exec : ∀ e, IoCall.Possible s e → Orderly s e → ∃ s', e.2.exec s e.1 = .ok s'

theorem PipeBooks.exact (h : PipeBooks s (fun _ => 0) 0) : PipesExact s where
  refs := fun n hn hl => h.refs n hn hl
  parts := fun n hn => by
    have hp := h.parts n hn
    have hl := h.live_iff n hn
    refine ⟨n + 1, hp.data, hl, ?_, ?_⟩
    · rw [hp.live_data]
      exact hl
    · rw [hp.buf, hp.live_buf]
      exact hl
  held := fun pid f hf => h.live hf
  outside := fun pid hp => IoState.files_of_none (h.outside pid hp)
  exec := fun e hp ho => (h.exec hp ho).imp (fun _ h => h.1)

theorem pipeBooks_run {mallocOk : Nat → Bool} {mallocs : Nat} {nodes : Nat → Node}
    {live : Nat → Bool} (hboot : NoPipes mallocs nodes live)
    (h : Reach IoStep (fun s e => Orderly s e ∧ Allocates s e)
      (ioBoot mallocOk mallocs nodes live) s) : PipeBooks s (fun _ => 0) 0 :=
  h.invariant (I := fun s => PipeBooks s (fun _ => 0) 0) (pipeBooks_boot hboot)
    (fun hI hok hstep => hI.step hok hstep)

theorem pipe_refs_exact (mallocOk : Nat → Bool) (mallocs : Nat) (nodes : Nat → Node)
    (live : Nat → Bool) (hboot : NoPipes mallocs nodes live) {s : IoState}
    (h : Reach IoStep (fun s e => Orderly s e ∧ Allocates s e)
      (ioBoot mallocOk mallocs nodes live) s) : PipesExact s :=
  (pipeBooks_run hboot h).exact

theorem orderly_call {s₀ : IoState}
    (h : Reach IoStep (fun s e => Orderly s e ∧ Allocates s e) s₀ s) (pid : Nat) (call : IoCall)
    (hopen : ∀ found, call ≠ .openFile found) (hpid : pid < s.nextPid)
    (horderly : Orderly s (pid, call)) (hexec : call.exec s pid = .ok s')
    (hmemory : s'.outOfMemory = false) :
    Reach IoStep (fun s e => Orderly s e ∧ Allocates s e) s₀ s' := by
  refine h.step ⟨horderly, fun s'' h => ?_⟩ ⟨⟨hpid, fun n hn => absurd hn (hopen _)⟩, hexec⟩
  cases hexec.symm.trans h
  exact hmemory

theorem noPipes_small : NoPipes 0 (fun _ => {}) (fun _ => false) :=
  ⟨fun _ => rfl, fun n hn => absurd hn (Nat.not_lt_zero n)⟩

/-- A pipe, a child, and the child closes the read end. -/
theorem pipe_refs_exact_fork :
    ∃ s, Reach IoStep (fun s e => Orderly s e ∧ Allocates s e) ioBootSmall s ∧
      s.IsPipe 0 ∧ (s.nodes 0).refs = 3 ∧ PipesExact s := by
  have hpipe : Reach IoStep (fun s e => Orderly s e ∧ Allocates s e) ioBootSmall _ :=
    orderly_call .start 0 .pipe nofun Nat.one_pos ⟨⟨_, rfl⟩, trivial⟩ rfl rfl
  have hfork := orderly_call hpipe 0 .fork nofun Nat.one_pos
    ⟨⟨_, rfl⟩, trivial⟩ rfl rfl
  have hrun := orderly_call hfork 1 (.close 0) nofun Nat.one_lt_two
    ⟨⟨_, rfl⟩, ⟨_, rfl⟩⟩ rfl rfl
  exact ⟨_, hrun, by decide, rfl, pipe_refs_exact _ _ _ _ noPipes_small hrun⟩

/-! ## `SIGPIPE` -/

/-- The open descriptors that come from the read end of a pipe. -/
def IoState.readers (s : IoState) (n : Nat) : Nat :=
  s.count (fun f => f.node = n ∧ f.mode = fdModeRead)

/-- The open descriptors that come from the write end of a pipe. -/
def IoState.writers (s : IoState) (n : Nat) : Nat :=
  s.count (fun f => f.node = n ∧ f.mode = fdModeWrite)

theorem PipeBooks.count_ends (h : PipeBooks s (fun _ => 0) 0) (hn : s.IsPipe n) :
    s.count (refersTo n) = s.readers n + s.writers n := by
  rw [IoState.readers, IoState.writers, IoState.count, IoState.count, IoState.count,
    ← Finset.sum_add_distrib]
  refine Finset.sum_congr rfl (fun p _ => ?_)
  have hends : ∀ f ∈ s.files p, f.node = n → f.mode = fdModeRead ∨ f.mode = fdModeWrite := by
    rintro f hf rfl
    rcases h.held p f hf with hfs | ⟨-, hmode⟩
    · exact absurd hn (h.fs f.node hfs).2
    · exact hmode
  generalize s.files p = fs at hends
  induction fs with
  | nil => rfl
  | cons f fs ih =>
    rw [List.countP_cons, List.countP_cons, List.countP_cons,
      ih (fun g hg => hends g (List.mem_cons_of_mem _ hg))]
    by_cases hf : f.node = n
    · rcases hends f List.mem_cons_self hf with hm | hm
      all_goals simp [refersTo, hf, hm, fdModeRead, fdModeWrite]; omega
    · simp [refersTo, hf]

/-- **`SIGPIPE` is raised exactly when nobody can read** iff the two ends are not open in the ways
that a single counter cannot tell apart: the write end more than once without a reader, or the read
end once without a writer. -/
theorem pipe_write_raises_iff (mallocOk : Nat → Bool) (mallocs : Nat) (nodes : Nat → Node)
    (live : Nat → Bool) (hboot : NoPipes mallocs nodes live) {s : IoState}
    (h : Reach IoStep (fun s e => Orderly s e ∧ Allocates s e)
      (ioBoot mallocOk mallocs nodes live) s)
    (pid fd : Nat) {f : File} (hf : s.getFileDescriptor pid fd = some f) (hpipe : s.IsPipe f.node) :
    (s.pipeWriteRaises f.node ↔ s.readers f.node = 0) ↔
      (s.readers f.node = 0 → s.writers f.node = 1) ∧
        (s.readers f.node = 1 → s.writers f.node ≠ 0) := by
  have hbooks := pipeBooks_run hboot h
  have hmem : f ∈ s.files pid := List.mem_of_find?_eq_some hf
  have hrefs := hbooks.refs f.node hpipe (hbooks.live hmem)
  have hpos := (hbooks.live_iff f.node hpipe).mp (hbooks.live hmem)
  rw [hbooks.count_ends hpipe] at hrefs hpos
  rw [IoState.pipeWriteRaises, hrefs]
  omega

/-- One reader and one writer. -/
theorem pipe_write_raises_iff_pair :
    ∃ s f, Reach IoStep (fun s e => Orderly s e ∧ Allocates s e) ioBootSmall s ∧
      s.getFileDescriptor 0 1 = some f ∧
      ((s.pipeWriteRaises f.node ↔ s.readers f.node = 0) ↔
        (s.readers f.node = 0 → s.writers f.node = 1) ∧
          (s.readers f.node = 1 → s.writers f.node ≠ 0)) := by
  have hrun : Reach IoStep (fun s e => Orderly s e ∧ Allocates s e) ioBootSmall _ :=
    orderly_call .start 0 .pipe nofun Nat.one_pos ⟨⟨_, rfl⟩, trivial⟩ rfl rfl
  exact ⟨_, ⟨1, 0, fdModeWrite, 0⟩, hrun, rfl,
    pipe_write_raises_iff _ _ _ _ noPipes_small hrun 0 1 rfl (by decide)⟩

/-- Parent and child close the read end: two descriptors of the write end are left, and nobody is
told. -/
theorem pipe_write_silent :
    ∃ s f, Reach IoStep (fun s e => Orderly s e ∧ Allocates s e) ioBootSmall s ∧
      s.getFileDescriptor 0 1 = some f ∧ s.IsPipe f.node ∧
      ¬ (s.pipeWriteRaises f.node ↔ s.readers f.node = 0) := by
  have hpipe : Reach IoStep (fun s e => Orderly s e ∧ Allocates s e) ioBootSmall _ :=
    orderly_call .start 0 .pipe nofun Nat.one_pos ⟨⟨_, rfl⟩, trivial⟩ rfl rfl
  have hfork := orderly_call hpipe 0 .fork nofun Nat.one_pos
    ⟨⟨_, rfl⟩, trivial⟩ rfl rfl
  have hchild := orderly_call hfork 1 (.close 0) nofun Nat.one_lt_two
    ⟨⟨_, rfl⟩, ⟨_, rfl⟩⟩ rfl rfl
  have hrun := orderly_call hchild 0 (.close 0) nofun Nat.zero_lt_two
    ⟨⟨_, rfl⟩, ⟨_, rfl⟩⟩ rfl rfl
  exact ⟨_, ⟨1, 0, fdModeWrite, 0⟩, hrun, rfl, by decide, by decide⟩

end Hydrax.Io
