import Hydrax.Ring
import Hydrax.Transition

/-!
# Pipes

The buffer of a pipe, from `pipe`, `pipe_write` and `pipe_read` of `kernel/io.c`. A writer stores a
byte, advances `write_ptr` and signals the semaphore. A reader waits for the semaphore, loads a byte
and advances `read_ptr`. The counter of the semaphore is the room that is left, so a signal takes
one off and a wait puts one back.

The pointers are reset when they are past `buf_end`, which is one cell behind the buffer: the ring
has one cell more than the buffer.

* `PipeInv` — the pointers and the counter, in every run, whatever the number of writers and readers,
* `pipe_fifo` — when one writer and one reader pass the bytes on in order,
* `pipe_accesses_iff` — when all accesses are inside the buffer.
-/

namespace Hydrax.Io

/-- `CONFIG_PIPE_BUFFER_SIZE`. -/
def configPipeBufferSize : Nat := 1024

/-- `pipe_t`, with the two counters of its semaphore. -/
structure Pipe where
  buf : Nat
  bufEnd : Nat
  readPtr : Nat
  writePtr : Nat
  cnt : Nat
  maxCnt : Nat

/-- The pipe that `pipe` sets up on a buffer of `size` bytes at `buf`. -/
def Pipe.init (size buf : Nat) : Pipe :=
  { buf := buf, bufEnd := buf + size, readPtr := buf, writePtr := buf, cnt := size, maxCnt := size }

/-- A pointer after `ptr++` and "if (ptr > pipe->buf_end) ptr = pipe->buf". -/
def Pipe.advance (p : Pipe) (ptr : Nat) : Nat := if ptr + 1 > p.bufEnd then p.buf else ptr + 1

structure PipeState where
  pipe : Pipe
  mem : Nat → UInt8
  /-- Writers that stored a byte and did not signal yet. -/
  storing : Nat := 0
  /-- Readers that took a slot of the semaphore and did not load yet. -/
  taking : Nat := 0
  /-- All bytes stored so far, all bytes loaded so far, and the addresses of both. -/
  stored : List UInt8 := []
  loaded : List UInt8 := []
  accesses : List Nat := []

/-- The atomic steps of `pipe_write` and `pipe_read`. -/
inductive PipeEvent where
  /-- `*pipe->write_ptr++ = *buf++` and the test of the pointer. -/
  | store (b : UInt8)
  /-- The decrement of `semaphore_signal_sleep`. -/
  | signal
  /-- The increment of `semaphore_waitsleep`. -/
  | take
  /-- `*buf++ = *pipe->read_ptr++` and the test of the pointer. -/
  | load
  deriving DecidableEq

/-- The step can be taken, if so many writers and readers use the pipe. -/
def PipeEvent.Enabled (writers readers : Nat) (s : PipeState) : PipeEvent → Prop
  | .store _ => s.storing < writers
  | .signal => 0 < s.storing ∧ 0 < s.pipe.cnt
  | .take => s.taking < readers ∧ s.pipe.cnt < s.pipe.maxCnt
  | .load => 0 < s.taking

instance PipeEvent.decidableEnabled (writers readers : Nat) (s : PipeState) (e : PipeEvent) :
    Decidable (e.Enabled writers readers s) :=
  match e with
  | .store _ => inferInstanceAs (Decidable (_ < _))
  | .signal => inferInstanceAs (Decidable (_ ∧ _))
  | .take => inferInstanceAs (Decidable (_ ∧ _))
  | .load => inferInstanceAs (Decidable (_ < _))

def PipeEvent.exec (s : PipeState) : PipeEvent → PipeState
  | .store b =>
    let p := s.pipe
    { s with
      pipe := { p with writePtr := p.advance p.writePtr }
      mem := Function.update s.mem p.writePtr b
      storing := s.storing + 1
      stored := s.stored ++ [b]
      accesses := s.accesses ++ [p.writePtr] }
  | .signal => { s with pipe := { s.pipe with cnt := s.pipe.cnt - 1 }, storing := s.storing - 1 }
  | .take => { s with pipe := { s.pipe with cnt := s.pipe.cnt + 1 }, taking := s.taking + 1 }
  | .load =>
    let p := s.pipe
    { s with
      pipe := { p with readPtr := p.advance p.readPtr }
      taking := s.taking - 1
      loaded := s.loaded ++ [s.mem p.readPtr]
      accesses := s.accesses ++ [p.readPtr] }

def PipeStep (writers readers : Nat) (s : PipeState) (e : PipeEvent) (s' : PipeState) : Prop :=
  e.Enabled writers readers s ∧ s' = e.exec s

/-! ## Pointers and counters -/

/-- The state of a pipe on `size` bytes at `buf`, in terms of how much was stored and loaded. -/
structure PipeInv (size buf : Nat) (s : PipeState) : Prop where
  start : s.pipe.buf = buf
  stop : s.pipe.bufEnd = buf + size
  max : s.pipe.maxCnt = size
  write : s.pipe.writePtr = buf + s.stored.length % (size + 1)
  read : s.pipe.readPtr = buf + s.loaded.length % (size + 1)
  cnt_le : s.pipe.cnt ≤ size
  /-- What is stored is loaded, taken by a reader, signalled, or not signalled yet. -/
  count : s.loaded.length + s.taking + (size - s.pipe.cnt) + s.storing = s.stored.length

variable {size buf writers readers : Nat} {s s' : PipeState} {e : PipeEvent}

theorem pipeInv_init (mem : Nat → UInt8) :
    PipeInv size buf { pipe := Pipe.init size buf, mem := mem } where
  start := rfl
  stop := rfl
  max := rfl
  write := by simp [Pipe.init]
  read := by simp [Pipe.init]
  cnt_le := Nat.le_refl size
  count := by simp [Pipe.init]

theorem PipeInv.advance (h : PipeInv size buf s) (i : Nat) :
    s.pipe.advance (buf + i % (size + 1)) = buf + (i + 1) % (size + 1) := by
  rw [← Ring.next_mod (show 0 < size + 1 by omega), Pipe.advance, h.start, h.stop, Ring.next]
  split
  · rw [if_pos (by omega), Nat.add_zero]
  · rw [if_neg (by omega)]
    omega

theorem PipeInv.step (h : PipeInv size buf s) (hstep : PipeStep writers readers s e s') :
    PipeInv size buf s' := by
  obtain ⟨hen, rfl⟩ := hstep
  have hcount := h.count
  have hle := h.cnt_le
  cases e with
  | store b =>
    refine { h with write := ?_, count := ?_ }
    · show s.pipe.advance s.pipe.writePtr = _
      rw [h.write, h.advance, PipeEvent.exec, List.length_append, List.length_singleton]
    · simp only [PipeEvent.exec, List.length_append, List.length_singleton]
      omega
  | signal =>
    obtain ⟨hst, hcnt⟩ := hen
    refine { h with cnt_le := ?_, count := ?_ }
    all_goals simp only [PipeEvent.exec]; omega
  | take =>
    obtain ⟨-, hcnt⟩ := hen
    rw [h.max] at hcnt
    refine { h with cnt_le := ?_, count := ?_ }
    all_goals simp only [PipeEvent.exec]; omega
  | load =>
    have htaking : 0 < s.taking := hen
    refine { h with read := ?_, count := ?_ }
    · show s.pipe.advance s.pipe.readPtr = _
      rw [h.read, h.advance, PipeEvent.exec, List.length_append, List.length_singleton]
    · simp only [PipeEvent.exec, List.length_append, List.length_singleton]
      omega

/-- The pipe in the middle of a run that filled it with the byte `b`, up to `n` bytes. -/
structure Filled (size buf n : Nat) (b : UInt8) (s : PipeState) : Prop where
  inv : PipeInv size buf s
  stored : s.stored = List.replicate n b
  loaded : s.loaded = []
  storing : s.storing = 0
  taking : s.taking = 0

theorem Filled.cnt (h : Filled size buf n b s) (hn : n ≤ size) : s.pipe.cnt = size - n := by
  have hcount := h.inv.count
  have hle := h.inv.cnt_le
  rw [h.stored, h.loaded, h.storing, h.taking, List.length_replicate, List.length_nil] at hcount
  omega

theorem fill (size buf : Nat) (mem : Nat → UInt8) (b : UInt8) (n : Nat) (hn : n ≤ size) :
    ∃ es s, Path (PipeStep 1 1) { pipe := Pipe.init size buf, mem := mem } es s ∧
      Filled size buf n b s := by
  induction n with
  | zero => exact ⟨[], _, .start, pipeInv_init mem, rfl, rfl, rfl, rfl⟩
  | succ n ih =>
    obtain ⟨es, s, hpath, h⟩ := ih (by omega)
    have hcnt := h.cnt (by omega)
    have hstore : PipeStep 1 1 s (.store b) ((PipeEvent.store b).exec s) :=
      ⟨by rw [PipeEvent.Enabled, h.storing]; exact Nat.one_pos, rfl⟩
    have hsignal : PipeStep 1 1 ((PipeEvent.store b).exec s) .signal
        (PipeEvent.signal.exec ((PipeEvent.store b).exec s)) :=
      ⟨⟨Nat.succ_pos _, by simp only [PipeEvent.exec]; omega⟩, rfl⟩
    refine ⟨_, _, (hpath.step hstore).step hsignal, (h.inv.step hstore).step hsignal, ?_,
      h.loaded, ?_, h.taking⟩
    · rw [List.replicate_succ', ← h.stored]
      rfl
    · exact h.storing

/-! ## One writer and one reader -/

/-- The writer does not store while the buffer is full and the reader has taken a slot without
loading the byte yet. -/
def Careful (s : PipeState) : PipeEvent → Prop
  | .store _ => s.pipe.cnt = 0 → s.taking = 0
  | _ => True

instance Careful.decidable (s : PipeState) (e : PipeEvent) : Decidable (Careful s e) :=
  match e with
  | .store _ => inferInstanceAs (Decidable (_ → _))
  | .signal | .take | .load => .isTrue trivial

/-- What is stored and not loaded yet is in the ring. -/
structure PipeFifo (size buf : Nat) (s : PipeState) : Prop where
  inv : PipeInv size buf s
  storing_le : s.storing ≤ 1
  taking_le : s.taking ≤ 1
  holds : Ring.Holds (size + 1) (fun i => s.mem (buf + i)) s.loaded.length s.stored
  order : s.loaded <+: s.stored

theorem pipeFifo_init (mem : Nat → UInt8) :
    PipeFifo size buf { pipe := Pipe.init size buf, mem := mem } :=
  ⟨pipeInv_init mem, Nat.zero_le 1, Nat.zero_le 1, .nil, List.prefix_rfl⟩

/-- **The reader's bytes are a beginning of the writer's**, one step. -/
theorem PipeFifo.step (h : PipeFifo size buf s) (hok : Careful s e) (hstep : PipeStep 1 1 s e s') :
    PipeFifo size buf s' := by
  have hinv := h.inv.step hstep
  obtain ⟨hen, rfl⟩ := hstep
  have hcount := h.inv.count
  have htaking := h.taking_le
  have hle := h.inv.cnt_le
  cases e with
  | store b =>
    have hstoring : s.storing < 1 := hen
    have hroom : s.stored.length < s.loaded.length + (size + 1) := by
      have hfull : s.pipe.cnt = 0 → s.taking = 0 := hok
      omega
    refine ⟨hinv, ?_, htaking, ?_, h.order.trans (List.prefix_append _ _)⟩
    · show s.storing + 1 ≤ 1
      omega
    · show Ring.Holds _ (fun i => Function.update s.mem s.pipe.writePtr b (buf + i)) _ _
      rw [h.inv.write, Ring.update_offset]
      exact h.holds.put hroom b
  | signal => exact ⟨hinv, Nat.le_trans (Nat.sub_le _ _) h.storing_le, htaking, h.holds, h.order⟩
  | take =>
    refine ⟨hinv, h.storing_le, ?_, h.holds, h.order⟩
    have : s.taking < 1 := hen.1
    show s.taking + 1 ≤ 1
    omega
  | load =>
    have hpos : 0 < s.taking := hen
    have hget := h.holds.get (by omega)
    refine ⟨hinv, h.storing_le, Nat.le_trans (Nat.sub_le _ _) htaking, ?_, ?_⟩
    · exact h.holds.mono (by simp [PipeEvent.exec])
    · show s.loaded ++ [s.mem s.pipe.readPtr] <+: s.stored
      rw [h.inv.read]
      exact Ring.snoc_of_next h.order hget

/-- **A pipe is a FIFO** in every run of one writer and one reader in which the writer never stores
while the buffer is full and the reader is about to load. -/
theorem pipe_fifo (size buf : Nat) (mem : Nat → UInt8) {s : PipeState}
    (h : Reach (PipeStep 1 1) Careful { pipe := Pipe.init size buf, mem := mem } s) :
    s.loaded <+: s.stored :=
  (h.invariant (pipeFifo_init mem) (fun hI hok hstep => hI.step hok hstep)).order

/-- The pipe that `pipe` returns, on a cleared buffer at `buf`. -/
def newPipe (buf : Nat) : PipeState :=
  { pipe := Pipe.init configPipeBufferSize buf, mem := fun _ => 0 }

/-- The second byte is stored while the reader has the slot of the first. -/
theorem pipe_fifo_byte :
    ∃ s, Reach (PipeStep 1 1) Careful (newPipe 4096) s ∧ s.loaded = [65, 66] ∧
      s.loaded <+: s.stored := by
  have hrun : Reach (PipeStep 1 1) Careful (newPipe 4096)
      ([.store 65, .signal, .take, .store 66, .load, .signal, .store 67, .take, .load].foldl
        PipeEvent.exec (newPipe 4096)) :=
    .of_legal (P := fun s e => Careful s e ∧ e.Enabled 1 1 s) (fun _ _ h => ⟨h.1, h.2, rfl⟩) .start
      (by decide)
  exact ⟨_, hrun, by decide, pipe_fifo _ _ _ hrun⟩

/-- A byte that is stored while the buffer is full and the reader has its slot, but not the byte,
takes the place of the byte the reader is about to load. -/
theorem pipe_fifo_overwritten :
    ∃ s, Reach (PipeStep 1 1) (fun _ _ => True) (newPipe 4096) s ∧ ¬ s.loaded <+: s.stored := by
  obtain ⟨es, s, hpath, h⟩ := fill configPipeBufferSize 4096 (fun _ => 0) 0 _ (Nat.le_refl _)
  have hfull := h.cnt (Nat.le_refl _)
  -- the writer is ahead of the semaphore by one byte when the reader takes its slot
  have hrun := Path.of_legal (P := fun s e => e.Enabled 1 1 s)
    [.store 0, .take, .signal, .store 1, .load]
    (fun s e h => (⟨h, rfl⟩ : PipeStep 1 1 s e (e.exec s))) hpath (by
      simp [Legal, PipeEvent.Enabled, PipeEvent.exec, h.storing, h.taking, h.inv.max, hfull,
        configPipeBufferSize])
  refine ⟨_, hrun.reach, ?_⟩
  obtain ⟨rest, hfirst, hlen⟩ : ∃ rest, s.stored = 0 :: rest ∧ rest.length = 1023 :=
    ⟨_, h.stored, List.length_replicate⟩
  simp [PipeEvent.exec, Pipe.advance, h.loaded, hfirst, hlen, h.inv.write, h.inv.read, h.inv.start,
    h.inv.stop, configPipeBufferSize]

/-! ## The addresses -/

/-- The accesses are those of the bytes stored and loaded. -/
structure PipeAccesses (size buf : Nat) (s : PipeState) : Prop where
  inv : PipeInv size buf s
  mem_iff : ∀ x, x ∈ s.accesses ↔ (∃ i < s.stored.length, x = buf + i % (size + 1)) ∨
    ∃ i < s.loaded.length, x = buf + i % (size + 1)

theorem exists_lt_succ {n : Nat} {P : Nat → Prop} : (∃ i < n + 1, P i) ↔ (∃ i < n, P i) ∨ P n := by
  constructor
  · rintro ⟨i, hi, h⟩
    rcases Nat.lt_succ_iff_lt_or_eq.mp hi with hi | rfl
    · exact Or.inl ⟨i, hi, h⟩
    · exact Or.inr h
  · rintro (⟨i, hi, h⟩ | h)
    · exact ⟨i, by omega, h⟩
    · exact ⟨n, by omega, h⟩

theorem PipeAccesses.step (h : PipeAccesses size buf s) (hstep : PipeStep writers readers s e s') :
    PipeAccesses size buf s' := by
  refine ⟨h.inv.step hstep, ?_⟩
  obtain ⟨-, rfl⟩ := hstep
  have hmem := h.mem_iff
  intro x
  cases e with
  | store b =>
    simp only [PipeEvent.exec, List.mem_append, List.mem_singleton, List.length_append,
      List.length_singleton, exists_lt_succ, hmem x, h.inv.write]
    exact or_right_comm
  | signal => exact hmem x
  | take => exact hmem x
  | load =>
    simp only [PipeEvent.exec, List.mem_append, List.mem_singleton, List.length_append,
      List.length_singleton, exists_lt_succ, hmem x, h.inv.read]
    exact or_assoc

def written : List PipeEvent → List UInt8
  | [] => []
  | .store b :: es => b :: written es
  | _ :: es => written es

theorem written_append (es es' : List PipeEvent) :
    written (es ++ es') = written es ++ written es' := by
  fun_induction written es with
  | case1 => rfl
  | case2 b es ih => rw [List.cons_append, written, ih, List.cons_append]
  | case3 e es hne ih =>
    rw [List.cons_append, ← ih]
    cases e with
    | store b => exact absurd rfl (hne b)
    | _ => rfl

theorem PipeStep.stored (h : PipeStep writers readers s e s') :
    s'.stored = s.stored ++ written [e] := by
  obtain ⟨-, rfl⟩ := h
  cases e with
  | store b => rfl
  | _ => exact (List.append_nil _).symm

theorem PipeAccesses.inside_iff (h : PipeAccesses size buf s) :
    (∀ x ∈ s.accesses, buf ≤ x ∧ x < buf + size) ↔ s.stored.length ≤ size := by
  have hcount := h.inv.count
  constructor
  · intro hall
    by_contra hlt
    -- byte number `size` went into the cell behind the buffer
    have hout := (h.mem_iff (buf + size % (size + 1))).mpr (Or.inl ⟨size, by omega, rfl⟩)
    have := (hall _ hout).2
    rw [Nat.mod_eq_of_lt (Nat.lt_succ_self size)] at this
    omega
  · intro hle x hx
    have hin : ∃ i < size, x = buf + i % (size + 1) := by
      rcases (h.mem_iff x).mp hx with ⟨i, hi, hxi⟩ | ⟨i, hi, hxi⟩
      all_goals exact ⟨i, by omega, hxi⟩
    obtain ⟨i, hi, rfl⟩ := hin
    rw [Nat.mod_eq_of_lt (by omega)]
    omega

/-- **All accesses to a pipe are inside its buffer** exactly in the runs in which no more bytes are
written than the buffer has. -/
theorem pipe_accesses_iff (size buf writers readers : Nat) (mem : Nat → UInt8) {s : PipeState}
    {es : List PipeEvent}
    (h : Path (PipeStep writers readers) { pipe := Pipe.init size buf, mem := mem } es s) :
    (∀ x ∈ s.accesses, buf ≤ x ∧ x < buf + size) ↔ (written es).length ≤ size := by
  have hrun : PipeAccesses size buf s ∧ s.stored = written es := by
    refine h.invariant (I := fun es s => PipeAccesses size buf s ∧ s.stored = written es) ?_ ?_
    · exact ⟨⟨pipeInv_init mem, fun x => by simp⟩, rfl⟩
    · rintro es s e s' ⟨hI, hst⟩ hstep
      exact ⟨hI.step hstep, by rw [hstep.stored, hst, written_append]⟩
  rw [hrun.1.inside_iff, hrun.2]

theorem pipe_accesses_iff_byte :
    ∃ es s, Path (PipeStep 1 1) (newPipe 4096) es s ∧ s.accesses = [4096] ∧
      ((∀ x ∈ s.accesses, 4096 ≤ x ∧ x < 4096 + configPipeBufferSize) ↔
        (written es).length ≤ configPipeBufferSize) := by
  have hrun : Path (PipeStep 1 1) (newPipe 4096) [.store 65] _ := .step .start ⟨Nat.one_pos, rfl⟩
  exact ⟨_, _, hrun, rfl, pipe_accesses_iff _ _ _ _ _ hrun⟩

/-- The byte that is written to a full pipe is stored behind the buffer. -/
theorem pipe_access_outside :
    ∃ es s, Path (PipeStep 1 1) (newPipe 4096) es s ∧
      ¬ ∀ x ∈ s.accesses, 4096 ≤ x ∧ x < 4096 + configPipeBufferSize := by
  obtain ⟨es, s, hpath, h⟩ := fill configPipeBufferSize 4096 (fun _ => 0) 0 _ (Nat.le_refl _)
  have hstore : PipeStep 1 1 s (.store 0) _ :=
    ⟨by rw [PipeEvent.Enabled, h.storing]; exact Nat.one_pos, rfl⟩
  refine ⟨_, _, hpath.step hstore, fun hall => ?_⟩
  have hlast := (hall s.pipe.writePtr (List.mem_append_right _ (List.mem_singleton_self _))).2
  rw [h.inv.write, h.stored, List.length_replicate, Nat.mod_eq_of_lt (Nat.lt_succ_self _)] at hlast
  exact Nat.lt_irrefl _ hlast

end Hydrax.Io
