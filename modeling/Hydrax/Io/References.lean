import Hydrax.Io.Descriptor
import Mathlib.Algebra.Order.BigOperators.Group.Finset

/-!
# References to pipes

The node of a pipe counts the descriptors that refer to it, over the tables of all processes, and is
freed with its `pipe_t` and its buffer when the last one is closed.

* `PipeBooks` — the books of the pipes: the counters, what is in use, and who refers to what. A call
  may hold references that are in no table yet, and blocks for descriptors to come.

`PipeBooks.openFile`, `.pipe`, `.dup2`, `.close`, `.fork` and `.destroyDescriptorTable` say that the
calls keep the books, if the allocations succeed. What follows for runs is in `Io.PipeRuns`.
-/

namespace Hydrax.Io

open Loop
open Function (update update_of_ne update_self)

variable {s s' : IoState} {t : DescTable} {f : File} {pid node fd mode n : Nat}

/-! ## Counting descriptors -/

/-- The number of descriptors with the property, in all tables. -/
def IoState.count (s : IoState) (q : File → Bool) : Nat :=
  ∑ p ∈ Finset.range s.nextPid, (s.files p).countP q

def refersTo (n : Nat) (f : File) : Bool := f.node = n

variable {q q' : File → Bool}

theorem IoState.files_of_some (ht : s.tables pid = some t) : s.files pid = t.fileDescriptors := by
  rw [files, ht]
  rfl

theorem IoState.files_of_none (ht : s.tables pid = none) : s.files pid = [] := by
  rw [files, ht]
  rfl

theorem IoState.files_congr (h : s'.tables pid = s.tables pid) : s'.files pid = s.files pid := by
  rw [files, files, h]

theorem IoState.count_congr (hpid : s'.nextPid = s.nextPid)
    (h : ∀ p, (s'.files p).countP q = (s.files p).countP q) : s'.count q = s.count q := by
  rw [count, count, hpid]
  exact Finset.sum_congr rfl (fun p _ => h p)

theorem IoState.count_update (hlt : pid < s.nextPid) (hpid : s'.nextPid = s.nextPid)
    (h : ∀ p, p ≠ pid → s'.files p = s.files p) :
    s'.count q + (s.files pid).countP q = s.count q + (s'.files pid).countP q := by
  have hmem : pid ∈ Finset.range s.nextPid := Finset.mem_range.mpr hlt
  have hrest : ∑ p ∈ (Finset.range s.nextPid).erase pid, (s'.files p).countP q =
      ∑ p ∈ (Finset.range s.nextPid).erase pid, (s.files p).countP q :=
    Finset.sum_congr rfl (fun p hp => by rw [h p (Finset.ne_of_mem_erase hp)])
  rw [count, count, hpid, ← Finset.add_sum_erase _ _ hmem,
    ← Finset.add_sum_erase _ (fun p => (s.files p).countP q) hmem, hrest]
  omega

theorem IoState.count_succ (hpid : s'.nextPid = s.nextPid + 1)
    (h : ∀ p < s.nextPid, s'.files p = s.files p) :
    s'.count q = s.count q + (s'.files s.nextPid).countP q := by
  rw [count, count, hpid, Finset.sum_range_succ]
  congr 1
  exact Finset.sum_congr rfl (fun p hp => by rw [h p (Finset.mem_range.mp hp)])

theorem IoState.countP_le_count (hlt : pid < s.nextPid) : (s.files pid).countP q ≤ s.count q :=
  Finset.single_le_sum (f := fun p => (s.files p).countP q) (fun _ _ => Nat.zero_le _)
    (Finset.mem_range.mpr hlt)

theorem IoState.count_pos (hlt : pid < s.nextPid) (hf : f ∈ s.files pid) (hq : q f = true) :
    0 < s.count q :=
  lt_of_lt_of_le (List.countP_pos_iff.mpr ⟨f, hf, hq⟩) (countP_le_count hlt)

theorem IoState.count_le (hq : ∀ f, q f = true → q' f = true) : s.count q ≤ s.count q' :=
  Finset.sum_le_sum (fun _ _ => List.countP_mono_left (fun f _ => hq f))

theorem countP_eraseP {fs : List File} (hf : fs.find? (fun f => f.fd = fd) = some f) :
    (fs.eraseP (fun f => f.fd = fd)).countP q + (if q f then 1 else 0) = fs.countP q := by
  induction fs with
  | nil => cases hf
  | cons g fs ih =>
    by_cases hg : g.fd = fd
    · rw [List.find?_cons_of_pos (by simpa using hg)] at hf
      cases hf
      rw [List.eraseP_cons_of_pos (by simpa using hg), List.countP_cons]
    · rw [List.find?_cons_of_neg (by simpa using hg)] at hf
      rw [List.eraseP_cons_of_neg (by simpa using hg), List.countP_cons, List.countP_cons,
        ← ih hf]
      omega

/-! ## The books -/

/-- The node is, or was, that of a pipe. -/
def IoState.IsPipe (s : IoState) (n : Nat) : Prop := (s.nodes n).flags &&& fsAutofree ≠ 0

/-- The three blocks of a pipe, which are in use together. -/
structure PipeParts (s : IoState) (n : Nat) : Prop where
  flags : (s.nodes n).flags = fsPipe ||| fsAutofree
  data : (s.nodes n).data = some (n + 1)
  buf : s.pipeBuf (n + 1) = n + 2
  lower : s.fsNodes ≤ n
  upper : n + 2 < s.mallocs
  apart_data : ¬ s.IsPipe (n + 1)
  apart_buf : ¬ s.IsPipe (n + 2)
  live_data : s.live (n + 1) = s.live n
  live_buf : s.live (n + 2) = s.live n

/-- A descriptor refers to a node of the file system, or is one end of a pipe. -/
def FileOk (s : IoState) (f : File) : Prop :=
  f.node < s.fsNodes ∨ s.IsPipe f.node ∧ (f.mode = fdModeRead ∨ f.mode = fdModeWrite)

/-- **The books of the pipes.** There are `extra n` references to the node `n` that are in no table,
and `spare` blocks for descriptors that are in no table. -/
structure PipeBooks (s : IoState) (extra : Nat → Nat) (spare : Nat) : Prop where
  parts : ∀ n, s.IsPipe n → PipeParts s n
  refs : ∀ n, s.IsPipe n → s.live n = true →
    (s.nodes n).refs = s.count (refersTo n) + extra n
  live_iff : ∀ n, s.IsPipe n → (s.live n = true ↔ 0 < s.count (refersTo n) + extra n)
  fs : ∀ n < s.fsNodes, s.live n = true ∧ ¬ s.IsPipe n
  fs_le : s.fsNodes ≤ s.mallocs
  held : ∀ p, ∀ f ∈ s.files p, FileOk s f
  outside : ∀ p, s.nextPid ≤ p → s.tables p = none
  room : s.count (fun _ => true) + spare ≤ s.fileBlocks
  room_le : s.fileBlocks ≤ 2 ^ 31

variable {extra extra' : Nat → Nat} {spare spare' : Nat}

theorem PipeBooks.lt_of_table (h : PipeBooks s extra spare) (ht : s.tables pid = some t) :
    pid < s.nextPid := by
  by_contra hle
  rw [h.outside pid (by omega)] at ht
  cases ht

theorem PipeBooks.lt_nextPid (h : PipeBooks s extra spare) (hf : f ∈ s.files pid) :
    pid < s.nextPid := by
  cases ht : s.tables pid with
  | none =>
    rw [IoState.files_of_none ht] at hf
    cases hf
  | some t => exact h.lt_of_table ht

theorem PipeBooks.live (h : PipeBooks s extra spare) (hf : f ∈ s.files pid) :
    s.live f.node = true := by
  rcases h.held pid f hf with hfs | ⟨hpipe, -⟩
  · exact (h.fs f.node hfs).1
  · rw [h.live_iff f.node hpipe]
    have := IoState.count_pos (q := refersTo f.node) (h.lt_nextPid hf) hf (by simp [refersTo])
    omega

theorem PipeBooks.count_le (h : PipeBooks s extra spare) (n : Nat) :
    s.count (refersTo n) + spare ≤ 2 ^ 31 := by
  have hall : s.count (refersTo n) ≤ s.count (fun _ => true) := IoState.count_le (fun _ _ => rfl)
  have hroom := h.room
  have hle := h.room_le
  omega

theorem PipeParts.congr (h : PipeParts s n)
    (hflags : ∀ m, (s'.nodes m).flags = (s.nodes m).flags)
    (hdata : (s'.nodes n).data = (s.nodes n).data) (hbuf : s'.pipeBuf = s.pipeBuf)
    (hfs : s'.fsNodes = s.fsNodes) (hmallocs : s.mallocs ≤ s'.mallocs)
    (hlive : s'.live (n + 1) = s'.live n) (hlive' : s'.live (n + 2) = s'.live n) :
    PipeParts s' n where
  flags := (hflags n).trans h.flags
  data := hdata.trans h.data
  buf := hbuf ▸ h.buf
  lower := hfs ▸ h.lower
  upper := Nat.lt_of_lt_of_le h.upper hmallocs
  apart_data := by
    rw [IoState.IsPipe, hflags]
    exact h.apart_data
  apart_buf := by
    rw [IoState.IsPipe, hflags]
    exact h.apart_buf
  live_data := hlive
  live_buf := hlive'

/-- A change that does not touch nodes and blocks, and moves references between tables and calls. -/
theorem PipeBooks.move (h : PipeBooks s extra spare) (hnodes : s'.nodes = s.nodes)
    (hbuf : s'.pipeBuf = s.pipeBuf) (hlive : s'.live = s.live) (hfs : s'.fsNodes = s.fsNodes)
    (hmallocs : s.mallocs ≤ s'.mallocs)
    (hcount : ∀ n, s.IsPipe n →
      s'.count (refersTo n) + extra' n = s.count (refersTo n) + extra n)
    (hheld : ∀ p, ∀ f ∈ s'.files p, FileOk s f) (houtside : ∀ p, s'.nextPid ≤ p → s'.tables p = none)
    (hroom : s'.count (fun _ => true) + spare' ≤ s'.fileBlocks) (hroom_le : s'.fileBlocks ≤ 2 ^ 31) :
    PipeBooks s' extra' spare' := by
  have hpipe : ∀ n, s'.IsPipe n ↔ s.IsPipe n := fun n => by
    rw [IoState.IsPipe, IoState.IsPipe, hnodes]
  refine ⟨fun n hn => ?_, fun n hn hl => ?_, fun n hn => ?_, fun n hn => ?_, ?_, fun p f hf => ?_,
    houtside, hroom, hroom_le⟩
  · have hp := h.parts n ((hpipe n).mp hn)
    exact hp.congr (fun m => by rw [hnodes]) (by rw [hnodes]) hbuf hfs hmallocs
      (hlive ▸ hp.live_data) (hlive ▸ hp.live_buf)
  · rw [hnodes, hcount n ((hpipe n).mp hn)]
    exact h.refs n ((hpipe n).mp hn) (hlive ▸ hl)
  · rw [hlive, hcount n ((hpipe n).mp hn)]
    exact h.live_iff n ((hpipe n).mp hn)
  · rw [hlive, hpipe]
    exact h.fs n (hfs ▸ hn)
  · exact hfs ▸ Nat.le_trans h.fs_le hmallocs
  · rw [FileOk, hfs, hpipe]
    exact hheld p f hf

theorem IoState.isPipe_setRefs (n r m : Nat) : (s.setRefs n r).IsPipe m ↔ s.IsPipe m := by
  rw [IsPipe, IsPipe, setRefs_flags]

theorem PipeBooks.setRefs (h : PipeBooks s extra spare) {r e : Nat} (hlive : s.live n = true)
    (hr : s.IsPipe n → r = s.count (refersTo n) + e ∧ 0 < r) :
    PipeBooks (s.setRefs n r) (update extra n e) spare := by
  have hpipe := fun m => s.isPipe_setRefs n r m
  refine ⟨fun m hm => ?_, fun m hm hl => ?_, fun m hm => ?_, fun m hm => ?_, h.fs_le,
    fun p f hf => ?_, h.outside, h.room, h.room_le⟩
  · have hp := h.parts m ((hpipe m).mp hm)
    exact hp.congr (IoState.setRefs_flags r) (IoState.setRefs_data r m) rfl rfl (Nat.le_refl _)
      hp.live_data hp.live_buf
  · have hm' := (hpipe m).mp hm
    by_cases hmn : m = n
    · subst hmn
      rw [IoState.setRefs_self, update_self]
      exact (hr hm').1
    · rw [IoState.setRefs_of_ne r hmn, update_of_ne hmn]
      exact h.refs m hm' hl
  · have hm' := (hpipe m).mp hm
    by_cases hmn : m = n
    · subst hmn
      rw [update_self]
      exact iff_of_true hlive ((hr hm').1 ▸ (hr hm').2)
    · rw [update_of_ne hmn]
      exact h.live_iff m hm'
  · rw [hpipe]
    exact h.fs m hm
  · rw [FileOk, hpipe]
    exact h.held p f hf

theorem PipeBooks.incrRefs (h : PipeBooks s extra spare) (hlive : s.live n = true)
    (hlt : s.count (refersTo n) + extra n + 1 < 2 ^ 32) :
    PipeBooks (s.incrRefs n) (update extra n (extra n + 1)) spare := by
  refine h.setRefs hlive (fun hn => ?_)
  rw [h.refs n hn hlive, Nat.mod_eq_of_lt hlt]
  omega

/-! ### The last reference -/

/-- The blocks that are freed with the pipe at `n`. -/
def freedWith (live : Nat → Bool) (n : Nat) : Nat → Bool :=
  update (update (update live (n + 2) false) (n + 1) false) n false

theorem PipeParts.freeNode (h : PipeParts s n) (hlive : s.live n = true) :
    s.freeNode n = .ok { s with live := freedWith s.live n } := by
  have hdata := h.live_data.trans hlive
  have hbuf := h.live_buf.trans hlive
  rw [IoState.freeNode, IoState.freePipe, h.flags, if_pos (by decide), h.data]
  dsimp only
  rw [h.buf, IoState.free, if_pos hbuf, ok_bind, IoState.free, if_pos, ok_bind,
    IoState.free, if_pos]
  · rfl
  · dsimp only
    rw [update_of_ne (by omega), update_of_ne (by omega), hlive]
  · dsimp only
    rw [update_of_ne (by omega), hdata]

theorem freedWith_of_ne {live : Nat → Bool} {m : Nat} (h : m ≠ n) (h₁ : m ≠ n + 1)
    (h₂ : m ≠ n + 2) : freedWith live n m = live m := by
  rw [freedWith, update_of_ne h, update_of_ne h₁, update_of_ne h₂]

theorem freedWith_self {live : Nat → Bool} {m : Nat} (h : n ≤ m) (hle : m ≤ n + 2) :
    freedWith live n m = false := by
  rw [freedWith]
  rcases (by omega : m = n ∨ m = n + 1 ∨ m = n + 2) with rfl | rfl | rfl
  · rw [update_self]
  · rw [update_of_ne (by omega), update_self]
  · rw [update_of_ne (by omega), update_of_ne (by omega), update_self]

theorem PipeParts.apart {m : Nat} (hn : PipeParts s n) (hm : PipeParts s m) (hpn : s.IsPipe n)
    (hpm : s.IsPipe m) (hmn : m ≠ n) : m + 2 < n ∨ n + 2 < m := by
  have h₁ : m ≠ n + 1 := fun h => hn.apart_data (h ▸ hpm)
  have h₂ : m ≠ n + 2 := fun h => hn.apart_buf (h ▸ hpm)
  have h₃ : n ≠ m + 1 := fun h => hm.apart_data (h ▸ hpn)
  have h₄ : n ≠ m + 2 := fun h => hm.apart_buf (h ▸ hpn)
  omega

theorem PipeBooks.freed (h : PipeBooks s extra spare) (hn : s.IsPipe n)
    (hzero : s.count (refersTo n) = 0) :
    PipeBooks { s.setRefs n 0 with live := freedWith s.live n } (update extra n 0)
      spare := by
  have hpipe := fun m => s.isPipe_setRefs n 0 m
  have hparts := h.parts n hn
  have hother : ∀ m, s.IsPipe m → m ≠ n → ∀ i ≤ 2, freedWith s.live n (m + i) = s.live (m + i) := by
    intro m hm hmn i hi
    have := hparts.apart (h.parts m hm) hn hm hmn
    exact freedWith_of_ne (by omega) (by omega) (by omega)
  refine ⟨fun m hm => ?_, fun m hm hl => ?_, fun m hm => ?_, fun m hm => ?_, h.fs_le,
    fun p f hf => ?_, h.outside, h.room, h.room_le⟩
  · have hm' := (hpipe m).mp hm
    have hp := h.parts m hm'
    refine hp.congr (IoState.setRefs_flags 0) (IoState.setRefs_data 0 m) rfl rfl (Nat.le_refl _)
      ?_ ?_
    all_goals dsimp only
    all_goals by_cases hmn : m = n
    · rw [hmn, freedWith_self (by omega) (by omega), freedWith_self (by omega) (by omega)]
    · rw [hother m hm' hmn 1 (by omega), hp.live_data]
      exact (hother m hm' hmn 0 (by omega)).symm
    · rw [hmn, freedWith_self (by omega) (by omega), freedWith_self (by omega) (by omega)]
    · rw [hother m hm' hmn 2 (by omega), hp.live_buf]
      exact (hother m hm' hmn 0 (by omega)).symm
  · have hmn : m ≠ n := by
      rintro rfl
      exact absurd hl (by simp [freedWith])
    have hm' := (hpipe m).mp hm
    show ((s.setRefs n 0).nodes m).refs = _
    rw [IoState.setRefs_of_ne 0 hmn, update_of_ne hmn]
    exact h.refs m hm' ((hother m hm' hmn 0 (by omega)).symm.trans hl)
  · have hm' := (hpipe m).mp hm
    dsimp only
    by_cases hmn : m = n
    · subst hmn
      rw [update_self, freedWith_self (Nat.le_refl _) (by omega)]
      refine iff_of_false (by decide) ?_
      show ¬ 0 < s.count (refersTo m) + 0
      rw [hzero]
      decide
    · rw [update_of_ne hmn, show freedWith s.live n m = s.live m from
        hother m hm' hmn 0 (by omega)]
      exact h.live_iff m hm'
  · have hlow := hparts.lower
    have hm' : m < s.fsNodes := hm
    refine ⟨?_, mt (hpipe m).mp (h.fs m hm).2⟩
    dsimp only
    rw [freedWith_of_ne (by omega) (by omega) (by omega)]
    exact (h.fs m hm).1
  · exact (h.held p f hf).imp id (And.imp_left (hpipe f.node).mpr)

theorem PipeBooks.vfsClose (h : PipeBooks s extra spare) (hn : n < s.fsNodes ∨ s.IsPipe n)
    (hextra : 0 < extra n) :
    ∃ s', s.vfsClose n = .ok s' ∧ PipeBooks s' (update extra n (extra n - 1)) spare := by
  have hlive : s.live n = true := by
    rcases hn with hn | hn
    · exact (h.fs n hn).1
    · exact (h.live_iff n hn).mpr (by omega)
  rw [IoState.vfsClose, if_pos hlive]
  dsimp only
  rcases hn with hn | hn
  · -- a node of the file system is never freed
    have hno := (h.fs n hn).2
    rw [if_neg (fun hc => hno ((s.isPipe_setRefs n _ n).mp hc.2))]
    exact ⟨_, rfl, h.setRefs hlive (fun hp => absurd hp hno)⟩
  · have hrefs := h.refs n hn hlive
    have hdecr : s.decrRefs n = s.setRefs n (s.count (refersTo n) + (extra n - 1)) := by
      rw [IoState.decrRefs, hrefs, decr_of_pos (by omega), Nat.add_sub_assoc hextra]
    rw [hdecr, IoState.setRefs_self]
    dsimp only
    by_cases hlast : s.count (refersTo n) + (extra n - 1) = 0
    · rw [if_pos ⟨hlast, hn⟩, hlast]
      have hparts : PipeParts (s.setRefs n 0) n :=
        (h.parts n hn).congr (IoState.setRefs_flags 0) (IoState.setRefs_data 0 n) rfl rfl
          (Nat.le_refl _) (h.parts n hn).live_data (h.parts n hn).live_buf
      rw [hparts.freeNode hlive, show extra n - 1 = 0 by omega]
      exact ⟨_, rfl, h.freed hn (by omega)⟩
    · rw [if_neg (fun hc => hlast hc.1)]
      exact ⟨_, rfl, h.setRefs hlive (fun _ => ⟨rfl, by omega⟩)⟩

/-! ## The calls -/

theorem PipeBooks.setTable (h : PipeBooks s extra spare) {new : DescTable}
    (ht : s.tables pid = some t) (hheld : ∀ f ∈ new.fileDescriptors, FileOk s f)
    (hcount : ∀ n, s.IsPipe n → new.fileDescriptors.countP (refersTo n) + extra' n =
      t.fileDescriptors.countP (refersTo n) + extra n)
    (hlength : new.fileDescriptors.length + spare' = t.fileDescriptors.length + spare) :
    PipeBooks (s.setTable pid (some new)) extra' spare' := by
  have hlt := h.lt_of_table ht
  have hfiles : ∀ p, p ≠ pid → (s.setTable pid (some new)).files p = s.files p :=
    fun p hp => IoState.files_congr (update_of_ne hp _ _)
  have hself : (s.setTable pid (some new)).files pid = new.fileDescriptors :=
    IoState.files_of_some (update_self ..)
  have hsum := fun q => IoState.count_update (q := q) hlt
    (show (s.setTable pid (some new)).nextPid = s.nextPid from rfl) hfiles
  rw [hself, IoState.files_of_some ht] at hsum
  refine h.move rfl rfl rfl rfl (Nat.le_refl _) (fun n hn => ?_) (fun p f hf => ?_)
    (fun p hp => ?_) ?_ h.room_le
  · have := hsum (refersTo n)
    have := hcount n hn
    omega
  · by_cases hp : p = pid
    · subst hp
      exact hheld f (hself ▸ hf)
    · exact h.held p f (hfiles p hp ▸ hf)
  · have hne : p ≠ pid := fun heq => by
      have : s.nextPid ≤ p := hp
      omega
    exact (update_of_ne hne _ _).trans (h.outside p hp)
  · have hall := hsum (fun _ => true)
    have hroom := h.room
    rw [List.countP_true] at hall
    show _ ≤ s.fileBlocks
    omega

theorem PipeBooks.blocks (h : PipeBooks s extra spare) (htables : s'.tables = s.tables)
    (hpid : s'.nextPid = s.nextPid) (hnodes : s'.nodes = s.nodes) (hbuf : s'.pipeBuf = s.pipeBuf)
    (hlive : s'.live = s.live) (hfs : s'.fsNodes = s.fsNodes) (hmallocs : s.mallocs ≤ s'.mallocs)
    (hblocks : s'.fileBlocks + spare = s.fileBlocks + spare') (hle : s'.fileBlocks ≤ 2 ^ 31) :
    PipeBooks s' extra spare' := by
  have hfiles : ∀ p, s'.files p = s.files p := fun p => IoState.files_congr (by rw [htables])
  have hcount : ∀ q, s'.count q = s.count q := fun q =>
    IoState.count_congr hpid (fun p => by rw [hfiles p])
  refine h.move hnodes hbuf hlive hfs hmallocs (fun n _ => by rw [hcount])
    (fun p f hf => h.held p f (hfiles p ▸ hf)) (fun p hp => ?_) ?_ hle
  · rw [htables]
    exact h.outside p (hpid ▸ hp)
  · have := h.room
    rw [hcount]
    omega

/-- **A descriptor is created** for a reference that is in no table. -/
theorem PipeBooks.create (h : PipeBooks s extra spare) (ht : s.tables pid = some t)
    (node fd mode : Nat)
    (hfile : node < s.fsNodes ∨ s.IsPipe node ∧ (mode = fdModeRead ∨ mode = fdModeWrite))
    (hextra : 0 < extra node) :
    ∃ r s', s.createFileDescriptor pid node fd mode = .ok (r, s') ∧
      (r = minusOne ∧ s'.outOfMemory = true ∧ s'.tables pid = some t ∨
        s'.tables pid = some (t.create node fd mode) ∧ s'.fsNodes = s.fsNodes ∧
          s'.nodes = s.nodes ∧ PipeBooks s' (update extra node (extra node - 1)) spare) := by
  obtain ⟨r, s', hcreate, -⟩ :=
    IoState.createFileDescriptor_ok ht node fd mode
  refine ⟨r, s', hcreate, ?_⟩
  rcases IoState.createFileDescriptor_cases hcreate with ⟨rfl, rfl⟩ | ⟨t', ht', hroom, -, rfl⟩
  · exact Or.inl ⟨rfl, rfl, ht⟩
  · cases ht.symm.trans ht'
    refine Or.inr ⟨update_self .., rfl, rfl, ?_⟩
    have hblock : PipeBooks { s with mallocs := s.mallocs + 1, fileBlocks := s.fileBlocks + 1 }
        extra (spare + 1) :=
      h.blocks rfl rfl rfl rfl rfl rfl (Nat.le_succ _)
        (show s.fileBlocks + 1 + spare = _ by omega) hroom
    refine hblock.setTable ht (fun f hf => ?_) (fun n _ => ?_) ?_
    · rcases List.mem_append.mp hf with hf | hf
      · exact h.held pid f (IoState.files_of_some ht ▸ hf)
      · rw [List.mem_singleton.mp hf]
        exact hfile
    · rw [DescTable.create, List.countP_append, List.countP_singleton]
      by_cases hn : n = node
      · subst hn
        rw [update_self, if_pos (by simp [refersTo])]
        omega
      · rw [update_of_ne hn, if_neg (by simp [refersTo, Ne.symm hn])]
        omega
    · rw [DescTable.create, List.length_append, List.length_singleton]
      omega

/-- **A descriptor is closed**, with its reference. -/
theorem PipeBooks.close (h : PipeBooks s extra spare) (ht : s.tables pid = some t)
    (hf : t.fileDescriptors.find? (fun f => f.fd = fd) = some f) (hzero : extra f.node = 0) :
    ∃ s', s.close pid fd = .ok (0, s') ∧
      s'.tables = update s.tables pid (some (t.erase fd)) ∧
      s'.outOfMemory = s.outOfMemory ∧ PipeBooks s' extra spare := by
  have hmem : f ∈ t.fileDescriptors := List.mem_of_find?_eq_some hf
  have hok : FileOk s f := h.held pid f (IoState.files_of_some ht ▸ hmem)
  -- out of the table, the reference is in the hands of the call
  have hdetach : PipeBooks (s.setTable pid (some (t.erase fd))) (update extra f.node 1)
      (spare + 1) := by
    refine h.setTable ht (fun g hg => ?_) (fun n _ => ?_) ?_
    · exact h.held pid g (IoState.files_of_some ht ▸ List.mem_of_mem_eraseP hg)
    · have hcount := countP_eraseP (q := refersTo n) hf
      simp only [DescTable.erase]
      by_cases hn : n = f.node
      · subst hn
        rw [if_pos (by simp [refersTo])] at hcount
        rw [update_self]
        omega
      · rw [if_neg (by simp [refersTo, Ne.symm hn])] at hcount
        rw [update_of_ne hn]
        omega
    · have hlength := countP_eraseP (q := fun _ => true) hf
      rw [List.countP_true, if_pos rfl] at hlength
      simp only [DescTable.erase]
      omega
  obtain ⟨s₂, hclose, hbooks⟩ := hdetach.vfsClose (n := f.node) (hok.imp id And.left)
    (by rw [update_self]; exact Nat.one_pos)
  obtain ⟨live, rfl⟩ := IoState.vfsClose_cases hclose
  rw [update_self, Nat.sub_self, Function.update_idem, ← hzero,
    Function.update_eq_self] at hbooks
  rw [IoState.close, ht]
  dsimp only
  rw [if_neg (List.ne_nil_of_mem hmem), hf]
  dsimp only
  rw [hclose, ok_bind]
  refine ⟨_, rfl, rfl, rfl, ?_⟩
  have hroom := hbooks.room
  refine hbooks.blocks rfl rfl rfl rfl rfl rfl (Nat.le_refl _) ?_ ?_
  · show s.fileBlocks - 1 + (spare + 1) = s.fileBlocks + spare
    have : _ ≤ s.fileBlocks := hroom
    omega
  · exact Nat.le_trans (Nat.sub_le _ _) h.room_le

theorem PipeBooks.closeTarget (h : PipeBooks s (fun _ => 0) 0) {oldfd newfd : Nat}
    (ht : s.tables pid = some t) (hne : oldfd ≠ newfd)
    (hold : t.fileDescriptors.find? (fun f => f.fd = oldfd) = some f) :
    ∃ s' t', s.closeTarget pid oldfd newfd = .ok s' ∧ s'.tables pid = some t' ∧
      f ∈ t'.fileDescriptors ∧ s'.outOfMemory = s.outOfMemory ∧ PipeBooks s' (fun _ => 0) 0 := by
  have hmem : f ∈ t.fileDescriptors := List.mem_of_find?_eq_some hold
  rw [IoState.closeTarget, IoState.getFileDescriptor, IoState.files_of_some ht]
  split
  next => exact ⟨s, t, rfl, ht, hmem, rfl, h⟩
  next newDesc hnew =>
    have hnewfd : newDesc.fd = newfd := by simpa using List.find?_some hnew
    obtain ⟨s', hclose, htables, hmemory, hbooks⟩ := h.close ht (hnewfd ▸ hnew) rfl
    rw [if_neg (Ne.symm hne), hclose]
    refine ⟨s', t.erase newDesc.fd, rfl, ?_, ?_, hmemory, hbooks⟩
    · rw [htables, update_self]
    · have holdfd : f.fd = oldfd := by simpa using List.find?_some hold
      exact (List.mem_eraseP_of_neg (by simpa [holdfd, hnewfd] using hne)).mpr hmem

theorem countP_setOffset (hq : ∀ f o, q { f with offset := o } = q f) (fd offset : Nat)
    (fs : List File) : (setOffset fd offset fs).countP q = fs.countP q := by
  fun_induction setOffset fd offset fs with
  | case1 => rfl
  | case2 f fs _ => rw [List.countP_cons, List.countP_cons, hq]
  | case3 f fs _ ih => rw [List.countP_cons, List.countP_cons, ih]

theorem mem_setOffset {fs : List File} {offset : Nat} (hf : f ∈ setOffset fd offset fs) :
    ∃ g ∈ fs, f.node = g.node ∧ f.mode = g.mode := by
  fun_induction setOffset fd offset fs with
  | case1 => cases hf
  | case2 g fs _ =>
    rcases List.mem_cons.mp hf with rfl | hf
    · exact ⟨g, List.mem_cons_self, rfl, rfl⟩
    · exact ⟨f, List.mem_cons_of_mem _ hf, rfl, rfl⟩
  | case3 g fs _ ih =>
    rcases List.mem_cons.mp hf with rfl | hf
    · exact ⟨f, List.mem_cons_self, rfl, rfl⟩
    · obtain ⟨g', hg', hsame⟩ := ih hf
      exact ⟨g', List.mem_cons_of_mem _ hg', hsame⟩

theorem PipeBooks.dup2 (h : PipeBooks s (fun _ => 0) 0) {oldfd newfd : Nat}
    (ht : s.tables pid = some t)
    (hne : ∀ f, s.getFileDescriptor pid oldfd = some f → oldfd ≠ newfd) :
    ∃ r s', s.dup2 pid oldfd newfd = .ok (r, s') ∧
      (s'.outOfMemory = true ∨ PipeBooks s' (fun _ => 0) 0) := by
  rw [IoState.getFileDescriptor, IoState.files_of_some ht] at hne
  rw [IoState.dup2, IoState.getFileDescriptor, IoState.files_of_some ht]
  split
  next =>
    exact ⟨_, _, rfl, Or.inr
      (h.blocks rfl rfl rfl rfl rfl rfl (Nat.le_refl _) rfl h.room_le)⟩
  next f hold =>
    obtain ⟨s₁, t₁, htarget, ht₁, hf, hmemory, h₁⟩ := h.closeTarget ht (hne f hold) hold
    have hlive := h₁.live (IoState.files_of_some ht₁ ▸ hf)
    have hok := h₁.held pid f (IoState.files_of_some ht₁ ▸ hf)
    have hbound := h₁.count_le f.node
    rw [htarget, ok_bind, if_neg (by rw [hlive]; decide)]
    have h₂ := h₁.incrRefs hlive (by omega)
    obtain ⟨r, s₃, hcreate, h₃⟩ := h₂.create (t := t₁) ht₁ f.node newfd f.mode
      (hok.imp id (And.imp_left (s₁.isPipe_setRefs f.node _ f.node).mpr))
      (by rw [update_self]; exact Nat.one_pos)
    rw [hcreate, ok_bind]
    dsimp only
    split
    next => exact ⟨_, _, rfl, h₃.imp (fun h => h.2.1) (fun h => by simpa using h.2.2.2)⟩
    next hpos =>
      rcases h₃ with ⟨rfl, -⟩ | ⟨ht₃, -, -, h₃⟩
      · exact absurd (by decide) hpos
      · have h₃ : PipeBooks s₃ (fun _ => 0) 0 := by simpa using h₃
        rw [ht₃]
        refine ⟨_, _, rfl, Or.inr (h₃.setTable ht₃ (fun g hg => ?_) (fun n _ => ?_) ?_)⟩
        · obtain ⟨g', hg', hnode, hmode⟩ := mem_setOffset hg
          rw [FileOk, hnode, hmode]
          exact h₃.held pid g' (IoState.files_of_some ht₃ ▸ hg')
        · rw [countP_setOffset (fun _ _ => rfl)]
        · have := countP_setOffset (q := fun _ => true) (fun _ _ => rfl) r f.offset
            (t₁.create f.node newfd f.mode).fileDescriptors
          rwa [List.countP_true] at this

theorem PipeBooks.openFile (h : PipeBooks s (fun _ => 0) 0) {found : Option Nat}
    (ht : s.tables pid = some t) (hfound : ∀ n, found = some n → n < s.fsNodes) :
    ∃ r s', s.openFile pid found = .ok (r, s') ∧
      (s'.outOfMemory = true ∨ PipeBooks s' (fun _ => 0) 0) := by
  cases found with
  | none => exact ⟨_, _, rfl, Or.inr h⟩
  | some n =>
    have hn := hfound n rfl
    have hbound := h.count_le n
    obtain ⟨r, s', hcreate, h'⟩ :=
      (h.incrRefs (h.fs n hn).1 (by omega)).create (t := t) ht n minusOne
        (fdModeRead ||| fdModeWrite) (Or.inl hn)
        (by rw [update_self]; exact Nat.one_pos)
    exact ⟨r, s', hcreate, h'.imp (fun h => h.2.1) (fun h => by simpa using h.2.2.2)⟩

theorem PipeBooks.count_fresh (h : PipeBooks s extra spare) (hn : s.mallocs ≤ n) :
    s.count (refersTo n) = 0 := by
  refine Finset.sum_eq_zero (fun p _ => List.countP_eq_zero.mpr (fun f hf => ?_))
  have hlt : f.node < s.mallocs := by
    rcases h.held p f hf with hfs | ⟨hpipe, -⟩
    · exact Nat.lt_of_lt_of_le hfs h.fs_le
    · have := (h.parts f.node hpipe).upper
      omega
  simp only [refersTo, decide_eq_true_eq]
  omega

theorem IoState.withPipe_nodes_of_ne (h : n ≠ s.mallocs) : s.withPipe.nodes n = s.nodes n :=
  update_of_ne h _ _

theorem IoState.withPipe_nodes_self : s.withPipe.nodes s.mallocs =
    { flags := fsPipe ||| fsAutofree, refs := 2, data := some (s.mallocs + 1) } :=
  update_self ..

theorem IoState.isPipe_withPipe : s.withPipe.IsPipe n ↔ n = s.mallocs ∨ s.IsPipe n := by
  rw [IsPipe]
  by_cases hn : n = s.mallocs
  · rw [hn, withPipe_nodes_self]
    exact iff_of_true (show (fsPipe ||| fsAutofree) &&& fsAutofree ≠ 0 by decide) (Or.inl rfl)
  · rw [withPipe_nodes_of_ne hn]
    exact ⟨Or.inr, fun h => h.resolve_left hn⟩

theorem IoState.withPipe_live_of_lt (h : n < s.mallocs) : s.withPipe.live n = s.live n := by
  simp only [withPipe]
  rw [update_of_ne (by omega), update_of_ne (by omega),
    update_of_ne (by omega)]

theorem IoState.withPipe_live {i : Nat} (h : i ≤ 2) : s.withPipe.live (s.mallocs + i) = true := by
  simp only [withPipe]
  rcases (by omega : i = 0 ∨ i = 1 ∨ i = 2) with rfl | rfl | rfl
  · rw [update_of_ne (by omega), update_of_ne (by omega)]
    exact update_self ..
  · rw [update_of_ne (by omega), update_self]
  · rw [update_self]

theorem PipeBooks.withPipe (h : PipeBooks s (fun _ => 0) 0) :
    PipeBooks s.withPipe (update (fun _ => 0) s.mallocs 2) 0 := by
  have hfresh : ∀ i, ¬ s.IsPipe (s.mallocs + i) := fun i hi => by
    have := (h.parts _ hi).upper
    omega
  have hold : ∀ m, s.withPipe.IsPipe m → m ≠ s.mallocs → s.IsPipe m ∧ m + 2 < s.mallocs :=
    fun m hm hne => by
      have hp := (IoState.isPipe_withPipe.mp hm).resolve_left hne
      exact ⟨hp, (h.parts m hp).upper⟩
  have hnew := h.count_fresh (Nat.le_refl s.mallocs)
  have hfirst : s.withPipe.live s.mallocs = true := IoState.withPipe_live (Nat.zero_le 2)
  have hparts : PipeParts s.withPipe s.mallocs :=
    { flags := by rw [IoState.withPipe_nodes_self]
      data := by rw [IoState.withPipe_nodes_self]
      buf := update_self ..
      lower := h.fs_le
      upper := Nat.lt_succ_self _
      apart_data := fun hp => hfresh 1 (hold _ hp (by omega)).1
      apart_buf := fun hp => hfresh 2 (hold _ hp (by omega)).1
      live_data := (IoState.withPipe_live (by omega)).trans hfirst.symm
      live_buf := (IoState.withPipe_live (by omega)).trans hfirst.symm }
  refine ⟨fun m hm => ?_, fun m hm hl => ?_, fun m hm => ?_, fun m hm => ?_,
    Nat.le_trans h.fs_le (Nat.le_add_right _ 3), fun p f hf => ?_, h.outside, h.room, h.room_le⟩
  · by_cases hne : m = s.mallocs
    · rw [hne]
      exact hparts
    · obtain ⟨hp, hlt⟩ := hold m hm hne
      have hpm := h.parts m hp
      exact
        { flags := by rw [IoState.withPipe_nodes_of_ne hne]; exact hpm.flags
          data := by rw [IoState.withPipe_nodes_of_ne hne]; exact hpm.data
          buf := (update_of_ne (by omega) _ _).trans hpm.buf
          lower := hpm.lower
          upper := Nat.lt_of_lt_of_le hpm.upper (Nat.le_add_right _ 3)
          apart_data := fun hp' => hpm.apart_data (hold _ hp' (by omega)).1
          apart_buf := fun hp' => hpm.apart_buf (hold _ hp' (by omega)).1
          live_data := by
            rw [IoState.withPipe_live_of_lt (by omega), IoState.withPipe_live_of_lt (by omega)]
            exact hpm.live_data
          live_buf := by
            rw [IoState.withPipe_live_of_lt (by omega), IoState.withPipe_live_of_lt (by omega)]
            exact hpm.live_buf }
  · show _ = s.count (refersTo m) + _
    by_cases hne : m = s.mallocs
    · rw [hne, IoState.withPipe_nodes_self, update_self, hnew]
    · obtain ⟨hp, hlt⟩ := hold m hm hne
      rw [IoState.withPipe_nodes_of_ne hne, update_of_ne hne]
      exact h.refs m hp ((IoState.withPipe_live_of_lt (by omega)).symm.trans hl)
  · show _ ↔ 0 < s.count (refersTo m) + _
    by_cases hne : m = s.mallocs
    · rw [hne, update_self, hnew]
      exact iff_of_true hfirst (by decide)
    · obtain ⟨hp, hlt⟩ := hold m hm hne
      rw [IoState.withPipe_live_of_lt (by omega), update_of_ne hne]
      exact h.live_iff m hp
  · have hlt : m < s.mallocs := Nat.lt_of_lt_of_le hm h.fs_le
    refine ⟨(IoState.withPipe_live_of_lt hlt).trans (h.fs m hm).1, fun hp => ?_⟩
    exact (h.fs m hm).2 (hold m hp (by omega)).1
  · exact (h.held p f hf).imp id (And.imp_left (fun hp => IoState.isPipe_withPipe.mpr (Or.inr hp)))

theorem PipeBooks.pipe (h : PipeBooks s (fun _ => 0) 0) (ht : s.tables pid = some t) :
    ∃ r s', s.pipe pid = .ok (r, s') ∧
      (s'.outOfMemory = true ∨ PipeBooks s' (fun _ => 0) 0) := by
  rw [IoState.pipe]
  rcases IoState.mallocPipe_cases s with ⟨live, mallocs, hm⟩ | hm
  · rw [hm, ok_bind]
    exact ⟨_, _, rfl, Or.inl rfl⟩
  · have h₁ := h.withPipe
    have hpipe : s.withPipe.IsPipe s.mallocs := IoState.isPipe_withPipe.mpr (Or.inl rfl)
    rw [hm, ok_bind]
    dsimp only
    obtain ⟨fd₀, s₂, hread, h₂⟩ := h₁.create (t := t) ht s.mallocs minusOne
      fdModeRead (Or.inr ⟨hpipe, Or.inl rfl⟩)
      (by rw [update_self]; exact Nat.two_pos)
    rw [hread, ok_bind]
    dsimp only
    rcases h₂ with ⟨-, hout, ht₂⟩ | ⟨ht₂, hfs, hnodes, h₂⟩
    · obtain ⟨fd₁, s₃, hwrite, hkeep⟩ := IoState.createFileDescriptor_ok ht₂ s.mallocs
        minusOne fdModeWrite
      rw [hwrite, ok_bind]
      exact ⟨_, _, rfl, Or.inl (hkeep hout)⟩
    · have hpipe₂ : s₂.IsPipe s.mallocs := by
        rw [IoState.IsPipe, hnodes]
        exact hpipe
      obtain ⟨fd₁, s₃, hwrite, h₃⟩ := h₂.create ht₂ s.mallocs minusOne fdModeWrite
        (Or.inr ⟨hpipe₂, Or.inr rfl⟩) (by simp)
      rw [hwrite, ok_bind]
      exact ⟨_, _, rfl, h₃.imp (fun h => h.2.1) (fun h => by simpa using h.2.2.2)⟩

/-! ### The table of a child -/

theorem PipeBooks.cloneFiles (h : PipeBooks s extra spare) (copies : List File)
    {fs : List File}
    (hfs : ∀ f ∈ fs, f ∈ s.files pid) (hspare : ∀ n, extra n ≤ spare) :
    ∃ res s', IoState.cloneFiles s copies fs = .ok (res, s') ∧
      (res = none ∧ s'.outOfMemory = true ∨
        res = some (copies ++ fs) ∧ s'.tables = s.tables ∧ s'.nextPid = s.nextPid ∧
          PipeBooks s' (fun n => extra n + fs.countP (refersTo n)) (spare + fs.length)) := by
  induction fs generalizing s extra spare copies with
  | nil =>
    refine ⟨_, _, rfl, Or.inr ⟨by rw [List.append_nil], rfl, rfl, ?_⟩⟩
    simpa using h
  | cons f fs ih =>
    rw [IoState.cloneFiles, IoState.mallocFile]
    split
    next hm =>
      split at hm
      · cases hm
      · cases hm
        exact ⟨_, _, rfl, Or.inl ⟨rfl, rfl⟩⟩
    next hm =>
      split at hm
      next hroom =>
        cases hm
        have hf := hfs f List.mem_cons_self
        have hbound := h.count_le f.node
        have hextra := hspare f.node
        have hblock : PipeBooks
            { s with mallocs := s.mallocs + 1, fileBlocks := s.fileBlocks + 1 } extra (spare + 1) :=
          h.blocks rfl rfl rfl rfl rfl rfl (Nat.le_succ _)
            (show s.fileBlocks + 1 + spare = _ by omega) hroom.2
        have hincr := hblock.incrRefs (h.live hf)
          (show s.count (refersTo f.node) + _ + 1 < 2 ^ 32 by omega)
        dsimp only
        rw [if_pos (h.live hf)]
        have hspare' : ∀ n, update extra f.node (extra f.node + 1) n ≤ spare + 1 :=
          fun n => by
            by_cases hn : n = f.node
            · rw [hn, update_self]
              omega
            · rw [update_of_ne hn]
              exact Nat.le_succ_of_le (hspare n)
        obtain ⟨res, s', hloop, hres⟩ := ih hincr (copies ++ [f])
          (fun g hg => hfs g (List.mem_cons_of_mem _ hg)) hspare'
        refine ⟨res, s', hloop, hres.imp id ?_⟩
        rintro ⟨rfl, htables, hpid, hbooks⟩
        refine ⟨by rw [List.append_assoc]; rfl, htables, hpid, ?_⟩
        have heq : (fun n => update extra f.node (extra f.node + 1) n +
            fs.countP (refersTo n)) = fun n => extra n + (f :: fs).countP (refersTo n) := by
          funext n
          rw [List.countP_cons]
          by_cases hn : n = f.node
          · rw [hn, update_self, if_pos (by simp [refersTo])]
            omega
          · rw [update_of_ne hn, if_neg (by simp [refersTo, Ne.symm hn]), Nat.add_zero]
        rw [heq] at hbooks
        rw [List.length_cons, Nat.add_comm fs.length 1, ← Nat.add_assoc]
        exact hbooks
      next => cases hm

theorem PipeBooks.addProcess {new : DescTable}
    (h : PipeBooks s (fun n => new.fileDescriptors.countP (refersTo n)) new.fileDescriptors.length)
    (hheld : ∀ f ∈ new.fileDescriptors, FileOk s f) :
    PipeBooks (s.addProcess (some new)) (fun _ => 0) 0 := by
  have hfiles : ∀ p, p ≠ s.nextPid → (s.addProcess (some new)).files p = s.files p :=
    fun p hp => IoState.files_congr (update_of_ne hp _ _)
  have hself : (s.addProcess (some new)).files s.nextPid = new.fileDescriptors :=
    IoState.files_of_some (update_self ..)
  have hcount : ∀ q, (s.addProcess (some new)).count q =
      s.count q + new.fileDescriptors.countP q := fun q => by
    rw [← hself]
    exact IoState.count_succ rfl (fun p hp => hfiles p (Nat.ne_of_lt hp))
  refine h.move rfl rfl rfl rfl (Nat.le_refl _) (fun n _ => hcount (refersTo n))
    (fun p f hf => ?_) (fun p hp => ?_) ?_ h.room_le
  · by_cases hp : p = s.nextPid
    · rw [hp] at hf
      exact hheld f (hself ▸ hf)
    · exact h.held p f (hfiles p hp ▸ hf)
  · have hlt : s.nextPid < p := hp
    exact (update_of_ne (Nat.ne_of_gt hlt) _ _).trans (h.outside p (Nat.le_of_lt hlt))
  · have hroom := h.room
    rw [← List.countP_true, ← hcount] at hroom
    exact hroom

theorem PipeBooks.fork (h : PipeBooks s (fun _ => 0) 0) (ht : s.tables pid = some t) :
    ∃ r s', s.fork pid = .ok (r, s') ∧
      (s'.outOfMemory = true ∨ PipeBooks s' (fun _ => 0) 0) := by
  rw [IoState.fork, IoState.cloneDescriptorTable]
  split
  next => exact ⟨_, _, rfl, Or.inl rfl⟩
  next hm =>
    dsimp only
    rw [ht]
    have h₁ : PipeBooks { s with mallocs := s.mallocs + 1 } (fun _ => 0) 0 :=
      h.blocks rfl rfl rfl rfl rfl rfl (Nat.le_succ _) rfl h.room_le
    obtain ⟨res, s₂, hloop, hres⟩ := h₁.cloneFiles [] (fun f hf =>
      (show f ∈ IoState.files _ pid from IoState.files_of_some ht ▸ hf)) (fun _ => Nat.le_refl 0)
    dsimp only
    rw [hloop, ok_bind]
    rcases hres with ⟨rfl, hout⟩ | ⟨rfl, htables, hpid, h₂⟩
    · exact ⟨_, _, rfl, Or.inl hout⟩
    · simp only [Nat.zero_add] at h₂
      refine ⟨_, _, rfl, Or.inr ?_⟩
      have hchild : PipeBooks (s₂.addProcess (some
          { fdNext := t.fdNext, fileDescriptors := [] ++ t.fileDescriptors })) (fun _ => 0) 0 := by
        refine PipeBooks.addProcess h₂ (fun f hf => h₂.held pid f ?_)
        rw [IoState.files_congr (show s₂.tables pid = s.tables pid by rw [htables]),
          IoState.files_of_some ht]
        exact hf
      exact hchild

/-! ### The end of a process -/

theorem PipeBooks.closeAll (h : PipeBooks s (fun _ => 0) 0) {fs : List File}
    (ht : s.tables pid = some t) (hfs : t.fileDescriptors = fs) :
    ∃ s' t', fs.foldlM (fun s f => Prod.snd <$> s.close pid f.fd) s = .ok s' ∧
      s'.tables pid = some t' ∧ t'.fileDescriptors = [] ∧ PipeBooks s' (fun _ => 0) 0 := by
  induction fs generalizing s t with
  | nil => exact ⟨s, t, rfl, ht, hfs, h⟩
  | cons f fs ih =>
    -- the descriptor is the first of its number
    have hfind : t.fileDescriptors.find? (fun g => g.fd = f.fd) = some f := by
      rw [hfs, List.find?_cons_of_pos (by simp)]
    obtain ⟨s₁, hclose, htables, -, h₁⟩ := h.close ht hfind rfl
    have hrest : (t.erase f.fd).fileDescriptors = fs := by
      show t.fileDescriptors.eraseP (fun g => g.fd = f.fd) = fs
      rw [hfs, List.eraseP_cons_of_pos (by simp)]
    obtain ⟨s', t', hloop, hend⟩ := ih h₁ (by rw [htables, update_self]) hrest
    refine ⟨s', t', ?_, hend⟩
    rw [List.foldlM_cons, hclose]
    exact hloop

theorem PipeBooks.destroyDescriptorTable (h : PipeBooks s (fun _ => 0) 0)
    (ht : s.tables pid = some t) :
    ∃ s', s.destroyDescriptorTable pid = .ok s' ∧ PipeBooks s' (fun _ => 0) 0 := by
  rw [IoState.destroyDescriptorTable, ht]
  dsimp only
  split
  next =>
    obtain ⟨s₁, t₁, hloop, ht₁, hnil, h₁⟩ := h.closeAll ht rfl
    rw [hloop, ok_bind]
    refine ⟨_, rfl, ?_⟩
    have hfiles : ∀ p, (s₁.setTable pid none).files p = s₁.files p := fun p => by
      by_cases hp : p = pid
      · rw [hp, IoState.files_of_some ht₁, hnil]
        exact IoState.files_of_none (update_self ..)
      · exact IoState.files_congr (update_of_ne hp _ _)
    have hcount : ∀ q, (s₁.setTable pid none).count q = s₁.count q := fun q =>
      IoState.count_congr rfl (fun p => by rw [hfiles p])
    refine h₁.move rfl rfl rfl rfl (Nat.le_refl _) (fun n _ => by rw [hcount])
      (fun p f hf => h₁.held p f (hfiles p ▸ hf)) (fun p hp => ?_) ?_ h₁.room_le
    · have hne : p ≠ pid := fun heq => by
        have : s₁.nextPid ≤ p := hp
        have := h₁.lt_of_table ht₁
        omega
      exact (update_of_ne hne _ _).trans (h₁.outside p hp)
    · rw [hcount]
      exact h₁.room
  next =>
    exact ⟨_, rfl, h.setTable ht (fun f hf => h.held pid f (IoState.files_of_some ht ▸ hf))
      (fun _ _ => rfl) rfl⟩

end Hydrax.Io
