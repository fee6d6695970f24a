import Hydrax.LinkedList
import Hydrax.Transition

/-!
# The list of waiters

`mutex_attach_waiter` and `mutex_detach_waiter` of `mutex.h`. A waiter is a record on the stack of
the task that waits, and the records are linked through their `next` pointers. The lock of the list
makes the walks over it atomic. Only the first assertion of `mutex_detach_waiter` stands outside.

* `mutexAttachWaiter_ok`, `mutexDetachWaiter_ok` — each call on a list that is linked,
* `waiters_linked` — over every run the list has the waiters that are attached, in their order, and
  no call fails.

The runs justify the lists of waiters that the mutex functions are verified with, where a waiter is
appended and erased.
-/

namespace Hydrax.Waiters

open Function (update update_of_ne update_self)

/-- `mutex_waiter_t`. -/
structure Waiter where
  pid : Nat := 0
  waiting : Bool := false
  next : Nat := 0

/-- The records by their addresses, and `*waiters_list`. -/
structure WaitList where
  records : Nat → Waiter
  first : Nat := 0

/-! ## The calls -/

/-- "while (waiters->next != NULL)". -/
def lastWaiter (records : Nat → Waiter) : Nat → Nat → Except Stop Nat
  | 0, _ => .error .hang
  | fuel + 1, waiters =>
    if (records waiters).next ≠ 0 then lastWaiter records fuel (records waiters).next
    else .ok waiters

/-- What `mutex_attach_waiter` does under the lock. -/
def mutexAttachWaiter (s : WaitList) (tid waiter : Nat) : Except Stop WaitList :=
  let records := update s.records waiter { pid := tid, waiting := true, next := 0 }
  if s.first = 0 then .ok { records := records, first := waiter }
  else do
    let waiters ← lastWaiter records listFuel s.first
    .ok { s with records := update records waiters { records waiters with next := waiter } }

/-- "while (waiters != waiter)": the `parent` that it ends with. -/
def findParent (records : Nat → Waiter) (waiter : Nat) : Nat → Nat → Nat → Except Stop Nat
  | 0, _, _ => .error .hang
  | fuel + 1, parent, waiters =>
    if waiters = waiter then .ok parent
    else if waiters = 0 then .error .nullDeref
    else do
      assert ((records waiters).next ≠ 0)
      findParent records waiter fuel waiters (records waiters).next

/-- What `mutex_detach_waiter` does under the lock. -/
def mutexDetachWaiter (s : WaitList) (waiter : Nat) : Except Stop WaitList :=
  if s.first = waiter then .ok { s with first := (s.records waiter).next }
  else if s.first = 0 then .error .nullDeref
  else do
    let parent ← findParent s.records waiter listFuel s.first (s.records s.first).next
    let next := (s.records waiter).next
    .ok { s with records := update s.records parent { s.records parent with next := next } }

/-- The waiters from `a` on. -/
abbrev Linked (records : Nat → Waiter) (a : Nat) (l : List Nat) : Prop :=
  Chain (fun x => (records x).next) 0 a l

section Calls

variable {records : Nat → Waiter} {s : WaitList} {a b x waiter fuel : Nat} {l p q : List Nat}

theorem lastWaiter_eq (h : Linked records a (l ++ [x])) (hfuel : l.length < fuel) :
    lastWaiter records fuel a = .ok x := by
  induction l, fuel, hfuel using Loop.fuel_induction generalizing a with
  | nil fuel =>
    obtain ⟨rfl, -, hnext⟩ := h
    exact if_neg (not_not_intro hnext)
  | cons y l fuel hfuel ih =>
    obtain ⟨rfl, -, hrest⟩ := h
    have hnext : (records a).next ≠ 0 := by
      rw [Ne, ← hrest.eq_nil_iff]
      simp
    rw [lastWaiter, if_pos hnext, ih hrest]

theorem findParent_eq (h : Linked records a (p ++ waiter :: q)) (hp : waiter ∉ p)
    (hfuel : p.length < fuel) :
    ∃ p' c, b :: p = p' ++ [c] ∧ findParent records waiter fuel b a = .ok c := by
  induction p, fuel, hfuel using Loop.fuel_induction generalizing a b with
  | nil fuel => exact ⟨[], b, rfl, if_pos h.1⟩
  | cons y p fuel hfuel ih =>
    obtain ⟨rfl, ha, hrest⟩ := h
    rw [List.mem_cons, not_or] at hp
    obtain ⟨p', c, hp', hc⟩ := @ih (records a).next a hrest hp.2
    have hnext : (records a).next ≠ 0 := by
      rw [Ne, ← hrest.eq_nil_iff]
      simp
    refine ⟨b :: p', c, congrArg (b :: ·) hp', ?_⟩
    rw [findParent, if_neg (fun h => hp.1 h.symm), if_neg ha, decide_eq_true hnext]
    exact hc

theorem next_update (v y : Nat) : (update records x { records x with next := v } y).next =
    if y = x then v else (records y).next := by
  by_cases hy : y = x
  · rw [hy, update_self, if_pos rfl]
  · rw [update_of_ne hy, if_neg hy]

theorem mutexAttachWaiter_ok (h : Linked s.records s.first l) (haddr : ∀ x ∈ l, x < wordSize)
    (hwaiter : waiter ≠ 0) (hnew : waiter ∉ l) (tid : Nat) :
    ∃ s', mutexAttachWaiter s tid waiter = .ok s' ∧
      Linked s'.records s'.first (l ++ [waiter]) := by
  have hlen := h.length_lt (by decide) haddr
  unfold mutexAttachWaiter
  generalize hrecords : update s.records waiter { pid := tid, waiting := true } = records
  have hself : (records waiter).next = 0 := by
    rw [← hrecords, update_self]
  have hchain : Linked records s.first l := by
    refine h.congr fun y hy => ?_
    have hne : y ≠ waiter := fun heq => hnew (heq ▸ hy)
    rw [← hrecords, update_of_ne hne]
  dsimp only
  rcases List.eq_nil_or_concat' l with rfl | ⟨p, x, rfl⟩
  · rw [if_pos (h.eq_nil_iff.mp rfl)]
    exact ⟨_, rfl, rfl, hwaiter, hself⟩
  · have hfirst : s.first ≠ 0 := fun h0 => absurd (h.eq_nil_iff.mpr h0) (by simp)
    have hfuel : p.length < listFuel := Nat.lt_of_le_of_lt (by simp) hlen
    have hx : x ≠ waiter := fun hx => hnew (by simp [hx])
    have hpx : ∀ y ∈ p, y ≠ x := by
      rintro y hy rfl
      have hnodup := h.nodup
      rw [List.nodup_append] at hnodup
      exact hnodup.2.2 y hy y (List.mem_singleton_self y) rfl
    rw [if_neg hfirst, lastWaiter_eq hchain hfuel]
    refine ⟨_, rfl, ?_⟩
    rw [List.append_assoc]
    refine hchain.append_cell hwaiter ?_ ?_ fun y hy => ?_
    · rw [next_update, if_pos rfl]
    · rw [next_update, if_neg hx.symm, hself]
    · rw [next_update, if_neg (hpx y hy)]

theorem mutexDetachWaiter_ok (h : Linked s.records s.first l) (haddr : ∀ x ∈ l, x < wordSize)
    (hwaiter : waiter ∈ l) : ∃ s', mutexDetachWaiter s waiter = .ok s' ∧
      Linked s'.records s'.first (l.erase waiter) := by
  have hnodup := h.nodup
  have hlen := h.length_lt (by decide) haddr
  obtain ⟨p, q, hp, rfl, herase⟩ := List.exists_erase_eq hwaiter
  rw [herase]
  unfold mutexDetachWaiter
  cases p with
  | nil =>
    obtain ⟨hfirst, -, hrest⟩ := h
    rw [if_pos hfirst]
    exact ⟨_, rfl, hrest⟩
  | cons b p =>
    rw [List.mem_cons, not_or] at hp
    obtain ⟨hfirst, hb, hrest⟩ := id h
    have hfuel : p.length < listFuel := Nat.lt_of_le_of_lt (by simp; omega) hlen
    obtain ⟨p', c, hp', hc⟩ := @findParent_eq s.records _ b waiter _ _ _ hrest hp.2 hfuel
    rw [hfirst, if_neg (fun h => hp.1 h.symm), if_neg hb, hc]
    refine ⟨_, rfl, ?_⟩
    -- the records in front of the waiter end with its parent
    have hl : b :: p ++ waiter :: q = p' ++ c :: waiter :: q := by
      rw [hp', List.append_assoc]
      rfl
    have hl' : b :: p ++ q = p' ++ c :: q := by
      rw [hp', List.append_assoc]
      rfl
    rw [hl] at h hnodup
    rw [hl']
    obtain ⟨-, hcq, hcp⟩ := List.nodup_append.mp hnodup
    refine Chain.unlink (hfirst ▸ h) ?_ (fun y hy => ?_) (fun y hy => ?_)
    · rw [next_update, if_pos rfl]
    · rw [next_update, if_neg (hcp y hy c List.mem_cons_self)]
    · have hyc : y ≠ c := fun heq =>
        (List.nodup_cons.mp hcq).1 (heq ▸ List.mem_cons_of_mem _ hy)
      rw [next_update, if_neg hyc]

end Calls

/-! ## Runs -/

/-- Where the task of a record is: it is on no list, it is attached, or it has passed the first
assertion of `mutex_detach_waiter`. -/
inductive Phase where
  | idle
  | attached
  | tested
  deriving DecidableEq

structure State where
  list : WaitList
  phase : Nat → Phase

inductive Event where
  | attach (tid waiter : Nat)
  /-- "assert(*waiters_list != NULL)". -/
  | test (waiter : Nat)
  | detach (waiter : Nat)
  /-- `mutex_releasesleep` takes the flag of the first waiter down. -/
  | wake
  /-- A task has something else on its stack where the record was. -/
  | reuse (waiter : Nat) (content : Waiter)

/-- The steps that can be next: a task attaches a record of its own, and it detaches it once. -/
def Enabled (s : State) : Event → Prop
  | .attach _ waiter => s.phase waiter = .idle ∧ waiter ≠ 0 ∧ waiter < wordSize
  | .test waiter => s.phase waiter = .attached
  | .detach waiter => s.phase waiter = .tested
  | .wake => True
  | .reuse waiter _ => s.phase waiter = .idle

instance decidableEnabled (s : State) : (e : Event) → Decidable (Enabled s e)
  | .attach _ _ => inferInstanceAs (Decidable (_ ∧ _))
  | .test _ | .detach _ | .reuse _ _ => inferInstanceAs (Decidable (_ = _))
  | .wake => .isTrue trivial

def WaitList.write (s : WaitList) (waiter : Nat) (content : Waiter) : WaitList :=
  { s with records := update s.records waiter content }

def exec (s : State) : Event → Except Stop State
  | .attach tid waiter => do
      let list ← mutexAttachWaiter s.list tid waiter
      return { list := list, phase := update s.phase waiter .attached }
  | .test waiter => do
      assert (s.list.first ≠ 0)
      return { s with phase := update s.phase waiter .tested }
  | .detach waiter => do
      let list ← mutexDetachWaiter s.list waiter
      return { list := list, phase := update s.phase waiter .idle }
  | .wake =>
    if s.list.first = 0 then .ok s
    else
      let waiter := s.list.records s.list.first
      .ok { s with list := s.list.write s.list.first { waiter with waiting := false } }
  | .reuse waiter content => .ok { s with list := s.list.write waiter content }

def Step (s : State) (e : Event) (s' : State) : Prop := Enabled s e ∧ exec s e = .ok s'

/-- Nobody waits, and the stacks hold anything. -/
def initial (records : Nat → Waiter) : State :=
  { list := { records := records }, phase := fun _ => .idle }

/-- The waiters that are attached after one more step. -/
def attachedAfter (l : List Nat) : Event → List Nat
  | .attach _ waiter => l ++ [waiter]
  | .detach waiter => l.erase waiter
  | _ => l

/-- **The waiters that are attached** and not yet detached, in the order they were attached in. -/
def attached (es : List Event) : List Nat := es.foldl attachedAfter []

/-- What holds in every run. -/
structure Inv (l : List Nat) (s : State) : Prop where
  linked : Linked s.list.records s.list.first l
  mem_iff : ∀ w, w ∈ l ↔ s.phase w ≠ .idle
  addresses : ∀ w ∈ l, w < wordSize

section Runs

variable {s s' : State} {l : List Nat} {e : Event}

theorem linked_write {list : WaitList} {waiter : Nat} {content : Waiter}
    (h : Linked list.records list.first l)
    (hnext : waiter ∈ l → content.next = (list.records waiter).next) :
    Linked (list.write waiter content).records (list.write waiter content).first l := by
  refine h.congr fun y hy => ?_
  show (update list.records waiter content y).next = (list.records y).next
  by_cases hyw : y = waiter
  · rw [hyw, update_self]
    exact hnext (hyw ▸ hy)
  · rw [update_of_ne hyw]

theorem Inv.exec (hI : Inv l s) (h : Enabled s e) :
    ∃ s', exec s e = .ok s' ∧ Inv (attachedAfter l e) s' := by
  cases e with
  | attach tid waiter =>
    obtain ⟨hidle, hwaiter, haddr⟩ := h
    have hnew : waiter ∉ l := fun hmem => (hI.mem_iff waiter).mp hmem hidle
    obtain ⟨list, hlist, hlinked⟩ :=
      mutexAttachWaiter_ok hI.linked hI.addresses hwaiter hnew tid
    refine ⟨⟨list, update s.phase waiter .attached⟩, by rw [Waiters.exec, hlist]; rfl, hlinked,
      fun w => ?_, fun w hw => ?_⟩
    · rw [attachedAfter, List.mem_append, List.mem_singleton]
      by_cases hw : w = waiter
      · simp [hw]
      · simp [hw, hI.mem_iff w]
    · rcases List.mem_append.mp hw with hw | hw
      · exact hI.addresses w hw
      · exact List.mem_singleton.mp hw ▸ haddr
  | test waiter =>
    have hphase : s.phase waiter = .attached := h
    have hmem : waiter ∈ l := (hI.mem_iff waiter).mpr (by simp [hphase])
    have hfirst : s.list.first ≠ 0 := fun h0 =>
      List.ne_nil_of_mem hmem (hI.linked.eq_nil_iff.mpr h0)
    refine ⟨{ s with phase := update s.phase waiter .tested },
      by rw [Waiters.exec, decide_eq_true hfirst]; rfl, hI.linked, fun w => ?_, hI.addresses⟩
    by_cases hw : w = waiter
    · simp [hw, hmem, attachedAfter]
    · simp [hw, attachedAfter, hI.mem_iff w]
  | detach waiter =>
    have hphase : s.phase waiter = .tested := h
    have hmem : waiter ∈ l := (hI.mem_iff waiter).mpr (by simp [hphase])
    have hnodup := hI.linked.nodup
    obtain ⟨list, hlist, hlinked⟩ := mutexDetachWaiter_ok hI.linked hI.addresses hmem
    refine ⟨⟨list, update s.phase waiter .idle⟩, by rw [Waiters.exec, hlist]; rfl, hlinked,
      fun w => ?_, fun w hw => hI.addresses w (List.mem_of_mem_erase hw)⟩
    rw [attachedAfter, hnodup.mem_erase_iff]
    by_cases hw : w = waiter
    · simp [hw]
    · simp [hw, hI.mem_iff w]
  | wake =>
    rw [Waiters.exec]
    split
    next => exact ⟨s, rfl, hI⟩
    next => exact ⟨_, rfl, linked_write hI.linked fun _ => rfl, hI.mem_iff, hI.addresses⟩
  | reuse waiter content =>
    have hnew : waiter ∉ l := fun hmem => (hI.mem_iff waiter).mp hmem h
    exact ⟨_, rfl, linked_write hI.linked fun hmem => absurd hmem hnew, hI.mem_iff, hI.addresses⟩

theorem inv_of_path {records : Nat → Waiter} {es : List Event}
    (h : Path Step (initial records) es s) : Inv (attached es) s := by
  refine h.invariant (I := fun es s => Inv (attached es) s) ?_ ?_
  · exact ⟨rfl, fun w => by simp [attached, initial], fun w hw => absurd hw (by simp [attached])⟩
  · rintro es s e s' hI ⟨henabled, hexec⟩
    obtain ⟨s'', hexec', hI'⟩ := hI.exec henabled
    rw [attached, List.foldl_append]
    exact Except.ok.inj (hexec.symm.trans hexec') ▸ hI'

end Runs

/-- **The list of waiters** has exactly the waiters that are attached, each once and in their order,
and no assertion fails and no null pointer is followed in any next step. -/
theorem waiters_linked {records : Nat → Waiter} {es : List Event} {s : State}
    (h : Path Step (initial records) es s) :
    Linked s.list.records s.list.first (attached es) ∧ (attached es).Nodup ∧
      ∀ e, Enabled s e → ∃ s', exec s e = .ok s' := by
  have hI := inv_of_path h
  refine ⟨hI.linked, hI.linked.nodup, fun e he => ?_⟩
  obtain ⟨s', hexec, -⟩ := hI.exec he
  exact ⟨s', hexec⟩

/-- Three tasks wait, and the second is the first to go. -/
theorem waiters_linked_middle : ∃ es s, Path Step (initial fun _ => {}) es s ∧
    attached es = [0x1000, 0x3000] ∧ Linked s.list.records s.list.first [0x1000, 0x3000] := by
  have h₁ := Path.start.step (show Step (initial fun _ => {}) (.attach 1 0x1000) _ from
    ⟨by decide, rfl⟩)
  have h₂ := h₁.step (show Step _ (.attach 2 0x2000) _ from ⟨by decide, rfl⟩)
  have h₃ := h₂.step (show Step _ (.attach 3 0x3000) _ from ⟨by decide, rfl⟩)
  have h₄ := h₃.step (show Step _ (.test 0x2000) _ from ⟨by decide, rfl⟩)
  have hpath := h₄.step (show Step _ (.detach 0x2000) _ from ⟨by decide, rfl⟩)
  exact ⟨_, _, hpath, rfl, (waiters_linked hpath).1⟩

end Hydrax.Waiters
