import Hydrax.Conc
import Mathlib.Data.Fintype.Basic

/-!
# Proof outlines for tasks that share locks

An `Outline` says for every place of a program which locks the task holds there, what it knows of
the counter and on which list it is. Whether an outline fits a program is a check of one instruction
after the other, which `decide` can do.

* `Owned` — every lock that is set has one owner,
* `Outline.Checked` — the check,
* `Outline.Inv` — what an outline says of a state,
* `Outline.Inv.of_reach` — an outline that fits is right in every run.
-/

namespace Hydrax.Conc

open Function (update update_of_ne update_self)

/-! ## Owners of locks -/

section Owned

variable {κ ℓ : Type} {locked : ℓ → Bool} {own own' : κ → ℓ → Bool} {k : κ} {l : ℓ}

/-- A lock is set iff it has an owner, and it has at most one. -/
structure Owned (locked : ℓ → Bool) (own : κ → ℓ → Bool) : Prop where
  locked_iff : ∀ l, locked l = true ↔ ∃ k, own k l = true
  unique : ∀ {k k' l}, own k l = true → own k' l = true → k = k'

theorem Owned.congr (h : Owned locked own) (heq : ∀ k l, own' k l = own k l) :
    Owned locked own' := by
  have : own' = own := funext fun k => funext (heq k)
  exact this ▸ h

variable [DecidableEq ℓ]

theorem Owned.acquire (h : Owned locked own) (hfree : locked l = false)
    (hown : ∀ k' l', own' k' l' = true ↔ own k' l' = true ∨ k' = k ∧ l' = l) :
    Owned (update locked l true) own' := by
  have hnone : ∀ k', own k' l ≠ true := by
    intro k' hk'
    rw [(h.locked_iff l).mpr ⟨k', hk'⟩] at hfree
    cases hfree
  refine ⟨fun l' => ?_, fun {k₁ k₂ l'} h₁ h₂ => ?_⟩
  · by_cases hl : l' = l
    · subst hl
      rw [update_self]
      exact iff_of_true rfl ⟨k, (hown k l').mpr (Or.inr ⟨rfl, rfl⟩)⟩
    · rw [update_of_ne hl, h.locked_iff]
      refine exists_congr (fun k' => ?_)
      rw [hown]
      exact ⟨Or.inl, fun h => h.resolve_right (fun h => hl h.2)⟩
  · rcases (hown k₁ l').mp h₁ with h₁ | ⟨rfl, rfl⟩ <;> rcases (hown k₂ l').mp h₂ with h₂ | ⟨rfl, hl⟩
    · exact h.unique h₁ h₂
    · exact absurd (hl ▸ h₁) (hnone k₁)
    · exact absurd h₂ (hnone k₂)
    · rfl

theorem Owned.release (h : Owned locked own) (hk : own k l = true)
    (hown : ∀ k' l', own' k' l' = true ↔ own k' l' = true ∧ ¬ (k' = k ∧ l' = l)) :
    Owned (update locked l false) own' := by
  refine ⟨fun l' => ?_, fun {k₁ k₂ l'} h₁ h₂ => ?_⟩
  · by_cases hl : l' = l
    · subst hl
      rw [update_self]
      refine iff_of_false (by decide) ?_
      rintro ⟨k', hk'⟩
      obtain ⟨hk', hne⟩ := (hown k' l').mp hk'
      exact hne ⟨h.unique hk' hk, rfl⟩
    · rw [update_of_ne hl, h.locked_iff]
      refine exists_congr (fun k' => ?_)
      rw [hown]
      exact ⟨fun h => ⟨h, fun h => hl h.2⟩, And.left⟩
  · exact h.unique ((hown k₁ l').mp h₁).1 ((hown k₂ l').mp h₂).1

theorem Owned.transfer {m : κ} (h : Owned locked own) (hk : own k l = true)
    (hown : ∀ k' l', own' k' l' = true ↔
      own k' l' = true ∧ ¬ (k' = k ∧ l' = l) ∨ k' = m ∧ l' = l) :
    Owned locked own' := by
  refine ⟨fun l' => ?_, fun {k₁ k₃ l'} h₁ h₃ => ?_⟩
  · rw [h.locked_iff]
    constructor
    · rintro ⟨k', hk'⟩
      by_cases hl : l' = l
      · exact ⟨m, (hown m l').mpr (Or.inr ⟨rfl, hl⟩)⟩
      · exact ⟨k', (hown k' l').mpr (Or.inl ⟨hk', fun h => hl h.2⟩)⟩
    · rintro ⟨k', hk'⟩
      rcases (hown k' l').mp hk' with ⟨hk', -⟩ | ⟨-, rfl⟩
      · exact ⟨k', hk'⟩
      · exact ⟨k, hk⟩
  · rcases (hown k₁ l').mp h₁ with ⟨h₁, hne₁⟩ | ⟨rfl, rfl⟩ <;>
      rcases (hown k₃ l').mp h₃ with ⟨h₃, hne₃⟩ | ⟨rfl, hl⟩
    · exact h.unique h₁ h₃
    · subst hl
      exact absurd ⟨h.unique h₁ hk, rfl⟩ hne₁
    · exact absurd ⟨h.unique h₃ hk, rfl⟩ hne₃
    · rfl

/-- `a` hands over to `b` one lock that it owns, or none. -/
theorem Owned.settle {a b : κ} {o : Option ℓ} (h : Owned locked own) (hab : a ≠ b)
    (ha : ∀ l, o = some l → own a l = true)
    (ha' : ∀ l, own' a l = (own a l && !decide (o = some l)))
    (hb : ∀ l, own' b l = (own b l || decide (o = some l)))
    (hother : ∀ k l, k ≠ a → k ≠ b → own' k l = own k l) : Owned locked own' := by
  cases o with
  | none =>
    refine h.congr (fun k l => ?_)
    by_cases hka : k = a
    · rw [hka, ha']
      exact Bool.and_true _
    · by_cases hkb : k = b
      · rw [hkb, hb]
        exact Bool.or_false _
      · exact hother k l hka hkb
  | some l =>
    refine h.transfer (k := a) (m := b) (l := l) (ha l rfl) (fun k l' => ?_)
    by_cases hka : k = a
    · subst hka
      simp [ha', hab, eq_comm (a := l)]
    · by_cases hkb : k = b
      · simp [hkb, hb, hab.symm, eq_comm (a := l)]
      · simp [hother k l' hka hkb, hka, hkb]

end Owned

/-! ## Outlines -/

/-- What is said of a task at each place of each operation. -/
structure Outline (ℓ ω π : Type) where
  held : π → Nat → ℓ → Bool
  fact : π → Nat → Option Test
  list : π → Nat → Option ω
  /-- The lock under which the counter changes. -/
  guard : ℓ
  /-- The lock under which it also grows. -/
  upper : ℓ
  /-- A task that keeps the lock `upper` found the counter at zero. -/
  keptZero : Bool

namespace Outline

variable (P : Program ℓ ω π) (A : Outline ℓ ω π)

/-- The lock that keeps a fact about the counter true. -/
def lockOf : Test → ℓ
  | .belowMax | .positive => A.guard
  | .zero => A.upper

section Fits

variable (p : π) (pc pc' : Nat)

def SameLocks : Prop := ∀ l, A.held p pc' l = A.held p pc l

def SameList : Prop := A.list p pc' = A.list p pc

def Weaker : Prop := A.fact p pc' = none ∨ A.fact p pc' = A.fact p pc

def InCode : Prop := pc < (P.code p).length

/-- The task can go to `pc'` and change nothing. -/
def Quiet : Prop :=
  InCode P p pc' ∧ A.SameLocks p pc pc' ∧ A.SameList p pc pc' ∧ A.Weaker p pc pc'

/-- What an outline has to say before and after an instruction. -/
def Fits [DecidableEq ℓ] : Instr ℓ ω → Prop
  | .exchange l failed =>
    (∀ l', A.held p (pc + 1) l' = (A.held p pc l' || decide (l' = l))) ∧
    InCode P p (pc + 1) ∧ A.SameList p pc (pc + 1) ∧ A.Weaker p pc (pc + 1) ∧
    A.Quiet P p pc failed
  | .release l =>
    A.held p pc l = true ∧ (∀ l', A.held p (pc + 1) l' = (A.held p pc l' && !decide (l' = l))) ∧
    InCode P p (pc + 1) ∧ A.SameList p pc (pc + 1) ∧ A.Weaker p pc (pc + 1)
  | .test t otherwise =>
    InCode P p (pc + 1) ∧ A.SameLocks p pc (pc + 1) ∧ A.SameList p pc (pc + 1) ∧
    (A.fact p (pc + 1) = none ∨ A.fact p (pc + 1) = some t) ∧
    A.Quiet P p pc otherwise
  | .increment =>
    A.Quiet P p pc (pc + 1) ∧ A.fact p (pc + 1) = none ∧ A.fact p pc = some .belowMax ∧
    A.held p pc A.upper = true
  | .decrement =>
    A.Quiet P p pc (pc + 1) ∧ A.fact p (pc + 1) = none ∧ A.fact p pc = some .positive
  | .attach w =>
    InCode P p (pc + 1) ∧ A.SameLocks p pc (pc + 1) ∧ A.Weaker p pc (pc + 1) ∧
    A.list p pc = none ∧ A.list p (pc + 1) = some w
  | .detach w =>
    InCode P p (pc + 1) ∧ A.SameLocks p pc (pc + 1) ∧ A.Weaker p pc (pc + 1) ∧
    A.list p pc = some w ∧ A.list p (pc + 1) = none
  | .ifWaiting otherwise => A.Quiet P p pc (pc + 1) ∧ A.Quiet P p pc otherwise
  | .pause | .wake _ => A.Quiet P p pc (pc + 1)
  | .goto pc' => A.Quiet P p pc pc'
  | .ret _ keep =>
    (∀ l, A.held p pc l = decide (keep = some l)) ∧ A.list p pc = none ∧
    (A.keptZero = true → keep = some A.upper → A.fact p pc = some .zero)

end Fits

/-- An outline fits a program: at every place it fits the instruction, and a fact is only stated
where its lock is held. -/
structure Checked [DecidableEq ℓ] : Prop where
  fits : ∀ p, ∀ pc < (P.code p).length, ∀ c ∈ (P.code p)[pc]?, A.Fits P p pc c
  facts : ∀ p, ∀ pc < (P.code p).length, ∀ t ∈ A.fact p pc, A.held p pc (A.lockOf t) = true
  entry : ∀ p, InCode P p 0 ∧ (∀ l, A.held p 0 l = decide (P.takes p = some l)) ∧
    A.fact p 0 = none ∧ A.list p 0 = none

/-! ### The check -/

section Decide

variable [DecidableEq ℓ] [DecidableEq ω] [Fintype ℓ] [Fintype π] (p : π) (pc pc' : Nat)

instance decidableSameLocks : Decidable (A.SameLocks p pc pc') :=
  inferInstanceAs (Decidable (∀ _, _ = _))

instance decidableSameList : Decidable (A.SameList p pc pc') := inferInstanceAs (Decidable (_ = _))

instance decidableWeaker : Decidable (A.Weaker p pc pc') := inferInstanceAs (Decidable (_ ∨ _))

instance decidableInCode : Decidable (InCode P p pc) := inferInstanceAs (Decidable (_ < _))

instance decidableQuiet : Decidable (A.Quiet P p pc pc') := inferInstanceAs (Decidable (_ ∧ _ ∧ _))

instance decidableFits : ∀ c, Decidable (A.Fits P p pc c)
  | .exchange .. | .release .. | .test .. | .increment | .decrement | .attach _ | .detach _
  | .ifWaiting _ | .ret .. => inferInstanceAs (Decidable (_ ∧ _))
  | .pause | .wake _ | .goto _ => decidableQuiet ..

instance decidableChecked : Decidable (A.Checked P) :=
  decidable_of_iff
    ((∀ p, ∀ pc < (P.code p).length, ∀ c ∈ (P.code p)[pc]?, A.Fits P p pc c) ∧
      (∀ p, ∀ pc < (P.code p).length, ∀ t ∈ A.fact p pc, A.held p pc (A.lockOf t) = true) ∧
      ∀ p, InCode P p 0 ∧ (∀ l, A.held p 0 l = decide (P.takes p = some l)) ∧
        A.fact p 0 = none ∧ A.list p 0 = none)
    ⟨fun ⟨h₁, h₂, h₃⟩ => ⟨h₁, h₂, h₃⟩, fun ⟨h₁, h₂, h₃⟩ => ⟨h₁, h₂, h₃⟩⟩

end Decide

/-! ## What an outline says of a state -/

def heldAt (t : Thread ℓ π) (l : ℓ) : Bool := t.pos.any (fun x => A.held x.1 x.2 l)

def listAt (t : Thread ℓ π) : Option ω := t.pos.bind (fun x => A.list x.1 x.2)

/-- A task owns locks in two ways: by its place in an operation, and from calls that returned. -/
def own (s : Config ι ℓ ω π) (k : ι × Bool) (l : ℓ) : Bool :=
  if k.2 then (s.tasks k.1).kept l else A.heldAt (s.tasks k.1) l

/-- **The outline is right.** -/
structure Inv (s : Config ι ℓ ω π) : Prop where
  owned : Owned s.locked (A.own s)
  places : ∀ {i p pc}, (s.tasks i).pos = some (p, pc) →
    InCode P p pc ∧ ∀ t ∈ A.fact p pc, t.Holds s.cnt s.maxCnt
  paused : ∀ {i}, (s.tasks i).paused = true →
    ∃ p pc, (s.tasks i).pos = some (p, pc + 1) ∧ (P.code p)[pc]? = some .pause
  mem_iff : ∀ {w i}, i ∈ s.waiters w ↔ A.listAt (s.tasks i) = some w
  nodup : ∀ w, (s.waiters w).Nodup
  keptZero : A.keptZero = true → ∀ {i}, (s.tasks i).kept A.upper = true → s.cnt = 0
  le : s.cnt ≤ s.maxCnt
  failed : s.failed = false

/-- One task goes to another place, or out of its operation, and keeps what it kept. -/
structure Moved (i : ι) (pos : Option (π × Nat)) (s s' : Config ι ℓ ω π) : Prop where
  self : (s'.tasks i).pos = pos
  other : ∀ {j}, j ≠ i → (s'.tasks j).pos = (s.tasks j).pos
  kept : ∀ j, (s'.tasks j).kept = (s.tasks j).kept
  paused : ∀ {j}, j ≠ i → (s'.tasks j).paused = (s.tasks j).paused
  maxCnt : s'.maxCnt = s.maxCnt

variable {A P} {s s' : Config ι ℓ ω π} {i : ι} {p : π} {pc pc' : Nat}

namespace Moved

theorem of_tasks [DecidableEq ι] {pos : Option (π × Nat)} (t : Thread ℓ π)
    (htasks : s'.tasks = (s.setTask i t).tasks) (hpos : t.pos = pos)
    (hkept : t.kept = (s.tasks i).kept) (hmax : s'.maxCnt = s.maxCnt) : Moved i pos s s' where
  self := by rw [htasks, Config.setTask_self, hpos]
  other hj := by rw [htasks, Config.setTask_of_ne _ _ _ hj]
  kept j := by
    by_cases hj : j = i
    · rw [hj, htasks, Config.setTask_self, hkept]
    · rw [htasks, Config.setTask_of_ne _ _ _ hj]
  paused hj := by rw [htasks, Config.setTask_of_ne _ _ _ hj]
  maxCnt := hmax

theorem of_jump [DecidableEq ι] (htasks : s'.tasks = (s.jump i p pc').tasks)
    (hmax : s'.maxCnt = s.maxCnt) : Moved i (some (p, pc')) s s' :=
  of_tasks { s.tasks i with pos := some (p, pc') } htasks rfl rfl hmax

theorem own_of_ne {k : ι × Bool} (hm : Moved i (some (p, pc')) s s') (hk : k ≠ (i, false)) (l : ℓ) :
    A.own s' k l = A.own s k l := by
  obtain ⟨j, b⟩ := k
  cases b with
  | true => exact congrFun (hm.kept j) l
  | false =>
    have hj : j ≠ i := fun h => hk (by rw [h])
    simp [own, heldAt, hm.other hj]

theorem own_self (hm : Moved i (some (p, pc')) s s') (l : ℓ) :
    A.own s' (i, false) l = A.held p pc' l := by
  simp [own, heldAt, hm.self]

end Moved

theorem own_at (hpos : (s.tasks i).pos = some (p, pc)) (l : ℓ) :
    A.own s (i, false) l = A.held p pc l := by
  simp [own, heldAt, hpos]

/-- What a task does that only goes to another place: all that is left to prove is what the place
says. -/
theorem Inv.move (h : A.Inv P s) (hm : Moved i (some (p, pc')) s s')
    (howned : Owned s'.locked (A.own s')) (hcnt : s'.cnt = s.cnt) (hcode : InCode P p pc')
    (hfact : ∀ t ∈ A.fact p pc', t.Holds s.cnt s.maxCnt)
    (hpaused : (s'.tasks i).paused = true →
      ∃ q qc, some (p, pc') = some (q, qc + 1) ∧ (P.code q)[qc]? = some .pause)
    (hmem : ∀ {w j}, j ∈ s'.waiters w ↔ A.listAt (s'.tasks j) = some w)
    (hnodup : ∀ w, (s'.waiters w).Nodup) (hfailed : s'.failed = false) : A.Inv P s' where
  owned := howned
  places {j q qc} hq := by
    rw [hcnt, hm.maxCnt]
    by_cases hj : j = i
    · subst hj
      rw [hm.self, Option.some.injEq, Prod.mk.injEq] at hq
      exact hq.1 ▸ hq.2 ▸ ⟨hcode, hfact⟩
    · exact h.places (hm.other hj ▸ hq)
  paused {j} hj := by
    by_cases hji : j = i
    · subst hji
      rw [hm.self]
      exact hpaused hj
    · rw [hm.other hji]
      exact h.paused (hm.paused hji ▸ hj)
  mem_iff := hmem
  nodup := hnodup
  keptZero hz j hj := by
    rw [hcnt]
    exact h.keptZero hz (hm.kept j ▸ hj)
  le := by
    rw [hcnt, hm.maxCnt]
    exact h.le
  failed := hfailed

theorem Moved.mem_iff (h : A.Inv P s) (hm : Moved i (some (p, pc')) s s')
    (hpos : (s.tasks i).pos = some (p, pc)) (hw : s'.waiters = s.waiters)
    (hlist : A.SameList p pc pc') {w : ω} {j : ι} :
    j ∈ s'.waiters w ↔ A.listAt (s'.tasks j) = some w := by
  rw [hw, h.mem_iff]
  by_cases hj : j = i
  · subst hj
    rw [listAt, listAt, hm.self, hpos]
    simp only [Option.bind_some]
    rw [hlist]
  · rw [listAt, listAt, hm.other hj]

theorem Moved.own_eq (hm : Moved i (some (p, pc')) s s') (hpos : (s.tasks i).pos = some (p, pc))
    (hlocks : A.SameLocks p pc pc') (k : ι × Bool) (l : ℓ) : A.own s' k l = A.own s k l := by
  by_cases hk : k = (i, false)
  · rw [hk, hm.own_self, own_at hpos, hlocks]
  · exact hm.own_of_ne hk l

theorem Weaker.holds (h : A.Inv P s) (hpos : (s.tasks i).pos = some (p, pc))
    (hw : A.Weaker p pc pc') : ∀ t ∈ A.fact p pc', t.Holds s.cnt s.maxCnt := by
  intro t ht
  rcases hw with hw | hw
  · rw [hw] at ht
    cases ht
  · exact (h.places hpos).2 t (hw ▸ ht)

/-- A task goes to another place and changes nothing that the outline speaks of. -/
theorem Inv.quiet (h : A.Inv P s) (hm : Moved i (some (p, pc')) s s')
    (hpos : (s.tasks i).pos = some (p, pc)) (hq : A.Quiet P p pc pc') (hcnt : s'.cnt = s.cnt)
    (hlocked : s'.locked = s.locked) (hwaiters : s'.waiters = s.waiters)
    (hfailed : s'.failed = s.failed)
    (hpaused : (s'.tasks i).paused = true →
      ∃ q qc, some (p, pc') = some (q, qc + 1) ∧ (P.code q)[qc]? = some .pause) :
    A.Inv P s' := by
  obtain ⟨hcode, hlocks, hlist, hweak⟩ := hq
  refine h.move hm ?_ hcnt hcode (Weaker.holds h hpos hweak) hpaused
    (hm.mem_iff h hpos hwaiters hlist) (hwaiters ▸ h.nodup) (hfailed.trans h.failed)
  rw [hlocked]
  exact h.owned.congr (hm.own_eq hpos hlocks)

theorem add_one_le {a b : UInt32} (h : a < b) : a + 1 ≤ b := by
  rw [UInt32.lt_iff_toNat_lt] at h
  have := b.toNat_lt
  rw [UInt32.le_iff_toNat_le, UInt32.toNat_add, Nat.mod_eq_of_lt] <;> simp <;> omega

theorem sub_one_le {a : UInt32} (h : 0 < a) : a - 1 ≤ a := by
  have h₁ : 1 ≤ a := UInt32.le_iff_toNat_le.mpr (UInt32.lt_iff_toNat_lt.mp h)
  rw [UInt32.le_iff_toNat_le, UInt32.toNat_sub_of_le _ _ h₁]
  exact Nat.sub_le ..

/-- A waiter is at a place where the outline says so. -/
theorem Inv.place_of_mem {w : ω} (h : A.Inv P s) (hi : i ∈ s.waiters w) :
    ∃ p pc, (s.tasks i).pos = some (p, pc) ∧ InCode P p pc ∧ A.list p pc = some w := by
  obtain ⟨⟨p, pc⟩, hpos, hlist⟩ := Option.bind_eq_some_iff.mp (h.mem_iff.mp hi)
  exact ⟨p, pc, hpos, (h.places hpos).1, hlist⟩

/-- A task holds the lock that keeps what it knows of the counter true. -/
theorem Inv.fact_owner [DecidableEq ℓ] {t : Test} (h : A.Inv P s) (hA : A.Checked P)
    (hpos : (s.tasks i).pos = some (p, pc)) (ht : t ∈ A.fact p pc) :
    A.own s (i, false) (A.lockOf t) = true := by
  rw [own_at hpos]
  exact hA.facts p pc (h.places hpos).1 t ht

theorem ne_of_pair {k : ι × Bool} (h₁ : k ≠ (i, false)) (h₂ : k ≠ (i, true)) : k.1 ≠ i := by
  obtain ⟨j, b⟩ := k
  rintro rfl
  cases b <;> contradiction

section Exec

variable [DecidableEq ι]

/-- A task gets another record: all that is left to prove is about this task and its locks. -/
theorem Inv.setTask {t : Thread ℓ π} (h : A.Inv P s)
    (howned : Owned s.locked (A.own (s.setTask i t)))
    (hplace : ∀ {q qc}, t.pos = some (q, qc) →
      InCode P q qc ∧ ∀ f ∈ A.fact q qc, f.Holds s.cnt s.maxCnt)
    (hpaused : t.paused = true →
      ∃ q qc, t.pos = some (q, qc + 1) ∧ (P.code q)[qc]? = some .pause)
    (hlist : A.listAt t = A.listAt (s.tasks i))
    (hkept : A.keptZero = true → t.kept A.upper = true → s.cnt = 0) :
    A.Inv P (s.setTask i t) where
  owned := howned
  places {j q qc} hj := by
    by_cases hji : j = i
    · rw [hji, Config.setTask_self] at hj
      exact hplace hj
    · rw [Config.setTask_of_ne _ _ _ hji] at hj
      exact h.places hj
  paused {j} hj := by
    by_cases hji : j = i
    · rw [hji, Config.setTask_self] at hj ⊢
      exact hpaused hj
    · rw [Config.setTask_of_ne _ _ _ hji] at hj ⊢
      exact h.paused hj
  mem_iff {w j} := by
    show j ∈ s.waiters w ↔ _
    rw [h.mem_iff]
    by_cases hji : j = i
    · rw [hji, Config.setTask_self, hlist]
    · rw [Config.setTask_of_ne _ _ _ hji]
  nodup := h.nodup
  keptZero hz {j} hj := by
    by_cases hji : j = i
    · rw [hji, Config.setTask_self] at hj
      exact hkept hz hj
    · rw [Config.setTask_of_ne _ _ _ hji] at hj
      exact h.keptZero hz hj
  le := h.le
  failed := h.failed

theorem Inv.setFlags {t : Thread ℓ π} (h : A.Inv P s) (hpos : t.pos = (s.tasks i).pos)
    (hkept : t.kept = (s.tasks i).kept) (hpaused : t.paused = true → (s.tasks i).paused = true) :
    A.Inv P (s.setTask i t) := by
  refine h.setTask (h.owned.congr (fun k l => ?_)) (fun hq => h.places (hpos ▸ hq))
    (fun hp => hpos ▸ h.paused (hpaused hp)) ?_ (fun hz hk => h.keptZero hz (hkept ▸ hk))
  · by_cases hk : k.1 = i
    · simp [own, heldAt, hk, Config.setTask_self, hpos, hkept]
    · simp [own, Config.setTask_of_ne _ _ _ hk]
  · rw [listAt, listAt, hpos]

theorem jump_paused (hrun : (s.tasks i).paused = false)
    (htasks : s'.tasks = (s.jump i p pc').tasks) {Q : Prop} :
    (s'.tasks i).paused = true → Q := by
  intro hp
  rw [htasks, Config.jump, Config.setTask_self, hrun] at hp
  cases hp

theorem Inv.jump (h : A.Inv P s) (hpos : (s.tasks i).pos = some (p, pc))
    (hrun : (s.tasks i).paused = false) (hq : A.Quiet P p pc pc') :
    A.Inv P (s.jump i p pc') :=
  h.quiet (Moved.of_jump rfl rfl) hpos hq rfl rfl rfl rfl (jump_paused hrun rfl)

/-- The counter changes, where no other task knows anything of it that becomes wrong. -/
theorem Inv.count {n : UInt32} (h : A.Inv P s) (hpos : (s.tasks i).pos = some (p, pc))
    (hrun : (s.tasks i).paused = false) (hq : A.Quiet P p pc (pc + 1))
    (hnone : A.fact p (pc + 1) = none) (hle : n ≤ s.maxCnt)
    (hfacts : ∀ {j q qc t}, j ≠ i → (s.tasks j).pos = some (q, qc) → t ∈ A.fact q qc →
      t.Holds n s.maxCnt)
    (hzero : A.keptZero = true → ∀ {j}, (s.tasks j).kept A.upper = true → n = 0) :
    A.Inv P { s.jump i p (pc + 1) with cnt := n } := by
  have hj := h.jump hpos hrun hq
  have hm : Moved i (some (p, pc + 1)) s (s.jump i p (pc + 1)) := Moved.of_jump rfl rfl
  refine
    { hj with
      owned := hj.owned.congr (fun _ _ => rfl)
      mem_iff := hj.mem_iff
      places := fun {j q qc} hp => ⟨(hj.places hp).1, fun t ht => ?_⟩
      keptZero := fun hz {j} hk => hzero hz (hm.kept j ▸ hk)
      le := hle }
  by_cases hji : j = i
  · subst hji
    have heq := hm.self.symm.trans hp
    simp only [Option.some.injEq, Prod.mk.injEq] at heq
    rw [← heq.1, ← heq.2, hnone] at ht
    cases ht
  · exact hfacts hji ((hm.other hji).symm.trans hp) ht

variable [DecidableEq ℓ] [DecidableEq ω]

variable (h : A.Inv P s) (hpos : (s.tasks i).pos = some (p, pc))
  (hrun : (s.tasks i).paused = false)
include h hpos hrun

theorem Inv.exchange {l : ℓ} {failed : Nat} (hfit : A.Fits P p pc (.exchange l failed)) :
    A.Inv P (s.exec i p pc (.exchange l failed)) := by
  obtain ⟨hheld, hcode, hlist, hweak, hquiet⟩ := hfit
  rw [Config.exec]
  split
  · exact h.jump hpos hrun hquiet
  next hfree =>
    have hm : Moved i (some (p, pc + 1)) s
        { s.jump i p (pc + 1) with locked := update s.locked l true } :=
      Moved.of_jump rfl rfl
    refine h.move hm ?_ rfl hcode (Weaker.holds h hpos hweak) (jump_paused hrun rfl)
      (hm.mem_iff h hpos rfl hlist) h.nodup h.failed
    refine h.owned.acquire (k := (i, false)) (Bool.eq_false_iff.mpr hfree) (fun k l' => ?_)
    by_cases hk : k = (i, false)
    · rw [hk, hm.own_self, own_at hpos, hheld]
      simp
    · rw [hm.own_of_ne hk]
      simp [hk]

theorem Inv.release {l : ℓ} (hfit : A.Fits P p pc (.release l)) :
    A.Inv P (s.exec i p pc (.release l)) := by
  obtain ⟨hhas, hheld, hcode, hlist, hweak⟩ := hfit
  have hm : Moved i (some (p, pc + 1)) s (s.exec i p pc (.release l)) := Moved.of_jump rfl rfl
  have hown : A.own s (i, false) l = true := (own_at hpos l).trans hhas
  refine h.move hm ?_ rfl hcode (Weaker.holds h hpos hweak) (jump_paused hrun rfl)
    (hm.mem_iff h hpos rfl hlist) h.nodup ?_
  · refine h.owned.release hown (fun k l' => ?_)
    by_cases hk : k = (i, false)
    · rw [hk, hm.own_self, own_at hpos, hheld]
      simp
    · rw [hm.own_of_ne hk]
      simp [hk]
  · have hset : s.locked l = true := (h.owned.locked_iff l).mpr ⟨_, hown⟩
    simp [Config.exec, h.failed, hset]

theorem Inv.test {t : Test} {otherwise : Nat} (hfit : A.Fits P p pc (.test t otherwise)) :
    A.Inv P (s.exec i p pc (.test t otherwise)) := by
  obtain ⟨hcode, hlocks, hlist, hfact, hquiet⟩ := hfit
  rw [Config.exec]
  split
  next ht =>
    have hm : Moved i (some (p, pc + 1)) s (s.jump i p (pc + 1)) := Moved.of_jump rfl rfl
    refine h.move hm (h.owned.congr (hm.own_eq hpos hlocks)) rfl hcode (fun t' ht' => ?_)
      (jump_paused hrun rfl) (hm.mem_iff h hpos rfl hlist) h.nodup h.failed
    rcases hfact with hfact | hfact <;> rw [hfact] at ht' <;> cases ht'
    exact ht
  · exact h.jump hpos hrun hquiet

theorem Inv.attach {w : ω} (hfit : A.Fits P p pc (.attach w)) :
    A.Inv P (s.exec i p pc (.attach w)) := by
  obtain ⟨hcode, hlocks, hweak, hnone, hlist⟩ := hfit
  have hm : Moved i (some (p, pc + 1)) s (s.exec i p pc (.attach w)) :=
    Moved.of_tasks { s.tasks i with pos := some (p, pc + 1), waiting := true } rfl rfl rfl rfl
  have hout : ∀ w', i ∉ s.waiters w' := by
    intro w' hi
    rw [h.mem_iff, listAt, hpos, Option.bind_some, hnone] at hi
    cases hi
  refine h.move hm (h.owned.congr (hm.own_eq hpos hlocks)) rfl hcode (Weaker.holds h hpos hweak)
    (fun hp => ?_) (fun {w' j} => ?_) (fun w' => ?_) h.failed
  · simp [Config.exec, Config.setTask_self, hrun] at hp
  · by_cases hj : j = i
    · subst hj
      rw [listAt, hm.self, Option.bind_some, hlist]
      by_cases hw : w' = w
      · simp [Config.exec, hw]
      · simp [Config.exec, hw, hout, Ne.symm hw]
    · rw [listAt, hm.other hj, ← listAt, ← h.mem_iff]
      by_cases hw : w' = w
      · simp [Config.exec, hw, hj]
      · simp [Config.exec, hw]
  · by_cases hw : w' = w
    · subst hw
      simp only [Config.exec, update_self]
      exact (h.nodup w').append (List.nodup_singleton i)
        (List.disjoint_singleton.mpr (hout w'))
    · simp only [Config.exec, update_of_ne hw]
      exact h.nodup w'

theorem Inv.detach {w : ω} (hfit : A.Fits P p pc (.detach w)) :
    A.Inv P (s.exec i p pc (.detach w)) := by
  obtain ⟨hcode, hlocks, hweak, hlist, hnone⟩ := hfit
  have hm : Moved i (some (p, pc + 1)) s (s.exec i p pc (.detach w)) := Moved.of_jump rfl rfl
  have hin : ∀ w', i ∈ s.waiters w' ↔ w = w' := by
    intro w'
    rw [h.mem_iff, listAt, hpos, Option.bind_some, hlist, Option.some.injEq]
  refine h.move hm (h.owned.congr (hm.own_eq hpos hlocks)) rfl hcode (Weaker.holds h hpos hweak)
    (jump_paused hrun rfl) (fun {w' j} => ?_) (fun w' => ?_) ?_
  · by_cases hj : j = i
    · subst hj
      rw [listAt, hm.self, Option.bind_some, hnone]
      by_cases hw : w' = w
      · simp [Config.exec, hw, (h.nodup w).mem_erase_iff]
      · simp [Config.exec, hw, hin, Ne.symm hw]
    · rw [listAt, hm.other hj, ← listAt, ← h.mem_iff]
      by_cases hw : w' = w
      · simp [Config.exec, hw, List.mem_erase_of_ne hj]
      · simp [Config.exec, hw]
  · by_cases hw : w' = w
    · subst hw
      simp only [Config.exec, update_self]
      exact (h.nodup w').erase i
    · simp only [Config.exec, update_of_ne hw]
      exact h.nodup w'
  · simp [Config.exec, h.failed, (hin w).mpr rfl]

omit hrun in
theorem Inv.pause (hc : (P.code p)[pc]? = some .pause) (hfit : A.Fits P p pc .pause) :
    A.Inv P (s.exec i p pc .pause) :=
  h.quiet
    (Moved.of_tasks { s.tasks i with pos := some (p, pc + 1), paused := true } rfl rfl rfl rfl)
    hpos hfit rfl rfl rfl rfl (fun _ => ⟨p, pc, rfl, hc⟩)

theorem Inv.wake {w : ω} (hfit : A.Fits P p pc (.wake w)) :
    A.Inv P (s.exec i p pc (.wake w)) := by
  have hj := h.jump hpos hrun hfit
  rw [Config.exec]
  split
  · exact hj
  · exact hj.setFlags rfl rfl id

theorem Inv.ret {result : Bool} {keep : Option ℓ} (hfit : A.Fits P p pc (.ret result keep)) :
    A.Inv P (s.exec i p pc (.ret result keep)) := by
  obtain ⟨hheld, hlist, hzero⟩ := hfit
  have hplace := (h.places hpos).2
  refine h.setTask ?_ (fun hq => ?_) (fun hp => ?_) ?_ (fun hz hk => ?_)
  · refine h.owned.settle (a := (i, false)) (b := (i, true)) (o := keep) (by simp)
      (fun l => ?_) (fun l => ?_) (fun l => ?_) (fun k l ha hb => ?_)
    · rw [own_at hpos, hheld]
      exact decide_eq_true
    · rw [own_at hpos, hheld]
      simp [own, heldAt, Config.setTask_self]
    · simp [own, Config.setTask_self]
    · simp [own, Config.setTask_of_ne _ _ _ (ne_of_pair ha hb)]
  · cases hq
  · cases hrun.symm.trans hp
  · rw [listAt, listAt, hpos, Option.bind_some, hlist]
    rfl
  · rcases Bool.or_eq_true_iff.mp hk with hk | hk
    · exact h.keptZero hz hk
    · exact hplace .zero (hzero hz (of_decide_eq_true hk))

theorem Inv.increment (hA : A.Checked P) (hfit : A.Fits P p pc .increment) :
    A.Inv P (s.exec i p pc .increment) := by
  obtain ⟨hq, hnone, hbelow, hupper⟩ := hfit
  have hlt : s.cnt < s.maxCnt := (h.places hpos).2 _ hbelow
  have hguard := h.fact_owner hA hpos hbelow
  have hup : A.own s (i, false) A.upper = true := (own_at hpos _).trans hupper
  refine h.count hpos hrun hq hnone (add_one_le hlt) ?_ ?_
  · intro j q qc t hj hjpos ht
    -- whatever the other task knows, its lock is one of the two held here
    have hown := h.fact_owner hA hjpos ht
    have heq : (j, false) = (i, false) := by
      cases t with
      | belowMax | positive => exact h.owned.unique hown hguard
      | zero => exact h.owned.unique hown hup
    exact absurd (congrArg Prod.fst heq) hj
  · intro _ j hk
    have hown : A.own s (j, true) A.upper = true := hk
    cases h.owned.unique hown hup

theorem Inv.decrement (hA : A.Checked P) (hfit : A.Fits P p pc .decrement) :
    A.Inv P (s.exec i p pc .decrement) := by
  obtain ⟨hq, hnone, hpositive⟩ := hfit
  have hlt : 0 < s.cnt := (h.places hpos).2 _ hpositive
  have hguard := h.fact_owner hA hpos hpositive
  refine h.count hpos hrun hq hnone (UInt32.le_trans (sub_one_le hlt) h.le) ?_ ?_
  · intro j q qc t hj hjpos ht
    cases t with
    | belowMax | positive =>
      exact absurd (congrArg Prod.fst (h.owned.unique (h.fact_owner hA hjpos ht) hguard)) hj
    | zero =>
      have hz : s.cnt = 0 := (h.places hjpos).2 _ ht
      exact absurd (hz ▸ hlt) (UInt32.lt_irrefl 0)
  · intro hz j hk
    exact absurd (h.keptZero hz hk ▸ hlt) (UInt32.lt_irrefl 0)

/-- **Every instruction that an outline fits keeps it right.** -/
theorem Inv.exec {c : Instr ℓ ω} (hA : A.Checked P) (hc : (P.code p)[pc]? = some c) :
    A.Inv P (s.exec i p pc c) := by
  have hfit : A.Fits P p pc c := hA.fits p pc (h.places hpos).1 c hc
  cases c with
  | exchange l failed => exact h.exchange hpos hrun hfit
  | release l => exact h.release hpos hrun hfit
  | test t otherwise => exact h.test hpos hrun hfit
  | increment => exact h.increment hpos hrun hA hfit
  | decrement => exact h.decrement hpos hrun hA hfit
  | attach w => exact h.attach hpos hrun hfit
  | detach w => exact h.detach hpos hrun hfit
  | ifWaiting otherwise =>
    rw [Config.exec]
    split
    · exact h.jump hpos hrun hfit.1
    · exact h.jump hpos hrun hfit.2
  | pause => exact h.pause hpos hc hfit
  | wake w => exact h.wake hpos hrun hfit
  | goto pc' => exact h.jump hpos hrun hfit
  | ret result keep => exact h.ret hpos hrun hfit

omit hpos hrun in
theorem Inv.call (hA : A.Checked P) (hpos : (s.tasks i).pos = none)
    (htakes : ∀ l, P.takes p = some l → (s.tasks i).kept l = true) :
    A.Inv P (s.next P (.call i p)) := by
  obtain ⟨hcode, hheld, hfact, hlist⟩ := hA.entry p
  refine h.setTask ?_ (fun hq => ?_) (fun hp => ?_) ?_ (fun hz hk => ?_)
  · refine h.owned.settle (a := (i, true)) (b := (i, false)) (o := P.takes p) (by simp)
      htakes (fun l => ?_) (fun l => ?_) (fun k l ha hb => ?_)
    · simp [own, Config.setTask_self]
    · simp [own, heldAt, Config.setTask_self, hpos, hheld]
    · simp [own, heldAt, Config.setTask_of_ne _ _ _ (ne_of_pair hb ha)]
  · cases hq
    refine ⟨hcode, fun t ht => ?_⟩
    rw [hfact] at ht
    cases ht
  · obtain ⟨q, qc, hq, -⟩ := h.paused hp
    cases hpos.symm.trans hq
  · rw [listAt, listAt, hpos, Option.bind_some, hlist]
    rfl
  · exact h.keptZero hz (Bool.and_eq_true_iff.mp hk).1

omit hpos hrun in
/-- **An outline that fits is right after every step.** -/
theorem Inv.step {e : Event ι π} (hA : A.Checked P) (hstep : Step P s e s') : A.Inv P s' := by
  obtain ⟨hen, rfl⟩ := hstep
  cases e with
  | call i p => exact h.call hA hen.1 hen.2
  | run i =>
    obtain ⟨hrun, hinstr⟩ := hen
    rw [Config.next]
    split
    · exact h
    next p pc hpos =>
      split
      · exact h
      next c hc => exact h.exec hpos hrun hA hc
  | deliver i => exact h.setFlags rfl rfl (fun hp => absurd hp Bool.false_ne_true)

end Exec

theorem Inv.init {cnt maxCnt : UInt32} (hle : cnt ≤ maxCnt) :
    A.Inv P ({ cnt := cnt, maxCnt := maxCnt } : Config ι ℓ ω π) where
  owned := ⟨fun l => by simp [own, heldAt], fun {k k' l} hk => by simp [own, heldAt] at hk⟩
  places := nofun
  paused := nofun
  mem_iff {w i} := by simp [listAt]
  nodup w := List.nodup_nil
  keptZero := nofun
  le := hle
  failed := rfl

theorem Inv.of_reach [DecidableEq ι] [DecidableEq ℓ] [DecidableEq ω]
    {ok : Config ι ℓ ω π → Event ι π → Prop} {s₀ : Config ι ℓ ω π} (hA : A.Checked P)
    (h₀ : A.Inv P s₀) (h : Reach (Step P) ok s₀ s) : A.Inv P s :=
  h.invariant h₀ (fun hi _ hstep => hi.step hA hstep)

end Outline

end Hydrax.Conc
