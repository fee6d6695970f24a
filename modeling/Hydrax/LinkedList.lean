import Hydrax.Chain
import Hydrax.Machine

/-!
# The linked lists of tasks

The macros of `include/linkedlist.h`, for lists of `task_t`. A list is a header over items that lie
in the kernel heap, and an item holds a pointer to a task and one to the next item. Items are kept
in a store indexed by their address. The first page of memory is mapped, so the store has a cell at
address `0` too, and a write through a null pointer goes there.

The header has four pointers and a counter, and the macros keep them up one by one:

* `append_keeps_iff` — when `LINKED_LIST_APPEND_NEW` appends,
* `remove_removes_iff` — when `LINKED_LIST_REMOVE_CURRENT` removes, and that
  `LINKED_LIST_REMOVE_FIRST_FREE` never does.
-/

namespace Hydrax

open Function (update)

structure Item where
  val : Nat := 0
  next : Nat := 0
  deriving DecidableEq, Repr

/-- The header of a list. The defaults are those of `LINKED_LIST_INIT`. -/
structure LinkedList where
  first : Nat := 0
  last : Nat := 0
  current : Nat := 0
  scratch : Nat := 0
  count : Nat := 0
  deriving DecidableEq, Repr

/-! ## The macros -/

/-- What `LINKED_LIST_APPEND_NEW` leaves: the items, the header, and the pointers that it wrote
through. -/
structure Appended where
  items : Nat → Item
  list : LinkedList
  stores : List Nat

/-- `LINKED_LIST_APPEND_NEW`, where `malloc` returns `block`. It returns `scratch`. -/
def linkedListAppendNew (items : Nat → Item) (list : LinkedList) (block item : Nat) : Appended :=
  let list := { list with scratch := block }
  if block = 0 then { items := items, list := list, stores := [] }
  else
    let items := update items block { val := item, next := 0 }
    let items := update items list.last { items list.last with next := block }
    let stores := [block, list.last]
    let list := { list with last := block }
    let list :=
      if list.first = 0 ∨ list.current = 0 then { list with first := block, current := block }
      else list
    { items := items, list := { list with count := incr list.count }, stores := stores }

/-- `LINKED_LIST_MOVE_NEXT`, on the cursor of a list or of an iterator. -/
def linkedListMoveNext (items : Nat → Item) (current : Nat) : Except Stop Nat :=
  if current = 0 then .error .nullDeref else .ok (items current).next

/-- `LINKED_LIST_MOVE_FIRST`. -/
def linkedListMoveFirst (list : LinkedList) : LinkedList := { list with current := list.first }

/-- Turns that a loop over a list is followed for. Addresses have 32 bits, so only a list that runs
in circles takes more. -/
def listFuel : Nat := 4294967296

/-- The loop of `LINKED_LIST_SEEK_UNTIL`. -/
def seekUntil (items : Nat → Item) (cond : Item → Bool) : Nat → Nat → Except Stop Nat
  | 0, _ => .error .hang
  | fuel + 1, current =>
    if current = 0 then .ok 0
    else if cond (items current) then .ok current
    else seekUntil items cond fuel (items current).next

/-- `LINKED_LIST_SEEK_UNTIL`, on the cursor of a list or of an iterator. -/
def linkedListSeekUntil (items : Nat → Item) (cond : Item → Bool) (current : Nat) :
    Except Stop Nat :=
  seekUntil items cond listFuel current

/-- `LINKED_LIST_REMOVE_CURRENT`: the header, the iterator, and the item that was removed. -/
def linkedListRemoveCurrent (items : Nat → Item) (list : LinkedList) (iter : Nat) :
    Except Stop (LinkedList × Nat × Nat) :=
  if iter = 0 then .error .nullDeref
  else
    let list := { list with scratch := iter }
    let iter := (items iter).next
    let list := { list with first := if list.first = list.scratch then iter else list.first }
    let list := { list with last := if list.last = list.scratch then iter else list.last }
    .ok ({ list with count := decr list.count }, iter, list.scratch)

/-- `LINKED_LIST_REMOVE_FIRST_FREE`: the header, and the item that is freed. -/
def linkedListRemoveFirstFree (items : Nat → Item) (list : LinkedList) :
    Except Stop (LinkedList × Nat) :=
  if list.first = 0 then .error .nullDeref
  else
    let list := { list with scratch := list.first }
    .ok ({ list with first := (items list.scratch).next }, list.scratch)

/-! ## What a list is -/

/-- The items from `a` on are those at the addresses in `l`. -/
abbrev Items (items : Nat → Item) (a : Nat) (l : List Nat) : Prop :=
  Chain (fun x => (items x).next) 0 a l

/-- The items of a list, at 32-bit addresses. -/
structure Linked (items : Nat → Item) (list : LinkedList) (l : List Nat) : Prop where
  chain : Items items list.first l
  addresses : ∀ x ∈ l, x < wordSize

structure WellFormed (items : Nat → Item) (list : LinkedList) (l : List Nat) : Prop where
  chain : Items items list.first l
  last : list.last = l.getLastD 0
  count : list.count = l.length
  addresses : ∀ x ∈ l, x < wordSize

theorem next_append (items : Nat → Item) (last block item x : Nat) :
    ((update (update items block { val := item, next := 0 }) last
      { update items block { val := item, next := 0 } last with next := block } x).next) =
      if x = last then block else if x = block then 0 else (items x).next := by
  by_cases hl : x = last
  · simp [hl]
  · by_cases hb : x = block
    · subst hb
      simp [hl]
    · simp [hl, hb]

theorem next_append_val (items : Nat → Item) (last block item x : Nat) :
    ((update (update items block { val := item, next := 0 }) last
      { update items block { val := item, next := 0 } last with next := block } x).val) =
      if x = block then item else (items x).val := by
  by_cases hl : x = last
  · subst hl
    by_cases hb : x = block
    · simp [hb]
    · simp [hb]
  · by_cases hb : x = block
    · subst hb
      simp [hl]
    · simp [hl, hb]

/-! ## Seeking -/

section Seek

variable {items : Nat → Item} {cond : Item → Bool} {a : Nat} {l : List Nat}

theorem seekUntil_eq (h : Items items a l) {fuel : Nat} (hfuel : l.length < fuel) :
    seekUntil items cond fuel a = .ok ((l.find? (fun x => cond (items x))).getD 0) := by
  induction l, fuel, hfuel using Loop.fuel_induction generalizing a with
  | nil fuel =>
    have ha : a = 0 := h
    rw [seekUntil, if_pos ha]
    rfl
  | cons x l fuel hfuel ih =>
    obtain ⟨rfl, ha, hrest⟩ := h
    rw [seekUntil, if_neg ha]
    cases hc : cond (items a) with
    | true => simp [hc]
    | false =>
      rw [if_neg (by simp), ih hrest]
      simp [hc]

theorem length_lt_listFuel (h : Items items a l) (haddr : ∀ x ∈ l, x < wordSize) :
    l.length < listFuel :=
  h.length_lt (by decide) haddr

/-- **Seeking** stops at the first item that meets the condition, or runs off the end. -/
theorem linkedListSeekUntil_eq {list : LinkedList} (h : Linked items list l) :
    linkedListSeekUntil items cond list.first = .ok ((l.find? (fun x => cond (items x))).getD 0) :=
  seekUntil_eq h.chain (length_lt_listFuel h.chain h.addresses)

theorem linkedListSeekUntil_cases {list : LinkedList} (h : Linked items list l) :
    (linkedListSeekUntil items cond list.first = .ok 0 ∧ ∀ x ∈ l, cond (items x) = false) ∨
      ∃ x ∈ l, x ≠ 0 ∧ cond (items x) = true ∧
        linkedListSeekUntil items cond list.first = .ok x := by
  rw [linkedListSeekUntil_eq h]
  cases hfind : l.find? (fun x => cond (items x)) with
  | none =>
    rw [List.find?_eq_none] at hfind
    exact Or.inl ⟨rfl, fun x hx => by simpa using hfind x hx⟩
  | some x =>
    have hx := List.mem_of_find?_eq_some hfind
    have hcond := List.find?_some hfind
    exact Or.inr ⟨x, hx, h.chain.ne_null hx, hcond, rfl⟩

end Seek

/-! ## Appending -/

/-- The list that was the chain `l` is now `l` with the new item at its end. -/
structure AppendKeeps (items : Nat → Item) (list : LinkedList) (block item : Nat) (l : List Nat) :
    Prop where
  not_null : 0 ∉ (linkedListAppendNew items list block item).stores
  chain : Items (linkedListAppendNew items list block item).items
    (linkedListAppendNew items list block item).list.first (l ++ [block])
  vals : ∀ x ∈ l, ((linkedListAppendNew items list block item).items x).val = (items x).val
  val : ((linkedListAppendNew items list block item).items block).val = item
  last : (linkedListAppendNew items list block item).list.last = block
  count : (linkedListAppendNew items list block item).list.count = incr list.count

/-- What the header must be like for that: `last` is the last item and the cursor is on the list,
or the list is empty and `last` was left behind by an item that is gone. -/
def AppendReady (list : LinkedList) (block : Nat) (l : List Nat) : Prop :=
  (l ≠ [] ∧ list.last = l.getLastD 0 ∧ list.current ≠ 0) ∨
    (l = [] ∧ list.last ≠ 0 ∧ list.last ≠ block)

section Append

variable {items : Nat → Item} {list : LinkedList} {block item : Nat} {l : List Nat}

theorem appendNew_eq (hblock : block ≠ 0) :
    linkedListAppendNew items list block item = {
      items := update (update items block { val := item, next := 0 }) list.last
        { update items block { val := item, next := 0 } list.last with next := block }
      list := {
        first := if list.first = 0 ∨ list.current = 0 then block else list.first
        last := block
        current := if list.first = 0 ∨ list.current = 0 then block else list.current
        scratch := block
        count := incr list.count }
      stores := [block, list.last] } := by
  simp only [linkedListAppendNew, if_neg hblock]
  split <;> rfl

theorem append_ready_of_keeps (hchain : Items items list.first l) (hblock : block ≠ 0)
    (hnew : block ∉ l) (h : AppendKeeps items list block item l) : AppendReady list block l := by
  have hstores := h.not_null
  have hnext := h.chain
  simp only [appendNew_eq hblock, Items, next_append] at hstores hnext
  have hlast0 : list.last ≠ 0 := by
    intro h0
    exact hstores (by simp [h0])
  rcases List.eq_nil_or_concat' l with rfl | ⟨p, x, rfl⟩
  · refine Or.inr ⟨rfl, hlast0, ?_⟩
    rintro rfl
    -- the new item would be linked to itself
    have hself := hnext.2.2
    simp only [Chain, if_true] at hself
    exact hblock hself
  · have hfirst : list.first ≠ 0 := by
      intro h0
      have := hchain.eq_nil_iff.mpr h0
      simp at this
    have hcur : list.current ≠ 0 := by
      intro h0
      rw [if_pos (Or.inr h0)] at hnext
      -- the chain would start at the new item
      cases p with
      | nil => exact hnew (by simpa using hnext.1)
      | cons y p => exact hnew (by simp [hnext.1])
    refine Or.inl ⟨by simp, ?_, hcur⟩
    rw [List.getLastD_concat]
    have hold := (show Items items list.first (p ++ x :: []) from hchain).of_append_cons.2.2
    have hlink := (show Chain _ 0 _ (p ++ x :: [block]) by simpa using hnext).of_append_cons.2.2.1
    have hold : (items x).next = 0 := hold
    by_contra hne
    rw [if_neg (Ne.symm hne), if_neg (fun heq => hnew (by simp [heq])), hold] at hlink
    exact hblock hlink.symm

theorem keeps_of_append_ready (hchain : Items items list.first l) (hblock : block ≠ 0)
    (hnew : block ∉ l) (h : AppendReady list block l) : AppendKeeps items list block item l := by
  have hlast0 : list.last ≠ 0 := by
    rcases h with ⟨hne, hlast, -⟩ | ⟨-, hlast, -⟩
    · rw [hlast, List.getLastD_eq_getLast?, List.getLast?_eq_getLast_of_ne_nil hne]
      exact hchain.ne_null (List.getLast_mem hne)
    · exact hlast
  refine ⟨?_, ?_, ?_, ?_, ?_, ?_⟩
  · rw [appendNew_eq hblock]
    simpa using ⟨hblock.symm, hlast0.symm⟩
  · simp only [appendNew_eq hblock, Items, next_append]
    rcases h with ⟨hne, hlast, hcur⟩ | ⟨rfl, -, hlast⟩
    · obtain ⟨p, x, rfl⟩ := (List.eq_nil_or_concat' l).resolve_left hne
      rw [List.getLastD_concat] at hlast
      have hfirst : list.first ≠ 0 := by
        intro h0
        have := hchain.eq_nil_iff.mpr h0
        simp at this
      rw [if_neg (by simp [hfirst, hcur])]
      have hxp : ∀ y ∈ p, y ≠ x := by
        have := hchain.nodup
        rw [List.nodup_append] at this
        exact fun y hy => this.2.2 y hy x (by simp)
      have hbx : block ≠ x := fun heq => hnew (by simp [heq])
      rw [List.append_assoc]
      refine Chain.append_cell hchain hblock (by simp [hlast]) (by simp [hlast, hbx]) ?_
      intro y hy
      have hyb : y ≠ block := fun heq => hnew (by simp [← heq, hy])
      simp [hlast, hxp y hy, hyb]
    · have hfirst : list.first = 0 := hchain
      rw [if_pos (Or.inl hfirst)]
      exact ⟨rfl, hblock, by simp [Ne.symm hlast, Chain]⟩
  · intro x hx
    have hne : x ≠ block := fun heq => hnew (heq ▸ hx)
    rw [appendNew_eq hblock, next_append_val, if_neg hne]
  · rw [appendNew_eq hblock, next_append_val, if_pos rfl]
  · rw [appendNew_eq hblock]
  · rw [appendNew_eq hblock]

/-- **Appending to a list** works exactly when the header is ready for it, for every list and
whatever its pointers are. -/
theorem append_keeps_iff (hchain : Items items list.first l) (hblock : block ≠ 0)
    (hnew : block ∉ l) : AppendKeeps items list block item l ↔ AppendReady list block l :=
  ⟨append_ready_of_keeps hchain hblock hnew, keeps_of_append_ready hchain hblock hnew⟩

end Append

/-- A list of two items with its cursor on the first takes a third. -/
theorem append_keeps_third :
    let items : Nat → Item := fun x => if x = 16 then { val := 1, next := 32 } else { val := 2 }
    let list : LinkedList := { first := 16, last := 32, current := 16, count := 2 }
    AppendKeeps items list 48 3 [16, 32] :=
  (append_keeps_iff (by simp [Chain]) (by decide) (by decide)).mpr (by simp [AppendReady])

/-- The first append to a list writes through a null pointer. If the cursor then runs off the end,
as the loops of `wait` and of the scheduler leave it, the next append loses the first item. -/
theorem append_fails_after_run_off :
    ¬ AppendKeeps (fun _ => {}) {} 16 1 [] ∧
      (let a := linkedListAppendNew (fun _ => {}) {} 16 1
       linkedListMoveNext a.items a.list.current = .ok 0 ∧ Items a.items a.list.first [16] ∧
         ¬ AppendKeeps a.items { a.list with current := 0 } 32 2 [16]) := by
  refine ⟨fun h => ?_, by decide, ?_, fun h => ?_⟩
  · exact h.not_null (by decide)
  · simp [appendNew_eq, Chain]
  · have hready := append_ready_of_keeps (by simp [appendNew_eq, Chain]) (by decide) (by decide) h
    simp [AppendReady] at hready

/-! ## Removing -/

/-- The item at `x` was removed from the list that was the chain `l`. -/
structure Removes (items : Nat → Item) (list list' : LinkedList) (l : List Nat) (x : Nat) : Prop where
  chain : Items items list'.first (l.erase x)
  last : list'.last = (l.erase x).getLastD 0
  count : list'.count + 1 = list.count
  cursor : list'.current ≠ x

section Remove

variable {items items' : Nat → Item} {list : LinkedList} {l : List Nat} {x : Nat}

theorem removeCurrent_eq (hx : x ≠ 0) :
    linkedListRemoveCurrent items list x = .ok ({
      first := if list.first = x then (items x).next else list.first
      last := if list.last = x then (items x).next else list.last
      current := list.current
      scratch := x
      count := decr list.count }, (items x).next, x) := by
  simp only [linkedListRemoveCurrent, if_neg hx]

theorem removes_first {q : List Nat} (hwf : WellFormed items list (x :: q))
    (hfree : ∀ y, y ≠ x → items' y = items y) (hcur : list.current ≠ x) :
    ∃ list' iter, linkedListRemoveCurrent items list x = .ok (list', iter, x) ∧
      Removes items' list list' (x :: q) x := by
  obtain ⟨hfirst, hx0, hrest⟩ := hwf.chain
  have hnodup := List.nodup_cons.mp hwf.chain.nodup
  refine ⟨_, _, removeCurrent_eq hx0, ?_, ?_, ?_, hcur⟩
  · rw [List.erase_cons_head, if_pos hfirst]
    refine hrest.congr (fun y hy => ?_)
    rw [hfree y (fun heq => hnodup.1 (heq ▸ hy))]
  · show (if list.last = x then (items x).next else list.last) = _
    rw [List.erase_cons_head, hwf.last]
    rcases List.eq_nil_or_concat' q with rfl | ⟨p, z, rfl⟩
    · rw [List.getLastD_cons, List.getLastD_nil, if_pos rfl]
      exact hrest
    · have hz : ((x :: (p ++ [z])).getLastD 0) = z := by
        rw [← List.cons_append, List.getLastD_concat]
      rw [hz, List.getLastD_concat, if_neg (fun heq => hnodup.1 (by simp [heq]))]
  · have hcount := hwf.count
    rw [List.length_cons] at hcount
    show decr list.count + 1 = list.count
    rw [decr_of_pos (by omega)]
    omega

theorem not_removes_later {p q : List Nat} (hwf : WellFormed items list (p ++ x :: q)) (hp : p ≠ [])
    (hfree : ∀ y, y ≠ x → items' y = items y) :
    ∃ list' iter, linkedListRemoveCurrent items list x = .ok (list', iter, x) ∧
      ¬ Removes items' list list' (p ++ x :: q) x := by
  have hx0 : x ≠ 0 := hwf.chain.ne_null (by simp)
  refine ⟨_, _, removeCurrent_eq hx0, fun h => ?_⟩
  have hnodup := hwf.chain.nodup
  rw [List.nodup_append] at hnodup
  obtain ⟨-, hxq, hcross⟩ := hnodup
  have hxp : x ∉ p := fun hmem => hcross x hmem x (by simp) rfl
  obtain ⟨p', z, rfl⟩ := (List.eq_nil_or_concat' p).resolve_left hp
  -- the item before it still points to it
  have hold := (show Items items list.first (p' ++ z :: (x :: q)) by
    simpa using hwf.chain).of_append_cons.2.2.1
  have hz : z ≠ x := fun heq => hxp (by simp [heq])
  have hnew := h.chain
  rw [List.erase_append_right _ hxp, List.erase_cons_head] at hnew
  have hnext := (show Items items' _ (p' ++ z :: q) by simpa using hnew).of_append_cons.2.2
  simp only [hfree z hz] at hnext hold
  rw [hold] at hnext
  cases q with
  | nil => exact hx0 hnext
  | cons w q =>
    obtain ⟨rfl, -, -⟩ := hnext
    exact (List.nodup_cons.mp hxq).1 (by simp)

/-- **Removing the current item** works exactly when it is the first one and the list's own cursor
is not on it, whatever the freed item holds afterwards. The macro for the first item never does
what it should: it leaves the counter as it was. -/
theorem remove_removes_iff (hwf : WellFormed items list l) (hx : x ∈ l)
    (hfree : ∀ y, y ≠ x → items' y = items y) :
    (∃ list' iter, linkedListRemoveCurrent items list x = .ok (list', iter, x) ∧
      (Removes items' list list' l x ↔ l.head? = some x ∧ list.current ≠ x)) ∧
    (∃ list' y, linkedListRemoveFirstFree items list = .ok (list', y) ∧ l.head? = some y ∧
      ∀ items', ¬ Removes items' list list' l y) := by
  constructor
  · obtain ⟨p, q, rfl⟩ := List.append_of_mem hx
    by_cases hp : p = []
    · subst hp
      by_cases hcur : list.current = x
      · refine ⟨_, _, removeCurrent_eq (hwf.chain.ne_null hx), fun h => absurd hcur h.cursor,
          fun h => absurd hcur h.2⟩
      · obtain ⟨list', iter, heq, hrem⟩ := removes_first hwf hfree hcur
        exact ⟨list', iter, heq, fun _ => ⟨rfl, hcur⟩, fun _ => hrem⟩
    · obtain ⟨list', iter, heq, hrem⟩ := not_removes_later hwf hp hfree
      refine ⟨list', iter, heq, fun h => absurd h hrem, fun h => ?_⟩
      -- the first item is not `x`, for no item comes twice
      obtain ⟨y, p', rfl⟩ := List.exists_cons_of_ne_nil hp
      have hy : y = x := by simpa using h.1
      have := (List.nodup_cons.mp hwf.chain.nodup).1
      exact absurd (by simp [hy]) this
  · obtain ⟨y, l', rfl⟩ := List.exists_cons_of_ne_nil (List.ne_nil_of_mem hx)
    obtain ⟨hfirst, hy0, -⟩ := hwf.chain
    refine ⟨{ list with scratch := y, first := (items y).next }, y, ?_, rfl, fun _ h => ?_⟩
    · simp [linkedListRemoveFirstFree, hfirst, hy0]
    · have := h.count
      simp at this

end Remove

/-- With the cursor on the second of two items, the first one is removed. -/
theorem remove_removes_first_of_two :
    let items : Nat → Item := fun x => if x = 16 then { val := 1, next := 32 } else { val := 2 }
    let list : LinkedList := { first := 16, last := 32, current := 32, count := 2 }
    ∃ list' iter, linkedListRemoveCurrent items list 16 = .ok (list', iter, 16) ∧
      Removes items list list' [16, 32] 16 := by
  intro items list
  have hwf : WellFormed items list [16, 32] :=
    ⟨by simp [items, list, Chain], rfl, rfl, by decide⟩
  have hmem : 16 ∈ [16, 32] := by decide
  obtain ⟨list', iter, heq, hiff⟩ := (remove_removes_iff hwf hmem (fun _ _ => rfl)).1
  exact ⟨list', iter, heq, hiff.mpr ⟨rfl, by decide⟩⟩

/-- Removing the second of two items leaves a pointer to it in the first, whatever the item holds
once it is freed. -/
theorem remove_second_stays_linked :
    let items : Nat → Item := fun x => if x = 16 then { val := 1, next := 32 } else { val := 2 }
    let list : LinkedList := { first := 16, last := 32, current := 16, count := 2 }
    WellFormed items list [16, 32] ∧
      ∃ list' iter, linkedListRemoveCurrent items list 32 = .ok (list', iter, 32) ∧
        ∀ items' : Nat → Item, (∀ y, y ≠ 32 → items' y = items y) →
          ¬ Removes items' list list' [16, 32] 32 := by
  intro items list
  have hwf : WellFormed items list [16, 32] :=
    ⟨by simp [items, list, Chain], rfl, rfl, by decide⟩
  refine ⟨hwf, _, _, removeCurrent_eq (by decide), fun items' hfree h => ?_⟩
  have hchain := h.chain
  simp [list, items, Chain, hfree 16 (by decide)] at hchain

end Hydrax
