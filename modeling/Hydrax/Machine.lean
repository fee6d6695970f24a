import Hydrax.Loop

/-!
# The machine under the kernel

Hydrax is a 32-bit x86 kernel. Addresses and sizes are natural numbers below `2 ^ 32`, and every
place where the source adds two of them says so with an explicit `% wordSize`.

A kernel function either returns or stops the machine for good. `Stop` names the ways it stops, so
that "`f s = .ok r`" reads "the call comes back with `r`".
-/

namespace Hydrax

/-- Number of values of a `uint32_t`. -/
def wordSize : Nat := 4294967296

theorem toNat_eq_succ {x : UInt32} (h : x ≠ 0) : ∃ n, x.toNat = n + 1 ∧ (x - 1).toNat = n := by
  have hpos : x.toNat ≠ 0 := fun h0 => h (UInt32.toNat_inj.mp h0)
  have hone : (1 : UInt32) ≤ x := UInt32.le_iff_toNat_le.mpr (Nat.pos_of_ne_zero hpos)
  obtain ⟨n, hn⟩ := Nat.exists_eq_succ_of_ne_zero hpos
  refine ⟨n, hn, ?_⟩
  rw [UInt32.toNat_sub_of_le _ _ hone, hn]
  rfl

/-- `MMU_PAGE_SIZE`. -/
def pageSize : Nat := 4096

/-- Pages of a page table, and tables of a page directory. -/
def tableSize : Nat := 1024

/-- How a call fails to come back. -/
inductive Stop where
  /-- An `assert` of the source fails, which calls `arch_panic`. -/
  | assertFailed
  /-- `panic` is called. -/
  | panicked
  /-- A null pointer is dereferenced. -/
  | nullDeref
  /-- A freed object is used. -/
  | useAfterFree
  /-- An array is indexed past its end. -/
  | outOfBounds
  /-- A loop of the source never ends. -/
  | hang
  /-- The page fault handler faults itself while it holds `kmmaps_lock`. -/
  | nestedFault
  deriving DecidableEq, Repr

/-- `assert(c)`. -/
def assert (c : Bool) : Except Stop Unit :=
  if c then .ok () else .error .assertFailed

@[simp] theorem assert_eq_ok {c : Bool} {u : Unit} : assert c = .ok u ↔ c = true := by
  cases c <;> simp [assert]

/-! ## Loops over page addresses

The kernel walks a range of pages with

    for (tmp = start; tmp < bound; tmp += 0x1000)

where `tmp` and `bound` are 32-bit. The cursor can wrap past the top of the address space, and then
the loop visits page `0` after the last page. -/

/-- Iterations after which such a loop has visited every page of the address space and will not
end: one more than there are pages. -/
def addrFuel : Nat := 1048577

/-- `for (tmp = start; tmp < bound; tmp += 0x1000) body`, with the 32-bit cursor `tmp`. -/
def forAddr {σ : Type} (body : σ → Nat → Except Stop σ) (bound : Nat) :
    Nat → Nat → σ → Except Stop σ
  | 0, _, _ => .error .hang
  | fuel + 1, tmp, s =>
    if tmp < bound then do
      let s ← body s tmp
      forAddr body bound fuel ((tmp + pageSize) % wordSize) s
    else .ok s

theorem forAddr_inv {σ : Type} {body : σ → Nat → Except Stop σ} {bound : Nat} (I : σ → Prop)
    (step : ∀ s s' tmp, tmp < wordSize → I s → body s tmp = .ok s' → I s') {fuel tmp : Nat}
    {s s' : σ} (htmp : tmp < wordSize) (hI : I s) (h : forAddr body bound fuel tmp s = .ok s') :
    I s' := by
  induction fuel generalizing tmp s with
  | zero => cases h
  | succ fuel ih =>
    rw [forAddr] at h
    split at h
    · rw [Loop.bind_eq_ok] at h
      obtain ⟨s₁, hs₁, hrest⟩ := h
      exact ih (Nat.mod_lt _ (by decide)) (step s s₁ tmp htmp hI hs₁) hrest
    · cases h
      exact hI

theorem forAddr_of_le {σ : Type} {body : σ → Nat → Except Stop σ} {bound fuel tmp : Nat}
    (h : bound ≤ tmp) (s : σ) : forAddr body bound (fuel + 1) tmp s = .ok s := by
  rw [forAddr, if_neg (by omega)]

theorem forAddr_one {σ : Type} {body : σ → Nat → Except Stop σ} {bound fuel tmp : Nat}
    (h : tmp < bound) (hbound : bound ≤ tmp + pageSize) (hfit : tmp + pageSize < wordSize) (s : σ) :
    forAddr body bound (fuel + 2) tmp s = body s tmp := by
  rw [forAddr, if_pos h, Nat.mod_eq_of_lt hfit]
  cases body s tmp with
  | error e => rfl
  | ok s₁ =>
    rw [Loop.ok_bind]
    exact forAddr_of_le hbound s₁

/-- The addresses of `n` pages from `start` on. -/
def pageAddrs (start n : Nat) : List Nat := (List.range n).map (fun k => start + k * pageSize)

theorem pageAddrs_zero (start : Nat) : pageAddrs start 0 = [] := rfl

theorem pageAddrs_succ (start n : Nat) :
    pageAddrs start (n + 1) = start :: pageAddrs (start + pageSize) n := by
  simp only [pageAddrs, List.range_succ_eq_map, List.map_cons, List.map_map, Nat.zero_mul,
    Nat.add_zero, List.cons.injEq, true_and]
  apply List.map_congr_left
  intro k _
  simp only [Function.comp_apply, Nat.succ_eq_add_one]
  rw [Nat.add_mul, Nat.one_mul]
  omega

/-- Pages that `sz` bytes take, as `(sz + 0xFFF) / 0x1000` computes it when the sum fits. -/
def pageCount (sz : Nat) : Nat := (sz + 0xFFF) / 0x1000

/-- **The loop over a range that does not reach the top of the address space** visits its pages
once each, in order. -/
theorem forAddr_eq_foldlM {σ : Type} (body : σ → Nat → Except Stop σ) {start sz : Nat}
    (hfit : start + pageCount sz * pageSize < wordSize) {fuel : Nat} (hfuel : pageCount sz < fuel)
    (s : σ) :
    forAddr body (start + sz) fuel start s = (pageAddrs start (pageCount sz)).foldlM body s := by
  induction fuel generalizing start sz s with
  | zero => omega
  | succ fuel ih =>
    rw [forAddr]
    by_cases hsz : sz = 0
    · subst hsz
      simp [pageCount, pageAddrs_zero, pure, Except.pure]
    · rw [if_pos (by omega)]
      -- one page is visited, and the rest is the same loop on `sz - 0x1000` bytes
      have hcount : pageCount sz = pageCount (sz - pageSize) + 1 := by
        simp only [pageCount, pageSize]
        omega
      rw [hcount, pageAddrs_succ, List.foldlM_cons]
      congr 1
      funext s₁
      have hnext : (start + pageSize) % wordSize = start + pageSize := by
        apply Nat.mod_eq_of_lt
        rw [hcount, Nat.add_mul] at hfit
        omega
      rw [hnext]
      by_cases hle : pageSize ≤ sz
      · have hbound : start + sz = start + pageSize + (sz - pageSize) := by omega
        rw [hbound]
        apply ih
        · rw [hcount, Nat.add_mul] at hfit
          omega
        · omega
      · -- a partial last page: the bound is passed at once
        have hzero : pageCount (sz - pageSize) = 0 := by
          simp only [pageCount, pageSize] at hle ⊢
          omega
        rw [hzero, pageAddrs_zero]
        cases fuel with
        | zero => omega
        | succ fuel =>
          rw [forAddr, if_neg (by omega)]
          rfl

/-! ## Counters -/

/-- `++` on a `uint32_t`. -/
def incr (n : Nat) : Nat := (n + 1) % wordSize

/-- `--` on a `uint32_t`. -/
def decr (n : Nat) : Nat := if n = 0 then wordSize - 1 else n - 1

theorem incr_of_lt {n : Nat} (h : n + 1 < wordSize) : incr n = n + 1 := Nat.mod_eq_of_lt h

theorem decr_of_pos {n : Nat} (h : 0 < n) : decr n = n - 1 := if_neg (by omega)

end Hydrax
