import Hydrax.Buffer
import Hydrax.Machine

/-!
# The name of the host

`sethostname` and `gethostname` of `kernel/system.c`. A length is a `size_t`, which has no sign.

* `copyName_eq`, `readHost_eq` — what the two loops copy,
* `length_bytes_le_iff` — `gethostname` stays within the buffer unless the buffer is empty,
* `roundTrips_iff` — `sethostname` compares the length with `-1`, which is the greatest length, and
  so refuses every name.
-/

namespace Hydrax.System

/-- `HOST_NAME_MAX`. -/
def hostNameMax : UInt32 := 255

def efault : Int := -4

def enametoolong : Int := -6

def eperm : Int := -16

structure CString where
  chars : List Char
  nonnull : Buffer.null ∉ chars
  deriving DecidableEq

/-- The string in `hostname`, which is an array of `HOST_NAME_MAX + 1` characters. -/
structure HostName extends CString where
  fits : chars.length ≤ hostNameMax.toNat
  deriving DecidableEq

/-- `CONFIG_DEFAULT_HOST_NAME`. -/
def defaultHostName : HostName where
  chars := ['h', 'y', 'd', 'r', 'a', 'x']
  nonnull := by decide
  fits := by decide

/-- The ids of `current_task` that `sethostname` looks at. -/
structure Caller where
  euid : UInt32
  egid : UInt32

/-! ## The calls -/

/-- "while (len-- && *name != NULL)". -/
def copyName : List Char → UInt32 → List Char
  | [], _ => []
  | c :: name, len => if len = 0 then [] else c :: copyName name (len - 1)

theorem copyName_eq (name : List Char) (len : UInt32) :
    copyName name len = name.take len.toNat := by
  induction name generalizing len with
  | nil => rw [copyName, List.take_nil]
  | cons c name ih =>
    rw [copyName]
    split
    next h =>
      rw [h]
      rfl
    next h =>
      obtain ⟨n, hn, hpred⟩ := toNat_eq_succ h
      rw [ih, hpred, hn, List.take_succ_cons]

/-- What the loop leaves in `hostname`. -/
def HostName.copy (name : CString) (len : UInt32) (h : len ≤ hostNameMax) : HostName where
  chars := copyName name.chars len
  nonnull hnull := name.nonnull (List.mem_of_mem_take (copyName_eq name.chars len ▸ hnull))
  fits := by
    rw [copyName_eq]
    exact Nat.le_trans (List.length_take_le ..) (UInt32.le_iff_toNat_le.mp h)

def sethostname (host : HostName) (caller : Caller) (name : Option CString) (len : UInt32) :
    Int × HostName :=
  match name with
  | none => (efault, host)
  | some name =>
    if h : len ≤ -1 ∨ len > hostNameMax then (enametoolong, host)
    else if caller.euid ≠ 0 ∧ caller.egid ≠ 0 then (eperm, host)
    else (0, HostName.copy name len (UInt32.not_lt.mp (not_or.mp h).2))

/-- "while (--len > 0 && *p_host != NULL)". -/
def readHost : List Char → UInt32 → List Char
  | [], _ => []
  | c :: host, len => if len - 1 > 0 then c :: readHost host (len - 1) else []

/-- The characters that `gethostname` writes. -/
def HostName.bytes (host : HostName) (len : UInt32) : List Char :=
  readHost host.chars len ++ [Buffer.null]

/-- `gethostname`, with the memory at `name`. -/
def gethostname (host : HostName) (name : Option (Nat → Char)) (len : UInt32) :
    Int × Option (Nat → Char) :=
  match name with
  | none => (efault, none)
  | some name => (0, some (Buffer.put name 0 (host.bytes len)))

/-! ## What comes back -/

/-- The name that is set comes back, as far as there is room, and a length beyond the maximum
changes nothing. -/
def RoundTrips (host : HostName) (caller : Caller) (name : CString) (len : UInt32) : Prop :=
  let set := sethostname host caller (some name) len
  if len ≤ hostNameMax then
    set.1 = 0 ∧ ∀ (m : UInt32) (buf : Nat → Char), (set.2.bytes m).length ≤ m.toNat ∧
      (m ≠ 0 → ∃ buf', gethostname set.2 (some buf) m = (0, some buf') ∧
        Buffer.StringAt Buffer.null buf' 0 ((name.chars.take len.toNat).take (m.toNat - 1)))
  else set.1 ≠ 0 ∧ set.2 = host

section Get

variable {host : HostName} {len : UInt32}

theorem readHost_eq (chars : List Char) (h : len ≠ 0) :
    readHost chars len = chars.take (len.toNat - 1) := by
  induction chars generalizing len with
  | nil => rw [readHost, List.take_nil]
  | cons c chars ih =>
    obtain ⟨n, hn, hpred⟩ := toNat_eq_succ h
    rw [readHost, hn, Nat.add_sub_cancel]
    split
    next hpos =>
      have hne : len - 1 ≠ 0 := fun h0 => UInt32.lt_irrefl _ (h0 ▸ hpos)
      obtain ⟨k, hk, -⟩ := toNat_eq_succ hne
      rw [ih hne, ← hpred, hk, List.take_succ_cons, Nat.add_sub_cancel]
    next hzero =>
      have hn0 : n = 0 := Nat.eq_zero_of_not_pos fun hpos =>
        hzero (UInt32.lt_iff_toNat_lt.mpr (hpred ▸ hpos))
      rw [hn0, List.take_zero]

theorem length_bytes_le_iff (host : HostName) (len : UInt32) :
    (host.bytes len).length ≤ len.toNat ↔ len ≠ 0 := by
  rw [HostName.bytes, List.length_append, List.length_singleton]
  constructor
  · rintro h rfl
    exact absurd h (Nat.not_succ_le_zero _)
  · intro h
    obtain ⟨n, hn, -⟩ := toNat_eq_succ h
    rw [readHost_eq host.chars h, List.length_take]
    omega

/-- **The name in the buffer**, if the buffer is not empty. -/
theorem gethostname_eq (host : HostName) (buf : Nat → Char) (h : len ≠ 0) :
    ∃ buf', gethostname host (some buf) len = (0, some buf') ∧
      Buffer.StringAt Buffer.null buf' 0 (host.chars.take (len.toNat - 1)) := by
  refine ⟨_, rfl, ?_⟩
  rw [HostName.bytes, readHost_eq host.chars h]
  exact Buffer.stringAt_put fun hnull => host.nonnull (List.mem_of_mem_take hnull)

end Get

theorem sethostname_some (host : HostName) (caller : Caller) (name : CString) (len : UInt32) :
    sethostname host caller (some name) len = (enametoolong, host) := by
  have hle : len ≤ -1 := UInt32.le_iff_toNat_le.mpr (Nat.le_of_lt_succ len.toNat_lt)
  rw [sethostname, dif_pos (Or.inl hle)]

/-- **The name comes back** only where it must not be set. -/
theorem roundTrips_iff (host : HostName) (caller : Caller) (name : CString) (len : UInt32) :
    RoundTrips host caller name len ↔ hostNameMax < len := by
  have hcode : enametoolong ≠ 0 := by decide
  rw [RoundTrips, sethostname_some]
  split
  next hle => exact ⟨fun h => absurd h.1 hcode, fun hlt => absurd hlt (UInt32.not_lt.mpr hle)⟩
  next hlt => exact ⟨fun _ => UInt32.not_le.mp hlt, fun _ => ⟨hcode, rfl⟩⟩

theorem roundTrips_long : RoundTrips defaultHostName ⟨0, 0⟩ ⟨['a'], by decide⟩ 256 :=
  (roundTrips_iff ..).mpr (by decide)

/-- The superuser cannot set the name to one letter. -/
theorem sethostname_fails_root :
    (sethostname defaultHostName ⟨0, 0⟩ (some ⟨['a'], by decide⟩) 1).1 = enametoolong ∧
      ¬ RoundTrips defaultHostName ⟨0, 0⟩ ⟨['a'], by decide⟩ 1 := by
  have hset : (sethostname defaultHostName ⟨0, 0⟩ (some ⟨['a'], by decide⟩) 1).1 =
      enametoolong := by
    decide
  refine ⟨hset, fun h => ?_⟩
  rw [RoundTrips, if_pos (by decide), hset] at h
  exact absurd h.1 (by decide)

end Hydrax.System
