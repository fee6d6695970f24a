import Hydrax.Mmu.Fault
import Hydrax.Mmu.Pages

/-!
# Accesses to memory

What the processor does with an address of the current address space: it looks at the entry of the
page, and calls the page fault handler until the access is allowed.
-/

namespace Hydrax

/-- The entry of a page lets the kernel or the task read it, or write it. The processor is set to
check the `rw` bit in kernel mode, too. -/
def Page.allows (p : Page) (write : Bool) : Bool := p.present && (!write || p.rw)

/-- The entry that the processor reads for `address`. -/
def State.entryOf (s : State) (address : Nat) : Page :=
  s.entry s.currentDirectory (address / pageSize)

/-- An access to `address`, tried again after each fault. `false` if the task is killed. -/
def access (write : Bool) : Nat → State → Nat → Except Stop (Bool × State)
  | 0, _, _ => .error .hang
  | fuel + 1, s, address =>
    if (s.entryOf address).allows write then .ok (true, s)
    else do
      let (r, s) ← pageFault s address write
      if r = .unhandled then return (false, s) else access write fuel s address

/-- Read the byte at `address`. -/
def loadByte (s : State) (address : Nat) : Except Stop (Option UInt8 × State) := do
  let (ok, s) ← access false addrFuel s address
  if ok then return (some (s.mem (s.entryOf address).frame (address % pageSize)), s)
  else return (none, s)

/-- Write the byte at `address`. A task that is killed in the middle of a call of the kernel does
not come back from it. -/
def storeByte (s : State) (address : Nat) (b : UInt8) : Except Stop State := do
  let (ok, s) ← access true addrFuel s address
  if ok then
    let frame := (s.entryOf address).frame
    return { s with
      mem := Function.update s.mem frame (Function.update (s.mem frame) (address % pageSize) b) }
  else .error .panicked

/-- `memset(address, 0, n)`. -/
def memsetZero (s : State) (address n : Nat) : Except Stop State :=
  (List.range n).foldlM (fun s i => storeByte s ((address + i) % wordSize) 0) s

end Hydrax
