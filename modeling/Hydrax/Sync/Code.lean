import Hydrax.Outline

/-!
# The mutex functions as code

`mutex.h` and `mutex.c` are inlined where they are called, so each function is a piece of code with
the places it lies at. Yielding is no step of its own: any task may run next.

* `mutexWaitsleep` — the loop of an exchange and a sleep,
* `mutexWaitsleepNotes` — what holds at its places.
-/

namespace Hydrax.Sync

open Conc

variable {ℓ ω : Type}

/-- `mutex_try`, where the caller goes to `failed` if it returns 0. -/
def mutexTry (l : ℓ) (failed : Nat) : Instr ℓ ω := .exchange l failed

/-- `mutex_busywait`, at the place `here`. -/
def mutexBusywait (l : ℓ) (here : Nat) : Instr ℓ ω := mutexTry l here

/-- `mutex_wait`, at the place `here`. -/
def mutexWait (l : ℓ) (here : Nat) : Instr ℓ ω := mutexTry l here

/-- `mutex_release`, with its assertion. -/
def mutexRelease (l : ℓ) : Instr ℓ ω := .release l

def mutexAttachWaiter (w : ω) (lock : ℓ) (here : Nat) : List (Instr ℓ ω) :=
  [mutexWait lock here, .attach w, mutexRelease lock]

def mutexDetachWaiter (w : ω) (lock : ℓ) (here : Nat) : List (Instr ℓ ω) :=
  [mutexWait lock here, .detach w, mutexRelease lock]

/-- Attach, pause while the waiter is waiting, detach, and go to `next`. -/
def sleepOn (w : ω) (lock : ℓ) (here next : Nat) : List (Instr ℓ ω) :=
  mutexAttachWaiter w lock here ++
  [.ifWaiting (here + 6), .pause, .goto (here + 3)] ++
  mutexDetachWaiter w lock (here + 6) ++
  [.goto next]

/-- `mutex_waitsleep`, which goes to `next` with the mutex held. -/
def mutexWaitsleep (l : ℓ) (w : ω) (lock : ℓ) (here next : Nat) : List (Instr ℓ ω) :=
  [mutexTry l (here + 2), .goto next] ++ sleepOn w lock (here + 2) here

/-! ## Notes -/

structure Note (ℓ ω : Type) where
  held : List ℓ
  fact : Option Test
  list : Option ω

def holds (held : List ℓ) : Note ℓ ω := ⟨held, none, none⟩

def knows (held : List ℓ) (fact : Test) : Note ℓ ω := ⟨held, some fact, none⟩

def attached (held : List ℓ) (w : ω) : Note ℓ ω := ⟨held, none, some w⟩

/-- The notes of a sleep that starts with the locks `held`. -/
def sleepOnNotes (w : ω) (lock : ℓ) (held : List ℓ) : List (Note ℓ ω) :=
  [holds held, holds (lock :: held), attached (lock :: held) w,
    attached held w, attached held w, attached held w,
    attached held w, attached (lock :: held) w, holds (lock :: held),
    holds held]

def mutexWaitsleepNotes (l : ℓ) (w : ω) (lock : ℓ) : List (Note ℓ ω) :=
  [holds [], holds [l]] ++ sleepOnNotes w lock []

def outline {π : Type} [DecidableEq ℓ] (notes : π → List (Note ℓ ω)) (guard upper : ℓ)
    (keptZero : Bool) : Outline ℓ ω π where
  held p pc l := (notes p)[pc]?.any (fun n => decide (l ∈ n.held))
  fact p pc := (notes p)[pc]?.bind Note.fact
  list p pc := (notes p)[pc]?.bind Note.list
  guard := guard
  upper := upper
  keptZero := keptZero

end Hydrax.Sync
