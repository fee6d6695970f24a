import Hydrax.Sync.Code

/-!
# Semaphores

`semaphore.c`, with every operation as the code that its tasks run step by step. A task that got
exclusive access keeps the lock `exclusive` beyond the call, until it calls `semaphore_signal_excl`.

* `semaphore` — the code,
* `semaphoreInitializer` — the first state,
* `semaphore_safe` — the counter stays in its range, exclusive access excludes, and no lock is
  released that is not held.
-/

namespace Hydrax.Sync

open Conc

/-- The locks of a semaphore. `exclusive` is a mutex with a list of waiters and its lock. -/
inductive SemaphoreLock where
  | enter
  | exclusive
  | waitersLock
  | exclusiveWaitersLock
  deriving DecidableEq

instance fintypeSemaphoreLock : Fintype SemaphoreLock :=
  ⟨{.enter, .exclusive, .waitersLock, .exclusiveWaitersLock}, fun l => by cases l <;> decide⟩

inductive SemaphoreList where
  | waiters
  | exclusiveWaiters
  deriving DecidableEq

inductive SemaphoreOp where
  | trySlot
  | tryExcl
  | wait
  | waitExcl
  | busywait
  | busywaitExcl
  | waitsleep
  | waitsleepExcl
  | signal
  | signalSleep
  | trysignal
  | signalExcl
  deriving DecidableEq

instance fintypeSemaphoreOp : Fintype SemaphoreOp :=
  ⟨{.trySlot, .tryExcl, .wait, .waitExcl, .busywait, .busywaitExcl, .waitsleep, .waitsleepExcl,
    .signal, .signalSleep, .trysignal, .signalExcl}, fun p => by cases p <;> decide⟩

/-! ## The code -/

abbrev SemaphoreCode : Type := List (Instr SemaphoreLock SemaphoreList)

open SemaphoreLock SemaphoreList

def semaphoreTry : SemaphoreCode :=
  [ mutexTry exclusive 9,
    mutexTry enter 8,
    .test .belowMax 7,
    .increment,
    mutexRelease enter,
    mutexRelease exclusive,
    .ret true none,
    mutexRelease enter,      -- 7
    mutexRelease exclusive,  -- 8
    .ret false none ]        -- 9

def semaphoreTryExcl : SemaphoreCode :=
  [ mutexTry exclusive 7,
    mutexTry enter 6,
    .test .zero 5,
    mutexRelease enter,
    .ret true (some exclusive),
    mutexRelease enter,      -- 5
    mutexRelease exclusive,  -- 6
    .ret false none ]        -- 7

def semaphoreWait : SemaphoreCode :=
  [ mutexWait exclusive 0,
    mutexBusywait enter 1,   -- 1
    .test .belowMax 7,
    .increment,
    mutexRelease enter,
    mutexRelease exclusive,
    .ret true none,
    mutexRelease enter,      -- 7
    .goto 1 ]

def semaphoreWaitExcl : SemaphoreCode :=
  [ mutexWait exclusive 0,
    mutexWait enter 1,       -- 1
    .test .zero 5,
    mutexRelease enter,
    .ret true (some exclusive),
    mutexRelease enter,      -- 5
    .goto 1 ]

def semaphoreBusywait : SemaphoreCode :=
  [ mutexWait exclusive 0,
    mutexBusywait enter 1,   -- 1
    .test .belowMax 7,
    .increment,
    mutexRelease enter,
    mutexRelease exclusive,
    .ret true none,
    mutexRelease enter,      -- 7
    .goto 1 ]

def semaphoreBusywaitExcl : SemaphoreCode :=
  [ mutexBusywait exclusive 0,
    mutexBusywait enter 1,   -- 1
    .test .zero 5,
    mutexRelease enter,
    .ret true (some exclusive),
    mutexRelease enter,      -- 5
    .goto 1 ]

def semaphoreWaitsleep : SemaphoreCode :=
  mutexWaitsleep exclusive exclusiveWaiters exclusiveWaitersLock 0 12 ++
  [ mutexWait enter 12,      -- 12
    .test .belowMax 18,
    .increment,
    mutexRelease enter,
    mutexRelease exclusive,  -- 16
    .ret true none,
    mutexRelease enter ] ++  -- 18
  sleepOn waiters waitersLock 19 12

def semaphoreWaitsleepExcl : SemaphoreCode :=
  mutexWaitsleep exclusive exclusiveWaiters exclusiveWaitersLock 0 12 ++
  [ mutexWait enter 12,      -- 12
    .test .zero 16,
    mutexRelease enter,
    .ret true (some exclusive),
    mutexRelease enter ] ++  -- 16
  sleepOn waiters waitersLock 17 12

def semaphoreSignalSleep : SemaphoreCode :=
  [ mutexWait enter 0,
    .test .positive 6,
    .decrement,
    .wake waiters,           -- 3
    mutexRelease enter,
    .ret true none,
    mutexRelease enter,      -- 6
    .goto 0 ]

def semaphoreSignal : SemaphoreCode :=
  [ mutexWait enter 0,
    .test .positive 5,
    .decrement,
    mutexRelease enter,
    .ret true none,
    mutexRelease enter,      -- 5
    .goto 0 ]

def semaphoreTrysignal : SemaphoreCode :=
  [ mutexTry enter 6,
    .test .positive 5,
    .decrement,
    mutexRelease enter,
    .ret true none,
    mutexRelease enter,      -- 5
    .ret false none ]        -- 6

def semaphoreSignalExcl : SemaphoreCode :=
  [ mutexRelease exclusive,
    .ret true none ]

/-- Only the holder of exclusive access calls `semaphore_signal_excl`. -/
def semaphore : Program SemaphoreLock SemaphoreList SemaphoreOp where
  code
    | .trySlot => semaphoreTry
    | .tryExcl => semaphoreTryExcl
    | .wait => semaphoreWait
    | .waitExcl => semaphoreWaitExcl
    | .busywait => semaphoreBusywait
    | .busywaitExcl => semaphoreBusywaitExcl
    | .waitsleep => semaphoreWaitsleep
    | .waitsleepExcl => semaphoreWaitsleepExcl
    | .signal => semaphoreSignal
    | .signalSleep => semaphoreSignalSleep
    | .trysignal => semaphoreTrysignal
    | .signalExcl => semaphoreSignalExcl
  takes
    | .signalExcl => some exclusive
    | _ => none

abbrev SemaphoreState (ι : Type) : Type := Config ι SemaphoreLock SemaphoreList SemaphoreOp

/-- `SEMAPHORE_INITIALIZER(max, count)`, and no task in an operation. -/
def semaphoreInitializer {ι : Type} (max count : UInt32) : SemaphoreState ι :=
  { cnt := count, maxCnt := max }

/-! ## The outline -/

/-- What holds at each place. A task that knows something of the counter has `enter`, or the lock
`exclusive` without which the counter does not grow. -/
def semaphoreNotes : SemaphoreOp → List (Note SemaphoreLock SemaphoreList)
  | .trySlot =>
    [holds [], holds [exclusive], holds [enter, exclusive], knows [enter, exclusive] .belowMax,
      holds [enter, exclusive], holds [exclusive], holds [],
      holds [enter, exclusive], holds [exclusive], holds []]
  | .tryExcl =>
    [holds [], holds [exclusive], holds [enter, exclusive], knows [enter, exclusive] .zero,
      knows [exclusive] .zero, holds [enter, exclusive], holds [exclusive], holds []]
  | .wait | .busywait =>
    [holds [], holds [exclusive], holds [enter, exclusive], knows [enter, exclusive] .belowMax,
      holds [enter, exclusive], holds [exclusive], holds [],
      holds [enter, exclusive], holds [exclusive]]
  | .waitExcl | .busywaitExcl =>
    [holds [], holds [exclusive], holds [enter, exclusive], knows [enter, exclusive] .zero,
      knows [exclusive] .zero, holds [enter, exclusive], holds [exclusive]]
  | .waitsleep =>
    mutexWaitsleepNotes exclusive exclusiveWaiters exclusiveWaitersLock ++
    [holds [exclusive], holds [enter, exclusive], knows [enter, exclusive] .belowMax,
      holds [enter, exclusive], holds [exclusive], holds [], holds [enter, exclusive]] ++
    sleepOnNotes waiters waitersLock [exclusive]
  | .waitsleepExcl =>
    mutexWaitsleepNotes exclusive exclusiveWaiters exclusiveWaitersLock ++
    [holds [exclusive], holds [enter, exclusive], knows [enter, exclusive] .zero,
      knows [exclusive] .zero, holds [enter, exclusive]] ++
    sleepOnNotes waiters waitersLock [exclusive]
  | .signal | .trysignal =>
    [holds [], holds [enter], knows [enter] .positive, holds [enter], holds [],
      holds [enter], holds []]
  | .signalSleep =>
    [holds [], holds [enter], knows [enter] .positive, holds [enter], holds [enter], holds [],
      holds [enter], holds []]
  | .signalExcl => [holds [exclusive], holds []]

def semaphoreOutline : Outline SemaphoreLock SemaphoreList SemaphoreOp :=
  outline semaphoreNotes enter exclusive true

theorem semaphoreOutline_checked : semaphoreOutline.Checked semaphore := by decide +kernel

/-! ## Safety -/

section Safety

variable {ι : Type}

/-- The task has exclusive access: an acquisition returned, and it did not call
`semaphore_signal_excl` since. -/
def HasExcl (s : SemaphoreState ι) (i : ι) : Prop := (s.tasks i).kept exclusive = true

/-- The next step of the task takes a slot. -/
def TakesSlot (s : SemaphoreState ι) (i : ι) : Prop := s.instr semaphore i = some .increment

/-- The next step of the task returns with exclusive access. -/
def TakesExcl (s : SemaphoreState ι) (i : ι) : Prop :=
  s.instr semaphore i = some (.ret true (some exclusive))

structure Exclusive (s : SemaphoreState ι) (i : ι) : Prop where
  empty : s.cnt = 0
  alone : ∀ j, HasExcl s j → j = i
  noSlot : ∀ j, ¬ TakesSlot s j
  noExcl : ∀ j, ¬ TakesExcl s j

theorem takesSlot_holds {s : SemaphoreState ι} {i : ι} (h : semaphoreOutline.Inv semaphore s)
    (hi : TakesSlot s i) : semaphoreOutline.own s (i, false) exclusive = true := by
  obtain ⟨p, pc, hpos, hc⟩ := Config.instr_eq_some hi
  have hfit := semaphoreOutline_checked.fits p pc (h.places hpos).1 _ hc
  rw [Outline.own_at hpos]
  exact hfit.2.2.2

theorem takesExcl_holds {s : SemaphoreState ι} {i : ι} (h : semaphoreOutline.Inv semaphore s)
    (hi : TakesExcl s i) : semaphoreOutline.own s (i, false) exclusive = true := by
  obtain ⟨p, pc, hpos, hc⟩ := Config.instr_eq_some hi
  have hfit := semaphoreOutline_checked.fits p pc (h.places hpos).1 _ hc
  rw [Outline.own_at hpos, hfit.1]
  exact decide_eq_true rfl

theorem Exclusive.of_inv {s : SemaphoreState ι} {i : ι} (h : semaphoreOutline.Inv semaphore s)
    (hi : HasExcl s i) : Exclusive s i := by
  have hown : semaphoreOutline.own s (i, true) exclusive = true := hi
  refine ⟨h.keptZero rfl hi, fun j hj => ?_, fun j hj => ?_, fun j hj => ?_⟩
  · have hown' : semaphoreOutline.own s (j, true) exclusive = true := hj
    exact congrArg Prod.fst (h.owned.unique hown' hown)
  · cases h.owned.unique (takesSlot_holds h hj) hown
  · cases h.owned.unique (takesExcl_holds h hj) hown

variable [DecidableEq ι]

/-- **Semaphores are safe** in every interleaving of any number of tasks: the counter stays in its
range, no assertion fails, and exclusive access excludes everybody until the task calls
`semaphore_signal_excl`. -/
theorem semaphore_safe {max count : UInt32} (hle : count ≤ max) {s : SemaphoreState ι}
    (h : Reach (Step semaphore) (fun _ _ => True) (semaphoreInitializer max count) s) :
    s.maxCnt = max ∧ s.cnt ≤ max ∧ s.failed = false ∧
    ∀ i, HasExcl s i → Exclusive s i ∧
      ∀ e s', Step semaphore s e s' → e ≠ .call i .signalExcl → HasExcl s' i := by
  have hinv := Outline.Inv.of_reach semaphoreOutline_checked (.init hle) h
  have hmax : s.maxCnt = max :=
    h.invariant (I := fun s => s.maxCnt = max) rfl (fun hi _ hstep => hstep.maxCnt.trans hi)
  refine ⟨hmax, hmax ▸ hinv.le, hinv.failed, fun i hi => ⟨.of_inv hinv hi, ?_⟩⟩
  intro e s' hstep hne
  refine hstep.kept hi (fun p hp => ?_)
  have hop : p = .signalExcl := by cases p <;> first | rfl | cases hp
  exact hop ▸ hne

/-- One task tries for exclusive access of a semaphore with three slots. -/
def exclEvents : List (Event Bool SemaphoreOp) :=
  [.call true .tryExcl, .run true, .run true, .run true, .run true, .run true]

theorem semaphore_safe_tryExcl :
    Exclusive (exclEvents.foldl (Config.next semaphore) (semaphoreInitializer 3 0)) true := by
  have h : Reach (Step semaphore) (fun _ _ => True) (semaphoreInitializer 3 0)
      (exclEvents.foldl (Config.next semaphore) (semaphoreInitializer 3 0)) :=
    Reach.of_enabled (by decide)
  exact ((semaphore_safe (by decide) h).2.2.2 true (by rfl)).1

end Safety

end Hydrax.Sync
