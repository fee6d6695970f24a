import Hydrax.Machine
import Hydrax.Ring
import Hydrax.Transition

/-!
# The keyboard

The interrupt handler and the read function of `kernel/arch/x86/kbd.c`. The handler runs with
interrupts off, so it is one step. The reader can be interrupted between taking a slot of the
semaphore, loading a byte and counting it off in `kbd_input_buffer_len`.

* `typed` — the characters that were typed, from the scan codes,
* `kbd_input_exact` — none is lost, and the handler never waits, if the heads are in the buffer,
* `kbd_accesses_iff` — the heads that `kbd_init` leaves are not.
-/

namespace Hydrax.Io

/-- `CONFIG_KBD_INPUT_BUFFER_SIZE`. -/
def configKbdInputBufferSize : Nat := 1024

def kbdLeftShift : UInt8 := 128
def kbdRightShift : UInt8 := 129
def kbdAlt : UInt8 := 130

/-- The keymap `kbdus`. The codes after the last entry are undefined keys. -/
def kbdus (code : UInt8) : UInt8 :=
  [0, 27, 49, 50, 51, 52, 53, 54, 55, 56,
    57, 48, 45, 61, 8, 9, 113, 119, 101, 114,
    116, 121, 117, 105, 111, 112, 91, 93, 10, 0,
    97, 115, 100, 102, 103, 104, 106, 107, 108, 59,
    39, 96, kbdLeftShift, 92, 122, 120, 99, 118, 98, 110,
    109, 44, 46, 47, kbdRightShift, 42, kbdAlt, 32, 0, 0,
    0, 0, 0, 0, 0, 0, 0, 0, 0, 0,
    0, 0, 0, 0, 45, 0, 0, 0, 43].getD code.toNat 0

structure Keymask where
  leftShift : Bool := false
  rightShift : Bool := false
  alt : Bool := false

/-- Where the reader is in the loop of `kbd_read`. -/
inductive KbdReader where
  | ready
  /-- It took a slot of the semaphore. -/
  | taken
  /-- It loaded the byte and did not count it off yet. -/
  | loaded
  deriving DecidableEq

structure KbdState where
  keymap : UInt8 → UInt8
  keymask : Keymask
  /-- `kbd_input_buffer`, its two heads and `kbd_input_buffer_len`. -/
  buffer : Nat
  rhead : Nat
  whead : Nat
  len : Nat
  /-- The counters of `kbd_semaphore`. -/
  cnt : Nat
  maxCnt : Nat
  mem : Nat → UInt8
  reader : KbdReader := .ready
  /-- The handler came to `semaphore_signal_sleep` when it had to wait. -/
  blocked : Bool := false
  /-- The characters of the key presses that found room, those the reader got, and the addresses
  of both. -/
  accepted : List UInt8 := []
  delivered : List UInt8 := []
  accesses : List Nat := []

/-- A head after `head++` and the test against the end of the buffer. -/
def advanceHead (buffer head : Nat) : Nat :=
  if head + 1 ≥ buffer + configKbdInputBufferSize then buffer else head + 1

/-- `semaphore_signal_sleep(&kbd_semaphore)`. -/
def KbdState.signalSleep (s : KbdState) : KbdState :=
  if 0 < s.cnt then { s with cnt := s.cnt - 1 } else { s with blocked := true }

/-- A character goes into the buffer if there is room. -/
def KbdState.put (s : KbdState) (c : UInt8) : KbdState :=
  if s.len < configKbdInputBufferSize then
    KbdState.signalSleep
      { s with
        mem := Function.update s.mem s.whead c
        whead := advanceHead s.buffer s.whead
        len := s.len + 1
        accepted := s.accepted ++ [c]
        accesses := s.accesses ++ [s.whead] }
  else s

/-- A letter is turned into a capital while a shift key is down. -/
def Keymask.shift (m : Keymask) (c : UInt8) : UInt8 :=
  if (m.leftShift || m.rightShift) && 97 ≤ c && c ≤ 122 then c - (97 - 65) else c

def kbdInputHandler (s : KbdState) (scanCode : UInt8) : KbdState :=
  if scanCode &&& 0x80 ≠ 0 then
    let c := s.keymap (scanCode &&& 0x7F)
    if c = kbdLeftShift then { s with keymask := { s.keymask with leftShift := false } }
    else if c = kbdRightShift then { s with keymask := { s.keymask with rightShift := false } }
    else if c = kbdAlt then { s with keymask := { s.keymask with alt := false } }
    else s
  else
    let c := s.keymap scanCode
    if c = kbdLeftShift then { s with keymask := { s.keymask with leftShift := true } }
    else if c = kbdRightShift then { s with keymask := { s.keymask with rightShift := true } }
    else
      -- the case of the alt key has no break
      let m := if c = kbdAlt then { s.keymask with alt := true } else s.keymask
      KbdState.put { s with keymask := m } (m.shift c)

inductive KbdEvent where
  | interrupt (scanCode : UInt8)
  /-- The increment of `semaphore_waitsleep`. -/
  | take
  /-- The load of a byte and the advance of the head. -/
  | load
  /-- `kbd_input_buffer_len--`. -/
  | count

def KbdEvent.Enabled (s : KbdState) : KbdEvent → Prop
  | .interrupt _ => s.blocked = false
  | .take => s.reader = .ready ∧ s.cnt < s.maxCnt
  | .load => s.reader = .taken
  | .count => s.reader = .loaded

instance KbdEvent.decidableEnabled (s : KbdState) (e : KbdEvent) : Decidable (e.Enabled s) :=
  match e with
  | .interrupt _ => inferInstanceAs (Decidable (_ = _))
  | .take => inferInstanceAs (Decidable (_ ∧ _))
  | .load => inferInstanceAs (Decidable (_ = _))
  | .count => inferInstanceAs (Decidable (_ = _))

def KbdEvent.exec (s : KbdState) : KbdEvent → KbdState
  | .interrupt scanCode => kbdInputHandler s scanCode
  | .take => { s with cnt := s.cnt + 1, reader := .taken }
  | .load =>
    { s with
      rhead := advanceHead s.buffer s.rhead
      reader := .loaded
      delivered := s.delivered ++ [s.mem s.rhead]
      accesses := s.accesses ++ [s.rhead] }
  | .count => { s with len := decr s.len, reader := .ready }

def KbdStep (s : KbdState) (e : KbdEvent) (s' : KbdState) : Prop := e.Enabled s ∧ s' = e.exec s

/-- `kbd_init`, with the buffer at the address that `malloc` returned. The heads keep the value that
static variables have. -/
def kbdInit (buffer : Nat) (mem : Nat → UInt8) : KbdState :=
  { keymap := kbdus, keymask := {}, buffer := buffer, rhead := 0, whead := 0, len := 0,
    cnt := configKbdInputBufferSize, maxCnt := configKbdInputBufferSize, mem := mem }

/-- A press of a key that is not a shift key, in the keymap. -/
def IsInput (keymap : UInt8 → UInt8) (scanCode : UInt8) : Prop :=
  scanCode &&& 0x80 = 0 ∧ keymap scanCode ≠ kbdLeftShift ∧ keymap scanCode ≠ kbdRightShift

instance IsInput.decidable (keymap : UInt8 → UInt8) (scanCode : UInt8) :
    Decidable (IsInput keymap scanCode) :=
  inferInstanceAs (Decidable (_ ∧ _ ∧ _))

/-! ## What was typed -/

/-- Whether a key is held down after an interrupt: the last one of that key was a press. -/
def keyHeld (keymap : UInt8 → UInt8) (key scanCode : UInt8) (held : Bool) : Bool :=
  if keymap (scanCode &&& 0x7F) = key then scanCode &&& 0x80 = 0 else held

/-- The shift keys that are held down, and the characters typed so far. -/
structure Typing where
  left : Bool
  right : Bool
  chars : List UInt8

def Typing.char (t : Typing) (c : UInt8) : UInt8 :=
  if t.left || t.right then (Char.ofUInt8 c).toUpper.toUInt8 else c

/-- What an interrupt adds, given the value of `kbd_input_buffer_len` that it found. -/
def Typing.next (keymap : UInt8 → UInt8) (t : Typing) : KbdEvent × Nat → Typing
  | (.interrupt scanCode, len) =>
    { left := keyHeld keymap kbdLeftShift scanCode t.left
      right := keyHeld keymap kbdRightShift scanCode t.right
      chars :=
        if IsInput keymap scanCode ∧ len < configKbdInputBufferSize then
          t.chars ++ [t.char (keymap scanCode)]
        else t.chars }
  | _ => t

/-- **The characters of the key presses that found room**, from the scan codes and those lengths. -/
def typed (keymap : UInt8 → UInt8) (keymask : Keymask) (es : List (KbdEvent × Nat)) : List UInt8 :=
  (es.foldl (Typing.next keymap) ⟨keymask.leftShift, keymask.rightShift, []⟩).chars

theorem and_of_press {code : UInt8} (h : code &&& 0x80 = 0) : code &&& 0x7F = code := by
  have hall : ∀ i : Fin 256, (⟨⟨i⟩⟩ : UInt8) &&& 0x80 = 0 → (⟨⟨i⟩⟩ : UInt8) &&& 0x7F = ⟨⟨i⟩⟩ := by
    decide +kernel
  exact hall code.toBitVec.toFin h

theorem toUpper_eq (c : UInt8) :
    (Char.ofUInt8 c).toUpper.toUInt8 = if 97 ≤ c && c ≤ 122 then c - (97 - 65) else c := by
  have hall : ∀ i : Fin 256, (Char.ofUInt8 ⟨⟨i⟩⟩).toUpper.toUInt8 =
      if 97 ≤ (⟨⟨i⟩⟩ : UInt8) && (⟨⟨i⟩⟩ : UInt8) ≤ 122 then ⟨⟨i⟩⟩ - (97 - 65) else ⟨⟨i⟩⟩ := by
    decide +kernel
  exact hall c.toBitVec.toFin

theorem kbdInputHandler_cases (s : KbdState) (scanCode : UInt8) :
    ∃ m, (¬ IsInput s.keymap scanCode ∧ kbdInputHandler s scanCode = { s with keymask := m } ∨
        IsInput s.keymap scanCode ∧ kbdInputHandler s scanCode =
          KbdState.put { s with keymask := m } (s.keymask.shift (s.keymap scanCode))) ∧
      m.leftShift = keyHeld s.keymap kbdLeftShift scanCode s.keymask.leftShift ∧
      m.rightShift = keyHeld s.keymap kbdRightShift scanCode s.keymask.rightShift := by
  have hne : kbdLeftShift ≠ kbdRightShift := by decide
  unfold kbdInputHandler IsInput
  split
  next hrel =>
    have hno : ¬ (scanCode &&& 0x80 = 0 ∧ s.keymap scanCode ≠ kbdLeftShift ∧
        s.keymap scanCode ≠ kbdRightShift) := fun h => hrel h.1
    rw [keyHeld, keyHeld, decide_eq_false hrel]
    dsimp only
    split
    next hc => exact ⟨_, Or.inl ⟨hno, rfl⟩, rfl, by rw [hc, if_neg hne]⟩
    split
    next => exact ⟨_, Or.inl ⟨hno, rfl⟩, rfl, rfl⟩
    split
    next => exact ⟨_, Or.inl ⟨hno, rfl⟩, rfl, rfl⟩
    next => exact ⟨s.keymask, Or.inl ⟨hno, rfl⟩, rfl, rfl⟩
  next hpress =>
    have hpress := Decidable.not_not.mp hpress
    rw [keyHeld, keyHeld, and_of_press hpress, decide_eq_true hpress]
    dsimp only
    split
    next hc => exact ⟨_, Or.inl ⟨fun h => h.2.1 hc, rfl⟩, rfl, by rw [hc, if_neg hne]⟩
    split
    next hc => exact ⟨_, Or.inl ⟨fun h => h.2.2 hc, rfl⟩, rfl, rfl⟩
    next hl hr =>
      split
      next => exact ⟨_, Or.inr ⟨⟨hpress, hl, hr⟩, rfl⟩, rfl, rfl⟩
      next => exact ⟨_, Or.inr ⟨⟨hpress, hl, hr⟩, rfl⟩, rfl, rfl⟩

/-! ## Nothing is lost -/

/-- The keyboard with both heads at cell `k` of its buffer. -/
def kbdReady (keymap : UInt8 → UInt8) (keymask : Keymask) (buffer k : Nat) (mem : Nat → UInt8) :
    KbdState :=
  { keymap := keymap, keymask := keymask, buffer := buffer, rhead := buffer + k,
    whead := buffer + k, len := 0, cnt := configKbdInputBufferSize,
    maxCnt := configKbdInputBufferSize, mem := mem }

theorem bufferSize_pos : 0 < configKbdInputBufferSize := by decide

theorem advanceHead_mod (buffer i : Nat) :
    advanceHead buffer (buffer + i % configKbdInputBufferSize) =
      buffer + (i + 1) % configKbdInputBufferSize := by
  rw [← Ring.next_mod bufferSize_pos, advanceHead, Ring.next]
  split
  · rw [if_pos (by omega), Nat.add_zero]
  · rw [if_neg (by omega)]
    omega

/-- The slots the reader has taken without loading the byte. -/
def KbdReader.taking : KbdReader → Nat
  | .taken => 1
  | _ => 0

/-- The bytes the reader has loaded without counting them off. -/
def KbdReader.counting : KbdReader → Nat
  | .loaded => 1
  | _ => 0

/-- The state of the keyboard in terms of the characters accepted and delivered, if the heads were
at cell `k` at first. -/
structure KbdInv (buffer k : Nat) (s : KbdState) : Prop where
  start : s.buffer = buffer
  max : s.maxCnt = configKbdInputBufferSize
  write : s.whead = buffer + (k + s.accepted.length) % configKbdInputBufferSize
  read : s.rhead = buffer + (k + s.delivered.length) % configKbdInputBufferSize
  cnt_le : s.cnt ≤ configKbdInputBufferSize
  len_le : s.len ≤ configKbdInputBufferSize
  /-- The buffer length counts a byte until the reader counts it off, … -/
  len : s.delivered.length + s.len = s.accepted.length + s.reader.counting
  /-- … but the semaphore has its room already when the reader takes the slot. -/
  cnt : s.delivered.length + s.reader.taking + (configKbdInputBufferSize - s.cnt) =
    s.accepted.length
  /-- As if `k` bytes had gone through the buffer before. -/
  holds : Ring.Holds configKbdInputBufferSize (fun i => s.mem (buffer + i))
    (k + s.delivered.length) (List.replicate k 0 ++ s.accepted)
  order : s.delivered <+: s.accepted
  free : s.blocked = false

variable {keymap : UInt8 → UInt8} {keymask m : Keymask} {buffer k : Nat} {mem : Nat → UInt8}
  {s s' : KbdState} {e : KbdEvent} {c : UInt8}

theorem kbdInv_ready (hk : k < configKbdInputBufferSize) :
    KbdInv buffer k (kbdReady keymap keymask buffer k mem) where
  start := rfl
  max := rfl
  write := congrArg (buffer + ·) (Nat.mod_eq_of_lt hk).symm
  read := congrArg (buffer + ·) (Nat.mod_eq_of_lt hk).symm
  cnt_le := Nat.le_refl _
  len_le := Nat.zero_le _
  len := rfl
  cnt := by simp [kbdReady, KbdReader.taking]
  holds := by
    intro i hi x hx
    rw [List.getElem?_eq_none (by simpa [kbdReady] using hi)] at hx
    cases hx
  order := List.prefix_rfl
  free := rfl

theorem KbdInv.masked (h : KbdInv buffer k s) (m : Keymask) :
    KbdInv buffer k { s with keymask := m } :=
  { h with }

/-- **The handler does not wait**: the semaphore has room whenever the buffer has. -/
theorem KbdInv.cnt_pos (h : KbdInv buffer k s) (hlen : s.len < configKbdInputBufferSize) :
    0 < s.cnt := by
  have hl := h.len
  have hc := h.cnt
  have htaking : s.reader.counting + s.reader.taking ≤ 1 := by cases s.reader <;> decide
  omega

theorem KbdInv.put (h : KbdInv buffer k s) (c : UInt8) : KbdInv buffer k (s.put c) := by
  rw [KbdState.put]
  split
  next hlen =>
    have hcnt := h.cnt_pos hlen
    have hl := h.len
    have hc := h.cnt
    have hle := h.cnt_le
    rw [KbdState.signalSleep, if_pos hcnt]
    refine { h with write := ?_, cnt_le := ?_, len_le := hlen, len := ?_, cnt := ?_, holds := ?_,
                    order := ?_ }
    · show advanceHead s.buffer s.whead = _
      rw [h.start, h.write, advanceHead_mod, List.length_append, List.length_singleton,
        Nat.add_assoc]
    · show s.cnt - 1 ≤ _
      omega
    · simp only [List.length_append, List.length_singleton]
      omega
    · simp only [List.length_append, List.length_singleton]
      omega
    · show Ring.Holds _ (fun i => Function.update s.mem s.whead c (buffer + i)) _ _
      have hlen' : (List.replicate k (0 : UInt8) ++ s.accepted).length = k + s.accepted.length := by
        rw [List.length_append, List.length_replicate]
      have hput := h.holds.put (by omega) c
      rw [hlen', ← Ring.update_offset, ← h.write, List.append_assoc] at hput
      exact hput
    · exact h.order.trans (List.prefix_append _ _)
  next => exact h

theorem KbdInv.step (h : KbdInv buffer k s) (hstep : KbdStep s e s') : KbdInv buffer k s' := by
  obtain ⟨hen, rfl⟩ := hstep
  have hl := h.len
  have hc := h.cnt
  have hlen_le := h.len_le
  cases e with
  | interrupt scanCode =>
    obtain ⟨m, ⟨-, heq⟩ | ⟨-, heq⟩, -⟩ := kbdInputHandler_cases s scanCode
    · rw [KbdEvent.exec, heq]
      exact h.masked m
    · rw [KbdEvent.exec, heq]
      exact (h.masked m).put _
  | take =>
    obtain ⟨hready, hcnt⟩ := hen
    rw [h.max] at hcnt
    rw [hready] at hl hc
    refine { h with cnt_le := hcnt, len := hl, cnt := ?_ }
    simp only [KbdEvent.exec, KbdReader.taking] at hc ⊢
    omega
  | load =>
    have htaken : s.reader = .taken := hen
    rw [htaken] at hl hc
    simp only [KbdReader.taking, KbdReader.counting] at hl hc
    refine { h with read := ?_, len := ?_, cnt := ?_, holds := ?_, order := ?_ }
    · show advanceHead s.buffer s.rhead = _
      rw [h.start, h.read, advanceHead_mod, KbdEvent.exec, List.length_append,
        List.length_singleton, Nat.add_assoc]
    · simp only [KbdEvent.exec, KbdReader.counting, List.length_append, List.length_singleton]
      omega
    · simp only [KbdEvent.exec, KbdReader.taking, List.length_append, List.length_singleton]
      omega
    · refine h.holds.mono ?_
      simp only [KbdEvent.exec, List.length_append]
      omega
    · have hget := h.holds.get (by rw [List.length_append, List.length_replicate]; omega)
      rw [List.getElem?_append_right (by simp), List.length_replicate, Nat.add_sub_cancel_left,
        ← h.read] at hget
      exact Ring.snoc_of_next h.order hget
  | count =>
    have hloaded : s.reader = .loaded := hen
    rw [hloaded] at hl hc
    simp only [KbdReader.taking, KbdReader.counting] at hl hc
    -- the byte that was loaded is still counted, so the length does not wrap
    have hpos : 0 < s.len := by omega
    simp only [KbdEvent.exec, decr_of_pos hpos]
    refine { h with len_le := ?_, len := ?_, cnt := ?_ }
    · show s.len - 1 ≤ _
      omega
    · simp only [KbdReader.counting]
      omega
    · simp only [KbdReader.taking]
      omega

/-- A step, with the value of `kbd_input_buffer_len` that it found. -/
def KbdTimed (s : KbdState) (e : KbdEvent × Nat) (s' : KbdState) : Prop :=
  e.2 = s.len ∧ KbdStep s e.1 s'

/-- The handler has noted the shift keys that are down, and accepted what was typed. -/
structure KbdTyped (keymap : UInt8 → UInt8) (t : Typing) (s : KbdState) : Prop where
  map : s.keymap = keymap
  left : s.keymask.leftShift = t.left
  right : s.keymask.rightShift = t.right
  chars : s.accepted = t.chars

theorem KbdState.put_eq (s : KbdState) (c : UInt8) : (s.put c).keymap = s.keymap ∧
    (s.put c).keymask = s.keymask ∧ (s.put c).accepted =
      if s.len < configKbdInputBufferSize then s.accepted ++ [c] else s.accepted := by
  rw [KbdState.put]
  split
  · rw [KbdState.signalSleep]
    split <;> exact ⟨rfl, rfl, rfl⟩
  · exact ⟨rfl, rfl, rfl⟩

theorem KbdTyped.char {t : Typing} (h : KbdTyped keymap t s) (c : UInt8) :
    s.keymask.shift c = t.char c := by
  rw [Typing.char, toUpper_eq, Keymask.shift, h.left, h.right]
  cases t.left || t.right <;> simp

theorem KbdTyped.step {t : Typing} {e : KbdEvent × Nat} (h : KbdTyped keymap t s)
    (hstep : KbdTimed s e s') : KbdTyped keymap (t.next keymap e) s' := by
  obtain ⟨e, len⟩ := e
  obtain ⟨rfl, -, rfl⟩ := hstep
  cases e with
  | interrupt scanCode =>
    obtain rfl := h.map
    obtain ⟨m, hcases, hleft, hright⟩ := kbdInputHandler_cases s scanCode
    rw [h.left] at hleft
    rw [h.right] at hright
    rw [h.char] at hcases
    rw [KbdEvent.exec, Typing.next]
    rcases hcases with ⟨hno, heq⟩ | ⟨hin, heq⟩
    · rw [heq]
      refine ⟨rfl, hleft, hright, ?_⟩
      rw [if_neg (fun hand => hno hand.1)]
      exact h.chars
    · have hput := KbdState.put_eq { s with keymask := m } (t.char (s.keymap scanCode))
      rw [← heq] at hput
      obtain ⟨hmap, hmask, hchars⟩ := hput
      refine ⟨hmap, by rw [hmask, hleft], by rw [hmask, hright], hchars.trans ?_⟩
      simp only [hin, true_and, h.chars]
  | take => exact { h with }
  | load => exact { h with }
  | count => exact { h with }

/-- **Keyboard input is neither lost nor overwritten, and the handler never waits.** The characters
typed that found room are those the reader got, followed by those the semaphore still counts and the
one the reader has a slot for. -/
theorem kbd_input_exact (keymap : UInt8 → UInt8) (keymask : Keymask) (buffer k : Nat)
    (mem : Nat → UInt8) (hk : k < configKbdInputBufferSize) {s : KbdState}
    {es : List (KbdEvent × Nat)}
    (h : Path KbdTimed (kbdReady keymap keymask buffer k mem) es s) :
    (s.len < configKbdInputBufferSize → 0 < s.cnt) ∧ s.blocked = false ∧
      ∃ waiting, typed keymap keymask es = s.delivered ++ waiting ∧
        waiting.length = (s.maxCnt - s.cnt) + s.reader.taking := by
  obtain ⟨hinv, htyped⟩ := h.invariant
    (I := fun es s => KbdInv buffer k s ∧ KbdTyped keymap
      (es.foldl (Typing.next keymap) ⟨keymask.leftShift, keymask.rightShift, []⟩) s)
    ⟨kbdInv_ready hk, rfl, rfl, rfl, rfl⟩
    (fun hI hstep => ⟨hI.1.step hstep.2, by
      rw [List.foldl_append]
      exact hI.2.step hstep⟩)
  refine ⟨hinv.cnt_pos, hinv.free, ?_⟩
  obtain ⟨waiting, hwaiting⟩ := hinv.order
  have hcnt := hinv.cnt
  rw [← hwaiting, List.length_append] at hcnt
  rw [hinv.max, typed, ← htyped.chars]
  exact ⟨waiting, hwaiting.symm, by omega⟩

/-- A letter is read while the next one is typed, as a capital. -/
theorem kbd_input_exact_overlap :
    ∃ es s, Path KbdTimed (kbdReady kbdus {} 4096 1023 (fun _ => 0)) es s ∧
      es.map Prod.fst = [.interrupt 30, .take, .interrupt 42, .interrupt 31, .load] ∧
      typed kbdus {} es = [97, 83] ∧ s.delivered = [97] ∧
      (s.len < configKbdInputBufferSize → 0 < s.cnt) ∧ s.blocked = false ∧
      ∃ waiting, typed kbdus {} es = s.delivered ++ waiting ∧
        waiting.length = (s.maxCnt - s.cnt) + s.reader.taking := by
  have hrun : Path KbdTimed (kbdReady kbdus {} 4096 1023 (fun _ => 0)) _ _ :=
    .of_legal [(.interrupt 30, 0), (.take, 1), (.interrupt 42, 1), (.interrupt 31, 1), (.load, 2)]
      (show ∀ s e, e.2 = s.len ∧ e.1.Enabled s → KbdTimed s e (e.1.exec s) from
        fun _ _ h => ⟨h.1, h.2, rfl⟩) .start (by decide)
  exact ⟨_, _, hrun, rfl, by decide, by decide, kbd_input_exact _ _ _ _ _ (by decide) hrun⟩

/-! ## The heads after initialisation -/

theorem KbdState.put_accesses (s : KbdState) (c : UInt8) : s.accesses <+: (s.put c).accesses := by
  rw [KbdState.put]
  split
  · rw [KbdState.signalSleep]
    split <;> exact List.prefix_append _ _
  · exact List.prefix_rfl

theorem KbdStep.accesses (h : KbdStep s e s') : s.accesses <+: s'.accesses := by
  obtain ⟨-, rfl⟩ := h
  cases e with
  | interrupt scanCode =>
    obtain ⟨m, ⟨-, heq⟩ | ⟨-, heq⟩, -⟩ := kbdInputHandler_cases s scanCode
    · have hsame : (kbdInputHandler s scanCode).accesses = s.accesses := by rw [heq]
      exact hsame ▸ List.prefix_rfl
    · rw [KbdEvent.exec, heq]
      exact KbdState.put_accesses { s with keymask := m } _
  | take => exact List.prefix_rfl
  | load => exact List.prefix_append _ _
  | count => exact List.prefix_rfl

/-- Nothing was typed since `kbd_init`. -/
structure KbdUnused (s : KbdState) : Prop where
  keymap : s.keymap = kbdus
  whead : s.whead = 0
  len : s.len = 0
  cnt : s.cnt = s.maxCnt
  reader : s.reader = .ready
  accesses : s.accesses = []

theorem KbdUnused.put (h : KbdUnused s) (c : UInt8) : 0 ∈ (s.put c).accesses := by
  rw [KbdState.put, if_pos (by rw [h.len]; exact bufferSize_pos), KbdState.signalSleep]
  split
  all_goals
    simp only [h.whead]
    exact List.mem_append_right _ (List.mem_singleton_self 0)

/-- What was typed, and whether address 0 was written. -/
def KbdHistory (es : List KbdEvent) (s : KbdState) : Prop :=
  (∀ code, .interrupt code ∈ es → ¬ IsInput kbdus code) ∧ KbdUnused s ∨
    (∃ code, .interrupt code ∈ es ∧ IsInput kbdus code) ∧ 0 ∈ s.accesses

theorem KbdUnused.step (h : KbdUnused s) (hstep : KbdStep s e s') :
    (∀ code, e = .interrupt code → ¬ IsInput kbdus code) ∧ KbdUnused s' ∨
      (∃ code, e = .interrupt code ∧ IsInput kbdus code) ∧ 0 ∈ s'.accesses := by
  obtain ⟨hen, rfl⟩ := hstep
  cases e with
  | interrupt scanCode =>
    obtain ⟨m, ⟨hno, heq⟩ | ⟨hin, heq⟩, -⟩ := kbdInputHandler_cases s scanCode
    · refine Or.inl ⟨fun code hcode => ?_, ?_⟩
      · cases hcode
        exact h.keymap ▸ hno
      · rw [KbdEvent.exec, heq]
        exact { h with }
    · refine Or.inr ⟨⟨scanCode, rfl, h.keymap ▸ hin⟩, ?_⟩
      have hmasked : KbdUnused { s with keymask := m } := { h with }
      rw [KbdEvent.exec, heq]
      exact hmasked.put _
  | take => exact absurd hen.2 (by rw [h.cnt]; exact Nat.lt_irrefl _)
  | load => exact absurd (h.reader.symm.trans hen) (by decide)
  | count => exact absurd (h.reader.symm.trans hen) (by decide)

theorem KbdHistory.step {es : List KbdEvent} (h : KbdHistory es s) (hstep : KbdStep s e s') :
    KbdHistory (es ++ [e]) s' := by
  rcases h with ⟨hno, hunused⟩ | ⟨⟨code, hmem, hin⟩, hzero⟩
  · rcases hunused.step hstep with ⟨hno', hunused'⟩ | ⟨⟨code, rfl, hin⟩, hzero⟩
    · refine Or.inl ⟨fun code hcode => ?_, hunused'⟩
      rcases List.mem_append.mp hcode with hcode | hcode
      · exact hno code hcode
      · exact hno' code (List.mem_singleton.mp hcode).symm
    · exact Or.inr ⟨⟨code, List.mem_append_right _ (List.mem_singleton_self _), hin⟩, hzero⟩
  · exact Or.inr ⟨⟨code, List.mem_append_left _ hmem, hin⟩, hstep.accesses.subset hzero⟩

/-- **All accesses to the keyboard buffer are inside it** exactly in the runs in which no key but
the shift keys is pressed. -/
theorem kbd_accesses_iff (buffer : Nat) (mem : Nat → UInt8) (hbuffer : buffer ≠ 0) {s : KbdState}
    {es : List KbdEvent} (h : Path KbdStep (kbdInit buffer mem) es s) :
    (∀ x ∈ s.accesses, buffer ≤ x ∧ x < buffer + configKbdInputBufferSize) ↔
      ∀ code, .interrupt code ∈ es → ¬ IsInput kbdus code := by
  have hrun : KbdHistory es s :=
    h.invariant (I := KbdHistory)
      (Or.inl ⟨fun _ hcode => absurd hcode List.not_mem_nil, rfl, rfl, rfl, rfl, rfl, rfl⟩)
      (fun hI hstep => hI.step hstep)
  rcases hrun with ⟨hno, hunused⟩ | ⟨⟨code, hmem, hin⟩, hzero⟩
  · refine iff_of_true (fun x hx => ?_) hno
    rw [hunused.accesses] at hx
    cases hx
  · refine iff_of_false (fun hall => ?_) (fun hno => hno code hmem hin)
    have := (hall 0 hzero).1
    omega

theorem kbd_accesses_iff_shift :
    ∃ es s, Path KbdStep (kbdInit 4096 (fun _ => 0)) es s ∧ .interrupt 42 ∈ es ∧
      ((∀ x ∈ s.accesses, 4096 ≤ x ∧ x < 4096 + configKbdInputBufferSize) ↔
        ∀ code, .interrupt code ∈ es → ¬ IsInput kbdus code) := by
  have hrun : Path KbdStep (kbdInit 4096 (fun _ => 0)) [.interrupt 42] _ := .step .start ⟨rfl, rfl⟩
  exact ⟨_, _, hrun, List.mem_singleton_self _, kbd_accesses_iff _ _ (by decide) hrun⟩

/-- The first letter is stored at address 0. -/
theorem kbd_access_outside :
    ∃ es s, Path KbdStep (kbdInit 4096 (fun _ => 0)) es s ∧
      ¬ ∀ x ∈ s.accesses, 4096 ≤ x ∧ x < 4096 + configKbdInputBufferSize := by
  have hrun : Path KbdStep (kbdInit 4096 (fun _ => 0)) [.interrupt 30] _ := .step .start ⟨rfl, rfl⟩
  exact ⟨_, _, hrun, by decide⟩

end Hydrax.Io
