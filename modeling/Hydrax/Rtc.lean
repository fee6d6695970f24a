import Hydrax.Machine

/-!
# The clock

`rtc_read` of `arch/x86/rtc.c`, which reads the date and the time from the registers of the CMOS and
turns them into seconds. The registers hold binary or decimal digits, and count 12 or 24 hours, as
register B says.

`unixTime` is the number of seconds since the beginning of 1970. The source counts every year with
365 days, takes the length of one month for that of all months before it, and counts the current
day. The three errors cancel in the Januaries of four years (`rtcRead_eq_iff`).
-/

namespace Hydrax.Rtc

/-- What `cmos_readb` returns for each register, while the contents are stable. -/
abbrev Cmos := Nat → Nat

/-- `YEAR`. -/
def baseYear : Nat := 2014

def days : List Nat := [31, 28, 31, 30, 31, 30, 31, 31, 30, 31, 30, 31]

structure Registers where
  second : Nat
  minute : Nat
  hour : Nat
  day : Nat
  month : Nat
  year : Nat
  century : Nat
  deriving DecidableEq

/-- "while (get_update_in_progress_flag())". The flag does not go away in stable contents. -/
def waitUpdate (cmos : Cmos) : Except Stop Unit :=
  if cmos 0xA &&& 0x80 ≠ 0 then .error .hang else .ok ()

/-- The reads. Without a century register `century` stays as it is. -/
def readRegisters (cmos : Cmos) (centuryRegister century : Nat) : Registers where
  second := cmos 0x00
  minute := cmos 0x02
  hour := cmos 0x04
  day := cmos 0x07
  month := cmos 0x08
  year := cmos 0x09
  century := if centuryRegister ≠ 0 then cmos centuryRegister else century

/-- "read registers until you get the same values twice in a row". -/
def readStable (cmos : Cmos) (centuryRegister : Nat) : Nat → Registers → Except Stop Registers
  | 0, _ => .error .hang
  | fuel + 1, last => do
      waitUpdate cmos
      let r := readRegisters cmos centuryRegister last.century
      if r ≠ last then readStable cmos centuryRegister fuel r else return r

/-- The number that a byte of two decimal digits stands for. -/
def fromBcd (b : Nat) : Nat := (b &&& 0x0F) + b / 16 * 10

/-- "Convert BCD to binary values if necessary". -/
def convertBcd (registerB centuryRegister : Nat) (r : Registers) : Registers :=
  if registerB &&& 0x04 = 0 then
    { second := fromBcd r.second
      minute := fromBcd r.minute
      hour := ((r.hour &&& 0x0F) + (r.hour &&& 0x70) / 16 * 10) ||| (r.hour &&& 0x80)
      day := fromBcd r.day
      month := fromBcd r.month
      year := fromBcd r.year
      century := if centuryRegister ≠ 0 then fromBcd r.century else r.century }
  else r

/-- "Convert 12 hour clock to 24 hour clock if necessary". -/
def convertHour (registerB hour : Nat) : Nat :=
  if registerB &&& 0x02 = 0 ∧ hour &&& 0x80 ≠ 0 then ((hour &&& 0x7F) + 12) % 24 else hour

/-- "Calculate the full (4-digit) year". -/
def fullYear (centuryRegister : Nat) (r : Registers) : Nat :=
  if centuryRegister ≠ 0 then r.year + r.century * 100
  else
    let year := r.year + baseYear / 100 * 100
    if year < baseYear then year + 100 else year

/-- `rtc_read`: what is stored in `*time`. The variable `century` is not initialised. -/
def rtcRead (cmos : Cmos) (centuryRegister century : Nat) : Except Stop Nat := do
  waitUpdate cmos
  let r ← readStable cmos centuryRegister 2 (readRegisters cmos centuryRegister century)
  let registerB := cmos 0x0B
  let r := convertBcd registerB centuryRegister r
  let hour := convertHour registerB r.hour
  let year := fullYear centuryRegister r
  match days[r.month]? with
  | none => .error .outOfBounds
  | some length =>
    let time := (year + (wordSize - 1970)) * 365 * 24 * 60 * 60 % wordSize
    let time := (time + length * 24 * 60 * 60) % wordSize
    let time := (time + r.day * 24 * 60 * 60) % wordSize
    let time := (time + hour * 60 * 60) % wordSize
    let time := (time + r.minute * 60) % wordSize
    return (time + r.second) % wordSize

/-! ## Dates -/

def isLeap (year : Nat) : Prop := year % 4 = 0 ∧ (year % 100 ≠ 0 ∨ year % 400 = 0)

instance isLeap.decidable (year : Nat) : Decidable (isLeap year) :=
  inferInstanceAs (Decidable (_ ∧ _))

def yearLength (year : Nat) : Nat := if isLeap year then 366 else 365

/-- The length of a month, with January as month `1`. -/
def monthLength (year month : Nat) : Nat :=
  if month = 2 then if isLeap year then 29 else 28
  else if month = 4 ∨ month = 6 ∨ month = 9 ∨ month = 11 then 30
  else 31

/-- The days of the first `n` years from 1970 on. -/
def daysOfYears : Nat → Nat
  | 0 => 0
  | n + 1 => daysOfYears n + yearLength (1970 + n)

/-- The days of the first `n` months of a year. -/
def daysOfMonths (year : Nat) : Nat → Nat
  | 0 => 0
  | n + 1 => daysOfMonths year n + monthLength year (n + 1)

/-- A date and time that exists, between 2014 and 2099. -/
structure Moment where
  year : Nat
  month : Nat
  day : Nat
  hour : Nat
  minute : Nat
  second : Nat
  year_ge : 2014 ≤ year
  year_le : year ≤ 2099
  month_ge : 1 ≤ month
  month_le : month ≤ 12
  day_ge : 1 ≤ day
  day_le : day ≤ monthLength year month
  hour_lt : hour < 24
  minute_lt : minute < 60
  second_lt : second < 60

/-- **The seconds since the beginning of 1970.** -/
def Moment.unixTime (m : Moment) : Nat :=
  (daysOfYears (m.year - 1970) + daysOfMonths m.year (m.month - 1) + (m.day - 1)) * 86400 +
    m.hour * 3600 + m.minute * 60 + m.second

/-- How register B says that numbers and hours are stored. -/
structure Format where
  binary : Bool
  hours24 : Bool

def Format.byte (f : Format) (n : Nat) : Nat := if f.binary then n else n / 10 * 16 + n % 10

/-- The hour in a byte. A 12-hour clock goes from 12 to 11, and has a flag for the afternoon. -/
def Format.hourByte (f : Format) (hour : Nat) : Nat :=
  if f.hours24 then f.byte hour
  else
    f.byte (if hour % 12 = 0 then 12 else hour % 12) + if 12 ≤ hour then 0x80 else 0

structure Encodes (cmos : Cmos) (f : Format) (m : Moment) : Prop where
  idle : cmos 0x0A &&& 0x80 = 0
  binary : f.binary = decide (cmos 0x0B &&& 0x04 ≠ 0)
  hours24 : f.hours24 = decide (cmos 0x0B &&& 0x02 ≠ 0)
  second : cmos 0x00 = f.byte m.second
  minute : cmos 0x02 = f.byte m.minute
  hour : cmos 0x04 = f.hourByte m.hour
  day : cmos 0x07 = f.byte m.day
  month : cmos 0x08 = f.byte m.month
  year : cmos 0x09 = f.byte (m.year % 100)

/-! ## Decoding -/

theorem fromBcd_byte : ∀ n < 100, fromBcd (n / 10 * 16 + n % 10) = n := by decide

/-- The hour that is found: noon and midnight of a 12-hour clock are mixed up. -/
def Format.hourRead (f : Format) (hour : Nat) : Nat :=
  if f.hours24 = false ∧ hour % 12 = 0 then 12 - hour else hour

theorem hour_of_bcd : ∀ hour < 24, ∀ hours24 : Bool,
    let b := Format.hourByte ⟨false, hours24⟩ hour
    let h := ((b &&& 0x0F) + (b &&& 0x70) / 16 * 10) ||| (b &&& 0x80)
    (if hours24 = false ∧ h &&& 0x80 ≠ 0 then ((h &&& 0x7F) + 12) % 24 else h) =
      Format.hourRead ⟨false, hours24⟩ hour := by decide

theorem hour_of_binary : ∀ hour < 24, ∀ hours24 : Bool,
    let h := Format.hourByte ⟨true, hours24⟩ hour
    (if hours24 = false ∧ h &&& 0x80 ≠ 0 then ((h &&& 0x7F) + 12) % 24 else h) =
      Format.hourRead ⟨true, hours24⟩ hour := by decide

section Decoding

variable {cmos : Cmos} {f : Format} {m : Moment}

theorem Encodes.readStable (h : Encodes cmos f m) (century : Nat) :
    Rtc.readStable cmos 0 2 (readRegisters cmos 0 century) =
      .ok (readRegisters cmos 0 century) := by
  have hwait : waitUpdate cmos = .ok () := if_neg (not_not.mpr h.idle)
  rw [Rtc.readStable, hwait, Loop.ok_bind]
  exact if_neg (not_not.mpr rfl)

theorem Moment.day_lt (m : Moment) : m.day < 100 := by
  have hle := m.day_le
  rw [monthLength] at hle
  split at hle
  · split at hle <;> omega
  · split at hle <;> omega

structure Decoded (r : Registers) (m : Moment) : Prop where
  second : r.second = m.second
  minute : r.minute = m.minute
  day : r.day = m.day
  month : r.month = m.month
  year : r.year = m.year % 100

theorem Encodes.decoded (h : Encodes cmos f m) (century : Nat) :
    Decoded (convertBcd (cmos 0x0B) 0 (readRegisters cmos 0 century)) m ∧
      convertHour (cmos 0x0B) (convertBcd (cmos 0x0B) 0 (readRegisters cmos 0 century)).hour =
        f.hourRead m.hour := by
  obtain ⟨binary, hours24⟩ := f
  have hday := m.day_lt
  have hmonth := m.month_le
  have hminute := m.minute_lt
  have hsecond := m.second_lt
  have hyear : m.year % 100 < 100 := Nat.mod_lt _ (by decide)
  have htwelve : (cmos 0x0B &&& 0x02 = 0) = (hours24 = false) := by
    have hflag := h.hours24
    dsimp only at hflag
    rw [hflag, decide_eq_false_iff_not, not_not]
  have hflag := h.binary
  dsimp only at hflag
  cases binary with
  | false =>
    have hbcd : cmos 0x0B &&& 0x04 = 0 := by
      rw [eq_comm, decide_eq_false_iff_not, not_not] at hflag
      exact hflag
    rw [convertBcd, if_pos hbcd]
    refine ⟨⟨?_, ?_, ?_, ?_, ?_⟩, ?_⟩
    · exact (congrArg fromBcd h.second).trans (fromBcd_byte _ (by omega))
    · exact (congrArg fromBcd h.minute).trans (fromBcd_byte _ (by omega))
    · exact (congrArg fromBcd h.day).trans (fromBcd_byte _ hday)
    · exact (congrArg fromBcd h.month).trans (fromBcd_byte _ (by omega))
    · exact (congrArg fromBcd h.year).trans (fromBcd_byte _ hyear)
    · have hhour := hour_of_bcd m.hour m.hour_lt hours24
      rw [← h.hour] at hhour
      simp only [convertHour, htwelve]
      exact hhour
  | true =>
    have hbin : ¬ cmos 0x0B &&& 0x04 = 0 := by
      rw [eq_comm, decide_eq_true_eq] at hflag
      exact hflag
    rw [convertBcd, if_neg hbin]
    refine ⟨⟨h.second, h.minute, h.day, h.month, h.year⟩, ?_⟩
    have hhour := hour_of_binary m.hour m.hour_lt hours24
    rw [← h.hour] at hhour
    simp only [convertHour, htwelve]
    exact hhour

theorem Decoded.fullYear {r : Registers} (h : Decoded r m) : Rtc.fullYear 0 r = m.year := by
  have hge := m.year_ge
  have hle := m.year_le
  have hyear : r.year + baseYear / 100 * 100 = m.year := by
    rw [h.year, baseYear]
    omega
  rw [Rtc.fullYear, if_neg (not_not.mpr rfl), hyear]
  exact if_neg (Nat.not_lt.mpr hge)

end Decoding

/-! ## Counting days -/

theorem daysOfYears_eq {n : Nat} (hn : n ≤ 130) : daysOfYears n = n * 365 + (n + 1) / 4 := by
  induction n with
  | zero => rfl
  | succ n ih =>
    rw [daysOfYears, ih (by omega), yearLength]
    split
    next hleap =>
      obtain ⟨hfour, -⟩ := hleap
      omega
    next hleap =>
      have hfour : (1970 + n) % 4 ≠ 0 := by
        intro hfour
        exact hleap ⟨hfour, by omega⟩
      omega

theorem daysOfMonths_ge (year n : Nat) : 31 ≤ daysOfMonths year (n + 1) := by
  induction n with
  | zero => exact Nat.le_refl 31
  | succ n ih => exact Nat.le_trans ih (Nat.le_add_right _ _)

theorem days_le : ∀ length ∈ days, length ≤ 31 := by decide

/-- The days that are counted, if the month is in the table. -/
def Moment.daysCounted (m : Moment) (length : Nat) : Nat :=
  (m.year - 1970) * 365 + length + m.day

theorem Moment.daysCounted_le (m : Moment) {length : Nat} (h : length ≤ 31) :
    m.daysCounted length ≤ 47215 := by
  have hday := m.day_lt
  have hyear := m.year_le
  rw [Moment.daysCounted]
  omega

/-- The errors cancel in January, when there have been as many leap years as February has days, and
one more. -/
theorem Moment.daysCounted_eq_iff (m : Moment) {length : Nat} (h : days[m.month]? = some length) :
    m.daysCounted length =
        daysOfYears (m.year - 1970) + daysOfMonths m.year (m.month - 1) + (m.day - 1) ↔
      m.month = 1 ∧ 2085 ≤ m.year ∧ m.year ≤ 2088 := by
  have hge := m.year_ge
  have hle := m.year_le
  have hday := m.day_ge
  rw [Moment.daysCounted, daysOfYears_eq (by omega)]
  by_cases hjan : m.month = 1
  · have hlength : length = 28 := by
      rw [hjan] at h
      cases h
      rfl
    rw [hjan, show daysOfMonths m.year (1 - 1) = 0 from rfl, hlength]
    omega
  · -- from February on, the months before it alone are too long
    have hmonth := m.month_ge
    have hlong := days_le length (List.mem_of_getElem? h)
    obtain ⟨n, hn⟩ : ∃ n, m.month - 1 = n + 1 := ⟨m.month - 2, by omega⟩
    have hbefore := daysOfMonths_ge m.year n
    rw [hn]
    omega

/-! ## The time -/

section Time

variable {cmos : Cmos} {f : Format} {m : Moment}

theorem Encodes.rtcRead_eq (h : Encodes cmos f m) (century : Nat) :
    rtcRead cmos 0 century = match days[m.month]? with
      | none => .error .outOfBounds
      | some length => .ok (m.daysCounted length * 86400 + f.hourRead m.hour * 3600 +
          m.minute * 60 + m.second) := by
  have hwait : waitUpdate cmos = .ok () := if_neg (not_not.mpr h.idle)
  obtain ⟨hdecoded, hhour⟩ := h.decoded century
  rw [rtcRead, hwait, Loop.ok_bind, h.readStable, Loop.ok_bind]
  dsimp only
  rw [hhour, hdecoded.fullYear, hdecoded.month]
  cases hlength : days[m.month]? with
  | none => rfl
  | some length =>
    have hcount := m.daysCounted_le (days_le length (List.mem_of_getElem? hlength))
    have hlt : f.hourRead m.hour < 24 := by
      have := m.hour_lt
      rw [Format.hourRead]
      split <;> omega
    have hminute := m.minute_lt
    have hsecond := m.second_lt
    have hge := m.year_ge
    dsimp only
    rw [Moment.daysCounted] at hcount ⊢
    rw [hdecoded.day, hdecoded.minute, hdecoded.second]
    refine congrArg Except.ok ?_
    simp only [wordSize]
    omega

/-- **When the clock yields Unix time**: in January, from 2085 to 2088, and not at noon or midnight
of a 12-hour clock. -/
theorem rtcRead_eq_iff (h : Encodes cmos f m) (century : Nat) :
    rtcRead cmos 0 century = .ok m.unixTime ↔
      m.month = 1 ∧ 2085 ≤ m.year ∧ m.year ≤ 2088 ∧ (f.hours24 = true ∨ m.hour % 12 ≠ 0) := by
  rw [h.rtcRead_eq]
  cases hlength : days[m.month]? with
  | none =>
    refine iff_of_false (by simp) ?_
    rintro ⟨hjan, -⟩
    rw [hjan] at hlength
    cases hlength
  | some length =>
    have hiff := m.daysCounted_eq_iff hlength
    have hhour := m.hour_lt
    dsimp only
    rw [Except.ok.injEq, Moment.unixTime]
    have hread : f.hourRead m.hour = m.hour ↔ f.hours24 = true ∨ m.hour % 12 ≠ 0 := by
      rw [Format.hourRead]
      cases f.hours24 with
      | true => simp
      | false =>
        simp only [true_and, Bool.false_eq_true, false_or]
        split <;> omega
    -- a wrong hour is twelve hours off, and no number of days makes up for that
    have hoff : f.hourRead m.hour = m.hour ∨ f.hourRead m.hour + 12 = m.hour ∨
        f.hourRead m.hour = m.hour + 12 := by
      rw [Format.hourRead]
      split <;> omega
    rw [← and_assoc, ← and_assoc, and_assoc (a := m.month = 1), ← hiff, ← hread]
    omega

end Time

def registersOf (m : Moment) : Cmos
  | 0x00 => m.second
  | 0x02 => m.minute
  | 0x04 => m.hour
  | 0x07 => m.day
  | 0x08 => m.month
  | 0x09 => m.year % 100
  | 0x0B => 0x06
  | _ => 0

theorem registersOf_encodes (m : Moment) : Encodes (registersOf m) ⟨true, true⟩ m :=
  ⟨(by decide : 0 &&& 0x80 = 0), (by decide : true = decide (6 &&& 4 ≠ 0)),
    (by decide : true = decide (6 &&& 2 ≠ 0)), rfl, rfl, rfl, rfl, rfl, rfl⟩

def midnight (year month day : Nat) (hyear : 2014 ≤ year ∧ year ≤ 2099)
    (hmonth : 1 ≤ month ∧ month ≤ 12) (hday : 1 ≤ day ∧ day ≤ monthLength year month) : Moment where
  year := year
  month := month
  day := day
  hour := 0
  minute := 0
  second := 0
  year_ge := hyear.1
  year_le := hyear.2
  month_ge := hmonth.1
  month_le := hmonth.2
  day_ge := hday.1
  day_le := hday.2
  hour_lt := by decide
  minute_lt := by decide
  second_lt := by decide

/-- New Year of 2085. -/
theorem rtcRead_newYear : ∃ m : Moment, m.year = 2085 ∧ m.month = 1 ∧ m.day = 1 ∧
    rtcRead (registersOf m) 0 0 = .ok m.unixTime := by
  refine ⟨midnight 2085 1 1 (by decide) (by decide) (by decide), rfl, rfl, rfl, ?_⟩
  exact (rtcRead_eq_iff (registersOf_encodes _) 0).mpr ⟨rfl, by decide, by decide, Or.inl rfl⟩

/-- **A clock that goes back**: the last of January gives more seconds than the day after it, and
neither number is right. In December the table of months is read past its end. -/
theorem rtcRead_goes_back : ∃ m m' d : Moment,
    m.unixTime < m'.unixTime ∧
    rtcRead (registersOf m) 0 0 = .ok 1424217600 ∧ m.unixTime = 1422662400 ∧
    rtcRead (registersOf m') 0 0 = .ok 1421884800 ∧ m'.unixTime = 1422748800 ∧
    d.month = 12 ∧ rtcRead (registersOf d) 0 0 = .error .outOfBounds :=
  ⟨midnight 2015 1 31 (by decide) (by decide) (by decide),
    midnight 2015 2 1 (by decide) (by decide) (by decide),
    midnight 2015 12 1 (by decide) (by decide) (by decide),
    by decide, rfl, by decide, rfl, by decide, rfl, rfl⟩

end Hydrax.Rtc
