/-
The CMOS clock of a PC (`devices::legacy::rtc_cmos`): the wall clock of the host, latched, in the
binary-coded registers a guest selects at one port and reads at another.

Instants of the host's monotonic clock are nanoseconds; its wall clock is seconds from 1970.

* `civilDate_eq`, `civil_dates_and_registers` — the date of a day number, by machine arithmetic, is
  the date whose count the number is, and the registers show the date, time and weekday of the
  latch;
* `RtcCmos.reads_of_one_instant`, `RtcCmos.reads_torn` — exactly when reads of the registers are of
  one instant, and that they need not be.
-/
import HviVmm.Calendar
import Mathlib.Logic.Function.Basic

open Calendar

/-! ### The host's wall clock, broken down -/

def toBcd (v : UInt8) : UInt8 := ((v / 10) <<< 4) ||| (v % 10)

/-- Days since the epoch to a civil date. -/
def civilFromDays (z : Int64) : Int64 × UInt32 × UInt32 :=
  let z := z + 719468
  let era := (if z ≥ 0 then z else z - 146096) / 146097
  let doe := (z - era * 146097).toUInt64
  let yoe := (doe - doe / 1460 + doe / 36524 - doe / 146096) / 365
  let y := yoe.toInt64 + era * 400
  let doy := doe - (365 * yoe + yoe / 4 - yoe / 100)
  let mp := (5 * doy + 2) / 153
  let d := (doy - (153 * mp + 2) / 5 + 1).toUInt32
  let m := (if mp < 10 then mp + 3 else mp - 9).toUInt32
  (if m ≤ 2 then y + 1 else y, m, d)

structure Wallclock where
  sec : UInt8
  min : UInt8
  hour : UInt8
  weekday : UInt8
  day : UInt8
  month : UInt8
  year : UInt8
  century : UInt8
  deriving DecidableEq, Repr

/-- The host's wall clock as UTC.  A clock before 1970 counts as 1970; the seconds, days and time of
day are in the range of an i64 whatever the clock says. -/
def nowUtc (host : ℤ) : Wallclock :=
  let secs := if host < 0 then 0 else host
  let days := secs / 86400
  let tod := secs % 86400
  let (y, m, d) := civilFromDays (Int64.ofInt days)
  { sec := UInt8.ofInt (tod % 60)
    min := UInt8.ofInt (tod / 60 % 60)
    hour := UInt8.ofInt (tod / 3600)
    weekday := UInt8.ofInt ((days + 4) % 7 + 1)
    day := d.toUInt8
    month := m.toUInt8
    year := UInt8.ofInt (y.toInt.tmod 100)
    century := UInt8.ofInt (y.toInt.tdiv 100) }

/-! ### The device -/

/-- What the host's clocks say during one access: the instant the age of the latch is taken at, the
wall clock, and the instant a refreshed latch is stamped with. -/
structure HostClock where
  now : ℕ
  wall : ℤ
  stamp : ℕ
  ordered : now ≤ stamp

inductive TimeRegister where
  | seconds | minutes | hours | weekday | day | month | year | century
  deriving DecidableEq, Repr

namespace TimeRegister

def offset : TimeRegister → UInt8
  | seconds => 0x00
  | minutes => 0x02
  | hours => 0x04
  | weekday => 0x06
  | day => 0x07
  | month => 0x08
  | year => 0x09
  | century => 0x32

def all : List TimeRegister := [seconds, minutes, hours, weekday, day, month, year, century]

def ofIndex (idx : UInt8) : Option TimeRegister := all.find? fun r => r.offset == idx

end TimeRegister

/-- What a register shows of a latched time: the weekday as it is, the rest in BCD. -/
def Wallclock.field (w : Wallclock) : TimeRegister → UInt8
  | .seconds => toBcd w.sec
  | .minutes => toBcd w.min
  | .hours => toBcd w.hour
  | .weekday => w.weekday
  | .day => toBcd w.day
  | .month => toBcd w.month
  | .year => toBcd w.year
  | .century => toBcd w.century

structure RtcCmos where
  index : UInt8
  ram : ℕ → UInt8
  latched : Wallclock
  latchedAt : ℕ

namespace RtcCmos

def indexPort : UInt16 := 0x70
def dataPort : UInt16 := 0x71

/-- The registers A to D and what they read as. -/
def statusRegisters : List (UInt8 × UInt8) := [(0x0a, 0x26), (0x0b, 0x02), (0x0c, 0), (0x0d, 0x80)]

/-- `LATCH_MAX_AGE`, 250 ms. -/
def latchMaxAge : ℕ := 250000000

def new (clock : HostClock) : RtcCmos :=
  { index := 0, ram := fun _ => 0, latched := nowUtc clock.wall, latchedAt := clock.stamp }

def agedOut (rtc : RtcCmos) (clock : HostClock) : Prop := latchMaxAge ≤ clock.now - rtc.latchedAt

instance (rtc : RtcCmos) (clock : HostClock) : Decidable (rtc.agedOut clock) :=
  inferInstanceAs (Decidable (_ ≤ _))

def refresh (rtc : RtcCmos) (clock : HostClock) : RtcCmos :=
  if rtc.agedOut clock then { rtc with latched := nowUtc clock.wall, latchedAt := clock.stamp }
  else rtc

def pioRead (rtc : RtcCmos) (clock : HostClock) (port : UInt16) : UInt8 × RtcCmos :=
  if port = indexPort then (rtc.index, rtc)
  else
    match statusRegisters.lookup rtc.index, TimeRegister.ofIndex rtc.index with
    | some value, _ => (value, rtc)
    | none, some register => ((rtc.refresh clock).latched.field register, rtc.refresh clock)
    | none, none => (rtc.ram (rtc.index &&& 0x7f).toNat, rtc)

def pioWrite (rtc : RtcCmos) (port : UInt16) (val : UInt8) : RtcCmos :=
  if port = indexPort then { rtc with index := val &&& 0x7f }
  else if (statusRegisters.lookup rtc.index).isSome ∨
    (TimeRegister.ofIndex rtc.index).isSome then rtc
  else { rtc with ram := Function.update rtc.ram (rtc.index &&& 0x7f).toNat val }

end RtcCmos

/-! ### The date of a day number -/

/-- The date `civil_from_days` returns. -/
def civilDate (z : Int64) : Date :=
  let (y, m, d) := civilFromDays z
  ⟨y.toInt, m.toNat, d.toNat⟩

theorem civilDate_mk (z : Int64) : civilDate z =
    ⟨(civilFromDays z).1.toInt, (civilFromDays z).2.1.toNat, (civilFromDays z).2.2.toNat⟩ := by
  unfold civilDate
  generalize civilFromDays z = r
  rfl

theorem toInt_of_small {x : Int64} {n : ℤ} (h : x.toInt = n.bmod (2 ^ 64))
    (hn : -2 ^ 60 < n ∧ n < 2 ^ 60) : x.toInt = n := by
  rw [h]
  exact Int.bmod_eq_of_le (by omega) (by omega)

theorem toInt_toInt64 {x : UInt64} (h : x.toNat < 2 ^ 63) : x.toInt64.toInt = x.toNat := by
  change x.toBitVec.toInt = _
  rw [BitVec.toInt_eq_toNat_of_lt (by rw [UInt64.toNat_toBitVec]; omega), UInt64.toNat_toBitVec]

/-- The division that rounds to zero gives the era, the dividend being moved for the days before
the era 0. -/
theorem era_tdiv {s era doe : ℤ} (hs : s = 146097 * era + doe) (hdoe : 0 ≤ doe ∧ doe ≤ 146096) :
    (if 0 ≤ s then s else s - 146096).tdiv 146097 = era := by
  by_cases h : 0 ≤ s
  · rw [if_pos h, Int.tdiv_eq_ediv_of_nonneg h]
    omega
  · rw [if_neg h, ← Int.neg_neg (s - 146096), Int.neg_tdiv, Int.tdiv_eq_ediv_of_nonneg (by omega)]
    omega

theorem era_exact {s : Int64} {era doe : ℤ} (hsmall : -2 ^ 41 < s.toInt ∧ s.toInt < 2 ^ 41)
    (hs : s.toInt = 146097 * era + doe) (hdoe : 0 ≤ doe ∧ doe ≤ 146096) :
    ((if s ≥ 0 then s else s - 146096) / 146097).toInt = era ∧
      (s - (if s ≥ 0 then s else s - 146096) / 146097 * 146097).toUInt64.toNat = doe := by
  have hif : (if s ≥ 0 then s else s - 146096).toInt =
      if 0 ≤ s.toInt then s.toInt else s.toInt - 146096 := by
    have hle : s ≥ 0 ↔ 0 ≤ s.toInt := Int64.le_iff_toInt_le
    by_cases h : 0 ≤ s.toInt
    · rw [if_pos h, if_pos (hle.2 h)]
    · rw [if_neg h, if_neg fun h' => h (hle.1 h')]
      exact toInt_of_small (Int64.toInt_sub _ _) (by omega)
  have hera : ((if s ≥ 0 then s else s - 146096) / 146097).toInt = era := by
    refine toInt_of_small ?_ (by omega)
    rw [Int64.toInt_div, hif]
    exact congrArg (Int.bmod · _) (era_tdiv hs hdoe)
  have hmul : ((if s ≥ 0 then s else s - 146096) / 146097 * 146097).toInt = era * 146097 := by
    refine toInt_of_small ?_ (by omega)
    rw [Int64.toInt_mul, hera]
    rfl
  have hrest : (s - (if s ≥ 0 then s else s - 146096) / 146097 * 146097).toInt = doe := by
    refine toInt_of_small ?_ (by omega)
    rw [Int64.toInt_sub, hmul, hs]
    congr 1
    omega
  refine ⟨hera, ?_⟩
  rw [Int64.toNat_toUInt64_of_le (Int64.le_iff_toInt_le.2 (by rw [hrest]; exact hdoe.1))]
  change ((Int64.toInt _).toNat : ℤ) = doe
  rw [hrest]
  exact Int.toNat_of_nonneg hdoe.1

theorem yoe_exact {doe : UInt64} {yoe doy : ℕ} (hyoe : yoe < 400)
    (hdoy : doy < 365 + if IsLeap (yoe + 1) then 1 else 0) (hdoe : doe.toNat = eraStart yoe + doy) :
    ((doe - doe / 1460 + doe / 36524 - doe / 146096) / 365).toNat = yoe := by
  have hyear := yearOfEra_eq hyoe hdoy
  rw [← hdoe] at hyear
  have hlt : doe.toNat < 2 ^ 60 := by
    rw [hdoe, eraStart]
    split_ifs at hdoy <;> omega
  simp only [UInt64.toNat_div, UInt64.toNat_sub, UInt64.toNat_add, UInt64.reduceToNat]
  omega

theorem doy_exact {doe yoe : UInt64} {doy : ℕ} (hyoe : yoe.toNat < 400)
    (hdoe : doe.toNat = eraStart yoe.toNat + doy) :
    (doe - (365 * yoe + yoe / 4 - yoe / 100)).toNat = doy := by
  have hlt := doe.toNat_lt
  unfold eraStart at hdoe
  simp only [UInt64.toNat_div, UInt64.toNat_sub, UInt64.toNat_add, UInt64.toNat_mul,
    UInt64.reduceToNat]
  omega

theorem month_exact {doy : UInt64} {month day : ℕ} (hmonth : month < 12) (hday : 1 ≤ day ∧ day ≤ 31)
    (hdoy : doy.toNat = (153 * month + 2) / 5 + day - 1) (hmp : (5 * doy.toNat + 2) / 153 = month) :
    ((5 * doy + 2) / 153).toNat = month ∧
      (doy - (153 * ((5 * doy + 2) / 153) + 2) / 5 + 1).toUInt32.toNat = day := by
  have hlt : doy.toNat < 400 := by omega
  have hmp' : ((5 * doy + 2) / 153).toNat = month := by
    simp only [UInt64.toNat_div, UInt64.toNat_add, UInt64.toNat_mul, UInt64.reduceToNat]
    simp (disch := omega) only [Nat.mod_eq_of_lt, hmp]
  have hstart : ((153 * ((5 * doy + 2) / 153) + 2) / 5).toNat = (153 * month + 2) / 5 := by
    rw [UInt64.toNat_div, UInt64.toNat_add, UInt64.toNat_mul, hmp']
    simp (disch := omega) only [Nat.mod_eq_of_lt, UInt64.reduceToNat]
  have hle : (153 * ((5 * doy + 2) / 153) + 2) / 5 ≤ doy := by
    rw [UInt64.le_iff_toNat_le]
    omega
  refine ⟨hmp', ?_⟩
  rw [UInt64.toNat_toUInt32, UInt64.toNat_add, UInt64.toNat_sub_of_le _ _ hle, hstart]
  simp (disch := omega) only [Nat.mod_eq_of_lt, UInt64.reduceToNat]
  omega

/-- **A day number gives back the date it is the count of.** -/
theorem civilDate_eq {z : Int64} {date : Date} (hvalid : date.Valid) (hz : |z.toInt| < 2 ^ 40)
    (hcount : date.dayCount = z.toInt) : civilDate z = date := by
  have habs := abs_lt.1 hz
  obtain ⟨hlow, hhigh⟩ := hvalid.month
  obtain ⟨hmonth, hmp, hdoy⟩ := hvalid.marchDay
  have hday : 1 ≤ date.day ∧ date.day ≤ 31 := ⟨hvalid.1, hvalid.2.trans monthLength_le⟩
  have hmarch := Date.dayCount_march hvalid
  obtain ⟨Y, hY⟩ : ∃ Y, Y = date.marchYear := ⟨_, rfl⟩
  rw [← hY, hcount] at hmarch
  rw [← hY] at hdoy
  obtain ⟨n, hn⟩ : ∃ n : ℕ, Y = 400 * (Y / 400) + n := ⟨(Y % 400).toNat, by omega⟩
  have hleap : IsLeap (Y + 1) ↔ IsLeap (n + 1) := by
    unfold IsLeap
    omega
  rw [if_congr hleap rfl rfl] at hdoy
  unfold civilDate civilFromDays
  extract_lets s era doe yoe y doy mp d m
  -- each value is replaced by what it is equal to as soon as that is known
  have hs : s.toInt = z.toInt + 719468 := toInt_of_small (Int64.toInt_add _ _) (by omega)
  clear_value s
  have hlast : date.marchDay ≤ 365 := by split_ifs at hdoy <;> omega
  have hsum : s.toInt = 146097 * (Y / 400) + (eraStart n + date.marchDay : ℕ) := by
    have hfours : Y / 4 = 100 * (Y / 400) + n / 4 := by omega
    have hcents : Y / 100 = 4 * (Y / 400) + n / 100 := by omega
    unfold eraStart
    omega
  have hdoe : eraStart n + date.marchDay ≤ 146096 := by
    unfold eraStart
    omega
  obtain ⟨hera, hdays⟩ : era.toInt = Y / 400 ∧ (doe.toNat : ℤ) = (eraStart n + date.marchDay : ℕ) :=
    era_exact (by omega) hsum (by omega)
  clear_value era doe
  have hyoe : yoe.toNat = n := yoe_exact (by omega) hdoy (by omega)
  have hy : y.toInt = Y := by
    have hmul : (era * 400).toInt = Y / 400 * 400 := by
      refine toInt_of_small ?_ (by omega)
      rw [Int64.toInt_mul, hera]
      rfl
    refine toInt_of_small ?_ (by omega)
    rw [Int64.toInt_add, toInt_toInt64 (by omega), hyoe, hmul]
    congr 1
    omega
  clear_value yoe y
  have hdoy' : doy.toNat = date.marchDay := doy_exact (by omega) (by rw [hyoe]; omega)
  clear_value doy
  obtain ⟨hmp', hd⟩ : mp.toNat = date.marchMonth ∧ d.toNat = date.day :=
    month_exact hmonth hday (by rw [hdoy']; rfl) (by rw [hdoy', hmp])
  clear_value mp d
  have hm : m.toNat = date.month := by
    unfold Date.marchMonth at hmp'
    have hten : mp < 10 ↔ mp.toNat < 10 := UInt64.lt_iff_toNat_lt
    change (if mp < 10 then mp + 3 else mp - 9).toUInt32.toNat = _
    rw [UInt64.toNat_toUInt32]
    by_cases h : date.month ≤ 2
    · rw [if_pos h] at hmp'
      rw [if_neg fun h' => by have := hten.1 h'; omega, UInt64.toNat_sub, hmp']
      simp only [UInt64.reduceToNat]
      omega
    · rw [if_neg h] at hmp'
      rw [if_pos (hten.2 (by omega)), UInt64.toNat_add, hmp']
      simp only [UInt64.reduceToNat]
      omega
  clear_value m
  have htwo : m ≤ 2 ↔ date.month ≤ 2 := by
    rw [UInt32.le_iff_toNat_le, hm]
    rfl
  ext
  · change (if m ≤ 2 then y + 1 else y).toInt = date.year
    unfold Date.marchYear at hY
    by_cases h : date.month ≤ 2
    · rw [if_pos h] at hY
      rw [if_pos (htwo.2 h)]
      refine toInt_of_small ?_ (by omega)
      rw [Int64.toInt_add, hy, hY]
      exact congrArg (Int.bmod · _) (Int.sub_add_cancel _ 1)
    · rw [if_neg h] at hY
      rw [if_neg fun h' => h (htwo.1 h'), hy, hY]
  · exact hm
  · exact hd

/-! ### What the registers show -/

/-- How a guest reads a register: it selects it at one port and reads the other. -/
def RtcCmos.readRegister (rtc : RtcCmos) (clock : HostClock) (register : TimeRegister) : UInt8 :=
  ((rtc.pioWrite indexPort register.offset).pioRead clock dataPort).1

/-- The number a BCD register stands for. -/
def fromBcd (v : UInt8) : ℕ := 10 * (v.toNat / 16) + v.toNat % 16

/-- The weekday as the register counts it. -/
def Calendar.Weekday.number : Weekday → ℕ
  | .sunday => 1
  | .monday => 2
  | .tuesday => 3
  | .wednesday => 4
  | .thursday => 5
  | .friday => 6
  | .saturday => 7

theorem number_next (w : Weekday) : w.next.number = w.number % 7 + 1 := by
  cases w <;> rfl

theorem number_dayOfWeek (n : ℕ) : (dayOfWeek n).number = (n + 4) % 7 + 1 := by
  induction n with
  | zero => rfl
  | succ n ih =>
    rw [dayOfWeek, number_next, ih]
    omega

theorem fromBcd_toBcd {v : UInt8} (h : v.toNat < 100) : fromBcd (toBcd v) = v.toNat := by
  have hall : (List.range 100).all (fun n => fromBcd (toBcd (UInt8.ofNat n)) = n) = true := by
    decide +kernel
  have := List.all_eq_true.1 hall v.toNat (List.mem_range.2 h)
  simpa using this

theorem refresh_latched (rtc : RtcCmos) (clock : HostClock) :
    (rtc.refresh clock).latched = if rtc.agedOut clock then nowUtc clock.wall else rtc.latched := by
  unfold RtcCmos.refresh
  split_ifs <;> rfl

theorem readRegister_eq (rtc : RtcCmos) (clock : HostClock) (register : TimeRegister) :
    rtc.readRegister clock register = (rtc.refresh clock).latched.field register := by
  have hread : rtc.readRegister clock register =
      (RtcCmos.refresh { rtc with index := register.offset } clock).latched.field register := by
    cases register <;> rfl
  rw [hread, refresh_latched, refresh_latched]
  rfl

theorem year_bounds {date : Date} (hvalid : date.Valid)
    (h : 0 ≤ date.dayCount ∧ date.dayCount < 2932897) : 1970 ≤ date.year ∧ date.year ≤ 9999 := by
  obtain ⟨-, hmp, hdoy⟩ := hvalid.marchDay
  have hlast : date.marchDay ≤ 365 := by split_ifs at hdoy <;> omega
  have hmarch := Date.dayCount_march hvalid
  unfold Date.marchMonth at hmp
  have hmonth := hvalid.month
  have hyear : 1969 ≤ date.marchYear ∧ date.marchYear ≤ 9999 := by omega
  -- at both ends the month decides, as the year from March starts two months late
  by_cases hm : date.month ≤ 2
  · have hY : date.marchYear = date.year - 1 := if_pos hm
    rw [if_pos hm] at hmp
    have hend : date.marchYear ≠ 9999 := by
      intro hlate
      rw [hlate] at hmarch
      omega
    omega
  · have hY : date.marchYear = date.year := if_neg hm
    rw [if_neg hm] at hmp
    have hend : date.marchYear ≠ 1969 := by
      intro hearly
      rw [hearly] at hmarch
      omega
    omega

theorem toNat_ofInt {n : ℤ} (h : 0 ≤ n ∧ n < 256) : ((UInt8.ofInt n).toNat : ℤ) = n := by
  rw [UInt8.ofInt, UInt8.toNat_ofNat']
  omega

/-- A register of a number below 100 shows that number. -/
theorem fromBcd_ofInt {n : ℤ} (h : 0 ≤ n ∧ n < 100) :
    (fromBcd (toBcd (UInt8.ofInt n)) : ℤ) = n := by
  have hn := toNat_ofInt (n := n) (by omega)
  rw [fromBcd_toBcd (by omega), hn]

theorem fromBcd_toUInt8 {v : UInt32} (h : v.toNat < 100) : fromBcd (toBcd v.toUInt8) = v.toNat := by
  have hv : v.toUInt8.toNat = v.toNat := by
    rw [UInt32.toNat_toUInt8]
    omega
  rw [fromBcd_toBcd (by omega), hv]

/-- The registers show a date and a time of day, the year in two of them. -/
structure RtcCmos.Reports (rtc : RtcCmos) (clock : HostClock) (date : Date)
    (hour minute second : ℕ) : Prop where
  second : fromBcd (rtc.readRegister clock .seconds) = second
  minute : fromBcd (rtc.readRegister clock .minutes) = minute
  hour : fromBcd (rtc.readRegister clock .hours) = hour
  day : fromBcd (rtc.readRegister clock .day) = date.day
  month : fromBcd (rtc.readRegister clock .month) = date.month
  year : 100 * fromBcd (rtc.readRegister clock .century) +
    fromBcd (rtc.readRegister clock .year) = date.year
  weekday : (rtc.readRegister clock .weekday).toNat = (dayOfWeek date.dayCount.toNat).number

/-- **The clock reports the right date.**  The date of a day number is the one valid date whose
count it is, and a latch taken between 1970 and 9999 shows the second it was taken in and its
weekday. -/
theorem civil_dates_and_registers :
    (∀ z : Int64, |z.toInt| < 2 ^ 40 →
      (civilDate z).Valid ∧ (civilDate z).dayCount = z.toInt ∧
        ∀ date : Date, date.Valid → date.dayCount = z.toInt → date = civilDate z) ∧
    ∀ (rtc : RtcCmos) (clock : HostClock) (host : ℤ), 0 ≤ host →
      host < 86400 * (Date.mk 10000 1 1).dayCount → (rtc.refresh clock).latched = nowUtc host →
      ∃ (date : Date) (hour minute second : ℕ), date.Valid ∧ hour < 24 ∧ minute < 60 ∧ second < 60 ∧
        host = 86400 * date.dayCount + 3600 * hour + 60 * minute + second ∧
        rtc.Reports clock date hour minute second := by
  constructor
  · intro z hz
    obtain ⟨date, hvalid, hcount⟩ := exists_date z.toInt
    have hdate := civilDate_eq hvalid hz hcount
    rw [hdate]
    refine ⟨hvalid, hcount, fun other hother hcount' => ?_⟩
    rw [← civilDate_eq hother hz hcount', hdate]
  · intro rtc clock host hlow hhigh hlatched
    have hlimit : (Date.mk 10000 1 1).dayCount = 2932897 := by decide
    rw [hlimit] at hhigh
    obtain ⟨date, hvalid, hcount⟩ := exists_date (host / 86400)
    obtain ⟨n, hn⟩ : ∃ n : ℕ, host / 86400 = n := ⟨(host / 86400).toNat, by omega⟩
    have hz : (Int64.ofInt (host / 86400)).toInt = host / 86400 :=
      toInt_of_small Int64.toInt_ofInt (by omega)
    have hdate := civilDate_eq (z := Int64.ofInt (host / 86400)) hvalid (by rw [hz, abs_lt]; omega)
      (by rw [hz, hcount])
    rw [civilDate_mk] at hdate
    obtain ⟨hyear, hmonth, hday⟩ := Date.ext_iff.1 hdate
    have hyears := year_bounds hvalid (by omega)
    have hmonths := hvalid.month
    have hdays := hvalid.2.trans monthLength_le
    refine ⟨date, (host % 86400 / 3600).toNat, (host % 86400 / 60 % 60).toNat,
      (host % 86400 % 60).toNat, hvalid, by omega, by omega, by omega, by omega, ?_⟩
    have hfield (r : TimeRegister) : rtc.readRegister clock r = (nowUtc host).field r := by
      rw [readRegister_eq, hlatched]
    have hsecs : (if host < 0 then 0 else host) = host := if_neg (by omega)
    dsimp only at hyear hmonth hday
    have hcentury : 0 ≤ date.year.tdiv 100 ∧ date.year.tdiv 100 < 100 := by
      rw [Int.tdiv_eq_ediv_of_nonneg (by omega)]
      omega
    have htwo : 0 ≤ date.year.tmod 100 ∧ date.year.tmod 100 < 100 := by
      rw [Int.tmod_eq_emod_of_nonneg (by omega)]
      omega
    constructor <;> simp only [hfield, nowUtc, hsecs, Wallclock.field]
    · have := fromBcd_ofInt (n := host % 86400 % 60) (by omega)
      omega
    · have := fromBcd_ofInt (n := host % 86400 / 60 % 60) (by omega)
      omega
    · have := fromBcd_ofInt (n := host % 86400 / 3600) (by omega)
      omega
    · rw [fromBcd_toUInt8 (hday.trans_lt (by omega)), hday]
    · rw [fromBcd_toUInt8 (hmonth.trans_lt (by omega)), hmonth]
    · rw [hyear, fromBcd_ofInt hcentury, fromBcd_ofInt htwo]
      exact Int.mul_tdiv_add_tmod _ _
    · have := toNat_ofInt (n := (host / 86400 + 4) % 7 + 1) (by omega)
      rw [number_dayOfWeek]
      omega

/-- A clock set at 2024-03-01 01:01:01, the day after a leap day, and read at once. -/
theorem civil_dates_and_registers_leap :
    (civilDate 19783).dayCount = 19783 ∧
      ∃ (date : Date) (hour minute second : ℕ), date.Valid ∧ hour < 24 ∧ minute < 60 ∧ second < 60 ∧
        1709254861 = 86400 * date.dayCount + 3600 * hour + 60 * minute + second ∧
        (RtcCmos.new ⟨0, 1709254861, 0, le_refl 0⟩).Reports ⟨0, 1709254861, 0, le_refl 0⟩ date hour
          minute second :=
  ⟨(civil_dates_and_registers.1 19783 (by decide)).2.1,
    civil_dates_and_registers.2 _ _ 1709254861 (by decide) (by decide) rfl⟩

/-! ### Runs of accesses -/

inductive PortAccess where
  | read (port : UInt16)
  | write (port : UInt16) (val : UInt8)
  deriving DecidableEq, Repr

/-- A read of a time register, with what it returned. -/
structure TimeRead where
  clock : HostClock
  register : TimeRegister
  value : UInt8

namespace RtcCmos

variable {rtc : RtcCmos} {accesses : List (HostClock × PortAccess)}

def access (rtc : RtcCmos) : HostClock × PortAccess → RtcCmos
  | (clock, .read port) => (rtc.pioRead clock port).2
  | (_, .write port val) => rtc.pioWrite port val

/-- The time register a read of `port` shows, if it shows one. -/
def shows (rtc : RtcCmos) (port : UInt16) : Option TimeRegister :=
  if port = indexPort ∨ (statusRegisters.lookup rtc.index).isSome then none
  else TimeRegister.ofIndex rtc.index

/-- The read of a time register an access is, if it is one. -/
def timeRead (rtc : RtcCmos) : HostClock × PortAccess → Option TimeRead
  | (clock, .read port) =>
    (rtc.shows port).map fun register => ⟨clock, register, (rtc.pioRead clock port).1⟩
  | (_, .write _ _) => none

/-- The reads of time registers among some accesses, in their order. -/
def timeReads (rtc : RtcCmos) : List (HostClock × PortAccess) → List TimeRead
  | [] => []
  | a :: rest => (rtc.timeRead a).toList ++ (rtc.access a).timeReads rest

/-- What one access does to the latch: a read of a time register refreshes it if it has aged out,
and returns a field of it; every other access keeps it. -/
theorem access_cases (rtc : RtcCmos) (a : HostClock × PortAccess) :
    (rtc.timeRead a = none ∧ (rtc.access a).latched = rtc.latched ∧
        (rtc.access a).latchedAt = rtc.latchedAt) ∨
      ∃ register, rtc.timeRead a = some ⟨a.1, register, (rtc.refresh a.1).latched.field register⟩ ∧
        rtc.access a = rtc.refresh a.1 := by
  obtain ⟨clock, access⟩ := a
  cases access with
  | write port val =>
    refine .inl ⟨rfl, ?_⟩
    simp only [RtcCmos.access, pioWrite]
    split_ifs <;> exact ⟨rfl, rfl⟩
  | read port =>
    simp only [timeRead, shows, RtcCmos.access, pioRead]
    by_cases hport : port = indexPort
    · exact .inl (by simp [hport])
    · cases hstatus : statusRegisters.lookup rtc.index with
      | some value => exact .inl (by simp [hport])
      | none =>
        cases hregister : TimeRegister.ofIndex rtc.index with
        | none => exact .inl (by simp [hport])
        | some register => exact .inr ⟨register, by simp [hport]⟩

/-- **The device always holds the wall clock of `new` or of an access.** -/
theorem latched_run (accesses : List (HostClock × PortAccess)) {readings : List HostClock}
    (h : ∃ c ∈ readings, rtc.latched = nowUtc c.wall) :
    ∃ c ∈ readings ++ accesses.map Prod.fst,
      (accesses.foldl RtcCmos.access rtc).latched = nowUtc c.wall := by
  induction accesses generalizing rtc readings with
  | nil =>
    rw [List.map_nil, List.append_nil]
    exact h
  | cons a rest ih =>
    have hnext : ∃ c ∈ readings ++ [a.1], (rtc.access a).latched = nowUtc c.wall := by
      obtain ⟨c, hc, hlatched⟩ := h
      rcases rtc.access_cases a with ⟨-, hkept, -⟩ | ⟨register, -, haccess⟩
      · exact ⟨c, List.mem_append_left _ hc, hkept.trans hlatched⟩
      · rw [haccess, refresh_latched]
        by_cases haged : rtc.agedOut a.1
        · exact ⟨a.1, by simp, if_pos haged⟩
        · exact ⟨c, List.mem_append_left _ hc, (if_neg haged).trans hlatched⟩
    have hrun := ih hnext
    rwa [List.append_assoc, List.singleton_append] at hrun

/-- **Reads that do not find the latch aged out return fields of what it holds.** -/
theorem timeReads_latched (hfresh : ∀ r ∈ rtc.timeReads accesses, ¬rtc.agedOut r.clock) :
    ∀ r ∈ rtc.timeReads accesses, r.value = rtc.latched.field r.register := by
  induction accesses generalizing rtc with
  | nil => exact fun r hr => absurd hr List.not_mem_nil
  | cons a rest ih =>
    rw [timeReads] at hfresh ⊢
    rcases rtc.access_cases a with ⟨hnone, hlatched, hat⟩ | ⟨register, hread, haccess⟩
    · rw [hnone] at hfresh ⊢
      rw [← hlatched]
      refine ih fun r hr => ?_
      rw [agedOut, hat]
      exact hfresh r hr
    · rw [hread] at hfresh ⊢
      have hkept : rtc.refresh a.1 = rtc := if_neg (hfresh _ (List.mem_cons_self ..))
      rw [haccess, hkept] at hfresh ⊢
      intro r hr
      rcases List.mem_cons.1 hr with rfl | hrest
      · rfl
      · exact ih (fun r hr => hfresh r (List.mem_append_right _ hr)) r hrest

/-- Reads at these moments together span less than the age at which the latch is refreshed. -/
def Brief (moments : List HostClock) : Prop :=
  ∀ c ∈ moments, ∀ c' ∈ moments, c'.now < c.now + latchMaxAge

instance (moments : List HostClock) : Decidable (Brief moments) :=
  inferInstanceAs (Decidable (∀ c ∈ moments, ∀ c' ∈ moments, _))

/-- All that was read are fields of one of these readings of the wall clock. -/
def OneInstant (readings : List HostClock) (reads : List TimeRead) : Prop :=
  ∃ c ∈ readings, ∀ r ∈ reads, r.value = (nowUtc c.wall).field r.register

/-- The first of these moments at which the latch has aged out is the first of all, or the wall
clock then is in the second that the latch shows. -/
def Untorn (rtc : RtcCmos) (moments : List HostClock) : Prop :=
  ∀ c ∈ moments.find? fun c => rtc.agedOut c, moments.head? = some c ∨
    ∀ register, rtc.latched.field register = (nowUtc c.wall).field register

/-- **What brief reads return** when one of them finds the latch aged out: fields of the wall clock
at the first that does, and before it fields of the old latch. -/
theorem timeReads_refreshed {c : HostClock}
    (hbrief : Brief ((rtc.timeReads accesses).map TimeRead.clock))
    (hfind : (((rtc.timeReads accesses).map TimeRead.clock).find? fun c => rtc.agedOut c) =
      some c) :
    ∀ r ∈ rtc.timeReads accesses, r.value = (nowUtc c.wall).field r.register ∨
      ((rtc.timeReads accesses).map TimeRead.clock).head? ≠ some c ∧
        r.value = rtc.latched.field r.register := by
  induction accesses generalizing rtc with
  | nil => cases hfind
  | cons a rest ih =>
    rw [timeReads] at hbrief hfind ⊢
    rcases rtc.access_cases a with ⟨hnone, hkept, hat⟩ | ⟨register, hread, haccess⟩
    · rw [hnone] at hbrief hfind ⊢
      rw [← hkept]
      refine ih hbrief ?_
      simp only [agedOut, hat]
      exact hfind
    · rw [hread, haccess] at hbrief hfind ⊢
      rw [Option.toList_some, List.singleton_append, List.map_cons] at hbrief hfind ⊢
      by_cases haged : rtc.agedOut a.1
      · -- the first read refreshes the latch, and the later ones come before it can age out again
        obtain rfl : a.1 = c := by simpa [haged] using hfind
        have hnew : (rtc.refresh a.1).latched = nowUtc a.1.wall ∧
            (rtc.refresh a.1).latchedAt = a.1.stamp := by
          rw [refresh, if_pos haged]
          exact ⟨rfl, rfl⟩
        rw [← hnew.1]
        intro r hr
        rcases List.mem_cons.1 hr with rfl | hrest
        · exact .inl rfl
        · refine .inl (timeReads_latched (fun r hr => ?_) r hrest)
          have hsoon := hbrief a.1 (List.mem_cons_self ..) r.clock
            (List.mem_cons_of_mem _ (List.mem_map_of_mem hr))
          have hstamp := a.1.ordered
          rw [agedOut, hnew.2]
          unfold latchMaxAge at hsoon ⊢
          omega
      · -- the first read is of the old latch, so it is not the one that refreshes it
        have hold : rtc.refresh a.1 = rtc := if_neg haged
        rw [hold] at hbrief hfind ⊢
        have hc : rtc.agedOut c := by simpa using List.find?_some hfind
        have hfirst : a.1 ≠ c := fun heq => haged (heq ▸ hc)
        have hlater := ih (fun c hc c' hc' => hbrief c (List.mem_cons_of_mem _ hc) c'
          (List.mem_cons_of_mem _ hc')) (by simpa [haged] using hfind)
        intro r hr
        rcases List.mem_cons.1 hr with rfl | hrest
        · exact .inr ⟨fun heq => hfirst (Option.some.inj heq), rfl⟩
        · exact (hlater r hrest).imp id fun hr => ⟨fun heq => hfirst (Option.some.inj heq), hr.2⟩

/-! ### The same register at every moment -/

/-- The guest selects a register and reads it. -/
def poll (register : TimeRegister) (c : HostClock) : List (HostClock × PortAccess) :=
  [(c, .write indexPort register.offset), (c, .read dataPort)]

theorem timeReads_poll (rtc : RtcCmos) (register : TimeRegister) (c : HostClock)
    (rest : List (HostClock × PortAccess)) : ∃ rtc' : RtcCmos,
    rtc'.latched = rtc.latched ∧ rtc'.latchedAt = rtc.latchedAt ∧
      rtc.timeReads (poll register c ++ rest) =
        ⟨c, register, (rtc'.refresh c).latched.field register⟩ ::
          (rtc'.refresh c).timeReads rest := by
  refine ⟨{ rtc with index := register.offset }, rfl, rfl, ?_⟩
  have hselect : rtc.pioWrite indexPort register.offset =
      { rtc with index := register.offset } := by
    cases register <;> rfl
  have hread : pioRead { rtc with index := register.offset } c dataPort =
      ((refresh { rtc with index := register.offset } c).latched.field register,
        refresh { rtc with index := register.offset } c) := by
    cases register <;> rfl
  have hshows : shows { rtc with index := register.offset } dataPort = some register := by
    cases register <;> rfl
  simp only [poll, List.cons_append, List.nil_append, timeReads, timeRead, access, hselect, hread,
    hshows, Option.map_some, Option.toList_some, Option.toList_none]

theorem clock_polls (register : TimeRegister) (moments : List HostClock) :
    (rtc.timeReads (moments.flatMap (poll register))).map TimeRead.clock = moments := by
  induction moments generalizing rtc with
  | nil => rfl
  | cons c rest ih =>
    obtain ⟨rtc', -, -, hreads⟩ := rtc.timeReads_poll register c (rest.flatMap (poll register))
    rw [List.flatMap_cons, hreads, List.map_cons, ih]

/-- The first poll that finds the latch aged out shows the wall clock. -/
theorem polls_refreshed (register : TimeRegister) {moments : List HostClock} {c : HostClock}
    (hfind : (moments.find? fun c => rtc.agedOut c) = some c) :
    ∃ r ∈ rtc.timeReads (moments.flatMap (poll register)), r.register = register ∧
      r.value = (nowUtc c.wall).field register := by
  induction moments generalizing rtc with
  | nil => cases hfind
  | cons m rest ih =>
    obtain ⟨rtc', hlatched, hat, hreads⟩ :=
      rtc.timeReads_poll register m (rest.flatMap (poll register))
    rw [List.flatMap_cons, hreads]
    by_cases haged : rtc.agedOut m
    · obtain rfl : m = c := by simpa [haged] using hfind
      refine ⟨_, List.mem_cons_self .., rfl, ?_⟩
      rw [refresh_latched, if_pos (by rwa [agedOut, hat])]
    · have hkept : rtc'.refresh m = rtc' := if_neg (by rwa [agedOut, hat])
      rw [hkept]
      rw [List.find?_cons_of_neg (by simpa using haged)] at hfind
      have hage : ∀ c, rtc'.agedOut c ↔ rtc.agedOut c := fun c => by rw [agedOut, agedOut, hat]
      obtain ⟨r, hr, hvalue⟩ := @ih rtc' (by simpa only [hage] using hfind)
      exact ⟨r, List.mem_cons_of_mem _ hr, hvalue⟩

/-- The first poll, unless it finds the latch aged out, shows the latch. -/
theorem polls_head (register : TimeRegister) {moments : List HostClock} {c : HostClock}
    (hhead : moments.head? = some c) (haged : ¬rtc.agedOut c) :
    ∃ r ∈ rtc.timeReads (moments.flatMap (poll register)), r.register = register ∧
      r.value = rtc.latched.field register := by
  obtain ⟨rest, rfl⟩ := List.head?_eq_some_iff.1 hhead
  obtain ⟨rtc', hlatched, hat, hreads⟩ :=
    rtc.timeReads_poll register c (rest.flatMap (poll register))
  rw [List.flatMap_cons, hreads]
  refine ⟨_, List.mem_cons_self .., rfl, ?_⟩
  rw [refresh_latched, if_neg (by rwa [agedOut, hat]), hlatched]

/-- **When reads do not tear.**  Whatever the guest did before, all that brief reads at some moments
may return are fields of one reading of the wall clock, if and only if the latch does not age out
between two of them, or the refresh finds the second that the latch shows. -/
theorem reads_of_one_instant (clock : HostClock) (before : List (HostClock × PortAccess))
    (moments : List HostClock) (hbrief : Brief moments) :
    (∀ accesses,
      ((before.foldl access (new clock)).timeReads accesses).map TimeRead.clock = moments →
        OneInstant (clock :: before.map Prod.fst ++ moments)
          ((before.foldl access (new clock)).timeReads accesses)) ↔
      (before.foldl access (new clock)).Untorn moments := by
  obtain ⟨c₀, hc₀, hlatched⟩ := @latched_run (new clock) before _
    ⟨clock, List.mem_singleton_self _, rfl⟩
  generalize before.foldl access (new clock) = rtc at hlatched ⊢
  constructor
  · -- a register that the two seconds show differently, read at every moment
    intro hone c hfind
    by_contra htorn
    obtain ⟨hhead, hdiffer⟩ := not_or.1 htorn
    obtain ⟨register, hregister⟩ := not_forall.1 hdiffer
    obtain ⟨host, -, hhost⟩ := hone _ (clock_polls register moments)
    obtain ⟨r, hr, hreg, hvalue⟩ := polls_refreshed register hfind
    obtain ⟨m, hm⟩ : ∃ m, moments.head? = some m := by
      cases moments with
      | nil => cases hfind
      | cons m rest => exact ⟨m, rfl⟩
    have hfresh : ¬rtc.agedOut m := by
      intro haged
      obtain ⟨rest, rfl⟩ := List.head?_eq_some_iff.1 hm
      rw [Option.mem_def, List.find?_cons_of_pos (by simpa using haged)] at hfind
      exact hhead (hm.trans hfind)
    obtain ⟨r', hr', hreg', hvalue'⟩ := polls_head register hm hfresh
    have h := hhost r hr
    have h' := hhost r' hr'
    rw [hreg] at h
    rw [hreg'] at h'
    exact hregister (hvalue'.symm.trans (h'.trans (h.symm.trans hvalue)))
  · rintro huntorn accesses rfl
    cases hfind : ((rtc.timeReads accesses).map TimeRead.clock).find? fun c => rtc.agedOut c with
    | none =>
      refine ⟨c₀, List.mem_append_left _ hc₀, fun r hr => ?_⟩
      have hfresh :=
        fun r hr => List.find?_eq_none.1 hfind (TimeRead.clock r) (List.mem_map_of_mem hr)
      rw [timeReads_latched (fun r hr => by simpa using hfresh r hr) r hr, hlatched]
    | some c =>
      refine ⟨c, List.mem_append_right _ (List.mem_of_find?_eq_some hfind), fun r hr => ?_⟩
      rcases timeReads_refreshed hbrief hfind r hr with hnew | ⟨hhead, hold⟩
      · exact hnew
      · rcases huntorn c hfind with hfirst | hsame
        · exact absurd hfirst hhead
        · rw [hold, hsame]

/-- The moments of three reads a millisecond apart, while the wall clock goes from 00:00:59 to
00:01:00. -/
def tornMoments (start : ℕ) : List HostClock :=
  [⟨start, 59, start, le_refl _⟩, ⟨start + 1000000, 60, _, le_refl _⟩,
    ⟨start + 2000000, 60, _, le_refl _⟩]

/-- A guest reads the seconds, then the minutes, then the seconds again. -/
def tornAccesses (start : ℕ) : List (HostClock × PortAccess) :=
  (List.zipWith poll [.seconds, .minutes, .seconds] (tornMoments start)).flatten

/-- **The latch may age out between two reads**: 249 ms after it was taken the guest reads the
second 59, and a millisecond later the minute and the second of the next latch. -/
theorem reads_torn :
    ((new ⟨0, 59, 0, le_refl 0⟩).timeReads (tornAccesses 249000000)).map TimeRead.clock =
        tornMoments 249000000 ∧ Brief (tornMoments 249000000) ∧
      ¬OneInstant (⟨0, 59, 0, le_refl 0⟩ :: tornMoments 249000000)
        ((new ⟨0, 59, 0, le_refl 0⟩).timeReads (tornAccesses 249000000)) := by
  have hvalues : ((new ⟨0, 59, 0, le_refl 0⟩).timeReads (tornAccesses 249000000)).map
      (fun r => (r.register, r.value)) =
        [(.seconds, 0x59), (.minutes, 0x01), (.seconds, 0x00)] := by
    decide +kernel
  refine ⟨rfl, by decide +kernel, ?_⟩
  rintro ⟨c, -, hc⟩
  have hfield : ∀ x ∈ [(TimeRegister.seconds, (0x59 : UInt8)), (.minutes, 0x01), (.seconds, 0x00)],
      x.2 = (nowUtc c.wall).field x.1 := by
    rw [← hvalues]
    intro x hx
    obtain ⟨r, hr, rfl⟩ := List.mem_map.1 hx
    exact hc r hr
  have hold := hfield (.seconds, 0x59) (by simp)
  have hnew := hfield (.seconds, 0x00) (by simp)
  exact absurd (hold.trans hnew.symm) (by decide)

/-- The same reads, from a latch that has aged out when they start. -/
theorem reads_of_one_instant_aged :
    OneInstant (⟨0, 59, 0, le_refl 0⟩ :: tornMoments 250000000)
      ((new ⟨0, 59, 0, le_refl 0⟩).timeReads (tornAccesses 250000000)) := by
  refine (reads_of_one_instant ⟨0, 59, 0, le_refl 0⟩ [] (tornMoments 250000000)
    (by decide +kernel)).2 (fun c hfind => .inl ?_) _ rfl
  exact hfind

end RtcCmos
