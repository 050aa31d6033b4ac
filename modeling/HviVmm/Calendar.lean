/-
The proleptic Gregorian calendar: leap years, months, and the count of days from 1970-01-01.

* `Date.dayCount_next`, `exists_date` — the count goes up by one from each day to the next, and
  every number is the count of a day;
* `Date.dayCount_march` — the count of a day in a year that starts in March, where the leap day is
  the last;
* `yearOfEra_eq` — the year of a day within a 400-year era, by division.
-/
import Mathlib.Algebra.BigOperators.Intervals
import Mathlib.Tactic.IntervalCases

namespace Calendar

def IsLeap (y : ℤ) : Prop := 4 ∣ y ∧ (100 ∣ y → 400 ∣ y)

instance (y : ℤ) : Decidable (IsLeap y) := inferInstanceAs (Decidable (_ ∧ _))

/-- The days of a month; there are none in a month that does not exist. -/
def monthLength (y : ℤ) : ℕ → ℕ
  | 2 => if IsLeap y then 29 else 28
  | 4 | 6 | 9 | 11 => 30
  | 1 | 3 | 5 | 7 | 8 | 10 | 12 => 31
  | _ => 0

/-- The days of a year before a month. -/
def monthStart (y : ℤ) (m : ℕ) : ℕ := ∑ k ∈ Finset.range m, monthLength y k

/-- The days before a year, from the start of the year 0. -/
def yearStart (y : ℤ) : ℤ := 365 * y + (y - 1) / 4 - (y - 1) / 100 + (y - 1) / 400

@[ext]
structure Date where
  year : ℤ
  month : ℕ
  day : ℕ
  deriving DecidableEq, Repr

namespace Date

def Valid (date : Date) : Prop := 1 ≤ date.day ∧ date.day ≤ monthLength date.year date.month

instance (date : Date) : Decidable date.Valid := inferInstanceAs (Decidable (_ ∧ _))

/-- The days from 1970-01-01 to a date. -/
def dayCount (date : Date) : ℤ :=
  yearStart date.year + monthStart date.year date.month + date.day - 1 - yearStart 1970

def next (date : Date) : Date :=
  if date.day < monthLength date.year date.month then { date with day := date.day + 1 }
  else if date.month < 12 then { date with month := date.month + 1, day := 1 }
  else { year := date.year + 1, month := 1, day := 1 }

def prev (date : Date) : Date :=
  if 1 < date.day then { date with day := date.day - 1 }
  else if 1 < date.month then
    { date with month := date.month - 1, day := monthLength date.year (date.month - 1) }
  else { year := date.year - 1, month := 12, day := 31 }

end Date

inductive Weekday where
  | sunday | monday | tuesday | wednesday | thursday | friday | saturday
  deriving DecidableEq, Repr

def Weekday.next : Weekday → Weekday
  | .sunday => .monday
  | .monday => .tuesday
  | .tuesday => .wednesday
  | .wednesday => .thursday
  | .thursday => .friday
  | .friday => .saturday
  | .saturday => .sunday

/-- The day of the week, that many days after 1970-01-01. -/
def dayOfWeek : ℕ → Weekday
  | 0 => .thursday
  | n + 1 => (dayOfWeek n).next

/-! ### The next day and the day before -/

variable {y : ℤ} {m : ℕ} {date : Date}

theorem monthStart_succ (y : ℤ) (m : ℕ) : monthStart y (m + 1) = monthStart y m + monthLength y m :=
  Finset.sum_range_succ _ m

theorem monthLength_pos_iff : 0 < monthLength y m ↔ 1 ≤ m ∧ m ≤ 12 := by
  constructor
  · intro h
    by_contra hm
    have : monthLength y m = 0 := by
      unfold monthLength
      split <;> omega
    omega
  · rintro ⟨hlow, hhigh⟩
    by_cases hleap : IsLeap y <;> interval_cases m <;> simp [monthLength, hleap]

theorem monthLength_le : monthLength y m ≤ 31 := by
  unfold monthLength
  split
  · split_ifs <;> omega
  all_goals omega

theorem Date.Valid.month (h : date.Valid) : 1 ≤ date.month ∧ date.month ≤ 12 :=
  monthLength_pos_iff.1 (Nat.lt_of_lt_of_le h.1 h.2)

/-- The start of each month, by name of the month and whether the year is a leap year. -/
theorem monthStart_eq (hm : 1 ≤ m ∧ m ≤ 12) :
    monthStart y m =
      if m ≤ 2 then 31 * (m - 1) else (153 * (m - 3) + 2) / 5 + if IsLeap y then 60 else 59 := by
  obtain ⟨hlow, hhigh⟩ := hm
  induction m, hlow using Nat.le_induction with
  | base => rfl
  | succ m hlow ih =>
    rw [monthStart_succ, ih (by omega)]
    have hlast : m ≤ 11 := by omega
    by_cases hleap : IsLeap y <;> interval_cases m <;> simp [monthLength, hleap]

theorem yearStart_succ (y : ℤ) :
    yearStart (y + 1) = yearStart y + if IsLeap y then 366 else 365 := by
  by_cases h : IsLeap y
  · obtain ⟨h4, h100⟩ := h
    rw [if_pos ⟨h4, h100⟩]
    unfold yearStart
    by_cases hc : (100 : ℤ) ∣ y
    · have := h100 hc
      omega
    · omega
  · rw [if_neg h]
    unfold yearStart
    by_cases h4 : (4 : ℤ) ∣ y
    · have hc : (100 : ℤ) ∣ y ∧ ¬(400 : ℤ) ∣ y := by
        unfold IsLeap at h
        tauto
      omega
    · omega

theorem yearStart_december (y : ℤ) : yearStart (y + 1) = yearStart y + monthStart y 12 + 31 := by
  rw [yearStart_succ, monthStart_eq ⟨by decide, by decide⟩]
  by_cases h : IsLeap y <;> simp [h] <;> omega

theorem Date.next_valid (date : Date) : date.next.Valid := by
  unfold Date.next
  by_cases hday : date.day < monthLength date.year date.month
  · rw [if_pos hday]
    exact ⟨by simp, hday⟩
  · rw [if_neg hday]
    by_cases hmonth : date.month < 12
    · rw [if_pos hmonth]
      exact ⟨le_refl _, monthLength_pos_iff.2 (by simp; omega)⟩
    · rw [if_neg hmonth]
      exact ⟨le_refl _, monthLength_pos_iff.2 (by simp)⟩

theorem Date.Valid.prev (h : date.Valid) : date.prev.Valid := by
  obtain ⟨hlow, hhigh⟩ := h.month
  unfold Date.prev
  by_cases hday : 1 < date.day
  · rw [if_pos hday]
    exact ⟨by simp; omega, (Nat.sub_le _ _).trans h.2⟩
  · rw [if_neg hday]
    by_cases hmonth : 1 < date.month
    · rw [if_pos hmonth]
      exact ⟨monthLength_pos_iff.2 (by omega), le_refl _⟩
    · rw [if_neg hmonth]
      exact ⟨by simp, le_refl _⟩

theorem Date.dayCount_next (h : date.Valid) : date.next.dayCount = date.dayCount + 1 := by
  obtain ⟨hlow, hhigh⟩ := h.month
  obtain ⟨-, hlast⟩ := h
  unfold Date.next Date.dayCount
  by_cases hday : date.day < monthLength date.year date.month
  · simp only [if_pos hday]
    omega
  · rw [if_neg hday]
    by_cases hmonth : date.month < 12
    · simp only [if_pos hmonth, monthStart_succ]
      omega
    · have hdec : date.month = 12 := by omega
      have hlen : monthLength date.year 12 = 31 := rfl
      have hjan : monthStart (date.year + 1) 1 = 0 := rfl
      rw [hdec] at hday hlast
      simp only [if_neg hmonth, yearStart_december, hjan]
      rw [hdec]
      omega

theorem Date.dayCount_prev (h : date.Valid) : date.prev.dayCount = date.dayCount - 1 := by
  obtain ⟨hlow, hhigh⟩ := h.month
  obtain ⟨hfirst, -⟩ := h
  unfold Date.prev Date.dayCount
  by_cases hday : 1 < date.day
  · simp only [if_pos hday]
    omega
  · rw [if_neg hday]
    by_cases hmonth : 1 < date.month
    · have hstart := monthStart_succ date.year (date.month - 1)
      rw [Nat.sub_add_cancel hlow] at hstart
      simp only [if_pos hmonth]
      omega
    · have hjan : date.month = 1 := by omega
      have hzero : monthStart date.year 1 = 0 := rfl
      have hyear := yearStart_december (date.year - 1)
      rw [Int.sub_add_cancel] at hyear
      simp only [if_neg hmonth]
      rw [hjan, hzero]
      omega

/-- **Every number is the count of a day.** -/
theorem exists_date (n : ℤ) : ∃ date : Date, date.Valid ∧ date.dayCount = n := by
  induction n using Int.induction_on with
  | zero => exact ⟨⟨1970, 1, 1⟩, by decide, by decide⟩
  | succ i ih =>
    obtain ⟨date, hvalid, hcount⟩ := ih
    exact ⟨date.next, date.next_valid, by rw [Date.dayCount_next hvalid, hcount]⟩
  | pred i ih =>
    obtain ⟨date, hvalid, hcount⟩ := ih
    exact ⟨date.prev, hvalid.prev, by rw [Date.dayCount_prev hvalid, hcount]⟩

/-! ### Years that start in March -/

/-- The year of a date and its month within it, counted from March. -/
def Date.marchYear (date : Date) : ℤ := if date.month ≤ 2 then date.year - 1 else date.year

def Date.marchMonth (date : Date) : ℕ := if date.month ≤ 2 then date.month + 9 else date.month - 3

/-- The day of a date within its year from March. -/
def Date.marchDay (date : Date) : ℕ := (153 * date.marchMonth + 2) / 5 + date.day - 1

/-- **The leap day is the last of a year from March**, so the count of a date needs no case for
it. -/
theorem Date.dayCount_march (h : date.Valid) :
    date.dayCount + 719468 =
      365 * date.marchYear + date.marchYear / 4 - date.marchYear / 100 + date.marchYear / 400 +
        date.marchDay := by
  have hmonth := h.month
  have hday := h.1
  have hstart := monthStart_eq (y := date.year) hmonth
  have hyear := yearStart_succ date.year
  unfold Date.dayCount Date.marchDay Date.marchMonth Date.marchYear
  have h1970 : yearStart 1970 = 719527 := by decide
  by_cases hm : date.month ≤ 2
  · simp only [hm, if_true] at hstart ⊢
    rw [h1970, hstart, yearStart]
    obtain ⟨hlow, hhigh⟩ := hmonth
    have : date.month = 1 ∨ date.month = 2 := by omega
    rcases this with hone | htwo
    · rw [hone]
      omega
    · rw [htwo]
      omega
  · simp only [hm, if_false] at hstart ⊢
    rw [h1970, hstart]
    unfold yearStart at hyear ⊢
    split_ifs at hyear ⊢ <;> omega

/-- The days of a month fit between the starts of the months, counted from March. -/
theorem Date.Valid.marchDay (h : date.Valid) :
    date.marchMonth < 12 ∧ (5 * date.marchDay + 2) / 153 = date.marchMonth ∧
      date.marchDay < 365 + if IsLeap (date.marchYear + 1) then 1 else 0 := by
  obtain ⟨hlow, hhigh⟩ := h.month
  obtain ⟨hfirst, hlast⟩ := h
  unfold Date.marchDay Date.marchMonth Date.marchYear
  rcases date with ⟨year, month, day⟩
  dsimp only at hlow hhigh hfirst hlast ⊢
  interval_cases month <;> simp only [monthLength] at hlast <;> norm_num <;> split_ifs at *
    <;> omega

/-! ### The year of a day within an era -/

/-- The days of an era of 400 years before its year `yoe`. -/
def eraStart (yoe : ℕ) : ℕ := 365 * yoe + yoe / 4 - yoe / 100

theorem eraDays_div {c b r doy : ℕ} (hc : c < 4) (hb : b < 25)
    (hdoy : r < 4 ∧ (doy < 365 ∨ doy = 365 ∧ r = 3 ∧ (b = 24 → c = 3))) :
    (36524 * c + 1461 * b + 365 * r + doy - (36524 * c + 1461 * b + 365 * r + doy) / 1460 +
      (36524 * c + 1461 * b + 365 * r + doy) / 36524 -
        (36524 * c + 1461 * b + 365 * r + doy) / 146096) / 365 = 100 * c + 4 * b + r := by
  obtain ⟨t, ht⟩ : ∃ t, t = 24 * c + b + 365 * r + doy := ⟨_, rfl⟩
  obtain ⟨e, he⟩ : ∃ e, e = 36524 * c + 1461 * b + 365 * r + doy := ⟨_, rfl⟩
  rw [← he]
  have hfours : e / 1460 = 25 * c + b + t / 1460 := by omega
  have hcents : e / 36524 = c + e / 146096 := by
    by_cases hlast : 1461 * b + 365 * r + doy = 36524
    · have : e = 146096 := by omega
      omega
    · have hlow : e / 36524 = c := by omega
      omega
  have hrest : e - e / 1460 + e / 36524 - e / 146096 = 365 * (100 * c + 4 * b + r) +
      (doy - t / 1460) := by
    have : t / 1460 ≤ 1 := by omega
    omega
  rw [hrest]
  omega

/-- **The year of a day within an era by division**: one day off in 1460, back in 36524, off in
146096, leaves 365 days a year. -/
theorem yearOfEra_eq {yoe doy : ℕ} (hyoe : yoe < 400)
    (hdoy : doy < 365 + if IsLeap (yoe + 1) then 1 else 0) :
    (eraStart yoe + doy - (eraStart yoe + doy) / 1460 + (eraStart yoe + doy) / 36524 -
      (eraStart yoe + doy) / 146096) / 365 = yoe := by
  -- the last day of a year is day 365 only in a leap year, which is the last of its four years
  have hleap : doy < 365 ∨ doy = 365 ∧ yoe % 4 = 3 ∧ (yoe % 100 = 99 → yoe = 399) := by
    by_cases h : IsLeap (yoe + 1)
    · rw [if_pos h] at hdoy
      obtain ⟨h4, h100⟩ := h
      by_cases hlt : doy < 365
      · exact .inl hlt
      · refine .inr ⟨by omega, by omega, fun h99 => ?_⟩
        have := h100 (by omega)
        omega
    · rw [if_neg h] at hdoy
      exact .inl hdoy
  unfold eraStart
  obtain ⟨c, b, r, hyear, hc, hb, hr⟩ :
      ∃ c b r, yoe = 100 * c + 4 * b + r ∧ c < 4 ∧ b < 25 ∧ r < 4 :=
    ⟨yoe / 100, yoe % 100 / 4, yoe % 4, by omega, by omega, by omega, by omega⟩
  have hstart : 365 * yoe + yoe / 4 - yoe / 100 = 36524 * c + 1461 * b + 365 * r := by omega
  rw [hstart, hyear]
  exact eraDays_div hc hb (by omega)

end Calendar
