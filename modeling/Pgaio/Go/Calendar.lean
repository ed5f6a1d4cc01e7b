import Mathlib.Tactic.LinearCombination
import Mathlib.Tactic.Ring
import Pgaio.Go.Time

/-!
# Calendar — dates and clocks in a fixed zone

`time.Date`, `AddDate` and the fields of a `time.Time` in a location with a fixed offset.  Days are
numbered from 1 January of the year 1, a Monday; a date of the calendar is taken from the number of
its day and turned into it again (`dayNumber_dateOfDay`).  So `Date` with the fields of an instant
is the midnight of its day, and the days that `AddDate` adds move it by whole days, whatever months
and years they cross (`addDate_days`).
-/

namespace Pgaio
namespace Go

/-- `time.FixedZone(name, offset)`: the offset from UTC. -/
structure Location where
  offset : Duration
  deriving DecidableEq, Repr

/-- `time.FixedZone`; the offset is in seconds. -/
def fixedZone (offset : Int) : Location where
  offset := offset * nanosecondsPerSecond

/-! ## Days and dates -/

def isLeapYear (year : Int) : Bool :=
  decide (year % 4 = 0 ∧ (year % 100 ≠ 0 ∨ year % 400 = 0))

/-- The day number of 1 January. -/
def yearStart (year : Int) : Int :=
  365 * (year - 1) + (year - 1) / 4 - (year - 1) / 100 + (year - 1) / 400

/-- The days of a year without leap day that are before the month, counted from 0 for January. -/
def daysBefore (month : Nat) : Nat :=
  [0, 31, 59, 90, 120, 151, 181, 212, 243, 273, 304, 334, 365].getD month 365

/-- The month of a day of a year without leap day, both counted from 0.  A month has 31 days at
most, so dividing by 31 gives the month or the one before it. -/
def monthOfDay (yday : Nat) : Nat :=
  let month := yday / 31
  if daysBefore (month + 1) ≤ yday then month + 1 else month

/-- A date as `time.Date` takes it; the month and the day may lie outside their ranges. -/
structure Date where
  year : Int
  month : Int
  day : Int
  deriving DecidableEq, Repr

/-- The number of the day that `time.Date` makes of a date. -/
def Date.dayNumber (date : Date) : Int :=
  -- Months outside 1..12 count into the years before and after.
  let year := date.year + (date.month - 1) / 12
  let month := ((date.month - 1) % 12).toNat
  let leapDay : Int := if isLeapYear year ∧ 2 ≤ month then 1 else 0
  yearStart year + daysBefore month + leapDay + (date.day - 1)

/-- The year of a day, and the days of the year before it. -/
def yearOfDay (n : Int) : Int × Int :=
  -- Cycles of 400, 100 and 4 years, then years.  The last century of 400 years and the last year of
  -- four have a day more than the others.
  let n400 := n / 146097
  let d := n % 146097
  let n100 := min (d / 36524) 3
  let d := d - 36524 * n100
  let n4 := d / 1461
  let d := d - 1461 * n4
  let n1 := min (d / 365) 3
  (400 * n400 + 100 * n100 + 4 * n4 + n1 + 1, d - 365 * n1)

/-- The date of a day of the given year. -/
def dateInYear (year : Int) (yday : Nat) : Date :=
  if isLeapYear year ∧ yday = 59 then { year := year, month := 2, day := 29 }
  else
    -- After the leap day the months are those of another year, a day later.
    let yday := if isLeapYear year ∧ 59 < yday then yday - 1 else yday
    let month := monthOfDay yday
    { year := year
      month := month + 1
      day := yday - daysBefore month + 1 }

def dateOfDay (n : Int) : Date :=
  dateInYear (yearOfDay n).1 (yearOfDay n).2.toNat

/-! ## Back from the date to the day -/

/-- A year as cycles of 400, 100 and 4 years, counted from the year 1, and single years. -/
structure Cycles (n400 n100 n4 n1 : Int) : Prop where
  n100_range : 0 ≤ n100 ∧ n100 ≤ 3
  n4_range : 0 ≤ n4 ∧ n4 ≤ 24
  n1_range : 0 ≤ n1 ∧ n1 ≤ 3

theorem yearStart_cycles {n400 n100 n4 n1 : Int} (h : Cycles n400 n100 n4 n1) :
    yearStart (400 * n400 + 100 * n100 + 4 * n4 + n1 + 1) =
      146097 * n400 + 36524 * n100 + 1461 * n4 + 365 * n1 := by
  obtain ⟨h100, h4, h1⟩ := h
  generalize hp : 400 * n400 + 100 * n100 + 4 * n4 + n1 = p
  have hp4 : p / 4 = 100 * n400 + 25 * n100 + n4 := by omega
  have hp100 : p / 100 = 4 * n400 + n100 := by omega
  have hp400 : p / 400 = n400 := by omega
  unfold yearStart
  rw [add_sub_cancel_right, hp4, hp100, hp400]
  omega

/-- The last year of four is a leap year, but of the ends of centuries only every fourth one. -/
theorem isLeapYear_cycles {n400 n100 n4 : Int} (h : Cycles n400 n100 n4 3)
    (hend : n4 ≠ 24 ∨ n100 = 3) :
    isLeapYear (400 * n400 + 100 * n100 + 4 * n4 + 3 + 1) = true := by
  obtain ⟨h100, h4, -⟩ := h
  apply decide_eq_true
  omega

/-- Days left over by the cycles: fewer than 365, or 365 in the last year of a cycle of four. -/
theorem yearOfDay_cycles (n : Int) :
    ∃ n400 n100 n4 n1 yday, Cycles n400 n100 n4 n1 ∧
      yearOfDay n = (400 * n400 + 100 * n100 + 4 * n4 + n1 + 1, yday) ∧
      n = 146097 * n400 + 36524 * n100 + 1461 * n4 + 365 * n1 + yday ∧ 0 ≤ yday ∧
      (yday < 365 ∨ yday = 365 ∧ n1 = 3 ∧ (n4 ≠ 24 ∨ n100 = 3)) := by
  unfold yearOfDay
  dsimp only
  -- Each quotient is named with its range before the next one is taken.
  generalize hn400 : n / 146097 = n400
  generalize hd : n % 146097 = d
  generalize hn100 : min (d / 36524) 3 = n100
  have h100 : 0 ≤ n100 ∧ n100 ≤ 3 := by omega
  generalize hcentury : d - 36524 * n100 = century
  have hcenturyRange : 0 ≤ century ∧ (century < 36524 ∨ century = 36524 ∧ n100 = 3) := by omega
  generalize hn4 : century / 1461 = n4
  have h4 : 0 ≤ n4 ∧ n4 ≤ 24 := by omega
  generalize hfour : century - 1461 * n4 = four
  have hfourRange : 0 ≤ four ∧ four < 1461 ∧ (four = 1460 → n4 ≠ 24 ∨ n100 = 3) := by omega
  generalize hn1 : min (four / 365) 3 = n1
  have h1 : 0 ≤ n1 ∧ n1 ≤ 3 := by omega
  have hn : n = 146097 * n400 + d := by omega
  exact ⟨n400, n100, n4, n1, four - 365 * n1, ⟨h100, h4, h1⟩, rfl, by omega, by omega, by omega⟩

theorem yearStart_yearOfDay (n : Int) : yearStart (yearOfDay n).1 + (yearOfDay n).2 = n := by
  obtain ⟨n400, n100, n4, n1, yday, hcycles, hyear, hn, -⟩ := yearOfDay_cycles n
  rw [hyear, yearStart_cycles hcycles, ← hn]

/-- Only a leap year has a day after its first 365. -/
theorem yearOfDay_range (n : Int) :
    0 ≤ (yearOfDay n).2 ∧
      ((yearOfDay n).2 < 365 ∨ (yearOfDay n).2 = 365 ∧ isLeapYear (yearOfDay n).1 = true) := by
  obtain ⟨n400, n100, n4, n1, yday, hcycles, hyear, -, hpos, hrange⟩ := yearOfDay_cycles n
  rw [hyear]
  refine ⟨hpos, ?_⟩
  rcases hrange with hlt | ⟨hlast, rfl, hend⟩
  · exact Or.inl hlt
  · exact Or.inr ⟨hlast, isLeapYear_cycles hcycles hend⟩

theorem monthOfDay_spec : ∀ yday < 365,
    monthOfDay yday < 12 ∧ daysBefore (monthOfDay yday) ≤ yday ∧
      (2 ≤ monthOfDay yday ↔ 59 ≤ yday) := by
  decide +kernel

theorem dayNumber_month {year day : Int} {month : Nat} (hmonth : month < 12) :
    Date.dayNumber { year := year, month := month + 1, day := day } =
      yearStart year + daysBefore month + (if isLeapYear year ∧ 2 ≤ month then 1 else 0) +
        (day - 1) := by
  have hyear : year + ((month : Int) + 1 - 1) / 12 = year := by omega
  have hindex : (((month : Int) + 1 - 1) % 12).toNat = month := by omega
  unfold Date.dayNumber
  dsimp only
  rw [hyear, hindex]

theorem dayNumber_dateInYear {year : Int} {yday : Nat}
    (hyday : yday < 365 ∨ yday = 365 ∧ isLeapYear year = true) :
    (dateInYear year yday).dayNumber = yearStart year + yday := by
  unfold dateInYear
  by_cases hleap : isLeapYear year = true
  · by_cases hleapDay : yday = 59
    · -- 29 February
      rw [if_pos ⟨hleap, hleapDay⟩, hleapDay]
      calc
        Date.dayNumber { year := year, month := (1 : Nat) + 1, day := 29 }
          = yearStart year + daysBefore 1 + (if isLeapYear year ∧ 2 ≤ 1 then 1 else 0) +
              (29 - 1) := dayNumber_month (show 1 < 12 by decide)
        _ = yearStart year + (59 : Nat) := by
          rw [if_neg fun h => absurd h.2 (by decide)]
          have htable : daysBefore 1 = 31 := rfl
          omega
    · rw [if_neg fun h => hleapDay h.2]
      by_cases hafter : 59 < yday
      · obtain ⟨hmonth, hbefore, hmarch⟩ := monthOfDay_spec (yday - 1) (by omega)
        simp only [hleap, hafter, and_self, if_true]
        rw [dayNumber_month hmonth, if_pos ⟨hleap, hmarch.2 (by omega)⟩]
        omega
      · obtain ⟨hmonth, hbefore, hmarch⟩ := monthOfDay_spec yday (by omega)
        simp only [hafter, and_false, if_false]
        rw [dayNumber_month hmonth, if_neg fun h => by have := hmarch.1 h.2; omega]
        omega
  · obtain ⟨hmonth, hbefore, -⟩ := monthOfDay_spec yday (by grind)
    simp only [hleap, false_and, if_false, Bool.false_eq_true]
    rw [dayNumber_month hmonth, if_neg fun h => hleap h.1]
    omega

/-- The date of a day is that of no other day. -/
theorem dayNumber_dateOfDay (n : Int) : (dateOfDay n).dayNumber = n := by
  obtain ⟨hpos, hrange⟩ := yearOfDay_range n
  have hcast : (((yearOfDay n).2.toNat : Nat) : Int) = (yearOfDay n).2 := Int.toNat_of_nonneg hpos
  calc
    (dateOfDay n).dayNumber
      = yearStart (yearOfDay n).1 + ((yearOfDay n).2.toNat : Nat) := by
        apply dayNumber_dateInYear
        rcases hrange with hlt | ⟨hlast, hleap⟩
        · exact Or.inl (by omega)
        · exact Or.inr ⟨by omega, hleap⟩
    _ = yearStart (yearOfDay n).1 + (yearOfDay n).2 := by rw [hcast]
    _ = n := yearStart_yearOfDay n

/-- Days are counted across the ends of months and years. -/
theorem dayNumber_add_days (date : Date) (days : Int) :
    Date.dayNumber { date with day := date.day + days } = date.dayNumber + days := by
  unfold Date.dayNumber
  dsimp only
  ring

/-! ## Instants in a zone -/

/-- `time.Date`. -/
def date (date : Date) (hour min sec nsec : Int) (loc : Location) : Time :=
  date.dayNumber * Duration.day + hour * Duration.hour + min * Duration.minute +
    sec * nanosecondsPerSecond + nsec - loc.offset

namespace Time

/-- The number of the day on which the instant falls. -/
def dayIn (t : Time) (loc : Location) : Int :=
  (t + loc.offset) / Duration.day

/-- The nanoseconds since midnight. -/
def sinceMidnight (t : Time) (loc : Location) : Duration :=
  (t + loc.offset) % Duration.day

/-- `t.Date()`. -/
def dateIn (t : Time) (loc : Location) : Date :=
  dateOfDay (t.dayIn loc)

/-- `t.Weekday()`, from 0 for Sunday. -/
def weekdayIn (t : Time) (loc : Location) : Int :=
  (t.dayIn loc + 1) % 7

def hourIn (t : Time) (loc : Location) : Int :=
  t.sinceMidnight loc / Duration.hour

def minuteIn (t : Time) (loc : Location) : Int :=
  t.sinceMidnight loc % Duration.hour / Duration.minute

def secondIn (t : Time) (loc : Location) : Int :=
  t.sinceMidnight loc % Duration.minute / nanosecondsPerSecond

def nanosecondIn (t : Time) (loc : Location) : Int :=
  t.sinceMidnight loc % nanosecondsPerSecond

/-- `t.AddDate(years, months, days)`. -/
def addDate (t : Time) (loc : Location) (years months days : Int) : Time :=
  let d := t.dateIn loc
  date { year := d.year + years, month := d.month + months, day := d.day + days } (t.hourIn loc)
    (t.minuteIn loc) (t.secondIn loc) (t.nanosecondIn loc) loc

/-! ## The fields determine the instant -/

theorem clock_eq (t : Time) (loc : Location) :
    t.hourIn loc * Duration.hour + t.minuteIn loc * Duration.minute +
      t.secondIn loc * nanosecondsPerSecond + t.nanosecondIn loc = t.sinceMidnight loc := by
  unfold hourIn minuteIn secondIn nanosecondIn
  generalize t.sinceMidnight loc = ns
  unfold Duration.hour Duration.minute nanosecondsPerSecond Duration at *
  omega

theorem day_add_sinceMidnight (t : Time) (loc : Location) :
    t.dayIn loc * Duration.day + t.sinceMidnight loc = t + loc.offset :=
  Int.ediv_mul_add_emod _ _

/-- Adding days to a date of the calendar adds days to the instant. -/
theorem addDate_days (t : Time) (loc : Location) (days : Int) :
    t.addDate loc 0 0 days = t + days * Duration.day := by
  have hclock := clock_eq t loc
  have hday := day_add_sinceMidnight t loc
  have hnumber : Date.dayNumber
      { year := (t.dateIn loc).year + 0, month := (t.dateIn loc).month + 0,
        day := (t.dateIn loc).day + days } = t.dayIn loc + days := by
    rw [add_zero, add_zero]
    calc
      Date.dayNumber { t.dateIn loc with day := (t.dateIn loc).day + days }
        = (t.dateIn loc).dayNumber + days := dayNumber_add_days _ _
      _ = t.dayIn loc + days := by rw [dateIn, dayNumber_dateOfDay]
  unfold addDate date
  dsimp only
  rw [hnumber]
  linear_combination hclock + hday

/-- `Date` with the date of an instant, at some hour of its day. -/
theorem date_dateIn (t : Time) (loc : Location) (hour : Int) :
    date (t.dateIn loc) hour 0 0 0 loc = t.dayIn loc * Duration.day + hour * Duration.hour -
      loc.offset := by
  unfold date
  rw [dateIn, dayNumber_dateOfDay]
  ring

end Time
end Go
end Pgaio
