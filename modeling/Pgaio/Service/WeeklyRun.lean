import Mathlib.Order.Bounds.Basic
import Pgaio.Go.Calendar
import Pgaio.Service.Scheduler

/-!
# WeeklyRun — the next weekly slot on the calendar

`nextWeeklyRun` of `service/scheduler.go` once more, statement by statement over the calendar: the
date of `now` in the zone, `time.Date` with the hour of the slot, and `AddDate` to the weekday and
to the week after.  It is the function of the scheduler, which counts in days
(`nextWeeklyRun_eq`), and it returns the first slot after `now` (`next_weekly_run_least`).  The last
section says how the next slot changes as time passes.
-/

namespace Pgaio
namespace Service

open Go

namespace WeeklyRun

/-- `time.FixedZone("GMT+7", 7*60*60)`. -/
def zone : Location :=
  fixedZone (7 * 60 * 60)

/-- Sunday where the number names no day of the week. -/
def weekdayOrSunday (weekday : Int) : Int :=
  if weekday < 0 ∨ 6 < weekday then 0 else weekday

/-- Four o'clock where the number names no hour. -/
def hourOrFour (hour : Int) : Int :=
  if hour < 0 ∨ 23 < hour then 4 else hour

def nextWeeklyRun (now : Time) (weekday hour : Int) : Time :=
  let weekday := weekdayOrSunday weekday
  let hour := hourOrFour hour
  let next := date (now.dateIn zone) hour 0 0 0 zone
  -- `%` of Go takes the sign of its left side, which is positive here.
  let days := (weekday - now.weekdayIn zone + 7).tmod 7
  let next := next.addDate zone 0 0 days
  if next.after now then next else next.addDate zone 0 0 7

/-- The instant shows this weekday and hour, and no minutes, seconds or fractions. -/
structure IsSlot (weekday hour : Int) (t : Time) : Prop where
  weekday : t.weekdayIn zone = weekday
  hour : t.hourIn zone = hour
  minute : t.minuteIn zone = 0
  second : t.secondIn zone = 0
  nanosecond : t.nanosecondIn zone = 0

/-! ## The same instant by counting days -/

theorem weekdayOrSunday_range (weekday : Int) :
    0 ≤ weekdayOrSunday weekday ∧ weekdayOrSunday weekday ≤ 6 := by
  unfold weekdayOrSunday
  split <;> omega

theorem hourOrFour_range (hour : Int) : 0 ≤ hourOrFour hour ∧ hourOrFour hour ≤ 23 := by
  unfold hourOrFour
  split <;> omega

theorem weekdayIn_range (t : Time) : 0 ≤ t.weekdayIn zone ∧ t.weekdayIn zone < 7 := by
  unfold Time.weekdayIn
  omega

theorem onWeekday_eq {now : Time} {weekday hour : Int} (hweekday : 0 ≤ weekday ∧ weekday ≤ 6) :
    (date (now.dateIn zone) hour 0 0 0 zone).addDate zone 0 0
        ((weekday - now.weekdayIn zone + 7).tmod 7) =
      onWeekday now weekday hour := by
  have htoday := weekdayIn_range now
  have hmod : (weekday - now.weekdayIn zone + 7).tmod 7 = (weekday - now.weekdayIn zone + 7) % 7 :=
    Int.tmod_eq_emod_of_nonneg (by omega)
  rw [Time.addDate_days, Time.date_dateIn, hmod]
  unfold onWeekday Time.weekdayIn
  have hday : now.dayIn zone = (now + gmt7) / Duration.day := rfl
  have hoffset : zone.offset = gmt7 := rfl
  rw [hoffset, hday]
  dsimp only
  ring

theorem nextWeeklyRun_eq (now : Time) (weekday hour : Int) :
    nextWeeklyRun now weekday hour = Service.nextWeeklyRun now weekday hour := by
  unfold nextWeeklyRun Service.nextWeeklyRun
  dsimp only
  rw [onWeekday_eq (weekdayOrSunday_range weekday), Time.addDate_days]
  rfl

/-! ## Slots -/

/-- An hour of a day. -/
def hourOf (day hour : Int) : Time :=
  day * Duration.day + hour * Duration.hour - gmt7

theorem fields_hourOf {day hour : Int} (hhour : 0 ≤ hour ∧ hour ≤ 23) :
    (hourOf day hour).dayIn zone = day ∧
      (hourOf day hour).sinceMidnight zone = hour * Duration.hour := by
  have hoffset : zone.offset = gmt7 := rfl
  unfold Time.dayIn Time.sinceMidnight hourOf
  rw [hoffset, Int.sub_add_cancel]
  unfold Duration.day Duration.hour nanosecondsPerSecond
  unfold Time Duration
  omega

/-- A slot is its hour on a day of its weekday. -/
theorem isSlot_iff {weekday hour : Int} (hhour : 0 ≤ hour ∧ hour ≤ 23) {t : Time} :
    IsSlot weekday hour t ↔ ∃ day : Int, t = hourOf day hour ∧ (day + 1) % 7 = weekday := by
  constructor
  · rintro ⟨hweekday, hourEq, hminute, hsecond, hnanosecond⟩
    refine ⟨t.dayIn zone, ?_, hweekday⟩
    have hclock := Time.clock_eq t zone
    have hday := Time.day_add_sinceMidnight t zone
    rw [hourEq, hminute, hsecond, hnanosecond] at hclock
    have hoffset : zone.offset = gmt7 := rfl
    unfold hourOf
    rw [← hoffset]
    linear_combination -hclock - hday
  · rintro ⟨day, rfl, hweekday⟩
    have hfields : (hourOf day hour).dayIn zone = day ∧
        (hourOf day hour).sinceMidnight zone = hour * Duration.hour := fields_hourOf hhour
    rcases hfields with ⟨hday, hsince⟩
    -- Nothing is left below the hours.
    refine ⟨?_, ?_, ?_, ?_, ?_⟩
    · unfold Time.weekdayIn
      rw [hday, hweekday]
    · unfold Time.hourIn
      rw [hsince]
      exact Int.mul_ediv_cancel hour (by decide)
    · unfold Time.minuteIn
      rw [hsince, Int.mul_emod_left]
      rfl
    · unfold Time.secondIn
      -- An hour is sixty minutes.
      have hminutes : hour * Duration.hour = hour * 60 * Duration.minute := by
        rw [mul_assoc]
        rfl
      rw [hsince, hminutes, Int.mul_emod_left]
      rfl
    · unfold Time.nanosecondIn
      have hseconds : hour * Duration.hour = hour * 3600 * nanosecondsPerSecond := by
        rw [mul_assoc]
        rfl
      rw [hsince, hseconds, Int.mul_emod_left]

/-! ## The first slot -/

theorem hourOf_le_hourOf {a b hour : Int} : hourOf a hour ≤ hourOf b hour ↔ a ≤ b := by
  unfold hourOf Duration.day Duration.hour nanosecondsPerSecond
  unfold Time Duration
  omega

theorem hourOf_add_week (day hour : Int) :
    hourOf (day + 7) hour = hourOf day hour + 7 * Duration.day := by
  unfold hourOf
  ring

/-- A slot after `now` is on the day of `now` or later. -/
theorem today_le_of_lt {now : Time} {day hour : Int} (hhour : 0 ≤ hour ∧ hour ≤ 23)
    (hafter : now < hourOf day hour) : now.dayIn zone ≤ day := by
  have hoffset : zone.offset = gmt7 := rfl
  unfold Time.dayIn
  rw [hoffset]
  unfold hourOf at hafter
  unfold Duration.day Duration.hour nanosecondsPerSecond at *
  unfold Time Duration at *
  omega

/-- The first day of the weekday, from today on. -/
def firstDay (now : Time) (weekday : Int) : Int :=
  now.dayIn zone + (weekday - now.weekdayIn zone + 7) % 7

theorem onWeekday_eq_hourOf (now : Time) (weekday hour : Int) :
    onWeekday now weekday hour = hourOf (firstDay now weekday) hour :=
  rfl

theorem firstDay_weekday (now : Time) {weekday : Int} (hweekday : 0 ≤ weekday ∧ weekday ≤ 6) :
    (firstDay now weekday + 1) % 7 = weekday := by
  unfold firstDay Time.weekdayIn
  omega

/-- Days of one weekday are whole weeks apart. -/
theorem firstDay_le {now : Time} {weekday day : Int} (htoday : now.dayIn zone ≤ day)
    (hday : (day + 1) % 7 = weekday) :
    day = firstDay now weekday ∨ firstDay now weekday + 7 ≤ day := by
  unfold firstDay Time.weekdayIn
  omega

/-- The slots after `now`. -/
def slotsAfter (now : Time) (weekday hour : Int) : Set Time :=
  {t | now < t ∧ IsSlot weekday hour t}

theorem isLeast_nextWeeklyRun (now : Time) (weekday hour : Int) :
    IsLeast (slotsAfter now (weekdayOrSunday weekday) (hourOrFour hour))
      (nextWeeklyRun now weekday hour) := by
  have hweekday := weekdayOrSunday_range weekday
  have hhour := hourOrFour_range hour
  have hnext : nextWeeklyRun now weekday hour =
      if now < hourOf (firstDay now (weekdayOrSunday weekday)) (hourOrFour hour) then
        hourOf (firstDay now (weekdayOrSunday weekday)) (hourOrFour hour)
      else hourOf (firstDay now (weekdayOrSunday weekday) + 7) (hourOrFour hour) := by
    rw [nextWeeklyRun_eq, hourOf_add_week, ← onWeekday_eq_hourOf]
    simp only [Service.nextWeeklyRun, Time.after, decide_eq_true_eq]
    rfl
  have hfirst := firstDay_weekday now hweekday
  have hlater : (firstDay now (weekdayOrSunday weekday) + 7 + 1) % 7 = weekdayOrSunday weekday := by
    omega
  have hbounds := (nextWeeklyRun_bounds now weekday hour).1
  rw [← nextWeeklyRun_eq] at hbounds
  refine ⟨⟨hbounds, ?_⟩, ?_⟩
  · rw [hnext, isSlot_iff hhour]
    split
    · exact ⟨_, rfl, hfirst⟩
    · exact ⟨_, rfl, hlater⟩
  · rintro t ⟨hafter, hslot⟩
    obtain ⟨day, rfl, hday⟩ := (isSlot_iff hhour).1 hslot
    rw [hnext]
    rcases firstDay_le (today_le_of_lt hhour hafter) hday with rfl | hweek
    · -- The slot of the first day is taken when it lies ahead, and this one does.
      rw [if_pos hafter]
    · split
      · exact hourOf_le_hourOf.2 (by omega)
      · exact hourOf_le_hourOf.2 hweek

/-- The next run is the first instant after `now` on the weekday and at the hour in the zone, and
no more than a week away. -/
theorem next_weekly_run_least (now : Time) (weekday hour : Int) :
    IsLeast (slotsAfter now (weekdayOrSunday weekday) (hourOrFour hour))
        (nextWeeklyRun now weekday hour) ∧
      nextWeeklyRun now weekday hour ≤ now + 7 * Duration.day := by
  refine ⟨isLeast_nextWeeklyRun now weekday hour, ?_⟩
  rw [nextWeeklyRun_eq]
  exact (nextWeeklyRun_bounds now weekday hour).2

/-- Tuesday 22 September 2026, 10:30 in the zone; the slot is on the Sunday after. -/
example :
    nextWeeklyRun
        (date { year := 2026, month := 9, day := 22 } 3 30 0 0 { offset := 0 }) 0 2 =
      date { year := 2026, month := 9, day := 27 } 2 0 0 0 zone := by
  decide +kernel

/-! ## From one slot to the next -/

section Order

variable {a b : Time} {weekday hour : Int}

/-- The first slot after `a` is the least one, also for the function that counts days. -/
theorem isLeast_slotsAfter (a : Time) (weekday hour : Int) :
    IsLeast (slotsAfter a (weekdayOrSunday weekday) (hourOrFour hour))
      (Service.nextWeeklyRun a weekday hour) := by
  rw [← nextWeeklyRun_eq]
  exact isLeast_nextWeeklyRun a weekday hour

theorem nextWeeklyRun_mono (h : a ≤ b) :
    Service.nextWeeklyRun a weekday hour ≤ Service.nextWeeklyRun b weekday hour := by
  obtain ⟨hafter, hslot⟩ := (isLeast_slotsAfter b weekday hour).1
  exact (isLeast_slotsAfter a weekday hour).2 ⟨lt_of_le_of_lt h hafter, hslot⟩

/-- Up to the slot it stays the next one. -/
theorem nextWeeklyRun_of_between (h : a ≤ b) (hb : b < Service.nextWeeklyRun a weekday hour) :
    Service.nextWeeklyRun b weekday hour = Service.nextWeeklyRun a weekday hour := by
  have hslot := (isLeast_slotsAfter a weekday hour).1.2
  exact le_antisymm ((isLeast_slotsAfter b weekday hour).2 ⟨hb, hslot⟩) (nextWeeklyRun_mono h)

/-- After the slot the next one is a week later, or still later. -/
theorem nextWeeklyRun_of_passed (h : Service.nextWeeklyRun a weekday hour ≤ b) :
    Service.nextWeeklyRun a weekday hour + 7 * Duration.day ≤ Service.nextWeeklyRun b weekday hour := by
  have hhour := hourOrFour_range hour
  obtain ⟨hafter, hslotB⟩ := (isLeast_slotsAfter b weekday hour).1
  obtain ⟨dayA, hdayA, hweekdayA⟩ := (isSlot_iff hhour).1 (isLeast_slotsAfter a weekday hour).1.2
  obtain ⟨dayB, hdayB, hweekdayB⟩ := (isSlot_iff hhour).1 hslotB
  have hlt := lt_of_le_of_lt h hafter
  rw [hdayA, hdayB] at hlt
  rw [hdayA, hdayB, ← hourOf_add_week]
  have hdays : dayA < dayB := by
    by_contra hge
    exact absurd hlt (not_lt.2 (hourOf_le_hourOf.2 (not_lt.1 hge)))
  exact hourOf_le_hourOf.2 (by omega)

end Order

end WeeklyRun
end Service
end Pgaio
