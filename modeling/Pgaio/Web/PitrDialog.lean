import Mathlib.Data.List.DropRight
import Pgaio.Go.TimeText
import Pgaio.Service.WalGRecovery
import Pgaio.Service.WalGRetry

/-!
# PitrDialog — from the time that is picked to the recovery target

`_executePITR` of `web/static/js/backup.js` in front of `RestoreBackup`.  The input of the dialog holds a date
and time in the form of HTML, in which the seconds may be missing; the dialog puts a blank in the place of its
`T`.  `pitr_target` follows it through `parseWalgTime` into postgresql.auto.conf.
-/

namespace Pgaio
namespace Web

open Go Model Service Concurrency

/-! ## The input -/

/-- A local date and time of HTML; the seconds come with the digits of their fraction. -/
structure LocalDateTime where
  year : Nat
  month : Nat
  day : Nat
  hour : Nat
  minute : Nat
  seconds : Option (Nat × List Char) := none
  year_pos : 1 ≤ year := by decide
  month_range : 1 ≤ month ∧ month ≤ 12 := by decide
  day_range : 1 ≤ day ∧ day ≤ daysIn month year := by decide
  hour_lt : hour < 24 := by decide
  minute_lt : minute < 60 := by decide
  second_lt : ∀ s ∈ seconds, s.1 < 60 := by decide
  fraction : ∀ s ∈ seconds, s.2.length ≤ 3 ∧ ∀ c ∈ s.2, isDigit c = true := by decide

namespace LocalDateTime

def secondsChars : Option (Nat × List Char) → List Char
  | none => []
  | some (s, []) => ':' :: (padLeft 2 s).toList
  | some (s, c :: cs) => ':' :: ((padLeft 2 s).toList ++ '.' :: c :: cs)

def dateChars (d : LocalDateTime) : List Char :=
  (padLeft 4 d.year).toList ++ '-' :: ((padLeft 2 d.month).toList ++ '-' :: (padLeft 2 d.day).toList)

def timeChars (d : LocalDateTime) : List Char :=
  (padLeft 2 d.hour).toList ++ ':' :: ((padLeft 2 d.minute).toList ++ secondsChars d.seconds)

/-- The value of the input. -/
def value (d : LocalDateTime) : String :=
  String.ofList (d.dateChars ++ 'T' :: d.timeChars)

/-- The moment at which it is this time in UTC. -/
def time (d : LocalDateTime) : Time :=
  Fields.time
    { year := d.year
      month := d.month
      day := d.day
      hour := d.hour
      min := d.minute
      sec := (d.seconds.map Prod.fst).getD 0
      nsec :=
        match d.seconds with
        | none => 0
        | some (_, digits) => (decimal digits).getD 0 * 10 ^ (9 - digits.length) }

end LocalDateTime

/-! ## The dialog -/

/-- The characters that `trim` takes away. -/
def isJSSpace (c : Char) : Bool :=
  ['\t', '\n', '\x0b', '\x0c', '\r', ' ', '\xa0', '\u1680', '\u2028', '\u2029', '\u202f', '\u205f', '\u3000',
    '\ufeff'].contains c || (0x2000 ≤ c.toNat && c.toNat ≤ 0x200a)

def jsTrim (s : String) : String :=
  String.ofList ((s.toList.dropWhile isJSSpace).rdropWhile isJSSpace)

/-- `s.replace(old, new)` for single characters: the first one only. -/
def replaceFirst (old new : Char) : List Char → List Char
  | [] => []
  | c :: cs => if c = old then new :: cs else c :: replaceFirst old new cs

/-- `_executePITR`: the request, or what is shown instead. -/
def executePITR (targetTime confirmText : String) : Except String RestoreRequest :=
  if targetTime = "" then .error "select a target date & time"
  else if jsTrim confirmText ≠ "PITR_CONFIRM" then .error "type PITR_CONFIRM to proceed"
  else
    .ok
      { backupName := "LATEST"
        targetTime := String.ofList (replaceFirst 'T' ' ' targetTime.toList) }

theorem replaceFirst_append {old new : Char} {before after : List Char} (h : old ∉ before) :
    replaceFirst old new (before ++ old :: after) = before ++ new :: after := by
  induction before with
  | nil => simp [replaceFirst]
  | cons c before ih =>
      rw [List.mem_cons, not_or] at h
      simp [replaceFirst, Ne.symm h.1, ih h.2]

/-! ## What is read of it -/

namespace LocalDateTime

variable (d : LocalDateTime)

/-- The value with the blank. -/
def target : String :=
  String.ofList (d.dateChars ++ ' ' :: d.timeChars)

theorem letter_notMem_dateChars : 'T' ∉ d.dateChars := by
  intro hmem
  have hdigit : ∀ w n, 'T' ∉ (padLeft w n).toList := fun w n hmem =>
    absurd (isDigit_of_mem_padLeft hmem) (by decide)
  simp [dateChars, hdigit] at hmem

/-- The year, the month and the day. -/
def dateFields : Fields where
  year := d.year
  month := d.month
  day := d.day

def dateLayout : List Chunk :=
  [.longYear, .lit '-', .zeroMonth, .lit '-', .zeroDay]

theorem parseFields_date (hyear : d.year < 10000) (layout : List Chunk) (rest : List Char) :
    parseFields (dateLayout ++ layout) (d.dateChars ++ rest) {} = parseFields layout rest d.dateFields := by
  have hday : d.day < 100 := by
    have hdays : ∀ month year, daysIn month year ≤ 31 := by
      intro month year
      unfold daysIn
      split_ifs <;> omega
    have hle := hdays d.month d.year
    have hrange := d.day_range.2
    omega
  simp only [dateChars, dateLayout, List.append_assoc, List.cons_append, List.nil_append]
  rw [parseFields_longYear hyear, parseFields_lit (by decide),
    parseFields_zeroMonth d.month_range.1 d.month_range.2, parseFields_lit (by decide),
    parseFields_zeroDay hday]
  rfl

theorem parseFields_longDate (hyear : 10000 ≤ d.year) (layout : List Chunk) (rest : List Char) :
    parseFields (dateLayout ++ layout) (d.dateChars ++ rest) {} = none := by
  simp only [dateChars, dateLayout, List.append_assoc, List.cons_append, List.nil_append]
  exact parseFields_longYear_eq_none hyear (by decide) (by decide) _

/-- All fields. -/
def fields (s : Nat) (digits : List Char) : Fields :=
  { d.dateFields with
    hour := d.hour
    min := d.minute
    sec := s
    nsec := (decimal digits).getD 0 * 10 ^ (9 - digits.length) }

theorem parseFields_minutes (layout : List Chunk) (rest : List Char) :
    parseFields (.lit ' ' :: .hour :: .lit ':' :: .zeroMinute :: layout)
        (' ' :: ((padLeft 2 d.hour).toList ++ ':' :: ((padLeft 2 d.minute).toList ++ rest))) d.dateFields =
      parseFields layout rest { d.dateFields with hour := d.hour, min := d.minute } := by
  rw [parseFields_blank, parseFields_hour d.hour_lt, parseFields_lit (by decide),
    parseFields_zeroMinute d.minute_lt]

theorem parseFields_time {s : Nat} {digits : List Char} (hseconds : d.seconds = some (s, digits)) :
    parseFields [.lit ' ', .hour, .lit ':', .zeroMinute, .lit ':', .zeroSecond] (' ' :: d.timeChars)
      d.dateFields = some (d.fields s digits) := by
  have hs : s < 60 := d.second_lt (s, digits) hseconds
  obtain ⟨hlength, hdigits⟩ := d.fraction (s, digits) hseconds
  rw [timeChars, parseFields_minutes, hseconds]
  cases digits with
  | nil =>
      have hwhole := parseFields_zeroSecond (f := { d.dateFields with hour := d.hour, min := d.minute }) hs []
      rw [List.append_nil] at hwhole
      rw [secondsChars, parseFields_lit (by decide), hwhole]
      rfl
  | cons c cs =>
      have hall : (c :: cs).all isDigit = true := List.all_eq_true.2 hdigits
      have hvalue : decimal (c :: cs) = some ((c :: cs).foldl (fun n c => 10 * n + digitVal c) 0) :=
        if_pos hall
      have hnine : (c :: cs).length ≤ 9 := Nat.le_trans hlength (by decide)
      rw [secondsChars, parseFields_lit (by decide), parseFields_zeroSecond hs,
        optionalFraction_digits (List.cons_ne_nil _ _) hnine hdigits hvalue]
      simp [parseFields, fields, hvalue]

/-- A time without seconds ends too early. -/
theorem parseFields_time_none (hseconds : d.seconds = none) :
    parseFields [.lit ' ', .hour, .lit ':', .zeroMinute, .lit ':', .zeroSecond] (' ' :: d.timeChars)
      d.dateFields = none := by
  rw [timeChars, parseFields_minutes, hseconds]
  simp [secondsChars, parseFields, parseChunk]

/-- The first literal after the date decides. -/
theorem parse_letter (layout : List Chunk) : parse (dateLayout ++ .lit 'T' :: layout) d.target = none := by
  unfold parse
  rw [target, String.toList_ofList]
  by_cases hyear : d.year < 10000
  · rw [parseFields_date d hyear, parseFields_lit_ne (by decide) (by decide)]
  · rw [parseFields_longDate d (Nat.le_of_not_lt hyear)]

/-- Of all layouts only the one with the blank can be that of the target. -/
theorem parseWalgTime_target : parseWalgTime d.target = parse (dateTimeLayout ' ') d.target := by
  have hzone : parse (dateTimeLayout 'T' ++ [.zone]) d.target = none := d.parse_letter _
  have hlit : parse (dateTimeLayout 'T' ++ [.lit 'Z']) d.target = none := d.parse_letter _
  have hmillis : parse (dateTimeLayout 'T' ++ [.fracSecond0 3, .lit 'Z']) d.target = none := d.parse_letter _
  have hmicros : parse (dateTimeLayout 'T' ++
      [.fracSecond9, .lit '+', .lit '0', .lit '0', .lit ':', .lit '0', .lit '0']) d.target = none :=
    d.parse_letter _
  simp only [parseWalgTime, walgFormats, List.findSome?_cons, hzone, hlit, hmillis, hmicros, List.findSome?_nil]
  cases parse (dateTimeLayout ' ') d.target <;> rfl

/-- The seconds are there, and the year has four digits. -/
def Precise : Prop :=
  d.seconds.isSome = true ∧ d.year < 10000

theorem parseWalgTime_of_precise (h : d.Precise) : parseWalgTime d.target = some d.time := by
  obtain ⟨⟨s, digits⟩, hseconds⟩ := Option.isSome_iff_exists.1 h.1
  have hfields : parseFields (dateTimeLayout ' ') d.target.toList {} = some (d.fields s digits) := by
    rw [target, String.toList_ofList]
    exact (d.parseFields_date h.2 _ _).trans (d.parseFields_time hseconds)
  have hday : 1 ≤ (d.fields s digits).day ∧
      (d.fields s digits).day ≤ daysIn (d.fields s digits).month (d.fields s digits).year := d.day_range
  have htime : (d.fields s digits).time = d.time := by
    unfold time
    rw [hseconds]
    rfl
  rw [parseWalgTime_target, parse, hfields]
  simp only [hday, and_self, if_true, htime]

theorem parseWalgTime_of_not_precise (h : ¬ d.Precise) : parseWalgTime d.target = none := by
  have hfields : parseFields (dateTimeLayout ' ') d.target.toList {} = none := by
    rw [target, String.toList_ofList]
    by_cases hyear : d.year < 10000
    · -- Only the seconds can be missing.
      have hseconds : d.seconds = none := by
        by_contra hsome
        exact h ⟨Option.isSome_iff_ne_none.2 hsome, hyear⟩
      exact (d.parseFields_date hyear _ _).trans (d.parseFields_time_none hseconds)
    · exact d.parseFields_longDate (Nat.le_of_not_lt hyear) _ _
  rw [parseWalgTime_target, parse, hfields]

theorem target_ne_empty : d.target ≠ "" := by
  intro hempty
  have hlist := congrArg String.toList hempty
  rw [target, String.toList_ofList] at hlist
  simp at hlist

theorem value_ne_empty : d.value ≠ "" := by
  intro hempty
  have hlist := congrArg String.toList hempty
  rw [value, String.toList_ofList] at hlist
  simp at hlist

/-- The request that the dialog sends. -/
def request : RestoreRequest where
  backupName := "LATEST"
  targetTime := d.target

theorem executePITR_value {confirmText : String} (h : jsTrim confirmText = "PITR_CONFIRM") :
    executePITR d.value confirmText = .ok d.request := by
  have hblank : String.ofList (replaceFirst 'T' ' ' d.value.toList) = d.target := by
    rw [value, String.toList_ofList, replaceFirst_append d.letter_notMem_dateChars]
    rfl
  rw [executePITR, if_neg d.value_ne_empty, if_neg (not_not.2 h), hblank]
  rfl

theorem isPITR_request : WalG.isPITR d.request = true := by
  simpa [WalG.isPITR, request] using d.target_ne_empty

end LocalDateTime

/-- The restore of a time that was picked: what becomes of it, up to the recovery target of PostgreSQL. -/
structure Recovers (d : LocalDateTime) (req : RestoreRequest) : Prop where
  /-- The backend takes the target for the moment that was picked. -/
  moment : parseWalgTime req.targetTime = some d.time
  /-- The job of the restore is registered and its goroutine started. -/
  started : WalG.restoreBackup req =
    .act (.jobs (startCall req)) fun job =>
      .act (.go (.restoreJob req job.id)) fun _ => .done (.triggered (restoreResponse req job.id))
  /-- PostgreSQL is given the date and the time as they were picked, whatever was configured before. -/
  target : ∀ conf : String, effectiveTarget (conf ++ WalG.recoveryLines req) = some d.target

/-- A time that is picked in the dialog and confirmed reaches PostgreSQL as it is if its seconds are shown and
its year has four digits; otherwise the backend refuses it before anything has happened. -/
theorem pitr_target (d : LocalDateTime) {confirmText : String} (h : jsTrim confirmText = "PITR_CONFIRM") :
    ∃ req, executePITR d.value confirmText = .ok req ∧ (d.Precise → Recovers d req) ∧
      (¬ d.Precise → WalG.restoreBackup req = .done (.refused (.invalidTargetTime req.targetTime))) := by
  refine ⟨d.request, d.executePITR_value h, fun hprecise => ?_, fun himprecise => ?_⟩
  · have hmoment : parseWalgTime d.request.targetTime = some d.time := d.parseWalgTime_of_precise hprecise
    have haccepted : Accepted d.request :=
      ⟨by simp [LocalDateTime.request], fun _ => Option.isSome_iff_exists.2 ⟨_, hmoment⟩⟩
    refine ⟨hmoment, restoreBackup_accepted haccepted, fun conf => ?_⟩
    rw [effectiveTarget_append haccepted, if_pos d.isPITR_request]
    rfl
  · have hnone : parseWalgTime d.request.targetTime = none := d.parseWalgTime_of_not_precise himprecise
    have hname : d.request.backupName ≠ "" := by simp [LocalDateTime.request]
    rw [WalG.restoreBackup, if_neg hname, d.isPITR_request, hnone]
    rfl

def leapDay : LocalDateTime where
  year := 2024
  month := 2
  day := 29
  hour := 9
  minute := 30
  seconds := some (5, [])
  fraction := by simp

theorem pitr_target_leapDay :
    ∃ req, executePITR "2024-02-29T09:30:05" " PITR_CONFIRM " = .ok req ∧ Recovers leapDay req := by
  have hvalue : leapDay.value = "2024-02-29T09:30:05" := by decide +kernel
  obtain ⟨req, hreq, hrecovers, -⟩ :=
    pitr_target leapDay (show jsTrim " PITR_CONFIRM " = "PITR_CONFIRM" by decide)
  exact ⟨req, hvalue ▸ hreq, hrecovers ⟨rfl, by decide⟩⟩

end Web
end Pgaio
