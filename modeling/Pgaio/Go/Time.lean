import Mathlib.Algebra.GroupWithZero.Nat
import Pgaio.Go.Strings
import Mathlib.Data.Int.Init

/-!
# Time — instants, durations and `time.Parse`

Instants are nanoseconds since Go's zero time; durations are 64-bit nanosecond counts, so products
wrap around and differences of instants saturate.  `parse` follows `time.Parse` for the layout
elements that the backend uses.  The last section shows which characters an accepted string can
contain.
-/

namespace Pgaio
namespace Go

/-- Nanoseconds since 1 January of the year 1, 00:00 UTC. -/
abbrev Time := Int

abbrev Duration := Int

def maxInt64 : Int := 9223372036854775807
def minInt64 : Int := -9223372036854775808

/-- What a 64-bit signed integer can hold. -/
def IsInt64 (n : Int) : Prop :=
  minInt64 ≤ n ∧ n ≤ maxInt64

instance (n : Int) : Decidable (IsInt64 n) :=
  inferInstanceAs (Decidable (minInt64 ≤ n ∧ n ≤ maxInt64))

/-- The value a 64-bit signed integer takes for an exact result. -/
def wrapInt64 (x : Int) : Int :=
  Int.bmod x 18446744073709551616

theorem isInt64_wrapInt64 (x : Int) : IsInt64 (wrapInt64 x) := by
  have hlower := Int.le_bmod (x := x) (m := 18446744073709551616) (by omega)
  have hupper := Int.bmod_lt (x := x) (m := 18446744073709551616) (by omega)
  unfold wrapInt64 IsInt64 minInt64 maxInt64
  omega

theorem wrapInt64_eq_iff {x : Int} : wrapInt64 x = x ↔ IsInt64 x := by
  constructor
  · intro h
    exact h ▸ isInt64_wrapInt64 x
  · rintro ⟨hlower, hupper⟩
    unfold minInt64 at hlower
    unfold maxInt64 at hupper
    apply Int.bmod_eq_of_le
    · omega
    · omega

theorem isInt64_of_strconvAtoi {s : String} {n : Int} (h : strconvAtoi s = some n) : IsInt64 n := by
  unfold strconvAtoi at h
  simp only [Option.ite_none_left_eq_some, Option.ite_none_right_eq_some, Option.some.injEq] at h
  obtain ⟨-, hrange, rfl⟩ := h
  exact hrange

def nanosecondsPerSecond : Int := 1000000000

def Duration.minute : Duration := 60 * nanosecondsPerSecond
def Duration.hour : Duration := 3600 * nanosecondsPerSecond
def Duration.day : Duration := 24 * Duration.hour

/-- `time.Duration(n) * unit`. -/
def Duration.times (n : Int) (unit : Duration) : Duration :=
  wrapInt64 (n * unit)

namespace Time

def isZero (t : Time) : Bool :=
  t == 0

/-- `t.After(u)`. -/
def after (t u : Time) : Bool :=
  decide (u < t)

/-- `t.Sub(u)`. -/
def sub (t u : Time) : Duration :=
  max minInt64 (min maxInt64 (t - u))

/-- `t.Unix()`. -/
def unix (t : Time) : Int :=
  t / nanosecondsPerSecond - 62135596800

end Time

/-! ## Calendar -/

def isLeap (year : Nat) : Bool :=
  year % 4 == 0 && (year % 100 != 0 || year % 400 == 0)

def daysIn (month year : Nat) : Nat :=
  if month = 2 then if isLeap year then 29 else 28
  else if month = 4 ∨ month = 6 ∨ month = 9 ∨ month = 11 then 30
  else 31

/-- Days from 1 January of the year 1 to 1 January of `year`. -/
def daysBeforeYear (year : Nat) : Int :=
  let p : Int := (year : Int) - 1
  365 * p + p / 4 - p / 100 + p / 400

def daysBeforeMonth (month year : Nat) : Nat :=
  ((List.range (month - 1)).map fun i => daysIn (i + 1) year).sum

/-! ## Layouts -/

/-- The elements of a layout: literal text and the standard chunks `2006`, `01`, `02`, `15`, `04`,
`05`, `.000`, `.999` and `Z07:00`. -/
inductive Chunk where
  | lit (c : Char)
  | longYear
  | zeroMonth
  | zeroDay
  | hour
  | zeroMinute
  | zeroSecond
  | fracSecond0 (digits : Nat)
  | fracSecond9
  | zone
  deriving DecidableEq, Repr

/-- What has been read so far; `zone` is an offset from UTC in seconds. -/
structure Fields where
  year : Nat := 0
  month : Nat := 1
  day : Nat := 1
  hour : Nat := 0
  min : Nat := 0
  sec : Nat := 0
  nsec : Nat := 0
  zone : Int := 0

/-- The number spelled by `cs`, which has to consist of digits. -/
def decimal (cs : List Char) : Option Nat :=
  if cs.all isDigit then some (cs.foldl (fun n c => 10 * n + digitVal c) 0) else none

def atoi : List Char → Option Int
  | '-' :: cs => (decimal cs).map fun (n : Nat) => -(n : Int)
  | '+' :: cs => (decimal cs).map fun (n : Nat) => (n : Int)
  | cs => (decimal cs).map fun (n : Nat) => (n : Int)

/-- One or two digits; exactly two when `fixed`. -/
def getnum (fixed : Bool) : List Char → Option (Nat × List Char)
  | [] => none
  | [a] => if isDigit a && !fixed then some (digitVal a, []) else none
  | a :: b :: rest =>
      if isDigit a then
        if isDigit b then some (10 * digitVal a + digitVal b, rest)
        else if fixed then none
        else some (digitVal a, b :: rest)
      else none

def commaOrPeriod (c : Char) : Bool :=
  c == '.' || c == ','

/-- The fraction in the first `nbytes` characters, the separator included. -/
def parseNanoseconds (value : List Char) (nbytes : Nat) : Option Nat :=
  match value with
  | [] => none
  | c :: _ =>
      if commaOrPeriod c then
        let n := min nbytes 10
        match atoi ((value.take n).drop 1) with
        | none => none
        | some ns => if ns < 0 then none else some (ns.toNat * 10 ^ (10 - n))
      else none

/-- The separator and all digits after it, when there is at least one. -/
def takeFraction : List Char → Option (Nat × List Char)
  | c :: d :: rest =>
      if commaOrPeriod c && isDigit d then
        let n := 1 + ((d :: rest).takeWhile isDigit).length
        (parseNanoseconds (c :: d :: rest) n).map fun ns => (ns, (d :: rest).dropWhile isDigit)
      else none
  | _ => none

/-- Whether the next standard chunk of the layout is a fractional second. -/
def fractionNext : List Chunk → Bool
  | [] => false
  | .lit _ :: cs => fractionNext cs
  | .fracSecond0 _ :: _ => true
  | .fracSecond9 :: _ => true
  | _ :: _ => false

/-- A fraction that may be absent. -/
def optionalFraction (value : List Char) (f : Fields) : Fields × List Char :=
  match takeFraction value with
  | none => (f, value)
  | some (ns, rest) => ({ f with nsec := ns }, rest)

/-- Read one element of the layout; `layout` is what follows it. -/
def parseChunk (layout : List Chunk) (value : List Char) (f : Fields) :
    Chunk → Option (Fields × List Char)
  | .lit c =>
      match value with
      | [] => if c = ' ' then some (f, []) else none
      | v :: rest =>
          if c = ' ' then if v = ' ' then some (f, rest.dropWhile (· = ' ')) else none
          else if v = c then some (f, rest)
          else none
  | .longYear =>
      match value with
      | a :: b :: c :: d :: rest => (decimal [a, b, c, d]).map fun n => ({ f with year := n }, rest)
      | _ => none
  | .zeroMonth =>
      match getnum true value with
      | none => none
      | some (n, rest) => if 1 ≤ n ∧ n ≤ 12 then some ({ f with month := n }, rest) else none
  | .zeroDay => (getnum true value).map fun p => ({ f with day := p.1 }, p.2)
  | .hour =>
      match getnum false value with
      | none => none
      | some (n, rest) => if n < 24 then some ({ f with hour := n }, rest) else none
  | .zeroMinute =>
      match getnum true value with
      | none => none
      | some (n, rest) => if n < 60 then some ({ f with min := n }, rest) else none
  | .zeroSecond =>
      match getnum true value with
      | none => none
      | some (n, rest) =>
          if n < 60 then
            -- A fraction is read here unless the layout has an element of its own for it.
            if fractionNext layout then some ({ f with sec := n }, rest)
            else some (optionalFraction rest { f with sec := n })
          else none
  | .fracSecond0 digits =>
      if value.length < 1 + digits then none
      else (parseNanoseconds value (1 + digits)).map fun ns =>
        ({ f with nsec := ns }, value.drop (1 + digits))
  | .fracSecond9 => some (optionalFraction value f)
  | .zone =>
      match value with
      | 'Z' :: rest => some ({ f with zone := 0 }, rest)
      | s :: h₁ :: h₂ :: ':' :: m₁ :: m₂ :: rest =>
          match getnum true [h₁, h₂], getnum true [m₁, m₂] with
          | some (hr, _), some (mm, _) =>
              if hr ≤ 24 ∧ mm ≤ 60 then
                if s = '+' then some ({ f with zone := (hr * 60 + mm) * 60 }, rest)
                else if s = '-' then some ({ f with zone := -((hr * 60 + mm) * 60) }, rest)
                else none
              else none
          | _, _ => none
      | _ => none

def parseFields : List Chunk → List Char → Fields → Option Fields
  | [], value, f => if value = [] then some f else none
  | c :: layout, value, f =>
      match parseChunk layout value f c with
      | none => none
      | some (f', rest) => parseFields layout rest f'

/-- The instant of a calendar date. -/
def Fields.time (f : Fields) : Time :=
  let days := daysBeforeYear f.year + daysBeforeMonth f.month f.year + ((f.day : Int) - 1)
  ((days * 24 + f.hour) * 60 + f.min) * Duration.minute + f.sec * nanosecondsPerSecond + f.nsec
    - f.zone * nanosecondsPerSecond

/-- `time.Parse`. -/
def parse (layout : List Chunk) (value : String) : Option Time :=
  match parseFields layout value.toList {} with
  | none => none
  | some f => if 1 ≤ f.day ∧ f.day ≤ daysIn f.month f.year then some f.time else none

/-! ## The characters of an accepted string -/

def isTimeChar (c : Char) : Bool :=
  isDigit c || ['-', '+', ':', '.', ',', 'T', 'Z', ' '].contains c

/-- `rest` is `value` after some characters that all occur in timestamps. -/
def Consumes (value rest : List Char) : Prop :=
  ∃ used, value = used ++ rest ∧ ∀ c ∈ used, isTimeChar c = true

theorem isTimeChar_of_digit {c : Char} (h : isDigit c = true) : isTimeChar c = true := by
  simp [isTimeChar, h]

theorem isTimeChar_of_commaOrPeriod {c : Char} (h : commaOrPeriod c = true) :
    isTimeChar c = true := by
  simp only [commaOrPeriod, Bool.or_eq_true, beq_iff_eq] at h
  rcases h with rfl | rfl <;> decide

namespace Consumes

theorem refl (value : List Char) : Consumes value value :=
  ⟨[], by simp⟩

theorem cons {c : Char} {value rest : List Char} (hc : isTimeChar c = true)
    (h : Consumes value rest) : Consumes (c :: value) rest := by
  rcases h with ⟨used, rfl, hused⟩
  refine ⟨c :: used, rfl, ?_⟩
  intro d hd
  rcases List.mem_cons.1 hd with rfl | hd'
  · exact hc
  · exact hused d hd'

theorem trans {a b c : List Char} (h : Consumes a b) (h' : Consumes b c) : Consumes a c := by
  rcases h with ⟨u, rfl, hu⟩
  rcases h' with ⟨v, rfl, hv⟩
  refine ⟨u ++ v, (List.append_assoc u v c).symm, ?_⟩
  intro d hd
  rcases List.mem_append.1 hd with hd' | hd'
  · exact hu d hd'
  · exact hv d hd'

theorem dropWhile {p : Char → Bool} (hp : ∀ c, p c = true → isTimeChar c = true)
    (value : List Char) : Consumes value (value.dropWhile p) := by
  induction value with
  | nil => exact refl []
  | cons c value ih =>
      by_cases hc : p c = true
      · simp only [List.dropWhile_cons, hc, if_true]
        exact ih.cons (hp c hc)
      · simp only [List.dropWhile_cons, hc]
        exact refl _

end Consumes

theorem decimal_digits {cs : List Char} {n : Nat} (h : decimal cs = some n) :
    ∀ c ∈ cs, isTimeChar c = true := by
  unfold decimal at h
  split at h
  · rename_i hall
    intro c hc
    exact isTimeChar_of_digit (List.all_eq_true.1 hall c hc)
  · cases h

theorem atoi_chars {cs : List Char} {n : Int} (h : atoi cs = some n) :
    ∀ c ∈ cs, isTimeChar c = true := by
  have hsigned : ∀ (s : Char) (ds : List Char) (k : Nat), isTimeChar s = true →
      decimal ds = some k → ∀ c ∈ s :: ds, isTimeChar c = true := by
    intro s ds k hs hds c hc
    rcases List.mem_cons.1 hc with rfl | hc'
    · exact hs
    · exact decimal_digits hds c hc'
  unfold atoi at h
  split at h
  · rcases Option.map_eq_some_iff.1 h with ⟨k, hk, _⟩
    exact hsigned _ _ k (by decide) hk
  · rcases Option.map_eq_some_iff.1 h with ⟨k, hk, _⟩
    exact hsigned _ _ k (by decide) hk
  · rcases Option.map_eq_some_iff.1 h with ⟨k, hk, _⟩
    exact decimal_digits hk

theorem getnum_consumes {fixed : Bool} {value rest : List Char} {n : Nat}
    (h : getnum fixed value = some (n, rest)) : Consumes value rest := by
  unfold getnum at h
  split at h
  · cases h
  · rename_i a
    split at h
    · rename_i ha
      cases h
      simp only [Bool.and_eq_true] at ha
      exact (Consumes.refl []).cons (isTimeChar_of_digit ha.1)
    · cases h
  · rename_i a b tl
    split at h
    · rename_i ha
      have ha' := isTimeChar_of_digit ha
      split at h
      · rename_i hb
        cases h
        exact ((Consumes.refl _).cons (isTimeChar_of_digit hb)).cons ha'
      · split at h
        · cases h
        · cases h
          exact (Consumes.refl _).cons ha'
    · cases h

theorem getnum_pair_consumes {a b : Char} {n : Nat} {rest : List Char}
    (h : getnum true [a, b] = some (n, rest)) (tl : List Char) : Consumes (a :: b :: tl) tl := by
  unfold getnum at h
  simp only [if_true] at h
  split at h
  · split at h
    · rename_i ha hb
      exact ((Consumes.refl tl).cons (isTimeChar_of_digit hb)).cons (isTimeChar_of_digit ha)
    · cases h
  · cases h

theorem optionalFraction_consumes (value : List Char) (f : Fields) :
    Consumes value (optionalFraction value f).2 := by
  unfold optionalFraction
  cases hfrac : takeFraction value with
  | none => exact Consumes.refl value
  | some p =>
      rcases p with ⟨ns, rest⟩
      unfold takeFraction at hfrac
      split at hfrac
      · rename_i c d tl
        split at hfrac
        · rename_i hcd
          simp only [Bool.and_eq_true] at hcd
          rcases Option.map_eq_some_iff.1 hfrac with ⟨k, _, hk⟩
          cases hk
          have hdrop := Consumes.dropWhile (fun c h => isTimeChar_of_digit h) (d :: tl)
          exact hdrop.cons (isTimeChar_of_commaOrPeriod hcd.1)
        · cases hfrac
      · cases hfrac

theorem fracSecond0_consumes {value : List Char} {digits ns : Nat} (hdigits : digits ≤ 9)
    (h : parseNanoseconds value (1 + digits) = some ns) :
    Consumes value (value.drop (1 + digits)) := by
  unfold parseNanoseconds at h
  split at h
  · cases h
  · rename_i c tl
    split at h
    · rename_i hc
      have hmin : min (1 + digits) 10 = 1 + digits := by omega
      simp only [hmin] at h
      split at h
      · cases h
      · rename_i k hk
        refine ⟨(c :: tl).take (1 + digits), (List.take_append_drop _ _).symm, ?_⟩
        intro d hd
        rw [Nat.add_comm, List.take_succ_cons] at hd
        rw [Nat.add_comm, List.take_succ_cons, List.drop_one, List.tail_cons] at hk
        rcases List.mem_cons.1 hd with rfl | hd'
        · exact isTimeChar_of_commaOrPeriod hc
        · exact atoi_chars hk d hd'
    · cases h

/-- Layouts whose literals are timestamp characters and whose fractions have at most nine digits. -/
def Chunk.plain : Chunk → Bool
  | .lit c => isTimeChar c
  | .fracSecond0 digits => decide (digits ≤ 9)
  | _ => true

theorem zone_consumes {layout : List Chunk} {value rest : List Char} {f f' : Fields}
    (h : parseChunk layout value f .zone = some (f', rest)) : Consumes value rest := by
  simp only [parseChunk] at h
  split at h
  · cases h
    exact (Consumes.refl _).cons (by decide)
  · rename_i s h₁ h₂ m₁ m₂ tl _
    split at h
    · rename_i hr _ mm _ hhr hmm
      have hh : Consumes (h₁ :: h₂ :: ':' :: m₁ :: m₂ :: tl) (':' :: m₁ :: m₂ :: tl) :=
        getnum_pair_consumes hhr _
      have hm : Consumes (m₁ :: m₂ :: tl) tl := getnum_pair_consumes hmm tl
      -- Hours and minutes with the colon between them, then the sign in front.
      have hall : Consumes (h₁ :: h₂ :: ':' :: m₁ :: m₂ :: tl) tl :=
        hh.trans (hm.cons (by decide))
      split at h
      · split at h
        · rename_i hs
          cases h
          subst hs
          exact hall.cons (by decide)
        · split at h
          · rename_i hs
            cases h
            subst hs
            exact hall.cons (by decide)
          · cases h
      · cases h
    · cases h
  · cases h

theorem lit_consumes {layout : List Chunk} {value rest : List Char} {f f' : Fields} {c : Char}
    (hplain : isTimeChar c = true) (h : parseChunk layout value f (.lit c) = some (f', rest)) :
    Consumes value rest := by
  simp only [parseChunk] at h
  cases value with
  | nil =>
      simp only at h
      split at h
      · cases h
        exact Consumes.refl []
      · cases h
  | cons v tl =>
      simp only at h
      split at h
      · split at h
        · -- A blank of the layout takes all blanks of the value.
          rename_i hv
          cases h
          subst hv
          refine (Consumes.dropWhile ?_ tl).cons (by decide)
          intro d hd
          have hd' : d = ' ' := by simpa using hd
          subst hd'
          decide
        · cases h
      · split at h
        · rename_i hv
          cases h
          subst hv
          exact (Consumes.refl _).cons hplain
        · cases h

/-- A number of two digits whose range is checked. -/
theorem checked_consumes {fixed : Bool} {value rest : List Char} {f' : Fields}
    {inRange : Nat → Prop} [DecidablePred inRange] {set : Nat → Fields}
    (h : (match getnum fixed value with
      | none => none
      | some (n, tl) => if inRange n then some (set n, tl) else none) = some (f', rest)) :
    Consumes value rest := by
  split at h
  · cases h
  · rename_i hn
    split at h
    · cases h
      exact getnum_consumes hn
    · cases h

theorem parseChunk_consumes {layout : List Chunk} {value rest : List Char} {f f' : Fields}
    {c : Chunk} (hplain : c.plain = true) (h : parseChunk layout value f c = some (f', rest)) :
    Consumes value rest := by
  cases c with
  | lit c => exact lit_consumes hplain h
  | longYear =>
      simp only [parseChunk] at h
      split at h
      · rename_i a b c d tl
        rcases Option.map_eq_some_iff.1 h with ⟨n, hn, heq⟩
        cases heq
        exact ⟨[a, b, c, d], rfl, decimal_digits hn⟩
      · cases h
  | zeroMonth =>
      simp only [parseChunk] at h
      exact checked_consumes h
  | zeroDay =>
      simp only [parseChunk] at h
      rcases Option.map_eq_some_iff.1 h with ⟨⟨n, tl⟩, hn, heq⟩
      cases heq
      exact getnum_consumes hn
  | hour =>
      simp only [parseChunk] at h
      exact checked_consumes h
  | zeroMinute =>
      simp only [parseChunk] at h
      exact checked_consumes h
  | zeroSecond =>
      simp only [parseChunk] at h
      split at h
      · cases h
      · rename_i n tl hn
        split at h
        · split at h
          · cases h
            exact getnum_consumes hn
          · have hfrac := optionalFraction_consumes tl { f with sec := n }
            rw [Option.some.injEq] at h
            rw [h] at hfrac
            exact (getnum_consumes hn).trans hfrac
        · cases h
  | fracSecond0 digits =>
      simp only [parseChunk] at h
      split at h
      · cases h
      · rcases Option.map_eq_some_iff.1 h with ⟨ns, hns, heq⟩
        cases heq
        exact fracSecond0_consumes (by simpa [Chunk.plain] using hplain) hns
  | fracSecond9 =>
      simp only [parseChunk, Option.some.injEq] at h
      have hfrac := optionalFraction_consumes value f
      rw [h] at hfrac
      exact hfrac
  | zone => exact zone_consumes h

theorem parseFields_chars {layout : List Chunk} {value : List Char} {f f' : Fields}
    (hplain : layout.all Chunk.plain = true) (h : parseFields layout value f = some f') :
    ∀ c ∈ value, isTimeChar c = true := by
  induction layout generalizing value f with
  | nil =>
      simp only [parseFields] at h
      split at h
      · rename_i hnil
        simp [hnil]
      · cases h
  | cons c layout ih =>
      simp only [List.all_cons, Bool.and_eq_true] at hplain
      simp only [parseFields] at h
      split at h
      · cases h
      · rename_i f₁ rest hchunk
        rcases parseChunk_consumes hplain.1 hchunk with ⟨used, rfl, hused⟩
        intro d hd
        rcases List.mem_append.1 hd with hd' | hd'
        · exact hused d hd'
        · exact ih hplain.2 h d hd'

/-- A string that `time.Parse` accepts for a plain layout has timestamp characters only. -/
theorem parse_chars {layout : List Chunk} {value : String} {t : Time}
    (hplain : layout.all Chunk.plain = true) (h : parse layout value = some t) :
    ∀ c ∈ value.toList, isTimeChar c = true := by
  unfold parse at h
  split at h
  · cases h
  · rename_i f hf
    exact parseFields_chars hplain hf

end Go
end Pgaio
