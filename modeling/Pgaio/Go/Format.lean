import Pgaio.Go.Time

/-!
# Format — how Go prints durations and floating-point numbers
-/

namespace Pgaio
namespace Go

/-! ## Durations -/

namespace Duration

/-- `d.Round(m)`: half away from zero, saturating. -/
def round (d m : Duration) : Duration :=
  if m ≤ 0 then d
  else
    let r := (d.tmod m).natAbs
    if d < 0 then
      if 2 * (r : Int) < m then d + r
      else max minInt64 (d - m + r)
    else if 2 * (r : Int) < m then d - r
    else min maxInt64 (d + m - r)

/-- The last `prec` decimal digits of `v` as a fraction without trailing zeros. -/
def fraction (v prec : Nat) : String :=
  let digits := (padLeft prec (v % 10 ^ prec)).toList.reverse.dropWhile (· = '0')
  if digits = [] then "" else "." ++ String.ofList digits.reverse

/-- `u` of the unit that has `prec` decimal places. -/
def fractional (u prec : Nat) (unit : String) : String :=
  itoa ↑(u / 10 ^ prec) ++ fraction u prec ++ unit

/-- `d.String()`. -/
def text (d : Duration) : String :=
  let u := d.natAbs
  let secs := u / 1000000000
  let body :=
    if u = 0 then "0s"
    else if u < 1000 then fractional u 0 "ns"
    else if u < 1000000 then fractional u 3 "µs"
    else if u < 1000000000 then fractional u 6 "ms"
    else
      (if 3600 ≤ secs then itoa ↑(secs / 3600) ++ "h" else "") ++
        (if 60 ≤ secs then itoa ↑(secs / 60 % 60) ++ "m" else "") ++
          itoa ↑(secs % 60) ++ fraction u 9 ++ "s"
  if d < 0 then "-" ++ body else body

example : text (round (90 * Duration.minute + 31 * nanosecondsPerSecond) Duration.minute) =
    "1h31m0s" := by decide

end Duration

/-! ## Floating-point numbers -/

/-- The integers `m` and `e` with `x = m * 2 ^ e`, for a finite `x` that is not negative. -/
def mantissa (x : Float) : Nat × Int :=
  let (m, e) := x.frExp
  ((m.scaleB 53).toUInt64.toNat, e - 53)

/-- `num / den` rounded to the nearest integer, half to even. -/
def roundHalfEven (num den : Nat) : Nat :=
  let q := num / den
  let r := num % den
  if 2 * r < den then q
  else if den < 2 * r then q + 1
  else if q % 2 = 0 then q else q + 1

/-- `fmt.Sprintf("%.<prec>f", x)`. -/
def formatFixed (prec : Nat) (x : Float) : String :=
  if x.isNaN then "NaN"
  else
    let negative := x < 0 || 1 / x < 0
    if x.isInf then if negative then "-Inf" else "+Inf"
    else
      let (m, e) := mantissa x.abs
      let scaled := roundHalfEven (m * 10 ^ prec * 2 ^ e.toNat) (2 ^ (-e).toNat)
      let digits := itoa ↑(scaled / 10 ^ prec) ++
        (if prec = 0 then "" else "." ++ padLeft prec (scaled % 10 ^ prec))
      if negative then "-" ++ digits else digits

end Go
end Pgaio
