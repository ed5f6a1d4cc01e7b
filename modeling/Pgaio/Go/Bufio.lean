import Mathlib.Algebra.GroupWithZero.Nat
import Mathlib.Data.List.TakeWhile
import Pgaio.Text.Lines

/-!
# Bufio — `bufio.Scanner` on a whole file

A scanner with `ScanLines` yields the lines of a file one by one, without their ends.  A line has to
fit its buffer together with the newline; at one that does not the scanner stops, as at the end of the
file, and only `Err` tells the difference.
-/

namespace Pgaio
namespace Go

open Text

variable {α : Type} [DecidableEq α]

/-- `bufio.MaxScanTokenSize`. -/
def maxScanTokenSize : Nat := 64 * 1024

/-- How a text is divided: the characters that end a line, and the bytes that a character takes. -/
structure LineFormat (α : Type) where
  newline : α
  carriageReturn : α
  width : α → Nat

def byteLines : LineFormat UInt8 where
  newline := 10
  carriageReturn := 13
  width _ := 1

def charLines : LineFormat Char where
  newline := '\n'
  carriageReturn := '\r'
  width := Char.utf8Size

namespace LineFormat

variable (format : LineFormat α)

/-- A carriage return before the newline belongs to the end of the line. -/
def dropCR (line : List α) : List α :=
  if line.getLast? = some format.carriageReturn then line.dropLast else line

def size (line : List α) : Nat :=
  (line.map format.width).sum

/-- The texts of all lines of a file. -/
def fileLines (file : List α) : List (List α) :=
  (allLines format.newline file).map format.dropCR

/-- The texts that `Scan` yields, with a buffer of `max` bytes. -/
def scannedLines (max : Nat) (file : List α) : List (List α) :=
  ((allLines format.newline file).takeWhile fun line => format.size line < max).map format.dropCR

/-- The number of lines from the first one that does not fit on. -/
def unscanned (max : Nat) (file : List α) : Nat :=
  ((allLines format.newline file).dropWhile fun line => format.size line < max).length

theorem length_fileLines (file : List α) :
    (format.fileLines file).length = (allLines format.newline file).length :=
  List.length_map _

theorem unscanned_le (max : Nat) (file : List α) :
    format.unscanned max file ≤ (format.fileLines file).length := by
  rw [length_fileLines]
  exact (List.dropWhile_sublist _).length_le

theorem unscanned_eq_zero_iff (max : Nat) (file : List α) :
    format.unscanned max file = 0 ↔
      ∀ line ∈ allLines format.newline file, format.size line < max := by
  unfold unscanned
  rw [List.length_eq_zero_iff, List.dropWhile_eq_nil_iff]
  simp

/-- The scanner yields the lines of the file up to the first one that does not fit. -/
theorem scannedLines_eq (max : Nat) (file : List α) :
    format.scannedLines max file =
      (format.fileLines file).take ((format.fileLines file).length - format.unscanned max file) := by
  have hsplit := List.takeWhile_append_dropWhile
    (p := fun line => decide (format.size line < max)) (l := allLines format.newline file)
  have hlength := congrArg List.length hsplit
  rw [List.length_append] at hlength
  unfold scannedLines
  rw [length_fileLines, fileLines, ← List.map_take]
  congr 1
  have htake : (allLines format.newline file).length - format.unscanned max file =
      ((allLines format.newline file).takeWhile fun line => format.size line < max).length := by
    unfold unscanned
    omega
  rw [htake]
  exact (List.prefix_iff_eq_take.1 (List.takeWhile_prefix _))

end LineFormat

end Go
end Pgaio
