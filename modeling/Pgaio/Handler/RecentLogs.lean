import Pgaio.Go.Bufio
import Pgaio.Go.Slices
import Pgaio.Handler.Logs
import Pgaio.Model.Types

/-!
# RecentLogs — the last lines of the log file

`readLastN` and `GetRecentLogs` of `handler/logs.go`.  The lines are read with a scanner whose buffer
takes 1 MiB, and nobody asks it why it stopped: behind a line of that length the file is not read, and
the lines before it are taken for the last ones.

`last_lines_iff` says when they are the last ones nevertheless.
-/

namespace Pgaio
namespace Handler

open Go Model Text

/-- The buffer of the scanner. -/
def recentBuffer : Nat := 1024 * 1024

/-- `readLastN`; `none` is a file that cannot be opened. -/
def readLastN (file : Option (List Byte)) (n : Nat) : List LogLine :=
  match file with
  | none => []
  | some content =>
      let lines := byteLines.scannedLines recentBuffer content
      if lines.length ≤ n then lines else lines.drop (lines.length - n)

/-- The number of lines that a request asks for. -/
def requestedLines (nStr : String) : Nat :=
  match strconvAtoi nStr with
  | none => 200
  | some v => if 0 < v ∧ v ≤ 2000 then v.toNat else 200

def getRecentLogs (nStr : String) (file : Option (List Byte)) : Response (List LogLine) :=
  .success statusOK (readLastN file (requestedLines nStr))

theorem requestedLines_range (nStr : String) :
    1 ≤ requestedLines nStr ∧ requestedLines nStr ≤ 2000 := by
  unfold requestedLines
  split
  · omega
  · split <;> omega

theorem readLastN_eq (content : List Byte) (n : Nat) :
    readLastN (some content) n = lastN n (byteLines.scannedLines recentBuffer content) := by
  unfold readLastN lastN
  dsimp only
  split
  · rename_i hle
    rw [Nat.sub_eq_zero_of_le hle, List.drop_zero]
  · rfl

/-! ## The condition -/

/-- Every line fits the buffer. -/
def EveryLineFits (content : List Byte) : Prop :=
  ∀ line ∈ allLines newline content, line.length < recentBuffer

/-- The file ends as it did before the first line that does not fit: each of the last `n` lines stands
once more, as many places before it as there are lines from that one on. -/
def RepeatsEnding (content : List Byte) (n : Nat) : Prop :=
  let lines := byteLines.fileLines content
  let behind := byteLines.unscanned recentBuffer content
  ∀ i, lines.length - n ≤ i → i < lines.length → behind ≤ i ∧ lines[i]? = lines[i - behind]?

theorem size_byteLines (line : LogLine) : byteLines.size line = line.length := by
  simp [LineFormat.size, byteLines]

/-- The answer holds the last lines of the file exactly if every line fits the buffer or the file
repeats its ending. -/
theorem last_lines_iff (content : List Byte) (n : Nat) :
    readLastN (some content) n = lastN n (byteLines.fileLines content) ↔
      EveryLineFits content ∨ RepeatsEnding content n := by
  have hle := byteLines.unscanned_le recentBuffer content
  rw [readLastN_eq, LineFormat.scannedLines_eq, lastN_take_iff n (Nat.sub_le _ _),
    Nat.sub_sub_self hle]
  constructor
  · exact Or.inr
  · rintro (hfits | hrepeats)
    · -- Nothing is left behind, and every line stands where it stands.
      have hzero : byteLines.unscanned recentBuffer content = 0 := by
        rw [LineFormat.unscanned_eq_zero_iff]
        intro line hline
        rw [size_byteLines]
        exact hfits line hline
      rw [hzero]
      exact fun i _ _ => ⟨Nat.zero_le i, rfl⟩
    · exact hrepeats

/-- A long statement, and after it a short line. -/
def longLineFile : List Byte :=
  List.replicate recentBuffer 65 ++ newline :: [66, newline]

/-- The short line is the last one, and the answer is empty. -/
theorem last_line_missed :
    ¬ ∀ (content : List Byte) (n : Nat), 1 ≤ n → n ≤ 2000 →
      readLastN (some content) n = lastN n (byteLines.fileLines content) := by
  intro hall
  have hlines : allLines newline longLineFile = [List.replicate recentBuffer 65, [66]] := by
    have hline : newline ∉ List.replicate recentBuffer (65 : Byte) := by
      rw [List.mem_replicate]
      decide
    exact allLines_cons hline [66, newline]
  have hlong : ¬byteLines.size (List.replicate recentBuffer (65 : Byte)) < recentBuffer := by
    rw [size_byteLines, List.length_replicate]
    exact Nat.lt_irrefl _
  have hscanned : byteLines.scannedLines recentBuffer longLineFile = [] := by
    unfold LineFormat.scannedLines
    rw [show allLines byteLines.newline longLineFile = _ from hlines,
      List.takeWhile_cons_of_neg (by simpa using hlong)]
    rfl
  have hfile : (byteLines.fileLines longLineFile).length = 2 := by
    rw [LineFormat.length_fileLines, show allLines byteLines.newline longLineFile = _ from hlines]
    rfl
  have hlast := congrArg List.length (hall longLineFile 1 (by decide) (by decide))
  rw [readLastN_eq, hscanned, length_lastN, length_lastN, hfile] at hlast
  exact absurd hlast (by decide)

end Handler
end Pgaio
