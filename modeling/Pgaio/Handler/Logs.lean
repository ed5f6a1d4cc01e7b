import Pgaio.Go.Bufio
import Pgaio.Transition.Run

/-!
# Logs — following the log file

`StreamLogs` of `handler/logs.go`.  Every half second the handler asks for the size of the file; when
the file has grown, it opens it, seeks to the size of the last poll, sends the lines from there to the
end and remembers the size it was told at the beginning of the poll.  PostgreSQL appends to the file
at any time, in pieces that need not end with a line.

The end that the scanner meets may lie behind the size that is remembered, and it may lie within a
line.  `sends_complete_lines` is about the runs in which neither happens.
-/

namespace Pgaio
namespace Handler

open Go Text Transition

abbrev Byte := UInt8
abbrev LogLine := List Byte

def newline : Byte := 10
def carriageReturn : Byte := 13

/-- The buffer of the scanner, which a line and its newline must fit into. -/
def scanBuffer : Nat := 64 * 1024

/-- What is sent for the lines that the scanner yields; empty ones are skipped. -/
def sendLines (lines : List LogLine) : List LogLine :=
  (lines.map byteLines.dropCR).filter (· ≠ [])

inductive LogPhase where
  /-- Waiting for the ticker. -/
  | idle
  /-- The file has grown to `size`. -/
  | grown (size : Nat)
  | opened (size : Nat)
  /-- `offset` bytes of the file have been read; `pending` is what the scanner holds of them. -/
  | scanning (size offset : Nat) (pending : LogLine)
  /-- The loop over the lines is over. -/
  | scanned (size : Nat)
  /-- The client is gone. -/
  | closed
  deriving DecidableEq, Repr

structure LogStream where
  file : List Byte
  /-- The size of the file when the stream started. -/
  startSize : Nat
  lastSize : Nat
  phase : LogPhase := .idle
  sent : List LogLine := []
  deriving DecidableEq, Repr

inductive LogLabel where
  /-- PostgreSQL writes. -/
  | append (chunk : List Byte)
  | stat (fails : Bool)
  | openFile (fails : Bool)
  | seek
  /-- The scanner reads `n` bytes, and the lines they complete are sent. -/
  | read (n : Nat)
  /-- The scanner finds the end of the file; it yields what it holds. -/
  | eof
  /-- `lastSize = info.Size()`. -/
  | setLastSize
  /-- The request is cancelled or a line cannot be written. -/
  | disconnect
  deriving DecidableEq, Repr

namespace LogStream

/-- The `n` bytes of the file from `offset` on. -/
def bytesAt (s : LogStream) (offset n : Nat) : List Byte :=
  (s.file.drop offset).take n

def step (s : LogStream) : LogLabel → Option LogStream
  | .append chunk => some { s with file := s.file ++ chunk }
  | .stat fails =>
      match s.phase with
      | .idle =>
          -- Nothing is done about a file that has not grown or cannot be looked at.
          if fails ∨ s.file.length ≤ s.lastSize then some s
          else some { s with phase := .grown s.file.length }
      | _ => none
  | .openFile fails =>
      match s.phase with
      -- When the file cannot be opened the round is given up and `lastSize` stays.
      | .grown size => some { s with phase := if fails then .idle else .opened size }
      | _ => none
  | .seek =>
      match s.phase with
      | .opened size => some { s with phase := .scanning size s.lastSize [] }
      | _ => none
  | .read n =>
      match s.phase with
      | .scanning size offset pending =>
          -- The scanner may read beyond `size`, up to the end that the file has by now.
          if 0 < n ∧ offset + n ≤ s.file.length ∧ pending.length + n ≤ scanBuffer then
            let (lines, pending) := scan newline pending (s.bytesAt offset n)
            some { s with
              sent := s.sent ++ sendLines lines
              -- A full buffer without a newline ends the loop with `bufio.ErrTooLong`.
              phase := if pending.length = scanBuffer then .scanned size
                else .scanning size (offset + n) pending }
          else none
      | _ => none
  | .eof =>
      match s.phase with
      | .scanning size offset pending =>
          if offset = s.file.length then
            -- What is pending goes out as a line, finished or not.
            some { s with
              sent := s.sent ++ sendLines [pending]
              phase := .scanned size }
          else none
      | _ => none
  | .setLastSize =>
      match s.phase with
      -- The size of the stat, not the offset up to which lines have been sent.
      | .scanned size => some { s with lastSize := size, phase := .idle }
      | _ => none
  | .disconnect =>
      match s.phase with
      | .closed => none
      | _ => some { s with phase := .closed }

/-! ## What should be sent -/

/-- The lines within the first `size` bytes that were completed after the stream started. -/
def newLines (s : LogStream) (size : Nat) : List LogLine :=
  (lines newline (s.file.take size)).drop (lines newline (s.file.take s.startSize)).length

/-- What has been sent are complete new lines from the first one on, each once and in order, and
between two polls they are those of the file as the last poll has found it. -/
def Exact (s : LogStream) : Prop :=
  s.sent <+: s.newLines s.file.length ∧ (s.phase = .idle → s.sent = s.newLines s.lastSize)

instance (s : LogStream) : Decidable s.Exact :=
  inferInstanceAs (Decidable (_ ∧ (_ → _)))

/-- No new line is empty or fills the buffer of the scanner. -/
def ordinary (s : LogStream) : LogLabel → Bool
  | .append chunk =>
      let s' := { s with file := s.file ++ chunk }
      (s'.newLines s'.file.length).all fun l => l ≠ [] && l.length < scanBuffer
  | _ => true

/-- No new line ends with a carriage return, the unfinished line fits into the buffer, and the scanner
finds the end of the file at the size that the poll was told and behind a complete line. -/
def harmless (s : LogStream) : LogLabel → Bool
  | .append chunk =>
      let s' := { s with file := s.file ++ chunk }
      (s'.newLines s'.file.length).all fun l => l.getLast? ≠ some carriageReturn
  | .read n =>
      match s.phase with
      | .scanning _ offset pending => (scan newline pending (s.bytesAt offset n)).2.length < scanBuffer
      | _ => true
  | .eof =>
      match s.phase with
      | .scanning size _ pending => s.file.length = size && pending = []
      | _ => true
  | _ => true

/-! ## The invariant -/

/-- A line that arrives as it is. -/
structure FineLine (l : LogLine) : Prop where
  nonempty : l ≠ []
  fits : l.length < scanBuffer
  noReturn : l.getLast? ≠ some carriageReturn

/-- The file consists of what was there `before` the stream started, what has been `read` and the
`rest`, and the lines of the second part have been sent. -/
structure Split (s : LogStream) (before read rest : List Byte) : Prop where
  file_eq : s.file = before ++ (read ++ rest)
  startSize_eq : s.startSize = before.length
  before_complete : unfinished newline before = []
  fine : ∀ l ∈ lines newline (read ++ rest), FineLine l
  sent_eq : s.sent = lines newline read

/-- Where the poll stands. -/
def PhaseAgrees (s : LogStream) (before read : List Byte) : Prop :=
  match s.phase with
  | .idle | .grown _ | .opened _ =>
      s.lastSize = before.length + read.length ∧ unfinished newline read = []
  | .scanning _ offset pending =>
      offset = before.length + read.length ∧ pending = unfinished newline read
  | .scanned size => size = before.length + read.length ∧ unfinished newline read = []
  | .closed => True

def Follows (s : LogStream) : Prop :=
  ∃ before read rest, s.Split before read rest ∧ s.PhaseAgrees before read

variable {s t : LogStream} {before read rest : List Byte}

/-- New lines of a file that was complete when the stream started. -/
theorem newLines_eq {later : List Byte} (hfile : s.file = before ++ (read ++ later))
    (hstart : s.startSize = before.length) (hcomplete : unfinished newline before = []) :
    s.newLines (before.length + read.length) = lines newline read := by
  have hbefore : s.file.take s.startSize = before := by
    rw [hfile, hstart, List.take_left]
  have hread : s.file.take (before.length + read.length) = before ++ read := by
    rw [hfile, ← List.append_assoc, ← List.length_append, List.take_left]
  unfold newLines
  rw [hbefore, hread, lines_append_of_complete hcomplete, List.drop_left]

theorem Split.newLines_read (h : s.Split before read rest) :
    s.newLines (before.length + read.length) = lines newline read :=
  newLines_eq h.file_eq h.startSize_eq h.before_complete

theorem Split.newLines_file (h : s.Split before read rest) :
    s.newLines s.file.length = lines newline (read ++ rest) := by
  have hlength : s.file.length = before.length + (read ++ rest).length := by
    rw [h.file_eq, List.length_append]
  rw [hlength]
  have hfile : s.file = before ++ ((read ++ rest) ++ []) := by
    rw [List.append_nil]
    exact h.file_eq
  exact newLines_eq hfile h.startSize_eq h.before_complete

theorem Follows.exact (h : s.Follows) : s.Exact := by
  obtain ⟨before, read, rest, hsplit, hphase⟩ := h
  constructor
  · rw [hsplit.newLines_file, hsplit.sent_eq]
    exact lines_prefix_append read rest
  · intro hidle
    simp only [PhaseAgrees, hidle] at hphase
    rw [hphase.1, hsplit.newLines_read, hsplit.sent_eq]

/-- PostgreSQL only adds to the rest. -/
theorem Split.appended (h : s.Split before read rest) {chunk : List Byte}
    (hordinary : s.ordinary (.append chunk) = true) (hharmless : s.harmless (.append chunk) = true) :
    ({ s with file := s.file ++ chunk } : LogStream).Split before read (rest ++ chunk) := by
  have hfile : s.file ++ chunk = before ++ (read ++ (rest ++ chunk)) := by
    rw [h.file_eq]
    simp only [List.append_assoc]
  have hnew : ({ s with file := s.file ++ chunk } : LogStream).newLines (s.file ++ chunk).length =
      lines newline (read ++ (rest ++ chunk)) := by
    have hlength : (s.file ++ chunk).length = before.length + (read ++ (rest ++ chunk)).length := by
      rw [hfile, List.length_append]
    rw [hlength]
    have hall : s.file ++ chunk = before ++ ((read ++ (rest ++ chunk)) ++ []) := by
      rw [List.append_nil]
      exact hfile
    exact newLines_eq hall h.startSize_eq h.before_complete
  refine { h with file_eq := hfile, fine := fun l hl => ?_ }
  have hboth : (l ≠ [] ∧ l.length < scanBuffer) ∧ l.getLast? ≠ some carriageReturn := by
    simp only [ordinary, harmless, hnew, List.all_eq_true, Bool.and_eq_true,
      decide_eq_true_eq] at hordinary hharmless
    exact ⟨hordinary l hl, hharmless l hl⟩
  exact ⟨hboth.1.1, hboth.1.2, hboth.2⟩

/-- Steps that write ordinary lines and meet the condition. -/
def Settled (s : LogStream) (l : LogLabel) : Prop :=
  s.ordinary l = true ∧ s.harmless l = true

end LogStream

end Handler
end Pgaio
