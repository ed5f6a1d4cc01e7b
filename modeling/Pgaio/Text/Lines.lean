import Mathlib.Data.List.Basic

/-!
# Lines — a text that arrives in pieces

A line ends with a separator.  `scan sep pending text` goes through a piece of text after the unfinished
line `pending`: it yields the lines that the piece completes and what is unfinished at its end.  Pieces
may be cut anywhere, since `scan_append` says that scanning one after the other is scanning both at
once.
-/

namespace Pgaio
namespace Text

variable {α : Type} [DecidableEq α] {sep : α}

/-- The completed lines, without separators, and the unfinished one. -/
def scan (sep : α) (pending : List α) : List α → List (List α) × List α
  | [] => ([], pending)
  | c :: rest =>
      if c = sep then (pending :: (scan sep [] rest).1, (scan sep [] rest).2)
      else scan sep (pending ++ [c]) rest

/-- The complete lines of a text. -/
def lines (sep : α) (text : List α) : List (List α) :=
  (scan sep [] text).1

/-- What stands after the last separator. -/
def unfinished (sep : α) (text : List α) : List α :=
  (scan sep [] text).2

/-- All lines, also the last one when no separator ends it. -/
def allLines (sep : α) (text : List α) : List (List α) :=
  lines sep text ++ (if unfinished sep text = [] then [] else [unfinished sep text])

@[simp] theorem lines_nil : lines sep [] = [] := rfl

@[simp] theorem unfinished_nil : unfinished sep [] = [] := rfl

theorem scan_append (pending xs ys : List α) :
    scan sep pending (xs ++ ys) =
      ((scan sep pending xs).1 ++ (scan sep (scan sep pending xs).2 ys).1,
        (scan sep (scan sep pending xs).2 ys).2) := by
  induction xs generalizing pending with
  | nil => rfl
  | cons c xs ih =>
      by_cases hc : c = sep
      · simp only [List.cons_append, scan, if_pos hc, ih]
      · simp only [List.cons_append, scan, if_neg hc, ih]

theorem lines_append (xs ys : List α) :
    lines sep (xs ++ ys) = lines sep xs ++ (scan sep (unfinished sep xs) ys).1 :=
  congrArg Prod.fst (scan_append [] xs ys)

/-- No line is ever taken back. -/
theorem lines_prefix_append (xs ys : List α) : lines sep xs <+: lines sep (xs ++ ys) := by
  rw [lines_append]
  exact List.prefix_append _ _

/-- At the end of a line the lines of the two parts are counted separately. -/
theorem lines_append_of_complete {xs : List α} (h : unfinished sep xs = []) (ys : List α) :
    lines sep (xs ++ ys) = lines sep xs ++ lines sep ys := by
  rw [lines_append, h]
  rfl

theorem scan_of_notMem {xs : List α} (h : sep ∉ xs) (pending : List α) :
    scan sep pending xs = ([], pending ++ xs) := by
  induction xs generalizing pending with
  | nil => rw [scan, List.append_nil]
  | cons c xs ih =>
      rw [List.mem_cons, not_or] at h
      rw [scan, if_neg (fun heq => h.1 heq.symm), ih h.2, List.append_assoc]
      rfl

theorem allLines_cons {line : List α} (h : sep ∉ line) (rest : List α) :
    allLines sep (line ++ sep :: rest) = line :: allLines sep rest := by
  have hscan : scan sep [] (line ++ sep :: rest) =
      (line :: (scan sep [] rest).1, (scan sep [] rest).2) := by
    rw [scan_append, scan_of_notMem h]
    simp [scan]
  unfold allLines lines unfinished
  rw [hscan]
  rfl

end Text
end Pgaio
