import Mathlib.Data.List.Basic

/-!
# Rows — what the database driver yields for a query

A driver hands out the rows of a result one by one.  Reading a row may fail on its own, and when no
row is left the stream has either ended normally or been cut off by an error of the statement.  Only
the end of the stream tells which; a reader that looks at the rows alone cannot know.
-/

namespace Pgaio
namespace Database

variable {α β : Type}

inductive RowStream (α : Type) where
  /-- No row is left, and the statement has succeeded. -/
  | finished
  /-- No row is left, because the statement has failed. -/
  | failed (err : String)
  /-- The next row, or the error of reading it. -/
  | row (x : Except String α) (rest : RowStream α)

namespace RowStream

/-- The error with which the stream ended. -/
def err? : RowStream α → Option String
  | .finished => none
  | .failed err => some err
  | .row _ rest => rest.err?

/-- The rows that can be read. -/
def readable : RowStream α → List α
  | .finished => []
  | .failed _ => []
  | .row (.ok x) rest => x :: rest.readable
  | .row (.error _) rest => rest.readable

/-- A stream of the given rows that ends with `err`. -/
def ofRows (rows : List α) (err : Option String) : RowStream α :=
  rows.foldr (fun x rest => .row (.ok x) rest) (err.elim .finished .failed)

@[simp] theorem err?_ofRows (rows : List α) (err : Option String) :
    (ofRows rows err).err? = err := by
  induction rows with
  | nil => cases err <;> rfl
  | cons x rows ih => exact ih

@[simp] theorem readable_ofRows (rows : List α) (err : Option String) :
    (ofRows rows err).readable = rows := by
  induction rows with
  | nil => cases err <;> rfl
  | cons x rows ih => exact congrArg (x :: ·) ih

/-- The rows do not tell how the stream ended. -/
theorem readable_does_not_tell (rows : List α) (err err' : Option String) :
    (ofRows rows err).readable = (ofRows rows err').readable := by
  rw [readable_ofRows, readable_ofRows]

/-- What a driver may do with a result of these rows: it hands them out in order, some of them cannot
be read, and an error may end the stream before any of them.  A stream that has ended normally has
handed out all of them. -/
inductive Delivers : RowStream α → List α → Prop where
  | finished : Delivers .finished []
  | failed (err : String) (rows : List α) : Delivers (.failed err) rows
  | scanned (x : α) {rest : RowStream α} {rows : List α} :
      Delivers rest rows → Delivers (.row (.ok x) rest) (x :: rows)
  | unread (err : String) (x : α) {rest : RowStream α} {rows : List α} :
      Delivers rest rows → Delivers (.row (.error err) rest) (x :: rows)

/-- What can be read are rows of the result. -/
theorem Delivers.readable_sublist {stream : RowStream α} {rows : List α}
    (h : Delivers stream rows) : stream.readable.Sublist rows := by
  induction h with
  | finished =>
      exact List.Sublist.refl []
  | failed err rows =>
      exact List.nil_sublist rows
  | scanned x _ ih =>
      exact ih.cons_cons x
  | unread err x _ ih =>
      exact ih.cons x

/-- The driver may hand out every row. -/
theorem delivers_ofRows (rows : List α) : Delivers (ofRows rows none) rows := by
  induction rows with
  | nil =>
      exact Delivers.finished
  | cons x rows ih =>
      exact Delivers.scanned x ih

end RowStream

/-- The answer to a query that has been sent: its column names and its rows. -/
structure Rows (α : Type) where
  columns : List String
  stream : RowStream (List α)

/-- A connection pool, as far as a text is sent to it. -/
abbrev Pool (α : Type) := String → Except String (Rows α)

end Database
end Pgaio
