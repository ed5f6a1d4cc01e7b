import Pgaio.Database.Rows
import Pgaio.Go.Slices
import Pgaio.Model.Types
import Mathlib.Data.List.AList

/-!
# SQL — running a statement and reporting its outcome

`ExecuteSQL` and `addHistory` of `handler/sql.go`.  The driver reports a failure in three ways: the
query is refused at once, a row cannot be read, or the stream of rows ends by an error.  The handler
looks at the first two only, so it answers a stream that was cut off like one that ended normally
(`cut_off_unnoticed`).  `reports_failures_iff` says for which requests its report is right.
-/

namespace Pgaio
namespace Handler

open Go Model Database

structure HistoryEntry where
  query : String
  time : Time
  /-- In milliseconds. -/
  duration : Float
  rowCount : Nat
  error : String

structure SQLHandler where
  history : List HistoryEntry := []

structure SQLRequest where
  query : String := ""
  database : String := ""
  profile : String := ""
  deriving DecidableEq, Repr

variable {V : Type}

abbrev SQLRow (V : Type) := AList fun _ : String => V

structure SQLResult (V : Type) where
  columns : List String
  rows : List (SQLRow V)
  rowCount : Nat

namespace SQLHandler

def maxHistory : Nat := 100

def addHistory (h : SQLHandler) (query : String) (durMs : Float) (rowCount : Nat)
    (errMsg : String) (now : Time) : SQLHandler :=
  { h with
    history := appendKeeping maxHistory h.history
      { query := query
        time := now
        duration := durMs
        rowCount := rowCount
        error := errMsg } }

/-- The values of a row under their column names; values without a column are dropped. -/
def rowOf (columns : List String) (values : List V) : SQLRow V :=
  (columns.zip values).foldl (fun row (col, value) => row.insert col value) ∅

/-- The loop over the rows; a row that cannot be read is skipped. -/
def collectRows (columns : List String) : RowStream (List V) → List (SQLRow V)
  | .finished => []
  | .failed _ => []
  | .row (.error _) rest => collectRows columns rest
  | .row (.ok values) rest => rowOf columns values :: collectRows columns rest

/-- `float64(d.Microseconds()) / 1000`. -/
def milliseconds (d : Duration) : Float :=
  Float.ofInt (d.tdiv 1000) / 1000

/-- What the handler reads of the clock: before and after the statement, and for the history. -/
structure Clock where
  start : Time
  stop : Time
  entry : Time

/-- `body` is the decoded request, if it can be decoded, and `getPool` is `GetPoolForProfile`. -/
def executeSQL (h : SQLHandler) (getPool : String → String → Except String (Pool V))
    (body : Option SQLRequest) (clock : Clock) : Response (SQLResult V) × SQLHandler :=
  match body with
  | none => (.failure statusBadRequest "invalid request body", h)
  | some req =>
      if req.query = "" then (.failure statusBadRequest "query is required", h)
      else
        match getPool req.database req.profile with
        | .error err =>
            (.failure statusInternalServerError ("failed to connect to database: " ++ err), h)
        | .ok pool =>
            let durMs := milliseconds (clock.stop.sub clock.start)
            match pool req.query with
            | .error err =>
                (.failure statusOK err, h.addHistory req.query durMs 0 err clock.entry)
            | .ok rows =>
                let results := collectRows rows.columns rows.stream
                ( .success statusOK
                    { columns := rows.columns
                      rows := results
                      rowCount := results.length },
                  h.addHistory req.query durMs results.length "" clock.entry)

/-! ## Errors of the statement -/

/-- What the driver answers to the statement of a request, if it is sent at all. -/
def sent? (getPool : String → String → Except String (Pool V)) :
    Option SQLRequest → Option (Except String (Rows V))
  | none => none
  | some req =>
      if req.query = "" then none
      else
        match getPool req.database req.profile with
        | .error _ => none
        | .ok pool => some (pool req.query)

/-- The error with which the stream of rows ended. -/
def streamError? (getPool : String → String → Except String (Pool V)) (body : Option SQLRequest) :
    Option String :=
  match sent? getPool body with
  | some (.ok rows) => rows.stream.err?
  | _ => none

/-- The error with which the statement failed, at once or while its rows were read. -/
def statementError? (getPool : String → String → Except String (Pool V))
    (body : Option SQLRequest) : Option String :=
  match sent? getPool body with
  | some (.error err) => some err
  | some (.ok rows) => rows.stream.err?
  | none => none

/-- The report of an execution: a success is answered only when the statement has not failed, and a
statement that failed is a failure in the answer and in the history. -/
structure ReportsFailures (getPool : String → String → Except String (Pool V))
    (body : Option SQLRequest) (result : Response (SQLResult V) × SQLHandler) : Prop where
  success_only_if : result.1.body.success = true → statementError? getPool body = none
  unmarked_only_if : ∀ entry, (sent? getPool body).isSome = true →
    result.2.history.getLast? = some entry → entry.error = "" → streamError? getPool body = none
  failure_reported : ∀ err, statementError? getPool body = some err →
    result.1.body.success = false ∧ result.1.body.error = err ∧
      ∃ entry, result.2.history.getLast? = some entry ∧ entry.error = err

/-! ## What the handler does -/

theorem collectRows_eq (columns : List String) (stream : RowStream (List V)) :
    collectRows columns stream = stream.readable.map (rowOf columns) := by
  -- Rows that cannot be scanned are skipped, and both ends of the stream look alike.
  induction stream with
  | finished => rfl
  | failed err => rfl
  | row x rest ih =>
      cases x with
      | ok values => exact congrArg (rowOf columns values :: ·) ih
      | error err => exact ih

theorem getLast?_addHistory (h : SQLHandler) (query : String) (durMs : Float) (rowCount : Nat)
    (errMsg : String) (now : Time) :
    ∃ entry, (h.addHistory query durMs rowCount errMsg now).history.getLast? = some entry ∧
      entry.error = errMsg ∧ entry.rowCount = rowCount :=
  ⟨_, getLast?_appendKeeping (by decide) _ _, rfl, rfl⟩

/-- The three ways in which a request ends, by what became of its statement. -/
theorem executeSQL_cases (h : SQLHandler) (getPool : String → String → Except String (Pool V))
    (body : Option SQLRequest) (clock : Clock) :
    (sent? getPool body = none ∧
        ∃ status error, h.executeSQL getPool body clock = (.failure status error, h)) ∨
      (∃ req err, body = some req ∧ sent? getPool body = some (.error err) ∧
        h.executeSQL getPool body clock =
          (.failure statusOK err, h.addHistory req.query
            (milliseconds (clock.stop.sub clock.start)) 0 err clock.entry)) ∨
      (∃ req rows, body = some req ∧ sent? getPool body = some (.ok rows) ∧
        h.executeSQL getPool body clock =
          (.success statusOK
              { columns := rows.columns
                rows := collectRows rows.columns rows.stream
                rowCount := (collectRows rows.columns rows.stream).length },
            h.addHistory req.query (milliseconds (clock.stop.sub clock.start))
              (collectRows rows.columns rows.stream).length "" clock.entry)) := by
  -- In the order of the checks of the handler: body, text, pool, statement.
  cases body with
  | none => exact Or.inl ⟨rfl, _, _, rfl⟩
  | some req =>
      by_cases hquery : req.query = ""
      · refine Or.inl ⟨?_, statusBadRequest, "query is required", ?_⟩
        · simp [sent?, hquery]
        · simp [executeSQL, hquery]
      · cases hpool : getPool req.database req.profile with
        | error err =>
            refine Or.inl ⟨?_, statusInternalServerError,
              "failed to connect to database: " ++ err, ?_⟩
            · simp [sent?, hquery, hpool]
            · simp [executeSQL, hquery, hpool]
        | ok pool =>
            cases hrows : pool req.query with
            | error err =>
                refine Or.inr (Or.inl ⟨req, err, rfl, ?_, ?_⟩)
                · simp [sent?, hquery, hpool, hrows]
                · simp [executeSQL, hquery, hpool, hrows]
            | ok rows =>
                refine Or.inr (Or.inr ⟨req, rows, rfl, ?_, ?_⟩)
                · simp [sent?, hquery, hpool, hrows]
                · simp [executeSQL, hquery, hpool, hrows]

/-- On success the answer and the history agree on the number of rows, which is that of the rows
that could be read. -/
theorem executeSQL_counts {h : SQLHandler} {getPool : String → String → Except String (Pool V)}
    {body : Option SQLRequest} {clock : Clock} {result : SQLResult V}
    (hdata : (h.executeSQL getPool body clock).1.body.data = some result) :
    ∃ rows entry, sent? getPool body = some (.ok rows) ∧
      result.rows = rows.stream.readable.map (rowOf rows.columns) ∧
      result.rowCount = rows.stream.readable.length ∧
      (h.executeSQL getPool body clock).2.history.getLast? = some entry ∧
      entry.rowCount = result.rowCount := by
  rcases executeSQL_cases h getPool body clock with
    ⟨_, _, _, heq⟩ | ⟨req, err, _, _, heq⟩ | ⟨req, rows, _, hsent, heq⟩
  · rw [heq] at hdata
    cases hdata
  · rw [heq] at hdata
    cases hdata
  · rw [heq] at hdata
    cases hdata
    rcases getLast?_addHistory h req.query (milliseconds (clock.stop.sub clock.start))
      (collectRows rows.columns rows.stream).length "" clock.entry with ⟨entry, hlast, _, hcount⟩
    refine ⟨rows, entry, hsent, collectRows_eq _ _, by simp [collectRows_eq], ?_, hcount⟩
    rw [heq]
    exact hlast

/-- The handler cannot tell a stream that was cut off from one that ended normally. -/
theorem cut_off_unnoticed (h : SQLHandler) (req : SQLRequest) (clock : Clock)
    (columns : List String) (rows : List (List V)) (err : String) :
    h.executeSQL (fun _ _ => .ok fun _ => .ok ⟨columns, .ofRows rows (some err)⟩) (some req) clock =
      h.executeSQL (fun _ _ => .ok fun _ => .ok ⟨columns, .ofRows rows none⟩) (some req) clock := by
  unfold executeSQL
  simp only [collectRows_eq, RowStream.readable_does_not_tell rows (some err) none]

theorem statementError?_of_stream {getPool : String → String → Except String (Pool V)}
    {body : Option SQLRequest} {err : String} (h : streamError? getPool body = some err) :
    statementError? getPool body = some err := by
  unfold streamError? at h
  unfold statementError?
  cases hsent : sent? getPool body with
  | none => simp [hsent] at h
  | some answer =>
      cases answer with
      | error e => simp [hsent] at h
      | ok rows => simpa [hsent] using h

/-- For every request and every answer of the driver: the outcome is reported rightly exactly when
the stream of rows, if there is one, did not end by an error. -/
theorem reports_failures_iff (h : SQLHandler)
    (getPool : String → String → Except String (Pool V)) (body : Option SQLRequest)
    (clock : Clock) :
    ReportsFailures getPool body (h.executeSQL getPool body clock) ↔
      streamError? getPool body = none := by
  rcases executeSQL_cases h getPool body clock with
    ⟨hsent, _⟩ | ⟨req, err, _, hsent, heq⟩ | ⟨req, rows, _, hsent, heq⟩
  · -- No statement was sent.
    have hnone : streamError? getPool body = none := by simp [streamError?, hsent]
    have hnone' : statementError? getPool body = none := by simp [statementError?, hsent]
    refine ⟨fun _ => hnone, fun _ => ⟨fun _ => hnone', fun _ _ _ _ => hnone, ?_⟩⟩
    intro err herr
    rw [hnone'] at herr
    cases herr
  · -- The driver refused the statement, and that is reported.
    have hnone : streamError? getPool body = none := by simp [streamError?, hsent]
    have herr : statementError? getPool body = some err := by simp [statementError?, hsent]
    refine ⟨fun _ => hnone, fun _ => ⟨?_, fun _ _ _ _ => hnone, ?_⟩⟩
    · rw [heq]
      intro hsuccess
      cases hsuccess
    · intro err' herr'
      rw [herr] at herr'
      cases herr'
      rw [heq]
      rcases getLast?_addHistory h req.query (milliseconds (clock.stop.sub clock.start)) 0 err
        clock.entry with ⟨entry, hlast, herror, _⟩
      exact ⟨rfl, rfl, entry, hlast, herror⟩
  · -- The rows were read to the end of their stream, and a success is answered whatever the end was.
    constructor
    · intro hreports
      cases hstream : streamError? getPool body with
      | none => rfl
      | some err =>
          have hfailure := hreports.failure_reported err (statementError?_of_stream hstream)
          rw [heq] at hfailure
          cases hfailure.1
    · intro hnone
      have hnone' : statementError? getPool body = none := by
        simpa [statementError?, streamError?, hsent] using hnone
      refine ⟨fun _ => hnone', fun _ _ _ _ => hnone, ?_⟩
      intro err herr
      rw [hnone'] at herr
      cases herr

/-! ## A concrete statement -/

/-- One row is read, then the statement is canceled. -/
def canceledPool (_ _ : String) : Except String (Pool Nat) :=
  .ok fun _ => .ok ⟨["id"], .ofRows [[1]] (some "canceling statement due to statement timeout")⟩

theorem failure_unreported :
    ¬ ∀ (h : SQLHandler) (getPool : String → String → Except String (Pool Nat))
        (body : Option SQLRequest) (clock : Clock),
      ReportsFailures getPool body (h.executeSQL getPool body clock) := by
  intro hall
  have hreports := hall {} canceledPool (some { query := "SELECT id FROM t" }) ⟨0, 1, 1⟩
  have hfailure := hreports.failure_reported "canceling statement due to statement timeout" rfl
  cases hfailure.1

end SQLHandler

end Handler
end Pgaio
