import Pgaio.Model.Types
import Pgaio.Postgres.Tokens
import Pgaio.Service.PlanStore

/-!
# ExplainQuery — the plan of a query

`ExplainQuery` of `handler/queries.go`.  A query that begins with `SELECT` or `WITH` is sent behind
`EXPLAIN`: executed when its text has no `$1` in it, and otherwise only planned, with `NULL` in the place
of each `$1`.
-/

namespace Pgaio
namespace Handler

open Go Model Postgres.SQL Service

/-! ## `\$\d+` -/

/-- `paramRe.MatchString`. -/
def hasParams : List Char → Bool
  | [] => false
  | c :: text => (c = '$' && startsWith Char.isDigit text) || hasParams text

/-- `paramRe.ReplaceAllString`, from within the digits of a match or not. -/
def replaceFrom : Bool → List Char → List Char
  | _, [] => []
  | inMatch, c :: text =>
      if inMatch && c.isDigit then replaceFrom true text
      else if c = '$' && startsWith Char.isDigit text then 'N' :: 'U' :: 'L' :: 'L' :: replaceFrom true text
      else c :: replaceFrom false text

/-- `paramRe.ReplaceAllString(text, "NULL")`. -/
def replaceParams (text : List Char) : List Char :=
  replaceFrom false text

/-! ## queries.go -/

/-- `unicode.ToUpper` as far as ASCII letters come out: beyond ASCII only these two have one. -/
def toUpperRune (c : Char) : Char :=
  if c = 'ſ' then 'S' else if c = 'ı' then 'I' else c.toUpper

/-- `strings.HasPrefix(strings.ToUpper(query), word)` for a word of ASCII letters. -/
def upperHasPrefix (query word : String) : Bool :=
  word.toList.isPrefixOf (query.toList.map toUpperRune)

structure ExplainRequest where
  query : String
  database : String := ""
  profile : String := ""
  save : Bool := false
  name : String := ""
  deriving DecidableEq, Repr

/-- The text that is sent, and the mode. -/
def explainSQL (query : String) : String × String :=
  if hasParams query.toList then
    ("EXPLAIN (COSTS, BUFFERS, FORMAT JSON) " ++ String.ofList (replaceParams query.toList), "estimated")
  else ("EXPLAIN (ANALYZE, BUFFERS, FORMAT JSON) " ++ query, "analyzed")

structure ExplainData (Plan : Type) where
  mode : String
  plan : Plan
  planID : Option String := none
  deriving DecidableEq, Repr

/-- `name[:80]` where the name is longer, as far as the bytes make characters. -/
def clipName : Nat → List Char → List Char
  | _, [] => []
  | room, c :: name => if c.utf8Size ≤ room then c :: clipName (room - c.utf8Size) name else []

/-- The name under which a plan is saved. -/
def planName (req : ExplainRequest) : String :=
  let name := trimSpace req.name
  if name = "" then String.ofList (clipName 80 (trimSpace req.query).toList) else name

/-- What `ExplainQuery` checks before it asks for a connection: the query that it goes on with, or the
error. -/
def explainable (req : ExplainRequest) : Except String String :=
  let query := trimSpace req.query
  if query = "" then .error "query is required"
  else if !upperHasPrefix query "SELECT" && !upperHasPrefix query "WITH" then
    .error "only SELECT/WITH queries can be explained"
  else .ok query

/-- `ExplainQuery`, with the store of plans after it (`none` without one) and the text that is sent.
`getPool` finds a connection, `queryRow` is the database's answer and `unmarshal` reads the JSON of a
plan. -/
def explainQuery {Pool Plan : Type} (getPool : String → String → Except String Pool)
    (queryRow : Pool → String → Except String (List UInt8)) (unmarshal : List UInt8 → Plan) (now : Time)
    (plans : Option PlanStore) (body : Option ExplainRequest) :
    Response (ExplainData Plan) × Option PlanStore × Option String :=
  match body with
  | none => (.failure statusBadRequest "invalid request", plans, none)
  | some req =>
      match explainable req with
      | .error err => (.failure statusBadRequest err, plans, none)
      | .ok query =>
          match getPool req.database req.profile with
          | .error err =>
              (.failure statusInternalServerError ("failed to connect to database: " ++ err), plans, none)
          | .ok pool =>
              let sql := (explainSQL query).1
              let mode := (explainSQL query).2
              match queryRow pool sql with
              | .error err =>
                  (.failure statusInternalServerError ("explain failed: " ++ err), plans, some sql)
              | .ok planJSON =>
                  let plan := unmarshal planJSON
                  match (if req.save then plans else none) with
                  | none => (.success statusOK { mode := mode, plan := plan }, plans, some sql)
                  | some store =>
                      let saved := store.save now (planName req) req.query req.database req.profile mode
                        planJSON
                      (.success statusOK { mode := mode, plan := plan, planID := some saved.1.id.text },
                        some saved.2, some sql)

/-- What is sent is the text for the trimmed query. -/
theorem sent_explainQuery {Pool Plan : Type} {getPool : String → String → Except String Pool}
    {queryRow : Pool → String → Except String (List UInt8)} {unmarshal : List UInt8 → Plan} {now : Time}
    {plans : Option PlanStore} {req : ExplainRequest} {sql : String}
    (h : (explainQuery getPool queryRow unmarshal now plans (some req)).2.2 = some sql) :
    explainable req = .ok (trimSpace req.query) ∧ sql = (explainSQL (trimSpace req.query)).1 := by
  have hquery (query : String) (hok : explainable req = .ok query) : query = trimSpace req.query := by
    unfold explainable at hok
    dsimp only at hok
    split at hok
    · cases hok
    · split at hok
      · cases hok
      · exact (Except.ok.inj hok).symm
  simp only [explainQuery] at h
  split at h
  · cases h
  · next query hok =>
      obtain rfl := hquery query hok
      refine ⟨hok, ?_⟩
      split at h
      · cases h
      · split at h
        · exact (Option.some.inj h).symm
        · split at h <;> exact (Option.some.inj h).symm

/-! ## The tokens in front of the query -/

/-- `EXPLAIN (…, BUFFERS, FORMAT JSON)`. -/
def explainHead (option : String) : List Token :=
  [.word "explain".toList, .symbol ['('], .word option.toList, .symbol [','], .word "buffers".toList,
    .symbol [','], .word "format".toList, .word "json".toList, .symbol [')']]

theorem lex_explain {w : List Char} {option : String} (hname : isName w = true)
    (hoption : w.map Char.toLower = option.toList) (text : List Char) :
    lex ("EXPLAIN (".toList ++ (w ++ (", BUFFERS, FORMAT JSON) ".toList ++ text))) =
      (lex text).map (explainHead option ++ ·) := by
  have hcomma (text : List Char) : lex (',' :: ' ' :: text) = (lex text).map (.symbol [','] :: ·) := by
    rw [lex_punctuation (by decide), lex_blank (by decide)]
  have hend : lex ("FORMAT".toList ++ ' ' :: ("JSON".toList ++ ')' :: ' ' :: text)) =
      (lex text).map ([.word "format".toList, .word "json".toList, .symbol [')']] ++ ·) := by
    rw [lex_word_blank (by decide) (by decide), lex_word (by decide) (by decide) (by decide),
      lex_punctuation (by decide), lex_blank (by decide), Option.map_map, Option.map_map]
    rfl
  have hbuffers : lex ("BUFFERS".toList ++ ',' :: ' ' :: ("FORMAT".toList ++ ' ' :: ("JSON".toList ++
        ')' :: ' ' :: text))) =
      (lex text).map ([.word "buffers".toList, .symbol [','], .word "format".toList, .word "json".toList,
        .symbol [')']] ++ ·) := by
    rw [lex_word (by decide) (by decide) (by decide), hcomma, hend, Option.map_map, Option.map_map]
    rfl
  have htext : "EXPLAIN (".toList ++ (w ++ (", BUFFERS, FORMAT JSON) ".toList ++ text)) =
      "EXPLAIN".toList ++ ' ' :: '(' :: (w ++ ',' :: ' ' :: ("BUFFERS".toList ++ ',' :: ' ' ::
        ("FORMAT".toList ++ ' ' :: ("JSON".toList ++ ')' :: ' ' :: text)))) := rfl
  rw [htext, lex_word_blank (by decide) (by decide), lex_punctuation (by decide),
    lex_word hname (by decide) (by decide), hcomma, hbuffers, hoption]
  simp only [Option.map_map]
  rfl

/-- What `ExplainQuery` sends, as tokens: with parameters it is only planned. -/
theorem lex_explainSQL (query : String) :
    lex (explainSQL query).1.toList =
      if hasParams query.toList then
        (lex (replaceParams query.toList)).map (explainHead "costs" ++ ·)
      else (lex query.toList).map (explainHead "analyze" ++ ·) := by
  have hsent {head : String} (w : List Char) (text : String)
      (hhead : head.toList = "EXPLAIN (".toList ++ (w ++ ", BUFFERS, FORMAT JSON) ".toList)) :
      (head ++ text).toList =
        "EXPLAIN (".toList ++ (w ++ (", BUFFERS, FORMAT JSON) ".toList ++ text.toList)) := by
    rw [String.toList_append, hhead, List.append_assoc, List.append_assoc]
  have hreplaced : (String.ofList (replaceParams query.toList)).toList = replaceParams query.toList :=
    String.toList_ofList
  unfold explainSQL
  by_cases hparams : hasParams query.toList = true
  · rw [if_pos hparams, if_pos hparams, ← lex_explain (w := "COSTS".toList) (by decide) (by decide),
      hsent "COSTS".toList _ (by decide), hreplaced]
  · rw [if_neg hparams, if_neg hparams, ← lex_explain (w := "ANALYZE".toList) (by decide) (by decide),
      hsent "ANALYZE".toList _ (by decide)]

end Handler
end Pgaio
