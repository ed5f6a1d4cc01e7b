import Pgaio.Handler.ExplainQuery
import Pgaio.Postgres.WithClause

/-!
# ExplainReadOnly — what explaining a query executes

An `EXPLAIN` with `ANALYZE` executes its statement.  `ExplainQuery` lets texts through that begin with
`SELECT` or `WITH`, and sends `ANALYZE` with each of them that has no `$1`; `explain_read_only_iff` says
which of them change no table by it.

A text goes to PostgreSQL by the extended protocol, which takes a single statement.
-/

namespace Pgaio
namespace Handler

open Go Model Postgres.SQL Service

variable {c : Char} {text : List Char} {ts : List Token}

/-! ## The statement that is executed -/

/-- What stands behind the options of an `EXPLAIN (…)`, with `ANALYZE` among them. -/
def executedBy : List Token → Option (List Token)
  | t :: t' :: ts =>
      if t = keyword "explain" ∧ t' = openParen then
        (splitClose 0 ts).bind fun b =>
          if [keyword "analyze"] ∈ b.1.splitOn comma then some b.2 else none
      else none
  | _ => none

theorem executedBy_analyze (ts : List Token) : executedBy (explainHead "analyze" ++ ts) = some ts := by
  rfl

theorem executedBy_costs (ts : List Token) : executedBy (explainHead "costs" ++ ts) = none := by
  rfl

/-! ## The first token of a query -/

theorem isLetter_of_toUpperRune (hc : isLetter (toUpperRune c) = true) : isLetter c = true := by
  unfold toUpperRune at hc
  split at hc
  · next heq => rw [heq]; decide
  · split at hc
    · next heq => rw [heq]; decide
    · by_cases hlower : c.isLower = true
      · simp [isLetter, isAlpha_eq, hlower]
      · have hsame : c.toUpper = c := by
          unfold Char.toUpper
          exact dif_neg (fun hrange => hlower (isLower_iff_toNat.2 hrange))
        rwa [hsame] at hc

/-- A text that passes begins with a letter. -/
theorem letter_of_explainable {req : ExplainRequest} {query : String} (h : explainable req = .ok query) :
    ∃ c text, query.toList = c :: text ∧ isLetter c = true := by
  have hword {word : String} (hletter : startsWith isLetter word.toList = true)
      (hhas : upperHasPrefix query word = true) :
      ∃ c text, query.toList = c :: text ∧ isLetter c = true := by
    unfold upperHasPrefix at hhas
    cases hword : word.toList with
    | nil => simp [hword, startsWith] at hletter
    | cons x others =>
        cases hquery : query.toList with
        | nil => simp [hword, hquery] at hhas
        | cons c text =>
            rw [hword, hquery, List.map_cons, List.isPrefixOf_cons_cons, Bool.and_eq_true_iff,
              beq_iff_eq] at hhas
            rw [hword] at hletter
            exact ⟨c, text, rfl, isLetter_of_toUpperRune (hhas.1 ▸ hletter)⟩
  -- Both words that let a text pass begin with a letter.
  unfold explainable at h
  dsimp only at h
  split at h
  · cases h
  · split at h
    · cases h
    · next hguard =>
        obtain rfl := Except.ok.inj h
        by_cases hselect : upperHasPrefix (trimSpace req.query) "SELECT" = true
        · exact hword (by decide) hselect
        · have hwith : upperHasPrefix (trimSpace req.query) "WITH" = true := by
            simpa [hselect] using hguard
          exact hword (by decide) hwith

theorem token_of_letter (hc : isLetter c = true) (h : lex (c :: text) = some ts) :
    ∃ t ts', ts = t :: ts' ∧ t ≠ semicolon := by
  have hne {x : Char} (hx : isLetter x = false) : c ≠ x := fun heq => by
    rw [heq, hx] at hc
    cases hc
  cases hmunch : munch .nothing (c :: text) with
  | none =>
      rw [lex, lexFrom_of_munch_none hmunch] at h
      cases h
  | some piece =>
      obtain ⟨kind, rest⟩ := piece
      have hfrom := munch_from hmunch
      rw [lex, lexFrom_cons hmunch] at h
      obtain ⟨g, hg, rfl⟩ := Option.map_eq_some_iff.1 h
      obtain ⟨g', -, rfl⟩ := Option.map_eq_some_iff.1 hg
      -- Blanks and comments do not begin with a letter, nor does a semicolon.
      cases kind with
      | blank =>
          have hnot : isLetter c = false := of_isBlank hfrom.1 (by decide)
          exact absurd (hnot.symm.trans hc) Bool.false_ne_true
      | lineComment => exact absurd hfrom.1 (hne (by decide))
      | blockComment => exact absurd hfrom.1 (hne (by decide))
      | string k body => exact ⟨_, _, rfl, Token.noConfusion⟩
      | more body => exact absurd hmunch munch_nothing_ne_more
      | token t =>
          refine ⟨t, _, rfl, ?_⟩
          rintro rfl
          exact hne (by decide) (Option.some.inj hfrom).symm

/-! ## ExplainQuery -/

/-- No statement that changes tables is executed, exactly if the query is only planned or is no such
statement. -/
theorem explain_read_only_iff {Pool Plan : Type} {getPool : String → String → Except String Pool}
    {queryRow : Pool → String → Except String (List UInt8)} {unmarshal : List UInt8 → Plan} {now : Time}
    {plans : Option PlanStore} {req : ExplainRequest} {query sql : String}
    (hquery : explainable req = .ok query)
    (hsql : (explainQuery getPool queryRow unmarshal now plans (some req)).2.2 = some sql) :
    (∀ sent statement, statements sql.toList = some [sent] → executedBy sent = some statement →
        ¬ Modifies statement) ↔
      hasParams query.toList = true ∨
        ∀ statement, statements query.toList = some [statement] → modifies statement = false := by
  obtain ⟨hok, hsent⟩ := sent_explainQuery hsql
  rw [hsent]
  obtain rfl : query = trimSpace req.query := Except.ok.inj (hquery.symm.trans hok)
  obtain ⟨c, text, htext, hc⟩ := letter_of_explainable hok
  generalize trimSpace req.query = query at *
  have hlexed := lex_explainSQL query
  by_cases hparams : hasParams query.toList = true
  · -- With parameters the query is planned only, and a plan executes nothing.
    rw [if_pos hparams] at hlexed
    refine iff_of_true (fun sent statement hsent hexecuted => ?_) (.inl hparams)
    obtain ⟨ts, hts, hsplit⟩ := Option.map_eq_some_iff.1 hsent
    rw [hlexed] at hts
    obtain ⟨ts, -, rfl⟩ := Option.map_eq_some_iff.1 hts
    obtain ⟨others, rfl⟩ := prefix_of_splitStatements hsplit (by decide) (by decide)
    rw [executedBy_costs] at hexecuted
    cases hexecuted
  · -- Else the statement that is executed is the one behind the options.
    rw [if_neg hparams] at hlexed
    rw [or_iff_right hparams, statements, statements, hlexed]
    cases hts : lex query.toList with
    | none => simp
    | some ts =>
        rw [htext] at hts
        obtain ⟨t, ts, rfl, ht⟩ := token_of_letter hc hts
        have hhead : semicolon ∉ explainHead "analyze" := by decide
        obtain ⟨first, others, hfirst, hsent⟩ := splitStatements_append hhead ht ts
        rw [Option.map_some, Option.map_some, Option.map_some, hfirst, hsent]
        constructor
        · intro h statement hone
          obtain ⟨rfl, rfl⟩ := List.cons.inj (Option.some.inj hone)
          exact Bool.eq_false_iff.2 fun hmodifies =>
            h _ first rfl (executedBy_analyze first) (modifies_iff.1 hmodifies)
        · intro h sent statement hone hexecuted
          obtain ⟨rfl, rfl⟩ := List.cons.inj (Option.some.inj hone)
          rw [executedBy_analyze] at hexecuted
          obtain rfl := Option.some.inj hexecuted
          rw [← modifies_iff, h first rfl]
          exact Bool.false_ne_true

theorem explain_read_only_iff_label :
    ¬ Modifies [keyword "select", .literal .plain "DELETE".toList, keyword "as", keyword "into",
      keyword "from", keyword "t"] := by
  have hquery : explainable { query := "SELECT 'DELETE' AS into FROM t" } =
      .ok "SELECT 'DELETE' AS into FROM t" := by decide
  have hsql : (explainQuery (fun _ _ => .ok ()) (fun _ _ => .error "") (fun planJSON => planJSON) 0 none
      (some { query := "SELECT 'DELETE' AS into FROM t" })).2.2 =
        some "EXPLAIN (ANALYZE, BUFFERS, FORMAT JSON) SELECT 'DELETE' AS into FROM t" := by decide
  have hstatements : statements "SELECT 'DELETE' AS into FROM t".toList =
      some [[keyword "select", .literal .plain "DELETE".toList, keyword "as", keyword "into",
        keyword "from", keyword "t"]] := by decide
  refine (explain_read_only_iff hquery hsql).2 (.inr fun statement hone => ?_) (explainHead "analyze" ++
    [keyword "select", .literal .plain "DELETE".toList, keyword "as", keyword "into", keyword "from",
      keyword "t"]) _ (by decide) (executedBy_analyze _)
  rw [hstatements] at hone
  obtain ⟨rfl, -⟩ := List.cons.inj (Option.some.inj hone)
  decide

/-- The rows are deleted when the query is explained. -/
theorem deleting_query_executed :
    explainable { query := "WITH d AS (DELETE FROM t RETURNING 1) SELECT * FROM d" } =
        .ok "WITH d AS (DELETE FROM t RETURNING 1) SELECT * FROM d" ∧
      (explainQuery (fun _ _ => .ok ()) (fun _ _ => .error "") (fun planJSON => planJSON) 0 none
        (some { query := "WITH d AS (DELETE FROM t RETURNING 1) SELECT * FROM d" })).2.2 =
          some ("EXPLAIN (ANALYZE, BUFFERS, FORMAT JSON) " ++
            "WITH d AS (DELETE FROM t RETURNING 1) SELECT * FROM d") ∧
      ∃ sent statement,
        statements ("EXPLAIN (ANALYZE, BUFFERS, FORMAT JSON) " ++
          "WITH d AS (DELETE FROM t RETURNING 1) SELECT * FROM d").toList = some [sent] ∧
        executedBy sent = some statement ∧ Modifies statement :=
  ⟨by decide, by decide,
    explainHead "analyze" ++ [keyword "with", keyword "d", keyword "as", openParen, keyword "delete",
      keyword "from", keyword "t", keyword "returning", .number ['1'], closeParen, keyword "select",
      .symbol ['*'], keyword "from", keyword "d"],
    _, by decide, executedBy_analyze _, by decide⟩

end Handler
end Pgaio
