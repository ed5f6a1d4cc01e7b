import Pgaio.Postgres.Statements

/-!
# WithClause — which statements change tables

A `SELECT` may carry statements that change tables in its `WITH` list, and makes a table by `INTO`.
`Modifies` says by the grammar which statements do; `modifies` reads a statement from the left, and
`modifies_iff` is that it finds exactly those.

PostgreSQL refuses a data-modifying statement in the `WITH` list of anything but the statement itself, so
inner lists are not looked at.  What stands between the words of the grammar is not checked.
-/

namespace Pgaio
namespace Postgres
namespace SQL

/-! ## Parentheses -/

def openParen : Token := .symbol ['(']
def closeParen : Token := .symbol [')']
def comma : Token := .symbol [',']

inductive Balanced : List Token → Prop where
  | nil : Balanced []
  | other {t : Token} {ts : List Token} (hopen : t ≠ openParen) (hclose : t ≠ closeParen) :
      Balanced ts → Balanced (t :: ts)
  | group {inner ts : List Token} :
      Balanced inner → Balanced ts → Balanced (openParen :: (inner ++ closeParen :: ts))

/-- What stands before the parenthesis that closes, and what stands behind it; so many more are open. -/
def splitClose : Nat → List Token → Option (List Token × List Token)
  | _, [] => none
  | depth, t :: ts =>
      if t = closeParen then
        match depth with
        | 0 => some ([], ts)
        | outer + 1 => (splitClose outer ts).map fun b => (t :: b.1, b.2)
      else if t = openParen then (splitClose (depth + 1) ts).map fun b => (t :: b.1, b.2)
      else (splitClose depth ts).map fun b => (t :: b.1, b.2)

/-- Balanced parts with so many closing parentheses between them. -/
inductive Closing : Nat → List Token → Prop where
  | zero {ts : List Token} : Balanced ts → Closing 0 ts
  | succ {depth : Nat} {inner ts : List Token} :
      Balanced inner → Closing depth ts → Closing (depth + 1) (inner ++ closeParen :: ts)

section

variable {depth : Nat} {t : Token} {ts inner body rest : List Token}

theorem Balanced.append (h : Balanced inner) (hts : Balanced ts) : Balanced (inner ++ ts) := by
  induction h with
  | nil => exact hts
  | other hopen hclose _ ih => exact .other hopen hclose ih
  | group hinner _ _ ih =>
      rw [List.cons_append, List.append_assoc]
      exact .group hinner ih

theorem Balanced.append_closing (h : Balanced inner) (hts : Closing depth ts) :
    Closing depth (inner ++ ts) := by
  cases hts with
  | zero hts => exact .zero (h.append hts)
  | succ hinner hts =>
      rw [← List.append_assoc]
      exact .succ (h.append hinner) hts

theorem splitClose_zero : splitClose 0 (closeParen :: ts) = some ([], ts) := by
  simp [splitClose]

theorem splitClose_succ :
    splitClose (depth + 1) (closeParen :: ts) =
      (splitClose depth ts).map fun b => (closeParen :: b.1, b.2) := by
  simp [splitClose]

theorem splitClose_open :
    splitClose depth (openParen :: ts) =
      (splitClose (depth + 1) ts).map fun b => (openParen :: b.1, b.2) := by
  have hne : openParen ≠ closeParen := by decide
  rw [splitClose.eq_def]
  simp [hne]

theorem splitClose_other (hopen : t ≠ openParen) (hclose : t ≠ closeParen) :
    splitClose depth (t :: ts) = (splitClose depth ts).map fun b => (t :: b.1, b.2) := by
  rw [splitClose.eq_def]
  simp [hopen, hclose]

theorem splitClose_eq_some (h : splitClose depth ts = some (body, rest)) :
    ts = body ++ closeParen :: rest ∧ Closing depth body := by
  induction ts generalizing depth body with
  | nil => cases h
  | cons t ts ih =>
      have hstep {depth depth' : Nat}
          (h : (splitClose depth' ts).map (fun b => (t :: b.1, b.2)) = some (body, rest))
          (hput : ∀ inner, Closing depth' inner → Closing depth (t :: inner)) :
          t :: ts = body ++ closeParen :: rest ∧ Closing depth body := by
        obtain ⟨b, hb, heq⟩ := Option.map_eq_some_iff.1 h
        obtain ⟨rfl, rfl⟩ := Prod.mk.inj heq
        obtain ⟨hts, hclosing⟩ := ih hb
        exact ⟨by rw [hts]; rfl, hput _ hclosing⟩
      by_cases hclose : t = closeParen
      · subst hclose
        cases depth with
        | zero =>
            rw [splitClose_zero] at h
            obtain ⟨rfl, rfl⟩ := Prod.mk.inj (Option.some.inj h)
            exact ⟨rfl, .zero .nil⟩
        | succ depth =>
            rw [splitClose_succ] at h
            exact hstep h fun _ => .succ .nil
      · by_cases hopen : t = openParen
        · subst hopen
          rw [splitClose_open] at h
          refine hstep h fun inner hinner => ?_
          -- The parenthesis that this one opens is closed where the first part ends.
          cases hinner with
          | @succ _ first others hfirst hothers =>
              have hgroup : Balanced (openParen :: (first ++ [closeParen])) := .group hfirst .nil
              simpa using hgroup.append_closing hothers
        · rw [splitClose_other hopen hclose] at h
          have hone : Balanced [t] := .other hopen hclose .nil
          exact hstep h fun _ => hone.append_closing

theorem splitClose_append (h : Balanced body) (depth : Nat) (ts : List Token) :
    splitClose depth (body ++ ts) = (splitClose depth ts).map fun b => (body ++ b.1, b.2) := by
  induction h generalizing depth ts with
  | nil => exact Option.map_id'.symm
  | other hopen hclose _ ih =>
      rw [List.cons_append, splitClose_other hopen hclose, ih, Option.map_map]
      rfl
  | group _ _ ihinner ih =>
      rw [List.cons_append, List.append_assoc, List.cons_append, splitClose_open, ihinner, splitClose_succ,
        ih]
      simp only [Option.map_map]
      congr 1
      funext b
      simp

theorem splitClose_iff :
    splitClose 0 ts = some (body, rest) ↔ ts = body ++ closeParen :: rest ∧ Balanced body := by
  constructor
  · intro h
    obtain ⟨hts, hclosing⟩ := splitClose_eq_some h
    cases hclosing with
    | zero hbody => exact ⟨hts, hbody⟩
  · rintro ⟨rfl, hbody⟩
    rw [splitClose_append hbody, splitClose_zero, Option.map_some, List.append_nil]

end

/-! ## The WITH list

Each relation has the tokens, then what it makes of them, and last the tokens behind it. -/

def keyword (word : String) : Token := .word word.toList

/-- `ColId`. -/
def isColId : Token → Bool
  | .word name => !isReserved name
  | .quotedIdent _ | .unicodeIdent _ => true
  | _ => false

/-- `columnList`, and `name_list`. -/
inductive ColumnList : List Token → List Token → Prop where
  | last {t : Token} {rest : List Token} (ht : isColId t = true) (hrest : rest.head? ≠ some comma) :
      ColumnList (t :: rest) rest
  | more {t : Token} {ts rest : List Token} (ht : isColId t = true) :
      ColumnList ts rest → ColumnList (t :: comma :: ts) rest

/-- `opt_name_list`. -/
inductive NameList : List Token → List Token → Prop where
  | none {ts : List Token} (hts : ts.head? ≠ some openParen) : NameList ts ts
  | list {ts rest : List Token} : ColumnList ts (closeParen :: rest) → NameList (openParen :: ts) rest

/-- `opt_materialized`, and the parenthesis behind it. -/
inductive Materialized : List Token → List Token → Prop where
  | none {ts : List Token} : Materialized (openParen :: ts) ts
  | yes {ts : List Token} : Materialized (keyword "materialized" :: openParen :: ts) ts
  | no {ts : List Token} : Materialized (keyword "not" :: keyword "materialized" :: openParen :: ts) ts

/-- `opt_search_clause`. -/
inductive SearchClause : List Token → List Token → Prop where
  | none {ts : List Token} (hts : ts.head? ≠ some (keyword "search")) : SearchClause ts ts
  | search {order name : Token} {ts rest : List Token}
      (horder : order = keyword "depth" ∨ order = keyword "breadth") (hname : isColId name = true) :
      ColumnList ts (keyword "set" :: name :: rest) →
        SearchClause (keyword "search" :: order :: keyword "first" :: keyword "by" :: ts) rest

/-- `opt_cycle_clause`; `USING` is in none of the constants behind `TO`. -/
inductive CycleClause : List Token → List Token → Prop where
  | none {ts : List Token} (hts : ts.head? ≠ some (keyword "cycle")) : CycleClause ts ts
  | cycle {mark path : Token} {ts constants rest : List Token} (hmark : isColId mark = true)
      (hpath : isColId path = true) (hconstants : keyword "using" ∉ constants) :
      ColumnList ts (keyword "set" :: mark :: (constants ++ keyword "using" :: path :: rest)) →
        CycleClause (keyword "cycle" :: ts) rest

/-- `common_table_expr`, with the tokens between its parentheses. -/
inductive TableExpr : List Token → List Token → List Token → Prop where
  | mk {name : Token} {columns inner body search cycle rest : List Token} (hname : isColId name = true)
      (hcolumns : NameList columns (keyword "as" :: inner))
      (hinner : Materialized inner (body ++ closeParen :: search)) (hbody : Balanced body)
      (hsearch : SearchClause search cycle) (hcycle : CycleClause cycle rest) :
      TableExpr (name :: columns) body rest

/-- `cte_list`. -/
inductive WithList : List Token → List (List Token) → List Token → Prop where
  | last {ts body rest : List Token} (hrest : rest.head? ≠ some comma) :
      TableExpr ts body rest → WithList ts [body] rest
  | more {ts body ts' rest : List Token} {bodies : List (List Token)} :
      TableExpr ts body (comma :: ts') → WithList ts' bodies rest → WithList ts (body :: bodies) rest

/-- `opt_with_clause`. -/
inductive WithClause : List Token → List (List Token) → List Token → Prop where
  | none {ts : List Token} (hts : ts.head? ≠ some (keyword "with")) : WithClause ts [] ts
  | list {ts rest : List Token} {bodies : List (List Token)} :
      WithList ts bodies rest → WithClause (keyword "with" :: ts) bodies rest
  | recursive {ts rest : List Token} {bodies : List (List Token)} :
      WithList ts bodies rest → WithClause (keyword "with" :: keyword "recursive" :: ts) bodies rest

/-! ## Statements that change tables -/

def startsWithVerb (ts : List Token) : Bool :=
  ["insert", "update", "delete", "merge"].any fun verb => ts.head? = some (keyword verb)

/-- `InsertStmt`, `UpdateStmt`, `DeleteStmt` or `MergeStmt`. -/
def DataModifying (ts : List Token) : Prop :=
  ∃ bodies main, WithClause ts bodies main ∧ startsWithVerb main = true

def isWordToken : Token → Bool
  | .word _ => true
  | _ => false

/-- Behind one of these a word is a name, whatever word it is. -/
def isBeforeLabel (t : Token) : Bool :=
  t = keyword "as" || t = .symbol ['.']

def isSetOperator (t : Token) : Bool :=
  t = keyword "union" || t = keyword "intersect" || t = keyword "except"

/-- Before a set operator, `INTO` stands outside of parentheses and is no name; so many parentheses are
open. -/
def intoOutside : Bool → Nat → List Token → Bool
  | _, _, [] => false
  | label, depth, t :: ts =>
      if t = openParen then intoOutside false (depth + 1) ts
      else if t = closeParen then
        match depth with
        | 0 => false
        | outer + 1 => intoOutside false outer ts
      else if label && isWordToken t then intoOutside false depth ts
      else if depth = 0 && isSetOperator t then false
      else (depth = 0 && t = keyword "into") || intoOutside (isBeforeLabel t) depth ts

/-- The first `SELECT` of a query has an `INTO`. -/
inductive SelectInto : List Token → Prop where
  | select {ts : List Token} (hinto : intoOutside false 0 ts = true) : SelectInto (keyword "select" :: ts)
  | paren {ts : List Token} : SelectInto ts → SelectInto (openParen :: ts)
  | with_ {ts main : List Token} {bodies : List (List Token)}
      (hts : WithClause (keyword "with" :: ts) bodies main) :
        SelectInto main → SelectInto (keyword "with" :: ts)

/-- A name and its `UESCAPE` are one token to the grammar. -/
def joinEscapes : List Token → List Token
  | .unicodeIdent name :: .word w :: .literal k escape :: ts =>
      if w = "uescape".toList then .unicodeIdent name :: joinEscapes ts
      else .unicodeIdent name :: .word w :: .literal k escape :: joinEscapes ts
  | t :: ts => t :: joinEscapes ts
  | [] => []

/-- A statement that changes tables by itself. -/
def Modifies (ts : List Token) : Prop :=
  ∃ bodies main, WithClause (joinEscapes ts) bodies main ∧
    (startsWithVerb main = true ∨ (∃ body ∈ bodies, DataModifying body) ∨ SelectInto main)

/-! ## Reading -/

def expect (t : Token) : List Token → Option (List Token)
  | [] => none
  | t' :: ts => if t' = t then some ts else none

def readColId : List Token → Option (List Token)
  | [] => none
  | t :: ts => if isColId t then some ts else none

def readColumns : List Token → Option (List Token)
  | [] => none
  | [t] => if isColId t then some [] else none
  | t :: t' :: ts =>
      if isColId t then
        if t' = comma then readColumns ts else some (t' :: ts)
      else none

def readNames (ts : List Token) : Option (List Token) :=
  if ts.head? = some openParen then (readColumns ts.tail).bind (expect closeParen) else some ts

def readMaterialized (ts : List Token) : Option (List Token) :=
  if ts.head? = some (keyword "not") then
    (expect (keyword "materialized") ts.tail).bind (expect openParen)
  else if ts.head? = some (keyword "materialized") then expect openParen ts.tail
  else expect openParen ts

def readOrder (ts : List Token) : Option (List Token) :=
  if ts.head? = some (keyword "depth") then some ts.tail else expect (keyword "breadth") ts

def readSearch (ts : List Token) : Option (List Token) :=
  if ts.head? = some (keyword "search") then do
    let ts ← readOrder ts.tail
    let ts ← expect (keyword "first") ts
    let ts ← expect (keyword "by") ts
    let ts ← readColumns ts
    let ts ← expect (keyword "set") ts
    readColId ts
  else some ts

def readCycle (ts : List Token) : Option (List Token) :=
  if ts.head? = some (keyword "cycle") then do
    let ts ← readColumns ts.tail
    let ts ← expect (keyword "set") ts
    let ts ← readColId ts
    let ts ← expect (keyword "using") (ts.dropWhile (· ≠ keyword "using"))
    readColId ts
  else some ts

def readTableExpr (ts : List Token) : Option (List Token × List Token) := do
  let ts ← readColId ts
  let ts ← readNames ts
  let ts ← expect (keyword "as") ts
  let ts ← readMaterialized ts
  let (body, ts) ← splitClose 0 ts
  let ts ← readSearch ts
  let ts ← readCycle ts
  some (body, ts)

def readWithList : Nat → List Token → Option (List (List Token) × List Token)
  | 0, _ => none
  | fuel + 1, ts => do
      let (body, ts) ← readTableExpr ts
      if ts.head? = some comma then
        let (bodies, ts) ← readWithList fuel ts.tail
        some (body :: bodies, ts)
      else some ([body], ts)

/-- `RECURSIVE` may be the name of the first table too. -/
def isRecursive (ts : List Token) : Bool :=
  ts.head? = some (keyword "recursive") && ts.tail.head? ≠ some (keyword "as") &&
    ts.tail.head? ≠ some openParen

/-- Each table has a token at least, so the number of tokens is enough. -/
def readWith (ts : List Token) : Option (List (List Token) × List Token) :=
  if ts.head? = some (keyword "with") then
    let list := if isRecursive ts.tail then ts.tail.tail else ts.tail
    readWithList list.length list
  else some ([], ts)

def dataModifying (ts : List Token) : Bool :=
  (readWith ts).any fun b => startsWithVerb b.2

def selectInto : Nat → List Token → Bool
  | 0, _ => false
  | fuel + 1, ts =>
      if ts.head? = some (keyword "select") then intoOutside false 0 ts.tail
      else if ts.head? = some openParen then selectInto fuel ts.tail
      else if ts.head? = some (keyword "with") then (readWith ts).any fun b => selectInto fuel b.2
      else false

def modifies (ts : List Token) : Bool :=
  (readWith (joinEscapes ts)).any fun b =>
    startsWithVerb b.2 || b.1.any dataModifying || selectInto b.2.length b.2

/-! ## What is read is what is written -/

section

variable {t : Token} {ts rest body : List Token} {bodies : List (List Token)}

@[simp] theorem expect_eq_some : expect t ts = some rest ↔ ts = t :: rest := by
  cases ts with
  | nil => simp [expect]
  | cons t' ts =>
      rw [expect]
      split
      · next heq => simp [heq]
      · next hne => simp [hne]

@[simp] theorem readColId_eq_some : readColId ts = some rest ↔ ∃ t, isColId t = true ∧ ts = t :: rest := by
  cases ts with
  | nil => simp [readColId]
  | cons t ts =>
      rw [readColId]
      split
      · next ht => simp [ht]
      · next ht => simp [ht]

theorem readColumns_iff : readColumns ts = some rest ↔ ColumnList ts rest := by
  constructor
  · intro h
    induction ts using readColumns.induct with
    | case1 => cases h
    | case2 t ht =>
        obtain rfl : [] = rest := by simpa [readColumns, ht] using h
        exact .last ht (by simp)
    | case3 t ht => simp [readColumns, ht] at h
    | case4 t ts ht ih =>
        rw [readColumns, if_pos ht, if_pos rfl] at h
        exact .more ht (ih h)
    | case5 t t' ts ht hcomma =>
        rw [readColumns, if_pos ht, if_neg hcomma] at h
        exact Option.some.inj h ▸ .last ht (by simpa using hcomma)
    | case6 t t' ts ht =>
        rw [readColumns, if_neg ht] at h
        cases h
  · intro h
    induction h with
    | @last t rest ht hrest =>
        cases rest with
        | nil => simp [readColumns, ht]
        | cons t' rest =>
            have hcomma : t' ≠ comma := by simpa using hrest
            simp [readColumns, ht, hcomma]
    | more ht _ ih => simp [readColumns, ht, ih]

theorem eq_cons_of_head (h : ts.head? = some t) : ts = t :: ts.tail := by
  cases ts with
  | nil => cases h
  | cons t' ts => rw [Option.some.inj h]; rfl

theorem readNames_iff : readNames ts = some rest ↔ NameList ts rest := by
  unfold readNames
  constructor
  · intro h
    split at h
    · next hopen =>
        obtain ⟨left, hleft, hclose⟩ := Option.bind_eq_some_iff.1 h
        rw [expect_eq_some] at hclose
        rw [eq_cons_of_head hopen]
        exact .list (hclose ▸ readColumns_iff.1 hleft)
    · next hopen => exact Option.some.inj h ▸ .none hopen
  · rintro (hopen | hlist)
    · rw [if_neg hopen]
    · rw [if_pos List.head?_cons, List.tail_cons, readColumns_iff.2 hlist, Option.bind_some, expect_eq_some]

theorem readMaterialized_iff : readMaterialized ts = some rest ↔ Materialized ts rest := by
  unfold readMaterialized
  constructor
  · intro h
    split at h
    · next hnot =>
        obtain ⟨left, hleft, hopen⟩ := Option.bind_eq_some_iff.1 h
        rw [expect_eq_some] at hleft hopen
        rw [eq_cons_of_head hnot, hleft, hopen]
        exact .no
    · split at h
      · next hyes =>
          rw [expect_eq_some] at h
          rw [eq_cons_of_head hyes, h]
          exact .yes
      · rw [expect_eq_some] at h
        exact h ▸ .none
  · rintro (_ | _ | _)
    · simp [keyword, openParen]
    · simp [keyword]
    · simp [Option.bind_eq_some_iff]

theorem readOrder_eq_some :
    readOrder ts = some rest ↔ ∃ order, (order = keyword "depth" ∨ order = keyword "breadth") ∧ ts = order :: rest := by
  unfold readOrder
  split
  · next hdepth =>
      rw [eq_cons_of_head hdepth]
      simp
  · next hdepth =>
      rw [expect_eq_some]
      constructor
      · exact fun h => ⟨_, .inr rfl, h⟩
      · rintro ⟨order, rfl | rfl, rfl⟩
        · exact absurd rfl hdepth
        · rfl

theorem readSearch_iff : readSearch ts = some rest ↔ SearchClause ts rest := by
  unfold readSearch
  constructor
  · intro h
    split at h
    · next hsearch =>
        simp only [bind, Option.bind_eq_some_iff, expect_eq_some, readColId_eq_some, readOrder_eq_some] at h
        obtain ⟨_, ⟨order, horder, htail⟩, _, rfl, _, rfl, left, hcolumns, _, rfl, name, hname, rfl⟩ := h
        rw [eq_cons_of_head hsearch, htail]
        exact .search horder hname (readColumns_iff.1 hcolumns)
    · next hsearch => exact Option.some.inj h ▸ .none hsearch
  · rintro (hsearch | ⟨horder, hname, hcolumns⟩)
    · rw [if_neg hsearch]
    · simp only [List.head?_cons, if_true, List.tail_cons, bind, Option.bind_eq_some_iff, expect_eq_some, readColId_eq_some,
        readOrder_eq_some]
      exact ⟨_, ⟨_, horder, rfl⟩, _, rfl, _, rfl, _, readColumns_iff.2 hcolumns, _, rfl, _, hname, rfl⟩

theorem dropWhile_using {constants : List Token} (h : keyword "using" ∉ constants) (ts : List Token) :
    (constants ++ keyword "using" :: ts).dropWhile (· ≠ keyword "using") = keyword "using" :: ts := by
  have hall : ∀ t ∈ constants, decide (t ≠ keyword "using") = true := fun t ht =>
    decide_eq_true fun heq => h (heq ▸ ht)
  rw [List.dropWhile_append_of_pos hall]
  exact List.dropWhile_cons_of_neg (by simp)

theorem readCycle_iff : readCycle ts = some rest ↔ CycleClause ts rest := by
  unfold readCycle
  constructor
  · intro h
    split at h
    · next hcycle =>
        simp only [bind, Option.bind_eq_some_iff, expect_eq_some, readColId_eq_some] at h
        obtain ⟨_, hcolumns, _, rfl, left, ⟨mark, hmark, rfl⟩, _, hleft, path, hpath, rfl⟩ := h
        have hsplit := List.takeWhile_append_dropWhile (p := (· ≠ keyword "using")) (l := left)
        have hfree : keyword "using" ∉ left.takeWhile (· ≠ keyword "using") := fun hmem => by
          simpa using List.mem_takeWhile_imp hmem
        rw [hleft] at hsplit
        rw [eq_cons_of_head hcycle]
        rw [readColumns_iff, ← hsplit] at hcolumns
        exact .cycle hmark hpath hfree hcolumns
    · next hcycle => exact Option.some.inj h ▸ .none hcycle
  · rintro (hcycle | ⟨hmark, hpath, hconstants, hcolumns⟩)
    · rw [if_neg hcycle]
    · simp only [List.head?_cons, if_true, List.tail_cons, bind, Option.bind_eq_some_iff, expect_eq_some,
        readColId_eq_some]
      exact ⟨_, readColumns_iff.2 hcolumns, _, rfl, _, ⟨_, hmark, rfl⟩, _, dropWhile_using hconstants _, _,
        hpath, rfl⟩

theorem readTableExpr_iff : readTableExpr ts = some (body, rest) ↔ TableExpr ts body rest := by
  unfold readTableExpr
  simp only [bind, Option.bind_eq_some_iff, expect_eq_some, readColId_eq_some, Option.some.injEq,
    Prod.mk.injEq, Prod.exists]
  constructor
  · rintro ⟨_, ⟨name, hname, rfl⟩, _, hcolumns, inner, rfl, _, hinner, body', search, hclose, cycle, hsearch,
      _, hcycle, rfl, rfl⟩
    obtain ⟨rfl, hbody⟩ := splitClose_iff.1 hclose
    exact .mk hname (readNames_iff.1 hcolumns) (readMaterialized_iff.1 hinner) hbody
      (readSearch_iff.1 hsearch) (readCycle_iff.1 hcycle)
  · rintro ⟨hname, hcolumns, hinner, hbody, hsearch, hcycle⟩
    exact ⟨_, ⟨_, hname, rfl⟩, _, readNames_iff.2 hcolumns, _, rfl, _, readMaterialized_iff.2 hinner, _, _,
      splitClose_iff.2 ⟨rfl, hbody⟩, _, readSearch_iff.2 hsearch, _, readCycle_iff.2 hcycle, rfl, rfl⟩

theorem withList_of_read {fuel : Nat} (h : readWithList fuel ts = some (bodies, rest)) :
    WithList ts bodies rest := by
  induction fuel generalizing ts bodies rest with
  | zero => cases h
  | succ fuel ih =>
      rw [readWithList] at h
      obtain ⟨⟨body, left⟩, htable, h⟩ := Option.bind_eq_some_iff.1 h
      rw [readTableExpr_iff] at htable
      dsimp only at h
      split at h
      · next hcomma =>
          obtain ⟨⟨bodies', left'⟩, hlist, heq⟩ := Option.bind_eq_some_iff.1 h
          obtain ⟨rfl, rfl⟩ := Prod.mk.inj (Option.some.inj heq)
          rw [eq_cons_of_head hcomma] at htable
          exact .more htable (ih hlist)
      · next hcomma =>
          obtain ⟨rfl, rfl⟩ := Prod.mk.inj (Option.some.inj h)
          exact .last hcomma htable

theorem WithList.read (h : WithList ts bodies rest) {fuel : Nat} (hfuel : bodies.length ≤ fuel) :
    readWithList fuel ts = some (bodies, rest) := by
  induction h generalizing fuel with
  | last hrest htable =>
      cases fuel with
      | zero => simp at hfuel
      | succ fuel => simp [readWithList, readTableExpr_iff.2 htable, hrest]
  | more htable _ ih =>
      cases fuel with
      | zero => simp at hfuel
      | succ fuel =>
          have hrest := ih (Nat.le_of_succ_le_succ hfuel)
          simp [readWithList, readTableExpr_iff.2 htable, hrest]

/-! ### Each table has a token -/

theorem ColumnList.length_lt (h : ColumnList ts rest) : rest.length < ts.length := by
  induction h with
  | last => exact Nat.lt_succ_self _
  | more _ _ ih => simp only [List.length_cons]; omega

theorem NameList.length_le (h : NameList ts rest) : rest.length ≤ ts.length := by
  cases h with
  | none => exact Nat.le_refl _
  | list hcolumns =>
      have hlt := hcolumns.length_lt
      simp only [List.length_cons] at hlt ⊢
      omega

theorem Materialized.length_le (h : Materialized ts rest) : rest.length ≤ ts.length := by
  cases h
  all_goals
    simp only [List.length_cons]
    omega

theorem SearchClause.length_le (h : SearchClause ts rest) : rest.length ≤ ts.length := by
  cases h with
  | none => exact Nat.le_refl _
  | search _ _ hcolumns =>
      have hlt := hcolumns.length_lt
      simp only [List.length_cons] at hlt ⊢
      omega

theorem CycleClause.length_le (h : CycleClause ts rest) : rest.length ≤ ts.length := by
  cases h with
  | none => exact Nat.le_refl _
  | cycle _ _ _ hcolumns =>
      have hlt := hcolumns.length_lt
      simp only [List.length_cons, List.length_append] at hlt ⊢
      omega

theorem TableExpr.length_lt (h : TableExpr ts body rest) : rest.length < ts.length := by
  obtain ⟨-, hcolumns, hinner, -, hsearch, hcycle⟩ := h
  have hcolumns := hcolumns.length_le
  have hinner := hinner.length_le
  have hsearch := hsearch.length_le
  have hcycle := hcycle.length_le
  simp only [List.length_cons, List.length_append] at hcolumns hinner ⊢
  omega

theorem WithList.length_le (h : WithList ts bodies rest) : bodies.length + rest.length ≤ ts.length := by
  induction h with
  | last _ htable =>
      have hlt := htable.length_lt
      simp only [List.length_singleton]
      omega
  | more htable _ ih =>
      have hlt := htable.length_lt
      simp only [List.length_cons] at hlt ⊢
      omega

/-! ### Whole statements -/

theorem WithList.isColId_head (h : WithList ts bodies rest) :
    ∃ name columns, ts = name :: columns ∧ isColId name = true ∧
      (columns.head? = some (keyword "as") ∨ columns.head? = some openParen) := by
  have htable {ts body rest : List Token} (h : TableExpr ts body rest) :
      ∃ name columns, ts = name :: columns ∧ isColId name = true ∧
        (columns.head? = some (keyword "as") ∨ columns.head? = some openParen) := by
    obtain ⟨hname, hcolumns, -⟩ := h
    refine ⟨_, _, rfl, hname, ?_⟩
    cases hcolumns with
    | none => exact .inl rfl
    | list => exact .inr rfl
  cases h with
  | last _ h => exact htable h
  | more h _ => exact htable h

theorem isRecursive_iff :
    isRecursive ts = true ↔ ts.head? = some (keyword "recursive") ∧
      ts.tail.head? ≠ some (keyword "as") ∧ ts.tail.head? ≠ some openParen := by
  rw [isRecursive, Bool.and_eq_true_iff, Bool.and_eq_true_iff, decide_eq_true_iff, decide_eq_true_iff,
    decide_eq_true_iff, and_assoc]

theorem WithList.not_recursive (h : WithList ts bodies rest) : ¬ isRecursive ts = true := by
  obtain ⟨name, columns, rfl, -, hnext⟩ := h.isColId_head
  rw [isRecursive_iff]
  rintro ⟨-, has, hopen⟩
  rcases hnext with hnext | hnext
  · exact has hnext
  · exact hopen hnext

theorem WithList.recursive (h : WithList ts bodies rest) : isRecursive (keyword "recursive" :: ts) = true := by
  obtain ⟨name, columns, rfl, hname, -⟩ := h.isColId_head
  have hne {t : Token} (ht : isColId t = false) : some name ≠ some t := by
    rintro heq
    obtain rfl := Option.some.inj heq
    exact absurd (ht.symm.trans hname) Bool.false_ne_true
  rw [isRecursive_iff]
  exact ⟨rfl, hne (by decide), hne (by decide)⟩

theorem readWith_iff {main : List Token} : readWith ts = some (bodies, main) ↔ WithClause ts bodies main := by
  unfold readWith
  constructor
  · intro h
    split at h
    · next hwith =>
        have hlist := withList_of_read h
        rw [eq_cons_of_head hwith]
        split at hlist
        · next hrecursive =>
            have hhead := (isRecursive_iff.1 hrecursive).1
            rw [eq_cons_of_head hhead]
            exact .recursive hlist
        · exact .list hlist
    · next hwith =>
        obtain ⟨rfl, rfl⟩ := Prod.mk.inj (Option.some.inj h)
        exact .none hwith
  · rintro (hwith | hlist | hlist)
    · rw [if_neg hwith]
    · -- The fuel is the number of the tokens, which no list exceeds.
      have hlength := hlist.length_le
      rw [if_pos List.head?_cons, List.tail_cons, if_neg hlist.not_recursive]
      exact hlist.read (by omega)
    · have hlength := hlist.length_le
      rw [if_pos List.head?_cons, List.tail_cons, if_pos hlist.recursive]
      exact hlist.read (by rw [List.tail_cons]; omega)

theorem any_readWith {p : List (List Token) × List Token → Bool} :
    (readWith ts).any p = true ↔ ∃ bodies main, WithClause ts bodies main ∧ p (bodies, main) = true := by
  simp only [Option.any_eq_true, Prod.exists, readWith_iff]

theorem dataModifying_iff : dataModifying ts = true ↔ DataModifying ts :=
  any_readWith

theorem selectInto_of_read {fuel : Nat} (h : selectInto fuel ts = true) : SelectInto ts := by
  induction fuel generalizing ts with
  | zero => cases h
  | succ fuel ih =>
      rw [selectInto] at h
      split at h
      · next hselect =>
          rw [eq_cons_of_head hselect]
          exact .select h
      · split at h
        · next hopen =>
            rw [eq_cons_of_head hopen]
            exact .paren (ih h)
        · split at h
          · next hwith =>
              obtain ⟨bodies, main, hclause, hmain⟩ := any_readWith.1 h
              rw [eq_cons_of_head hwith] at hclause ⊢
              exact .with_ hclause (ih hmain)
          · cases h

theorem WithClause.length_lt {main : List Token} (h : WithClause (keyword "with" :: ts) bodies main) :
    main.length < (keyword "with" :: ts).length := by
  cases h with
  | none hwith => exact absurd rfl hwith
  | list hlist | recursive hlist =>
      have hlength := hlist.length_le
      simp only [List.length_cons]
      omega

theorem SelectInto.read (h : SelectInto ts) {fuel : Nat} (hfuel : ts.length ≤ fuel) :
    selectInto fuel ts = true := by
  have hopen : ¬ (some openParen = some (keyword "select")) := by decide
  have hwith : ¬ (some (keyword "with") = some (keyword "select")) := by decide
  have hwith' : ¬ (some (keyword "with") = some openParen) := by decide
  induction h generalizing fuel with
  | select hinto =>
      cases fuel with
      | zero => simp at hfuel
      | succ fuel => rwa [selectInto, if_pos List.head?_cons, List.tail_cons]
  | paren _ ih =>
      cases fuel with
      | zero => simp at hfuel
      | succ fuel =>
          rw [selectInto, List.head?_cons, if_neg hopen, if_pos rfl, List.tail_cons]
          exact ih (Nat.le_of_succ_le_succ hfuel)
  | with_ hclause _ ih =>
      cases fuel with
      | zero => simp at hfuel
      | succ fuel =>
          have hlength := hclause.length_lt
          rw [selectInto, List.head?_cons, if_neg hwith, if_neg hwith', if_pos rfl]
          exact any_readWith.2 ⟨_, _, hclause, ih (by omega)⟩

theorem selectInto_iff : selectInto ts.length ts = true ↔ SelectInto ts :=
  ⟨selectInto_of_read, fun h => h.read (Nat.le_refl _)⟩

/-- Reading finds the statements that change tables. -/
theorem modifies_iff : modifies ts = true ↔ Modifies ts := by
  rw [modifies, any_readWith, Modifies]
  simp only [Bool.or_eq_true_iff, List.any_eq_true, dataModifying_iff, selectInto_iff, or_assoc]

instance : DecidablePred Modifies := fun _ => decidable_of_iff _ modifies_iff

end

end SQL
end Postgres
end Pgaio
