import Pgaio.Handler.ParamReplacing

/-!
# ExplainParams — which queries keep their tokens

The text that `ExplainQuery` plans should have the tokens of the query with `NULL` in the place of each
parameter.  `explain_params_iff` says for which queries it has: `$` with a digit behind it may stand only
where it is a parameter, or in a comment.
-/

namespace Pgaio
namespace Handler

open Go Postgres.SQL Service

variable {pending : Pending} {c : Char} {text rest : List Char} {kind : Kind}

/-! ## Numbers, parameters and dollar-quoted strings -/

/-- A number is read as before, unless a match follows it. -/
theorem readNumber_replaceParams (c : Char) (h : ReadsNumber text rest) :
    ((afterNumber rest).map fun after =>
        (Kind.token (.number (c :: readBefore (replaceParams text) after)), after)) =
      (afterNumber rest).map fun after => (Kind.token (.number (c :: readBefore text rest)), after) := by
  unfold afterNumber
  split
  · rfl
  · rw [replaceParams_of_readsNumber h, Option.map_some, Option.map_some, readBefore_append_left]

theorem munch_number {digits : List Char}
    (h : munch pending (c :: text) = some (.token (.number digits), rest)) :
    munch pending (replaceParams (c :: text)) =
      (afterNumber rest).map fun after => (.token (.number digits), after) := by
  -- A number begins with a digit or with a point.
  rcases munch_from h with hc | hc
  · have hne : c ≠ '$' := fun heq => by simp [heq, (by decide : classOf '$' = .dollar)] at hc
    rw [munch, hc] at h
    obtain ⟨after, hafter, heq⟩ := Option.map_eq_some_iff.1 h
    obtain ⟨heq, rfl⟩ := Prod.mk.inj heq
    obtain rfl : c :: readBefore text after = digits := by simpa using heq
    rw [replaceParams_cons (startsParam_of_ne hne), munch, hc]
    dsimp only
    rw [dropNumber_replaceParams hafter]
    exact readNumber_replaceParams c (dropNumber_reads hafter)
  · obtain rfl := dot_of_class hc
    rw [munch, hc] at h
    rw [replaceParams_cons (startsParam_of_ne (by decide)), munch, hc]
    unfold munchDot at h ⊢
    dsimp only at h ⊢
    rw [startsWith_replaceParams (by decide), startsWith_replaceParams (by decide)]
    split at h
    · cases (Prod.mk.inj (Option.some.inj h)).1
    · next hpoint =>
        rw [if_neg hpoint]
        split at h
        · next hdigit =>
            obtain ⟨after, hafter, heq⟩ := Option.map_eq_some_iff.1 h
            obtain ⟨heq, rfl⟩ := Prod.mk.inj heq
            obtain rfl : '.' :: readBefore text after = digits := by simpa using heq
            rw [if_pos hdigit, dropFraction_replaceParams hafter]
            exact readNumber_replaceParams '.' (dropFraction_reads hafter)
        · cases (Prod.mk.inj (Option.some.inj h)).1

/-- What a parameter is read from. -/
theorem param_of_munch {digits : List Char}
    (h : munch pending (c :: text) = some (.token (.param digits), rest)) :
    c = '$' ∧ startsWith Char.isDigit text = true ∧ rest = text.dropWhile Char.isDigit ∧
      startsWith isLetter rest = false := by
  obtain rfl : c = '$' := munch_from h
  have hdollar : munch pending ('$' :: text) = munchDollar text := rfl
  rw [hdollar] at h
  unfold munchDollar at h
  split at h
  · next hdigit =>
      unfold munchParam at h
      split at h
      · cases h
      · next hletter =>
          obtain ⟨-, rfl⟩ := Prod.mk.inj (Option.some.inj h)
          rw [Bool.or_eq_true_iff, not_or] at hletter
          exact ⟨rfl, hdigit, rfl, by simpa using hletter.1⟩
  · split at h
    · obtain ⟨b, -, heq⟩ := Option.map_eq_some_iff.1 h
      cases (Prod.mk.inj heq).1
    · cases (Prod.mk.inj (Option.some.inj h)).1

def nullWord : Token := .word "null".toList

/-- The word that stands in the place of a parameter. -/
theorem munch_null (pending : Pending) (text : List Char) :
    munch pending ('N' :: 'U' :: 'L' :: 'L' :: text) =
      some (.token (.word ("null".toList ++ (text.takeWhile isWordChar).map Char.toLower)),
        text.dropWhile isWordChar) := by
  have htake : ('U' :: 'L' :: 'L' :: text).takeWhile isWordChar =
      'U' :: 'L' :: 'L' :: text.takeWhile isWordChar := rfl
  have hdrop : ('U' :: 'L' :: 'L' :: text).dropWhile isWordChar = text.dropWhile isWordChar := rfl
  have hletter : munch pending ('N' :: 'U' :: 'L' :: 'L' :: text) =
      munchLetter 'N' ('U' :: 'L' :: 'L' :: text) := rfl
  rw [hletter]
  simp only [munchLetter, munchWord, htake, hdrop]
  rfl

/-- The parameter is replaced by the whole word `NULL` exactly if no `$` follows it. -/
theorem munch_param {digits : List Char}
    (h : munch pending (c :: text) = some (.token (.param digits), rest)) :
    (startsWith (· = '$') rest = false →
        munch pending (replaceParams (c :: text)) = some (.token nullWord, replaceParams rest)) ∧
      (startsWith (· = '$') rest = true → ∃ word left,
        munch pending (replaceParams (c :: text)) = some (.token (.word word), left) ∧
          .word word ≠ nullWord) := by
  obtain ⟨rfl, hdigit, rfl, hletter⟩ := param_of_munch h
  have hnumber := startsWith_dropWhile Char.isDigit text
  rw [replaceParams_param hdigit, munch_null]
  have hdollar : isWordChar '$' = isWordChar 'N' := by decide
  constructor
  · -- What follows is no character of a word, so `NULL` ends here.
    intro hend
    have hstop : startsWith isWordChar (replaceParams (text.dropWhile Char.isDigit)) = false := by
      rw [startsWith_replaceParams hdollar]
      cases hrest : text.dropWhile Char.isDigit with
      | nil => rfl
      | cons d left =>
          rw [hrest] at hend hletter hnumber
          have hd : isLetter d = false ∧ d.isDigit = false ∧ ¬ d = '$' :=
            ⟨hletter, hnumber, by simpa [startsWith] using hend⟩
          simp [startsWith, isWordChar, isTagChar, hd]
    have htake := takeWhile_append_stop (x := []) (by simp) hstop
    have hdrop := dropWhile_append_stop (x := []) (by simp) hstop
    rw [List.nil_append] at htake hdrop
    rw [htake, hdrop]
    rfl
  · -- The dollar is a character of words, so the word is longer than `NULL`.
    intro hgoes
    have hword : startsWith isWordChar (replaceParams (text.dropWhile Char.isDigit)) = true := by
      rw [startsWith_replaceParams hdollar]
      obtain ⟨left, hleft⟩ := cons_of_startsWith hgoes
      rw [hleft]
      rfl
    refine ⟨_, _, rfl, ?_⟩
    cases hrest : replaceParams (text.dropWhile Char.isDigit) with
    | nil =>
        rw [hrest] at hword
        cases hword
    | cons d left =>
        rw [hrest] at hword
        have hd : isWordChar d = true := hword
        rw [List.takeWhile_cons_of_pos hd]
        intro heq
        have hlength := congrArg List.length (Token.word.inj heq)
        simp at hlength

/-- How a dollar-quoted string is written. -/
def dollarQuoted (tag body : List Char) (rest : List Char) : List Char :=
  '$' :: (tag ++ '$' :: (body ++ '$' :: (tag ++ '$' :: rest)))

theorem startsWith_append_dollar {tag : List Char} (htag : startsWith Char.isDigit tag = false)
    (rest : List Char) : startsWith Char.isDigit (tag ++ '$' :: rest) = false := by
  cases tag with
  | nil => rfl
  | cons d tag => exact htag

theorem munch_dollarQuoted {tag body : List Char} (htag : ∀ x ∈ tag, isTagChar x = true)
    (hdigit : startsWith Char.isDigit tag = false)
    (hscan : scanDollar ('$' :: tag ++ ['$']) (body ++ ('$' :: tag ++ ['$'] ++ rest)) = some (body, rest)) :
    munch pending (dollarQuoted tag body rest) = some (.token (.literal .plain body), rest) := by
  have hdollar (text : List Char) : munch pending ('$' :: text) = munchDollar text := rfl
  have hclosed (text : List Char) : startsWith isTagChar ('$' :: text) = false := rfl
  have hends (text : List Char) : startsWith (· = '$') ('$' :: text) = true := rfl
  have hbody : body ++ '$' :: (tag ++ '$' :: rest) = body ++ ('$' :: tag ++ ['$'] ++ rest) := by simp
  rw [dollarQuoted, hdollar, munchDollar, if_neg (by simp [startsWith_append_dollar hdigit]),
    takeWhile_append_stop htag (hclosed _), dropWhile_append_stop htag (hclosed _), if_pos (hends _),
    List.tail_cons, hbody, hscan, Option.map_some]

/-- What a dollar-quoted string is read from; it is read so whatever stands behind it. -/
theorem dollarQuoted_of_munch {kind : StringKind} {body : List Char}
    (h : munch pending (c :: text) = some (.token (.literal kind body), rest)) :
    kind = .plain ∧ ∃ tag, c :: text = dollarQuoted tag body rest ∧ (∀ x ∈ tag, isTagChar x = true) ∧
      startsWith Char.isDigit tag = false ∧
        ∀ (pending : Pending) (rest : List Char),
          munch pending (dollarQuoted tag body rest) = some (.token (.literal .plain body), rest) := by
  obtain rfl : c = '$' := munch_from h
  have hdollar : munch pending ('$' :: text) = munchDollar text := rfl
  rw [hdollar] at h
  unfold munchDollar at h
  split at h
  · unfold munchParam at h
    split at h
    · cases h
    · cases (Prod.mk.inj (Option.some.inj h)).1
  · next hdigit =>
      split at h
      · next hopen =>
          obtain ⟨b, hscan, heq⟩ := Option.map_eq_some_iff.1 h
          obtain ⟨left, hleft⟩ := cons_of_startsWith hopen
          rw [hleft, List.tail_cons] at hscan
          obtain ⟨hkind, rfl⟩ := Prod.mk.inj heq
          obtain ⟨rfl, rfl⟩ : .plain = kind ∧ b.1 = body := by simpa using hkind
          obtain ⟨hbody, hany⟩ := scanDollar_spec (List.cons_ne_nil _ _) hscan
          have htag : ∀ x ∈ text.takeWhile isTagChar, isTagChar x = true := fun _ => List.mem_takeWhile_imp
          -- The tag ends at the dollar that opens the body.
          have htext : text = text.takeWhile isTagChar ++ '$' :: left := by
            rw [← hleft, List.takeWhile_append_dropWhile]
          have hstart : startsWith Char.isDigit (text.takeWhile isTagChar) = false := by
            cases hnil : text.takeWhile isTagChar with
            | nil => rfl
            | cons d tag =>
                rw [htext, hnil] at hdigit
                simpa [startsWith] using hdigit
          refine ⟨rfl, _, ?_, htag, hstart, fun _ rest => munch_dollarQuoted htag hstart (hany rest)⟩
          conv_lhs => rw [htext, hbody]
          simp [dollarQuoted]
      · cases (Prod.mk.inj (Option.some.inj h)).1

/-! ### Matches in a dollar-quoted string -/

theorem hasParams_append_left (h : hasParams (text ++ rest) = false) : hasParams text = false := by
  induction text with
  | nil => rfl
  | cons c text ih =>
      obtain ⟨hc, htext⟩ : (c = '$' && startsWith Char.isDigit (text ++ rest)) = false ∧
          hasParams (text ++ rest) = false := by
        rwa [List.cons_append, hasParams, Bool.or_eq_false_iff] at h
      rw [hasParams, ih htext, Bool.or_false]
      cases text with
      | nil => simp [startsWith]
      | cons d text => exact hc

theorem hasParams_append_right (h : hasParams (text ++ rest) = false) : hasParams rest = false := by
  induction text with
  | nil => exact h
  | cons c text ih =>
      rw [List.cons_append, hasParams, Bool.or_eq_false_iff] at h
      exact ih h.2

/-- No match is in the string or goes over its border. -/
structure CleanQuoted (body next : List Char) : Prop where
  inside : hasParams body = false
  opening : startsWith Char.isDigit body = false
  closing : startsWith Char.isDigit next = false

/-- Behind `$` a text without a digit is not touched by it. -/
theorem replaceParams_dollar (h : startsWith Char.isDigit text = false) :
    replaceParams ('$' :: text) = '$' :: replaceParams text :=
  replaceParams_cons (by simp [startsParam, h])

theorem replaceParams_body {body : List Char} (h : hasParams body = false) (text : List Char) :
    replaceParams (body ++ '$' :: text) = body ++ replaceParams ('$' :: text) := by
  have hdigit : startsWith Char.isDigit ('$' :: text) = false := rfl
  rw [replaceParams_append hdigit, replaceParams_eq_self h]

theorem replaceParams_tag {tag : List Char} (htag : ∀ x ∈ tag, isTagChar x = true) (text : List Char) :
    replaceParams (tag ++ text) = tag ++ replaceParams text :=
  replaceParams_append_of_notMem (fun hmem => absurd (htag '$' hmem) (by decide)) text

/-- Up to the end of its closing tag the string is left alone, if its body is clean. -/
theorem replaceParams_dollarQuoted {tag body : List Char} (htag : ∀ x ∈ tag, isTagChar x = true)
    (hdigit : startsWith Char.isDigit tag = false) (hbody : hasParams body = false)
    (hopening : startsWith Char.isDigit body = false) (rest : List Char) :
    replaceParams (dollarQuoted tag body rest) =
      '$' :: (tag ++ '$' :: (body ++ '$' :: (tag ++ replaceParams ('$' :: rest)))) := by
  rw [dollarQuoted, replaceParams_dollar (startsWith_append_dollar hdigit _), replaceParams_tag htag,
    replaceParams_dollar (startsWith_append_dollar hopening _), replaceParams_body hbody,
    replaceParams_dollar (startsWith_append_dollar hdigit _), replaceParams_tag htag]

theorem clean_of_dollarQuoted {tag body : List Char} (h : hasParams (dollarQuoted tag body rest) = false) :
    hasParams body = false ∧ startsWith Char.isDigit body = false := by
  have htext : dollarQuoted tag body rest = ('$' :: tag) ++ ('$' :: body ++ '$' :: (tag ++ '$' :: rest)) := by
    simp [dollarQuoted]
  rw [htext] at h
  have hbody := hasParams_append_left (hasParams_append_right h)
  rw [hasParams, Bool.or_eq_false_iff] at hbody
  exact ⟨hbody.2, by simpa using hbody.1⟩

/-- The string is read as before exactly if no match touches it. -/
theorem munch_quoted {k : StringKind} {body : List Char}
    (h : munch pending (c :: text) = some (.token (.literal k body), rest)) :
    (CleanQuoted body rest → munch pending (replaceParams (c :: text)) =
        some (.token (.literal k body), replaceParams rest)) ∧
      ∀ left, munch pending (replaceParams (c :: text)) = some (.token (.literal k body), left) →
        CleanQuoted body rest := by
  obtain ⟨rfl, tag, htext, htag, hdigit, hany⟩ := dollarQuoted_of_munch h
  rw [htext]
  constructor
  · rintro ⟨hbody, hopening, hclosing⟩
    rw [replaceParams_dollarQuoted htag hdigit hbody hopening, replaceParams_dollar hclosing]
    exact hany pending (replaceParams rest)
  · intro left hread
    have htext' : replaceParams (dollarQuoted tag body rest) =
        '$' :: replaceParams (tag ++ '$' :: (body ++ '$' :: (tag ++ '$' :: rest))) :=
      replaceParams_dollar (startsWith_append_dollar hdigit _)
    rw [htext'] at hread
    obtain ⟨-, tag', hafter, htag', hdigit', -⟩ := dollarQuoted_of_munch hread
    rw [← htext'] at hafter
    -- What is read after the replacement has no match in it, its body among the rest.
    have hclean : hasParams (dollarQuoted tag' body left) = false := hafter ▸ hasParams_replaceParams _
    obtain ⟨hinside, hopening⟩ := clean_of_dollarQuoted hclean
    rw [replaceParams_dollarQuoted htag hdigit hinside hopening] at hafter
    have htags : tag = tag' := by
      have htake := congrArg (fun text => text.tail.takeWhile isTagChar) hafter
      have hclosed (text : List Char) : startsWith isTagChar ('$' :: text) = false := rfl
      simpa [dollarQuoted, takeWhile_append_stop htag (hclosed _),
        takeWhile_append_stop htag' (hclosed _)] using htake
    refine ⟨hinside, hopening, ?_⟩
    subst htags
    have hlast : replaceParams ('$' :: rest) = '$' :: left := by
      simpa [dollarQuoted] using hafter
    by_contra hgoes
    rw [replaceParams_param (by simpa using hgoes)] at hlast
    exact absurd (List.cons.inj hlast).1 (by decide)

/-! ## A whole text -/

/-- No match touches the piece, except where the piece is a parameter; this text stands behind it. -/
def Untouched (next : List Char) : Kind → Prop
  | .string _ body | .more body => hasParams body = false
  | .token (.word name) | .token (.quotedIdent name) | .token (.unicodeIdent name) => hasParams name = false
  | .token (.literal _ body) => CleanQuoted body next
  | .token (.param _) => startsWith (· = '$') next = false
  | .token (.number _) => startsParam next = false
  | _ => True

def OnlyParams : List Lexeme → Prop
  | [] => True
  | l :: ls => Untouched (ls.flatMap Lexeme.raw) l.kind ∧ OnlyParams ls

/-- `NULL` in the place of a parameter. -/
def nullParam : Token → Token
  | .param _ => nullWord
  | t => t

def nulled (g : List Char × List Token) : List Char × List Token :=
  (g.1, g.2.map nullParam)

variable {g g' : List Char × List Token} {x y z raw name : List Char} {ls : List Lexeme} {t t' : Token}

/-- A match shows at its `$`, whatever stands behind the text. -/
theorem replaceParams_append_eq_iff : replaceParams x ++ y = x ++ z ↔ hasParams x = false ∧ y = z := by
  constructor
  · induction x using param_induction with
    | nil => exact fun h => ⟨rfl, h⟩
    | keep c x hparam ih =>
        intro h
        rw [replaceParams_cons hparam, List.cons_append, List.cons_append] at h
        obtain ⟨hx, hyz⟩ := ih (List.cons.inj h).2
        have hc : (c = '$' && startsWith Char.isDigit x) = false := by
          simpa [startsParam, startsWith] using hparam
        exact ⟨by rw [hasParams, hc, hx, Bool.or_false], hyz⟩
    | param x hdigit _ =>
        intro h
        rw [replaceParams_param hdigit] at h
        exact absurd (List.cons.inj h).1 (by decide)
  · rintro ⟨hx, rfl⟩
    rw [replaceParams_eq_self hx]

/-- A folded word is changed by each match in it. -/
theorem replacedWord_eq_iff (hname : name.map Char.toLower = name) :
    (replaceParams name).map Char.toLower = name ↔ hasParams name = false := by
  constructor
  · intro h
    rw [← h, hasParams_map_toLower]
    exact hasParams_replaceParams name
  · intro h
    rw [replaceParams_eq_self h, hname]

theorem replacedToken_eq_iff (ht : IsPlainPiece (.token t)) (hword : ∀ name, t = .word name → IsWord name)
    (next : List Char) : replacedToken t = nullParam t ↔ Untouched next (.token t) := by
  cases t with
  | word name =>
      rw [← show (replaceParams name).map Char.toLower = name ↔ Untouched next (.token (.word name)) from
        replacedWord_eq_iff (hword name rfl).2]
      exact ⟨Token.word.inj, congrArg Token.word⟩
  | quotedIdent name =>
      exact ⟨fun h => eq_self_iff.1 (Token.quotedIdent.inj h), fun h => congrArg _ (eq_self_iff.2 h)⟩
  | unicodeIdent name =>
      exact ⟨fun h => eq_self_iff.1 (Token.unicodeIdent.inj h), fun h => congrArg _ (eq_self_iff.2 h)⟩
  | literal k body => exact absurd ht id
  | param digits => exact absurd ht id
  | number digits => exact absurd ht id
  | symbol spelling => exact ⟨fun _ => trivial, fun _ => rfl⟩
  | other c => exact ⟨fun _ => trivial, fun _ => rfl⟩

theorem absorb_token_iff (hmore : g'.1 = g.1) :
    absorb (.token t') g' = nulled (absorb (.token t) g) ↔ t' = nullParam t ∧ g' = nulled g := by
  simp [absorb, nulled, Prod.ext_iff, hmore]

/-- The kinds that end a string for good: what is gathered behind them does not go on with it. -/
def EndsString : Kind → Prop
  | .blockComment | .token _ => True
  | _ => False

theorem absorb_plain_iff (hkind : IsPlainPiece kind) (hword : ∀ name, kind = .token (.word name) → IsWord name)
    (hmore : EndsString kind → g'.1 = g.1) (next : List Char) :
    absorb (replacedKind kind) g' = nulled (absorb kind g) ↔ Untouched next kind ∧ g' = nulled g := by
  cases kind with
  | blank | lineComment => exact (and_iff_right trivial).symm
  | blockComment =>
      rw [show Untouched next .blockComment ∧ g' = nulled g ↔ g' = nulled g from and_iff_right trivial]
      simp [replacedKind, absorb, nulled, Prod.ext_iff, hmore trivial]
  | string k body =>
      have hbodies := replaceParams_append_eq_iff (x := body) (y := g'.1) (z := g.1)
      simp [replacedKind, absorb, nulled, nullParam, Prod.ext_iff, Untouched, hbodies, and_assoc]
  | more body =>
      have hbodies := replaceParams_append_eq_iff (x := body) (y := g'.1) (z := g.1)
      simp [replacedKind, absorb, nulled, Prod.ext_iff, Untouched, hbodies, and_assoc]
  | token t =>
      rw [← replacedToken_eq_iff hkind (fun name ht => hword name (ht ▸ rfl))]
      exact absorb_token_iff (hmore trivial)

/-- With the rest settled, a piece adds its own condition. -/
theorem map_absorb_iff {read : Option (List Char × List Token)} {kind' : Kind} {P Q : Prop}
    (hread : read = some (nulled g) ↔ Q)
    (habsorb : ∀ g', read = some g' → (absorb kind' g' = nulled (absorb kind g) ↔ P ∧ g' = nulled g)) :
    read.map (absorb kind') = some (nulled (absorb kind g)) ↔ P ∧ Q := by
  rw [Option.map_eq_some_iff]
  constructor
  · rintro ⟨g', hg', heq⟩
    obtain ⟨hp, rfl⟩ := (habsorb g' hg').1 heq
    exact ⟨hp, hread.1 hg'⟩
  · rintro ⟨hp, hq⟩
    exact ⟨nulled g, hread.2 hq, (habsorb _ (hread.2 hq)).2 ⟨hp, rfl⟩⟩

/-- The piece leaves the same string open as before. -/
theorem after_replaced (hmunch : munch pending (raw ++ rest) = some (kind, rest)) (hraw : raw ≠ [])
    (hkind : IsPlainPiece kind) :
    pending.after ⟨readBefore (replaceParams (raw ++ rest)) (replaceParams rest), replacedKind kind⟩ =
      pending.after ⟨raw, kind⟩ := by
  obtain ⟨c, raw, rfl⟩ := List.exists_cons_of_ne_nil hraw
  cases kind with
  | blank =>
      have hc : isBlank c = true := (munch_from hmunch).1
      have hrest : rest = (raw ++ rest).dropWhile isBlank := (munch_from hmunch).2
      have hsplit : (raw ++ rest).takeWhile isBlank ++ rest = raw ++ rest := by
        calc (raw ++ rest).takeWhile isBlank ++ rest
          _ = (raw ++ rest).takeWhile isBlank ++ (raw ++ rest).dropWhile isBlank := by rw [← hrest]
          _ = raw ++ rest := List.takeWhile_append_dropWhile
      have hfree : '$' ∉ c :: raw := fun hmem => by
        rcases List.mem_cons.1 hmem with rfl | hmem
        · exact absurd hc (by decide)
        · rw [← List.append_cancel_right hsplit] at hmem
          exact absurd (List.mem_takeWhile_imp hmem) (by decide)
      rw [replaceParams_append_of_notMem hfree, readBefore_append_left]
      rfl
  | lineComment | blockComment | string k body => rfl
  | more body => cases pending <;> rfl
  | token t => rfl

theorem lexFrom_plain (hmunch : munch pending (raw ++ rest) = some (kind, rest)) (hraw : raw ≠ [])
    (hkind : IsPlainPiece kind) :
    lexFrom pending (replaceParams (raw ++ rest)) =
      (lexFrom (pending.after ⟨raw, kind⟩) (replaceParams rest)).map (absorb (replacedKind kind)) := by
  have hafter := after_replaced hmunch hraw hkind
  obtain ⟨c, raw, rfl⟩ := List.exists_cons_of_ne_nil hraw
  have hmunch' : munch pending (replaceParams (c :: (raw ++ rest))) =
      some (replacedKind kind, replaceParams rest) := munch_replaceParams hmunch hkind
  obtain ⟨d, text, htext⟩ := List.exists_cons_of_ne_nil (replaceParams_ne_nil (List.cons_ne_nil c (raw ++ rest)))
  rw [← hafter, List.cons_append, htext]
  rw [htext] at hmunch'
  exact lexFrom_cons hmunch'

/-- The piece is read as another token or as the same. -/
theorem lexFrom_replaced_token {left : List Char}
    (hmunch : munch pending (replaceParams (c :: text)) = some (.token t, left)) :
    lexFrom pending (replaceParams (c :: text)) = (lexFrom .nothing left).map (absorb (.token t)) := by
  obtain ⟨d, text', htext⟩ := List.exists_cons_of_ne_nil (replaceParams_ne_nil (List.cons_ne_nil c text))
  rw [htext] at hmunch ⊢
  rw [lexFrom_cons hmunch]
  cases pending <;> rfl

theorem lexFrom_replaced_none (hmunch : munch pending (replaceParams (c :: text)) = none) :
    lexFrom pending (replaceParams (c :: text)) = none := by
  obtain ⟨d, text', htext⟩ := List.exists_cons_of_ne_nil (replaceParams_ne_nil (List.cons_ne_nil c text))
  rw [htext] at hmunch ⊢
  exact lexFrom_of_munch_none hmunch

/-- A `$` begins no string that could go on, and no comment. -/
theorem token_of_dollar (h : munch pending ('$' :: text) = some (kind, rest)) : ∃ t, kind = .token t := by
  have hdollar : munch pending ('$' :: text) = munchDollar text := rfl
  rw [hdollar] at h
  unfold munchDollar munchParam at h
  split at h
  · split at h
    · cases h
    · exact ⟨_, (Prod.mk.inj (Option.some.inj h)).1.symm⟩
  · split at h
    · obtain ⟨b, -, heq⟩ := Option.map_eq_some_iff.1 h
      exact ⟨_, (Prod.mk.inj heq).1.symm⟩
    · exact ⟨_, (Prod.mk.inj (Option.some.inj h)).1.symm⟩

section

variable {digits : List Char}
  (hmore : ∀ g', lexFrom .nothing (replaceParams rest) = some g' → g'.1 = g.1)

include hmore

/-- The token is read as this one, and the rest as before. -/
theorem map_absorb_token_iff {P : Prop} (ht' : t' = nullParam t ↔ P) :
    (lexFrom .nothing (replaceParams rest)).map (absorb (.token t')) = some (nulled (absorb (.token t) g)) ↔
      P ∧ lexFrom .nothing (replaceParams rest) = some (nulled g) := by
  rw [← ht']
  exact map_absorb_iff Iff.rfl fun g' hg' => absorb_token_iff (hmore g' hg')

theorem lexFrom_number (h : munch pending (c :: text) = some (.token (.number digits), rest)) :
    lexFrom pending (replaceParams (c :: text)) = some (nulled (absorb (.token (.number digits)) g)) ↔
      startsParam rest = false ∧ lexFrom .nothing (replaceParams rest) = some (nulled g) := by
  have hmunch := munch_number h
  unfold afterNumber at hmunch
  cases hparam : startsParam rest with
  | true =>
      rw [hparam] at hmunch
      rw [lexFrom_replaced_none hmunch]
      simp
  | false =>
      rw [hparam] at hmunch
      rw [lexFrom_replaced_token hmunch]
      exact map_absorb_token_iff hmore (by simp [nullParam])

theorem lexFrom_param (h : munch pending (c :: text) = some (.token (.param digits), rest)) :
    lexFrom pending (replaceParams (c :: text)) = some (nulled (absorb (.token (.param digits)) g)) ↔
      startsWith (· = '$') rest = false ∧ lexFrom .nothing (replaceParams rest) = some (nulled g) := by
  obtain ⟨hends, hgoes⟩ := munch_param h
  cases hnext : startsWith (· = '$') rest with
  | false =>
      rw [lexFrom_replaced_token (hends hnext)]
      exact map_absorb_token_iff hmore (by simp [nullParam])
  | true =>
      obtain ⟨word, left, hmunch, hne⟩ := hgoes hnext
      rw [lexFrom_replaced_token hmunch]
      refine ⟨fun h => ?_, fun h => absurd h.1 (by simp)⟩
      obtain ⟨g', -, heq⟩ := Option.map_eq_some_iff.1 h
      exact absurd (List.cons.inj (Prod.mk.inj heq).2).1 hne

theorem lexFrom_quoted {k : StringKind} {body : List Char}
    (h : munch pending (c :: text) = some (.token (.literal k body), rest)) :
    lexFrom pending (replaceParams (c :: text)) = some (nulled (absorb (.token (.literal k body)) g)) ↔
      CleanQuoted body rest ∧ lexFrom .nothing (replaceParams rest) = some (nulled g) := by
  obtain ⟨hclean, honly⟩ := munch_quoted h
  by_cases hquoted : CleanQuoted body rest
  · rw [lexFrom_replaced_token (hclean hquoted)]
    exact map_absorb_token_iff hmore (by simp [nullParam, hquoted])
  · refine ⟨fun hlex => absurd ?_ hquoted, fun h => absurd h.1 hquoted⟩
    obtain ⟨rfl, tag, htext, -, hdigit, -⟩ := dollarQuoted_of_munch h
    obtain ⟨rfl, rfl⟩ := List.cons.inj htext
    cases hread : munch pending (replaceParams ('$' :: (tag ++ '$' :: (body ++ '$' :: (tag ++ '$' :: rest))))) with
    | none =>
        rw [lexFrom_replaced_none hread] at hlex
        cases hlex
    | some piece =>
        obtain ⟨kind, left⟩ := piece
        obtain ⟨t', rfl⟩ : ∃ t', kind = .token t' := by
          rw [replaceParams_dollar (startsWith_append_dollar hdigit _)] at hread
          exact token_of_dollar hread
        rw [lexFrom_replaced_token hread] at hlex
        obtain ⟨g', -, heq⟩ := Option.map_eq_some_iff.1 hlex
        obtain rfl : t' = .literal .plain body := (List.cons.inj (Prod.mk.inj heq).2).1
        exact honly left hread

end

/-- The tokens are those of the query, with `NULL` for each parameter, exactly if the matches are its
parameters. -/
theorem lexFrom_replaceParams (h : Lexes pending text ls) :
    lexFrom pending (replaceParams text) = some (nulled (gather ls)) ↔ OnlyParams ls := by
  induction h with
  | nil => exact ⟨fun _ => trivial, fun _ => rfl⟩
  | @cons pending raw rest kind ls hraw hmunch hls ih =>
      have hgather : gather (⟨raw, kind⟩ :: ls) = absorb kind (gather ls) := rfl
      have hnext : ls.flatMap Lexeme.raw = rest := hls.flatMap_raw
      have hmore (hends : pending.after ⟨raw, kind⟩ = .nothing) {g' : List Char × List Token}
          (hg' : lexFrom .nothing (replaceParams rest) = some g') : g'.1 = (gather ls).1 := by
        rw [more_nil_of_lexFrom hg', hls.more_nil hends]
      -- Whether the first piece is one of the three that can hold a match.
      rw [hgather, OnlyParams, hnext]
      by_cases hkind : IsPlainPiece kind
      · rw [lexFrom_plain hmunch hraw hkind]
        refine map_absorb_iff ih fun g' hg' => absorb_plain_iff hkind ?_ ?_ rest
        · rintro name rfl
          obtain ⟨c, raw, rfl⟩ := List.exists_cons_of_ne_nil hraw
          exact munch_from hmunch
        · intro hends
          have hnothing : pending.after ⟨raw, kind⟩ = .nothing := by
            cases kind with
            | blank | lineComment | string | more => exact absurd hends id
            | blockComment | token => cases pending <;> rfl
          rw [hnothing] at hg'
          exact hmore hnothing hg'
      · obtain ⟨t, rfl⟩ : ∃ t, kind = .token t := by
          cases kind with
          | token t => exact ⟨t, rfl⟩
          | blank | lineComment | blockComment | string | more => exact absurd trivial hkind
        have hnothing : pending.after ⟨raw, .token t⟩ = .nothing := by cases pending <;> rfl
        rw [hnothing] at ih
        rw [← ih]
        obtain ⟨c, raw, rfl⟩ := List.exists_cons_of_ne_nil hraw
        cases t with
        | param digits => exact lexFrom_param (fun _ => hmore hnothing) hmunch
        | number digits => exact lexFrom_number (fun _ => hmore hnothing) hmunch
        | literal k body => exact lexFrom_quoted (fun _ => hmore hnothing) hmunch
        | word | quotedIdent | unicodeIdent | symbol | other => exact absurd trivial hkind

/-! ## ExplainQuery -/

/-- In either mode the text behind `EXPLAIN` is the query after the replacement. -/
theorem lex_sent (query : String) :
    lex (explainSQL query).1.toList =
      (lex (replaceParams query.toList)).map
        (explainHead (if hasParams query.toList then "costs" else "analyze") ++ ·) := by
  rw [lex_explainSQL]
  cases hparams : hasParams query.toList with
  | true => rfl
  | false => rw [replaceParams_eq_self hparams]; rfl

/-- The tokens that are sent are those of the query behind `EXPLAIN`, with `NULL` for each parameter,
exactly if the matches of `\$\d+` in it are its parameters. -/
theorem explain_params_iff {Pool Plan : Type} {getPool : String → String → Except String Pool}
    {queryRow : Pool → String → Except String (List UInt8)} {unmarshal : List UInt8 → Plan} {now : Time}
    {plans : Option PlanStore} {req : ExplainRequest} {query sql : String}
    (hquery : explainable req = .ok query)
    (hsql : (explainQuery getPool queryRow unmarshal now plans (some req)).2.2 = some sql) :
    (∀ ts, lex query.toList = some ts → lex sql.toList =
        some (explainHead (if hasParams query.toList then "costs" else "analyze") ++ ts.map nullParam)) ↔
      ∀ ls, lexemes .nothing query.toList = some ls → OnlyParams ls := by
  obtain ⟨hok, rfl⟩ := sent_explainQuery hsql
  obtain rfl : query = trimSpace req.query := Except.ok.inj (hquery.symm.trans hok)
  rw [lex_sent]
  generalize trimSpace req.query = query
  cases hls : lexemes .nothing query.toList with
  | none =>
      have hlex : lex query.toList = none := by rw [lex, lexFrom, hls]; rfl
      simp [hlex]
  | some ls =>
      have hlexes := lexes_iff.2 hls
      have hlex : lex query.toList = some (gather ls).2 := by rw [lex, lexFrom, hls]; rfl
      have hnulled : nulled (gather ls) = ([], (gather ls).2.map nullParam) := by
        rw [nulled, hlexes.more_nil rfl]
      have hiff := lexFrom_replaceParams hlexes
      rw [hnulled, ← lex_eq_some_iff] at hiff
      simp [hlex, ← hiff]

theorem explain_params_iff_limit :
    lex "EXPLAIN (COSTS, BUFFERS, FORMAT JSON) SELECT '$' LIMIT NULL".toList =
      some (explainHead "costs" ++
        [.word "select".toList, .literal .plain ['$'], .word "limit".toList, nullWord]) := by
  have hlexemes : lexemes .nothing "SELECT '$' LIMIT $1".toList =
      some [⟨"SELECT".toList, .token (.word "select".toList)⟩, ⟨[' '], .blank⟩,
        ⟨"'$'".toList, .string .plain ['$']⟩, ⟨[' '], .blank⟩,
        ⟨"LIMIT".toList, .token (.word "limit".toList)⟩, ⟨[' '], .blank⟩,
        ⟨"$1".toList, .token (.param ['1'])⟩] := by decide
  have honly : ∀ ls, lexemes .nothing "SELECT '$' LIMIT $1".toList = some ls → OnlyParams ls := by
    intro ls hls
    rw [hlexemes] at hls
    obtain rfl := Option.some.inj hls
    simp [OnlyParams, Untouched, hasParams, startsWith]
  have hquery : explainable { query := "SELECT '$' LIMIT $1" } = .ok "SELECT '$' LIMIT $1" := by decide
  have hsql : (explainQuery (fun _ _ => .ok ()) (fun _ _ => .error "") (fun planJSON => planJSON) 0 none
      (some { query := "SELECT '$' LIMIT $1" })).2.2 =
        some "EXPLAIN (COSTS, BUFFERS, FORMAT JSON) SELECT '$' LIMIT NULL" := by decide
  exact (explain_params_iff hquery hsql).2 honly
    [.word "select".toList, .literal .plain ['$'], .word "limit".toList, .param ['1']] (by decide)

/-- A `$5` in a string is replaced too. -/
theorem literal_param_replaced :
    explainable { query := "SELECT 'costs $5'" } = .ok "SELECT 'costs $5'" ∧
      (explainQuery (fun _ _ => .ok ()) (fun _ _ => .error "") (fun planJSON => planJSON) 0 none
        (some { query := "SELECT 'costs $5'" })).2.2 =
          some "EXPLAIN (COSTS, BUFFERS, FORMAT JSON) SELECT 'costs NULL'" ∧
      lex "SELECT 'costs $5'".toList =
        some [.word "select".toList, .literal .plain "costs $5".toList] ∧
      lex "EXPLAIN (COSTS, BUFFERS, FORMAT JSON) SELECT 'costs NULL'".toList ≠
        some (explainHead "costs" ++
          [.word "select".toList, .literal .plain "costs $5".toList].map nullParam) := by
  decide

end Handler
end Pgaio
