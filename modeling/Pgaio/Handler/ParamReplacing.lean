import Pgaio.Handler.ExplainQuery

/-!
# ParamReplacing — the replacement of parameters against the scanners of the lexer

The replacement goes over the characters of a text and knows nothing of its tokens.  This module says
what becomes of each kind of piece: `munch_replaceParams` is that the pieces are the same with the
replacement done inside them, for all but parameters, numbers and dollar-quoted strings, which have
lemmas of their own.
-/

namespace Pgaio
namespace Handler

open Postgres.SQL

/-! ## The text after the replacement -/

/-- A match of `\$\d+` begins here. -/
def startsParam (text : List Char) : Bool :=
  startsWith (· = '$') text && startsWith Char.isDigit text.tail

variable {p : Char → Bool} {c : Char} {text rest x y : List Char}

theorem replaceFrom_true (text : List Char) :
    replaceFrom true text = replaceParams (text.dropWhile Char.isDigit) := by
  induction text with
  | nil => rfl
  | cons c text ih =>
      by_cases hc : c.isDigit = true
      · rw [replaceFrom, hc, Bool.and_self, if_pos rfl, ih, List.dropWhile_cons_of_pos hc]
      · rw [List.dropWhile_cons_of_neg hc]
        simp [replaceParams, replaceFrom, hc]

theorem replaceParams_param (h : startsWith Char.isDigit text = true) :
    replaceParams ('$' :: text) =
      'N' :: 'U' :: 'L' :: 'L' :: replaceParams (text.dropWhile Char.isDigit) := by
  rw [← replaceFrom_true]
  simp [replaceParams, replaceFrom, h]

theorem replaceParams_cons (h : startsParam (c :: text) = false) :
    replaceParams (c :: text) = c :: replaceParams text := by
  have hmatch : ¬ (c = '$' && startsWith Char.isDigit text) = true := by
    simpa [startsParam, startsWith] using h
  simp only [replaceParams, replaceFrom, Bool.false_and, Bool.false_eq_true, if_false, if_neg hmatch]

theorem startsParam_of_ne (h : c ≠ '$') : startsParam (c :: text) = false := by
  simp [startsParam, startsWith, h]

theorem param_of_startsParam (h : startsParam (c :: text) = true) :
    c = '$' ∧ startsWith Char.isDigit text = true := by
  simpa [startsParam, startsWith] using h

/-- Through a text match by match. -/
@[elab_as_elim]
theorem param_induction {motive : List Char → Prop} (nil : motive [])
    (keep : ∀ c text, startsParam (c :: text) = false → motive text → motive (c :: text))
    (param : ∀ text, startsWith Char.isDigit text = true → motive (text.dropWhile Char.isDigit) →
      motive ('$' :: text)) (text : List Char) : motive text := by
  induction hlength : text.length using Nat.strong_induction_on generalizing text with
  | _ n ih =>
      subst hlength
      cases text with
      | nil => exact nil
      | cons c text =>
          cases hparam : startsParam (c :: text) with
          | false => exact keep c text hparam (ih _ (Nat.lt_succ_self _) text rfl)
          | true =>
              obtain ⟨rfl, hdigit⟩ := param_of_startsParam hparam
              have hle : (text.dropWhile Char.isDigit).length ≤ text.length :=
                (List.dropWhile_suffix _).length_le
              exact param text hdigit (ih _ (Nat.lt_succ_of_le hle) _ rfl)

/-- What the text begins with, where `$` and `N` make no difference. -/
theorem startsWith_replaceParams (hp : p '$' = p 'N') (text : List Char) :
    startsWith p (replaceParams text) = startsWith p text := by
  cases text with
  | nil => rfl
  | cons c text =>
      cases hparam : startsParam (c :: text) with
      | false =>
          rw [replaceParams_cons hparam]
          rfl
      | true =>
          obtain ⟨rfl, hdigit⟩ := param_of_startsParam hparam
          rw [replaceParams_param hdigit]
          exact hp.symm

theorem startsWith_replaceParams_of_not (h : startsParam text = false) (p : Char → Bool) :
    startsWith p (replaceParams text) = startsWith p text := by
  cases text with
  | nil => rfl
  | cons c text =>
      rw [replaceParams_cons h]
      rfl

/-- No match is left. -/
theorem hasParams_replaceParams (text : List Char) : hasParams (replaceParams text) = false := by
  induction text using param_induction with
  | nil => rfl
  | keep c text hparam ih =>
      rw [replaceParams_cons hparam, hasParams, startsWith_replaceParams (by decide), ih]
      simpa [startsParam, startsWith] using hparam
  | param text hdigit ih =>
      rw [replaceParams_param hdigit]
      simp [hasParams, ih]

/-- A text without a match is left alone. -/
theorem replaceParams_eq_self (h : hasParams text = false) : replaceParams text = text := by
  induction text with
  | nil => rfl
  | cons c text ih =>
      obtain ⟨hc, htext⟩ : (c = '$' && startsWith Char.isDigit text) = false ∧ hasParams text = false := by
        rwa [hasParams, Bool.or_eq_false_iff] at h
      have hparam : startsParam (c :: text) = false := by simpa [startsParam, startsWith] using hc
      rw [replaceParams_cons hparam, ih htext]

theorem eq_self_iff : replaceParams text = text ↔ hasParams text = false := by
  constructor
  · intro h
    rw [← h]
    exact hasParams_replaceParams text
  · exact replaceParams_eq_self

/-- The two parts are replaced apart, unless a match goes over the border. -/
theorem replaceParams_append (hy : startsWith Char.isDigit y = false) (x : List Char) :
    replaceParams (x ++ y) = replaceParams x ++ replaceParams y := by
  induction x using param_induction with
  | nil => rfl
  | keep c x hparam ih =>
      have hparam' : startsParam (c :: (x ++ y)) = false := by
        cases x with
        | nil => simp [startsParam, hy]
        | cons d x => exact hparam
      rw [List.cons_append, replaceParams_cons hparam', replaceParams_cons hparam, ih, List.cons_append]
  | param x hdigit ih =>
      have hdigit' : startsWith Char.isDigit (x ++ y) = true := by
        cases x with
        | nil => cases hdigit
        | cons d x => exact hdigit
      -- The digits of the match end within the first part, since the second does not begin with one.
      have hdrop : (x ++ y).dropWhile Char.isDigit = x.dropWhile Char.isDigit ++ y := by
        rw [List.dropWhile_append]
        split
        · next hnil =>
            rw [List.isEmpty_iff.1 hnil, List.nil_append]
            cases y with
            | nil => rfl
            | cons d y => exact List.dropWhile_cons_of_neg (by simpa [startsWith] using hy)
        · rfl
      rw [List.cons_append, replaceParams_param hdigit', replaceParams_param hdigit, hdrop, ih]
      rfl

/-- A part without a match in it or on its border is left alone. -/
theorem replaceParams_append_of_clean (h : hasParams (x ++ y.take 1) = false) :
    replaceParams (x ++ y) = x ++ replaceParams y := by
  induction x with
  | nil => rfl
  | cons c x ih =>
      obtain ⟨hc, hx⟩ : (c = '$' && startsWith Char.isDigit (x ++ y.take 1)) = false ∧
          hasParams (x ++ y.take 1) = false := by
        rwa [List.cons_append, hasParams, Bool.or_eq_false_iff] at h
      have hparam : startsParam (c :: (x ++ y)) = false := by
        cases x with
        | nil =>
            cases y with
            | nil => simp [startsParam, startsWith]
            | cons d y => simpa [startsParam, startsWith] using hc
        | cons d x => simpa [startsParam, startsWith] using hc
      rw [List.cons_append, replaceParams_cons hparam, ih hx, List.cons_append]

theorem hasParams_append_take (hx : '$' ∉ x) (y : List Char) : hasParams (x ++ y.take 1) = false := by
  induction x with
  | nil =>
      cases y with
      | nil => rfl
      | cons c y => simp [hasParams, startsWith]
  | cons c x ih =>
      rw [List.mem_cons, not_or] at hx
      rw [List.cons_append, hasParams, ih hx.2]
      simp [Ne.symm hx.1]

theorem replaceParams_append_of_notMem (hx : '$' ∉ x) (y : List Char) :
    replaceParams (x ++ y) = x ++ replaceParams y :=
  replaceParams_append_of_clean (hasParams_append_take hx y)

/-- Up to a character that is neither `$` nor of the word `NULL` everything is as before. -/
theorem takeWhile_replaceParams (hdollar : p '$' = false) (hn : p 'N' = false) (text : List Char) :
    (replaceParams text).takeWhile p = text.takeWhile p ∧
      (replaceParams text).dropWhile p = replaceParams (text.dropWhile p) := by
  have hfree : '$' ∉ text.takeWhile p := fun hmem => by
    have hp := List.mem_takeWhile_imp hmem
    rw [hdollar] at hp
    cases hp
  have hall : ∀ c ∈ text.takeWhile p, p c = true := fun _ => List.mem_takeWhile_imp
  have hstop : startsWith p (replaceParams (text.dropWhile p)) = false := by
    rw [startsWith_replaceParams (hdollar.trans hn.symm)]
    exact startsWith_dropWhile p text
  have hsplit : replaceParams text = text.takeWhile p ++ replaceParams (text.dropWhile p) := by
    rw [← replaceParams_append_of_notMem hfree, List.takeWhile_append_dropWhile]
  rw [hsplit]
  exact ⟨takeWhile_append_stop hall hstop, dropWhile_append_stop hall hstop⟩

/-- The characters that are read on over a match, and over what replaces it. -/
structure PassesParams (p : Char → Bool) : Prop where
  dollar : p '$' = true
  null : ∀ c ∈ ['N', 'U', 'L'], p c = true
  digit : ∀ c, c.isDigit = true → p c = true

theorem PassesParams.all (hp : PassesParams p) (h : ∀ c ∈ text, p c = true) :
    ∀ c ∈ replaceParams text, p c = true := by
  induction text using param_induction with
  | nil => exact h
  | keep c text hparam ih =>
      rw [replaceParams_cons hparam]
      rw [List.forall_mem_cons] at h ⊢
      exact ⟨h.1, ih h.2⟩
  | param text hdigit ih =>
      rw [replaceParams_param hdigit]
      rw [List.forall_mem_cons] at h
      have hrest := ih fun c hc => h.2 c ((List.dropWhile_suffix _).subset hc)
      simpa [hp.null] using hrest

theorem PassesParams.takeWhile (hp : PassesParams p) (text : List Char) :
    (replaceParams text).takeWhile p = replaceParams (text.takeWhile p) ∧
      (replaceParams text).dropWhile p = replaceParams (text.dropWhile p) := by
  have hstop := startsWith_dropWhile p text
  have hdigit : startsWith Char.isDigit (text.dropWhile p) = false := startsWith_of_imp hp.digit hstop
  have hall : ∀ c ∈ replaceParams (text.takeWhile p), p c = true := hp.all fun _ => List.mem_takeWhile_imp
  have hstop' : startsWith p (replaceParams (text.dropWhile p)) = false := by
    rwa [startsWith_replaceParams (hp.dollar.trans (hp.null 'N' (by decide)).symm)]
  have hsplit : replaceParams text =
      replaceParams (text.takeWhile p) ++ replaceParams (text.dropWhile p) := by
    rw [← replaceParams_append hdigit, List.takeWhile_append_dropWhile]
  rw [hsplit]
  exact ⟨takeWhile_append_stop hall hstop', dropWhile_append_stop hall hstop'⟩

/-! ## Quoted bodies and comments -/

theorem startsWith_body {q : Char} {doubles escapes : Bool} {written body : List Char}
    (hbody : Body q doubles escapes written body) (p : Char → Bool) :
    startsWith p written = startsWith p body := by
  cases hbody <;> rfl

/-- A quote that no match touches. -/
structure Quote (q : Char) : Prop where
  dollar : q ≠ '$'
  digit : q.isDigit = false
  null : ∀ c ∈ ['N', 'U', 'L'], c ≠ q

/-- The replacement in what is written is the replacement in what it says. -/
theorem body_replaceFrom {q : Char} {doubles escapes : Bool} {written body : List Char} (hq : Quote q)
    (hbody : Body q doubles escapes written body) (inMatch : Bool) :
    Body q doubles escapes (replaceFrom inMatch written) (replaceFrom inMatch body) := by
  have hnull {written body : List Char} (h : Body q doubles escapes written body) :
      Body q doubles escapes ('U' :: 'L' :: 'L' :: written) ('U' :: 'L' :: 'L' :: body) := by
    have hl : Body q doubles escapes ('L' :: written) ('L' :: body) :=
      .char 'L' (hq.null 'L' (by decide)) (by simp) h
    exact .char 'U' (hq.null 'U' (by decide)) (by simp) (.char 'L' (hq.null 'L' (by decide)) (by simp) hl)
  induction hbody generalizing inMatch with
  | nil => exact .nil
  | doubled hd _ ih =>
      simp only [replaceFrom, hq.digit, hq.dollar, Bool.and_false, decide_false, Bool.false_and,
        Bool.false_eq_true, if_false]
      exact .doubled hd (ih false)
  | escaped d he hslash hbody ih =>
      have hrest := startsWith_body hbody Char.isDigit
      have hbackslash : ('\\' : Char).isDigit = false := by decide
      simp only [replaceFrom, hbackslash, Bool.and_false, Bool.false_and, Bool.false_eq_true,
        if_false, show ('\\' : Char) ≠ '$' by decide, decide_false, hrest]
      split
      · exact .escaped 'N' he hslash (hnull (ih true))
      · exact .escaped d he hslash (ih false)
  | char c hc he hbody ih =>
      have hrest := startsWith_body hbody Char.isDigit
      simp only [replaceFrom, hrest]
      split
      · exact ih true
      · split
        · exact .char 'N' (hq.null 'N' (by decide)) (by simp) (hnull (ih true))
        · exact .char c hc he (ih false)

theorem skipBlock_pass {depth : Nat} (hclose : ¬ (c = '*' ∧ startsWith (· = '/') text = true))
    (hopen : ¬ (c = '/' ∧ startsWith (· = '*') text = true)) :
    skipBlock depth (c :: text) = skipBlock depth text := by
  cases text with
  | nil => rfl
  | cons d text =>
      have hclose' : ¬ (c = '*' && d = '/') = true := by simpa [startsWith] using hclose
      have hopen' : ¬ (c = '/' && d = '*') = true := by simpa [startsWith] using hopen
      rw [skipBlock.eq_def]
      simp only [hclose', hopen', Bool.false_eq_true, if_false]

/-- What opens and ends a block comment is no part of a match. -/
theorem skipBlock_replaceFrom {depth : Nat} (h : skipBlock depth text = some rest) (inMatch : Bool) :
    skipBlock depth (replaceFrom inMatch text) = some (replaceParams rest) := by
  induction depth, text using skipBlock.induct generalizing inMatch with
  | case1 | case2 => simp [skipBlock] at h
  | case3 c d text hc =>
      obtain ⟨rfl, rfl⟩ : c = '*' ∧ d = '/' := by simpa using hc
      obtain rfl : text = rest := by simpa [skipBlock] using h
      simp [replaceFrom, skipBlock, startsWith, replaceParams]
  | case4 c d text hc outer ih =>
      obtain ⟨rfl, rfl⟩ : c = '*' ∧ d = '/' := by simpa using hc
      have hrest : skipBlock outer text = some rest := by simpa [skipBlock] using h
      simpa [replaceFrom, skipBlock, startsWith] using ih hrest false
  | case5 depth c d text hc hopen ih =>
      obtain ⟨rfl, rfl⟩ : c = '/' ∧ d = '*' := by simpa using hopen
      have hrest : skipBlock (depth + 1) text = some rest := by simpa [skipBlock] using h
      simpa [replaceFrom, skipBlock, startsWith] using ih hrest false
  | case6 depth c d text hc hopen ih =>
      have hrest : skipBlock depth (d :: text) = some rest := by simpa [skipBlock, hc, hopen] using h
      -- `NULL` neither opens nor closes a comment.
      have hnull (x : Char) (hx : x ∈ ['N', 'U', 'L']) (text : List Char) :
          skipBlock depth (x :: text) = skipBlock depth text := by
        apply skipBlock_pass
        · rintro ⟨rfl, -⟩
          exact absurd hx (by decide)
        · rintro ⟨rfl, -⟩
          exact absurd hx (by decide)
      rw [replaceFrom]
      split
      · exact ih hrest true
      · split
        · rw [hnull 'N' (by decide), hnull 'U' (by decide), hnull 'L' (by decide), hnull 'L' (by decide)]
          exact ih hrest true
        · have hslash : startsWith (· = '/') (replaceFrom false (d :: text)) = startsWith (· = '/') (d :: text) :=
            startsWith_replaceParams (by decide) _
          have hstar : startsWith (· = '*') (replaceFrom false (d :: text)) = startsWith (· = '*') (d :: text) :=
            startsWith_replaceParams (by decide) _
          rw [skipBlock_pass]
          · exact ih hrest false
          · rw [hslash]
            simpa [startsWith] using hc
          · rw [hstar]
            simpa [startsWith] using hopen

/-! ## Numbers -/

/-- Digits that no match touches. -/
structure PlainDigits (ok : Char → Bool) : Prop where
  dollar : ok '$' = false
  null : ok 'N' = false

theorem PlainDigits.same {ok : Char → Bool} (hok : PlainDigits ok) : ok '$' = ok 'N' :=
  hok.dollar.trans hok.null.symm

theorem plainDigits_isDigit : PlainDigits Char.isDigit where
  dollar := by decide
  null := by decide

theorem dropDigits_ok {ok : Char → Bool} (hc : ok c = true) (text : List Char) :
    dropDigits ok (c :: text) = dropDigits ok text := by
  cases text with
  | nil => simp [dropDigits, hc]
  | cons d text => rw [dropDigits, if_pos hc]

theorem dropDigits_stop {ok : Char → Bool} (hc : ok c = false)
    (hunderscore : ¬ (c = '_' ∧ startsWith ok text = true)) : dropDigits ok (c :: text) = c :: text := by
  cases text with
  | nil => simp [dropDigits, hc]
  | cons d text =>
      have hd : ¬ (c = '_' && ok d) = true := by simpa [startsWith] using hunderscore
      rw [dropDigits, if_neg (by simp [hc]), if_neg hd]

theorem dropDigits_replaceParams {ok : Char → Bool} (hok : PlainDigits ok) (text : List Char) :
    dropDigits ok (replaceParams text) = replaceParams (dropDigits ok text) := by
  have hne {c : Char} (hc : ok c = true) : c ≠ '$' := fun heq => by
    rw [heq, hok.dollar] at hc
    cases hc
  -- The first character that is no digit, `$` or `N`, stops both.
  have hstop {c : Char} {text : List Char} (hc : ok c = false)
      (hunderscore : ¬ (c = '_' ∧ startsWith ok text = true)) :
      dropDigits ok (replaceParams (c :: text)) = replaceParams (c :: text) := by
    cases hparam : startsParam (c :: text) with
    | true =>
        obtain ⟨rfl, hdigit⟩ := param_of_startsParam hparam
        rw [replaceParams_param hdigit]
        exact dropDigits_stop hok.null (fun h => absurd h.1 (by decide))
    | false =>
        rw [replaceParams_cons hparam]
        refine dropDigits_stop hc fun h => hunderscore ⟨h.1, ?_⟩
        rw [← startsWith_replaceParams hok.same]
        exact h.2
  induction text using dropDigits.induct ok with
  | case1 => rfl
  | case2 c hc =>
      rw [replaceParams_cons (startsParam_of_ne (hne hc)), dropDigits_ok hc, dropDigits_ok hc]
      rfl
  | case3 c hc =>
      have hc' : ok c = false := by simpa using hc
      have hend : ¬ (c = '_' ∧ startsWith ok [] = true) := by simp [startsWith]
      rw [hstop hc' hend, dropDigits_stop hc' hend]
  | case4 c d text hc ih =>
      rw [replaceParams_cons (startsParam_of_ne (hne hc)), dropDigits_ok hc, dropDigits_ok hc, ih]
  | case5 c d text hc hd ih =>
      obtain ⟨rfl, hok'⟩ : c = '_' ∧ ok d = true := by simpa using hd
      have hdrop (text : List Char) : dropDigits ok ('_' :: d :: text) = dropDigits ok text := by
        rw [dropDigits, if_neg hc, if_pos hd]
      rw [replaceParams_cons (startsParam_of_ne (by decide)),
        replaceParams_cons (startsParam_of_ne (hne hok')), hdrop, hdrop, ih]
  | case6 c d text hc hd =>
      have hc' : ok c = false := by simpa using hc
      have hend : ¬ (c = '_' ∧ startsWith ok (d :: text) = true) := by simpa [startsWith] using hd
      rw [hstop hc' hend, dropDigits_stop hc' hend]

/-- What is left of a number's text after the replacement: an error where a match follows the number. -/
def afterNumber (rest : List Char) : Option (List Char) :=
  if startsParam rest then none else some (replaceParams rest)

theorem startsParam_of_startsWith (hp : p '$' = false) (h : startsWith p text = true) :
    startsParam text = false := by
  cases text with
  | nil => rfl
  | cons c text =>
      refine startsParam_of_ne fun heq => ?_
      have hc : p c = true := h
      rw [heq, hp] at hc
      cases hc

theorem endNumber_replaceParams (h : endNumber text = some rest) :
    endNumber (replaceParams text) = afterNumber rest := by
  obtain ⟨hletter, rfl⟩ := endNumber_eq_some h
  unfold endNumber afterNumber
  cases hparam : startsParam rest with
  | true =>
      cases rest with
      | nil => cases hparam
      | cons c rest =>
          obtain ⟨rfl, hdigit⟩ := param_of_startsParam hparam
          rw [replaceParams_param hdigit]
          rfl
  | false =>
      rw [startsWith_replaceParams_of_not hparam, hletter]

theorem tail_replaceParams (h : startsParam text = false) :
    (replaceParams text).tail = replaceParams text.tail := by
  cases text with
  | nil => rfl
  | cons c text => rw [replaceParams_cons h]; rfl

theorem afterSign_replaceParams (text : List Char) :
    afterSign (replaceParams text) = replaceParams (afterSign text) := by
  unfold afterSign
  rw [startsWith_replaceParams (by decide)]
  split
  · next hsign => exact tail_replaceParams (startsParam_of_startsWith (by decide) hsign)
  · rfl

theorem dropExponent_replaceParams (h : dropExponent text = some rest) :
    dropExponent (replaceParams text) = afterNumber rest := by
  cases text with
  | nil =>
      obtain rfl : [] = rest := Option.some.inj h
      rfl
  | cons c text =>
      rw [dropExponent] at h
      split at h
      · next he =>
          have hne : c ≠ '$' := by
            rintro rfl
            exact absurd he (by decide)
          split at h
          · next hdigit =>
              rw [replaceParams_cons (startsParam_of_ne hne), dropExponent, if_pos he,
                afterSign_replaceParams, startsWith_replaceParams (by decide), if_pos hdigit,
                dropDigits_replaceParams plainDigits_isDigit]
              exact endNumber_replaceParams h
          · cases h
      · next he =>
          have hend := endNumber_replaceParams h
          cases hparam : startsParam (c :: text) with
          | true =>
              obtain ⟨rfl, hdigit⟩ := param_of_startsParam hparam
              rw [replaceParams_param hdigit] at hend ⊢
              rw [dropExponent, if_neg (by decide)]
              exact hend
          | false =>
              rw [replaceParams_cons hparam] at hend ⊢
              rw [dropExponent, if_neg he]
              exact hend

theorem dropFraction_replaceParams (h : dropFraction text = some rest) :
    dropFraction (replaceParams text) = afterNumber rest := by
  unfold dropFraction at h ⊢
  rw [startsWith_replaceParams (by decide), dropDigits_replaceParams plainDigits_isDigit]
  split at h
  all_goals
    next hdigit =>
      simp only [hdigit, if_true, Bool.false_eq_true, if_false]
      exact dropExponent_replaceParams h

theorem dropDecimal_replaceParams (h : dropDecimal text = some rest) :
    dropDecimal (replaceParams text) = afterNumber rest := by
  unfold dropDecimal at h ⊢
  dsimp only at h ⊢
  rw [dropDigits_replaceParams plainDigits_isDigit, startsWith_replaceParams (by decide)]
  split at h
  · next hpoint =>
      have hparam := startsParam_of_startsWith (by decide) hpoint
      rw [if_pos hpoint, tail_replaceParams hparam, startsWith_replaceParams (by decide)]
      split at h
      · next htwo =>
          obtain rfl := Option.some.inj h
          rw [if_pos htwo, afterNumber, hparam]
          rfl
      · next htwo =>
          rw [if_neg htwo]
          exact dropFraction_replaceParams h
  · next hpoint =>
      rw [if_neg hpoint]
      exact dropExponent_replaceParams h

theorem plainDigits_of_radix {x : Char} {ok : Char → Bool} (h : radixDigit? x = some ok) :
    PlainDigits ok := by
  unfold radixDigit? at h
  split at h
  · obtain rfl := Option.some.inj h
    exact ⟨by decide, by decide⟩
  · split at h
    · obtain rfl := Option.some.inj h
      exact ⟨by decide, by decide⟩
    · split at h
      · obtain rfl := Option.some.inj h
        exact ⟨by decide, by decide⟩
      · cases h

theorem startsDigits_replaceParams {ok : Char → Bool} (hok : PlainDigits ok) (text : List Char) :
    startsDigits ok (replaceParams text) = startsDigits ok text := by
  unfold startsDigits
  rw [startsWith_replaceParams hok.same, startsWith_replaceParams (by decide)]
  cases hunderscore : startsWith (· = '_') text with
  | false => rw [Bool.false_and, Bool.false_and]
  | true =>
      rw [tail_replaceParams (startsParam_of_startsWith (by decide) hunderscore),
        startsWith_replaceParams hok.same]

theorem radix_replaceParams (text : List Char) :
    (replaceParams text).head?.bind radixDigit? = text.head?.bind radixDigit? := by
  cases text with
  | nil => rfl
  | cons c text =>
      cases hparam : startsParam (c :: text) with
      | false => rw [replaceParams_cons hparam]; rfl
      | true =>
          obtain ⟨rfl, hdigit⟩ := param_of_startsParam hparam
          rw [replaceParams_param hdigit]
          rfl

theorem dropNumber_replaceParams (h : dropNumber c text = some rest) :
    dropNumber c (replaceParams text) = afterNumber rest := by
  unfold dropNumber at h ⊢
  rw [radix_replaceParams]
  split at h
  · next ok hok =>
      have hradix : ∃ x, text.head? = some x ∧ radixDigit? x = some ok := by
        split at hok
        · exact Option.bind_eq_some_iff.1 hok
        · cases hok
      obtain ⟨x, hx, hradix⟩ := hradix
      have hdigits := plainDigits_of_radix hradix
      have hparam : startsParam text = false := by
        cases text with
        | nil => rfl
        | cons y text =>
            obtain rfl : y = x := Option.some.inj hx
            refine startsParam_of_ne ?_
            rintro rfl
            cases hradix
      rw [tail_replaceParams hparam, startsDigits_replaceParams hdigits, dropDigits_replaceParams hdigits,
        startsWith_replaceParams (by decide)]
      split at h
      · next hchecks =>
          obtain rfl := Option.some.inj h
          -- The test that no word goes on behind the digits excludes a dollar as well.
          rw [if_pos hchecks, afterNumber, if_neg]
          intro hstart
          obtain ⟨hstart, -⟩ := Bool.and_eq_true_iff.1 hstart
          obtain ⟨-, hword⟩ := Bool.and_eq_true_iff.1 hchecks
          have hword : startsWith isWordChar (dropDigits ok text.tail) = false := by simpa using hword
          have hdollar : startsWith (· = '$') (dropDigits ok text.tail) = false :=
            startsWith_of_imp (fun c hc => by simp [isWordChar, of_decide_eq_true hc]) hword
          rw [hdollar] at hstart
          cases hstart
      · cases h
  · exact dropDecimal_replaceParams h

/-- The text of a number has no match in it. -/
theorem replaceParams_of_readsNumber (h : ReadsNumber text rest) :
    replaceParams text = readBefore text rest ++ replaceParams rest := by
  obtain ⟨read, rfl, hread⟩ := h
  have hfree : '$' ∉ read := fun hmem => by
    have hdollar := hread '$' hmem
    revert hdollar
    decide
  rw [replaceParams_append_of_notMem hfree, readBefore_append_left]

/-! ## Pieces -/

/-- A token with the replacement done in its name. -/
def replacedToken : Token → Token
  | .word name => .word ((replaceParams name).map Char.toLower)
  | .quotedIdent name => .quotedIdent (replaceParams name)
  | .unicodeIdent body => .unicodeIdent (replaceParams body)
  | t => t

/-- A piece with the replacement done in its body. -/
def replacedKind : Kind → Kind
  | .string kind body => .string kind (replaceParams body)
  | .more body => .more (replaceParams body)
  | .token t => .token (replacedToken t)
  | kind => kind

/-- Parameters, numbers and dollar-quoted strings are apart. -/
def IsPlainPiece : Kind → Prop
  | .token (.param _) => False
  | .token (.number _) => False
  | .token (.literal _ _) => False
  | _ => True

theorem quote_single : Quote '\'' where
  dollar := by decide
  digit := by decide
  null := by simp

theorem quote_double : Quote '"' where
  dollar := by decide
  digit := by decide
  null := by simp

theorem scanBody_replaceParams {q : Char} {doubles escapes : Bool} {b : List Char × List Char} (hq : Quote q)
    (h : scanBody q doubles escapes text = some b) :
    scanBody q doubles escapes (replaceParams text) = some (replaceParams b.1, replaceParams b.2) := by
  obtain ⟨written, rfl, hbody, hclose⟩ := scanBody_eq_some h
  have hdigit : startsWith Char.isDigit (q :: b.2) = false := hq.digit
  rw [replaceParams_append hdigit, replaceParams_cons (startsParam_of_ne hq.dollar)]
  refine (body_replaceFrom hq hbody false).scan fun hd => ?_
  rw [startsWith_replaceParams]
  · exact hclose hd
  · simp [hq.dollar.symm, hq.null]

variable {pending : Pending} {kind : Kind}

theorem munchString_replaceParams {k : StringKind} (h : munchString k text = some (kind, rest)) :
    munchString k (replaceParams text) = some (replacedKind kind, replaceParams rest) := by
  obtain ⟨b, hb, heq⟩ := Option.map_eq_some_iff.1 h
  obtain ⟨rfl, rfl⟩ := Prod.mk.inj heq
  rw [munchString, scanString, scanBody_replaceParams quote_single hb]
  rfl

theorem replaceParams_ne_nil (h : text ≠ []) : replaceParams text ≠ [] := by
  cases text with
  | nil => exact absurd rfl h
  | cons c text =>
      cases hparam : startsParam (c :: text) with
      | false =>
          rw [replaceParams_cons hparam]
          exact List.cons_ne_nil c _
      | true =>
          obtain ⟨rfl, hdigit⟩ := param_of_startsParam hparam
          rw [replaceParams_param hdigit]
          exact List.cons_ne_nil _ _

theorem munchIdent_replaceParams {make : List Char → Token}
    (hmake : ∀ name, replacedToken (make name) = make (replaceParams name))
    (h : munchIdent make text = some (kind, rest)) :
    munchIdent make (replaceParams text) = some (replacedKind kind, replaceParams rest) := by
  unfold munchIdent at h
  split at h
  · next c name left hscan =>
      obtain ⟨rfl, rfl⟩ := Prod.mk.inj (Option.some.inj h)
      obtain ⟨d, name', hname⟩ := List.exists_cons_of_ne_nil
        (replaceParams_ne_nil (List.cons_ne_nil c name))
      have hscan' := scanBody_replaceParams quote_double hscan
      rw [hname] at hscan'
      simp only [munchIdent, scanIdent, hscan', replacedKind, hmake, hname]
  · cases h

theorem munchQuote_replaceParams (h : munchQuote pending text = some (kind, rest)) :
    munchQuote pending (replaceParams text) = some (replacedKind kind, replaceParams rest) := by
  unfold munchQuote at h ⊢
  split at h
  · obtain ⟨b, hb, heq⟩ := Option.map_eq_some_iff.1 h
    obtain ⟨rfl, rfl⟩ := Prod.mk.inj heq
    rw [scanString, scanBody_replaceParams quote_single hb]
    rfl
  · exact munchString_replaceParams h

theorem passesParams_isWordChar : PassesParams isWordChar where
  dollar := by decide
  null := List.all_eq_true.1 (by decide)
  digit := fun c hc => by simp [isWordChar, isTagChar, hc]

theorem passesParams_line : PassesParams (!isLineBreak ·) where
  dollar := by decide
  null := List.all_eq_true.1 (by decide)
  digit := fun c hc => by
    have hne {x : Char} (hx : x.isDigit = false) : c ≠ x := fun heq => by
      rw [heq, hx] at hc
      cases hc
    simp [isLineBreak, hne (by decide : ('\n' : Char).isDigit = false),
      hne (by decide : ('\r' : Char).isDigit = false)]

theorem toLower_eq_dollar {c : Char} : c.toLower = '$' ↔ c = '$' := by
  by_cases hc : c.isUpper = true
  · have hrange := toNat_toLower hc
    constructor
    · intro h
      rw [h] at hrange
      exact absurd hrange (by decide)
    · rintro rfl
      exact absurd hc (by decide)
  · rw [toLower_of_not_upper hc]

theorem isDigit_toLower (c : Char) : c.toLower.isDigit = c.isDigit := by
  by_cases hc : c.isUpper = true
  · have hrange := toNat_toLower hc
    have hlower : ¬ c.toLower.isDigit = true := fun h => by
      have hdigit := Char.isDigit_iff_toNat.1 h
      have hnine : '9'.toNat = 57 := rfl
      omega
    have hupper : ¬ c.isDigit = true := fun h => by
      have hdigit := Char.isDigit_iff_toNat.1 h
      have hrange : 65 ≤ c.toNat ∧ c.toNat ≤ 90 := isUpper_iff_toNat.1 hc
      have hnine : '9'.toNat = 57 := rfl
      omega
    rw [Bool.eq_false_iff.2 hlower, Bool.eq_false_iff.2 hupper]
  · rw [toLower_of_not_upper hc]

theorem startsWith_map_toLower (text : List Char) :
    startsWith Char.isDigit (text.map Char.toLower) = startsWith Char.isDigit text := by
  cases text with
  | nil => rfl
  | cons d text => exact isDigit_toLower d

/-- Folding makes no difference to what is a match. -/
theorem hasParams_map_toLower (text : List Char) : hasParams (text.map Char.toLower) = hasParams text := by
  induction text with
  | nil => rfl
  | cons c text ih => simp only [List.map_cons, hasParams, toLower_eq_dollar, startsWith_map_toLower, ih]

theorem map_toLower_replaceParams (text : List Char) :
    (replaceParams (text.map Char.toLower)).map Char.toLower = (replaceParams text).map Char.toLower := by
  induction text using param_induction with
  | nil => rfl
  | keep c text hparam ih =>
      have hparam' : startsParam (c.toLower :: text.map Char.toLower) = false := by
        simp only [startsParam, List.tail_cons, startsWith_map_toLower] at hparam ⊢
        simpa [startsWith, toLower_eq_dollar] using hparam
      rw [List.map_cons, replaceParams_cons hparam', replaceParams_cons hparam, List.map_cons, ih,
        toLower_toLower, List.map_cons]
  | param text hdigit ih =>
      have hdollar : ('$' : Char).toLower = '$' := rfl
      have hdrop : (text.map Char.toLower).dropWhile Char.isDigit =
          (text.dropWhile Char.isDigit).map Char.toLower := by
        rw [List.dropWhile_map]
        congr 2
        funext d
        exact isDigit_toLower d
      rw [List.map_cons, hdollar, replaceParams_param (by rw [startsWith_map_toLower, hdigit]), hdrop,
        replaceParams_param hdigit]
      simp [ih]

theorem munchWord_replaceParams (hc : c ≠ '$') (text : List Char) :
    munchWord c (replaceParams text) =
      (replacedKind (munchWord c text).1, replaceParams (munchWord c text).2) := by
  obtain ⟨htake, hdrop⟩ := passesParams_isWordChar.takeWhile text
  have hname := map_toLower_replaceParams (c :: text.takeWhile isWordChar)
  rw [replaceParams_cons (startsParam_of_ne hc)] at hname
  simp only [munchWord, replacedKind, replacedToken, hname, htake, hdrop]

theorem munchLetter_replaceParams (hc : c ≠ '$') (h : munchLetter c text = some (kind, rest)) :
    munchLetter c (replaceParams text) = some (replacedKind kind, replaceParams rest) := by
  have hword (h : some (munchWord c text) = some (kind, rest)) :
      some (munchWord c (replaceParams text)) = some (replacedKind kind, replaceParams rest) := by
    rw [munchWord_replaceParams hc, Option.some.inj h]
  have htail {x : Char} (hx : x ≠ '$') {text : List Char} (hstart : startsWith (· = x) text = true) :
      (replaceParams text).tail = replaceParams text.tail :=
    tail_replaceParams (startsParam_of_startsWith (by simpa using hx.symm) hstart)
  unfold munchLetter at h ⊢
  rw [startsWith_replaceParams (by decide), startsWith_replaceParams (by decide)]
  -- A quote behind the letter makes it the mark of a string, or leaves it a word.
  split at h
  · next hquote =>
      rw [if_pos hquote, htail (by decide) hquote]
      split at h
      · exact munchString_replaceParams h
      · split at h
        · next hnational =>
            obtain ⟨rfl, rfl⟩ := Prod.mk.inj (Option.some.inj h)
            rw [if_pos hnational]
            rfl
        · next hnational =>
            rw [if_neg hnational]
            exact hword h
  · next hquote =>
      rw [if_neg hquote]
      split at h
      · next hunicode =>
          have hand := (Bool.and_eq_true_iff.1 hunicode).2
          rw [if_pos hunicode, htail (by decide) hand, startsWith_replaceParams (by decide),
            startsWith_replaceParams (by decide)]
          split at h
          · next hsingle =>
              rw [if_pos hsingle, htail (by decide) hsingle]
              exact munchString_replaceParams h
          · next hsingle =>
              rw [if_neg hsingle]
              split at h
              · next hdouble =>
                  rw [if_pos hdouble, htail (by decide) hdouble]
                  exact munchIdent_replaceParams (fun _ => rfl) h
              · next hdouble =>
                  rw [if_neg hdouble]
                  exact hword h
      · next hunicode =>
          rw [if_neg hunicode]
          exact hword h

/-- A lone `$` stays one. -/
theorem munchDollar_replaceParams (hdigit : startsWith Char.isDigit text = false)
    (htag : startsWith (· = '$') (text.dropWhile isTagChar) = false) :
    munchDollar (replaceParams text) = some (.token (.other '$'), replaceParams text) := by
  have hparam : startsParam (text.dropWhile isTagChar) = false := by
    unfold startsParam
    rw [htag]
    rfl
  have hfree : '$' ∉ text.takeWhile isTagChar := fun hmem =>
    absurd (List.mem_takeWhile_imp hmem) (by decide)
  have hstop : startsWith isTagChar (replaceParams (text.dropWhile isTagChar)) = false := by
    rw [startsWith_replaceParams_of_not hparam]
    exact startsWith_dropWhile isTagChar text
  have hdrop : (replaceParams text).dropWhile isTagChar = replaceParams (text.dropWhile isTagChar) := by
    conv_lhs => rw [← List.takeWhile_append_dropWhile (p := isTagChar) (l := text)]
    rw [replaceParams_append_of_notMem hfree]
    exact dropWhile_append_stop (fun _ => List.mem_takeWhile_imp) hstop
  simp only [munchDollar, startsWith_replaceParams (by decide : Char.isDigit '$' = Char.isDigit 'N'), hdigit,
    hdrop, startsWith_replaceParams_of_not hparam, htag, Bool.false_eq_true, if_false]

theorem munchDot_replaceParams (h : munchDot text = some (kind, rest)) (hkind : IsPlainPiece kind) :
    munchDot (replaceParams text) = some (replacedKind kind, replaceParams rest) := by
  unfold munchDot at h ⊢
  rw [startsWith_replaceParams (by decide), startsWith_replaceParams (by decide)]
  split at h
  · next hpoint =>
      obtain ⟨rfl, rfl⟩ := Prod.mk.inj (Option.some.inj h)
      rw [if_pos hpoint, tail_replaceParams (startsParam_of_startsWith (by decide) hpoint)]
      rfl
  · next hpoint =>
      rw [if_neg hpoint]
      split at h
      · obtain ⟨after, -, heq⟩ := Option.map_eq_some_iff.1 h
        obtain ⟨rfl, -⟩ := Prod.mk.inj heq
        exact absurd hkind id
      · next hdigit =>
          obtain ⟨rfl, rfl⟩ := Prod.mk.inj (Option.some.inj h)
          rw [if_neg hdigit]
          rfl

theorem munchColon_replaceParams (text : List Char) :
    munchColon (replaceParams text) =
      (replacedKind (munchColon text).1, replaceParams (munchColon text).2) := by
  unfold munchColon
  rw [startsWith_replaceParams (by decide), startsWith_replaceParams (by decide)]
  split
  · next hcolon =>
      rw [tail_replaceParams (startsParam_of_startsWith (by decide) hcolon)]
      rfl
  · split
    · next hequals =>
        rw [tail_replaceParams (startsParam_of_startsWith (by decide) hequals)]
        rfl
    · rfl

theorem munchOperator_replaceParams (h : munchOperator c text = some (kind, rest)) :
    munchOperator c (replaceParams text) = some (replacedKind kind, replaceParams rest) := by
  unfold munchOperator at h ⊢
  rw [startsWith_replaceParams (by decide), startsWith_replaceParams (by decide)]
  split at h
  · next hline =>
      obtain ⟨rfl, rfl⟩ := Prod.mk.inj (Option.some.inj h)
      rw [if_pos hline, (passesParams_line.takeWhile text).2]
      rfl
  · next hline =>
      rw [if_neg hline]
      split at h
      · next hblock =>
          obtain ⟨after, hafter, heq⟩ := Option.map_eq_some_iff.1 h
          obtain ⟨rfl, rfl⟩ := Prod.mk.inj heq
          have hstar := (Bool.and_eq_true_iff.1 hblock).2
          rw [if_pos hblock, tail_replaceParams (startsParam_of_startsWith (by decide) hstar), replaceParams,
            skipBlock_replaceFrom hafter]
          rfl
      · next hblock =>
          obtain ⟨rfl, rfl⟩ := Prod.mk.inj (Option.some.inj h)
          have hsame : operatorOf c (replaceParams text) = operatorOf c text := by
            rw [operatorOf, (takeWhile_replaceParams (by decide) (by decide) text).1, operatorOf]
          obtain ⟨operator, hoperator, after, rfl⟩ := operatorOf_eq_cons hline hblock
          have hrun : operator <+: (operator ++ after).takeWhile isOperatorChar :=
            (List.prefix_cons_inj c).1 (hoperator ▸ operatorOf_isPrefix c (operator ++ after))
          have hfree : '$' ∉ operator := fun hmem =>
            absurd (List.mem_takeWhile_imp (hrun.subset hmem)) (by decide)
          rw [if_neg hblock, hsame, hoperator, replaceParams_append_of_notMem hfree]
          simp [replacedKind, replacedToken]

/-- All other pieces are the same, with the replacement done inside them. -/
theorem munch_replaceParams (h : munch pending (c :: text) = some (kind, rest)) (hkind : IsPlainPiece kind) :
    munch pending (replaceParams (c :: text)) = some (replacedKind kind, replaceParams rest) := by
  have hne (hc : classOf c ≠ .dollar) : c ≠ '$' := fun heq => hc (heq ▸ rfl)
  have hcons (hc : classOf c ≠ .dollar) : replaceParams (c :: text) = c :: replaceParams text :=
    replaceParams_cons (startsParam_of_ne (hne hc))
  cases hc : classOf c with
  -- Only a dollar can begin a match; any other character stays in front of what follows it.
  | dollar =>
      obtain rfl : c = '$' := dollar_of_class hc
      rw [munch, hc] at h
      unfold munchDollar munchParam at h
      dsimp only at h
      split at h
      · split at h
        · cases h
        · obtain ⟨rfl, -⟩ := Prod.mk.inj (Option.some.inj h)
          exact absurd hkind id
      · next hdigit =>
          split at h
          · obtain ⟨b, -, heq⟩ := Option.map_eq_some_iff.1 h
            obtain ⟨rfl, -⟩ := Prod.mk.inj heq
            exact absurd hkind id
          · -- A dollar with neither a digit nor a tag behind it.
            next htag =>
              obtain ⟨rfl, rfl⟩ := Prod.mk.inj (Option.some.inj h)
              have hparam : startsParam ('$' :: text) = false := by
                simpa [startsParam, startsWith] using hdigit
              rw [replaceParams_cons hparam, munch, hc]
              exact munchDollar_replaceParams (by simpa using hdigit) (by simpa using htag)
  | blank =>
      rw [hcons (by simp [hc])]
      rw [munch, hc] at h ⊢
      obtain ⟨rfl, rfl⟩ := Prod.mk.inj (Option.some.inj h)
      dsimp only
      rw [(takeWhile_replaceParams (by decide) (by decide) text).2]
      rfl
  | quote =>
      rw [hcons (by simp [hc])]
      rw [munch, hc] at h ⊢
      exact munchQuote_replaceParams h
  | doubleQuote =>
      rw [hcons (by simp [hc])]
      rw [munch, hc] at h ⊢
      exact munchIdent_replaceParams (fun _ => rfl) h
  | digit =>
      rw [munch, hc] at h
      obtain ⟨after, -, heq⟩ := Option.map_eq_some_iff.1 h
      obtain ⟨rfl, -⟩ := Prod.mk.inj heq
      exact absurd hkind id
  | dot =>
      rw [hcons (by simp [hc])]
      rw [munch, hc] at h ⊢
      exact munchDot_replaceParams h hkind
  | colon =>
      rw [hcons (by simp [hc])]
      rw [munch, hc] at h ⊢
      dsimp only at h ⊢
      rw [munchColon_replaceParams, Option.some.inj h]
  | punctuation =>
      rw [hcons (by simp [hc])]
      rw [munch, hc] at h ⊢
      obtain ⟨rfl, rfl⟩ := Prod.mk.inj (Option.some.inj h)
      rfl
  | operator =>
      rw [hcons (by simp [hc])]
      rw [munch, hc] at h ⊢
      exact munchOperator_replaceParams h
  | letter =>
      rw [hcons (by simp [hc])]
      rw [munch, hc] at h ⊢
      exact munchLetter_replaceParams (hne (by simp [hc])) h
  | other =>
      rw [hcons (by simp [hc])]
      rw [munch, hc] at h ⊢
      obtain ⟨rfl, rfl⟩ := Prod.mk.inj (Option.some.inj h)
      rfl

end Handler
end Pgaio
