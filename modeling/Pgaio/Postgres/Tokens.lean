import Pgaio.Postgres.Lexer

/-!
# Tokens — a whole text, piece by piece

`lexemes` cuts a text into pieces by `munch`, `none` where PostgreSQL reports an error; `Lexes` is the same
as a relation, which proofs go through by induction on the pieces.  `gather` makes tokens of the pieces:
what is written before the first token of a continued string, and the tokens.
-/

namespace Pgaio
namespace Postgres
namespace SQL

structure Lexeme where
  raw : List Char
  kind : Kind
  deriving DecidableEq

/-- Blanks and line comments leave a string open to be continued; any other piece ends it. -/
def Pending.after (pending : Pending) (l : Lexeme) : Pending :=
  match l.kind, pending with
  | .blank, .afterString kind broken => .afterString kind (broken || l.raw.any isLineBreak)
  | .lineComment, pending => pending
  | .string kind _, _ => .afterString kind false
  | .more _, .afterString kind _ => .afterString kind false
  | _, _ => .nothing

def lexWithin : Nat → Pending → List Char → Option (List Lexeme)
  | _, _, [] => some []
  | 0, _, _ :: _ => none
  | fuel + 1, pending, c :: text =>
      match munch pending (c :: text) with
      | none => none
      | some (kind, rest) =>
          let l : Lexeme := ⟨readBefore (c :: text) rest, kind⟩
          (lexWithin fuel (pending.after l) rest).map (l :: ·)

/-- Every piece takes a character, so the length of the text is enough. -/
def lexemes (pending : Pending) (text : List Char) : Option (List Lexeme) :=
  lexWithin text.length pending text

/-- What a piece adds to the string that it may continue and to the tokens. -/
def absorb : Kind → List Char × List Token → List Char × List Token
  | .blank, g => g
  | .lineComment, g => g
  | .blockComment, g => ([], g.2)
  | .string kind body, g => ([], .literal kind (body ++ g.1) :: g.2)
  | .more body, g => (body ++ g.1, g.2)
  | .token t, g => ([], t :: g.2)

def gather (ls : List Lexeme) : List Char × List Token :=
  ls.foldr (fun l g => absorb l.kind g) ([], [])

def lexFrom (pending : Pending) (text : List Char) : Option (List Char × List Token) :=
  (lexemes pending text).map gather

/-- The tokens of a text. -/
def lex (text : List Char) : Option (List Token) :=
  (lexFrom .nothing text).map Prod.snd

/-! ## The pieces as a relation -/

inductive Lexes : Pending → List Char → List Lexeme → Prop where
  | nil (pending : Pending) : Lexes pending [] []
  | cons {pending : Pending} {raw rest : List Char} {kind : Kind} {ls : List Lexeme} (hraw : raw ≠ [])
      (hmunch : munch pending (raw ++ rest) = some (kind, rest)) :
      Lexes (pending.after ⟨raw, kind⟩) rest ls → Lexes pending (raw ++ rest) (⟨raw, kind⟩ :: ls)

theorem lexWithin_of_lexes {pending : Pending} {text : List Char} {ls : List Lexeme}
    (h : Lexes pending text ls) {fuel : Nat} (hfuel : text.length ≤ fuel) :
    lexWithin fuel pending text = some ls := by
  induction h generalizing fuel with
  | nil pending => cases fuel <;> rfl
  | @cons pending raw rest kind ls hraw hmunch _ ih =>
      cases raw with
      | nil => exact absurd rfl hraw
      | cons c raw =>
          cases fuel with
          | zero => simp at hfuel
          | succ fuel =>
              have hread : readBefore (c :: (raw ++ rest)) rest = c :: raw :=
                readBefore_append_left (c :: raw) rest
              have hrest : rest.length ≤ fuel := by
                simp only [List.cons_append, List.length_cons, List.length_append] at hfuel
                omega
              rw [List.cons_append] at hmunch
              simp only [List.cons_append, lexWithin, hmunch, hread, ih hrest, Option.map_some]

theorem lexes_of_lexWithin {fuel : Nat} {pending : Pending} {text : List Char} {ls : List Lexeme}
    (h : lexWithin fuel pending text = some ls) : Lexes pending text ls := by
  induction fuel generalizing pending text ls with
  | zero =>
      cases text with
      | nil => exact Option.some.inj h ▸ .nil pending
      | cons c text => cases h
  | succ fuel ih =>
      cases text with
      | nil => exact Option.some.inj h ▸ .nil pending
      | cons c text =>
          simp only [lexWithin] at h
          split at h
          · cases h
          · next kind rest hmunch =>
              obtain ⟨ls', hls', rfl⟩ := Option.map_eq_some_iff.1 h
              obtain ⟨read, rfl⟩ := munch_suffix hmunch
              rw [← List.cons_append] at hmunch hls' ⊢
              rw [readBefore_append_left] at hls' ⊢
              exact .cons (List.cons_ne_nil c read) hmunch (ih hls')

theorem lexes_iff {pending : Pending} {text : List Char} {ls : List Lexeme} :
    Lexes pending text ls ↔ lexemes pending text = some ls :=
  ⟨fun h => lexWithin_of_lexes h (Nat.le_refl _), lexes_of_lexWithin⟩

/-- The pieces make up the text. -/
theorem Lexes.flatMap_raw {pending : Pending} {text : List Char} {ls : List Lexeme}
    (h : Lexes pending text ls) : ls.flatMap Lexeme.raw = text := by
  induction h with
  | nil => rfl
  | cons _ _ _ ih => rw [List.flatMap_cons, ih]

/-! ## Reading on -/

section

variable {pending : Pending} {raw rest text : List Char} {kind : Kind}

@[simp] theorem lexFrom_nil (pending : Pending) : lexFrom pending [] = some ([], []) := rfl

theorem lexemes_step (hraw : raw ≠ []) (hmunch : munch pending (raw ++ rest) = some (kind, rest)) :
    lexemes pending (raw ++ rest) = (lexemes (pending.after ⟨raw, kind⟩) rest).map (⟨raw, kind⟩ :: ·) := by
  cases hrest : lexemes (pending.after ⟨raw, kind⟩) rest with
  | some ls => exact lexes_iff.1 (.cons hraw hmunch (lexes_iff.2 hrest))
  | none =>
      rw [Option.map_none, Option.eq_none_iff_forall_ne_some]
      intro ls hls
      generalize htext : raw ++ rest = text at hmunch hls
      cases lexes_iff.2 hls with
      | nil => exact hraw (List.append_eq_nil_iff.1 htext).1
      | @cons _ raw' rest' kind' ls' hraw' hmunch' hls' =>
          obtain ⟨rfl, rfl⟩ := Prod.mk.inj (Option.some.inj (hmunch.symm.trans hmunch'))
          obtain rfl := List.append_cancel_right htext
          rw [lexes_iff, hrest] at hls'
          cases hls'

/-- What the text at the front of a piece reads as, the rest apart. -/
theorem lexFrom_step (hraw : raw ≠ []) (hmunch : munch pending (raw ++ rest) = some (kind, rest)) :
    lexFrom pending (raw ++ rest) =
      (lexFrom (pending.after ⟨raw, kind⟩) rest).map (absorb kind) := by
  rw [lexFrom, lexemes_step hraw hmunch, lexFrom, Option.map_map, Option.map_map]
  rfl

/-- The step of a text that begins with a character. -/
theorem lexFrom_cons {c : Char} (hmunch : munch pending (c :: text) = some (kind, rest)) :
    lexFrom pending (c :: text) =
      (lexFrom (pending.after ⟨readBefore (c :: text) rest, kind⟩) rest).map (absorb kind) := by
  obtain ⟨read, rfl⟩ := munch_suffix hmunch
  rw [← List.cons_append] at hmunch ⊢
  rw [lexFrom_step (List.cons_ne_nil c read) hmunch, readBefore_append_left]

theorem lexFrom_of_munch_none {c : Char} (hmunch : munch pending (c :: text) = none) :
    lexFrom pending (c :: text) = none := by
  rw [lexFrom, lexemes, List.length_cons, lexWithin, hmunch, Option.map_none]

/-- Behind a token no string waits to be continued. -/
theorem lexFrom_token {t : Token} (hraw : raw ≠ [])
    (hmunch : munch pending (raw ++ rest) = some (.token t, rest)) :
    lexFrom pending (raw ++ rest) = (lexFrom .nothing rest).map fun g => ([], t :: g.2) := by
  rw [lexFrom_step hraw hmunch]
  cases pending <;> rfl

theorem munch_blank {c : Char} (hc : isBlank c = true) :
    munch pending (c :: text) = some (.blank, text.dropWhile isBlank) := by
  simp [munch, classOf, hc]

theorem lexFrom_dropBlanks (text : List Char) :
    lexFrom .nothing (text.dropWhile isBlank) = lexFrom .nothing text := by
  cases text with
  | nil => rfl
  | cons c text =>
      by_cases hc : isBlank c = true
      · rw [List.dropWhile_cons_of_pos hc, lexFrom_cons (munch_blank hc)]
        exact Option.map_id'.symm
      · rw [List.dropWhile_cons_of_neg hc]

theorem lexFrom_blank {c : Char} (hc : isBlank c = true) (text : List Char) :
    lexFrom .nothing (c :: text) = lexFrom .nothing text := by
  rw [← lexFrom_dropBlanks (c :: text), List.dropWhile_cons_of_pos hc, lexFrom_dropBlanks]

end

/-- The text of an unquoted name. -/
def isName : List Char → Bool
  | [] => false
  | c :: w => isLetter c && w.all isWordChar

/-! ## Tokens from the front -/

section

variable {raw rest text : List Char}

@[simp] theorem lex_nil : lex [] = some [] := rfl

theorem lex_token {t : Token} (hraw : raw ≠ [])
    (hmunch : munch .nothing (raw ++ rest) = some (.token t, rest)) :
    lex (raw ++ rest) = (lex rest).map (t :: ·) := by
  rw [lex, lexFrom_token hraw hmunch, lex, Option.map_map, Option.map_map]
  rfl

theorem lex_blank {c : Char} (hc : isBlank c = true) (text : List Char) :
    lex (c :: text) = lex text := by
  rw [lex, lexFrom_blank hc, lex]

/-- A comment ends at the end of its line. -/
theorem lex_lineComment (text : List Char) :
    lex ('-' :: '-' :: text) = lex (text.dropWhile (!isLineBreak ·)) := by
  have hmunch : munch .nothing ('-' :: '-' :: text) =
      some (.lineComment, text.dropWhile (!isLineBreak ·)) := rfl
  rw [lex, lexFrom_cons hmunch, lex]
  exact congrArg (Option.map Prod.snd) Option.map_id'

/-- A block comment ends where its last level is closed. -/
theorem lex_blockComment (text : List Char) :
    lex ('/' :: '*' :: text) = (skipBlock 0 text).bind lex := by
  have hmunch : munch .nothing ('/' :: '*' :: text) =
      (skipBlock 0 text).map fun after => (.blockComment, after) := rfl
  cases hskip : skipBlock 0 text with
  | none =>
      rw [hskip] at hmunch
      rw [lex, lexFrom_of_munch_none hmunch]
      rfl
  | some rest =>
      rw [hskip] at hmunch
      rw [lex, lexFrom_cons hmunch, Option.bind_some, lex, Option.map_map]
      rfl

theorem lex_punctuation {c : Char} (hc : classOf c = .punctuation) (text : List Char) :
    lex (c :: text) = (lex text).map (.symbol [c] :: ·) := by
  have hmunch : munch .nothing ([c] ++ text) = some (.token (.symbol [c]), text) := by
    simp only [List.singleton_append, munch, hc]
  exact lex_token (List.cons_ne_nil c []) hmunch

theorem munch_word (pending : Pending) {c : Char} {w : List Char} (hc : classOf c = .letter)
    (hw : ∀ x ∈ w, isWordChar x = true) (hrest : startsWith isWordChar rest = false)
    (hplain : startsWith (fun x => x = '\'' || x = '&') (w ++ rest) = false) :
    munch pending (c :: w ++ rest) = some (.token (.word ((c :: w).map Char.toLower)), rest) := by
  have hword : munchLetter c (w ++ rest) = some (munchWord c (w ++ rest)) := by
    have hquote : startsWith (· = '\'') (w ++ rest) = false :=
      startsWith_of_imp (fun c hc => by simpa using .inl (by simpa using hc)) hplain
    have hand : startsWith (· = '&') (w ++ rest) = false :=
      startsWith_of_imp (fun c hc => by simpa using .inr (by simpa using hc)) hplain
    simp [munchLetter, hquote, hand]
  simp only [List.cons_append, munch, hc, hword, munchWord, takeWhile_append_stop hw hrest,
    dropWhile_append_stop hw hrest]

/-- No quoted piece begins with a word that goes on or has a blank behind it. -/
theorem not_quoted_of_word {w : List Char} (hw : ∀ x ∈ w, isWordChar x = true)
    (hrest : startsWith (fun x => x = '\'' || x = '&') rest = false) :
    startsWith (fun x => x = '\'' || x = '&') (w ++ rest) = false := by
  cases w with
  | nil => exact hrest
  | cons x w =>
      have hx : isWordChar x = true := hw x List.mem_cons_self
      have hquote : x ≠ '\'' := fun h => absurd (h ▸ hx) (by decide)
      have hand : x ≠ '&' := fun h => absurd (h ▸ hx) (by decide)
      simp [startsWith, hquote, hand]

theorem of_isBlank {p : Char → Bool} {c : Char} (hc : isBlank c = true)
    (h : [' ', '\t', '\n', '\r', '\x0b', '\x0c'].any p = false) : p c = false := by
  have hmem : c ∈ [' ', '\t', '\n', '\r', '\x0b', '\x0c'] := by
    simpa [isBlank, or_assoc] using hc
  exact Bool.eq_false_iff.2 (List.any_eq_false.1 h c hmem)

/-- An operator of one character. -/
theorem munch_operator {pending : Pending} {c d : Char} (hc : classOf c = .operator)
    (hd : isOperatorChar d = false) (text : List Char) :
    munch pending (c :: d :: text) = some (.token (.symbol [c]), d :: text) := by
  have hsign : d ≠ '-' ∧ d ≠ '*' :=
    ⟨fun h => absurd (h ▸ hd) (by decide), fun h => absurd (h ▸ hd) (by decide)⟩
  have hoperator : operatorOf c (d :: text) = [c] := by
    rw [operatorOf, List.takeWhile_cons_of_neg (by simp [hd])]
    simp [beforeComment, withoutSigns]
  simp [munch, hc, munchOperator, startsWith, hsign, hoperator]

theorem not_letter_of_digit {c : Char} (hc : c.isDigit = true) : isLetter c = false := by
  obtain ⟨hlow, hhigh⟩ := Char.isDigit_iff_toNat.1 hc
  have hnine : '9'.toNat = 57 := rfl
  have hupper : ¬ c.isUpper = true := fun h => absurd (hhigh.trans' (isUpper_iff_toNat.1 h).1) (by decide)
  have hlower : ¬ c.isLower = true := fun h => absurd (hhigh.trans' (isLower_iff_toNat.1 h).1) (by decide)
  have hunderscore : c ≠ '_' := fun h => absurd (h ▸ hc) (by decide)
  have hascii : ¬ 128 ≤ c.toNat := by omega
  simp [isLetter, isAlpha_eq, hupper, hlower, hunderscore, hascii]

theorem class_of_letter {c : Char} (hc : isLetter c = true) : classOf c = .letter := by
  have hnot {l : List Char} (hl : l.any isLetter = false) : c ∉ l :=
    fun hmem => List.any_eq_false.1 hl c hmem hc
  have hsigns : c ∉ ['\'', '"', '$', '.', ':'] := hnot (by decide)
  have hpunctuation : isPunctuation c = false := by
    rw [isPunctuation, List.contains_eq_mem, decide_eq_false (hnot (by decide))]
  have hoperator : isOperatorChar c = false := by
    rw [isOperatorChar, List.contains_eq_mem, decide_eq_false (hnot (by decide))]
  have hblank : isBlank c = false := by
    by_contra h
    exact absurd hc (by simp [of_isBlank (p := isLetter) (by simpa using h) (by decide)])
  have hdigit : c.isDigit = false := by
    by_contra h
    exact absurd hc (by simp [not_letter_of_digit (by simpa using h)])
  simp only [List.mem_cons, List.not_mem_nil, or_false, not_or] at hsigns
  obtain ⟨hquote, hdouble, hdollar, hdot, hcolon⟩ := hsigns
  simp [classOf, hblank, hquote, hdouble, hdollar, hdigit, hdot, hcolon, hpunctuation, hoperator, hc]

/-- A word ends before a character that can be no part of it. -/
theorem lex_word {name : List Char} {d : Char} (hname : isName name = true) (hd : isWordChar d = false)
    (hquote : (d = '\'' || d = '&' : Bool) = false) (text : List Char) :
    lex (name ++ d :: text) = (lex (d :: text)).map (.word (name.map Char.toLower) :: ·) := by
  obtain ⟨c, w, rfl⟩ : ∃ c w, name = c :: w := by
    cases name with
    | nil => cases hname
    | cons c w => exact ⟨c, w, rfl⟩
  obtain ⟨hc, hw⟩ : isLetter c = true ∧ ∀ x ∈ w, isWordChar x = true := by simpa [isName] using hname
  have hmunch : munch .nothing (c :: w ++ d :: text) =
      some (.token (.word ((c :: w).map Char.toLower)), d :: text) :=
    munch_word .nothing (class_of_letter hc) hw hd (not_quoted_of_word hw hquote)
  rw [lex_token (List.cons_ne_nil c w) hmunch]

/-- A word and a blank behind it. -/
theorem lex_word_blank {name : List Char} {d : Char} (hname : isName name = true) (hd : isBlank d = true)
    (text : List Char) :
    lex (name ++ d :: text) = (lex text).map (.word (name.map Char.toLower) :: ·) := by
  have hend : isWordChar d = false := of_isBlank hd (by decide)
  have hquote : (d = '\'' || d = '&' : Bool) = false :=
    of_isBlank (p := fun x => x = '\'' || x = '&') hd (by decide)
  rw [lex_word hname hend hquote, lex_blank hd]

/-- A word that is the whole text. -/
theorem lex_name {name : List Char} (hname : isName name = true) :
    lex name = some [.word (name.map Char.toLower)] := by
  obtain ⟨c, w, rfl⟩ : ∃ c w, name = c :: w := by
    cases name with
    | nil => cases hname
    | cons c w => exact ⟨c, w, rfl⟩
  obtain ⟨hc, hw⟩ : isLetter c = true ∧ ∀ x ∈ w, isWordChar x = true := by simpa [isName] using hname
  have hmunch : munch .nothing (c :: w ++ []) = some (.token (.word ((c :: w).map Char.toLower)), []) :=
    munch_word .nothing (class_of_letter hc) hw rfl (not_quoted_of_word hw rfl)
  have hlex := lex_token (List.cons_ne_nil c w) hmunch
  rwa [List.append_nil, lex_nil, Option.map_some] at hlex

/-- Words with blanks behind them. -/
theorem lex_words {names : List (List Char)} (hnames : names.all isName = true) (text : List Char) :
    lex (names.flatMap (· ++ [' ']) ++ text) =
      (lex text).map (names.map (fun name => .word (name.map Char.toLower)) ++ ·) := by
  induction names with
  | nil => exact Option.map_id'.symm
  | cons name names ih =>
      obtain ⟨hname, hnames⟩ := Bool.and_eq_true_iff.1 (List.all_cons ▸ hnames)
      rw [List.flatMap_cons, List.append_assoc, List.append_assoc, List.singleton_append,
        lex_word_blank hname (by decide), ih hnames, Option.map_map]
      rfl

end

/-! ## What a piece can be -/

section

variable {pending : Pending} {c : Char} {text rest : List Char} {kind : Kind}

theorem dot_of_class (hc : classOf c = .dot) : c = '.' := by
  by_contra hne
  unfold classOf at hc
  grind

theorem dollar_of_class (hc : classOf c = .dollar) : c = '$' := by
  by_contra hne
  unfold classOf at hc
  grind

theorem colon_of_class (hc : classOf c = .colon) : c = ':' := by
  by_contra hne
  unfold classOf at hc
  grind

theorem isBlank_of_class (hc : classOf c = .blank) : isBlank c = true := by
  by_contra hne
  unfold classOf at hc
  grind

theorem quote_of_class (hc : classOf c = .quote) : c = '\'' := by
  by_contra hne
  unfold classOf at hc
  grind

theorem doubleQuote_of_class (hc : classOf c = .doubleQuote) : c = '"' := by
  by_contra hne
  unfold classOf at hc
  grind

theorem letter_of_class (hc : classOf c = .letter) : isLetter c = true := by
  by_contra hne
  unfold classOf at hc
  grind

/-- A folded name. -/
def IsWord (name : List Char) : Prop :=
  isName name = true ∧ name.map Char.toLower = name

/-- What the text is in front of which a piece of this kind is read. -/
def Kind.From (c : Char) (text rest : List Char) : Kind → Prop
  | .blank => isBlank c = true ∧ rest = text.dropWhile isBlank
  | .lineComment => c = '-' ∧ startsWith (· = '-') text = true ∧ rest = text.dropWhile (!isLineBreak ·)
  | .blockComment => c = '/' ∧ startsWith (· = '*') text = true ∧ skipBlock 0 text.tail = some rest
  | .string kind body => ∃ t, t <:+ text ∧ scanString kind t = some (body, rest)
  | .more body => c = '\'' ∧ ∃ kind, scanString kind text = some (body, rest)
  | .token (.word name) => IsWord name
  | .token (.quotedIdent name) => c = '"' ∧ scanIdent text = some (name, rest)
  | .token (.symbol spelling) => spelling.head? = some c
  | .token (.param _) => c = '$'
  | .token (.literal _ _) => c = '$'
  | .token (.number _) => classOf c = .digit ∨ classOf c = .dot
  | .token _ => True

theorem munchString_from {k : StringKind} {t : List Char} (ht : t <:+ text)
    (h : munchString k t = some (kind, rest)) : kind.From c text rest := by
  obtain ⟨b, hb, heq⟩ := Option.map_eq_some_iff.1 h
  obtain ⟨rfl, rfl⟩ := Prod.mk.inj heq
  exact ⟨t, ht, hb⟩

theorem toLower_of_not_upper {c : Char} (h : ¬ c.isUpper = true) : c.toLower = c := by
  unfold Char.toLower
  exact dif_neg (fun hrange => h (decide_eq_true hrange))

theorem toNat_toLower {c : Char} (h : c.isUpper = true) :
    97 ≤ c.toLower.toNat ∧ c.toLower.toNat ≤ 122 := by
  have hrange : 65 ≤ c.toNat ∧ c.toNat ≤ 90 := isUpper_iff_toNat.1 h
  have hdistance : ('a'.val - 'A'.val).toNat = 32 := rfl
  unfold Char.toLower
  rw [dif_pos (of_decide_eq_true h)]
  simp only [Char.toNat, UInt32.toNat_add] at hrange ⊢
  omega

theorem isLower_toLower {c : Char} (h : c.isUpper = true) : c.toLower.isLower = true :=
  isLower_iff_toNat.2 (toNat_toLower h)

theorem toLower_toLower (c : Char) : c.toLower.toLower = c.toLower := by
  by_cases hc : c.isUpper = true
  · have hrange := toNat_toLower hc
    have hupper : 'Z'.toNat = 90 := rfl
    refine toLower_of_not_upper fun h => ?_
    have := (isUpper_iff_toNat.1 h).2
    omega
  · rw [toLower_of_not_upper hc, toLower_of_not_upper hc]

theorem isLetter_toLower (c : Char) : isLetter c.toLower = isLetter c := by
  by_cases hc : c.isUpper = true
  · simp [isLetter, isAlpha_eq, hc, isLower_toLower hc]
  · rw [toLower_of_not_upper hc]

theorem isWordChar_toLower (c : Char) : isWordChar c.toLower = isWordChar c := by
  by_cases hc : c.isUpper = true
  · simp [isWordChar, isTagChar, isLetter, isAlpha_eq, hc, isLower_toLower hc]
  · rw [toLower_of_not_upper hc]

theorem munchWord_from (hc : classOf c = .letter) (h : some (munchWord c text) = some (kind, rest)) :
    kind.From c text rest := by
  obtain ⟨rfl, -⟩ := Prod.mk.inj (Option.some.inj h)
  have hw : ∀ x ∈ text.takeWhile isWordChar, isWordChar x = true := fun _ => List.mem_takeWhile_imp
  constructor
  · simpa [isName, isLetter_toLower, isWordChar_toLower, letter_of_class hc] using hw
  · simp only [List.map_cons, List.map_map, Function.comp_def, toLower_toLower]

theorem munchIdent_from (make : List Char → Token) {t : List Char}
    (hmake : ∀ name, scanIdent t = some (name, rest) → (Kind.token (make name)).From c text rest)
    (h : munchIdent make t = some (kind, rest)) : kind.From c text rest := by
  unfold munchIdent at h
  split at h
  · next hscan =>
      obtain ⟨rfl, rfl⟩ := Prod.mk.inj (Option.some.inj h)
      exact hmake _ hscan
  · cases h

theorem munchLetter_from (hc : classOf c = .letter) (h : munchLetter c text = some (kind, rest)) :
    kind.From c text rest := by
  unfold munchLetter at h
  split at h
  · split at h
    · exact munchString_from (List.tail_suffix text) h
    · split at h
      · obtain ⟨rfl, -⟩ := Prod.mk.inj (Option.some.inj h)
        exact ⟨by decide, by decide⟩
      · exact munchWord_from hc h
  · split at h
    · split at h
      · exact munchString_from ((List.tail_suffix _).trans (List.tail_suffix text)) h
      · split at h
        · exact munchIdent_from .unicodeIdent (fun _ _ => trivial) h
        · exact munchWord_from hc h
    · exact munchWord_from hc h

theorem munchQuote_from (hc : c = '\'') (h : munchQuote pending text = some (kind, rest)) :
    kind.From c text rest := by
  unfold munchQuote at h
  split at h
  · next k =>
      obtain ⟨b, hb, heq⟩ := Option.map_eq_some_iff.1 h
      obtain ⟨rfl, rfl⟩ := Prod.mk.inj heq
      exact ⟨hc, k, hb⟩
  · exact munchString_from (List.suffix_refl text) h

theorem munchDollar_from (hc : c = '$') (h : munchDollar text = some (kind, rest)) :
    kind.From c text rest := by
  unfold munchDollar at h
  split at h
  · unfold munchParam at h
    split at h
    · cases h
    · obtain ⟨rfl, -⟩ := Prod.mk.inj (Option.some.inj h)
      exact hc
  · split at h
    · obtain ⟨b, -, heq⟩ := Option.map_eq_some_iff.1 h
      obtain ⟨rfl, -⟩ := Prod.mk.inj heq
      exact hc
    · obtain ⟨rfl, -⟩ := Prod.mk.inj (Option.some.inj h)
      exact trivial

theorem munchDot_from (hc : c = '.') (h : munchDot text = some (kind, rest)) : kind.From c text rest := by
  subst hc
  unfold munchDot at h
  split at h
  · obtain ⟨rfl, -⟩ := Prod.mk.inj (Option.some.inj h)
    rfl
  · split at h
    · obtain ⟨after, -, heq⟩ := Option.map_eq_some_iff.1 h
      obtain ⟨rfl, -⟩ := Prod.mk.inj heq
      exact .inr (by decide)
    · obtain ⟨rfl, -⟩ := Prod.mk.inj (Option.some.inj h)
      rfl

theorem munchColon_from (hc : c = ':') (h : some (munchColon text) = some (kind, rest)) :
    kind.From c text rest := by
  subst hc
  unfold munchColon at h
  split at h
  · obtain ⟨rfl, -⟩ := Prod.mk.inj (Option.some.inj h)
    rfl
  · split at h
    all_goals
      obtain ⟨rfl, -⟩ := Prod.mk.inj (Option.some.inj h)
      rfl

theorem munchOperator_from (h : munchOperator c text = some (kind, rest)) : kind.From c text rest := by
  unfold munchOperator at h
  split at h
  · next hline =>
      obtain ⟨rfl, rfl⟩ := Prod.mk.inj (Option.some.inj h)
      obtain ⟨rfl, htext⟩ : c = '-' ∧ startsWith (· = '-') text = true := by simpa using hline
      exact ⟨rfl, htext, rfl⟩
  · next hline =>
      split at h
      · next hblock =>
          obtain ⟨after, hafter, heq⟩ := Option.map_eq_some_iff.1 h
          obtain ⟨rfl, rfl⟩ := Prod.mk.inj heq
          obtain ⟨rfl, htext⟩ : c = '/' ∧ startsWith (· = '*') text = true := by simpa using hblock
          exact ⟨rfl, htext, hafter⟩
      · next hblock =>
          obtain ⟨operator, hoperator, -⟩ := operatorOf_eq_cons hline hblock
          obtain ⟨rfl, -⟩ := Prod.mk.inj (Option.some.inj h)
          exact congrArg List.head? hoperator

theorem munch_from (h : munch pending (c :: text) = some (kind, rest)) : kind.From c text rest := by
  cases hc : classOf c with
  | blank =>
      rw [munch, hc] at h
      obtain ⟨rfl, rfl⟩ := Prod.mk.inj (Option.some.inj h)
      exact ⟨isBlank_of_class hc, rfl⟩
  | quote => exact munchQuote_from (quote_of_class hc) (by rwa [munch, hc] at h)
  | doubleQuote =>
      rw [munch, hc] at h
      exact munchIdent_from .quotedIdent (fun _ hscan => ⟨doubleQuote_of_class hc, hscan⟩) h
  | dollar => exact munchDollar_from (dollar_of_class hc) (by rwa [munch, hc] at h)
  | digit =>
      rw [munch, hc] at h
      obtain ⟨after, -, heq⟩ := Option.map_eq_some_iff.1 h
      obtain ⟨rfl, -⟩ := Prod.mk.inj heq
      exact .inl hc
  | dot => exact munchDot_from (dot_of_class hc) (by rwa [munch, hc] at h)
  | colon => exact munchColon_from (colon_of_class hc) (by rwa [munch, hc] at h)
  | punctuation =>
      rw [munch, hc] at h
      obtain ⟨rfl, -⟩ := Prod.mk.inj (Option.some.inj h)
      rfl
  | operator => exact munchOperator_from (by rwa [munch, hc] at h)
  | letter => exact munchLetter_from hc (by rwa [munch, hc] at h)
  | other =>
      rw [munch, hc] at h
      obtain ⟨rfl, -⟩ := Prod.mk.inj (Option.some.inj h)
      exact trivial

/-- Where no string has ended, none is continued. -/
theorem munch_nothing_ne_more {body : List Char} : munch .nothing (c :: text) ≠ some (.more body, rest) := by
  intro h
  obtain ⟨rfl, -⟩ := munch_from h
  have hstring : munch .nothing ('\'' :: text) = munchString .plain text := rfl
  rw [hstring] at h
  obtain ⟨b, -, heq⟩ := Option.map_eq_some_iff.1 h
  cases (Prod.mk.inj heq).1

theorem Lexes.more_nil {ls : List Lexeme} (h : Lexes pending text ls) (hpending : pending = .nothing) :
    (gather ls).1 = [] := by
  induction h with
  | nil => rfl
  | @cons pending raw rest kind ls hraw hmunch _ ih =>
      subst hpending
      cases kind with
      | blank | lineComment => exact ih rfl
      | blockComment | string | token => rfl
      | more body =>
          obtain ⟨c, raw, rfl⟩ := List.exists_cons_of_ne_nil hraw
          exact absurd hmunch munch_nothing_ne_more

theorem more_nil_of_lexFrom {g : List Char × List Token} (h : lexFrom .nothing text = some g) : g.1 = [] := by
  obtain ⟨ls, hls, rfl⟩ := Option.map_eq_some_iff.1 h
  exact (lexes_iff.2 hls).more_nil rfl

theorem lex_eq_some_iff {ts : List Token} : lex text = some ts ↔ lexFrom .nothing text = some ([], ts) := by
  rw [lex, Option.map_eq_some_iff]
  constructor
  · rintro ⟨⟨more, ts⟩, hg, rfl⟩
    obtain rfl : more = [] := more_nil_of_lexFrom hg
    exact hg
  · exact fun h => ⟨_, h, rfl⟩

/-- A quoted piece is longer than what it says. -/
theorem length_scanBody {q : Char} {doubles escapes : Bool} {raw rest body : List Char}
    (h : scanBody q doubles escapes (raw ++ rest) = some (body, rest)) : body.length < raw.length := by
  obtain ⟨written, htext, hbody, -⟩ := scanBody_eq_some h
  have hraw : raw = written ++ [q] :=
    List.append_cancel_right (htext.trans (List.append_cons written q rest))
  have hle := hbody.length_le
  rw [hraw, List.length_append, List.length_singleton]
  omega

/-- What continues a string is shorter than its text by a character for each piece at least. -/
theorem Lexes.length_more {ls : List Lexeme} (h : Lexes pending text ls) :
    (gather ls).1.length + ls.length ≤ text.length := by
  induction h with
  | nil => exact Nat.le_refl 0
  | @cons pending raw rest kind ls hraw hmunch _ ih =>
      cases raw with
      | nil => exact absurd rfl hraw
      | cons c raw =>
          have hfrom : kind.From c (raw ++ rest) rest := munch_from hmunch
          cases kind with
          | more body =>
              obtain ⟨-, k, hscan⟩ := hfrom
              have hlt := length_scanBody hscan
              simp only [gather, List.foldr_cons, absorb, List.length_append, List.length_cons] at ih ⊢
              omega
          | blank | lineComment | blockComment | string | token =>
              simp only [gather, List.foldr_cons, absorb, List.length_append, List.length_cons,
                List.length_nil] at ih ⊢
              omega

/-- A token that is no string is read as one piece. -/
theorem Lexes.of_mem_gather {ls : List Lexeme} {t : Token} (h : Lexes pending text ls)
    (ht : t ∈ (gather ls).2) (hstring : ∀ kind body, t ≠ .literal kind body) :
    ∃ pending' c raw rest, munch pending' (c :: raw ++ rest) = some (.token t, rest) ∧
      (c :: raw).length + rest.length ≤ text.length := by
  induction h with
  | nil => cases ht
  | @cons pending raw rest kind ls hraw hmunch _ ih =>
      have hrest (ht : t ∈ (gather ls).2) : ∃ pending' c raw' rest',
          munch pending' (c :: raw' ++ rest') = some (.token t, rest') ∧
            (c :: raw').length + rest'.length ≤ (raw ++ rest).length := by
        obtain ⟨pending', c, raw', rest', hmunch', hle⟩ := ih ht
        exact ⟨pending', c, raw', rest', hmunch', by rw [List.length_append]; omega⟩
      have hhead (hkind : kind = .token t) : ∃ pending' c raw' rest',
          munch pending' (c :: raw' ++ rest') = some (.token t, rest') ∧
            (c :: raw').length + rest'.length ≤ (raw ++ rest).length := by
        obtain ⟨c, raw, rfl⟩ := List.exists_cons_of_ne_nil hraw
        exact ⟨pending, c, raw, rest, hkind ▸ hmunch, by rw [List.length_append]⟩
      -- The token is that of the first piece, or it comes from the others.
      cases kind with
      | blank | lineComment | blockComment | more => exact hrest ht
      | string k body =>
          rcases List.mem_cons.1 ht with heq | ht
          · exact absurd heq (hstring k _)
          · exact hrest ht
      | token t' =>
          rcases List.mem_cons.1 ht with rfl | ht
          · exact hhead rfl
          · exact hrest ht

theorem isWord_of_mem {ls : List Lexeme} {name : List Char} (h : Lexes pending text ls)
    (hname : .word name ∈ (gather ls).2) : IsWord name := by
  obtain ⟨_, _, _, _, hmunch, -⟩ := h.of_mem_gather hname (fun _ _ => Token.noConfusion)
  exact munch_from hmunch

theorem length_quotedIdent_of_mem {ls : List Lexeme} {name : List Char} (h : Lexes pending text ls)
    (hname : .quotedIdent name ∈ (gather ls).2) : name.length + 2 ≤ text.length := by
  obtain ⟨_, c, raw, rest, hmunch, hle⟩ := h.of_mem_gather hname (fun _ _ => Token.noConfusion)
  obtain ⟨-, hscan⟩ := munch_from hmunch
  have hlt := length_scanBody hscan
  rw [List.length_cons] at hle
  omega

end

/-! ## A text put between quotes -/

section

variable {value text : List Char}

theorem lex_quote (text : List Char) :
    lex ('\'' :: text) =
      (scanString .plain text).bind fun b =>
        (lexFrom (.afterString .plain false) b.2).map fun g => .literal .plain (b.1 ++ g.1) :: g.2 := by
  have hmunch : munch .nothing ('\'' :: text) =
      (scanString .plain text).map fun b => (.string .plain b.1, b.2) := rfl
  cases hscan : scanString .plain text with
  | none =>
      rw [hscan] at hmunch
      rw [lex, lexFrom_of_munch_none hmunch]
      rfl
  | some b =>
      rw [hscan] at hmunch
      rw [lex, lexFrom_cons hmunch, Option.map_map]
      rfl

/-- A quote makes a literal, or an error. -/
theorem eq_literal_of_lex_quote {ts : List Token} (h : lex ('\'' :: text) = some ts) :
    ∃ body others, ts = .literal .plain body :: others := by
  rw [lex_quote, Option.bind_eq_some_iff] at h
  obtain ⟨b, -, h⟩ := h
  obtain ⟨g, -, rfl⟩ := Option.map_eq_some_iff.1 h
  exact ⟨_, _, rfl⟩

theorem lex_literal (h : '\'' ∉ value) : lex ('\'' :: (value ++ ['\''])) = some [.literal .plain value] := by
  have hscan : scanString .plain (value ++ ['\'']) = some (value, []) :=
    (body_of_notMem h).scan fun _ => rfl
  simp [lex_quote, hscan]

/-- It is read back only if it has no quote: otherwise the strings that are read are shorter. -/
theorem notMem_of_lex_literal {ts : List Token}
    (h : lex ('\'' :: (value ++ ['\''])) = some (.literal .plain value :: ts)) : '\'' ∉ value := by
  rw [lex_quote, Option.bind_eq_some_iff] at h
  obtain ⟨⟨body, rest⟩, hscan, h⟩ := h
  obtain ⟨⟨more, ts'⟩, hrest, heq⟩ := Option.map_eq_some_iff.1 h
  obtain ⟨ls, hls, hgather⟩ := Option.map_eq_some_iff.1 hrest
  obtain ⟨written, htext, hbody, -⟩ := scanBody_eq_some hscan
  have hvalue : body ++ more = value := by simpa using (List.cons.inj heq).1
  have hmore : more.length + ls.length ≤ rest.length := by
    simpa [hgather] using (lexes_iff.2 hls).length_more
  have hlength := congrArg List.length htext
  have hsum := congrArg List.length hvalue
  have hle := hbody.length_le
  simp only [List.length_append, List.length_cons, List.length_nil] at hlength hsum
  have hnil : ls = [] := List.length_eq_zero_iff.1 (by omega)
  have hempty : more = [] := by simpa [hnil, gather] using congrArg Prod.fst hgather.symm
  rw [hempty, List.append_nil] at hvalue
  exact hvalue ▸ (hbody.eq_of_length rfl (by rw [hempty, List.length_nil] at hsum; omega)).2

theorem lex_doubleQuote (text : List Char) :
    lex ('"' :: text) =
      (scanIdent text).bind fun b =>
        if b.1 = [] then none else (lex b.2).map (.quotedIdent b.1 :: ·) := by
  have hmunch : munch .nothing ('"' :: text) = munchIdent .quotedIdent text := rfl
  cases hscan : scanIdent text with
  | none =>
      simp only [munchIdent, hscan] at hmunch
      rw [lex, lexFrom_of_munch_none hmunch]
      rfl
  | some b =>
      obtain ⟨name, rest⟩ := b
      cases name with
      | nil =>
          simp only [munchIdent, hscan] at hmunch
          rw [lex, lexFrom_of_munch_none hmunch]
          rfl
      | cons c name =>
          simp only [munchIdent, hscan] at hmunch
          rw [lex, lexFrom_cons hmunch, Option.map_map, Option.bind_some, if_neg (List.cons_ne_nil c name),
            lex, Option.map_map]
          rfl

/-- A name is read back from how it is written between double quotes. -/
theorem lex_quotedIdent {written name rest : List Char} (hbody : Body '"' true false written name)
    (hname : name ≠ []) (hrest : startsWith (· = '"') rest = false) :
    lex ('"' :: (written ++ '"' :: rest)) = (lex rest).map (.quotedIdent name :: ·) := by
  have hscan : scanIdent (written ++ '"' :: rest) = some (name, rest) := hbody.scan fun _ => hrest
  rw [lex_doubleQuote, hscan, Option.bind_some, if_neg hname]

end

end SQL
end Postgres
end Pgaio
