import Mathlib.Data.List.DropRight

/-!
# Lexer — how PostgreSQL reads a text as tokens

`munch` reads the piece at the front of a text by the longest match of `scan.l`, with
`standard_conforming_strings` on: a blank, a comment, a token, or a piece of a string.  A string that has
ended goes on where another quoted piece follows after blanks and line comments with a line break among
them; `Pending` remembers that, and `gather` joins the pieces and leaves blanks and comments out.

Bodies of strings with escapes are kept as written (`\n` stays two characters), and so are `U&` bodies.
Names and operators are not cut at 63 bytes.  A text has no NUL in it, since the protocol ends a text
there.
-/

namespace Pgaio
namespace Postgres
namespace SQL

/-! ## Characters -/

def isBlank (c : Char) : Bool :=
  c = ' ' || c = '\t' || c = '\n' || c = '\r' || c = '\x0b' || c = '\x0c'

def isLineBreak (c : Char) : Bool :=
  c = '\n' || c = '\r'

/-- `ident_start`: every byte of a character beyond ASCII is one. -/
def isLetter (c : Char) : Bool :=
  c.isAlpha || c = '_' || 128 ≤ c.toNat

/-- `dolq_cont`. -/
def isTagChar (c : Char) : Bool :=
  isLetter c || c.isDigit

/-- `ident_cont`. -/
def isWordChar (c : Char) : Bool :=
  isTagChar c || c = '$'

/-- `op_chars`. -/
def isOperatorChar (c : Char) : Bool :=
  "~!@#^&|`?+-*/%<>=".toList.contains c

def isPunctuation (c : Char) : Bool :=
  ",()[];".toList.contains c

theorem isUpper_iff_toNat {c : Char} : c.isUpper = true ↔ 'A'.toNat ≤ c.toNat ∧ c.toNat ≤ 'Z'.toNat :=
  decide_eq_true_iff.trans (and_congr UInt32.le_iff_toNat_le UInt32.le_iff_toNat_le)

theorem isLower_iff_toNat {c : Char} : c.isLower = true ↔ 'a'.toNat ≤ c.toNat ∧ c.toNat ≤ 'z'.toNat :=
  (Bool.and_eq_true_iff.trans (and_congr decide_eq_true_iff decide_eq_true_iff)).trans
    (and_congr UInt32.le_iff_toNat_le UInt32.le_iff_toNat_le)

theorem isAlpha_eq (c : Char) : c.isAlpha = (c.isUpper || c.isLower) := rfl

/-- What a piece that begins with a character can be. -/
inductive CharClass where
  | blank | quote | doubleQuote | dollar | digit | dot | colon | punctuation | operator | letter | other
  deriving DecidableEq

def classOf (c : Char) : CharClass :=
  if isBlank c then .blank
  else if c = '\'' then .quote
  else if c = '"' then .doubleQuote
  else if c = '$' then .dollar
  else if c.isDigit then .digit
  else if c = '.' then .dot
  else if c = ':' then .colon
  else if isPunctuation c then .punctuation
  else if isOperatorChar c then .operator
  else if isLetter c then .letter
  else .other

/-- The text goes on with such a character. -/
def startsWith (p : Char → Bool) (text : List Char) : Bool :=
  text.head?.any p

theorem startsWith_dropWhile (p : Char → Bool) (text : List Char) :
    startsWith p (text.dropWhile p) = false := by
  induction text with
  | nil => rfl
  | cons c text ih =>
      by_cases hc : p c = true
      · rwa [List.dropWhile_cons_of_pos hc]
      · rw [List.dropWhile_cons_of_neg hc]
        simpa [startsWith] using hc

theorem takeWhile_append_stop {p : Char → Bool} {x y : List Char} (hx : ∀ c ∈ x, p c = true)
    (hy : startsWith p y = false) : (x ++ y).takeWhile p = x := by
  rw [List.takeWhile_append_of_pos hx]
  cases y with
  | nil => exact List.append_nil x
  | cons c y => rw [List.takeWhile_cons_of_neg (by simpa [startsWith] using hy), List.append_nil]

theorem dropWhile_append_stop {p : Char → Bool} {x y : List Char} (hx : ∀ c ∈ x, p c = true)
    (hy : startsWith p y = false) : (x ++ y).dropWhile p = y := by
  rw [List.dropWhile_append_of_pos hx]
  cases y with
  | nil => rfl
  | cons c y => exact List.dropWhile_cons_of_neg (by simpa [startsWith] using hy)

theorem startsWith_of_imp {p q : Char → Bool} (h : ∀ c, p c = true → q c = true) {text : List Char}
    (htext : startsWith q text = false) : startsWith p text = false := by
  cases text with
  | nil => rfl
  | cons c text =>
      have hq : q c = false := htext
      have hp : p c = false := by
        by_contra hc
        rw [h c (by simpa using hc)] at hq
        cases hq
      exact hp

theorem cons_of_startsWith {x : Char} {text : List Char} (h : startsWith (· = x) text = true) :
    ∃ rest, text = x :: rest := by
  cases text with
  | nil => cases h
  | cons c rest => exact ⟨rest, by rw [of_decide_eq_true h]⟩

/-! ## Tokens -/

inductive StringKind where
  | plain | escape | unicode | bit | hex
  deriving DecidableEq

/-- Two quotes in a row stand for one. -/
def StringKind.doubles : StringKind → Bool
  | .bit | .hex => false
  | _ => true

/-- A backslash takes the next character with it. -/
def StringKind.escapes : StringKind → Bool
  | .escape => true
  | _ => false

inductive Token where
  | word (name : List Char)
  | quotedIdent (name : List Char)
  | unicodeIdent (body : List Char)
  | literal (kind : StringKind) (body : List Char)
  | param (digits : List Char)
  | number (digits : List Char)
  | symbol (spelling : List Char)
  | other (c : Char)
  deriving DecidableEq

/-- A piece of a text; `more` continues the string before it. -/
inductive Kind where
  | blank
  | lineComment
  | blockComment
  | string (kind : StringKind) (body : List Char)
  | more (body : List Char)
  | token (t : Token)
  deriving DecidableEq

/-- Whether a string has ended that a quote would continue, and whether a line break came since. -/
inductive Pending where
  | nothing
  | afterString (kind : StringKind) (broken : Bool)
  deriving DecidableEq

/-! ## Scanners: each yields what is left of the text -/

/-- The body of a quoted piece, from behind its opening quote. -/
def scanBody (q : Char) (doubles escapes : Bool) : List Char → Option (List Char × List Char)
  | [] => none
  | [c] => if c = q then some ([], []) else none
  | c :: d :: rest =>
      if c = q then
        if doubles && d = q then
          (scanBody q doubles escapes rest).map fun b => (q :: b.1, b.2)
        else some ([], d :: rest)
      else if escapes && c = '\\' then
        (scanBody q doubles escapes rest).map fun b => (c :: d :: b.1, b.2)
      else (scanBody q doubles escapes (d :: rest)).map fun b => (c :: b.1, b.2)

def scanString (kind : StringKind) : List Char → Option (List Char × List Char) :=
  scanBody '\'' kind.doubles kind.escapes

def scanIdent : List Char → Option (List Char × List Char) :=
  scanBody '"' true false

/-- A dollar-quoted body: up to where its delimiter stands again. -/
def scanDollar (delimiter : List Char) : List Char → Option (List Char × List Char)
  | [] => none
  | c :: rest =>
      if delimiter.isPrefixOf (c :: rest) then some ([], (c :: rest).drop delimiter.length)
      else (scanDollar delimiter rest).map fun b => (c :: b.1, b.2)

/-- Block comments nest: so many are open around the innermost. -/
def skipBlock : Nat → List Char → Option (List Char)
  | _, [] => none
  | _, [_] => none
  | depth, c :: d :: rest =>
      if c = '*' && d = '/' then
        match depth with
        | 0 => some rest
        | outer + 1 => skipBlock outer rest
      else if c = '/' && d = '*' then skipBlock (depth + 1) rest
      else skipBlock depth (d :: rest)

/-- Digits with single underscores before some of them. -/
def dropDigits (ok : Char → Bool) : List Char → List Char
  | [] => []
  | [c] => if ok c then [] else [c]
  | c :: d :: rest =>
      if ok c then dropDigits ok (d :: rest)
      else if c = '_' && ok d then dropDigits ok rest
      else c :: d :: rest

/-- A number may not run into a name. -/
def endNumber (text : List Char) : Option (List Char) :=
  if startsWith isLetter text then none else some text

def isSign (c : Char) : Bool :=
  c = '+' || c = '-'

def afterSign (text : List Char) : List Char :=
  if startsWith isSign text then text.tail else text

def dropExponent : List Char → Option (List Char)
  | [] => some []
  | c :: rest =>
      if c = 'e' || c = 'E' then
        if startsWith Char.isDigit (afterSign rest) then
          endNumber (dropDigits Char.isDigit (afterSign rest))
        else none
      else endNumber (c :: rest)

/-- From behind the decimal point. -/
def dropFraction (text : List Char) : Option (List Char) :=
  dropExponent (if startsWith Char.isDigit text then dropDigits Char.isDigit text else text)

/-- Two points are no decimal point. -/
def dropDecimal (text : List Char) : Option (List Char) :=
  let rest := dropDigits Char.isDigit text
  if startsWith (· = '.') rest then
    if startsWith (· = '.') rest.tail then some rest else dropFraction rest.tail
  else dropExponent rest

def isHexDigit (c : Char) : Bool :=
  c.isDigit || ('a' ≤ c && c ≤ 'f') || ('A' ≤ c && c ≤ 'F')

/-- The digits that follow a `0` with this letter. -/
def radixDigit? (c : Char) : Option (Char → Bool) :=
  if c = 'x' || c = 'X' then some isHexDigit
  else if c = 'o' || c = 'O' then some fun d => '0' ≤ d && d ≤ '7'
  else if c = 'b' || c = 'B' then some fun d => d = '0' || d = '1'
  else none

/-- A digit, or an underscore and a digit. -/
def startsDigits (ok : Char → Bool) (text : List Char) : Bool :=
  startsWith ok text || (startsWith (· = '_') text && startsWith ok text.tail)

/-- A number that begins with this digit. -/
def dropNumber (c : Char) (rest : List Char) : Option (List Char) :=
  match (if c = '0' then rest.head?.bind radixDigit? else none) with
  | some ok =>
      if startsDigits ok rest.tail && !startsWith isWordChar (dropDigits ok rest.tail) then
        some (dropDigits ok rest.tail)
      else none
  | none => dropDecimal rest

/-- An operator ends where a comment begins. -/
def beforeComment : List Char → List Char
  | [] => []
  | [c] => [c]
  | c :: d :: rest =>
      if (c = '-' && d = '-') || (c = '/' && d = '*') then [] else c :: beforeComment (d :: rest)

/-- Operators with one of these characters may end with a sign. -/
def isBeyondStandard (c : Char) : Bool :=
  "~!@#^&|`?%".toList.contains c

/-- Other operators do not end with a sign, unless that is all of them. -/
def withoutSigns (operator : List Char) : List Char :=
  if operator.any isBeyondStandard then operator
  else
    match operator with
    | [] => []
    | c :: rest => c :: rest.rdropWhile isSign

/-! ## The piece at the front -/

/-- The characters that are read when this is left. -/
def readBefore (text rest : List Char) : List Char :=
  text.take (text.length - rest.length)

def munchWord (c : Char) (rest : List Char) : Kind × List Char :=
  (.token (.word ((c :: rest.takeWhile isWordChar).map Char.toLower)), rest.dropWhile isWordChar)

def munchString (kind : StringKind) (rest : List Char) : Option (Kind × List Char) :=
  (scanString kind rest).map fun b => (.string kind b.1, b.2)

/-- A quoted name is not empty. -/
def munchIdent (make : List Char → Token) (rest : List Char) : Option (Kind × List Char) :=
  match scanIdent rest with
  | some (c :: name, rest) => some (.token (make (c :: name)), rest)
  | _ => none

def quotedKind? (c : Char) : Option StringKind :=
  if c = 'b' || c = 'B' then some .bit
  else if c = 'x' || c = 'X' then some .hex
  else if c = 'e' || c = 'E' then some .escape
  else none

/-- A name, or a quoted piece whose first letter says of what kind it is. -/
def munchLetter (c : Char) (rest : List Char) : Option (Kind × List Char) :=
  if startsWith (· = '\'') rest then
    match quotedKind? c with
    | some kind => munchString kind rest.tail
    | none =>
        if c = 'n' || c = 'N' then some (.token (.word "nchar".toList), rest)
        else some (munchWord c rest)
  else if (c = 'u' || c = 'U') && startsWith (· = '&') rest then
    if startsWith (· = '\'') rest.tail then munchString .unicode rest.tail.tail
    else if startsWith (· = '"') rest.tail then munchIdent .unicodeIdent rest.tail.tail
    else some (munchWord c rest)
  else some (munchWord c rest)

def munchQuote (pending : Pending) (rest : List Char) : Option (Kind × List Char) :=
  match pending with
  | .afterString kind true => (scanString kind rest).map fun b => (.more b.1, b.2)
  | _ => munchString .plain rest

/-- Parameters are numbered up to the largest `int`. -/
def munchParam (rest : List Char) : Option (Kind × List Char) :=
  if startsWith isLetter (rest.dropWhile Char.isDigit) ||
      2147483647 < Nat.ofDigitChars 10 (rest.takeWhile Char.isDigit) 0 then none
  else some (.token (.param (rest.takeWhile Char.isDigit)), rest.dropWhile Char.isDigit)

def munchDollar (rest : List Char) : Option (Kind × List Char) :=
  if startsWith Char.isDigit rest then munchParam rest
  else if startsWith (· = '$') (rest.dropWhile isTagChar) then
    (scanDollar ('$' :: rest.takeWhile isTagChar ++ ['$']) (rest.dropWhile isTagChar).tail).map
      fun b => (.token (.literal .plain b.1), b.2)
  else some (.token (.other '$'), rest)

def munchDot (rest : List Char) : Option (Kind × List Char) :=
  if startsWith (· = '.') rest then some (.token (.symbol "..".toList), rest.tail)
  else if startsWith Char.isDigit rest then
    (dropFraction rest).map fun after => (.token (.number ('.' :: readBefore rest after)), after)
  else some (.token (.symbol ['.']), rest)

def munchColon (rest : List Char) : Kind × List Char :=
  if startsWith (· = ':') rest then (.token (.symbol "::".toList), rest.tail)
  else if startsWith (· = '=') rest then (.token (.symbol ":=".toList), rest.tail)
  else (.token (.symbol [':']), rest)

/-- The operator that begins with this character. -/
def operatorOf (c : Char) (rest : List Char) : List Char :=
  withoutSigns (beforeComment (c :: rest.takeWhile isOperatorChar))

def munchOperator (c : Char) (rest : List Char) : Option (Kind × List Char) :=
  if c = '-' && startsWith (· = '-') rest then
    some (.lineComment, rest.dropWhile (!isLineBreak ·))
  else if c = '/' && startsWith (· = '*') rest then
    (skipBlock 0 rest.tail).map fun after => (.blockComment, after)
  else
    some (.token (.symbol (operatorOf c rest)), (c :: rest).drop (operatorOf c rest).length)

def munch (pending : Pending) : List Char → Option (Kind × List Char)
  | [] => none
  | c :: rest =>
      match classOf c with
      | .blank => some (.blank, rest.dropWhile isBlank)
      | .quote => munchQuote pending rest
      | .doubleQuote => munchIdent .quotedIdent rest
      | .dollar => munchDollar rest
      | .digit =>
          (dropNumber c rest).map fun after => (.token (.number (c :: readBefore rest after)), after)
      | .dot => munchDot rest
      | .colon => some (munchColon rest)
      | .punctuation => some (.token (.symbol [c]), rest)
      | .operator => munchOperator c rest
      | .letter => munchLetter c rest
      | .other => some (.token (.other c), rest)

/-! ## Quoted bodies

How a body is written between its quotes; the scanner finds exactly this. -/

/-- `Body q doubles escapes written body`: this is how the body is written. -/
inductive Body (q : Char) (doubles escapes : Bool) : List Char → List Char → Prop where
  | nil : Body q doubles escapes [] []
  | doubled {written body : List Char} (hd : doubles = true) :
      Body q doubles escapes written body → Body q doubles escapes (q :: q :: written) (q :: body)
  | escaped {written body : List Char} (d : Char) (he : escapes = true) (hq : '\\' ≠ q) :
      Body q doubles escapes written body →
        Body q doubles escapes ('\\' :: d :: written) ('\\' :: d :: body)
  | char {written body : List Char} (c : Char) (hq : c ≠ q) (he : ¬ (escapes = true ∧ c = '\\')) :
      Body q doubles escapes written body → Body q doubles escapes (c :: written) (c :: body)

/-- Each quote twice. -/
def doubled (q : Char) (body : List Char) : List Char :=
  body.flatMap fun c => if c = q then [q, q] else [c]

section

variable {q : Char} {doubles escapes : Bool} {text written body rest : List Char}

theorem scanBody_doubled (hd : doubles = true) :
    scanBody q doubles escapes (q :: q :: rest) =
      (scanBody q doubles escapes rest).map fun b => (q :: b.1, b.2) := by
  simp [scanBody, hd]

theorem scanBody_close (h : doubles = true → startsWith (· = q) rest = false) :
    scanBody q doubles escapes (q :: rest) = some ([], rest) := by
  cases rest with
  | nil => simp [scanBody]
  | cons d rest =>
      cases hd : doubles with
      | false => simp [scanBody]
      | true =>
          have hne : d ≠ q := by simpa [startsWith] using h hd
          simp [scanBody, hne]

theorem scanBody_escaped {d : Char} (he : escapes = true) (hq : '\\' ≠ q) :
    scanBody q doubles escapes ('\\' :: d :: rest) =
      (scanBody q doubles escapes rest).map fun b => ('\\' :: d :: b.1, b.2) := by
  simp [scanBody, he, hq]

theorem scanBody_char {c : Char} (hq : c ≠ q) (he : ¬ (escapes = true ∧ c = '\\')) :
    scanBody q doubles escapes (c :: rest) =
      (scanBody q doubles escapes rest).map fun b => (c :: b.1, b.2) := by
  cases rest with
  | nil => simp [scanBody, hq]
  | cons d rest => simp [scanBody, hq, he]

/-- What is written as a body and then closed is read back. -/
theorem Body.scan (hbody : Body q doubles escapes written body)
    (hrest : doubles = true → startsWith (· = q) rest = false) :
    scanBody q doubles escapes (written ++ q :: rest) = some (body, rest) := by
  induction hbody with
  | nil => exact scanBody_close hrest
  | doubled hd _ ih => rw [List.cons_append, List.cons_append, scanBody_doubled hd, ih, Option.map_some]
  | escaped d he hq _ ih =>
      rw [List.cons_append, List.cons_append, scanBody_escaped he hq, ih, Option.map_some]
  | char c hq he _ ih => rw [List.cons_append, scanBody_char hq he, ih, Option.map_some]

theorem scanBody_eq_some (h : scanBody q doubles escapes text = some (body, rest)) :
    ∃ written, text = written ++ q :: rest ∧ Body q doubles escapes written body ∧
      (doubles = true → startsWith (· = q) rest = false) := by
  -- The cases are those of the scanner: the end of the text, a quote, an escape, any other character.
  induction text using scanBody.induct q doubles escapes generalizing body with
  | case1 => simp [scanBody] at h
  | case2 =>
      obtain ⟨rfl, rfl⟩ : [] = body ∧ [] = rest := by simpa [scanBody] using h
      exact ⟨[], rfl, .nil, fun _ => rfl⟩
  | case3 c hc => simp [scanBody, hc] at h
  | case4 d text hpair ih =>
      obtain ⟨hd, rfl⟩ : doubles = true ∧ d = q := by simpa using hpair
      rw [scanBody_doubled hd, Option.map_eq_some_iff] at h
      obtain ⟨⟨b, r⟩, hb, heq⟩ := h
      obtain ⟨rfl, rfl⟩ := Prod.mk.inj heq
      obtain ⟨written, rfl, hbody, hrest⟩ := ih hb
      exact ⟨_ :: _ :: written, rfl, .doubled hd hbody, hrest⟩
  | case5 d text hpair =>
      have hclose : doubles = true → startsWith (· = q) (d :: text) = false := by
        intro hd
        simpa [startsWith, hd] using hpair
      rw [scanBody_close hclose] at h
      obtain ⟨rfl, rfl⟩ := Prod.mk.inj (Option.some.inj h)
      exact ⟨[], rfl, .nil, hclose⟩
  | case6 c d text hc hpair ih =>
      obtain ⟨he, rfl⟩ : escapes = true ∧ c = '\\' := by simpa using hpair
      rw [scanBody_escaped he hc, Option.map_eq_some_iff] at h
      obtain ⟨⟨b, r⟩, hb, heq⟩ := h
      obtain ⟨rfl, rfl⟩ := Prod.mk.inj heq
      obtain ⟨written, rfl, hbody, hrest⟩ := ih hb
      exact ⟨_ :: _ :: written, rfl, .escaped d he hc hbody, hrest⟩
  | case7 c d text hc hpair ih =>
      have he : ¬ (escapes = true ∧ c = '\\') := by simpa using hpair
      rw [scanBody_char hc he, Option.map_eq_some_iff] at h
      obtain ⟨⟨b, r⟩, hb, heq⟩ := h
      obtain ⟨rfl, rfl⟩ := Prod.mk.inj heq
      obtain ⟨written, hwritten, hbody, hrest⟩ := ih hb
      exact ⟨c :: written, by rw [hwritten]; rfl, .char c hc he hbody, hrest⟩

/-- A body is never longer than it is written. -/
theorem Body.length_le (hbody : Body q doubles escapes written body) :
    body.length ≤ written.length := by
  induction hbody with
  | nil => exact Nat.le_refl 0
  | doubled _ _ ih | escaped _ _ _ _ ih | char _ _ _ _ ih => simp only [List.length_cons]; omega

/-- Where it is as long, no quote stands in it. -/
theorem Body.eq_of_length (hbody : Body q doubles escapes written body) (he : escapes = false)
    (hlength : written.length ≤ body.length) : written = body ∧ q ∉ body := by
  induction hbody with
  | nil => exact ⟨rfl, List.not_mem_nil⟩
  | doubled _ hbody _ =>
      have hle := hbody.length_le
      simp only [List.length_cons] at hlength
      omega
  | escaped _ htrue _ _ _ => exact absurd (he.symm.trans htrue) Bool.false_ne_true
  | char c hq _ _ ih =>
      obtain ⟨rfl, hmem⟩ := ih (by simpa using hlength)
      exact ⟨rfl, by simpa [hmem] using hq.symm⟩

/-- What has no quote in it belongs to the body. -/
theorem scanBody_append (h : q ∉ body) (text : List Char) :
    scanBody q doubles false (body ++ text) =
      (scanBody q doubles false text).map fun b => (body ++ b.1, b.2) := by
  induction body with
  | nil => exact Option.map_id'.symm
  | cons c body ih =>
      rw [List.mem_cons, not_or] at h
      rw [List.cons_append, scanBody_char (Ne.symm h.1) (by simp), ih h.2, Option.map_map]
      rfl

/-- Without quotes a body is written as it is. -/
theorem body_of_notMem (h : q ∉ body) : Body q doubles false body body := by
  induction body with
  | nil => exact .nil
  | cons c body ih =>
      rw [List.mem_cons, not_or] at h
      exact .char c (Ne.symm h.1) (by simp) (ih h.2)

theorem doubled_of_notMem (h : q ∉ body) : doubled q body = body := by
  induction body with
  | nil => rfl
  | cons c body ih =>
      rw [List.mem_cons, not_or] at h
      have hrest : body.flatMap (fun c => if c = q then [q, q] else [c]) = body := ih h.2
      rw [doubled, List.flatMap_cons, if_neg (Ne.symm h.1), hrest]
      rfl

theorem body_doubled (q : Char) (body : List Char) : Body q true false (doubled q body) body := by
  induction body with
  | nil => exact .nil
  | cons c body ih =>
      by_cases hc : c = q
      · subst hc
        simpa [doubled] using Body.doubled rfl ih
      · simpa [doubled, hc] using Body.char c hc (by simp) ih

end

/-- A dollar-quoted body is read up to its delimiter, whatever stands behind it. -/
theorem scanDollar_spec {delimiter text : List Char} {b : List Char × List Char} (hne : delimiter ≠ [])
    (h : scanDollar delimiter text = some b) :
    text = b.1 ++ (delimiter ++ b.2) ∧
      ∀ rest, scanDollar delimiter (b.1 ++ (delimiter ++ rest)) = some (b.1, rest) := by
  induction text generalizing b with
  | nil => simp [scanDollar] at h
  | cons c text ih =>
      rw [scanDollar] at h
      split at h
      · next hfound =>
          obtain rfl := Option.some.inj h
          refine ⟨(List.prefix_iff_eq_append.1 (List.isPrefixOf_iff_prefix.1 hfound)).symm, fun rest => ?_⟩
          obtain ⟨d, others, rfl⟩ := List.exists_cons_of_ne_nil hne
          simp [scanDollar]
      · next hpass =>
          obtain ⟨b', hb', rfl⟩ := Option.map_eq_some_iff.1 h
          obtain ⟨htext, hscan⟩ := ih hb'
          refine ⟨by rw [htext]; rfl, fun rest => ?_⟩
          -- Whether the delimiter stands here is seen before its end.
          have hpass' : ¬ delimiter.isPrefixOf (c :: (b'.1 ++ (delimiter ++ rest))) = true := by
            intro hfound
            apply hpass
            rw [List.isPrefixOf_iff_prefix] at hfound ⊢
            have hshort : c :: (b'.1 ++ delimiter) <+: c :: (b'.1 ++ (delimiter ++ rest)) :=
              ⟨rest, by simp⟩
            have hinside : delimiter <+: c :: (b'.1 ++ delimiter) :=
              List.prefix_of_prefix_length_le hfound hshort (by
                simp only [List.length_cons, List.length_append]
                omega)
            exact hinside.trans ⟨b'.2, by rw [htext]; simp⟩
          rw [List.cons_append, scanDollar, if_neg hpass', hscan, Option.map_some]

/-! ## What is left is an end of the text -/

theorem scanBody_suffix {q : Char} {doubles escapes : Bool} {text : List Char}
    {b : List Char × List Char} (h : scanBody q doubles escapes text = some b) : b.2 <:+ text := by
  obtain ⟨written, rfl, -, -⟩ := scanBody_eq_some h
  exact ⟨written ++ [q], by simp⟩

theorem scanDollar_suffix {delimiter text : List Char} {b : List Char × List Char}
    (h : scanDollar delimiter text = some b) : b.2 <:+ text := by
  induction text generalizing b with
  | nil => simp [scanDollar] at h
  | cons c rest ih =>
      rw [scanDollar] at h
      split at h
      · obtain rfl := Option.some.inj h
        exact List.drop_suffix _ _
      · obtain ⟨b', hb', rfl⟩ := Option.map_eq_some_iff.1 h
        exact (ih hb').trans (List.suffix_cons c rest)

theorem skipBlock_suffix {depth : Nat} {text rest : List Char} (h : skipBlock depth text = some rest) :
    rest <:+ text := by
  induction depth, text using skipBlock.induct with
  | case1 | case2 => simp [skipBlock] at h
  | case3 c d text hc =>
      simp only [skipBlock, hc, if_true, Option.some.injEq] at h
      exact h ▸ ⟨[c, d], rfl⟩
  | case4 c d text hc outer ih =>
      simp only [skipBlock, hc, if_true] at h
      exact (ih h).trans ⟨[c, d], rfl⟩
  | case5 depth c d text hc hopen ih =>
      simp only [skipBlock, hc, hopen, if_true, Bool.false_eq_true, if_false] at h
      exact (ih h).trans ⟨[c, d], rfl⟩
  | case6 depth c d text hc hopen ih =>
      simp only [skipBlock, hc, hopen, Bool.false_eq_true, if_false] at h
      exact (ih h).trans (List.suffix_cons c _)

/-- The characters of numbers. -/
def isNumberChar (c : Char) : Bool :=
  c.isAlpha || c.isDigit || c = '_' || c = '.' || isSign c

/-- What is read up to here is made of the characters of numbers. -/
def ReadsNumber (text rest : List Char) : Prop :=
  ∃ read, read ++ rest = text ∧ ∀ c ∈ read, isNumberChar c = true

namespace ReadsNumber

theorem refl (text : List Char) : ReadsNumber text text :=
  ⟨[], rfl, by simp⟩

theorem cons {c : Char} {text rest : List Char} (hc : isNumberChar c = true) (h : ReadsNumber text rest) :
    ReadsNumber (c :: text) rest := by
  obtain ⟨read, rfl, hread⟩ := h
  exact ⟨c :: read, rfl, List.forall_mem_cons.2 ⟨hc, hread⟩⟩

theorem trans {text middle rest : List Char} (h : ReadsNumber text middle) (h' : ReadsNumber middle rest) :
    ReadsNumber text rest := by
  obtain ⟨read, rfl, hread⟩ := h
  obtain ⟨read', rfl, hread'⟩ := h'
  exact ⟨read ++ read', by rw [List.append_assoc], List.forall_mem_append.2 ⟨hread, hread'⟩⟩

theorem tail {p : Char → Bool} {text : List Char} (hp : ∀ c, p c = true → isNumberChar c = true)
    (h : startsWith p text = true) : ReadsNumber text text.tail := by
  cases text with
  | nil => cases h
  | cons c text => exact (refl text).cons (hp c h)

theorem suffix {text rest : List Char} (h : ReadsNumber text rest) : rest <:+ text := by
  obtain ⟨read, rfl, -⟩ := h
  exact List.suffix_append read rest

end ReadsNumber

theorem isNumberChar_of_digit {c : Char} (hc : c.isDigit = true) : isNumberChar c = true := by
  simp [isNumberChar, hc]

theorem isNumberChar_of_hex {c : Char} (hc : isHexDigit c = true) : isNumberChar c = true := by
  have hf : 'f'.toNat ≤ 'z'.toNat := by decide
  have hF : 'F'.toNat ≤ 'Z'.toNat := by decide
  simp only [isHexDigit, isNumberChar, isAlpha_eq, Bool.or_eq_true, Bool.and_eq_true, decide_eq_true_eq,
    isUpper_iff_toNat, isLower_iff_toNat] at hc ⊢
  rcases hc with (hdigit | ⟨hlow, hhigh⟩) | ⟨hlow, hhigh⟩
  · exact .inl (.inl (.inl (.inr hdigit)))
  · exact .inl (.inl (.inl (.inl (.inr ⟨hlow, le_trans hhigh hf⟩))))
  · exact .inl (.inl (.inl (.inl (.inl ⟨hlow, le_trans hhigh hF⟩))))

/-- The letter of a radix and the digits behind it. -/
theorem radixDigit?_spec {x : Char} {ok : Char → Bool} (h : radixDigit? x = some ok) :
    isNumberChar x = true ∧ ∀ c, ok c = true → isNumberChar c = true := by
  have hletter {lower upper : Char} (hx : (x = lower || x = upper : Bool) = true)
      (hlower : isNumberChar lower = true) (hupper : isNumberChar upper = true) : isNumberChar x = true := by
    rcases Bool.or_eq_true_iff.1 hx with hx | hx
    · rwa [of_decide_eq_true hx]
    · rwa [of_decide_eq_true hx]
  unfold radixDigit? at h
  split at h
  · next hx =>
      obtain rfl := Option.some.inj h
      exact ⟨hletter hx (by decide) (by decide), fun c => isNumberChar_of_hex⟩
  · split at h
    · next hx =>
        obtain rfl := Option.some.inj h
        refine ⟨hletter hx (by decide) (by decide), fun c hc => isNumberChar_of_digit ?_⟩
        simp only [Char.isDigit, Char.le_def, UInt32.le_iff_toNat_le, ge_iff_le, Bool.and_eq_true,
          decide_eq_true_eq] at hc ⊢
        have hbound : '7'.val.toNat ≤ '9'.val.toNat := by decide
        omega
    · split at h
      · next hx =>
          obtain rfl := Option.some.inj h
          refine ⟨hletter hx (by decide) (by decide), fun c hc => ?_⟩
          rcases Bool.or_eq_true_iff.1 hc with hc | hc
          all_goals
            rw [of_decide_eq_true hc]
            decide
      · cases h

theorem dropDigits_reads {ok : Char → Bool} (hok : ∀ c, ok c = true → isNumberChar c = true)
    (text : List Char) : ReadsNumber text (dropDigits ok text) := by
  induction text using dropDigits.induct ok with
  | case1 => exact .refl _
  | case2 c hc =>
      rw [dropDigits, if_pos hc]
      exact (ReadsNumber.refl []).cons (hok c hc)
  | case3 c hc =>
      rw [dropDigits, if_neg hc]
      exact .refl _
  | case4 c d rest hc ih =>
      rw [dropDigits, if_pos hc]
      exact ih.cons (hok c hc)
  | case5 c d rest hc hd ih =>
      obtain ⟨rfl, hd'⟩ : c = '_' ∧ ok d = true := by simpa using hd
      rw [dropDigits, if_neg hc, if_pos hd]
      exact (ih.cons (hok d hd')).cons (by decide)
  | case6 c d rest hc hd =>
      rw [dropDigits, if_neg hc, if_neg hd]
      exact .refl _

theorem endNumber_eq_some {text rest : List Char} (h : endNumber text = some rest) :
    startsWith isLetter text = false ∧ rest = text := by
  unfold endNumber at h
  split at h
  · cases h
  · next hletter => exact ⟨by simpa using hletter, (Option.some.inj h).symm⟩

theorem afterSign_reads (text : List Char) : ReadsNumber text (afterSign text) := by
  unfold afterSign
  split
  · next hsign => exact .tail (fun c hc => by simp [isNumberChar, hc]) hsign
  · exact .refl text

theorem dropExponent_reads {text rest : List Char} (h : dropExponent text = some rest) :
    ReadsNumber text rest := by
  cases text with
  | nil => exact Option.some.inj h ▸ .refl _
  | cons c text =>
      rw [dropExponent] at h
      split at h
      · next he =>
          have hc : isNumberChar c = true := by
            rcases Bool.or_eq_true_iff.1 he with he | he
            all_goals
              obtain rfl := of_decide_eq_true he
              decide
          split at h
          · obtain ⟨-, rfl⟩ := endNumber_eq_some h
            exact ((afterSign_reads text).trans (dropDigits_reads (fun _ => isNumberChar_of_digit) _)).cons hc
          · cases h
      · exact (endNumber_eq_some h).2 ▸ .refl _

theorem dropFraction_reads {text rest : List Char} (h : dropFraction text = some rest) :
    ReadsNumber text rest := by
  refine .trans ?_ (dropExponent_reads h)
  split
  · exact dropDigits_reads (fun _ => isNumberChar_of_digit) text
  · exact .refl text

theorem dropDecimal_reads {text rest : List Char} (h : dropDecimal text = some rest) :
    ReadsNumber text rest := by
  have hdigits := dropDigits_reads (fun _ => isNumberChar_of_digit) text
  unfold dropDecimal at h
  dsimp only at h
  split at h
  · next hpoint =>
      split at h
      · exact Option.some.inj h ▸ hdigits
      · have htail := ReadsNumber.tail (by simp [isNumberChar]) hpoint
        exact (hdigits.trans htail).trans (dropFraction_reads h)
  · exact hdigits.trans (dropExponent_reads h)

theorem dropNumber_reads {c : Char} {text rest : List Char} (h : dropNumber c text = some rest) :
    ReadsNumber text rest := by
  unfold dropNumber at h
  split at h
  · next ok hok =>
      obtain ⟨x, text, rfl, hradix⟩ : ∃ x digits, text = x :: digits ∧ radixDigit? x = some ok := by
        split at hok
        · cases text with
          | nil => cases hok
          | cons x text => exact ⟨x, text, rfl, hok⟩
        · cases hok
      split at h
      · obtain ⟨hx, hdigits⟩ := radixDigit?_spec hradix
        exact Option.some.inj h ▸ (dropDigits_reads hdigits text).cons hx
      · cases h
  · exact dropDecimal_reads h

theorem beforeComment_isPrefix (operator : List Char) : beforeComment operator <+: operator := by
  induction operator using beforeComment.induct with
  | case1 | case2 => simp [beforeComment]
  | case3 c d rest hc => simp [beforeComment, hc]
  | case4 c d rest hc ih =>
      rw [beforeComment, if_neg hc]
      exact (List.prefix_cons_inj c).2 ih

theorem withoutSigns_isPrefix (operator : List Char) : withoutSigns operator <+: operator := by
  unfold withoutSigns
  split
  · exact List.prefix_refl _
  · cases operator with
    | nil => exact List.prefix_refl _
    | cons c rest => exact (List.prefix_cons_inj c).2 (List.rdropWhile_prefix _ _)

theorem withoutSigns_ne_nil {operator : List Char} (h : operator ≠ []) : withoutSigns operator ≠ [] := by
  unfold withoutSigns
  split
  · exact h
  · cases operator with
    | nil => exact absurd rfl h
    | cons c rest => exact List.cons_ne_nil c _

theorem munchIdent_suffix {make : List Char → Token} {text rest : List Char} {kind : Kind}
    (h : munchIdent make text = some (kind, rest)) : rest <:+ text := by
  unfold munchIdent at h
  split at h
  · next hscan =>
      obtain ⟨-, rfl⟩ := Prod.mk.inj (Option.some.inj h)
      exact scanBody_suffix hscan
  · cases h

theorem munchString_suffix {kind : StringKind} {text rest : List Char} {k : Kind}
    (h : munchString kind text = some (k, rest)) : rest <:+ text := by
  obtain ⟨b, hb, heq⟩ := Option.map_eq_some_iff.1 h
  obtain ⟨-, rfl⟩ := Prod.mk.inj heq
  exact scanBody_suffix hb

theorem munchWord_suffix (c : Char) (text : List Char) : (munchWord c text).2 <:+ text :=
  List.dropWhile_suffix _

theorem munchLetter_suffix {c : Char} {text rest : List Char} {kind : Kind}
    (h : munchLetter c text = some (kind, rest)) : rest <:+ text := by
  have hword (h : some (munchWord c text) = some (kind, rest)) : rest <:+ text := by
    have hsuffix := munchWord_suffix c text
    rwa [Option.some.inj h] at hsuffix
  unfold munchLetter at h
  split at h
  · split at h
    · exact (munchString_suffix h).trans (List.tail_suffix text)
    · split at h
      · obtain ⟨-, rfl⟩ := Prod.mk.inj (Option.some.inj h)
        exact List.suffix_refl _
      · exact hword h
  · split at h
    · have htail : text.tail.tail <:+ text := (List.tail_suffix _).trans (List.tail_suffix text)
      split at h
      · exact (munchString_suffix h).trans htail
      · split at h
        · exact (munchIdent_suffix h).trans htail
        · exact hword h
    · exact hword h

theorem munchQuote_suffix {pending : Pending} {text rest : List Char} {kind : Kind}
    (h : munchQuote pending text = some (kind, rest)) : rest <:+ text := by
  unfold munchQuote at h
  split at h
  · obtain ⟨b, hb, heq⟩ := Option.map_eq_some_iff.1 h
    obtain ⟨-, rfl⟩ := Prod.mk.inj heq
    exact scanBody_suffix hb
  · exact munchString_suffix h

theorem munchDollar_suffix {text rest : List Char} {kind : Kind}
    (h : munchDollar text = some (kind, rest)) : rest <:+ text := by
  unfold munchDollar at h
  split at h
  · unfold munchParam at h
    split at h
    · cases h
    · obtain ⟨-, rfl⟩ := Prod.mk.inj (Option.some.inj h)
      exact List.dropWhile_suffix _
  · split at h
    · obtain ⟨b, hb, heq⟩ := Option.map_eq_some_iff.1 h
      obtain ⟨-, rfl⟩ := Prod.mk.inj heq
      exact (scanDollar_suffix hb).trans ((List.tail_suffix _).trans (List.dropWhile_suffix _))
    · obtain ⟨-, rfl⟩ := Prod.mk.inj (Option.some.inj h)
      exact List.suffix_refl _

theorem munchDot_suffix {text rest : List Char} {kind : Kind}
    (h : munchDot text = some (kind, rest)) : rest <:+ text := by
  unfold munchDot at h
  split at h
  · obtain ⟨-, rfl⟩ := Prod.mk.inj (Option.some.inj h)
    exact List.tail_suffix text
  · split at h
    · obtain ⟨after, hafter, heq⟩ := Option.map_eq_some_iff.1 h
      obtain ⟨-, rfl⟩ := Prod.mk.inj heq
      exact (dropFraction_reads hafter).suffix
    · obtain ⟨-, rfl⟩ := Prod.mk.inj (Option.some.inj h)
      exact List.suffix_refl _

theorem munchColon_suffix (text : List Char) : (munchColon text).2 <:+ text := by
  unfold munchColon
  split
  · exact List.tail_suffix text
  · split
    · exact List.tail_suffix text
    · exact List.suffix_refl _

/-- An operator is made of the characters of its run. -/
theorem operatorOf_isPrefix (c : Char) (text : List Char) :
    operatorOf c text <+: c :: text.takeWhile isOperatorChar :=
  (withoutSigns_isPrefix _).trans (beforeComment_isPrefix _)

/-- Where no comment begins, an operator is its first character at least. -/
theorem operatorOf_eq_cons {c : Char} {text : List Char}
    (hline : ¬ (c = '-' && startsWith (· = '-') text) = true)
    (hblock : ¬ (c = '/' && startsWith (· = '*') text) = true) :
    ∃ operator, operatorOf c text = c :: operator ∧ operator <+: text := by
  have hprefix : operatorOf c text <+: c :: text :=
    (operatorOf_isPrefix c text).trans ((List.prefix_cons_inj c).2 (List.takeWhile_prefix _))
  have hbefore : beforeComment (c :: text.takeWhile isOperatorChar) ≠ [] := by
    cases text with
    | nil => exact List.cons_ne_nil c []
    | cons d text =>
        have hopens : ¬ ((c = '-' && d = '-') || (c = '/' && d = '*')) = true := by
          simpa [startsWith] using And.intro hline hblock
        by_cases hd : isOperatorChar d
        · rw [List.takeWhile_cons_of_pos hd, beforeComment, if_neg hopens]
          exact List.cons_ne_nil c _
        · rw [List.takeWhile_cons_of_neg hd]
          exact List.cons_ne_nil c []
  obtain ⟨x, operator, hoperator⟩ := List.exists_cons_of_ne_nil (withoutSigns_ne_nil hbefore)
  have hop : operatorOf c text = x :: operator := hoperator
  rw [hop, List.cons_prefix_cons] at hprefix
  obtain ⟨rfl, hprefix⟩ := hprefix
  exact ⟨operator, hop, hprefix⟩

theorem munchOperator_suffix {c : Char} {text rest : List Char} {kind : Kind}
    (h : munchOperator c text = some (kind, rest)) : rest <:+ text := by
  unfold munchOperator at h
  split at h
  · obtain ⟨-, rfl⟩ := Prod.mk.inj (Option.some.inj h)
    exact List.dropWhile_suffix _
  · next hline =>
      split at h
      · obtain ⟨after, hafter, heq⟩ := Option.map_eq_some_iff.1 h
        obtain ⟨-, rfl⟩ := Prod.mk.inj heq
        exact (skipBlock_suffix hafter).trans (List.tail_suffix text)
      · next hblock =>
          obtain ⟨operator, hoperator, -⟩ := operatorOf_eq_cons hline hblock
          rw [hoperator] at h
          obtain ⟨-, rfl⟩ := Prod.mk.inj (Option.some.inj h)
          exact List.drop_suffix operator.length text

/-- A piece takes the first character at least. -/
theorem munch_suffix {pending : Pending} {c : Char} {text rest : List Char} {kind : Kind}
    (h : munch pending (c :: text) = some (kind, rest)) : rest <:+ text := by
  simp only [munch] at h
  split at h
  · obtain ⟨-, rfl⟩ := Prod.mk.inj (Option.some.inj h)
    exact List.dropWhile_suffix _
  · exact munchQuote_suffix h
  · exact munchIdent_suffix h
  · exact munchDollar_suffix h
  · obtain ⟨after, hafter, heq⟩ := Option.map_eq_some_iff.1 h
    obtain ⟨-, rfl⟩ := Prod.mk.inj heq
    exact (dropNumber_reads hafter).suffix
  · exact munchDot_suffix h
  · have hsuffix := munchColon_suffix text
    rwa [Option.some.inj h] at hsuffix
  · obtain ⟨-, rfl⟩ := Prod.mk.inj (Option.some.inj h)
    exact List.suffix_refl _
  · exact munchOperator_suffix h
  · exact munchLetter_suffix h
  · obtain ⟨-, rfl⟩ := Prod.mk.inj (Option.some.inj h)
    exact List.suffix_refl _

@[simp] theorem readBefore_append_left (read rest : List Char) :
    readBefore (read ++ rest) rest = read := by
  simp [readBefore]

end SQL
end Postgres
end Pgaio
