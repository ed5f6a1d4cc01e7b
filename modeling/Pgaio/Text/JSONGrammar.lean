import Mathlib.Data.List.Basic

/-!
# JSONGrammar — the texts of RFC 8259 and what they say

`Derives part text` is the grammar of values, of the elements of an array and of the members of an
object, together with what the text says; `Describes text v` is a whole JSON text.

Whether a character of a JSON text stands within a string can be told from left to right.  `Lexing` is
the automaton that does so; it is stuck at the first character that cannot stand where it does.
`Describes.lex_eq` says that no JSON text makes it stuck.
-/

namespace Pgaio
namespace Text

inductive JSONValue where
  | null
  | bool (b : Bool)
  | num (literal : List Char)
  | str (s : List Char)
  | arr (elements : List JSONValue)
  | obj (members : List (List Char × JSONValue))

/-! ## Characters -/

def isBlank (c : Char) : Bool :=
  [' ', '\t', '\n', '\r'].contains c

/-- A character that stands for itself within a string. -/
def isPlain (c : Char) : Bool :=
  c != '"' && c != '\\' && decide (0x20 ≤ c.toNat)

def hexDigit? (c : Char) : Option Nat :=
  if c.isDigit then some (c.toNat - '0'.toNat)
  else if 'a' ≤ c ∧ c ≤ 'f' then some (c.toNat - 'a'.toNat + 10)
  else if 'A' ≤ c ∧ c ≤ 'F' then some (c.toNat - 'A'.toNat + 10)
  else none

/-- The number that four hexadecimal digits denote. -/
def hex4? (a b c d : Char) : Option Nat := do
  let a ← hexDigit? a
  let b ← hexDigit? b
  let c ← hexDigit? c
  let d ← hexDigit? d
  return 4096 * a + 256 * b + 16 * c + d

/-- The character behind a backslash, and what the two denote. -/
def shortEscape? : Char → Option Char
  | '"' => some '"'
  | '\\' => some '\\'
  | '/' => some '/'
  | 'b' => some (Char.ofNat 0x08)
  | 'f' => some (Char.ofNat 0x0c)
  | 'n' => some '\n'
  | 'r' => some '\r'
  | 't' => some '\t'
  | _ => none

def isHighSurrogate (n : Nat) : Bool :=
  0xd800 ≤ n && n ≤ 0xdbff

def isLowSurrogate (n : Nat) : Bool :=
  0xdc00 ≤ n && n ≤ 0xdfff

/-! ## The grammar -/

def Blank (text : List Char) : Prop :=
  ∀ c ∈ text, isBlank c = true

def Digits (text : List Char) : Prop :=
  text ≠ [] ∧ ∀ c ∈ text, c.isDigit = true

/-- A number: a sign, an integer without leading zeros, a fraction and an exponent. -/
structure IsNumber (literal sign int frac exp : List Char) : Prop where
  text_eq : literal = sign ++ (int ++ (frac ++ exp))
  sign_eq : sign = [] ∨ sign = ['-']
  int_digits : Digits int ∧ (int = ['0'] ∨ int.head? ≠ some '0')
  frac_eq : frac = [] ∨ ∃ ds, Digits ds ∧ frac = '.' :: ds
  exp_eq : exp = [] ∨ ∃ e s ds, (e = 'e' ∨ e = 'E') ∧ (s = [] ∨ s = ['+'] ∨ s = ['-']) ∧
    Digits ds ∧ exp = e :: (s ++ ds)

/-- What stands between the quotes of a string, and the string.  A surrogate without its partner is
allowed; decoders put U+FFFD in its place. -/
inductive StringBody : List Char → List Char → Prop where
  | nil : StringBody [] []
  | plain {c : Char} {body s : List Char} :
      isPlain c = true → StringBody body s → StringBody (c :: body) (c :: s)
  | short {e c : Char} {body s : List Char} :
      shortEscape? e = some c → StringBody body s → StringBody ('\\' :: e :: body) (c :: s)
  | unicode {h₁ h₂ h₃ h₄ : Char} {n : Nat} {body s : List Char} :
      hex4? h₁ h₂ h₃ h₄ = some n → isHighSurrogate n = false → isLowSurrogate n = false →
        StringBody body s →
          StringBody ('\\' :: 'u' :: h₁ :: h₂ :: h₃ :: h₄ :: body) (Char.ofNat n :: s)
  | pair {h₁ h₂ h₃ h₄ l₁ l₂ l₃ l₄ : Char} {hi lo : Nat} {body s : List Char} :
      hex4? h₁ h₂ h₃ h₄ = some hi → isHighSurrogate hi = true →
        hex4? l₁ l₂ l₃ l₄ = some lo → isLowSurrogate lo = true → StringBody body s →
          StringBody
            ('\\' :: 'u' :: h₁ :: h₂ :: h₃ :: h₄ :: '\\' :: 'u' :: l₁ :: l₂ :: l₃ :: l₄ :: body)
            (Char.ofNat (0x10000 + (hi - 0xd800) * 0x400 + (lo - 0xdc00)) :: s)
  | lone {h₁ h₂ h₃ h₄ : Char} {n : Nat} {body s : List Char} :
      hex4? h₁ h₂ h₃ h₄ = some n → (isHighSurrogate n || isLowSurrogate n) = true →
        StringBody body s →
          StringBody ('\\' :: 'u' :: h₁ :: h₂ :: h₃ :: h₄ :: body) (Char.ofNat 0xfffd :: s)

/-- A value, the elements between the brackets of an array or the members between the braces of an
object. -/
inductive Part where
  | value (v : JSONValue)
  | elements (vs : List JSONValue)
  | members (ms : List (List Char × JSONValue))

inductive Derives : Part → List Char → Prop where
  | null : Derives (.value .null) ['n', 'u', 'l', 'l']
  | true : Derives (.value (.bool true)) ['t', 'r', 'u', 'e']
  | false : Derives (.value (.bool false)) ['f', 'a', 'l', 's', 'e']
  | num {literal sign int frac exp : List Char} :
      IsNumber literal sign int frac exp → Derives (.value (.num literal)) literal
  | str {body s : List Char} :
      StringBody body s → Derives (.value (.str s)) ('"' :: (body ++ ['"']))
  | emptyArr {w : List Char} : Blank w → Derives (.value (.arr [])) ('[' :: (w ++ [']']))
  | arr {text : List Char} {vs : List JSONValue} :
      Derives (.elements vs) text → Derives (.value (.arr vs)) ('[' :: (text ++ [']']))
  | emptyObj {w : List Char} : Blank w → Derives (.value (.obj [])) ('{' :: (w ++ ['}']))
  | obj {text : List Char} {ms : List (List Char × JSONValue)} :
      Derives (.members ms) text → Derives (.value (.obj ms)) ('{' :: (text ++ ['}']))
  | lastElement {w₁ t w₂ : List Char} {v : JSONValue} :
      Blank w₁ → Derives (.value v) t → Blank w₂ → Derives (.elements [v]) (w₁ ++ (t ++ w₂))
  | element {w₁ t w₂ rest : List Char} {v : JSONValue} {vs : List JSONValue} :
      Blank w₁ → Derives (.value v) t → Blank w₂ → Derives (.elements vs) rest →
        Derives (.elements (v :: vs)) (w₁ ++ (t ++ (w₂ ++ ',' :: rest)))
  | lastMember {w₁ k w₂ w₃ t w₄ name : List Char} {v : JSONValue} :
      Blank w₁ → StringBody k name → Blank w₂ → Blank w₃ → Derives (.value v) t → Blank w₄ →
        Derives (.members [(name, v)])
          (w₁ ++ ('"' :: (k ++ ('"' :: (w₂ ++ (':' :: (w₃ ++ (t ++ w₄))))))))
  | member {w₁ k w₂ w₃ t w₄ rest name : List Char} {v : JSONValue}
      {ms : List (List Char × JSONValue)} :
      Blank w₁ → StringBody k name → Blank w₂ → Blank w₃ → Derives (.value v) t → Blank w₄ →
        Derives (.members ms) rest →
          Derives (.members ((name, v) :: ms))
            (w₁ ++ ('"' :: (k ++ ('"' :: (w₂ ++ (':' :: (w₃ ++ (t ++ (w₄ ++ ',' :: rest)))))))))

/-- The text is JSON and says `v`. -/
def Describes (text : String) (v : JSONValue) : Prop :=
  ∃ w₁ t w₂, Blank w₁ ∧ Derives (.value v) t ∧ Blank w₂ ∧ text.toList = w₁ ++ (t ++ w₂)

/-- Text that needs no escapes. -/
theorem stringBody_of_plain {s : List Char} (h : ∀ c ∈ s, isPlain c = true) : StringBody s s := by
  induction s with
  | nil =>
      exact StringBody.nil
  | cons c s ih =>
      exact StringBody.plain (h c List.mem_cons_self) (ih fun d hd => h d (List.mem_cons_of_mem c hd))

/-! ## Inside and outside of strings -/

inductive Lexing where
  | outside
  | inside
  /-- Behind a backslash. -/
  | escaped
  /-- `n + 1` digits of a `\u` are still to come. -/
  | hex (n : Nat)
  | stuck
  deriving DecidableEq, Repr

/-- A character of blanks, punctuation, numbers or the words `true`, `false` and `null`. -/
def isOutside (c : Char) : Bool :=
  c.isDigit || isBlank c ||
    ['{', '}', '[', ']', ':', ',', '+', '-', '.', 'E', 't', 'r', 'u', 'e', 'f', 'a', 'l', 's',
      'n'].contains c

namespace Lexing

def step : Lexing → Char → Lexing
  | .outside, c => if c = '"' then .inside else if isOutside c then .outside else .stuck
  | .inside, c =>
      if c = '"' then .outside else if c = '\\' then .escaped
      else if isPlain c then .inside else .stuck
  | .escaped, c =>
      if c = 'u' then .hex 3 else if (shortEscape? c).isSome then .inside else .stuck
  | .hex n, c =>
      if (hexDigit? c).isSome then
        match n with
        | 0 => .inside
        | n + 1 => .hex n
      else .stuck
  | .stuck, _ => .stuck

def run (σ : Lexing) (text : List Char) : Lexing :=
  text.foldl step σ

@[simp] theorem run_nil (σ : Lexing) : σ.run [] = σ := rfl

@[simp] theorem run_cons (σ : Lexing) (c : Char) (text : List Char) :
    σ.run (c :: text) = (σ.step c).run text := rfl

@[simp] theorem run_append (σ : Lexing) (xs ys : List Char) :
    σ.run (xs ++ ys) = (σ.run xs).run ys :=
  List.foldl_append

@[simp] theorem run_stuck (text : List Char) : Lexing.stuck.run text = .stuck := by
  induction text with
  | nil => rfl
  | cons c text ih => exact ih

theorem run_outside {text : List Char} (h : ∀ c ∈ text, isOutside c = true) :
    Lexing.outside.run text = .outside := by
  induction text with
  | nil => rfl
  | cons c text ih =>
      have hc : isOutside c = true := h c List.mem_cons_self
      have hquote : c ≠ '"' := by
        rintro rfl
        revert hc
        decide
      rw [run_cons, step, if_neg hquote, if_pos hc]
      exact ih fun d hd => h d (List.mem_cons_of_mem c hd)

theorem run_inside {text : List Char} (h : ∀ c ∈ text, isPlain c = true) :
    Lexing.inside.run text = .inside := by
  induction text with
  | nil => rfl
  | cons c text ih =>
      have hc : isPlain c = true := h c List.mem_cons_self
      have hquote : c ≠ '"' := by
        rintro rfl
        revert hc
        decide
      have hbackslash : c ≠ '\\' := by
        rintro rfl
        revert hc
        decide
      rw [run_cons, step, if_neg hquote, if_neg hbackslash, if_pos hc]
      exact ih fun d hd => h d (List.mem_cons_of_mem c hd)

end Lexing

theorem Blank.run_outside {w : List Char} (h : Blank w) : Lexing.outside.run w = .outside := by
  apply Lexing.run_outside
  intro c hc
  simp [isOutside, h c hc]

theorem isOutside_of_isDigit {c : Char} (h : c.isDigit = true) : isOutside c = true := by
  simp [isOutside, h]

/-- Four hexadecimal digits lead back into the string. -/
theorem run_hex4 {a b c d : Char} {n : Nat} (h : hex4? a b c d = some n) (rest : List Char) :
    (Lexing.hex 3).run (a :: b :: c :: d :: rest) = Lexing.inside.run rest := by
  unfold hex4? at h
  cases ha : hexDigit? a with
  | none => simp [ha] at h
  | some x =>
      cases hb : hexDigit? b with
      | none => simp [ha, hb] at h
      | some y =>
          cases hc : hexDigit? c with
          | none => simp [ha, hb, hc] at h
          | some z =>
              cases hd : hexDigit? d with
              | none => simp [ha, hb, hc, hd] at h
              | some w => simp [Lexing.step, ha, hb, hc, hd]

theorem StringBody.run_inside {body s : List Char} (h : StringBody body s) :
    Lexing.inside.run body = .inside := by
  induction h with
  | nil =>
      rfl
  | @plain c body s hc _ ih =>
      rw [← List.singleton_append, Lexing.run_append,
        Lexing.run_inside fun d hd => List.mem_singleton.1 hd ▸ hc]
      exact ih
  | @short e c body s he _ ih =>
      have hu : e ≠ 'u' := by
        rintro rfl
        simp [shortEscape?] at he
      have hsome : (shortEscape? e).isSome = true := by
        rw [he]
        rfl
      show (Lexing.escaped.step e).run body = .inside
      rw [Lexing.step, if_neg hu, if_pos hsome]
      exact ih
  | unicode hn _ _ _ ih =>
      exact (run_hex4 hn _).trans ih
  | pair hhi _ hlo _ _ ih =>
      exact (run_hex4 hhi _).trans ((run_hex4 hlo _).trans ih)
  | lone hn _ _ ih =>
      exact (run_hex4 hn _).trans ih

theorem IsNumber.run_outside {literal sign int frac exp : List Char}
    (h : IsNumber literal sign int frac exp) : Lexing.outside.run literal = .outside := by
  have hdigits {ds : List Char} (hds : Digits ds) : Lexing.outside.run ds = .outside :=
    Lexing.run_outside fun c hc => isOutside_of_isDigit (hds.2 c hc)
  have hsign : Lexing.outside.run sign = .outside := by
    rcases h.sign_eq with rfl | rfl <;> rfl
  have hfrac : Lexing.outside.run frac = .outside := by
    rcases h.frac_eq with rfl | ⟨ds, hds, rfl⟩
    · rfl
    · show (Lexing.outside.step '.').run ds = .outside
      exact hdigits hds
  have hexp : Lexing.outside.run exp = .outside := by
    rcases h.exp_eq with rfl | ⟨e, s, ds, he, hs, hds, rfl⟩
    · rfl
    · have hhead : Lexing.outside.step e = .outside := by
        rcases he with rfl | rfl <;> rfl
      have hs' : Lexing.outside.run s = .outside := by
        rcases hs with rfl | rfl | rfl <;> rfl
      rw [Lexing.run_cons, hhead, Lexing.run_append, hs', hdigits hds]
  rw [h.text_eq, Lexing.run_append, hsign, Lexing.run_append, hdigits h.int_digits.1,
    Lexing.run_append, hfrac, hexp]

/-- No part of a JSON text leaves the automaton inside of a string or stuck. -/
theorem Derives.run_outside {p : Part} {text : List Char} (h : Derives p text) :
    Lexing.outside.run text = .outside := by
  have hquote : Lexing.outside.step '"' = .inside := rfl
  have hclose : Lexing.inside.step '"' = .outside := rfl
  have hcolon : Lexing.outside.step ':' = .outside := rfl
  have hcomma : Lexing.outside.step ',' = .outside := rfl
  induction h with
  | null => rfl
  | true => rfl
  | false => rfl
  | num hnum =>
      exact hnum.run_outside
  | str hbody =>
      simp only [Lexing.run_cons, Lexing.run_append, Lexing.run_nil, hquote, hbody.run_inside, hclose]
  | emptyArr hw =>
      exact (Lexing.run_append _ _ _).trans (congrArg (Lexing.run · _) hw.run_outside)
  | arr _ ih =>
      exact (Lexing.run_append _ _ _).trans (congrArg (Lexing.run · _) ih)
  | emptyObj hw =>
      exact (Lexing.run_append _ _ _).trans (congrArg (Lexing.run · _) hw.run_outside)
  | obj _ ih =>
      exact (Lexing.run_append _ _ _).trans (congrArg (Lexing.run · _) ih)
  | lastElement hw₁ _ hw₂ ih =>
      simp only [Lexing.run_append, hw₁.run_outside, ih, hw₂.run_outside]
  | element hw₁ _ hw₂ _ ih ihrest =>
      simp only [Lexing.run_append, Lexing.run_cons, hw₁.run_outside, ih, hw₂.run_outside, hcomma,
        ihrest]
  | lastMember hw₁ hk hw₂ hw₃ _ hw₄ ih =>
      simp only [Lexing.run_append, Lexing.run_cons, hw₁.run_outside, hquote, hk.run_inside, hclose,
        hw₂.run_outside, hcolon, hw₃.run_outside, ih, hw₄.run_outside]
  | member hw₁ hk hw₂ hw₃ _ hw₄ _ ih ihrest =>
      simp only [Lexing.run_append, Lexing.run_cons, hw₁.run_outside, hquote, hk.run_inside, hclose,
        hw₂.run_outside, hcolon, hw₃.run_outside, ih, hw₄.run_outside, hcomma, ihrest]

/-- A whole JSON text ends outside of strings. -/
theorem Describes.lex_eq {text : String} {v : JSONValue} (h : Describes text v) :
    Lexing.outside.run text.toList = .outside := by
  obtain ⟨w₁, t, w₂, hw₁, ht, hw₂, htext⟩ := h
  rw [htext, Lexing.run_append, hw₁.run_outside, Lexing.run_append, ht.run_outside, hw₂.run_outside]

end Text
end Pgaio
