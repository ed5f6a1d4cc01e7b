import Pgaio.Text.JavaScript
import Pgaio.Web.Escaping

/-!
# RowButtons — the calls behind the buttons of a row

The S3 browser and the configuration page write the key of an object, or the name and the value of a
setting, as string literals into the `onclick` of a button.  The texts are escaped for the attribute
only: once the parser has read it, an apostrophe ends a literal and a backslash begins an escape
sequence.  `rowButtons_iff` says for which texts a button still makes its call.
-/

namespace Pgaio
namespace Web

open Text Text.Html Text.JavaScript

/-- String literals between commas. -/
def literals : List (List Char) → List Char
  | [] => []
  | [arg] => '\'' :: (arg ++ ['\''])
  | arg :: args => '\'' :: (arg ++ '\'' :: ',' :: literals args)

/-- The template of a button: `callee('…','…')` and what follows. -/
def onclick (escape : List Char → List Char) (callee : String) (args : List (List Char))
    (tail : String) : List Char :=
  callee.toList ++ '(' :: (literals (args.map escape) ++ ')' :: tail.toList)

/-! ## The buttons -/

/-- `s3.js`, the link of a directory. -/
def navigateOnclick (key : List Char) : List Char :=
  onclick escHtml "S3Browser.navigate" [key] ";return false"

def downloadOnclick (key : List Char) : List Char :=
  onclick escHtml "S3Browser.download" [key] ""

def deleteOnclick (key : List Char) : List Char :=
  onclick escHtml "S3Browser.deleteObj" [key] ""

/-- `config.js`. -/
def editOnclick (name setting context : List Char) : List Char :=
  onclick esc "ConfigViewer.edit" [name, setting, context] ""

/-- The handler is one call of `callee` with the given strings, whatever markup follows the
attribute. -/
def ActsOn (others : References) (escapes : Escapes) (source : List Char) (callee : String)
    (args : List (List Char)) (tail : String) : Prop :=
  ∀ markup, ∃ program after, quotedValue others source markup = some (program, after) ∧
    IsCall escapes program callee.toList args tail.toList

example : navigateOnclick "wal/".toList = "S3Browser.navigate('wal/');return false".toList := by
  decide

/-! ## The program that the parser reads -/

/-- Characters of a template that stand for themselves in an attribute. -/
def Plain (text : List Char) : Prop :=
  text.all (fun c => decide (c ≠ '"' ∧ c ≠ '&' ∧ NoBreak c ∧ c ≠ nul)) = true

instance (text : List Char) : Decidable (Plain text) :=
  inferInstanceAs (Decidable (_ = true))

theorem Plain.renders {text : List Char} (h : Plain text) : Renders text text := by
  apply renders_of_plain
  intro c hc
  have hplain := of_decide_eq_true (List.all_eq_true.1 h c hc)
  exact ⟨hplain.1, hplain.2.1⟩

theorem renders_literals {escape : List Char → List Char} (hescape : ∀ s, Renders (escape s) s) :
    ∀ args : List (List Char), Renders (literals (args.map escape)) (literals args)
  | [] => .nil
  | [arg] => .plain (by decide) (by decide)
      ((hescape arg).append (.plain (by decide) (by decide) .nil))
  | arg :: next :: args => .plain (by decide) (by decide)
      ((hescape arg).append (.plain (by decide) (by decide)
        (.plain (by decide) (by decide) (renders_literals hescape (next :: args)))))

/-- The escaped button is a source for the button without escaping. -/
theorem renders_onclick {escape : List Char → List Char} (hescape : ∀ s, Renders (escape s) s)
    {callee tail : String} (hcallee : Plain callee.toList) (htail : Plain tail.toList)
    (args : List (List Char)) : Renders (onclick escape callee args tail) (onclick id callee args tail) := by
  have hargs := renders_literals hescape args
  unfold onclick
  rw [List.map_id]
  exact hcallee.renders.append (.plain (by decide) (by decide)
    (hargs.append (.plain (by decide) (by decide) htail.renders)))

theorem Plain.inputText_eq {text : List Char} (h : Plain text) : inputText text = text := by
  have hchar : ∀ c ∈ text, NoBreak c ∧ c ≠ nul := by
    intro c hc
    have hplain := of_decide_eq_true (List.all_eq_true.1 h c hc)
    exact hplain.2.2
  apply inputText_eq_self_iff.2
  exact ⟨fun hreturn => (hchar _ hreturn).1.1 rfl, fun hnul => (hchar _ hnul).2 rfl⟩

theorem inputText_cons {c : Char} (hc : NoBreak c) (hnul : c ≠ nul) (text : List Char) :
    inputText (c :: text) = c :: inputText text :=
  inputText_append_cons hc hnul [] text

theorem inputText_literals : ∀ args : List (List Char),
    inputText (literals args) = literals (args.map inputText)
  | [] => rfl
  | [arg] => by
      rw [literals, inputText_cons (by decide) (by decide),
        inputText_append_cons (by decide) (by decide)]
      rfl
  | arg :: next :: args => by
      rw [literals, inputText_cons (by decide) (by decide),
        inputText_append_cons (by decide) (by decide), inputText_cons (by decide) (by decide),
        inputText_literals (next :: args)]
      · rfl
      · simp

/-- The parser changes nothing but the strings. -/
theorem inputText_onclick {callee tail : String} (hcallee : Plain callee.toList)
    (htail : Plain tail.toList) (args : List (List Char)) :
    inputText (onclick id callee args tail) =
      callee.toList ++ '(' :: (literals (args.map inputText) ++ ')' :: tail.toList) := by
  rw [onclick, List.map_id, inputText_append_cons (by decide) (by decide),
    inputText_append_cons (by decide) (by decide), inputText_literals, hcallee.inputText_eq,
    htail.inputText_eq]

theorem actsOn_onclick_iff (others : References) (escapes : Escapes)
    {escape : List Char → List Char} (hescape : ∀ s, Renders (escape s) s) {callee tail : String}
    (hcallee : Plain callee.toList) (htail : Plain tail.toList) (args : List (List Char)) :
    ActsOn others escapes (onclick escape callee args tail) callee args tail ↔
      Args escapes (literals (args.map inputText) ++ ')' :: tail.toList) args tail.toList := by
  have hvalue (markup : List Char) :
      quotedValue others (onclick escape callee args tail) markup =
        some (callee.toList ++ '(' :: (literals (args.map inputText) ++ ')' :: tail.toList),
          normalizeNewlines markup) := by
    rw [quotedValue_of_renders others (renders_onclick hescape hcallee htail args),
      inputText_onclick hcallee htail]
  constructor
  · intro h
    obtain ⟨program, after, hread, body, hprogram, hargs⟩ := h []
    rw [hvalue, Option.some.injEq, Prod.mk.injEq] at hread
    rw [← hread.1] at hprogram
    obtain rfl := (List.cons.inj (List.append_cancel_left hprogram)).2
    exact hargs
  · intro h markup
    exact ⟨_, _, hvalue markup, _, rfl, h⟩

/-! ## Literals that are read back -/

/-- Nothing in the text is special in a literal, or replaced by the parser. -/
def Unspecial (text : List Char) : Prop :=
  ∀ c ∈ text, Ordinary c ∧ c ≠ nul

variable {escapes : Escapes}

theorem Unspecial.inputText_eq {text : List Char} (h : Unspecial text) : inputText text = text := by
  apply inputText_eq_self_iff.2
  exact ⟨fun hreturn => (h _ hreturn).1.2.2.2 rfl, fun hnul => (h _ hnul).2 rfl⟩

/-- A literal that is read back as the string it was written for has nothing special in it. -/
theorem unspecial_of_literal {text after rest : List Char}
    (h : literal escapes 0 (inputText text ++ '\'' :: after) = some (text, rest))
    (hafter : '\'' ∉ after ∨ ∃ next, after = ',' :: '\'' :: next) :
    rest = after ∧ Unspecial text := by
  have hshort := length_inputText_le text
  cases outcome_of_literal h with
  -- The value would be shorter than the text that was written.
  | inside hlength => omega
  | closes hrest hlength hsame =>
      obtain ⟨hvalue, hordinary⟩ := hsame hshort
      have hnul := (inputText_eq_self_iff.1 hvalue.symm).2
      rw [← hvalue] at hordinary
      exact ⟨hrest, fun c hc => ⟨hordinary c hc, fun heq => hnul (heq ▸ hc)⟩⟩
  | escaped front back hlast hvalue hlength hback =>
      exfalso
      rcases hafter with hnone | ⟨next, rfl⟩
      · rw [literal_of_quote_notMem hnone] at hback
        cases hback
      · -- The literal ends behind the comma, so its string does not end with a backslash.
        have hcomma : literal escapes 0 (',' :: '\'' :: next) = some ([','], next) := rfl
        rw [hcomma] at hback
        cases hback
        have hsplit : front ++ '\'' :: [','] = (front ++ ['\'']) ++ ',' :: [] := by
          simp
        rw [hvalue, hsplit, inputText_append_cons (by decide) (by decide)] at hlast
        simp [inputText, normalizeNewlines, normalizeFrom] at hlast

theorem args_iff {tail : List Char} (htail : '\'' ∉ tail) : ∀ {args : List (List Char)}, args ≠ [] →
    (Args escapes (literals (args.map inputText) ++ ')' :: tail) args tail ↔
      ∀ arg ∈ args, Unspecial arg)
  | [], hne => absurd rfl hne
  | [arg], _ => by
      have htext : literals ([arg].map inputText) ++ ')' :: tail =
          '\'' :: (inputText arg ++ '\'' :: ')' :: tail) := by
        simp [literals]
      rw [htext, List.forall_mem_singleton]
      constructor
      · intro h
        cases h with
        | last hread => exact (unspecial_of_literal hread (Or.inl (by simpa using htail))).2
        | more hread hnext => cases hnext
      · intro h
        rw [h.inputText_eq]
        exact .last (literal_ordinary (fun c hc => (h c hc).1) _)
  | arg :: next :: args, _ => by
      have ih := @args_iff tail htail (next :: args) (by simp)
      have htext : literals ((arg :: next :: args).map inputText) ++ ')' :: tail =
          '\'' :: (inputText arg ++ '\'' :: ',' ::
            (literals ((next :: args).map inputText) ++ ')' :: tail)) := by
        simp [literals]
      rw [htext, List.forall_mem_cons, ← ih]
      have hquote : ∃ more, literals ((next :: args).map inputText) ++ ')' :: tail = '\'' :: more := by
        cases args with
        | nil => exact ⟨_, rfl⟩
        | cons _ _ => exact ⟨_, rfl⟩
      constructor
      · intro h
        cases h with
        | more hread hnext =>
            obtain ⟨more, hmore⟩ := hquote
            obtain ⟨hrest, hunspecial⟩ := unspecial_of_literal hread (Or.inr ⟨more, by rw [hmore]⟩)
            obtain rfl := (List.cons.inj hrest).2
            exact ⟨hunspecial, hnext⟩
      · -- An ordinary argument is read up to its own quote, so the comma follows.
        rintro ⟨h, hnext⟩
        rw [h.inputText_eq]
        exact .more (literal_ordinary (fun c hc => (h c hc).1) _) hnext

/-- A button makes its call exactly when none of its strings has a special character. -/
theorem actsOn_iff_unspecial (others : References) (escapes : Escapes)
    {escape : List Char → List Char} (hescape : ∀ s, Renders (escape s) s) {callee tail : String}
    (hcallee : Plain callee.toList) (htail : Plain tail.toList) (hquote : '\'' ∉ tail.toList)
    {args : List (List Char)} (hargs : args ≠ []) :
    ActsOn others escapes (onclick escape callee args tail) callee args tail ↔
      ∀ arg ∈ args, Unspecial arg := by
  rw [actsOn_onclick_iff others escapes hescape hcallee htail, args_iff hquote hargs]

theorem rowButtons_iff (others : References) (escapes : Escapes) :
    (∀ key, ActsOn others escapes (navigateOnclick key) "S3Browser.navigate" [key] ";return false" ↔
      Unspecial key) ∧
    (∀ key, ActsOn others escapes (downloadOnclick key) "S3Browser.download" [key] "" ↔
      Unspecial key) ∧
    (∀ key, ActsOn others escapes (deleteOnclick key) "S3Browser.deleteObj" [key] "" ↔
      Unspecial key) ∧
    ∀ name setting context,
      ActsOn others escapes (editOnclick name setting context) "ConfigViewer.edit"
          [name, setting, context] "" ↔
        Unspecial name ∧ Unspecial setting ∧ Unspecial context := by
  have hempty : '\'' ∉ "".toList := List.not_mem_nil
  refine ⟨fun key => ?_, fun key => ?_, fun key => ?_, fun name setting context => ?_⟩
  · rw [navigateOnclick, actsOn_iff_unspecial others escapes renders_escHtml (by decide) (by decide)
      (by decide) (by simp), List.forall_mem_singleton]
  · rw [downloadOnclick, actsOn_iff_unspecial others escapes renders_escHtml (by decide) (by decide)
      hempty (by simp), List.forall_mem_singleton]
  · rw [deleteOnclick, actsOn_iff_unspecial others escapes renders_escHtml (by decide) (by decide)
      hempty (by simp), List.forall_mem_singleton]
  · rw [editOnclick, actsOn_iff_unspecial others escapes renders_esc (by decide) (by decide) hempty
      (by simp), List.forall_mem_cons, List.forall_mem_cons, List.forall_mem_singleton]

/-- The escape sequences of one character that stand for themselves. -/
def selfEscapes : Escapes where
  read
    | [] => none
    | c :: _ => some ([c], 1)
  quote := fun _ => rfl
  bounds := by
    intro text value length h
    cases text with
    | nil => cases h
    | cons c text =>
        cases h
        simp
  noQuote := by
    intro c rest value length h hc
    cases h
    simpa using hc.symm

/-- The apostrophe of a file name ends the literal. -/
theorem rowButtons_apostrophe :
    ¬ ∀ (others : References) (escapes : Escapes) (key name setting context : List Char),
      ActsOn others escapes (navigateOnclick key) "S3Browser.navigate" [key] ";return false" ∧
        ActsOn others escapes (downloadOnclick key) "S3Browser.download" [key] "" ∧
          ActsOn others escapes (deleteOnclick key) "S3Browser.deleteObj" [key] "" ∧
            ActsOn others escapes (editOnclick name setting context) "ConfigViewer.edit"
              [name, setting, context] "" := by
  intro h
  obtain ⟨-, hdownload, -⟩ := h (fun _ => none) selfEscapes "it's.txt".toList [] [] []
  rw [downloadOnclick, actsOn_iff_unspecial _ _ renders_escHtml (by decide) (by decide)
    List.not_mem_nil (by simp), List.forall_mem_singleton] at hdownload
  exact (hdownload '\'' (by decide)).1.1 rfl

end Web
end Pgaio
