import Mathlib.Data.List.Basic

/-!
# Html — reading the value of a quoted attribute

A value in double quotes is read up to the next quote.  Line breaks become newlines before anything
else, a character reference stands for its character, and a null character is replaced.  `Renders` relates
what is written between the quotes to the text it is written for; such a source is read back as that text,
apart from its line breaks and null characters (`quotedValue_of_renders`).
-/

namespace Pgaio
namespace Text
namespace Html

def nul : Char := Char.ofNat 0

def replacement : Char := Char.ofNat 0xFFFD

/-- Every line break becomes a newline; `after` says that a carriage return stands just before. -/
def normalizeFrom : Bool → List Char → List Char
  | _, [] => []
  | after, c :: rest =>
      if c = '\r' then '\n' :: normalizeFrom true rest
      else if c = '\n' ∧ after = true then normalizeFrom false rest
      else c :: normalizeFrom false rest

def normalizeNewlines (text : List Char) : List Char :=
  normalizeFrom false text

/-- A character as it arrives in a value. -/
def received (c : Char) : Char :=
  if c = nul then replacement else c

/-- What the parser makes of a text without references. -/
def inputText (text : List Char) : List Char :=
  (normalizeNewlines text).map received

/-! ## Character references -/

/-- What the text after an ampersand refers to, and the length of the reference. -/
abbrev References := List Char → Option (List Char × Nat)

/-- The references for the characters of markup, without the ampersand. -/
def entities : List (List Char × Char) :=
  [("amp;".toList, '&'), ("lt;".toList, '<'), ("gt;".toList, '>'), ("#39;".toList, '\''),
    ("quot;".toList, '"')]

/-- These references, and all `others`. -/
def reference (others : References) : References := fun text =>
  match entities.find? fun entity => entity.1.isPrefixOf text with
  | some entity => some ([entity.2], entity.1.length)
  | none => others text

/-- The value up to the closing quote, and what follows the quote.  The next `skip` characters belong to
a reference. -/
def attributeValue (others : References) : Nat → List Char → Option (List Char × List Char)
  | _, [] => none
  | skip + 1, _ :: rest => attributeValue others skip rest
  | 0, c :: rest =>
      if c = '"' then some ([], rest)
      else if c = '&' then
        match reference others rest with
        | some (text, length) =>
            (attributeValue others length rest).map fun (value, after) => (text ++ value, after)
        -- An ampersand that begins no reference stands for itself.
        | none => (attributeValue others 0 rest).map fun (value, after) => ('&' :: value, after)
      else (attributeValue others 0 rest).map fun (value, after) => (received c :: value, after)

/-- The value of an attribute with this source, whatever markup follows it. -/
def quotedValue (others : References) (source markup : List Char) : Option (List Char × List Char) :=
  attributeValue others 0 (normalizeNewlines (source ++ '"' :: markup))

/-! ## Line breaks -/

/-- Neither a carriage return nor a newline. -/
def NoBreak (c : Char) : Prop :=
  c ≠ '\r' ∧ c ≠ '\n'

instance (c : Char) : Decidable (NoBreak c) :=
  inferInstanceAs (Decidable (_ ∧ _))

theorem normalizeFrom_cons {c : Char} (hc : NoBreak c) (after : Bool) (text : List Char) :
    normalizeFrom after (c :: text) = c :: normalizeFrom false text := by
  rw [normalizeFrom, if_neg hc.1, if_neg fun h => hc.2 h.1]

theorem normalizeFrom_append_cons {c : Char} (hc : NoBreak c) (after : Bool) (xs ys : List Char) :
    normalizeFrom after (xs ++ c :: ys) = normalizeFrom after xs ++ c :: normalizeFrom false ys := by
  induction xs generalizing after with
  | nil => exact normalizeFrom_cons hc after ys
  | cons x xs ih =>
      simp only [List.cons_append, normalizeFrom, ih]
      split
      · rfl
      · split
        · rfl
        · rfl

theorem normalizeFrom_append {xs : List Char} (hne : xs ≠ []) (hxs : ∀ c ∈ xs, NoBreak c)
    (after : Bool) (ys : List Char) : normalizeFrom after (xs ++ ys) = xs ++ normalizeFrom false ys := by
  induction xs generalizing after with
  | nil => exact absurd rfl hne
  | cons x xs ih =>
      rw [List.cons_append, normalizeFrom_cons (hxs x List.mem_cons_self)]
      cases xs with
      | nil => rfl
      | cons y xs =>
          rw [ih (by simp) fun c hc => hxs c (List.mem_cons_of_mem _ hc)]
          rfl

theorem return_notMem_normalizeFrom (after : Bool) (text : List Char) :
    '\r' ∉ normalizeFrom after text := by
  induction text generalizing after with
  | nil => exact List.not_mem_nil
  | cons c text ih =>
      rw [normalizeFrom]
      split
      · simpa using ih true
      · rename_i hc
        split
        · exact ih false
        · simpa [Ne.symm hc] using ih false

theorem normalizeNewlines_of_notMem {text : List Char} (h : '\r' ∉ text) :
    normalizeNewlines text = text := by
  unfold normalizeNewlines
  induction text with
  | nil => rfl
  | cons c text ih =>
      rw [List.mem_cons, not_or] at h
      rw [normalizeFrom, if_neg (Ne.symm h.1), if_neg (by simp), ih h.2]

theorem length_normalizeFrom_le (after : Bool) (text : List Char) :
    (normalizeFrom after text).length ≤ text.length := by
  induction text generalizing after with
  | nil => exact Nat.le_refl _
  | cons c text ih =>
      rw [normalizeFrom]
      split
      · exact Nat.succ_le_succ (ih true)
      · split
        · exact Nat.le_succ_of_le (ih false)
        · exact Nat.succ_le_succ (ih false)

theorem normalizeFrom_eq_nil {text : List Char} : normalizeFrom false text = [] ↔ text = [] := by
  cases text with
  | nil => simp [normalizeFrom]
  | cons c text =>
      rw [normalizeFrom]
      split
      · simp
      · rw [if_neg (by simp)]
        simp

/-! ## Texts that arrive unchanged -/

theorem received_of_ne {c : Char} (h : c ≠ nul) : received c = c := if_neg h

theorem length_inputText_le (text : List Char) : (inputText text).length ≤ text.length := by
  rw [inputText, List.length_map]
  exact length_normalizeFrom_le false text

theorem inputText_eq_nil {text : List Char} : inputText text = [] ↔ text = [] := by
  rw [inputText, List.map_eq_nil_iff]
  exact normalizeFrom_eq_nil

theorem inputText_eq_self_iff {text : List Char} : inputText text = text ↔ '\r' ∉ text ∧ nul ∉ text := by
  constructor
  · intro h
    constructor
    · rw [← h, inputText, List.mem_map]
      rintro ⟨c, hc, hreturn⟩
      -- Only a carriage return arrives as one, and none is left.
      have heq : c = '\r' := by
        by_contra hne
        unfold received at hreturn
        split at hreturn
        · exact absurd hreturn (by decide)
        · exact hne hreturn
      exact return_notMem_normalizeFrom false text (heq ▸ hc)
    · rw [← h, inputText, List.mem_map]
      rintro ⟨c, -, hnul⟩
      unfold received at hnul
      split at hnul
      · exact absurd hnul (by decide)
      · rename_i hne
        exact hne hnul
  · rintro ⟨hreturn, hnul⟩
    rw [inputText, normalizeNewlines_of_notMem hreturn]
    have hsame : ∀ c ∈ text, received c = c := fun c hc => received_of_ne fun heq => hnul (heq ▸ hc)
    rw [List.map_congr_left hsame, List.map_id']

theorem inputText_append_cons {c : Char} (hc : NoBreak c) (hnul : c ≠ nul) (xs ys : List Char) :
    inputText (xs ++ c :: ys) = inputText xs ++ c :: inputText ys := by
  rw [inputText, normalizeNewlines, normalizeFrom_append_cons hc, List.map_append, List.map_cons,
    received_of_ne hnul]
  rfl

/-! ## Sources -/

/-- A source for a text: each character stands for itself or is written as a reference. -/
inductive Renders : List Char → List Char → Prop where
  | nil : Renders [] []
  | plain {c : Char} {source text : List Char} (hquote : c ≠ '"') (hampersand : c ≠ '&')
      (h : Renders source text) : Renders (c :: source) (c :: text)
  | entity {entity : List Char × Char} {source text : List Char} (hmem : entity ∈ entities)
      (h : Renders source text) : Renders ('&' :: (entity.1 ++ source)) (entity.2 :: text)

theorem Renders.append {xs ys source text : List Char} (hxs : Renders xs ys)
    (h : Renders source text) : Renders (xs ++ source) (ys ++ text) := by
  induction hxs with
  | nil => exact h
  | plain hquote hampersand _ ih => exact .plain hquote hampersand ih
  | entity hmem _ ih =>
      rw [List.cons_append, List.append_assoc, List.cons_append]
      exact .entity hmem ih

theorem renders_of_plain {text : List Char} (h : ∀ c ∈ text, c ≠ '"' ∧ c ≠ '&') : Renders text text := by
  induction text with
  | nil => exact .nil
  | cons c text ih =>
      have hc := h c List.mem_cons_self
      exact .plain hc.1 hc.2 (ih fun d hd => h d (List.mem_cons_of_mem _ hd))

/-- What all references have in common. -/
theorem entity_spec {entity : List Char × Char} (h : entity ∈ entities) :
    entity.1 ≠ [] ∧ (∀ c ∈ entity.1, NoBreak c) ∧ NoBreak entity.2 ∧ entity.2 ≠ nul := by
  have hall : entities.all (fun e => !e.1.isEmpty && e.1.all (fun c => decide (NoBreak c)) &&
      decide (NoBreak e.2 ∧ e.2 ≠ nul)) = true := by
    decide
  have hentity := List.all_eq_true.1 hall entity h
  simpa [and_assoc] using hentity

/-- No reference begins another one. -/
theorem reference_entity (others : References) {entity : List Char × Char} (h : entity ∈ entities)
    (rest : List Char) :
    reference others (entity.1 ++ rest) = some ([entity.2], entity.1.length) := by
  simp only [entities, List.mem_cons, List.not_mem_nil, or_false] at h
  rcases h with rfl | rfl | rfl | rfl | rfl
  · rfl
  · rfl
  · rfl
  · rfl
  · rfl

theorem Renders.normalizeFrom {source text : List Char} (h : Renders source text) (after : Bool) :
    Renders (normalizeFrom after source) (normalizeFrom after text) := by
  induction h generalizing after with
  | nil => exact .nil
  | @plain c source text hquote hampersand _ ih =>
      simp only [Html.normalizeFrom]
      split
      · exact .plain (by decide) (by decide) (ih true)
      · split
        · exact ih false
        · exact .plain hquote hampersand (ih false)
  | entity hmem _ ih =>
      -- There is no line break in a reference, nor in what it stands for.
      obtain ⟨hne, hname, hchar, -⟩ := entity_spec hmem
      rw [normalizeFrom_cons (by decide), normalizeFrom_append hne hname, normalizeFrom_cons hchar]
      exact .entity hmem (ih false)

theorem attributeValue_skip (others : References) (xs rest : List Char) :
    attributeValue others xs.length (xs ++ rest) = attributeValue others 0 rest := by
  induction xs with
  | nil => rfl
  | cons x xs ih => exact ih

theorem attributeValue_of_renders (others : References) {source text : List Char}
    (h : Renders source text) (markup : List Char) :
    attributeValue others 0 (source ++ '"' :: markup) = some (text.map received, markup) := by
  induction h with
  | nil => rfl
  | plain hquote hampersand _ ih =>
      rw [List.cons_append, attributeValue, if_neg hquote, if_neg hampersand, ih]
      rfl
  | @entity entity source text hmem _ ih =>
      obtain ⟨-, -, -, hnul⟩ := entity_spec hmem
      rw [List.cons_append, List.append_assoc, attributeValue, if_neg (by decide), if_pos rfl,
        reference_entity others hmem]
      dsimp only
      rw [attributeValue_skip, ih, List.map_cons, received_of_ne hnul]
      rfl

/-- A source is read back as its text, apart from line breaks and null characters. -/
theorem quotedValue_of_renders (others : References) {source text : List Char}
    (h : Renders source text) (markup : List Char) :
    quotedValue others source markup = some (inputText text, normalizeNewlines markup) := by
  have hquote : NoBreak '"' := by decide
  rw [quotedValue, normalizeNewlines, normalizeFrom_append_cons hquote,
    attributeValue_of_renders others (h.normalizeFrom false)]
  rfl

end Html
end Text
end Pgaio
