import Pgaio.Text.Html
import Pgaio.Text.Replace

/-!
# Escaping — texts in the markup that the pages build

Two functions of the frontend prepare a text for markup: `esc`, which the SQL editor and the
configuration page each have as a method, and `escHtml` of `app.js`, which leaves apostrophes alone.
Both write sources that the parser reads back as the text.
-/

namespace Pgaio
namespace Web

open Text Text.Html

/-- `(s || '').replace(/&/g, '&amp;')` and so on. -/
def escRules : List (List Char × List Char) :=
  [("&".toList, "&amp;".toList), ("<".toList, "&lt;".toList), (">".toList, "&gt;".toList),
    ("'".toList, "&#39;".toList), ("\"".toList, "&quot;".toList)]

/-- `SQLEditor.esc` and `ConfigViewer.esc`. -/
def esc (s : List Char) : List Char :=
  replaceEach escRules s

def escHtmlRules : List (List Char × List Char) :=
  [("&".toList, "&amp;".toList), ("<".toList, "&lt;".toList), (">".toList, "&gt;".toList),
    ("\"".toList, "&quot;".toList)]

def escHtml (s : List Char) : List Char :=
  replaceEach escHtmlRules s

/-- Rules render a text when each of them writes a reference for its character, and quotes and ampersands
have a rule. -/
theorem renders_replaceEach {rules : List (List Char × List Char)}
    (hsingle : ∀ rule ∈ rules, ∃ c, rule.1 = [c])
    (hentity : ∀ entity ∈ entities, replaceEach rules [entity.2] = '&' :: entity.1 ∨
      replaceEach rules [entity.2] = [entity.2] ∧ entity.2 ≠ '"' ∧ entity.2 ≠ '&')
    (hother : ∀ c, (∀ entity ∈ entities, c ≠ entity.2) → replaceEach rules [c] = [c]) (s : List Char) :
    Renders (replaceEach rules s) s := by
  -- Every rule replaces a single character, so the characters can be looked at one by one.
  have hchar : ∀ c, Renders (replaceEach rules [c]) [c] := by
    intro c
    by_cases hc : ∃ entity ∈ entities, c = entity.2
    · obtain ⟨entity, hmem, rfl⟩ := hc
      rcases hentity entity hmem with hrule | ⟨hrule, hquote, hampersand⟩
      · rw [hrule]
        have hrenders := Renders.entity hmem .nil
        rwa [List.append_nil] at hrenders
      · rw [hrule]
        exact .plain hquote hampersand .nil
    · push Not at hc
      rw [hother c hc]
      exact .plain (hc ("quot;".toList, '"') (by decide)) (hc ("amp;".toList, '&') (by decide)) .nil
  induction s with
  | nil =>
      have hnil : replaceEach rules [] = [] := by
        clear hsingle hentity hother hchar
        induction rules with
        | nil => rfl
        | cons rule rules ih => exact ih
      rw [hnil]
      exact .nil
  | cons c s ih =>
      have hsplit : replaceEach rules (c :: s) = replaceEach rules [c] ++ replaceEach rules s :=
        replaceEach_append hsingle [c] s
      rw [hsplit]
      exact (hchar c).append ih

theorem renders_esc (s : List Char) : Renders (esc s) s := by
  apply renders_replaceEach
  · simp [escRules]
  · simp [entities, escRules, replaceText_singleton]
  · intro c hc
    simp only [entities, List.mem_cons, forall_eq_or_imp, List.not_mem_nil, false_implies,
      implies_true, and_true] at hc
    simp [escRules, replaceText_singleton, hc]

/-- An apostrophe is written as it stands. -/
theorem renders_escHtml (s : List Char) : Renders (escHtml s) s := by
  apply renders_replaceEach
  · simp [escHtmlRules]
  · simp [entities, escHtmlRules, replaceText_singleton]
  · intro c hc
    simp only [entities, List.mem_cons, forall_eq_or_imp, List.not_mem_nil, false_implies,
      implies_true, and_true] at hc
    simp [escHtmlRules, replaceText_singleton, hc]

end Web
end Pgaio
