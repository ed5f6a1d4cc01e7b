import Pgaio.Web.Escaping

/-!
# SqlHistory — taking a query from the history back into the editor

`loadHistory` writes each query into an attribute of its row, and the parser already undoes the
escaping when it reads the attribute.  `useHistory` undoes it once more, so a query that itself contains the
text of a character reference comes back changed (`reuse_iff`).
-/

namespace Pgaio
namespace Web

open Text Text.Html

/-- The replacements of `useHistory`, in their order. -/
def unescapeRules : List (List Char × List Char) :=
  [("&amp;".toList, "&".toList), ("&lt;".toList, "<".toList), ("&gt;".toList, ">".toList),
    ("&#39;".toList, "'".toList), ("&quot;".toList, "\"".toList)]

/-- `useHistory`, with the value of `data-query` and the text of the editor. -/
def useHistory (query editor : List Char) : List Char :=
  if query = [] then editor else replaceEach unescapeRules query

/-- What the editor holds after a click on the row of a query; `markup` is the rest of the page behind
the attribute. -/
def reuse (others : References) (q markup editor : List Char) : Option (List Char) :=
  (quotedValue others (esc q) markup).map fun (query, _) => useHistory query editor

theorem shortens_unescapeRules : Shortens unescapeRules := by
  simp [Shortens, unescapeRules]

theorem reuse_eq (others : References) (q markup editor : List Char) :
    reuse others q markup editor = some (useHistory (inputText q) editor) := by
  rw [reuse, quotedValue_of_renders others (renders_esc q), Option.map_some]

/-- Both the parser and the replacements only shorten a text, so a text that keeps its length is
changed by neither of them. -/
theorem replaceEach_inputText_iff {q : List Char} :
    replaceEach unescapeRules (inputText q) = q ↔
      '\r' ∉ q ∧ nul ∉ q ∧ ∀ rule ∈ unescapeRules, ¬ rule.1 <:+: q := by
  constructor
  · intro h
    have hshort := length_inputText_le q
    have hlength : (inputText q).length ≤ (replaceEach unescapeRules (inputText q)).length := by
      rw [h]
      exact hshort
    have habsent := (length_le_replaceEach_iff shortens_unescapeRules).1 hlength
    have hsame : inputText q = q := (replaceEach_of_absent habsent).symm.trans h
    rw [hsame] at habsent
    obtain ⟨hreturn, hnul⟩ := inputText_eq_self_iff.1 hsame
    exact ⟨hreturn, hnul, habsent⟩
  · rintro ⟨hreturn, hnul, habsent⟩
    rw [inputText_eq_self_iff.2 ⟨hreturn, hnul⟩]
    exact replaceEach_of_absent habsent

theorem reuse_iff (others : References) (q markup editor : List Char) :
    reuse others q markup editor = some q ↔
      (q = [] → editor = []) ∧ '\r' ∉ q ∧ nul ∉ q ∧ ∀ rule ∈ unescapeRules, ¬ rule.1 <:+: q := by
  rw [reuse_eq, Option.some.injEq, useHistory]
  by_cases hq : q = []
  · -- An empty attribute counts as missing, and the editor keeps its text.
    subst hq
    rw [if_pos (inputText_eq_nil.2 rfl)]
    have hrules : ∀ rule ∈ unescapeRules, ¬ rule.1 <:+: [] := by
      simp [unescapeRules]
    exact ⟨fun h => ⟨fun _ => h, List.not_mem_nil, List.not_mem_nil, hrules⟩, fun h => h.1 rfl⟩
  · rw [if_neg (inputText_eq_nil.not.2 hq), replaceEach_inputText_iff]
    exact (and_iff_right fun h => absurd h hq).symm

/-- A query that looks for the text of a reference. -/
theorem reuse_decodes_twice :
    ¬ ∀ (others : References) (q markup editor : List Char), reuse others q markup editor = some q := by
  intro h
  have hreuse := h (fun _ => none) "SELECT '&lt;'".toList [] []
  revert hreuse
  decide +kernel

end Web
end Pgaio
