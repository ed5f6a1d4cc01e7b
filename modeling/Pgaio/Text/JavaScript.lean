import Mathlib.Data.List.Basic

/-!
# JavaScript — calls whose arguments are string literals

`literal` reads a literal in single quotes, and `IsCall` says that a program is one call with such
literals as its arguments.  What an escape sequence stands for is a parameter with the laws that the
proofs need (`Escapes`).  `outcome_of_literal` says how a literal can end that was written as a text
between two quotes: at the second quote, before it, or behind it when the text ends with a backslash.
-/

namespace Pgaio
namespace Text
namespace JavaScript

/-- The escape sequences: what the text after a backslash stands for, and the length of the sequence. -/
structure Escapes where
  read : List Char → Option (List Char × Nat)
  quote : ∀ rest, read ('\'' :: rest) = some (['\''], 1)
  bounds : ∀ {text value : List Char} {length : Nat}, read text = some (value, length) →
    1 ≤ length ∧ length ≤ text.length ∧ value.length ≤ length
  /-- Only the escaped quote has a quote in it. -/
  noQuote : ∀ {c : Char} {rest value : List Char} {length : Nat},
    read (c :: rest) = some (value, length) → c ≠ '\'' → '\'' ∉ (c :: rest).take length

/-- The value of a literal after its opening quote, and what follows the closing one.  The next `skip`
characters belong to an escape sequence. -/
def literal (escapes : Escapes) : Nat → List Char → Option (List Char × List Char)
  | _, [] => none
  | skip + 1, _ :: rest => literal escapes skip rest
  | 0, c :: rest =>
      if c = '\'' then some ([], rest)
      -- A literal in single quotes cannot go over a line break.
      else if c = '\n' ∨ c = '\r' then none
      else if c = '\\' then
        match escapes.read rest with
        | none => none
        | some (text, length) =>
            (literal escapes length rest).map fun (value, after) => (text ++ value, after)
      else (literal escapes 0 rest).map fun (value, after) => (c :: value, after)

/-- Literals between commas, up to the closing parenthesis. -/
inductive Args (escapes : Escapes) : List Char → List (List Char) → List Char → Prop where
  | last {text value rest : List Char} (h : literal escapes 0 text = some (value, ')' :: rest)) :
      Args escapes ('\'' :: text) [value] rest
  | more {text value next rest : List Char} {values : List (List Char)}
      (h : literal escapes 0 text = some (value, ',' :: next)) (hnext : Args escapes next values rest) :
      Args escapes ('\'' :: text) (value :: values) rest

/-- The program calls `callee` with these strings, and goes on with `rest`. -/
def IsCall (escapes : Escapes) (program callee : List Char) (args : List (List Char))
    (rest : List Char) : Prop :=
  ∃ body, program = callee ++ '(' :: body ∧ Args escapes body args rest

/-- Characters that stand for themselves in a literal. -/
def Ordinary (c : Char) : Prop :=
  c ≠ '\'' ∧ c ≠ '\\' ∧ c ≠ '\n' ∧ c ≠ '\r'

variable {escapes : Escapes}

theorem literal_skip (skip : Nat) (text : List Char) :
    literal escapes skip text = literal escapes 0 (text.drop skip) := by
  induction text generalizing skip with
  | nil => cases skip <;> rfl
  | cons c text ih =>
      cases skip with
      | zero => rfl
      | succ skip => exact ih skip

theorem literal_ordinary {text : List Char} (h : ∀ c ∈ text, Ordinary c) (rest : List Char) :
    literal escapes 0 (text ++ '\'' :: rest) = some (text, rest) := by
  induction text with
  | nil => rfl
  | cons c text ih =>
      obtain ⟨hquote, hbackslash, hnewline, hreturn⟩ := h c List.mem_cons_self
      rw [List.cons_append, literal, if_neg hquote, if_neg (by simp [hnewline, hreturn]),
        if_neg hbackslash, ih fun d hd => h d (List.mem_cons_of_mem _ hd)]
      rfl

/-- A literal needs a closing quote. -/
theorem literal_of_quote_notMem {text : List Char} (h : '\'' ∉ text) (skip : Nat) :
    literal escapes skip text = none := by
  induction text generalizing skip with
  | nil => cases skip <;> rfl
  | cons c text ih =>
      rw [List.mem_cons, not_or] at h
      cases skip with
      | succ skip => exact ih h.2 skip
      | zero =>
          rw [literal, if_neg (Ne.symm h.1), ih h.2 0]
          split
          · rfl
          · split
            · split
              · rfl
              · rw [ih h.2]
                rfl
            · rfl

/-- How a literal ends whose text is `text`, a quote and `after`. -/
inductive Outcome (escapes : Escapes) (text after value rest : List Char) : Prop where
  /-- A quote in the text ends it. -/
  | inside (hlength : value.length < text.length)
  | closes (hrest : rest = after) (hlength : value.length ≤ text.length)
      (hsame : text.length ≤ value.length → value = text ∧ ∀ c ∈ text, Ordinary c)
  /-- The quote behind the text belongs to the literal. -/
  | escaped (front back : List Char) (hlast : text.getLast? = some '\\')
      (hvalue : value = front ++ '\'' :: back) (hlength : front.length < text.length)
      (hback : literal escapes 0 after = some (back, rest))

theorem Outcome.cons {c : Char} {text after value rest : List Char} (hc : Ordinary c)
    (h : Outcome escapes text after value rest) :
    Outcome escapes (c :: text) after (c :: value) rest := by
  cases h with
  | inside hlength => exact .inside (by simpa using hlength)
  | closes hrest hlength hsame =>
      refine .closes hrest (by simpa using hlength) fun hle => ?_
      obtain ⟨rfl, hordinary⟩ := hsame (by simpa using hle)
      exact ⟨rfl, List.forall_mem_cons.2 ⟨hc, hordinary⟩⟩
  | escaped front back hlast hvalue hlength hback =>
      refine .escaped (c :: front) back ?_ (by rw [hvalue]; rfl) (by simpa using hlength) hback
      cases text with
      | nil => cases hlast
      | cons d text => rwa [List.getLast?_cons_cons]

/-- An escape sequence is longer than what it stands for. -/
theorem Outcome.escape {text after value rest seq : List Char} {length : Nat}
    (hseq : seq.length ≤ length) (hle : length ≤ text.length)
    (h : Outcome escapes (text.drop length) after value rest) :
    Outcome escapes ('\\' :: text) after (seq ++ value) rest := by
  have hdrop : (text.drop length).length = text.length - length := List.length_drop
  cases h with
  | inside hlength =>
      refine .inside ?_
      rw [List.length_append, List.length_cons]
      omega
  | closes hrest hlength hsame =>
      -- The value has lost the backslash, so it cannot be as long as the text.
      refine .closes hrest ?_ fun hlong => ?_
      · rw [List.length_append, List.length_cons]
        omega
      · rw [List.length_append, List.length_cons] at hlong
        omega
  | escaped front back hlast hvalue hlength hback =>
      -- The text and what is left of it behind the sequence have the same last character.
      refine .escaped (seq ++ front) back ?_ (by rw [hvalue, List.append_assoc]) ?_ hback
      · rw [List.getLast?_drop] at hlast
        split at hlast
        · cases hlast
        · cases text with
          | nil => cases hlast
          | cons d text => rwa [List.getLast?_cons_cons]
      · rw [List.length_append, List.length_cons]
        omega

/-- A sequence that begins in a text does not reach over the quote behind it. -/
theorem length_le_of_read {text after seq : List Char} {length : Nat} (hne : text ≠ [])
    (h : escapes.read (text ++ '\'' :: after) = some (seq, length)) : length ≤ text.length := by
  obtain ⟨d, text, rfl⟩ := List.exists_cons_of_ne_nil hne
  have hread : escapes.read (d :: (text ++ '\'' :: after)) = some (seq, length) := h
  by_cases hd : d = '\''
  · subst hd
    rw [escapes.quote] at hread
    cases hread
    exact Nat.succ_pos _
  · -- A longer sequence would contain the quote.
    by_contra hlong
    have htake : (d :: (text ++ '\'' :: after)).take length =
        d :: text ++ ('\'' :: after).take (length - (d :: text).length) := by
      rw [← List.cons_append, List.take_append, List.take_of_length_le (Nat.le_of_lt (Nat.lt_of_not_le hlong))]
    apply escapes.noQuote hread hd
    rw [htake, List.mem_append]
    refine Or.inr ?_
    cases hrest : length - (d :: text).length with
    | zero => omega
    | succ k => exact List.mem_cons_self

theorem outcome_of_literal {text after value rest : List Char}
    (h : literal escapes 0 (text ++ '\'' :: after) = some (value, rest)) :
    Outcome escapes text after value rest := by
  -- On the length, since an escape sequence takes several characters at once.
  induction hlength : text.length using Nat.strongRecOn generalizing text value with
  | ind n ih =>
  cases text with
  | nil =>
      cases h
      exact .closes rfl (Nat.le_refl _) fun _ => ⟨rfl, by simp⟩
  | cons c text =>
      have ihtext : ∀ {text' value' : List Char}, text'.length ≤ text.length →
          literal escapes 0 (text' ++ '\'' :: after) = some (value', rest) →
          Outcome escapes text' after value' rest := fun hle hread =>
        ih _ (by rw [← hlength]; exact Nat.lt_succ_of_le hle) hread rfl
      rw [List.cons_append, literal] at h
      split at h
      · cases h
        exact .inside (Nat.succ_pos _)
      · rename_i hquote
        split at h
        · cases h
        · rename_i hbreak
          rw [not_or] at hbreak
          split at h
          · -- A backslash: the sequence lies in the text, unless the text ends here.
            rename_i hbackslash
            subst hbackslash
            split at h
            · cases h
            · rename_i seq length hread
              obtain ⟨⟨value', rest'⟩, hnext, heq⟩ := Option.map_eq_some_iff.1 h
              cases heq
              obtain ⟨hpos, -, hseq⟩ := escapes.bounds hread
              cases text with
              | nil =>
                  rw [List.nil_append, escapes.quote] at hread
                  cases hread
                  exact .escaped [] value' rfl rfl (Nat.succ_pos _) hnext
              | cons d text =>
                  have hle : length ≤ (d :: text).length := length_le_of_read (by simp) hread
                  rw [literal_skip, List.drop_append_of_le_length hle] at hnext
                  apply Outcome.escape hseq hle
                  exact ihtext (by rw [List.length_drop]; exact Nat.sub_le _ _) hnext
          · rename_i hbackslash
            obtain ⟨⟨value', rest'⟩, hnext, heq⟩ := Option.map_eq_some_iff.1 h
            cases heq
            exact (ihtext (Nat.le_refl _) hnext).cons ⟨hquote, hbackslash, hbreak.1, hbreak.2⟩

end JavaScript
end Text
end Pgaio
