import Mathlib.Algebra.GroupWithZero.Nat
import Pgaio.Postgres.Lexer

/-!
# Identifier — the rule for a quoted identifier

`matchQuoted` is the pattern: what stands between the quotes, with two quotes for one.  The scanner then looks
at the name.  It refuses an empty one, and it cuts one that is too long, as many characters as fit into 63
bytes being left (`truncate_identifier`).  So the name that the parser gets is the one that was quoted
exactly if it is not empty and fits (`readIdentifier_quoted_iff`).
-/

namespace Pgaio
namespace Postgres
namespace SQL

/-- `NAMEDATALEN - 1`. -/
def maxIdentifierBytes : Nat := 63

/-- The bytes of a name in UTF-8. -/
def byteLength (name : List Char) : Nat :=
  (name.map Char.utf8Size).sum

/-- As many characters as fit. -/
def clipBytes : Nat → List Char → List Char
  | _, [] => []
  | room, c :: name => if c.utf8Size ≤ room then c :: clipBytes (room - c.utf8Size) name else []

def truncateIdentifier (name : List Char) : List Char :=
  clipBytes maxIdentifierBytes name

/-- What stands between the quotes at the front of a text, and what follows the second one. -/
def matchQuoted : List Char → Option (List Char × List Char)
  | [] => none
  | c :: text => if c = '"' then scanIdent text else none

/-- The name that the parser gets for a quoted identifier at the front of a text. -/
def readIdentifier (text : List Char) : Option (List Char × List Char) :=
  match munch .nothing text with
  | some (.token (.quotedIdent name), rest) => some (truncateIdentifier name, rest)
  | _ => none

/-! ## Names that fit -/

theorem clipBytes_eq_self_iff {room : Nat} {name : List Char} :
    clipBytes room name = name ↔ byteLength name ≤ room := by
  unfold byteLength
  induction name generalizing room with
  | nil => simp [clipBytes]
  | cons c name ih =>
      rw [clipBytes, List.map_cons, List.sum_cons]
      by_cases hc : c.utf8Size ≤ room
      · rw [if_pos hc, List.cons_inj_right, ih]
        omega
      · rw [if_neg hc]
        exact iff_of_false (List.cons_ne_nil _ _).symm (by omega)

theorem truncateIdentifier_eq_self_iff {name : List Char} :
    truncateIdentifier name = name ↔ byteLength name ≤ maxIdentifierBytes :=
  clipBytes_eq_self_iff

/-! ## Quoted names -/

variable {name rest : List Char}

/-- The pattern finds the closing quote, and the name without its doubled quotes. -/
theorem matchQuoted_doubled (name : List Char) (hrest : startsWith (· = '"') rest = false) :
    matchQuoted ('"' :: (doubled '"' name ++ '"' :: rest)) = some (name, rest) :=
  (body_doubled '"' name).scan fun _ => hrest

theorem readIdentifier_of_match {text : List Char} (h : matchQuoted text = some (name, rest)) :
    readIdentifier text = if name = [] then none else some (truncateIdentifier name, rest) := by
  cases text with
  | nil => cases h
  | cons c text =>
      rw [matchQuoted] at h
      split at h
      · rename_i hc
        have hmunch : munch .nothing ('"' :: text) = munchIdent .quotedIdent text := rfl
        rw [hc, readIdentifier, hmunch, munchIdent, h]
        cases name with
        | nil => rfl
        | cons d name => rfl
      · cases h

theorem readIdentifier_quoted_iff (name : List Char) (hrest : startsWith (· = '"') rest = false) :
    readIdentifier ('"' :: (doubled '"' name ++ '"' :: rest)) = some (name, rest) ↔
      name ≠ [] ∧ byteLength name ≤ maxIdentifierBytes := by
  rw [readIdentifier_of_match (matchQuoted_doubled name hrest), ← truncateIdentifier_eq_self_iff]
  by_cases hname : name = []
  · simp [hname]
  · simp [hname]

end SQL
end Postgres
end Pgaio
