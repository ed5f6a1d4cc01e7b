import Mathlib.Data.List.Basic

/-!
# Program — sequential programs over atomic actions

A `Program` either stops with a value or performs an atomic action and continues with the response
it gets.  The type of a response depends on the action.  A finite execution of a program is a list
of `Event`s (an action together with its response), and `Path p es q` says that `p` has performed
`es` and still has to run `q`.

Properties of all executions are proved with `wp inv post past p`: whatever the responses are,
each further action satisfies `inv` of the events before it, and the end satisfies `post`.
-/

namespace Pgaio
namespace Concurrency

/-- An atomic action and the response it received. -/
structure Event (Act : Type) (Resp : Act → Type) where
  act : Act
  resp : Resp act

inductive Program (Act : Type) (Resp : Act → Type) (α : Type) where
  | done (x : α)
  | act (a : Act) (next : Resp a → Program Act Resp α)

namespace Program

variable {Act : Type} {Resp : Act → Type} {α β : Type}

def bind : Program Act Resp α → (α → Program Act Resp β) → Program Act Resp β
  | .done x, f => f x
  | .act a next, f => .act a fun r => (next r).bind f

instance : Monad (Program Act Resp) where
  pure := .done
  bind := bind

/-- Perform one action and return its response. -/
def perform (a : Act) : Program Act Resp (Resp a) :=
  .act a .done

@[simp] theorem pure_eq (x : α) : (pure x : Program Act Resp α) = .done x := rfl

@[simp] theorem bind_eq (p : Program Act Resp α) (f : α → Program Act Resp β) :
    p >>= f = p.bind f := rfl

@[simp] theorem done_bind (x : α) (f : α → Program Act Resp β) :
    (Program.done x : Program Act Resp α).bind f = f x := rfl

@[simp] theorem act_bind (a : Act) (next : Resp a → Program Act Resp α)
    (f : α → Program Act Resp β) :
    (Program.act a next).bind f = .act a fun r => (next r).bind f := rfl

@[simp] theorem perform_bind (a : Act) (f : Resp a → Program Act Resp β) :
    (perform a).bind f = .act a f := rfl

/-! ## Finite executions -/

/-- `Path p es q`: after the events `es` the program `p` still has to run `q`. -/
inductive Path (p : Program Act Resp α) :
    List (Event Act Resp) → Program Act Resp α → Prop where
  | refl : Path p [] p
  | snoc {es : List (Event Act Resp)} {a : Act} {next : Resp a → Program Act Resp α} :
      Path p es (.act a next) → (r : Resp a) → Path p (es ++ [⟨a, r⟩]) (next r)

/-- An execution can also be read from its first event on. -/
theorem Path.head {a : Act} {next : Resp a → Program Act Resp α} {r : Resp a}
    {es : List (Event Act Resp)} {q : Program Act Resp α} (h : Path (next r) es q) :
    Path (.act a next) (⟨a, r⟩ :: es) q := by
  induction h with
  | refl => exact .snoc .refl r
  | snoc _ r' ih => exact .snoc ih r'

/-- An execution that goes on after the events `before` was once about to perform its next action. -/
theorem Path.split {p q : Program Act Resp α} {before after : List (Event Act Resp)}
    {e : Event Act Resp} (hpath : Path p (before ++ e :: after) q) :
    ∃ next, Path p before (.act e.act next) := by
  generalize hes : before ++ e :: after = es at hpath
  induction hpath generalizing after with
  | refl => simp at hes
  | snoc hprev r ih =>
      -- The last event is either `e` itself or one of `after`.
      rcases List.eq_nil_or_concat after with rfl | ⟨after', last, rfl⟩
      · rcases List.append_inj' hes rfl with ⟨rfl, hlast⟩
        cases hlast
        exact ⟨_, hprev⟩
      · rw [List.concat_eq_append, ← List.cons_append, ← List.append_assoc] at hes
        exact ih (List.append_inj' hes rfl).1

/-- The events determine what is left to run. -/
theorem Path.unique {p q q' : Program Act Resp α} {es : List (Event Act Resp)} (h : Path p es q)
    (h' : Path p es q') : q = q' := by
  induction h generalizing q' with
  | refl =>
      generalize hes : ([] : List (Event Act Resp)) = es at h'
      cases h' with
      | refl => rfl
      | snoc _ _ => simp at hes
  | @snoc es a next _ r ih =>
      generalize hes : es ++ [(⟨a, r⟩ : Event Act Resp)] = es' at h'
      cases h' with
      | refl => simp at hes
      | snoc hprev r' =>
          rcases List.append_inj' hes rfl with ⟨rfl, hlast⟩
          cases hlast
          cases ih hprev
          rfl

/-- A program that has stopped performs nothing more. -/
theorem Path.done_of_prefix {p q : Program Act Resp α} {x : α} {es es' : List (Event Act Resp)}
    (h : Path p es (.done x)) (hevents : es <+: es') (h' : Path p es' q) : es' = es := by
  rcases hevents with ⟨more, rfl⟩
  cases more with
  | nil => exact List.append_nil es
  | cons e after =>
      rcases h'.split with ⟨next, hact⟩
      cases h.unique hact

theorem Path.bind {p : Program Act Resp β} {q : Program Act Resp β} {es : List (Event Act Resp)}
    (h : Path p es q) (f : β → Program Act Resp α) : Path (p.bind f) es (q.bind f) := by
  induction h with
  | refl => exact .refl
  | snoc _ r ih => exact .snoc ih r

/-! ## Weakest preconditions over all executions -/

/-- Every execution of the program that starts after the events `past` performs only actions
allowed by `inv` and stops with `post`. -/
def wp (inv : List (Event Act Resp) → Act → Prop) (post : List (Event Act Resp) → α → Prop) :
    List (Event Act Resp) → Program Act Resp α → Prop
  | past, .done x => post past x
  | past, .act a next => inv past a ∧ ∀ r, wp inv post (past ++ [⟨a, r⟩]) (next r)

section WP

variable {inv inv' : List (Event Act Resp) → Act → Prop}
variable {post post' : List (Event Act Resp) → α → Prop}
variable {past : List (Event Act Resp)}

@[simp] theorem wp_done (x : α) : wp inv post past (.done x) ↔ post past x := Iff.rfl

@[simp] theorem wp_act (a : Act) (next : Resp a → Program Act Resp α) :
    wp inv post past (.act a next) ↔
      inv past a ∧ ∀ r, wp inv post (past ++ [⟨a, r⟩]) (next r) := Iff.rfl

/-- The rule for an action that is followed by more of the program. -/
theorem wp_perform {a : Act} {f : Resp a → Program Act Resp α} (ha : inv past a)
    (hf : ∀ r, wp inv post (past ++ [⟨a, r⟩]) (f r)) : wp inv post past (perform a >>= f) :=
  ⟨ha, hf⟩

/-- The rule for the last action of a program. -/
theorem wp_last {a : Act} {post : List (Event Act Resp) → Resp a → Prop} (ha : inv past a)
    (hpost : ∀ r, post (past ++ [⟨a, r⟩]) r) : wp inv post past (perform a) :=
  ⟨ha, hpost⟩

theorem wp_bind (p : Program Act Resp β) (f : β → Program Act Resp α) :
    wp inv post past (p.bind f) ↔ wp inv (fun past x => wp inv post past (f x)) past p := by
  induction p generalizing past with
  | done x => exact Iff.rfl
  | act a next ih =>
      constructor
      · rintro ⟨ha, hnext⟩
        exact ⟨ha, fun r => (ih r).1 (hnext r)⟩
      · rintro ⟨ha, hnext⟩
        exact ⟨ha, fun r => (ih r).2 (hnext r)⟩

theorem wp_mono {p : Program Act Resp α} (hinv : ∀ past a, inv past a → inv' past a)
    (hpost : ∀ past x, post past x → post' past x) (h : wp inv post past p) :
    wp inv' post' past p := by
  induction p generalizing past with
  | done x => exact hpost past x h
  | act a next ih => exact ⟨hinv past a h.1, fun r => ih r (h.2 r)⟩

/-- An execution stays inside its weakest precondition. -/
theorem wp_path {p q : Program Act Resp α} {es : List (Event Act Resp)}
    (hpath : Path p es q) (h : wp inv post past p) : wp inv post (past ++ es) q := by
  induction hpath with
  | refl => simpa using h
  | snoc _ r ih =>
      have hnext := ih.2 r
      simpa [List.append_assoc] using hnext

/-- Whenever an execution performs an action, the invariant held of the events before it. -/
theorem inv_of_path {p q : Program Act Resp α} {before after : List (Event Act Resp)}
    {e : Event Act Resp} (hpath : Path p (before ++ e :: after) q) (h : wp inv post [] p) :
    inv before e.act := by
  rcases hpath.split with ⟨next, hbefore⟩
  have hnow : wp inv post ([] ++ before) (.act e.act next) := wp_path hbefore h
  exact hnow.1

end WP

end Program

end Concurrency
end Pgaio
