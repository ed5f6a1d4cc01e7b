import Pgaio.Concurrency.Threads
import Mathlib.Data.List.Induction

/-!
# Summary — preconditions in terms of what the past amounts to

Often only a summary of the events matters: which resources are held, whether something has failed.  An
update `after` keeps the summary along the events, `summary` is its value after a past, and `safe` is the
weakest precondition in terms of it (`wp_of_safe`).
-/

namespace Pgaio
namespace Concurrency

variable {Act : Type} {Resp : Act → Type} {α β B : Type}

/-- The summary of a past that started with `b`. -/
def summary (after : B → (a : Act) → Resp a → B) (b : B) (past : List (Event Act Resp)) : B :=
  past.foldl (fun b e => after b e.act e.resp) b

section

variable {after : B → (a : Act) → Resp a → B} {b : B} {past : List (Event Act Resp)}

@[simp] theorem summary_nil : summary after b ([] : List (Event Act Resp)) = b := rfl

@[simp] theorem summary_snoc (a : Act) (r : Resp a) :
    summary after b (past ++ [⟨a, r⟩]) = after (summary after b past) a r := by
  simp [summary]

end

namespace Program

/-- Every execution that starts with the summary `b` performs only actions allowed by `inv` and stops
with `post`. -/
def safe (after : B → (a : Act) → Resp a → B) (inv : B → Act → Prop) (post : B → α → Prop) :
    B → Program Act Resp α → Prop
  | b, .done x => post b x
  | b, .act a next => inv b a ∧ ∀ r, safe after inv post (after b a r) (next r)

variable {after : B → (a : Act) → Resp a → B} {inv : B → Act → Prop} {post : B → α → Prop} {b : B}

theorem safe_perform {a : Act} {f : Resp a → Program Act Resp α} (ha : inv b a)
    (hf : ∀ r, safe after inv post (after b a r) (f r)) : safe after inv post b (perform a >>= f) :=
  ⟨ha, hf⟩

theorem safe_last {a : Act} {post : B → Resp a → Prop} (ha : inv b a) (hpost : ∀ r, post (after b a r) r) :
    safe after inv post b (perform a) :=
  ⟨ha, hpost⟩

theorem safe_bind (p : Program Act Resp β) (f : β → Program Act Resp α) :
    safe after inv post b (p >>= f) ↔
      safe after inv (fun b x => safe after inv post b (f x)) b p := by
  induction p generalizing b with
  | done x => exact Iff.rfl
  | act a next ih =>
      constructor
      · rintro ⟨ha, hnext⟩
        exact ⟨ha, fun r => (ih r).1 (hnext r)⟩
      · rintro ⟨ha, hnext⟩
        exact ⟨ha, fun r => (ih r).2 (hnext r)⟩

theorem safe_mono {post' : B → α → Prop} {p : Program Act Resp α} (hpost : ∀ b x, post b x → post' b x)
    (h : safe after inv post b p) : safe after inv post' b p := by
  induction p generalizing b with
  | done x => exact hpost b x h
  | act a next ih => exact ⟨h.1, fun r => ih r (h.2 r)⟩

/-- The summary stands for the past. -/
theorem wp_of_safe {past : List (Event Act Resp)} {p : Program Act Resp α}
    (h : safe after inv post (summary after b past) p) :
    wp (fun past a => inv (summary after b past) a) (fun past x => post (summary after b past) x) past p := by
  induction p generalizing past with
  | done x => exact h
  | act a next ih =>
      refine ⟨h.1, fun r => ih r ?_⟩
      rw [summary_snoc]
      exact h.2 r

end Program

namespace Thread

variable {World Choice Env Entry Result : Type}
variable {S : System World Act Resp Choice Env Entry Result}
variable {after : B → (a : Act) → Resp a → B} {inv : B → Act → Prop} {post : B → Result → Prop}

/-- What a thread does next is allowed by the summary of its past. -/
theorem safe_rest {b : B} (t : Thread S) (hbody : Program.safe after inv post b (S.body t.entry)) :
    Program.wp (fun past a => inv (summary after b past) a)
      (fun past x => post (summary after b past) x) t.past t.rest :=
  t.wp (Program.wp_of_safe hbody)

theorem allowed_of_rest {b : B} {t : Thread S} {a : Act} {next : Resp a → Program Act Resp Result}
    (hbody : Program.safe after inv post b (S.body t.entry)) (hrest : t.rest = .act a next) :
    inv (summary after b t.past) a := by
  have h := t.safe_rest hbody
  rw [hrest] at h
  exact h.1

theorem post_of_finished {b : B} {t : Thread S} {x : Result}
    (hbody : Program.safe after inv post b (S.body t.entry)) (hrest : t.rest = .done x) :
    post (summary after b t.past) x := by
  have h := t.safe_rest hbody
  rw [hrest] at h
  exact h

end Thread

end Concurrency
end Pgaio
