import Mathlib.Logic.Relation

/-!
# Run — executions of a partial transition function

A system is given by `step : σ → ℓ → Option σ`, where a label resolves every choice of the step
and `none` means that the step is not enabled.  This module supplies

* `Within step ok s t` — some execution leads from `s` to `t` and each of its steps meets `ok`, a
  condition on the state before the step and on its label;
* `Reach step s t` — the same without a condition;
* `Trace step s steps t` — an execution together with the steps it takes;
* `run step s ls` — the executable view, one label after the other.

The rule used by every safety proof is `Within.invariant`: a step lemma gives a run lemma.
-/

namespace Pgaio
namespace Transition

universe u v

variable {σ : Type u} {ℓ : Type v}

/-- One step whose label meets `ok` in the state before it. -/
def StepWithin (step : σ → ℓ → Option σ) (ok : σ → ℓ → Prop) (s t : σ) : Prop :=
  ∃ l, ok s l ∧ step s l = some t

/-- Executions all of whose steps meet `ok`. -/
def Within (step : σ → ℓ → Option σ) (ok : σ → ℓ → Prop) : σ → σ → Prop :=
  Relation.ReflTransGen (StepWithin step ok)

/-- Executions without a condition. -/
def Reach (step : σ → ℓ → Option σ) : σ → σ → Prop :=
  Within step (fun _ _ => True)

namespace Within

variable {step : σ → ℓ → Option σ} {ok ok' : σ → ℓ → Prop} {s t u : σ}

theorem refl : Within step ok s s :=
  Relation.ReflTransGen.refl

theorem tail {l : ℓ} (h : Within step ok s t) (hok : ok t l) (hstep : step t l = some u) :
    Within step ok s u :=
  Relation.ReflTransGen.tail h ⟨l, hok, hstep⟩

theorem trans (h : Within step ok s t) (h' : Within step ok t u) : Within step ok s u :=
  Relation.ReflTransGen.trans h h'

/-- What every step preserves, every execution preserves. -/
theorem invariant {I : σ → Prop} (hstep : ∀ s l t, I s → ok s l → step s l = some t → I t)
    (h : Within step ok s t) (hs : I s) : I t := by
  induction h with
  | refl => exact hs
  | tail _ hst ih =>
      rcases hst with ⟨l, hok, hl⟩
      exact hstep _ l _ ih hok hl

end Within

/-! ## Executions with their steps -/

/-- A step that was taken, with the states around it. -/
structure Taken (σ : Type u) (ℓ : Type v) where
  before : σ
  label : ℓ
  after : σ

/-- `Trace step s steps t`: an execution leads from `s` to `t` by `steps`, the oldest first. -/
inductive Trace (step : σ → ℓ → Option σ) (s : σ) : List (Taken σ ℓ) → σ → Prop where
  | refl : Trace step s [] s
  | tail {steps : List (Taken σ ℓ)} {l : ℓ} {t u : σ} :
      Trace step s steps t → step t l = some u → Trace step s (steps ++ [⟨t, l, u⟩]) u

namespace Trace

variable {step : σ → ℓ → Option σ} {s t u : σ} {steps : List (Taken σ ℓ)} {taken : Taken σ ℓ}

theorem reach (h : Trace step s steps t) : Reach step s t := by
  induction h with
  | refl => exact Within.refl
  | tail _ hstep ih => exact ih.tail trivial hstep

/-- An execution goes through each of its steps. -/
theorem through (h : Trace step s steps t) (hmem : taken ∈ steps) :
    Reach step s taken.before ∧ step taken.before taken.label = some taken.after ∧
      Reach step taken.after t := by
  induction h with
  | refl => cases hmem
  | tail htrace hstep ih =>
      rcases List.mem_append.1 hmem with hold | hlast
      · rcases ih hold with ⟨hbefore, htaken, hafter⟩
        exact ⟨hbefore, htaken, hafter.tail trivial hstep⟩
      · rw [List.mem_singleton.1 hlast]
        exact ⟨htrace.reach, hstep, Within.refl⟩

end Trace

/-! ## Executable runs -/

/-- Take the labels one after the other; `none` as soon as one of them is not enabled. -/
def run (step : σ → ℓ → Option σ) (s : σ) : List ℓ → Option σ
  | [] => some s
  | l :: ls =>
      match step s l with
      | none => none
      | some t => run step t ls

/-- Executable check that every step of a run meets a decidable condition. -/
def runMeets (step : σ → ℓ → Option σ) (ok : σ → ℓ → Bool) (s : σ) : List ℓ → Bool
  | [] => true
  | l :: ls =>
      ok s l &&
        match step s l with
        | none => true
        | some t => runMeets step ok t ls

theorem within_of_run {step : σ → ℓ → Option σ} {ok : σ → ℓ → Prop} {okb : σ → ℓ → Bool}
    (hok : ∀ s l, okb s l = true → ok s l) :
    ∀ {ls : List ℓ} {s t : σ}, runMeets step okb s ls = true → run step s ls = some t →
      Within step ok s t := by
  intro ls
  induction ls with
  | nil =>
      intro s t _ hrun
      cases hrun
      exact Within.refl
  | cons l ls ih =>
      intro s t hmeets hrun
      cases hl : step s l with
      | none => simp [run, hl] at hrun
      | some m =>
          simp only [run, hl] at hrun
          simp only [runMeets, hl, Bool.and_eq_true] at hmeets
          have hhead : Within step ok s m := Within.refl.tail (hok s l hmeets.1) hl
          exact hhead.trans (ih hmeets.2 hrun)

theorem reach_of_run {step : σ → ℓ → Option σ} {ls : List ℓ} {s t : σ}
    (hrun : run step s ls = some t) : Reach step s t := by
  induction ls generalizing s with
  | nil =>
      cases hrun
      exact Within.refl
  | cons l ls ih =>
      cases hl : step s l with
      | none => simp [run, hl] at hrun
      | some m =>
          simp only [run, hl] at hrun
          have hhead : Reach step s m := Within.refl.tail trivial hl
          exact hhead.trans (ih hrun)

/-- The steps of a run. -/
def takenSteps (step : σ → ℓ → Option σ) (s : σ) : List ℓ → List (Taken σ ℓ)
  | [] => []
  | l :: ls =>
      match step s l with
      | none => []
      | some t => ⟨s, l, t⟩ :: takenSteps step t ls

theorem Trace.head {step : σ → ℓ → Option σ} {l : ℓ} {s t u : σ} {steps : List (Taken σ ℓ)}
    (hstep : step s l = some t) (h : Trace step t steps u) :
    Trace step s (⟨s, l, t⟩ :: steps) u := by
  induction h with
  | refl => exact Trace.refl.tail hstep
  | tail _ hlast ih => exact ih.tail hlast

theorem trace_of_run {step : σ → ℓ → Option σ} {ls : List ℓ} {s t : σ}
    (hrun : run step s ls = some t) : Trace step s (takenSteps step s ls) t := by
  induction ls generalizing s with
  | nil =>
      cases hrun
      exact .refl
  | cons l ls ih =>
      cases hl : step s l with
      | none => simp [run, hl] at hrun
      | some m =>
          simp only [run, hl] at hrun
          simp only [takenSteps, hl]
          exact (ih hrun).head hl

/-- A test that succeeds at the end of a run, all of whose steps meet `okb`, exhibits a state. -/
theorem exists_within_of_run {step : σ → ℓ → Option σ} {okb : σ → ℓ → Bool} {ls : List ℓ} {s : σ}
    {test : σ → Bool} (hmeets : runMeets step okb s ls = true)
    (h : (run step s ls).any test = true) :
    ∃ t, Within step (fun s l => okb s l = true) s t ∧ test t = true := by
  cases hrun : run step s ls with
  | none => simp [hrun] at h
  | some t =>
      refine ⟨t, within_of_run (fun _ _ hok => hok) hmeets hrun, ?_⟩
      simpa [hrun] using h

/-- A test that succeeds at the end of a run exhibits a reachable state. -/
theorem exists_reach_of_run {step : σ → ℓ → Option σ} {ls : List ℓ} {s : σ} {test : σ → Bool}
    (h : (run step s ls).any test = true) : ∃ t, Reach step s t ∧ test t = true := by
  cases hrun : run step s ls with
  | none => simp [hrun] at h
  | some t =>
      refine ⟨t, reach_of_run hrun, ?_⟩
      simpa [hrun] using h

end Transition
end Pgaio
