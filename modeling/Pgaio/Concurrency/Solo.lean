import Pgaio.Concurrency.Threads

/-!
# Solo — one thread runs while all others have finished

Once all other threads have finished and no request arrives, an execution of the system is an
execution of one program.  For outcomes of its actions restricted by `ok` this module supplies

* `Program.MustEnd` — whatever the allowed outcomes are, the program ends, and it ends in `post`;
* `Program.CanEnd` — some allowed outcomes let the program end in `post`;

and the two rules that carry these facts from the program to the configurations of the system.
-/

namespace Pgaio
namespace Concurrency

open Transition

variable {World Act : Type} {Resp : Act → Type} {Choice Env Entry Result : Type}

/-- The outcomes of actions that are allowed. -/
abbrev Outcomes (World Act Choice : Type) := World → Nat → Act → Choice → Prop

namespace Program

variable (S : System World Act Resp Choice Env Entry Result) (ok : Outcomes World Act Choice)
variable (i : Nat) {α β : Type}

/-- Run by thread `i` without interference, the program never waits and ends in `post`. -/
def MustEnd (post : World → α → Prop) : World → Program Act Resp α → Prop
  | w, .done x => post w x
  | w, .act a next =>
      S.forks a = none ∧ (∃ ch r w', ok w i a ch ∧ S.exec w i a ch = some (r, w')) ∧
        ∀ ch r w', ok w i a ch → S.exec w i a ch = some (r, w') → MustEnd post w' (next r)

/-- Run by thread `i` without interference, the program can end in `post`. -/
def CanEnd (post : World → α → Prop) : World → Program Act Resp α → Prop
  | w, .done x => post w x
  | w, .act a next =>
      S.forks a = none ∧ ∃ ch r w', ok w i a ch ∧ S.exec w i a ch = some (r, w') ∧
        CanEnd post w' (next r)

variable {S ok i}

theorem mustEnd_perform {post : World → α → Prop} {w : World} {a : Act}
    {f : Resp a → Program Act Resp α} (hfork : S.forks a = none)
    (henabled : ∃ ch r w', ok w i a ch ∧ S.exec w i a ch = some (r, w'))
    (h : ∀ ch r w', ok w i a ch → S.exec w i a ch = some (r, w') → MustEnd S ok i post w' (f r)) :
    MustEnd S ok i post w (perform a >>= f) :=
  ⟨hfork, henabled, h⟩

theorem canEnd_perform {post : World → α → Prop} {w w' : World} {a : Act}
    {f : Resp a → Program Act Resp α} {r : Resp a} (hfork : S.forks a = none) (ch : Choice)
    (hok : ok w i a ch) (hexec : S.exec w i a ch = some (r, w'))
    (h : CanEnd S ok i post w' (f r)) : CanEnd S ok i post w (perform a >>= f) :=
  ⟨hfork, ch, r, w', hok, hexec, h⟩

theorem mustEnd_bind {post : World → α → Prop} {p : Program Act Resp β}
    {f : β → Program Act Resp α} {w : World}
    (h : MustEnd S ok i (fun w x => MustEnd S ok i post w (f x)) w p) :
    MustEnd S ok i post w (p.bind f) := by
  induction p generalizing w with
  | done x => exact h
  | act a next ih =>
      rcases h with ⟨hfork, henabled, h⟩
      exact ⟨hfork, henabled, fun ch r w' hok hexec => ih r (h ch r w' hok hexec)⟩

theorem canEnd_bind {post : World → α → Prop} {p : Program Act Resp β}
    {f : β → Program Act Resp α} {w : World}
    (h : CanEnd S ok i (fun w x => CanEnd S ok i post w (f x)) w p) :
    CanEnd S ok i post w (p.bind f) := by
  induction p generalizing w with
  | done x => exact h
  | act a next ih =>
      rcases h with ⟨hfork, ch, r, w', hok, hexec, h⟩
      exact ⟨hfork, ch, r, w', hok, hexec, ih r h⟩

theorem mustEnd_mono {post post' : World → α → Prop} {p : Program Act Resp α} {w : World}
    (hpost : ∀ w x, post w x → post' w x) (h : MustEnd S ok i post w p) :
    MustEnd S ok i post' w p := by
  induction p generalizing w with
  | done x => exact hpost w x h
  | act a next ih =>
      rcases h with ⟨hfork, henabled, h⟩
      exact ⟨hfork, henabled, fun ch r w' hok hexec => ih r (h ch r w' hok hexec)⟩

theorem MustEnd.canEnd {post : World → α → Prop} {p : Program Act Resp α} {w : World}
    (h : MustEnd S ok i post w p) : CanEnd S ok i post w p := by
  induction p generalizing w with
  | done x => exact h
  | act a next ih =>
      rcases h with ⟨hfork, ⟨ch, r, w', hok, hexec⟩, h⟩
      exact ⟨hfork, ch, r, w', hok, hexec, ih r (h ch r w' hok hexec)⟩

end Program

/-! ## From programs to configurations -/

namespace Config

variable {S : System World Act Resp Choice Env Entry Result}

/-- All threads have finished. -/
def Quiet (c : Config S) : Prop :=
  ∀ t ∈ c.threads, t.finished = true

/-- Thread `i` still has to run `p`, all other threads have finished. -/
def Alone (c : Config S) (i : Nat) (p : Program Act Resp Result) : Prop :=
  (∃ t, c.threads[i]? = some t ∧ t.rest = p) ∧
    ∀ j u, c.threads[j]? = some u → j ≠ i → u.finished = true

/-- A step of a thread with an allowed outcome. -/
def Allowed (ok : Outcomes World Act Choice) (c : Config S) : Label Choice Env Entry → Prop
  | .step i ch => ∀ t a, c.threads[i]? = some t → t.action? = some a → ok c.world i a ch
  | _ => False

variable {ok : Outcomes World Act Choice}

theorem alone_spawn {c : Config S} (h : c.Quiet) (e : Entry) :
    (c.spawn e).Alone c.threads.length (S.body e) := by
  refine ⟨⟨Thread.start S e, by simp [spawn], rfl⟩, fun j u hu hj => ?_⟩
  rcases getElem?_spawn hu with hold | ⟨heq, _⟩
  · exact h u (List.mem_of_getElem? hold)
  · exact absurd heq hj

/-- No step is allowed when all threads have finished. -/
theorem Quiet.eq_of_within {c c' : Config S} (h : c.Quiet)
    (hrun : Within step (Allowed ok) c c') : c' = c := by
  rcases Relation.ReflTransGen.cases_head hrun with rfl | ⟨m, ⟨l, hok, hstep⟩, _⟩
  · rfl
  · cases moves_of_step hstep with
    | arrive _ => cases hok
    | env _ => cases hok
    | @act j ch u b next r w hu hrest hexec =>
        rcases Thread.finished_iff.1 (h u (List.mem_of_getElem? hu)) with ⟨y, hy⟩
        rw [hrest] at hy
        cases hy

theorem Alone.quiet {c : Config S} {i : Nat} {x : Result} (h : c.Alone i (.done x)) :
    c.Quiet := by
  rcases h with ⟨⟨t, ht, hrest⟩, hothers⟩
  intro u hu
  rcases List.getElem?_of_mem hu with ⟨j, hj⟩
  by_cases hji : j = i
  · rw [hji, ht] at hj
    cases hj
    exact Thread.finished_iff.2 ⟨x, hrest⟩
  · exact hothers j u hj hji

/-- An enabled action of the thread that is left can be taken. -/
theorem Alone.enabled {c : Config S} {i : Nat} {a : Act}
    {next : Resp a → Program Act Resp Result} (h : c.Alone i (.act a next)) {ch : Choice}
    {r : Resp a} {w : World} (hok : ok c.world i a ch)
    (hexec : S.exec c.world i a ch = some (r, w)) :
    ∃ c', Allowed ok c (.step i ch) ∧ c.step (.step i ch) = some c' := by
  rcases h.1 with ⟨t, ht, hrest⟩
  refine ⟨_, ?_, step_of_act ht hrest hexec⟩
  intro u b hu hb
  rw [ht] at hu
  cases hu
  rcases Thread.action?_eq_some.1 hb with ⟨next', hb'⟩
  have heq : (Program.act a next : Program Act Resp Result) = .act b next' :=
    hrest.symm.trans hb'
  cases heq
  exact hok

/-- The only allowed step is the next action of the thread that is left. -/
theorem Alone.inversion {c c' : Config S} {i : Nat} {a : Act}
    {next : Resp a → Program Act Resp Result} {l : Label Choice Env Entry}
    (h : c.Alone i (.act a next)) (hok : Allowed ok c l) (hstep : c.step l = some c') :
    ∃ t ch r w, c.threads[i]? = some t ∧ ok c.world i a ch ∧
      S.exec c.world i a ch = some (r, w) ∧
        ∃ hrest : t.rest = .act a next, c' = c.resume w i (t.advance hrest r) (S.forks a) := by
  rcases h with ⟨⟨t, ht, hrest⟩, hothers⟩
  cases moves_of_step hstep with
  | arrive _ => cases hok
  | env _ => cases hok
  | @act j ch u b next' r w hu hrest' hexec =>
      by_cases hji : j = i
      · subst hji
        rw [ht] at hu
        cases hu
        have heq : (Program.act a next : Program Act Resp Result) = .act b next' :=
          hrest.symm.trans hrest'
        cases heq
        have hallowed : ok c.world j a ch := hok t a ht (Thread.action?_of_rest hrest)
        exact ⟨t, ch, r, w, ht, hallowed, hexec, hrest, rfl⟩
      · -- Every other thread has finished.
        rcases Thread.finished_iff.1 (hothers j u hu hji) with ⟨x, hx⟩
        rw [hrest'] at hx
        cases hx

/-- An action that starts no thread leaves the thread alone with the rest of its program. -/
theorem Alone.resume {c : Config S} {i : Nat} {p : Program Act Resp Result} (h : c.Alone i p)
    {t : Thread S} (ht : c.threads[i]? = some t) {a : Act}
    {next : Resp a → Program Act Resp Result} (hrest : t.rest = .act a next) (r : Resp a)
    (w : World) : (c.resume w i (t.advance hrest r) none).Alone i (next r) := by
  refine ⟨⟨_, resume_getElem?_self ht, rfl⟩, fun j u hu hj => ?_⟩
  rcases getElem?_resume hu with ⟨heq, _⟩ | ⟨_, hold⟩ | ⟨_, e, he, _⟩
  · exact absurd heq hj
  · exact h.2 j u hold hj
  · cases he

/-- The last action of a thread may start another thread, which is then the one that is left. -/
theorem Alone.handOver {c : Config S} {i : Nat} {p : Program Act Resp Result} (h : c.Alone i p)
    {t : Thread S} {a : Act}
    {next : Resp a → Program Act Resp Result} (hrest : t.rest = .act a next) (r : Resp a)
    {x : Result} (hlast : next r = .done x) (w : World) (e : Entry) :
    (c.resume w i (t.advance hrest r) (some e)).Alone c.threads.length (S.body e) := by
  refine ⟨⟨Thread.start S e, resume_getElem?_fork, rfl⟩, fun j u hu hj => ?_⟩
  rcases getElem?_resume hu with ⟨_, rfl⟩ | ⟨hji, hold⟩ | ⟨heq, _⟩
  · exact Thread.finished_iff.2 ⟨x, hlast⟩
  · exact h.2 j u hold hji
  · exact absurd heq hj

/-- Some run of allowed steps comes to rest in the postcondition of the program. -/
theorem Alone.canEnd {c : Config S} {i : Nat} {p : Program Act Resp Result}
    {post : World → Result → Prop} (h : c.Alone i p) (hcan : p.CanEnd S ok i post c.world) :
    ∃ c', Within step (Allowed ok) c c' ∧ c'.Quiet ∧ ∃ x, post c'.world x := by
  -- The run follows the program, action by action.
  induction p generalizing c with
  | done x => exact ⟨c, Within.refl, h.quiet, x, hcan⟩
  | act a next ih =>
      rcases hcan with ⟨hfork, ch, r, w, hok, hexec, hcan⟩
      rcases h.1 with ⟨t, ht, hrest⟩
      rcases h.enabled hok hexec with ⟨m, hallowed, hstep⟩
      have heq := step_of_act ht hrest hexec
      rw [hfork, hstep, Option.some.injEq] at heq
      subst heq
      rcases ih r (h.resume ht hrest r w) hcan with ⟨c', hrun, hend⟩
      exact ⟨c', Relation.ReflTransGen.head ⟨_, hallowed, hstep⟩ hrun, hend⟩

/-- Every run of allowed steps can be continued until it comes to rest in the postcondition. -/
theorem Alone.mustEnd {c c' : Config S} {i : Nat} {p : Program Act Resp Result}
    {post : World → Result → Prop} (h : c.Alone i p) (hmust : p.MustEnd S ok i post c.world)
    (hrun : Within step (Allowed ok) c c') :
    ∃ c'', Within step (Allowed ok) c' c'' ∧ c''.Quiet ∧ ∃ x, post c''.world x := by
  -- The given run has gone some way along the program; what is left of it can be completed.
  induction p generalizing c with
  | done x =>
      have heq := h.quiet.eq_of_within hrun
      subst heq
      exact h.canEnd hmust.canEnd
  | act a next ih =>
      rcases Relation.ReflTransGen.cases_head hrun with rfl | ⟨m, ⟨l, hok, hstep⟩, htail⟩
      · exact h.canEnd hmust.canEnd
      · rcases hmust with ⟨hfork, _, hmust⟩
        rcases h.inversion hok hstep with ⟨t, ch, r, w, ht, hallowed, hexec, hrest, rfl⟩
        rw [hfork] at htail
        exact ih r (h.resume ht hrest r w) (hmust ch r w hallowed hexec) htail

end Config

end Concurrency
end Pgaio
