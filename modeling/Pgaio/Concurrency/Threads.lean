import Pgaio.Concurrency.Program
import Pgaio.Transition.Run

/-!
# Threads — interleavings of programs over a shared world

A `System` says which program each entry point runs and what an action does to the shared world.
A configuration holds the world and any number of threads; a thread carries its entry point, the
events it has performed and the rest of its program, together with the proof that they belong
together.  One step lets a request arrive, lets the environment act, or lets one thread perform its
next action; an action may start a further thread (a `go` statement).

A `Choice` resolves what the code does not determine: the outcome of an external command, the
reading of a clock.
-/

namespace Pgaio
namespace Concurrency

open Transition

structure System (World Act : Type) (Resp : Act → Type) (Choice Env Entry Result : Type) where
  /-- The program behind an entry point. -/
  body : Entry → Program Act Resp Result
  /-- Entry points that are called from outside. -/
  external : Entry → Bool
  /-- What an action of thread `i` does; `none` when it has to wait. -/
  exec : World → Nat → (a : Act) → Choice → Option (Resp a × World)
  /-- The thread that an action starts. -/
  forks : Act → Option Entry
  /-- Steps of the environment alone. -/
  env : World → Env → Option World

variable {World Act : Type} {Resp : Act → Type} {Choice Env Entry Result : Type}

/-- A thread; `path` ties its remaining program to its entry point and its past. -/
structure Thread (S : System World Act Resp Choice Env Entry Result) where
  entry : Entry
  past : List (Event Act Resp)
  rest : Program Act Resp Result
  path : Program.Path (S.body entry) past rest

structure Config (S : System World Act Resp Choice Env Entry Result) where
  world : World
  threads : List (Thread S)

inductive Label (Choice Env Entry : Type) where
  | arrive (e : Entry)
  | env (x : Env)
  | step (i : Nat) (ch : Choice)

variable {S : System World Act Resp Choice Env Entry Result}

namespace Thread

def start (S : System World Act Resp Choice Env Entry Result) (e : Entry) : Thread S :=
  { entry := e
    past := []
    rest := S.body e
    path := .refl }

/-- The thread after its next action `a` got the response `r`. -/
def advance (t : Thread S) {a : Act} {next : Resp a → Program Act Resp Result}
    (h : t.rest = .act a next) (r : Resp a) : Thread S :=
  { entry := t.entry
    past := t.past ++ [⟨a, r⟩]
    rest := next r
    path := .snoc (h ▸ t.path) r }

def action? (t : Thread S) : Option Act :=
  match t.rest with
  | .done _ => none
  | .act a _ => some a

def finished (t : Thread S) : Bool :=
  t.action?.isNone

section

variable (t : Thread S) {a : Act} {next : Resp a → Program Act Resp Result}
variable (h : t.rest = .act a next) (r : Resp a)

@[simp] theorem start_entry (e : Entry) : (start S e).entry = e := rfl
@[simp] theorem start_past (e : Entry) : (start S e).past = [] := rfl
@[simp] theorem start_rest (e : Entry) : (start S e).rest = S.body e := rfl
@[simp] theorem advance_entry : (t.advance h r).entry = t.entry := rfl
@[simp] theorem advance_past : (t.advance h r).past = t.past ++ [⟨a, r⟩] := rfl
@[simp] theorem advance_rest : (t.advance h r).rest = next r := rfl

theorem action?_eq_some {t : Thread S} {a : Act} :
    t.action? = some a ↔ ∃ next, t.rest = .act a next := by
  unfold action?
  cases ht : t.rest with
  | done x => simp
  | act b next =>
      constructor
      · intro hb
        cases hb
        exact ⟨next, rfl⟩
      · rintro ⟨next', hn⟩
        cases hn
        rfl

theorem action?_of_rest {t : Thread S} {a : Act} {next : Resp a → Program Act Resp Result}
    (h : t.rest = .act a next) : t.action? = some a :=
  action?_eq_some.2 ⟨next, h⟩

theorem finished_iff {t : Thread S} : t.finished = true ↔ ∃ x, t.rest = .done x := by
  unfold finished action?
  cases t.rest with
  | done x => simp
  | act b next => simp

/-- A thread stays inside the weakest precondition of its entry point. -/
theorem wp {inv : List (Event Act Resp) → Act → Prop}
    {post : List (Event Act Resp) → Result → Prop} (t : Thread S)
    (hbody : Program.wp inv post [] (S.body t.entry)) : Program.wp inv post t.past t.rest := by
  have h := Program.wp_path t.path hbody
  simpa using h

/-- Whenever a thread performed an action, the invariant held of the events before it. -/
theorem inv_of_mem {inv : List (Event Act Resp) → Act → Prop}
    {post : List (Event Act Resp) → Result → Prop} {t : Thread S}
    (hbody : Program.wp inv post [] (S.body t.entry)) {e : Event Act Resp} (he : e ∈ t.past) :
    ∃ before, before <+: t.past ∧ inv before e.act := by
  rcases List.append_of_mem he with ⟨before, after, hpast⟩
  have hpath := t.path
  rw [hpast] at hpath
  exact ⟨before, ⟨e :: after, hpast.symm⟩, Program.inv_of_path hpath hbody⟩

end

end Thread

namespace Config

/-- A configuration in which no request has arrived yet. -/
def initial (S : System World Act Resp Choice Env Entry Result) (w : World) : Config S :=
  { world := w
    threads := [] }

/-- The threads after thread `i` became `t` and its action started the thread `e`. -/
def resume (c : Config S) (w : World) (i : Nat) (t : Thread S) (e : Option Entry) : Config S :=
  { world := w
    threads := c.threads.set i t ++ (e.map (Thread.start S)).toList }

def spawn (c : Config S) (e : Entry) : Config S :=
  { c with threads := c.threads ++ [Thread.start S e] }

def stepThread (c : Config S) (i : Nat) (t : Thread S) (ch : Choice) : Option (Config S) :=
  match h : t.rest with
  | .done _ => none
  | .act a _ =>
      match S.exec c.world i a ch with
      | none => none
      | some (r, w) => some (c.resume w i (t.advance h r) (S.forks a))

def step (c : Config S) : Label Choice Env Entry → Option (Config S)
  | .arrive e => if S.external e then some (c.spawn e) else none
  | .env x => (S.env c.world x).map fun w => { c with world := w }
  | .step i ch =>
      match c.threads[i]? with
      | none => none
      | some t => c.stepThread i t ch

@[simp] theorem initial_world (w : World) : (initial S w).world = w := rfl
@[simp] theorem initial_threads (w : World) : (initial S w).threads = [] := rfl
@[simp] theorem spawn_world (c : Config S) (e : Entry) : (c.spawn e).world = c.world := rfl

@[simp] theorem resume_world (c : Config S) (w : World) (i : Nat) (t : Thread S)
    (e : Option Entry) : (c.resume w i t e).world = w := rfl

/-- Everything a step can do. -/
inductive Moves (c : Config S) : Label Choice Env Entry → Config S → Prop where
  | arrive {e : Entry} : S.external e = true → Moves c (.arrive e) (c.spawn e)
  | env {x : Env} {w : World} : S.env c.world x = some w → Moves c (.env x) { c with world := w }
  | act {i : Nat} {ch : Choice} {t : Thread S} {a : Act}
      {next : Resp a → Program Act Resp Result} {r : Resp a} {w : World} :
      c.threads[i]? = some t → (h : t.rest = .act a next) →
        S.exec c.world i a ch = some (r, w) →
          Moves c (.step i ch) (c.resume w i (t.advance h r) (S.forks a))

theorem moves_of_step {c c' : Config S} {l : Label Choice Env Entry} (h : c.step l = some c') :
    Moves c l c' := by
  cases l with
  | arrive e =>
      by_cases he : S.external e = true
      · simp only [step, he, if_true, Option.some.injEq] at h
        subst h
        exact .arrive he
      · simp [step, he] at h
  | env x =>
      simp only [step, Option.map_eq_some_iff] at h
      rcases h with ⟨w, hw, rfl⟩
      exact .env hw
  | step i ch =>
      cases ht : c.threads[i]? with
      | none => simp [step, ht] at h
      | some t =>
          simp only [step, ht, stepThread] at h
          split at h
          · cases h
          · rename_i a next hrest
            split at h
            · cases h
            · rename_i r w hexec
              cases h
              exact .act ht hrest hexec

theorem step_of_act {c : Config S} {i : Nat} {ch : Choice} {t : Thread S} {a : Act}
    {next : Resp a → Program Act Resp Result} {r : Resp a} {w : World}
    (ht : c.threads[i]? = some t) (h : t.rest = .act a next)
    (hexec : S.exec c.world i a ch = some (r, w)) :
    c.step (.step i ch) = some (c.resume w i (t.advance h r) (S.forks a)) := by
  simp only [step, ht, stepThread]
  split
  · rename_i x hx
    rw [h] at hx
    cases hx
  · rename_i a' next' h'
    have heq : (Program.act a next : Program Act Resp Result) = .act a' next' := h.symm.trans h'
    cases heq
    rw [hexec]

/-! ## Which threads there are after a step -/

theorem getElem?_spawn {c : Config S} {e : Entry} {j : Nat} {u : Thread S}
    (h : (c.spawn e).threads[j]? = some u) :
    c.threads[j]? = some u ∨ (j = c.threads.length ∧ u = Thread.start S e) := by
  simp only [spawn, List.getElem?_append] at h
  split at h
  · exact Or.inl h
  · rename_i hj
    have hlen : j - c.threads.length < 1 := by
      simpa using (List.getElem?_eq_some_iff.1 h).1
    have hj' : j = c.threads.length := by omega
    subst hj'
    simp only [Nat.sub_self, List.getElem?_cons_zero, Option.some.injEq] at h
    exact Or.inr ⟨rfl, h.symm⟩

theorem getElem?_resume {c : Config S} {w : World} {i j : Nat} {t u : Thread S} {e : Option Entry}
    (h : (c.resume w i t e).threads[j]? = some u) :
    (j = i ∧ u = t) ∨ (j ≠ i ∧ c.threads[j]? = some u) ∨
      (j = c.threads.length ∧ ∃ e', e = some e' ∧ u = Thread.start S e') := by
  simp only [resume, List.getElem?_append, List.length_set] at h
  split at h
  · rename_i hj
    by_cases hij : i = j
    · subst hij
      rw [List.getElem?_set_self hj, Option.some.injEq] at h
      exact Or.inl ⟨rfl, h.symm⟩
    · rw [List.getElem?_set_ne hij] at h
      exact Or.inr (Or.inl ⟨Ne.symm hij, h⟩)
  · rename_i hj
    cases e with
    | none => simp at h
    | some e' =>
        have hlen : j - c.threads.length < 1 := by
          simpa using (List.getElem?_eq_some_iff.1 h).1
        have hj' : j = c.threads.length := by omega
        subst hj'
        simp only [Nat.sub_self, Option.map_some, Option.toList_some,
          List.getElem?_cons_zero, Option.some.injEq] at h
        exact Or.inr (Or.inr ⟨rfl, e', rfl, h.symm⟩)

theorem spawn_getElem? {c : Config S} {e : Entry} {j : Nat} {u : Thread S}
    (h : c.threads[j]? = some u) : (c.spawn e).threads[j]? = some u := by
  have hj : j < c.threads.length := (List.getElem?_eq_some_iff.1 h).1
  simp only [spawn, List.getElem?_append_left hj, h]

theorem resume_getElem?_self {c : Config S} {w : World} {i : Nat} {t t' : Thread S}
    {e : Option Entry} (h : c.threads[i]? = some t') :
    (c.resume w i t e).threads[i]? = some t := by
  have hi : i < c.threads.length := (List.getElem?_eq_some_iff.1 h).1
  have hset : i < (c.threads.set i t).length := by simpa using hi
  simp only [resume, List.getElem?_append_left hset, List.getElem?_set_self hi]

theorem resume_getElem?_ne {c : Config S} {w : World} {i j : Nat} {t u : Thread S}
    {e : Option Entry} (hij : j ≠ i) (h : c.threads[j]? = some u) :
    (c.resume w i t e).threads[j]? = some u := by
  have hj : j < c.threads.length := (List.getElem?_eq_some_iff.1 h).1
  have hset : j < (c.threads.set i t).length := by simpa using hj
  simp only [resume, List.getElem?_append_left hset, List.getElem?_set_ne (Ne.symm hij), h]

/-- The thread that an action starts comes last. -/
theorem resume_getElem?_fork {c : Config S} {w : World} {i : Nat} {t : Thread S} {e : Entry} :
    (c.resume w i t (some e)).threads[c.threads.length]? = some (Thread.start S e) := by
  simp [resume]

/-- A thread stays where it is, and its past only grows. -/
theorem thread_of_step {c c' : Config S} {l : Label Choice Env Entry} (h : c.step l = some c')
    {k : Nat} {t : Thread S} (ht : c.threads[k]? = some t) :
    ∃ t', c'.threads[k]? = some t' ∧ t'.entry = t.entry ∧ t.past <+: t'.past := by
  cases moves_of_step h with
  | arrive _ => exact ⟨t, spawn_getElem? ht, rfl, List.prefix_refl _⟩
  | env _ => exact ⟨t, ht, rfl, List.prefix_refl _⟩
  | @act i ch u a next r w hu hrest hexec =>
      by_cases hk : k = i
      · -- The thread that moved gets one event more.
        subst hk
        rw [hu] at ht
        cases ht
        exact ⟨_, resume_getElem?_self hu, rfl, List.prefix_append _ _⟩
      · exact ⟨t, resume_getElem?_ne hk ht, rfl, List.prefix_refl _⟩

theorem entry_of_within {ok : Config S → Label Choice Env Entry → Prop} {c c' : Config S}
    (h : Within step ok c c') {k : Nat} {e : Entry} (hk : ∃ t, c.threads[k]? = some t ∧ t.entry = e) :
    ∃ t, c'.threads[k]? = some t ∧ t.entry = e := by
  refine h.invariant (I := fun c => ∃ t, c.threads[k]? = some t ∧ t.entry = e) ?_ hk
  rintro c l c' ⟨t, ht, hentry⟩ _ hstep
  rcases thread_of_step hstep ht with ⟨t', ht', hentry', _⟩
  exact ⟨t', ht', hentry'.trans hentry⟩

theorem thread_of_reach {c c' : Config S} (h : Reach step c c') {k : Nat} {t : Thread S}
    (ht : c.threads[k]? = some t) :
    ∃ t', c'.threads[k]? = some t' ∧ t'.entry = t.entry ∧ t.past <+: t'.past := by
  induction h with
  | refl => exact ⟨t, ht, rfl, List.prefix_refl _⟩
  | tail _ hst ih =>
      rcases hst with ⟨l, _, hstep⟩
      rcases ih with ⟨m, hm, hentry, hpast⟩
      rcases thread_of_step hstep hm with ⟨t', ht', hentry', hpast'⟩
      exact ⟨t', ht', hentry'.trans hentry, hpast.trans hpast'⟩

/-- The label is a step of thread `i`. -/
def OwnLabel (i : Nat) (l : Label Choice Env Entry) : Prop :=
  ∃ ch, l = .step i ch

/-- The next action of thread `i`. -/
def action? (c : Config S) (i : Nat) : Option Act :=
  (c.threads[i]?).bind Thread.action?

/-- A step of thread `i` performs its next action, which becomes the last event of the thread. -/
theorem act_of_own {c c' : Config S} {i : Nat} {ch : Choice} (h : c.step (.step i ch) = some c') :
    ∃ t a r t', c.threads[i]? = some t ∧ c.action? i = some a ∧
      S.exec c.world i a ch = some (r, c'.world) ∧ c'.threads[i]? = some t' ∧
        t'.past = t.past ++ [⟨a, r⟩] := by
  cases moves_of_step h with
  | @act i ch t a next r w ht hrest hexec =>
      refine ⟨t, a, r, _, ht, ?_, hexec, resume_getElem?_self ht, rfl⟩
      unfold action?
      rw [ht]
      exact Thread.action?_of_rest hrest

/-! ## What has happened so far -/

/-- Some thread has performed an action with such an event. -/
def happened (c : Config S) (p : Event Act Resp → Bool) : Bool :=
  c.threads.any fun t => t.past.any p

theorem happened_iff {c : Config S} {p : Event Act Resp → Bool} :
    c.happened p = true ↔ ∃ t ∈ c.threads, ∃ e ∈ t.past, p e = true := by
  simp [happened]

theorem happened_of_any {c : Config S} {t : Thread S} {p : Event Act Resp → Bool}
    (ht : t ∈ c.threads) (hany : t.past.any p = true) : c.happened p = true := by
  rcases List.any_eq_true.1 hany with ⟨ev, hev, hp⟩
  exact happened_iff.2 ⟨t, ht, ev, hev, hp⟩

theorem happened_mono {c : Config S} {p q : Event Act Resp → Bool}
    (hpq : ∀ ev, p ev = true → q ev = true) (hp : c.happened p = true) : c.happened q = true := by
  rcases happened_iff.1 hp with ⟨t, ht, ev, hev, hev'⟩
  exact happened_iff.2 ⟨t, ht, ev, hev, hpq ev hev'⟩

theorem happened_spawn {c : Config S} {e : Entry} {p : Event Act Resp → Bool} :
    (c.spawn e).happened p = c.happened p := by
  simp [happened, spawn]

/-- What a thread has done after a step it had done before, or it is the last event. -/
theorem any_resume {c : Config S} {w : World} {i j : Nat} {t u : Thread S} {a : Act}
    {next : Resp a → Program Act Resp Result} {r : Resp a} {e : Option Entry}
    {p : Event Act Resp → Bool} (ht : c.threads[i]? = some t) (hrest : t.rest = .act a next)
    (hu : (c.resume w i (t.advance hrest r) e).threads[j]? = some u)
    (hany : u.past.any p = true) :
    (∃ u', c.threads[j]? = some u' ∧ u'.past.any p = true) ∨ j = i ∧ p ⟨a, r⟩ = true := by
  rcases getElem?_resume hu with ⟨rfl, rfl⟩ | ⟨_, hold⟩ | ⟨_, e', _, rfl⟩
  · rw [Thread.advance_past, List.any_append, Bool.or_eq_true] at hany
    rcases hany with hbefore | hlast
    · exact Or.inl ⟨t, ht, hbefore⟩
    · exact Or.inr ⟨rfl, by simpa using hlast⟩
  · exact Or.inl ⟨u, hold, hany⟩
  · cases hany

/-- A step adds the event of its action. -/
theorem happened_resume {c : Config S} {w : World} {i : Nat} {t : Thread S} {a : Act}
    {next : Resp a → Program Act Resp Result} {r : Resp a} {e : Option Entry}
    {p : Event Act Resp → Bool} (ht : c.threads[i]? = some t) (hrest : t.rest = .act a next) :
    (c.resume w i (t.advance hrest r) e).happened p = true ↔
      c.happened p = true ∨ p ⟨a, r⟩ = true := by
  constructor
  · intro hp
    rcases happened_iff.1 hp with ⟨u, hu, hany⟩
    rcases List.mem_iff_getElem?.1 hu with ⟨j, hj⟩
    rcases any_resume ht hrest hj (List.any_eq_true.2 hany) with ⟨u', hu', hbefore⟩ | ⟨_, hlast⟩
    · exact Or.inl (happened_of_any (List.mem_of_getElem? hu') hbefore)
    · exact Or.inr hlast
  · rintro (hp | hlast)
    · rcases happened_iff.1 hp with ⟨u, hu, ev, hev, hev'⟩
      rcases List.mem_iff_getElem?.1 hu with ⟨j, hj⟩
      by_cases hji : j = i
      · -- The thread that moved keeps its events.
        subst hji
        cases ht.symm.trans hj
        exact happened_iff.2 ⟨_, List.mem_of_getElem? (resume_getElem?_self ht), ev,
          List.mem_append_left _ hev, hev'⟩
      · exact happened_iff.2 ⟨u, List.mem_of_getElem? (resume_getElem?_ne hji hj), ev, hev, hev'⟩
    · exact happened_iff.2 ⟨_, List.mem_of_getElem? (resume_getElem?_self ht), ⟨a, r⟩,
        List.mem_append_right _ (List.mem_singleton.2 rfl), hlast⟩

/-- What holds of the world after each event that a thread has performed. -/
def AfterEvents (Q : Entry → Event Act Resp → World → Prop) (c : Config S) : Prop :=
  ∀ t ∈ c.threads, ∀ e ∈ t.past, Q t.entry e c.world

theorem afterEvents_initial {Q : Entry → Event Act Resp → World → Prop} {w : World} :
    AfterEvents Q (initial S w) := by
  intro t ht
  simp at ht

/-- The rule for a step: what held still holds, and the new event brings it about. -/
theorem afterEvents_step {Q : Entry → Event Act Resp → World → Prop} {c c' : Config S}
    {l : Label Choice Env Entry} (hI : AfterEvents Q c) (hstep : c.step l = some c')
    (hkeep : ∀ e ev, Q e ev c.world → Q e ev c'.world)
    (hnew : ∀ (i : Nat) (ch : Choice) (t : Thread S) (a : Act)
      (next : Resp a → Program Act Resp Result) (r : Resp a), l = .step i ch →
        c.threads[i]? = some t → t.rest = .act a next →
          S.exec c.world i a ch = some (r, c'.world) → Q t.entry ⟨a, r⟩ c'.world) :
    AfterEvents Q c' := by
  cases moves_of_step hstep with
  | arrive _ =>
      intro t ht ev hev
      rcases List.mem_append.1 ht with hold | hstart
      · exact hkeep _ _ (hI t hold ev hev)
      · rw [List.mem_singleton.1 hstart] at hev
        cases hev
  | env _ => exact fun t ht ev hev => hkeep _ _ (hI t ht ev hev)
  | @act i ch t a next r w ht hrest hexec =>
      intro u hu ev hev
      rcases List.mem_iff_getElem?.1 hu with ⟨j, hj⟩
      -- The thread that acted, another one, or the one that it has started.
      rcases getElem?_resume hj with ⟨_, rfl⟩ | ⟨_, hold⟩ | ⟨_, e', _, rfl⟩
      · rcases List.mem_append.1 hev with hbefore | hlast
        · exact hkeep _ _ (hI t (List.mem_of_getElem? ht) ev hbefore)
        · rw [List.mem_singleton.1 hlast]
          exact hnew i ch t a next r rfl ht hrest hexec
      · exact hkeep _ _ (hI u (List.mem_of_getElem? hold) ev hev)
      · cases hev

end Config

end Concurrency
end Pgaio
