import Pgaio.Concurrency.Threads

/-!
# Mutex — threads that serialize their work on one lock

`LockSpec` says which actions acquire and release a lock and which part of the world records its
holder.  `Disciplined` is what the text of each program must guarantee on its own: acquire only
outside the critical section, release only inside, touch the protected part of the world only
inside, and stop outside.  From these facts about single programs we obtain, for every
interleaving,

* `holder_iff` — the recorded holder is exactly the thread inside its critical section, so two
  critical sections never overlap (`exclusive`);
* `Protected.invariant` — a resource invariant: what holds of the protected part whenever the lock
  is free, and what the thread inside knows about it, is not disturbed by the other threads.
-/

namespace Pgaio
namespace Concurrency

open Transition

variable {World Act : Type} {Resp : Act → Type} {Choice Env Entry Result : Type}

inductive LockOp where
  | acquire
  | release
  | other
  deriving DecidableEq, Repr

/-- `true` when the last lock operation among the events is an acquisition. -/
def insideFrom (op : Act → LockOp) (b : Bool) : List (Event Act Resp) → Bool
  | [] => b
  | e :: es =>
      match op e.act with
      | .acquire => insideFrom op true es
      | .release => insideFrom op false es
      | .other => insideFrom op b es

def inside (op : Act → LockOp) (es : List (Event Act Resp)) : Bool :=
  insideFrom op false es

theorem insideFrom_append (op : Act → LockOp) (b : Bool) (es fs : List (Event Act Resp)) :
    insideFrom op b (es ++ fs) = insideFrom op (insideFrom op b es) fs := by
  induction es generalizing b with
  | nil => rfl
  | cons e es ih =>
      simp only [List.cons_append, insideFrom]
      cases op e.act with
      | acquire => exact ih true
      | release => exact ih false
      | other => exact ih b

@[simp] theorem inside_nil (op : Act → LockOp) :
    inside op ([] : List (Event Act Resp)) = false := rfl

theorem inside_snoc (op : Act → LockOp) (es : List (Event Act Resp)) (a : Act) (r : Resp a) :
    inside op (es ++ [⟨a, r⟩]) =
      match op a with
      | .acquire => true
      | .release => false
      | .other => inside op es := by
  unfold inside
  rw [insideFrom_append]
  cases h : op a with
  | acquire => simp [insideFrom, h]
  | release => simp [insideFrom, h]
  | other => simp [insideFrom, h]

/-- A program without lock operations stays inside, or outside. -/
theorem wp_inside {α : Type} {op : Act → LockOp} {p : Program Act Resp α}
    {past : List (Event Act Resp)}
    (h : Program.wp (fun _ a => op a = .other) (fun _ _ => True) past p) :
    Program.wp (fun past' a => inside op past' = inside op past ∧ op a = .other)
      (fun past' _ => inside op past' = inside op past) past p := by
  suffices hgen : ∀ past', inside op past' = inside op past →
      Program.wp (fun _ a => op a = .other) (fun _ _ => True) past' p →
        Program.wp (fun past' a => inside op past' = inside op past ∧ op a = .other)
          (fun past' _ => inside op past' = inside op past) past' p from hgen past rfl h
  clear h
  -- Being inside is compared with the start, so that it can be carried through the program.
  induction p with
  | done x =>
      intro past' hin _
      exact hin
  | act a next ih =>
      intro past' hin hp
      refine ⟨⟨hin, hp.1⟩, fun r => ih r _ ?_ (hp.2 r)⟩
      simpa [inside_snoc, hp.1] using hin

structure LockSpec (S : System World Act Resp Choice Env Entry Result) where
  op : Act → LockOp
  holder : World → Option Nat
  acquire_free : ∀ {w i a ch r w'}, op a = .acquire → S.exec w i a ch = some (r, w') →
    holder w = none ∧ holder w' = some i
  release_frees : ∀ {w i a ch r w'}, op a = .release → S.exec w i a ch = some (r, w') →
    holder w' = none
  other_keeps : ∀ {w i a ch r w'}, op a = .other → S.exec w i a ch = some (r, w') →
    holder w' = holder w
  env_keeps : ∀ {w x w'}, S.env w x = some w' → holder w' = holder w

namespace LockSpec

variable {S : System World Act Resp Choice Env Entry Result} (L : LockSpec S)

/-- Whether an action respects the lock after the events `past`. -/
def Respects (past : List (Event Act Resp)) (a : Act) : Prop :=
  match L.op a with
  | .acquire => inside L.op past = false
  | .release => inside L.op past = true
  | .other => True

/-- The program of every entry point brackets its critical sections. -/
def Disciplined : Prop :=
  ∀ e, Program.wp L.Respects (fun past _ => inside L.op past = false) [] (S.body e)

/-- The recorded holder is the thread inside its critical section. -/
def HolderInv (c : Config S) : Prop :=
  (∀ j u, c.threads[j]? = some u → (inside L.op u.past = true ↔ L.holder c.world = some j)) ∧
    ∀ j, L.holder c.world = some j → j < c.threads.length

variable {L}

theorem Disciplined.respects (hd : L.Disciplined) {t : Thread S} {a : Act}
    {next : Resp a → Program Act Resp Result} (h : t.rest = .act a next) :
    L.Respects t.past a := by
  have hwp := t.wp (hd t.entry)
  rw [h] at hwp
  exact hwp.1

theorem Disciplined.outside_of_done (hd : L.Disciplined) {t : Thread S} {x : Result}
    (h : t.rest = .done x) : inside L.op t.past = false := by
  have hwp := t.wp (hd t.entry)
  rw [h] at hwp
  exact hwp

theorem holderInv_initial {w : World} (h : L.holder w = none) :
    L.HolderInv (Config.initial S w) := by
  refine ⟨?_, ?_⟩
  · intro j u hu
    simp at hu
  · intro j hj
    simp [h] at hj

/-- The lock part of one step: who is inside changes exactly as the recorded holder does. -/
theorem holderInv_step (hd : L.Disciplined) {c c' : Config S} {l : Label Choice Env Entry}
    (hI : L.HolderInv c) (hstep : c.step l = some c') : L.HolderInv c' := by
  rcases hI with ⟨hiff, hlt⟩
  cases Config.moves_of_step hstep with
  | @arrive e he =>
      refine ⟨?_, ?_⟩
      · intro j u hu
        rcases Config.getElem?_spawn hu with hold | ⟨rfl, rfl⟩
        · exact hiff j u hold
        · -- The new thread is outside, and its number is above that of the holder.
          constructor
          · intro hin
            simp at hin
          · intro hj
            exact absurd (hlt _ hj) (Nat.lt_irrefl _)
      · intro j hj
        have := hlt j hj
        simp only [Config.spawn, List.length_append, List.length_cons, List.length_nil]
        omega
  | @env x w hw =>
      have hkeep := L.env_keeps hw
      refine ⟨?_, ?_⟩
      · intro j u hu
        rw [show L.holder w = L.holder c.world from hkeep]
        exact hiff j u hu
      · intro j hj
        exact hlt j (hkeep ▸ hj)
  | @act i ch t a next r w ht hrest hexec =>
      have hi : i < c.threads.length := (List.getElem?_eq_some_iff.1 ht).1
      have hlen : ∀ j, j < c.threads.length →
          j < (c.resume w i (t.advance hrest r) (S.forks a)).threads.length := by
        intro j hj
        simp only [Config.resume, List.length_append, List.length_set]
        omega
      have hresp := hd.respects hrest
      have hself := hiff i t ht
      -- A thread that has just been started is outside, and it is not the holder yet.
      have hfresh : ∀ e' : Entry, L.holder w ≠ some c.threads.length →
          (inside L.op (Thread.start S e').past = true ↔
            L.holder w = some c.threads.length) := by
        intro e' hne
        simp [hne]
      cases hop : L.op a with
      | acquire =>
          obtain ⟨hfree, hheld⟩ := L.acquire_free hop hexec
          refine ⟨?_, ?_⟩
          · intro j u hu
            rw [Config.resume_world, hheld]
            rcases Config.getElem?_resume hu with ⟨rfl, rfl⟩ | ⟨hji, hold⟩ | ⟨rfl, e', _, rfl⟩
            · simp [inside_snoc, hop]
            · -- The lock was free, so every other thread is outside.
              have hout := hiff j u hold
              rw [hfree] at hout
              constructor
              · intro hin
                exact absurd (hout.1 hin) (by simp)
              · intro hj
                cases hj
                exact absurd rfl hji
            · have hne : L.holder w ≠ some c.threads.length := by
                rw [hheld]
                intro heq
                cases heq
                exact Nat.lt_irrefl _ hi
              simpa [hheld] using hfresh e' hne
          · intro j hj
            rw [Config.resume_world, hheld] at hj
            cases hj
            exact hlen _ hi
      | release =>
          have hnone := L.release_frees hop hexec
          simp only [Respects, hop] at hresp
          refine ⟨?_, ?_⟩
          · intro j u hu
            rw [Config.resume_world, hnone]
            rcases Config.getElem?_resume hu with ⟨rfl, rfl⟩ | ⟨hji, hold⟩ | ⟨rfl, e', _, rfl⟩
            · simp [inside_snoc, hop]
            · -- The thread that moved was the holder, so another one is not inside.
              have hout := hiff j u hold
              constructor
              · intro hin
                have hj := hout.1 hin
                rw [hself.1 hresp] at hj
                cases hj
                exact absurd rfl hji
              · intro hj
                cases hj
            · simp
          · intro j hj
            rw [Config.resume_world, hnone] at hj
            cases hj
      | other =>
          have hkeep := L.other_keeps hop hexec
          refine ⟨?_, ?_⟩
          · intro j u hu
            rw [Config.resume_world, hkeep]
            rcases Config.getElem?_resume hu with ⟨rfl, rfl⟩ | ⟨hji, hold⟩ | ⟨rfl, e', _, rfl⟩
            · simpa [inside_snoc, hop] using hself
            · exact hiff j u hold
            · have hne : L.holder w ≠ some c.threads.length := by
                rw [hkeep]
                intro heq
                exact Nat.lt_irrefl _ (hlt _ heq)
              simpa [hkeep] using hfresh e' hne
          · intro j hj
            rw [Config.resume_world, hkeep] at hj
            exact hlen j (hlt j hj)

theorem holderInv (hd : L.Disciplined) {w : World} {c : Config S} (hw : L.holder w = none)
    (h : Reach Config.step (Config.initial S w) c) : L.HolderInv c :=
  Within.invariant (fun _ _ _ hI _ hstep => holderInv_step hd hI hstep) h (holderInv_initial hw)

/-- Two threads are never inside their critical sections at the same time. -/
theorem HolderInv.exclusive {c : Config S} (h : L.HolderInv c) {i j : Nat} {t u : Thread S}
    (ht : c.threads[i]? = some t) (hu : c.threads[j]? = some u)
    (hit : inside L.op t.past = true) (hju : inside L.op u.past = true) : i = j := by
  have hi := (h.1 i t ht).1 hit
  have hj := (h.1 j u hu).1 hju
  rw [hi] at hj
  exact Option.some.inj hj

/-! ## A resource protected by the lock -/

/-- `view` is the part of the world that only actions marked by `touches` change, and programs
perform those only inside their critical sections. -/
structure Protected (L : LockSpec S) (View : Type) where
  view : World → View
  touches : Act → Bool
  lock_other : ∀ a, touches a = true → L.op a = .other
  untouched : ∀ {w i a ch r w'}, touches a = false → S.exec w i a ch = some (r, w') →
    view w' = view w
  env_untouched : ∀ {w x w'}, S.env w x = some w' → view w' = view w
  guarded : ∀ e, Program.wp (fun past a => touches a = true → inside L.op past = true)
    (fun _ _ => True) [] (S.body e)

namespace Protected

variable {View : Type} (P : Protected L View)

/-- `free` holds of the protected part while nobody is inside; `held` relates it to the thread
that is. -/
def Inv (free : View → Prop) (held : Thread S → View → Prop) (c : Config S) : Prop :=
  (L.holder c.world = none → free (P.view c.world)) ∧
    ∀ i t, c.threads[i]? = some t → L.holder c.world = some i → held t (P.view c.world)

variable {P}

theorem inside_of_touches {t : Thread S} {a : Act} {next : Resp a → Program Act Resp Result}
    (P : Protected L View) (h : t.rest = .act a next) (ha : P.touches a = true) :
    inside L.op t.past = true := by
  have hwp := t.wp (P.guarded t.entry)
  rw [h] at hwp
  exact hwp.1 ha

/-- The lock operations leave the protected part alone. -/
theorem view_of_lock (P : Protected L View) {w w' : World} {i : Nat} {a : Act} {ch : Choice} {r : Resp a}
    (hop : L.op a ≠ .other) (hexec : S.exec w i a ch = some (r, w')) : P.view w' = P.view w := by
  apply P.untouched _ hexec
  cases htouch : P.touches a with
  | false => rfl
  | true => exact absurd (P.lock_other a htouch) hop

/-- Resource invariant of one step: it is enough to look at the thread inside. -/
theorem inv_step {free : View → Prop} {held : Thread S → View → Prop} (hd : L.Disciplined)
    (hacq : ∀ (t : Thread S) a next (h : t.rest = .act a next) r v, L.op a = .acquire →
      free v → held (t.advance h r) v)
    (hrel : ∀ (t : Thread S) a next (_ : t.rest = .act a next) v, L.op a = .release →
      held t v → free v)
    (hown : ∀ (t : Thread S) a next (h : t.rest = .act a next) i ch r w w',
      L.op a = .other → inside L.op t.past = true → S.exec w i a ch = some (r, w') →
        held t (P.view w) → held (t.advance h r) (P.view w'))
    {c c' : Config S} {l : Label Choice Env Entry} (hH : L.HolderInv c)
    (hI : P.Inv free held c) (hstep : c.step l = some c') : P.Inv free held c' := by
  rcases hI with ⟨hfree, hheld⟩
  have hH' := holderInv_step hd hH hstep
  cases Config.moves_of_step hstep with
  | @arrive e he =>
      refine ⟨hfree, ?_⟩
      intro j u hu hj
      rcases Config.getElem?_spawn hu with hold | ⟨rfl, rfl⟩
      · exact hheld j u hold hj
      · exact absurd (hH.2 _ hj) (Nat.lt_irrefl _)
  | @env x w hw =>
      have hkeep : L.holder w = L.holder c.world := L.env_keeps hw
      have hview : P.view w = P.view c.world := P.env_untouched hw
      refine ⟨?_, ?_⟩
      · intro hn
        rw [hview]
        exact hfree (hkeep ▸ hn)
      · intro j u hu hj
        rw [hview]
        exact hheld j u hu (hkeep ▸ hj)
  | @act i ch t a next r w ht hrest hexec =>
      have hself := hH.1 i t ht
      cases hop : L.op a with
      | acquire =>
          -- The thread takes over what held while the lock was free.
          obtain ⟨hnone, hsome⟩ := L.acquire_free hop hexec
          have hview : P.view w = P.view c.world := P.view_of_lock (by simp [hop]) hexec
          refine ⟨?_, ?_⟩
          · intro hn
            rw [Config.resume_world, hsome] at hn
            cases hn
          · intro j u hu hj
            rw [Config.resume_world, hsome] at hj
            cases hj
            rw [Config.resume_getElem?_self ht] at hu
            cases hu
            rw [Config.resume_world, hview]
            exact hacq t a next hrest r _ hop (hfree hnone)
      | release =>
          -- The thread gives back what has to hold while the lock is free.
          have hnone := L.release_frees hop hexec
          have hin : inside L.op t.past = true := by
            have hresp := hd.respects hrest
            simpa [Respects, hop] using hresp
          have hview : P.view w = P.view c.world := P.view_of_lock (by simp [hop]) hexec
          refine ⟨?_, ?_⟩
          · intro _
            rw [Config.resume_world, hview]
            exact hrel t a next hrest _ hop (hheld i t ht (hself.1 hin))
          · intro j u hu hj
            rw [Config.resume_world, hnone] at hj
            cases hj
      | other =>
          have hkeep := L.other_keeps hop hexec
          by_cases hin : inside L.op t.past = true
          · -- The thread inside moves: its own knowledge is carried over.
            have hi := hself.1 hin
            refine ⟨?_, ?_⟩
            · intro hn
              rw [Config.resume_world, hkeep, hi] at hn
              cases hn
            · intro j u hu hj
              rw [Config.resume_world, hkeep, hi] at hj
              cases hj
              rw [Config.resume_getElem?_self ht] at hu
              cases hu
              exact hown t a next hrest i ch r c.world w hop hin hexec (hheld i t ht hi)
          · -- A thread outside moves: the protected part stays as it is.
            have hview : P.view w = P.view c.world := by
              apply P.untouched _ hexec
              cases htouch : P.touches a with
              | false => rfl
              | true => exact absurd (P.inside_of_touches hrest htouch) hin
            refine ⟨?_, ?_⟩
            · intro hn
              rw [Config.resume_world, hkeep] at hn
              rw [Config.resume_world, hview]
              exact hfree hn
            · intro j u hu hj
              rw [Config.resume_world, hkeep] at hj
              rw [Config.resume_world, hview]
              rcases Config.getElem?_resume hu with ⟨rfl, rfl⟩ | ⟨_, hold⟩ | ⟨rfl, e', _, rfl⟩
              · exact absurd (hself.2 hj) hin
              · exact hheld j u hold hj
              · exact absurd (hH.2 _ hj) (Nat.lt_irrefl _)

/-- Resource invariant of every run. -/
theorem invariant (free : View → Prop) (held : Thread S → View → Prop) (hd : L.Disciplined)
    (hacq : ∀ (t : Thread S) a next (h : t.rest = .act a next) r v, L.op a = .acquire →
      free v → held (t.advance h r) v)
    (hrel : ∀ (t : Thread S) a next (_ : t.rest = .act a next) v, L.op a = .release →
      held t v → free v)
    (hown : ∀ (t : Thread S) a next (h : t.rest = .act a next) i ch r w w',
      L.op a = .other → inside L.op t.past = true → S.exec w i a ch = some (r, w') →
        held t (P.view w) → held (t.advance h r) (P.view w'))
    {world : World} {c : Config S} (hholder : L.holder world = none)
    (hfree : free (P.view world)) (hrun : Reach Config.step (Config.initial S world) c) :
    L.HolderInv c ∧ P.Inv free held c := by
  refine Within.invariant (I := fun c => L.HolderInv c ∧ P.Inv free held c) ?_ hrun ?_
  · rintro c l c' ⟨hH, hI⟩ _ hstep
    exact ⟨holderInv_step hd hH hstep, inv_step hd hacq hrel hown hH hI hstep⟩
  · refine ⟨holderInv_initial hholder, fun _ => hfree, ?_⟩
    intro i t ht
    simp at ht

end Protected

end LockSpec

end Concurrency
end Pgaio
