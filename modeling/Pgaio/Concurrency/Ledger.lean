import Pgaio.Concurrency.Threads
import Mathlib.Algebra.GroupWithZero.Nat
import Mathlib.Data.List.Perm.Basic

/-!
# Ledger — who owns a resource

Threads acquire resources (files, identifiers), give them up, pass them to threads they start, or hand them
over to the world.  A `Ledger` counts the owners of a resource: the threads that own it, according to their
past, and the owners inside the world.

One step changes the owners of the thread that moves, of the thread that it starts and of the world.  When
every step accounts for these (`Accounts`), no resource has more owners than there are of it (`Bounded`);
when nothing gets lost (`Keeps`), every one has its owner (`Kept`).
-/

namespace Pgaio
namespace Concurrency

open Transition

variable {World Act : Type} {Resp : Act → Type} {Choice Env Entry Result : Type}

/-- `own` says how often a thread owns a resource, `shared` how many owners are in the world and `supply` how
often the world has it. -/
structure Ledger (S : System World Act Resp Choice Env Entry Result) (R : Type) where
  own : Entry → List (Event Act Resp) → R → Nat
  shared : World → R → Nat
  supply : World → R → Nat

/-- The sum after one summand has been replaced. -/
theorem sum_map_set {α : Type} (f : α → Nat) {l : List α} {i : Nat} {a : α} (b : α) (ha : l[i]? = some a) :
    ((l.set i b).map f).sum + f a = (l.map f).sum + f b := by
  induction l generalizing i with
  | nil => cases ha
  | cons c l ih =>
      cases i with
      | zero =>
          obtain rfl := Option.some.inj ha
          simp only [List.set_cons_zero, List.map_cons, List.sum_cons]
          omega
      | succ i =>
          have hrest := ih ha
          simp only [List.set_cons_succ, List.map_cons, List.sum_cons]
          omega

theorem le_sum_map_of_mem {α : Type} (f : α → Nat) {l : List α} {a : α} (ha : a ∈ l) :
    f a ≤ (l.map f).sum := by
  obtain ⟨l₁, l₂, rfl⟩ := List.append_of_mem ha
  simp only [List.map_append, List.map_cons, List.sum_append, List.sum_cons]
  omega

namespace Ledger

variable {S : System World Act Resp Choice Env Entry Result} {R : Type}
variable (L : Ledger S R) {c c' : Config S} {t t' : Thread S} {x : R} {e : Option Entry}

def owned (t : Thread S) (x : R) : Nat :=
  L.own t.entry t.past x

/-- What a thread that has just been started owns. -/
def start (e : Option Entry) (x : R) : Nat :=
  e.elim 0 fun e => L.own e [] x

def threadOwners (c : Config S) (x : R) : Nat :=
  (c.threads.map fun t => L.owned t x).sum

def owners (c : Config S) (x : R) : Nat :=
  L.threadOwners c x + L.shared c.world x

theorem threadOwners_spawn (e : Entry) :
    L.threadOwners (c.spawn e) x = L.threadOwners c x + L.own e [] x := by
  simp [threadOwners, Config.spawn, owned]

/-- The thread that moves is counted anew. -/
theorem threadOwners_resume (t' : Thread S) (e : Option Entry) (w : World) (x : R) {i : Nat}
    (ht : c.threads[i]? = some t) :
    L.threadOwners (c.resume w i t' e) x + L.owned t x =
      L.threadOwners c x + L.owned t' x + L.start e x := by
  have hset := sum_map_set (fun t => L.owned t x) t' ht
  have hstart : (((e.map (Thread.start S)).toList).map fun t => L.owned t x).sum = L.start e x := by
    cases e with
    | none => rfl
    | some e => simp [start, owned]
  unfold threadOwners Config.resume
  rw [List.map_append, List.sum_append, hstart]
  omega

theorem owned_le_threadOwners (ht : t ∈ c.threads) : L.owned t x ≤ L.threadOwners c x :=
  le_sum_map_of_mem (fun t => L.owned t x) ht

theorem threadOwners_pos (h : 0 < L.threadOwners c x) : ∃ t ∈ c.threads, 0 < L.owned t x := by
  obtain ⟨n, hn, hpos⟩ := List.sum_pos_iff_exists_pos_nat.1 h
  obtain ⟨t, ht, rfl⟩ := List.mem_map.1 hn
  exact ⟨t, ht, hpos⟩

/-- Two threads are counted both. -/
theorem owned_add_le {i j : Nat} (hi : c.threads[i]? = some t) (hj : c.threads[j]? = some t')
    (hne : i ≠ j) : L.owned t x + L.owned t' x ≤ L.threadOwners c x := by
  obtain ⟨hlt, hget⟩ := List.getElem?_eq_some_iff.1 hj
  -- Without the second thread the first one is still there.
  have hother : L.owned t x ≤ ((c.threads.eraseIdx j).map fun t => L.owned t x).sum :=
    le_sum_map_of_mem (fun t => L.owned t x) (List.mem_eraseIdx_iff_getElem?.2 ⟨i, hne, hi⟩)
  have hperm := ((List.getElem_cons_eraseIdx_perm hlt).map fun t => L.owned t x).sum_nat
  rw [hget, List.map_cons, List.sum_cons] at hperm
  unfold threadOwners
  omega

/-! ## Steps -/

/-- An owner more only with one more of the resource. -/
def Gains (w w' : World) (x : R) : Prop :=
  L.shared w' x + L.supply w x ≤ L.shared w x + L.supply w' x

/-- The same for a step of a thread from `past` to `past'`, which may start another one. -/
def Accounts (w w' : World) (entry : Entry) (past past' : List (Event Act Resp)) (e : Option Entry)
    (x : R) : Prop :=
  L.own entry past' x + L.start e x + L.shared w' x + L.supply w x ≤
    L.own entry past x + L.shared w x + L.supply w' x

/-- The other direction: as long as there is one, its owner is not lost. -/
def Loses (w w' : World) (x : R) : Prop :=
  L.shared w x + L.supply w' x ≤ L.shared w' x + L.supply w x ∨ L.supply w' x = 0

def Keeps (w w' : World) (entry : Entry) (past past' : List (Event Act Resp)) (e : Option Entry)
    (x : R) : Prop :=
  L.own entry past x + L.shared w x + L.supply w' x ≤
      L.own entry past' x + L.start e x + L.shared w' x + L.supply w x ∨
    L.supply w' x = 0

/-- No resource has more owners than there are of it. -/
def Bounded (c : Config S) : Prop :=
  ∀ x, L.owners c x ≤ L.supply c.world x

/-- Every resource has its owner. -/
def Kept (c : Config S) : Prop :=
  ∀ x, L.supply c.world x ≤ L.owners c x

/-- A law for every action that may be the next one of thread `i`. -/
def OnActs (c : Config S) (l : Label Choice Env Entry)
    (P : World → World → Entry → List (Event Act Resp) → List (Event Act Resp) → Option Entry → R → Prop) :
    Prop :=
  ∀ (i : Nat) (ch : Choice) (t : Thread S) (a : Act) (next : Resp a → Program Act Resp Result)
    (r : Resp a) (w : World), l = .step i ch → c.threads[i]? = some t → t.rest = .act a next →
      S.exec c.world i a ch = some (r, w) →
        ∀ x, P c.world w t.entry t.past (t.past ++ [⟨a, r⟩]) (S.forks a) x

/-- A law for every step of the environment. -/
def OnEnv (c : Config S) (l : Label Choice Env Entry) (P : World → World → R → Prop) : Prop :=
  ∀ (y : Env) (w : World), l = .env y → S.env c.world y = some w → ∀ x, P c.world w x

/-- Requests own nothing when they arrive. -/
def Fresh : Prop :=
  ∀ e x, S.external e = true → L.own e [] x = 0

variable {L} {l : Label Choice Env Entry}

theorem Bounded.step (hfresh : L.Fresh) (h : L.Bounded c) (hstep : c.step l = some c')
    (henv : OnEnv c l L.Gains) (hacts : OnActs c l L.Accounts) : L.Bounded c' := by
  intro x
  have hbefore := h x
  unfold owners at hbefore ⊢
  cases Config.moves_of_step hstep with
  | arrive he =>
      rw [L.threadOwners_spawn, hfresh _ _ he, Config.spawn_world]
      exact hbefore
  | @env y w hw =>
      have hnow := henv y w rfl hw x
      have hthreads : L.threadOwners { c with world := w } x = L.threadOwners c x := rfl
      unfold Gains at hnow
      rw [hthreads]
      show L.threadOwners c x + L.shared w x ≤ L.supply w x
      omega
  | @act i ch t a next r w ht hrest hexec =>
      have hnow := hacts i ch t a next r w rfl ht hrest hexec x
      have hcount := L.threadOwners_resume (t.advance hrest r) (S.forks a) w x ht
      unfold Accounts at hnow
      unfold owned at hcount
      rw [Thread.advance_entry, Thread.advance_past] at hcount
      rw [Config.resume_world]
      omega

theorem Kept.step (hfresh : L.Fresh) (h : L.Kept c) (hstep : c.step l = some c')
    (henv : OnEnv c l L.Loses) (hacts : OnActs c l L.Keeps) : L.Kept c' := by
  intro x
  have hbefore := h x
  unfold owners at hbefore ⊢
  cases Config.moves_of_step hstep with
  | arrive he =>
      rw [L.threadOwners_spawn, hfresh _ _ he, Config.spawn_world]
      exact hbefore
  | @env y w hw =>
      have hnow := henv y w rfl hw x
      have hthreads : L.threadOwners { c with world := w } x = L.threadOwners c x := rfl
      unfold Loses at hnow
      rw [hthreads]
      show L.supply w x ≤ L.threadOwners c x + L.shared w x
      omega
  | @act i ch t a next r w ht hrest hexec =>
      have hnow := hacts i ch t a next r w rfl ht hrest hexec x
      have hcount := L.threadOwners_resume (t.advance hrest r) (S.forks a) w x ht
      unfold Keeps at hnow
      unfold owned at hcount
      rw [Thread.advance_entry, Thread.advance_past] at hcount
      rw [Config.resume_world]
      omega

/-! ## What the books say -/

/-- A resource of which there is one at most has no two owners. -/
theorem Bounded.exclusive (h : L.Bounded c) (hsupply : L.supply c.world x ≤ 1) {i j : Nat}
    (hi : c.threads[i]? = some t) (hj : c.threads[j]? = some t') (ht : 0 < L.owned t x)
    (ht' : 0 < L.owned t' x) : i = j := by
  by_contra hne
  have htwo := L.owned_add_le (x := x) hi hj hne
  have hle := h x
  unfold owners at hle
  omega

/-- What a thread owns is there, beside what others own. -/
theorem Bounded.owned_le (h : L.Bounded c) (ht : t ∈ c.threads) :
    L.owned t x + L.shared c.world x ≤ L.supply c.world x := by
  have hmem := L.owned_le_threadOwners (x := x) ht
  have hle := h x
  unfold owners at hle
  omega

theorem Kept.owner (h : L.Kept c) (hsupply : 0 < L.supply c.world x) :
    (∃ t ∈ c.threads, 0 < L.owned t x) ∨ 0 < L.shared c.world x := by
  have hle := h x
  unfold owners at hle
  by_cases hshared : 0 < L.shared c.world x
  · exact .inr hshared
  · refine .inl (L.threadOwners_pos ?_)
    omega

end Ledger
end Concurrency
end Pgaio
