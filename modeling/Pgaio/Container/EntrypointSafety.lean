import Pgaio.Container.Entrypoint

/-!
# EntrypointSafety — a restore under the supervisor

`wait -n` takes the end of PostgreSQL for a reason to shut the container down, and the first step of
a restore is to stop PostgreSQL.  So the script terminates the backend in the middle of the restore
(`term_in_window`).  `restore_undisturbed` says which steps have to be kept out of a run for this not
to happen, and `term_after_stop` that the stop of `$PG_PID` is one of them.
-/

namespace Pgaio
namespace Container

open Concurrency Service Transition

variable {w : WalG} {locate : String → Nat} {c c' : Container w locate}

/-! ## How a restore enters its window -/

theorem didBool_snoc {past : List WalGEvent} {a b : WalGAct} {r : b.Resp} :
    didBool (past ++ [⟨b, r⟩]) a = (didBool past a || (decide (b = a) && b.succeeded r)) := by
  simp [didBool]

theorem inWindow_iff {t : Thread (walgSystem w locate)} :
    inWindow t = true ↔ isRestore t = true ∧ insideOpMu t = true ∧
      didBool t.past w.stopServer = true ∧ ∀ e ∈ t.past, e.act.step < 8 := by
  simp [inWindow, and_assoc]

theorem not_inWindow_start (e : WalGEntry) :
    inWindow (Thread.start (walgSystem w locate) e) = false := by
  simp [inWindow, didBool]

/-- A job takes the lock once, at its beginning. -/
theorem past_of_lock {t : Thread (walgSystem w locate)} (h : t.action? = some .lock) :
    t.past = [] := by
  have hallows := allows_of_action h
  cases hentry : t.entry with
  | restoreJob req jobID =>
      rw [hentry] at hallows
      rcases hallows with ⟨_, h⟩ | h | h
      · exact h
      · cases h
      · cases h
  | backupJob kind jobID =>
      rw [hentry] at hallows
      rcases hallows with ⟨_, h⟩ | h | h
      · exact h
      · cases h
      · cases h
  | triggerBackup kind =>
      rw [hentry] at hallows
      rcases hallows with ⟨call, h⟩ | ⟨jobID, h⟩ <;> cases h
  | restoreBackup req =>
      rw [hentry] at hallows
      rcases hallows with ⟨call, h⟩ | ⟨_, jobID, h⟩ <;> cases h
  | _ =>
      rw [hentry] at hallows
      cases hallows

/-- `pg_ctl stop` succeeds on a running server only. -/
theorem running_of_stop {world world' : WalGWorld} {i : Nat} {ch : WalGChoice}
    {r : w.stopServer.Resp} (hexec : world.exec locate i w.stopServer ch = some (r, world'))
    (hok : w.stopServer.succeeded r = true) :
    ch.ok = true ∧ (world.dirs (locate w.dataDir)).running = true := by
  simp only [WalG.stopServer, WalGWorld.exec, WalGWorld.runCommand] at hexec
  split at hexec
  · rename_i htest
    simpa using htest
  · cases hexec
    cases hok

/-- The only way into the window is the stop of the server. -/
theorem inWindow_advance {t : Thread (walgSystem w locate)} {a : WalGAct}
    {next : a.Resp → WalGProgram WalGResult} (hrest : t.rest = .act a next) {r : a.Resp}
    {world world' : WalGWorld} {i : Nat} {ch : WalGChoice}
    (hexec : world.exec locate i a ch = some (r, world'))
    (hafter : inWindow (t.advance hrest r) = true) :
    inWindow t = true ∨ isRestore t = true ∧ a = w.stopServer ∧ ch.ok = true ∧
      (world.dirs (locate w.dataDir)).running = true := by
  have haction : t.action? = some a := Thread.action?_of_rest hrest
  rcases inWindow_iff.1 hafter with ⟨hrestore, hin, hdid, hbelow⟩
  rw [Thread.advance_past] at hdid hbelow
  rw [didBool_snoc, Bool.or_eq_true, Bool.and_eq_true, decide_eq_true_eq] at hdid
  rcases hdid with hbefore | ⟨rfl, hok⟩
  · refine Or.inl (inWindow_iff.2 ⟨hrestore, ?_, hbefore, fun e he => ?_⟩)
    · -- It was inside before, as the lock is taken at the beginning only.
      unfold insideOpMu at hin ⊢
      rw [Thread.advance_past, inside_snoc] at hin
      cases hop : a.lockOp with
      | acquire =>
          have hlock : a = .lock := by
            cases a <;> first | rfl | cases hop
          subst hlock
          rw [past_of_lock haction] at hbefore
          cases hbefore
      | release =>
          rw [hop] at hin
          cases hin
      | other =>
          rw [hop] at hin
          exact hin
    · exact hbelow e (List.mem_append_left _ he)
  · exact Or.inr ⟨hrestore, rfl, running_of_stop hexec hok⟩

/-- After its successful stop a restore is in its window. -/
theorem inWindow_of_stop {t : Thread (walgSystem w locate)}
    {next : w.stopServer.Resp → WalGProgram WalGResult} (hrest : t.rest = .act w.stopServer next)
    (hrestore : isRestore t = true) {r : w.stopServer.Resp}
    (hok : w.stopServer.succeeded r = true) : inWindow (t.advance hrest r) = true := by
  have hstop : t.action? = some w.stopServer := Thread.action?_of_rest hrest
  -- No step has been tried before.
  have hbelow : StepsBelow 1 t.past := by
    have hallows := allows_of_action hstop
    cases hentry : t.entry with
    | restoreJob req jobID =>
        rw [hentry] at hallows
        rcases hallows with ⟨h, _⟩ | h | h
        · cases h
        · cases h
        · exact h.2
    | _ => simp [isRestore, hentry] at hrestore
  refine inWindow_iff.2 ⟨hrestore, ?_, ?_, hbelow.snoc (by decide) rfl⟩
  · have hin := insideOpMu_of_needsLock hstop rfl
    unfold insideOpMu at hin ⊢
    rw [Thread.advance_past, inside_snoc]
    exact hin
  · rw [Thread.advance_past, didBool_snoc, hok]
    simp

theorem windowOpen_of_step {l : Label WalGChoice WalGEnv WalGEntry} (status : Nat)
    (hconfig : c.config.step l = some c'.config) (hopen : c'.windowOpen = true) :
    c.windowOpen = true ∨ c.opensWindow (.backend l status) = true := by
  rcases List.any_eq_true.1 hopen with ⟨u, hmem, hwindow⟩
  rcases List.getElem?_of_mem hmem with ⟨j, hu⟩
  have hold : ∀ {k : Nat}, c.config.threads[k]? = some u → c.windowOpen = true := fun hk =>
    List.any_eq_true.2 ⟨u, List.mem_of_getElem? hk, hwindow⟩
  generalize hc₁ : c'.config = c₁ at hconfig hu
  cases Config.moves_of_step hconfig with
  | arrive _ =>
      rcases Config.getElem?_spawn hu with hk | ⟨_, rfl⟩
      · exact Or.inl (hold hk)
      · rw [not_inWindow_start] at hwindow
        cases hwindow
  | env _ => exact Or.inl (hold hu)
  | @act i ch t a next r world ht hrest hexec =>
      rcases Config.getElem?_resume hu with ⟨rfl, rfl⟩ | ⟨_, hk⟩ | ⟨_, e, _, rfl⟩
      · have haction : t.action? = some a := Thread.action?_of_rest hrest
        rcases inWindow_advance hrest hexec hwindow with hbefore | ⟨hrestore, rfl, hok, hrunning⟩
        · exact Or.inl (List.any_eq_true.2 ⟨t, List.mem_of_getElem? ht, hbefore⟩)
        · refine Or.inr ?_
          simp [opensWindow, ht, hrestore, haction, hok, hrunning]
      · exact Or.inl (hold hk)
      · rw [not_inWindow_start] at hwindow
        cases hwindow

/-! ## The run lemma -/

namespace Point

variable {statuses : Statuses} {p q : Point}

theorem dormant_waitAny :
    Point.waitAny.dormant statuses = true ↔ ∀ child, statuses child ≠ some 0 := by
  constructor
  · intro hdormant child
    simp only [dormant, List.all_cons, List.all_nil, Bool.and_true, Bool.and_eq_true,
      decide_eq_true_eq] at hdormant
    rcases hdormant with ⟨hpg, hpgb, hpgaio⟩
    cases child with
    | pg => exact hpg
    | pgb => exact hpgb
    | pgaio => exact hpgaio
  · intro hall
    simp [dormant, hall]

/-- An exit with a status other than 0 leaves a dormant script dormant. -/
theorem dormant_update {child : Child} {status : Option Nat} (h : p.dormant statuses = true)
    (hnew : p = .waitAny → status ≠ some 0) :
    p.dormant (Function.update statuses child status) = true := by
  cases p with
  | waitAny =>
      refine dormant_waitAny.2 fun other => ?_
      by_cases hother : other = child
      · subst hother
        rw [Function.update_self]
        exact hnew rfl
      · rw [Function.update_of_ne hother]
        exact dormant_waitAny.1 h other
  | _ => exact h

/-- A dormant script does not go to `kill` by itself. -/
theorem dormant_step {reported : Child} (h : p.dormant statuses = true)
    (hstep : p.step statuses reported = some q) : q.dormant statuses = true := by
  cases p with
  | waitAny =>
      have hne := dormant_waitAny.1 h reported
      simp only [Point.step] at hstep
      split at hstep
      · cases hstep
      · rename_i hzero
        exact absurd hzero hne
      · cases hstep
        rfl
  | kill => cases h
  | waitPgaio =>
      simp only [Point.step] at hstep
      split at hstep <;> cases hstep
      rfl
  | waitPgb =>
      simp only [Point.step] at hstep
      split at hstep <;> cases hstep
      rfl
  | exited status => cases hstep

end Point

/-- While a restore is in its window and the backend runs, the script is dormant. -/
def Calm (c : Container w locate) : Prop :=
  c.statuses .pgaio = none → c.windowOpen = true → c.point.dormant c.statuses = true

/-- A step of the backend that does not rouse the script. -/
theorem dormant_backend {l : Label WalGChoice WalGEnv WalGEntry} {status : Nat}
    (h : c.point.dormant c.statuses = true) (hrouses : c.rouses (.backend l status) = false) :
    c.point.dormant
      (Function.update c.statuses .pg ((c.pgExit? l status).or (c.statuses .pg))) = true := by
  refine Point.dormant_update h fun hp => ?_
  simp only [rouses, hp, decide_true, Bool.true_and, decide_eq_false_iff_not] at hrouses
  rw [hp] at h
  cases hexit : c.pgExit? l status with
  | none => simpa using Point.dormant_waitAny.1 h .pg
  | some n => simpa [hexit] using hrouses

theorem calm_step {l : ContainerLabel} (h : Calm c) (hspares : c.spares l = true)
    (hstep : c.step l = some c') : Calm c' := by
  simp only [spares, Bool.and_eq_true, Bool.or_eq_true, Bool.not_eq_true'] at hspares
  rcases hspares with ⟨hopens, hkeeps⟩
  intro halive hopen
  cases l with
  | backend l status =>
      simp only [step] at hstep
      split at hstep
      · rcases Option.map_eq_some_iff.1 hstep with ⟨config, hconfig, rfl⟩
        have halive' : c.statuses .pgaio = none := by
          simpa [Function.update] using halive
        -- The window was open before, or this step opens it.
        rcases windowOpen_of_step status hconfig hopen with hbefore | henters
        · have hrouses : c.rouses (.backend l status) = false := by
            simpa [hbefore] using hkeeps
          exact dormant_backend (h halive' hbefore) hrouses
        · have hboth : c.point.dormant c.statuses = true ∧
              c.rouses (.backend l status) = false := by
            simpa [henters] using hopens
          exact dormant_backend hboth.1 hboth.2
      · cases hstep
  | shell reported =>
      rcases Option.map_eq_some_iff.1 hstep with ⟨p, hp, rfl⟩
      exact Point.dormant_step (h halive hopen) hp
  | exits child status =>
      simp only [step] at hstep
      split at hstep
      · cases hstep
      · cases hstep
        have hopen' : c.windowOpen = true := hopen
        -- The backend runs on, so it is one of the others that has exited.
        have hchild : child ≠ .pgaio := by
          rintro rfl
          simp at halive
        have halive' : c.statuses .pgaio = none := by
          simpa [Function.update_of_ne (Ne.symm hchild)] using halive
        refine Point.dormant_update (h halive' hopen') fun hp => ?_
        have hpoint : c.point = .waitAny := hp
        have hstatus : status ≠ 0 := by
          simpa [rouses, hopen', hpoint, hchild] using hkeeps
        simpa using hstatus
  | signal =>
      rcases Option.map_eq_some_iff.1 hstep with ⟨p, hp, rfl⟩
      have hopen' : c.windowOpen = true := hopen
      -- The trap would rouse the script.
      simp [rouses, hopen', hp] at hkeeps

/-! ## `$PG_PID` and its server -/

/-- Files come and go without a server starting or stopping. -/
theorem running_setDir {world : WalGWorld} {d e : Nat} {whole : Bool} {files : DataFiles} :
    ((world.setDir e { world.dirs e with whole := whole, files := files }).dirs d).running =
      (world.dirs d).running := by
  by_cases he : d = e
  · subst he
    simp
  · rw [WalGWorld.setDir_ne he]

/-- A command that does not end a running server leaves it running. -/
theorem running_of_command {world : WalGWorld} {ch : WalGChoice} {cmd : Command} {d : Nat}
    (hrunning : (world.dirs d).running = true) (hends : endsServer locate d ch cmd = false) :
    ((world.runCommand locate ch cmd).2.dirs d).running = true := by
  have hset : ∀ (e : Nat) (b : Bool), (e = d → b = true) →
      ((world.setRunning e b).dirs d).running = true := by
    intro e b hb
    by_cases he : d = e
    · subst he
      simpa [WalGWorld.setRunning] using hb rfl
    · simpa [WalGWorld.setRunning, WalGWorld.setDir_ne he] using hrunning
  cases cmd with
  | pgCtlStop dir =>
      simp only [endsServer, Bool.and_eq_false_imp, decide_eq_true_eq] at hends
      simp only [WalGWorld.runCommand]
      split
      · -- A stop that succeeds ends its server, so it is another one.
        rename_i hok
        rw [Bool.and_eq_true] at hok
        exact hset _ _ fun he => by simpa [hok.1] using hends he
      · refine hset _ _ fun he => ?_
        have hup := hends he
        simp only [Bool.or_eq_false_iff, Bool.not_eq_false'] at hup
        rw [he, hrunning, hup.2]
        rfl
  | pgCtlRestart dir =>
      simp only [endsServer, Bool.and_eq_false_imp, decide_eq_true_eq] at hends
      simp only [WalGWorld.runCommand]
      split
      · exact hset _ _ fun _ => rfl
      · refine hset _ _ fun he => ?_
        have hup := hends he
        simp only [Bool.or_eq_false_iff, Bool.not_eq_false'] at hup
        exact hup.2
  | pgCtlStart dir =>
      simp only [WalGWorld.runCommand]
      split
      · exact hset _ _ fun _ => rfl
      · refine hset _ _ fun he => ?_
        rw [he, hrunning]
        rfl
  | backupPush dir base =>
      simp only [WalGWorld.runCommand]
      split <;> exact hrunning
  | deleteRetainFull retain =>
      simp only [WalGWorld.runCommand]
      split <;> exact hrunning
  | backupFetch dir name =>
      simp only [WalGWorld.runCommand]
      split
      · split <;> exact running_setDir.trans hrunning
      · exact hrunning

/-- No other action changes which servers run. -/
theorem running_of_exec {world world' : WalGWorld} {i : Nat} {a : WalGAct} {ch : WalGChoice}
    {r : a.Resp} (ha : ∀ cmd, a ≠ .command cmd)
    (hexec : world.exec locate i a ch = some (r, world')) (d : Nat) :
    (world'.dirs d).running = (world.dirs d).running := by
  rcases WalGWorld.exec_cases hexec with ⟨e, whole, files, rfl⟩ | rfl | ⟨cmd, hcmd, _⟩ |
    ⟨call, _, rfl⟩ | ⟨_, _, rfl⟩ | ⟨_, rfl⟩
  · exact running_setDir
  · rfl
  · exact absurd hcmd (ha cmd)
  · rfl
  · rfl
  · rfl

/-- As long as `$PG_PID` has not exited, its server runs. -/
def PgRuns (c : Container w locate) : Prop :=
  c.statuses .pg = none → (c.config.world.dirs (locate defaultDataDir)).running = true

theorem pgRuns_backend {l : Label WalGChoice WalGEnv WalGEntry} {status : Nat}
    {config : WalGConfig w locate} (hpg : c.statuses .pg = none)
    (hrunning : (c.config.world.dirs (locate defaultDataDir)).running = true)
    (hexit : c.pgExit? l status = none) (hconfig : c.config.step l = some config) :
    (config.world.dirs (locate defaultDataDir)).running = true := by
  simp only [pgExit?, hpg, hrunning] at hexit
  cases Config.moves_of_step hconfig with
  | arrive _ => exact hrunning
  | @env x world hx =>
      cases x with
      | setRetainCount retain =>
          cases hx
          exact hrunning
      | serverExits e =>
          cases hx
          have hne : locate defaultDataDir ≠ e := by
            rintro rfl
            simp at hexit
          simpa [WalGWorld.setRunning, WalGWorld.setDir_ne hne] using hrunning
  | @act i ch t a next r world ht hrest hexec =>
      -- Of what the backend does, only a command of the system can end a server.
      by_cases hcmd : ∃ cmd, a = .command cmd
      · rcases hcmd with ⟨cmd, rfl⟩
        have hends : endsServer locate (locate defaultDataDir) ch cmd = false := by
          have haction : t.action? = some (.command cmd) := Thread.action?_of_rest hrest
          simpa [ht, haction] using hexit
        have hkept := running_of_command hrunning hends
        have heq : c.config.world.runCommand locate ch cmd = (r, world) :=
          Option.some.inj hexec
        rw [heq] at hkept
        exact hkept
      · rw [Config.resume_world, running_of_exec (fun cmd h => hcmd ⟨cmd, h⟩) hexec]
        exact hrunning

theorem pgRuns_step {l : ContainerLabel} (h : PgRuns c) (hstep : c.step l = some c') :
    PgRuns c' := by
  cases l with
  | backend l status =>
      simp only [step] at hstep
      split at hstep
      · rcases Option.map_eq_some_iff.1 hstep with ⟨config, hconfig, rfl⟩
        intro hpg
        have hnone : (c.pgExit? l status).or (c.statuses .pg) = none := by
          simpa only [Function.update_self] using hpg
        rcases Option.or_eq_none_iff.1 hnone with ⟨hexit, hbefore⟩
        -- The status is still unset, so the step has not ended the server.
        exact pgRuns_backend hbefore (h hbefore) hexit hconfig
      · cases hstep
  | shell reported =>
      rcases Option.map_eq_some_iff.1 hstep with ⟨p, _, rfl⟩
      exact h
  | exits child status =>
      simp only [step] at hstep
      split at hstep
      · cases hstep
      · rename_i hchild
        cases hstep
        intro hpg
        refine h ?_
        have hne : Child.pg ≠ child := fun heq => hchild (Or.inl heq.symm)
        simpa only [Function.update_of_ne hne] using hpg
  | signal =>
      rcases Option.map_eq_some_iff.1 hstep with ⟨p, _, rfl⟩
      exact h

/-! ## The stop of `$PG_PID` -/

/-- All operations succeed, no process ends without being told to, and no signal arrives. -/
def succeeds (_ : Container w locate) : ContainerLabel → Bool
  | .backend (.arrive _) _ => true
  | .backend (.step _ ch) _ => ch.ok
  | .shell _ => true
  | _ => false

/-- A restore that stops `$PG_PID` while the script waits can be interrupted before it starts the
server again, though nothing fails. -/
theorem term_after_stop {world : WalGWorld}
    (hserver : (world.dirs (locate defaultDataDir)).running = true)
    (hreach : Reach step (initial w locate world) c) {i : Nat} {t : Thread (walgSystem w locate)}
    (ht : c.config.threads[i]? = some t) (hrestore : isRestore t = true)
    (hstop : t.action? = some w.stopServer) (hserved : locate w.dataDir = locate defaultDataDir)
    (hwaits : c.point = .waitAny) (hpg : c.statuses .pg = none)
    (hpgaio : c.statuses .pgaio = none) :
    ∃ c', Within step (fun c l => c.succeeds l = true) c c' ∧ ¬ c'.TermSafe := by
  have hrunning : (c.config.world.dirs (locate w.dataDir)).running = true := by
    rw [hserved]
    refine hreach.invariant (I := PgRuns) (fun _ _ _ h _ hstep => pgRuns_step h hstep) ?_ hpg
    exact fun _ => hserver
  rcases Thread.action?_eq_some.1 hstop with ⟨next, hrest⟩
  -- First step: the restore stops its server, and with it `$PG_PID` ends.
  have hexec : c.config.world.exec locate i w.stopServer {} =
      some (.ok "", c.config.world.setRunning (locate w.dataDir) false) := by
    simp [WalG.stopServer, WalGWorld.exec, WalGWorld.runCommand, hrunning]
  have hconfig := Config.step_of_act ht hrest hexec
  have hexit : c.pgExit? (.step i {}) 0 = some 0 := by
    simp [pgExit?, hpg, hserved ▸ hrunning, ht, hstop, WalG.stopServer, endsServer, hserved]
  let stopped : Container w locate :=
    { c with
      config := c.config.resume (c.config.world.setRunning (locate w.dataDir) false) i
        (t.advance hrest (.ok "")) none
      statuses := Function.update c.statuses .pg (some 0) }
  have hstep₁ : c.step (.backend (.step i {}) 0) = some stopped := by
    have hforks : (walgSystem w locate).forks w.stopServer = none := rfl
    rw [hforks] at hconfig
    simp [step, canRun, hpgaio, hconfig, hexit, stopped]
  -- Second step: `wait -n` returns, and the script is about to send its signals.
  have hstep₂ : stopped.step (.shell .pg) = some { stopped with point := .kill } := by
    simp [step, stopped, hwaits, Point.step]
  have hrun : Within step (fun c l => c.succeeds l = true) c { stopped with point := .kill } := by
    refine Within.tail (t := stopped) (Within.tail (t := c) Within.refl ?_ hstep₁) ?_ hstep₂
    · rfl
    · rfl
  refine ⟨{ stopped with point := .kill }, hrun, fun hsafe => ?_⟩
  -- The restore is in its window when SIGTERM arrives.
  have hwindow : inWindow (t.advance hrest (.ok "")) = true := inWindow_of_stop hrest hrestore rfl
  have hmem : t.advance hrest (.ok "") ∈ stopped.config.threads :=
    List.mem_of_getElem? (Config.resume_getElem?_self ht)
  have hclosed := hsafe (.shell .pg) (by simp [sendsTerm, stopped, hpgaio]) _ hmem
  rw [hwindow] at hclosed
  cases hclosed

/-- In every run whose steps spare the restores: the script never sends SIGTERM to the backend while
a restore is between its successful `pg_ctl stop` and its own `pg_ctl start`. -/
theorem restore_undisturbed (w : WalG) (locate : String → Nat) (world : WalGWorld)
    (c : Container w locate)
    (hrun : Within step (fun c l => c.spares l = true) (initial w locate world) c) :
    c.TermSafe := by
  have hcalm : Calm c := by
    refine hrun.invariant (I := Calm) (fun _ _ _ h hok hstep => calm_step h hok hstep) ?_
    intro _ hopen
    cases hopen
  intro l hterm t hmem
  cases l with
  | shell reported =>
      simp only [sendsTerm, Bool.and_eq_true, decide_eq_true_eq, Option.isNone_iff_eq_none]
        at hterm
      cases hwindow : inWindow t with
      | false => rfl
      | true =>
          -- SIGTERM is sent at `kill`, where the script is not dormant.
          have hdormant := hcalm hterm.2 (List.any_eq_true.2 ⟨t, hmem, hwindow⟩)
          rw [hterm.1] at hdormant
          cases hdormant
  | _ => cases hterm

/-! ## Concrete runs -/

/-- A restore is requested, takes the lock and stops PostgreSQL. -/
def upToStop : List ContainerLabel :=
  [.backend (.arrive (.restoreBackup { backupName := "base_1" })) 0] ++
    List.replicate 2 (.backend (stepOf 0) 0) ++ List.replicate 3 (.backend (stepOf 1) 0)

/-- The container is told to stop, and the backend has got its signal before the restore begins. -/
def restoreAtShutdown : List ContainerLabel :=
  [.signal, .shell .pg] ++ upToStop

theorem restore_undisturbed_atShutdown :
    ∃ c : Container exampleWalG exampleLocate, c.windowOpen = true ∧ c.TermSafe := by
  have hmeets : runMeets step (fun c l => c.spares l)
      (initial exampleWalG exampleLocate exampleWorld) restoreAtShutdown = true := by
    decide +kernel
  have hend : (run step (initial exampleWalG exampleLocate exampleWorld) restoreAtShutdown).any
      windowOpen = true := by
    decide +kernel
  rcases exists_within_of_run hmeets hend with ⟨c, hrun, hopen⟩
  exact ⟨c, hopen, restore_undisturbed exampleWalG exampleLocate exampleWorld c hrun⟩

theorem term_in_window :
    ¬ ∀ c : Container exampleWalG exampleLocate,
      Within step (fun c l => c.succeeds l = true)
        (initial exampleWalG exampleLocate exampleWorld) c → c.TermSafe := by
  intro hall
  have hmeets : runMeets step (fun c l => c.succeeds l)
      (initial exampleWalG exampleLocate exampleWorld) (upToStop ++ [.shell .pg]) = true := by
    decide +kernel
  have hend : (run step (initial exampleWalG exampleLocate exampleWorld)
      (upToStop ++ [.shell .pg])).any
        (fun c => c.windowOpen && c.sendsTerm (.shell .pg)) = true := by
    decide +kernel
  rcases exists_within_of_run hmeets hend with ⟨c, hrun, htest⟩
  rw [Bool.and_eq_true] at htest
  rcases List.any_eq_true.1 htest.1 with ⟨t, hmem, hwindow⟩
  rw [hall c hrun _ htest.2 t hmem] at hwindow
  cases hwindow

end Container
end Pgaio
