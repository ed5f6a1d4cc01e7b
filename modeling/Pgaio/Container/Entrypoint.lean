import Pgaio.Service.WalGServer

/-!
# Entrypoint — the supervisor of the container

`docker-entrypoint.sh` from the point on at which PostgreSQL, PgBouncer and the PGAIO backend run as
its children, together with the backend.  The script waits with `wait -n` for any of them.  A child
that exits with status 0 lets it go on to `cleanup`, any other status ends the script at once
(`set -e`), and a signal runs `cleanup` from wherever the script stands.

`$PG_PID` is the server of the default data directory until that server is stopped; a server that
`pg_ctl` starts later is no child of the script.
-/

namespace Pgaio
namespace Container

open Concurrency Service Transition

/-- `$PG_PID`, `$PGB_PID` and `$PGAIO_PID`. -/
inductive Child where
  | pg
  | pgb
  | pgaio
  deriving DecidableEq, Repr

/-- The command that the script executes next. -/
inductive Point where
  /-- `wait -n $PG_PID $PGB_PID $PGAIO_PID`. -/
  | waitAny
  /-- `kill $PGAIO_PID $PGB_PID`, where `cleanup` begins. -/
  | kill
  /-- `wait $PGAIO_PID`. -/
  | waitPgaio
  /-- `wait $PGB_PID`. -/
  | waitPgb
  | exited (status : Nat)
  deriving DecidableEq, Repr

/-- The statuses of the children that have exited. -/
abbrev Statuses := Child → Option Nat

namespace Point

/-- The next command; `wait -n` reports the child `reported`. -/
def step (statuses : Statuses) (reported : Child) : Point → Option Point
  | .waitAny =>
      match statuses reported with
      | none => none
      | some 0 => some .kill
      -- `set -e`.
      | some status => some (.exited status)
  | .kill => some .waitPgaio
  | .waitPgaio => if (statuses .pgaio).isSome then some .waitPgb else none
  | .waitPgb => if (statuses .pgb).isSome then some (.exited 0) else none
  | .exited _ => none

/-- `trap cleanup SIGTERM SIGINT`. -/
def trap : Point → Option Point
  | .exited _ => none
  | _ => some .kill

/-- The script is not on its way to `kill`: it is past it, or it waits and no child has exited with
status 0. -/
def dormant (statuses : Statuses) : Point → Bool
  | .waitAny => [Child.pg, .pgb, .pgaio].all fun child => decide (statuses child ≠ some 0)
  | .kill => false
  | _ => true

end Point

/-- Whether the command ends the running server of directory `d`. -/
def endsServer (locate : String → Nat) (d : Nat) (ch : WalGChoice) : Command → Bool
  | .pgCtlStop dir => decide (locate dir = d) && (ch.ok || !ch.up)
  | .pgCtlRestart dir => decide (locate dir = d) && (ch.ok || !ch.up)
  | _ => false

end Container

open Concurrency Service Transition Container

/-- The backend, the script and the children of the script. -/
structure Container (w : WalG) (locate : String → Nat) where
  config : WalGConfig w locate
  point : Point
  statuses : Statuses

/-- `status` is the exit status of a process that ends by itself. -/
inductive ContainerLabel where
  /-- A step of the backend, of a request or of a server. -/
  | backend (l : Label WalGChoice WalGEnv WalGEntry) (status : Nat)
  | shell (reported : Child)
  /-- PgBouncer or the backend exits. -/
  | exits (child : Child) (status : Nat)
  /-- The script gets SIGTERM or SIGINT. -/
  | signal

namespace Container

variable {w : WalG} {locate : String → Nat}

def initial (w : WalG) (locate : String → Nat) (world : WalGWorld) : Container w locate where
  config := Config.initial (walgSystem w locate) world
  point := .waitAny
  statuses := fun _ => none

/-- The status with which `$PG_PID` exits in a step of the backend; a server that is told to stop
exits with 0. -/
def pgExit? (c : Container w locate) (l : Label WalGChoice WalGEnv WalGEntry) (status : Nat) :
    Option Nat :=
  let d := locate defaultDataDir
  if (c.statuses .pg).isSome || !(c.config.world.dirs d).running then none
  else
    match l with
    | .step i ch =>
        match c.config.threads[i]?.bind Thread.action? with
        | some (.command cmd) => if endsServer locate d ch cmd then some 0 else none
        | _ => none
    | .env (.serverExits e) => if e = d then some status else none
    | _ => none

/-- After the backend has exited only the servers go on. -/
def canRun (c : Container w locate) : Label WalGChoice WalGEnv WalGEntry → Bool
  | .env _ => true
  | _ => (c.statuses .pgaio).isNone

def step (c : Container w locate) : ContainerLabel → Option (Container w locate)
  | .backend l status =>
      if c.canRun l then
        (c.config.step l).map fun config =>
          { c with
            config := config
            statuses := Function.update c.statuses .pg ((c.pgExit? l status).or (c.statuses .pg)) }
      else none
  | .shell reported => (c.point.step c.statuses reported).map fun p => { c with point := p }
  | .exits child status =>
      if child = .pg ∨ (c.statuses child).isSome then none
      else some { c with statuses := Function.update c.statuses child (some status) }
  | .signal => c.point.trap.map fun p => { c with point := p }

/-- The step sends SIGTERM to the running backend. -/
def sendsTerm (c : Container w locate) : ContainerLabel → Bool
  | .shell _ => decide (c.point = .kill) && (c.statuses .pgaio).isNone
  | _ => false

/-- The next step does not send SIGTERM to the backend while a restore is between its stop and its
start. -/
def TermSafe (c : Container w locate) : Prop :=
  ∀ l, c.sendsTerm l = true → ∀ t ∈ c.config.threads, inWindow t = false

/-! ## The condition -/

def windowOpen (c : Container w locate) : Bool :=
  c.config.threads.any inWindow

/-- A restore stops its server. -/
def opensWindow (c : Container w locate) : ContainerLabel → Bool
  | .backend (.step i ch) _ =>
      c.config.threads[i]?.any fun t =>
        isRestore t && decide (t.action? = some w.stopServer) && ch.ok &&
          (c.config.world.dirs (locate w.dataDir)).running
  | _ => false

/-- The step sets the script on its way to `kill`: PostgreSQL or PgBouncer exits with status 0 while
the script waits, or the script gets a signal. -/
def rouses (c : Container w locate) : ContainerLabel → Bool
  | .backend l status => decide (c.point = .waitAny) && decide (c.pgExit? l status = some 0)
  | .shell _ => false
  | .exits child status =>
      decide (c.point = .waitAny) && decide (child ≠ .pgaio) && decide (status = 0)
  | .signal => c.point.trap.isSome

/-- A restore stops its server only while the script is dormant, and neither that step nor a later
one rouses the script before the restore has started its server. -/
def spares (c : Container w locate) (l : ContainerLabel) : Bool :=
  (!c.opensWindow l || (c.point.dormant c.statuses && !c.rouses l)) && (!c.windowOpen || !c.rouses l)

end Container
end Pgaio
