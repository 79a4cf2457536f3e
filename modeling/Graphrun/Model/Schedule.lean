import Graphrun.Model.Decide

/-!
# Schedules

What is asked of a state between commands: whether a worker would be granted something
(`worker_has_ready`), and the row that the scheduler keeps of a run (`RunSchedule`).
-/

namespace Graphrun

open Lib

/-! ## Work for a worker -/

/-- Whether the worker may claim one of the candidates of a run. -/
def hasReadyIn (env : Env) (o : Enumeration) (s : Core) (worker : WorkerSession) (run : RunId)
    (time : Nat) : List ActivationId → Result Bool
  | [] => pure false
  | activation :: rest => do
    let act ← okOr (s.activations.lookup activation) .panicked
    let role := grantRole o s act time
    if role = .forward ∧ (runPastDeadline s run time ∨ runIsAborting o s run) then
      hasReadyIn env o s worker run time rest
    else do
      let suits ← workerMatches env s worker activation role
      if suits then pure true else hasReadyIn env o s worker run time rest

def hasReadyInRuns (env : Env) (o : Enumeration) (s : Core) (worker : WorkerSession)
    (time : Nat) : List RunId → Result Bool
  | [] => pure false
  | run :: runs => do
    let found ← hasReadyIn env o s worker run time (unclaimedReady o s run time)
    if found then pure true else hasReadyInRuns env o s worker time runs

def workerHasReady (env : Env) (o : Enumeration) (s : Core) (session : WorkerSessionId)
    (time : Nat) : Result Bool := do
  let worker ← okOr (s.sessions.lookup session) (invalid "unknown worker session")
  refuseIf (time ≥ worker.expiresMs) (failedPrecondition "worker session expired")
  if workerInFlight o s session time ≥ worker.capacity then pure false
  else hasReadyInRuns env o s worker time (activeRuns o s)

/-! ## The schedule of a run -/

structure RunSchedule where
  format : Nat
  generation : Nat
  progress : Bool
  ready : Bool
  deadlineMs : Option Nat
  sourceRevision : Nat

/-- Takes one activation of the run into the flag and the deadline of its schedule. -/
def scheduleActivation (o : Enumeration) (s : Core) (now : Nat) (row : Bool × Option Nat)
    (act : ActivationState) : Bool × Option Nat :=
  if act.status ≠ .ready ∨ (s.interventions.lookup act.id).isSome ∨
      (o.values s.waits).any fun wait => wait.activation = act.id ∧ wait.pending then row
  else
    match act.claim with
    | some claim =>
      if claim.leaseExpiryMs > now then
        (row.1, some ((row.2.map fun old => min old claim.leaseExpiryMs).getD claim.leaseExpiryMs))
      else (true, row.2)
    | none => (true, row.2)

def RunSchedule.fromState (o : Enumeration) (s : Core) (run : RunId) (progress : Bool)
    (now generation sourceRevision : Nat) : Option RunSchedule := do
  let current ← s.runs.lookup run
  if current.status.isActive = false then none
  else
    let waiting := (((o.values s.waits).filter fun wait => wait.run = run ∧ wait.pending).filterMap
      (·.deadlineMs)).min?
    let (ready, deadlineMs) := ((o.values s.activations).filter fun act => act.run = run).foldl
      (scheduleActivation o s now) (false, waiting)
    some { format := 1, generation, progress, ready, deadlineMs, sourceRevision }

end Graphrun
