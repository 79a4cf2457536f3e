import Graphrun.Model.Reports

/-!
# Sessions and claims

Worker sessions, the allocation of claims in batches, and the messages of claim owners
(`decide_register`, `decide_claim`, `decide_renew`, `validate_claim_owner`,
`decide_reconcile`).
-/

namespace Graphrun

open Lib

/-! ## Sessions -/

def decideRegister (s : Core) (session : WorkerSessionId) (activities : List String)
    (capacity time : Nat) : Result (List DomainEvent) := do
  refuseIf (capacity = 0 ∨ capacity > claimBatch) (invalid "invalid worker capacity")
  if (s.sessions.lookup session).any fun existing => existing.expiresMs > time then pure []
  else pure [.sessionRegistered session activities capacity (satAdd time sessionLeaseMs)]

/-- No two capabilities name the same activity, version and role. -/
def distinctCapabilities : List WorkerCapability → Bool
  | [] => true
  | c :: rest =>
    !(rest.any fun d => decide (d.activityName = c.activityName ∧
      d.activityVersion = c.activityVersion ∧ d.role = c.role)) && distinctCapabilities rest

def decideRegisterWorker (s : Core) (session : WorkerSessionId) (principalId : String)
    (capabilities : List WorkerCapability) (capacity protocolMin protocolMax time : Nat) :
    Result (List DomainEvent) := do
  refuseIf (principalId = "" ∨ (s.sessions.lookup session).isSome)
    (invalid "worker session identity must be new and authenticated")
  refuseIf (capacity = 0 ∨ capacity > maxActiveLeavesPerWorker ∨ capabilities = [] ∨
      protocolMin > protocolVersion ∨ protocolMax < protocolVersion)
    (invalid "invalid worker capacity, protocol range, or capabilities")
  refuseIf ((capabilities.all fun c => c.codecVersion = codecVersion) = false ∨
      distinctCapabilities capabilities = false)
    (invalid "duplicate or unsupported worker capability")
  pure [.workerRegistered session principalId capabilities capacity protocolMin protocolMax
    (satAdd time sessionLeaseMs)]

def decideRenewLocalSession (s : Core) (session : WorkerSessionId) (time : Nat) :
    Result (List DomainEvent) := do
  let worker ← okOr (s.sessions.lookup session) (failedPrecondition "unknown local session")
  refuseIf (worker.principalId ≠ "" ∨ time ≥ worker.expiresMs)
    (failedPrecondition "local worker session expired or is not local")
  pure [.sessionRegistered session worker.activities worker.capacity (satAdd time sessionLeaseMs)]

def decideRenewWorkerSession (s : Core) (session : WorkerSessionId) (revision time : Nat) :
    Result (List DomainEvent) := do
  let worker ← okOr (s.sessions.lookup session) (refusal .unauthenticated "unknown worker session")
  refuseIf (worker.principalId = "" ∨ worker.revision ≠ revision ∨ time ≥ worker.expiresMs)
    (failedPrecondition "stale or expired worker session")
  pure [.workerSessionRenewed session (satAdd revision 1) (satAdd time sessionLeaseMs)]

/-! ## What may be claimed -/

def activeRuns (o : Enumeration) (s : Core) : List RunId :=
  ((o.values s.runs).filter fun run => run.status.isActive).map (·.id)

def readyActivations (o : Enumeration) (s : Core) (run : RunId) : List ActivationId :=
  ((o.values s.activations).filter fun act =>
    act.run = run ∧ act.status = .ready ∧ ((o.values s.waits).all fun wait =>
      wait.activation ≠ act.id ∨ wait.pending = false)).map (·.id)

/-- No claim on the activation, or one whose lease has run out. -/
def unclaimedAt (act : ActivationState) (time : Nat) : Bool :=
  act.claim.all fun claim => time ≥ claim.leaseExpiryMs

def unclaimedReady (o : Enumeration) (s : Core) (run : RunId) (time : Nat) : List ActivationId :=
  (readyActivations o s run).filter fun id =>
    (s.interventions.lookup id).isNone && (s.activations.lookup id).any (unclaimedAt · time)

def workerInFlight (o : Enumeration) (s : Core) (session : WorkerSessionId) (time : Nat) : Nat :=
  wrap32 ((o.values s.activations).countP fun act =>
    act.status = .ready ∧
      act.claim.any fun claim => claim.session = session ∧ claim.leaseExpiryMs > time)

def grantRole (o : Enumeration) (s : Core) (act : ActivationState) (time : Nat) : ExecutionRole :=
  if act.role = .compensation then .compensation
  else if act.claim.any (fun claim => time ≥ claim.leaseExpiryMs) then
    match s.runs.lookup act.run, nodeOf s act.scope act.node with
    | some run, some (.activity activity _ _ _ _ _) =>
      match run.catalog.activity activity with
      | .ok contract =>
        if contract.reconciler.isSome ∧
            (contract.recovery = .manual ∨ runIsAborting o s act.run) then .reconciliation
        else .forward
      | .error _ => .forward
    | _, _ => .forward
  else .forward

/-- The handler a claim of the given role would run, with its input. -/
def claimedActivity (s : Core) (activation : ActivationId) (role : ExecutionRole) :
    Result (ActivityKey × Value) := do
  let act ← okOr (s.activations.lookup activation) (invalid "missing activation")
  let run ← okOr (s.runs.lookup act.run) (invalid "missing run")
  match role with
  | .compensation => do
    let obligation ← okOr (compensatedBy s activation) (invalid "missing compensation obligation")
    pure (⟨obligation.handler, obligation.handlerVersion⟩, obligation.input)
  | _ => do
    let region ← okOr (regionForScope s act.scope) (invalid "missing activity scope")
    let node ← okOr (region.node? act.node) (invalid "missing activity node")
    match node with
    | .activity activity input _ _ _ _ => do
      let scope ← okOr (s.scopes.lookup act.scope) (invalid "missing activity scope state")
      let ctx ← evalCtx s scope
      let bound ← evalBinding ctx input
      if role = .reconciliation then do
        let contract ← run.catalog.activity activity
        let key ← okOr contract.reconciler (invalid "missing reconciliation contract")
        pure (key, bound)
      else pure (activity, bound)
    | _ => throw (invalid "ready node is not an activity")

def workerMatches (env : Env) (s : Core) (worker : WorkerSession) (activation : ActivationId)
    (role : ExecutionRole) : Result Bool := do
  let act ← okOr (s.activations.lookup activation) (invalid "missing activation")
  let run ← okOr (s.runs.lookup act.run) (invalid "missing run")
  let (key, _) ← claimedActivity s activation role
  if worker.principalId = "" then
    pure (worker.activities.any fun name => name = "*" ∨ name = key.name)
  else do
    let required ← capabilityFor env run.catalog key role
    pure (decide (required ∈ worker.capabilities))

/-! ## Allocation of claims -/

/-- The claims granted so far by one command. -/
structure Grants where
  events : List DomainEvent
  ids : List ActivationId

/-- The first candidate that the worker may claim. -/
def selectReady (env : Env) (o : Enumeration) (s : Core) (worker : WorkerSession) (run : RunId)
    (time : Nat) (granted : List ActivationId) : List ActivationId → Result (Option ActivationId)
  | [] => pure none
  | id :: rest =>
    if id ∈ granted then selectReady env o s worker run time granted rest
    else
      match s.activations.lookup id with
      | none => selectReady env o s worker run time granted rest
      | some act =>
        let role := grantRole o s act time
        if role = .forward ∧ (runPastDeadline s run time ∨ runIsAborting o s run) then
          selectReady env o s worker run time granted rest
        else do
          let suits ← workerMatches env s worker id role
          if suits then pure (some id) else selectReady env o s worker run time granted rest

theorem selectReady_cons {env : Env} {o : Enumeration} {s : Core} {worker : WorkerSession}
    {run : RunId} {time : Nat} {granted rest : List ActivationId} {id : ActivationId} :
    selectReady env o s worker run time granted (id :: rest) =
      if id ∈ granted then selectReady env o s worker run time granted rest
      else
        (match s.activations.lookup id with
        | none => selectReady env o s worker run time granted rest
        | some act =>
          if grantRole o s act time = .forward ∧
              (runPastDeadline s run time ∨ runIsAborting o s run) then
            selectReady env o s worker run time granted rest
          else do
            let suits ← workerMatches env s worker id (grantRole o s act time)
            if suits then pure (some id) else selectReady env o s worker run time granted rest) :=
  rfl

/-- The candidates of a run in the order in which they became ready. -/
def readyInOrder (o : Enumeration) (s : Core) (run : RunId) (time : Nat) : List ActivationId :=
  let order := fun id => ((s.activations.lookup id).map (·.readyOrder)).getD 0
  (unclaimedReady o s run time).insertionSort fun a b =>
    order a < order b ∨ (order a = order b ∧ a.bytes ≤ b.bytes)

def attemptTimeoutMs : ExecutionRole → Nat
  | .reconciliation => reconciliationAttemptTimeoutMs
  | .compensation => compensationAttemptTimeoutMs
  | .forward => forwardAttemptTimeoutMs

/-- The claim granted for an activation as the `granted`-th of its command. -/
def grantClaim (env : Env) (o : Enumeration) (s : Core) (session : WorkerSessionId) (run : RunId)
    (act : ActivationState) (activation : ActivationId) (time granted : Nat) :
    Result DomainEvent := do
  let role := grantRole o s act time
  let (handler, input) ← claimedActivity s activation role
  let runState ← okOr (s.runs.lookup run) (invalid "missing run")
  let (inputSchema, _) ← contractSchemas runState.catalog handler role
  runState.catalog.validateValue env inputSchema input
  let effectKey :=
    (if role = .reconciliation then act.claim.map (·.effectKey) else none).getD
      (stableEffectKey env run activation role)
  pure (.claimGranted run act.scope activation handler.name handler.version input
    (min (act.attempts + 1) (2 ^ 32 - 1)) session (satAdd s.nextGeneration (granted + 1)) 1
    (satAdd time sessionLeaseMs) (satAdd time (attemptTimeoutMs role)) effectKey role)

/-- At most one grant for one run. -/
def grantInRun (env : Env) (o : Enumeration) (s : Core) (session : WorkerSessionId)
    (worker : WorkerSession) (time cap : Nat) (grants : Grants) (run : RunId) : Result Grants :=
  if grants.ids.length ≥ cap then pure grants
  else do
    let selected ← selectReady env o s worker run time grants.ids (readyInOrder o s run time)
    match selected.bind fun id => (s.activations.lookup id).map fun act => (id, act) with
    | none => pure grants
    | some (activation, act) => do
      let event ← grantClaim env o s session run act activation time grants.ids.length
      pure { events := grants.events ++ [event], ids := grants.ids ++ [activation] }

/-- Rounds over the runs until the capacity is used up or a round grants nothing. Every round
but the last grants at least one claim, so as many rounds as the capacity suffice. -/
def grantRounds (env : Env) (o : Enumeration) (s : Core) (session : WorkerSessionId)
    (worker : WorkerSession) (time cap : Nat) (runs : List RunId) :
    Nat → Grants → Result Grants
  | 0, grants => pure grants
  | rounds + 1, grants =>
    if grants.ids.length ≥ cap then pure grants
    else do
      let after ← runs.foldlM (grantInRun env o s session worker time cap) grants
      if after.ids.length = grants.ids.length then pure after
      else grantRounds env o s session worker time cap runs rounds after

/-- The active runs, starting after the run that was served last. -/
def fairOrder (s : Core) (runs : List RunId) : List RunId :=
  let sorted := runs.insertionSort fun a b => a.bytes ≤ b.bytes
  match s.fairCursor with
  | none => sorted
  | some last =>
    sorted.rotate ((sorted.takeWhile fun run => run.bytes ≤ last.bytes).length % sorted.length)

def decideClaim (env : Env) (o : Enumeration) (s : Core) (session : WorkerSessionId)
    (capacity time : Nat) : Result (List DomainEvent) := do
  let worker ← okOr (s.sessions.lookup session) (refusal .unauthenticated "unknown session")
  refuseIf (time ≥ worker.expiresMs) (failedPrecondition "session expired")
  let renewed := if worker.principalId = "" then
      [DomainEvent.sessionRegistered session worker.activities worker.capacity
        (satAdd time sessionLeaseMs)]
    else []
  let cap := min (min capacity (worker.capacity - workerInFlight o s session time)) claimBatch
  let runs := activeRuns o s
  if runs = [] then pure renewed
  else do
    let grants ← grantRounds env o s session worker time cap (fairOrder s runs) cap ⟨[], []⟩
    pure (renewed ++ grants.events)

/-! ## Messages of claim owners -/

def decideRenew (s : Core) (session : WorkerSessionId) (activation : ActivationId)
    (generation revision time : Nat) : Result (List DomainEvent) := do
  let worker ← okOr (s.sessions.lookup session) (refusal .unauthenticated "unknown session")
  refuseIf (time ≥ worker.expiresMs) (failedPrecondition "session expired")
  let act ← okOr (s.activations.lookup activation) (invalid "unknown activation")
  let claim ← okOr act.claim (failedPrecondition "no claim")
  refuseIf (claim.session ≠ session ∨ claim.generation ≠ generation)
    (failedPrecondition "stale claim")
  refuseIf (claim.revision ≠ revision) (failedPrecondition "stale revision")
  refuseIf (time ≥ claim.leaseExpiryMs ∨ time ≥ claim.attemptDeadlineMs)
    (failedPrecondition "claim expired")
  pure [.claimRenewed activation session generation (satAdd revision 1)
    (satAdd time sessionLeaseMs)]

def validateClaimOwner (s : Core) (run : RunId) (activation : ActivationId)
    (session : WorkerSessionId) (generation revision time : Nat) : Result ClaimState := do
  let act ← okOr (s.activations.lookup activation) (invalid "unknown activation")
  refuseIf (act.run ≠ run ∨ act.status ≠ .ready)
    (failedPrecondition "activation is not awaiting this result")
  let claim ← okOr act.claim (failedPrecondition "no claim")
  refuseIf (claim.session ≠ session ∨ claim.generation ≠ generation ∨ claim.revision ≠ revision)
    (failedPrecondition "stale claim")
  let worker ← okOr (s.sessions.lookup session) (refusal .unauthenticated "unknown session")
  refuseIf (time ≥ worker.expiresMs ∨ time ≥ claim.leaseExpiryMs ∨
      time ≥ claim.attemptDeadlineMs)
    (failedPrecondition "claim or session expired")
  pure claim

def decideReportAssigned (env : Env) (o : Enumeration) (s : Core) (run : RunId)
    (activation : ActivationId) (output : Value) (session : WorkerSessionId)
    (generation revision time : Nat) (ids : IdGen) : Result Emission := do
  let claim ← validateClaimOwner s run activation session generation revision time
  refuseIf (claim.role = .reconciliation)
    (failedPrecondition "reconciliation claim must use reconcile")
  reportSuccess env o s run activation output ids

def decideReconcile (env : Env) (o : Enumeration) (s : Core) (run : RunId)
    (activation : ActivationId) (session : WorkerSessionId) (generation revision : Nat)
    (outcome : ReconcileOutcome) (output : Option Value) (time : Nat) (ids : IdGen) :
    Result Emission := do
  let act ← okOr (s.activations.lookup activation) (invalid "unknown activation")
  refuseIf (act.run ≠ run) (invalid "activation does not belong to run")
  refuseIf (act.status ≠ .ready) (invalid "activation is not awaiting a result")
  let claim ← validateClaimOwner s run activation session generation revision time
  refuseIf (claim.role ≠ .reconciliation)
    (failedPrecondition "claim is not a reconciliation probe")
  refuseIf (decide (outcome = .applied) ≠ output.isSome)
    (invalid "applied reconciliation requires output; other outcomes forbid it")
  match output with
  | some value => validateLeafOutput env s act value
  | none => pure ()
  refuseIf (outcome = .unknown ∧ claim.unknownReported)
    (failedPrecondition "unknown reconciliation already reported for claim")
  let probes := min (claim.probes + 1) (2 ^ 32 - 1)
  let recorded := DomainEvent.reconciliationRecorded run activation outcome output probes
  match outcome with
  | .applied => do
    let value ← okOr output .panicked
    let (reported, ids) ← reportSuccess env o s run activation value ids
    pure (recorded :: reported, ids)
  | .notApplied =>
    let settled := if runIsAborting o s run then
        [DomainEvent.leafFailed run activation (max act.attempts 1) "not_applied"
          "forward effect conclusively did not apply" false]
      else []
    pure (recorded :: .claimCleared activation :: settled, ids)
  | .unknown =>
    let escalated := if probes ≥ reconciliationProbes then
        [DomainEvent.interventionRequired run activation "reconciliation probes exhausted",
          .claimCleared activation]
      else []
    pure (recorded :: escalated, ids)

end Graphrun
