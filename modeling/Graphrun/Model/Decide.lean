import Graphrun.Model.History

/-!
# Decisions

`decide` (`domain.rs`): which events a command produces in a state. A decision keeps its
events in the portions in which they were produced: `Progress` produces one portion for
each step it takes on a working copy of the state, every other command produces one.
-/

namespace Graphrun

open Lib

/-- Events that were produced together, with the source of identities they started from. -/
structure Portion where
  ids : IdGen
  events : List DomainEvent

structure Decision where
  portions : List Portion

/-- The events of a decision in order. -/
def Decision.events (d : Decision) : List DomainEvent := d.portions.flatMap (·.events)

def executionSuspended (s : Core) : Bool := s.recovery.any fun hold => !hold.authorized

def verifyCommandIdentity (s : State) (id : CommandId) (actor : Option String)
    (externalId : CommandId) (digest : Option String) : Result Unit :=
  if (s.commands.lookup id).isNone then
    refuseIf ((s.commandActors.lookup id).isSome ∨ (s.commandExternalIds.lookup id).isSome ∨
        (s.authenticatedRequestDigests.lookup id).isSome)
      (failedPrecondition "command identity has no retained receipt")
  else do
    refuseIf (s.commandActors.lookup id ≠ actor ∨
        (actor.isSome ∧ s.commandExternalIds.lookup id ≠ some externalId) ∨
        (actor.isNone ∧ ((s.commandExternalIds.lookup id).isSome ∨
          (s.authenticatedRequestDigests.lookup id).isSome)))
      (refusal .alreadyExists "command ID collides with another command identity")
    if actor.isSome then do
      let expected := s.authenticatedRequestDigests.lookup id
      refuseIf (expected.any fun value =>
          !("graphrun.authenticated-request/v1:".toList.isPrefixOf value.toList))
        (failedPrecondition "unsupported authenticated request digest format")
      refuseIf (expected ≠ digest)
        (refusal .alreadyExists "command ID reused with different authenticated request")
    else pure ()

def decideAcknowledgeRecovery (s : Core) (reason : String) : Result (List DomainEvent) := do
  let hold ← okOr s.recovery (invalid "no recovery hold")
  if hold.authorized then pure []
  else do
    refuseIf (reason = "") (invalid "recovery acknowledgement requires a reason")
    pure [.recoveryAuthorized reason]

def decideStart (env : Env) (run : RunId) (definition : Definition) (input : Value) (time : Nat)
    (ids : IdGen) : List DomainEvent :=
  let (root, ids) := ids.scope env
  let (startAct, _) := ids.activation env
  [.runAdmitted run definition.id definition.version input root
      (.defaults definition.runTimeoutMs) time,
    .scopeOpened run root none .root input,
    .activationOpened run root startAct definition.root.start]

/-- The open sagas of a run. -/
def openSagas (o : Enumeration) (s : Core) (run : RunId) : List ActivationId :=
  ((o.values s.activations).filter fun act =>
    act.run = run ∧ (nodeOf s act.scope act.node).any Node.isSaga ∧ act.status = .open).map (·.id)

/-- Compensates or fails the given sagas one after the other, all in the same state. -/
def cancelSagas (env : Env) (o : Enumeration) (s : Core) (error : FailError) :
    List ActivationId → IdGen → Result (List DomainEvent)
  | [], _ => pure []
  | saga :: rest, ids => do
    let (events, ids) ← compensateOrFail env o s saga error ids
    let others ← cancelSagas env o s error rest ids
    pure (events ++ others)

def decideCancel (env : Env) (o : Enumeration) (s : Core) (run : RunId) (reason : String)
    (ids : IdGen) : Result (List DomainEvent) := do
  let runState ← okOr (s.runs.lookup run) (invalid "unknown run")
  refuseIf (runState.status.isActive = false) (invalid "run is not active")
  let error : FailError := { code := "run.cancelled", message := reason }
  let sagas := openSagas o s run
  if sagas = [] then do
    let root ← okOr (rootScope? o s run) (invalid "run has no root scope")
    failScope o s root.id error
  else do
    let cancelled ← cancelSagas env o s error sagas ids
    pure (closePendingWaits o s run ++ cancelled)

/-- The steps of a progress command: at most `batch`, each on the state the earlier ones left. -/
def progressSteps (env : Env) (o : Enumeration) (run : RunId) (time : Nat) :
    Nat → State → IdGen → Result (List Portion)
  | 0, _, _ => pure []
  | batch + 1, working, ids => do
    let step ← nextProgress env o working.toCore run time ids
    match step with
    | none => pure []
    | some (events, rest) => do
      let working ← applyEvents env working events
      let others ← progressSteps env o run time batch working rest
      pure (⟨ids, events⟩ :: others)

def decideReportWorker (env : Env) (o : Enumeration) (s : Core) (run : RunId)
    (activation : ActivationId) (session : WorkerSessionId) (generation revision : Nat)
    (schemaDigest : String) (result : WorkerResult) (time : Nat) (ids : IdGen) :
    Result (List DomainEvent) := do
  let claim ← validateClaimOwner s run activation session generation revision time
  refuseIf (claim.role = .reconciliation) (invalid "reconciliation claim must use reconcile")
  let found ← activityKey s activation
  let (key, _) ← okOr found (invalid "claimed activity unavailable")
  let runState ← okOr (s.runs.lookup run) (invalid "unknown run")
  let capability ← capabilityFor env runState.catalog key claim.role
  refuseIf (capability.outputSchemaDigest ≠ schemaDigest)
    (invalid "worker result schema digest mismatch")
  match result with
  | .success output => do
    let (events, _) ← decideReportAssigned env o s run activation output session generation
      revision time ids
    pure events
  | .error code message => do
    refuseIf (message = "") (invalid s!"undeclared handler error code {code}")
    let contract ← runState.catalog.activity key
    refuseIf ((contract.knownCode code).isNone ∧ "worker.".toList.isPrefixOf code.toList = false)
      (invalid s!"undeclared handler error code {code}")
    decideReportError o s run activation code message

/-- The outcome that a probe reports, with its error if it failed. -/
def probeOutcome : WorkerProbe → Result (ReconcileOutcome × Option Value × Option (String × String))
  | .observed outcome output => pure (outcome, output, none)
  | .error code message => do
    refuseIf (code = "" ∨ message = "") (invalid "probe error requires code and message")
    pure (.unknown, none, some (code, message))

def decideReconcileWorker (env : Env) (o : Enumeration) (s : Core) (run : RunId)
    (activation : ActivationId) (session : WorkerSessionId) (generation revision : Nat)
    (schemaDigest : String) (result : WorkerProbe) (time : Nat) (ids : IdGen) :
    Result (List DomainEvent) := do
  let claim ← validateClaimOwner s run activation session generation revision time
  refuseIf (claim.role ≠ .reconciliation) (invalid "claim is not a reconciliation probe")
  let found ← activityKey s activation
  let (key, _) ← okOr found (invalid "claimed reconciler unavailable")
  let runState ← okOr (s.runs.lookup run) (invalid "unknown run")
  let capability ← capabilityFor env runState.catalog key claim.role
  refuseIf (capability.outputSchemaDigest ≠ schemaDigest)
    (invalid "worker probe schema digest mismatch")
  let (outcome, output, failure) ← probeOutcome result
  let (events, _) ← decideReconcile env o s run activation session generation revision outcome
    output time ids
  match failure with
  | some (code, message) => pure (.reconciliationFailed run activation code message :: events)
  | none => pure events

/-- A decision of one portion. -/
def single (id : CommandId) (events : List DomainEvent) : Decision :=
  ⟨[⟨{ command := id }, events⟩]⟩

/-- The decision of a command that has no receipt yet. -/
def decideBody (env : Env) (o : Enumeration) (s : State) (id : CommandId) (time : Nat) :
    CommandBody → Result Decision
  | .prepareWriterFormat | .activateWriterFormat =>
    throw (invalid "format policy requires ordered Raft apply")
  | .authenticated _ _ => throw (invalid "authenticated cause requires replicated apply")
  | .publication _ _ => throw (invalid "publication requires replicated apply")
  | .pruneHistory _ => throw (invalid "retention requires replicated apply")
  | .start run definition input _ => do
    refuseIf (executionSuspended s.toCore)
      (failedPrecondition "execution suspended until recovery is acknowledged")
    pure (single id (decideStart env run definition input time { command := id }))
  | .reportLeaf run activation output => do
    let (events, _) ← decideReport env o s.toCore run activation output time { command := id }
    pure (single id events)
  | .reportError run activation code message =>
    single id <$> decideReportError o s.toCore run activation code message
  | .resolveBlocked run forward input =>
    single id <$> decideResolveBlocked s.toCore run forward input
  | .signal run eventId signal key payload =>
    single id <$> decideSignal env o s run eventId signal key payload time
  | .resolveTimer run wait => do
    let (events, _) ← decideTimer env s.toCore run wait time { command := id }
    pure (single id events)
  | .progress run => Decision.mk <$> progressSteps env o run time progressBatch s { command := id }
  | .cancel run reason => single id <$> decideCancel env o s.toCore run reason { command := id }
  | .registerSession session activities capacity =>
    single id <$> decideRegister s.toCore session activities capacity time
  | .renewLocalSession session => single id <$> decideRenewLocalSession s.toCore session time
  | .registerWorker session principalId capabilities capacity protocolMin protocolMax =>
    single id <$> decideRegisterWorker s.toCore session principalId capabilities capacity
      protocolMin protocolMax time
  | .renewWorkerSession session revision =>
    single id <$> decideRenewWorkerSession s.toCore session revision time
  | .claim session capacity =>
    if executionSuspended s.toCore then pure (single id [])
    else single id <$> decideClaim env o s.toCore session capacity time
  | .renew session activation generation revision =>
    single id <$> decideRenew s.toCore session activation generation revision time
  | .reportAssigned run activation output session generation revision => do
    let (events, _) ← decideReportAssigned env o s.toCore run activation output session generation
      revision time { command := id }
    pure (single id events)
  | .reportWorker run activation session generation revision schemaDigest result =>
    single id <$> decideReportWorker env o s.toCore run activation session generation revision
      schemaDigest result time { command := id }
  | .acknowledgeRecovery reason => single id <$> decideAcknowledgeRecovery s.toCore reason
  | .abandonCompensation run reason => single id <$> decideAbandonCompensation o s.toCore run reason
  | .reconcile run activation session generation revision outcome output => do
    let (events, _) ← decideReconcile env o s.toCore run activation session generation revision
      outcome output time { command := id }
    pure (single id events)
  | .reconcileWorker run activation session generation revision schemaDigest result =>
    single id <$> decideReconcileWorker env o s.toCore run activation session generation revision
      schemaDigest result time { command := id }

def decide (env : Env) (o : Enumeration) (s : State) (command : Command) : Result Decision := do
  verifyCommandIdentity s command.id none command.id none
  match s.commands.lookup command.id with
  | some events => pure (single command.id events)
  | none => decideBody env o s command.id command.time command.body

end Graphrun
