import Graphrun.Model.Definition
import Graphrun.Lib.Table
import Graphrun.Lib.Sequence

/-!
# Events, commands and the engine state

The vocabulary of the engine (`domain.rs`): the domain events it records, the commands it
accepts, and the state both act on. The state is split in two layers. `Core` holds what
`evolve` reads and writes, which is also what a run checkpoint keeps; `State` adds the
receipts, the retained history and the publications that the commit path maintains.
-/

namespace Graphrun

open Lib

/-! ## Events -/

inductive ScopeRole where
  | root
  | loopBody (activation : ActivationId) (index : Nat)
  | foreachItem (activation : ActivationId) (index : Nat)
  | parallelBranch (activation : ActivationId) (name : String)
  | chooseBody (activation : ActivationId) (name : String)
  | sagaBody (activation : ActivationId)
  deriving DecidableEq, Repr

inductive ReconcileOutcome where
  | applied
  | notApplied
  | unknown
  deriving DecidableEq, Repr

/-- Exact executable binding to an immutable catalog contract. -/
structure WorkerCapability where
  activityName : String
  activityVersion : Nat
  role : ExecutionRole
  codecVersion : Nat
  inputSchemaDigest : String
  outputSchemaDigest : String
  contractDigest : String
  deriving DecidableEq, Repr

inductive DomainEvent where
  | runAdmitted (run : RunId) (definitionId : String) (definitionVersion : Nat) (input : Value)
      (root : ScopeId) (policy : CapturedRunPolicy) (admittedMs : Nat)
  | scopeOpened (run : RunId) (scope : ScopeId) (parent : Option ActivationId)
      (role : ScopeRole) (input : Value)
  | scopeCompleted (run : RunId) (scope : ScopeId) (output : Value)
  | scopeFailed (run : RunId) (scope : ScopeId) (error : FailError)
  | activationOpened (run : RunId) (scope : ScopeId) (activation : ActivationId) (node : NodeKey)
  | nodeOutputRecorded (run : RunId) (scope : ScopeId) (node : NodeKey) (output : Value)
  | guardRecorded (run : RunId) (activation : ActivationId) (result : Bool) (index : Nat)
      (carry : Value)
  | leafSucceeded (run : RunId) (activation : ActivationId) (attempt : Nat) (output : Value)
      (role : ExecutionRole)
  | leafFailed (run : RunId) (activation : ActivationId) (attempt : Nat) (code message : String)
      (retry : Bool)
  | waitOpened (run : RunId) (wait : WaitId) (activation : ActivationId) (signal key : String)
      (deadlineMs : Option Nat) (consumeFrom : ConsumeFrom)
  | waitSatisfied (run : RunId) (wait : WaitId) (eventId : EventId) (payload : Value)
  | waitTimedOut (run : RunId) (wait : WaitId)
  | waitCancelled (run : RunId) (wait : WaitId)
  | eventAccepted (run : RunId) (eventId : EventId) (signal key : String) (payload : Value)
      (sequence acceptedMs expiresMs : Nat)
  | eventReserved (wait : WaitId) (eventId : EventId)
  | eventExpired (run : RunId) (eventId : EventId)
  | reservationReleased (wait : WaitId) (eventId : EventId)
  | obligationRegistered (run : RunId) (forward : ActivationId) (handler : String)
      (handlerVersion : Nat) (input : Value)
  | obligationBlocked (run : RunId) (forward : ActivationId) (handler : String)
      (handlerVersion : Nat) (reason : String)
  | compensationStarted (run : RunId) (saga forward activation : ActivationId) (handler : String)
      (handlerVersion : Nat) (input : Value) (error : FailError)
  | obligationTransferred (forward fromSaga toSaga : ActivationId)
  | obligationReleased (run : RunId) (forward : ActivationId)
  | sessionRegistered (session : WorkerSessionId) (activities : List String)
      (capacity expiresMs : Nat)
  | workerRegistered (session : WorkerSessionId) (principalId : String)
      (capabilities : List WorkerCapability)
      (capacity protocolMin protocolMax expiresMs : Nat)
  | workerSessionRenewed (session : WorkerSessionId) (revision expiresMs : Nat)
  | claimGranted (run : RunId) (scope : ScopeId) (activation : ActivationId) (handler : String)
      (handlerVersion : Nat) (input : Value) (attempt : Nat) (session : WorkerSessionId)
      (generation revision leaseExpiryMs attemptDeadlineMs : Nat) (effectKey : EffectKey)
      (role : ExecutionRole)
  | claimRenewed (activation : ActivationId) (session : WorkerSessionId)
      (generation revision leaseExpiryMs : Nat)
  | claimCleared (activation : ActivationId)
  | reconciliationRecorded (run : RunId) (activation : ActivationId) (outcome : ReconcileOutcome)
      (output : Option Value) (probes : Nat)
  | reconciliationFailed (run : RunId) (activation : ActivationId) (code message : String)
  | interventionRequired (run : RunId) (activation : ActivationId) (reason : String)
  | runSucceeded (run : RunId) (output : Value)
  | runFailed (run : RunId) (error : FailError)
  | recoveryAuthorized (reason : String)
  | abortIntent (run : RunId) (saga : ActivationId) (error : FailError)
  | compensationAbandoned (run : RunId) (reason : String) (unresolved : List ActivationId)
  deriving DecidableEq

/-! ## Commands -/

inductive WorkerResult where
  | success (output : Value)
  | error (code message : String)
  deriving DecidableEq

inductive WorkerProbe where
  | observed (outcome : ReconcileOutcome) (output : Option Value)
  | error (code message : String)
  deriving DecidableEq

/-- The authenticated identity under which a publication is recorded. -/
structure CommandKey where
  clusterId : String
  principalId : String
  commandId : CommandId
  deriving DecidableEq

inductive PublicationOperation where
  | catalog (version : Nat) (catalog : Catalog)
  | definition (definition : Definition) (catalogVersion : Nat)
  | start (workflow : String) (version : Option Nat) (startKey : String) (input : Value)

/-- The commands. Those that change the writer format carry no data here: the commit path
refuses them whatever they contain. -/
inductive CommandBody where
  | prepareWriterFormat
  | activateWriterFormat
  | authenticated (principalId : String) (body : CommandBody)
  | publication (key : CommandKey) (operation : PublicationOperation)
  | start (run : RunId) (definition : Definition) (input : Value) (catalog : Catalog)
  | reportLeaf (run : RunId) (activation : ActivationId) (output : Value)
  | reportError (run : RunId) (activation : ActivationId) (code message : String)
  | resolveBlocked (run : RunId) (forward : ActivationId) (input : Value)
  | signal (run : RunId) (eventId : EventId) (signal key : String) (payload : Value)
  | resolveTimer (run : RunId) (wait : WaitId)
  | progress (run : RunId)
  | cancel (run : RunId) (reason : String)
  | registerSession (session : WorkerSessionId) (activities : List String) (capacity : Nat)
  | renewLocalSession (session : WorkerSessionId)
  | registerWorker (session : WorkerSessionId) (principalId : String)
      (capabilities : List WorkerCapability) (capacity protocolMin protocolMax : Nat)
  | renewWorkerSession (session : WorkerSessionId) (revision : Nat)
  | claim (session : WorkerSessionId) (capacity : Nat)
  | renew (session : WorkerSessionId) (activation : ActivationId) (generation revision : Nat)
  | reportAssigned (run : RunId) (activation : ActivationId) (output : Value)
      (session : WorkerSessionId) (generation revision : Nat)
  | reportWorker (run : RunId) (activation : ActivationId) (session : WorkerSessionId)
      (generation revision : Nat) (schemaDigest : String) (result : WorkerResult)
  | reconcile (run : RunId) (activation : ActivationId) (session : WorkerSessionId)
      (generation revision : Nat) (outcome : ReconcileOutcome) (output : Option Value)
  | reconcileWorker (run : RunId) (activation : ActivationId) (session : WorkerSessionId)
      (generation revision : Nat) (schemaDigest : String) (result : WorkerProbe)
  | acknowledgeRecovery (reason : String)
  | abandonCompensation (run : RunId) (reason : String)
  | pruneHistory (limit : Nat)

structure Command where
  id : CommandId
  body : CommandBody
  time : Nat

/-! ## The state of runs -/

inductive RunStatus where
  | active
  | succeeded (output : Value)
  | failed (error : FailError)
  deriving DecidableEq

/-- What a published run stays pinned to. -/
structure PinnedPublication where
  definitionFormatVersion : Nat
  definitionDigest : String
  catalogVersion : Nat
  catalogDigest : String
  policyFormat : String
  deriving DecidableEq

structure RunState where
  id : RunId
  definition : Definition
  catalog : Catalog
  input : Value
  policy : CapturedRunPolicy
  status : RunStatus
  root : ScopeId
  nextSequence : Nat
  nextReadyOrder : Nat
  admittedMs : Nat
  terminalMs : Nat
  published : Option PinnedPublication

inductive ScopeStatus where
  | open
  | completed (output : Value)
  | failed (error : FailError)
  deriving DecidableEq

structure ScopeState where
  id : ScopeId
  run : RunId
  parent : Option ActivationId
  role : ScopeRole
  input : Value
  status : ScopeStatus
  outputs : List (String × Value)
  current : Option NodeKey
  deriving DecidableEq

inductive ActivationStatus where
  | open
  | ready
  | succeeded
  | failed
  deriving DecidableEq, Repr

structure ClaimState where
  session : WorkerSessionId
  generation : Nat
  revision : Nat
  leaseExpiryMs : Nat
  attemptDeadlineMs : Nat
  effectKey : EffectKey
  role : ExecutionRole
  probes : Nat
  unknownReported : Bool
  deriving DecidableEq

structure ActivationState where
  id : ActivationId
  run : RunId
  scope : ScopeId
  node : NodeKey
  status : ActivationStatus
  role : ExecutionRole
  claim : Option ClaimState
  attempts : Nat
  readyOrder : Nat
  deriving DecidableEq

structure WorkerSession where
  id : WorkerSessionId
  activities : List String
  capacity : Nat
  expiresMs : Nat
  principalId : String
  capabilities : List WorkerCapability
  revision : Nat
  protocolMin : Nat
  protocolMax : Nat
  deriving DecidableEq

inductive ObligationStatus where
  | open
  | compensating (activation : ActivationId)
  | compensated
  | released
  | blocked (reason : String)
  | irreversible (reason : String)
  | abandoned
  deriving DecidableEq

structure Obligation where
  forward : ActivationId
  run : RunId
  owner : ActivationId
  handler : String
  handlerVersion : Nat
  input : Value
  status : ObligationStatus
  deriving DecidableEq

structure WaitState where
  id : WaitId
  run : RunId
  activation : ActivationId
  signal : String
  key : String
  deadlineMs : Option Nat
  consumeFrom : ConsumeFrom
  openedSequence : Nat
  pending : Bool
  deriving DecidableEq

structure InboxEntry where
  eventId : EventId
  signal : String
  key : String
  payload : Value
  sequence : Nat
  reservedWait : Option WaitId
  consumed : Bool
  acceptedMs : Nat
  expiresMs : Nat
  run : Option RunId
  deriving DecidableEq

structure RecoveryHold where
  reason : String
  authorized : Bool
  deriving DecidableEq

/-- What events change. -/
structure Core where
  runs : Table RunId RunState := ∅
  scopes : Table ScopeId ScopeState := ∅
  activations : Table ActivationId ActivationState := ∅
  waits : Table WaitId WaitState := ∅
  inbox : List InboxEntry := []
  loopCarry : Table ActivationId (Value × Nat) := ∅
  foreachDone : Table ActivationId (List (Nat × Value)) := ∅
  parallelDone : Table ActivationId (List (String × Value)) := ∅
  obligations : List Obligation := []
  sagaErrors : Table ActivationId FailError := ∅
  sessions : Table WorkerSessionId WorkerSession := ∅
  nextGeneration : Nat := 0
  fairCursor : Option RunId := none
  interventions : Table ActivationId String := ∅
  recovery : Option RecoveryHold := none

/-! ## Retained history and publications -/

structure ArtifactRef where
  clusterId : String
  format : String
  schema : String
  byteLen : Nat
  sha256 : String
  deriving DecidableEq

structure RequiredArtifacts where
  definition : ArtifactRef
  catalog : ArtifactRef
  policy : ArtifactRef
  schemas : List (String × ArtifactRef)
  contracts : List (String × ArtifactRef)
  deriving DecidableEq

structure HistoryEntry where
  format : String
  run : RunId
  sequence : Nat
  commandId : Option CommandId
  principalId : Option String
  recordedMs : Nat
  payload : ArtifactRef
  inputRef : Option ArtifactRef
  outputRef : Option ArtifactRef

/-- The part of a state that a run checkpoint keeps. -/
structure Projection where
  currentClusterId : String
  core : Core

structure RunCheckpoint where
  format : String
  throughRunSequence : Nat
  required : RequiredArtifacts
  projectionRef : ArtifactRef
  projection : Projection

structure TerminalSummary where
  run : RunId
  workflow : String
  version : Nat
  status : String
  terminalMs : Nat
  expiresMs : Nat
  historyThrough : Nat

structure SignalTombstone where
  run : RunId
  eventId : EventId
  signal : String
  key : String
  payload : ArtifactRef

structure PublishedCatalog where
  format : String
  digest : String
  catalog : Catalog

structure PublishedDefinition where
  format : String
  normalizedFormatVersion : Nat
  digest : String
  catalogVersion : Nat
  definition : Definition

structure StartKeyRecord where
  run : RunId
  version : Nat
  inputDigest : String
  admittedMs : Nat

inductive Disposition where
  | applied (run : Option RunId) (digest : Option String) (version : Option Nat)
  | rejected (code details : String)

structure EventRange where
  run : RunId
  first : Nat
  last : Nat

structure CommandResult where
  format : String
  key : CommandKey
  requestDigest : String
  operation : String
  target : String
  outcome : Disposition
  eventRange : Option EventRange
  recordedMs : Nat

structure State extends Core where
  currentClusterId : String
  engineTimeWatermarkMs : Nat := 0
  commands : Table CommandId (List DomainEvent) := ∅
  commandActors : Table CommandId String := ∅
  commandExternalIds : Table CommandId CommandId := ∅
  authenticatedRequestDigests : Table CommandId String := ∅
  legacyStartDigests : Table CommandId String := ∅
  workerCommandDigests : Table CommandId String := ∅
  commandTimes : Table CommandId Nat := ∅
  publishedCatalogs : List (Nat × PublishedCatalog) := []
  publishedDefinitions : List (String × List (Nat × PublishedDefinition)) := []
  startKeys : List (String × List (String × StartKeyRecord)) := []
  commandResults : List (String × CommandResult) := []
  history : Table RunId (List DomainEvent) := ∅
  historyRecords : Table RunId (List HistoryEntry) := ∅
  historyDependencies : Table RunId RequiredArtifacts := ∅
  checkpoints : Table RunId RunCheckpoint := ∅
  terminalSummaries : Table RunId TerminalSummary := ∅
  signalTombstones : Table String SignalTombstone := ∅

/-- The empty state of a member bound to a cluster. -/
def State.empty (clusterId : String) : State where
  currentClusterId := clusterId

end Graphrun
