import Graphrun.Model.Progress

/-!
# Recorded history

Every event of a run is recorded with references to the artifacts it accepted
(`history.rs`), and applying events is what makes them part of the state
(`apply_events_with_cause`). Recording can refuse an event: then the whole command is
refused. The module also has the reconstruction of a run from its history, its checkpoints,
and the pruning of what has outlived its retention.
-/

namespace Graphrun

open Lib

def eventFormat : String := "graphrun.run-event/v1"
def checkpointFormat : String := "graphrun.run-checkpoint/v2"
def dayMs : Nat := 24 * 60 * 60 * 1000

/-! ## References of recorded events -/

/-- One reference for each entry of a catalog table. -/
def captureEntries (env : Env) (clusterId scheme : String) :
    List (String × Payload) → Result (List (String × ArtifactRef))
  | [] => pure []
  | (key, payload) :: rest => do
    let ref ← captureIn env clusterId s!"{scheme}/{key}" payload
    let others ← captureEntries env clusterId scheme rest
    pure ((key, ref) :: others)

def RequiredArtifacts.capture (env : Env) (run : RunState) (clusterId : String) :
    Result RequiredArtifacts := do
  let schemas ← captureEntries env clusterId "graphrun.schema"
    (run.catalog.schemas.map fun e => (e.1.asStableName, .json e.2))
  let activities ← captureEntries env clusterId "graphrun.contract"
    (run.catalog.activities.map fun e => (s!"activity/{e.1.asStableName}", .contract e.2))
  let reconcilers ← captureEntries env clusterId "graphrun.contract"
    (run.catalog.reconcilers.map fun e => (s!"reconciler/{e.1.asStableName}", .reconciler e.2))
  let definition ← captureIn env clusterId "graphrun.definition/v1" (.definition run.definition)
  let catalog ← captureIn env clusterId "graphrun.catalog/v1" (.catalog run.catalog)
  let policy ← captureIn env clusterId "graphrun.run-policy/v1" (.policy run.policy)
  pure { definition, catalog, policy, schemas, contracts := activities ++ reconcilers }

def activitySchemaIdentity (env : Env) (s : Core) (run : RunId) (key : ActivityKey)
    (role : ExecutionRole) : Result (String × String) := do
  let runState ← okOr (s.runs.lookup run) (unavailable "accepted activity has no retained run")
  let (input, output) ← mapKind .unavailable (contractSchemas runState.catalog key role)
  let inputIdentity ← schemaIdentity env input
  let outputIdentity ← schemaIdentity env output
  pure (inputIdentity, outputIdentity)

def activityForResult (s : Core) (activation : ActivationId) (fallbackRole : ExecutionRole) :
    Result (ActivityKey × ExecutionRole) := do
  let act ← okOr (s.activations.lookup activation) (unavailable "accepted result has no activation")
  let found ← activityKey s activation
  let (key, _) ← okOr found (unavailable "accepted result has no pinned activity")
  pure (key, (act.claim.map (·.role)).getD fallbackRole)

/-- The input and output references of an event. -/
abbrev IoRefs := Option ArtifactRef × Option ArtifactRef

def ioReferences (env : Env) (s : Core) (clusterId : String) (run : RunId) :
    DomainEvent → Result IoRefs
  | .runAdmitted _ _ _ value _ _ _ => do
    let runState ← okOr (s.runs.lookup run) (unavailable "recorded event has no retained run")
    let schema ← schemaIdentity env runState.definition.inputSchema
    let ref ← captureIn env clusterId schema (.value value)
    pure (some ref, none)
  | .claimGranted _ _ _ handler handlerVersion value _ _ _ _ _ _ _ role => do
    let _ ← okOr (s.runs.lookup run) (unavailable "recorded event has no retained run")
    let (schema, _) ← activitySchemaIdentity env s run ⟨handler, handlerVersion⟩ role
    let ref ← captureIn env clusterId schema (.value value)
    pure (some ref, none)
  | .leafSucceeded _ activation _ value role => do
    let _ ← okOr (s.runs.lookup run) (unavailable "recorded event has no retained run")
    let (key, actualRole) ← activityForResult s activation role
    let (_, schema) ← activitySchemaIdentity env s run key actualRole
    let ref ← captureIn env clusterId schema (.value value)
    pure (none, some ref)
  | .reconciliationRecorded _ activation _ (some value) _ => do
    let _ ← okOr (s.runs.lookup run) (unavailable "recorded event has no retained run")
    let (key, role) ← activityForResult s activation .reconciliation
    let (_, schema) ← activitySchemaIdentity env s run key role
    let ref ← captureIn env clusterId schema (.value value)
    pure (none, some ref)
  | .eventAccepted _ _ signal _ value _ _ _ => do
    let runState ← okOr (s.runs.lookup run) (unavailable "recorded event has no retained run")
    let schema ← okOr (mapGet runState.definition.signals signal)
      (unavailable "accepted event has no pinned signal schema")
    let schema ← schemaIdentity env schema
    let ref ← captureIn env clusterId schema (.value value)
    pure (some ref, none)
  | .runSucceeded _ value => do
    let runState ← okOr (s.runs.lookup run) (unavailable "recorded event has no retained run")
    let schema ← schemaIdentity env runState.definition.outputSchema
    let ref ← captureIn env clusterId schema (.value value)
    pure (none, some ref)
  | _ => do
    let _ ← okOr (s.runs.lookup run) (unavailable "recorded event has no retained run")
    pure (none, none)

/-! ## Applying events -/

def eventOwner (s : Core) : DomainEvent → Result (Option RunId)
  | .runAdmitted run _ _ _ _ _ _ | .scopeOpened run _ _ _ _ | .scopeCompleted run _ _
  | .scopeFailed run _ _ | .activationOpened run _ _ _ | .nodeOutputRecorded run _ _ _
  | .guardRecorded run _ _ _ _ | .leafSucceeded run _ _ _ _ | .leafFailed run _ _ _ _ _
  | .waitOpened run _ _ _ _ _ _ | .waitSatisfied run _ _ _ | .waitTimedOut run _
  | .waitCancelled run _ | .eventAccepted run _ _ _ _ _ _ _ | .eventExpired run _
  | .obligationRegistered run _ _ _ _ | .obligationBlocked run _ _ _ _
  | .compensationStarted run _ _ _ _ _ _ _ | .runSucceeded run _ | .runFailed run _
  | .obligationReleased run _ | .claimGranted run _ _ _ _ _ _ _ _ _ _ _ _ _
  | .reconciliationRecorded run _ _ _ _ | .reconciliationFailed run _ _ _
  | .interventionRequired run _ _ | .abortIntent run _ _
  | .compensationAbandoned run _ _ => pure (some run)
  | .obligationTransferred forward _ _ => do
    let item ← okOr (s.obligations.find? fun item => item.forward = forward)
      (failedPrecondition "transferred obligation has no run")
    pure (some item.run)
  | .claimRenewed activation _ _ _ _ | .claimCleared activation => do
    let act ← okOr (s.activations.lookup activation)
      (failedPrecondition "claim lifecycle event has no activation")
    pure (some act.run)
  | .eventReserved wait _ | .reservationReleased wait _ => do
    let waitState ← okOr (s.waits.lookup wait) (failedPrecondition "signal reservation has no wait")
    pure (some waitState.run)
  | .sessionRegistered .. | .workerRegistered .. | .workerSessionRenewed ..
  | .recoveryAuthorized _ => pure none

/-- Who caused an event, and when. -/
structure Cause where
  commandId : Option CommandId
  principalId : Option String
  time : Nat

/-- A run's definition and catalog are captured when it is admitted. -/
def dependenciesAfter (env : Env) (s : State) (run : RunId) :
    DomainEvent → Result (Table RunId RequiredArtifacts)
  | .runAdmitted .. => do
    let runState ← okOr (s.runs.lookup run) .panicked
    let required ← RequiredArtifacts.capture env runState s.currentClusterId
    pure (s.historyDependencies.insert run required)
  | _ => pure s.historyDependencies

/-- An accepted event is remembered beyond its time in the inbox. -/
def tombstonesAfter (env : Env) (s : State) (run : RunId) :
    DomainEvent → Result (Table String SignalTombstone)
  | .eventAccepted _ eventId signal key value _ _ _ => do
    let ref ← captureIn env s.currentClusterId "graphrun.signal-payload/v1" (.value value)
    pure (s.signalTombstones.insert (tombstoneKey run eventId)
      { run, eventId, signal, key, payload := ref })
  | _ => pure s.signalTombstones

/-- `append`: records an event that has just been applied. -/
def appendHistory (env : Env) (s : State) (run : RunId) (event : DomainEvent) (cause : Cause)
    (refs : IoRefs) : Result State := do
  let events := (s.history.lookup run).getD []
  let records := (s.historyRecords.lookup run).getD []
  let dependencies ← dependenciesAfter env s run event
  let payload ← captureIn env s.currentClusterId "graphrun.domain-event/v1" (.event event)
  let tombstones ← tombstonesAfter env s run event
  pure { s with
    historyDependencies := dependencies
    history := s.history.insert run (events ++ [event])
    historyRecords := s.historyRecords.insert run (records ++ [{
      format := eventFormat, run, sequence := events.length + 1, commandId := cause.commandId
      principalId := cause.principalId, recordedMs := cause.time, payload, inputRef := refs.1
      outputRef := refs.2 }])
    signalTombstones := tombstones }

def applyEvent (env : Env) (cause : Cause) (s : State) (event : DomainEvent) : Result State := do
  let owner ← eventOwner s.toCore event
  let refs ← match owner with
    | some run => ioReferences env s.toCore s.currentClusterId run event
    | none => pure (none, none)
  refuseIf (evolvePanics s.toCore event) .panicked
  let evolved : State := { s with toCore := evolve s.toCore event }
  match owner with
  | some run => appendHistory env evolved run event cause refs
  | none => pure evolved

def applyEventsWithCause (env : Env) (cause : Cause) (s : State) (events : List DomainEvent) :
    Result State := events.foldlM (applyEvent env cause) s

def applyEvents (env : Env) (s : State) (events : List DomainEvent) : Result State :=
  applyEventsWithCause env { commandId := none, principalId := none, time := 0 } s events

/-! ## Reconstruction -/

/-- `digest` of a publication part. -/
def payloadDigest (env : Env) (payload : Payload) (limit : Nat) : Result String := do
  let json ← toValue env .invalidArgument payload
  let text ← canonicalJson env json
  refuseIf (text.utf8ByteSize > limit)
    (refusal .resourceExhausted s!"published payload exceeds {limit} bytes")
  pure (env.sha256Hex text)

def publicCommandEnvelope : Nat := 1024 * 1024
def maxPayloadBytes : Nat := 256 * 1024
def maxSchemaBytes : Nat := 256 * 1024
def maxNormalizedBytes : Nat := 256 * 1024

/-- A JSON object without one of its fields. -/
def Json.remove (key : String) : Json → Json
  | .object fields => .object (fields.filter fun e => e.1 ≠ key)
  | json => json

/-- `digest_of`: the digest of a definition without its own digest. -/
def digestOf (env : Env) (definition : Definition) : Result String :=
  match env.toJson (.definition definition) with
  | .error text => throw (invalid s!"canonicalize: {text}")
  | .ok json => do
    let text ← canonicalJson env (json.remove "digest")
    refuseIf (text.utf8ByteSize > maxNormalizedBytes)
      (invalid "normalized definition exceeds 256 KiB")
    pure (env.sha256Hex text)

def formatVersion : Nat := 1

def PinnedPublication.verify (env : Env) (pinned : PinnedPublication) (definition : Definition)
    (catalog : Catalog) : Result Unit := do
  let failed := failedPrecondition "pinned history artifact unavailable or corrupt"
  refuseIf (pinned.definitionFormatVersion ≠ formatVersion ∨
    definition.formatVersion ≠ pinned.definitionFormatVersion) failed
  let digest ← digestOf env definition
  refuseIf (pinned.definitionDigest ≠ digest) failed
  let catalogDigest ← payloadDigest env (.catalog catalog) publicCommandEnvelope
  refuseIf (pinned.catalogDigest ≠ catalogDigest ∨
    pinned.policyFormat ≠ "graphrun.run-policy/v1") failed

def RequiredArtifacts.verify (env : Env) (required : RequiredArtifacts) (run : RunState) :
    Result Unit := do
  let again ← mapKind .unavailable
    (RequiredArtifacts.capture env run required.definition.clusterId)
  refuseIf (required ≠ again)
    (unavailable "missing, corrupt or unsupported retained definition, schema, contract or policy")
  match run.published with
  | some published =>
    mapKind .unavailable (published.verify env run.definition run.catalog)
  | none => pure ()

/-- A run whose history is still retained, with the length of that history. -/
def retained (env : Env) (s : State) (run : RunId) (now : Nat) : Result (RunState × Nat) := do
  let runState ← okOr (s.runs.lookup run)
    (if (s.terminalSummaries.lookup run).isSome then
      unavailable "history range is unavailable; terminal summary retained"
    else refusal .notFound "unknown run")
  let through := ((s.history.lookup run).map List.length).getD 0
  refuseIf (runState.status.isActive = false ∧ runState.terminalMs ≠ 0 ∧
      now ≥ satAdd runState.terminalMs (satMul runState.policy.terminalHistoryDays dayMs))
    (unavailable s!"history range 1..={through} is unavailable")
  let required ← okOr (s.historyDependencies.lookup run)
    (unavailable "missing retained history dependencies")
  required.verify env runState
  pure (runState, through)

/-- The records and events of a range, each checked against its payload reference. -/
def checkEntries (env : Env) (run : RunId) :
    Nat → List (HistoryEntry × DomainEvent) → Result Unit
  | _, [] => pure ()
  | sequence, (record, event) :: rest => do
    refuseIf (record.format ≠ eventFormat ∨ record.run ≠ run ∨ record.sequence ≠ sequence)
      (unavailable "unsupported or noncontiguous run event sequence")
    record.payload.verify env "graphrun.domain-event/v1" (.event event)
    checkEntries env run (sequence + 1) rest

def validatedEntries (env : Env) (s : State) (run : RunId) (start through : Nat) :
    Result (List (HistoryEntry × DomainEvent)) := do
  let events ← okOr (s.history.lookup run) (unavailable "missing retained run events")
  let records ← okOr (s.historyRecords.lookup run) (unavailable "missing retained event records")
  refuseIf (records.length ≠ events.length ∨ events = [])
    (unavailable "incomplete retained event range")
  let entries := ((records.zip events).drop (start - 1)).take (through - start + 1)
  checkEntries env run start entries
  pure entries

/-- The run as it is before its first event. -/
def newRun (run : RunId) (definition : Definition) (catalog : Catalog)
    (published : Option PinnedPublication) : RunState where
  id := run
  definition := definition
  catalog := catalog
  input := .null
  policy := .defaults none
  status := .active
  root := ⟨0⟩
  nextSequence := 1
  nextReadyOrder := 0
  admittedMs := 0
  terminalMs := 0
  published := published

def reconstructIn (env : Env) (clusterId : String) (definition : Definition) (catalog : Catalog)
    (first : DomainEvent) : Result State :=
  match first with
  | .runAdmitted run _ _ input root policy _ =>
    let admitted := { newRun run definition catalog none with input, policy, root }
    let base := State.empty clusterId
    applyEvents env { base with runs := base.runs.insert run admitted } [first]
  | _ => throw (invalid "history must start with run admission")

def DomainEvent.isRunEnd : DomainEvent → Bool
  | .runSucceeded _ _ | .runFailed _ _ => true
  | _ => false

/-- Replays one recorded event on a projection. -/
def replayEntry (run : RunId) (s : State) (entry : HistoryEntry × DomainEvent) : Result State := do
  refuseIf (evolvePanics s.toCore entry.2) .panicked
  let evolved := evolve s.toCore entry.2
  let ended := if entry.2.isRunEnd then
      evolved.modifyRun run fun r => { r with terminalMs := entry.1.recordedMs }
    else evolved
  refuseIf (entry.2.isRunEnd ∧ (evolved.runs.lookup run).isNone) .panicked
  pure { s with toCore := ended, currentClusterId := entry.1.payload.clusterId }

def Projection.toState (p : Projection) : State :=
  { State.empty p.currentClusterId with toCore := p.core }

def reconstructAt (env : Env) (s : State) (run : RunId) (through now : Nat) : Result State := do
  let (source, available) ← retained env s run now
  refuseIf (through = 0 ∨ through > available)
    (invalid s!"requested sequence {through} is outside retained range 1..={available}")
  let entries ← validatedEntries env s run 1 through
  let checkpoint := s.checkpoints.lookup run
  match checkpoint with
  | some cp => do
    refuseIf (cp.format ≠ checkpointFormat ∨ cp.throughRunSequence = 0 ∨
        cp.throughRunSequence > available)
      (unavailable "unsupported or out-of-range retained checkpoint")
    cp.required.verify env source
    cp.projectionRef.verify env "graphrun.run-projection/v2"
      (.projection cp.throughRunSequence cp.projection)
    refuseIf ((cp.projection.core.runs.lookup run).isNone)
      (unavailable "retained checkpoint has no projected run")
  | none => pure ()
  let (base, first) ← match checkpoint.filter fun cp => cp.throughRunSequence ≤ through with
    | some cp => pure (cp.projection.toState, cp.throughRunSequence)
    | none => do
      let entry ← okOr entries.head? .panicked
      match entry.2 with
      | .runAdmitted .. => do
        let base ← mapKind .unavailable
          (reconstructIn env entry.1.payload.clusterId source.definition source.catalog entry.2)
        pure (base, 1)
      | _ => throw (unavailable "missing run admission event")
  let replayed ← (entries.drop first).foldlM (replayEntry run) base
  refuseIf ((replayed.runs.lookup run).isNone) .panicked
  let final := replayed.modifyRun run fun r => { r with published := source.published }
  pure { replayed with
    toCore := final
    history := replayed.history.insert run (entries.map (·.2))
    historyRecords := replayed.historyRecords.insert run (entries.map (·.1)) }

def checkpointAfterCommand (env : Env) (s : State) (run : RunId) (time : Nat) : Result State :=
  match s.runs.lookup run with
  | none => pure s
  | some runState =>
    let through := ((s.history.lookup run).map List.length).getD 0
    let previous := ((s.checkpoints.lookup run).map (·.throughRunSequence)).getD 0
    if through = 0 ∨ previous = through ∨
        (through - previous < runState.policy.checkpointEventCadence ∧
          runState.status.isActive) then
      pure s
    else do
      let required ← okOr (s.historyDependencies.lookup run)
        (unavailable "missing retained history dependencies")
      let rebuilt ← reconstructAt env s run through time
      let projection : Projection := {
        currentClusterId := rebuilt.currentClusterId
        core := { rebuilt.toCore with sessions := ∅ } }
      let projectionRef ← captureIn env s.currentClusterId "graphrun.run-projection/v2"
        (.projection through projection)
      pure { s with
        checkpoints := s.checkpoints.insert run {
          format := checkpointFormat, throughRunSequence := through, required, projectionRef
          projection } }

/-! ## Retention -/

section Heap

variable {κ : Type} (lt : κ → κ → Bool)

/-- Candidates are compared by due time, then by key. -/
def candidateLt (a b : Nat × κ) : Bool := a.1 < b.1 || (a.1 = b.1 && lt a.2 b.2)

/-- A binary heap seen as the list of its items, greatest first. -/
def heapPush (c : Nat × κ) : List (Nat × κ) → List (Nat × κ)
  | [] => [c]
  | d :: rest => if candidateLt lt d c then c :: d :: rest else d :: heapPush c rest

/-- `earliest_due`: the keys of the `limit` earliest candidates, earliest first. -/
def earliestDue (candidates : List (Nat × κ)) (limit : Nat) : List κ :=
  if limit = 0 then []
  else
    let selected := candidates.foldl (fun heap candidate =>
      if heap.length < limit then heapPush lt candidate heap
      else
        match heap with
        | latest :: rest =>
          if candidateLt lt candidate latest then heapPush lt candidate rest else heap
        | [] => heap) []
    selected.reverse.map (·.2)

end Heap

def Id.lt {k : IdKind} (a b : Id k) : Bool := a.bytes < b.bytes

/-- The order of inbox identities: entries without a run come first. -/
def inboxKeyLt (a b : Option RunId × EventId) : Bool :=
  match a.1, b.1 with
  | none, none => a.2.lt b.2
  | none, some _ => true
  | some _, none => false
  | some r, some q => r.lt q || (r = q && a.2.lt b.2)

def preflightPrune (s : Core) (now : Nat) : Result Unit :=
  refuseIf (s.inbox.any fun entry => entry.expiresMs ≠ 0 ∧ now ≥ entry.expiresMs ∧
      entry.consumed = false ∧ entry.reservedWait = none ∧ entry.run = none)
    (failedPrecondition "expiring input event has no run identity")

/-- An inbox entry whose retention is over. -/
def inboxExpired (now : Nat) (entry : InboxEntry) : Bool :=
  entry.expiresMs ≠ 0 ∧ now ≥ entry.expiresMs ∧ (entry.consumed ∨ entry.reservedWait = none)

/-- Removes the entries of one inbox identity. -/
def dropInbox (s : Core) (key : Option RunId × EventId) : Core :=
  { s with inbox := s.inbox.filter fun entry => entry.run ≠ key.1 ∨ entry.eventId ≠ key.2 }

/-- The run whose history records that an event has expired: an unconsumed event of an active
run. -/
def expiryOwner (s : Core) (entry : InboxEntry) : Option RunId :=
  entry.run.filter fun run =>
    !entry.consumed && (s.runs.lookup run).any fun r => r.status.isActive

/-- The inbox part of `prune`. -/
def pruneInbox (env : Env) (commandId : CommandId) (now : Nat) :
    State → List (Option RunId × EventId) → Result (State × List DomainEvent)
  | s, [] => pure (s, [])
  | s, key :: rest => do
    let entry ← okOr (s.inbox.find? fun entry => entry.run = key.1 ∧ entry.eventId = key.2)
      .panicked
    refuseIf (entry.consumed = false ∧ entry.run = none)
      (failedPrecondition "expiring input event has no run identity")
    match expiryOwner s.toCore entry with
    | some run => do
      let event := DomainEvent.eventExpired run key.2
      let applied ← applyEventsWithCause env
        { commandId := some commandId, principalId := none, time := now } s [event]
      let marked ← checkpointAfterCommand env applied run now
      let (final, others) ← pruneInbox env commandId now marked rest
      pure (final, event :: others)
    | none => pruneInbox env commandId now { s with toCore := dropInbox s.toCore key } rest

/-- What remains of the runtime state without a run. -/
def dropRun (s : Core) (id : RunId) : Core :=
  let removed := fun activation => (s.activations.lookup activation).any fun act => act.run = id
  { s with
    runs := s.runs.erase id
    scopes := s.scopes.retain fun _ scope => scope.run ≠ id
    activations := s.activations.retain fun _ act => act.run ≠ id
    loopCarry := s.loopCarry.retain fun activation _ => !removed activation
    foreachDone := s.foreachDone.retain fun activation _ => !removed activation
    parallelDone := s.parallelDone.retain fun activation _ => !removed activation
    sagaErrors := s.sagaErrors.retain fun activation _ => !removed activation
    interventions := s.interventions.retain fun activation _ => !removed activation
    waits := s.waits.retain fun _ wait => wait.run ≠ id
    inbox := s.inbox.filter fun entry => entry.run ≠ some id
    obligations := s.obligations.filter fun item => item.run ≠ id }

/-- The run part of `prune`: a run gives way to its summary. -/
def pruneRun (s : State) (id : RunId) : Result State := do
  let run ← okOr (s.runs.lookup id) .panicked
  let status ← match run.status with
    | .succeeded _ => pure "succeeded"
    | .failed _ => pure "failed"
    | .active => throw .panicked
  pure { s with
    toCore := dropRun s.toCore id
    terminalSummaries := s.terminalSummaries.insert id {
      run := id, workflow := run.definition.id, version := run.definition.version, status
      terminalMs := run.terminalMs
      expiresMs := satAdd run.terminalMs (satMul run.policy.terminalSummaryDays dayMs)
      historyThrough := ((s.history.lookup id).map List.length).getD 0 }
    history := s.history.erase id
    historyRecords := s.historyRecords.erase id
    historyDependencies := s.historyDependencies.erase id
    checkpoints := s.checkpoints.erase id }

/-- The summary part of `prune`. -/
def pruneSummary (s : State) (id : RunId) : State :=
  { s with
    terminalSummaries := s.terminalSummaries.erase id
    signalTombstones := s.signalTombstones.retain fun _ signal => signal.run ≠ id
    startKeys := s.startKeys.map fun e => (e.1, e.2.filter fun key => key.2.run ≠ id) }

/-- The receipt part of `prune`. -/
def pruneCommand (s : State) (id : CommandId) : State :=
  { s with
    commandTimes := s.commandTimes.erase id
    commands := s.commands.erase id
    commandActors := s.commandActors.erase id
    commandExternalIds := s.commandExternalIds.erase id
    authenticatedRequestDigests := s.authenticatedRequestDigests.erase id
    legacyStartDigests := s.legacyStartDigests.erase id
    workerCommandDigests := s.workerCommandDigests.erase id }

/-- The candidates whose due time has come. -/
def dueBy {κ : Type} (now : Nat) (candidates : List (Nat × κ)) : List (Nat × κ) :=
  candidates.filter fun c => now ≥ c.1

/-- When the history of a run has to go, for a run that has ended. -/
def runDue (run : RunState) : Nat :=
  satAdd run.terminalMs (satMul run.policy.terminalHistoryDays dayMs)

def prune (env : Env) (o : Enumeration) (s : State) (commandId : CommandId) (now limit : Nat) :
    Result (State × List DomainEvent) := do
  let oldResults := earliestDue (fun a b => decide (a < b))
    (dueBy now (s.commandResults.map fun e => (satAdd e.2.recordedMs dayMs, e.1))) limit
  let s := { s with
    commandResults := s.commandResults.filter fun e => e.1 ∉ oldResults }
  let remaining := limit - oldResults.length
  let oldCommands := earliestDue Id.lt
    (dueBy now ((o.pairs s.commandTimes).map fun e => (satAdd e.2 dayMs, e.1))) remaining
  let s := oldCommands.foldl pruneCommand s
  let remaining := remaining - oldCommands.length
  let expiredInbox := earliestDue inboxKeyLt
    ((s.inbox.filter (inboxExpired now)).map fun entry =>
      (entry.expiresMs, (entry.run, entry.eventId))) remaining
  let (s, expired) ← pruneInbox env commandId now s expiredInbox
  let remaining := remaining - expiredInbox.length
  let expiredRuns := earliestDue Id.lt
    (dueBy now (((o.values s.runs).filter fun run =>
      run.status.isActive = false ∧ run.terminalMs ≠ 0).map fun run => (runDue run, run.id)))
    remaining
  let s ← expiredRuns.foldlM pruneRun s
  let remaining := remaining - expiredRuns.length
  let oldSummaries := earliestDue Id.lt
    (dueBy now ((o.values s.terminalSummaries).map fun summary => (summary.expiresMs, summary.run)))
    remaining
  pure (oldSummaries.foldl pruneSummary s, expired)

end Graphrun
