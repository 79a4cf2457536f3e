import Graphrun.Model.Eval

/-!
# The effect of events

`evolve` (`domain.rs`): how each domain event changes the state. An event that concerns
something the state does not hold changes nothing, except where the source expects the run
to be there (`evolvePanics`).
-/

namespace Graphrun

open Lib

namespace Core

def modifyRun (s : Core) (run : RunId) (f : RunState → RunState) : Core :=
  { s with runs := s.runs.modify run f }

def modifyScope (s : Core) (scope : ScopeId) (f : ScopeState → ScopeState) : Core :=
  { s with scopes := s.scopes.modify scope f }

def modifyActivation (s : Core) (activation : ActivationId)
    (f : ActivationState → ActivationState) : Core :=
  { s with activations := s.activations.modify activation f }

/-- Changes every activation (`values_mut`). -/
def mapActivations (s : Core) (f : ActivationState → ActivationState) : Core :=
  { s with activations := s.activations.mapValues f }

def mapScopes (s : Core) (f : ScopeState → ScopeState) : Core :=
  { s with scopes := s.scopes.mapValues f }

def modifyWait (s : Core) (wait : WaitId) (f : WaitState → WaitState) : Core :=
  { s with waits := s.waits.modify wait f }

def setStatus (s : Core) (activation : ActivationId) (status : ActivationStatus) : Core :=
  s.modifyActivation activation fun act => { act with status }

def modifyClaim (s : Core) (activation : ActivationId) (f : ClaimState → ClaimState) : Core :=
  s.modifyActivation activation fun act => { act with claim := act.claim.map f }

/-- Changes the first inbox entry of a run with the given event id. -/
def modifyInbox (s : Core) (run : Option RunId) (eventId : EventId)
    (f : InboxEntry → InboxEntry) : Core :=
  { s with inbox := updateFirst (fun entry => entry.run = run ∧ entry.eventId = eventId) f s.inbox }

/-- Changes the first obligation of a forward activation. -/
def modifyObligation (s : Core) (forward : ActivationId) (f : Obligation → Obligation) : Core :=
  { s with obligations := updateFirst (fun item => item.forward = forward) f s.obligations }

/-- Changes the obligation of a forward activation, or registers a new one, which belongs to
the innermost enclosing saga (to the activation itself when there is none). -/
def upsertObligation (s : Core) (run : RunId) (forward : ActivationId) (handler : String)
    (handlerVersion : Nat) (input : Value) (status : ObligationStatus)
    (f : Obligation → Obligation) : Core :=
  if s.obligations.any (fun item => item.forward = forward) then s.modifyObligation forward f
  else
    { s with
      obligations := s.obligations ++ [{
        forward, run, owner := (sagaOwner s forward).getD forward, handler, handlerVersion, input,
        status }] }

/-- Settles the activation of a wait that is no longer pending. -/
def closeWait (s : Core) (wait : WaitId) (status : ActivationStatus) : Core :=
  let closed := s.modifyWait wait fun w => { w with pending := false }
  match s.waits.lookup wait with
  | some w => closed.setStatus w.activation status
  | none => closed

/-- Makes an activation, drawing the next position in the run's ready order. -/
def openActivation (s : Core) (run : RunId) (scope : ScopeId) (activation : ActivationId)
    (node : NodeKey) (status : ActivationStatus) (role : ExecutionRole) : Core :=
  match s.runs.lookup run with
  | none => s
  | some runState =>
    let readyOrder := satAdd runState.nextReadyOrder 1
    { s with
      runs := s.runs.insert run { runState with nextReadyOrder := readyOrder }
      activations := s.activations.insert activation {
        id := activation, run, scope, node, status, role, claim := none, attempts := 0,
        readyOrder } }

end Core

/-- Replaces the output kept for an item, or adds it at the end. -/
def recordItem (index : Nat) (output : Value) (slot : List (Nat × Value)) : List (Nat × Value) :=
  if slot.any (fun e => e.1 = index) then
    updateFirst (fun e => e.1 = index) (fun e => (e.1, output)) slot
  else slot ++ [(index, output)]

/-- Keeps the first output recorded for a branch. -/
def recordBranch (name : String) (output : Value) (slot : List (String × Value)) :
    List (String × Value) :=
  if (mapGet slot name).isSome then slot else mapInsert name output slot

/-- What a completed scope reports to the activation it was opened for. -/
def reportCompletion (s : Core) (role : ScopeRole) (output : Value) : Core :=
  match role with
  | .foreachItem activation index =>
    { s with
      foreachDone := s.foreachDone.insert activation
        (recordItem index output ((s.foreachDone.lookup activation).getD [])) }
  | .parallelBranch activation name =>
    { s with
      parallelDone := s.parallelDone.insert activation
        (recordBranch name output ((s.parallelDone.lookup activation).getD [])) }
  | .loopBody activation index =>
    { s with loopCarry := s.loopCarry.insert activation (output, index + 1) }
  | _ => s

/-- The scope that a compensation activation is placed in: that of its saga. The source falls
back to some scope of the run when the saga is gone. -/
def compensationScope (s : Core) (run : RunId) (saga : ActivationId) : Option ScopeId :=
  match s.activations.lookup saga with
  | some act => some act.scope
  | none => ((Enumeration.stored.values s.scopes).find? fun sc => sc.run = run).map (·.id)

/-- The status that a blocked obligation takes. -/
def blockedStatus (handler reason : String) : ObligationStatus :=
  if handler = "irreversible" then .irreversible reason else .blocked reason

/-- `evolve` expects the run of a newly opened activation to be there. -/
def evolvePanics (s : Core) : DomainEvent → Bool
  | .activationOpened run _ _ _ => (s.runs.lookup run).isNone
  | .compensationStarted run saga _ _ _ _ _ _ =>
    (compensationScope s run saga).isSome && (s.runs.lookup run).isNone
  | _ => false

def evolve (s : Core) : DomainEvent → Core
  | .runAdmitted run _ _ input root policy admittedMs =>
    s.modifyRun run fun r => { r with input, root, policy, status := .active, admittedMs }
  | .scopeOpened run scope parent role input =>
    let opened := { s with
      scopes := s.scopes.insert scope {
        id := scope, run, parent, role, input, status := .open, outputs := [], current := none } }
    match role with
    | .loopBody activation index =>
      { opened with loopCarry := s.loopCarry.insert activation (input, index) }
    | _ => opened
  | .scopeCompleted _ scope output =>
    let settled := s.mapActivations fun act =>
      if act.scope = scope then { act with status := .succeeded } else act
    match s.scopes.lookup scope with
    | none => settled
    | some scopeState =>
      reportCompletion
        (settled.modifyScope scope fun sc => { sc with status := .completed output })
        scopeState.role output
  | .scopeFailed _ scope error =>
    (s.modifyScope scope fun sc => { sc with status := .failed error }).mapActivations fun act =>
      if act.scope = scope ∧ act.status ≠ .succeeded then { act with status := .failed } else act
  | .activationOpened run scope activation node =>
    let status := if isActivityNode s scope node then .ready else .open
    (s.openActivation run scope activation node status .forward).modifyScope scope fun sc =>
      { sc with current := some node }
  | .nodeOutputRecorded _ scope node output =>
    (s.modifyScope scope fun sc =>
      { sc with outputs := mapInsert node output sc.outputs }).mapActivations fun act =>
        if act.scope = scope ∧ act.node = node ∧ (act.status = .open ∨ act.status = .ready) then
          { act with status := .succeeded }
        else act
  | .guardRecorded _ activation _ index carry =>
    { s with loopCarry := s.loopCarry.insert activation (carry, index) }
  | .leafFailed _ activation _ _ _ retry =>
    s.modifyActivation activation fun act =>
      if retry then { act with status := .ready, claim := none } else { act with status := .failed }
  | .leafSucceeded _ activation _ _ role =>
    let settled := s.setStatus activation .succeeded
    if role = .compensation then
      { settled with
        obligations := updateFirst (·.isCompensating activation)
          (fun item => { item with status := .compensated }) s.obligations }
    else settled
  | .waitOpened run wait activation signal key deadlineMs consumeFrom =>
    let openedSequence := ((s.runs.lookup run).map (·.nextSequence)).getD 0
    let opened : Core := { s with
      waits := s.waits.insert wait {
        id := wait, run, activation, signal, key, deadlineMs, consumeFrom, openedSequence,
        pending := true } }
    opened.setStatus activation .ready
  | .waitSatisfied run wait eventId _ =>
    (s.closeWait wait .succeeded).modifyInbox (some run) eventId fun entry =>
      { entry with consumed := true, reservedWait := some wait }
  | .waitTimedOut _ wait => s.closeWait wait .succeeded
  | .waitCancelled _ wait => s.closeWait wait .failed
  | .eventAccepted run eventId signal key payload sequence acceptedMs expiresMs =>
    let accepted : Core := { s with
      inbox := s.inbox ++ [{
        eventId, signal, key, payload, sequence, reservedWait := none, consumed := false,
        acceptedMs, expiresMs, run := some run }] }
    accepted.modifyRun run fun r => { r with nextSequence := sequence + 1 }
  | .eventExpired run eventId =>
    { s with inbox := s.inbox.filter fun entry => entry.run ≠ some run ∨ entry.eventId ≠ eventId }
  | .obligationRegistered run forward handler handlerVersion input =>
    s.upsertObligation run forward handler handlerVersion input .open fun item =>
      { item with input, status := .open }
  | .compensationStarted run saga forward activation _ _ _ error =>
    let recorded : Core := { s with sagaErrors := s.sagaErrors.insert saga error }
    let started := recorded.modifyObligation forward fun item =>
      { item with status := .compensating activation }
    match compensationScope s run saga with
    | some scope => started.openActivation run scope activation "__compensate" .ready .compensation
    | none => started
  | .obligationTransferred forward _ toSaga =>
    s.modifyObligation forward fun item => { item with owner := toSaga }
  | .obligationReleased _ forward =>
    s.modifyObligation forward fun item => { item with status := .released }
  | .obligationBlocked run forward handler handlerVersion reason =>
    s.upsertObligation run forward handler handlerVersion .null (blockedStatus handler reason)
      fun item => { item with status := blockedStatus handler reason }
  | .eventReserved wait eventId =>
    s.modifyInbox ((s.waits.lookup wait).map (·.run)) eventId fun entry =>
      { entry with reservedWait := some wait }
  | .reservationReleased wait eventId =>
    s.modifyInbox ((s.waits.lookup wait).map (·.run)) eventId fun entry =>
      { entry with reservedWait := none }
  | .sessionRegistered session activities capacity expiresMs =>
    { s with
      sessions := s.sessions.insert session {
        id := session, activities, capacity, expiresMs, principalId := "", capabilities := [],
        revision := 0, protocolMin := 0, protocolMax := 0 } }
  | .workerRegistered session principalId capabilities capacity protocolMin protocolMax expiresMs =>
    { s with
      sessions := s.sessions.insert session {
        id := session, activities := [], capacity, expiresMs, principalId, capabilities,
        revision := 1, protocolMin, protocolMax } }
  | .workerSessionRenewed session revision expiresMs =>
    { s with sessions := s.sessions.modify session fun w => { w with revision, expiresMs } }
  | .claimGranted run _ activation _ _ _ _ session generation revision leaseExpiryMs
      attemptDeadlineMs effectKey role =>
    let counted : Core := { s with
      nextGeneration := satAdd s.nextGeneration 1
      fairCursor := some run }
    counted.modifyActivation activation fun act =>
      { act with
        claim := some {
          session, generation, revision, leaseExpiryMs, attemptDeadlineMs, effectKey, role
          probes := if role = .reconciliation then (act.claim.map (·.probes)).getD 0 else 0
          unknownReported := false }
        attempts := min (act.attempts + 1) (2 ^ 32 - 1) }
  | .claimRenewed activation _ _ revision leaseExpiryMs =>
    s.modifyClaim activation fun claim => { claim with revision, leaseExpiryMs }
  | .claimCleared activation => s.modifyActivation activation fun act => { act with claim := none }
  | .reconciliationFailed _ _ _ _ => s
  | .reconciliationRecorded _ activation outcome _ probes =>
    s.modifyClaim activation fun claim =>
      { claim with
        probes
        unknownReported := if outcome = .unknown then true else claim.unknownReported }
  | .interventionRequired _ activation reason =>
    { s with interventions := s.interventions.insert activation reason }
  | .runSucceeded run output => s.modifyRun run fun r => { r with status := .succeeded output }
  | .runFailed run error =>
    ((s.modifyRun run fun r => { r with status := .failed error }).mapScopes fun sc =>
      if sc.run = run ∧ sc.status = .open then { sc with status := .failed error }
      else sc).mapActivations fun act =>
        if act.run = run ∧ act.status ≠ .succeeded then { act with status := .failed } else act
  | .recoveryAuthorized _ =>
    { s with recovery := s.recovery.map fun hold => { hold with authorized := true } }
  | .abortIntent _ saga error => { s with sagaErrors := s.sagaErrors.insert saga error }
  | .compensationAbandoned run _ unresolved =>
    let abandoned : Core := { s with
      obligations := s.obligations.map fun item =>
        if item.run = run ∧ item.forward ∈ unresolved then { item with status := .abandoned }
        else item }
    abandoned.mapActivations fun act => if act.run = run then { act with claim := none } else act

/-- The effect of a list of events. -/
def evolveAll (s : Core) (events : List DomainEvent) : Core := events.foldl evolve s

end Graphrun
