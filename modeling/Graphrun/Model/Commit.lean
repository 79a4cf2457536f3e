import Graphrun.Model.Decide

/-!
# Committing a command

`apply_command` (`domain.rs`): a command is stripped of its authenticated cause, checked
against the identity and the receipt it may already have, decided at the effective time,
and its events are applied and receipted. Next to the state, an application reports its
`Step`s, one for each portion that was newly decided, with the state the portion was decided
in; a retried command has none.
-/

namespace Graphrun

open Lib

/-- One portion of a newly decided command. -/
structure Step where
  /-- The state in which the portion was decided. -/
  before : Core
  ids : IdGen
  body : CommandBody
  /-- The effective time of the command. -/
  time : Nat
  events : List DomainEvent
  /-- The id of the command had a receipt already, and the events are those of the receipt. -/
  replayed : Bool

/-- The state that the events of a step leave. -/
def Step.after (step : Step) : Core := evolveAll step.before step.events

/-- The steps of a decision, each in the state that the earlier ones leave. -/
def stepsOf (replayed : Bool) (body : CommandBody) (time : Nat) : Core → List Portion → List Step
  | _, [] => []
  | s, portion :: rest =>
    { before := s, ids := portion.ids, body, time, events := portion.events, replayed } ::
      stepsOf replayed body time (evolveAll s portion.events) rest

/-- What an application leaves behind. -/
structure Outcome where
  state : State
  events : List DomainEvent
  steps : List Step

/-! ## Causes -/

def isAsciiAlphanumeric (c : Char) : Bool :=
  ('0' ≤ c ∧ c ≤ '9') ∨ ('a' ≤ c ∧ c ≤ 'z') ∨ ('A' ≤ c ∧ c ≤ 'Z')

/-- `PrincipalId::parse` accepts the text. -/
def validPrincipal (text : String) : Bool :=
  match text.toList with
  | [] => false
  | first :: rest =>
    isAsciiAlphanumeric first &&
      (first :: rest).all fun c => isAsciiAlphanumeric c || c = '-' || c = '_' || c = '.'

/-- The commands that no principal may cause. -/
def CommandBody.isInternal : CommandBody → Bool
  | .authenticated _ _ | .publication _ _ | .pruneHistory _ | .progress _
  | .resolveTimer _ _ => true
  | _ => false

/-- Separates a command from the principal that caused it. -/
def Command.intoCause (command : Command) : Result (Command × Option String) :=
  match command.body with
  | .authenticated principalId body => do
    refuseIf (validPrincipal principalId = false ∨ body.isInternal = true)
      (invalid "invalid authenticated command cause")
    pure ({ command with body }, some principalId)
  | _ => pure (command, none)

/-! ## Identities and receipts -/

def authenticatedRequestDigest (env : Env) (body : CommandBody) : Result String := do
  let (payload, kind) : Payload × String := match body with
    | .start _ definition input catalog => (.inlineStart definition input catalog, "start\x00")
    | body => (.body body, "body\x00")
  let json ← toValue env .invalidArgument payload
  let text ← canonicalJson env json
  pure ("graphrun.authenticated-request/v1:" ++
    env.sha256Hex ("graphrun.authenticated-request/v1\x00" ++ kind ++ text))

def prepareCommand (env : Env) (s : State) (command : Command) (actor : Option String) :
    Result (Command × CommandId × Option String) :=
  match actor with
  | none => do
    verifyCommandIdentity s command.id none command.id none
    pure (command, command.id, none)
  | some actor => do
    let digest ← authenticatedRequestDigest env command.body
    let id : CommandId := ⟨env.authenticatedId actor command.id⟩
    verifyCommandIdentity s id (some actor) command.id (some digest)
    pure ({ command with id }, command.id, some digest)

/-- The commands of workers, whose retries must carry the same request. -/
def CommandBody.isWorker : CommandBody → Bool
  | .registerWorker .. | .renewWorkerSession .. | .claim .. | .renew .. | .reportAssigned ..
  | .reportWorker .. | .reconcile .. | .reconcileWorker .. => true
  | _ => false

def workerRequestDigest (env : Env) (body : CommandBody) : Result (Option String) :=
  if body.isWorker then do
    let json ← toValue env .invalidArgument (.body body)
    let text ← canonicalJson env json
    pure (some (env.sha256Hex text))
  else pure none

def verifyWorkerRetry (s : State) (id : CommandId) (digest : Option String) : Result Unit :=
  refuseIf (s.workerCommandDigests.lookup id ≠ digest)
    (refusal .alreadyExists "worker command ID reused with different request")

/-! ## Application -/

/-- Stamps the end of a run with the time of the command that ended it. -/
def stampTerminal (time : Nat) (s : State) (event : DomainEvent) : Result State :=
  if event.isRunEnd then do
    let owner ← eventOwner s.toCore event
    match owner with
    | some run =>
      let core : Core := s.toCore.modifyRun run fun r => { r with terminalMs := time }
      pure { s with toCore := core }
    | none => pure s
  else pure s

/-- The runs that own some of the events. -/
def affectedRuns (s : Core) (events : List DomainEvent) : Result (List RunId) := do
  let owners ← events.mapM (eventOwner s)
  pure (owners.reduceOption.dedup)

/-- What a command leaves under its id. -/
def recordReceipt (s : State) (command : Command) (events : List DomainEvent)
    (actor : Option String) (externalId : CommandId) (digest workerDigest : Option String) :
    State :=
  let receipted : State := { s with
    commands := s.commands.insert command.id events
    commandTimes := s.commandTimes.insert command.id command.time
    workerCommandDigests := match workerDigest with
      | some digest => s.workerCommandDigests.insert command.id digest
      | none => s.workerCommandDigests }
  match actor with
  | none => receipted
  | some actor => { receipted with
      commandActors := s.commandActors.insert command.id actor
      commandExternalIds := s.commandExternalIds.insert command.id externalId
      authenticatedRequestDigests :=
        s.authenticatedRequestDigests.insert command.id (digest.getD "") }

def applyCommandWithActor (env : Env) (o : Enumeration) (s : State) (command : Command)
    (actor : Option String) (externalId : CommandId) (digest : Option String) :
    Result Outcome := do
  let workerDigest ← workerRequestDigest env command.body
  match s.commands.lookup command.id with
  | some events => do
    verifyWorkerRetry s command.id workerDigest
    pure { state := s, events, steps := [] }
  | none => do
    let time := max command.time s.engineTimeWatermarkMs
    let command := { command with time }
    let timed : State := { s with engineTimeWatermarkMs := time }
    let decision ← decide env o timed command
    let applied ← applyEventsWithCause env
      { commandId := some externalId, principalId := actor, time } timed decision.events
    let stamped ← decision.events.foldlM (stampTerminal time) applied
    let receipted := recordReceipt stamped command decision.events actor externalId digest
      workerDigest
    let affected ← affectedRuns receipted.toCore decision.events
    let final ← affected.foldlM (fun s run => checkpointAfterCommand env s run time) receipted
    pure {
      state := final, events := decision.events
      steps := stepsOf false command.body time timed.toCore decision.portions }

def applyCommand (env : Env) (o : Enumeration) (s : State) (command : Command) :
    Result Outcome := do
  let (command, actor) ← command.intoCause
  let (command, externalId, digest) ← prepareCommand env s command actor
  applyCommandWithActor env o s command actor externalId digest

end Graphrun
