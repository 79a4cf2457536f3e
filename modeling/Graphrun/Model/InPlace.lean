import Graphrun.Model.Publication

/-!
# Publication in place

`apply_with_mode` (`publication.rs`) applies a publication to a state that it changes as it goes.
A member applies it in place and gives the state up if that fails; `apply` works on a clone once a
start has passed its checks, and answers a failure with a rejection. Here every function returns
the state it leaves next to its result, also when it fails. What a failed call of the engine has
changed by then is not followed further: it is whatever `Torn` says.
-/

namespace Graphrun

open Lib

/-- What a call that fails half way leaves of the state it was given. -/
structure Torn where
  applyEvents : State → List DomainEvent → State
  applyCommand : State → Command → State

/-- What a publication is answered with: its disposition and the events of a run it admitted. -/
abbrev Answer := Disposition × Option EventRange

/-! ## Definitions -/

/-- `BTreeMap::entry` with `or_default`, for a table of tables. -/
def mapOrDefault {κ α : Type} [DecidableEq κ] [LT κ] [DecidableLT κ] (k : κ)
    (m : List (κ × List α)) : List (κ × List α) :=
  if (mapGet m k).isSome then m else mapInsert k [] m

/-- The entry of the workflow is made before the version in it is compared. -/
def enterDefinition (s : State) (definition : Definition) (catalogVersion : Nat) :
    Result Answer × State :=
  let entered := { s with
    publishedDefinitions := mapOrDefault definition.id s.publishedDefinitions }
  let versions := (mapGet entered.publishedDefinitions definition.id).getD []
  let answer : Answer :=
    (.applied none (some definition.digest) (some definition.version), none)
  match mapGet versions definition.version with
  | some existing =>
    if existing.format ≠ definitionFormat ∨ existing.digest ≠ definition.digest ∨
        existing.catalogVersion ≠ catalogVersion ∨ existing.definition.beq definition = false then
      (.error (refusal .alreadyExists "workflow version has different content or catalog"), entered)
    else (.ok answer, entered)
  | none =>
    let published : PublishedDefinition := {
      format := definitionFormat, normalizedFormatVersion := definition.formatVersion
      digest := definition.digest, catalogVersion, definition }
    (.ok answer, { entered with
      publishedDefinitions := mapInsert definition.id
        (mapInsert definition.version published versions) entered.publishedDefinitions })

def definitionInPlace (env : Env) (s : State) (definition : Definition) (catalogVersion : Nat) :
    Result Answer × State :=
  match checkDefinition env s definition catalogVersion with
  | .error fault => (.error fault, s)
  | .ok () => enterDefinition s definition catalogVersion

/-! ## Catalogs -/

/-- The table is written after the last check. -/
def catalogInPlace (env : Env) (s : State) (version : Nat) (catalog : Catalog) :
    Result Answer × State :=
  match publishCatalog env s version catalog with
  | .error fault => (.error fault, s)
  | .ok published => (.ok (published.disposition, published.range), published.state)

/-! ## Starts -/

/-- Records a run under its start key, if it has events. -/
def keepStart (s : State) (command : Command) (workflow startKey : String) (run : RunId)
    (first : Nat) (pinned : PublishedDefinition) (inputDigest : String) : Result Answer × State :=
  let last := ((s.history.lookup run).map List.length).getD 0
  if last < first then (.error (failedPrecondition "start emitted no run events"), s)
  else
    let record : StartKeyRecord := {
      run, version := pinned.definition.version, inputDigest, admittedMs := command.time }
    let keys := (mapGet s.startKeys workflow).getD []
    (.ok (.applied (some run) (some pinned.digest) (some pinned.definition.version),
        some { run, first, last }),
      { s with startKeys := mapInsert workflow (mapInsert startKey record keys) s.startKeys })

/-- The first progress of a run that has been admitted. -/
def progressInPlace (env : Env) (o : Enumeration) (torn : Torn) (s : State) (command : Command)
    (key : CommandKey) (workflow startKey : String) (first : Nat) (pinned : PublishedDefinition)
    (inputDigest : String) : Result Answer × State :=
  let ids := env.publishedIds key
  let progress : Command :=
    { id := ⟨ids.2.2⟩, time := command.time, body := .progress ⟨ids.1⟩ }
  match applyCommand env o s progress with
  | .error fault => (.error fault, torn.applyCommand s progress)
  | .ok progressed =>
    keepStart progressed.state command workflow startKey ⟨ids.1⟩ first pinned inputDigest

/-- Admits a run, from the point where the state may be a clone. -/
def admitInPlace (env : Env) (o : Enumeration) (torn : Torn) (s : State) (command : Command)
    (key : CommandKey) (workflow startKey : String) (input : Value) (pinned : PublishedDefinition)
    (catalog : PublishedCatalog) (inputDigest : String) : Result Answer × State :=
  let ids := env.publishedIds key
  let run : RunId := ⟨ids.1⟩
  let first := ((s.history.lookup run).map fun events => events.length + 1).getD 1
  let provisional := s.addRun run pinned.definition catalog.catalog
    (some (pinned.identity catalog))
  let body := CommandBody.start run pinned.definition input catalog.catalog
  let start : Command := { id := ⟨ids.2.1⟩, time := command.time, body }
  match decide env o provisional start with
  | .error fault => (.error fault, provisional)
  | .ok decision =>
    match applyEventsWithCause env
        { commandId := some command.id, principalId := some key.principalId, time := command.time }
        provisional decision.events with
    | .error fault => (.error fault, torn.applyEvents provisional decision.events)
    | .ok started =>
      progressInPlace env o torn started command key workflow startKey first pinned inputDigest

/-- A start; in place, what is left of a failed admission is left in the state. -/
def startInPlace (env : Env) (o : Enumeration) (torn : Torn) (inPlace : Bool) (s : State)
    (command : Command) (key : CommandKey) (workflow : String) (version : Option Nat)
    (startKey : String) (input : Value) : Result Answer × State :=
  match checkStart env s workflow version startKey input with
  | .error fault => (.error fault, s)
  | .ok (.existing record) =>
    (.ok (.applied (some record.run) none (some record.version), none), s)
  | .ok (.new pinned catalog inputDigest) =>
    if (s.runs.lookup ⟨(env.publishedIds key).1⟩).isSome then
      (.error (refusal .alreadyExists "run identity collision"), s)
    else match admitInPlace env o torn s command key workflow startKey input pinned catalog
        inputDigest with
    | (.ok answer, s') => (.ok answer, s')
    | (.error fault, s') => (.error fault, if inPlace then s' else s)

/-! ## Requests -/

def operationInPlace (env : Env) (o : Enumeration) (torn : Torn) (inPlace : Bool) (s : State)
    (command : Command) (key : CommandKey) : PublicationOperation → Result Answer × State
  | .catalog version catalog => catalogInPlace env s version catalog
  | .definition definition catalogVersion => definitionInPlace env s definition catalogVersion
  | .start workflow version startKey input =>
    startInPlace env o torn inPlace s command key workflow version startKey input

/-- The outcome of a request that has no receipt. -/
def requestInPlace (env : Env) (o : Enumeration) (torn : Torn) (inPlace : Bool) (s : State)
    (command : Command) (key : CommandKey) (operation : PublicationOperation) :
    Result Answer × State :=
  match (requestDigest env operation).2 with
  | .error fault => (.error fault, s)
  | .ok size =>
    if size > publicCommandEnvelope then
      (.error (refusal .resourceExhausted "publication command exceeds envelope limit"), s)
    else operationInPlace env o torn inPlace s command key operation

def State.putResult (s : State) (key : CommandKey) (receipt : CommandResult) : State :=
  { s with commandResults := mapInsert key.storageKey receipt s.commandResults }

/-- The answer to a request whose key has a receipt. -/
def answerAgain (env : Env) (command : Command) (key : CommandKey)
    (operation : PublicationOperation) (previous : CommandResult) : CommandResult :=
  if previous.requestDigest = (requestDigest env operation).1 ∧ previous.format = resultFormat then
    previous
  else receiptFor env command key operation
    (.rejected "already_exists" "command ID reused with a different request") none

def applyWithMode (env : Env) (o : Enumeration) (torn : Torn) (inPlace : Bool) (s : State)
    (command : Command) (key : CommandKey) (operation : PublicationOperation) :
    Result CommandResult × State :=
  match mapGet s.commandResults key.storageKey with
  | some previous => (.ok (answerAgain env command key operation previous), s)
  | none =>
    match requestInPlace env o torn inPlace s command key operation with
    | (.ok (outcome, range), s') =>
      let receipt := receiptFor env command key operation outcome range
      (.ok receipt, s'.putResult key receipt)
    | (.error .panicked, s') => (.error .panicked, s')
    | (.error (.error error), s') =>
      if inPlace then (.error (.error error), s')
      else
        let receipt := receiptFor env command key operation
          (.rejected error.kind.code error.message) none
        (.ok receipt, s'.putResult key receipt)

/-- `apply`. -/
def applyTransactional (env : Env) (o : Enumeration) (torn : Torn) (s : State) (command : Command)
    (key : CommandKey) (operation : PublicationOperation) : Result CommandResult × State :=
  applyWithMode env o torn false s command key operation

def applyReplicated (env : Env) (o : Enumeration) (torn : Torn) (s : State) (command : Command)
    (key : CommandKey) (operation : PublicationOperation) : Result CommandResult × State :=
  applyWithMode env o torn true s command key operation

end Graphrun
