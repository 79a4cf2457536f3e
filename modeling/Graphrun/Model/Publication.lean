import Graphrun.Model.Analyze
import Graphrun.Model.Commit

/-!
# Publications and the replicated log

Publication of catalogs and definitions and keyed admission of runs (`publication.rs`), and
what a member does with one entry of the replicated log (`commit_command` in `domain.rs` and
`apply_one_entry` in `storage.rs`): a refused command leaves the state as it was, a refused
publication leaves its receipt.
-/

namespace Graphrun

open Lib

/-! ## Comparison of published content -/

mutual
def Json.beq : Json → Json → Bool
  | .null, .null => true
  | .bool a, .bool b => a == b
  | .number a, .number b => a == b
  | .string a, .string b => a == b
  | .array a, .array b => Json.beqItems a b
  | .object a, .object b => Json.beqFields a b
  | _, _ => false
def Json.beqItems : List Json → List Json → Bool
  | [], [] => true
  | a :: as, b :: bs => a.beq b && Json.beqItems as bs
  | _, _ => false
def Json.beqFields : List (String × Json) → List (String × Json) → Bool
  | [], [] => true
  | (k, a) :: as, (l, b) :: bs => k == l && a.beq b && Json.beqFields as bs
  | _, _ => false
end

mutual
def Binding.beq : Binding → Binding → Bool
  | .from r p, .from r' p' => r == r' && p == p'
  | .literal v, .literal v' => v == v'
  | .object a, .object b => Binding.beqFields a b
  | .array a, .array b => Binding.beqItems a b
  | _, _ => false
def Binding.beqFields : List (String × Binding) → List (String × Binding) → Bool
  | [], [] => true
  | (k, a) :: as, (l, b) :: bs => k == l && a.beq b && Binding.beqFields as bs
  | _, _ => false
def Binding.beqItems : List Binding → List Binding → Bool
  | [], [] => true
  | a :: as, b :: bs => a.beq b && Binding.beqItems as bs
  | _, _ => false
end

mutual
def Condition.beq : Condition → Condition → Bool
  | .eq a b, .eq c d | .ne a b, .ne c d | .lt a b, .lt c d | .le a b, .le c d
  | .gt a b, .gt c d | .ge a b, .ge c d => a.beq c && b.beq d
  | .all a, .all b | .any a, .any b => Condition.beqItems a b
  | .not a, .not b => a.beq b
  | .exists a, .exists b => a.beq b
  | _, _ => false
def Condition.beqItems : List Condition → List Condition → Bool
  | [], [] => true
  | a :: as, b :: bs => a.beq b && Condition.beqItems as bs
  | _, _ => false
end

def Compensation.beq : Option Compensation → Option Compensation → Bool
  | none, none => true
  | some (.activity a i t r), some (.activity a' i' t' r') =>
    a == a' && i.beq i' && t == t' && r == r'
  | some (.irreversible r), some (.irreversible r') => r == r'
  | _, _ => false

mutual
def Node.beq : Node → Node → Bool
  | .activity a i t r c n, .activity a' i' t' r' c' n' =>
    a == a' && i.beq i' && t == t' && r == r' && Compensation.beq c c' && n == n'
  | .choose i cs d n, .choose i' cs' d' n' =>
    i.beq i' && Node.beqCases cs cs' && d.beq d' && n == n'
  | .delay d n, .delay d' n' => d.beq d' && n == n'
  | .waitUntil a n, .waitUntil a' n' => a.beq a' && n == n'
  | .waitSignal s k t c n o, .waitSignal s' k' t' c' n' o' =>
    s == s' && k.beq k' && t == t' && c == c' && n == n' && o == o'
  | .complete o, .complete o' => o.beq o'
  | .fail e, .fail e' => e == e'
  | .while s sc c m b n, .while s' sc' c' m' b' n'
  | .doWhile s sc c m b n, .doWhile s' sc' c' m' b' n' =>
    s.beq s' && sc == sc' && c.beq c' && m == m' && b.beq b' && n == n'
  | .repeat c s sc m b n, .repeat c' s' sc' m' b' n' =>
    c.beq c' && s.beq s' && sc == sc' && m == m' && b.beq b' && n == n'
  | .foreach i sc m c b n, .foreach i' sc' m' c' b' n' =>
    i.beq i' && sc == sc' && m == m' && c == c' && b.beq b' && n == n'
  | .parallel bs n, .parallel bs' n' => Node.beqBranches bs bs' && n == n'
  | .saga i b n, .saga i' b' n' => i.beq i' && b.beq b' && n == n'
  | _, _ => false
def Region.beq : Region → Region → Bool
  | ⟨p, i, o, s, ns⟩, ⟨p', i', o', s', ns'⟩ =>
    p == p' && i == i' && o == o' && s == s' && Node.beqNodes ns ns'
def Node.beqNodes : List (String × Node) → List (String × Node) → Bool
  | [], [] => true
  | (k, a) :: as, (l, b) :: bs => k == l && a.beq b && Node.beqNodes as bs
  | _, _ => false
def Node.beqCases : List ChooseCase → List ChooseCase → Bool
  | [], [] => true
  | ⟨n, w, b⟩ :: as, ⟨n', w', b'⟩ :: bs => n == n' && w.beq w' && b.beq b' && Node.beqCases as bs
  | _, _ => false
def Node.beqBranches : List ParallelBranch → List ParallelBranch → Bool
  | [], [] => true
  | ⟨n, i, b⟩ :: as, ⟨n', i', b'⟩ :: bs =>
    n == n' && i.beq i' && b.beq b' && Node.beqBranches as bs
  | _, _ => false
end

def Definition.beq (a b : Definition) : Bool :=
  a.formatVersion == b.formatVersion && a.dsl == b.dsl && a.id == b.id &&
    a.version == b.version && a.inputSchema == b.inputSchema &&
    a.outputSchema == b.outputSchema && a.signals == b.signals &&
    a.runTimeoutMs == b.runTimeoutMs && a.root.beq b.root && a.digest == b.digest

def Catalog.beqSchemas : List (SchemaKey × Json) → List (SchemaKey × Json) → Bool
  | [], [] => true
  | (k, a) :: as, (l, b) :: bs => k == l && a.beq b && Catalog.beqSchemas as bs
  | _, _ => false

def Catalog.beq (a b : Catalog) : Bool :=
  Catalog.beqSchemas a.schemas b.schemas && a.activities == b.activities &&
    a.reconcilers == b.reconcilers

/-! ## Catalog checks -/

mutual
def Catalog.requireSchema (catalog : Catalog) : SchemaRef → Result Unit
  | .named key =>
    refuseIf ((mapGet catalog.schemas key).isNone) (invalid s!"unknown schema {key.asStableName}")
  | .array element => catalog.requireSchema element
  | .tuple elements => catalog.requireSchemas elements
  | .integer | .string | .boolean | .null => pure ()
def Catalog.requireSchemas (catalog : Catalog) : List SchemaRef → Result Unit
  | [] => pure ()
  | element :: rest => do
    catalog.requireSchema element
    catalog.requireSchemas rest
end

def Catalog.validateContract (catalog : Catalog) (contract : ActivityContract) : Result Unit := do
  catalog.requireSchema contract.inputSchema
  catalog.requireSchema contract.outputSchema
  match contract.reconciler with
  | some recon =>
    let key := contract.key
    refuseIf ((catalog.reconciler? recon).isNone) (invalid (
      s!"activity {key.name}/v{key.version} refers to missing reconciler " ++
        s!"{recon.name}/v{recon.version}"))
  | none => pure ()

def Catalog.validateRefs (catalog : Catalog) : Result Unit :=
  catalog.activities.forM fun e => catalog.validateContract e.2

/-- A published key carries a valid name and a positive version. -/
def publishable (name : String) (version : Nat) : Bool := validAsciiName name && version != 0

def Catalog.validateForPublication (catalog : Catalog) : Result Unit := do
  catalog.schemas.forM fun e =>
    refuseIf (publishable e.1.name e.1.version = false)
      (invalid s!"invalid published schema {e.1.asStableName}")
  catalog.activities.forM fun e =>
    refuseIf (e.1 ≠ e.2.key ∨ publishable e.1.name e.1.version = false)
      (invalid "invalid published activity identity")
  catalog.reconcilers.forM fun e => do
    refuseIf (e.1 ≠ e.2.key ∨ publishable e.1.name e.1.version = false)
      (invalid "invalid published reconciler identity")
    refuseIf ((mapGet catalog.activities e.2.forward).isNone)
      (invalid s!"reconciler {e.1.name}/v{e.1.version} refers to missing activity")
  catalog.validateRefs

/-! ## Published records -/

def resultFormat : String := "graphrun.command-result/v1"
def catalogFormat : String := "graphrun.catalog-publication/v1"
def definitionFormat : String := "graphrun.definition-publication/v1"

/-- Two hexadecimal digits for every byte of a text. -/
def hexEncode (text : String) : String :=
  String.ofList (text.toUTF8.toList.flatMap fun b => hexDigits 2 b.toNat)

def CommandKey.storageKey (key : CommandKey) : String :=
  s!"{hexEncode key.clusterId}:{hexEncode key.principalId}:{key.commandId.toHex}"

def PublicationOperation.target : PublicationOperation → String
  | .catalog version _ => s!"catalog/v{version}"
  | .definition published _ => s!"{published.id}/v{published.version}"
  | .start workflow _ startKey _ => s!"{workflow}/{startKey}"

def PublicationOperation.name : PublicationOperation → String
  | .catalog .. => "publish_catalog"
  | .definition .. => "publish_definition"
  | .start .. => "start"

def PublishedCatalog.verify (env : Env) (published : PublishedCatalog) : Result Unit := do
  let failed := failedPrecondition "retained catalog unavailable or corrupt"
  refuseIf (published.format ≠ catalogFormat) failed
  let digest ← payloadDigest env (.catalog published.catalog) publicCommandEnvelope
  refuseIf (published.digest ≠ digest) failed

def PublishedDefinition.verify (env : Env) (published : PublishedDefinition) : Result Unit := do
  let failed := failedPrecondition "retained definition unavailable or corrupt"
  refuseIf (published.format ≠ definitionFormat ∨
    published.normalizedFormatVersion ≠ formatVersion ∨
    published.definition.formatVersion ≠ published.normalizedFormatVersion ∨
    published.definition.digest ≠ published.digest) failed
  let digest ← digestOf env published.definition
  refuseIf (digest ≠ published.digest) failed

def ErrorKind.code : ErrorKind → String
  | .alreadyExists => "already_exists"
  | .notFound => "not_found"
  | .failedPrecondition => "failed_precondition"
  | .resourceExhausted => "resource_exhausted"
  | _ => "invalid_argument"

/-- The rejection that a refusal is recorded as. -/
def Fault.rejection : Fault → Disposition
  | .error e => .rejected e.kind.code e.message
  | .panicked => .rejected "" ""

/-! ## Operations -/

/-- What a publication leaves when it is applied. -/
structure Published where
  state : State
  disposition : Disposition
  range : Option EventRange := none
  steps : List Step := []

/-- A catalog may not change what an earlier one published. -/
def catalogConflicts (catalog prior : Catalog) : Result Unit := do
  catalog.schemas.forM fun e =>
    refuseIf ((mapGet prior.schemas e.1).any fun old => !old.beq e.2)
      (refusal .alreadyExists
        s!"schema {e.1.asStableName} was already published with different content")
  catalog.activities.forM fun e =>
    refuseIf ((mapGet prior.activities e.1).any fun old => old ≠ e.2)
      (refusal .alreadyExists
        s!"activity {e.1.name}/v{e.1.version} was already published with different content")
  catalog.reconcilers.forM fun e =>
    refuseIf ((mapGet prior.reconcilers e.1).any fun old => old ≠ e.2)
      (refusal .alreadyExists
        s!"reconciler {e.1.name}/v{e.1.version} was already published with different content")

def publishCatalog (env : Env) (s : State) (version : Nat) (catalog : Catalog) :
    Result Published := do
  refuseIf (version = 0) (invalid "catalog version must be positive")
  catalog.validateForPublication
  catalog.schemas.forM fun e => discard (payloadDigest env (.json e.2) maxSchemaBytes)
  let digest ← payloadDigest env (.catalog catalog) publicCommandEnvelope
  let disposition := Disposition.applied none (some digest) (some version)
  match mapGet s.publishedCatalogs version with
  | some existing => do
    refuseIf (existing.format ≠ catalogFormat ∨ existing.digest ≠ digest ∨
        existing.catalog.beq catalog = false)
      (refusal .alreadyExists "catalog version has different content")
    pure { state := s, disposition }
  | none => do
    s.publishedCatalogs.forM fun prior => catalogConflicts catalog prior.2.catalog
    pure {
      state := { s with
        publishedCatalogs := mapInsert version { format := catalogFormat, digest, catalog }
          s.publishedCatalogs }
      disposition }

/-- What is checked of a definition before the tables are looked at. -/
def checkDefinition (env : Env) (s : State) (definition : Definition) (catalogVersion : Nat) :
    Result Unit := do
  let catalog ← okOr (mapGet s.publishedCatalogs catalogVersion)
    (refusal .notFound "published catalog version not found")
  catalog.verify env
  refuseIf (definition.version = 0 ∨ validAsciiName definition.id = false)
    (invalid "invalid workflow name or version")
  let failed := failedPrecondition "invalid normalized definition format or digest"
  refuseIf (definition.formatVersion ≠ formatVersion) failed
  let digest ← digestOf env definition
  refuseIf (definition.digest ≠ digest) failed
  validateDefinition definition

def publishDefinition (env : Env) (s : State) (definition : Definition) (catalogVersion : Nat) :
    Result Published := do
  checkDefinition env s definition catalogVersion
  let versions := (mapGet s.publishedDefinitions definition.id).getD []
  let disposition := Disposition.applied none (some definition.digest) (some definition.version)
  match mapGet versions definition.version with
  | some existing => do
    refuseIf (existing.format ≠ definitionFormat ∨ existing.digest ≠ definition.digest ∨
        existing.catalogVersion ≠ catalogVersion ∨ existing.definition.beq definition = false)
      (refusal .alreadyExists "workflow version has different content or catalog")
    pure { state := s, disposition }
  | none =>
    let published : PublishedDefinition := {
      format := definitionFormat, normalizedFormatVersion := definition.formatVersion
      digest := definition.digest, catalogVersion, definition }
    pure {
      state := { s with
        publishedDefinitions := mapInsert definition.id
          (mapInsert definition.version published versions) s.publishedDefinitions }
      disposition }

/-- The definition that a start names, with its catalog. -/
def pinnedVersion (env : Env) (s : State) (workflow : String) (version : Option Nat) :
    Result (PublishedDefinition × PublishedCatalog) := do
  let versions ← okOr (mapGet s.publishedDefinitions workflow)
    (refusal .notFound "workflow not published")
  let found := match version with
    | some v => mapGet versions v
    | none => versions.getLast?.map (·.2)
  let pinned ← okOr found (refusal .notFound "workflow version not published")
  pinned.verify env
  let catalog ← okOr (mapGet s.publishedCatalogs pinned.catalogVersion)
    (failedPrecondition "retained catalog unavailable")
  catalog.verify env
  pure (pinned, catalog)

/-- What a run remembers of the publication that it is an instance of. -/
def PublishedDefinition.identity (pinned : PublishedDefinition) (catalog : PublishedCatalog) :
    PinnedPublication where
  definitionFormatVersion := pinned.normalizedFormatVersion
  definitionDigest := pinned.digest
  catalogVersion := pinned.catalogVersion
  catalogDigest := catalog.digest
  policyFormat := "graphrun.run-policy/v1"

/-- Adds a run that nothing has happened to. -/
def State.addRun (s : State) (run : RunId) (definition : Definition) (catalog : Catalog)
    (published : Option PinnedPublication) : State :=
  let core : Core := { s.toCore with
    runs := s.runs.insert run (newRun run definition catalog published) }
  { s with toCore := core }

/-- Admits a run of a pinned definition and makes its first progress. -/
def admitPublished (env : Env) (o : Enumeration) (s : State) (command : Command)
    (key : CommandKey) (pinned : PublishedDefinition) (catalog : PublishedCatalog)
    (input : Value) : Result (RunId × Outcome × List Step) := do
  let ids := env.publishedIds key
  let run : RunId := ⟨ids.1⟩
  refuseIf ((s.runs.lookup run).isSome) (refusal .alreadyExists "run identity collision")
  let provisional := s.addRun run pinned.definition catalog.catalog
    (some (pinned.identity catalog))
  let body := CommandBody.start run pinned.definition input catalog.catalog
  let decision ← decide env o provisional { id := ⟨ids.2.1⟩, time := command.time, body }
  let started ← applyEventsWithCause env
    { commandId := some command.id, principalId := some key.principalId, time := command.time }
    provisional decision.events
  let progressed ← applyCommand env o started
    { id := ⟨ids.2.2⟩, time := command.time, body := .progress run }
  -- nothing keeps a command from having been committed under the id derived for the start
  let replayed := (provisional.commands.lookup ⟨ids.2.1⟩).isSome
  pure (run, progressed, stepsOf replayed body command.time provisional.toCore decision.portions)

/-- What a start has come to before a run is touched: a run that the key has started already, or
the definition and the catalog that a new run is pinned to and the digest of its input. -/
inductive Checked where
  | existing (record : StartKeyRecord)
  | new (pinned : PublishedDefinition) (catalog : PublishedCatalog) (inputDigest : String)

/-- What a start with the key of a run is answered with. -/
def checkExisting (record : StartKeyRecord) (version : Option Nat) (inputDigest : String) :
    Result Checked := do
  refuseIf (record.inputDigest ≠ inputDigest ∨ version.any fun v => v ≠ record.version)
    (refusal .alreadyExists "start key has different input or pinned version")
  pure (.existing record)

def checkNew (env : Env) (s : State) (workflow : String) (version : Option Nat) (input : Value)
    (inputDigest : String) : Result Checked := do
  let (pinned, catalog) ← pinnedVersion env s workflow version
  catalog.catalog.validateValue env pinned.definition.inputSchema input
  refuseIf (executionSuspended s.toCore)
    (failedPrecondition "execution suspended until recovery is acknowledged")
  pure (.new pinned catalog inputDigest)

def checkStart (env : Env) (s : State) (workflow : String) (version : Option Nat)
    (startKey : String) (input : Value) : Result Checked := do
  refuseIf (validAsciiName workflow = false ∨ startKey = "" ∨
      startKey.utf8ByteSize > maxStartKeyBytes)
    (invalid "workflow name or start key invalid (key must be 1..128 UTF-8 bytes)")
  refuseIf (version = some 0) (invalid "workflow version must be positive")
  let inputDigest ← payloadDigest env (.value input) maxPayloadBytes
  match mapGet ((mapGet s.startKeys workflow).getD []) startKey with
  | some existing => checkExisting existing version inputDigest
  | none => checkNew env s workflow version input inputDigest

/-- What a start that has passed its checks does. -/
def finishStart (env : Env) (o : Enumeration) (s : State) (command : Command) (key : CommandKey)
    (workflow startKey : String) (input : Value) : Checked → Result Published
  | .existing record =>
    pure { state := s, disposition := .applied (some record.run) none (some record.version) }
  | .new pinned catalog inputDigest => do
    let (run, progressed, started) ← admitPublished env o s command key pinned catalog input
    let first := ((s.history.lookup run).map fun events => events.length + 1).getD 1
    let last := ((progressed.state.history.lookup run).map List.length).getD 0
    refuseIf (last < first) (failedPrecondition "start emitted no run events")
    let record : StartKeyRecord := {
      run, version := pinned.definition.version, inputDigest, admittedMs := command.time }
    let keys := (mapGet progressed.state.startKeys workflow).getD []
    pure {
      state := { progressed.state with
        startKeys := mapInsert workflow (mapInsert startKey record keys)
          progressed.state.startKeys }
      disposition := .applied (some run) (some pinned.digest) (some pinned.definition.version)
      range := some { run, first, last }
      steps := started ++ progressed.steps }

def publishStart (env : Env) (o : Enumeration) (s : State) (command : Command) (key : CommandKey)
    (workflow : String) (version : Option Nat) (startKey : String) (input : Value) :
    Result Published := do
  let checked ← checkStart env s workflow version startKey input
  finishStart env o s command key workflow startKey input checked

def applyOperation (env : Env) (o : Enumeration) (s : State) (command : Command)
    (key : CommandKey) : PublicationOperation → Result Published
  | .catalog version catalog => publishCatalog env s version catalog
  | .definition definition catalogVersion => publishDefinition env s definition catalogVersion
  | .start workflow version startKey input =>
    publishStart env o s command key workflow version startKey input

/-- The digest of a publication request, with why it has no canonical form or its length. -/
def requestDigest (env : Env) (operation : PublicationOperation) : String × Result Nat :=
  let canonical : Result String := do
    let json ← toValue env .invalidArgument (.operation operation)
    canonicalJson env json
  match canonical with
  | .ok text => (env.sha256Hex text, .ok text.utf8ByteSize)
  | .error fault =>
    (env.sha256Hex ("graphrun.uncanonical-publication-request/v1\x00" ++ env.rawRequest operation),
      .error fault)

/-- The outcome of a request that has no receipt. -/
def applyRequest (env : Env) (o : Enumeration) (s : State) (command : Command) (key : CommandKey)
    (operation : PublicationOperation) : Result Published := do
  let size ← (requestDigest env operation).2
  refuseIf (size > publicCommandEnvelope)
    (refusal .resourceExhausted "publication command exceeds envelope limit")
  applyOperation env o s command key operation

def receiptFor (env : Env) (command : Command) (key : CommandKey)
    (operation : PublicationOperation) (outcome : Disposition) (eventRange : Option EventRange) :
    CommandResult where
  format := resultFormat
  key := key
  requestDigest := (requestDigest env operation).1
  operation := operation.name
  target := operation.target
  outcome := outcome
  eventRange := eventRange
  recordedMs := command.time

/-- What a member does with a publication entry. A request that was received before changes
nothing. A new one is applied at the effective time; when it is refused, the state the member
had is kept and the rejection is receipted. -/
def applyPublication (env : Env) (o : Enumeration) (s : State) (command : Command)
    (key : CommandKey) (operation : PublicationOperation) : State × List Step :=
  if (mapGet s.commandResults key.storageKey).isSome then (s, [])
  else
    let time := max command.time s.engineTimeWatermarkMs
    let command := { command with time }
    match applyRequest env o { s with engineTimeWatermarkMs := time } command key operation with
    | .ok published =>
      let receipt := receiptFor env command key operation published.disposition published.range
      ({ published.state with
          commandResults := mapInsert key.storageKey receipt published.state.commandResults },
        published.steps)
    | .error fault =>
      let receipt := receiptFor env command key operation fault.rejection none
      ({ s with commandResults := mapInsert key.storageKey receipt s.commandResults }, [])

/-! ## Entries of the replicated log -/

/-- `commit_command` of a retention command. -/
def commitPrune (env : Env) (o : Enumeration) (s : State) (command : Command) (limit : Nat) :
    Result Outcome := do
  refuseIf (limit = 0 ∨ limit > 1024) (invalid "retention batch must be 1..=1024")
  verifyCommandIdentity s command.id none command.id none
  match s.commands.lookup command.id with
  | some events => pure { state := s, events, steps := [] }
  | none => do
    let time := max command.time s.engineTimeWatermarkMs
    preflightPrune s.toCore time
    let (pruned, events) ←
      prune env o { s with engineTimeWatermarkMs := time } command.id time limit
    pure {
      state := { pruned with
        commands := pruned.commands.insert command.id events
        commandTimes := pruned.commandTimes.insert command.id time }
      events, steps := [] }

/-- The digest of an inline start without the run that the server allocates. -/
def inlineStartDigest (env : Env) : CommandBody → Result (Option String)
  | .start _ definition input catalog => do
    let json ← toValue env .invalidArgument (.inlineStart definition input catalog)
    let text ← canonicalJson env json
    pure (some (env.sha256Hex text))
  | _ => pure none

/-- An inline start of an unknown run creates it. -/
def insertStarted (s : State) : CommandBody → State
  | .start run definition _ catalog =>
    if (s.runs.lookup run).isSome then s else s.addRun run definition catalog none
  | _ => s

/-- `commit_command` of any other command than a publication. -/
def commitCommand (env : Env) (o : Enumeration) (s : State) (command : Command) :
    Result Outcome := do
  let (command, actor) ← command.intoCause
  match command.body with
  | .pruneHistory limit => commitPrune env o s command limit
  | _ => do
    let (command, externalId, digest) ← prepareCommand env s command actor
    let startDigest ← inlineStartDigest env command.body
    let workerDigest ← workerRequestDigest env command.body
    match s.commands.lookup command.id with
    | some events => do
      verifyWorkerRetry s command.id workerDigest
      refuseIf ((s.legacyStartDigests.lookup command.id).any fun expected =>
          startDigest.any fun actual => expected ≠ actual)
        (refusal .alreadyExists "command ID reused with a different inline start request")
      pure { state := s, events, steps := [] }
    | none => do
      let outcome ← applyCommandWithActor env o (insertStarted s command.body) command actor
        externalId digest
      match startDigest with
      | some startDigest => pure { outcome with
          state := { outcome.state with
            legacyStartDigests :=
              outcome.state.legacyStartDigests.insert command.id startDigest } }
      | none => pure outcome

/-- What a member does with one entry of the log. -/
def applyEntry (env : Env) (o : Enumeration) (s : State) (command : Command) :
    State × List Step :=
  match command.body with
  | .publication key operation =>
    if key.commandId ≠ command.id ∨ key.clusterId = "" ∨ key.principalId = "" then (s, [])
    else applyPublication env o s command key operation
  | _ =>
    match commitCommand env o s command with
    | .ok outcome => (outcome.state, outcome.steps)
    | .error _ => (s, [])

/-- A member that was in one state is in another after some entries of the log, having taken
the given steps. The order in which tables are walked may differ from entry to entry. -/
inductive Run (env : Env) (s : State) : List Step → State → Prop
  | refl : Run env s [] s
  | entry {log : List Step} {t : State} (run : Run env s log t) (o : Enumeration)
      (command : Command) :
      Run env s (log ++ (applyEntry env o t command).2) (applyEntry env o t command).1

end Graphrun
