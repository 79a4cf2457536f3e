import Graphrun.Model.Evolve

/-!
# What the engine takes from elsewhere

The engine hashes with SHA-256, serializes through serde, checks JSON Schemas and decodes
hexadecimal text with code that is not its own. `Env` collects these functions as
parameters. On top of them stand the engine's own functions: identity generation, canonical
JSON, artifact references and worker contracts.
-/

namespace Graphrun

open Lib

/-- The things the engine serializes. -/
inductive Payload where
  | value (v : Value)
  | event (e : DomainEvent)
  | definition (d : Definition)
  | catalog (c : Catalog)
  | policy (p : CapturedRunPolicy)
  | json (j : Json)
  | contract (c : ActivityContract)
  | reconciler (c : ReconcilerContract)
  | reconciliation (activity : ActivityContract) (recon : ReconcilerContract)
  | projection (through : Nat) (p : Projection)
  | schemaRef (s : SchemaRef)
  | body (b : CommandBody)
  | inlineStart (definition : Definition) (input : Value) (catalog : Catalog)
  | operation (op : PublicationOperation)

/-- Functions of other crates. -/
structure Env where
  /-- The first 16 bytes of SHA-256 over a command id and a counter. -/
  mint : CommandId → Nat → Nat
  /-- The first 16 bytes of SHA-256 over a run, an activation and a role. -/
  effectKey : RunId → ActivationId → ExecutionRole → Nat
  /-- The first 16 bytes of SHA-256 over a principal and the id it submitted. -/
  authenticatedId : String → CommandId → Nat
  /-- Run, start command and progress command of a published start. -/
  publishedIds : CommandKey → Nat × Nat × Nat
  /-- SHA-256 of a text, in hexadecimal. -/
  sha256Hex : String → String
  /-- The JSON document of a serializable thing, or the error text. -/
  toJson : Payload → Except String Json
  /-- The bytes of a publication request that has no canonical form. -/
  rawRequest : PublicationOperation → String
  /-- A JSON string literal. -/
  quote : String → String
  /-- JSON Schema validity: schema, instance. -/
  isValid : Json → Json → Bool
  /-- Why a text is not hexadecimal, if it is not. -/
  hexError : String → Option String

/-! ## Identity generation -/

/-- The source of a command's new identities. -/
structure IdGen where
  command : CommandId
  n : Nat := 0

namespace IdGen

def next {k : IdKind} (env : Env) (ids : IdGen) : Id k × IdGen :=
  (⟨env.mint ids.command ids.n⟩, { ids with n := ids.n + 1 })

def scope (env : Env) (ids : IdGen) : ScopeId × IdGen := ids.next env

def activation (env : Env) (ids : IdGen) : ActivationId × IdGen := ids.next env

def wait (env : Env) (ids : IdGen) : WaitId × IdGen := ids.next env

end IdGen

def stableEffectKey (env : Env) (run : RunId) (activation : ActivationId) (role : ExecutionRole) :
    EffectKey := ⟨env.effectKey run activation role⟩

/-! ## Canonical JSON -/

def JsonNumber.asI64 : JsonNumber → Option Int
  | .posInt n => if (n : Int) ≤ i64Max then some n else none
  | .negInt i => some i
  | .float _ => none

def JsonNumber.text : JsonNumber → String
  | .posInt n => toString n
  | .negInt i => toString i
  | .float text => text

/-- The fields of a JSON object in key order. -/
def sortFields {α : Type} (fields : List (String × α)) : List (String × α) :=
  fields.foldr (fun e sorted => mapInsert e.1 e.2 sorted) []

mutual
def writeCanonical (env : Env) (depth : Nat) : Json → Result String
  | .null => do
    refuseIf (depth > maxDataDepth) (invalid "canonical JSON exceeds maximum depth")
    pure "null"
  | .bool b => do
    refuseIf (depth > maxDataDepth) (invalid "canonical JSON exceeds maximum depth")
    pure (if b then "true" else "false")
  | .number n => do
    refuseIf (depth > maxDataDepth) (invalid "canonical JSON exceeds maximum depth")
    let v ← okOr n.asI64 (invalid s!"non-integer number {n.text} cannot be canonicalized")
    pure (toString v)
  | .string s => do
    refuseIf (depth > maxDataDepth) (invalid "canonical JSON exceeds maximum depth")
    pure (env.quote s)
  | .array items => do
    refuseIf (depth > maxDataDepth) (invalid "canonical JSON exceeds maximum depth")
    let texts ← writeItems env (depth + 1) items
    pure ("[" ++ ",".intercalate texts ++ "]")
  | .object fields => do
    refuseIf (depth > maxDataDepth) (invalid "canonical JSON exceeds maximum depth")
    let texts ← writeFields env (depth + 1) fields
    pure ("\x7b" ++ ",".intercalate ((sortFields texts).map fun e => env.quote e.1 ++ ":" ++ e.2)
      ++ "\x7d")
def writeItems (env : Env) (depth : Nat) : List Json → Result (List String)
  | [] => pure []
  | item :: rest => do
    let text ← writeCanonical env depth item
    let others ← writeItems env depth rest
    pure (text :: others)
def writeFields (env : Env) (depth : Nat) : List (String × Json) → Result (List (String × String))
  | [] => pure []
  | (k, item) :: rest => do
    let text ← writeCanonical env depth item
    let others ← writeFields env depth rest
    pure ((k, text) :: others)
end

def canonicalJson (env : Env) (json : Json) : Result String := writeCanonical env 0 json

/-! ## Artifact references -/

/-- The same refusal under another kind. -/
def Fault.asKind (kind : ErrorKind) : Fault → Fault
  | .error e => refusal kind e.message
  | .panicked => .panicked

/-- `map_err` on the kind of a refusal. -/
def mapKind {α : Type} (kind : ErrorKind) : Result α → Result α
  | .ok a => .ok a
  | .error fault => .error (fault.asKind kind)

def unavailable (message : String) : Fault := refusal .unavailable message

/-- Serialization, with the error text as a refusal. -/
def toValue (env : Env) (kind : ErrorKind) (payload : Payload) : Result Json :=
  match env.toJson payload with
  | .ok json => .ok json
  | .error text => .error (refusal kind text)

def artifactFormat : String := "graphrun-artifact/v1"

/-- `ArtifactRef::capture_in`. -/
def captureIn (env : Env) (clusterId schema : String) (payload : Payload) : Result ArtifactRef := do
  refuseIf (clusterId = "") (failedPrecondition "artifact origin cluster ID is required")
  match env.hexError clusterId with
  | some text => throw (failedPrecondition text)
  | none => do
    refuseIf (clusterId.length ≠ 32) (failedPrecondition "expected 16 bytes")
    let json ← toValue env .failedPrecondition payload
    let text ← mapKind .failedPrecondition (canonicalJson env json)
    pure {
      clusterId, format := artifactFormat, schema, byteLen := text.utf8ByteSize
      sha256 := env.sha256Hex ("graphrun-artifact/v1\x00" ++ schema ++ "\x00" ++ text) }

/-- `ArtifactRef::verify`. -/
def ArtifactRef.verify (env : Env) (ref : ArtifactRef) (schema : String) (payload : Payload) :
    Result Unit := do
  let again ← mapKind .unavailable (captureIn env ref.clusterId schema payload)
  refuseIf (ref ≠ again) (unavailable "missing, corrupt or unsupported retained artifact")

def schemaIdentity (env : Env) : SchemaRef → Result String
  | .named key => pure key.asStableName
  | schema => do
    let json ← toValue env .failedPrecondition (.schemaRef schema)
    canonicalJson env json

/-! ## Worker contracts -/

def protocolVersion : Nat := 1
def codecVersion : Nat := 1

def Catalog.validateValue (env : Env) (catalog : Catalog) (schema : SchemaRef) (value : Value) :
    Result Unit := do
  let jsonSchema ← catalog.schemaJson schema
  refuseIf (env.isValid jsonSchema value.toJson = false)
    (invalid "output does not match activity schema")

def contractSchemas (catalog : Catalog) (key : ActivityKey) (role : ExecutionRole) :
    Result (SchemaRef × SchemaRef) := do
  let activity ←
    if role = .reconciliation then do
      let recon ← okOr (catalog.reconciler? key) (invalid s!"unknown reconciler {key.asStableName}")
      pure recon.forward
    else pure key
  let contract ← catalog.activity activity
  pure (contract.inputSchema, contract.outputSchema)

/-- `digest` of a worker contract part. -/
def contractDigest (env : Env) (domain : String) (json : Json) : Result String := do
  let text ← canonicalJson env json
  pure (env.sha256Hex (domain ++ "\x00" ++ text))

def capabilityFor (env : Env) (catalog : Catalog) (key : ActivityKey) (role : ExecutionRole) :
    Result WorkerCapability := do
  let (input, output) ← contractSchemas catalog key role
  let payload ←
    if role = .reconciliation then do
      let recon ← okOr (catalog.reconciler? key) (invalid "unknown reconciliation contract")
      let forward ← catalog.activity recon.forward
      refuseIf (forward.reconciler ≠ some key)
        (invalid "reconciler is not bound to its forward contract")
      pure (Payload.reconciliation forward recon)
    else do
      let contract ← catalog.activity key
      pure (Payload.contract contract)
  let contract ← toValue env .invalidArgument payload
  let inputJson ← catalog.schemaJson input
  let inputSchemaDigest ← contractDigest env "graphrun.worker-schema/v1" inputJson
  let outputJson ← catalog.schemaJson output
  let outputSchemaDigest ← contractDigest env "graphrun.worker-schema/v1" outputJson
  let contractDigest ← contractDigest env "graphrun.worker-contract/v1" contract
  pure {
    activityName := key.name, activityVersion := key.version, role, codecVersion
    inputSchemaDigest, outputSchemaDigest, contractDigest }

end Graphrun
