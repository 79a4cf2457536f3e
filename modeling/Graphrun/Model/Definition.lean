import Graphrun.Model.Value

/-!
# Workflow definitions

The intermediate representation that the compiler produces and the engine runs (`ir.rs`,
`binding.rs`, `schema.rs`), the activity catalog (`catalog.rs`) and the fixed policy
numbers (`policy.rs`, `limits.rs`). Nodes, regions, cases and branches are mutually
nested, as in the source; a region's `nodes` are the entries of its `BTreeMap` in key
order.
-/

namespace Graphrun

open Lib

/-! ## Schemas -/

inductive SchemaRef where
  | named (key : SchemaKey)
  | array (element : SchemaRef)
  | tuple (elements : List SchemaRef)
  | integer
  | string
  | boolean
  | null
  deriving Repr

mutual
def SchemaRef.decEq : (a b : SchemaRef) → Decidable (a = b)
  | .named a, .named b => decidable_of_iff (a = b) (by simp)
  | .array a, .array b =>
    match SchemaRef.decEq a b with
    | isTrue h => isTrue (by rw [h])
    | isFalse h => isFalse (by simpa using h)
  | .tuple a, .tuple b =>
    match SchemaRef.decEqElements a b with
    | isTrue h => isTrue (by rw [h])
    | isFalse h => isFalse (by simpa using h)
  | .integer, .integer => isTrue rfl
  | .string, .string => isTrue rfl
  | .boolean, .boolean => isTrue rfl
  | .null, .null => isTrue rfl
  | .named _, .array _ | .named _, .tuple _ | .named _, .integer | .named _, .string
  | .named _, .boolean | .named _, .null => isFalse (by simp)
  | .array _, .named _ | .array _, .tuple _ | .array _, .integer | .array _, .string
  | .array _, .boolean | .array _, .null => isFalse (by simp)
  | .tuple _, .named _ | .tuple _, .array _ | .tuple _, .integer | .tuple _, .string
  | .tuple _, .boolean | .tuple _, .null => isFalse (by simp)
  | .integer, .named _ | .integer, .array _ | .integer, .tuple _ | .integer, .string
  | .integer, .boolean | .integer, .null => isFalse (by simp)
  | .string, .named _ | .string, .array _ | .string, .tuple _ | .string, .integer
  | .string, .boolean | .string, .null => isFalse (by simp)
  | .boolean, .named _ | .boolean, .array _ | .boolean, .tuple _ | .boolean, .integer
  | .boolean, .string | .boolean, .null => isFalse (by simp)
  | .null, .named _ | .null, .array _ | .null, .tuple _ | .null, .integer
  | .null, .string | .null, .boolean => isFalse (by simp)
def SchemaRef.decEqElements : (a b : List SchemaRef) → Decidable (a = b)
  | [], [] => isTrue rfl
  | [], _ :: _ => isFalse (by simp)
  | _ :: _, [] => isFalse (by simp)
  | a :: as, b :: bs =>
    match SchemaRef.decEq a b, SchemaRef.decEqElements as bs with
    | isTrue h, isTrue hs => isTrue (by rw [h, hs])
    | isFalse h, _ => isFalse (by simp [h])
    | _, isFalse h => isFalse (by simp [h])
end

instance : DecidableEq SchemaRef := SchemaRef.decEq

/-! ## Bindings and conditions -/

inductive Reference where
  | workflowInput
  | scopeInput
  | scopeId
  | nodeOutput (node : NodeKey)
  | loopState
  | loopIndex
  | itemValue
  | itemIndex
  | forwardInput
  | forwardOutput
  deriving DecidableEq, Repr

inductive Binding where
  | from (reference : Reference) (path : Option String)
  | literal (value : Value)
  | object (fields : List (String × Binding))
  | array (items : List Binding)
  deriving Repr

inductive Condition where
  | eq (left right : Binding)
  | ne (left right : Binding)
  | lt (left right : Binding)
  | le (left right : Binding)
  | gt (left right : Binding)
  | ge (left right : Binding)
  | all (items : List Condition)
  | any (items : List Condition)
  | not (inner : Condition)
  | exists (binding : Binding)
  deriving Repr

/-! ## Retry policies and fixed numbers -/

structure Backoff where
  initialMs : Nat
  multiplierMillis : Nat
  maxMs : Nat
  deriving DecidableEq, Repr

structure RetryPolicy where
  errors : List String
  maxAttempts : Nat
  backoff : Backoff
  deriving DecidableEq, Repr

def forwardAttemptTimeoutMs : Nat := 5 * 60 * 1000
def compensationAttemptTimeoutMs : Nat := 5 * 60 * 1000
def reconciliationAttemptTimeoutMs : Nat := 30 * 1000
def forwardAttemptBudget : Nat := 5
def compensationAttemptBudget : Nat := 10
def maxAttemptBudget : Nat := 10
def initialBackoffMs : Nat := 1000
def forwardBackoffCapMs : Nat := 60 * 1000
def compensationBackoffCapMs : Nat := 5 * 60 * 1000
def backoffMultiplierMillis : Nat := 2000
def reconciliationProbes : Nat := 3
def terminalHistoryDays : Nat := 30
def terminalSummaryDays : Nat := 90
def commandResultHours : Nat := 24
def unreservedEventDays : Nat := 7
def checkpointEventCadence : Nat := 256
def sessionLeaseMs : Nat := 30 * 1000

def maxNodes : Nat := 512
def maxNesting : Nat := 8
def maxDataDepth : Nat := 32
def maxConditionOps : Nat := 256
def maxLoopIterations : Nat := 1000
def maxParallelBranches : Nat := 16
def maxActiveLeavesPerWorker : Nat := 128
def maxForeachConcurrency : Nat := 32
def claimBatch : Nat := 16
def maxBufferedEventsPerRun : Nat := 1000
def maxEventsPerAddress : Nat := 100
def maxStartKeyBytes : Nat := 128
def progressBatch : Nat := 32

def Backoff.forwardDefault : Backoff where
  initialMs := initialBackoffMs
  multiplierMillis := backoffMultiplierMillis
  maxMs := forwardBackoffCapMs

def Backoff.compensationDefault : Backoff where
  initialMs := initialBackoffMs
  multiplierMillis := backoffMultiplierMillis
  maxMs := compensationBackoffCapMs

def RetryPolicy.forwardDefault : RetryPolicy where
  errors := []
  maxAttempts := forwardAttemptBudget
  backoff := .forwardDefault

def RetryPolicy.compensationDefault (retryableCodes : List String) : RetryPolicy where
  errors := retryableCodes
  maxAttempts := compensationAttemptBudget
  backoff := .compensationDefault

/-- The policy numbers a run keeps from the moment it is admitted. -/
structure CapturedRunPolicy where
  forwardAttemptTimeoutMs : Nat
  compensationAttemptTimeoutMs : Nat
  reconciliationAttemptTimeoutMs : Nat
  runTimeoutMs : Option Nat
  terminalHistoryDays : Nat
  terminalSummaryDays : Nat
  commandResultHours : Nat
  unreservedEventDays : Nat
  checkpointEventCadence : Nat
  deriving DecidableEq, Repr

def CapturedRunPolicy.defaults (runTimeoutMs : Option Nat) : CapturedRunPolicy where
  forwardAttemptTimeoutMs := Graphrun.forwardAttemptTimeoutMs
  compensationAttemptTimeoutMs := Graphrun.compensationAttemptTimeoutMs
  reconciliationAttemptTimeoutMs := Graphrun.reconciliationAttemptTimeoutMs
  runTimeoutMs := runTimeoutMs
  terminalHistoryDays := Graphrun.terminalHistoryDays
  terminalSummaryDays := Graphrun.terminalSummaryDays
  commandResultHours := Graphrun.commandResultHours
  unreservedEventDays := Graphrun.unreservedEventDays
  checkpointEventCadence := Graphrun.checkpointEventCadence

/-! ## Nodes and regions -/

inductive ConsumeFrom where
  | buffered
  | afterActivation
  deriving DecidableEq, Repr

inductive Compensation where
  | activity (activity : ActivityKey) (input : Binding) (timeoutMs : Option Nat)
      (retry : Option RetryPolicy)
  | irreversible (reason : String)
  deriving Repr

structure FailError where
  code : String
  message : String
  deriving DecidableEq, Repr

inductive PathSeg where
  | root
  | node (key : String)
  | body
  | branch (name : String)
  | case (name : String)
  | default
  deriving DecidableEq, Repr

abbrev RegionPath := List PathSeg

mutual

inductive Node where
  | activity (activity : ActivityKey) (input : Binding) (timeoutMs : Option Nat)
      (retry : RetryPolicy) (compensation : Option Compensation) (next : NodeKey)
  | choose (input : Binding) (cases : List ChooseCase) (default : Region) (next : NodeKey)
  | delay (duration : Binding) (next : NodeKey)
  | waitUntil (at_ : Binding) (next : NodeKey)
  | waitSignal (signal : String) (key : Binding) (timeoutMs : Option Nat)
      (consumeFrom : ConsumeFrom) (next : NodeKey) (onTimeout : Option NodeKey)
  | complete (output : Binding)
  | fail (error : FailError)
  | while (state : Binding) (stateSchema : SchemaRef) (condition : Condition)
      (maxIterations : Nat) (body : Region) (next : NodeKey)
  | doWhile (state : Binding) (stateSchema : SchemaRef) (condition : Condition)
      (maxIterations : Nat) (body : Region) (next : NodeKey)
  | repeat (count : Binding) (state : Binding) (stateSchema : SchemaRef)
      (maxIterations : Nat) (body : Region) (next : NodeKey)
  | foreach (items : Binding) (itemSchema : SchemaRef) (maxItems : Nat)
      (maxConcurrency : Nat) (body : Region) (next : NodeKey)
  | parallel (branches : List ParallelBranch) (next : NodeKey)
  | saga (input : Binding) (body : Region) (next : NodeKey)

structure Region where
  path : RegionPath
  inputSchema : SchemaRef
  outputSchema : SchemaRef
  start : NodeKey
  nodes : List (String × Node)

structure ChooseCase where
  name : String
  when : Condition
  body : Region

structure ParallelBranch where
  name : String
  input : Binding
  body : Region

end

/-- The node stored under a key of a region. -/
def Region.node? (region : Region) (key : NodeKey) : Option Node := mapGet region.nodes key

/-- The targets of a node's `next` and `on_timeout` edges. -/
def Node.successors : Node → List NodeKey
  | .activity _ _ _ _ _ next | .choose _ _ _ next | .delay _ next | .waitUntil _ next
  | .while _ _ _ _ _ next | .doWhile _ _ _ _ _ next | .repeat _ _ _ _ _ next
  | .foreach _ _ _ _ _ next | .parallel _ next | .saga _ _ next => [next]
  | .waitSignal _ _ _ _ next onTimeout => next :: onTimeout.toList
  | .complete _ | .fail _ => []

structure Definition where
  formatVersion : Nat
  dsl : String
  id : String
  version : Nat
  inputSchema : SchemaRef
  outputSchema : SchemaRef
  signals : List (String × SchemaRef)
  runTimeoutMs : Option Nat
  root : Region
  digest : String

/-! ## The activity catalog -/

inductive ExecutionKind where
  | async
  | blocking
  deriving DecidableEq, Repr

inductive EffectKind where
  | pure
  | external
  deriving DecidableEq, Repr

inductive Recovery where
  | retrySafe
  | manual
  deriving DecidableEq, Repr

structure ErrorCode where
  code : String
  retryable : Bool
  deriving DecidableEq, Repr

structure ActivityContract where
  key : ActivityKey
  inputSchema : SchemaRef
  outputSchema : SchemaRef
  execution : ExecutionKind
  effects : EffectKind
  recovery : Recovery
  errorCodes : List ErrorCode
  reconciler : Option ActivityKey
  deriving DecidableEq

def ActivityContract.retryableCodes (contract : ActivityContract) : List String :=
  (contract.errorCodes.filter (·.retryable)).map (·.code)

def ActivityContract.knownCode (contract : ActivityContract) (code : String) : Option ErrorCode :=
  contract.errorCodes.find? (·.code == code)

structure ReconcilerContract where
  key : ActivityKey
  forward : ActivityKey
  deriving DecidableEq, Repr

structure Catalog where
  schemas : List (SchemaKey × Json)
  activities : List (ActivityKey × ActivityContract)
  reconcilers : List (ActivityKey × ReconcilerContract)

def Catalog.activity (catalog : Catalog) (key : ActivityKey) : Result ActivityContract :=
  okOr (mapGet catalog.activities key) (invalid s!"unknown activity {key.name}/v{key.version}")

def Catalog.reconciler? (catalog : Catalog) (key : ActivityKey) : Option ReconcilerContract :=
  mapGet catalog.reconcilers key

mutual
def Catalog.schemaJson (catalog : Catalog) : SchemaRef → Result Json
  | .named key => okOr (mapGet catalog.schemas key) (invalid s!"unknown schema {key.asStableName}")
  | .array element => do
    let items ← catalog.schemaJson element
    pure (.object [("items", items), ("type", .string "array")])
  | .tuple elements => do
    let items ← catalog.schemaJsons elements
    pure (.object [("items", .array items), ("type", .string "array")])
  | .integer => pure (.object [("type", .string "integer")])
  | .string => pure (.object [("type", .string "string")])
  | .boolean => pure (.object [("type", .string "boolean")])
  | .null => pure (.object [("type", .string "null")])
def Catalog.schemaJsons (catalog : Catalog) : List SchemaRef → Result (List Json)
  | [] => pure []
  | element :: rest => do
    let first ← catalog.schemaJson element
    let others ← catalog.schemaJsons rest
    pure (first :: others)
end

end Graphrun
