import Graphrun.Model.Analyze
import Graphrun.Model.Document
import Graphrun.Model.Publication

/-!
# The compiler

How a parsed document becomes a definition (`compiler.rs`). Regions nest at most eight deep: the
compiler of a region is given how many more levels there may be, and the compilers of nodes are
given the compiler of the bodies inside of them. The number of nodes is carried along.
-/

namespace Graphrun

open Lib

def dslName : String := "graphrun/v1"
def minAttemptTimeoutMs : Nat := 1000
def maxAttemptTimeoutMs : Nat := 24 * 60 * 60 * 1000
def maxRunTimeoutMs : Nat := 365 * 24 * 60 * 60 * 1000
def maxBackoffMs : Nat := 60 * 60 * 1000

def workflowFields : List String :=
  ["dsl", "id", "version", "input_schema", "output_schema", "start", "nodes", "signals",
    "run_timeout"]

def regionFields : List String := ["input_schema", "output_schema", "start", "nodes"]

/-! ## Durations and retry policies -/

def validateAttemptTimeout (ms : Nat) : Result Unit :=
  refuseIf (ms < minAttemptTimeoutMs ∨ ms > maxAttemptTimeoutMs)
    (invalid "attempt timeout must be between 1 second and 24 hours")

def parseAttemptTimeout (node : Spanned) : Result Nat := do
  let text ← node.asStr
  let duration ← parseDuration text
  validateAttemptTimeout duration
  durationToMillis duration

def parseOptionalTimeout (fields : DocMap) (field : String) (default : Nat) :
    Result (Option Nat) :=
  match mapGet fields field with
  | some node => do
    let ms ← parseAttemptTimeout node
    pure (some ms)
  | none => do
    let ms ← durationToMillis default
    pure (some ms)

def Backoff.validate (backoff : Backoff) : Result Unit := do
  refuseIf (backoff.initialMs = 0 ∨ backoff.maxMs = 0)
    (invalid "backoff durations must be positive")
  refuseIf (backoff.initialMs > backoff.maxMs) (invalid "backoff initial exceeds max")
  refuseIf (backoff.maxMs > maxBackoffMs) (invalid "backoff max exceeds one hour")
  refuseIf (backoff.multiplierMillis < 1000 ∨ backoff.multiplierMillis > 10000)
    (invalid "backoff multiplier must be between 1 and 10")

def RetryPolicy.validate (policy : RetryPolicy) : Result Unit := do
  refuseIf (policy.maxAttempts = 0 ∨ policy.maxAttempts > maxAttemptBudget)
    (invalid "max_attempts is out of range")
  policy.backoff.validate

def parseRetryErrors (contract : ActivityContract) (policy : RetryPolicy) :
    Option Spanned → Result RetryPolicy
  | none => pure policy
  | some ⟨_, .array items⟩ => do
    let errors ← items.mapM Spanned.asStr
    errors.forM fun code =>
      refuseIf ((contract.knownCode code).any (·.retryable) = false)
        (invalid s!"retry lists terminal or unknown code {code}")
    pure { policy with errors }
  | some ⟨span, _⟩ => throw ((invalid "retry.errors must be an array").atSpan span)

def parseMaxAttempts (policy : RetryPolicy) : Option Spanned → Result RetryPolicy
  | none => pure policy
  | some node => do
    let maxAttempts ← node.asU32
    pure { policy with maxAttempts }

def parseDurationField (fields : DocMap) (field : String) (span : DocSpan) : Result Nat := do
  let node ← required fields field span
  let text ← node.asStr
  let duration ← parseDuration text
  durationToMillis duration

def parseBackoff (policy : RetryPolicy) : Option Spanned → Result RetryPolicy
  | none => pure policy
  | some node => do
    let fields ← node.asMap
    rejectUnknown fields ["initial", "multiplier", "max"] node.span
    let initialMs ← parseDurationField fields "initial" node.span
    let multiplierNode ← required fields "multiplier" node.span
    let multiplier ← multiplierNode.asI64
    refuseIf (multiplier < 1 ∨ multiplier > 10)
      (invalid "backoff multiplier must be between 1 and 10")
    let maxMs ← parseDurationField fields "max" node.span
    pure { policy with
      backoff := { initialMs, multiplierMillis := multiplier.toNat * 1000, maxMs } }

def parseRetryNode (contract : ActivityContract) (policy : RetryPolicy) :
    Option Spanned → Result RetryPolicy
  | none => pure policy
  | some node => do
    let fields ← node.asMap
    rejectUnknown fields ["errors", "max_attempts", "backoff"] node.span
    let policy ← parseRetryErrors contract policy (mapGet fields "errors")
    let policy ← parseMaxAttempts policy (mapGet fields "max_attempts")
    parseBackoff policy (mapGet fields "backoff")

def parseRetry (fields : DocMap) (contract : ActivityContract) (compensation : Bool) :
    Result RetryPolicy := do
  let policy ← parseRetryNode contract
    (if compensation then .compensationDefault contract.retryableCodes else .forwardDefault)
    (mapGet fields "retry")
  policy.validate
  pure policy

/-! ## Leaves -/

def parseActivityKey (node : Spanned) : Result ActivityKey := do
  let fields ← node.asMap
  rejectUnknown fields ["name", "version"] node.span
  let nameNode ← required fields "name" node.span
  let name ← nameNode.asStr
  let versionNode ← required fields "version" node.span
  let version ← versionNode.asU32
  pure { name, version }

def parseCompensationActivity (node : Spanned) (fields : DocMap) (catalog : Catalog) :
    Result Compensation := do
  rejectUnknown fields ["kind", "activity", "input", "timeout", "retry"] node.span
  let activityNode ← required fields "activity" node.span
  let activity ← parseActivityKey activityNode
  let contract ← catalog.activity activity
  let inputNode ← required fields "input" node.span
  let input ← parseBinding inputNode
  refuseIf (input.references.any fun r => r ≠ .forwardInput ∧ r ≠ .forwardOutput)
    ((invalid "compensation input may only use forward.input or forward.output").atSpan node.span)
  let timeoutMs ← parseOptionalTimeout fields "timeout" compensationAttemptTimeoutMs
  let retry ← parseRetry fields contract true
  pure (.activity activity input timeoutMs (some retry))

def parseCompensation (node : Spanned) (catalog : Catalog) : Result Compensation := do
  let fields ← node.asMap
  let kindNode ← required fields "kind" node.span
  let kind ← kindNode.asStr
  if kind = "irreversible" then do
    rejectUnknown fields ["kind", "reason"] node.span
    let reasonNode ← required fields "reason" node.span
    let reason ← reasonNode.asStr
    pure (.irreversible reason)
  else if kind = "activity" then parseCompensationActivity node fields catalog
  else throw ((invalid s!"unknown compensation kind {kind}").atSpan node.span)

/-- The compensation of an activity, which only a saga has a use for. -/
def compileCompensation (catalog : Catalog) (ctx : RegionCtx) (contract : ActivityContract)
    (span : DocSpan) : Option Spanned → Result (Option Compensation)
  | some node => do
    refuseIf (ctx.inSaga = false)
      ((invalid "compensation is only valid inside a saga").atSpan node.span)
    let compensation ← parseCompensation node catalog
    pure (some compensation)
  | none => do
    refuseIf (ctx.inSaga = true ∧ contract.effects = .external)
      ((invalid "external activity inside a saga requires compensation or irreversible").atSpan
        span)
    pure none

def compileActivity (fields : DocMap) (span : DocSpan) (catalog : Catalog) (ctx : RegionCtx) :
    Result Node := do
  rejectUnknown fields
    ["kind", "activity", "input", "retry", "timeout", "compensation", "next"] span
  let activityNode ← required fields "activity" span
  let activity ← parseActivityKey activityNode
  let contract ← catalog.activity activity
  let inputNode ← required fields "input" span
  let input ← parseBinding inputNode
  let nextNode ← required fields "next" span
  let next ← parseNodeKey nextNode
  let timeoutMs ← parseOptionalTimeout fields "timeout" forwardAttemptTimeoutMs
  let retry ← parseRetry fields contract false
  let compensation ← compileCompensation catalog ctx contract span (mapGet fields "compensation")
  pure (.activity activity input timeoutMs retry compensation next)

def parseDelay : Spanned → Result Binding
  | ⟨span, .string text⟩ => pure (.literal (Spanned.toValue ⟨span, .string text⟩))
  | ⟨span, .map fields⟩ => parseBinding ⟨span, .map fields⟩
  | ⟨span, _⟩ => throw ((invalid "duration must be a string or binding").atSpan span)

def compileDelay (fields : DocMap) (span : DocSpan) : Result Node := do
  rejectUnknown fields ["kind", "duration", "next"] span
  let durationNode ← required fields "duration" span
  let duration ← parseDelay durationNode
  let nextNode ← required fields "next" span
  let next ← parseNodeKey nextNode
  pure (.delay duration next)

def compileWaitUntil (fields : DocMap) (span : DocSpan) : Result Node := do
  rejectUnknown fields ["kind", "at", "next"] span
  let atNode ← required fields "at" span
  let at_ ← parseBinding atNode
  let nextNode ← required fields "next" span
  let next ← parseNodeKey nextNode
  pure (.waitUntil at_ next)

def parseWaitTimeout : Spanned → Result (Option Nat)
  | ⟨_, .null⟩ => pure none
  | ⟨_, .string text⟩ => do
    let duration ← parseDuration text
    let ms ← durationToMillis duration
    pure (some ms)
  | ⟨span, _⟩ => throw ((invalid "timeout must be a duration string or null").atSpan span)

def parseOnTimeout : Option Spanned → Result (Option NodeKey)
  | some node => do
    let key ← parseNodeKey node
    pure (some key)
  | none => pure none

def parseConsumeFrom : Option Spanned → Result ConsumeFrom
  | some node => do
    let text ← node.asStr
    if text = "buffered" then pure .buffered
    else if text = "after_activation" then pure .afterActivation
    else throw ((invalid s!"unknown consume_from {text}").atSpan node.span)
  | none => pure .buffered

def compileWaitSignal (fields : DocMap) (span : DocSpan) (signals : List (String × SchemaRef)) :
    Result Node := do
  rejectUnknown fields ["kind", "signal", "key", "timeout", "consume_from", "next", "on_timeout"]
    span
  let signalNode ← required fields "signal" span
  let signal ← signalNode.asStr
  refuseIf ((mapGet signals signal).isNone) ((invalid s!"unknown signal {signal}").atSpan span)
  let timeoutNode ← required fields "timeout" span
  let timeoutMs ← parseWaitTimeout timeoutNode
  let onTimeout ← parseOnTimeout (mapGet fields "on_timeout")
  refuseIf (timeoutMs.isSome = true ∧ onTimeout.isSome = false)
    ((invalid "finite wait_signal requires on_timeout").atSpan span)
  refuseIf (timeoutMs.isSome = false ∧ onTimeout.isSome = true)
    ((invalid "indefinite wait_signal forbids on_timeout").atSpan span)
  let consumeFrom ← parseConsumeFrom (mapGet fields "consume_from")
  let keyNode ← required fields "key" span
  let key ← parseBinding keyNode
  let nextNode ← required fields "next" span
  let next ← parseNodeKey nextNode
  pure (.waitSignal signal key timeoutMs consumeFrom next onTimeout)

def compileComplete (fields : DocMap) (span : DocSpan) : Result Node := do
  rejectUnknown fields ["kind", "output"] span
  let outputNode ← required fields "output" span
  let output ← parseBinding outputNode
  pure (.complete output)

def compileFail (fields : DocMap) (span : DocSpan) : Result Node := do
  rejectUnknown fields ["kind", "error"] span
  let error ← required fields "error" span
  let errorFields ← error.asMap
  rejectUnknown errorFields ["code", "message"] error.span
  let codeNode ← required errorFields "code" error.span
  let code ← codeNode.asStr
  let messageNode ← required errorFields "message" error.span
  let message ← messageNode.asStr
  pure (.fail { code, message })

/-! ## Containers -/

/-- The compiler of the regions inside a node: mapping, position, path and context of the region and
the number of nodes so far. -/
abbrev BodyCompiler := DocMap → DocSpan → RegionPath → RegionCtx → Nat → Result (Region × Nat)

inductive LoopKind where
  | while
  | doWhile
  | repeat
  deriving DecidableEq

def loopFields (kind : LoopKind) : List String :=
  ["kind", "state", "state_schema", "condition", "max_iterations", "body", "next"] ++
    (if kind = .repeat then ["count"] else [])

def requiredSchema (fields : DocMap) (field : String) (span : DocSpan) : Result SchemaRef := do
  let node ← required fields field span
  parseSchemaRef node

/-- The part of a loop that is particular to its kind. -/
def loopNode (fields : DocMap) (span : DocSpan) (state : Binding) (stateSchema : SchemaRef)
    (maxIterations : Nat) (body : Region) (next : NodeKey) : LoopKind → Result Node
  | .while => do
    let conditionNode ← required fields "condition" span
    let condition ← parseCondition conditionNode
    pure (.while state stateSchema condition maxIterations body next)
  | .doWhile => do
    let conditionNode ← required fields "condition" span
    let condition ← parseCondition conditionNode
    pure (.doWhile state stateSchema condition maxIterations body next)
  | .repeat => do
    let countNode ← required fields "count" span
    let count ← parseBinding countNode
    pure (.repeat count state stateSchema maxIterations body next)

def compileLoop (compileBody : BodyCompiler) (fields : DocMap) (span : DocSpan) (catalog : Catalog)
    (path : RegionPath) (ctx : RegionCtx) (counts : Nat) (kind : LoopKind) :
    Result (Node × Nat) := do
  rejectUnknown fields (loopFields kind) span
  let stateSchema ← requiredSchema fields "state_schema" span
  catalog.requireSchema stateSchema
  let maxNode ← required fields "max_iterations" span
  let maxIterations ← maxNode.asU32
  refuseIf (maxIterations = 0 ∨ maxIterations > maxLoopIterations)
    ((invalid "max_iterations is out of range").atSpan span)
  -- that a `do_while` has one iteration at least is checked once more and cannot fail any longer
  let bodyNode ← required fields "body" span
  let bodyFields ← bodyNode.asMap
  let bodyInput ← requiredSchema bodyFields "input_schema" bodyNode.span
  let bodyOutput ← requiredSchema bodyFields "output_schema" bodyNode.span
  refuseIf (bodyInput ≠ stateSchema ∨ bodyOutput ≠ stateSchema)
    ((invalid "loop body schemas must match state_schema").atSpan bodyNode.span)
  let (body, counts) ← compileBody bodyFields bodyNode.span (path ++ [.body])
    { ctx with inputSchema := bodyInput, outputSchema := bodyOutput, inLoop := true } counts
  let nextNode ← required fields "next" span
  let next ← parseNodeKey nextNode
  let stateNode ← required fields "state" span
  let state ← parseBinding stateNode
  let node ← loopNode fields span state stateSchema maxIterations body next kind
  pure (node, counts)

def compileForeach (compileBody : BodyCompiler) (fields : DocMap) (span : DocSpan)
    (catalog : Catalog) (path : RegionPath) (ctx : RegionCtx) (counts : Nat) :
    Result (Node × Nat) := do
  rejectUnknown fields
    ["kind", "items", "item_schema", "max_items", "max_concurrency", "body", "next"] span
  let itemSchema ← requiredSchema fields "item_schema" span
  catalog.requireSchema itemSchema
  let maxItemsNode ← required fields "max_items" span
  let maxItems ← maxItemsNode.asU32
  refuseIf (maxItems = 0 ∨ maxItems > maxLoopIterations)
    ((invalid "max_items is out of range").atSpan span)
  let maxConcurrencyNode ← required fields "max_concurrency" span
  let maxConcurrency ← maxConcurrencyNode.asU32
  refuseIf (maxConcurrency = 0 ∨ maxConcurrency > maxForeachConcurrency)
    ((invalid "max_concurrency is out of range").atSpan span)
  let bodyNode ← required fields "body" span
  let bodyFields ← bodyNode.asMap
  let bodyInput ← requiredSchema bodyFields "input_schema" bodyNode.span
  refuseIf (bodyInput ≠ itemSchema) (invalid "foreach body input_schema must match item_schema")
  let bodyOutput ← requiredSchema bodyFields "output_schema" bodyNode.span
  catalog.requireSchema bodyOutput
  let (body, counts) ← compileBody bodyFields bodyNode.span (path ++ [.body])
    { ctx with inputSchema := bodyInput, outputSchema := bodyOutput, inForeach := true } counts
  let itemsNode ← required fields "items" span
  let items ← parseBinding itemsNode
  let nextNode ← required fields "next" span
  let next ← parseNodeKey nextNode
  pure (.foreach items itemSchema maxItems maxConcurrency body next, counts)

/-- The schemas of a body, which the catalog must have. -/
def bodySchemas (fields : DocMap) (span : DocSpan) (catalog : Catalog) :
    Result (SchemaRef × SchemaRef) := do
  let inputSchema ← requiredSchema fields "input_schema" span
  let outputSchema ← requiredSchema fields "output_schema" span
  catalog.requireSchema inputSchema
  catalog.requireSchema outputSchema
  pure (inputSchema, outputSchema)

def compileBranch (compileBody : BodyCompiler) (catalog : Catalog) (path : RegionPath)
    (ctx : RegionCtx) (names : List String) (counts : Nat) (item : Spanned) :
    Result (ParallelBranch × Nat) := do
  let fields ← item.asMap
  rejectUnknown fields ["name", "input", "body"] item.span
  let nameNode ← required fields "name" item.span
  let name ← nameNode.asStr
  refuseIf (validAsciiName name = false ∨ name ∈ names)
    ((invalid s!"invalid or duplicate branch name {name}").atSpan item.span)
  let bodyNode ← required fields "body" item.span
  let bodyFields ← bodyNode.asMap
  let (inputSchema, outputSchema) ← bodySchemas bodyFields bodyNode.span catalog
  let (body, counts) ← compileBody bodyFields bodyNode.span (path ++ [.branch name])
    { ctx with inputSchema, outputSchema } counts
  let inputNode ← required fields "input" item.span
  let input ← parseBinding inputNode
  pure ({ name, input, body }, counts)

/-- The loop over the branches, with the names so far. -/
def compileBranches (compileBody : BodyCompiler) (catalog : Catalog) (path : RegionPath)
    (ctx : RegionCtx) : List String → Nat → List Spanned → Result (List ParallelBranch × Nat)
  | _, counts, [] => pure ([], counts)
  | names, counts, item :: items => do
    let (branch, counts) ← compileBranch compileBody catalog path ctx names counts item
    let (branches, counts) ←
      compileBranches compileBody catalog path ctx (branch.name :: names) counts items
    pure (branch :: branches, counts)

def asItems (message : String) : Spanned → Result (List Spanned)
  | ⟨_, .array items⟩ => pure items
  | ⟨span, _⟩ => throw ((invalid message).atSpan span)

def compileParallel (compileBody : BodyCompiler) (fields : DocMap) (span : DocSpan)
    (catalog : Catalog) (path : RegionPath) (ctx : RegionCtx) (counts : Nat) :
    Result (Node × Nat) := do
  rejectUnknown fields ["kind", "branches", "next"] span
  let branchesNode ← required fields "branches" span
  let items ← asItems "branches must be a sequence" branchesNode
  refuseIf (items = [] ∨ items.length > maxParallelBranches)
    ((invalid "parallel requires 1 to 16 branches").atSpan span)
  let (branches, counts) ← compileBranches compileBody catalog path ctx [] counts items
  let nextNode ← required fields "next" span
  let next ← parseNodeKey nextNode
  pure (.parallel branches next, counts)

def compileCase (compileBody : BodyCompiler) (catalog : Catalog) (path : RegionPath)
    (ctx : RegionCtx) (names : List String) (caseOutput : Option SchemaRef) (counts : Nat)
    (item : Spanned) : Result (ChooseCase × SchemaRef × Nat) := do
  let fields ← item.asMap
  rejectUnknown fields ["name", "when", "body"] item.span
  let nameNode ← required fields "name" item.span
  let name ← nameNode.asStr
  refuseIf (validAsciiName name = false ∨ name ∈ names)
    (invalid s!"invalid or duplicate case name {name}")
  let bodyNode ← required fields "body" item.span
  let bodyFields ← bodyNode.asMap
  let (inputSchema, outputSchema) ← bodySchemas bodyFields bodyNode.span catalog
  refuseIf (caseOutput.any fun expected => expected ≠ outputSchema)
    (invalid "choose cases must share an output schema")
  let (body, counts) ← compileBody bodyFields bodyNode.span (path ++ [.case name])
    { ctx with inputSchema, outputSchema } counts
  let whenNode ← required fields "when" item.span
  let condition ← parseCondition whenNode
  pure ({ name, when := condition, body }, caseOutput.getD outputSchema, counts)

/-- The loop over the cases, with the names and the output schema so far. -/
def compileCases (compileBody : BodyCompiler) (catalog : Catalog) (path : RegionPath)
    (ctx : RegionCtx) : List String → Option SchemaRef → Nat → List Spanned →
      Result (List ChooseCase × Option SchemaRef × Nat)
  | _, caseOutput, counts, [] => pure ([], caseOutput, counts)
  | names, caseOutput, counts, item :: items => do
    let (case, output, counts) ←
      compileCase compileBody catalog path ctx names caseOutput counts item
    let (cases, caseOutput, counts) ←
      compileCases compileBody catalog path ctx (case.name :: names) (some output) counts items
    pure (case :: cases, caseOutput, counts)

def compileChoose (compileBody : BodyCompiler) (fields : DocMap) (span : DocSpan)
    (catalog : Catalog) (path : RegionPath) (ctx : RegionCtx) (counts : Nat) :
    Result (Node × Nat) := do
  rejectUnknown fields ["kind", "input", "cases", "default", "next"] span
  let casesNode ← required fields "cases" span
  let items ← asItems "cases must be a sequence" casesNode
  refuseIf (items = []) ((invalid "choose requires a nonempty cases list").atSpan span)
  let (cases, caseOutput, counts) ← compileCases compileBody catalog path ctx [] none counts items
  let defaultNode ← required fields "default" span
  let defaultFields ← defaultNode.asMap
  let inputSchema ← requiredSchema defaultFields "input_schema" defaultNode.span
  let outputSchema ← requiredSchema defaultFields "output_schema" defaultNode.span
  refuseIf (some outputSchema ≠ caseOutput)
    (invalid "choose default output schema must match cases")
  let (default, counts) ← compileBody defaultFields defaultNode.span (path ++ [.default])
    { ctx with inputSchema, outputSchema } counts
  let inputNode ← required fields "input" span
  let input ← parseBinding inputNode
  let nextNode ← required fields "next" span
  let next ← parseNodeKey nextNode
  pure (.choose input cases default next, counts)

def compileSaga (compileBody : BodyCompiler) (fields : DocMap) (span : DocSpan)
    (catalog : Catalog) (path : RegionPath) (ctx : RegionCtx) (counts : Nat) :
    Result (Node × Nat) := do
  rejectUnknown fields ["kind", "input", "body", "next"] span
  let bodyNode ← required fields "body" span
  let bodyFields ← bodyNode.asMap
  let (inputSchema, outputSchema) ← bodySchemas bodyFields bodyNode.span catalog
  let (body, counts) ← compileBody bodyFields bodyNode.span (path ++ [.body])
    { ctx with inputSchema, outputSchema, inSaga := true } counts
  let inputNode ← required fields "input" span
  let input ← parseBinding inputNode
  let nextNode ← required fields "next" span
  let next ← parseNodeKey nextNode
  pure (.saga input body next, counts)

/-! ## Regions -/

/-- A leaf leaves the number of nodes as it is. -/
def asLeaf (counts : Nat) (leaf : Result Node) : Result (Node × Nat) := do
  let node ← leaf
  pure (node, counts)

def compileNode (compileBody : BodyCompiler) (catalog : Catalog)
    (signals : List (String × SchemaRef)) (path : RegionPath) (ctx : RegionCtx) (counts : Nat)
    (node : Spanned) : Result (Node × Nat) := do
  let fields ← node.asMap
  let kindNode ← required fields "kind" node.span
  let kind ← kindNode.asStr
  if kind = "activity" then asLeaf counts (compileActivity fields node.span catalog ctx)
  else if kind = "choose" then compileChoose compileBody fields node.span catalog path ctx counts
  else if kind = "delay" then asLeaf counts (compileDelay fields node.span)
  else if kind = "wait_until" then asLeaf counts (compileWaitUntil fields node.span)
  else if kind = "wait_signal" then asLeaf counts (compileWaitSignal fields node.span signals)
  else if kind = "complete" then asLeaf counts (compileComplete fields node.span)
  else if kind = "fail" then asLeaf counts (compileFail fields node.span)
  else if kind = "while" then
    compileLoop compileBody fields node.span catalog path ctx counts .while
  else if kind = "do_while" then
    compileLoop compileBody fields node.span catalog path ctx counts .doWhile
  else if kind = "repeat" then
    compileLoop compileBody fields node.span catalog path ctx counts .repeat
  else if kind = "foreach" then compileForeach compileBody fields node.span catalog path ctx counts
  else if kind = "parallel" then
    compileParallel compileBody fields node.span catalog path ctx counts
  else if kind = "saga" then compileSaga compileBody fields node.span catalog path ctx counts
  else throw ((invalid s!"unknown node kind {kind}").atSpan node.span)

/-- The loop over the nodes of a region. -/
def compileNodes (compileBody : BodyCompiler) (catalog : Catalog)
    (signals : List (String × SchemaRef)) (path : RegionPath) (ctx : RegionCtx) :
    List (String × Node) → Nat → DocMap → Result (List (String × Node) × Nat)
  | nodes, counts, [] => pure (nodes, counts)
  | nodes, counts, (key, node) :: rest => do
    let parsed ← NodeKey.parse key
    let (compiled, counts) ← compileNode compileBody catalog signals (path ++ [.node key]) ctx
      (counts + 1) node
    compileNodes compileBody catalog signals path ctx (mapInsert parsed compiled nodes) counts rest

/-- The compiler of a region that may have so many levels, itself included. -/
def compileRegion (catalog : Catalog) (signals : List (String × SchemaRef)) (isRoot : Bool) :
    Nat → BodyCompiler
  | 0 => fun _ span _ _ _ => throw ((invalid "region nesting exceeds 8").atSpan span)
  | levels + 1 => fun fields span path ctx counts => do
    rejectUnknown fields (if isRoot then workflowFields else regionFields) span
    let startNode ← required fields "start" span
    let start ← parseNodeKey startNode
    let nodesNode ← required fields "nodes" span
    let nodesFields ← nodesNode.asMap
    let (nodes, counts) ← compileNodes (compileRegion catalog signals false levels) catalog signals
      path ctx [] counts nodesFields
    refuseIf ((mapGet nodes start).isNone)
      ((invalid s!"start node {start} is missing").atSpan span)
    let region : Region := {
      path, inputSchema := ctx.inputSchema, outputSchema := ctx.outputSchema, start, nodes }
    analyzeRegion region ctx
    pure (region, counts)

/-! ## Definitions -/

def parseRunTimeout : Option Spanned → Result (Option Nat)
  | some node => do
    let text ← node.asStr
    let duration ← parseDuration text
    let ms ← durationToMillis duration
    pure (some ms)
  | none => pure none

def compileSignal (catalog : Catalog) (name : String) (spec : Spanned) : Result SchemaRef := do
  refuseIf (validAsciiName name = false) (invalid s!"invalid signal name {name}")
  let fields ← spec.asMap
  rejectUnknown fields ["schema"] spec.span
  let schema ← requiredSchema fields "schema" spec.span
  catalog.requireSchema schema
  pure schema

def compileSignals (catalog : Catalog) : Option Spanned → Result (List (String × SchemaRef))
  | none => pure []
  | some node => do
    let fields ← node.asMap
    fields.foldlM (fun signals e => do
      let schema ← compileSignal catalog e.1 e.2
      pure (mapInsert e.1 schema signals)) []

def compileSpanned (env : Env) (root : Spanned) (catalog : Catalog) : Result Definition := do
  let fields ← root.asMap
  rejectUnknown fields workflowFields root.span
  let dslNode ← required fields "dsl" root.span
  let dsl ← dslNode.asStr
  refuseIf (dsl ≠ dslName) ((invalid s!"unsupported dsl {dsl}").atSpan root.span)
  let idNode ← required fields "id" root.span
  let id ← idNode.asStr
  refuseIf (validAsciiName id = false) (invalid s!"invalid workflow id {id}")
  let versionNode ← required fields "version" root.span
  let version ← versionNode.asU32
  refuseIf (version = 0) (invalid "workflow version must be positive")
  let inputSchema ← requiredSchema fields "input_schema" root.span
  let outputSchema ← requiredSchema fields "output_schema" root.span
  catalog.requireSchema inputSchema
  catalog.requireSchema outputSchema
  let runTimeoutMs ← parseRunTimeout (mapGet fields "run_timeout")
  refuseIf (runTimeoutMs.any fun ms => ms > maxRunTimeoutMs)
    (invalid "run_timeout exceeds 365 days")
  let signals ← compileSignals catalog (mapGet fields "signals")
  let (region, counts) ← compileRegion catalog signals true maxNesting fields root.span [.root]
    { inputSchema, outputSchema } 0
  refuseIf (counts > maxNodes) (invalid "definition exceeds 512 nodes")
  let definition : Definition := {
    formatVersion, dsl := dslName, id, version, inputSchema, outputSchema, signals, runTimeoutMs
    root := region, digest := "" }
  let digest ← digestOf env definition
  pure { definition with digest }

end Graphrun
