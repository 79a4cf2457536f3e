import Graphrun.Model.Definition

/-!
# Static analysis of regions

The checks that every region of a definition passes before it may run (`compiler.rs`,
`analyze_region`): edges lead to existing nodes, no cycle is reachable from the start node,
every node is reachable, and a binding refers only to outputs that are available on every
path to its node.
-/

namespace Graphrun

open Lib

/-! ## Bindings and conditions -/

mutual
def Binding.depth : Binding → Nat
  | .from _ _ | .literal _ => 1
  | .object fields => 1 + Binding.depthFields fields
  | .array items => 1 + Binding.depthItems items
def Binding.depthFields : List (String × Binding) → Nat
  | [] => 0
  | (_, b) :: rest => max b.depth (Binding.depthFields rest)
def Binding.depthItems : List Binding → Nat
  | [] => 0
  | b :: rest => max b.depth (Binding.depthItems rest)
end

mutual
def Binding.references : Binding → List Reference
  | .from reference _ => [reference]
  | .literal _ => []
  | .object fields => Binding.referencesFields fields
  | .array items => Binding.referencesItems items
def Binding.referencesFields : List (String × Binding) → List Reference
  | [] => []
  | (_, b) :: rest => b.references ++ Binding.referencesFields rest
def Binding.referencesItems : List Binding → List Reference
  | [] => []
  | b :: rest => b.references ++ Binding.referencesItems rest
end

mutual
def Condition.operatorCount : Condition → Nat
  | .all items | .any items => 1 + Condition.operatorCounts items
  | .not inner => 1 + inner.operatorCount
  | _ => 1
def Condition.operatorCounts : List Condition → Nat
  | [] => 0
  | c :: rest => c.operatorCount + Condition.operatorCounts rest
end

mutual
def Condition.bindings : Condition → List Binding
  | .eq left right | .ne left right | .lt left right | .le left right | .gt left right
  | .ge left right => [left, right]
  | .all items | .any items => Condition.bindingsItems items
  | .not inner => inner.bindings
  | .exists binding => [binding]
def Condition.bindingsItems : List Condition → List Binding
  | [] => []
  | c :: rest => c.bindings ++ Condition.bindingsItems rest
end

def Reference.asStable : Reference → String
  | .workflowInput => "workflow.input"
  | .scopeInput => "scope.input"
  | .scopeId => "scope.id"
  | .nodeOutput node => s!"nodes.{node}.output"
  | .loopState => "loop.state"
  | .loopIndex => "loop.index"
  | .itemValue => "item.value"
  | .itemIndex => "item.index"
  | .forwardInput => "forward.input"
  | .forwardOutput => "forward.output"

/-! ## Edges -/

inductive Edge where
  | next
  | timeout
  deriving DecidableEq, Repr

/-- The labelled edges of a node. -/
def Node.edges : Node → List (Edge × NodeKey)
  | .activity _ _ _ _ _ next | .choose _ _ _ next | .delay _ next | .waitUntil _ next
  | .while _ _ _ _ _ next | .doWhile _ _ _ _ _ next | .repeat _ _ _ _ _ next
  | .foreach _ _ _ _ _ next | .parallel _ next | .saga _ _ next => [(.next, next)]
  | .waitSignal _ _ _ _ next onTimeout =>
    (.next, next) :: (onTimeout.map fun target => (Edge.timeout, target)).toList
  | .complete _ | .fail _ => []

/-- The edges that leave a key of a region. -/
def Region.outgoing (region : Region) (key : NodeKey) : List (Edge × NodeKey) :=
  ((region.node? key).map Node.edges).getD []

/-- The conditions that a node evaluates. -/
def Node.conditions : Node → List Condition
  | .while _ _ condition _ _ _ | .doWhile _ _ condition _ _ _ => [condition]
  | .choose _ cases _ _ => cases.map (·.when)
  | _ => []

/-- The checks of one node on its own. -/
def checkNode (region : Region) (key : NodeKey) (node : Node) : Result Unit := do
  match node.edges.find? fun e => (region.node? e.2).isNone with
  | some (_, target) => throw (invalid s!"node {key} points at missing target {target}")
  | none => pure ()
  match node with
  | .waitSignal _ waitKey _ _ _ _ =>
    refuseIf (waitKey.depth > maxDataDepth) (invalid "binding exceeds maximum depth")
  | _ => pure ()
  refuseIf (node.conditions.any fun c => c.operatorCount > maxConditionOps)
    (invalid "condition exceeds operator limit")

/-! ## Cycles -/

/-- The nodes a depth-first search is inside of, and those it has expanded. -/
structure Visited where
  onStack : List NodeKey
  seen : List NodeKey

/-- `visit`; the search goes no deeper than there are nodes, which the fuel bounds. -/
def visit (region : Region) : Nat → NodeKey → Visited → Result Visited
  | 0, key, _ => throw (invalid s!"cycle through node {key}")
  | fuel + 1, key, v =>
    if key ∈ v.onStack then throw (invalid s!"cycle through node {key}")
    else if key ∈ v.seen then pure v
    else do
      let after ← (region.outgoing key).foldlM (fun v edge => visit region fuel edge.2 v)
        { onStack := key :: v.onStack, seen := key :: v.seen }
      pure { onStack := after.onStack.erase key, seen := after.seen }

def detectCycle (region : Region) : Result Unit := do
  let _ ← visit region (region.nodes.length + 1) region.start { onStack := [], seen := [] }
  pure ()

/-! ## Availability -/

/-- What encloses a region. -/
structure RegionCtx where
  inputSchema : SchemaRef
  outputSchema : SchemaRef
  inLoop : Bool := false
  inForeach : Bool := false
  inSaga : Bool := false
  inCompensation : Bool := false

/-- The references that are available at the start of a region. -/
def RegionCtx.base (ctx : RegionCtx) : List Reference :=
  [.workflowInput, .scopeInput, .scopeId] ++
    (if ctx.inLoop then [.loopState, .loopIndex] else []) ++
    (if ctx.inForeach then [.itemValue, .itemIndex] else []) ++
    (if ctx.inCompensation then [.forwardInput, .forwardOutput] else [])

/-- The output a node leaves when it succeeds. -/
def successOutput (key : NodeKey) : Node → Option Reference
  | .fail _ | .delay _ _ | .waitUntil _ _ | .complete _ => none
  | _ => some (.nodeOutput key)

def Node.isLoop : Node → Bool
  | .while .. | .doWhile .. | .repeat .. => true
  | _ => false

def Node.isForeach : Node → Bool
  | .foreach .. => true
  | _ => false

def Node.hasCompensation : Node → Bool
  | .activity _ _ _ _ (some _) _ => true
  | _ => false

/-- The bindings that a node evaluates. -/
def Node.bindings : Node → List Binding
  | .activity _ input _ _ (some (.activity _ compensation _ _)) _ => [input, compensation]
  | .activity _ input _ _ _ _ => [input]
  | .choose input cases _ _ => input :: cases.flatMap fun case => case.when.bindings
  | .delay duration _ => [duration]
  | .waitUntil at_ _ => [at_]
  | .waitSignal _ key _ _ _ _ => [key]
  | .complete output => [output]
  | .while state _ condition _ _ _ | .doWhile state _ condition _ _ _ =>
    state :: condition.bindings
  | .repeat count state _ _ _ _ => [count, state]
  | .foreach items _ _ _ _ _ => [items]
  | .parallel branches _ => branches.map (·.input)
  | .saga input _ _ => [input]
  | .fail _ => []

/-- Whether a node may use a reference. -/
def checkReference (node : Node) (available : List Reference) (ctx : RegionCtx) :
    Reference → Result Unit
  | .loopState | .loopIndex =>
    refuseIf (ctx.inLoop = false ∧ node.isLoop = false)
      (invalid "loop context reference used outside a loop")
  | .itemValue | .itemIndex =>
    refuseIf (ctx.inForeach = false ∧ node.isForeach = false)
      (invalid "item context reference used outside foreach")
  | .forwardInput | .forwardOutput =>
    refuseIf (ctx.inCompensation = false ∧ node.hasCompensation = false)
      (invalid "forward context reference used outside compensation")
  | .nodeOutput key =>
    refuseIf (.nodeOutput key ∉ available)
      (invalid
        s!"reference {(Reference.nodeOutput key).asStable} is not available on every incoming path")
  | _ => pure ()

def checkBinding (node : Node) (available : List Reference) (ctx : RegionCtx)
    (binding : Binding) : Result Unit := do
  refuseIf (binding.depth > maxDataDepth) (invalid "binding exceeds maximum depth")
  binding.references.forM (checkReference node available ctx)

def checkBindings (node : Node) (available : List Reference) (ctx : RegionCtx) : Result Unit :=
  node.bindings.forM (checkBinding node available ctx)

/-- The work list of the availability analysis. -/
structure Flow where
  pending : List NodeKey
  seen : List NodeKey
  atNode : List (NodeKey × List Reference)

/-- The references that are available at a key. -/
def Flow.availableAt (ctx : RegionCtx) (flow : Flow) (key : NodeKey) : List Reference :=
  (mapGet flow.atNode key).getD ctx.base

/-- Lets an edge carry its references to its target. -/
def Flow.carry (ctx : RegionCtx) (key : NodeKey) (node : Node) (flow : Flow)
    (edge : Edge × NodeKey) : Flow :=
  let available := flow.availableAt ctx key
  let nextAvail := match edge.1, successOutput key node with
    | .next, some output => output :: available
    | _, _ => available
  let entry := (mapGet flow.atNode edge.2).getD nextAvail
  { flow with
    atNode := mapInsert edge.2 (entry.filter fun r => r ∈ nextAvail) flow.atNode
    pending := edge.2 :: flow.pending }

/-- The loop over the work list; every key is expanded once, so that the number of pops is
bounded by the number of edges. -/
def flowLoop (region : Region) (ctx : RegionCtx) : Nat → Flow → Result Flow
  | 0, flow => pure flow
  | fuel + 1, flow =>
    match flow.pending with
    | [] => pure flow
    | key :: pending =>
      if key ∈ flow.seen then flowLoop region ctx fuel { flow with pending }
      else do
        let node ← okOr (region.node? key) .panicked
        checkBindings node (flow.availableAt ctx key) ctx
        let marked : Flow := { flow with pending, seen := key :: flow.seen }
        flowLoop region ctx fuel (node.edges.foldl (Flow.carry ctx key node) marked)

def analyzeRegion (region : Region) (ctx : RegionCtx) : Result Unit := do
  region.nodes.forM fun e => checkNode region e.1 e.2
  detectCycle region
  let flow ← flowLoop region ctx (2 * region.nodes.length + 2) {
    pending := [region.start], seen := [], atNode := [(region.start, ctx.base)] }
  refuseIf (flow.seen.length ≠ region.nodes.length) (invalid "region contains unreachable nodes")

/-! ## Nested regions -/

/-- The context of a body inside a context. -/
def RegionCtx.inside (ctx : RegionCtx) (body : Region) : RegionCtx :=
  { ctx with inputSchema := body.inputSchema, outputSchema := body.outputSchema }

mutual
def analyzeTree (ctx : RegionCtx) : Region → Result Unit
  | ⟨path, inputSchema, outputSchema, start, nodes⟩ => do
    analyzeRegion ⟨path, inputSchema, outputSchema, start, nodes⟩ ctx
    analyzeNodes ctx nodes
def analyzeNodes (ctx : RegionCtx) : List (String × Node) → Result Unit
  | [] => pure ()
  | (_, node) :: rest => do
    analyzeNode ctx node
    analyzeNodes ctx rest
def analyzeNode (ctx : RegionCtx) : Node → Result Unit
  | .while _ _ _ _ body _ | .doWhile _ _ _ _ body _ | .repeat _ _ _ _ body _ =>
    analyzeTree { ctx.inside body with inLoop := true } body
  | .foreach _ _ _ _ body _ => analyzeTree { ctx.inside body with inForeach := true } body
  | .saga _ body _ => analyzeTree { ctx.inside body with inSaga := true } body
  | .parallel branches _ => analyzeBranches ctx branches
  | .choose _ cases default _ => do
    analyzeCases ctx cases
    analyzeTree (ctx.inside default) default
  | _ => pure ()
def analyzeBranches (ctx : RegionCtx) : List ParallelBranch → Result Unit
  | [] => pure ()
  | ⟨_, _, body⟩ :: rest => do
    analyzeTree (ctx.inside body) body
    analyzeBranches ctx rest
def analyzeCases (ctx : RegionCtx) : List ChooseCase → Result Unit
  | [] => pure ()
  | ⟨_, _, body⟩ :: rest => do
    analyzeTree (ctx.inside body) body
    analyzeCases ctx rest
end

def validateDefinition (definition : Definition) : Result Unit :=
  analyzeTree { inputSchema := definition.inputSchema, outputSchema := definition.outputSchema }
    definition.root

/-! ## Compensations -/

/-- What `compile_activity` asks of the compensation of an activity. -/
def checkCompensation (catalog : Catalog) (inSaga : Bool) (activity : ActivityKey)
    (compensation : Option Compensation) : Result Unit := do
  let contract ← catalog.activity activity
  match compensation with
  | some _ => refuseIf (inSaga = false) (invalid "compensation is only valid inside a saga")
  | none =>
    refuseIf (inSaga = true ∧ contract.effects = .external)
      (invalid "external activity inside a saga requires compensation or irreversible")

mutual
def checkCompensations (catalog : Catalog) (inSaga : Bool) : Region → Result Unit
  | ⟨_, _, _, _, nodes⟩ => checkCompensationsNodes catalog inSaga nodes
def checkCompensationsNodes (catalog : Catalog) (inSaga : Bool) :
    List (String × Node) → Result Unit
  | [] => pure ()
  | (_, node) :: rest => do
    checkCompensationsNode catalog inSaga node
    checkCompensationsNodes catalog inSaga rest
def checkCompensationsNode (catalog : Catalog) (inSaga : Bool) : Node → Result Unit
  | .activity activity _ _ _ compensation _ =>
    checkCompensation catalog inSaga activity compensation
  | .while _ _ _ _ body _ | .doWhile _ _ _ _ body _ | .repeat _ _ _ _ body _
  | .foreach _ _ _ _ body _ => checkCompensations catalog inSaga body
  | .saga _ body _ => checkCompensations catalog true body
  | .parallel branches _ => checkCompensationsBranches catalog inSaga branches
  | .choose _ cases default _ => do
    checkCompensationsCases catalog inSaga cases
    checkCompensations catalog inSaga default
  | _ => pure ()
def checkCompensationsBranches (catalog : Catalog) (inSaga : Bool) :
    List ParallelBranch → Result Unit
  | [] => pure ()
  | ⟨_, _, body⟩ :: rest => do
    checkCompensations catalog inSaga body
    checkCompensationsBranches catalog inSaga rest
def checkCompensationsCases (catalog : Catalog) (inSaga : Bool) : List ChooseCase → Result Unit
  | [] => pure ()
  | ⟨_, _, body⟩ :: rest => do
    checkCompensations catalog inSaga body
    checkCompensationsCases catalog inSaga rest
end

end Graphrun
