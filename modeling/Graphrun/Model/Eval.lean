import Graphrun.Model.State

/-!
# Regions, owners and evaluation

Reading functions of the engine: the region a scope executes (`lookup_region`), the saga
that encloses a scope (`saga_owner_from_scope`), and the evaluation of bindings and
conditions in the context of a scope. Both walks climb from a scope to the scope of its
parent activation; the source recurses, here the climb has fuel, one step for every scope
of the state.
-/

namespace Graphrun

open Lib

/-- Errors become `none`; a panic stays a panic. -/
def attempt {α : Type} : Result α → Result (Option α)
  | .ok a => .ok (some a)
  | .error (.error _) => .ok none
  | .error .panicked => .error .panicked

/-! ## Climbing the scope tree -/

/-- The body of a loop or saga node. -/
def Node.body? : Node → Option Region
  | .while _ _ _ _ body _ | .doWhile _ _ _ _ body _ | .repeat _ _ _ _ body _
  | .foreach _ _ _ _ body _ | .saga _ body _ => some body
  | _ => none

/-- The body of a named branch of a parallel node. -/
def Node.branchBody? (name : String) : Node → Option Region
  | .parallel branches _ => (branches.find? fun b => b.name = name).map (·.body)
  | _ => none

/-- The body of a named case of a choose node, or of its default. -/
def Node.caseBody? (name : String) : Node → Option Region
  | .choose _ cases default _ =>
    if name = "default" then some default
    else (cases.find? fun c => c.name = name).map (·.body)
  | _ => none

/-- The region that a parent node runs in a scope of the given role. -/
def bodyRegion (role : ScopeRole) (node : Node) : Option Region :=
  match role with
  | .root => none
  | .loopBody _ _ | .foreachItem _ _ | .sagaBody _ => node.body?
  | .parallelBranch _ name => node.branchBody? name
  | .chooseBody _ name => node.caseBody? name

/-- The activation whose node a scope runs; the root scope has none. -/
def ScopeRole.activation? : ScopeRole → Option ActivationId
  | .root => none
  | .loopBody activation _ | .foreachItem activation _ | .parallelBranch activation _
  | .chooseBody activation _ | .sagaBody activation => some activation

/-- `lookup_region`, climbing at most `fuel` scopes. -/
def lookupRegion (s : Core) : Nat → ScopeId → Option Region
  | 0, _ => none
  | fuel + 1, scope => do
    let scopeState ← s.scopes.lookup scope
    let run ← s.runs.lookup scopeState.run
    match scopeState.role.activation? with
    | none => some run.definition.root
    | some activation => do
      let parent ← s.activations.lookup activation
      let parentRegion ← lookupRegion s fuel parent.scope
      let node ← parentRegion.node? parent.node
      bodyRegion scopeState.role node

def regionForScope (s : Core) (scope : ScopeId) : Option Region :=
  lookupRegion s s.scopes.entries.length scope

/-- The node an activation stands at. -/
def nodeOf (s : Core) (scope : ScopeId) (node : NodeKey) : Option Node :=
  (regionForScope s scope).bind (·.node? node)

def Node.isActivity : Node → Bool
  | .activity .. => true
  | _ => false

def Node.isSaga : Node → Bool
  | .saga .. => true
  | _ => false

def isActivityNode (s : Core) (scope : ScopeId) (node : NodeKey) : Bool :=
  (nodeOf s scope node).any Node.isActivity

/-- `saga_owner_from_scope`, climbing at most `fuel` scopes. -/
def sagaOwnerFromScope (s : Core) (skip : Option ActivationId) : Nat → ScopeId → Option ActivationId
  | 0, _ => none
  | fuel + 1, scopeId => do
    let scope ← s.scopes.lookup scopeId
    let above : Option ActivationId := do
      let parentAct ← scope.parent
      let parent ← s.activations.lookup parentAct
      sagaOwnerFromScope s skip fuel parent.scope
    match scope.role with
    | .sagaBody activation => if skip = some activation then above else some activation
    | _ => above

def parentSaga (s : Core) (saga : ActivationId) : Option ActivationId := do
  let act ← s.activations.lookup saga
  sagaOwnerFromScope s (some saga) s.scopes.entries.length act.scope

def sagaOwner (s : Core) (forward : ActivationId) : Option ActivationId := do
  let act ← s.activations.lookup forward
  sagaOwnerFromScope s none s.scopes.entries.length act.scope

/-! ## Evaluation -/

structure EvalCtx where
  workflowInput : Value
  scopeInput : Value
  scopeId : String
  nodeOutputs : List (String × Value)
  loopState : Option Value
  loopIndex : Option Int
  itemValue : Option Value
  itemIndex : Option Int
  forwardInput : Option Value := none
  forwardOutput : Option Value := none

def evalCtx (s : Core) (scope : ScopeState) : Result EvalCtx := do
  let run ← okOr (s.runs.lookup scope.run) .panicked
  let loopState : Option Value := match scope.role with
    | .loopBody activation _ => some (((s.loopCarry.lookup activation).map (·.1)).getD scope.input)
    | _ => none
  let loopIndex : Option Int := match scope.role with
    | .loopBody _ index => some index
    | _ => none
  let itemValue : Option Value := match scope.role with
    | .foreachItem _ _ => some scope.input
    | _ => none
  let itemIndex : Option Int := match scope.role with
    | .foreachItem _ index => some index
    | _ => none
  pure {
    workflowInput := run.input
    scopeInput := scope.input
    scopeId := scope.id.toHex
    nodeOutputs := scope.outputs
    loopState, loopIndex, itemValue, itemIndex }

def evalRef (ctx : EvalCtx) : Reference → Result Value
  | .workflowInput => pure ctx.workflowInput
  | .scopeInput => pure ctx.scopeInput
  | .scopeId => pure (.string ctx.scopeId)
  | .nodeOutput node => okOr (mapGet ctx.nodeOutputs node) (invalid s!"missing output {node}")
  | .loopState => okOr ctx.loopState (invalid "loop.state is not in context")
  | .loopIndex => .int <$> okOr ctx.loopIndex (invalid "loop.index is not in context")
  | .itemValue => okOr ctx.itemValue (invalid "item.value is not in context")
  | .itemIndex => .int <$> okOr ctx.itemIndex (invalid "item.index is not in context")
  | .forwardInput => okOr ctx.forwardInput (invalid "forward.input is not in context")
  | .forwardOutput => okOr ctx.forwardOutput (invalid "forward.output is not in context")

mutual
def evalBinding (ctx : EvalCtx) : Binding → Result Value
  | .literal value => pure value
  | .from reference path => do
    let value ← evalRef ctx reference
    match path with
    | some pointer => value.pointer pointer
    | none => pure value
  | .object fields => .object <$> evalFields ctx fields
  | .array items => .array <$> evalItems ctx items
def evalFields (ctx : EvalCtx) : List (String × Binding) → Result (List (String × Value))
  | [] => pure []
  | (k, b) :: rest => do
    let value ← evalBinding ctx b
    let others ← evalFields ctx rest
    pure ((k, value) :: others)
def evalItems (ctx : EvalCtx) : List Binding → Result (List Value)
  | [] => pure []
  | b :: rest => do
    let value ← evalBinding ctx b
    let others ← evalItems ctx rest
    pure (value :: others)
end

def cmpNum (ctx : EvalCtx) (left right : Binding) (op : Int → Int → Bool) : Result Bool := do
  let a ← evalBinding ctx left
  let a ← okOr a.asI64 (invalid "numeric comparison requires integers")
  let b ← evalBinding ctx right
  let b ← okOr b.asI64 (invalid "numeric comparison requires integers")
  pure (op a b)

mutual
def evalCondition (ctx : EvalCtx) : Condition → Result Bool
  | .eq left right => do
    let a ← evalBinding ctx left
    let b ← evalBinding ctx right
    pure (decide (a = b))
  | .ne left right => do
    let a ← evalBinding ctx left
    let b ← evalBinding ctx right
    pure (decide (a ≠ b))
  | .lt left right => cmpNum ctx left right fun a b => decide (a < b)
  | .le left right => cmpNum ctx left right fun a b => decide (a ≤ b)
  | .gt left right => cmpNum ctx left right fun a b => decide (a > b)
  | .ge left right => cmpNum ctx left right fun a b => decide (a ≥ b)
  | .all items => evalAll ctx items
  | .any items => evalAny ctx items
  | .not inner => do
    let b ← evalCondition ctx inner
    pure (!b)
  | .exists binding =>
    match evalBinding ctx binding with
    | .ok _ => pure true
    | .error _ => pure false
def evalAll (ctx : EvalCtx) : List Condition → Result Bool
  | [] => pure true
  | item :: rest => do
    let b ← evalCondition ctx item
    if b then evalAll ctx rest else pure false
def evalAny (ctx : EvalCtx) : List Condition → Result Bool
  | [] => pure false
  | item :: rest => do
    let b ← evalCondition ctx item
    if b then pure true else evalAny ctx rest
end

/-- `parse_duration`; durations are whole milliseconds. -/
def parseDuration (text : String) : Result Nat := do
  let digits := text.toList.takeWhile Char.isDigit
  let unit := text.toList.dropWhile Char.isDigit
  refuseIf (unit = []) (invalid s!"duration {text} is missing a unit")
  refuseIf (digits = []) (invalid s!"duration {text} has no integer")
  let n ← okOr (parseUsize digits) (invalid s!"duration {text} is not a positive integer")
  refuseIf (n = 0) (invalid s!"duration {text} must be positive")
  let unit := String.ofList unit
  if unit = "ms" then pure n
  else if unit = "s" then pure (n * 1000)
  else if unit = "m" then pure (satMul n 60 * 1000)
  else if unit = "h" then pure (satMul n (60 * 60) * 1000)
  else if unit = "d" then pure (satMul n (60 * 60 * 24) * 1000)
  else throw (invalid s!"unknown duration unit {unit}")

def durationToMillis (ms : Nat) : Result Nat := do
  refuseIf (ms = 0 ∨ ms > u64Max) (invalid "duration is out of range")
  pure ms

def evalDurationMs (ctx : EvalCtx) (binding : Binding) : Result Nat := do
  let value ← evalBinding ctx binding
  match value with
  | .int v =>
    if v > 0 then pure v.toNat
    else throw (invalid "duration must be a positive integer ms or string")
  | .string text => do
    let duration ← parseDuration text
    durationToMillis duration
  | _ => throw (invalid "duration must be a positive integer ms or string")

/-! ## The activity behind an activation -/

def Obligation.isCompensating (item : Obligation) (activation : ActivationId) : Bool :=
  item.status = .compensating activation

/-- The obligation that an activation compensates. -/
def compensatedBy (s : Core) (activation : ActivationId) : Option Obligation :=
  s.obligations.find? (·.isCompensating activation)

/-- Activity and bound input of a forward activation's node. -/
def forwardActivity (s : Core) (act : ActivationState) : Result (Option (ActivityKey × Value)) :=
  match nodeOf s act.scope act.node with
  | some (.activity activity input _ _ _ _) =>
    match s.scopes.lookup act.scope with
    | none => pure none
    | some scope => do
      let ctx ← evalCtx s scope
      let bound ← attempt (evalBinding ctx input)
      pure (bound.map fun value => (activity, value))
  | _ => pure none

/-- `activity_key`: the handler that answers for an activation, with its input. -/
def activityKey (s : Core) (activation : ActivationId) :
    Result (Option (ActivityKey × Value)) :=
  match s.activations.lookup activation with
  | none => pure none
  | some act =>
    if act.claim.any (fun claim => claim.role = .reconciliation) then do
      let forward ← forwardActivity s act
      match forward with
      | none => pure none
      | some (activity, bound) =>
        match s.runs.lookup act.run with
        | none => pure none
        | some run => do
          let contract ← attempt (run.catalog.activity activity)
          pure (contract.bind fun c => c.reconciler.map fun key => (key, bound))
    else if act.role = .compensation then
      pure ((compensatedBy s activation).map fun item =>
        (⟨item.handler, item.handlerVersion⟩, item.input))
    else forwardActivity s act

end Graphrun
