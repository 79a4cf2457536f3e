import Graphrun.Model.Env
import Mathlib.Data.List.Sort

/-!
# Opening, closing and failing scopes

Event producers that the decisions share: following an edge, completing and failing a
scope, closing the pending waits of a run, starting a compensation. A function that draws
new identities returns the generator it leaves behind. A function that walks over a table
takes the enumeration of that walk.
-/

namespace Graphrun

open Lib

/-- Events of a decision step together with the identity source it leaves. -/
abbrev Emission := List DomainEvent × IdGen

/-! ## Questions about the state -/

def childrenOf (o : Enumeration) (s : Core) (parent : ActivationId) : List ScopeState :=
  (o.values s.scopes).filter fun scope => scope.parent = some parent

/-- The position of a child among its siblings. -/
def childIndex (child : ScopeState) : Nat :=
  match child.role with
  | .loopBody _ index | .foreachItem _ index => index
  | _ => 0

/-- The open child of an activation, otherwise the one with the highest index. -/
def childOf (o : Enumeration) (s : Core) (parent : ActivationId) : Option ScopeState :=
  let children := childrenOf o s parent
  match children.find? fun child => child.status = .open with
  | some child => some child
  | none => (children.insertionSort fun a b => childIndex a ≤ childIndex b).getLast?

/-- A forward activation whose effect may still happen. -/
def isUncertain (s : Core) (act : ActivationState) : Bool :=
  act.role = .forward ∧ act.status = .ready ∧
    (act.claim.isSome ∨ (s.interventions.lookup act.id).isSome)

def uncertainForwards (o : Enumeration) (s : Core) (run : RunId) : Bool :=
  (o.values s.activations).any fun act => act.run = run ∧ isUncertain s act

def runIsAborting (o : Enumeration) (s : Core) (run : RunId) : Bool :=
  (o.keys s.sagaErrors).any fun saga => (s.activations.lookup saga).any fun act => act.run = run

def runPastDeadline (s : Core) (run : RunId) (time : Nat) : Bool :=
  match s.runs.lookup run with
  | none => false
  | some runState =>
    match runState.policy.runTimeoutMs with
    | none => false
    | some ms => runState.admittedMs ≠ 0 ∧ time ≥ satAdd runState.admittedMs ms

/-- Whether an activation has a pending wait. -/
def hasPendingWait (o : Enumeration) (s : Core) (activation : ActivationId) : Bool :=
  (o.values s.waits).any fun wait => wait.activation = activation ∧ wait.pending

def RunStatus.isActive : RunStatus → Bool
  | .active => true
  | _ => false

def ScopeStatus.isFailed : ScopeStatus → Bool
  | .failed _ => true
  | _ => false

/-! ## Edges -/

def openNode (env : Env) (s : Core) (scope : ScopeId) (node : NodeKey) (ids : IdGen) :
    Result Emission := do
  let scopeState ← okOr (s.scopes.lookup scope) .panicked
  let (activation, ids) := ids.activation env
  pure ([.activationOpened scopeState.run scope activation node], ids)

/-- The target of a node's `next` edge. -/
def Node.next? : Node → Option NodeKey
  | .activity _ _ _ _ _ next | .choose _ _ _ next | .delay _ next | .waitUntil _ next
  | .while _ _ _ _ _ next | .doWhile _ _ _ _ _ next | .repeat _ _ _ _ _ next
  | .foreach _ _ _ _ _ next | .parallel _ next | .saga _ _ next
  | .waitSignal _ _ _ _ next _ => some next
  | .complete _ | .fail _ => none

def followNext (env : Env) (s : Core) (scope : ScopeId) (node : NodeKey) (ids : IdGen) :
    Result Emission := do
  let region ← okOr (regionForScope s scope) (invalid "missing region")
  let from_ ← okOr (region.node? node) .panicked
  match from_.next? with
  | none => pure ([], ids)
  | some next => openNode env s scope next ids

def followTimeout (env : Env) (s : Core) (act : ActivationState) (ids : IdGen) :
    Result Emission := do
  let region ← okOr (regionForScope s act.scope) (invalid "missing region")
  let node ← okOr (region.node? act.node) .panicked
  match node with
  | .waitSignal _ _ _ _ _ (some next) => openNode env s act.scope next ids
  | _ => throw (invalid "wait has no timeout edge")

/-! ## Ends of scopes -/

def completeScope (scope : ScopeState) (output : Value) : List DomainEvent :=
  .scopeCompleted scope.run scope.id output ::
    match scope.role with
    | .root => [.runSucceeded scope.run output]
    | _ => []

/-- What closing one pending wait records. -/
def cancelWait (s : Core) (run : RunId) (wait : WaitState) : List DomainEvent :=
  let released := match s.inbox.find? fun entry =>
      entry.reservedWait = some wait.id ∧ entry.consumed = false with
    | some entry => [DomainEvent.reservationReleased wait.id entry.eventId]
    | none => []
  released ++ [.waitCancelled run wait.id]

def closePendingWaits (o : Enumeration) (s : Core) (run : RunId) : List DomainEvent :=
  let waits := (o.values s.waits).filter fun wait => wait.run = run ∧ wait.pending
  (waits.insertionSort fun a b => a.id.bytes ≤ b.id.bytes).flatMap (cancelWait s run)

def failScope (o : Enumeration) (s : Core) (scope : ScopeId) (error : FailError) :
    Result (List DomainEvent) := do
  let scopeState ← okOr (s.scopes.lookup scope) .panicked
  if scopeState.status.isFailed then pure []
  else if scopeState.role = .root then
    pure (closePendingWaits o s scopeState.run ++
      [.scopeFailed scopeState.run scope error, .runFailed scopeState.run error])
  else pure [.scopeFailed scopeState.run scope error]

/-! ## Sagas -/

def ObligationStatus.isCompensating : ObligationStatus → Bool
  | .compensating _ => true
  | _ => false

def compensatingInFlight (s : Core) (saga : ActivationId) : Bool :=
  s.obligations.any fun item => item.owner = saga ∧ item.status.isCompensating

def ObligationStatus.isBlocked : ObligationStatus → Bool
  | .blocked _ => true
  | _ => false

def ObligationStatus.isIrreversible : ObligationStatus → Bool
  | .irreversible _ => true
  | _ => false

/-- The obligations of a saga that still have to be compensated, oldest first. -/
def pendingObligations (s : Core) (saga : ActivationId) : List Obligation :=
  s.obligations.filter fun item => item.owner = saga ∧ item.status = .open

def compensateOrFail (env : Env) (o : Enumeration) (s : Core) (saga : ActivationId)
    (error : FailError) (ids : IdGen) : Result Emission := do
  let act ← okOr (s.activations.lookup saga) (invalid "unknown saga")
  if s.obligations.any fun item => item.owner = saga ∧ item.status.isBlocked then
    pure ([.interventionRequired act.run saga "compensation input is blocked"], ids)
  else
    match (pendingObligations s saga).getLast? with
    | none =>
      if uncertainForwards o s act.run then
        if (s.sagaErrors.lookup saga).isSome then pure ([], ids)
        else pure ([.abortIntent act.run saga error], ids)
      else if s.obligations.any fun item => item.owner = saga ∧ item.status.isIrreversible then do
        let events ← failScope o s act.scope
          { code := "saga.irreversible", message := error.message }
        pure (events, ids)
      else do
        let events ← failScope o s act.scope error
        pure (events, ids)
    | some obligation =>
      let (activation, ids) := ids.activation env
      pure ([.compensationStarted act.run saga obligation.forward activation obligation.handler
        obligation.handlerVersion obligation.input error], ids)

def settleSagaSuccess (s : Core) (saga : ActivationId) : List DomainEvent :=
  let owned := (pendingObligations s saga).map (·.forward)
  match parentSaga s saga with
  | some parent => owned.map fun forward => .obligationTransferred forward saga parent
  | none =>
    match s.activations.lookup saga with
    | some act => owned.map fun forward => .obligationReleased act.run forward
    | none => []

end Graphrun
