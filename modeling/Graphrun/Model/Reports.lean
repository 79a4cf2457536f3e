import Graphrun.Model.Scopes

/-!
# Results of activities

What a reported result or error of an activation decides, and the operator commands on
compensations (`decide_report`, `decide_report_error`, `decide_resolve_blocked`,
`decide_abandon_compensation`).
-/

namespace Graphrun

open Lib

def validateLeafOutput (env : Env) (s : Core) (act : ActivationState) (output : Value) :
    Result Unit :=
  match s.runs.lookup act.run with
  | none => pure ()
  | some run =>
    if act.role = .compensation then do
      let obligation ← okOr (compensatedBy s act.id) (invalid "compensation obligation missing")
      let contract ← run.catalog.activity ⟨obligation.handler, obligation.handlerVersion⟩
      run.catalog.validateValue env contract.outputSchema output
    else
      match nodeOf s act.scope act.node with
      | some (.activity activity _ _ _ _ _) =>
        match run.catalog.activity activity with
        | .ok contract => run.catalog.validateValue env contract.outputSchema output
        | .error _ => pure ()
      | _ => pure ()

/-- The message of a failed evaluation. -/
def Fault.message : Fault → String
  | .error e => e.message
  | .panicked => ""

/-- What the success of an activity owes to the saga around it. -/
def compensationEvents (s : Core) (act : ActivationState) (output : Value) :
    Result (List DomainEvent) :=
  match nodeOf s act.scope act.node with
  | some (.activity _ forwardInput _ _ (some (.activity activity input _ _)) _) =>
    match s.scopes.lookup act.scope with
    | none => pure []
    | some scope => do
      let ctx ← evalCtx s scope
      let bound ← attempt (evalBinding ctx forwardInput)
      let ctx := { ctx with forwardInput := bound, forwardOutput := some output }
      match evalBinding ctx input with
      | .ok value =>
        pure [.obligationRegistered act.run act.id activity.name activity.version value]
      | .error fault =>
        pure [.obligationBlocked act.run act.id activity.name activity.version fault.message]
  | some (.activity _ _ _ _ (some (.irreversible reason)) _) =>
    pure [.obligationBlocked act.run act.id "irreversible" 1 reason]
  | _ => pure []

def decideCompensationResult (s : Core) (run : RunId) (activation : ActivationId)
    (output : Value) : Result (List DomainEvent) := do
  let obligation ← okOr (compensatedBy s activation)
    (invalid "compensation activation has no obligation")
  refuseIf (obligation.run ≠ run) (invalid "compensation does not belong to run")
  pure [.leafSucceeded run activation 1 output .compensation]

def reportSuccess (env : Env) (o : Enumeration) (s : Core) (run : RunId)
    (activation : ActivationId) (output : Value) (ids : IdGen) : Result Emission := do
  let act ← okOr (s.activations.lookup activation) (invalid "unknown activation")
  if act.role = .compensation then do
    validateLeafOutput env s act output
    let events ← decideCompensationResult s run activation output
    pure (events, ids)
  else do
    validateLeafOutput env s act output
    let owed ← compensationEvents s act output
    let accepted := [
      .leafSucceeded run activation 1 output .forward,
      .nodeOutputRecorded run act.scope act.node output] ++ owed
    if runIsAborting o s run then pure (accepted, ids)
    else do
      let (followed, ids) ← followNext env s act.scope act.node ids
      pure (accepted ++ followed, ids)

def decideReport (env : Env) (o : Enumeration) (s : Core) (run : RunId)
    (activation : ActivationId) (output : Value) (time : Nat) (ids : IdGen) : Result Emission := do
  let act ← okOr (s.activations.lookup activation) (invalid "unknown activation")
  refuseIf (act.run ≠ run) (invalid "activation does not belong to run")
  refuseIf (act.status ≠ .ready) (invalid "activation is not awaiting a result")
  refuseIf (act.claim.any fun claim => time < claim.leaseExpiryMs)
    (failedPrecondition "activation is claimed")
  reportSuccess env o s run activation output ids

/-! ## Errors -/

def forwardErrorRetryable (s : Core) (act : ActivationState) (code : String) : Bool :=
  match s.runs.lookup act.run, nodeOf s act.scope act.node with
  | some run, some (.activity activity _ _ retry _ _) =>
    match run.catalog.activity activity with
    | .ok contract =>
      match contract.knownCode code with
      | some spec =>
        spec.retryable && decide (code ∈ retry.errors) &&
          decide (max act.attempts 1 < retry.maxAttempts)
      | none => false
    | .error _ => false
  | _, _ => false

def obligationHandlerRetryable (run : RunState) (obligation : Obligation) (code : String) : Bool :=
  match run.catalog.activity ⟨obligation.handler, obligation.handlerVersion⟩ with
  | .ok contract => (contract.knownCode code).any (·.retryable)
  | .error _ => false

def compensationErrorRetryable (s : Core) (activation : ActivationId) (code : String) : Bool :=
  match s.activations.lookup activation with
  | none => false
  | some act =>
    match s.runs.lookup act.run, compensatedBy s activation with
    | some run, some obligation =>
      match (s.activations.lookup obligation.forward).bind fun f => nodeOf s f.scope f.node with
      | some (.activity _ _ _ _ (some (.activity activity _ _ retry)) _) =>
        match run.catalog.activity activity with
        | .ok contract =>
          match contract.knownCode code with
          | some spec =>
            let policy := retry.getD (.compensationDefault contract.retryableCodes)
            spec.retryable && !policy.errors.isEmpty && decide (code ∈ policy.errors) &&
              decide (max act.attempts 1 < policy.maxAttempts)
          | none => false
        | .error _ => false
      | _ => obligationHandlerRetryable run obligation code
    | _, _ => false

def decideReportError (o : Enumeration) (s : Core) (run : RunId) (activation : ActivationId)
    (code message : String) : Result (List DomainEvent) := do
  let act ← okOr (s.activations.lookup activation) (invalid "unknown activation")
  refuseIf (act.run ≠ run) (invalid "activation does not belong to run")
  refuseIf (act.status ≠ .ready) (invalid "activation is not awaiting a result")
  let attempt := max act.attempts 1
  if act.role = .compensation then
    if compensationErrorRetryable s activation code then
      pure [.leafFailed run activation attempt code message true, .claimCleared activation]
    else
      match compensatedBy s activation with
      | some item =>
        pure [.leafFailed run activation attempt code message false,
          .obligationBlocked run item.forward item.handler item.handlerVersion
          s!"{code}: {message}"]
      | none => pure [.leafFailed run activation attempt code message false]
  else if forwardErrorRetryable s act code then
    pure [.leafFailed run activation attempt code message true, .claimCleared activation]
  else do
    let failed ← failScope o s act.scope { code, message }
    pure (.leafFailed run activation attempt code message false :: failed)

/-! ## Operator commands on compensations -/

/-- Obligations an operator may abandon. -/
def isUnresolved (item : Obligation) : Bool :=
  item.status ≠ .compensated ∧ item.status ≠ .released ∧ item.status ≠ .abandoned

/-- A run that an operator has already abandoned. -/
def RunStatus.isAbandoned : RunStatus → Bool
  | .failed error => error.code = "saga.abandoned"
  | _ => false

def rootScope? (o : Enumeration) (s : Core) (run : RunId) : Option ScopeState :=
  (o.values s.scopes).find? fun scope => scope.run = run ∧ scope.role = .root

def decideAbandonCompensation (o : Enumeration) (s : Core) (run : RunId) (reason : String) :
    Result (List DomainEvent) := do
  refuseIf (reason = "") (invalid "abandon requires a reason")
  let runState ← okOr (s.runs.lookup run) (invalid "unknown run")
  if runState.status.isAbandoned then pure []
  else do
    let unresolved :=
      (s.obligations.filter fun item => item.run = run ∧ isUnresolved item).map (·.forward)
    refuseIf (unresolved = []) (invalid "no unresolved obligations to abandon")
    let recorded := DomainEvent.compensationAbandoned run reason unresolved
    match (if runState.status.isActive then rootScope? o s run else none) with
    | none => pure [recorded]
    | some root => do
      let hexes := ",".intercalate (unresolved.map Id.toHex)
      let failed ← failScope o s root.id {
        code := "saga.abandoned"
        message := s!"unresolved obligations remain after operator abandonment: {hexes}" }
      pure (recorded :: failed)

def decideResolveBlocked (s : Core) (run : RunId) (forward : ActivationId) (input : Value) :
    Result (List DomainEvent) := do
  let obligation ← okOr (s.obligations.find? fun item => item.forward = forward)
    (invalid "unknown obligation")
  refuseIf (obligation.run ≠ run) (invalid "obligation does not belong to run")
  refuseIf (obligation.status.isBlocked = false) (invalid "obligation is not blocked")
  pure [.obligationRegistered run forward obligation.handler obligation.handlerVersion input]

end Graphrun
