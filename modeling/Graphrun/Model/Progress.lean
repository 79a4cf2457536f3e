import Graphrun.Model.Waits

/-!
# Progress

`next_progress` and the progress function of each node kind. One call settles the first due
wait of a run, otherwise it looks at the open forward activations in enumeration order and
takes the first whose node has something to do.
-/

namespace Graphrun

open Lib

/-- A container has produced its output: it is recorded and the node's edge followed. -/
def finishNode (env : Env) (s : Core) (act : ActivationState) (output : Value) (ids : IdGen) :
    Result Emission := do
  let (followed, ids) ← followNext env s act.scope act.node ids
  pure (.nodeOutputRecorded act.run act.scope act.node output :: followed, ids)

/-- Opens a child scope and its start node. -/
def openChild (env : Env) (act : ActivationState) (role : ScopeRole) (input : Value)
    (body : Region) (ids : IdGen) : Emission :=
  let (scope, ids) := ids.scope env
  let (start, ids) := ids.activation env
  ([.scopeOpened act.run scope (some act.id) role input,
    .activationOpened act.run scope start body.start], ids)

def openLoopBody (env : Env) (act : ActivationState) (body : Region) (carry : Value)
    (index : Nat) (ids : IdGen) : Emission :=
  openChild env act (.loopBody act.id index) carry body ids

/-! ## Loops -/

/-- The carried value and the counter of a loop, from its state binding before the first
body. The source unwraps the first evaluation. -/
def loopCarryOf (s : Core) (act : ActivationState) (ctx : EvalCtx) (state : Binding) :
    Result (Value × Nat) :=
  match s.loopCarry.lookup act.id with
  | some carried => pure carried
  | none =>
    match evalBinding ctx state with
    | .ok value => pure (value, 0)
    | .error _ => throw .panicked

/-- The context in which a loop's guard is evaluated. -/
def guardCtx (ctx : EvalCtx) (carry : Value) (completed : Nat) : EvalCtx :=
  { ctx with loopState := some carry, loopIndex := some (completed : Int) }

def loopLimitExceeded : FailError where
  code := "LoopLimitExceeded"
  message := "loop continuation at the iteration limit"

def progressWhile (env : Env) (o : Enumeration) (s : Core) (act : ActivationState)
    (state : Binding) (condition : Condition) (maxIterations : Nat) (body : Region)
    (doWhile : Bool) (ids : IdGen) : Result Emission := do
  let scope ← okOr (s.scopes.lookup act.scope) .panicked
  let ctx ← evalCtx s scope
  let (carry, completed) ← loopCarryOf s act ctx state
  match childOf o s act.id with
  | some child =>
    match child.status with
    | .open => pure ([], ids)
    | .failed error => do
      let failed ← failScope o s act.scope error
      pure (failed, ids)
    | .completed output => do
      let completed := completed + 1
      let cont ← evalCondition (guardCtx ctx output completed) condition
      let guard := DomainEvent.guardRecorded act.run act.id cont completed output
      if cont = false then do
        let (finished, ids) ← finishNode env s act output ids
        pure (guard :: finished, ids)
      else if completed ≥ maxIterations then do
        let failed ← failScope o s act.scope loopLimitExceeded
        pure (failed, ids)
      else
        let (opened, ids) := openLoopBody env act body output completed ids
        pure (guard :: opened, ids)
  | none =>
    if completed = 0 ∧ doWhile = false then do
      let cont ← evalCondition (guardCtx ctx carry completed) condition
      let guard := DomainEvent.guardRecorded act.run act.id cont 0 carry
      if cont = false then do
        let (finished, ids) ← finishNode env s act carry ids
        pure (guard :: finished, ids)
      else
        let (opened, ids) := openLoopBody env act body carry 0 ids
        pure (guard :: opened, ids)
    else if completed = 0 then pure (openLoopBody env act body carry 0 ids)
    else pure ([], ids)

/-- The `as u32` conversion of an `i64`. -/
def wrapInt32 (i : Int) : Nat := (i % 2 ^ 32).toNat

def progressRepeat (env : Env) (o : Enumeration) (s : Core) (act : ActivationState)
    (count state : Binding) (maxIterations : Nat) (body : Region) (ids : IdGen) :
    Result Emission := do
  let scope ← okOr (s.scopes.lookup act.scope) .panicked
  let ctx ← evalCtx s scope
  let countV ← evalBinding ctx count
  let countN ← okOr countV.asI64 (invalid "repeat count must be an integer")
  refuseIf (countN < 0 ∨ wrapInt32 countN > maxIterations) (invalid "repeat count is out of range")
  let (carry, completed) ← loopCarryOf s act ctx state
  if countN = 0 ∧ completed = 0 then finishNode env s act carry ids
  else
    match childOf o s act.id with
    | some child =>
      match child.status with
      | .open => pure ([], ids)
      | .failed error => do
        let failed ← failScope o s act.scope error
        pure (failed, ids)
      | .completed output =>
        if (completed : Int) = countN then finishNode env s act output ids
        else if (completed : Int) > countN then pure ([], ids)
        else pure (openLoopBody env act body output completed ids)
    | none => pure (openLoopBody env act body carry completed ids)

/-! ## Foreach -/

def foreachGet (done : List (Nat × Value)) (index : Nat) : Option Value :=
  (done.find? fun e => e.1 = index).map (·.2)

def foreachHas (done : List (Nat × Value)) (index : Nat) : Bool :=
  done.any fun e => e.1 = index

/-- The outputs of all items in item order; a missing one is unwrapped. -/
def orderedItems (done : List (Nat × Value)) : Nat → Result (List Value)
  | 0 => pure []
  | n + 1 => do
    let earlier ← orderedItems done n
    let value ← okOr (foreachGet done n) .panicked
    pure (earlier ++ [value])

/-- The first index from `index` on that is not taken; `fuel` bounds the taken ones. -/
def nextIndex (taken : Nat → Bool) : Nat → Nat → Nat
  | 0, index => index
  | fuel + 1, index => if taken index then nextIndex taken fuel (index + 1) else index

def itemIndex? (child : ScopeState) : Option Nat :=
  match child.role with
  | .foreachItem _ index => some index
  | _ => none

def itemCancelled : FailError where
  code := "item.cancelled"
  message := "sibling foreach item failed"

/-- Fails the given scopes one after the other. -/
def failScopes (o : Enumeration) (s : Core) (error : FailError) :
    List ScopeState → Result (List DomainEvent)
  | [] => pure []
  | scope :: rest => do
    let failed ← failScope o s scope.id error
    let others ← failScopes o s error rest
    pure (failed ++ others)

/-- The failed child that a container reacts to, with its error. -/
def failedChild (o : Enumeration) (s : Core) (parent : ActivationId) :
    Option (ScopeState × FailError) :=
  (childrenOf o s parent).findSome? fun child =>
    match child.status with
    | .failed error => some (child, error)
    | _ => none

/-- The open siblings of a failed child. -/
def openSiblings (o : Enumeration) (s : Core) (parent : ActivationId) (failed : ScopeId) :
    List ScopeState :=
  (childrenOf o s parent).filter fun child => child.id ≠ failed ∧ child.status = .open

def progressForeach (env : Env) (o : Enumeration) (s : Core) (act : ActivationState)
    (items : Binding) (maxItems maxConcurrency : Nat) (body : Region) (ids : IdGen) :
    Result Emission := do
  let scope ← okOr (s.scopes.lookup act.scope) .panicked
  let ctx ← evalCtx s scope
  let value ← evalBinding ctx items
  match value with
  | .array list => do
    refuseIf (wrap32 list.length > maxItems) (invalid "foreach exceeds max_items")
    if list = [] then finishNode env s act (.array []) ids
    else do
      let done := (s.foreachDone.lookup act.id).getD []
      if done.length = list.length then do
        let ordered ← orderedItems done list.length
        finishNode env s act (.array ordered) ids
      else
        match failedChild o s act.id with
        | some (failed, error) => do
          let cancelled ← failScopes o s itemCancelled (openSiblings o s act.id failed.id)
          let own ← failScope o s act.scope error
          pure (cancelled ++ own, ids)
        | none =>
          let children := childrenOf o s act.id
          if children.countP (fun child => child.status = .open) ≥ maxConcurrency then
            pure ([], ids)
          else
            let taken := children.filterMap itemIndex?
            let index := nextIndex (fun i => decide (i ∈ taken) || foreachHas done i)
              (taken.length + done.length) 0
            match list[index]? with
            | none => pure ([], ids)
            | some input => pure (openChild env act (.foreachItem act.id index) input body ids)
  | _ => throw (invalid "foreach items must be an array")

/-! ## Parallel and choose -/

/-- The outputs of all branches in branch order; a missing one is unwrapped. -/
def orderedBranches (done : List (String × Value)) : List ParallelBranch → Result (List Value)
  | [] => pure []
  | branch :: rest => do
    let value ← okOr (mapGet done branch.name) .panicked
    let others ← orderedBranches done rest
    pure (value :: others)

def branchName? (child : ScopeState) : Option String :=
  match child.role with
  | .parallelBranch _ name => some name
  | _ => none

def branchCancelled : FailError where
  code := "branch.cancelled"
  message := "sibling branch failed"

/-- Whether some activation directly in a scope carries a claim. -/
def scopeIsClaimed (o : Enumeration) (s : Core) (scope : ScopeId) : Bool :=
  (o.values s.activations).any fun item =>
    item.scope = scope ∧ item.claim.any fun claim => claim.leaseExpiryMs > 0

def progressParallel (env : Env) (o : Enumeration) (s : Core) (act : ActivationState)
    (branches : List ParallelBranch) (ids : IdGen) : Result Emission :=
  let done := (s.parallelDone.lookup act.id).getD []
  if done.length = branches.length then do
    let ordered ← orderedBranches done branches
    finishNode env s act (.array ordered) ids
  else
    let existing := (childrenOf o s act.id).filterMap branchName?
    let missing := if existing.length < branches.length then
        branches.find? fun branch => branch.name ∉ existing
      else none
    match missing with
    | some branch => do
      let scope ← okOr (s.scopes.lookup act.scope) .panicked
      let ctx ← evalCtx s scope
      let input ← evalBinding ctx branch.input
      pure (openChild env act (.parallelBranch act.id branch.name) input branch.body ids)
    | none =>
      match failedChild o s act.id with
      | none => pure ([], ids)
      | some (failed, error) => do
        let siblings := openSiblings o s act.id failed.id
        let cancelled ← failScopes o s branchCancelled
          (siblings.filter fun sibling => scopeIsClaimed o s sibling.id = false)
        if siblings.any fun sibling => scopeIsClaimed o s sibling.id then pure (cancelled, ids)
        else do
          let own ← failScope o s act.scope error
          pure (cancelled ++ own, ids)

/-- The body that a choose node takes: the first case whose condition holds. -/
def chooseBody (ctx : EvalCtx) (default : Region) : List ChooseCase → Result (String × Region)
  | [] => pure ("default", default)
  | case :: rest => do
    let holds ← evalCondition ctx case.when
    if holds then pure (case.name, case.body) else chooseBody ctx default rest

def progressChoose (env : Env) (o : Enumeration) (s : Core) (act : ActivationState)
    (input : Binding) (cases : List ChooseCase) (default : Region) (ids : IdGen) :
    Result Emission :=
  match childOf o s act.id with
  | some child =>
    match child.status with
    | .open => pure ([], ids)
    | .failed error => do
      let failed ← failScope o s act.scope error
      pure (failed, ids)
    | .completed output => finishNode env s act output ids
  | none => do
    let scope ← okOr (s.scopes.lookup act.scope) .panicked
    let ctx ← evalCtx s scope
    let captured ← evalBinding ctx input
    let (name, chosen) ← chooseBody ctx default cases
    pure (openChild env act (.chooseBody act.id name) captured chosen ids)

/-! ## Sagas -/

def progressSaga (env : Env) (o : Enumeration) (s : Core) (act : ActivationState)
    (input : Binding) (body : Region) (ids : IdGen) : Result Emission :=
  if compensatingInFlight s act.id then pure ([], ids)
  else
    match s.sagaErrors.lookup act.id with
    | some error => compensateOrFail env o s act.id error ids
    | none =>
      match childOf o s act.id with
      | some child =>
        match child.status with
        | .open => pure ([], ids)
        | .failed error => compensateOrFail env o s act.id error ids
        | .completed output => do
          let (finished, ids) ← finishNode env s act output ids
          pure (settleSagaSuccess s act.id ++ finished, ids)
      | none => do
        let scope ← okOr (s.scopes.lookup act.scope) .panicked
        let ctx ← evalCtx s scope
        let captured ← evalBinding ctx input
        pure (openChild env act (.sagaBody act.id) captured body ids)

/-! ## One step of progress -/

/-- The timer that a delay or a not yet due `wait_until` opens. -/
def openTimer (env : Env) (run : RunId) (act : ActivationState) (deadline : Nat) (ids : IdGen) :
    Emission :=
  let (wait, ids) := ids.wait env
  ([.waitOpened run wait act.id timerSignal act.id.toHex (some deadline) .afterActivation], ids)

/-- A value as an instant. -/
def instantOf : Value → Result Nat
  | .int v =>
    if v ≥ 0 then pure v.toNat else throw (invalid "wait_until at must be a non-negative integer")
  | _ => throw (invalid "wait_until at must be a non-negative integer")

/-- The events of a container, unless it has none. -/
def unlessEmpty (emission : Emission) : Option Emission :=
  if emission.1 = [] then none else some emission

/-- What an open forward activation does now; `none` lets the next one try. -/
def progressNode (env : Env) (o : Enumeration) (s : Core) (run : RunId) (time : Nat)
    (act : ActivationState) (node : Node) (ids : IdGen) : Result (Option Emission) :=
  match node with
  | .activity .. => pure (some ([.activationOpened run act.scope act.id act.node], ids))
  | .complete output => do
    let scope ← okOr (s.scopes.lookup act.scope) .panicked
    let ctx ← evalCtx s scope
    let value ← evalBinding ctx output
    pure (some (completeScope scope value, ids))
  | .fail error => do
    let failed ← failScope o s act.scope error
    pure (some (failed, ids))
  | .delay duration _ =>
    if hasPendingWait o s act.id then pure none
    else do
      let scope ← okOr (s.scopes.lookup act.scope) .panicked
      let ctx ← evalCtx s scope
      let ms ← evalDurationMs ctx duration
      pure (some (openTimer env run act (satAdd time ms) ids))
  | .waitUntil at_ next =>
    if hasPendingWait o s act.id then pure none
    else do
      let scope ← okOr (s.scopes.lookup act.scope) .panicked
      let ctx ← evalCtx s scope
      let value ← evalBinding ctx at_
      let instant ← instantOf value
      if time ≥ instant then some <$> openNode env s act.scope next ids
      else pure (some (openTimer env run act instant ids))
  | .waitSignal signal key timeoutMs consumeFrom _ _ =>
    if hasPendingWait o s act.id then pure none
    else some <$> openWait env o s act signal key timeoutMs consumeFrom time ids
  | .while state _ condition maxIterations body _ =>
    unlessEmpty <$> progressWhile env o s act state condition maxIterations body false ids
  | .doWhile state _ condition maxIterations body _ =>
    unlessEmpty <$> progressWhile env o s act state condition maxIterations body true ids
  | .repeat count state _ maxIterations body _ =>
    unlessEmpty <$> progressRepeat env o s act count state maxIterations body ids
  | .foreach items _ maxItems maxConcurrency body _ =>
    unlessEmpty <$> progressForeach env o s act items maxItems maxConcurrency body ids
  | .parallel branches _ => unlessEmpty <$> progressParallel env o s act branches ids
  | .choose input cases default _ =>
    unlessEmpty <$> progressChoose env o s act input cases default ids
  | .saga input body _ => unlessEmpty <$> progressSaga env o s act input body ids

/-- The first of the given activations that has something to do. -/
def progressFirst (env : Env) (o : Enumeration) (s : Core) (run : RunId) (time : Nat)
    (ids : IdGen) : List ActivationState → Result (Option Emission)
  | [] => pure none
  | act :: rest => do
    let region ← okOr (regionForScope s act.scope) .panicked
    let node ← okOr (region.node? act.node) .panicked
    let emission ← progressNode env o s run time act node ids
    match emission with
    | some found => pure (some found)
    | none => progressFirst env o s run time ids rest

/-- The forward activations of a run that are open. -/
def openForwards (o : Enumeration) (s : Core) (run : RunId) : List ActivationState :=
  (o.values s.activations).filter fun act =>
    act.run = run ∧ act.role = .forward ∧ act.status = .open

def nextProgress (env : Env) (o : Enumeration) (s : Core) (run : RunId) (time : Nat)
    (ids : IdGen) : Result (Option Emission) :=
  match s.runs.lookup run with
  | none => pure none
  | some runState =>
    if runState.status.isActive then do
      let due ← dueWait env o s run time ids
      match due with
      | some found => pure (some found)
      | none => progressFirst env o s run time ids (openForwards o s run)
    else pure none

end Graphrun
