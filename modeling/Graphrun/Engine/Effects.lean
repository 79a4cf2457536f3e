import Graphrun.Model.Evolve

/-!
# What events do to each part of the state

One equation for each part of the state: which events change it, and how. Entries of the
tables are created by few events and afterwards keep their identity; the functions
`ActivationState.after`, `ScopeState.after`, `WaitState.after` and `RunState.after` say what
an event makes of an entry that is already there. Every later argument about the effect of
events goes through these equations, and `evolve` is not unfolded again.
-/

namespace Graphrun

open Lib

variable {s : Core} {e : DomainEvent}

/-! ## Activations -/

/-- The status of an activation after an event. -/
def statusAfter (s : Core) (e : DomainEvent) (k : ActivationId) (act : ActivationState) :
    ActivationStatus :=
  match e with
  | .scopeCompleted _ scope _ => if act.scope = scope then .succeeded else act.status
  | .scopeFailed _ scope _ =>
    if act.scope = scope ∧ act.status ≠ .succeeded then .failed else act.status
  | .nodeOutputRecorded _ scope node _ =>
    if act.scope = scope ∧ act.node = node ∧ (act.status = .open ∨ act.status = .ready) then
      .succeeded
    else act.status
  | .leafFailed _ activation _ _ _ retry =>
    if k = activation then (if retry then .ready else .failed) else act.status
  | .leafSucceeded _ activation _ _ _ => if k = activation then .succeeded else act.status
  | .waitOpened _ _ activation _ _ _ _ => if k = activation then .ready else act.status
  | .waitSatisfied _ wait _ _ | .waitTimedOut _ wait =>
    if (s.waits.lookup wait).map (·.activation) = some k then .succeeded else act.status
  | .waitCancelled _ wait =>
    if (s.waits.lookup wait).map (·.activation) = some k then .failed else act.status
  | .runFailed run _ => if act.run = run ∧ act.status ≠ .succeeded then .failed else act.status
  | _ => act.status

/-- The claim on an activation after an event. -/
def claimAfter (e : DomainEvent) (k : ActivationId) (act : ActivationState) : Option ClaimState :=
  match e with
  | .leafFailed _ activation _ _ _ retry =>
    if k = activation ∧ retry = true then none else act.claim
  | .claimGranted _ _ activation _ _ _ _ session generation revision leaseExpiryMs
      attemptDeadlineMs effectKey role =>
    if k = activation then
      some {
        session, generation, revision, leaseExpiryMs, attemptDeadlineMs, effectKey, role
        probes := if role = .reconciliation then (act.claim.map (·.probes)).getD 0 else 0
        unknownReported := false }
    else act.claim
  | .claimRenewed activation _ _ revision leaseExpiryMs =>
    if k = activation then act.claim.map fun claim => { claim with revision, leaseExpiryMs }
    else act.claim
  | .claimCleared activation => if k = activation then none else act.claim
  | .reconciliationRecorded _ activation outcome _ probes =>
    if k = activation then
      act.claim.map fun claim =>
        { claim with
          probes
          unknownReported := if outcome = .unknown then true else claim.unknownReported }
    else act.claim
  | .compensationAbandoned run _ _ => if act.run = run then none else act.claim
  | _ => act.claim

/-- The number of attempts at an activation after an event. -/
def attemptsAfter (e : DomainEvent) (k : ActivationId) (act : ActivationState) : Nat :=
  match e with
  | .claimGranted _ _ activation _ _ _ _ _ _ _ _ _ _ _ =>
    if k = activation then min (act.attempts + 1) (2 ^ 32 - 1) else act.attempts
  | _ => act.attempts

/-- What an event makes of an activation. -/
def ActivationState.after (s : Core) (e : DomainEvent) (k : ActivationId)
    (act : ActivationState) : ActivationState :=
  { act with
    status := statusAfter s e k act
    claim := claimAfter e k act
    attempts := attemptsAfter e k act }

/-- The activation that an event creates. -/
def newActivation (s : Core) : DomainEvent → Option ActivationState
  | .activationOpened run scope activation node =>
    (s.runs.lookup run).map fun runState => {
      id := activation, run, scope, node
      status := if isActivityNode s scope node then .ready else .open
      role := .forward, claim := none, attempts := 0
      readyOrder := satAdd runState.nextReadyOrder 1 }
  | .compensationStarted run saga _ activation _ _ _ _ =>
    (compensationScope s run saga).bind fun scope =>
      (s.runs.lookup run).map fun runState => {
        id := activation, run, scope, node := "__compensate", status := .ready
        role := .compensation, claim := none, attempts := 0
        readyOrder := satAdd runState.nextReadyOrder 1 }
  | _ => none

theorem openActivation_activations {run scope activation node status role} :
    (s.openActivation run scope activation node status role).activations =
      match s.runs.lookup run with
      | none => s.activations
      | some runState => s.activations.insert activation {
          id := activation, run, scope, node, status, role, claim := none, attempts := 0
          readyOrder := satAdd runState.nextReadyOrder 1 } := by
  unfold Core.openActivation
  split <;> simp_all

theorem closeWait_activations {wait status} :
    (s.closeWait wait status).activations =
      match s.waits.lookup wait with
      | some w => s.activations.modify w.activation fun act => { act with status }
      | none => s.activations := by
  unfold Core.closeWait
  split <;> simp_all [Core.setStatus, Core.modifyActivation, Core.modifyWait]

theorem reportCompletion_activations {role output} :
    (reportCompletion s role output).activations = s.activations := by
  unfold reportCompletion
  split <;> rfl

theorem upsertObligation_activations {run forward handler version input status f} :
    (s.upsertObligation run forward handler version input status f).activations =
      s.activations := by
  unfold Core.upsertObligation
  split <;> rfl

section Activations

variable {k : ActivationId}

/-- The activations after an event, by key. -/
def activationAfter (s : Core) (e : DomainEvent) (k : ActivationId) : Option ActivationState :=
  match (newActivation s e).filter fun act => act.id = k with
  | some new => some new
  | none => (s.activations.lookup k).map (·.after s e k)

theorem activationAfter_of_unchanged (table : (evolve s e).activations = s.activations)
    (new : newActivation s e = none) (same : ∀ act, ActivationState.after s e k act = act) :
    (evolve s e).activations.lookup k = activationAfter s e k := by
  have hafter : (fun act => ActivationState.after s e k act) = id := funext same
  simp [table, activationAfter, new, hafter]

theorem activationAfter_of_mapValues {f : ActivationState → ActivationState}
    (table : (evolve s e).activations = s.activations.mapValues f)
    (new : newActivation s e = none) (same : ∀ act, ActivationState.after s e k act = f act) :
    (evolve s e).activations.lookup k = activationAfter s e k := by
  have hafter : (fun act => ActivationState.after s e k act) = f := funext same
  simp [table, Table.lookup_mapValues, activationAfter, new, hafter]

theorem activationAfter_of_modify {a : ActivationId} {f : ActivationState → ActivationState}
    (table : (evolve s e).activations = s.activations.modify a f)
    (new : newActivation s e = none)
    (same : ∀ act, ActivationState.after s e k act = if k = a then f act else act) :
    (evolve s e).activations.lookup k = activationAfter s e k := by
  have hafter : (fun act => ActivationState.after s e k act) =
      fun act => if k = a then f act else act := funext same
  rw [table, Table.lookup_modify]
  simp only [activationAfter, new, Option.filter_none, hafter]
  by_cases hk : k = a <;> simp [hk]

theorem activationAfter_of_open {run : RunId} {scope : ScopeId} {a : ActivationId}
    {node : NodeKey} {status : ActivationStatus} {role : ExecutionRole} {t : Core}
    (table : (evolve s e).activations = (t.openActivation run scope a node status role).activations)
    (runs : t.runs = s.runs) (activations : t.activations = s.activations)
    (new : newActivation s e = (s.runs.lookup run).map fun runState => {
      id := a, run, scope, node, status, role, claim := none, attempts := 0
      readyOrder := satAdd runState.nextReadyOrder 1 })
    (same : ∀ act, ActivationState.after s e k act = act) :
    (evolve s e).activations.lookup k = activationAfter s e k := by
  have hafter : (fun act => ActivationState.after s e k act) = id := funext same
  rw [table, openActivation_activations, runs, activations]
  cases hr : s.runs.lookup run with
  | none => simp [activationAfter, new, hr, hafter]
  | some runState =>
    rw [Table.lookup_insert_eq]
    by_cases hk : k = a
    · subst hk
      simp [activationAfter, new, hr, Option.filter]
    · have hk' : ¬ a = k := fun h => hk h.symm
      simp [activationAfter, new, hr, Option.filter, hk, hk', hafter]

theorem activationAfter_of_closeWait {wait : WaitId} {status : ActivationStatus}
    (table : (evolve s e).activations = (s.closeWait wait status).activations)
    (new : newActivation s e = none)
    (same : ∀ act, ActivationState.after s e k act =
      if (s.waits.lookup wait).map (·.activation) = some k then { act with status } else act) :
    (evolve s e).activations.lookup k = activationAfter s e k := by
  rw [closeWait_activations] at table
  cases hw : s.waits.lookup wait with
  | none =>
    simp only [hw] at table same
    exact activationAfter_of_unchanged table new fun act => by simp [same]
  | some w =>
    simp only [hw] at table same
    refine activationAfter_of_modify table new fun act => ?_
    rw [same]
    simp [eq_comm]

theorem lookup_activations_evolve (s : Core) (e : DomainEvent) (k : ActivationId) :
    (evolve s e).activations.lookup k = activationAfter s e k := by
  cases e
  -- Events that touch all activations of a scope, of a node or of a run.
  case scopeCompleted run scope output =>
    refine activationAfter_of_mapValues (f := fun act =>
      if act.scope = scope then { act with status := .succeeded } else act) ?_ rfl fun act => ?_
    · simp only [evolve]
      split
      · rfl
      · rw [reportCompletion_activations]; rfl
    · simp only [ActivationState.after, statusAfter, claimAfter, attemptsAfter]
      split <;> rfl
  case scopeFailed run scope error =>
    refine activationAfter_of_mapValues (f := fun act =>
      if act.scope = scope ∧ act.status ≠ .succeeded then { act with status := .failed } else act)
      rfl rfl fun act => ?_
    simp only [ActivationState.after, statusAfter, claimAfter, attemptsAfter]
    split <;> rfl
  case nodeOutputRecorded run scope node output =>
    refine activationAfter_of_mapValues (f := fun act =>
      if act.scope = scope ∧ act.node = node ∧ (act.status = .open ∨ act.status = .ready) then
        { act with status := .succeeded }
      else act) rfl rfl fun act => ?_
    simp only [ActivationState.after, statusAfter, claimAfter, attemptsAfter]
    split <;> rfl
  case runFailed run error =>
    refine activationAfter_of_mapValues (f := fun act =>
      if act.run = run ∧ act.status ≠ .succeeded then { act with status := .failed } else act)
      rfl rfl fun act => ?_
    simp only [ActivationState.after, statusAfter, claimAfter, attemptsAfter]
    split <;> rfl
  case compensationAbandoned run reason unresolved =>
    refine activationAfter_of_mapValues (f := fun act =>
      if act.run = run then { act with claim := none } else act) rfl rfl fun act => ?_
    simp only [ActivationState.after, statusAfter, claimAfter, attemptsAfter]
    split <;> rfl
  -- Events that touch one activation.
  case leafFailed run a attempt code message retry =>
    refine activationAfter_of_modify rfl rfl fun act => ?_
    simp only [ActivationState.after, statusAfter, claimAfter, attemptsAfter]
    cases retry <;> split <;> simp_all
  case leafSucceeded run a attempt output role =>
    refine activationAfter_of_modify (a := a)
      (f := fun act => { act with status := .succeeded }) ?_ rfl fun act => ?_
    · simp only [evolve]
      split <;> rfl
    · simp only [ActivationState.after, statusAfter, claimAfter, attemptsAfter]
      split <;> rfl
  case waitOpened | claimGranted | claimRenewed | claimCleared | reconciliationRecorded =>
    refine activationAfter_of_modify rfl rfl fun act => ?_
    simp only [ActivationState.after, statusAfter, claimAfter, attemptsAfter]
    split <;> rfl
  case waitSatisfied | waitTimedOut | waitCancelled =>
    refine activationAfter_of_closeWait rfl rfl fun act => ?_
    simp only [ActivationState.after, statusAfter, claimAfter, attemptsAfter]
    split <;> rfl
  -- Events that create an activation.
  case activationOpened run scope a node =>
    exact activationAfter_of_open rfl rfl rfl rfl fun _ => rfl
  case compensationStarted run saga forward a handler version input error =>
    cases hc : compensationScope s run saga with
    | none =>
      refine activationAfter_of_unchanged ?_ (by simp [newActivation, hc]) fun _ => rfl
      simp only [evolve, hc]
      rfl
    | some scope =>
      have table : (evolve s (.compensationStarted run saga forward a handler version input
          error)).activations = ((Core.modifyObligation
            { s with sagaErrors := s.sagaErrors.insert saga error } forward
              fun item => { item with status := .compensating a }).openActivation run scope a
                "__compensate" .ready .compensation).activations := by
        simp only [evolve, hc]
      exact activationAfter_of_open table rfl rfl (by simp [newActivation, hc]) fun _ => rfl
  case scopeOpened run scope parent role input =>
    refine activationAfter_of_unchanged ?_ rfl fun _ => rfl
    simp only [evolve]
    split <;> rfl
  case obligationRegistered | obligationBlocked =>
    exact activationAfter_of_unchanged upsertObligation_activations rfl fun _ => rfl
  all_goals exact activationAfter_of_unchanged rfl rfl fun _ => rfl

end Activations

/-! ## Scopes -/

/-- The status of a scope after an event. -/
def scopeStatusAfter (e : DomainEvent) (k : ScopeId) (scope : ScopeState) : ScopeStatus :=
  match e with
  | .scopeCompleted _ id output => if k = id then .completed output else scope.status
  | .scopeFailed _ id error => if k = id then .failed error else scope.status
  | .runFailed run error =>
    if scope.run = run ∧ scope.status = .open then .failed error else scope.status
  | _ => scope.status

/-- The recorded outputs of a scope after an event. -/
def outputsAfter (e : DomainEvent) (k : ScopeId) (scope : ScopeState) : List (String × Value) :=
  match e with
  | .nodeOutputRecorded _ id node output =>
    if k = id then mapInsert node output scope.outputs else scope.outputs
  | _ => scope.outputs

/-- The node that a scope opened last, after an event. -/
def currentAfter (e : DomainEvent) (k : ScopeId) (scope : ScopeState) : Option NodeKey :=
  match e with
  | .activationOpened _ id _ node => if k = id then some node else scope.current
  | _ => scope.current

/-- What an event makes of a scope. -/
def ScopeState.after (e : DomainEvent) (k : ScopeId) (scope : ScopeState) : ScopeState :=
  { scope with
    status := scopeStatusAfter e k scope
    outputs := outputsAfter e k scope
    current := currentAfter e k scope }

/-- The scope that an event opens. -/
def newScope : DomainEvent → Option ScopeState
  | .scopeOpened run scope parent role input =>
    some { id := scope, run, parent, role, input, status := .open, outputs := [], current := none }
  | _ => none

section Scopes

variable {k : ScopeId}

/-- The scopes after an event, by key. -/
def scopeAfter (s : Core) (e : DomainEvent) (k : ScopeId) : Option ScopeState :=
  match (newScope e).filter fun scope => scope.id = k with
  | some new => some new
  | none => (s.scopes.lookup k).map (·.after e k)

theorem scopeAfter_of_unchanged (table : (evolve s e).scopes = s.scopes)
    (new : newScope e = none) (same : ∀ scope, ScopeState.after e k scope = scope) :
    (evolve s e).scopes.lookup k = scopeAfter s e k := by
  have hafter : (fun scope => ScopeState.after e k scope) = id := funext same
  simp [table, scopeAfter, new, hafter]

theorem scopeAfter_of_modify {i : ScopeId} {f : ScopeState → ScopeState}
    (table : (evolve s e).scopes = s.scopes.modify i f) (new : newScope e = none)
    (same : ∀ scope, ScopeState.after e k scope = if k = i then f scope else scope) :
    (evolve s e).scopes.lookup k = scopeAfter s e k := by
  have hafter : (fun scope => ScopeState.after e k scope) =
      fun scope => if k = i then f scope else scope := funext same
  rw [table, Table.lookup_modify]
  simp only [scopeAfter, new, Option.filter_none, hafter]
  by_cases hk : k = i <;> simp [hk]

theorem openActivation_scopes {run scope activation node status role} :
    (s.openActivation run scope activation node status role).scopes = s.scopes := by
  unfold Core.openActivation
  split <;> rfl

theorem closeWait_scopes {wait status} : (s.closeWait wait status).scopes = s.scopes := by
  unfold Core.closeWait
  split <;> rfl

theorem reportCompletion_scopes {role output} :
    (reportCompletion s role output).scopes = s.scopes := by
  unfold reportCompletion
  split <;> rfl

theorem upsertObligation_scopes {run forward handler version input status f} :
    (s.upsertObligation run forward handler version input status f).scopes = s.scopes := by
  unfold Core.upsertObligation
  split <;> rfl

theorem lookup_scopes_evolve (s : Core) (e : DomainEvent) (k : ScopeId) :
    (evolve s e).scopes.lookup k = scopeAfter s e k := by
  cases e
  case scopeOpened run scope parent role input =>
    have table : (evolve s (.scopeOpened run scope parent role input)).scopes =
        s.scopes.insert scope {
          id := scope, run, parent, role, input, status := .open, outputs := []
          current := none } := by
      simp only [evolve]
      split <;> rfl
    have hafter : (fun sc => ScopeState.after (.scopeOpened run scope parent role input) k sc) =
        id := rfl
    rw [table, Table.lookup_insert_eq]
    by_cases hk : k = scope
    · subst hk
      simp [scopeAfter, newScope, Option.filter]
    · have hk' : ¬ scope = k := fun h => hk h.symm
      simp [scopeAfter, newScope, Option.filter, hk, hk', hafter]
  case scopeCompleted run scope output =>
    refine scopeAfter_of_modify (i := scope)
      (f := fun sc => { sc with status := .completed output }) ?_ rfl fun sc => ?_
    · simp only [evolve]
      split
      · next hs => simp [Table.modify, hs, Core.mapActivations]
      · rw [reportCompletion_scopes]; rfl
    · simp only [ScopeState.after, scopeStatusAfter, outputsAfter, currentAfter]
      split <;> rfl
  case scopeFailed | nodeOutputRecorded =>
    refine scopeAfter_of_modify rfl rfl fun sc => ?_
    simp only [ScopeState.after, scopeStatusAfter, outputsAfter, currentAfter]
    split <;> rfl
  case activationOpened run scope a node =>
    refine scopeAfter_of_modify (i := scope)
      (f := fun sc => { sc with current := some node }) ?_ rfl fun sc => ?_
    · simp only [evolve, Core.modifyScope, openActivation_scopes]
    · simp only [ScopeState.after, scopeStatusAfter, outputsAfter, currentAfter]
      split <;> rfl
  case runFailed run error =>
    have table : (evolve s (.runFailed run error)).scopes = s.scopes.mapValues fun sc =>
        if sc.run = run ∧ sc.status = .open then { sc with status := .failed error } else sc := rfl
    rw [table, Table.lookup_mapValues]
    simp only [scopeAfter, newScope, Option.filter_none]
    congr 1
    funext sc
    simp only [ScopeState.after, scopeStatusAfter, outputsAfter, currentAfter]
    split <;> rfl
  case waitSatisfied | waitTimedOut | waitCancelled =>
    exact scopeAfter_of_unchanged closeWait_scopes rfl fun _ => rfl
  case leafSucceeded run a attempt output role =>
    refine scopeAfter_of_unchanged ?_ rfl fun _ => rfl
    simp only [evolve]
    split <;> rfl
  case compensationStarted run saga forward a handler version input error =>
    refine scopeAfter_of_unchanged ?_ rfl fun _ => rfl
    simp only [evolve]
    split
    · rw [openActivation_scopes]; rfl
    · rfl
  case obligationRegistered | obligationBlocked =>
    exact scopeAfter_of_unchanged upsertObligation_scopes rfl fun _ => rfl
  all_goals exact scopeAfter_of_unchanged rfl rfl fun _ => rfl

end Scopes

/-! ## Runs -/

/-- What an event makes of a run. -/
def RunState.after (s : Core) (e : DomainEvent) (k : RunId) (r : RunState) : RunState :=
  match e with
  | .runAdmitted run _ _ input root policy admittedMs =>
    if k = run then { r with input, root, policy, status := .active, admittedMs } else r
  | .activationOpened run _ _ _ =>
    if k = run then { r with nextReadyOrder := satAdd r.nextReadyOrder 1 } else r
  | .compensationStarted run saga _ _ _ _ _ _ =>
    if k = run ∧ (compensationScope s run saga).isSome then
      { r with nextReadyOrder := satAdd r.nextReadyOrder 1 }
    else r
  | .eventAccepted run _ _ _ _ sequence _ _ =>
    if k = run then { r with nextSequence := sequence + 1 } else r
  | .runSucceeded run output => if k = run then { r with status := .succeeded output } else r
  | .runFailed run error => if k = run then { r with status := .failed error } else r
  | _ => r

section Runs

variable {k : RunId}

theorem runAfter_of_unchanged (table : (evolve s e).runs = s.runs)
    (same : ∀ r, RunState.after s e k r = r) :
    (evolve s e).runs.lookup k = (s.runs.lookup k).map (·.after s e k) := by
  have hafter : (fun r => RunState.after s e k r) = id := funext same
  simp [table, hafter]

theorem runAfter_of_modify {i : RunId} {f : RunState → RunState}
    (table : (evolve s e).runs = s.runs.modify i f)
    (same : ∀ r, RunState.after s e k r = if k = i then f r else r) :
    (evolve s e).runs.lookup k = (s.runs.lookup k).map (·.after s e k) := by
  have hafter : (fun r => RunState.after s e k r) = fun r => if k = i then f r else r :=
    funext same
  rw [table, Table.lookup_modify, hafter]
  by_cases hk : k = i <;> simp [hk]

theorem openActivation_runs {run scope activation node status role} :
    (s.openActivation run scope activation node status role).runs =
      s.runs.modify run fun r => { r with nextReadyOrder := satAdd r.nextReadyOrder 1 } := by
  unfold Core.openActivation Table.modify
  split <;> simp_all

theorem closeWait_runs {wait status} : (s.closeWait wait status).runs = s.runs := by
  unfold Core.closeWait
  split <;> rfl

theorem reportCompletion_runs {role output} : (reportCompletion s role output).runs = s.runs := by
  unfold reportCompletion
  split <;> rfl

theorem upsertObligation_runs {run forward handler version input status f} :
    (s.upsertObligation run forward handler version input status f).runs = s.runs := by
  unfold Core.upsertObligation
  split <;> rfl

theorem lookup_runs_evolve (s : Core) (e : DomainEvent) (k : RunId) :
    (evolve s e).runs.lookup k = (s.runs.lookup k).map (·.after s e k) := by
  cases e
  case runAdmitted | eventAccepted | runSucceeded | runFailed =>
    exact runAfter_of_modify rfl fun _ => rfl
  case activationOpened =>
    exact runAfter_of_modify openActivation_runs fun _ => rfl
  case compensationStarted run saga forward a handler version input error =>
    cases hc : compensationScope s run saga with
    | none =>
      refine runAfter_of_unchanged ?_ fun r => by simp [RunState.after, hc]
      simp only [evolve, hc]
      rfl
    | some scope =>
      refine runAfter_of_modify (i := run)
        (f := fun r => { r with nextReadyOrder := satAdd r.nextReadyOrder 1 }) ?_
        fun r => by simp [RunState.after, hc]
      simp only [evolve, hc, openActivation_runs]
      rfl
  case waitSatisfied | waitTimedOut | waitCancelled =>
    exact runAfter_of_unchanged closeWait_runs fun _ => rfl
  case obligationRegistered | obligationBlocked =>
    exact runAfter_of_unchanged upsertObligation_runs fun _ => rfl
  case scopeOpened | leafSucceeded =>
    refine runAfter_of_unchanged ?_ fun _ => rfl
    simp only [evolve]
    split <;> rfl
  case scopeCompleted =>
    refine runAfter_of_unchanged ?_ fun _ => rfl
    simp only [evolve]
    split
    · rfl
    · exact reportCompletion_runs
  all_goals exact runAfter_of_unchanged rfl fun _ => rfl

end Runs

end Graphrun
