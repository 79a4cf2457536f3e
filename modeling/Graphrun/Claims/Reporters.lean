import Graphrun.Claims.Fencing

/-!
# Who may report on a claimed activation

While a live claim is on an activation, a bare result is refused and a message with a token is
accepted from the owner of the claim only. An error reported without a token is the exception:
`decide_report_error` looks at no claim. So an accepted result comes from the owner of the live
claim exactly if it is not such an error (`reporter_owns_iff`), and a worker whose claim has
passed to another can fail the attempt of the new owner (`lateError_accepted`).
-/

namespace Graphrun

open Lib

variable {env : Env}

/-- An error reported without a token. -/
def CommandBody.isBareError : CommandBody → Bool
  | .reportError .. => true
  | _ => false

/-- What a report that is no bare error and no bare result presents is about its activation. -/
theorem presents_of_reported {body : CommandBody} {run : RunId} {a : ActivationId}
    (hreport : body.reported? = some (run, a)) (herror : body.isBareError = false) :
    (∃ output, body = .reportLeaf run a output) ∨
      ∃ token, body.presents? = some token ∧ token.activation = a := by
  cases body <;> simp only [CommandBody.reported?, CommandBody.isBareError, Option.some.injEq,
    Prod.mk.injEq, reduceCtorEq] at hreport herror
  case reportLeaf =>
    obtain ⟨rfl, rfl⟩ := hreport
    exact .inl ⟨_, rfl⟩
  all_goals
    obtain ⟨rfl, rfl⟩ := hreport
    exact .inr ⟨_, rfl, rfl⟩

/-- In every run, an accepted report on an activation under a live claim presents that claim
exactly if it is not a bare error. -/
theorem reporter_owns_iff {clusterId : String} {log : List Step} {final : State} {step : Step}
    {run : RunId} {a : ActivationId} {act : ActivationState} {claim : ClaimState}
    (hrun : Run env (.empty clusterId) log final) (hstep : step ∈ log)
    (hreport : step.body.reported? = some (run, a))
    (hact : step.before.activations.lookup a = some act) (hclaim : act.claim = some claim)
    (hlive : step.time < claim.leaseExpiryMs) :
    step.body.presents? = some (claim.token a) ↔ step.body.isBareError = false := by
  have hauthorized := ((hrun.trace (keyed_empty clusterId)).decided step hstep).authorized
  constructor
  · intro htoken
    cases hbody : step.body <;> first | rfl | (rw [hbody] at htoken; cases htoken)
  · intro herror
    rcases presents_of_reported hreport herror with ⟨output, hbody⟩ | ⟨token, htoken, rfl⟩
    · -- a bare result finds no live claim
      obtain ⟨found, hfound, hfree⟩ := hauthorized.bare run a output hbody
      obtain rfl : found = act := Option.mem_unique hfound hact
      simp only [unclaimedAt, hclaim, Option.all_some, decide_eq_true_eq] at hfree
      omega
    · obtain ⟨found, other, hfound, hother, hpresented, -⟩ := hauthorized.owner token htoken
      obtain rfl : found = act := Option.mem_unique hfound hact
      obtain rfl : other = claim := Option.mem_unique hother hclaim
      rw [hpresented]
      exact htoken

/-! ## A late error -/

/-- The claim on an activation that is live at a step. -/
def Step.liveClaim? (step : Step) (a : ActivationId) : Option (ActivationState × ClaimState) := do
  let act ← step.before.activations.lookup a
  let claim ← act.claim
  if step.time < claim.leaseExpiryMs then some (act, claim) else none

theorem Step.liveClaim?_eq_some {step : Step} {a : ActivationId} {act : ActivationState}
    {claim : ClaimState} (h : step.liveClaim? a = some (act, claim)) :
    step.before.activations.lookup a = some act ∧ act.claim = some claim ∧
      step.time < claim.leaseExpiryMs := by
  simp only [Step.liveClaim?, Option.bind_eq_bind, Option.bind_eq_some_iff] at h
  obtain ⟨found, hfound, other, hother, h⟩ := h
  split at h
  · next hlive =>
    simp only [Option.some.injEq, Prod.mk.injEq] at h
    obtain ⟨rfl, rfl⟩ := h
    exact ⟨hfound, hother, hlive⟩
  · cases h

/-- The activity has passed to the second session when an error is reported without a token. -/
def lateError : List Command := handedOver ++ [
  { id := ⟨7⟩, body := .reportError ⟨1⟩ ⟨65⟩ "late" "from the first session", time := 40003 }]

/-- The error is accepted and fails the attempt of the second session. -/
theorem lateError_accepted : ∃ log final step act claim,
    Run sampleEnv (.empty sampleCluster) log final ∧ step ∈ log ∧
    (∀ step ∈ log, Fresh step) ∧
    step.body.reported? = some (⟨1⟩, ⟨65⟩) ∧
    step.before.activations.lookup ⟨65⟩ = some act ∧ act.status = .ready ∧
    act.claim = some claim ∧ step.time < claim.leaseExpiryMs ∧ claim.session = ⟨2⟩ ∧
    step.body.presents? = none ∧
    (step.after.activations.lookup ⟨65⟩).map (·.status) = some .failed := by
  obtain ⟨log, final, hrun, hcheck⟩ := exists_sampleRun lateError
    (fun log _ => log.all (Fresh ·) && (log[6]?).any fun step =>
      (step.body.reported? = some (⟨1⟩, ⟨65⟩) ∧ step.body.presents? = none ∧
      (step.after.activations.lookup ⟨65⟩).map (·.status) = some .failed) &&
      (step.liveClaim? ⟨65⟩).any fun found => found.1.status = .ready ∧ found.2.session = ⟨2⟩)
    (by decide +kernel)
  simp only [Bool.and_eq_true, List.all_eq_true, Option.any_eq_true, decide_eq_true_eq] at hcheck
  obtain ⟨hfresh, step, hstep, ⟨hreport, htoken, hfailed⟩, ⟨act, claim⟩, hlive, hready,
    hsession⟩ := hcheck
  obtain ⟨hact, hclaim, hlease⟩ := Step.liveClaim?_eq_some hlive
  exact ⟨_, _, step, act, claim, hrun, List.mem_of_getElem? hstep, hfresh, hreport, hact, hready,
    hclaim, hlease, hsession, htoken, hfailed⟩

/-- The owner of the second claim reports its result. -/
def ownersResult : List Command := handedOver ++ [
  { id := ⟨7⟩, body := .reportAssigned ⟨1⟩ ⟨65⟩ .null ⟨2⟩ 2 2, time := 40003 }]

theorem ownersResult_owns : ∃ log final step act claim,
    Run sampleEnv (.empty sampleCluster) log final ∧ step ∈ log ∧
    step.body.reported? = some (⟨1⟩, ⟨65⟩) ∧
    step.before.activations.lookup ⟨65⟩ = some act ∧ act.claim = some claim ∧
    step.time < claim.leaseExpiryMs ∧
    (step.body.presents? = some (claim.token ⟨65⟩) ↔ step.body.isBareError = false) ∧
    step.body.isBareError = false := by
  obtain ⟨log, final, hrun, hcheck⟩ := exists_sampleRun ownersResult
    (fun log _ => (log[6]?).any fun step => (step.body.reported? = some (⟨1⟩, ⟨65⟩) ∧
      step.body.isBareError = false) && (step.liveClaim? ⟨65⟩).isSome)
    (by decide +kernel)
  simp only [Bool.and_eq_true, Option.any_eq_true, decide_eq_true_eq,
    Option.isSome_iff_exists] at hcheck
  obtain ⟨step, hstep, ⟨hreport, hbare⟩, ⟨act, claim⟩, hlive⟩ := hcheck
  obtain ⟨hact, hclaim, hlease⟩ := Step.liveClaim?_eq_some hlive
  have hmem := List.mem_of_getElem? hstep
  exact ⟨_, _, step, act, claim, hrun, hmem, hreport, hact, hclaim, hlease,
    reporter_owns_iff hrun hmem hreport hact hclaim hlease, hbare⟩

end Graphrun
