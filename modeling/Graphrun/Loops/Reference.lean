import Graphrun.Engine.Moves

/-!
# The reference loop

What a bounded loop is: bodies 0, 1, 2, … run one after the other, each on the output of the one
before, and before each of them (in a `do_while`, from the second on) a guard is asked with the
number of completed bodies and the last output. A false guard ends the loop with the last
output, a true guard after the last allowed body is an error. `LoopBodies` reads the bodies of
an activation off the state and `LoopDrive` says that one call of `progress_while` does what the
reference loop does next.
-/

namespace Graphrun

open Lib

variable {env : Env} {o : Enumeration} {s s' : Core} {time : Nat} {ids ids' : IdGen}
  {es : List DomainEvent}

/-! ## Loops -/

/-- What `progress_while` is given of a `while` or `do_while` node. -/
structure Loop where
  state : Binding
  condition : Condition
  maxIterations : Nat
  body : Region
  doWhile : Bool

def Node.loop? : Node → Option Loop
  | .while state _ condition maxIterations body _ =>
    some ⟨state, condition, maxIterations, body, false⟩
  | .doWhile state _ condition maxIterations body _ =>
    some ⟨state, condition, maxIterations, body, true⟩
  | _ => none

/-- One call of `progress_while`. -/
def Loop.progress (env : Env) (o : Enumeration) (s : Core) (act : ActivationState) (loop : Loop)
    (ids : IdGen) : Result Emission :=
  progressWhile env o s act loop.state loop.condition loop.maxIterations loop.body loop.doWhile ids

theorem progressNode_loop {run : RunId} {act : ActivationState} {node : Node} {loop : Loop}
    (hloop : node.loop? = some loop)
    (h : progressNode env o s run time act node ids = .ok (some (es, ids'))) :
    loop.progress env o s act ids = .ok (es, ids') := by
  cases node <;> simp only [Node.loop?, reduceCtorEq, Option.some.injEq] at hloop
  all_goals
    subst hloop
    simp only [progressNode, map_eq_ok] at h
    obtain ⟨emission, hemission, h⟩ := h
    unfold unlessEmpty at h
    split at h
    · cases h
    · rw [← Option.some.inj h]
      exact hemission

/-! ## The reference -/

/-- What a loop does next. -/
inductive LoopAction where
  | stop (output : Value)
  | exceed
  | body (index : Nat) (input : Value)

/-- The next action of a loop after `completed` bodies, the last of which left `carry`. -/
def referenceLoop (doWhile : Bool) (maxIterations : Nat) (guard : Nat → Value → Result Bool)
    (completed : Nat) (carry : Value) : Result LoopAction :=
  if doWhile ∧ completed = 0 then pure (.body 0 carry)
  else do
    let cont ← guard completed carry
    if cont = false then pure (.stop carry)
    else if maxIterations ≤ completed then pure .exceed
    else pure (.body completed carry)

/-- The limit is exceeded only after the last allowed body. -/
theorem le_of_referenceLoop_exceed {doWhile : Bool} {maxIterations completed : Nat}
    {guard : Nat → Value → Result Bool} {carry : Value}
    (h : referenceLoop doWhile maxIterations guard completed carry = .ok .exceed) :
    maxIterations ≤ completed := by
  unfold referenceLoop at h
  split at h
  · cases h
  · simp only [bind_eq_ok] at h
    obtain ⟨cont, -, h⟩ := h
    split at h
    · cases h
    · split at h
      · assumption
      · cases h

/-- The guard of a loop, asked with a number of completed bodies and a carried value. -/
def Loop.guard (s : Core) (act : ActivationState) (loop : Loop) (completed : Nat)
    (carry : Value) : Result Bool := do
  let scope ← okOr (s.scopes.lookup act.scope) .panicked
  let ctx ← evalCtx s scope
  evalCondition (guardCtx ctx carry completed) loop.condition

/-- The value with which a loop starts. -/
def Loop.initial (s : Core) (act : ActivationState) (loop : Loop) : Result Value := do
  let scope ← okOr (s.scopes.lookup act.scope) .panicked
  let ctx ← evalCtx s scope
  evalBinding ctx loop.state

/-- The bodies of a loop activation in order: numbered from 0 without gaps, each started on the
output of the one before. -/
structure LoopBodies (s : Core) (a : ActivationId) (bodies : List ScopeState) : Prop where
  indexed : ∀ i body, bodies[i]? = some body →
    s.scopes.lookup body.id = some body ∧ body.parent = some a ∧ body.role = .loopBody a i
  complete : ∀ k body, s.scopes.lookup k = some body → body.parent = some a → body ∈ bodies
  chained : ∀ i body next, bodies[i]? = some body → bodies[i + 1]? = some next →
    body.status = .completed next.input

/-- The value that a loop carries when all of its bodies have completed. -/
def Carries (s : Core) (act : ActivationState) (loop : Loop) (bodies : List ScopeState)
    (carry : Value) : Prop :=
  match bodies.getLast? with
  | none => loop.initial s act = .ok carry
  | some body => body.status = .completed carry

/-- The events by which an activation performs an action of its loop. -/
inductive Performs (env : Env) (o : Enumeration) (s : Core) (ids : IdGen) (act : ActivationState)
    (loop : Loop) (completed : Nat) (carry : Value) : LoopAction → List DomainEvent → Prop
  | stop {followed : List DomainEvent} {ids' : IdGen}
      (hfollowed : followNext env s act.scope act.node ids = .ok (followed, ids')) :
      Performs env o s ids act loop completed carry (.stop carry)
        (.guardRecorded act.run act.id false completed carry ::
          .nodeOutputRecorded act.run act.scope act.node carry :: followed)
  | exceed {es : List DomainEvent} (hfailing : Failing o s act.scope loopLimitExceeded es) :
      Performs env o s ids act loop completed carry .exceed es
  | body {guards : List DomainEvent} {scope : ScopeId} {start : ActivationId}
      (hguards : guards = if loop.doWhile ∧ completed = 0 then [] else
        [.guardRecorded act.run act.id true completed carry])
      (hscope : scope = (ids.scope env).1) (hstart : start = ((ids.scope env).2.activation env).1) :
      Performs env o s ids act loop completed carry (.body completed carry)
        (guards ++ [.scopeOpened act.run scope (some act.id) (.loopBody act.id completed) carry,
          .activationOpened act.run scope start loop.body.start])

/-- One call of `progress_while` on the given bodies does what the reference loop does next. -/
inductive LoopDrive (env : Env) (o : Enumeration) (s : Core) (ids : IdGen) (act : ActivationState)
    (loop : Loop) (bodies : List ScopeState) (es : List DomainEvent) : Prop
  | waiting {body : ScopeState} (hlast : bodies.getLast? = some body)
      (hopen : body.status = .open) (hes : es = [])
  | failed {body : ScopeState} {error : FailError} (hlast : bodies.getLast? = some body)
      (hfailed : body.status = .failed error) (hfailing : Failing o s act.scope error es)
  | acted {carry : Value} {action : LoopAction} (hcarry : Carries s act loop bodies carry)
      (haction : referenceLoop loop.doWhile loop.maxIterations (loop.guard s act) bodies.length
        carry = .ok action)
      (hes : Performs env o s ids act loop bodies.length carry action es)

/-! ## The first body -/

/-- A loop that has not opened a body does what the reference loop does first. -/
theorem Loop.drive_first {act : ActivationState} {loop : Loop} (hmax : 1 ≤ loop.maxIterations)
    (hnew : s.loopCarry.lookup act.id = none) (hnone : childOf o s act.id = none)
    (h : loop.progress env o s act ids = .ok (es, ids')) :
    LoopDrive env o s ids act loop [] es := by
  simp only [Loop.progress, progressWhile, bind_eq_ok, okOr_eq_ok, hnone] at h
  obtain ⟨scope, hscope, ctx, hctx, ⟨carry, completed⟩, hcarry, h⟩ := h
  obtain ⟨hinitial, rfl⟩ : evalBinding ctx loop.state = .ok carry ∧ completed = 0 := by
    simp only [loopCarryOf, hnew] at hcarry
    split at hcarry
    · next value hvalue =>
      simp only [pure_eq_ok, Prod.mk.injEq] at hcarry
      obtain ⟨rfl, rfl⟩ := hcarry
      exact ⟨hvalue, rfl⟩
    · cases hcarry
  have hcarries : Carries s act loop [] carry := by
    simp [Carries, Loop.initial, bind_eq_ok, okOr_eq_ok, hscope, hctx, hinitial]
  have hguard : loop.guard s act 0 carry = evalCondition (guardCtx ctx carry 0) loop.condition := by
    simp [Loop.guard, hscope, hctx, okOr, bind, Except.bind]
  have hmore : ¬ loop.maxIterations ≤ 0 := by omega
  cases hdo : loop.doWhile with
  | true =>
    simp only [hdo, Bool.true_eq_false, and_false, if_false, if_true, pure_eq_ok] at h
    obtain ⟨rfl, -⟩ := Prod.mk.inj h
    have haction : referenceLoop loop.doWhile loop.maxIterations (loop.guard s act) 0 carry =
        .ok (.body 0 carry) := by simp [referenceLoop, hdo, pure, Except.pure]
    have hguards : ([] : List DomainEvent) = if loop.doWhile ∧ 0 = 0 then [] else
        [.guardRecorded act.run act.id true 0 carry] := by simp [hdo]
    exact .acted hcarries haction (.body hguards rfl rfl)
  | false =>
    simp only [hdo, and_self, if_true, bind_eq_ok] at h
    obtain ⟨cont, hcont, h⟩ := h
    cases cont with
    | false =>
      simp only [if_true, bind_eq_ok, pure_eq_ok, Prod.mk.injEq, Prod.exists] at h
      obtain ⟨finished, ids₁, hfinished, rfl, rfl⟩ := h
      simp only [finishNode, bind_eq_ok, pure_eq_ok, Prod.mk.injEq, Prod.exists] at hfinished
      obtain ⟨followed, ids₂, hfollowed, rfl, rfl⟩ := hfinished
      refine .acted hcarries ?_ (.stop hfollowed)
      simp [referenceLoop, hdo, hguard, hcont, bind, Except.bind, pure, Except.pure]
    | true =>
      simp only [Bool.true_eq_false, if_false, pure_eq_ok, Prod.mk.injEq] at h
      obtain ⟨rfl, rfl⟩ := h
      have haction : referenceLoop loop.doWhile loop.maxIterations (loop.guard s act) 0 carry =
          .ok (.body 0 carry) := by
        simp [referenceLoop, hdo, hguard, hcont, hmore, bind, Except.bind, pure, Except.pure]
      have hguards : [.guardRecorded act.run act.id true 0 carry] =
          if loop.doWhile ∧ 0 = 0 then [] else
            [DomainEvent.guardRecorded act.run act.id true 0 carry] := by simp [hdo]
      exact .acted hcarries haction (.body hguards rfl rfl)

end Graphrun
