import Graphrun.Engine.Execution
import Graphrun.Loops.Bodies

/-!
# Loops follow the reference loop until a body completes

The counter of a loop is advanced twice for one body: the completed body leaves its index plus
one, and `progress_while` adds one more. So the guard after the first body is asked with index 2,
the second body gets index 2, and the limit strikes early (`twoBodies_exceeded`). A loop none of
whose bodies has completed when its run progresses does what the reference loop does
(`loops_follow_reference`).
-/

namespace Graphrun

open Lib

variable {env : Env}

/-- Every loop of the run that a step progresses is driven like the reference loop. -/
def FollowsReference (env : Env) (step : Step) : Prop :=
  ∀ run act node loop, step.body = .progress run → Advancing step.before run act node →
    node.loop? = some loop → 1 ≤ loop.maxIterations →
    ∃ bodies, LoopBodies step.before act.id bodies ∧
      ∀ o ids es ids', loop.progress env o step.before act ids = .ok (es, ids') →
        LoopDrive env o step.before ids act loop bodies es

theorem looped_empty (clusterId : String) : Looped (State.empty clusterId).toCore where
  carried _ _ h := by cases h
  single _ _ _ _ h := by cases h

/-- In every run whose steps find no completed body in a loop they progress, the bodies of each
loop are numbered without gaps and chained, and each step drives loops like the reference. -/
theorem loops_follow_reference {clusterId : String} {log : List Step} {final : State}
    (hrun : Run env (.empty clusterId) log final)
    (hsteps : ∀ step ∈ log, Fresh step ∧ BodiesUnfinished step) :
    (∀ a act node loop, final.activations.lookup a = some act →
      nodeOf final.toCore act.scope act.node = some node → node.loop? = some loop →
      1 ≤ loop.maxIterations → ∃ bodies, LoopBodies final.toCore a bodies) ∧
    ∀ step ∈ log, FollowsReference env step := by
  obtain ⟨⟨tree, looped⟩, hbefore⟩ := (hrun.trace (keyed_empty clusterId)).invariant
    (P := fun s => Tree s ∧ Looped s)
    (fun _ _ change h => ⟨h.1.quiet change, h.2.quiet change h.1⟩)
    (fun step decided condition h => by
      obtain ⟨fresh, unfinished⟩ := condition
      exact ⟨h.1.evolveAll (decided.placed h.1 fresh), h.2.step h.1 fresh unfinished decided⟩)
    ⟨tree_empty clusterId, looped_empty clusterId⟩ hsteps
  refine ⟨fun a act node loop hact hnode hloop hmax => ?_, fun step hstep => ?_⟩
  · obtain ⟨bodies, hbodies, -⟩ := looped.bodies tree hact hnode hloop hmax
    exact ⟨bodies, hbodies⟩
  · intro run act node loop hbody hadvancing hloop hmax
    obtain ⟨tree, looped⟩ := hbefore step hstep
    obtain ⟨bodies, hbodies, hlength⟩ :=
      looped.bodies tree hadvancing.hact hadvancing.hnode hloop hmax
    refine ⟨bodies, hbodies, fun o ids es ids' hprogress => ?_⟩
    have hdone := (hsteps step hstep).2 run hbody act node loop hadvancing hloop
    exact looped.drive hadvancing hmax hdone hbodies hlength hprogress

/-! ## A body that completes and one that waits -/

/-- Repeats a body two times at most, with a guard that always holds. -/
def loopWorkflow (start : NodeKey) (nodes : List (String × Node)) : Definition :=
  sampleWorkflow [] "loop" [("done", .complete (.literal .null)),
    ("loop", .while (.literal .null) .null (.eq (.literal .null) (.literal .null)) 2
      (sampleRegion start nodes) "done")]

/-- The body completes at once. -/
def twoBodies : List Command := [
  { id := ⟨1⟩, time := 1, body := .start ⟨1⟩
      (loopWorkflow "done" [("done", .complete (.literal .null))]) .null ⟨[], [], []⟩ },
  { id := ⟨2⟩, time := 2, body := .progress ⟨1⟩ }]

/-- The body waits for a second. -/
def waitingBody : List Command := [
  { id := ⟨1⟩, time := 1, body := .start ⟨1⟩
      (loopWorkflow "wait" [("done", .complete (.literal .null)),
        ("wait", .delay (.literal (.string "1s")) "done")]) .null ⟨[], [], []⟩ },
  { id := ⟨2⟩, time := 2, body := .progress ⟨1⟩ }]

/-- Whether events begin with a failure of a scope. -/
def failsFirst : Result Emission → Bool
  | .ok (.scopeFailed .. :: _, _) => true
  | _ => false

/-- A loop with one completed body fails although it may run two. -/
theorem not_followsReference {step : Step} {run : RunId} {act : ActivationState} {node : Node}
    {loop : Loop} {k : ScopeId} {child : ScopeState} {output : Value}
    (hbody : step.body = .progress run) (hadvancing : Advancing step.before run act node)
    (hloop : node.loop? = some loop) (hmax : loop.maxIterations = 2)
    (hchild : step.before.scopes.lookup k = some child)
    (honly : ∀ k' sc, step.before.scopes.lookup k' = some sc → sc.parent = some act.id → k' = k)
    (hdone : child.status = .completed output)
    (hfails : failsFirst (loop.progress env .stored step.before act step.ids) = true) :
    ¬ FollowsReference env step := by
  intro follows
  obtain ⟨bodies, hbodies, hdrive⟩ := follows run act node loop hbody hadvancing hloop (by omega)
  have hsame : ∀ (i : Nat) body, bodies[i]? = some body → body = child := by
    intro i body hi
    obtain ⟨hlookup, hparent', -⟩ := hbodies.indexed i body hi
    rw [honly _ _ hlookup hparent', hchild] at hlookup
    exact (Option.some.inj hlookup).symm
  have hlength : bodies.length ≤ 1 := by
    by_contra hlong
    have h₀ := List.getElem?_eq_getElem (l := bodies) (i := 0) (by omega)
    have h₁ := List.getElem?_eq_getElem (l := bodies) (i := 1) (by omega)
    obtain ⟨-, -, hrole₀⟩ := hbodies.indexed 0 _ h₀
    obtain ⟨-, -, hrole₁⟩ := hbodies.indexed 1 _ h₁
    rw [hsame 0 _ h₀] at hrole₀
    rw [hsame 1 _ h₁, hrole₀] at hrole₁
    cases hrole₁
  unfold failsFirst at hfails
  split at hfails
  · next r scope error rest ids' hprogress =>
    cases hdrive _ _ _ _ hprogress with
    | waiting _ _ hes => cases hes
    | failed hlast hfailed =>
      obtain ⟨i, hi⟩ := List.mem_iff_getElem?.mp (List.mem_of_getLast? hlast)
      rw [hsame i _ hi, hdone] at hfailed
      cases hfailed
    | acted hcarry haction hes =>
      generalize hevents : DomainEvent.scopeFailed r scope error :: rest = es at hes
      cases hes with
      | stop => cases hevents
      | exceed =>
        have := le_of_referenceLoop_exceed haction
        omega
      | body hguards =>
        rw [hguards] at hevents
        split at hevents <;> cases hevents
  · cases hfails

theorem twoBodies_exceeded : ∃ log final, Run sampleEnv (.empty sampleCluster) log final ∧
    (∀ step ∈ log, Fresh step) ∧ ∃ step ∈ log, ¬ FollowsReference sampleEnv step := by
  obtain ⟨log, final, hrun, hcheck⟩ := exists_sampleRun twoBodies
    (fun log _ => log.all (Fresh ·) && log[3]?.any fun step =>
      step.body.progressed? = some ⟨1⟩ && (advancingAt step.before ⟨1⟩ ⟨65⟩).any fun found =>
      found.2.loop?.any fun loop => loop.maxIterations = 2 &&
      ((step.before.scopes.lookup ⟨2⟩).any fun child =>
      child.status = .completed .null) && (step.before.scopes.pairs.all fun e =>
      e.2.parent ≠ some ⟨65⟩ || e.1 = ⟨2⟩) && failsFirst (loop.progress sampleEnv .stored
      step.before found.1 step.ids))
    (by decide +kernel)
  simp only [Bool.and_eq_true, Option.any_eq_true, List.all_eq_true, decide_eq_true_eq,
    Bool.or_eq_true] at hcheck
  obtain ⟨hfresh, step, hstep, hbody, ⟨act, node⟩, hadvancing, loop, hloop, ⟨⟨hmax, child, hchild,
    hdone⟩, honly⟩, hfails⟩ := hcheck
  obtain ⟨hid, hadvancing⟩ := advancing_of_advancingAt hadvancing
  refine ⟨_, _, hrun, hfresh, step, List.mem_of_getElem? hstep, ?_⟩
  refine not_followsReference (CommandBody.progressed?_eq_some hbody) hadvancing hloop hmax hchild
    (fun k sc hk hparent' => ?_) hdone hfails
  have hother := honly (k, sc) (Table.mem_pairs.mpr hk)
  simpa [hparent', hid] using hother

theorem bodiesUnfinished_of_open {step : Step}
    (h : step.before.scopes.pairs.all (fun e => e.2.status = .open) = true) :
    BodiesUnfinished step := by
  intro run _ act node loop _ _ k body hk _ output hdone
  have hopen := List.all_eq_true.mp h (k, body) (Table.mem_pairs.mpr hk)
  simp [hdone] at hopen

theorem waitingBody_follows : ∃ log final step act node loop bodies es ids',
    Run sampleEnv (.empty sampleCluster) log final ∧
    (∀ step ∈ log, Fresh step ∧ BodiesUnfinished step) ∧ step ∈ log ∧
    Advancing step.before ⟨1⟩ act node ∧ node.loop? = some loop ∧
    loop.progress sampleEnv .stored step.before act step.ids = .ok (es, ids') ∧ es ≠ [] ∧
    LoopBodies step.before act.id bodies ∧
    LoopDrive sampleEnv .stored step.before step.ids act loop bodies es := by
  obtain ⟨log, final, hrun, hcheck⟩ := exists_sampleRun waitingBody
    (fun log _ => log.all (fun step => Fresh step &&
      step.before.scopes.pairs.all fun e => e.2.status = .open) &&
      log[1]?.any fun step => step.body.progressed? = some ⟨1⟩ &&
      (advancingAt step.before ⟨1⟩ ⟨65⟩).any fun found => found.2.loop?.any fun loop =>
      1 ≤ loop.maxIterations && (loop.progress sampleEnv .stored step.before found.1
      step.ids).toOption.any fun emission => !emission.1.isEmpty)
    (by decide +kernel)
  simp only [Bool.and_eq_true, Option.any_eq_true, List.all_eq_true, decide_eq_true_eq,
    Bool.not_eq_true', List.isEmpty_eq_false_iff] at hcheck
  obtain ⟨hsteps, step, hstep, hbody, ⟨act, node⟩, hadvancing, loop, hloop, hmax, ⟨es, ids'⟩,
    hprogress, hes⟩ := hcheck
  obtain ⟨hid, hadvancing⟩ := advancing_of_advancingAt hadvancing
  have hprogress := ok_of_toOption hprogress
  have hconditions : ∀ step ∈ _, Fresh step ∧ BodiesUnfinished step := fun step hstep =>
    ⟨(hsteps step hstep).1, bodiesUnfinished_of_open
      (List.all_eq_true.mpr fun e he => by simpa using (hsteps step hstep).2 e he)⟩
  have hmem := List.mem_of_getElem? hstep
  obtain ⟨bodies, hbodies, hdrive⟩ := (loops_follow_reference hrun hconditions).2 step hmem ⟨1⟩ act
    node loop (CommandBody.progressed?_eq_some hbody) hadvancing hloop hmax
  exact ⟨_, _, step, act, node, loop, bodies, es, ids', hrun, hconditions, hmem, hadvancing, hloop,
    hprogress, hes, hbodies, hdrive _ _ _ _ hprogress⟩

end Graphrun
