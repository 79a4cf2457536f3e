import Graphrun.Engine.Execution
import Graphrun.Engine.Refinement
import Graphrun.Engine.Roots

/-!
# Sound states

The invariants of the engine in one: a state is `Sound` if its scopes and activations form a
tree, every scope has at most one token, containers are nested around their children, evaluations
are stable and runs end with their roots. An event that `Respects` all of this keeps it, and so
does every change that no decision makes.

A `Steady` step draws unused identities, finds no due `wait_until` and starts no run twice. What
a steady step records respects a sound state (`Decided.respects`), so the states of a run of
steady steps are sound (`Run.atRest`), and so are those within its steps.
-/

namespace Graphrun

open Lib

variable {env : Env} {o : Enumeration} {s s' : Core} {e : DomainEvent} {es : List DomainEvent}
  {log : List Step}

structure Sound (s : Core) : Prop where
  tree : Tree s
  tokens : Tokens s
  nested : Nested s
  measured : Measured s
  rooted : Rooted s

structure Respects (s : Core) (e : DomainEvent) : Prop where
  placed : Placed s e
  tokened : Tokened s e
  nesting : Nesting s e
  measuring : Measuring s e
  rooting : Rooting s e

theorem Sound.evolve (respects : Respects s e) (sound : Sound s) : Sound (Graphrun.evolve s e) where
  tree := sound.tree.evolve respects.placed
  tokens := sound.tokens.evolve sound.tree respects.placed respects.tokened
  nested := sound.nested.evolve sound.tree respects.placed sound.tokens respects.tokened
    respects.nesting
  measured := sound.measured.evolve sound.tree respects.placed sound.nested respects.nesting
    respects.measuring
  rooted := sound.rooted.evolve respects.placed respects.rooting

theorem Sound.evolveAll (respects : Guarded Respects s es) (sound : Sound s) :
    Sound (Graphrun.evolveAll s es) :=
  respects.keeps (fun _ _ hrespects hsound => hsound.evolve hrespects) sound

theorem Sound.quiet (change : Quiet s s') (sound : Sound s) : Sound s' where
  tree := sound.tree.quiet change
  tokens := sound.tokens.quiet change sound.tree
  nested := sound.nested.quiet change sound.tree
  measured := sound.measured.quiet change sound.tree
  rooted := sound.rooted.quiet change

theorem sound_empty (clusterId : String) : Sound (State.empty clusterId).toCore where
  tree := tree_empty clusterId
  tokens := tokens_empty clusterId
  nested := nested_empty clusterId
  measured := measured_empty clusterId
  rooted := rooted_empty clusterId

/-! ## Steady steps -/

/-- A start names a run of which there is nothing yet. -/
def NewRun (step : Step) : Prop :=
  ∀ run definition input catalog, step.body = .start run definition input catalog →
    ∀ k sc, step.before.scopes.lookup k = some sc → sc.run ≠ run

structure Steady (step : Step) : Prop where
  fresh : Fresh step
  undue : NoneDue step
  newRun : NewRun step

/-- What holds between steps: the state is sound, and no active run has lost its root. -/
structure AtRest (s : Core) : Prop where
  sound : Sound s
  roots : RootsOpen s

theorem Decided.respects {step : Step} (before : AtRest step.before) (steady : Steady step)
    (decided : Decided env step) : Guarded Respects step.before step.events := by
  obtain ⟨⟨tree, tokens, nested, measured, rooted⟩, roots⟩ := before
  have hplaced := decided.placed tree steady.fresh
  have htokened := decided.tokened tree tokens steady.fresh steady.undue
  obtain ⟨o, move⟩ := decided.move steady.fresh.unreplayed
  have hnesting := move.nesting tree tokens nested measured roots hplaced htokened
    steady.fresh.scopes steady.undue
  have hmeasuring := move.measuring tree tokens measured hplaced htokened steady.newRun
  have hrooting := move.rooting tree rooted hplaced steady.newRun
  refine guarded_iff.mpr fun before e after hes => ?_
  exact ⟨guarded_iff.mp hplaced before e after hes, guarded_iff.mp htokened before e after hes,
    guarded_iff.mp hnesting before e after hes, guarded_iff.mp hmeasuring before e after hes,
    guarded_iff.mp hrooting before e after hes⟩

theorem Decided.atRest {step : Step} (before : AtRest step.before) (steady : Steady step)
    (decided : Decided env step) : AtRest step.after := by
  obtain ⟨o, move⟩ := decided.move steady.fresh.unreplayed
  have hrespects := decided.respects before steady
  exact ⟨before.sound.evolveAll hrespects,
    move.rootsOpen before.sound.tree (decided.placed before.sound.tree steady.fresh)
      steady.newRun before.roots⟩

theorem AtRest.quiet (change : Quiet s s') (rest : AtRest s) : AtRest s' :=
  ⟨rest.sound.quiet change, rest.roots.quiet change rest.sound.tree⟩

theorem atRest_empty (clusterId : String) : AtRest (State.empty clusterId).toCore :=
  ⟨sound_empty clusterId, fun _ _ _ h => by cases h⟩

theorem Trace.atRest {t t' : Nat} (trace : Trace env s t log s' t') (initial : AtRest s)
    (steady : ∀ step ∈ log, Steady step) :
    AtRest s' ∧ ∀ step ∈ log, AtRest step.before :=
  trace.invariant (fun _ _ change => AtRest.quiet change)
    (fun _ hdecided hsteady hbefore => hdecided.atRest hbefore hsteady) initial steady

theorem Run.atRest {clusterId : String} {s : State} (run : Run env (.empty clusterId) log s)
    (steady : ∀ step ∈ log, Steady step) :
    AtRest s.toCore ∧ ∀ step ∈ log, AtRest step.before :=
  Trace.atRest (run.trace (keyed_empty clusterId)) (atRest_empty clusterId) steady

/-! ## Checking steadiness -/

def Step.startsNew (step : Step) : Bool :=
  match step.body with
  | .start run _ _ _ => step.before.scopes.entries.all fun entry => entry.2.run ≠ run
  | _ => true

/-- No activation is at a `wait_until`. -/
def Step.untilFree (step : Step) : Bool :=
  step.before.activations.entries.all fun entry =>
    match nodeOf step.before entry.2.scope entry.2.node with
    | some (.waitUntil ..) => false
    | _ => true

def Step.checksSteady (step : Step) : Bool :=
  Fresh step && step.startsNew && step.untilFree

theorem Step.steady_of_checksSteady {step : Step} (h : step.checksSteady = true) :
    Steady step := by
  simp only [Step.checksSteady, Bool.and_eq_true, decide_eq_true_eq] at h
  obtain ⟨⟨hfresh, hnew⟩, huntil⟩ := h
  refine ⟨hfresh, ?_, ?_⟩
  · intro run _ act instant next hadvancing
    have hentry := List.all_eq_true.mp huntil _ (AList.mem_lookup_iff.mp hadvancing.hact)
    simp [hadvancing.hnode] at hentry
  · intro run definition input catalog hbody k sc hk
    simp only [Step.startsNew, hbody, List.all_eq_true] at hnew
    simpa using hnew _ (AList.mem_lookup_iff.mp hk)

/-! ## Every run -/

/-- Every scope resolves to a region. -/
theorem scope_resolves {clusterId : String} {s : State} (run : Run env (.empty clusterId) log s)
    (fresh : ∀ step ∈ log, Fresh step) {k : ScopeId} {sc : ScopeState}
    (hscope : s.scopes.lookup k = some sc) :
    ∃ region, regionForScope s.toCore k = some region := by
  have tree : Tree s.toCore := (Trace.invariant (fun _ _ change h => h.quiet change)
    (fun _ decided hfresh h => h.evolveAll (decided.placed h hfresh))
    (run.trace (keyed_empty clusterId)) (tree_empty clusterId) fresh).1
  obtain ⟨region, hregion⟩ := tree.region k sc hscope
  exact ⟨region, regionForScope_iff.mpr hregion⟩

/-- A run with two branches. -/
def forkCommands : List Command := [
  { id := ⟨1⟩, time := 1, body := .start ⟨1⟩ (sampleWorkflow [] "fork" [
      ("done", .complete (.literal .null)),
      ("fork", .parallel (["left", "right"].map fun name => ⟨name, .literal .null,
        sampleRegion "done" [("done", .complete (.literal (.string name)))]⟩) "done")]) .null
      (sampleCatalog [] .manual) },
  { id := ⟨2⟩, time := 2, body := .progress ⟨1⟩ }]

theorem branch_resolves : ∃ log final region, Run sampleEnv (.empty sampleCluster) log final ∧
    regionForScope final.toCore ⟨2⟩ = some region := by
  obtain ⟨log, final, hrun, hcheck⟩ := exists_sampleRun forkCommands (fun log final =>
    log.all (Fresh ·) && (final.scopes.lookup ⟨2⟩).isSome) (by decide +kernel)
  simp only [Bool.and_eq_true, List.all_eq_true, decide_eq_true_eq,
    Option.isSome_iff_exists] at hcheck
  obtain ⟨hfresh, sc, hscope⟩ := hcheck
  obtain ⟨region, hregion⟩ := scope_resolves hrun hfresh hscope
  exact ⟨log, final, region, hrun, hregion⟩

/-- The results of a `parallel` are one for each branch, from its only scope. -/
theorem branch_results_unique {clusterId : String} {s : State}
    (run : Run env (.empty clusterId) log s) (steady : ∀ step ∈ log, Steady step)
    {a : ActivationId} {done : List (String × Value)}
    (hdone : s.parallelDone.lookup a = some done) :
    (done.map (·.1)).Nodup ∧ ∀ e ∈ done, ∃ k sc, s.scopes.lookup k = some sc ∧
      sc.role = .parallelBranch a e.1 ∧ sc.status = .completed e.2 ∧
      ∀ k' sc', s.scopes.lookup k' = some sc' → sc'.role = .parallelBranch a e.1 → k' = k := by
  have nested := (run.atRest steady).1.sound.nested
  have hgathered := nested.branches a
  rw [hdone, Option.getD_some] at hgathered
  refine ⟨hgathered.1, fun e he => ?_⟩
  obtain ⟨k, sc, hk, hrole, hstatus⟩ := hgathered.2 e he
  refine ⟨k, sc, hk, hrole, hstatus, fun k' sc' hk' hrole' => ?_⟩
  exact nested.unique k' k sc' sc hk' hk (hrole'.trans hrole.symm) (by simp [hrole'])

theorem branch_result : ∃ log final, Run sampleEnv (.empty sampleCluster) log final ∧
    ∀ e ∈ [("left", Value.string "left"), ("right", .string "right")], ∃ k sc,
      final.scopes.lookup k = some sc ∧ sc.role = .parallelBranch ⟨65⟩ e.1 ∧
      sc.status = .completed e.2 ∧ ∀ k' sc', final.scopes.lookup k' = some sc' →
        sc'.role = .parallelBranch ⟨65⟩ e.1 → k' = k := by
  obtain ⟨log, final, hrun, hcheck⟩ := exists_sampleRun forkCommands (fun log final =>
    log.all Step.checksSteady && final.parallelDone.lookup ⟨65⟩ =
      some [("left", .string "left"), ("right", .string "right")]) (by decide +kernel)
  simp only [Bool.and_eq_true, List.all_eq_true, decide_eq_true_eq] at hcheck
  obtain ⟨hsteady, hdone⟩ := hcheck
  have hunique := branch_results_unique hrun
    (fun step hstep => Step.steady_of_checksSteady (hsteady step hstep)) hdone
  exact ⟨log, final, hrun, hunique.2⟩

end Graphrun
