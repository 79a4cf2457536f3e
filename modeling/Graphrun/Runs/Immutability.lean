import Graphrun.Engine.Soundness
import Graphrun.Publications.Pins
import Graphrun.Runs.Success

/-!
# A run that has ended stays as it is

Only some commands check that the run they concern is active. A report does not; it can fail a
run that has ended if there is a ready activation in a root scope that has not failed. In a sound
state there is none: a root scope that has completed holds nothing that is ready.

The statement fails for a start that names a run that exists: it admits the run once more,
whatever has become of it (`restarted_active`). It holds for all entries whose steps are steady
(`ended_run_unchanged`).
-/

namespace Graphrun

open Lib

variable {env : Env} {o : Enumeration} {s s' : Core} {e : DomainEvent} {time : Nat} {ids : IdGen}
  {es : List DomainEvent} {run : RunId} {log : List Step} {r : RunState} {command : Command}
  {outcome : Outcome} {key : CommandKey} {replayed : Bool} {body : CommandBody}
  {portions : List Portion} {operation : PublicationOperation} {id : CommandId}
  {expired : List DomainEvent}

/-! ## What decides about a run -/

/-- The run that the event admits or ends. -/
def DomainEvent.governs? : DomainEvent → Option RunId
  | .runAdmitted run _ _ _ _ _ _ | .runSucceeded run _ | .runFailed run _ => some run
  | _ => none

/-- Two states of a run with the same status (and with it output or error), root scope, input
and time of its end. -/
structure SameEnd (r r' : RunState) : Prop where
  status : r'.status = r.status
  root : r'.root = r.root
  input : r'.input = r.input
  terminalMs : r'.terminalMs = r.terminalMs

theorem SameEnd.refl (r : RunState) : SameEnd r r := ⟨rfl, rfl, rfl, rfl⟩

theorem SameEnd.trans {a b c : RunState} (h : SameEnd a b) (h' : SameEnd b c) : SameEnd a c :=
  ⟨h'.status.trans h.status, h'.root.trans h.root, h'.input.trans h.input,
    h'.terminalMs.trans h.terminalMs⟩

theorem sameEnd_after (h : e.governs? ≠ some run) :
    SameEnd r (r.after s e run) := by
  cases e with
  | runAdmitted run' | runSucceeded run' | runFailed run' =>
    have hne : run ≠ run' := by
      rintro rfl
      exact h rfl
    simpa [RunState.after, hne] using SameEnd.refl r
  | activationOpened | compensationStarted | eventAccepted =>
    simp only [RunState.after]
    split <;> exact ⟨rfl, rfl, rfl, rfl⟩
  | _ => exact .refl r

theorem sameEnd_evolveAll (hr : s.runs.lookup run = some r) (h : ∀ e ∈ es, e.governs? ≠ some run) :
    ∃ r', (evolveAll s es).runs.lookup run = some r' ∧ SameEnd r r' := by
  induction es generalizing s r with
  | nil => exact ⟨r, hr, .refl r⟩
  | cons e es ih =>
    obtain ⟨he, hes⟩ := List.forall_mem_cons.mp h
    have hfirst : (evolve s e).runs.lookup run = some (r.after s e run) := by
      rw [lookup_runs_evolve, hr]
      rfl
    obtain ⟨r', hr', hsame⟩ := ih hfirst hes
    exact ⟨r', hr', (sameEnd_after he).trans hsame⟩

/-- A root scope of a run that has ended has failed, or nothing can fail it. -/
theorem Sound.not_fallible {k : ScopeId} {sc : ScopeState} (sound : Sound s)
    (hended : RunEnded s run) (hroot : IsRoot s run k sc) (hfailed : sc.status.isFailed = false) :
    ¬ Fallible s k := by
  rintro (⟨sc', r, hsc', hr, hactive⟩ | ⟨a, act, hact, rfl, hready⟩)
  · obtain ⟨r', hr', hstatus⟩ := hended
    obtain rfl := Option.mem_unique hroot.hscope hsc'
    obtain rfl := Option.mem_unique hr (hroot.hrun ▸ hr')
    rw [hactive] at hstatus
    cases hstatus
  · -- The root has completed, so nothing in it is ready.
    have hopen := sound.rooted.closed run _ sc hended hroot
    have huncompleted := sound.nested.within a act hact (.inl (by simp [hready])) act sc hact
      hroot.hscope
    cases hstatus : sc.status with
    | «open» => exact hopen hstatus
    | completed => simp [hstatus, ScopeStatus.isCompleted] at huncompleted
    | failed => simp [hstatus, ScopeStatus.isFailed] at hfailed

/-- What a steady step records decides nothing about a run that has ended. -/
theorem Decided.governs_ne {step : Step} (before : AtRest step.before) (steady : Steady step)
    (decided : Decided env step) (hended : RunEnded step.before run) :
    ∀ e ∈ step.events, e.governs? ≠ some run := by
  intro e he hgoverns
  obtain ⟨o, move⟩ := decided.move steady.fresh.unreplayed
  have htree := before.sound.tree
  cases e with
  | runFailed run' error =>
    obtain rfl := Option.some.inj hgoverns
    obtain ⟨k, sc, hroot, hfailed, hfallible⟩ := (move.falling htree).root_of_mem he
    exact before.sound.not_fallible hended hroot hfailed hfallible
  | runAdmitted run' definition version input root policy admitted =>
    obtain rfl := Option.some.inj hgoverns
    rcases move.starts_or_completes_or_inner htree with
      ⟨started, definition, input, catalog, root, a, hbody, hes⟩ |
      ⟨k, scope, value, r, hk, hes, -⟩ | hinner
    · obtain ⟨k, sc, hroot⟩ := before.sound.rooted.rooted _ hended
      rw [hes] at he
      simp only [List.mem_cons, DomainEvent.runAdmitted.injEq, reduceCtorEq, List.not_mem_nil,
        or_false] at he
      exact steady.newRun _ _ _ _ hbody k sc hroot.hscope (hroot.hrun.trans he.1)
    · rw [hes] at he
      exact completeScope_all (P := fun e => e.kind ≠ .runAdmitted) (by simp) (by simp) _ he rfl
    · exact (hinner _ he).1 (by simp)
  | runSucceeded run' output =>
    obtain rfl := Option.some.inj hgoverns
    rcases move.starts_or_completes_or_inner htree with
      ⟨started, definition, input, catalog, root, a, hbody, hes⟩ |
      ⟨k, scope, value, r, hk, hes, hr, hactive⟩ | hinner
    · rw [hes] at he
      simp at he
    · rw [hes] at he
      have hrun : run' = scope.run :=
        completeScope_all (P := fun e => ∀ run output, e = .runSucceeded run output →
          run = scope.run) (by simp) (by rintro _ _ ⟨⟩; rfl) _ he run' output rfl
      subst hrun
      obtain ⟨r', hr', hstatus⟩ := hended
      obtain rfl := Option.mem_unique hr hr'
      rw [hactive] at hstatus
      cases hstatus
    · exact (hinner _ he).1 (by simp)
  | _ => cases hgoverns

/-! ## Entries of the log -/

/-- The run is as it was and nothing that was recorded has decided about it. -/
def Untouched (run : RunId) (r : RunState) (log : List Step) (s : Core) : Prop :=
  (∃ r', s.runs.lookup run = some r' ∧ SameEnd r r') ∧
    ∀ step ∈ log, ∀ e ∈ step.events, e.governs? ≠ some run

/-- A run that has ended stays as it is as long as no step that finds it ended decides about it. -/
theorem untouched_stepsOf (hr : s.runs.lookup run = some r) (hended : r.status.isActive = false)
    (h : ∀ step ∈ stepsOf replayed body time s portions, RunEnded step.before run →
      ∀ e ∈ step.events, e.governs? ≠ some run) :
    Untouched run r (stepsOf replayed body time s portions)
      (evolveAll s (portions.flatMap (·.events))) := by
  induction portions generalizing s r with
  | nil => exact ⟨⟨r, hr, .refl r⟩, List.forall_mem_nil _⟩
  | cons portion rest ih =>
    obtain ⟨hfirst, hrest⟩ := List.forall_mem_cons.mp h
    have hnone := hfirst ⟨r, hr, hended⟩
    obtain ⟨r', hr', hsame⟩ := sameEnd_evolveAll hr hnone
    obtain ⟨⟨r'', hr'', hsame'⟩, hlog⟩ := ih hr' (hsame.status ▸ hended) hrest
    rw [List.flatMap_cons, evolveAll, List.foldl_append]
    exact ⟨⟨r'', hr'', hsame.trans hsame'⟩, List.forall_mem_cons.mpr ⟨hnone, hlog⟩⟩

section Entries

variable {permit : Permit} {s s' : State}

theorem Change.untouched (change : Change env permit s log s') (hr : s.runs.lookup run = some r)
    (hended : r.status.isActive = false)
    (h : ∀ step ∈ log, RunEnded step.before run → ∀ e ∈ step.events, e.governs? ≠ some run) :
    Untouched run r log s'.toCore ∨ permit.prunes ∧ s'.runs.lookup run = none := by
  have hsame {t : Core} (hruns : t.runs = s.runs) : Untouched run r [] t :=
    ⟨⟨r, hruns ▸ hr, .refl r⟩, List.forall_mem_nil _⟩
  cases change with
  | timed | filed | published | cleared | dismissed | dropped | checkpointed =>
    exact .inl (hsame rfl)
  | admitted _ hnew =>
    refine .inl ⟨⟨r, ?_, .refl r⟩, List.forall_mem_nil _⟩
    rw [State.addRun, Table.lookup_insert_eq, if_neg, hr]
    rintro rfl
    cases hnew.symm.trans hr
  | decided _ _ _ _ happlied =>
    rw [(applyEventsWithCause_ok happlied).2.1]
    exact .inl (untouched_stepsOf hr hended h)
  | expired _ h =>
    rw [(applyEventsWithCause_ok h).2.1]
    exact .inl (hsame rfl)
  | @retired gone _ _ hprunes =>
    by_cases heq : run = gone
    · exact .inr ⟨hprunes, (Table.lookup_erase_eq ..).trans (if_pos heq)⟩
    · exact .inl ⟨⟨r, ((Table.lookup_erase_eq ..).trans (if_neg heq)).trans hr, .refl r⟩,
        List.forall_mem_nil _⟩

theorem Changes.untouched (changes : Changes env permit s log s') (hr : s.runs.lookup run = some r)
    (hended : r.status.isActive = false) (hcreates : ¬ permit.creates run)
    (h : ∀ step ∈ log, RunEnded step.before run → ∀ e ∈ step.events, e.governs? ≠ some run) :
    Untouched run r log s'.toCore ∨ permit.prunes ∧ s'.runs.lookup run = none := by
  induction changes with
  | refl => exact .inl ⟨⟨r, hr, .refl r⟩, List.forall_mem_nil _⟩
  | step _ change ih =>
    obtain ⟨hfirst, hlast⟩ := List.forall_mem_append.mp h
    rcases ih hfirst with ⟨⟨r', hr', hsame⟩, hlog⟩ | ⟨hprunes, hnone⟩
    · refine (change.untouched hr' (hsame.status ▸ hended) hlast).imp_left fun ⟨hlater, hnew⟩ => ?_
      obtain ⟨r'', hr'', hsame'⟩ := hlater
      exact ⟨⟨r'', hr'', hsame.trans hsame'⟩, List.forall_mem_append.mpr ⟨hlog, hnew⟩⟩
    · refine .inr ⟨hprunes, ?_⟩
      by_contra hsome
      obtain ⟨r', hr'⟩ := Option.ne_none_iff_exists'.mp hsome
      have hpins := change.creates.pins run r'.pins (by rw [State.pins, hr']; rfl)
      simp [State.pins, hnone, hcreates] at hpins
  | stamped _ hpast hend howner ih =>
    rcases ih h with ⟨⟨r', hr', hsame⟩, hlog⟩ | ⟨hprunes, hnone⟩
    · refine .inl ⟨⟨r', ?_, hsame⟩, hlog⟩
      obtain ⟨step, hstep, he⟩ := hpast
      rw [Core.modifyRun, Table.lookup_modify, if_neg, hr']
      rintro rfl
      refine hlog step hstep _ he ?_
      cases ‹DomainEvent› with
      | runSucceeded | runFailed => exact congrArg some (Option.some.inj (pure_eq_ok.mp howner))
      | _ => cases hend
    · refine .inr ⟨hprunes, ?_⟩
      rw [Core.modifyRun, Table.lookup_modify, hnone]
      split <;> rfl

end Entries

/-- In every state that steady steps reach, an entry of the log leaves a run that has ended with
its status, root scope, input and time of end, or it is a retention that removes the run. -/
theorem ended_run_unchanged {clusterId : String} {s : State} {r : RunState}
    (hrun : Run env (.empty clusterId) log s) (o : Enumeration) (command : Command)
    (steady : ∀ step ∈ log ++ (applyEntry env o s command).2, Steady step)
    (hr : s.runs.lookup run = some r) (hended : r.status.isActive = false) :
    (∃ r', (applyEntry env o s command).1.runs.lookup run = some r' ∧ SameEnd r r') ∨
      (∃ limit, command.body = .pruneHistory limit) ∧
        (applyEntry env o s command).1.runs.lookup run = none := by
  have hentry := hrun.entry o command
  have hdecided := Trace.decided (hentry.trace (keyed_empty clusterId))
  obtain ⟨-, hrest⟩ := hentry.atRest steady
  have hcreates : ¬ (command.permit env s).creates run := by
    intro hcreated
    have hnone := (Option.filter_eq_some_iff.mp hcreated).2
    simp [hr] at hnone
  refine ((applyEntry_changes command).untouched hr hended hcreates ?_).imp_left And.left
  intro step hstep hbefore
  have hmem := List.mem_append_right log hstep
  exact (hdecided step hmem).governs_ne (hrest step hmem) (steady step hmem) hbefore

/-! ## A start of a run that exists -/

/-- A workflow without work. -/
def idleWorkflow : Definition :=
  sampleWorkflow [] "done" [("done", .complete (.literal .null))]

/-- A run of it ends at its first progress. -/
def briefRun : List Command := [
  { id := ⟨1⟩, body := .start ⟨1⟩ idleWorkflow .null (sampleCatalog [] .retrySafe), time := 1 },
  { id := ⟨2⟩, body := .progress ⟨1⟩, time := 2 }]

/-- A start of the same run by another command. -/
def laterStart : Command where
  id := ⟨3⟩
  body := .start ⟨1⟩ idleWorkflow .null (sampleCatalog [] .retrySafe)
  time := 3

/-- The run has succeeded, and a start by another command makes it active with another root. -/
theorem restarted_active : ∃ log s r r',
    Run sampleEnv (.empty sampleCluster) log s ∧ s.runs.lookup ⟨1⟩ = some r ∧
    r.status = .succeeded .null ∧
    (applyEntry sampleEnv .stored s laterStart).1.runs.lookup ⟨1⟩ = some r' ∧
    r'.status = .active ∧ r'.root ≠ r.root := by
  obtain ⟨log, final, hrun, hcheck⟩ := exists_sampleRun briefRun
    (fun log final => (final.runs.lookup ⟨1⟩).any fun r =>
      r.status = .succeeded .null &&
      ((applyEntry sampleEnv .stored final laterStart).1.runs.lookup ⟨1⟩).any fun r' =>
      r'.status = .active ∧ r'.root ≠ r.root)
    (by decide +kernel)
  simp only [Option.any_eq_true, Bool.and_eq_true, decide_eq_true_eq] at hcheck
  obtain ⟨r, hr, hstatus, r', hr', hactive, hroot⟩ := hcheck
  exact ⟨_, _, r, r', hrun, hr, hstatus, hr', hactive, hroot⟩

/-- What an operator may still do about an obligation of a run that has ended. -/
def lateDecisions : List Command := [
  { id := ⟨7⟩, body := .abandonCompensation ⟨1⟩ "given up", time := 7 },
  { id := ⟨7⟩, body := .resolveBlocked ⟨1⟩ ⟨66⟩ .null, time := 7 }]

/-- The run has succeeded with a blocked obligation. Both decisions about it are recorded and
leave the run as it ended. -/
theorem bookedTrip_unchanged : ∃ log s r,
    Run sampleEnv (.empty sampleCluster) log s ∧ s.runs.lookup ⟨1⟩ = some r ∧
    r.status = .succeeded .null ∧ ∀ command ∈ lateDecisions,
      (∀ step ∈ log ++ (applyEntry sampleEnv .stored s command).2, Steady step) ∧
      (applyEntry sampleEnv .stored s command).2 ≠ [] ∧
      ∃ r', (applyEntry sampleEnv .stored s command).1.runs.lookup ⟨1⟩ = some r' ∧
        SameEnd r r' := by
  obtain ⟨log, final, hrun, hcheck⟩ :=
    exists_sampleRun (bookedTrip (.from .forwardOutput (some "/receipt")))
    (fun log final => (final.runs.lookup ⟨1⟩).any (fun r => r.status = .succeeded .null) &&
      lateDecisions.all fun command =>
      (log ++ (applyEntry sampleEnv .stored final command).2).all Step.checksSteady &&
      (applyEntry sampleEnv .stored final command).2.length = 1)
    (by decide +kernel)
  simp only [Option.any_eq_true, Bool.and_eq_true, decide_eq_true_eq, List.all_eq_true] at hcheck
  obtain ⟨⟨r, hr, hstatus⟩, hdecisions⟩ := hcheck
  refine ⟨log, final, r, hrun, hr, hstatus, fun command hcommand => ?_⟩
  obtain ⟨hchecks, hlength⟩ := hdecisions command hcommand
  have hsteady : ∀ step ∈ _, Steady step := fun step hstep =>
    Step.steady_of_checksSteady (hchecks step hstep)
  refine ⟨hsteady, List.ne_nil_of_length_pos (by rw [hlength]; exact Nat.one_pos), ?_⟩
  have hended : r.status.isActive = false := by rw [hstatus]; rfl
  refine (ended_run_unchanged hrun .stored command hsteady hr hended).resolve_right ?_
  rintro ⟨⟨limit, hbody⟩, -⟩
  simp only [lateDecisions, List.mem_cons, List.not_mem_nil, or_false] at hcommand
  rcases hcommand with rfl | rfl <;> cases hbody

end Graphrun
