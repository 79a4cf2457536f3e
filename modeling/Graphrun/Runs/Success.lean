import Graphrun.Sagas.Enclosure

/-!
# What a run leaves behind when it succeeds

A run succeeds with the completion of its root scope, and nothing looks at the rest of the run.
That the rest has come to an end follows upwards: a scope that has not completed hangs from an
activation that has not succeeded, and this one is in a scope that has not completed. So with the
root all scopes of the run have completed, nothing in them is unsettled, and what is owed is held
by sagas that have not succeeded (`Sound.spent`).

The statement fails for obligations that are blocked: a saga whose body completes succeeds with
them (`blockedObligation_left`). It holds in runs in which no saga gets to that point with a
blocked obligation (`success_leaves_nothing`).
-/

namespace Graphrun

open Lib

variable {env : Env} {o : Enumeration} {s s' : Core} {e : DomainEvent} {time : Nat} {ids : IdGen}
  {es : List DomainEvent} {run : RunId} {log : List Step} {item : Obligation} {body : CommandBody}
  {step : Step}

/-- Everything of the run has come to an end. -/
structure Spent (s : Core) (run : RunId) : Prop where
  scopes : ∀ k sc, s.scopes.lookup k = some sc → sc.run = run → sc.status.isCompleted = true
  activations : ∀ a act, s.activations.lookup a = some act → act.run = run →
    act.status ≠ .open ∧ act.status ≠ .ready
  waits : ∀ w wait, s.waits.lookup w = some wait → wait.run = run → wait.pending = false
  obligations : ∀ item ∈ s.obligations, item.run = run →
    item.status = .compensated ∨ item.status = .released ∨
      ∃ reason, item.status = .irreversible reason

/-! ## Abandoned obligations -/

/-- Obligations are abandoned with their run. -/
def Forsaken (s : Core) : Prop :=
  ∀ item ∈ s.obligations, item.status = .abandoned →
    ∀ r, s.runs.lookup item.run = some r → r.status.isActive = false

theorem abandoned_cases (hitem : item ∈ (evolveAll s es).obligations)
    (h : item.status = .abandoned) :
    (∃ old ∈ s.obligations, old.run = item.run ∧ old.status = .abandoned) ∨
      ∃ reason unresolved, .compensationAbandoned item.run reason unresolved ∈ es := by
  induction es generalizing s with
  | nil => exact .inl ⟨item, hitem, rfl, h⟩
  | cons e es ih =>
    rcases ih hitem with ⟨mid, hmid, hrun, hstatus⟩ | ⟨reason, unresolved, hmem⟩
    · rcases obligation_after_cases hmid with hold | ⟨old, hold, change⟩ |
        ⟨_, _, _, _, _, _, howes, -, rfl, -⟩
      · exact .inl ⟨mid, hold, hrun, hstatus⟩
      · cases change with
        | abandoned hown => exact .inr ⟨_, _, by rw [← hrun, hown]; exact List.mem_cons_self⟩
        | transferred => exact .inl ⟨old, hold, hrun, hstatus⟩
        | blocked =>
          simp only [blockedStatus] at hstatus
          split at hstatus <;> cases hstatus
        | _ => cases hstatus
      · cases e <;> cases howes
        · cases hstatus
        · simp only [newObligation, blockedStatus] at hstatus
          split at hstatus <;> cases hstatus
    · exact .inr ⟨reason, unresolved, List.mem_cons_of_mem _ hmem⟩

/-- Only an operator abandons obligations. -/
theorem Move.abandoned_of_mem {reason : String} {unresolved : List ActivationId}
    (move : Move env o s time body es)
    (hmem : .compensationAbandoned run reason unresolved ∈ es) :
    ∃ runState failed, s.runs.lookup run = some runState ∧
      es = .compensationAbandoned run reason unresolved :: failed ∧
      ((runState.status.isActive = true → rootScope? o s run = none) ∧ failed = [] ∨
        ∃ root error, runState.status.isActive = true ∧ rootScope? o s run = some root ∧
          Failing o s root.id error failed) := by
  have hkind := move.kinds _ hmem
  have hnone : .compensationAbandoned ∉ body.kinds → False := fun h => h hkind
  cases move with
  | @abandoned run' reason' runState failed hrun hfailed =>
    rcases List.mem_cons.mp hmem with heq | hmem
    · injection heq with hrun' hreason hunresolved
      subst hrun' hreason hunresolved
      exact ⟨runState, failed, hrun, rfl, hfailed⟩
    · rcases hfailed with ⟨-, rfl⟩ | ⟨root, error, -, -, hfailing⟩
      · cases hmem
      · have hfailure := hfailing.kinds (List.Subset.refl failureKinds) _ hmem
        simp at hfailure
  | accepted h | compensated h | retried h | blocked h | lost h | erred h | notApplied h
  | unknown h => exact (hnone (by rw [kinds_of_reported? h.hbody]; decide)).elim
  | satisfied h | timedOut h =>
    exact (hnone (by rcases h.hbody with rfl | rfl <;> simp)).elim
  | outside houtside => cases houtside _ hmem
  | started | resolved | signalled | advanced | cancelled | cancelledSagas | claimed | renewed =>
    exact (hnone (by simp)).elim

theorem ScopeRole.eq_root {role : ScopeRole} (h : role.activation? = none) : role = .root := by
  cases role with
  | root => rfl
  | _ => cases h

theorem Tree.root_of_scope {k : ScopeId} {sc : ScopeState} (tree : Tree s)
    (hk : s.scopes.lookup k = some sc) : ∃ root sc', IsRoot s sc.run root sc' := by
  obtain ⟨region, hregion⟩ := tree.region k sc hk
  induction hregion generalizing sc with
  | @root k sc' run hscope _ hrole =>
    obtain rfl := Option.mem_unique hk hscope
    refine ⟨k, sc, hk, rfl, ?_⟩
    exact ScopeRole.eq_root hrole
  | @body k sc' run a act above region node hscope _ hrole hact _ _ _ ih =>
    obtain rfl := Option.mem_unique hk hscope
    obtain ⟨up, hup, hrun⟩ := tree.placed a act hact
    obtain ⟨root, sc', hroot⟩ := ih hup
    rw [hrun, tree.hung k sc a act hk ((tree.parent k sc hk).trans hrole) hact] at hroot
    exact ⟨root, sc', hroot⟩

/-- A root that is open fails with its run. -/
theorem Failing.ends {root : ScopeState} {error : FailError} (h : Failing o s root.id error es)
    (hroot : s.scopes.lookup root.id = some root) (hrole : root.role = .root)
    (hopen : root.status = .open) : .runFailed root.run error ∈ es := by
  cases h with
  | already hscope hfailed =>
    obtain rfl := Option.mem_unique hroot hscope
    rw [hopen] at hfailed
    cases hfailed
  | inner hscope _ hinner =>
    obtain rfl := Option.mem_unique hroot hscope
    exact absurd hrole hinner
  | root hscope =>
    obtain rfl := Option.mem_unique hroot hscope
    simp

theorem Owed.scope_exists (tree : Tree s) (owed : Owed s) (hitem : item ∈ s.obligations) :
    ∃ k sc, s.scopes.lookup k = some sc ∧ sc.run = item.run := by
  obtain ⟨act, hact, hown⟩ := owed.owned item hitem
  obtain ⟨sc, hsc, hrun⟩ := tree.placed _ act hact
  exact ⟨act.scope, sc, hsc, hrun.trans hown⟩

theorem Owed.run_exists (tree : Tree s) (owed : Owed s) (hitem : item ∈ s.obligations) :
    ∃ r, s.runs.lookup item.run = some r := by
  obtain ⟨k, sc, hk, hown⟩ := owed.scope_exists tree hitem
  obtain ⟨r, hr⟩ := tree.run_of_scope hk
  exact ⟨r, hown ▸ hr⟩

theorem Forsaken.move (rest : AtRest s) (owed : Owed s) (placed : Guarded Placed s es)
    (hnew : StartsNew s body) (move : Move env o s time body es)
    (forsaken : Forsaken s) : Forsaken (evolveAll s es) := by
  intro item hitem hstatus r hr
  have hended : RunEnded (evolveAll s es) item.run → r.status.isActive = false := by
    rintro ⟨r', hr', hended⟩
    obtain rfl := Option.mem_unique hr hr'
    exact hended
  have tree := rest.sound.tree
  rcases abandoned_cases hitem hstatus with ⟨old, hold, hrun, habandoned⟩ |
    ⟨reason, unresolved, hmem⟩
  · obtain ⟨k, sc, hk, hown⟩ := owed.scope_exists tree hold
    obtain ⟨before, hbefore⟩ := owed.run_exists tree hold
    rw [← hrun] at hended hr
    have hold' : RunEnded s old.run :=
      ⟨before, hbefore, forsaken old hold habandoned before hbefore⟩
    exact hended (hold'.kept (move.not_admitted tree hnew hk hown))
  · obtain ⟨runState, failed, hrunState, rfl, hfailed⟩ := move.abandoned_of_mem hmem
    have howes : ∀ e ∈ .compensationAbandoned item.run reason unresolved :: failed,
        e.owes? = none := by
      refine List.forall_mem_cons.mpr ⟨rfl, ?_⟩
      rcases hfailed with ⟨-, rfl⟩ | ⟨root, error, -, -, hfailing⟩
      · exact List.forall_mem_nil _
      · exact hfailing.all (fun _ => rfl) (fun _ => rfl) (fun _ _ => rfl) fun _ _ => rfl
    obtain ⟨old, hold, -, hsame⟩ := obligation_origin howes hitem
    obtain ⟨k, sc, hk, hown⟩ := owed.scope_exists tree hold
    rw [hsame] at hown
    have hadmitted := move.not_admitted tree hnew hk hown
    obtain ⟨root, sc', hroot⟩ := tree.root_of_scope hk
    rw [hown] at hroot
    rcases hfailed with ⟨hnone, rfl⟩ | ⟨root, error, hactive, hfound, hfailing⟩
    · refine hended (RunEnded.kept (runEnded_of_not_active hrunState fun hactive => ?_) hadmitted)
      exact rootScope?_isSome hroot.hscope hroot.hrun hroot.hrole (hnone hactive)
    · obtain ⟨hlookup, hrun, hrole⟩ := rootScope?_eq_some tree.keyed hfound
      have hopen := rest.roots _ root runState hlookup hrole (hrun ▸ hrunState) hactive
      have hmem := hfailing.ends hlookup hrole hopen
      rw [hrun] at hmem
      exact hended (runEnded_of_mem placed hrunState (List.mem_cons_of_mem _ hmem) hadmitted)

theorem Forsaken.quiet (change : Quiet s s') (tree : Tree s) (owed : Owed s)
    (forsaken : Forsaken s) : Forsaken s' := by
  intro item hitem hstatus r hr
  have hold := mem_obligations_quiet change hitem
  obtain ⟨before, hbefore⟩ := owed.run_exists tree hold
  exact RunEnded.quiet change ⟨before, hbefore, forsaken item hold hstatus before hbefore⟩ hr

/-! ## The invariant of a run -/

/-- Before a step, the saga that progress would settle holds no blocked obligation, and the
compensations of all runs have been accepted by the compiler. -/
structure Settleable (step : Step) : Prop where
  clear : ∀ run, step.body = .progress run → SagasClear step.before run
  compensable : Compensable step.before

/-- What holds between steps. -/
structure InOrder (s : Core) : Prop where
  rest : AtRest s
  owed : Owed s
  once : OneEach s
  forsaken : Forsaken s

theorem InOrder.quiet (change : Quiet s s') (order : InOrder s) : InOrder s' where
  rest := order.rest.quiet change
  owed := order.owed.quiet change order.rest.sound.tree
  once := order.once.quiet change
  forsaken := order.forsaken.quiet change order.rest.sound.tree order.owed

theorem inOrder_empty (clusterId : String) : InOrder (State.empty clusterId).toCore where
  rest := atRest_empty clusterId
  owed := owed_empty clusterId
  once := List.nodup_nil
  forsaken _ h := by cases h

theorem Decided.owing (before : InOrder step.before) (steady : Steady step)
    (settleable : Settleable step) (decided : Decided env step) :
    Guarded Owing step.before step.events := by
  obtain ⟨o, move⟩ := decided.move steady.fresh.unreplayed
  have sound := before.rest.sound
  exact move.owing sound before.owed before.once (decided.respects before.rest steady)
    settleable.clear fun _ _ _ => enclosed_of_compensable sound.tree sound.nested
      settleable.compensable

theorem Decided.inOrder (before : InOrder step.before) (steady : Steady step)
    (settleable : Settleable step) (decided : Decided env step) : InOrder step.after where
  rest := decided.atRest before.rest steady
  owed := before.owed.evolveAll (decided.respects before.rest steady)
    (decided.owing before steady settleable)
  once := Guarded.keeps (G := fun _ _ => True) (fun _ _ _ h => h.evolve)
    (Guarded.of_all fun _ _ _ => trivial) before.once
  forsaken := by
    obtain ⟨o, move⟩ := decided.move steady.fresh.unreplayed
    exact before.forsaken.move before.rest before.owed
      (decided.placed before.rest.sound.tree steady.fresh) steady.newRun move

/-! ## Success -/

/-- With the root of a run all of its scopes have completed. -/
theorem Sound.completed_of_root {k root : ScopeId} {sc rootScope : ScopeState} (sound : Sound s)
    (hroot : IsRoot s run root rootScope) (hdone : rootScope.status.isCompleted = true)
    (hk : s.scopes.lookup k = some sc) (hrun : sc.run = run) : sc.status.isCompleted = true := by
  obtain ⟨region, hregion⟩ := sound.tree.region k sc hk
  induction hregion generalizing sc with
  | @root k sc' r hscope _ hrole =>
    obtain rfl := Option.mem_unique hk hscope
    obtain rfl := sound.rooted.single run k root sc rootScope
      ⟨hk, hrun, ScopeRole.eq_root hrole⟩ hroot
    obtain rfl := Option.mem_unique hk hroot.hscope
    exact hdone
  | @body k sc' r a act above region node hscope _ hrole hact _ _ _ ih =>
    obtain rfl := Option.mem_unique hk hscope
    by_contra hopen
    have hparent : sc.parent = some a := (sound.tree.parent k sc hk).trans hrole
    have hstatus := sound.nested.above k sc a act hk hparent hact (by simpa using hopen)
    obtain ⟨up, hup, hown⟩ := sound.tree.placed a act hact
    have huncompleted := sound.nested.within a act hact (.inl hstatus) act up hact hup
    have hsame := sound.tree.hung k sc a act hk hparent hact
    rw [ih hup (hown.trans (hsame.trans hrun))] at huncompleted
    cases huncompleted

theorem Sound.spent {root : ScopeId} {rootScope : ScopeState} (sound : Sound s) (owed : Owed s)
    (forsaken : Forsaken s) {r : RunState} (hr : s.runs.lookup run = some r)
    (hactive : r.status.isActive = true) (hroot : IsRoot s run root rootScope)
    (hdone : rootScope.status.isCompleted = true) : Spent s run := by
  have hscopes : ∀ k sc, s.scopes.lookup k = some sc → sc.run = run →
      sc.status.isCompleted = true := fun _ _ => sound.completed_of_root hroot hdone
  have hsettled : ∀ a act, s.activations.lookup a = some act → act.run = run →
      ¬ Unsettled s a act := by
    intro a act hact hrun hunsettled
    obtain ⟨sc, hsc, hown⟩ := sound.tree.placed a act hact
    have huncompleted := sound.nested.within a act hact hunsettled act sc hact hsc
    rw [hscopes act.scope sc hsc (hown.trans hrun)] at huncompleted
    cases huncompleted
  refine ⟨hscopes, fun a act hact hrun => ?_, fun w wait hwait hrun => ?_,
    fun item hitem hrun => ?_⟩
  · have hstatus : act.status = .succeeded := by
      by_contra hne
      exact hsettled a act hact hrun (.inl hne)
    simp [hstatus]
  · by_contra hpending
    have hpending : wait.pending = true := by simpa using hpending
    obtain ⟨act, hact, -, hown, -⟩ := sound.tokens.waiting w wait hwait hpending
    exact hsettled _ act hact (hown.trans hrun) (.inr ⟨w, wait, hwait, rfl, hpending⟩)
  · have howed : item.status.isOwed = false := by
      by_contra howed
      obtain ⟨⟨act, hact, hne⟩, -⟩ := owed.held item hitem (by simpa using howed)
      obtain ⟨act', hact', hown⟩ := owed.owned item hitem
      obtain rfl := Option.mem_unique hact hact'
      exact hsettled _ act hact (hown.trans hrun) (.inl hne)
    cases hstatus : item.status with
    | abandoned =>
      have hended := forsaken item hitem hstatus r (hrun ▸ hr)
      rw [hactive] at hended
      cases hended
    | compensated => simp
    | released => simp
    | irreversible => simp
    | _ =>
      rw [hstatus] at howed
      cases howed

theorem Run.inOrder {clusterId : String} {s : State} (reached : Run env (.empty clusterId) log s)
    (hsteps : ∀ step ∈ log, Steady step ∧ Settleable step) :
    InOrder s.toCore ∧ ∀ step ∈ log, InOrder step.before :=
  (reached.trace (keyed_empty clusterId)).invariant (fun _ _ change => InOrder.quiet change)
    (fun _ hdecided hstep hbefore => hdecided.inOrder hbefore hstep.1 hstep.2)
    (inOrder_empty clusterId) hsteps

/-- A run succeeds right after its root scope has completed. -/
theorem Move.root_of_succeeded {before after : List DomainEvent} {output : Value} (tree : Tree s)
    (move : Move env o s time body (before ++ .runSucceeded run output :: after)) :
    ∃ scope r, s.scopes.lookup scope.id = some scope ∧ scope.run = run ∧ scope.role = .root ∧
      before = [.scopeCompleted run scope.id output] ∧ after = [] ∧
      s.runs.lookup run = some r ∧ r.status.isActive = true := by
  rcases move.starts_or_completes_or_inner tree with ⟨_, _, _, _, _, _, -, hes⟩ |
    ⟨k, scope, value, r, hk, hes, hr, hactive⟩ | hinner
  · have hmem : DomainEvent.runSucceeded run output ∈
        before ++ .runSucceeded run output :: after := by simp
    rw [hes] at hmem
    simp at hmem
  · obtain rfl := tree.keyed.scopes k scope hk
    unfold completeScope at hes
    cases before with
    | nil =>
      obtain ⟨heq, -⟩ := List.cons.inj hes
      cases heq
    | cons first rest =>
      obtain ⟨rfl, hrest⟩ := List.cons.inj hes
      split at hrest
      · next hrole =>
        obtain ⟨rfl, heq⟩ | ⟨rest', rfl, hrest⟩ := List.append_eq_cons_iff.mp hrest
        · simp only [List.cons.injEq, DomainEvent.runSucceeded.injEq] at heq
          obtain ⟨⟨rfl, rfl⟩, rfl⟩ := heq
          exact ⟨scope, r, hk, rfl, hrole, rfl, rfl, hr, hactive⟩
        · simp at hrest
      · simp at hrest
  · exact absurd (by simp) (hinner (.runSucceeded run output) (by simp)).1

/-- In every run in which no saga is settled with blocked obligations, a run that succeeds leaves
nothing behind. -/
theorem success_leaves_nothing {clusterId : String} {final : State} {past : List DomainEvent}
    {core : Core} {output : Value} (reached : Run env (.empty clusterId) log final)
    (hsteps : ∀ step ∈ log, Steady step ∧ Settleable step)
    (happlied : Applied log past core (.runSucceeded run output)) : Spent core run := by
  obtain ⟨-, hbefore⟩ := reached.inOrder hsteps
  obtain @⟨earlier, later, step, before, after, _, hlog, hevents⟩ := happlied
  have hstep : step ∈ log := by simp [hlog]
  obtain ⟨steady, settleable⟩ := hsteps step hstep
  have order := hbefore step hstep
  have decided := (reached.trace (keyed_empty clusterId)).decided step hstep
  obtain ⟨o, move⟩ := decided.move steady.fresh.unreplayed
  have hrespects := decided.respects order.rest steady
  have howing := decided.owing order steady settleable
  rw [hevents] at move hrespects howing
  obtain ⟨scope, r, hk, rfl, hrole, rfl, -, hr, hactive⟩ :=
    move.root_of_succeeded order.rest.sound.tree
  have hfirst := (guarded_append.mp hrespects).1
  have hsound := order.rest.sound.evolveAll hfirst
  have howed := order.owed.evolveAll hfirst (guarded_append.mp howing).1
  -- The completion of a scope changes neither runs nor obligations.
  have hruns (run) :
      (evolveAll step.before [.scopeCompleted scope.run scope.id output]).runs.lookup run =
        step.before.runs.lookup run := by
    simp only [evolveAll, List.foldl_cons, List.foldl_nil]
    rw [lookup_runs_evolve]
    exact Option.map_id'
  have hforsaken :
      Forsaken (evolveAll step.before [.scopeCompleted scope.run scope.id output]) := by
    intro item hitem hstatus r' hr'
    rw [hruns] at hr'
    simp only [evolveAll, List.foldl_cons, List.foldl_nil, evolve_obligations] at hitem
    exact order.forsaken item hitem hstatus r' hr'
  have hroot : IsRoot (evolveAll step.before [.scopeCompleted scope.run scope.id output]) scope.run
      scope.id (scope.after (.scopeCompleted scope.run scope.id output) scope.id) := by
    refine ⟨?_, rfl, hrole⟩
    simp only [evolveAll, List.foldl_cons, List.foldl_nil]
    rw [lookup_scopes_evolve]
    simp [scopeAfter, newScope, hk]
  exact hsound.spent howed hforsaken ((hruns _).trans hr) hactive hroot
    (by simp [ScopeState.after, scopeStatusAfter, ScopeStatus.isCompleted])

/-! ## A saga with an obligation -/

/-- A saga around an activity whose compensation takes the given input. -/
def tripWorkflow (input : Binding) : Definition :=
  sampleWorkflow [] "trip" [("done", .complete (.literal .null)),
    ("trip", .saga (.literal .null) (sampleRegion "book" [
      ("book", sampleActivity "book" (some (.activity ⟨"cancel", 1⟩ input none none)) "done"),
      ("done", .complete (.literal .null))]) "done")]

/-- A start, the result of the activity, and progress up to the end of the run. -/
def bookedTrip (input : Binding) : List Command := [
  { id := ⟨1⟩
    body := .start ⟨1⟩ (tripWorkflow input) .null (sampleCatalog ["book", "cancel"] .retrySafe)
    time := 1 },
  { id := ⟨2⟩, body := .progress ⟨1⟩, time := 2 },
  { id := ⟨3⟩, body := .reportLeaf ⟨1⟩ ⟨66⟩ .null, time := 3 },
  { id := ⟨4⟩, body := .progress ⟨1⟩, time := 4 },
  { id := ⟨5⟩, body := .progress ⟨1⟩, time := 5 },
  { id := ⟨6⟩, body := .progress ⟨1⟩, time := 6 }]

/-- The compiler accepts the compensations of all runs. -/
def Step.checksCompensable (step : Step) : Bool :=
  step.before.runs.entries.all fun entry =>
    (checkCompensations entry.2.catalog false entry.2.definition.root).toBool

theorem compensable_of_check (h : step.checksCompensable = true) :
    Compensable step.before := by
  intro run r hr
  have hentry := List.all_eq_true.mp h _ (AList.mem_lookup_iff.mp hr)
  cases hchecked : checkCompensations r.catalog false r.definition.root with
  | ok => rfl
  | error fault =>
    dsimp only at hentry
    rw [hchecked] at hentry
    cases hentry

/-- The input of the compensation is a part of the output that the output does not have. The
obligation is blocked, and the run succeeds with it. -/
theorem blockedObligation_left : ∃ log final, Run sampleEnv (.empty sampleCluster) log final ∧
    (∀ step ∈ log, Steady step ∧ Compensable step.before) ∧
    ∃ past core output, Applied log past core (.runSucceeded ⟨1⟩ output) ∧
      ∃ item ∈ core.obligations, item.run = ⟨1⟩ ∧ item.status.isBlocked = true := by
  obtain ⟨log, final, hrun, hcheck⟩ :=
    exists_sampleRun (bookedTrip (.from .forwardOutput (some "/receipt")))
    (fun log _ => log.all (fun step => step.checksSteady && step.checksCompensable) &&
      (appliedAt log 5 1).any fun applied => applied.2.2 = .runSucceeded ⟨1⟩ .null &&
      applied.2.1.obligations.any fun item => item.run = ⟨1⟩ ∧ item.status.isBlocked)
    (by decide +kernel)
  simp only [Bool.and_eq_true, List.all_eq_true, Option.any_eq_true, List.any_eq_true,
    decide_eq_true_eq] at hcheck
  obtain ⟨hsteps, ⟨past, core, e⟩, happlied, hevent, item, hitem, hown, hblocked⟩ := hcheck
  dsimp only at hevent
  exact ⟨_, _, hrun, fun step hstep => ⟨Step.steady_of_checksSteady (hsteps step hstep).1,
    compensable_of_check (hsteps step hstep).2⟩, past, core, .null,
    hevent ▸ applied_of_appliedAt happlied, item, hitem, hown, hblocked⟩

/-- Before the step no obligation is blocked. -/
def Step.checksUnblocked (step : Step) : Bool :=
  step.before.obligations.all fun item => !item.status.isBlocked

theorem settleable_of_check (hunblocked : step.checksUnblocked = true)
    (hcompensable : step.checksCompensable = true) : Settleable step where
  clear _ _ _ _ _ _ _ _ _ _ _ _ item hitem _ := by
    simpa using List.all_eq_true.mp hunblocked item hitem
  compensable := compensable_of_check hcompensable

/-- With an input that can be evaluated the obligation is released. -/
theorem openObligation_released : ∃ log final, Run sampleEnv (.empty sampleCluster) log final ∧
    (∀ step ∈ log, Steady step ∧ Settleable step) ∧
    ∃ past core output, Applied log past core (.runSucceeded ⟨1⟩ output) ∧
      core.obligations ≠ [] ∧ Spent core ⟨1⟩ := by
  obtain ⟨log, final, hrun, hcheck⟩ := exists_sampleRun (bookedTrip (.literal .null))
    (fun log _ => log.all (fun step => step.checksSteady &&
      step.checksUnblocked && step.checksCompensable) &&
      (appliedAt log 5 1).any fun applied => applied.2.2 = .runSucceeded ⟨1⟩ .null &&
        !applied.2.1.obligations.isEmpty)
    (by decide +kernel)
  simp only [Bool.and_eq_true, List.all_eq_true, Option.any_eq_true, decide_eq_true_eq] at hcheck
  obtain ⟨hsteps, ⟨past, core, e⟩, happlied, hevent, hsome⟩ := hcheck
  have hsteps : ∀ step ∈ _, Steady step ∧ Settleable step := fun step hstep =>
    ⟨Step.steady_of_checksSteady (hsteps step hstep).1.1,
      settleable_of_check (hsteps step hstep).1.2 (hsteps step hstep).2⟩
  dsimp only at hevent
  subst hevent
  have happlied := applied_of_appliedAt happlied
  exact ⟨_, _, hrun, hsteps, past, core, .null, happlied, by simpa using hsome,
    success_leaves_nothing hrun hsteps happlied⟩

end Graphrun
