import Graphrun.Engine.NestingMoves

/-!
# Root scopes and the ends of runs

A run ends with its root scope: a run that has ended has a root scope, one only, and it is not
open (`Rooted`). The other direction holds between steps and not within them, since a root scope
completes one event before its run succeeds (`RootsOpen`).

A move fails scopes of active runs, or the scope of the activation that it reports on
(`Move.falling`); a run is admitted by a start and succeeds with the completion of its root
(`Move.starts_or_completes_or_inner`).
-/

namespace Graphrun

open Lib

variable {env : Env} {o : Enumeration} {s s' : Core} {e : DomainEvent} {time : Nat} {ids : IdGen}
  {es : List DomainEvent} {run : RunId} {k : ScopeId} {sc : ScopeState} {error : FailError}
  {act : ActivationState} {r : RunState} {body : CommandBody}

/-! ## The invariant -/

structure IsRoot (s : Core) (run : RunId) (k : ScopeId) (sc : ScopeState) : Prop where
  hscope : s.scopes.lookup k = some sc
  hrun : sc.run = run
  hrole : sc.role = .root

/-- The run has succeeded or failed. -/
def RunEnded (s : Core) (run : RunId) : Prop :=
  ∃ r, s.runs.lookup run = some r ∧ r.status.isActive = false

structure Rooted (s : Core) : Prop where
  single : ∀ run k k' sc sc', IsRoot s run k sc → IsRoot s run k' sc' → k = k'
  rooted : ∀ run, RunEnded s run → ∃ k sc, IsRoot s run k sc
  closed : ∀ run k sc, RunEnded s run → IsRoot s run k sc → sc.status ≠ .open

/-- What an event has to respect in order to keep this. -/
def Rooting (s : Core) : DomainEvent → Prop
  | .scopeOpened run _ _ role _ => role = .root →
    (∀ k sc, ¬ IsRoot s run k sc) ∧ ¬ RunEnded s run
  | .runSucceeded run _ =>
    (∃ k sc, IsRoot s run k sc) ∧ ∀ k sc, IsRoot s run k sc → sc.status ≠ .open
  | .runFailed run _ => ∃ k sc, IsRoot s run k sc
  | _ => True

/-- A run is ended by its own events. -/
theorem runEnded_evolve_cases (h : RunEnded (evolve s e) run) :
    RunEnded s run ∨ (∃ output, e = .runSucceeded run output) ∨
      ∃ error, e = .runFailed run error := by
  obtain ⟨r, hr, hended⟩ := h
  rw [lookup_runs_evolve] at hr
  obtain ⟨old, hold, rfl⟩ := Option.map_eq_some_iff.mp hr
  cases e with
  | runSucceeded run' output =>
    by_cases hrun : run = run'
    · exact .inr (.inl ⟨output, by rw [hrun]⟩)
    · exact .inl ⟨old, hold, by simpa [RunState.after, hrun] using hended⟩
  | runFailed run' error =>
    by_cases hrun : run = run'
    · exact .inr (.inr ⟨error, by rw [hrun]⟩)
    · exact .inl ⟨old, hold, by simpa [RunState.after, hrun] using hended⟩
  | runAdmitted run' definition version input root policy admitted =>
    by_cases hrun : run = run'
    · simp [RunState.after, hrun, RunStatus.isActive] at hended
    · exact .inl ⟨old, hold, by simpa [RunState.after, hrun] using hended⟩
  | activationOpened | compensationStarted | eventAccepted =>
    refine .inl ⟨old, hold, ?_⟩
    simp only [RunState.after] at hended
    split at hended <;> exact hended
  | _ => exact .inl ⟨old, hold, hended⟩

theorem IsRoot.evolve (placed : Placed s e) (h : IsRoot s run k sc) :
    ∃ sc', IsRoot (Graphrun.evolve s e) run k sc' := by
  obtain ⟨sc', hsc', hrun, -, hrole, -⟩ := (keeps_evolve placed run).scopes k sc h.hscope h.hrun
  exact ⟨sc', hsc', hrun.trans h.hrun, hrole.trans h.hrole⟩

theorem Rooted.evolve (placed : Placed s e) (rooting : Rooting s e) (rooted : Rooted s) :
    Rooted (Graphrun.evolve s e) where
  single run k k' sc sc' h h' := by
    rcases scope_after_cases h.hscope with ⟨old, hold, rfl⟩ | ⟨_, _, _, _, rfl, rfl⟩
    · rcases scope_after_cases h'.hscope with ⟨old', hold', rfl⟩ | ⟨_, _, _, _, rfl, rfl⟩
      · exact rooted.single run k k' old old' ⟨hold, h.hrun, h.hrole⟩ ⟨hold', h'.hrun, h'.hrole⟩
      · exact absurd ⟨hold, h.hrun.trans h'.hrun.symm, h.hrole⟩ ((rooting h'.hrole).1 k old)
    · rcases scope_after_cases h'.hscope with ⟨old', hold', rfl⟩ | ⟨_, _, _, _, heq, -⟩
      · exact absurd ⟨hold', h'.hrun.trans h.hrun.symm, h'.hrole⟩ ((rooting h.hrole).1 k' old')
      · injection heq
  rooted run hended := by
    obtain ⟨k, sc, hroot⟩ : ∃ k sc, IsRoot s run k sc := by
      rcases runEnded_evolve_cases hended with hended | ⟨output, rfl⟩ | ⟨error, rfl⟩
      · exact rooted.rooted run hended
      · exact rooting.1
      · exact rooting
    exact ⟨k, hroot.evolve placed⟩
  closed run k sc hended h hopen := by
    rcases scope_after_cases h.hscope with ⟨old, hold, rfl⟩ | ⟨_, _, _, _, rfl, rfl⟩
    · have hroot : IsRoot s run k old := ⟨hold, h.hrun, h.hrole⟩
      have hbefore := scopeStatus_open hopen
      rcases runEnded_evolve_cases hended with hended | ⟨output, rfl⟩ | ⟨error, rfl⟩
      · exact rooted.closed run k old hended hroot hbefore
      · exact rooting.2 k old hroot hbefore
      · simp [ScopeState.after, scopeStatusAfter, hroot.hrun, hbefore] at hopen
    · rcases runEnded_evolve_cases hended with hended | ⟨output, heq⟩ | ⟨error, heq⟩
      · obtain rfl := h.hrun
        exact (rooting h.hrole).2 hended
      · cases heq
      · cases heq

theorem runEnded_of_quiet (change : Quiet s s') (h : RunEnded s' run) : RunEnded s run := by
  obtain ⟨r, hr, hended⟩ := h
  cases change with
  | admitted hnew =>
    rw [Table.lookup_insert_eq] at hr
    split at hr
    · obtain rfl := Option.some.inj hr
      cases hended
    · exact ⟨r, hr, hended⟩
  | stamped =>
    simp only [Core.modifyRun, Table.lookup_modify] at hr
    split at hr
    · obtain ⟨old, hold, rfl⟩ := Option.map_eq_some_iff.mp hr
      exact ⟨old, hold, hended⟩
    · exact ⟨r, hr, hended⟩
  | dropped => exact ⟨r, hr, hended⟩
  | retired =>
    simp only [dropRun, Table.lookup_erase_eq] at hr
    split at hr
    · cases hr
    · exact ⟨r, hr, hended⟩

theorem IsRoot.of_quiet (change : Quiet s s') (h : IsRoot s' run k sc) : IsRoot s run k sc :=
  ⟨change.scopes h.hscope, h.hrun, h.hrole⟩

theorem Rooted.quiet (change : Quiet s s') (rooted : Rooted s) : Rooted s' where
  single run k k' sc sc' h h' :=
    rooted.single run k k' sc sc' (h.of_quiet change) (h'.of_quiet change)
  rooted run hended := by
    obtain ⟨k, sc, hroot⟩ := rooted.rooted run (runEnded_of_quiet change hended)
    obtain ⟨r, hr, -⟩ := hended
    obtain ⟨sc', hsc', hrun, -, hrole, -⟩ :=
      (keeps_quiet change hr).scopes k sc hroot.hscope hroot.hrun
    exact ⟨k, sc', hsc', hrun.trans hroot.hrun, hrole.trans hroot.hrole⟩
  closed run k sc hended h :=
    rooted.closed run k sc (runEnded_of_quiet change hended) (h.of_quiet change)

theorem rooted_empty (clusterId : String) : Rooted (State.empty clusterId).toCore where
  single _ _ _ _ _ h := by cases h.hscope
  rooted _ h := by
    obtain ⟨_, hr, -⟩ := h
    cases hr
  closed _ _ _ _ h := by cases h.hscope

/-! ## Moves that end runs -/

theorem guarded_iff {G : Core → DomainEvent → Prop} :
    Guarded G s es ↔ ∀ before e after, es = before ++ e :: after → G (evolveAll s before) e := by
  induction es generalizing s with
  | nil => simp [Guarded]
  | cons first rest ih =>
    constructor
    · rintro ⟨hfirst, hrest⟩ before e after hes
      cases before with
      | nil =>
        obtain ⟨rfl, -⟩ := List.cons.inj hes
        exact hfirst
      | cons head before =>
        obtain ⟨rfl, htail⟩ := List.cons.inj hes
        exact ih.mp hrest before e after htail
    · intro h
      refine ⟨h [] first rest rfl, ih.mpr fun before e after hes => ?_⟩
      exact h (first :: before) e after (by rw [hes, List.cons_append])

/-- Scopes and runs fail by `Failing` only, and of scopes that have a property. -/
inductive Falling (o : Enumeration) (s : Core) (P : ScopeId → Prop) : List DomainEvent → Prop
  | nil : Falling o s P []
  | other {e : DomainEvent} {es : List DomainEvent} (hkind : e.kind ∉ [.scopeFailed, .runFailed])
      (rest : Falling o s P es) : Falling o s P (e :: es)
  | failing {k : ScopeId} {error : FailError} {es es' : List DomainEvent} (hk : P k)
      (h : Failing o s k error es) (rest : Falling o s P es') : Falling o s P (es ++ es')

section Falling

variable {P : ScopeId → Prop} {es' : List DomainEvent}

theorem Falling.append (h : Falling o s P es) (h' : Falling o s P es') :
    Falling o s P (es ++ es') := by
  induction h with
  | nil => exact h'
  | other hkind _ ih => exact .other hkind ih
  | failing hk h _ ih =>
    rw [List.append_assoc]
    exact .failing hk h ih

theorem falling_of_kinds (h : ∀ e ∈ es, e.kind ∉ [.scopeFailed, .runFailed]) :
    Falling o s P es := by
  induction es with
  | nil => exact .nil
  | cons e es ih =>
    obtain ⟨he, hes⟩ := List.forall_mem_cons.mp h
    exact .other he (ih hes)

theorem Failing.falling (h : Failing o s k error es) (hk : P k) : Falling o s P es := by
  simpa using Falling.failing hk h .nil

theorem FailingAll.falling {scopes : List ScopeState} (h : FailingAll o s error scopes es)
    (hscopes : ∀ sc ∈ scopes, P sc.id) :
    Falling o s P es := by
  induction h with
  | nil => exact .nil
  | cons first _ ih =>
    obtain ⟨hfirst, hrest⟩ := List.forall_mem_cons.mp hscopes
    exact .failing hfirst first (ih hrest)

theorem Aborting.falling {saga : ActivationId} (h : Aborting o s saga error es)
    (hk : ∀ act, s.activations.lookup saga = some act → P act.scope) : Falling o s P es := by
  cases h with
  | waiting => exact .nil
  | blocked | intent | compensating => exact .other (by simp) .nil
  | failed hact _ _ _ hfailing => exact hfailing.falling (hk _ hact)

theorem falling_cancelSagas {sagas : List ActivationId}
    (h : cancelSagas env o s error sagas ids = .ok es)
    (hk : ∀ saga ∈ sagas, ∀ act, s.activations.lookup saga = some act → P act.scope) :
    Falling o s P es := by
  induction sagas generalizing ids es with
  | nil =>
    obtain rfl := pure_eq_ok.mp h
    exact .nil
  | cons saga rest ih =>
    obtain ⟨hsaga, hrest⟩ := List.forall_mem_cons.mp hk
    simp only [cancelSagas, bind_eq_ok, pure_eq_ok, Prod.exists] at h
    obtain ⟨first, ids', hfirst, others, hothers, rfl⟩ := h
    exact ((compensateOrFail_ok hfirst).falling hsaga).append (ih hothers hrest)

/-- A run that fails has a root that fails. -/
theorem Falling.root_of_mem (h : Falling o s P es) (hmem : .runFailed run error ∈ es) :
    ∃ k sc, IsRoot s run k sc ∧ sc.status.isFailed = false ∧ P k := by
  induction h with
  | nil => cases hmem
  | other hkind _ ih =>
    rcases List.mem_cons.mp hmem with rfl | hmem
    · exact absurd (by simp) hkind
    · exact ih hmem
  | @failing k _ _ _ hk h _ ih =>
    rcases List.mem_append.mp hmem with hmem | hmem
    · cases h with
      | already => cases hmem
      | inner => simp at hmem
      | @root sc hscope hfailed hrole =>
        refine ⟨k, sc, ⟨hscope, ?_, hrole⟩, hfailed, hk⟩
        rcases List.mem_append.mp hmem with hmem | hmem
        · exact absurd rfl (closePendingWaits_all (P := fun e => e.kind ≠ .runFailed) (by simp)
            (by simp) _ hmem)
        · simp only [List.mem_cons, DomainEvent.runFailed.injEq, reduceCtorEq, List.not_mem_nil,
            or_false, false_or] at hmem
          exact hmem.1.symm
    · exact ih hmem

/-- A scope that fails has not failed before, and takes its run with it if it is a root. -/
theorem Falling.scope_of_mem (h : Falling o s P es) (hmem : .scopeFailed run k error ∈ es) :
    P k ∧ ∃ sc, s.scopes.lookup k = some sc ∧ sc.run = run ∧ sc.status.isFailed = false ∧
      (sc.role = .root → .runFailed run error ∈ es) := by
  induction h with
  | nil => cases hmem
  | other hkind _ ih =>
    rcases List.mem_cons.mp hmem with rfl | hmem
    · exact absurd (by simp) hkind
    · obtain ⟨hk, sc, hsc, hrun, hfailed, hroot⟩ := ih hmem
      exact ⟨hk, sc, hsc, hrun, hfailed, fun hrole => List.mem_cons_of_mem _ (hroot hrole)⟩
  | failing hk h _ ih =>
    rcases List.mem_append.mp hmem with hmem | hmem
    · cases h with
      | already => cases hmem
      | inner hscope hfailed hrole =>
        obtain ⟨rfl, rfl, rfl⟩ : run = _ ∧ k = _ ∧ error = _ := by simpa using hmem
        exact ⟨hk, _, hscope, rfl, hfailed, fun h => absurd h hrole⟩
      | root hscope hfailed hrole =>
        rcases List.mem_append.mp hmem with hmem | hmem
        · exact absurd rfl (closePendingWaits_all (P := fun e => e.kind ≠ .scopeFailed) (by simp)
            (by simp) _ hmem)
        · obtain ⟨rfl, rfl, rfl⟩ : run = _ ∧ k = _ ∧ error = _ := by simpa using hmem
          exact ⟨hk, _, hscope, rfl, hfailed, fun _ => by simp⟩
    · obtain ⟨hk, sc, hsc, hrun, hfailed, hroot⟩ := ih hmem
      exact ⟨hk, sc, hsc, hrun, hfailed, fun hrole => List.mem_append_right _ (hroot hrole)⟩

end Falling

/-- The scope belongs to an active run, or there is a ready activation in it. -/
def Fallible (s : Core) (k : ScopeId) : Prop :=
  (∃ sc r, s.scopes.lookup k = some sc ∧ s.runs.lookup sc.run = some r ∧
    r.status.isActive = true) ∨
    ∃ a act, s.activations.lookup a = some act ∧ act.scope = k ∧ act.status = .ready

theorem fallible_of_activation {a : ActivationId} (tree : Tree s)
    (hact : s.activations.lookup a = some act) (hr : s.runs.lookup act.run = some r)
    (hactive : r.status.isActive = true) :
    Fallible s act.scope := by
  obtain ⟨sc, hsc, hown⟩ := tree.placed a act hact
  exact .inl ⟨sc, r, hsc, hown ▸ hr, hactive⟩

theorem NodeMove.falling {node : Node} (tree : Tree s) (advancing : Advancing s run act node)
    (move : NodeMove o s run time act node es) :
    Falling o s (Fallible s) es := by
  obtain ⟨r, hr, hactive⟩ := advancing.hactive
  rw [← advancing.hrun] at hr
  have hown : Fallible s act.scope := fallible_of_activation tree advancing.hact hr hactive
  have hplain {L : List EventKind} {es' : List DomainEvent} (h : ∀ e ∈ es', e.kind ∈ L)
      (hL : ∀ k ∈ L, k ∉ [EventKind.scopeFailed, .runFailed]) : Falling o s (Fallible s) es' :=
    falling_of_kinds (not_mem_of_kinds h hL)
  cases move with
  | failed h | conflict _ h | childFailed _ _ h => exact h.falling hown
  | reopened | timer | due | waiting => exact .other (by simp) .nil
  | completed => exact hplain kinds_completed (by decide)
  | taken _ _ _ _ h => exact .other (by simp) (hplain (kinds_satisfied h) (by decide))
  | finished _ hguards _ h => exact hplain (kinds_finished hguards h) (by decide)
  | skipped _ _ _ h | joined _ h => exact hplain (kinds_output h) (by decide)
  | settled _ _ _ _ h => exact hplain (kinds_settled h) (by decide)
  | childOpened hguards => exact hplain (kinds_childOpened hguards) (by decide)
  | @cancelled _ failed _ _ siblings _ _ _ _ hsiblings hcancelled hfailing =>
    refine (hcancelled.falling fun sc hsc => ?_).append ?_
    · obtain ⟨hchild, -⟩ := List.mem_filter.mp (hsiblings hsc)
      obtain ⟨⟨k, hk⟩, hparent⟩ := mem_childrenOf.mp hchild
      obtain rfl := tree.keyed.scopes k sc hk
      have hrun := tree.hung _ sc act.id act hk hparent advancing.hact
      exact .inl ⟨sc, r, hk, hrun ▸ hr, hactive⟩
    · rcases hfailing with rfl | ⟨-, h⟩
      · exact .nil
      · exact h.falling hown
  | aborted _ _ h =>
    refine h.falling fun act' hact' => ?_
    obtain rfl := Option.mem_unique advancing.hact hact'
    exact hown

theorem fallible_of_rootScope {root : ScopeState} (tree : Tree s) (hr : s.runs.lookup run = some r)
    (hactive : r.status.isActive = true) (hroot : rootScope? o s run = some root) :
    Fallible s root.id := by
  obtain ⟨hlookup, hown, -⟩ := rootScope?_eq_some tree.keyed hroot
  exact .inl ⟨root, r, hlookup, hown ▸ hr, hactive⟩

/-- What a move fails belongs to an active run or contains the activation reported on. -/
theorem Move.falling (tree : Tree s) (move : Move env o s time body es) :
    Falling o s (Fallible s) es := by
  have hother : (∀ k ∈ body.kinds, k ∉ [EventKind.scopeFailed, .runFailed]) →
      Falling o s (Fallible s) es := fun h => falling_of_kinds fun e he => h _ (move.kinds e he)
  have hplain {L : List EventKind} {es' : List DomainEvent} (h : ∀ e ∈ es', e.kind ∈ L)
      (hL : ∀ k ∈ L, k ∉ [EventKind.scopeFailed, .runFailed]) : Falling o s (Fallible s) es' :=
    falling_of_kinds (not_mem_of_kinds h hL)
  cases move with
  | @erred _ _ a act _ _ _ _ hreported _ hfailing =>
    exact .other (by simp)
      (hfailing.falling (.inr ⟨a, act, hreported.hact, rfl, hreported.hready⟩))
  | advanced hadvancing _ hmove => exact hmove.falling tree hadvancing
  | cancelled hrun hactive _ hroot hfailing =>
    exact hfailing.falling (fallible_of_rootScope tree hrun hactive hroot)
  | @cancelledSagas _ _ runState _ _ hrun hactive hes =>
    refine (falling_of_kinds (closePendingWaits_all (by simp) (by simp))).append
      (falling_cancelSagas hes fun saga hsaga act hact => ?_)
    obtain ⟨act', hact', hown, -⟩ := mem_openSagas tree.keyed hsaga
    obtain rfl := Option.mem_unique hact hact'
    exact fallible_of_activation tree hact (hown ▸ hrun) hactive
  | abandoned hrun hfailed =>
    refine .other (by simp) ?_
    rcases hfailed with ⟨-, rfl⟩ | ⟨root, error, hactive, hroot, hfailing⟩
    · exact .nil
    · exact hfailing.falling (fallible_of_rootScope tree hrun hactive hroot)
  | accepted _ _ hprobe howed hfollowed =>
    exact hplain (kinds_accepted hprobe howed hfollowed) (by decide)
  | compensated _ _ hprobe => exact hplain (kinds_compensated hprobe) (by decide)
  | retried | blocked | timedOut => exact .other (by simp) (.other (by simp) .nil)
  | lost => exact .other (by simp) .nil
  | notApplied _ _ hsettled => exact hplain (kinds_notApplied hsettled) (by decide)
  | unknown _ _ hfailure hescalated => exact hplain (kinds_unknown hfailure hescalated) (by decide)
  | satisfied _ _ hfollowed => exact hplain (kinds_satisfied hfollowed) (by decide)
  | outside houtside => exact hplain (kinds_outside houtside) (by decide)
  | started | resolved | signalled | claimed | renewed => exact hother (by simp)

/-- The event neither admits nor ends a run with success, nor opens or completes its root. -/
def Inner (e : DomainEvent) : Prop :=
  e.kind ∉ [.runAdmitted, .scopeCompleted, .runSucceeded] ∧
    ∀ run k parent input, e ≠ .scopeOpened run k parent .root input

theorem inner_of_kind (h : e.kind ∉ [.runAdmitted, .scopeCompleted, .runSucceeded, .scopeOpened]) :
    Inner e := by
  refine ⟨fun hmem => h (by simp only [List.mem_cons] at hmem ⊢; tauto), ?_⟩
  rintro run k parent input rfl
  exact h (by simp)

theorem inner_of_kinds {L : List EventKind}
    (hL : ∀ k ∈ L, k ∉ [.runAdmitted, .scopeCompleted, .runSucceeded, .scopeOpened])
    (hes : ∀ e ∈ es, e.kind ∈ L) : ∀ e ∈ es, Inner e :=
  fun e he => inner_of_kind (hL _ (hes e he))

/-- A node that does not complete its scope records inner events only. -/
theorem NodeMove.completes_or_inner {node : Node}
    (move : NodeMove o s run time act node es) :
    (∃ scope value, s.scopes.lookup act.scope = some scope ∧ es = completeScope scope value) ∨
      ∀ e ∈ es, Inner e := by
  cases move with
  | completed hscope => exact .inl ⟨_, _, hscope, rfl⟩
  | reopened | timer | due | waiting =>
    exact .inr (List.forall_mem_singleton.mpr (inner_of_kind (by simp)))
  | failed h | conflict _ h | childFailed _ _ h =>
    exact .inr (inner_of_kinds (by decide) (h.kinds (List.Subset.refl failureKinds)))
  | taken _ _ _ _ h =>
    exact .inr (List.forall_mem_cons.mpr
      ⟨inner_of_kind (by simp), inner_of_kinds (by decide) (kinds_satisfied h)⟩)
  | finished _ hguards _ h => exact .inr (inner_of_kinds (by decide) (kinds_finished hguards h))
  | skipped _ _ _ h | joined _ h => exact .inr (inner_of_kinds (by decide) (kinds_output h))
  | settled _ _ _ _ h => exact .inr (inner_of_kinds (by decide) (kinds_settled h))
  | childOpened hguards hrole =>
    refine .inr (List.forall_mem_append.mpr ⟨inner_of_kinds (by decide) (hguards.kinds
      (List.mem_singleton_self _)), List.forall_mem_cons.mpr
      ⟨⟨by simp, ?_⟩, List.forall_mem_singleton.mpr (inner_of_kind (by simp))⟩⟩)
    intro run k parent input heq
    injection heq with _ _ _ hroot
    rw [hroot] at hrole
    cases hrole
  | cancelled _ _ _ hcancelled hown =>
    exact .inr (inner_of_kinds (by decide) (kinds_cancelled hcancelled hown))
  | aborted _ _ h =>
    exact .inr (inner_of_kinds (by decide) (h.kinds (List.Subset.refl abortKinds)))

/-- A move starts a run, completes a scope of an active run or records inner events only. -/
theorem Move.starts_or_completes_or_inner (tree : Tree s) (move : Move env o s time body es) :
    (∃ run definition input catalog root a,
      body = .start run definition input catalog ∧
      es = [.runAdmitted run definition.id definition.version input root
          (.defaults definition.runTimeoutMs) time,
        .scopeOpened run root none .root input,
        .activationOpened run root a definition.root.start]) ∨
    (∃ k scope value r, s.scopes.lookup k = some scope ∧ es = completeScope scope value ∧
      s.runs.lookup scope.run = some r ∧ r.status.isActive = true) ∨
    ∀ e ∈ es, Inner e := by
  have hreport : ∀ {run a act}, Reported s body run a act → ∀ e ∈ es, Inner e := by
    intro run a act hreported
    refine inner_of_kinds ?_ (kinds_of_reported? hreported.hbody ▸ move.kinds)
    decide
  have hother : (∀ k ∈ body.kinds,
      k ∉ [EventKind.runAdmitted, .scopeCompleted, .runSucceeded, .scopeOpened]) →
      ∀ e ∈ es, Inner e := fun h => inner_of_kinds h move.kinds
  cases move with
  | started => exact .inl ⟨_, _, _, _, _, _, rfl, rfl⟩
  | accepted h | compensated h | retried h | blocked h | lost h | erred h | notApplied h
  | unknown h => exact .inr (.inr (hreport h))
  | satisfied _ _ hfollowed =>
    exact .inr (.inr (inner_of_kinds (by decide) (kinds_satisfied hfollowed)))
  | timedOut =>
    exact .inr (.inr (List.forall_mem_cons.mpr ⟨inner_of_kind (by simp),
      List.forall_mem_singleton.mpr (inner_of_kind (by simp))⟩))
  | advanced hadvancing _ hmove =>
    rcases hmove.completes_or_inner with ⟨scope, value, hscope, rfl⟩ | hinner
    · obtain ⟨r, hr, hactive⟩ := hadvancing.hactive
      obtain ⟨sc, hsc, hrun⟩ := tree.placed _ _ hadvancing.hact
      obtain rfl := Option.mem_unique hscope hsc
      refine .inr (.inl ⟨_, scope, value, r, hscope, rfl, ?_, hactive⟩)
      rw [hrun, hadvancing.hrun]
      exact hr
    · exact .inr (.inr hinner)
  | outside houtside =>
    exact .inr (.inr (inner_of_kinds (by decide) (kinds_outside houtside)))
  | resolved | signalled | cancelled | cancelledSagas | claimed | renewed | abandoned =>
    exact .inr (.inr (hother (by simp)))

/-- The completion of a root scope ends its run. -/
theorem guarded_rooting_completeScope {scope : ScopeState} {value : Value} (keyed : Keyed s)
    (rooted : Rooted s) (hk : s.scopes.lookup k = some scope) :
    Guarded Rooting s (completeScope scope value) := by
  obtain rfl := keyed.scopes k scope hk
  unfold completeScope
  refine ⟨trivial, ?_⟩
  split
  · next hrole =>
    have hroot : IsRoot s scope.run scope.id scope := ⟨hk, rfl, hrole⟩
    refine ⟨⟨⟨scope.id, hroot.evolve trivial⟩, fun k' sc' hroot' hopen => ?_⟩, trivial⟩
    obtain ⟨old, hold, rfl⟩ := scope_of_kind (by simp) hroot'.hscope
    obtain rfl := rooted.single _ _ _ _ _ ⟨hold, hroot'.hrun, hroot'.hrole⟩ hroot
    simp [ScopeState.after, scopeStatusAfter] at hopen
  · trivial

theorem Move.rooting (tree : Tree s) (rooted : Rooted s) (placed : Guarded Placed s es)
    (hnew : StartsNew s body) (move : Move env o s time body es) :
    Guarded Rooting s es := by
  rcases move.starts_or_completes_or_inner tree with
    ⟨run, definition, input, catalog, root, a, hbody, rfl⟩ |
    ⟨k, scope, value, r, hk, rfl, -⟩ | hinner
  · refine ⟨trivial, fun _ => ⟨fun k sc hroot => ?_, fun hended => ?_⟩, trivial, trivial⟩
    · obtain ⟨old, hold, rfl⟩ := scope_of_kind (by simp) hroot.hscope
      exact hnew _ _ _ _ hbody k old hold hroot.hrun
    · obtain ⟨r, hr, hstatus⟩ := hended
      rw [lookup_runs_evolve] at hr
      obtain ⟨old, hold, rfl⟩ := Option.map_eq_some_iff.mp hr
      simp [RunState.after, RunStatus.isActive] at hstatus
  · exact guarded_rooting_completeScope tree.keyed rooted hk
  · refine guarded_iff.mpr fun before e after hes => ?_
    have hmem : e ∈ es := by simp [hes]
    have hkind := hinner e hmem
    cases e with
    | scopeOpened run k parent role input =>
      rintro rfl
      exact absurd rfl (hkind.2 run k parent input)
    | runSucceeded => exact absurd (by simp) hkind.1
    | runFailed run error =>
      obtain ⟨k, sc, hroot, -⟩ := (move.falling tree).root_of_mem hmem
      rw [hes, guarded_append] at placed
      obtain ⟨sc', hsc', hrun, -, hrole, -⟩ :=
        (keeps_evolveAll placed.1 run).scopes k sc hroot.hscope hroot.hrun
      exact ⟨k, sc', hsc', hrun.trans hroot.hrun, hrole.trans hroot.hrole⟩
    | _ => trivial

/-! ## Active runs -/

/-- A scope is closed by its own events and by the failure of its run. -/
theorem closed_cases (hk : (evolveAll s es).scopes.lookup k = some sc)
    (hclosed : sc.status ≠ .open) :
    (∃ old, s.scopes.lookup k = some old ∧ old.status ≠ .open ∧ old.run = sc.run ∧
      old.role = sc.role) ∨ (∃ run output, .scopeCompleted run k output ∈ es) ∨
      (∃ run error, .scopeFailed run k error ∈ es) ∨ ∃ error, .runFailed sc.run error ∈ es := by
  induction es generalizing s with
  | nil => exact .inl ⟨sc, hk, hclosed, rfl, rfl⟩
  | cons e es ih =>
    rcases ih hk with ⟨mid, hmid, hstatus, hrun, hrole⟩ | ⟨run, output, hmem⟩ |
      ⟨run, error, hmem⟩ | ⟨error, hmem⟩
    · rcases scope_after_cases hmid with ⟨old, hold, rfl⟩ | ⟨_, _, _, _, -, rfl⟩
      · by_cases hbefore : old.status = .open
        · -- The first event has closed the scope.
          right
          cases e with
          | scopeCompleted run k' output =>
            obtain rfl : k = k' := by
              by_contra hne
              exact hstatus (by simpa [ScopeState.after, scopeStatusAfter, hne] using hbefore)
            exact .inl ⟨run, output, List.mem_cons_self⟩
          | scopeFailed run k' error =>
            obtain rfl : k = k' := by
              by_contra hne
              exact hstatus (by simpa [ScopeState.after, scopeStatusAfter, hne] using hbefore)
            exact .inr (.inl ⟨run, error, List.mem_cons_self⟩)
          | runFailed run error =>
            obtain rfl : old.run = run := by
              by_contra hne
              exact hstatus (by simpa [ScopeState.after, scopeStatusAfter, hne] using hbefore)
            exact .inr (.inr ⟨error, hrun ▸ List.mem_cons_self⟩)
          | _ => exact absurd hbefore hstatus
        · exact .inl ⟨old, hold, hbefore, hrun, hrole⟩
      · exact absurd rfl hstatus
    · exact .inr (.inl ⟨run, output, List.mem_cons_of_mem _ hmem⟩)
    · exact .inr (.inr (.inl ⟨run, error, List.mem_cons_of_mem _ hmem⟩))
    · exact .inr (.inr (.inr ⟨error, List.mem_cons_of_mem _ hmem⟩))

/-- Only its admission makes a run active. -/
theorem RunEnded.kept (h : RunEnded s run)
    (hes : ∀ definition version input root policy time,
      .runAdmitted run definition version input root policy time ∉ es) :
    RunEnded (evolveAll s es) run := by
  induction es generalizing s with
  | nil => exact h
  | cons e es ih =>
    refine ih ?_ fun _ _ _ _ _ _ hmem => hes _ _ _ _ _ _ (List.mem_cons_of_mem _ hmem)
    obtain ⟨r, hr, hended⟩ := h
    refine ⟨r.after s e run, by rw [lookup_runs_evolve, hr]; rfl, ?_⟩
    cases e with
    | runAdmitted run' definition version input root policy admitted =>
      have hne : run ≠ run' := by
        rintro rfl
        exact hes _ _ _ _ _ _ List.mem_cons_self
      simpa [RunState.after, hne] using hended
    | runSucceeded | runFailed =>
      simp only [RunState.after]
      split
      · rfl
      · exact hended
    | activationOpened | compensationStarted | eventAccepted =>
      simp only [RunState.after]
      split <;> exact hended
    | _ => exact hended

theorem runEnded_of_not_active (hr : s.runs.lookup run = some r) (h : r.status.isActive ≠ true) :
    RunEnded s run :=
  ⟨r, hr, by simpa using h⟩

/-- A root scope that is not open belongs to a run that has ended. -/
theorem rootsOpen_iff (tree : Tree s) :
    RootsOpen s ↔ ∀ run k sc, IsRoot s run k sc → sc.status ≠ .open → RunEnded s run := by
  constructor
  · rintro h run k sc ⟨hk, rfl, hrole⟩ hclosed
    obtain ⟨r, hr⟩ := tree.run_of_scope hk
    exact runEnded_of_not_active hr fun hactive => hclosed (h k sc r hk hrole hr hactive)
  · intro h k sc r hk hrole hr hactive
    by_contra hclosed
    obtain ⟨r', hr', hended⟩ := h sc.run k sc ⟨hk, rfl, hrole⟩ hclosed
    obtain rfl := Option.mem_unique hr hr'
    rw [hactive] at hended
    cases hended

theorem runEnded_completeScope {scope : ScopeState} {value : Value} (hrole : scope.role = .root)
    (hr : s.runs.lookup scope.run = some r) :
    RunEnded (evolveAll s (completeScope scope value)) scope.run := by
  have hplaced : Placed s (.scopeCompleted scope.run scope.id value) := trivial
  obtain ⟨r', hr', -⟩ := (keeps_evolve hplaced scope.run).runs r hr
  simp only [completeScope, hrole]
  refine ⟨{ r' with status := .succeeded value }, ?_, rfl⟩
  simp only [evolveAll, List.foldl_cons, List.foldl_nil]
  rw [lookup_runs_evolve, hr']
  simp [RunState.after]

/-- A run that fails has ended. -/
theorem runEnded_of_mem (placed : Guarded Placed s es) (hr : s.runs.lookup run = some r)
    (hmem : .runFailed run error ∈ es) (hes : ∀ definition version input root policy time,
      .runAdmitted run definition version input root policy time ∉ es) :
    RunEnded (evolveAll s es) run := by
  obtain ⟨before, after, rfl⟩ := List.append_of_mem hmem
  obtain ⟨r', hr', -⟩ := (keeps_evolveAll (guarded_append.mp placed).1 run).runs r hr
  have hfailed : RunEnded (evolve (evolveAll s before) (.runFailed run error)) run := by
    refine ⟨{ r' with status := .failed error }, ?_, rfl⟩
    rw [lookup_runs_evolve, hr']
    simp [RunState.after]
  have hkept := hfailed.kept fun definition version input root policy time hmem =>
    hes definition version input root policy time (List.mem_append_right _
      (List.mem_cons_of_mem _ hmem))
  rwa [evolveAll, List.foldl_append, List.foldl_cons]

/-- A run that has a scope is not admitted. -/
theorem Move.not_admitted (tree : Tree s)
    (hnew : StartsNew s body) (move : Move env o s time body es)
    (hk : s.scopes.lookup k = some sc) (hown : sc.run = run) :
    ∀ definition version input root policy time,
      .runAdmitted run definition version input root policy time ∉ es := by
  intro _ _ _ _ _ _ hmem
  rcases move.starts_or_completes_or_inner tree with
    ⟨run', definition, input, catalog, root, a, hbody, rfl⟩ | ⟨_, scope, value, r, -, rfl, -⟩ |
    hinner
  · simp only [List.mem_cons, DomainEvent.runAdmitted.injEq, reduceCtorEq, List.not_mem_nil,
      or_false] at hmem
    exact hnew _ _ _ _ hbody _ sc hk (hown.trans hmem.1)
  · exact completeScope_all (P := fun e => e.kind ≠ .runAdmitted) (by simp) (by simp) _ hmem rfl
  · exact (hinner _ hmem).1 (by simp)

theorem Move.rootsOpen (tree : Tree s) (placed : Guarded Placed s es)
    (hnew : StartsNew s body) (move : Move env o s time body es)
    (roots : RootsOpen s) : RootsOpen (evolveAll s es) := by
  have tree' : Tree (evolveAll s es) := placed.keeps (fun _ _ hplaced htree => htree.evolve hplaced)
    tree
  rw [rootsOpen_iff tree] at roots
  rw [rootsOpen_iff tree']
  intro run k sc hroot hclosed
  have hroots := move.starts_or_completes_or_inner tree
  have hadmitted {k' : ScopeId} {old : ScopeState} (hold : s.scopes.lookup k' = some old)
      (hown : old.run = run) : ∀ definition version input root policy time,
      .runAdmitted run definition version input root policy time ∉ es :=
    move.not_admitted tree hnew hold hown
  -- A run that fails had a root.
  have hfails {error : FailError} (hmem : .runFailed run error ∈ es) :
      RunEnded (evolveAll s es) run := by
    obtain ⟨k', old, hold, -⟩ := (move.falling tree).root_of_mem hmem
    obtain ⟨r, hr⟩ := tree.run_of_scope hold.hscope
    exact runEnded_of_mem placed (hold.hrun ▸ hr) hmem (hadmitted hold.hscope hold.hrun)
  rcases closed_cases hroot.hscope hclosed with ⟨old, hold, hstatus, hrun, hrole⟩ |
    ⟨run', output, hmem⟩ | ⟨run', error, hmem⟩ | ⟨error, hmem⟩
  · have hroot' : IsRoot s run k old := ⟨hold, hrun.trans hroot.hrun, hrole.trans hroot.hrole⟩
    exact (roots run k old hroot' hstatus).kept (hadmitted hold hroot'.hrun)
  · rcases hroots with ⟨_, _, _, _, _, _, -, rfl⟩ | ⟨k', scope, value, r, hk, rfl, hr, -⟩ | hinner
    · simp at hmem
    · obtain rfl := tree.keyed.scopes k' scope hk
      have hid : k = scope.id :=
        completeScope_all (P := fun e => ∀ run k output, e = .scopeCompleted run k output →
          k = scope.id) (by rintro _ _ _ ⟨⟩; rfl) (by simp) _ hmem _ _ _ rfl
      subst hid
      obtain ⟨old, hold, hrun, -, hrole⟩ := scope_of_kinds
        (completeScope_all (P := fun e => e.kind ≠ .scopeOpened) (by simp) (by simp)) hroot.hscope
      obtain rfl := Option.mem_unique hk hold
      rw [← hroot.hrun, ← hrun]
      exact runEnded_completeScope (hrole.trans hroot.hrole) hr
    · exact absurd (by simp) (hinner _ hmem).1
  · obtain ⟨-, old, hold, hrun, -, hfailed⟩ := (move.falling tree).scope_of_mem hmem
    obtain ⟨sc', hsc', hrun', -, hrole', -⟩ :=
      (keeps_evolveAll placed old.run).scopes k old hold rfl
    obtain rfl := Option.mem_unique hroot.hscope hsc'
    obtain rfl : run' = run := hrun.symm.trans (hrun'.symm.trans hroot.hrun)
    exact hfails (hfailed (hrole'.symm.trans hroot.hrole))
  · rw [hroot.hrun] at hmem
    exact hfails hmem

theorem RunEnded.quiet (change : Quiet s s') (h : RunEnded s run)
    (hr : s'.runs.lookup run = some r) : r.status.isActive = false := by
  obtain ⟨old, hold, hended⟩ := h
  cases change with
  | admitted hnew =>
    rw [Table.lookup_insert_eq] at hr
    split at hr
    · next hrun =>
      rw [hrun, hnew] at hold
      cases hold
    · obtain rfl := Option.mem_unique hold hr
      exact hended
  | stamped =>
    simp only [Core.modifyRun, Table.lookup_modify, hold] at hr
    split at hr
    · obtain rfl := Option.some.inj hr
      exact hended
    · obtain rfl := Option.some.inj hr
      exact hended
  | dropped =>
    obtain rfl := Option.mem_unique hold hr
    exact hended
  | retired =>
    simp only [dropRun, Table.lookup_erase_eq] at hr
    split at hr
    · cases hr
    · obtain rfl := Option.mem_unique hold hr
      exact hended

theorem RootsOpen.quiet (change : Quiet s s') (tree : Tree s) (roots : RootsOpen s) :
    RootsOpen s' := by
  intro k sc r hk hrole hr hactive
  obtain ⟨old, hold⟩ := tree.run_of_scope (change.scopes hk)
  refine roots k sc old (change.scopes hk) hrole hold ?_
  by_contra hended
  rw [(runEnded_of_not_active hold hended).quiet change hr] at hactive
  cases hactive

end Graphrun
