import Graphrun.Engine.Kinds
import Graphrun.Engine.Tree
import Graphrun.Engine.Refinement

/-!
# Moves keep the tree

In a state whose scopes form a tree, a step that draws unused identities places its events.
Every run whose steps are fresh therefore has a tree of scopes in each of its states.
-/

namespace Graphrun

open Lib

variable {env : Env} {o : Enumeration} {s s' : Core} {time : Nat} {ids : IdGen}
  {e e' : DomainEvent} {es : List DomainEvent} {k : ScopeId} {a : ActivationId} {run : RunId}
  {sc : ScopeState} {act : ActivationState} {error : FailError} {c : Core}

/-! ## Events that open nothing -/

/-- An event that opens neither a scope nor an activation. -/
def Inert (e : DomainEvent) : Prop := e.opensScope? = none ∧ e.opensActivation? = none

theorem placed_of_inert (h : Inert e) : Placed s e := by
  obtain ⟨hscope, hactivation⟩ := h
  cases e <;> trivial

theorem scopes_stay_unused (h : s.scopes.lookup k = none) (hk : e.opensScope? ≠ some k) :
    (evolve s e).scopes.lookup k = none := by
  rw [Option.eq_none_iff_forall_ne_some]
  intro sc hsc
  rcases scope_after_cases hsc with ⟨old, hold, -⟩ | ⟨_, _, _, _, rfl, -⟩
  · rw [h] at hold
    cases hold
  · exact hk rfl

theorem activations_stay_unused (h : s.activations.lookup a = none)
    (ha : e.opensActivation? ≠ some a) : (evolve s e).activations.lookup a = none := by
  rw [Option.eq_none_iff_forall_ne_some]
  intro act hact
  rcases activation_after_cases hact with ⟨old, hold, -⟩ | ⟨_, _, _, rfl, -⟩ |
    ⟨_, _, _, _, _, _, _, _, rfl, -⟩
  · rw [h] at hold
    cases hold
  · exact ha rfl
  · exact ha rfl

theorem activations_stay_unused_all (h : s.activations.lookup a = none)
    (ha : ∀ e ∈ es, e.opensActivation? ≠ some a) :
    (evolveAll s es).activations.lookup a = none :=
  evolveAll_keeps (P := fun core => core.activations.lookup a = none)
    (fun _ _ he h => activations_stay_unused h he) ha h

theorem Tree.nodeOf_keeps (tree : Tree s) (keeps : Keeps run s s')
    (hscope : s.scopes.lookup k = some sc) (hrun : sc.run = run) (key : NodeKey) :
    nodeOf s' k key = nodeOf s k key := by
  obtain ⟨region, hregion⟩ := tree.region k sc hscope
  have hregion' := tree.regionAt_keeps keeps hregion hscope hrun
  simp only [nodeOf, regionForScope_iff.mpr hregion, regionForScope_iff.mpr hregion']

/-- An activation keeps its node. -/
theorem Tree.node_kept {act' : ActivationState} (tree : Tree s)
    (keeps : Keeps act.run s s') (h : s.activations.lookup a = some act)
    (h' : s'.activations.lookup a = some act') :
    nodeOf s' act'.scope act'.node = nodeOf s act.scope act.node := by
  obtain ⟨sc, hsc, hrun⟩ := tree.placed a act h
  obtain ⟨kept, hkept, -, hscope, hkey, -⟩ := keeps.activations a act h rfl
  obtain rfl := Option.mem_unique hkept h'
  rw [hscope, hkey]
  exact tree.nodeOf_keeps keeps hsc hrun act.node

/-- A placed event stays placed after another one that opens something else. -/
theorem Placed.after (tree : Tree s) (placed : Placed s e) (placed' : Placed s e')
    (hscope : ∀ k, e'.opensScope? = some k → e.opensScope? ≠ some k)
    (hactivation : ∀ a, e'.opensActivation? = some a → e.opensActivation? ≠ some a) :
    Placed (evolve s e) e' := by
  have keeps := keeps_evolve placed
  cases e' with
  | scopeOpened run scope parent role input =>
    obtain ⟨hnew, hparent, ⟨r, hr⟩, hacts⟩ := placed'
    obtain ⟨r', hr', -⟩ := (keeps run).runs r hr
    refine ⟨scopes_stay_unused hnew (hscope _ rfl), hparent, ⟨r', hr'⟩, fun a ha => ?_⟩
    obtain ⟨act, node, hact, hrun, hnode, hbody⟩ := hacts a ha
    obtain ⟨act', hact', hrun', hplace, hkey, -⟩ := (keeps act.run).activations _ act hact rfl
    obtain ⟨sc, hsc, -⟩ := tree.placed a act hact
    refine ⟨act', node, hact', hrun'.trans hrun, ?_, hbody⟩
    rw [hplace, hkey, tree.nodeOf_keeps (keeps sc.run) hsc rfl, hnode]
  | activationOpened run scope a node =>
    obtain ⟨hnew, sc, hsc, hrun⟩ := placed'
    obtain ⟨sc', hsc', hrun', -⟩ := (keeps sc.run).scopes _ sc hsc rfl
    exact ⟨activations_stay_unused hnew (hactivation _ rfl), sc', hsc', hrun'.trans hrun⟩
  | compensationStarted run saga forward a handler version input error =>
    obtain ⟨hnew, act, hact, hrun⟩ := placed'
    obtain ⟨act', hact', hrun', -⟩ := (keeps act.run).activations _ act hact rfl
    exact ⟨activations_stay_unused hnew (hactivation _ rfl), act', hact', hrun'.trans hrun⟩
  | _ => trivial

theorem Tree.evolveAll (tree : Tree s) (h : Guarded Placed s es) : Tree (evolveAll s es) :=
  h.keeps (fun _ _ placed tree => tree.evolve placed) tree

/-- An event that is placed in a state is placed after inert events. -/
theorem guarded_concat (tree : Tree s) (hes : ∀ e ∈ es, Inert e) (placed : Placed s e) :
    Guarded Placed s (es ++ [e]) := by
  induction es generalizing s with
  | nil => exact ⟨placed, trivial⟩
  | cons first es ih =>
    have hinert := hes first List.mem_cons_self
    have hfirst : Placed s first := placed_of_inert hinert
    refine ⟨hfirst, ih (tree.evolve hfirst) (fun e he => hes e (List.mem_cons_of_mem _ he)) ?_⟩
    exact hfirst.after tree placed (by simp [hinert.1]) (by simp [hinert.2])

theorem guarded_inert (hes : ∀ e ∈ es, Inert e) : Guarded Placed s es :=
  Guarded.of_all fun e he _ => placed_of_inert (hes e he)

/-- Events of the other kinds open nothing. -/
theorem guarded_placed_of_kinds {L : List EventKind} (h : ∀ e ∈ es, e.kind ∈ L)
    (hL : ∀ k ∈ L, k ∉ [EventKind.scopeOpened, .activationOpened, .compensationStarted]) :
    Guarded Placed s es := by
  refine guarded_inert fun e he => ?_
  have hkind := hL _ (h e he)
  cases e <;> first | exact ⟨rfl, rfl⟩ | simp at hkind

/-! ## Moves -/

theorem placed_open {scope : ScopeId} {node : NodeKey} (hscope : s.scopes.lookup scope = some sc)
    (hnew : s.activations.lookup a = none) :
    Placed s (.activationOpened sc.run scope a node) :=
  ⟨hnew, sc, hscope, rfl⟩

/-- Activations of a state are still there, in the same run, in a second one. -/
def StillThere (s c : Core) : Prop :=
  ∀ a act, s.activations.lookup a = some act →
    ∃ act', c.activations.lookup a = some act' ∧ act'.run = act.run

theorem StillThere.refl (s : Core) : StillThere s s := fun _ act ha => ⟨act, ha, rfl⟩

theorem StillThere.evolve (h : StillThere s c) (placed : Placed c e) :
    StillThere s (evolve c e) := by
  intro a act ha
  obtain ⟨act', ha', hrun⟩ := h a act ha
  obtain ⟨act'', ha'', hrun', -⟩ := (keeps_evolve placed act'.run).activations _ act' ha' rfl
  exact ⟨act'', ha'', hrun'.trans hrun⟩

theorem StillThere.evolveAll (h : StillThere s c) (placed : Guarded Placed c es) :
    StillThere s (evolveAll c es) :=
  placed.keeps (fun _ _ placed h => h.evolve placed) h

section Moves

variable (tree : Tree s)
  (fresh : ∀ e ∈ es, ∀ a ∈ e.opensActivation?, s.activations.lookup a = none)

theorem Aborting.placed {saga : ActivationId} (h : Aborting o s saga error es)
    (there : StillThere s c)
    (fresh : ∀ e ∈ es, ∀ a ∈ e.opensActivation?, c.activations.lookup a = none) :
    Guarded Placed c es := by
  cases h with
  | blocked | intent | waiting => exact guarded_inert (by simp [Inert, DomainEvent.opensScope?,
      DomainEvent.opensActivation?])
  | failed _ _ _ _ hfailing =>
    exact guarded_inert (hfailing.all (fun _ => ⟨rfl, rfl⟩) (fun _ => ⟨rfl, rfl⟩)
      (fun _ _ => ⟨rfl, rfl⟩) fun _ _ => ⟨rfl, rfl⟩)
  | compensating hact =>
    obtain ⟨act, hsaga, hrun⟩ := there saga _ hact
    exact ⟨⟨fresh _ List.mem_cons_self _ rfl, act, hsaga, hrun⟩, trivial⟩

include tree

theorem guarded_followed {scope : ScopeId} {node : NodeKey} {l followed : List DomainEvent}
    (fresh : ∀ e ∈ l ++ followed, ∀ a ∈ e.opensActivation?, s.activations.lookup a = none)
    (hes : ∀ e ∈ l, Inert e) (h : Followed s scope node followed) :
    Guarded Placed s (l ++ followed) := by
  cases h with
  | ended =>
    rw [List.append_nil]
    exact guarded_inert hes
  | opened _ _ hscope =>
    exact guarded_concat tree hes (placed_open hscope
      (fresh _ (List.mem_append_right _ List.mem_cons_self) _ rfl))

include fresh

theorem NodeMove.placed {node : Node}
    (freshScope : ∀ e ∈ es, ∀ k ∈ e.opensScope?, s.scopes.lookup k = none)
    (advancing : Advancing s run act node) (move : NodeMove o s run time act node es) :
    Guarded Placed s es := by
  cases move with
  | reopened =>
    have hnew := fresh _ List.mem_cons_self _ rfl
    rw [advancing.hact] at hnew
    cases hnew
  | completed => exact guarded_placed_of_kinds kinds_completed (by decide)
  | failed hfailing | conflict _ hfailing | childFailed _ _ hfailing =>
    exact guarded_placed_of_kinds (hfailing.kinds (List.Subset.refl failureKinds)) (by decide)
  | timer | waiting => exact guarded_inert (by simp [Inert, DomainEvent.opensScope?,
      DomainEvent.opensActivation?])
  | due _ _ hscope => exact ⟨placed_open hscope (fresh _ List.mem_cons_self _ rfl), trivial⟩
  | @taken signal key timeoutMs consumeFrom next onTimeout text w runState entry followed _ _ _ _
      hfollowed =>
    exact guarded_followed tree
      (l := [.waitOpened act.run w act.id signal text (timeoutMs.map (satAdd time ·)) consumeFrom,
        .waitSatisfied act.run w entry.eventId entry.payload,
        .nodeOutputRecorded act.run act.scope act.node entry.payload])
      fresh (by simp [Inert, DomainEvent.opensScope?, DomainEvent.opensActivation?]) hfollowed
  | @finished _ guards followed output _ hguards _ hfollowed =>
    have hes : ∀ e ∈ guards ++ [.nodeOutputRecorded act.run act.scope act.node output],
        Inert e := List.forall_mem_append.mpr ⟨hguards.all fun _ _ _ => ⟨rfl, rfl⟩, by
          simp [Inert, DomainEvent.opensScope?, DomainEvent.opensActivation?]⟩
    rw [List.append_cons] at fresh ⊢
    exact guarded_followed tree fresh hes hfollowed
  | @skipped _ _ _ _ _ _ _ _ followed output _ _ _ hfollowed
  | @joined _ followed output _ hfollowed =>
    exact guarded_followed tree (l := [.nodeOutputRecorded act.run act.scope act.node output])
      fresh (by simp [Inert, DomainEvent.opensScope?, DomainEvent.opensActivation?]) hfollowed
  | @settled _ _ _ _ output followed _ _ _ _ hfollowed =>
    have hes : ∀ e ∈ settleSagaSuccess s act.id ++
        [.nodeOutputRecorded act.run act.scope act.node output], Inert e :=
      List.forall_mem_append.mpr ⟨settleSagaSuccess_all (fun _ _ => ⟨rfl, rfl⟩)
        fun _ _ => ⟨rfl, rfl⟩, by
          simp [Inert, DomainEvent.opensScope?, DomainEvent.opensActivation?]⟩
    rw [List.append_cons] at fresh ⊢
    exact guarded_followed tree fresh hes hfollowed
  | @childOpened _ guards role input body scope start hguards hrole hbody =>
    have hinert : ∀ e ∈ guards, Inert e := hguards.all fun _ _ _ => ⟨rfl, rfl⟩
    obtain ⟨r, hr, -⟩ := advancing.hactive
    have hopened : Placed s (.scopeOpened act.run scope (some act.id) role input) := by
      refine ⟨freshScope (.scopeOpened act.run scope (some act.id) role input) (by simp) _ rfl,
        hrole.symm, ⟨r, advancing.hrun ▸ hr⟩, fun a ha => ?_⟩
      obtain rfl := Option.some.inj ha
      exact ⟨act, node, advancing.hact, rfl, advancing.hnode, hbody⟩
    have hevents : guards ++ [.scopeOpened act.run scope (some act.id) role input,
        .activationOpened act.run scope start body.start] =
      (guards ++ [.scopeOpened act.run scope (some act.id) role input]) ++
        [.activationOpened act.run scope start body.start] := by simp
    rw [hevents, guarded_append]
    refine ⟨guarded_concat tree hinert hopened, ⟨?_, ?_⟩, trivial⟩
    · refine activations_stay_unused_all (fresh (.activationOpened act.run scope start body.start)
        (by simp) _ rfl) ?_
      simp only [List.forall_mem_append, List.forall_mem_singleton]
      exact ⟨fun e he => by simp [(hinert e he).2], by simp [DomainEvent.opensActivation?]⟩
    · -- the new scope is the one that the event before has opened
      rw [evolveAll, List.foldl_append, List.foldl_cons, List.foldl_nil, lookup_opened_scope]
      exact ⟨_, rfl, rfl⟩
  | cancelled _ _ _ hcancelled hown =>
    exact guarded_placed_of_kinds (kinds_cancelled hcancelled hown) (by decide)
  | aborted _ _ haborting => exact haborting.placed (.refl s) fresh

end Moves

/-- Sagas that are aborted together, all decided in one state. -/
theorem cancelSagas_placed {sagas : List ActivationId}
    (h : cancelSagas env o s error sagas ids = .ok es) (there : StillThere s c)
    (fresh : ∀ e ∈ es, ∀ a ∈ e.opensActivation?, c.activations.lookup a = none)
    (distinct : (es.filterMap DomainEvent.opensActivation?).Nodup) : Guarded Placed c es := by
  induction sagas generalizing ids es c with
  | nil =>
    obtain rfl := pure_eq_ok.mp h
    trivial
  | cons saga rest ih =>
    simp only [cancelSagas, bind_eq_ok, pure_eq_ok, Prod.exists] at h
    obtain ⟨first, ids', hfirst, others, hothers, rfl⟩ := h
    rw [List.filterMap_append, List.nodup_append] at distinct
    obtain ⟨-, hrest, hdisjoint⟩ := distinct
    obtain ⟨hnew, hnews⟩ := List.forall_mem_append.mp fresh
    have hplaced := (compensateOrFail_ok hfirst).placed there hnew
    refine guarded_append.mpr
      ⟨hplaced, ih hothers (there.evolveAll hplaced) (fun e he a ha => ?_) hrest⟩
    refine activations_stay_unused_all (hnews e he a ha) fun e' he' ha' => ?_
    exact hdisjoint a (List.mem_filterMap.mpr ⟨e', he', ha'⟩) a
      (List.mem_filterMap.mpr ⟨e, he, ha⟩) rfl

theorem Move.placed {body : CommandBody} (tree : Tree s)
    (freshScope : ∀ e ∈ es, ∀ k ∈ e.opensScope?, s.scopes.lookup k = none)
    (fresh : ∀ e ∈ es, ∀ a ∈ e.opensActivation?, s.activations.lookup a = none)
    (distinct : (es.filterMap DomainEvent.opensActivation?).Nodup)
    (recordable : Recordable env s es) (move : Move env o s time body es) :
    Guarded Placed s es := by
  have hkinds := move.kinds
  cases move with
  | @started run definition input catalog root a =>
    -- applying the last of the events needs the run
    obtain ⟨r, hr⟩ : ∃ r, s.runs.lookup run = some r := by
      have hpanics := recordable.2.2.1.2
      simpa [evolvePanics, lookup_runs_evolve, Option.isSome_iff_exists] using hpanics
    obtain ⟨r', hr', -⟩ := (keeps_evolve (s := s) (e := .runAdmitted run definition.id
      definition.version input root (.defaults definition.runTimeoutMs) time) trivial run).runs r hr
    refine ⟨trivial, ⟨?_, rfl, ⟨r', hr'⟩, by simp⟩, ⟨?_, ?_⟩, trivial⟩
    · exact scopes_stay_unused (freshScope (.scopeOpened run root none .root input) (by simp) _ rfl)
        (by simp [DomainEvent.opensScope?])
    · exact activations_stay_unused (activations_stay_unused (fresh (.activationOpened run root a
        definition.root.start) (by simp) _ rfl) (by
        simp [DomainEvent.opensActivation?])) (by simp [DomainEvent.opensActivation?])
    · rw [lookup_opened_scope]
      exact ⟨_, rfl, rfl⟩
  | @accepted _ run a act output probe owed followed hreported hrole hprobe howed hfollowed =>
    have hes : ∀ e ∈ probe ++ .leafSucceeded run a 1 output .forward ::
        .nodeOutputRecorded run act.scope act.node output :: owed, Inert e := by
      simp only [List.forall_mem_append, List.forall_mem_cons]
      exact ⟨hprobe.all fun _ _ => ⟨rfl, rfl⟩, ⟨rfl, rfl⟩, ⟨rfl, rfl⟩,
        compensationEvents_all howed (fun _ _ _ => ⟨rfl, rfl⟩) fun _ _ _ => ⟨rfl, rfl⟩⟩
    rcases hfollowed with ⟨-, rfl⟩ | ⟨-, hfollowed⟩
    · simpa using guarded_inert hes
    · have hevents : probe ++ .leafSucceeded run a 1 output .forward ::
          .nodeOutputRecorded run act.scope act.node output :: (owed ++ followed) =
        (probe ++ .leafSucceeded run a 1 output .forward ::
          .nodeOutputRecorded run act.scope act.node output :: owed) ++ followed := by simp
      rw [hevents] at fresh ⊢
      exact guarded_followed tree fresh hes hfollowed
  | @satisfied _ run w wait act entry followed hsettling hentry hfollowed =>
    exact guarded_followed tree
      (l := [.waitSatisfied run w entry.eventId entry.payload,
        .nodeOutputRecorded run act.scope act.node entry.payload])
      fresh (by simp [Inert, DomainEvent.opensScope?, DomainEvent.opensActivation?]) hfollowed
  | @timedOut _ run w _ _ _ _ _ _ _ _ _ _ _ hscope =>
    have hinert : ∀ e ∈ [DomainEvent.waitTimedOut run w], Inert e := by
      simp [Inert, DomainEvent.opensScope?, DomainEvent.opensActivation?]
    exact guarded_concat tree hinert (placed_open hscope
      (fresh _ (List.mem_cons_of_mem _ List.mem_cons_self) _ rfl))
  | advanced hadvancing _ hmove => exact hmove.placed tree fresh freshScope hadvancing
  | compensated _ _ hprobe => exact guarded_placed_of_kinds (kinds_compensated hprobe) (by decide)
  | erred _ _ hfailing => exact guarded_placed_of_kinds (kinds_erred hfailing) (by decide)
  | notApplied _ _ hsettled => exact guarded_placed_of_kinds (kinds_notApplied hsettled) (by decide)
  | unknown _ _ hfailure hescalated =>
    exact guarded_placed_of_kinds (kinds_unknown hfailure hescalated) (by decide)
  | retried | blocked | lost =>
    exact guarded_inert (by simp [Inert, DomainEvent.opensScope?, DomainEvent.opensActivation?])
  | cancelled _ _ _ _ hfailing =>
    exact guarded_placed_of_kinds (hfailing.kinds (List.Subset.refl failureKinds)) (by decide)
  | resolved | signalled | claimed | renewed | abandoned =>
    exact guarded_placed_of_kinds hkinds (by simp only [CommandBody.kinds]; decide)
  | @cancelledSagas run reason runState es ids _ _ hes =>
    have hclosing : ∀ e ∈ closePendingWaits o s run, Inert e :=
      closePendingWaits_all (fun _ _ => ⟨rfl, rfl⟩) fun _ => ⟨rfl, rfl⟩
    have hplaced := guarded_inert (s := s) hclosing
    rw [List.filterMap_append, List.nodup_append] at distinct
    refine guarded_append.mpr ⟨hplaced, cancelSagas_placed hes
      ((StillThere.refl s).evolveAll hplaced) (fun e he a ha => ?_) distinct.2.1⟩
    exact activations_stay_unused_all (fresh e (List.mem_append_right _ he) a ha)
      fun e he => by simp [(hclosing e he).2]
  | outside houtside => exact guarded_placed_of_kinds (kinds_outside houtside) (by decide)

/-- An open activation is not that of an activity. -/
theorem Tree.not_reopens (tree : Tree s) (e : DomainEvent) : s.reopens e = false := by
  cases e with
  | activationOpened run scope a node =>
    refine Bool.eq_false_iff.mpr fun hreopens => ?_
    simp only [Core.reopens, Option.any_eq_true, decide_eq_true_eq, isActivityNode] at hreopens
    obtain ⟨act, hact, rfl, rfl, hopen, n, hn, hactivity⟩ := hreopens
    obtain ⟨region, hregion, hnode⟩ := nodeOf_iff.mp hn
    have := tree.working _ _ _ _ hact hopen hregion hnode
    simp_all
  | _ => rfl

/-- A fresh step places its events. -/
theorem Decided.placed {step : Step} (tree : Tree step.before) (fresh : Fresh step)
    (decided : Decided env step) : Guarded Placed step.before step.events := by
  obtain ⟨o, move⟩ := decided.move fresh.unreplayed
  exact move.placed tree fresh.scopes (fun e he => fresh.activations e he (tree.not_reopens e))
    fresh.distinct decided.recordable

/-! ## Whole steps -/

theorem keeps_evolveAll (placed : Guarded Placed s es) (run : RunId) :
    Keeps run s (evolveAll s es) := by
  induction es generalizing s with
  | nil => exact .refl run s
  | cons e es ih => exact (keeps_evolve placed.1 run).trans (ih placed.2)

/-- A scope that events find or open. -/
theorem scope_evolveAll_cases (h : (evolveAll s es).scopes.lookup k = some sc) :
    (∃ old, s.scopes.lookup k = some old ∧ sc.run = old.run ∧ sc.parent = old.parent ∧
      sc.role = old.role ∧ sc.input = old.input) ∨
      .scopeOpened sc.run k sc.parent sc.role sc.input ∈ es := by
  induction es generalizing s with
  | nil => exact .inl ⟨sc, h, rfl, rfl, rfl, rfl⟩
  | cons e es ih =>
    rcases ih h with ⟨mid, hmid, hrun, hparent, hrole, hinput⟩ | hmem
    · rcases scope_after_cases hmid with ⟨old, hold, rfl⟩ | ⟨run, parent, role, input, rfl, rfl⟩
      · exact .inl ⟨old, hold, hrun, hparent, hrole, hinput⟩
      · rw [hrun, hparent, hrole, hinput]
        exact .inr List.mem_cons_self
    · exact .inr (List.mem_cons_of_mem _ hmem)

/-- A scope that an event opens is there after all events. -/
theorem opened_evolveAll {parent : Option ActivationId} {role : ScopeRole} {input : Value}
    (placed : Guarded Placed s es) (h : .scopeOpened run k parent role input ∈ es) :
    ∃ sc, (evolveAll s es).scopes.lookup k = some sc ∧ sc.run = run ∧ sc.parent = parent ∧
      sc.role = role ∧ sc.input = input := by
  obtain ⟨first, rest, rfl⟩ := List.append_of_mem h
  rw [guarded_append] at placed
  have hopened := lookup_opened_scope (evolveAll s first) run k parent role input
  have keeps := keeps_evolveAll placed.2.2 run
  simpa [evolveAll] using keeps.scopes k _ hopened rfl

/-- An activation that is not open stays there and does not become open. -/
theorem settled_evolveAll (placed : Guarded Placed s es) (h : s.activations.lookup a = some act)
    (hsettled : act.status ≠ .open) :
    ∃ act', (evolveAll s es).activations.lookup a = some act' ∧ act'.status ≠ .open := by
  induction es generalizing s act with
  | nil => exact ⟨act, h, hsettled⟩
  | cons e es ih =>
    exact ih placed.2 (placed.1.activation h) fun hopen => hsettled (statusAfter_eq_open hopen)

/-- An activation whose output is recorded is not open any more. -/
theorem settled_of_nodeOutputRecorded {output : Value} {first rest : List DomainEvent}
    (placed : Guarded Placed s (first ++ .nodeOutputRecorded run act.scope act.node output :: rest))
    (h : s.activations.lookup a = some act) :
    ∃ act', (evolveAll s (first ++ .nodeOutputRecorded run act.scope act.node output ::
      rest)).activations.lookup a = some act' ∧ act'.status ≠ .open := by
  rw [guarded_append] at placed
  obtain ⟨mid, hmid, -, hscope, hnode, -⟩ :=
    (keeps_evolveAll placed.1 act.run).activations a act h rfl
  have hrecorded : (evolve (evolveAll s first) (.nodeOutputRecorded run act.scope act.node
      output)).activations.lookup a = some (mid.after (evolveAll s first)
        (.nodeOutputRecorded run act.scope act.node output) a) := by
    simp [lookup_activations_evolve, activationAfter, newActivation, hmid]
  have hsettled : (mid.after (evolveAll s first)
      (.nodeOutputRecorded run act.scope act.node output) a).status ≠ .open := by
    simp only [ActivationState.after, statusAfter, hscope, hnode, true_and]
    split
    · simp
    · next hstatus => exact fun hopen => hstatus (.inl hopen)
  simpa [evolveAll] using settled_evolveAll placed.2.2 hrecorded hsettled

theorem tree_empty (clusterId : String) : Tree (State.empty clusterId).toCore where
  keyed := keyed_empty clusterId
  placed _ _ h := by cases h
  parent _ _ h := by cases h
  hung _ _ _ _ h := by cases h
  region _ _ h := by cases h
  working _ _ _ _ h := by cases h

end Graphrun
