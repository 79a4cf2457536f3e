import Graphrun.Engine.Kinds
import Graphrun.Engine.Tokens

/-!
# Moves keep one token in each scope

Every node kind closes its activation in the events that open its successor, with one exception:
a `wait_until` whose instant has come opens its successor and stays open. Steps that find no such
activation (`NoneDue`) keep one token in each scope.
-/

namespace Graphrun

open Lib

variable {env : Env} {o : Enumeration} {s s' : Core} {e : DomainEvent} {time : Nat} {ids : IdGen}
  {es : List DomainEvent} {a : ActivationId} {act : ActivationState} {output : Value} {run : RunId}
  {attempt : Nat} {role : ExecutionRole} {w : WaitId} {node : NodeKey}
  {l followed : List DomainEvent}

/-! ## Closed activations -/

/-- An activation that is not at work. -/
def Closed (s : Core) (a : ActivationId) : Prop :=
  ∀ act, s.activations.lookup a = some act → act.role = .forward → ¬ Active s a act

theorem Closed.calm (closed : Closed s a) (hes : ∀ e ∈ es, Calm e) :
    Closed (evolveAll s es) a := by
  intro act hact hrole hactive
  obtain ⟨old, hold, holdRole, -, holdActive⟩ := active_of_calm hes hact hrole hactive
  exact closed old hold holdRole holdActive

theorem not_awaited_of_calm (h : ¬ Awaited s a) (hes : ∀ e ∈ es, Calm e) :
    ¬ Awaited (evolveAll s es) a := by
  refine evolveAll_keeps (P := fun core => ¬ Awaited core a) (fun s e he h hawaited => ?_) hes h
  rcases awaited_of_evolve hawaited with hawaited | hwakes
  · exact h hawaited
  · rw [he.1] at hwakes
    cases hwakes

/-- Recording the output of an activation closes it. -/
theorem closed_of_nodeOutputRecorded (run : RunId) (h : s.activations.lookup a = some act)
    (hwaits : ¬ Awaited s a) :
    Closed (evolve s (.nodeOutputRecorded run act.scope act.node output)) a := by
  intro act' hact' hrole hactive
  have placed : Placed s (.nodeOutputRecorded run act.scope act.node output) := trivial
  obtain rfl := Option.mem_unique hact' (placed.activation h)
  rcases hactive with hlive | hawaited
  · simp only [Live, ActivationState.after, statusAfter, true_and] at hlive
    split at hlive
    · simp at hlive
    · next hnot => exact hnot hlive
  · exact (awaited_of_evolve hawaited).elim hwaits fun hwakes => by cases hwakes

/-- The success of an activation closes it. -/
theorem closed_of_leafSucceeded (hwaits : ¬ Awaited s a) :
    Closed (evolve s (.leafSucceeded run a attempt output role)) a := by
  intro act' hact' hrole hactive
  rcases activation_after_cases hact' with ⟨old, hold, rfl⟩ | ⟨_, _, _, hopened, -⟩ |
    ⟨_, _, _, _, _, _, _, _, hopened, -⟩
  · rcases hactive with hlive | hawaited
    · simp [Live, ActivationState.after, statusAfter] at hlive
    · exact (awaited_of_evolve hawaited).elim hwaits fun hwakes => by cases hwakes
  · cases hopened
  · cases hopened

/-- The end of its wait closes an activation. -/
theorem closed_of_wait_end {wait : WaitState} (tokens : Tokens s)
    (hwait : s.waits.lookup w = some wait) (hpending : wait.pending = true)
    (h : (∃ run eventId payload, e = .waitSatisfied run w eventId payload) ∨
      ∃ run, e = .waitTimedOut run w) : Closed (evolve s e) wait.activation := by
  have hwakes : e.wakes? = none := by
    rcases h with ⟨_, _, _, rfl⟩ | ⟨_, rfl⟩ <;> rfl
  have hstatus : ∀ act, statusAfter s e wait.activation act = .succeeded := by
    rcases h with ⟨_, _, _, rfl⟩ | ⟨_, rfl⟩ <;> simp [statusAfter, hwait]
  have hclosed : (evolve s e).waits.lookup w = some wait.close := by
    rcases h with ⟨_, _, _, rfl⟩ | ⟨_, rfl⟩ <;> simp [evolve_waits, Table.lookup_modify, hwait]
  have hopens : e.opensActivation? = none := by
    rcases h with ⟨_, _, _, rfl⟩ | ⟨_, rfl⟩ <;> rfl
  intro act' hact' hrole hactive
  rcases activation_after_cases hact' with ⟨old, hold, rfl⟩ | ⟨_, _, _, rfl, -⟩ |
    ⟨_, _, _, _, _, _, _, _, rfl, -⟩
  · rcases hactive with hlive | ⟨w', other, hw', hsame, hother⟩
    · simp [Live, ActivationState.after, hstatus] at hlive
    · rcases waitState_after hw' hother with hold' | ⟨_, _, _, _, rfl⟩
      · obtain rfl := tokens.unique w' w other wait hold' hwait hother hpending hsame
        obtain rfl := Option.mem_unique hw' hclosed
        cases hother
      · cases hwakes
  · cases hopens
  · cases hopens

/-! ## Opening the next node -/

theorem tokened_of_calm (h : Calm e) : Tokened s e := by
  obtain ⟨hwakes, hopens⟩ := h
  cases e with
  | leafFailed run a attempt code message retry => cases retry <;> trivial
  | _ => trivial

theorem guarded_tokened_calm (hes : ∀ e ∈ es, Calm e) : Guarded Tokened s es :=
  Guarded.of_all fun e he _ => tokened_of_calm (hes e he)

/-- After calm events that close the active activation of a scope, the next may be opened. -/
theorem tokened_open {b : ActivationId} (tokens : Tokens s) (h : s.activations.lookup a = some act)
    (hrole : act.role = .forward) (hactive : Active s a act) (hes : ∀ e ∈ es, Calm e)
    (hclosed : Closed (evolveAll s es) a) :
    Tokened (evolveAll s es) (.activationOpened run act.scope b node) := by
  intro c other hc hcRole hscope hcActive
  obtain ⟨old, hold, holdRole, holdScope, holdActive⟩ := active_of_calm hes hc hcRole hcActive
  have hsame : a = c := tokens.alone a c act old h hold hrole holdRole hactive holdActive
    (hscope.symm.trans holdScope.symm)
  exact hclosed other (hsame ▸ hc) hcRole (hsame ▸ hcActive)

/-- In a scope that was not there before, the first node may be opened. -/
theorem tokened_start {k : ScopeId} {b : ActivationId} (tree : Tree s)
    (hnew : s.scopes.lookup k = none) (hes : ∀ e ∈ es, Calm e) :
    Tokened (evolveAll s es) (.activationOpened run k b node) := by
  intro c other hc hcRole hscope hcActive
  obtain ⟨old, hold, -, holdScope, -⟩ := active_of_calm hes hc hcRole hcActive
  obtain ⟨sc, hsc, -⟩ := tree.placed c old hold
  rw [holdScope, hscope, hnew] at hsc
  cases hsc

theorem guarded_tokened_concat (hes : ∀ e ∈ es, Calm e) (h : Tokened (evolveAll s es) e) :
    Guarded Tokened s (es ++ [e]) :=
  guarded_append.mpr ⟨guarded_tokened_calm hes, h, trivial⟩

/-- What following an edge records: nothing, or one activation opened in the scope. -/
def Onward (scope : ScopeId) (es : List DomainEvent) : Prop :=
  es = [] ∨ ∃ run a next, es = [.activationOpened run scope a next]

theorem Followed.onward {scope : ScopeId} (h : Followed s scope node es) :
    Onward scope es := by
  cases h with
  | ended => exact .inl rfl
  | opened => exact .inr ⟨_, _, _, rfl⟩

theorem onward_or {p q : Prop} {scope : ScopeId}
    (h : p ∧ es = [] ∨ q ∧ Followed s scope node es) : Onward scope es :=
  h.elim (.inl ·.2) (·.2.onward)

theorem guarded_tokened_followed (tokens : Tokens s) (h : s.activations.lookup a = some act)
    (hrole : act.role = .forward) (hactive : Active s a act) (hl : ∀ e ∈ l, Calm e)
    (hclosed : Closed (evolveAll s l) a)
    (hfollowed : Onward act.scope followed) :
    Guarded Tokened s (l ++ followed) := by
  rcases hfollowed with rfl | ⟨run, b, next, rfl⟩
  · rw [List.append_nil]
    exact guarded_tokened_calm hl
  · exact guarded_tokened_concat hl (tokened_open tokens h hrole hactive hl hclosed)

/-! ## Results -/

theorem Tokens.evolveAll (tree : Tree s) (placed : Guarded Placed s es)
    (tokened : Guarded Tokened s es) (tokens : Tokens s) : Tokens (evolveAll s es) :=
  ((placed.and tokened).keeps (P := fun s => Tree s ∧ Tokens s) (fun _ _ guard h =>
    ⟨h.1.evolve guard.1, h.2.evolve h.1 guard.1 guard.2⟩) ⟨tree, tokens⟩).2

/-- A forward result can only be recorded for the activation of an activity. -/
theorem isActivity_of_recorded (h : Recorded env s (.leafSucceeded run a attempt output role))
    (hact : s.activations.lookup a = some act) (hforward : act.role ≠ .compensation) :
    isActivityNode s act.scope act.node = true := by
  obtain ⟨⟨owner, howner, hrefs⟩, -⟩ := h
  simp only [eventOwner, pure_eq_ok] at howner
  obtain ⟨cluster, refs, hrefs⟩ := hrefs run howner.symm
  simp only [ioReferences, activityForResult, bind_eq_ok, okOr_eq_ok] at hrefs
  obtain ⟨-, -, ⟨key, role'⟩, ⟨act', hact', found, hfound, ⟨key', input⟩, rfl, -⟩, -⟩ := hrefs
  obtain rfl := Option.mem_unique hact hact'
  have hactivity : ∀ {x}, forwardActivity s act = .ok (some x) →
      isActivityNode s act.scope act.node = true := by
    intro x hx
    unfold forwardActivity at hx
    split at hx
    · next hnode => simp [isActivityNode, hnode, Node.isActivity]
    · cases hx
  simp only [activityKey, hact] at hfound
  split at hfound
  · obtain ⟨forward, hforward, hfound⟩ := bind_eq_ok.mp hfound
    cases forward with
    | none => cases hfound
    | some x => exact hactivity hforward
  · exact hactivity hfound

/-- No wait is pending for an activation whose result is recorded. -/
theorem not_awaited_of_result {probe : List DomainEvent} (tree : Tree s) (tokens : Tokens s)
    (hact : s.activations.lookup a = some act) (hforward : act.role ≠ .compensation)
    (hprobe : AppliedProbe run a act probe) (placed : Guarded Placed s probe)
    (recorded : Recorded env (evolveAll s probe) (.leafSucceeded run a attempt output role)) :
    ¬ Awaited s a := by
  have hcalm : ∀ e ∈ probe, Calm e := hprobe.all fun _ _ => ⟨rfl, rfl⟩
  have tokens' := tokens.evolveAll tree placed (guarded_tokened_calm hcalm)
  obtain ⟨act', hact', -, -, -, hrole⟩ :=
    (keeps_evolveAll placed act.run).activations a act hact rfl
  have hactivity := isActivity_of_recorded recorded hact' (hrole ▸ hforward)
  rintro ⟨w, wait, hwait, rfl, hpending⟩
  have hwait' : (evolveAll s probe).waits.lookup w = some wait := by
    rcases hprobe with rfl | ⟨output, probes, -, rfl⟩
    · exact hwait
    · simpa [Graphrun.evolveAll, evolve_waits] using hwait
  obtain ⟨act'', hact'', -, -, -, hnode⟩ := tokens'.waiting w wait hwait' hpending
  obtain rfl := Option.mem_unique hact' hact''
  rw [hactivity] at hnode
  cases hnode

/-! ## Moves -/

theorem calm_of_kind (h : e.kind ∉ [.activationOpened, .waitOpened, .leafFailed]) : Calm e := by
  cases e <;> first | exact ⟨rfl, rfl⟩ | exact absurd (by simp) h

/-- No open activation of a `wait_until` node whose instant has come. -/
def Undue (s : Core) (run : RunId) (time : Nat) : Prop :=
  ∀ act instant next, Advancing s run act (.waitUntil instant next) →
    ¬ UntilDue s act instant time

/-- A step that finds no `wait_until` whose instant has come. -/
def NoneDue (step : Step) : Prop :=
  ∀ run, step.body = .progress run → Undue step.before run step.time

theorem isActivityNode_eq_false {k : ScopeId} {key : NodeKey} {node : Node}
    (h : nodeOf s k key = some node) (hnode : node.isActivity = false) :
    isActivityNode s k key = false := by
  simp [isActivityNode, h, hnode]

/-- An activation that records its output makes way for the next. -/
theorem guarded_tokened_output (tokens : Tokens s) (hact : s.activations.lookup a = some act)
    (hrole : act.role = .forward) (hactive : Active s a act) (hwaits : ¬ Awaited s a)
    (placed : Guarded Placed s l) (hl : ∀ e ∈ l, Calm e)
    (hfollowed : Onward act.scope followed) :
    Guarded Tokened s (l ++ .nodeOutputRecorded run act.scope act.node output :: followed) := by
  have hcalm : ∀ e ∈ l ++ [.nodeOutputRecorded run act.scope act.node output], Calm e :=
    List.forall_mem_append.mpr ⟨hl, by simp [Calm, DomainEvent.wakes?, DomainEvent.opensForward?]⟩
  have hclosed :
      Closed (evolveAll s (l ++ [.nodeOutputRecorded run act.scope act.node output])) a := by
    obtain ⟨act', hact', -, hscope, hnode, -⟩ :=
      (keeps_evolveAll placed act.run).activations a act hact rfl
    rw [evolveAll, List.foldl_append, ← hscope, ← hnode]
    exact closed_of_nodeOutputRecorded run hact' (not_awaited_of_calm hwaits hl)
  have hguarded := guarded_tokened_followed tokens hact hrole hactive hcalm hclosed hfollowed
  simpa using hguarded

/-- A wait that ends makes way for the next activation. -/
theorem guarded_tokened_ended {wait : WaitState} (tokens : Tokens s)
    (hwait : s.waits.lookup w = some wait) (hpending : wait.pending = true)
    (hact : s.activations.lookup wait.activation = some act)
    (hends : (∃ run eventId payload, e = .waitSatisfied run w eventId payload) ∨
      ∃ run, e = .waitTimedOut run w) (hl : ∀ e ∈ l, Calm e)
    (hfollowed : Onward act.scope followed) :
    Guarded Tokened s (e :: (l ++ followed)) := by
  obtain ⟨act', hact', hrole, -⟩ := tokens.waiting w wait hwait hpending
  obtain rfl := Option.mem_unique hact hact'
  have hcalm : ∀ e' ∈ e :: l, Calm e' := by
    rw [List.forall_mem_cons]
    refine ⟨?_, hl⟩
    rcases hends with ⟨_, _, _, rfl⟩ | ⟨_, rfl⟩ <;> exact ⟨rfl, rfl⟩
  have hclosed : Closed (evolveAll s (e :: l)) wait.activation :=
    (closed_of_wait_end tokens hwait hpending hends).calm hl
  exact guarded_tokened_followed tokens hact hrole (.inr ⟨w, wait, hwait, rfl, hpending⟩) hcalm
    hclosed hfollowed

/-- A wait that finds its event when it opens. -/
theorem guarded_tokened_taken {signal key : String} {deadline : Option Nat}
    {consumeFrom : ConsumeFrom} {eventId : EventId} {payload : Value} (tree : Tree s)
    (tokens : Tokens s) (hact : s.activations.lookup a = some act)
    (placed : Guarded Placed s (.waitOpened act.run w a signal key deadline consumeFrom ::
      .waitSatisfied act.run w eventId payload ::
      .nodeOutputRecorded act.run act.scope act.node payload :: followed))
    (hopened : Tokened s (.waitOpened act.run w a signal key deadline consumeFrom))
    (hfollowed : Onward act.scope followed) :
    Guarded Tokened s (.waitOpened act.run w a signal key deadline consumeFrom ::
      .waitSatisfied act.run w eventId payload ::
      .nodeOutputRecorded act.run act.scope act.node payload :: followed) := by
  refine ⟨hopened, ?_⟩
  have tokens' := tokens.evolve tree placed.1 hopened
  have hact' := placed.1.activation hact
  obtain ⟨wait, hwait, rfl, hpending⟩ : ∃ wait, (evolve s (.waitOpened act.run w a signal key
      deadline consumeFrom)).waits.lookup w = some wait ∧ _ := wait_of_waitOpened
  exact guarded_tokened_ended (l := [.nodeOutputRecorded act.run act.scope act.node payload])
    tokens' hwait hpending hact' (.inl ⟨_, _, _, rfl⟩)
    (by simp [Calm, DomainEvent.wakes?, DomainEvent.opensForward?]) hfollowed

theorem NodeMove.tokened {node : Node} (tree : Tree s) (tokens : Tokens s)
    (placed : Guarded Placed s es)
    (freshScope : ∀ e ∈ es, ∀ k ∈ e.opensScope?, s.scopes.lookup k = none)
    (freshWait : ∀ e ∈ es, ∀ w ∈ e.opensWait?, s.waits.lookup w = none)
    (undue : Undue s run time) (advancing : Advancing s run act node)
    (move : NodeMove o s run time act node es) : Guarded Tokened s es := by
  have hact := advancing.hact
  have hwaits := tokens.not_awaited_of_open hact advancing.hopen
  have hactive : Active s act.id act := .inl (.inl advancing.hopen)
  have hnext : ∀ {l followed : List DomainEvent} {output : Value},
      Guarded Placed s (l ++ .nodeOutputRecorded act.run act.scope act.node output :: followed) →
      (∀ e ∈ l, Calm e) → Followed s act.scope act.node followed →
      Guarded Tokened s (l ++ .nodeOutputRecorded act.run act.scope act.node output :: followed) :=
    fun placed hl hfollowed => guarded_tokened_output tokens hact advancing.hforward hactive hwaits
      (guarded_append.mp placed).1 hl hfollowed.onward
  have hfails : ∀ {k error}, Failing o s k error es → Guarded Tokened s es := fun hfailing =>
    guarded_tokened_calm (hfailing.all (fun _ => ⟨rfl, rfl⟩) (fun _ => ⟨rfl, rfl⟩)
      (fun _ _ => ⟨rfl, rfl⟩) fun _ _ => ⟨rfl, rfl⟩)
  have hopensWait : ∀ {w signal key deadline consumeFrom},
      .waitOpened run w act.id signal key deadline consumeFrom ∈ es → node.isActivity = false →
      Tokened s (.waitOpened run w act.id signal key deadline consumeFrom) :=
    fun hw hnode => ⟨freshWait _ hw _ rfl, act, hact, advancing.hforward, advancing.hrun,
      advancing.hopen, isActivityNode_eq_false advancing.hnode hnode⟩
  cases move with
  | reopened =>
    obtain ⟨region, hregion, hnode⟩ := nodeOf_iff.mp advancing.hnode
    cases tree.working _ _ _ _ hact advancing.hopen hregion hnode
  | completed => exact guarded_tokened_calm (completeScope_all ⟨rfl, rfl⟩ ⟨rfl, rfl⟩)
  | failed hfailing | conflict _ hfailing | childFailed _ _ hfailing => exact hfails hfailing
  | timer hnode =>
    refine ⟨hopensWait List.mem_cons_self ?_, trivial⟩
    cases node <;> first | rfl | cases hnode
  | due _ hdue => exact absurd hdue (undue act _ _ advancing)
  | waiting =>
    have hrun := advancing.hrun
    subst hrun
    exact ⟨hopensWait List.mem_cons_self rfl, trivial⟩
  | taken _ _ _ _ hfollowed =>
    have hrun := advancing.hrun
    subst hrun
    exact guarded_tokened_taken tree tokens hact placed (hopensWait List.mem_cons_self rfl)
      hfollowed.onward
  | finished _ hguards _ hfollowed =>
    exact hnext placed (hguards.all fun _ _ _ => ⟨rfl, rfl⟩) hfollowed
  | skipped _ _ _ hfollowed | joined _ hfollowed =>
    exact hnext (l := []) placed (by simp) hfollowed
  | settled _ _ _ _ hfollowed =>
    exact hnext placed (settleSagaSuccess_all (fun _ _ => ⟨rfl, rfl⟩) fun _ _ => ⟨rfl, rfl⟩)
      hfollowed
  | @childOpened _ guards role input body scope start hguards =>
    have hcalm : ∀ e ∈ guards ++ [.scopeOpened act.run scope (some act.id) role input], Calm e :=
      List.forall_mem_append.mpr ⟨hguards.all fun _ _ _ => ⟨rfl, rfl⟩, by
        simp [Calm, DomainEvent.wakes?, DomainEvent.opensForward?]⟩
    have hfirst : Tokened (evolveAll s (guards ++ [.scopeOpened act.run scope (some act.id) role
        input])) (.activationOpened act.run scope start body.start) :=
      tokened_start tree (freshScope (.scopeOpened act.run scope (some act.id) role input)
        (by simp) _ rfl) hcalm
    simpa using guarded_tokened_concat hcalm hfirst
  | cancelled _ _ _ hcancelled hown =>
    exact guarded_tokened_calm fun e he =>
      calm_of_kind (not_mem_of_kinds (kinds_cancelled hcancelled hown) (by decide) e he)
  | aborted _ _ haborting =>
    exact guarded_tokened_calm fun e he =>
      calm_of_kind (not_mem_of_kinds (haborting.kinds (List.Subset.refl _)) (by decide) e he)

theorem Move.tokened {body : CommandBody} (tree : Tree s) (tokens : Tokens s)
    (placed : Guarded Placed s es) (recordable : Recordable env s es)
    (freshScope : ∀ e ∈ es, ∀ k ∈ e.opensScope?, s.scopes.lookup k = none)
    (freshWait : ∀ e ∈ es, ∀ w ∈ e.opensWait?, s.waits.lookup w = none)
    (undue : ∀ run, body = .progress run → Undue s run time)
    (move : Move env o s time body es) : Guarded Tokened s es := by
  have hkinds := move.kinds
  have hother : (∀ k ∈ body.kinds, k ∉ [EventKind.activationOpened, .waitOpened, .leafFailed]) →
      Guarded Tokened s es := fun h =>
    guarded_tokened_calm fun e he => calm_of_kind (h _ (hkinds e he))
  have hplain {L : List EventKind} {es' : List DomainEvent} (h : ∀ e ∈ es', e.kind ∈ L)
      (hL : ∀ k ∈ L, k ∉ [EventKind.activationOpened, .waitOpened, .leafFailed]) :
      Guarded Tokened s es' :=
    guarded_tokened_calm fun e he => calm_of_kind (not_mem_of_kinds h hL e he)
  cases move with
  | @started run definition input catalog root a =>
    have hcalm : ∀ e ∈ [DomainEvent.runAdmitted run definition.id definition.version input root
        (.defaults definition.runTimeoutMs) time, .scopeOpened run root none .root input],
        Calm e := by
      simp [Calm, DomainEvent.wakes?, DomainEvent.opensForward?]
    exact guarded_tokened_concat hcalm (tokened_start tree
      (freshScope (.scopeOpened run root none .root input) (by simp) _ rfl) hcalm)
  | @accepted _ run a act output probe owed followed hreported hrole hprobe howed hfollowed =>
    have hforward := (tokens.roles a act hreported.hact).resolve_right hrole
    have hprobeCalm : ∀ e ∈ probe, Calm e := hprobe.all fun _ _ => ⟨rfl, rfl⟩
    have hrest : ∀ e ∈ DomainEvent.nodeOutputRecorded run act.scope act.node output :: owed,
        Calm e := List.forall_mem_cons.mpr ⟨⟨rfl, rfl⟩,
      compensationEvents_all howed (fun _ _ _ => ⟨rfl, rfl⟩) fun _ _ _ => ⟨rfl, rfl⟩⟩
    have hcalm : ∀ e ∈ probe ++ .leafSucceeded run a 1 output .forward ::
        .nodeOutputRecorded run act.scope act.node output :: owed, Calm e :=
      List.forall_mem_append.mpr ⟨hprobeCalm, List.forall_mem_cons.mpr ⟨⟨rfl, rfl⟩, hrest⟩⟩
    have hwaits := not_awaited_of_result tree tokens hreported.hact hrole hprobe
      (guarded_append.mp placed).1 (guarded_append.mp recordable).2.1
    have hclosed : Closed (evolveAll s (probe ++ .leafSucceeded run a 1 output .forward ::
        .nodeOutputRecorded run act.scope act.node output :: owed)) a := by
      rw [evolveAll, List.foldl_append]
      exact (closed_of_leafSucceeded (not_awaited_of_calm hwaits hprobeCalm)).calm hrest
    have hguarded := guarded_tokened_followed tokens hreported.hact hforward
      (.inl (.inr hreported.hready)) hcalm hclosed (onward_or hfollowed)
    simpa using hguarded
  | compensated _ _ hprobe => exact hplain (kinds_compensated hprobe) (by decide)
  | @retried _ run a act attempt code message hreported =>
    refine ⟨fun act' hact' => ?_, trivial, trivial⟩
    obtain rfl := Option.mem_unique hreported.hact hact'
    exact hreported.hready
  | blocked | lost => exact guarded_tokened_calm (by
      simp [Calm, DomainEvent.wakes?, DomainEvent.opensForward?])
  | erred _ _ hfailing =>
    exact guarded_tokened_calm (List.forall_mem_cons.mpr ⟨⟨rfl, rfl⟩, hfailing.all
      (fun _ => ⟨rfl, rfl⟩) (fun _ => ⟨rfl, rfl⟩) (fun _ _ => ⟨rfl, rfl⟩) fun _ _ => ⟨rfl, rfl⟩⟩)
  | notApplied _ _ hsettled =>
    rcases hsettled with ⟨-, rfl⟩ | ⟨-, attempt, code, message, rfl⟩ <;>
      exact guarded_tokened_calm (by simp [Calm, DomainEvent.wakes?, DomainEvent.opensForward?])
  | unknown _ _ hfailure hescalated => exact hplain (kinds_unknown hfailure hescalated) (by decide)
  | @satisfied _ run w wait act entry followed hsettling hentry hfollowed =>
    exact guarded_tokened_ended
      (l := [.nodeOutputRecorded run act.scope act.node entry.payload]) tokens hsettling.hwait
      hsettling.hpending hsettling.hact (.inl ⟨_, _, _, rfl⟩)
      (by simp [Calm, DomainEvent.wakes?, DomainEvent.opensForward?]) hfollowed.onward
  | @timedOut _ run w wait act node next sc a hsettling hdeadline hentry hnode hnext hscope =>
    exact guarded_tokened_ended (l := []) tokens hsettling.hwait hsettling.hpending hsettling.hact
      (.inr ⟨_, rfl⟩) (by simp) (.inr ⟨_, _, _, rfl⟩)
  | advanced hadvancing _ hmove =>
    exact hmove.tokened tree tokens placed freshScope freshWait (undue _ rfl) hadvancing
  | signalled | resolved | cancelled | cancelledSagas | claimed | renewed | abandoned =>
    exact hother (by simp)
  | outside houtside => exact hplain (kinds_outside houtside) (by decide)

/-- A fresh step that finds no due `wait_until` keeps one token in each scope. -/
theorem Decided.tokened {step : Step} (tree : Tree step.before) (tokens : Tokens step.before)
    (fresh : Fresh step) (undue : NoneDue step) (decided : Decided env step) :
    Guarded Tokened step.before step.events := by
  obtain ⟨o, move⟩ := decided.move fresh.unreplayed
  exact move.tokened tree tokens (decided.placed tree fresh) decided.recordable
    fresh.scopes fresh.waits undue

end Graphrun
