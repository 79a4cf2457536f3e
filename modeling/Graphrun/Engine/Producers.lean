import Graphrun.Engine.Records
import Graphrun.Model.Progress

/-!
# What the shared producers record

The inversion of the producers that several decisions share: following an edge (`Followed`),
failing a scope (`Failing`) and aborting a saga (`Aborting`), and what the lookups of children
return.
-/

namespace Graphrun

open Lib

variable {env : Env} {o : Enumeration} {s : Core} {time : Nat} {ids ids' : IdGen}
  {es : List DomainEvent} {scope : ScopeId} {node : NodeKey} {error : FailError}
  {a : ActivationId} {child : ScopeState}

/-! ## Edges -/

/-- Following the edge of a node opens its target; a node without one opens nothing. -/
inductive Followed (s : Core) (scope : ScopeId) (node : NodeKey) : List DomainEvent → Prop
  | ended {n : Node} (hnode : nodeOf s scope node = some n) (hend : n.next? = none) :
      Followed s scope node []
  | opened {n : Node} {next : NodeKey} {sc : ScopeState} {a : ActivationId}
      (hnode : nodeOf s scope node = some n) (hnext : n.next? = some next)
      (hscope : s.scopes.lookup scope = some sc) :
      Followed s scope node [.activationOpened sc.run scope a next]

theorem nodeOf_eq_some {key : NodeKey} {region : Region} {node : Node}
    (hregion : regionForScope s scope = some region) (hnode : region.node? key = some node) :
    nodeOf s scope key = some node := by
  simp [nodeOf, hregion, hnode]

theorem openNode_ok (h : openNode env s scope node ids = .ok (es, ids')) :
    ∃ sc a, s.scopes.lookup scope = some sc ∧ es = [.activationOpened sc.run scope a node] := by
  simp only [openNode, bind_eq_ok, okOr_eq_ok, pure_eq_ok, Prod.mk.injEq] at h
  obtain ⟨sc, hsc, rfl, -⟩ := h
  exact ⟨sc, _, hsc, rfl⟩

theorem followNext_ok (h : followNext env s scope node ids = .ok (es, ids')) :
    Followed s scope node es := by
  simp only [followNext, bind_eq_ok, okOr_eq_ok] at h
  obtain ⟨region, hregion, n, hn, h⟩ := h
  have hnode := nodeOf_eq_some hregion hn
  split at h
  · next hend =>
    simp only [pure_eq_ok, Prod.mk.injEq] at h
    obtain ⟨rfl, -⟩ := h
    exact .ended hnode hend
  · next next hnext =>
    obtain ⟨sc, a, hsc, rfl⟩ := openNode_ok h
    exact .opened hnode hnext hsc

theorem finishNode_ok {act : ActivationState} {output : Value}
    (h : finishNode env s act output ids = .ok (es, ids')) :
    ∃ followed, Followed s act.scope act.node followed ∧
      es = .nodeOutputRecorded act.run act.scope act.node output :: followed := by
  simp only [finishNode, bind_eq_ok, pure_eq_ok, Prod.mk.injEq, Prod.exists] at h
  obtain ⟨followed, ids₁, hf, rfl, -⟩ := h
  exact ⟨followed, followNext_ok hf, rfl⟩

/-! ## Failing scopes -/

/-- What failing a scope records: nothing when it has failed before, the end of the run when
it is the root. -/
inductive Failing (o : Enumeration) (s : Core) (scope : ScopeId) (error : FailError) :
    List DomainEvent → Prop
  | already {sc : ScopeState} (hscope : s.scopes.lookup scope = some sc)
      (hfailed : sc.status.isFailed = true) : Failing o s scope error []
  | root {sc : ScopeState} (hscope : s.scopes.lookup scope = some sc)
      (hfailed : sc.status.isFailed = false) (hrole : sc.role = .root) :
      Failing o s scope error (closePendingWaits o s sc.run ++
        [.scopeFailed sc.run scope error, .runFailed sc.run error])
  | inner {sc : ScopeState} (hscope : s.scopes.lookup scope = some sc)
      (hfailed : sc.status.isFailed = false) (hrole : sc.role ≠ .root) :
      Failing o s scope error [.scopeFailed sc.run scope error]

theorem failScope_ok (h : failScope o s scope error = .ok es) : Failing o s scope error es := by
  simp only [failScope, bind_eq_ok, okOr_eq_ok] at h
  obtain ⟨sc, hsc, h⟩ := h
  split at h
  · next hf =>
    simp only [pure_eq_ok] at h
    subst h
    exact .already hsc hf
  · next hf =>
    have hf' : sc.status.isFailed = false := by simpa using hf
    split at h
    · next hr =>
      simp only [pure_eq_ok] at h
      subst h
      exact .root hsc hf' hr
    · next hr =>
      simp only [pure_eq_ok] at h
      subst h
      exact .inner hsc hf' hr

/-- Scopes failed one after the other, all in the same state. -/
inductive FailingAll (o : Enumeration) (s : Core) (error : FailError) :
    List ScopeState → List DomainEvent → Prop
  | nil : FailingAll o s error [] []
  | cons {scope : ScopeState} {rest : List ScopeState} {es es' : List DomainEvent}
      (first : Failing o s scope.id error es) (others : FailingAll o s error rest es') :
      FailingAll o s error (scope :: rest) (es ++ es')

theorem failScopes_ok :
    ∀ {scopes : List ScopeState} {es : List DomainEvent},
      failScopes o s error scopes = .ok es → FailingAll o s error scopes es
  | [], es, h => by
    simp only [failScopes, pure_eq_ok] at h
    subst h
    exact .nil
  | scope :: rest, es, h => by
    simp only [failScopes, bind_eq_ok, pure_eq_ok] at h
    obtain ⟨first, hfirst, others, hothers, rfl⟩ := h
    exact .cons (failScope_ok hfirst) (failScopes_ok hothers)

/-! ## Aborting sagas -/

/-- What aborting a saga records. -/
inductive Aborting (o : Enumeration) (s : Core) (saga : ActivationId) (error : FailError) :
    List DomainEvent → Prop
  | blocked {act : ActivationState} (hact : s.activations.lookup saga = some act)
      (hblocked :
        s.obligations.any (fun item => item.owner = saga ∧ item.status.isBlocked) = true) :
      Aborting o s saga error
        [.interventionRequired act.run saga "compensation input is blocked"]
  | waiting {act : ActivationState} (hact : s.activations.lookup saga = some act)
      (hpending : pendingObligations s saga = [])
      (huncertain : uncertainForwards o s act.run = true)
      (herror : (s.sagaErrors.lookup saga).isSome = true) :
      Aborting o s saga error []
  | intent {act : ActivationState} (hact : s.activations.lookup saga = some act)
      (hpending : pendingObligations s saga = [])
      (huncertain : uncertainForwards o s act.run = true) :
      Aborting o s saga error [.abortIntent act.run saga error]
  | failed {act : ActivationState} {code : String} {es : List DomainEvent}
      (hact : s.activations.lookup saga = some act)
      (hblocked : s.obligations.any (fun item => item.owner = saga ∧ item.status.isBlocked) = false)
      (hpending : pendingObligations s saga = [])
      (hcertain : uncertainForwards o s act.run = false)
      (hfailing : Failing o s act.scope { code, message := error.message } es) :
      Aborting o s saga error es
  | compensating {act : ActivationState} {item : Obligation} {a : ActivationId}
      (hact : s.activations.lookup saga = some act)
      (hblocked : s.obligations.any (fun item => item.owner = saga ∧ item.status.isBlocked) = false)
      (hitem : (pendingObligations s saga).getLast? = some item) :
      Aborting o s saga error [.compensationStarted act.run saga item.forward a
        item.handler item.handlerVersion item.input error]

theorem compensateOrFail_ok {saga : ActivationId}
    (h : compensateOrFail env o s saga error ids = .ok (es, ids')) :
    Aborting o s saga error es := by
  simp only [compensateOrFail, bind_eq_ok, okOr_eq_ok] at h
  obtain ⟨act, hact, h⟩ := h
  split at h
  · next hb =>
    simp only [pure_eq_ok, Prod.mk.injEq] at h
    obtain ⟨rfl, -⟩ := h
    exact .blocked hact hb
  · next hb =>
    have hb' := Bool.eq_false_iff.mpr hb
    split at h
    · next hnone =>
      have hpending := List.getLast?_eq_none_iff.mp hnone
      split at h
      · next hu =>
        split at h <;> simp only [pure_eq_ok, Prod.mk.injEq] at h <;> obtain ⟨rfl, -⟩ := h
        · next he => exact .waiting hact hpending hu he
        · exact .intent hact hpending hu
      · next hu =>
        have hu' := Bool.eq_false_iff.mpr hu
        split at h <;> simp only [bind_eq_ok, pure_eq_ok, Prod.mk.injEq] at h <;>
          obtain ⟨failed, hfailed, rfl, -⟩ := h <;>
          exact .failed hact hb' hpending hu' (failScope_ok hfailed)
    · next item hitem =>
      simp only [pure_eq_ok, Prod.mk.injEq] at h
      obtain ⟨rfl, -⟩ := h
      exact .compensating hact hb' hitem

/-! ## Children -/

/-- The containers whose children run side by side. -/
def Node.isJoin : Node → Bool
  | .parallel .. | .foreach .. => true
  | _ => false

/-- No child of an activation is open. -/
def Childless (s : Core) (a : ActivationId) : Prop :=
  ∀ k child, s.scopes.lookup k = some child → child.parent = some a → child.status ≠ .open

theorem mem_childrenOf :
    child ∈ childrenOf o s a ↔
      (∃ k, s.scopes.lookup k = some child) ∧ child.parent = some a := by
  simp [childrenOf, Enumeration.mem_values]

theorem childless_of_childOf_none (h : childOf o s a = none) :
    Childless s a := by
  intro k child hk hparent
  have hmem : child ∈ childrenOf o s a := mem_childrenOf.mpr ⟨⟨k, hk⟩, hparent⟩
  simp only [childOf] at h
  split at h
  · cases h
  · next hnone =>
    intro hopen
    have := List.find?_eq_none.mp hnone child hmem
    simp [hopen] at this

theorem childOf_eq_some (h : childOf o s a = some child) :
    child ∈ childrenOf o s a ∧ (child.status ≠ .open → Childless s a) := by
  simp only [childOf] at h
  split at h
  · next found hfound =>
    obtain rfl := Option.some.inj h
    refine ⟨List.mem_of_find?_eq_some hfound, fun hne => ?_⟩
    have := List.find?_some hfound
    simp only [decide_eq_true_eq] at this
    exact absurd this hne
  · next hnone =>
    have hmem : child ∈ childrenOf o s a :=
      (List.perm_insertionSort _ _).mem_iff.mp (List.mem_of_getLast? h)
    refine ⟨hmem, fun _ k other hk hparent hopen => ?_⟩
    have hother : other ∈ childrenOf o s a := mem_childrenOf.mpr ⟨⟨k, hk⟩, hparent⟩
    have := List.find?_eq_none.mp hnone other hother
    simp [hopen] at this

theorem failedChild_eq_some (h : failedChild o s a = some (child, error)) :
    child ∈ childrenOf o s a ∧ child.status = .failed error := by
  obtain ⟨found, hmem, hfound⟩ := List.exists_of_findSome?_eq_some h
  split at hfound
  · next e he =>
    obtain ⟨rfl, rfl⟩ := Prod.mk.inj (Option.some.inj hfound)
    exact ⟨hmem, he⟩
  · cases hfound

theorem not_failed_of_failedChild {k : ScopeId} (h : failedChild o s a = none)
    (hk : s.scopes.lookup k = some child) (hparent : child.parent = some a) :
    child.status ≠ .failed error := by
  intro hstatus
  have hnone := List.findSome?_eq_none_iff.mp h child (mem_childrenOf.mpr ⟨⟨k, hk⟩, hparent⟩)
  simp [hstatus] at hnone

theorem openChild_eq (env : Env) (ids : IdGen) (act : ActivationState) (role : ScopeRole)
    (input : Value) (body : Region) :
    ∃ scope start, (openChild env act role input body ids).1 =
      [.scopeOpened act.run scope (some act.id) role input,
        .activationOpened act.run scope start body.start] :=
  ⟨_, _, rfl⟩

end Graphrun
