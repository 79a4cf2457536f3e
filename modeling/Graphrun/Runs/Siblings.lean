import Graphrun.Engine.Soundness

/-!
# Cancellation of siblings

A `parallel` or `foreach` whose child has failed cancels the other children and then fails its own
scope. An effect that may still happen (a ready activation under a claim, somewhere below a
sibling) is to keep the scopes above it from being failed, and nothing else is to keep the failure
from the enclosing scope.

`foreach` asks for no claims at all. `parallel` asks for claims in the scope of a branch itself,
whatever the activation under the claim does by now. Where that makes no difference
(`SiblingsCertain`), siblings are spared and failures propagate (`siblings_spared`).
-/

namespace Graphrun

open Lib

variable {env : Env} {o : Enumeration} {s : Core} {e : DomainEvent} {time : Nat} {ids ids' : IdGen}
  {es : List DomainEvent} {run : RunId} {act : ActivationState} {node : Node} {k : ScopeId}
  {sc : ScopeState} {a : ActivationId} {next : NodeKey} {branches : List ParallelBranch}

/-! ## Scopes above scopes -/

/-- One scope is another or lies below it. -/
inductive Under (s : Core) (top : ScopeId) : ScopeId → Prop
  | here : Under s top top
  | up {k : ScopeId} {sc : ScopeState} {a : ActivationId} {act : ActivationState}
      (hk : s.scopes.lookup k = some sc) (hparent : sc.parent = some a)
      (hact : s.activations.lookup a = some act) (above : Under s top act.scope) : Under s top k

theorem scopeAbove_of_parent (tree : Tree s) (hk : s.scopes.lookup k = some sc)
    (hparent : sc.parent = some a) (hact : s.activations.lookup a = some act) :
    scopeAbove s k = some act.scope := by
  obtain ⟨sc', hsc', -⟩ := tree.placed a act hact
  obtain ⟨region, hregion⟩ := tree.region act.scope sc' hsc'
  exact scopeAbove_eq hk ((tree.parent k sc hk).symm.trans hparent) hact hregion

/-- What lies below a scope is not above it. -/
theorem Under.height_le {top : ScopeId} {m n : Nat} (tree : Tree s) (h : Under s top k)
    (hm : Grounded (scopeAbove s) m top) (hn : Grounded (scopeAbove s) n k) : m ≤ n := by
  induction h generalizing n with
  | here => exact (hm.unique hn).le
  | up hk hparent hact _ ih =>
    have hup := scopeAbove_of_parent tree hk hparent hact
    cases hn with
    | root h =>
      rw [hup] at h
      cases h
    | step h rest =>
      obtain rfl := Option.mem_unique hup h
      exact Nat.le_succ_of_le (ih rest)

theorem not_under_child (tree : Tree s) (hk : s.scopes.lookup k = some sc)
    (hparent : sc.parent = some a) (hact : s.activations.lookup a = some act) :
    ¬ Under s k act.scope := by
  intro h
  obtain ⟨sc', hsc', -⟩ := tree.placed a act hact
  obtain ⟨region, hregion⟩ := tree.region act.scope sc' hsc'
  obtain ⟨n, hn⟩ := hregion.grounded
  have hle := h.height_le tree (.step (scopeAbove_of_parent tree hk hparent hact) hn) hn
  omega

/-- Two children of one activation do not lie below each other. -/
theorem eq_of_under_sibling {k' : ScopeId} {sc' : ScopeState} (tree : Tree s)
    (hk : s.scopes.lookup k = some sc) (hparent : sc.parent = some a)
    (hk' : s.scopes.lookup k' = some sc') (hparent' : sc'.parent = some a)
    (hact : s.activations.lookup a = some act) (h : Under s k k') : k = k' := by
  cases h with
  | here => rfl
  | up hk'' hparent'' hact' above =>
    obtain rfl := Option.mem_unique hk' hk''
    obtain rfl := Option.mem_unique hparent' hparent''
    obtain rfl := Option.mem_unique hact hact'
    exact absurd above (not_under_child tree hk hparent hact)

/-! ## Failed scopes -/

/-- A scope that has failed was failed by an event, or before. -/
theorem failed_after {sc' : ScopeState} (h : (evolveAll s es).scopes.lookup k = some sc')
    (hfailed : sc'.status.isFailed = true) :
    (∃ sc, s.scopes.lookup k = some sc ∧ sc.status.isFailed = true) ∨
      (∃ run error, .scopeFailed run k error ∈ es) ∨ ∃ run error, .runFailed run error ∈ es := by
  induction es generalizing s with
  | nil => exact .inl ⟨sc', h, hfailed⟩
  | cons e es ih =>
    rcases ih h with ⟨sc, hsc, hstatus⟩ | ⟨run, error, hmem⟩ | ⟨run, error, hmem⟩
    · rcases scope_after_cases hsc with ⟨old, hold, rfl⟩ | ⟨_, _, _, _, -, rfl⟩
      · cases e with
        | scopeFailed run id error =>
          by_cases hid : k = id
          · exact .inr (.inl ⟨run, error, by simp [hid]⟩)
          · exact .inl ⟨old, hold, by simpa [ScopeState.after, scopeStatusAfter, hid] using hstatus⟩
        | runFailed run error => exact .inr (.inr ⟨run, error, by simp⟩)
        | scopeCompleted run id output =>
          by_cases hid : k = id
          · simp [ScopeState.after, scopeStatusAfter, hid, ScopeStatus.isFailed] at hstatus
          · exact .inl ⟨old, hold, by simpa [ScopeState.after, scopeStatusAfter, hid] using hstatus⟩
        | _ => exact .inl ⟨old, hold, hstatus⟩
      · cases hstatus
    · exact .inr (.inl ⟨run, error, List.mem_cons_of_mem _ hmem⟩)
    · exact .inr (.inr ⟨run, error, List.mem_cons_of_mem _ hmem⟩)

theorem scope_kept_of_kind (h : e.kind ≠ .scopeOpened) (hk : s.scopes.lookup k = some sc) :
    (evolve s e).scopes.lookup k = some (sc.after e k) := by
  rw [lookup_scopes_evolve, scopeAfter, hk]
  cases e <;> first | rfl | exact absurd rfl h

/-- What failing records fails a scope for good. -/
theorem failed_of_mem (hes : ∀ e ∈ es, e.kind ∈ failureKinds) (hk : s.scopes.lookup k = some sc)
    (h : sc.status.isFailed = true ∨ ∃ run error, .scopeFailed run k error ∈ es) :
    ∃ sc', (evolveAll s es).scopes.lookup k = some sc' ∧ sc'.status.isFailed = true := by
  induction es generalizing s sc with
  | nil =>
    rcases h with h | ⟨run, error, hmem⟩
    · exact ⟨sc, hk, h⟩
    · cases hmem
  | cons e es ih =>
    obtain ⟨he, hes⟩ := List.forall_mem_cons.mp hes
    have hkept := scope_kept_of_kind (fun hkind => by rw [hkind] at he; simp at he) hk
    refine ih hes hkept ?_
    rcases h with hfailed | ⟨run, error, hmem⟩
    · left
      cases e with
      | scopeFailed | runFailed =>
        simp only [ScopeState.after, scopeStatusAfter]
        split
        · rfl
        · exact hfailed
      | reservationReleased | waitCancelled => exact hfailed
      | _ => simp at he
    · rcases List.mem_cons.mp hmem with rfl | hmem
      · left
        simp [ScopeState.after, scopeStatusAfter, ScopeStatus.isFailed]
      · exact .inr ⟨run, error, hmem⟩

theorem scopeFailed_of_failing {k' : ScopeId} {error error' : FailError}
    (h : Failing o s k error es) (hmem : .scopeFailed run k' error' ∈ es) : k' = k := by
  have hall : ∀ e ∈ es, ∀ run k' error', e = .scopeFailed run k' error' → k' = k :=
    h.all (P := fun e => ∀ run k' error', e = .scopeFailed run k' error' → k' = k)
      (by simp) (by simp) (by simp) (by simp)
  exact hall _ hmem run k' error' rfl

theorem scopeFailed_of_failingAll {reason error : FailError} {scopes : List ScopeState}
    (h : FailingAll o s reason scopes es) (hmem : .scopeFailed run k error ∈ es) :
    ∃ sc ∈ scopes, k = sc.id := by
  induction h with
  | nil => cases hmem
  | cons first _ ih =>
    rcases List.mem_append.mp hmem with hmem | hmem
    · exact ⟨_, List.mem_cons_self, scopeFailed_of_failing first hmem⟩
    · obtain ⟨sc, hsc, hk⟩ := ih hmem
      exact ⟨sc, List.mem_cons_of_mem _ hsc, hk⟩

/-- Failing scopes other than roots fails no run. -/
theorem runFailed_not_mem {reason error : FailError} {scopes : List ScopeState}
    (h : FailingAll o s reason scopes es)
    (hinner : ∀ sc ∈ scopes, ∀ sc', s.scopes.lookup sc.id = some sc' → sc'.role ≠ .root) :
    .runFailed run error ∉ es := by
  induction h with
  | nil => exact List.not_mem_nil
  | cons first _ ih =>
    obtain ⟨hfirst, hrest⟩ := List.forall_mem_cons.mp hinner
    rw [List.mem_append, not_or]
    refine ⟨?_, ih hrest⟩
    cases first with
    | already => exact List.not_mem_nil
    | root hk _ hrole => exact absurd hrole (hfirst _ hk)
    | inner => simp

/-- A scope that is being failed has failed afterwards. -/
theorem Failing.failed {error : FailError} (h : Failing o s k error es) {pre : List DomainEvent}
    (hpre : ∀ e ∈ pre, e.kind ∈ failureKinds) :
    ∃ sc, (evolveAll s (pre ++ es)).scopes.lookup k = some sc ∧ sc.status.isFailed = true := by
  have hkinds := List.forall_mem_append.mpr ⟨hpre, h.kinds (List.Subset.refl failureKinds)⟩
  cases h with
  | already hk hfailed => exact failed_of_mem hkinds hk (.inl hfailed)
  | @root sc hk => exact failed_of_mem hkinds hk (.inr ⟨sc.run, error, by simp⟩)
  | @inner sc hk => exact failed_of_mem hkinds hk (.inr ⟨sc.run, error, by simp⟩)

/-! ## What a join does about a failed child -/

/-- The children that a join cancels when one has failed. -/
def cancelled (o : Enumeration) (s : Core) (act : ActivationState) (failed : ScopeId) :
    Node → List ScopeState
  | .parallel .. => (openSiblings o s act.id failed).filter fun sibling =>
    scopeIsClaimed o s sibling.id = false
  | _ => openSiblings o s act.id failed

/-- Whether a claim holds a join back. -/
def heldBack (o : Enumeration) (s : Core) (act : ActivationState) (failed : ScopeId) : Node → Bool
  | .parallel .. => (openSiblings o s act.id failed).any fun sibling =>
    scopeIsClaimed o s sibling.id
  | _ => false

/-- Every branch of a `parallel` has its scope. -/
def Branched (s : Core) (act : ActivationState) : Node → Prop
  | .parallel branches _ => ∀ branch ∈ branches, ∃ k sc, s.scopes.lookup k = some sc ∧
    sc.role = .parallelBranch act.id branch.name
  | _ => True

/-- The events of an emission. -/
def emitted (emission : Option Emission) : List DomainEvent := (emission.map (·.1)).getD []

theorem emitted_unlessEmpty (emission : Emission) :
    emitted (unlessEmpty emission) = emission.1 := by
  unfold unlessEmpty
  split
  · next h => simp [emitted, h]
  · rfl

/-- A join with a failed child opens a branch that is missing, or cancels and fails. -/
inductive Joining (o : Enumeration) (s : Core) (act : ActivationState) (failed : ScopeId)
    (error : FailError) (node : Node) : List DomainEvent → Prop
  | opened {es : List DomainEvent} (hkinds : ∀ e ∈ es, e.kind ∉ failureKinds)
      (hmissing : ¬ Branched s act node) : Joining o s act failed error node es
  | held {es : List DomainEvent} {reason : FailError}
      (hcancelled : FailingAll o s reason (cancelled o s act failed node) es)
      (hheld : heldBack o s act failed node = true) : Joining o s act failed error node es
  | failed {es own : List DomainEvent} {reason : FailError}
      (hcancelled : FailingAll o s reason (cancelled o s act failed node) es)
      (hheld : heldBack o s act failed node = false)
      (hown : Failing o s act.scope error own) : Joining o s act failed error node (es ++ own)

theorem not_allDone_of_failedChild {failed : ScopeState} {error : FailError}
    (h : failedChild o s a = some (failed, error)) : ¬ AllDone s a := by
  intro hdone
  obtain ⟨hmem, hstatus⟩ := failedChild_eq_some h
  obtain ⟨⟨k, hk⟩, hparent⟩ := mem_childrenOf.mp hmem
  have hcompleted := hdone k failed hk hparent
  rw [hstatus] at hcompleted
  cases hcompleted

theorem progressForeach_joining {items : Binding} {schema : SchemaRef}
    {maxItems maxConcurrency : Nat} {body : Region} {failed : ScopeState} {error : FailError}
    {emission : Emission} (sound : Sound s) (advancing : Advancing s run act
      (.foreach items schema maxItems maxConcurrency body next))
    (hfailed : failedChild o s act.id = some (failed, error))
    (h : progressForeach env o s act items maxItems maxConcurrency body ids = .ok emission) :
    Joining o s act failed.id error (.foreach items schema maxItems maxConcurrency body next)
      emission.1 := by
  simp only [progressForeach, bind_eq_ok, okOr_eq_ok] at h
  obtain ⟨scope, hscope, ctx, hctx, value, hvalue, h⟩ := h
  split at h
  · next list =>
    have hitems : Evaluates s act items (.array list) := ⟨scope, ctx, hscope, hctx, hvalue⟩
    have hdone (hdone : list = [] ∨
        ((s.foreachDone.lookup act.id).getD []).length = list.length) : False :=
      not_allDone_of_failedChild hfailed (sound.measured.allDone_of_items sound.nested sound.tree
        ⟨advancing.hact, advancing.hforward, _, advancing.hnode, rfl⟩ advancing.hopen hitems hdone)
    simp only [bind_eq_ok] at h
    obtain ⟨-, -, h⟩ := h
    rw [if_neg fun hempty => hdone (.inl hempty), if_neg fun hlength => hdone (.inr hlength),
      hfailed] at h
    simp only [bind_eq_ok, pure_eq_ok] at h
    obtain ⟨others, hothers, own, hown, rfl⟩ := h
    exact .failed (failScopes_ok hothers) rfl (failScope_ok hown)
  · simp at h

theorem branched_iff (tree : Tree s) (h : Branched s act (.parallel branches next))
    {branch : ParallelBranch} (hbranch : branch ∈ branches) :
    branch.name ∈ (childrenOf o s act.id).filterMap branchName? := by
  obtain ⟨k, sc, hk, hrole⟩ := h branch hbranch
  have hparent : sc.parent = some act.id := (tree.parent k sc hk).trans (by rw [hrole]; rfl)
  exact List.mem_filterMap.mpr ⟨sc, mem_childrenOf.mpr ⟨⟨k, hk⟩, hparent⟩, by
    rw [branchName?, hrole]⟩

theorem progressParallel_joining {failed : ScopeState} {error : FailError} {emission : Emission}
    (sound : Sound s) (advancing : Advancing s run act (.parallel branches next))
    (hfailed : failedChild o s act.id = some (failed, error))
    (h : progressParallel env o s act branches ids = .ok emission) :
    Joining o s act failed.id error (.parallel branches next) emission.1 := by
  simp only [progressParallel] at h
  rw [if_neg fun hlength => not_allDone_of_failedChild hfailed
    (sound.nested.allDone_of_branches sound.tree advancing.hact advancing.hnode hlength)] at h
  split at h
  · next branch hmissing =>
    simp only [bind_eq_ok, okOr_eq_ok, pure_eq_ok] at h
    obtain ⟨scope, -, ctx, -, input, -, rfl⟩ := h
    split at hmissing
    · refine .opened ?_ fun hbranched => ?_
      · obtain ⟨scope, start, hopen⟩ :=
          openChild_eq env ids act (.parallelBranch act.id branch.name) input branch.body
        rw [hopen]
        simp
      · have hfree := List.find?_some hmissing
        exact of_decide_eq_true hfree
          (branched_iff sound.tree hbranched (List.mem_of_find?_eq_some hmissing))
    · cases hmissing
  · rw [hfailed] at h
    simp only [bind_eq_ok] at h
    obtain ⟨others, hothers, h⟩ := h
    split at h
    · next hclaimed =>
      obtain rfl := pure_eq_ok.mp h
      exact .held (failScopes_ok hothers) hclaimed
    · next hclaimed =>
      simp only [bind_eq_ok, pure_eq_ok] at h
      obtain ⟨own, hown, rfl⟩ := h
      exact .failed (failScopes_ok hothers) (Bool.eq_false_iff.mpr hclaimed) (failScope_ok hown)

theorem progressNode_joining {failed : ScopeState} {error : FailError}
    {emission : Option Emission} (sound : Sound s) (advancing : Advancing s run act node)
    (hjoin : node.isJoin = true) (hfailed : failedChild o s act.id = some (failed, error))
    (h : progressNode env o s run time act node ids = .ok emission) :
    Joining o s act failed.id error node (emitted emission) := by
  cases node with
  | foreach items schema maxItems maxConcurrency body next =>
    simp only [progressNode, map_eq_ok] at h
    obtain ⟨emission, h, rfl⟩ := h
    rw [emitted_unlessEmpty]
    exact progressForeach_joining sound advancing hfailed h
  | parallel branches next =>
    simp only [progressNode, map_eq_ok] at h
    obtain ⟨emission, h, rfl⟩ := h
    rw [emitted_unlessEmpty]
    exact progressParallel_joining sound advancing hfailed h
  | _ => cases hjoin

/-! ## Uncertain effects -/

/-- A forward activation whose effect may still happen. -/
structure Uncertain (act : ActivationState) : Prop where
  forward : act.role = .forward
  ready : act.status = .ready
  claimed : act.claim.isSome = true

instance (act : ActivationState) : Decidable (Uncertain act) :=
  decidable_of_iff (act.role = .forward ∧ act.status = .ready ∧ act.claim.isSome = true)
    ⟨fun h => ⟨h.1, h.2.1, h.2.2⟩, fun h => ⟨h.forward, h.ready, h.claimed⟩⟩

/-- The activation holds a claim with a lease. -/
def Leased (act : ActivationState) : Prop := act.claim.any (fun claim => claim.leaseExpiryMs > 0)

instance (act : ActivationState) : Decidable (Leased act) :=
  inferInstanceAs (Decidable (_ = true))

/-- A scope of the run below a sibling of a failed child holds an uncertain effect. -/
def UncertainBelow (s : Core) (act : ActivationState) (failed : ScopeId) (b : ActivationState) :
    Prop :=
  s.activations.lookup b.id = some b ∧ Uncertain b ∧ ∃ k sc, s.scopes.lookup k = some sc ∧
    sc.parent = some act.id ∧ k ≠ failed ∧ Under s k b.scope

/-- No scope above an uncertain effect below a sibling is failed by the events. -/
def SiblingsSpared (s : Core) (act : ActivationState) (failed : ScopeId)
    (es : List DomainEvent) : Prop :=
  ∀ b, UncertainBelow s act failed b → ∀ top sc sc', Under s top b.scope →
    s.scopes.lookup top = some sc → sc.status.isFailed = false →
    (evolveAll s es).scopes.lookup top = some sc' → sc'.status.isFailed = false

/-- Without uncertain effects below the siblings the enclosing scope has failed after the
events. -/
def FailurePropagates (s : Core) (act : ActivationState) (failed : ScopeId)
    (es : List DomainEvent) : Prop :=
  (∀ b, ¬ UncertainBelow s act failed b) →
    ∃ sc, (evolveAll s es).scopes.lookup act.scope = some sc ∧ sc.status.isFailed = true

/-- What the engine would have to know about the sibling `k` of a failed child: below an item of
a `foreach` nothing is uncertain, and below a branch of a `parallel` only what holds a lease in
the open branch itself, where whatever holds a lease is uncertain. -/
def SiblingCertain (s : Core) (k : ScopeId) (sc : ScopeState) : Node → Prop
  | .foreach .. => ∀ b act, s.activations.lookup b = some act → Uncertain act →
    ¬ Under s k act.scope
  | .parallel .. =>
    (∀ b act, s.activations.lookup b = some act → Uncertain act → Under s k act.scope →
      act.scope = k ∧ sc.status = .open ∧ Leased act) ∧
    (sc.status = .open → ∀ b act, s.activations.lookup b = some act → act.scope = k →
      Leased act → Uncertain act)
  | _ => True

/-- Where progress of a run finds a join with a failed child, its siblings are certain. -/
def SiblingsCertain (step : Step) : Prop :=
  ∀ run, step.body = .progress run → ∀ act node, Advancing step.before run act node →
    ∀ failed scf, step.before.scopes.lookup failed = some scf → scf.parent = some act.id →
      scf.status.isFailed = true → ∀ k sc, step.before.scopes.lookup k = some sc →
        sc.parent = some act.id → k ≠ failed → SiblingCertain step.before k sc node

theorem scopeIsClaimed_iff : scopeIsClaimed o s k = true ↔
    ∃ b act, s.activations.lookup b = some act ∧ act.scope = k ∧ Leased act := by
  simp only [scopeIsClaimed, List.any_eq_true, Enumeration.mem_values, decide_eq_true_eq, Leased]
  constructor
  · rintro ⟨act, ⟨b, hb⟩, hscope, hclaim⟩
    exact ⟨b, act, hb, hscope, hclaim⟩
  · rintro ⟨b, act, hb, hscope, hclaim⟩
    exact ⟨act, ⟨b, hb⟩, hscope, hclaim⟩

section Join

variable {failed : ScopeState} {error : FailError}

theorem mem_openSiblings (tree : Tree s) :
    sc ∈ openSiblings o s act.id k ↔ s.scopes.lookup sc.id = some sc ∧
      sc.parent = some act.id ∧ sc.id ≠ k ∧ sc.status = .open := by
  simp only [openSiblings, List.mem_filter, mem_childrenOf, decide_eq_true_eq]
  constructor
  · rintro ⟨⟨⟨k', hk'⟩, hparent⟩, hne, hopen⟩
    rw [tree.keyed.scopes k' sc hk']
    exact ⟨hk', hparent, (tree.keyed.scopes k' sc hk').symm ▸ hne, hopen⟩
  · rintro ⟨hk, hparent, hne, hopen⟩
    exact ⟨⟨⟨_, hk⟩, hparent⟩, hne, hopen⟩

theorem cancelled_subset (o : Enumeration) (s : Core) (act : ActivationState) (k : ScopeId)
    (node : Node) : cancelled o s act k node ⊆ openSiblings o s act.id k := by
  unfold cancelled
  split
  · exact List.filter_subset_self _
  · exact List.Subset.refl _

theorem heldBack_of_leased {b : ActivationId} {other : ActivationState} (tree : Tree s)
    (hk : s.scopes.lookup k = some sc) (hparent : sc.parent = some act.id) (hne : k ≠ failed.id)
    (hopen : sc.status = .open) (hb : s.activations.lookup b = some other)
    (hscope : other.scope = k) (hleased : Leased other) :
    heldBack o s act failed.id (.parallel branches next) = true := by
  have hid := tree.keyed.scopes k sc hk
  refine List.any_eq_true.mpr ⟨sc, (mem_openSiblings tree).mpr ?_, ?_⟩
  · rw [hid]
    exact ⟨hk, hparent, hne, hopen⟩
  · rw [hid]
    exact scopeIsClaimed_iff.mpr ⟨b, other, hb, hscope, hleased⟩

theorem Joining.spared (tree : Tree s) (advancing : Advancing s run act node)
    (hjoin : node.isJoin = true)
    (certain : ∀ k sc, s.scopes.lookup k = some sc → sc.parent = some act.id → k ≠ failed.id →
      SiblingCertain s k sc node)
    (h : Joining o s act failed.id error node es) : SiblingsSpared s act failed.id es := by
  rintro b ⟨hb, huncertain, k, sck, hk, hparent, hne, hunder⟩ top sc sc' htop hsc hstatus hafter
  have hcertain := certain k sck hk hparent hne
  by_contra hfailed
  have hfailed : sc'.status.isFailed = true := by simpa using hfailed
  cases node with
  | foreach => exact hcertain b.id b hb huncertain hunder
  | parallel branches next =>
    obtain ⟨rfl, hopen, hleased⟩ := hcertain.1 b.id b hb huncertain hunder
    have hheld : heldBack o s act failed.id (.parallel branches next) = true :=
      heldBack_of_leased tree hk hparent hne hopen hb rfl hleased
    cases h with
    | opened hkinds =>
      rcases failed_after hafter hfailed with ⟨old, hold, hwas⟩ | ⟨_, _, hmem⟩ | ⟨_, _, hmem⟩
      · obtain rfl := Option.mem_unique hsc hold
        rw [hstatus] at hwas
        cases hwas
      · exact hkinds _ hmem (by simp)
      · exact hkinds _ hmem (by simp)
    | held hcancelled =>
      have hsiblings : ∀ sib ∈ cancelled o s act failed.id (.parallel branches next),
          s.scopes.lookup sib.id = some sib ∧ sib.parent = some act.id := by
        intro sib hsib
        obtain ⟨hlookup, hown, -⟩ := (mem_openSiblings tree).mp (cancelled_subset o s act _ _ hsib)
        exact ⟨hlookup, hown⟩
      rcases failed_after hafter hfailed with ⟨old, hold, hwas⟩ | ⟨_, _, hmem⟩ | ⟨_, _, hmem⟩
      · obtain rfl := Option.mem_unique hsc hold
        rw [hstatus] at hwas
        cases hwas
      · -- A scope above the branch that is cancelled is the branch, and that is claimed.
        obtain ⟨sib, hsib, rfl⟩ := scopeFailed_of_failingAll hcancelled hmem
        obtain ⟨hlookup, hown⟩ := hsiblings sib hsib
        have hsame := eq_of_under_sibling tree hlookup hown hk hparent advancing.hact htop
        have hfree : scopeIsClaimed o s sib.id = false := by
          simpa using (List.mem_filter.mp hsib).2
        rw [hsame, scopeIsClaimed_iff.mpr ⟨b.id, b, hb, rfl, hleased⟩] at hfree
        cases hfree
      · refine runFailed_not_mem hcancelled (fun sib hsib sc' hsc' hroot => ?_) hmem
        obtain ⟨hlookup, hown⟩ := hsiblings sib hsib
        obtain rfl := Option.mem_unique hlookup hsc'
        have hrole := tree.parent _ _ hlookup
        rw [hown, hroot] at hrole
        cases hrole
    | failed _ hfree =>
      rw [hheld] at hfree
      cases hfree
  | _ => cases hjoin

theorem Joining.propagates (tree : Tree s) (hbranched : Branched s act node)
    (certain : ∀ k sc, s.scopes.lookup k = some sc → sc.parent = some act.id → k ≠ failed.id →
      SiblingCertain s k sc node)
    (h : Joining o s act failed.id error node es) : FailurePropagates s act failed.id es := by
  intro hnone
  cases h with
  | opened _ hmissing => exact absurd hbranched hmissing
  | held _ hheld =>
    cases node with
    | parallel =>
      obtain ⟨sib, hsib, hclaimed⟩ := List.any_eq_true.mp hheld
      obtain ⟨hk, hparent, hne, hopen⟩ := (mem_openSiblings tree).mp hsib
      obtain ⟨b, other, hb, hscope, hleased⟩ := scopeIsClaimed_iff.mp hclaimed
      have huncertain := (certain _ sib hk hparent hne).2 hopen b other hb hscope hleased
      refine absurd ⟨?_, huncertain, _, sib, hk, hparent, hne, ?_⟩ (hnone other)
      · rw [tree.keyed.activations b other hb]
        exact hb
      · rw [hscope]
        exact .here
    | _ => cases hheld
  | failed hcancelled _ hown => exact hown.failed hcancelled.kinds

end Join

/-! ## The theorem -/

/-- In every run whose steps find siblings certain, progress spares what is uncertain below the
siblings of a failed child, and nothing else keeps the failure from the enclosing scope. -/
theorem siblings_spared {clusterId : String} {log : List Step} {final : State}
    (hrun : Run env (.empty clusterId) log final)
    (hsteps : ∀ step ∈ log, Steady step ∧ SiblingsCertain step) :
    ∀ step ∈ log, ∀ run, step.body = .progress run →
      ∀ o act node failed error ids emission, Advancing step.before run act node →
        node.isJoin = true → failedChild o step.before act.id = some (failed, error) →
        progressNode env o step.before run step.time act node ids = .ok emission →
        SiblingsSpared step.before act failed.id (emitted emission) ∧
          (Branched step.before act node →
            FailurePropagates step.before act failed.id (emitted emission)) := by
  intro step hstep run hbody o act node failed error ids emission advancing hjoin hfailed hprogress
  obtain ⟨-, hbefore⟩ := hrun.atRest fun step hstep => (hsteps step hstep).1
  have sound := (hbefore step hstep).sound
  obtain ⟨hmem, hstatus⟩ := failedChild_eq_some hfailed
  obtain ⟨⟨k, hk⟩, hparent⟩ := mem_childrenOf.mp hmem
  obtain rfl := sound.tree.keyed.scopes k failed hk
  have certain := (hsteps step hstep).2 run hbody act node advancing failed.id failed hk hparent
    (by rw [hstatus]; rfl)
  have joining := progressNode_joining sound advancing hjoin hfailed hprogress
  exact ⟨joining.spared sound.tree advancing hjoin certain,
    fun hbranched => joining.propagates sound.tree hbranched certain⟩

/-! ## A claimed item, and a claimed branch -/

/-- A start, a worker that claims two activations, an error for the first of them, and progress. -/
def brokenChild (workflow : Definition) : List Command := [
  { id := ⟨1⟩, body := .start ⟨1⟩ workflow .null (sampleCatalog ["work"] .retrySafe), time := 1 },
  { id := ⟨2⟩, body := .progress ⟨1⟩, time := 2 },
  { id := ⟨3⟩, body := .registerSession ⟨1⟩ ["*"] 2, time := 3 },
  { id := ⟨4⟩, body := .claim ⟨1⟩ 2, time := 4 },
  { id := ⟨5⟩, body := .reportError ⟨1⟩ ⟨66⟩ "broken" "first", time := 5 },
  { id := ⟨6⟩, body := .progress ⟨1⟩, time := 6 }]

def workRegion (node : Node) : Region :=
  sampleRegion "work" [("done", .complete (.literal .null)), ("work", node)]

/-- Works on two items at once. -/
def itemsWorkflow : Definition :=
  sampleWorkflow [] "each" [("done", .complete (.literal .null)),
    ("each", .foreach (.literal (.array [.null, .null])) .null 2 2
      (workRegion (sampleActivity "work" none "done")) "done")]

/-- Works in two branches while a third waits. -/
def branchesWorkflow : Definition :=
  sampleWorkflow [] "fork" [("done", .complete (.literal .null)),
    ("fork", .parallel [
      ⟨"a", .literal .null, workRegion (sampleActivity "work" none "done")⟩,
      ⟨"b", .literal .null, workRegion (sampleActivity "work" none "done")⟩,
      ⟨"c", .literal .null, workRegion (.delay (.literal (.int 1000)) "done")⟩] "done")]

/-- A step of the first run, at a join with a failed child, and what progress makes of it. -/
structure AtJoin (step : Step) (act : ActivationState) (node : Node) (failed : ScopeState)
    (error : FailError) (emission : Option Emission) : Prop where
  body : step.body = .progress ⟨1⟩
  advancing : Advancing step.before ⟨1⟩ act node
  join : node.isJoin = true
  failedChild : failedChild .stored step.before act.id = some (failed, error)
  progress : progressNode sampleEnv .stored step.before ⟨1⟩ step.time act node step.ids =
    .ok emission

/-- Checks that the activation 65 is at a join whose child 2 has failed, and what progress makes
of it. -/
def Step.atJoin (step : Step) (check : Node → Option Emission → Bool) : Bool :=
  step.body.progressed? = some ⟨1⟩ &&
  (advancingAt step.before ⟨1⟩ ⟨65⟩).any fun (act, node) => node.isJoin &&
    (Graphrun.failedChild .stored step.before act.id).any (fun failed => failed.1.id = ⟨2⟩) &&
    (progressNode sampleEnv .stored step.before ⟨1⟩ step.time act node
      step.ids).toOption.any (check node)

theorem atJoin_of_check {step : Step} {check : Node → Option Emission → Bool}
    (h : step.atJoin check = true) : ∃ act node failed error emission,
      AtJoin step act node failed error emission ∧ act.id = ⟨65⟩ ∧ failed.id = ⟨2⟩ ∧
      check node emission = true := by
  simp only [Step.atJoin, Bool.and_eq_true, Option.any_eq_true, decide_eq_true_eq] at h
  obtain ⟨hbody, ⟨act, node⟩, hat, ⟨hjoin, ⟨failed, error⟩, hfailed, hfailedId⟩, emission,
    hprogress, hcheck⟩ := h
  obtain ⟨hid, hadvancing⟩ := advancing_of_advancingAt hat
  exact ⟨act, node, failed, error, emission, ⟨CommandBody.progressed?_eq_some hbody, hadvancing,
    hjoin, hfailed, ok_of_toOption hprogress⟩, hid, hfailedId, hcheck⟩

/-- Progress fails the scope of an item whose activity is claimed. -/
theorem claimedItem_failed : ∃ log final, Run sampleEnv (.empty sampleCluster) log final ∧
    (∀ step ∈ log, Steady step) ∧ ∃ step ∈ log, ∃ act node failed error emission,
      AtJoin step act node failed error emission ∧
      ¬ SiblingsSpared step.before act failed.id (emitted emission) := by
  obtain ⟨log, final, hrun, hcheck⟩ := exists_sampleRun (brokenChild itemsWorkflow)
    (fun log _ => log.all Step.checksSteady &&
      log[6]?.any fun step => (step.before.activations.lookup ⟨194⟩).any (fun b =>
      b.id = ⟨194⟩ ∧ b.role = .forward ∧ b.status = .ready ∧ b.claim.isSome ∧ b.scope = ⟨130⟩) &&
      (step.before.scopes.lookup ⟨130⟩).any (fun sc =>
      sc.parent = some ⟨65⟩ ∧ sc.status.isFailed = false) &&
      step.atJoin fun _ emission => ((evolveAll step.before (emitted emission)).scopes.lookup
      ⟨130⟩).any fun sc => sc.status.isFailed)
    (by decide +kernel)
  simp only [Bool.and_eq_true, List.all_eq_true, Option.any_eq_true, decide_eq_true_eq] at hcheck
  obtain ⟨hsteady, step, hstep, ⟨⟨b, hb, hid, hforward, hready, hclaim, hscope⟩, sc, hsc, hparent,
    hopen⟩, hjoin⟩ := hcheck
  obtain ⟨act, node, failed, error, emission, hat, hact, hfailed, hafter⟩ := atJoin_of_check hjoin
  obtain ⟨sc', hsc', hstatus⟩ := (Option.any_eq_true _ _).mp hafter
  refine ⟨_, _, hrun, fun step hstep => Step.steady_of_checksSteady (hsteady step hstep), step,
    List.mem_of_getElem? hstep, act, node, failed, error, emission, hat, fun hspared => ?_⟩
  have hbelow : UncertainBelow step.before act failed.id b := by
    refine ⟨hid ▸ hb, ⟨hforward, hready, hclaim⟩, ⟨130⟩, sc, hsc, hact ▸ hparent, ?_, ?_⟩
    · rw [hfailed]
      decide
    · rw [hscope]
      exact .here
  rw [hspared b hbelow ⟨130⟩ sc sc' (hscope ▸ .here) hsc hopen hsc'] at hstatus
  cases hstatus

/-- Before progress no scope has failed, or the activation 65 is at a `parallel` and the parent of
all scopes but the root: uncertain are the activations that hold a lease in an open branch. -/
def Step.checksSiblings (step : Step) : Bool :=
  let s := step.before
  s.scopes.entries.all (fun entry => !entry.2.status.isFailed) ||
  (s.scopes.entries.all (fun entry => entry.2.parent.all fun a => a = ⟨65⟩) &&
    (s.activations.lookup ⟨65⟩).any (fun act => (nodeOf s act.scope act.node).any fun
      | .parallel .. => true
      | _ => false) &&
    s.activations.entries.all fun entry => (s.scopes.lookup entry.2.scope).any fun sc =>
      (Uncertain entry.2 → sc.parent.isSome ∧ sc.status = .open ∧ Leased entry.2) ∧
        (sc.status = .open → Leased entry.2 → Uncertain entry.2))

theorem siblingsCertain_of_check {step : Step} (tree : Tree step.before)
    (h : step.checksSiblings = true) : SiblingsCertain step := by
  intro run _ act node advancing failed scf hf hfparent hfailed k sc hk hparent hne
  simp only [Step.checksSiblings, Bool.or_eq_true, Bool.and_eq_true, List.all_eq_true,
    Bool.not_eq_true', Option.all_eq_true, Option.any_eq_true, decide_eq_true_eq] at h
  rcases h with hnone | ⟨⟨hparents, act', hact', node', hnode', hparallel⟩, hchecked⟩
  · rw [hnone _ (AList.mem_lookup_iff.mp hf)] at hfailed
    cases hfailed
  · have hid : act.id = ⟨65⟩ := hparents _ (AList.mem_lookup_iff.mp hf) _ hfparent
    rw [← hid, advancing.hact] at hact'
    obtain rfl := Option.some.inj hact'
    obtain rfl := Option.mem_unique advancing.hnode hnode'
    split at hparallel
    · refine ⟨fun b other hb hun hunder => ?_, fun hopen b other hb hscope hlease => ?_⟩
      · obtain ⟨sc', hsc', hlone, -⟩ := hchecked _ (AList.mem_lookup_iff.mp hb)
        obtain ⟨hsome, hopen, hlease⟩ := hlone hun
        obtain ⟨a, ha⟩ := Option.isSome_iff_exists.mp hsome
        obtain rfl : a = act.id := (hparents _ (AList.mem_lookup_iff.mp hsc') a ha).trans hid.symm
        obtain rfl := eq_of_under_sibling tree hk hparent hsc' ha advancing.hact hunder
        obtain rfl := Option.mem_unique hk hsc'
        exact ⟨rfl, hopen, hlease⟩
      · obtain ⟨sc', hsc', -, hheld⟩ := hchecked _ (AList.mem_lookup_iff.mp hb)
        dsimp only at hsc' hheld
        rw [hscope, hk] at hsc'
        obtain rfl := Option.some.inj hsc'
        exact hheld hopen hlease
    · cases hparallel

/-- Progress cancels the branch that waits and leaves the claimed one. -/
theorem claimedBranch_spared : ∃ log final, Run sampleEnv (.empty sampleCluster) log final ∧
    (∀ step ∈ log, Steady step ∧ SiblingsCertain step) ∧
    ∃ step ∈ log, ∃ act node failed error emission,
      AtJoin step act node failed error emission ∧
      (∃ b, UncertainBelow step.before act failed.id b) ∧
      SiblingsSpared step.before act failed.id (emitted emission) := by
  obtain ⟨log, final, hrun, hcheck⟩ := exists_sampleRun (brokenChild branchesWorkflow)
    (fun log _ => log.all (fun step => step.checksSteady && step.checksSiblings) &&
      log[8]?.any fun step => (step.before.activations.lookup ⟨194⟩).any (fun b =>
      b.id = ⟨194⟩ ∧ Uncertain b ∧ b.scope = ⟨130⟩) &&
      (step.before.scopes.lookup ⟨130⟩).any (fun sc => sc.parent = some ⟨65⟩) &&
      step.atJoin fun _ _ => true)
    (by decide +kernel)
  simp only [Bool.and_eq_true, List.all_eq_true, Option.any_eq_true, decide_eq_true_eq] at hcheck
  obtain ⟨hsteps, step, hstep, ⟨⟨b, hb, hid, huncertain, hscope⟩, sc, hsc, hparent⟩,
    hjoin⟩ := hcheck
  obtain ⟨act, node, failed, error, emission, hat, hact, hfailed, -⟩ := atJoin_of_check hjoin
  obtain ⟨-, hatRest⟩ := hrun.atRest fun step hstep =>
    Step.steady_of_checksSteady (hsteps step hstep).1
  have hconditions : ∀ step ∈ _, Steady step ∧ SiblingsCertain step := fun step hstep =>
    ⟨Step.steady_of_checksSteady (hsteps step hstep).1,
      siblingsCertain_of_check (hatRest step hstep).sound.tree (hsteps step hstep).2⟩
  have hmem := List.mem_of_getElem? hstep
  refine ⟨_, _, hrun, hconditions, step, hmem, act, node, failed, error, emission, hat,
    ⟨b, hid ▸ hb, huncertain, ⟨130⟩, sc, hsc, hact ▸ hparent, ?_, ?_⟩,
    (siblings_spared hrun hconditions step hmem ⟨1⟩ hat.body .stored act node failed error step.ids
      emission hat.advancing hat.join hat.failedChild hat.progress).1⟩
  · rw [hfailed]
    decide
  · rw [hscope]
    exact .here

end Graphrun
