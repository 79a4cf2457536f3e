import Graphrun.Claims.Recovery
import Graphrun.Sagas.Obligations

/-!
# Attempts and their budget

The number of attempts at an activation is bounded by the retry policy of its node, or for a
compensation by that of the compensation. The engine keeps this budget only where it asks whether
a reported error may be retried: a claim command grants a ready activation without looking at the
attempts so far. A claim whose lease has run out is granted again beyond the budget
(`expired_overspent`), and so is one that a probe has found not applied.

* `GrantsShow`: the attempts that an activation shows are no fewer than the grants in its role.
* `HasLeft`: an activation that nothing keeps from a grant has attempts left, or has had none. A
  reported error that is retried leaves it so (`left_of_retryable`), and its policy stays the same
  as long as no obligation names an id that is drawn (`policyNode_back`).
* `WithinBudget` is the condition on lapsed claims, first attempts and probes under which the
  budget is kept in every run (`attempts_within_budget`).
-/

namespace Graphrun

open Lib

variable {env : Env} {o : Enumeration} {s s' : Core} {time : Nat} {past : List DomainEvent}
  {e : DomainEvent} {a : ActivationId} {role : ExecutionRole} {act : ActivationState}
  {node : Node} {item : Obligation}

/-! ## Counting grants -/

/-- A claim on the activation is granted in the given role. -/
def DomainEvent.grantsAs (role : ExecutionRole) (a : ActivationId) : DomainEvent → Bool
  | .claimGranted _ _ activation _ _ _ _ _ _ _ _ _ _ granted => activation = a ∧ granted = role
  | _ => false

theorem claims_of_grantsAs (h : e.grantsAs role a = true) : e.claims a = true := by
  cases e <;> simp only [DomainEvent.grantsAs, Bool.false_eq_true, decide_eq_true_eq] at h
  simp [DomainEvent.claims, h.1]

theorem grantsAs_of_claims (h : e.claims a = false) : e.grantsAs role a = false := by
  by_contra hgrants
  rw [claims_of_grantsAs (by simpa using hgrants)] at h
  cases h

/-- The grants in a role since the activation began. -/
def grantsSoFar (role : ExecutionRole) (a : ActivationId) (past : List DomainEvent) : Nat :=
  countSince (DomainEvent.grantsAs role a) (DomainEvent.begins a) past

/-- Every grant in the role of an activation shows in its attempts, which fit in 32 bits. -/
def GrantsShow (past : List DomainEvent) (s : Core) : Prop :=
  ∀ a act, s.activations.lookup a = some act → act.role ≠ .reconciliation ∧
    min (grantsSoFar act.role a past) (2 ^ 32 - 1) ≤ act.attempts ∧ act.attempts ≤ 2 ^ 32 - 1

theorem GrantsShow.evolve (shown : GrantsShow past s) (e : DomainEvent) :
    GrantsShow (past ++ [e]) (Graphrun.evolve s e) := by
  intro a act hact
  rcases after_or_begun hact with ⟨old, hold, rfl⟩ | ⟨hbegins, hrole, hzero, -⟩
  · obtain ⟨hrole, hshown, hbound⟩ := shown a old hold
    refine ⟨hrole, ?_⟩
    change min (grantsSoFar old.role a (past ++ [e])) (2 ^ 32 - 1) ≤ attemptsAfter e a old ∧
      attemptsAfter e a old ≤ 2 ^ 32 - 1
    rw [grantsSoFar, countSince_concat]
    unfold grantsSoFar at hshown
    -- a grant in another role shows in the attempts as well
    have hgrows : old.attempts ≤ attemptsAfter e a old ∧ attemptsAfter e a old ≤ 2 ^ 32 - 1 := by
      cases e
      case claimGranted =>
        simp only [attemptsAfter]
        split <;> omega
      all_goals exact ⟨Nat.le_refl _, hbound⟩
    refine ⟨?_, hgrows.2⟩
    split
    · omega
    · split
      · next hgrant =>
        cases e <;>
          simp only [DomainEvent.grantsAs, decide_eq_true_eq, Bool.false_eq_true] at hgrant
        obtain ⟨rfl, -⟩ := hgrant
        simp only [attemptsAfter, if_true]
        omega
      · omega
  · rw [grantsSoFar, countSince_concat, if_pos hbegins]
    exact ⟨hrole, by omega, by omega⟩

theorem GrantsShow.quiet (change : Quiet s s') (shown : GrantsShow past s) : GrantsShow past s' :=
  fun a act hact => shown a act (change.activations hact)

/-! ## The budget -/

/-- The attempts that a node allows at its activity, or at the compensation of it. -/
def Node.budget (compensating : Bool) : Node → Option Nat
  | .activity _ _ _ retry compensation _ =>
    if compensating then
      match compensation with
      | some (.activity _ _ _ retry) => some (retry.getD (.compensationDefault [])).maxAttempts
      | _ => none
    else some retry.maxAttempts
  | _ => none

/-- The node that has the policy of an activation. -/
def policyNode (s : Core) (a : ActivationId) (act : ActivationState) : Option Node :=
  if act.role = .compensation then
    (compensatedBy s a).bind fun item =>
      (s.activations.lookup item.forward).bind fun forward => nodeOf s forward.scope forward.node
  else nodeOf s act.scope act.node

/-- The attempts that the policy of an activation allows. -/
def attemptBudget (s : Core) (a : ActivationId) (act : ActivationState) : Option Nat :=
  (policyNode s a act).bind (Node.budget (act.role = .compensation))

/-- The activation has had no attempt, or fewer than its policy allows. -/
def HasLeft (s : Core) (a : ActivationId) : Prop :=
  ∀ act, s.activations.lookup a = some act →
    act.attempts = 0 ∨ ∀ n, attemptBudget s a act = some n → act.attempts < n

/-- An error is retried only while attempts are left. -/
theorem left_of_retryable {code : String} (hact : s.activations.lookup a = some act)
    (h : Retryable s a act code) : HasLeft s a := by
  intro found hfound
  obtain rfl := Option.mem_unique hact hfound
  refine .inr fun n hn => ?_
  obtain ⟨node, hnode, hn⟩ := Option.bind_eq_some_iff.mp hn
  rcases h with ⟨hrole, h⟩ | ⟨hrole, h⟩
  · rw [policyNode, if_pos hrole] at hnode
    obtain ⟨item, hitem, hnode⟩ := Option.bind_eq_some_iff.mp hnode
    simp only [compensationErrorRetryable, hact, hitem] at h
    cases node <;> simp only [Node.budget, reduceCtorEq, hrole, decide_true, if_true] at hn
    split at hn
    · next retry _ =>
      obtain rfl := Option.some.inj hn
      -- which codes may be retried by default does not matter to how often
      have hmax (codes : List String) : (retry.getD (.compensationDefault codes)).maxAttempts =
          (retry.getD (.compensationDefault [])).maxAttempts := by
        cases retry <;> rfl
      split at h
      · next hsome =>
        obtain rfl := Option.some.inj hsome
        rw [hnode] at h
        dsimp only at h
        repeat' split at h
        all_goals simp only [Bool.and_eq_true, decide_eq_true_eq, Bool.false_eq_true, hmax] at h
        omega
      · cases h
    · cases hn
  · rw [policyNode, if_neg hrole] at hnode
    simp only [forwardErrorRetryable, hnode] at h
    cases node <;> simp only [Node.budget, reduceCtorEq, hrole, decide_false, Bool.false_eq_true,
      if_false] at hn
    obtain rfl := Option.some.inj hn
    repeat' split at h
    all_goals first | cases h | skip
    all_goals simp_all

/-! ## The policy of an activation -/

/-- No obligation names the activation that an event begins. -/
def Unowed (s : Core) (e : DomainEvent) : Prop :=
  ∀ a ∈ e.opensActivation?, ∀ item ∈ s.obligations, item.forward ≠ a ∧ item.status ≠ .compensating a

instance : Decidable (Unowed s e) :=
  inferInstanceAs (Decidable (∀ a ∈ e.opensActivation?, ∀ item ∈ s.obligations,
    item.forward ≠ a ∧ item.status ≠ .compensating a))

theorem Unowed.begun (unowed : Unowed s e) (h : e.begins a = true) (hitem : item ∈ s.obligations) :
    item.forward ≠ a ∧ item.status ≠ .compensating a := by
  refine unowed a ?_ item hitem
  cases e <;> simp only [DomainEvent.begins, Bool.false_eq_true, decide_eq_true_eq] at h
  all_goals exact congrArg some h

/-- An activation compensates one forward activation. -/
def OneHandled (s : Core) : Prop :=
  ∀ a, ∀ x ∈ s.obligations, ∀ y ∈ s.obligations, x.status = .compensating a →
    y.status = .compensating a → x.forward = y.forward

/-- A compensation is of the obligation that it was of, or it begins. -/
theorem compensating_after (h : item ∈ (evolve s e).obligations)
    (hstatus : item.status = .compensating a) :
    (∃ old ∈ s.obligations, old.status = .compensating a ∧ old.forward = item.forward) ∨
      ∃ run saga handler version input error,
        e = .compensationStarted run saga item.forward a handler version input error := by
  have hblocked {handler reason : String} : blockedStatus handler reason ≠ .compensating a := by
    unfold blockedStatus
    split <;> simp
  rcases obligation_after_cases h with hold | ⟨old, hold, change⟩ |
    ⟨_, _, _, _, _, status, howes, -, rfl, -⟩
  · exact .inl ⟨item, hold, hstatus, rfl⟩
  · cases change with
    | started =>
      obtain rfl := ObligationStatus.compensating.inj hstatus
      exact .inr ⟨_, _, _, _, _, _, rfl⟩
    | transferred => exact .inl ⟨old, hold, hstatus, rfl⟩
    | blocked => exact absurd hstatus hblocked
    | _ => cases hstatus
  · cases e <;> cases howes
    · cases hstatus
    · exact absurd hstatus hblocked

theorem OneHandled.evolve (one : OneHandled s) (unowed : Unowed s e) :
    OneHandled (Graphrun.evolve s e) := by
  intro a x hx y hy hxs hys
  rcases compensating_after hx hxs with ⟨x', hx', hxs', hxf⟩ | ⟨_, _, _, _, _, _, hxe⟩ <;>
    rcases compensating_after hy hys with ⟨y', hy', hys', hyf⟩ | ⟨_, _, _, _, _, _, hye⟩
  · rw [← hxf, ← hyf]
    exact one a x' hx' y' hy' hxs' hys'
  · subst hye
    exact absurd hxs' (unowed a rfl x' hx').2
  · subst hxe
    exact absurd hys' (unowed a rfl y' hy').2
  · have hsame := hxe.symm.trans hye
    simp only [DomainEvent.compensationStarted.injEq] at hsame
    exact hsame.2.2.1

/-- Where the nodes and the obligations of a later state come from an earlier one, so does the
policy of an activation. -/
theorem policyNode_back {act' : ActivationState} (one : OneHandled s) (hrole : act'.role = act.role)
    (hitems : ∀ item ∈ s'.obligations, item.status = .compensating a →
      ∃ old ∈ s.obligations, old.status = .compensating a ∧ old.forward = item.forward)
    (hown : nodeOf s' act'.scope act'.node = nodeOf s act.scope act.node)
    (hnodes : ∀ old ∈ s.obligations, ∀ later, s'.activations.lookup old.forward = some later →
      ∃ forward, s.activations.lookup old.forward = some forward ∧
        nodeOf s' later.scope later.node = nodeOf s forward.scope forward.node)
    (h : policyNode s' a act' = some node) : policyNode s a act = some node := by
  unfold policyNode at h ⊢
  rw [hrole, hown] at h
  split
  · next hcompensates =>
    rw [if_pos hcompensates] at h
    obtain ⟨item, hitem, h⟩ := Option.bind_eq_some_iff.mp h
    obtain ⟨later, hlater, h⟩ := Option.bind_eq_some_iff.mp h
    obtain ⟨old, hold, hstatus, hforward⟩ := hitems item (List.mem_of_find?_eq_some hitem)
      (by simpa [Obligation.isCompensating] using List.find?_some hitem)
    obtain ⟨forward, hlookup, hnode⟩ := hnodes old hold later (by rw [hforward, hlater])
    cases hfirst : compensatedBy s a with
    | none =>
      have hnot := List.find?_eq_none.mp hfirst old hold
      simp [Obligation.isCompensating, hstatus] at hnot
    | some first =>
      have hsame := one a first (List.mem_of_find?_eq_some hfirst) old hold
        (by simpa [Obligation.isCompensating] using List.find?_some hfirst) hstatus
      rw [Option.bind_some, hsame, hlookup, Option.bind_some, ← hnode]
      exact h
  · next hforward =>
    rw [if_neg hforward] at h
    exact h

/-- An attempt that is left stays so while the activation is not claimed. -/
theorem hasLeft_stays (tree : Tree s) (one : OneHandled s) (placed : Placed s e)
    (unowed : Unowed s e) : StaysFree (fun _ => HasLeft) past s e := by
  intro a hclaims hfree act' hact'
  rcases after_or_begun hact' with ⟨act, hact, rfl⟩ | ⟨-, -, hzero, -⟩
  · have hnew : ¬ e.begins a = true := by
      intro hbegins
      rw [placed.unused hbegins] at hact
      cases hact
    have hsame : (act.after s e a).attempts = act.attempts := by
      cases e <;> simp only [DomainEvent.claims, decide_eq_false_iff_not] at hclaims
      case claimGranted => exact if_neg (Ne.symm hclaims)
      all_goals rfl
    have hrole : (act.after s e a).role = act.role := rfl
    rw [hsame]
    refine (hfree.resolve_right hnew act hact).imp_right fun h n hn => h n ?_
    obtain ⟨node, hnode, hn⟩ := Option.bind_eq_some_iff.mp hn
    refine Option.bind_eq_some_iff.mpr ⟨node, ?_, hn⟩
    refine policyNode_back one hrole (fun item hitem hstatus => ?_)
      (tree.node_kept (keeps_evolve placed act.run) hact hact') (fun old hold later hlater => ?_)
      hnode
    · refine (compensating_after hitem hstatus).resolve_right ?_
      rintro ⟨_, _, _, _, _, _, rfl⟩
      exact hnew (by simp [DomainEvent.begins])
    · rcases after_or_begun hlater with ⟨forward, hforward, rfl⟩ | ⟨hbegins, -⟩
      · exact ⟨forward, hforward, tree.node_kept (keeps_evolve placed forward.run) hforward hlater⟩
      · exact absurd rfl (unowed.begun hbegins hold).1
  · exact .inl hzero

theorem hasLeft_quiet (change : Quiet s s') (tree : Tree s) (one : OneHandled s)
    (hleft : HasLeft s a) : HasLeft s' a := by
  have hnodes {b : ActivationId} {act : ActivationState} (h : s'.activations.lookup b = some act) :
      nodeOf s' act.scope act.node = nodeOf s act.scope act.node := by
    obtain ⟨sc, hsc, hplace⟩ := (tree.quiet change).placed b act h
    obtain ⟨r, hr⟩ := quiet_run_of_scope tree change hsc
    exact tree.node_kept (keeps_quiet change (hplace ▸ hr)) (change.activations h) h
  intro act hact
  refine (hleft act (change.activations hact)).imp_right fun h n hn => h n ?_
  obtain ⟨node, hnode, hn⟩ := Option.bind_eq_some_iff.mp hn
  refine Option.bind_eq_some_iff.mpr ⟨node, ?_, hn⟩
  exact policyNode_back one rfl
    (fun item hitem hstatus => ⟨item, mem_obligations_quiet change hitem, hstatus, rfl⟩)
    (hnodes hact) (fun old hold later hlater => ⟨later, change.activations hlater,
      hnodes hlater⟩) hnode

/-! ## Every run -/

/-- What is granted again after its lease has run out, or for the first time, and what a probe
finds not applied, has attempts left. Abandoning compensation takes no claim away. -/
structure WithinBudget (step : Step) : Prop where
  claims : ∀ session capacity, step.body = .claim session capacity →
    ∀ a act o, step.before.activations.lookup a = some act → act.status = .ready →
      unclaimedAt act step.time = true → step.before.interventions.lookup a = none →
      grantRole o step.before act step.time ≠ .reconciliation →
      act.claim.isSome = true ∨ act.attempts = 0 →
        ∀ n, attemptBudget step.before a act = some n → act.attempts < n
  probes : ∀ run a probes, .reconciliationRecorded run a .notApplied none probes ∈ step.events →
    ∀ act n, step.before.activations.lookup a = some act →
      attemptBudget step.before a act = some n → act.attempts < n
  abandons : AbandonsNoClaim step

/-- The invariant of a run within the budget. -/
structure Budgeted (past : List DomainEvent) (s : Core) : Prop where
  tree : Tree s
  one : OneHandled s
  shown : GrantsShow past s
  kept : KeptUnless (fun _ => HasLeft) (fun _ => False) past s

theorem Budgeted.quiet (change : Quiet s s') (h : Budgeted past s) : Budgeted past s' where
  tree := h.tree.quiet change
  one a x hx y hy := h.one a x (mem_obligations_quiet change hx) y (mem_obligations_quiet change hy)
  shown := h.shown.quiet change
  kept := h.kept.quiet change fun _ _ _ => hasLeft_quiet change h.tree h.one

theorem Budgeted.step {step : Step} (h : Budgeted past step.before) (decided : Decided env step)
    (fresh : Fresh step) (unowed : Guarded Unowed step.before step.events)
    (within : WithinBudget step) : Budgeted (past ++ step.events) step.after := by
  have hguard := (decided.placed h.tree fresh).and unowed
  have hkeeps : ∀ s e, Placed s e ∧ Unowed s e → Tree s ∧ OneHandled s →
      Tree (evolve s e) ∧ OneHandled (evolve s e) := fun s e guard h =>
    ⟨h.1.evolve guard.1, h.2.evolve guard.2⟩
  obtain ⟨tree, one⟩ := hguard.keeps hkeeps ⟨h.tree, h.one⟩
  -- neither a result nor the finding of a probe begins anything
  have hstays {a : ActivationId} {e : DomainEvent} (hleft : HasLeft step.before a)
      (hclaims : e.claims a = false) (hopens : e.opensActivation? = none)
      (hplaced : Placed step.before e) : HasLeft (evolve step.before e) a := by
    have stays : StaysFree (fun _ => HasLeft) past step.before e :=
      hasLeft_stays h.tree h.one hplaced (by simp [Unowed, hopens])
    exact stays a hclaims (.inl hleft)
  refine ⟨tree, one, ?_, h.kept.step h.tree.keyed decided fresh.unreplayed within.abandons
    (hguard.from_invariant hkeeps (fun _ _ _ h guard => hasLeft_stays h.1 h.2 guard.1 guard.2)
      ⟨h.tree, h.one⟩) ⟨fun hreported hretryable => ?_, fun hreported hmem => ?_⟩⟩
  · exact Guarded.invariant (G := fun _ _ => True) (fun _ _ e _ shown => shown.evolve e)
      (Guarded.of_all fun _ _ _ => trivial) h.shown
  · exact hstays (left_of_retryable hreported.hact hretryable) rfl rfl trivial
  · refine hstays (fun act hact => .inr fun n hn => ?_) rfl rfl trivial
    exact within.probes _ _ _ hmem act n hact hn

/-- What is not a probe is granted in the role of its activation. -/
theorem grantRole_eq_role {act : ActivationState} (hact : act.role ≠ .reconciliation)
    (h : grantRole o s act time ≠ .reconciliation) : grantRole o s act time = act.role := by
  cases hrole : act.role with
  | reconciliation => exact absurd hrole hact
  | compensation => simp [grantRole, hrole]
  | forward =>
    cases hgrant : grantRole o s act time with
    | forward => rfl
    | reconciliation => exact absurd hgrant h
    | compensation =>
      rw [grantRole, if_neg (by simp [hrole])] at hgrant
      repeat' split at hgrant
      all_goals cases hgrant

theorem budgeted_empty (clusterId : String) : Budgeted [] (State.empty clusterId).toCore where
  tree := tree_empty clusterId
  one _ _ h := by cases h
  shown _ _ h := by cases h
  kept := keptUnless_empty clusterId

/-- In every run within the budget, no activation is granted more often in its role than its policy
allows. A probe is no attempt in that role, but it counts as one: the activation shows one more,
unless it shows as many as 32 bits can. A budget fits in 32 bits. -/
theorem attempts_within_budget {clusterId : String} {log earlier later : List Step}
    {final : State} {step : Step} {before after : List DomainEvent} {e : DomainEvent}
    {a : ActivationId} {role : ExecutionRole} (hrun : Run env (.empty clusterId) log final)
    (hsteps : ∀ step ∈ log,
      Fresh step ∧ Guarded Unowed step.before step.events ∧ WithinBudget step)
    (hlog : log = earlier ++ step :: later) (hevents : step.events = before ++ e :: after)
    (hgrants : e.grantsAs role a = true) :
    ∃ act, step.before.activations.lookup a = some act ∧
      (role ≠ .reconciliation → role = act.role ∧
        ∀ n, attemptBudget step.before a act = some n → n < 2 ^ 32 →
          grantsSoFar role a (eventsOf earlier ++ before ++ [e]) ≤ n) ∧
      (role = .reconciliation →
        grantsSoFar act.role a (eventsOf earlier ++ before ++ [e]) =
          grantsSoFar act.role a (eventsOf earlier ++ before) ∧
        (((evolve step.before e).activations.lookup a).map (·.attempts) = some act.attempts ↔
          act.attempts = 2 ^ 32 - 1)) := by
  have htrace := hrun.trace (keyed_empty clusterId)
  have hstep : step ∈ log := by simp [hlog]
  obtain ⟨hfresh, -, within⟩ := hsteps step hstep
  obtain ⟨-, hbudgeted⟩ := htrace.logInvariant (P := fun log => Budgeted (eventsOf log))
    (fun _ _ _ change h => h.quiet change)
    (fun log step decided condition h => by
      have hafter := h.step decided condition.1 condition.2.1 condition.2.2
      simpa [eventsOf] using hafter)
    (budgeted_empty clusterId) hsteps
  obtain ⟨-, -, hshown, hkept⟩ := hbudgeted earlier step later hlog
  obtain ⟨o, move⟩ := (htrace.decided step hstep).move hfresh.unreplayed
  rw [hevents] at move
  obtain ⟨session, capacity, i, hbody, hgrant, honce⟩ := move.grant (claims_of_grantsAs hgrants)
  cases hgrant with
  | mk hact hown hready hwait hfree hquiet hrole hforward =>
    rename_i act handler version attempt deadline input effectKey granted
    obtain ⟨hnoProbe, hcount, hbound⟩ := hshown a act hact
    obtain rfl : granted = role := by simpa [DomainEvent.grantsAs] using hgrants
    refine ⟨act, hact, fun hrealm => ?_, fun hprobe => ⟨?_, ?_⟩⟩
    · have hsame : granted = act.role := hrole.trans (grantRole_eq_role hnoProbe (hrole ▸ hrealm))
      refine ⟨hsame, fun n hn hfits => ?_⟩
      have hless : act.attempts < n := by
        have hassumed := within.claims session capacity hbody a act o hact hready hfree hquiet
          (hrole ▸ hrealm)
        rcases hkept a act hact id with hleft | hclaimed | hstopped | hended
        · rcases hleft act hact with hzero | hleft
          · exact hassumed (.inr hzero) n hn
          · exact hleft n hn
        · exact hassumed (.inl hclaimed) n hn
        · rw [hquiet] at hstopped
          cases hstopped
        · rw [hready] at hended
          rcases hended with h | h <;> cases h
      have hbefore : grantsSoFar granted a (eventsOf earlier ++ before) ≤
          grantsSoFar granted a (eventsOf earlier) :=
        countSince_append_le fun e' he' => grantsAs_of_claims (honce e' he')
      rw [← hsame] at hcount
      rw [grantsSoFar, countSince_concat]
      unfold grantsSoFar at hbefore hcount
      split <;> omega
    · rw [grantsSoFar, grantsSoFar, countSince_concat, if_neg (by simp [DomainEvent.begins]),
        if_neg]
      simpa [DomainEvent.grantsAs, hprobe] using Ne.symm hnoProbe
    · simp only [lookup_activations_evolve, activationAfter, newActivation, Option.filter_none,
        hact, Option.map_some, ActivationState.after, attemptsAfter, if_true, Option.some.injEq]
      omega

/-! ## A lease that runs out -/

/-- One activity, to be attempted once. -/
def singleAttempt : Definition :=
  sampleWorkflow [] "work" [("done", .complete (.literal .null)),
    ("work", .activity ⟨"a", 1⟩ (.literal .null) none
      { RetryPolicy.forwardDefault with maxAttempts := 1 } none "done")]

def expiredAttempt : List Command := lapsedWork singleAttempt (sampleCatalog ["a"] .retrySafe)

/-- The only attempt is made twice. -/
theorem expired_overspent : ∃ log final earlier step later before after e act,
    Run sampleEnv (.empty sampleCluster) log final ∧ (∀ step ∈ log, Fresh step) ∧
    log = earlier ++ step :: later ∧ step.events = before ++ e :: after ∧
    e.grantsAs .forward ⟨65⟩ = true ∧ step.before.activations.lookup ⟨65⟩ = some act ∧
    attemptBudget step.before ⟨65⟩ act = some 1 ∧
    grantsSoFar .forward ⟨65⟩ (eventsOf earlier ++ before ++ [e]) = 2 := by
  obtain ⟨log, final, hrun, hcheck⟩ := exists_sampleRun expiredAttempt
    (fun log _ => log.all (Fresh ·) && (log[4]?).any fun step =>
      (step.events[1]?).any fun e => e.grantsAs .forward ⟨65⟩ &&
        ((step.before.activations.lookup ⟨65⟩).any fun act =>
          attemptBudget step.before ⟨65⟩ act = some 1) &&
        grantsSoFar .forward ⟨65⟩ (eventsOf (log.take 4) ++ step.events.take 1 ++ [e]) = 2)
    (by decide +kernel)
  obtain ⟨hfresh, hgrant⟩ := Bool.and_eq_true_iff.mp hcheck
  obtain ⟨step, hlog, hgrant⟩ := eq_append_of_any hgrant
  obtain ⟨e, hevents, hgrant⟩ := eq_append_of_any hgrant
  simp only [Bool.and_eq_true, Option.any_eq_true, decide_eq_true_eq] at hgrant
  obtain ⟨⟨hgrant, act, hact, hbudget⟩, hcount⟩ := hgrant
  exact ⟨log, final, _, step, _, _, _, e, act, hrun, fun step hstep =>
    of_decide_eq_true (List.all_eq_true.mp hfresh step hstep), hlog, hevents, hgrant, hact, hbudget,
    hcount⟩

/-- An activity that may be retried, with a reconciler to look its effect up. -/
def retriedWork : List Command := [
  { id := ⟨1⟩, time := 1
    body := .start ⟨1⟩ (sampleWorkflow [] "work" [("done", .complete (.literal .null)),
      ("work", .activity ⟨"a", 1⟩ (.literal .null) none
        { RetryPolicy.forwardDefault with errors := ["busy"], maxAttempts := 4 } none
          "done")]) .null
      { probedCatalog with
        activities := probedCatalog.activities.map fun entry =>
          (entry.1, { entry.2 with errorCodes := [⟨"busy", true⟩] }) } },
  { id := ⟨2⟩, time := 2, body := .registerSession ⟨1⟩ ["*"] 1 },
  { id := ⟨3⟩, time := 3, body := .claim ⟨1⟩ 1 },
  { id := ⟨4⟩, time := 4, body := .reportError ⟨1⟩ ⟨65⟩ "busy" "later" },
  { id := ⟨5⟩, time := 5, body := .claim ⟨1⟩ 1 },
  { id := ⟨6⟩, time := 40000, body := .registerSession ⟨2⟩ ["*"] 1 },
  { id := ⟨7⟩, time := 40001, body := .claim ⟨2⟩ 1 },
  { id := ⟨8⟩, time := 40002, body := .reconcile ⟨1⟩ ⟨65⟩ ⟨2⟩ 3 1 .notApplied none },
  { id := ⟨9⟩, time := 40003, body := .claim ⟨2⟩ 1 }]

/-- Every budget has attempts left, and no compensation is abandoned. -/
def Step.checksBudget (step : Step) : Bool :=
  (step.before.activations.entries.all fun entry =>
    (attemptBudget step.before entry.1 entry.2).all (entry.2.attempts < ·)) &&
  EventKind.compensationAbandoned ∉ step.body.kinds

theorem withinBudget_of_check {step : Step} (h : step.checksBudget = true) :
    WithinBudget step := by
  obtain ⟨hbudgets, hkinds⟩ := Bool.and_eq_true_iff.mp h
  have hleft {a : ActivationId} {act : ActivationState} {n : Nat}
      (hact : step.before.activations.lookup a = some act)
      (hn : attemptBudget step.before a act = some n) : act.attempts < n := by
    have hentry := List.all_eq_true.mp hbudgets _ (AList.mem_lookup_iff.mp hact)
    simpa [hn] using hentry
  exact ⟨fun _ _ _ a act _ hact _ _ _ _ _ n => hleft hact, fun _ _ _ _ act n => hleft,
    abandonsNoClaim_of_kinds (of_decide_eq_true hkinds)⟩

/-- An error is retried and a probe is answered; the third forward attempt is within the budget of
four. -/
theorem retriedWork_within : ∃ log final earlier step later before after e act,
    Run sampleEnv (.empty sampleCluster) log final ∧
    (∀ step ∈ log, Fresh step ∧ Guarded Unowed step.before step.events ∧ WithinBudget step) ∧
    log = earlier ++ step :: later ∧ step.events = before ++ e :: after ∧
    e.grantsAs .forward ⟨65⟩ = true ∧ step.before.activations.lookup ⟨65⟩ = some act ∧
    (eventsOf earlier).countP (DomainEvent.grantsAs .reconciliation ⟨65⟩) = 1 ∧
    grantsSoFar .forward ⟨65⟩ (eventsOf earlier ++ before ++ [e]) = 3 ∧
    ∀ n, attemptBudget step.before ⟨65⟩ act = some n → n < 2 ^ 32 →
      grantsSoFar .forward ⟨65⟩ (eventsOf earlier ++ before ++ [e]) ≤ n := by
  obtain ⟨log, final, hrun, hcheck⟩ := exists_sampleRun retriedWork
    (fun log _ => (log.all fun step => Fresh step &&
      Decidable.decide (Guarded Unowed step.before step.events) && step.checksBudget) &&
      (log[8]?).any fun step => (step.events[1]?).any fun e => e.grantsAs .forward ⟨65⟩ &&
        (eventsOf (log.take 8)).countP (DomainEvent.grantsAs .reconciliation ⟨65⟩) = 1 &&
        grantsSoFar .forward ⟨65⟩ (eventsOf (log.take 8) ++ step.events.take 1 ++ [e]) = 3)
    (by decide +kernel)
  obtain ⟨hsteps, hgrant⟩ := Bool.and_eq_true_iff.mp hcheck
  obtain ⟨step, hlog, hgrant⟩ := eq_append_of_any hgrant
  obtain ⟨e, hevents, hgrant⟩ := eq_append_of_any hgrant
  simp only [Bool.and_eq_true, List.all_eq_true, decide_eq_true_eq] at hsteps hgrant
  obtain ⟨⟨hgrant, hprobes⟩, hcount⟩ := hgrant
  have hwithin : ∀ step ∈ log,
      Fresh step ∧ Guarded Unowed step.before step.events ∧ WithinBudget step := fun step hstep =>
    ⟨(hsteps step hstep).1.1, (hsteps step hstep).1.2, withinBudget_of_check (hsteps step hstep).2⟩
  obtain ⟨act, hact, hbudget, -⟩ := attempts_within_budget hrun hwithin hlog hevents hgrant
  exact ⟨log, final, _, step, _, _, _, e, act, hrun, hwithin, hlog, hevents, hgrant, hact, hprobes,
    hcount, (hbudget (by simp)).2⟩

end Graphrun
