import Graphrun.Claims.Fencing
import Graphrun.Engine.Closing
import Graphrun.Engine.Placing

/-!
# Manual activities are not repeated

After a forward claim on a manual activity has expired, the engine must not start the activity
again before a probe has found that the first attempt was not applied. `KeptUnless` is the
invariant behind this: an activation with an unanswered forward claim still carries a claim,
or waits for an operator, or has ended. It is stated for any reason to be free of such a keeper
(`StaysFree`, `Releasing`). The role of the next grant follows from the claim that
is still there, provided that the contract names a reconciler: `grant_role` falls back to the
forward role where it does not (`unreconciled_repeated`).

Abandoning the compensation of a run clears all claims of the run. While the run can still be
failed this ends its activations as well; the condition `AbandonsNoClaim` excludes the cases in
which only the claims go.
-/

namespace Graphrun

open Lib

variable {env : Env} {o : Enumeration} {s : Core} {time : Nat} {ids : IdGen}
  {past : List DomainEvent} {a : ActivationId} {e : DomainEvent} {es : List DomainEvent}
  {apart : RunId → Prop} {free : List DomainEvent → Core → ActivationId → Prop}
  {act : ActivationState} {run : RunId} {runState : RunState}

/-! ## Attempts and answers -/

/-- A forward claim on an activation is granted. -/
def DomainEvent.attempts (a : ActivationId) : DomainEvent → Bool
  | .claimGranted _ _ activation _ _ _ _ _ _ _ _ _ _ role => activation = a ∧ role = .forward
  | _ => false

/-- A claim of any role on the activation is granted. -/
def DomainEvent.claims (a : ActivationId) : DomainEvent → Bool
  | .claimGranted _ _ activation _ _ _ _ _ _ _ _ _ _ _ => activation = a
  | _ => false

theorem claims_of_attempts (h : e.attempts a = true) :
    e.claims a = true := by
  cases e <;> simp only [DomainEvent.attempts, Bool.false_eq_true, decide_eq_true_eq] at h
  simp [DomainEvent.claims, h.1]

theorem attempts_of_claims (h : e.claims a = false) :
    e.attempts a = false := by
  by_contra hattempt
  rw [claims_of_attempts (by simpa using hattempt)] at h
  cases h

/-- A result of an activation is accepted, or a probe finds that its attempt was not applied. -/
def DomainEvent.answers (a : ActivationId) : DomainEvent → Bool
  | .leafSucceeded _ activation _ _ _ | .leafFailed _ activation _ _ _ _ => activation = a
  | .reconciliationRecorded _ activation outcome _ _ => activation = a ∧ outcome = .notApplied
  | _ => false

/-- An activation begins only where none of its id is left. -/
theorem Placed.unused (placed : Placed s e) (h : e.begins a = true) :
    s.activations.lookup a = none := by
  cases e with
  | activationOpened | compensationStarted =>
    obtain rfl := of_decide_eq_true h
    exact placed.1
  | _ => cases h

theorem Run.begins_unused {clusterId : String} {log : List Step} {final : State} {core : Core}
    (hrun : Run env (.empty clusterId) log final) (fresh : ∀ step ∈ log, Fresh step)
    (happlied : Applied log past core e) (h : e.begins a = true) :
    core.activations.lookup a = none := by
  obtain ⟨-, hplaced⟩ := (hrun.trace (keyed_empty clusterId)).eventInvariant (G := Placed)
    (P := fun _ => Tree) (C := Fresh) (fun _ _ _ change tree => tree.quiet change)
    (fun _ _ _ placed tree => tree.evolve placed)
    (fun _ _ decided hfresh tree => decided.placed tree hfresh) (tree_empty clusterId) fresh
  exact (hplaced past core e happlied).2.unused h

/-- Every forward claim on the activation in its life so far has been answered. -/
def Answered (a : ActivationId) (past : List DomainEvent) : Prop :=
  Since (DomainEvent.attempts a) (fun e => e.answers a || e.begins a) past

theorem Answered.concat (h : e.attempts a = false)
    (hpast : (e.answers a || e.begins a) = true ∨ Answered a past) : Answered a (past ++ [e]) :=
  since_concat h hpast

theorem Answered.append (answered : Answered a past) (h : ∀ e ∈ es, e.attempts a = false) :
    Answered a (past ++ es) := by
  induction es generalizing past with
  | nil =>
    rw [List.append_nil]
    exact answered
  | cons e es ih =>
    obtain ⟨he, hes⟩ := List.forall_mem_cons.mp h
    have hrest := ih (Answered.concat he (.inr answered)) hes
    rwa [List.append_assoc] at hrest

/-! ## Free and kept activations -/

/-- Nothing takes back the request for an operator. -/
theorem interventions_kept (h : (s.interventions.lookup a).isSome = true) :
    ((evolve s e).interventions.lookup a).isSome = true := by
  rw [evolve_interventions]
  cases e <;> try exact h
  simp only [interventionsAfter, Table.lookup_insert_eq]
  split
  · rfl
  · exact h

/-- What keeps an activation from a grant in its own role. -/
inductive Kept (s : Core) (a : ActivationId) (act : ActivationState) : Prop
  | claimed (h : act.claim.isSome = true)
  | intervened (h : (s.interventions.lookup a).isSome = true)
  | ended (h : act.status = .succeeded ∨ act.status = .failed)

/-- Every activation outside the given runs is free or kept. -/
def KeptUnless (free : List DomainEvent → Core → ActivationId → Prop) (apart : RunId → Prop)
    (past : List DomainEvent) (s : Core) : Prop :=
  ∀ a act, s.activations.lookup a = some act → ¬ apart act.run → free past s a ∨ Kept s a act

/-- No unfinished activation of a run is claimed. -/
def Unclaimed (s : Core) (run : RunId) : Prop :=
  ∀ a act, s.activations.lookup a = some act → act.run = run →
    act.status = .open ∨ act.status = .ready → act.claim = none

/-- What is free stays so until it is claimed, and what begins is free. -/
def StaysFree (free : List DomainEvent → Core → ActivationId → Prop) (past : List DomainEvent)
    (s : Core) (e : DomainEvent) : Prop :=
  ∀ a, e.claims a = false → free past s a ∨ e.begins a = true → free (past ++ [e]) (evolve s e) a

/-- The events that could release a kept activation do so only if it is free. -/
def Keeping (free : List DomainEvent → Core → ActivationId → Prop) (apart : RunId → Prop)
    (past : List DomainEvent) (s : Core) : DomainEvent → Prop
  | .leafFailed run a attempt code message true =>
    free (past ++ [.leafFailed run a attempt code message true])
      (evolve s (.leafFailed run a attempt code message true)) a
  | .claimCleared a => free past s a ∨ (s.interventions.lookup a).isSome = true
  | .waitOpened _ _ a _ _ _ _ => ∀ act, s.activations.lookup a = some act → act.status = .open
  | .compensationAbandoned run _ _ => apart run ∨ Unclaimed s run
  | _ => True

/-- An event that does not make an activation free keeps it. -/
theorem kept_evolve (kept : Kept s a act) (hact : s.activations.lookup a = some act)
    (keeping : Keeping free apart past s e) (hapart : ¬ apart act.run)
    (hbefore : ¬ free past s a) (hafter : ¬ free (past ++ [e]) (evolve s e) a) :
    Kept (evolve s e) a (act.after s e a) := by
  cases kept with
  | claimed h =>
    have hclaim : (claimAfter e a act).isSome = true ∨
        ((evolve s e).interventions.lookup a).isSome = true ∨
        statusAfter s e a act = .succeeded ∨ statusAfter s e a act = .failed := by
      cases e
      case leafFailed b _ _ _ retry =>
        left
        simp only [claimAfter]
        split
        · next hb =>
          obtain ⟨rfl, rfl⟩ := hb
          exact absurd keeping hafter
        · exact h
      case claimGranted | claimRenewed | reconciliationRecorded =>
        left
        simp only [claimAfter]
        split <;> simp [h]
      case claimCleared b =>
        by_cases hb : a = b
        · subst hb
          exact .inr (.inl (keeping.resolve_left hbefore))
        · left
          simp only [claimAfter, if_neg hb]
          exact h
      case compensationAbandoned run reason unresolved =>
        by_cases hrun : act.run = run
        · -- the claim goes, so the activation has ended already
          have hunclaimed := keeping.resolve_left (hrun ▸ hapart)
          right
          right
          show act.status = .succeeded ∨ act.status = .failed
          cases hstatus : act.status with
          | succeeded => exact .inl rfl
          | failed => exact .inr rfl
          | «open» =>
            rw [hunclaimed a act hact hrun (.inl hstatus)] at h
            cases h
          | ready =>
            rw [hunclaimed a act hact hrun (.inr hstatus)] at h
            cases h
        · left
          simp only [claimAfter, if_neg hrun]
          exact h
      all_goals exact .inl h
    rcases hclaim with h | h | h
    · exact .claimed h
    · exact .intervened h
    · exact .ended h
  | intervened h => exact .intervened (interventions_kept h)
  | ended h =>
    apply Kept.ended
    cases e
    case leafFailed b _ _ _ retry =>
      simp only [ActivationState.after, statusAfter]
      split
      · next hb =>
        subst hb
        cases retry with
        | true => exact absurd keeping hafter
        | false => exact .inr rfl
      · exact h
    case waitOpened b _ _ _ _ =>
      simp only [ActivationState.after, statusAfter]
      split
      · next hb =>
        subst hb
        rw [keeping act hact] at h
        rcases h with h | h <;> cases h
      · exact h
    case scopeCompleted | scopeFailed | nodeOutputRecorded | waitSatisfied | waitTimedOut
        | waitCancelled | runFailed | leafSucceeded =>
      simp only [ActivationState.after, statusAfter]
      split <;> first | exact h | simp
    all_goals exact h

theorem KeptUnless.evolve (kept : KeptUnless free apart past s) (stays : StaysFree free past s e)
    (keeping : Keeping free apart past s e) :
    KeptUnless free apart (past ++ [e]) (evolve s e) := by
  intro a act' hact' hapart
  by_cases hafter : free (past ++ [e]) (Graphrun.evolve s e) a
  · exact .inl hafter
  · right
    cases hclaims : e.claims a with
    | true =>
      -- the grant itself leaves a claim
      apply Kept.claimed
      cases e <;> simp only [DomainEvent.claims, Bool.false_eq_true, decide_eq_true_eq] at hclaims
      subst hclaims
      rcases after_or_begun hact' with ⟨act, -, rfl⟩ | ⟨hbegins, -⟩
      · simp [ActivationState.after, claimAfter]
      · cases hbegins
    | false =>
      have hbefore : ¬ free past s a := fun h => hafter (stays a hclaims (.inl h))
      rcases after_or_begun hact' with ⟨act, hact, rfl⟩ | ⟨hbegins, -⟩
      · have hkept := (kept a act hact hapart).resolve_left hbefore
        exact kept_evolve hkept hact keeping hapart hbefore hafter
      · exact absurd (stays a hclaims (.inr hbegins)) hafter

theorem Kept.transfer {s' : Core} (h : s'.interventions.lookup a = s.interventions.lookup a)
    (kept : Kept s a act) :
    Kept s' a act := by
  cases kept with
  | claimed hclaim => exact .claimed hclaim
  | intervened hquiet => exact .intervened (h ▸ hquiet)
  | ended hstatus => exact .ended hstatus

theorem KeptUnless.quiet {s' : Core} (change : Quiet s s') (kept : KeptUnless free apart past s)
    (hfree : ∀ a act, s'.activations.lookup a = some act → free past s a → free past s' a) :
    KeptUnless free apart past s' := by
  intro a act hact hapart
  have hold : s.activations.lookup a = some act ∧
      s'.interventions.lookup a = s.interventions.lookup a := by
    cases change with
    | admitted | stamped | dropped => exact ⟨hact, rfl⟩
    | retired =>
      have hkept := hact
      rw [dropRun, Table.lookup_retain] at hkept
      obtain ⟨hact, hother⟩ := Option.filter_eq_some_iff.mp hkept
      refine ⟨hact, ?_⟩
      rw [dropRun, Table.lookup_retain]
      simp only [ne_eq, decide_not, Bool.not_eq_true', decide_eq_false_iff_not] at hother
      cases s.interventions.lookup a <;> simp [hact, hother]
  exact (kept a act hold.1 hapart).imp (hfree a act hact) (Kept.transfer hold.2)

/-! ## Moves -/

theorem guardedFrom_keeping
    (h : ∀ e ∈ es, e.kind ∉ [.leafFailed, .claimCleared, .waitOpened, .compensationAbandoned]) :
    GuardedFrom (Keeping free apart) past s es := by
  refine GuardedFrom.of_all fun e he _ _ => ?_
  have hkind := h e he
  cases e <;> first | trivial | exact absurd (by simp) hkind

theorem NodeMove.keeping {node : Node} (advancing : Advancing s run act node)
    (move : NodeMove o s run time act node es) :
    GuardedFrom (Keeping free apart) past s es := by
  have hadvance : ∀ k ∈ EventKind.waitSatisfied :: advanceKinds,
      k ∉ [EventKind.leafFailed, .claimCleared, .waitOpened, .compensationAbandoned] := by decide
  rcases move.kinds_cases with h | ⟨_, _, _, _, _, _, rest, rfl, -, h⟩
  · exact guardedFrom_keeping fun e he => hadvance _ (List.mem_cons_of_mem _ (h e he))
  · refine ⟨fun found hfound => ?_, guardedFrom_keeping fun e he => hadvance _ (h e he)⟩
    obtain rfl : found = act := Option.mem_unique hfound advancing.hact
    exact advancing.hopen

/-- A reported error that may be retried, and a probe that found nothing applied, make their
activation free. -/
structure Releasing (free : List DomainEvent → Core → ActivationId → Prop)
    (past : List DomainEvent) (s : Core) (body : CommandBody) (es : List DomainEvent) : Prop where
  retried : ∀ {run a act attempt code message}, Reported s body run a act →
    Retryable s a act code → free (past ++ [.leafFailed run a attempt code message true])
      (evolve s (.leafFailed run a attempt code message true)) a
  notApplied : ∀ {run a act probes}, Reported s body run a act →
    .reconciliationRecorded run a .notApplied none probes ∈ es →
      free (past ++ [.reconciliationRecorded run a .notApplied none probes])
        (evolve s (.reconciliationRecorded run a .notApplied none probes)) a

/-- Every command but the abandoning of compensation keeps what it does not make free. -/
theorem Move.keeping {body : CommandBody} (move : Move env o s time body es)
    (hbody : ∀ run reason, body ≠ .abandonCompensation run reason)
    (releasing : Releasing free past s body es) : GuardedFrom (Keeping free apart) past s es := by
  have hother : (∀ k ∈ body.kinds, k ∉ [EventKind.leafFailed, .claimCleared, .waitOpened,
      .compensationAbandoned]) → GuardedFrom (Keeping free apart) past s es := fun h =>
    guardedFrom_keeping fun e he => h _ (move.kinds e he)
  have hplain {L : List EventKind} {past' : List DomainEvent} {s' : Core} {es' : List DomainEvent}
      (h : ∀ e ∈ es', e.kind ∈ L) (hL : ∀ k ∈ L, k ∉ [EventKind.leafFailed, .claimCleared,
        .waitOpened, .compensationAbandoned]) : GuardedFrom (Keeping free apart) past' s' es' :=
    guardedFrom_keeping (not_mem_of_kinds h hL)
  cases move with
  | retried hreported hretryable =>
    exact ⟨releasing.retried hreported hretryable, .inl (releasing.retried hreported hretryable),
      trivial⟩
  | notApplied hreported _ hsettled =>
    refine ⟨trivial, .inl (releasing.notApplied hreported List.mem_cons_self), ?_⟩
    rcases hsettled with ⟨-, rfl⟩ | ⟨-, attempt, code, message, rfl⟩
    · trivial
    · exact ⟨trivial, trivial⟩
  | unknown hreported _ hfailure hescalated =>
    have hintervened : ∀ {core : Core} {run a reason}, ((evolve core
        (.interventionRequired run a reason)).interventions.lookup a).isSome = true := by
      intro core run a reason
      rw [evolve_interventions]
      simp [interventionsAfter]
    rcases hfailure with rfl | ⟨code, message, rfl⟩ <;>
      rcases hescalated with rfl | ⟨reason, rfl⟩
    · exact ⟨trivial, trivial⟩
    · exact ⟨trivial, trivial, .inr hintervened, trivial⟩
    · exact ⟨trivial, trivial, trivial⟩
    · exact ⟨trivial, trivial, trivial, .inr hintervened, trivial⟩
  | advanced hadvancing _ hmove => exact hmove.keeping hadvancing
  | abandoned => exact absurd rfl (hbody _ _)
  | accepted _ _ hprobe howed hfollowed =>
    exact hplain (kinds_accepted hprobe howed hfollowed) (by decide)
  | compensated _ _ hprobe => exact hplain (kinds_compensated hprobe) (by decide)
  | blocked | timedOut => exact ⟨trivial, trivial, trivial⟩
  | lost => exact ⟨trivial, trivial⟩
  | erred _ _ hfailing =>
    exact ⟨trivial, hplain (hfailing.kinds (List.Subset.refl failureKinds)) (by decide)⟩
  | satisfied _ _ hfollowed => exact hplain (kinds_satisfied hfollowed) (by decide)
  | outside houtside => exact hplain (kinds_outside houtside) (by decide)
  | started | resolved | signalled | cancelled | cancelledSagas | claimed | renewed =>
    exact hother (by simp)

/-! ## Abandoned runs -/

/-- Abandoning compensation fails the run, or finds no claim on its activations. -/
def AbandonsNoClaim (step : Step) : Prop :=
  ∀ run reason, step.body = .abandonCompensation run reason →
    Unclaimed step.before run ∨
      (∃ runState, step.before.runs.lookup run = some runState ∧
        runState.status.isActive = true) ∧
      (∃ k root, step.before.scopes.lookup k = some root ∧ root.run = run ∧ root.role = .root) ∧
      ∀ k root, step.before.scopes.lookup k = some root → root.run = run → root.role = .root →
        root.status.isFailed = false

/-- The end of a run ends its activations. -/
theorem ended_of_runFailed {error : FailError}
    (h : (evolve s (.runFailed run error)).activations.lookup a = some act)
    (hrun : act.run = run) : act.status = .succeeded ∨ act.status = .failed := by
  rcases after_or_begun h with ⟨old, -, rfl⟩ | ⟨hbegins, -⟩
  · simp only [ActivationState.after, statusAfter] at hrun ⊢
    split
    · exact .inr rfl
    · next h =>
      left
      by_contra hstatus
      exact h ⟨hrun, hstatus⟩
  · cases hbegins

theorem KeptUnless.all (kept : KeptUnless free apart past s)
    (stays : GuardedFrom (StaysFree free) past s es)
    (keeping : GuardedFrom (Keeping free apart) past s es) :
    KeptUnless free apart (past ++ es) (evolveAll s es) :=
  (stays.and keeping).invariant (fun _ _ _ h kept => kept.evolve h.1 h.2) kept

theorem KeptUnless.abandoned {reason : String} {failed : List DomainEvent}
    {unresolved : List ActivationId} (keyed : Keyed s)
    (kept : KeptUnless free (fun _ => False) past s) (hrun : s.runs.lookup run = some runState)
    (hfailed : (runState.status.isActive = true → rootScope? o s run = none) ∧ failed = [] ∨
      ∃ root error, runState.status.isActive = true ∧ rootScope? o s run = some root ∧
        Failing o s root.id error failed) (condition : Unclaimed s run ∨
      (∃ runState, s.runs.lookup run = some runState ∧ runState.status.isActive = true) ∧
      (∃ k root, s.scopes.lookup k = some root ∧ root.run = run ∧ root.role = .root) ∧
      ∀ k root, s.scopes.lookup k = some root → root.run = run → root.role = .root →
        root.status.isFailed = false)
    (stays : GuardedFrom (StaysFree free) past s
      (.compensationAbandoned run reason unresolved :: failed)) :
    KeptUnless free (fun _ => False)
      (past ++ .compensationAbandoned run reason unresolved :: failed)
      (evolveAll s (.compensationAbandoned run reason unresolved :: failed)) := by
  have hkinds : ∀ e ∈ failed, e.kind ∈ failureKinds := by
    rcases hfailed with ⟨-, rfl⟩ | ⟨root, error, -, -, hfailing⟩
    · exact List.forall_mem_nil _
    · exact hfailing.kinds (List.Subset.refl _)
  have hkeeping {apart : RunId → Prop} (h : apart run ∨ Unclaimed s run) :
      GuardedFrom (Keeping free apart) past s
        (.compensationAbandoned run reason unresolved :: failed) :=
    ⟨h, guardedFrom_keeping (not_mem_of_kinds hkinds (by decide))⟩
  rcases condition with hunclaimed | ⟨⟨_, hstate, hactive⟩, ⟨k, root', hroot', hown, hrole⟩, hopen⟩
  · exact kept.all stays (hkeeping (.inr hunclaimed))
  · obtain rfl := Option.mem_unique hrun hstate
    -- apart from the run nothing is released, and at the end the run has ended
    have hothers : KeptUnless free (· = run) _ _ :=
      KeptUnless.all (fun a act hact _ => kept a act hact id) stays (hkeeping (.inl rfl))
    intro a act hact _
    by_cases hsame : act.run = run
    · rcases hfailed with ⟨hnone, -⟩ | ⟨root, error, -, hroot, hfailing⟩
      · exact absurd (hnone hactive) (rootScope?_isSome hroot' hown hrole)
      · obtain ⟨hlookup, hown, hrole⟩ := rootScope?_eq_some keyed hroot
        cases hfailing with
        | already hscope h =>
          obtain rfl := Option.mem_unique hscope hlookup
          rw [hopen _ _ hlookup hown hrole] at h
          cases h
        | inner hscope _ h =>
          obtain rfl := Option.mem_unique hscope hlookup
          exact absurd hrole h
        | root hscope _ _ =>
          obtain rfl := Option.mem_unique hscope hlookup
          rw [hown, evolveAll, ← List.cons_append, List.foldl_append] at hact
          exact .inr (.ended (ended_of_runFailed hact hsame))
    · exact hothers a act hact hsame

/-! ## Every run -/

theorem KeptUnless.step {step : Step} (keyed : Keyed step.before) (decided : Decided env step)
    (hreplayed : step.replayed = false) (condition : AbandonsNoClaim step)
    (stays : GuardedFrom (StaysFree free) past step.before step.events)
    (releasing : Releasing free past step.before step.body step.events)
    (kept : KeptUnless free (fun _ => False) past step.before) :
    KeptUnless free (fun _ => False) (past ++ step.events) step.after := by
  obtain ⟨o, move⟩ := decided.move hreplayed
  by_cases hbody : ∃ run reason, step.body = .abandonCompensation run reason
  · obtain ⟨run, reason, hbody⟩ := hbody
    have hcondition := condition run reason hbody
    unfold Step.after
    rw [hbody] at move
    generalize step.events = es at move stays ⊢
    cases move with
    | abandoned hrun hfailed => exact kept.abandoned keyed hrun hfailed hcondition stays
    | outside houtside =>
      refine kept.all stays (guardedFrom_keeping fun e he => ?_)
      rw [kind_of_isOutside (houtside e he)]
      simp
    | accepted hreported | compensated hreported | retried hreported | blocked hreported
    | lost hreported | erred hreported | notApplied hreported | unknown hreported =>
      cases hreported.hbody
    | satisfied hsettling | timedOut hsettling =>
      rcases hsettling.hbody with h | h <;> cases h
  · exact kept.all stays (move.keeping (fun run reason h => hbody ⟨run, reason, h⟩) releasing)

/-- A forward grant of a manual activity with a reconciler finds no claim on it. -/
theorem unclaimed_of_forward {key : ActivityKey} {input : Binding} {timeoutMs : Option Nat}
    {retry : RetryPolicy} {compensation : Option Compensation} {next : NodeKey}
    {contract : ActivityContract} (hrun : s.runs.lookup act.run = some runState)
    (hnode : nodeOf s act.scope act.node =
      some (.activity key input timeoutMs retry compensation next))
    (hcontract : runState.catalog.activity key = .ok contract)
    (hmanual : contract.recovery = .manual) (hreconciler : contract.reconciler.isSome = true)
    (hfree : unclaimedAt act time = true) (hforward : grantRole o s act time = .forward) :
    act.claim = none := by
  cases hclaim : act.claim with
  | none => rfl
  | some claim =>
    simp only [unclaimedAt, hclaim, Option.all_some, decide_eq_true_eq] at hfree
    simp [grantRole, hclaim, hfree, hrun, hnode, hcontract, hmanual, hreconciler] at hforward
    split at hforward <;> cases hforward

/-- A grant of a claim command is the only one of its activation. -/
theorem Granted.once {session : WorkerSessionId} {grants : Grants}
    (granted : Granted o s session time grants) {before after : List DomainEvent}
    (hevents : grants.events = before ++ e :: after) (he : e.claims a = true) :
    (∃ i, Grant o s session time i a e) ∧ ∀ e' ∈ before, DomainEvent.claims a e' = false := by
  have hat : ∀ {i : Nat} {e' : DomainEvent}, grants.events[i]? = some e' → e'.claims a = true →
      grants.ids[i]? = some a ∧ Grant o s session time i a e' := by
    intro i e' hi hclaim
    have hlt : i < grants.ids.length := by
      rw [← granted.length]
      exact (List.getElem?_eq_some_iff.mp hi).1
    have hid := List.getElem?_eq_getElem hlt
    have hgrant := granted.grant i _ e' hid hi
    have hsame : grants.ids[i] = a := by
      cases hgrant
      simpa only [DomainEvent.claims, decide_eq_true_eq] using hclaim
    rw [hsame] at hid hgrant
    exact ⟨hid, hgrant⟩
  have hlast : grants.events[before.length]? = some e := by simp [hevents]
  refine ⟨⟨before.length, (hat hlast he).2⟩, fun e' he' => ?_⟩
  by_contra hclaim
  rw [Bool.not_eq_false] at hclaim
  obtain ⟨j, hj, rfl⟩ := List.getElem_of_mem he'
  have hearlier : grants.events[j]? = some before[j] := by
    rw [hevents, List.getElem?_append_left hj, List.getElem?_eq_getElem hj]
  obtain ⟨hj', hfirst⟩ := List.getElem?_eq_some_iff.mp (hat hearlier hclaim).1
  obtain ⟨hl', hsecond⟩ := List.getElem?_eq_some_iff.mp (hat hlast he).1
  have hsame : j = before.length :=
    (List.Nodup.getElem_inj_iff granted.nodup).mp (hfirst.trans hsecond.symm)
  omega

/-- A grant among the events of a move was made in the state before it, and no other of its
activation stands before it. -/
theorem Move.grant {body : CommandBody} {before after : List DomainEvent}
    (move : Move env o s time body (before ++ e :: after)) (he : e.claims a = true) :
    ∃ session capacity i, body = .claim session capacity ∧ Grant o s session time i a e ∧
      ∀ e' ∈ before, DomainEvent.claims a e' = false := by
  have hkind : e.kind = .claimGranted := by
    cases e <;> simp only [DomainEvent.claims, Bool.false_eq_true] at he
    rfl
  obtain ⟨session, capacity, renewed, grants, hbody, hes, hrenewed, granted⟩ :=
    move.granting (by simp) hkind
  -- the grant stands among the grants of its command, after the renewal of the session
  obtain ⟨middle, rfl, hgrants⟩ : ∃ middle, before = renewed ++ middle ∧
      grants.events = middle ++ e :: after := by
    rcases List.append_eq_append_iff.mp hes with
      ⟨middle, hrest, hcons⟩ | ⟨middle, hbefore, hgrants⟩
    · cases middle with
      | nil => exact ⟨[], by simpa using hrest.symm, hcons.symm⟩
      | cons head middle =>
        obtain rfl := (List.cons.inj hcons).1
        have houtside := hrenewed e (by simp [hrest])
        rw [kind_of_isOutside houtside] at hkind
        cases hkind
    · exact ⟨middle, hbefore, hgrants⟩
  obtain ⟨⟨i, hgrant⟩, honce⟩ := granted.once hgrants he
  refine ⟨session, capacity, i, hbody, hgrant, List.forall_mem_append.mpr ⟨fun e' he' => ?_, honce⟩⟩
  have houtside := hrenewed e' he'
  cases e' <;> first | rfl | cases houtside

theorem keptUnless_empty (clusterId : String) :
    KeptUnless free (fun _ => False) [] (State.empty clusterId).toCore := by
  intro a act hact
  cases hact

/-- In every run in which no claim is lost by abandoning compensation, a forward claim on a
manual activity whose contract names a reconciler is granted only if every earlier one has been
answered: by an accepted result, or by a probe that found it not applied. Where ids are unused when
they are drawn, no other activation begins under the id as long as this one is there. -/
theorem manual_not_repeated {clusterId : String} {log earlier later : List Step} {final : State}
    {step : Step} {before after : List DomainEvent} {a : ActivationId} {act : ActivationState}
    {runState : RunState} {key : ActivityKey} {input : Binding} {timeoutMs : Option Nat}
    {retry : RetryPolicy} {compensation : Option Compensation} {next : NodeKey}
    {contract : ActivityContract} {e : DomainEvent}
    (hrun : Run env (.empty clusterId) log final)
    (hsteps : ∀ step ∈ log, step.replayed = false ∧ AbandonsNoClaim step)
    (hlog : log = earlier ++ step :: later) (hevents : step.events = before ++ e :: after)
    (hattempt : e.attempts a = true) (hact : step.before.activations.lookup a = some act)
    (hstate : step.before.runs.lookup act.run = some runState)
    (hnode : nodeOf step.before act.scope act.node =
      some (.activity key input timeoutMs retry compensation next))
    (hcontract : runState.catalog.activity key = .ok contract)
    (hmanual : contract.recovery = .manual) (hreconciler : contract.reconciler.isSome = true) :
    Answered a (eventsOf earlier ++ before) ∧
      ((∀ step ∈ log, Fresh step) → ∀ past core other, Applied log past core other →
        other.begins a = true → core.activations.lookup a = none) := by
  refine ⟨?_, fun fresh _ _ _ => hrun.begins_unused fresh⟩
  have hempty := keyed_empty clusterId
  have htrace := hrun.trace hempty
  have hstep : step ∈ log := by simp [hlog]
  have hstays {past : List DomainEvent} {s : Core} {es : List DomainEvent} :
      GuardedFrom (StaysFree fun past _ a => Answered a past) past s es :=
    GuardedFrom.of_all fun e _ past s a hclaims h => Answered.concat (attempts_of_claims hclaims)
      (h.symm.imp_left fun hbegins => by simp [hbegins])
  have hreleasing {past : List DomainEvent} {s : Core} {body : CommandBody}
      {es : List DomainEvent} : Releasing (fun past _ a => Answered a past) past s body es :=
    ⟨fun _ _ => Answered.concat rfl (.inl (by simp [DomainEvent.answers])),
      fun _ _ => Answered.concat rfl (.inl (by simp [DomainEvent.answers]))⟩
  obtain ⟨-, hlogged⟩ := htrace.logInvariant (P := fun log s => Keyed s ∧
      KeptUnless (fun past _ a => Answered a past) (fun _ => False) (eventsOf log) s)
    (fun _ _ _ change h => ⟨h.1.quiet change, h.2.quiet change fun _ _ _ h => h⟩)
    (fun log step decided condition h => by
      refine ⟨h.1.evolveAll _, ?_⟩
      have hafter := h.2.step h.1 decided condition.1 condition.2 hstays hreleasing
      simpa [eventsOf] using hafter)
    ⟨hempty, keptUnless_empty clusterId⟩ hsteps
  have hunrepeated := (hlogged earlier step later hlog).2 a act hact id
  obtain ⟨o, move⟩ := (htrace.decided step hstep).move (hsteps step hstep).1
  rw [hevents] at move
  obtain ⟨session, capacity, i, -, hgrant, honce⟩ := move.grant (claims_of_attempts hattempt)
  have hanswered : Answered a (eventsOf earlier) := by
    refine hunrepeated.resolve_right fun hkept => ?_
    cases hgrant with
    | mk hfound hown hready hwait hfree hquiet hrole hforward =>
      obtain rfl := Option.mem_unique hfound hact
      simp only [DomainEvent.attempts, true_and, decide_eq_true_eq] at hattempt
      cases hkept with
      | claimed hclaim =>
        rw [unclaimed_of_forward hstate hnode hcontract hmanual hreconciler hfree
          (hrole.symm.trans hattempt)] at hclaim
        cases hclaim
      | intervened hstopped =>
        rw [hquiet] at hstopped
        cases hstopped
      | ended hended =>
        rw [hready] at hended
        rcases hended with h | h <;> cases h
  exact hanswered.append fun e' he' => attempts_of_claims (honce e' he')

/-! ## A manual activity without and with a reconciler -/

/-- The activity of an activation, with its contract. -/
def contractOf (s : Core) (a : ActivationId) :
    Option (ActivationState × RunState × ActivityKey × ActivityContract) := do
  let act ← s.activations.lookup a
  let runState ← s.runs.lookup act.run
  match nodeOf s act.scope act.node with
  | some (.activity key _ _ _ _ _) =>
    match runState.catalog.activity key with
    | .ok contract => some (act, runState, key, contract)
    | .error _ => none
  | _ => none

theorem contractOf_eq_some {key : ActivityKey} {contract : ActivityContract}
    (h : contractOf s a = some (act, runState, key, contract)) :
    s.activations.lookup a = some act ∧ s.runs.lookup act.run = some runState ∧
      (∃ input timeoutMs retry compensation next, nodeOf s act.scope act.node =
        some (.activity key input timeoutMs retry compensation next)) ∧
      runState.catalog.activity key = .ok contract := by
  simp only [contractOf, Option.bind_eq_bind, Option.bind_eq_some_iff] at h
  obtain ⟨act', hact, runState', hrun, h⟩ := h
  split at h
  · next hnode =>
    split at h
    · next hcontract =>
      simp only [Option.some.injEq, Prod.mk.injEq] at h
      obtain ⟨rfl, rfl, rfl, rfl⟩ := h
      exact ⟨hact, hrun, ⟨_, _, _, _, _, hnode⟩, hcontract⟩
    · cases h
  · cases h

theorem abandonsNoClaim_of_kinds {step : Step}
    (h : EventKind.compensationAbandoned ∉ step.body.kinds) : AbandonsNoClaim step := by
  intro run reason hbody
  rw [hbody] at h
  simp at h

/-- Without a reconciler the activity is started again after its claim expired, unanswered. -/
theorem unreconciled_repeated : ∃ log final earlier step later before after e act runState key
    contract, Run sampleEnv (.empty sampleCluster) log final ∧
    (∀ step ∈ log, Fresh step ∧ AbandonsNoClaim step) ∧
    log = earlier ++ step :: later ∧ step.events = before ++ e :: after ∧
    e.attempts ⟨65⟩ = true ∧ step.before.activations.lookup ⟨65⟩ = some act ∧
    step.before.runs.lookup act.run = some runState ∧
    (∃ input timeoutMs retry compensation next, nodeOf step.before act.scope act.node =
      some (.activity key input timeoutMs retry compensation next)) ∧
    runState.catalog.activity key = .ok contract ∧ contract.recovery = .manual ∧
    ¬ Answered ⟨65⟩ (eventsOf earlier ++ before) := by
  obtain ⟨log, final, hrun, hcheck⟩ := exists_sampleRun handedOver
    (fun log _ => log.all (fun step => Fresh step &&
      EventKind.compensationAbandoned ∉ step.body.kinds) &&
      (log[4]?).any fun step => (step.events[1]?).any (·.attempts ⟨65⟩) &&
      ((contractOf step.before ⟨65⟩).any fun found => found.2.2.2.recovery = .manual) &&
      ((eventsOf (log.take 4) ++ step.events.take 1).reverse.takeWhile fun e =>
      !(e.answers ⟨65⟩ || e.begins ⟨65⟩)).any (·.attempts ⟨65⟩))
    (by decide +kernel)
  simp only [Bool.and_eq_true, List.all_eq_true, Option.any_eq_true, decide_eq_true_eq] at hcheck
  obtain ⟨hsteps, step, hstep, ⟨⟨e, he, hattempt⟩, ⟨act, runState, key, contract⟩, hfound,
    hmanual⟩, hunanswered⟩ := hcheck
  obtain ⟨hact, hstate, hnode, hcontract⟩ := contractOf_eq_some hfound
  obtain ⟨hi, rfl⟩ := List.getElem?_eq_some_iff.mp hstep
  obtain ⟨hj, rfl⟩ := List.getElem?_eq_some_iff.mp he
  refine ⟨_, _, _, _, _, _, _, _, act, runState, key, contract, hrun, fun other hother => ?_,
    (List.take_append_drop 4 _).symm.trans (by rw [← List.getElem_cons_drop]),
    (List.take_append_drop 1 _).symm.trans (by rw [← List.getElem_cons_drop]),
    hattempt, hact, hstate, hnode, hcontract, hmanual, not_since hunanswered⟩
  exact ⟨(hsteps other hother).1, abandonsNoClaim_of_kinds (hsteps other hother).2⟩

/-- A manual activity whose effect can be looked up. -/
def probedCatalog : Catalog where
  schemas := []
  activities := [(⟨"a", 1⟩, {
    key := ⟨"a", 1⟩, inputSchema := .null, outputSchema := .null, execution := .async
    effects := .external, recovery := .manual, errorCodes := [], reconciler := some ⟨"p", 1⟩ })]
  reconcilers := [(⟨"p", 1⟩, ⟨⟨"p", 1⟩, ⟨"a", 1⟩⟩)]

/-- The claim expires, the second session probes the effect, and claims the activity after it has
found that the effect was not applied. -/
def probedWork : List Command := lapsedWork workWorkflow probedCatalog ++ [
  { id := ⟨6⟩, body := .reconcile ⟨1⟩ ⟨65⟩ ⟨2⟩ 2 1 .notApplied none, time := 40002 },
  { id := ⟨7⟩, body := .claim ⟨2⟩ 1, time := 40003 }]

theorem probedWork_answered : ∃ log final earlier step later before after e,
    Run sampleEnv (.empty sampleCluster) log final ∧
    (∀ step ∈ log, step.replayed = false ∧ AbandonsNoClaim step) ∧
    log = earlier ++ step :: later ∧ step.events = before ++ e :: after ∧
    e.attempts ⟨65⟩ = true ∧ Answered ⟨65⟩ (eventsOf earlier ++ before) := by
  obtain ⟨log, final, hrun, hcheck⟩ := exists_sampleRun probedWork
    (fun log _ => log.all (fun step => !step.replayed &&
      EventKind.compensationAbandoned ∉ step.body.kinds) &&
      (log[6]?).any fun step => (step.events[1]?).any (·.attempts ⟨65⟩) &&
      ((contractOf step.before ⟨65⟩).any fun found =>
      found.2.2.2.recovery = .manual ∧ found.2.2.2.reconciler.isSome = true))
    (by decide +kernel)
  simp only [Bool.and_eq_true, List.all_eq_true, Option.any_eq_true, decide_eq_true_eq,
    Bool.not_eq_true'] at hcheck
  obtain ⟨hsteps, step, hstep, ⟨e, he, hattempt⟩, ⟨act, runState, key, contract⟩, hfound,
    hmanual, hreconciler⟩ := hcheck
  obtain ⟨hact, hstate, ⟨_, _, _, _, _, hnode⟩, hcontract⟩ := contractOf_eq_some hfound
  obtain ⟨earlier, later, hlog⟩ := List.append_of_mem (List.mem_of_getElem? hstep)
  obtain ⟨before, after, hevents⟩ := List.append_of_mem (List.mem_of_getElem? he)
  have hconditions : ∀ other ∈ _, other.replayed = false ∧ AbandonsNoClaim other :=
    fun other hother => ⟨(hsteps other hother).1, abandonsNoClaim_of_kinds (hsteps other hother).2⟩
  exact ⟨_, _, earlier, step, later, before, after, e, hrun, hconditions, hlog, hevents, hattempt,
    (manual_not_repeated hrun hconditions hlog hevents hattempt hact hstate hnode hcontract hmanual
      hreconciler).1⟩

end Graphrun
