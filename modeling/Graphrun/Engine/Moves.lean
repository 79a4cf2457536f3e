import Graphrun.Engine.NodeMoves
import Graphrun.Model.Decide

/-!
# What a decision can produce

`Move` lists every portion of events that a command can produce, with the facts about the
state under which it is produced. The invariants of the engine are proved by cases on it; the
decision functions are not unfolded again. The allocation of claims, which works in rounds, is
summarised by `Granted`.
-/

namespace Graphrun

open Lib

variable {env : Env} {o : Enumeration} {s : Core} {time : Nat} {es : List DomainEvent}
  {worker : WorkerSession} {run : RunId} {a : ActivationId} {session : WorkerSessionId} {cap : Nat}

/-! ## Keyed tables -/

/-- Every table stores an entry under the identity that the entry carries. -/
structure Keyed (s : Core) : Prop where
  runs : ∀ k run, s.runs.lookup k = some run → run.id = k
  scopes : ∀ k scope, s.scopes.lookup k = some scope → scope.id = k
  activations : ∀ k act, s.activations.lookup k = some act → act.id = k
  waits : ∀ k wait, s.waits.lookup k = some wait → wait.id = k

/-! ## Claims -/

/-- A grant that a claim command may record as its `i`-th. -/
inductive Grant (o : Enumeration) (s : Core) (session : WorkerSessionId) (time i : Nat) :
    ActivationId → DomainEvent → Prop
  | mk {run : RunId} {a : ActivationId} {act : ActivationState} {handler : String}
      {version attempt deadline : Nat} {input : Value} {effectKey : EffectKey}
      {role : ExecutionRole} (hact : s.activations.lookup a = some act) (hrun : act.run = run)
      (hready : act.status = .ready)
      (hwait : ∀ k wait, s.waits.lookup k = some wait → wait.activation = a →
        wait.pending = false)
      (hfree : unclaimedAt act time = true) (hquiet : s.interventions.lookup a = none)
      (hrole : role = grantRole o s act time)
      (hforward : role = .forward → runIsAborting o s run = false) :
      Grant o s session time i a (.claimGranted run act.scope a handler version input attempt
        session (satAdd s.nextGeneration (i + 1)) 1 (satAdd time sessionLeaseMs) deadline
        effectKey role)

/-- The grants of one claim command so far: of distinct activations and numbered in order. -/
structure Granted (o : Enumeration) (s : Core) (session : WorkerSessionId) (time : Nat)
    (grants : Grants) : Prop where
  length : grants.events.length = grants.ids.length
  nodup : grants.ids.Nodup
  grant : ∀ i a e, grants.ids[i]? = some a → grants.events[i]? = some e →
    Grant o s session time i a e

theorem granted_nil (o : Enumeration) (s : Core) (session : WorkerSessionId) (time : Nat) :
    Granted o s session time ⟨[], []⟩ :=
  ⟨rfl, List.nodup_nil, by simp⟩

theorem selectReady_ok {granted : List ActivationId} : ∀ {candidates : List ActivationId},
    selectReady env o s worker run time granted candidates = .ok (some a) →
      a ∈ candidates ∧ a ∉ granted ∧ ∃ act, s.activations.lookup a = some act ∧
        (grantRole o s act time = .forward → runIsAborting o s run = false)
  | [], h => by cases pure_eq_ok.mp h
  | id :: rest, h => by
    have later (h : selectReady env o s worker run time granted rest = .ok (some a)) :
        a ∈ id :: rest ∧ a ∉ granted ∧ ∃ act, s.activations.lookup a = some act ∧
          (grantRole o s act time = .forward → runIsAborting o s run = false) := by
      obtain ⟨hmem, hrest⟩ := selectReady_ok h
      exact ⟨List.mem_cons_of_mem _ hmem, hrest⟩
    rw [selectReady_cons] at h
    split at h
    · exact later h
    · next hnew =>
      split at h
      · exact later h
      · next act hact =>
        split at h
        · exact later h
        · next hforward =>
          simp only [bind_eq_ok] at h
          obtain ⟨suits, -, h⟩ := h
          split at h
          · simp only [pure_eq_ok, Option.some.injEq] at h
            subst h
            refine ⟨List.mem_cons_self, hnew, act, hact, fun hrole => ?_⟩
            by_contra habort
            exact hforward ⟨hrole, .inr (by simpa using habort)⟩
          · exact later h

theorem mem_readyInOrder (keyed : Keyed s) (h : a ∈ readyInOrder o s run time) :
    ∃ act, s.activations.lookup a = some act ∧ act.run = run ∧ act.status = .ready ∧
      (∀ k wait, s.waits.lookup k = some wait → wait.activation = a → wait.pending = false) ∧
      unclaimedAt act time = true ∧ s.interventions.lookup a = none := by
  have hmem : a ∈ unclaimedReady o s run time :=
    (List.perm_insertionSort _ _).mem_iff.mp h
  simp only [unclaimedReady, readyActivations, List.mem_filter, List.mem_map,
    Enumeration.mem_values, Bool.and_eq_true, Option.isNone_iff_eq_none, decide_eq_true_eq] at hmem
  obtain ⟨⟨act, ⟨⟨k, hk⟩, hrun, hready, hwaits⟩, rfl⟩, hquiet, hclaim⟩ := hmem
  have hid := keyed.activations k act hk
  rw [← hid] at hk
  refine ⟨act, hk, hrun, hready, fun w wait hw hact => ?_, ?_, hquiet⟩
  · have := List.all_eq_true.mp hwaits wait (Enumeration.mem_values.mpr ⟨w, hw⟩)
    simpa [hact] using this
  · simpa [hk] using hclaim

theorem grantClaim_ok {act : ActivationState} {i : Nat} {e : DomainEvent}
    (h : grantClaim env o s session run act a time i = .ok e) :
    ∃ handler version input attempt deadline effectKey,
      e = .claimGranted run act.scope a handler version input attempt session
        (satAdd s.nextGeneration (i + 1)) 1 (satAdd time sessionLeaseMs) deadline effectKey
        (grantRole o s act time) := by
  simp only [grantClaim, bind_eq_ok, okOr_eq_ok, pure_eq_ok] at h
  obtain ⟨⟨handler, input⟩, -, runState, -, ⟨inputSchema, outputSchema⟩, -, -, -, rfl⟩ := h
  exact ⟨_, _, _, _, _, _, rfl⟩

theorem grantInRun_ok {grants grants' : Grants} (keyed : Keyed s)
    (h : grantInRun env o s session worker time cap grants run = .ok grants')
    (granted : Granted o s session time grants) : Granted o s session time grants' := by
  simp only [grantInRun] at h
  split at h
  · simp only [pure_eq_ok] at h
    exact h ▸ granted
  · simp only [bind_eq_ok] at h
    obtain ⟨selected, hselected, h⟩ := h
    split at h
    · simp only [pure_eq_ok] at h
      exact h ▸ granted
    · next a act hbind =>
      simp only [Option.bind_eq_some_iff, Option.map_eq_some_iff, Prod.mk.injEq] at hbind
      obtain ⟨a, rfl, act, hact, rfl, rfl⟩ := hbind
      simp only [bind_eq_ok, pure_eq_ok] at h
      obtain ⟨e, he, rfl⟩ := h
      obtain ⟨hmem, hnew, act₁, hact₁, hforward⟩ := selectReady_ok hselected
      obtain ⟨act₂, hact₂, hrun, hready, hwait, hfree, hquiet⟩ := mem_readyInOrder keyed hmem
      obtain rfl : act₁ = act := Option.mem_unique hact₁ hact
      obtain rfl : act₂ = act₁ := Option.mem_unique hact₂ hact
      obtain ⟨handler, version, input, attempt, deadline, effectKey, rfl⟩ := grantClaim_ok he
      refine ⟨by simp [granted.length], ?_, fun i b e hb he => ?_⟩
      · rw [List.nodup_append]
        refine ⟨granted.nodup, List.nodup_singleton _, ?_⟩
        intro x hx y hy hxy
        rw [List.mem_singleton] at hy
        exact hnew (hy ▸ hxy ▸ hx)
      · -- The last grant is the new one, numbered by the grants before it.
        rcases Nat.lt_trichotomy i grants.ids.length with hi | hi | hi
        · rw [List.getElem?_append_left hi] at hb
          rw [List.getElem?_append_left (granted.length ▸ hi)] at he
          exact granted.grant i b e hb he
        · subst hi
          simp only [List.getElem?_concat_length, Option.some.injEq] at hb
          rw [← granted.length] at he
          simp only [List.getElem?_concat_length, Option.some.injEq] at he
          subst hb he
          rw [granted.length]
          exact .mk hact hrun hready hwait hfree hquiet rfl hforward
        · rw [List.getElem?_eq_none (by simp; omega)] at hb
          cases hb

/-- What serving one run keeps holds at the end of the rounds. -/
theorem grantRounds_keeps {runs : List RunId} {P : Grants → Prop} (step : ∀ grants run grants',
      grantInRun env o s session worker time cap grants run = .ok grants' → P grants → P grants') :
    ∀ {rounds : Nat} {grants grants' : Grants},
      grantRounds env o s session worker time cap runs rounds grants = .ok grants' →
        P grants → P grants'
  | 0, grants, grants', h, hgrants => by
    simp only [grantRounds, pure_eq_ok] at h
    exact h ▸ hgrants
  | rounds + 1, grants, grants', h, hgrants => by
    simp only [grantRounds] at h
    split at h
    · simp only [pure_eq_ok] at h
      exact h ▸ hgrants
    · simp only [bind_eq_ok] at h
      obtain ⟨after, hafter, h⟩ := h
      have hround := foldlM_keeps step hafter hgrants
      split at h
      · simp only [pure_eq_ok] at h
        exact h ▸ hround
      · exact grantRounds_keeps step h hround

theorem grantRounds_ok {runs : List RunId} {rounds : Nat} {grants grants' : Grants}
    (keyed : Keyed s)
    (h : grantRounds env o s session worker time cap runs rounds grants = .ok grants')
    (granted : Granted o s session time grants) : Granted o s session time grants' :=
  grantRounds_keeps (fun _ _ _ => grantInRun_ok keyed) h granted

/-! ## Moves -/

/-- Events that concern no run. -/
def DomainEvent.isOutside : DomainEvent → Bool
  | .sessionRegistered .. | .workerRegistered .. | .workerSessionRenewed ..
  | .recoveryAuthorized _ => true
  | _ => false

/-- The activation that a report is about, under the run that the reporter names. -/
def CommandBody.reported? : CommandBody → Option (RunId × ActivationId)
  | .reportLeaf run a _ | .reportError run a _ _ | .reportAssigned run a _ _ _ _
  | .reportWorker run a _ _ _ _ _ | .reconcile run a _ _ _ _ _
  | .reconcileWorker run a _ _ _ _ _ => some (run, a)
  | _ => none

/-- A report about an activation that awaits one. -/
structure Reported (s : Core) (body : CommandBody) (run : RunId) (a : ActivationId)
    (act : ActivationState) : Prop where
  hbody : body.reported? = some (run, a)
  hact : s.activations.lookup a = some act
  hrun : act.run = run
  hready : act.status = .ready

/-- An error after which the handler may be called again, by the policy of its role. -/
def Retryable (s : Core) (a : ActivationId) (act : ActivationState) (code : String) : Prop :=
  (act.role = .compensation ∧ compensationErrorRetryable s a code = true) ∨
    (act.role ≠ .compensation ∧ forwardErrorRetryable s act code = true)

/-- A probe runs under a claim of its own, which counts it; one without an answer is the first
under its claim. -/
def Probed (act : ActivationState) (outcome : ReconcileOutcome) (probes : Nat) : Prop :=
  ∃ claim, act.claim = some claim ∧ claim.role = .reconciliation ∧
    probes = min (claim.probes + 1) (2 ^ 32 - 1) ∧
    (outcome = .unknown → claim.unknownReported = false)

/-- What an applied probe records before the result. -/
def AppliedProbe (run : RunId) (a : ActivationId) (act : ActivationState)
    (es : List DomainEvent) : Prop :=
  es = [] ∨ ∃ output probes, Probed act .applied probes ∧
    es = [.reconciliationRecorded run a .applied output probes]

/-- A wait of a run that the given command may settle. -/
structure Settling (s : Core) (body : CommandBody) (run : RunId) (w : WaitId) (wait : WaitState)
    (act : ActivationState) : Prop where
  hbody : body = .progress run ∨ body = .resolveTimer run w
  hwait : s.waits.lookup w = some wait
  hrun : wait.run = run
  hpending : wait.pending = true
  hact : s.activations.lookup wait.activation = some act

/-- An open forward activation of an active run. -/
structure Advancing (s : Core) (run : RunId) (act : ActivationState) (node : Node) : Prop where
  hactive : ∃ runState, s.runs.lookup run = some runState ∧ runState.status.isActive = true
  hact : s.activations.lookup act.id = some act
  hrun : act.run = run
  hforward : act.role = .forward
  hopen : act.status = .open
  hnode : nodeOf s act.scope act.node = some node

/-- Every portion of events that a command can produce. -/
inductive Move (env : Env) (o : Enumeration) (s : Core) (time : Nat) :
    CommandBody → List DomainEvent → Prop
  | started {run definition input catalog root a} :
      Move env o s time (.start run definition input catalog)
        [.runAdmitted run definition.id definition.version input root
            (.defaults definition.runTimeoutMs) time,
          .scopeOpened run root none .root input,
          .activationOpened run root a definition.root.start]
  | accepted {body run a act output probe owed followed}
      (hreported : Reported s body run a act) (hrole : act.role ≠ .compensation)
      (hprobe : AppliedProbe run a act probe)
      (howed : compensationEvents s act output = .ok owed)
      (hfollowed : (runIsAborting o s run = true ∧ followed = []) ∨
        (runIsAborting o s run = false ∧ Followed s act.scope act.node followed)) :
      Move env o s time body (probe ++ .leafSucceeded run a 1 output .forward ::
        .nodeOutputRecorded run act.scope act.node output :: (owed ++ followed))
  | compensated {body run a act output probe item}
      (hreported : Reported s body run a act) (hrole : act.role = .compensation)
      (hprobe : AppliedProbe run a act probe) (hitem : compensatedBy s a = some item)
      (hrun : item.run = run) :
      Move env o s time body (probe ++ [.leafSucceeded run a 1 output .compensation])
  | retried {body run a act attempt code message} (hreported : Reported s body run a act)
      (hretryable : Retryable s a act code) :
      Move env o s time body [.leafFailed run a attempt code message true, .claimCleared a]
  | blocked {body run a act attempt code message item}
      (hreported : Reported s body run a act) (hrole : act.role = .compensation)
      (hitem : compensatedBy s a = some item) :
      Move env o s time body [.leafFailed run a attempt code message false,
        .obligationBlocked run item.forward item.handler item.handlerVersion s!"{code}: {message}"]
  | lost {body run a act attempt code message} (hreported : Reported s body run a act)
      (hrole : act.role = .compensation) (hitem : compensatedBy s a = none) :
      Move env o s time body [.leafFailed run a attempt code message false]
  | erred {body run a act attempt code message failed}
      (hreported : Reported s body run a act) (hrole : act.role ≠ .compensation)
      (hfailing : Failing o s act.scope { code, message } failed) :
      Move env o s time body (.leafFailed run a attempt code message false :: failed)
  | notApplied {body run a act probes settled}
      (hreported : Reported s body run a act) (hprobed : Probed act .notApplied probes)
      (hsettled : (runIsAborting o s run = false ∧ settled = []) ∨
        (runIsAborting o s run = true ∧ ∃ attempt code message,
          settled = [.leafFailed run a attempt code message false])) :
      Move env o s time body
        (.reconciliationRecorded run a .notApplied none probes :: .claimCleared a :: settled)
  | unknown {body run a act probes failure escalated}
      (hreported : Reported s body run a act) (hprobed : Probed act .unknown probes)
      (hfailure : failure = [] ∨ ∃ code message,
        failure = [.reconciliationFailed run a code message])
      (hescalated : escalated = [] ∨ ∃ reason,
        escalated = [.interventionRequired run a reason, .claimCleared a])
      (hlast : reconciliationProbes ≤ probes ↔ escalated ≠ []) :
      Move env o s time body
        (failure ++ .reconciliationRecorded run a .unknown none probes :: escalated)
  | resolved {run forward input item}
      (hitem : s.obligations.find? (fun item => item.forward = forward) = some item)
      (hrun : item.run = run) (hblocked : item.status.isBlocked = true) :
      Move env o s time (.resolveBlocked run forward input)
        [.obligationRegistered run forward item.handler item.handlerVersion input]
  | signalled {run eventId signal key payload runState expiresMs reserved}
      (hrun : s.runs.lookup run = some runState) (hactive : runState.status.isActive = true)
      (hnew : s.inbox.find? (fun entry => entry.run = some run ∧ entry.eventId = eventId) = none)
      (hreserved : (pendingWait o s run signal key = none ∧ reserved = []) ∨
        ∃ wait, pendingWait o s run signal key = some wait ∧
          reserved = [.eventReserved wait.id eventId]) :
      Move env o s time (.signal run eventId signal key payload)
        (.eventAccepted run eventId signal key payload runState.nextSequence time expiresMs ::
          reserved)
  | satisfied {body run w wait act entry followed}
      (hsettling : Settling s body run w wait act)
      (hentry : reservedOrEligible s wait time = some entry)
      (hfollowed : Followed s act.scope act.node followed) :
      Move env o s time body (.waitSatisfied run w entry.eventId entry.payload ::
        .nodeOutputRecorded run act.scope act.node entry.payload :: followed)
  | timedOut {body run w wait act node next sc a}
      (hsettling : Settling s body run w wait act)
      (hdeadline : ∃ deadline, wait.deadlineMs = some deadline ∧ deadline ≤ time)
      (hentry : reservedOrEligible s wait time = none)
      (hnode : nodeOf s act.scope act.node = some node) (hnext : next ∈ node.successors)
      (hscope : s.scopes.lookup act.scope = some sc) :
      Move env o s time body
        [.waitTimedOut run w, .activationOpened sc.run act.scope a next]
  | advanced {run act node es ids ids'} (hadvancing : Advancing s run act node)
      (hprogress : progressNode env o s run time act node ids = .ok (some (es, ids')))
      (hmove : NodeMove o s run time act node es) :
      Move env o s time (.progress run) es
  | cancelled {run reason runState root es} (hrun : s.runs.lookup run = some runState)
      (hactive : runState.status.isActive = true) (hsagas : openSagas o s run = [])
      (hroot : rootScope? o s run = some root)
      (hfailing : Failing o s root.id { code := "run.cancelled", message := reason } es) :
      Move env o s time (.cancel run reason) es
  | cancelledSagas {run reason runState es ids} (hrun : s.runs.lookup run = some runState)
      (hactive : runState.status.isActive = true)
      (hes : cancelSagas env o s { code := "run.cancelled", message := reason }
        (openSagas o s run) ids = .ok es) :
      Move env o s time (.cancel run reason) (closePendingWaits o s run ++ es)
  | claimed {session capacity renewed grants} (hrenewed : ∀ e ∈ renewed, e.isOutside = true)
      (hgranted : Granted o s session time grants) :
      Move env o s time (.claim session capacity) (renewed ++ grants.events)
  | renewed {session a generation revision act claim} (hact : s.activations.lookup a = some act)
      (hclaim : act.claim = some claim) (hsession : claim.session = session)
      (hgeneration : claim.generation = generation) (hrevision : claim.revision = revision)
      (hlease : time < claim.leaseExpiryMs) (hdeadline : time < claim.attemptDeadlineMs) :
      Move env o s time (.renew session a generation revision)
        [.claimRenewed a session generation (satAdd revision 1) (satAdd time sessionLeaseMs)]
  | abandoned {run reason runState failed}
      (hrun : s.runs.lookup run = some runState)
      (hfailed : (runState.status.isActive = true → rootScope? o s run = none) ∧ failed = [] ∨
        ∃ root error, runState.status.isActive = true ∧ rootScope? o s run = some root ∧
          Failing o s root.id error failed) :
      Move env o s time (.abandonCompensation run reason)
        (.compensationAbandoned run reason
          ((s.obligations.filter fun item => item.run = run ∧ isUnresolved item).map (·.forward)) ::
          failed)
  | outside {body es} (houtside : ∀ e ∈ es, e.isOutside = true) :
      Move env o s time body es

end Graphrun
