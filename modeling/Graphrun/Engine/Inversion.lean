import Graphrun.Engine.Moves

/-!
# Every decision is a move

The inversion of `decide`, function by function: whatever a command produces is one of the
moves.
-/

namespace Graphrun

open Lib

variable {env : Env} {o : Enumeration} {s : Core} {time : Nat} {ids ids' : IdGen}
  {es : List DomainEvent} {output : Value} {session : WorkerSessionId} {generation revision : Nat}
  {state : State} {id : CommandId} {d : Decision}

/-! ## Reports -/

section Reports

variable {body : CommandBody} {run : RunId} {a : ActivationId} {act : ActivationState}

theorem reportSuccess_ok {p : List DomainEvent} (hreported : Reported s body run a act)
    (hprobe : AppliedProbe run a act p)
    (h : reportSuccess env o s run a output ids = .ok (es, ids')) :
    Move env o s time body (p ++ es) := by
  simp only [reportSuccess, bind_eq_ok, okOr_eq_ok] at h
  obtain ⟨found, hfound, h⟩ := h
  obtain rfl : found = act := Option.mem_unique hfound hreported.hact
  split at h
  · next hrole =>
    simp only [bind_eq_ok, pure_eq_ok, Prod.mk.injEq] at h
    obtain ⟨-, -, events, hevents, rfl, rfl⟩ := h
    simp only [decideCompensationResult, bind_eq_ok, okOr_eq_ok, refuseIf_eq_ok, pure_eq_ok,
      not_not] at hevents
    obtain ⟨item, hitem, -, hrun, rfl⟩ := hevents
    exact .compensated hreported hrole hprobe hitem hrun
  · next hrole =>
    simp only [bind_eq_ok] at h
    obtain ⟨-, -, owed, howed, h⟩ := h
    split at h
    · next habort =>
      simp only [pure_eq_ok, Prod.mk.injEq] at h
      obtain ⟨rfl, rfl⟩ := h
      have hmove : Move env o s time body (p ++ .leafSucceeded run a 1 output .forward ::
          .nodeOutputRecorded run found.scope found.node output :: (owed ++ [])) :=
        .accepted hreported hrole hprobe howed (.inl ⟨habort, rfl⟩)
      simpa using hmove
    · next habort =>
      simp only [bind_eq_ok, pure_eq_ok, Prod.mk.injEq, Prod.exists] at h
      obtain ⟨followed, ids₁, hf, rfl, rfl⟩ := h
      have hfollowed := followNext_ok hf
      have hmove : Move env o s time body (p ++ .leafSucceeded run a 1 output .forward ::
          .nodeOutputRecorded run found.scope found.node output :: (owed ++ followed)) :=
        .accepted hreported hrole hprobe howed (.inr ⟨Bool.eq_false_iff.mpr habort, hfollowed⟩)
      simpa using hmove

theorem decideReport_ok (h : decideReport env o s run a output time ids = .ok (es, ids')) :
    Move env o s time (.reportLeaf run a output) es := by
  simp only [decideReport, bind_eq_ok, okOr_eq_ok, refuseIf_eq_ok, not_not] at h
  obtain ⟨act, hact, -, hrun, -, hready, -, -, h⟩ := h
  exact reportSuccess_ok (p := []) ⟨rfl, hact, hrun, hready⟩ (.inl rfl) h

theorem decideReportError_ok {code message : String} (hbody : body.reported? = some (run, a))
    (h : decideReportError o s run a code message = .ok es) :
    Move env o s time body es := by
  simp only [decideReportError, bind_eq_ok, okOr_eq_ok, refuseIf_eq_ok, not_not] at h
  obtain ⟨act, hact, -, hrun, -, hready, h⟩ := h
  have hreported : Reported s body run a act := ⟨hbody, hact, hrun, hready⟩
  split at h
  · next hrole =>
    split at h
    · next hretryable =>
      simp only [pure_eq_ok] at h
      subst h
      exact .retried hreported (.inl ⟨hrole, hretryable⟩)
    · split at h
      · next item hitem =>
        simp only [pure_eq_ok] at h
        subst h
        exact .blocked hreported hrole hitem
      · next hitem =>
        simp only [pure_eq_ok] at h
        subst h
        exact .lost hreported hrole hitem
  · next hrole =>
    split at h
    · next hretryable =>
      simp only [pure_eq_ok] at h
      subst h
      exact .retried hreported (.inr ⟨hrole, hretryable⟩)
    · simp only [bind_eq_ok, pure_eq_ok] at h
      obtain ⟨failed, hfailed, rfl⟩ := h
      exact .erred hreported hrole (failScope_ok hfailed)

/-- An owner's message is about an activation that it holds a live claim on. -/
theorem validateClaimOwner_ok {claim : ClaimState}
    (h : validateClaimOwner s run a session generation revision time = .ok claim) :
    ∃ act, s.activations.lookup a = some act ∧ act.run = run ∧ act.status = .ready ∧
      act.claim = some claim ∧ claim.session = session ∧ claim.generation = generation ∧
      claim.revision = revision ∧ time < claim.leaseExpiryMs ∧
      time < claim.attemptDeadlineMs := by
  simp only [validateClaimOwner, bind_eq_ok, okOr_eq_ok, refuseIf_eq_ok, pure_eq_ok, not_or,
    not_not, ge_iff_le, not_le] at h
  obtain ⟨act, hact, -, ⟨hrun, hready⟩, found, hclaim, -, ⟨hsession, hgeneration, hrevision⟩,
    worker, -, -, ⟨-, hlease, hdeadline⟩, rfl⟩ := h
  exact ⟨act, hact, hrun, hready, hclaim, hsession, hgeneration, hrevision, hlease, hdeadline⟩

theorem decideReportAssigned_ok (hbody : body.reported? = some (run, a))
    (h : decideReportAssigned env o s run a output session generation revision time ids =
      .ok (es, ids')) : Move env o s time body es := by
  simp only [decideReportAssigned, bind_eq_ok, refuseIf_eq_ok] at h
  obtain ⟨claim, hclaim, -, -, h⟩ := h
  obtain ⟨act, hact, hrun, hready, -⟩ := validateClaimOwner_ok hclaim
  exact reportSuccess_ok (p := []) ⟨hbody, hact, hrun, hready⟩ (.inl rfl) h

theorem decideReportWorker_ok {digest : String} {result : WorkerResult}
    (h : decideReportWorker env o s run a session generation revision digest result time ids =
      .ok es) :
    Move env o s time (.reportWorker run a session generation revision digest result) es := by
  simp only [decideReportWorker, bind_eq_ok, okOr_eq_ok, refuseIf_eq_ok] at h
  obtain ⟨claim, -, -, -, found, -, ⟨key, input⟩, -, runState, -, capability, -, -, -, h⟩ := h
  cases result with
  | success output =>
    simp only [bind_eq_ok, pure_eq_ok, Prod.exists] at h
    obtain ⟨events, ids₁, h, rfl⟩ := h
    exact decideReportAssigned_ok rfl h
  | error code message =>
    simp only [bind_eq_ok] at h
    obtain ⟨-, -, contract, -, -, -, h⟩ := h
    exact decideReportError_ok rfl h

/-- What a probe of an activation records. -/
theorem decideReconcile_ok {outcome : ReconcileOutcome} {output : Option Value}
    {f : List DomainEvent} (hbody : body.reported? = some (run, a)) (hfailure : f = [] ∨
      (outcome = .unknown ∧ ∃ code message, f = [.reconciliationFailed run a code message]))
    (h : decideReconcile env o s run a session generation revision outcome output time ids =
      .ok (es, ids')) : Move env o s time body (f ++ es) := by
  simp only [decideReconcile, bind_eq_ok, okOr_eq_ok, refuseIf_eq_ok, not_not] at h
  obtain ⟨act, hact, -, hrun, -, hready, claim, hclaim, -, hrole, -, houtput, h⟩ := h
  have hreported : Reported s body run a act := ⟨hbody, hact, hrun, hready⟩
  obtain ⟨found, hfound, -, -, hclaim, -⟩ := validateClaimOwner_ok hclaim
  obtain rfl : found = act := Option.mem_unique hfound hact
  have hprobed (hfirst : outcome = .unknown → claim.unknownReported = false) :
      Probed found outcome (min (claim.probes + 1) (2 ^ 32 - 1)) :=
    ⟨claim, hclaim, hrole, rfl, hfirst⟩
  cases output with
  | some value =>
    obtain rfl : outcome = .applied := by simpa using houtput
    obtain rfl : f = [] := by
      rcases hfailure with hnil | ⟨hunknown, -⟩
      · exact hnil
      · cases hunknown
    simp only [bind_eq_ok, okOr_eq_ok, Option.some.injEq, pure_eq_ok, Prod.mk.injEq,
      Prod.exists] at h
    obtain ⟨-, -, -, -, _, rfl, reported, ids₁, hreport, rfl, rfl⟩ := h
    exact reportSuccess_ok (p := [_]) hreported (.inr ⟨_, _, hprobed (by simp), rfl⟩) hreport
  | none =>
    simp only [bind_eq_ok, refuseIf_eq_ok] at h
    obtain ⟨-, hfirst, h⟩ := h
    cases outcome with
    | applied => simp at houtput
    | notApplied =>
      obtain rfl : f = [] := by
        rcases hfailure with hnil | ⟨hunknown, -⟩
        · exact hnil
        · cases hunknown
      simp only [pure_eq_ok, Prod.mk.injEq] at h
      obtain ⟨rfl, rfl⟩ := h
      refine .notApplied hreported (hprobed (by simp)) ?_
      split
      · next habort => exact .inr ⟨habort, _, _, _, rfl⟩
      · next habort => exact .inl ⟨Bool.eq_false_iff.mpr habort, rfl⟩
    | unknown =>
      simp only [pure_eq_ok, Prod.mk.injEq] at h
      obtain ⟨rfl, rfl⟩ := h
      refine .unknown hreported (hprobed (by simpa using hfirst)) ?_ ?_ ?_
      · rcases hfailure with hnil | ⟨-, hfail⟩
        · exact .inl hnil
        · exact .inr hfail
      · split
        · exact .inr ⟨_, rfl⟩
        · exact .inl rfl
      · rw [ite_ne_right_iff]
        simp

theorem decideReconcileWorker_ok {digest : String} {result : WorkerProbe}
    (h : decideReconcileWorker env o s run a session generation revision digest result time ids =
      .ok es) :
    Move env o s time (.reconcileWorker run a session generation revision digest result)
      es := by
  simp only [decideReconcileWorker, bind_eq_ok, okOr_eq_ok, refuseIf_eq_ok] at h
  obtain ⟨claim, -, -, -, found, -, ⟨key, input⟩, -, runState, -, capability, -, -, -,
    ⟨outcome, output, failure⟩, hprobe, ⟨events, ids₁⟩, hevents, h⟩ := h
  cases result with
  | observed outcome' output' =>
    simp only [probeOutcome, pure_eq_ok, Prod.mk.injEq] at hprobe
    obtain ⟨rfl, rfl, rfl⟩ := hprobe
    simp only [pure_eq_ok] at h
    subst h
    exact decideReconcile_ok (f := []) rfl (.inl rfl) hevents
  | error code message =>
    simp only [probeOutcome, bind_eq_ok, refuseIf_eq_ok, pure_eq_ok, Prod.mk.injEq] at hprobe
    obtain ⟨-, -, rfl, rfl, rfl⟩ := hprobe
    simp only [pure_eq_ok] at h
    subst h
    exact decideReconcile_ok (f := [_]) rfl (.inr ⟨rfl, code, message, rfl⟩) hevents

end Reports

/-! ## Signals, timers and progress -/

section Waits

variable {run : RunId}

theorem decideSignal_ok {eventId : EventId} {signal key : String} {payload : Value}
    (h : decideSignal env o state run eventId signal key payload time = .ok es) :
    Move env o state.toCore time (.signal run eventId signal key payload) es := by
  simp only [decideSignal] at h
  split at h
  · split at h
    · simp only [bind_eq_ok, refuseIf_eq_ok, pure_eq_ok] at h
      obtain ⟨captured, -, -, -, rfl⟩ := h
      exact .outside (by simp)
    · simp at h
  · simp only [bind_eq_ok, okOr_eq_ok] at h
    obtain ⟨runState, hrun, h⟩ := h
    split at h
    · simp only [bind_eq_ok, refuseIf_eq_ok, pure_eq_ok] at h
      obtain ⟨-, -, rfl⟩ := h
      exact .outside (by simp)
    · next hnew =>
      simp only [bind_eq_ok, refuseIf_eq_ok, pure_eq_ok, Bool.not_eq_false] at h
      obtain ⟨-, hactive, -, -, -, -, -, -, rfl⟩ := h
      refine .signalled hrun hactive hnew ?_
      split
      · next wait hwait => exact .inr ⟨wait, hwait, rfl⟩
      · next hnone => exact .inl ⟨hnone, rfl⟩

theorem followTimeout_ok {act : ActivationState}
    (h : followTimeout env s act ids = .ok (es, ids')) :
    ∃ node next sc a, nodeOf s act.scope act.node = some node ∧ next ∈ node.successors ∧
      s.scopes.lookup act.scope = some sc ∧ es = [.activationOpened sc.run act.scope a next] := by
  simp only [followTimeout, bind_eq_ok, okOr_eq_ok] at h
  obtain ⟨region, hregion, node, hnode, h⟩ := h
  split at h
  · obtain ⟨sc, a, hsc, rfl⟩ := openNode_ok h
    exact ⟨_, _, sc, a, nodeOf_eq_some hregion hnode, by simp [Node.successors], hsc, rfl⟩
  · simp at h

theorem decideTimer_ok {body : CommandBody} {w : WaitId}
    (hbody : body = .progress run ∨ body = .resolveTimer run w)
    (h : decideTimer env s run w time ids = .ok (es, ids')) :
    Move env o s time body es := by
  simp only [decideTimer, bind_eq_ok, okOr_eq_ok, refuseIf_eq_ok, not_or, not_not,
    Bool.not_eq_false, not_lt] at h
  obtain ⟨wait, hwait, -, ⟨hrun, hpending⟩, deadline, hdeadline, -, hdue, h⟩ := h
  split at h
  · next entry hentry =>
    simp only [bind_eq_ok, okOr_eq_ok] at h
    obtain ⟨act, hact, h⟩ := h
    obtain ⟨followed, hfollowed, rfl⟩ := satisfyWait_ok h
    exact .satisfied ⟨hbody, hwait, hrun, hpending, hact⟩ hentry hfollowed
  · next hentry =>
    simp only [bind_eq_ok, okOr_eq_ok, pure_eq_ok, Prod.mk.injEq, Prod.exists] at h
    obtain ⟨act, hact, followed, ids₁, hf, rfl, rfl⟩ := h
    obtain ⟨node, next, sc, a, hnode, hnext, hsc, rfl⟩ := followTimeout_ok hf
    exact .timedOut ⟨hbody, hwait, hrun, hpending, hact⟩ ⟨deadline, hdeadline, hdue⟩ hentry hnode
      hnext hsc

theorem firstDue_eq_some {wait : WaitState} (keyed : Keyed s)
    (h : firstDue o s run time = some wait) :
    s.waits.lookup wait.id = some wait ∧ wait.run = run ∧ isDue s time wait = true := by
  have hmem := (List.perm_insertionSort _ _).mem_iff.mp (List.mem_of_mem_head? h)
  simp only [List.mem_filter, Enumeration.mem_values, Bool.decide_and, Bool.and_eq_true,
    decide_eq_true_eq] at hmem
  obtain ⟨⟨k, hk⟩, hrun, hdue⟩ := hmem
  rw [keyed.waits k wait hk]
  exact ⟨hk, hrun, by simpa using hdue⟩

theorem timerNext_mem_successors {node : Node} {next : NodeKey}
    (h : node.timerNext? = some next) : next ∈ node.successors := by
  cases node <;> simp_all [Node.timerNext?, Node.successors]

theorem dueWait_ok (keyed : Keyed s)
    (h : dueWait env o s run time ids = .ok (some (es, ids'))) :
    Move env o s time (.progress run) es := by
  simp only [dueWait] at h
  split at h
  · simp at h
  · next wait hfirst =>
    obtain ⟨hwait, hrun, hdue⟩ := firstDue_eq_some keyed hfirst
    simp only [isDue, decide_eq_true_eq] at hdue
    obtain ⟨hpending, hdue⟩ := hdue
    split at h
    · next entry hentry =>
      simp only [bind_eq_ok, okOr_eq_ok] at h
      obtain ⟨act, hact, h⟩ := h
      obtain ⟨emission, hsat, hemission⟩ := map_some_ok h
      subst hemission
      obtain ⟨followed, hfollowed, rfl⟩ := satisfyWait_ok hsat
      exact .satisfied ⟨.inl rfl, hwait, hrun, hpending, hact⟩ hentry hfollowed
    · next hentry =>
      -- Without an entry the wait is due because its deadline has passed.
      have hdeadline : ∃ deadline, wait.deadlineMs = some deadline ∧ deadline ≤ time := by
        simpa [hentry, Option.any_eq_true] using hdue
      simp only [bind_eq_ok, okOr_eq_ok] at h
      obtain ⟨act, hact, h⟩ := h
      split at h
      · simp only [bind_eq_ok, okOr_eq_ok, pure_eq_ok, Option.some.injEq, Prod.mk.injEq,
          Prod.exists] at h
        obtain ⟨region, hregion, next, hnext, followed, ids₁, hopen, rfl, rfl⟩ := h
        obtain ⟨node, hnode, htimer⟩ := Option.bind_eq_some_iff.mp hnext
        obtain ⟨sc, a, hsc, rfl⟩ := openNode_ok hopen
        exact .timedOut ⟨.inl rfl, hwait, hrun, hpending, hact⟩ hdeadline hentry
          (nodeOf_eq_some hregion hnode) (timerNext_mem_successors htimer) hsc
      · obtain ⟨emission, htimer, hemission⟩ := map_some_ok h
        subst hemission
        exact decideTimer_ok (.inl rfl) htimer

theorem progressFirst_ok (keyed : Keyed s)
    (hactive : ∃ runState, s.runs.lookup run = some runState ∧ runState.status.isActive = true) :
    ∀ {acts : List ActivationState}, (∀ act ∈ acts, act ∈ openForwards o s run) →
      progressFirst env o s run time ids acts = .ok (some (es, ids')) →
        Move env o s time (.progress run) es
  | [], _, h => by simp [progressFirst] at h
  | act :: rest, hacts, h => by
    simp only [progressFirst, bind_eq_ok, okOr_eq_ok] at h
    obtain ⟨region, hregion, node, hnode, emission, hemission, h⟩ := h
    split at h
    · next found =>
      simp only [pure_eq_ok, Option.some.injEq] at h
      subst h
      have hmove := progressNode_ok hemission
      have hmem := hacts act List.mem_cons_self
      simp only [openForwards, List.mem_filter, Enumeration.mem_values,
        decide_eq_true_eq] at hmem
      obtain ⟨⟨k, hk⟩, hrun, hrole, hopen⟩ := hmem
      refine .advanced ⟨hactive, ?_, hrun, hrole, hopen, nodeOf_eq_some hregion hnode⟩ hemission
        hmove
      rw [keyed.activations k act hk]
      exact hk
    · exact progressFirst_ok keyed hactive
        (fun other hother => hacts other (List.mem_cons_of_mem _ hother)) h

theorem nextProgress_ok (keyed : Keyed s)
    (h : nextProgress env o s run time ids = .ok (some (es, ids'))) :
    Move env o s time (.progress run) es := by
  simp only [nextProgress] at h
  split at h
  · simp at h
  · next runState hrun =>
    split at h
    · next hactive =>
      simp only [bind_eq_ok] at h
      obtain ⟨due, hdue, h⟩ := h
      split at h
      · next found =>
        simp only [pure_eq_ok, Option.some.injEq] at h
        subst h
        exact dueWait_ok keyed hdue
      · exact progressFirst_ok keyed ⟨runState, hrun, hactive⟩ (fun _ hact => hact) h
    · simp at h

end Waits

/-! ## Operators and sessions -/

theorem decideCancel_ok {run : RunId} {reason : String}
    (h : decideCancel env o s run reason ids = .ok es) :
    Move env o s time (.cancel run reason) es := by
  simp only [decideCancel, bind_eq_ok, okOr_eq_ok, refuseIf_eq_ok, Bool.not_eq_false] at h
  obtain ⟨runState, hrun, -, hactive, h⟩ := h
  split at h
  · next hsagas =>
    simp only [bind_eq_ok, okOr_eq_ok] at h
    obtain ⟨root, hroot, h⟩ := h
    exact .cancelled hrun hactive hsagas hroot (failScope_ok h)
  · simp only [bind_eq_ok, pure_eq_ok] at h
    obtain ⟨cancelled, hcancelled, rfl⟩ := h
    exact .cancelledSagas hrun hactive hcancelled

theorem decideClaim_ok {capacity : Nat} (keyed : Keyed s)
    (h : decideClaim env o s session capacity time = .ok es) :
    Move env o s time (.claim session capacity) es := by
  simp only [decideClaim, bind_eq_ok, okOr_eq_ok, refuseIf_eq_ok] at h
  obtain ⟨worker, -, -, -, h⟩ := h
  have houtside : ∀ e ∈ (if worker.principalId = "" then
      [DomainEvent.sessionRegistered session worker.activities worker.capacity
        (satAdd time sessionLeaseMs)] else []), e.isOutside = true := by
    split <;> simp [DomainEvent.isOutside]
  split at h
  · simp only [pure_eq_ok] at h
    subst h
    exact .outside houtside
  · simp only [bind_eq_ok, pure_eq_ok] at h
    obtain ⟨grants, hgrants, rfl⟩ := h
    exact .claimed houtside (grantRounds_ok keyed hgrants (granted_nil o s session time))

theorem decideRenew_ok {a : ActivationId}
    (h : decideRenew s session a generation revision time = .ok es) :
    Move env o s time (.renew session a generation revision) es := by
  simp only [decideRenew, bind_eq_ok, okOr_eq_ok, refuseIf_eq_ok, pure_eq_ok, not_or, not_not,
    ge_iff_le, not_le] at h
  obtain ⟨worker, -, -, -, act, hact, claim, hclaim, -, ⟨hsession, hgeneration⟩, -, hrevision, -,
    ⟨hlease, hdeadline⟩, rfl⟩ := h
  exact .renewed hact hclaim hsession hgeneration hrevision hlease hdeadline

theorem decideAbandonCompensation_ok {run : RunId} {reason : String}
    (h : decideAbandonCompensation o s run reason = .ok es) :
    Move env o s time (.abandonCompensation run reason) es := by
  simp only [decideAbandonCompensation, bind_eq_ok, okOr_eq_ok, refuseIf_eq_ok] at h
  obtain ⟨-, -, runState, hrun, h⟩ := h
  split at h
  · simp only [pure_eq_ok] at h
    subst h
    exact .outside (by simp)
  · simp only [bind_eq_ok, refuseIf_eq_ok] at h
    obtain ⟨-, -, h⟩ := h
    split at h
    · next hroot =>
      simp only [pure_eq_ok] at h
      subst h
      refine .abandoned hrun (.inl ⟨fun hactive => ?_, rfl⟩)
      simpa [hactive] using hroot
    · next root hroot =>
      simp only [bind_eq_ok, pure_eq_ok] at h
      obtain ⟨failed, hfailed, rfl⟩ := h
      split at hroot
      · next hactive =>
        exact .abandoned hrun (.inr ⟨root, _, hactive, hroot, failScope_ok hfailed⟩)
      · cases hroot

/-! ## The decision of a command -/

theorem map_single_ok {x : Result (List DomainEvent)} (h : single id <$> x = .ok d) :
    ∃ es, x = .ok es ∧ d = single id es := by
  cases x with
  | error fault => cases h
  | ok es => exact ⟨es, rfl, (Except.ok.inj h).symm⟩

/-- Any command but `Progress` produces one portion, and that portion is a move. -/
theorem decideBody_ok {body : CommandBody} (keyed : Keyed state.toCore)
    (hbody : ∀ run, body ≠ .progress run) (h : decideBody env o state id time body = .ok d) :
    ∃ es, d = single id es ∧ Move env o state.toCore time body es := by
  cases body with
  | prepareWriterFormat | activateWriterFormat | authenticated | publication | pruneHistory =>
    simp [decideBody] at h
  | progress run => exact absurd rfl (hbody run)
  | start run definition input catalog =>
    simp only [decideBody, bind_eq_ok, pure_eq_ok] at h
    obtain ⟨-, -, rfl⟩ := h
    exact ⟨_, rfl, .started⟩
  | reportLeaf run a output =>
    simp only [decideBody, bind_eq_ok, pure_eq_ok, Prod.exists] at h
    obtain ⟨es, ids', h, rfl⟩ := h
    exact ⟨es, rfl, decideReport_ok h⟩
  | reportError run a code message =>
    obtain ⟨es, hes, rfl⟩ := map_single_ok h
    exact ⟨es, rfl, decideReportError_ok rfl hes⟩
  | resolveBlocked run forward input =>
    obtain ⟨es, hes, rfl⟩ := map_single_ok h
    simp only [decideResolveBlocked, bind_eq_ok, okOr_eq_ok, refuseIf_eq_ok, pure_eq_ok, not_not,
      Bool.not_eq_false] at hes
    obtain ⟨item, hitem, -, hrun, -, hblocked, rfl⟩ := hes
    exact ⟨_, rfl, .resolved hitem hrun hblocked⟩
  | signal run eventId signal key payload =>
    obtain ⟨es, hes, rfl⟩ := map_single_ok h
    exact ⟨es, rfl, decideSignal_ok hes⟩
  | resolveTimer run w =>
    simp only [decideBody, bind_eq_ok, pure_eq_ok, Prod.exists] at h
    obtain ⟨es, ids', h, rfl⟩ := h
    exact ⟨es, rfl, decideTimer_ok (.inr rfl) h⟩
  | cancel run reason =>
    obtain ⟨es, hes, rfl⟩ := map_single_ok h
    exact ⟨es, rfl, decideCancel_ok hes⟩
  | registerSession session activities capacity =>
    obtain ⟨es, hes, rfl⟩ := map_single_ok h
    refine ⟨es, rfl, .outside ?_⟩
    simp only [decideRegister, bind_eq_ok, refuseIf_eq_ok] at hes
    obtain ⟨-, -, hes⟩ := hes
    split at hes <;> simp only [pure_eq_ok] at hes <;> subst hes <;> simp [DomainEvent.isOutside]
  | renewLocalSession session =>
    obtain ⟨es, hes, rfl⟩ := map_single_ok h
    simp only [decideRenewLocalSession, bind_eq_ok, okOr_eq_ok, refuseIf_eq_ok, pure_eq_ok] at hes
    obtain ⟨worker, -, -, -, rfl⟩ := hes
    exact ⟨_, rfl, .outside (by simp [DomainEvent.isOutside])⟩
  | registerWorker session principalId capabilities capacity protocolMin protocolMax =>
    obtain ⟨es, hes, rfl⟩ := map_single_ok h
    simp only [decideRegisterWorker, bind_eq_ok, refuseIf_eq_ok, pure_eq_ok] at hes
    obtain ⟨-, -, -, -, -, -, rfl⟩ := hes
    exact ⟨_, rfl, .outside (by simp [DomainEvent.isOutside])⟩
  | renewWorkerSession session revision =>
    obtain ⟨es, hes, rfl⟩ := map_single_ok h
    simp only [decideRenewWorkerSession, bind_eq_ok, okOr_eq_ok, refuseIf_eq_ok, pure_eq_ok] at hes
    obtain ⟨worker, -, -, -, rfl⟩ := hes
    exact ⟨_, rfl, .outside (by simp [DomainEvent.isOutside])⟩
  | claim session capacity =>
    simp only [decideBody] at h
    split at h
    · simp only [pure_eq_ok] at h
      exact ⟨[], h.symm, .outside (by simp)⟩
    · obtain ⟨es, hes, rfl⟩ := map_single_ok h
      exact ⟨es, rfl, decideClaim_ok keyed hes⟩
  | renew session a generation revision =>
    obtain ⟨es, hes, rfl⟩ := map_single_ok h
    exact ⟨es, rfl, decideRenew_ok hes⟩
  | reportAssigned run a output session generation revision =>
    simp only [decideBody, bind_eq_ok, pure_eq_ok, Prod.exists] at h
    obtain ⟨es, ids', h, rfl⟩ := h
    exact ⟨es, rfl, decideReportAssigned_ok rfl h⟩
  | reportWorker run a session generation revision digest result =>
    obtain ⟨es, hes, rfl⟩ := map_single_ok h
    exact ⟨es, rfl, decideReportWorker_ok hes⟩
  | reconcile run a session generation revision outcome output =>
    simp only [decideBody, bind_eq_ok, pure_eq_ok, Prod.exists] at h
    obtain ⟨es, ids', h, rfl⟩ := h
    exact ⟨es, rfl, decideReconcile_ok (f := []) rfl (.inl rfl) h⟩
  | reconcileWorker run a session generation revision digest result =>
    obtain ⟨es, hes, rfl⟩ := map_single_ok h
    exact ⟨es, rfl, decideReconcileWorker_ok hes⟩
  | acknowledgeRecovery reason =>
    obtain ⟨es, hes, rfl⟩ := map_single_ok h
    refine ⟨es, rfl, .outside ?_⟩
    simp only [decideAcknowledgeRecovery, bind_eq_ok, okOr_eq_ok] at hes
    obtain ⟨hold, -, hes⟩ := hes
    split at hes
    · simp only [pure_eq_ok] at hes
      subst hes
      simp
    · simp only [bind_eq_ok, pure_eq_ok] at hes
      obtain ⟨-, -, rfl⟩ := hes
      simp [DomainEvent.isOutside]
  | abandonCompensation run reason =>
    obtain ⟨es, hes, rfl⟩ := map_single_ok h
    exact ⟨es, rfl, decideAbandonCompensation_ok hes⟩

/-! ## Who may speak for an activation -/

/-- What the owner of a claim presents with a message. -/
structure ClaimToken where
  activation : ActivationId
  session : WorkerSessionId
  generation : Nat
  revision : Nat
deriving DecidableEq, Repr

def CommandBody.presents? : CommandBody → Option ClaimToken
  | .renew session activation generation revision
  | .reportAssigned _ activation _ session generation revision
  | .reportWorker _ activation session generation revision _ _
  | .reconcile _ activation session generation revision _ _
  | .reconcileWorker _ activation session generation revision _ _ =>
    some { activation, session, generation, revision }
  | _ => none

/-- The token of a claim on an activation. -/
def ClaimState.token (claim : ClaimState) (activation : ActivationId) : ClaimToken where
  activation := activation
  session := claim.session
  generation := claim.generation
  revision := claim.revision

/-- A command that may speak for the activation it is about: whoever presents a token holds the
live claim, and whoever reports a bare result finds no live claim. -/
structure Authorized (s : Core) (time : Nat) (body : CommandBody) : Prop where
  owner : ∀ token, body.presents? = some token → ∃ act claim,
    s.activations.lookup token.activation = some act ∧ act.claim = some claim ∧
      claim.token token.activation = token ∧ time < claim.leaseExpiryMs
  bare : ∀ run a output, body = .reportLeaf run a output → ∃ act,
    s.activations.lookup a = some act ∧ unclaimedAt act time = true

theorem Authorized.of_unreported {body : CommandBody} (hreport : body.reported? = none)
    (htoken : body.presents? = none) : Authorized s time body where
  owner token h := by
    rw [htoken] at h
    cases h
  bare run a output h := by
    rw [h] at hreport
    cases hreport

theorem authorized_of_validateClaimOwner {body : CommandBody} {run : RunId} {token : ClaimToken}
    {claim : ClaimState} (hbody : body.presents? = some token)
    (h : validateClaimOwner s run token.activation token.session token.generation token.revision
      time = .ok claim) : Authorized s time body where
  owner other hother := by
    obtain rfl : token = other := Option.mem_unique hbody hother
    obtain ⟨act, hact, -, -, hclaim, hsession, hgeneration, hrevision, hlease, -⟩ :=
      validateClaimOwner_ok h
    exact ⟨act, claim, hact, hclaim, by simp [ClaimState.token, hsession, hgeneration, hrevision],
      hlease⟩
  bare run a output hreport := by
    rw [hreport] at hbody
    cases hbody

/-- A decided command may speak for its activation. -/
theorem decideBody_authorized {body : CommandBody}
    (h : decideBody env o state id time body = .ok d) : Authorized state.toCore time body := by
  cases body with
  | reportLeaf run a output =>
    simp only [decideBody, decideReport, bind_eq_ok, okOr_eq_ok, refuseIf_eq_ok,
      Bool.not_eq_true] at h
    obtain ⟨-, ⟨act, hact, -, -, -, -, -, hfree, -⟩, -⟩ := h
    refine ⟨fun token htoken => (by cases htoken), fun run' a' output' hbody => ?_⟩
    cases hbody
    refine ⟨act, hact, ?_⟩
    cases hclaim : act.claim <;> simp_all [unclaimedAt]
  | renew session a generation revision =>
    obtain ⟨es, hes, -⟩ := map_single_ok h
    simp only [decideRenew, bind_eq_ok, okOr_eq_ok, refuseIf_eq_ok, not_or, not_not, ge_iff_le,
      not_le] at hes
    obtain ⟨worker, -, -, -, act, hact, claim, hclaim, -, ⟨hsession, hgeneration⟩, -, hrevision,
      -, ⟨hlease, -⟩, -⟩ := hes
    refine ⟨fun token htoken => ?_, fun run' a' output' hbody => (by cases hbody)⟩
    cases htoken
    exact ⟨act, claim, hact, hclaim, by simp [ClaimState.token, hsession, hgeneration, hrevision],
      hlease⟩
  | reportAssigned run a output session generation revision =>
    simp only [decideBody, decideReportAssigned, bind_eq_ok] at h
    obtain ⟨-, ⟨claim, hclaim, -⟩, -⟩ := h
    exact authorized_of_validateClaimOwner rfl hclaim
  | reportWorker run a session generation revision digest result =>
    obtain ⟨es, hes, -⟩ := map_single_ok h
    obtain ⟨claim, hclaim, -⟩ := bind_eq_ok.mp hes
    exact authorized_of_validateClaimOwner rfl hclaim
  | reconcile run a session generation revision outcome output =>
    simp only [decideBody, decideReconcile, bind_eq_ok] at h
    obtain ⟨-, ⟨act, -, -, -, -, -, claim, hclaim, -⟩, -⟩ := h
    exact authorized_of_validateClaimOwner rfl hclaim
  | reconcileWorker run a session generation revision digest result =>
    obtain ⟨es, hes, -⟩ := map_single_ok h
    obtain ⟨claim, hclaim, -⟩ := bind_eq_ok.mp hes
    exact authorized_of_validateClaimOwner rfl hclaim
  | _ =>
    refine ⟨fun token htoken => ?_, fun run' a' output' hbody => ?_⟩
    · cases htoken
    · cases hbody

end Graphrun
