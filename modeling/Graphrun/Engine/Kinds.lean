import Graphrun.Engine.Contents

/-!
# The kinds of events that a command records

For every command the list of kinds of events that it can record, next to the events that
concern no run. An argument about a kind of events has to look at the commands that have the
kind on their list, and at no others.
-/

namespace Graphrun

open Lib

variable {env : Env} {o : Enumeration} {s : Core} {time : Nat} {ids : IdGen}
  {body : CommandBody} {es : List DomainEvent} {run : RunId} {act : ActivationState} {node : Node}

inductive EventKind where
  | runAdmitted | scopeOpened | scopeCompleted | scopeFailed | activationOpened
  | nodeOutputRecorded | guardRecorded | leafSucceeded | leafFailed | waitOpened | waitSatisfied
  | waitTimedOut | waitCancelled | eventAccepted | eventReserved | eventExpired
  | reservationReleased | obligationRegistered | obligationBlocked | compensationStarted
  | obligationTransferred | obligationReleased | claimGranted | claimRenewed | claimCleared
  | reconciliationRecorded | reconciliationFailed | interventionRequired | runSucceeded
  | runFailed | abortIntent | compensationAbandoned | outside
deriving DecidableEq, Repr

@[simp] def DomainEvent.kind : DomainEvent → EventKind
  | .runAdmitted .. => .runAdmitted
  | .scopeOpened .. => .scopeOpened
  | .scopeCompleted .. => .scopeCompleted
  | .scopeFailed .. => .scopeFailed
  | .activationOpened .. => .activationOpened
  | .nodeOutputRecorded .. => .nodeOutputRecorded
  | .guardRecorded .. => .guardRecorded
  | .leafSucceeded .. => .leafSucceeded
  | .leafFailed .. => .leafFailed
  | .waitOpened .. => .waitOpened
  | .waitSatisfied .. => .waitSatisfied
  | .waitTimedOut .. => .waitTimedOut
  | .waitCancelled .. => .waitCancelled
  | .eventAccepted .. => .eventAccepted
  | .eventReserved .. => .eventReserved
  | .eventExpired .. => .eventExpired
  | .reservationReleased .. => .reservationReleased
  | .obligationRegistered .. => .obligationRegistered
  | .obligationBlocked .. => .obligationBlocked
  | .compensationStarted .. => .compensationStarted
  | .obligationTransferred .. => .obligationTransferred
  | .obligationReleased .. => .obligationReleased
  | .claimGranted .. => .claimGranted
  | .claimRenewed .. => .claimRenewed
  | .claimCleared .. => .claimCleared
  | .reconciliationRecorded .. => .reconciliationRecorded
  | .reconciliationFailed .. => .reconciliationFailed
  | .interventionRequired .. => .interventionRequired
  | .runSucceeded .. => .runSucceeded
  | .runFailed .. => .runFailed
  | .abortIntent .. => .abortIntent
  | .compensationAbandoned .. => .compensationAbandoned
  | .sessionRegistered .. | .workerRegistered .. | .workerSessionRenewed ..
  | .recoveryAuthorized _ => .outside

/-- What ends a scope early. -/
@[simp] def failureKinds : List EventKind :=
  [.scopeFailed, .runFailed, .reservationReleased, .waitCancelled]

/-- What aborts a saga. -/
@[simp] def abortKinds : List EventKind :=
  .interventionRequired :: .abortIntent :: .compensationStarted :: failureKinds

/-- What a report about an activation can record. -/
@[simp] def reportKinds : List EventKind :=
  [.reconciliationRecorded, .reconciliationFailed, .leafSucceeded, .leafFailed,
    .nodeOutputRecorded, .obligationRegistered, .obligationBlocked, .activationOpened,
    .claimCleared, .interventionRequired] ++ failureKinds

/-- What a node that waits for nothing can record. -/
@[simp] def advanceKinds : List EventKind :=
  [.activationOpened, .scopeOpened, .scopeCompleted, .runSucceeded, .nodeOutputRecorded,
    .guardRecorded, .obligationTransferred, .obligationReleased] ++ abortKinds

/-- What a step of a run can record. -/
@[simp] def progressKinds : List EventKind :=
  .waitOpened :: .waitSatisfied :: .waitTimedOut :: advanceKinds

@[simp] def CommandBody.kinds : CommandBody → List EventKind
  | .start .. => [.outside, .runAdmitted, .scopeOpened, .activationOpened]
  | .reportLeaf .. | .reportError .. | .reportAssigned .. | .reportWorker .. | .reconcile ..
  | .reconcileWorker .. => .outside :: reportKinds
  | .resolveBlocked .. => [.outside, .obligationRegistered]
  | .signal .. => [.outside, .eventAccepted, .eventReserved]
  | .resolveTimer .. =>
    [.outside, .waitSatisfied, .waitTimedOut, .nodeOutputRecorded, .activationOpened]
  | .progress _ => .outside :: progressKinds
  | .cancel .. => .outside :: abortKinds
  | .claim .. => [.outside, .claimGranted]
  | .renew .. => [.outside, .claimRenewed]
  | .abandonCompensation .. => .outside :: .compensationAbandoned :: failureKinds
  | _ => [.outside]

theorem CommandBody.outside_mem_kinds (body : CommandBody) : .outside ∈ body.kinds := by
  cases body <;> simp

theorem kind_of_isOutside {e : DomainEvent} (h : e.isOutside = true) : e.kind = .outside := by
  cases e <;> first | rfl | cases h

theorem kinds_of_reported? {a : ActivationId} (h : body.reported? = some (run, a)) :
    body.kinds = .outside :: reportKinds := by
  cases body <;> first | rfl | cases h

section Producers

variable {L : List EventKind}

theorem Failing.kinds {scope : ScopeId} {error : FailError} (h : Failing o s scope error es)
    (hkinds : failureKinds ⊆ L) : ∀ e ∈ es, e.kind ∈ L := by
  apply h.all (P := fun e => e.kind ∈ L) <;> intros <;> exact hkinds (by simp)

theorem FailingAll.kinds {reason : FailError} {scopes : List ScopeState}
    (h : FailingAll o s reason scopes es) : ∀ e ∈ es, e.kind ∈ failureKinds := by
  induction h with
  | nil => exact List.forall_mem_nil _
  | cons first _ ih =>
    exact List.forall_mem_append.mpr ⟨first.kinds (List.Subset.refl failureKinds), ih⟩

theorem kinds_cancelled {reason error : FailError} {scopes : List ScopeState} {scope : ScopeId}
    {own : List DomainEvent} {p : Prop} (h : FailingAll o s reason scopes es)
    (hown : own = [] ∨ (p ∧ Failing o s scope error own)) :
    ∀ e ∈ es ++ own, e.kind ∈ failureKinds := by
  refine List.forall_mem_append.mpr ⟨h.kinds, ?_⟩
  rcases hown with rfl | ⟨-, hfailing⟩
  · exact List.forall_mem_nil _
  · exact hfailing.kinds (List.Subset.refl failureKinds)

theorem Aborting.kinds {saga : ActivationId} {error : FailError}
    (h : Aborting o s saga error es) (hkinds : abortKinds ⊆ L) : ∀ e ∈ es, e.kind ∈ L := by
  apply h.all (P := fun e => e.kind ∈ L) <;> intros <;> exact hkinds (by simp)

/-- A node that waits opens its wait, and may find its event at once. -/
inductive Waiting (s : Core) (run : RunId) (time : Nat) (act : ActivationState) :
    Node → List DomainEvent → Prop
  | opened {node : Node} {own : RunId} {w : WaitId} {signal key : String}
      {deadlineMs : Option Nat} {consumeFrom : ConsumeFrom} (hown : own = run ∨ own = act.run) :
      Waiting s run time act node
        [.waitOpened own w act.id signal key deadlineMs consumeFrom]
  | taken {signal key timeoutMs consumeFrom next onTimeout} {text : String} {w : WaitId}
      {runState : RunState} {entry : InboxEntry} {followed : List DomainEvent}
      (hkey : WaitsFor s act key text)
      (hrun : s.runs.lookup act.run = some runState)
      (hentry : reservedOrEligible s (openedWait runState act w signal text
        (timeoutMs.map (satAdd time ·)) consumeFrom) time = some entry)
      (hfollowed : Followed s act.scope act.node followed) :
      Waiting s run time act (.waitSignal signal key timeoutMs consumeFrom next onTimeout)
        (.waitOpened act.run w act.id signal text (timeoutMs.map (satAdd time ·)) consumeFrom ::
          .waitSatisfied act.run w entry.eventId entry.payload ::
          .nodeOutputRecorded act.run act.scope act.node entry.payload :: followed)

theorem Followed.kinds {scope : ScopeId} {node : NodeKey} (h : Followed s scope node es)
    (hkinds : .activationOpened ∈ L) : ∀ e ∈ es, e.kind ∈ L := by
  apply h.all (P := fun e => e.kind ∈ L)
  intros
  exact hkinds

section Outputs

variable {scope : ScopeId} {key : NodeKey} {value : Value} {followed guards : List DomainEvent}

theorem kinds_output (h : Followed s scope key followed) :
    ∀ e ∈ .nodeOutputRecorded run scope key value :: followed,
      e.kind ∈ [EventKind.nodeOutputRecorded, .activationOpened] :=
  List.forall_mem_cons.mpr ⟨by simp, h.kinds (by simp)⟩

theorem Guards.kinds (h : Guards o s act node guards) (hkinds : .guardRecorded ∈ L) :
    ∀ e ∈ guards, e.kind ∈ L := by
  apply h.all (P := fun e => e.kind ∈ L)
  intros
  exact hkinds

theorem kinds_finished (hguards : Guards o s act node guards) (h : Followed s scope key followed) :
    ∀ e ∈ guards ++ .nodeOutputRecorded run scope key value :: followed,
      e.kind ∈ [EventKind.guardRecorded, .nodeOutputRecorded, .activationOpened] :=
  List.forall_mem_append.mpr ⟨hguards.kinds (by simp),
    fun e he => List.mem_cons_of_mem _ (kinds_output h e he)⟩

theorem kinds_settled {saga : ActivationId} (h : Followed s scope key followed) :
    ∀ e ∈ settleSagaSuccess s saga ++ .nodeOutputRecorded run scope key value :: followed,
      e.kind ∈ [EventKind.obligationTransferred, .obligationReleased, .nodeOutputRecorded,
        .activationOpened] := by
  refine List.forall_mem_append.mpr ⟨?_, fun e he => List.mem_cons_of_mem _
    (List.mem_cons_of_mem _ (kinds_output h e he))⟩
  apply settleSagaSuccess_all (P := fun e => e.kind ∈ _) <;> intros <;> simp

theorem kinds_completed {sc : ScopeState} :
    ∀ e ∈ completeScope sc value, e.kind ∈ [EventKind.scopeCompleted, .runSucceeded] := by
  apply completeScope_all (P := fun e => e.kind ∈ _) <;> simp

theorem kinds_childOpened {k : ScopeId} {parent : Option ActivationId} {role : ScopeRole}
    {a : ActivationId} (hguards : Guards o s act node guards) :
    ∀ e ∈ guards ++ [.scopeOpened run k parent role value, .activationOpened run k a key],
      e.kind ∈ [EventKind.guardRecorded, .scopeOpened, .activationOpened] :=
  List.forall_mem_append.mpr ⟨hguards.kinds (by simp), by simp⟩

end Outputs

/-- A node waits, or everything it records is an advance. -/
theorem NodeMove.advances_or_waits (move : NodeMove o s run time act node es) :
    (∀ e ∈ es, e.kind ∈ advanceKinds) ∨ Waiting s run time act node es := by
  have hadvance {L : List EventKind} {es' : List DomainEvent} (h : ∀ e ∈ es', e.kind ∈ L)
      (hL : L ⊆ advanceKinds) : ∀ e ∈ es', e.kind ∈ advanceKinds := fun e he => hL (h e he)
  cases move with
  | timer => exact .inr (.opened (.inl rfl))
  | waiting => exact .inr (.opened (.inr rfl))
  | taken _ hkey hrun hentry h => exact .inr (.taken hkey hrun hentry h)
  | reopened | due =>
    left
    simp
  | completed => exact .inl (hadvance kinds_completed (by decide))
  | failed h | conflict _ h | childFailed _ _ h => exact .inl (h.kinds (by decide))
  | finished _ hguards _ h => exact .inl (hadvance (kinds_finished hguards h) (by decide))
  | skipped _ _ _ h | joined _ h => exact .inl (hadvance (kinds_output h) (by decide))
  | settled _ _ _ _ h => exact .inl (hadvance (kinds_settled h) (by decide))
  | childOpened hguards => exact .inl (hadvance (kinds_childOpened hguards) (by decide))
  | cancelled _ _ _ hcancelled hown =>
    exact .inl (hadvance (kinds_cancelled hcancelled hown) (by decide))
  | aborted _ _ h => exact .inl (h.kinds (by decide))

/-- A node that waits opens its wait first; everything else it records is an advance. -/
theorem NodeMove.kinds_cases (move : NodeMove o s run time act node es) :
    (∀ e ∈ es, e.kind ∈ advanceKinds) ∨ ∃ own w signal key deadlineMs consumeFrom rest,
      es = .waitOpened own w act.id signal key deadlineMs consumeFrom :: rest ∧
        (own = run ∨ own = act.run) ∧ ∀ e ∈ rest, e.kind ∈ .waitSatisfied :: advanceKinds := by
  rcases move.advances_or_waits with h | h
  · exact .inl h
  · cases h with
    | opened hown => exact .inr ⟨_, _, _, _, _, _, _, rfl, hown, List.forall_mem_nil _⟩
    | taken _ _ _ h =>
      refine .inr ⟨_, _, _, _, _, _, _, rfl, .inr rfl, List.forall_mem_cons.mpr ⟨by simp,
        List.forall_mem_cons.mpr ⟨by simp, h.kinds (by simp)⟩⟩⟩

theorem NodeMove.kinds (move : NodeMove o s run time act node es) :
    ∀ e ∈ es, e.kind ∈ progressKinds := by
  have hadvance : advanceKinds ⊆ progressKinds := by decide
  rcases move.kinds_cases with h | ⟨_, _, _, _, _, _, rest, rfl, -, h⟩
  · exact fun e he => hadvance (h e he)
  · refine List.forall_mem_cons.mpr ⟨by simp, fun e he => ?_⟩
    rcases List.mem_cons.mp (h e he) with hkind | hkind
    · rw [hkind]
      simp
    · exact hadvance hkind

end Producers

/-! ## Portions -/

section Portions

variable {a : ActivationId} {output : Value} {probe owed followed settled failure escalated :
  List DomainEvent} {p q : Prop} {probes : Nat}

theorem AppliedProbe.kinds {L : List EventKind} (h : AppliedProbe run a act probe)
    (hkinds : .reconciliationRecorded ∈ L) : ∀ e ∈ probe, e.kind ∈ L := by
  apply h.all (P := fun e => e.kind ∈ L)
  intros
  exact hkinds

theorem kinds_accepted (hprobe : AppliedProbe run a act probe)
    (howed : compensationEvents s act output = .ok owed)
    (hfollowed : (p ∧ followed = []) ∨ (q ∧ Followed s act.scope act.node followed)) :
    ∀ e ∈ probe ++ .leafSucceeded run a 1 output .forward ::
      .nodeOutputRecorded run act.scope act.node output :: (owed ++ followed),
      e.kind ∈ [EventKind.reconciliationRecorded, .leafSucceeded, .nodeOutputRecorded,
        .obligationRegistered, .obligationBlocked, .activationOpened] := by
  simp only [List.forall_mem_append, List.forall_mem_cons]
  refine ⟨hprobe.kinds (by simp), by simp, by simp, ?_, ?_⟩
  · apply compensationEvents_all (P := fun e => e.kind ∈ _) howed <;> intros <;> simp
  · rcases hfollowed with ⟨-, rfl⟩ | ⟨-, hfollowed⟩
    · exact List.forall_mem_nil _
    · exact hfollowed.kinds (by simp)

theorem kinds_compensated (hprobe : AppliedProbe run a act probe) :
    ∀ e ∈ probe ++ [.leafSucceeded run a 1 output .compensation],
      e.kind ∈ [EventKind.reconciliationRecorded, .leafSucceeded] :=
  List.forall_mem_append.mpr ⟨hprobe.kinds (by simp), by simp⟩

theorem kinds_notApplied (hsettled : (p ∧ settled = []) ∨ (q ∧ ∃ attempt code message,
      settled = [.leafFailed run a attempt code message false])) :
    ∀ e ∈ .reconciliationRecorded run a .notApplied none probes :: .claimCleared a :: settled,
      e.kind ∈ [EventKind.reconciliationRecorded, .claimCleared, .leafFailed] := by
  rcases hsettled with ⟨-, rfl⟩ | ⟨-, attempt, code, message, rfl⟩ <;> simp

theorem kinds_unknown
    (hfailure : failure = [] ∨ ∃ code message, failure = [.reconciliationFailed run a code message])
    (hescalated : escalated = [] ∨ ∃ reason,
      escalated = [.interventionRequired run a reason, .claimCleared a]) :
    ∀ e ∈ failure ++ .reconciliationRecorded run a .unknown none probes :: escalated,
      e.kind ∈ [EventKind.reconciliationFailed, .reconciliationRecorded, .interventionRequired,
        .claimCleared] := by
  rcases hfailure with rfl | ⟨code, message, rfl⟩ <;>
    rcases hescalated with rfl | ⟨reason, rfl⟩ <;> simp

theorem kinds_erred {scope : ScopeId} {error : FailError} {attempt : Nat} {code message : String}
    {final : Bool} {failed : List DomainEvent} (h : Failing o s scope error failed) :
    ∀ e ∈ .leafFailed run a attempt code message final :: failed,
      e.kind ∈ EventKind.leafFailed :: failureKinds :=
  List.forall_mem_cons.mpr ⟨by simp, h.kinds (List.subset_cons_self _ _)⟩

theorem kinds_satisfied {w : WaitId} {eventId : EventId} {scope : ScopeId} {key : NodeKey}
    (h : Followed s scope key followed) :
    ∀ e ∈ .waitSatisfied run w eventId output :: .nodeOutputRecorded run scope key output ::
      followed, e.kind ∈ [EventKind.waitSatisfied, .nodeOutputRecorded, .activationOpened] :=
  List.forall_mem_cons.mpr ⟨by simp, List.forall_mem_cons.mpr ⟨by simp, h.kinds (by simp)⟩⟩

theorem kinds_outside (h : ∀ e ∈ es, e.isOutside = true) : ∀ e ∈ es, e.kind ∈ [EventKind.outside] :=
  fun e he => List.mem_singleton.mpr (kind_of_isOutside (h e he))

end Portions

/-- A command records events of the kinds on its list. -/
theorem Move.kinds (move : Move env o s time body es) : ∀ e ∈ es, e.kind ∈ body.kinds := by
  have hreport {run : RunId} {a : ActivationId} {act : ActivationState} {es' : List DomainEvent}
      {L : List EventKind} (hreported : Reported s body run a act) (h : ∀ e ∈ es', e.kind ∈ L)
      (hL : L ⊆ .outside :: reportKinds) : ∀ e ∈ es', e.kind ∈ body.kinds := by
    rw [kinds_of_reported? hreported.hbody]
    exact fun e he => hL (h e he)
  cases move with
  | started | resolved | renewed => simp
  | accepted h _ hprobe howed hfollowed =>
    exact hreport h (kinds_accepted hprobe howed hfollowed) (by decide)
  | compensated h _ hprobe => exact hreport h (kinds_compensated hprobe) (by decide)
  | retried h | blocked h | lost h =>
    rw [kinds_of_reported? h.hbody]
    simp
  | erred h _ hfailing => exact hreport h (kinds_erred hfailing) (by decide)
  | notApplied h _ hsettled => exact hreport h (kinds_notApplied hsettled) (by decide)
  | unknown h _ hfailure hescalated =>
    exact hreport h (kinds_unknown hfailure hescalated) (by decide)
  | signalled _ _ _ h =>
    rcases h with ⟨-, rfl⟩ | ⟨wait, -, rfl⟩ <;> simp
  | satisfied hsettling _ h =>
    rcases hsettling.hbody with rfl | rfl <;>
      exact List.forall_mem_cons.mpr ⟨by simp, List.forall_mem_cons.mpr ⟨by simp,
        h.kinds (by simp)⟩⟩
  | timedOut hsettling =>
    rcases hsettling.hbody with rfl | rfl <;>
      exact List.forall_mem_cons.mpr ⟨by simp, List.forall_mem_singleton.mpr (by simp)⟩
  | advanced _ _ h =>
    intro e he
    exact List.mem_cons_of_mem _ (h.kinds e he)
  | cancelled _ _ _ _ h => exact h.kinds (by simp)
  | cancelledSagas _ _ hes =>
    refine List.forall_mem_append.mpr ⟨?_, ?_⟩
    · apply closePendingWaits_all (P := fun e => e.kind ∈ .outside :: abortKinds) <;>
        intros <;> simp
    · apply cancelSagas_all (P := fun e => e.kind ∈ .outside :: abortKinds) hes
      intro saga es _ h
      exact h.kinds (by decide)
  | claimed hrenewed hgranted =>
    refine List.forall_mem_append.mpr ⟨fun e he => ?_, ?_⟩
    · rw [kind_of_isOutside (hrenewed e he)]
      simp
    · apply hgranted.all (P := fun e => e.kind ∈ [.outside, .claimGranted])
      rintro i a e ⟨⟩
      simp
  | abandoned _ h =>
    refine List.forall_mem_cons.mpr ⟨by simp, ?_⟩
    rcases h with ⟨-, rfl⟩ | ⟨root, error, -, -, h⟩
    · exact List.forall_mem_nil _
    · exact h.kinds (by simp)
  | outside houtside =>
    intro e he
    rw [kind_of_isOutside (houtside e he)]
    exact body.outside_mem_kinds

theorem not_mem_of_kinds {L M : List EventKind} (h : ∀ e ∈ es, e.kind ∈ L)
    (hdisjoint : ∀ k ∈ L, k ∉ M) : ∀ e ∈ es, e.kind ∉ M :=
  fun e he => hdisjoint _ (h e he)

/-! ## Signals and waits -/

/-- The moves that have to do with signals. -/
inductive Letters (o : Enumeration) (s : Core) (time : Nat) :
    CommandBody → List DomainEvent → Prop
  | signalled {run : RunId} {eventId : EventId} {signal key : String} {payload : Value}
      {runState : RunState} {expiresMs : Nat} {reserved : List DomainEvent}
      (hrun : s.runs.lookup run = some runState) (hactive : runState.status.isActive = true)
      (hnew : s.inbox.find? (fun entry => entry.run = some run ∧ entry.eventId = eventId) = none)
      (hreserved : (pendingWait o s run signal key = none ∧ reserved = []) ∨
        ∃ wait, pendingWait o s run signal key = some wait ∧
          reserved = [.eventReserved wait.id eventId]) :
      Letters o s time (.signal run eventId signal key payload)
        (.eventAccepted run eventId signal key payload runState.nextSequence time expiresMs ::
          reserved)
  | satisfied {body : CommandBody} {run : RunId} {w : WaitId} {wait : WaitState}
      {act : ActivationState} {entry : InboxEntry} {followed : List DomainEvent}
      (hsettling : Settling s body run w wait act)
      (hentry : reservedOrEligible s wait time = some entry)
      (hfollowed : Followed s act.scope act.node followed) :
      Letters o s time body (.waitSatisfied run w entry.eventId entry.payload ::
        .nodeOutputRecorded run act.scope act.node entry.payload :: followed)
  | advanced {run : RunId} {act : ActivationState} {node : Node} {es : List DomainEvent}
      (hadvancing : Advancing s run act node)
      (hmove : NodeMove o s run time act node es) :
      Letters o s time (.progress run) es

/-- What the other moves record. -/
@[simp] def plainKinds : List EventKind :=
  [.outside, .runAdmitted, .scopeOpened, .waitTimedOut, .claimGranted, .claimRenewed,
    .compensationAbandoned, .compensationStarted, .abortIntent] ++ reportKinds

theorem Move.letters_or_plain (move : Move env o s time body es) :
    (∀ e ∈ es, e.kind ∈ plainKinds) ∨ Letters o s time body es := by
  have hkinds := move.kinds
  have hplain (h : body.kinds ⊆ plainKinds) : ∀ e ∈ es, e.kind ∈ plainKinds :=
    fun e he => h (hkinds e he)
  have hreport {run : RunId} {a : ActivationId} {act : ActivationState}
      (h : Reported s body run a act) : ∀ e ∈ es, e.kind ∈ plainKinds :=
    hplain (by rw [kinds_of_reported? h.hbody]; decide)
  cases move with
  | signalled hrun hactive hnew hreserved => exact .inr (.signalled hrun hactive hnew hreserved)
  | satisfied hsettling hentry hfollowed => exact .inr (.satisfied hsettling hentry hfollowed)
  | advanced hadvancing _ hmove => exact .inr (.advanced hadvancing hmove)
  | started | resolved | cancelled | cancelledSagas | claimed | renewed | abandoned =>
    exact .inl (hplain (by simp only [CommandBody.kinds]; decide))
  | timedOut =>
    left
    simp
  | outside houtside =>
    refine .inl fun e he => ?_
    rw [kind_of_isOutside (houtside e he)]
    simp
  | accepted h | compensated h | retried h | blocked h | lost h | erred h | notApplied h
  | unknown h => exact .inl (hreport h)

end Graphrun
