import Graphrun.Engine.Inversion

/-!
# The kinds of events that producers record

A property of events holds of everything that a producer records as soon as it holds of the
kinds of events that the producer uses. An invariant that only some kinds of events can
disturb is carried over all other moves by these rules.
-/

namespace Graphrun

open Lib

variable {env : Env} {o : Enumeration} {s : Core} {time : Nat} {ids : IdGen}
  {es : List DomainEvent} {P : DomainEvent → Prop} {run : RunId} {error : FailError}

theorem Followed.all {scope : ScopeId} {node : NodeKey} (h : Followed s scope node es)
    (opened : ∀ run a next, P (.activationOpened run scope a next)) : ∀ e ∈ es, P e := by
  cases h with
  | ended => simp
  | opened => simpa using opened _ _ _

theorem cancelWait_all {wait : WaitState}
    (released : ∀ eventId, P (.reservationReleased wait.id eventId))
    (cancelled : P (.waitCancelled run wait.id)) : ∀ e ∈ cancelWait s run wait, P e := by
  intro e he
  rcases List.mem_append.mp he with he | he
  · split at he
    · obtain rfl := List.mem_singleton.mp he
      exact released _
    · cases he
  · obtain rfl := List.mem_singleton.mp he
    exact cancelled

theorem mem_closing {wait : WaitState} :
    wait ∈ ((o.values s.waits).filter fun wait => wait.run = run ∧ wait.pending).insertionSort
      (fun a b => a.id.bytes ≤ b.id.bytes) ↔
    (∃ k, s.waits.lookup k = some wait) ∧ wait.run = run ∧ wait.pending = true := by
  rw [(List.perm_insertionSort _ _).mem_iff, List.mem_filter, Enumeration.mem_values]
  simp

theorem closePendingWaits_all (released : ∀ wait eventId, P (.reservationReleased wait eventId))
    (cancelled : ∀ wait, P (.waitCancelled run wait)) : ∀ e ∈ closePendingWaits o s run, P e := by
  intro e he
  obtain ⟨wait, -, he⟩ := List.mem_flatMap.mp he
  exact cancelWait_all (fun eventId => released wait.id eventId) (cancelled wait.id) e he

theorem Failing.all {scope : ScopeId} (h : Failing o s scope error es)
    (failed : ∀ run, P (.scopeFailed run scope error)) (ended : ∀ run, P (.runFailed run error))
    (released : ∀ wait eventId, P (.reservationReleased wait eventId))
    (cancelled : ∀ run wait, P (.waitCancelled run wait)) : ∀ e ∈ es, P e := by
  cases h with
  | already => simp
  | inner => simpa using failed _
  | root =>
    simp only [List.forall_mem_append, List.forall_mem_cons]
    exact ⟨closePendingWaits_all released (cancelled _), failed _, ended _, by simp⟩

theorem Aborting.all {saga : ActivationId} (h : Aborting o s saga error es)
    (intervened : ∀ run reason, P (.interventionRequired run saga reason))
    (intended : ∀ run, P (.abortIntent run saga error))
    (started : ∀ run forward a handler version input,
      P (.compensationStarted run saga forward a handler version input error))
    (failed : ∀ run scope error, P (.scopeFailed run scope error))
    (ended : ∀ run error, P (.runFailed run error))
    (released : ∀ wait eventId, P (.reservationReleased wait eventId))
    (cancelled : ∀ run wait, P (.waitCancelled run wait)) : ∀ e ∈ es, P e := by
  cases h with
  | blocked => simpa using intervened _ _
  | waiting => simp
  | intent => simpa using intended _
  | failed _ _ _ _ hfailing =>
    exact hfailing.all (fun run => failed run _ _) (fun run => ended run _) released cancelled
  | compensating => simpa using started _ _ _ _ _ _

theorem cancelSagas_all {sagas : List ActivationId}
    (h : cancelSagas env o s error sagas ids = .ok es)
    (aborted : ∀ saga es, saga ∈ sagas → Aborting o s saga error es → ∀ e ∈ es, P e) :
    ∀ e ∈ es, P e := by
  induction sagas generalizing ids es with
  | nil =>
    obtain rfl := pure_eq_ok.mp h
    simp
  | cons saga rest ih =>
    simp only [cancelSagas, bind_eq_ok, pure_eq_ok, Prod.exists] at h
    obtain ⟨first, ids', hfirst, others, hothers, rfl⟩ := h
    have hrest := ih hothers fun saga es hmem => aborted saga es (List.mem_cons_of_mem _ hmem)
    rw [List.forall_mem_append]
    exact ⟨aborted saga first List.mem_cons_self (compensateOrFail_ok hfirst), hrest⟩

theorem completeScope_all {scope : ScopeState} {output : Value}
    (completed : P (.scopeCompleted scope.run scope.id output))
    (succeeded : P (.runSucceeded scope.run output)) : ∀ e ∈ completeScope scope output, P e := by
  unfold completeScope
  rw [List.forall_mem_cons]
  refine ⟨completed, ?_⟩
  split
  · simpa using succeeded
  · simp

theorem settleSagaSuccess_all {saga : ActivationId}
    (transferred : ∀ forward toSaga, P (.obligationTransferred forward saga toSaga))
    (released : ∀ run forward, P (.obligationReleased run forward)) :
    ∀ e ∈ settleSagaSuccess s saga, P e := by
  intro e he
  unfold settleSagaSuccess at he
  dsimp only at he
  split at he
  · obtain ⟨forward, -, rfl⟩ := List.mem_map.mp he
    exact transferred _ _
  · split at he
    · obtain ⟨forward, -, rfl⟩ := List.mem_map.mp he
      exact released _ _
    · cases he

theorem compensationEvents_all {act : ActivationState} {output : Value}
    (h : compensationEvents s act output = .ok es)
    (registered : ∀ handler version input,
      P (.obligationRegistered act.run act.id handler version input))
    (blocked : ∀ handler version reason,
      P (.obligationBlocked act.run act.id handler version reason)) : ∀ e ∈ es, P e := by
  unfold compensationEvents at h
  split at h
  · split at h
    · obtain rfl := pure_eq_ok.mp h
      simp
    · simp only [bind_eq_ok] at h
      obtain ⟨ctx, -, bound, -, h⟩ := h
      split at h <;> obtain rfl := pure_eq_ok.mp h
      · simpa using registered _ _ _
      · simpa using blocked _ _ _
  · obtain rfl := pure_eq_ok.mp h
    simpa using blocked _ _ _
  · obtain rfl := pure_eq_ok.mp h
    simp

theorem Guards.all {act : ActivationState} {node : Node} (h : Guards o s act node es)
    (guarded : ∀ cont index carry, P (.guardRecorded act.run act.id cont index carry)) :
    ∀ e ∈ es, P e := by
  obtain rfl | ⟨cont, index, carry, rfl, -⟩ := h
  · simp
  · simpa using guarded cont index carry

theorem AppliedProbe.all {a : ActivationId} {act : ActivationState}
    (h : AppliedProbe run a act es)
    (recorded : ∀ output probes, P (.reconciliationRecorded run a .applied output probes)) :
    ∀ e ∈ es, P e := by
  obtain rfl | ⟨output, probes, -, rfl⟩ := h
  · simp
  · simpa using recorded output probes

theorem Granted.all {session : WorkerSessionId} {grants : Grants}
    (h : Granted o s session time grants)
    (granted : ∀ i a e, Grant o s session time i a e → P e) : ∀ e ∈ grants.events, P e := by
  intro e he
  obtain ⟨i, hi, rfl⟩ := List.getElem_of_mem he
  have hlt : i < grants.ids.length := h.length ▸ hi
  exact granted i _ _ (h.grant i _ _ (List.getElem?_eq_getElem hlt) (List.getElem?_eq_getElem hi))

end Graphrun
