import Graphrun.Engine.Kinds

/-!
# Closing down

Failing scopes, cancelling siblings and aborting sagas record events of two sorts: marks on
scopes, runs and sagas, and the cancellation of pending waits, all decided in one state.
`Closing` is this shape; an argument about closing down is an induction on it.
-/

namespace Graphrun

open Lib

variable {env : Env} {o : Enumeration} {s : Core} {ids : IdGen} {es es' : List DomainEvent}

/-- The events that close something down and are not about a wait. -/
@[simp] def markKinds : List EventKind :=
  [.scopeFailed, .runFailed, .interventionRequired, .abortIntent, .compensationStarted]

/-- Marks, and cancellations of waits that are pending in the given state. -/
inductive Closing (s : Core) : List DomainEvent → Prop
  | nil : Closing s []
  | mark {e : DomainEvent} {es : List DomainEvent} (hkind : e.kind ∈ markKinds)
      (rest : Closing s es) : Closing s (e :: es)
  | cancel {run : RunId} {k : WaitId} {wait : WaitState} {es : List DomainEvent}
      (hwait : s.waits.lookup k = some wait) (hpending : wait.pending = true)
      (rest : Closing s es) : Closing s (cancelWait s run wait ++ es)

theorem Closing.append (h : Closing s es) (h' : Closing s es') : Closing s (es ++ es') := by
  induction h with
  | nil => exact h'
  | mark hkind _ ih => exact .mark hkind ih
  | cancel hwait hpending _ ih =>
    rw [List.append_assoc]
    exact .cancel hwait hpending ih

theorem closing_closePendingWaits (o : Enumeration) (s : Core) (run : RunId) :
    Closing s (closePendingWaits o s run) := by
  have hall : ∀ waits : List WaitState,
      (∀ wait ∈ waits, (∃ k, s.waits.lookup k = some wait) ∧ wait.pending = true) →
      Closing s (waits.flatMap (cancelWait s run)) := by
    intro waits
    induction waits with
    | nil => exact fun _ => .nil
    | cons wait waits ih =>
      intro h
      obtain ⟨⟨⟨k, hwait⟩, hpending⟩, hrest⟩ := List.forall_mem_cons.mp h
      exact .cancel hwait hpending (ih hrest)
  apply hall
  intro wait hwait
  obtain ⟨hwait, -, hpending⟩ := mem_closing.mp hwait
  exact ⟨hwait, hpending⟩

/-! ## Producers -/

theorem rootScope?_eq_some {run : RunId} {root : ScopeState} (keyed : Keyed s)
    (h : rootScope? o s run = some root) :
    s.scopes.lookup root.id = some root ∧ root.run = run ∧ root.role = .root := by
  obtain ⟨k, hk⟩ := Enumeration.mem_values.mp (List.mem_of_find?_eq_some h)
  have hfound := List.find?_some h
  simp only [decide_eq_true_eq] at hfound
  rw [keyed.scopes k root hk]
  exact ⟨hk, hfound⟩

theorem rootScope?_isSome {run : RunId} {k : ScopeId} {root : ScopeState}
    (hroot : s.scopes.lookup k = some root) (hrun : root.run = run) (hrole : root.role = .root) :
    rootScope? o s run ≠ none := by
  intro h
  have hnone := List.find?_eq_none.mp h root (Enumeration.mem_values.mpr ⟨k, hroot⟩)
  simp [hrun, hrole] at hnone

theorem Failing.closing {scope : ScopeId} {error : FailError} (h : Failing o s scope error es) :
    Closing s es := by
  cases h with
  | already => exact .nil
  | inner => exact .mark (by simp) .nil
  | root =>
    exact (closing_closePendingWaits o s _).append (.mark (by simp) (.mark (by simp) .nil))

theorem FailingAll.closing {error : FailError} {scopes : List ScopeState}
    (h : FailingAll o s error scopes es) : Closing s es := by
  induction h with
  | nil => exact .nil
  | cons first _ ih => exact first.closing.append ih

theorem Aborting.closing {saga : ActivationId} {error : FailError}
    (h : Aborting o s saga error es) : Closing s es := by
  cases h with
  | waiting => exact .nil
  | blocked | intent | compensating => exact .mark (by simp) .nil
  | failed _ _ _ _ hfailing => exact hfailing.closing

theorem closing_cancelSagas {error : FailError} {sagas : List ActivationId}
    (h : cancelSagas env o s error sagas ids = .ok es) : Closing s es := by
  induction sagas generalizing ids es with
  | nil =>
    obtain rfl := pure_eq_ok.mp h
    exact .nil
  | cons saga rest ih =>
    simp only [cancelSagas, bind_eq_ok, pure_eq_ok, Prod.exists] at h
    obtain ⟨first, ids', hfirst, others, hothers, rfl⟩ := h
    exact (compensateOrFail_ok hfirst).closing.append (ih hothers)

end Graphrun
