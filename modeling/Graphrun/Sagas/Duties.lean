import Graphrun.Sagas.Settlement

/-!
# Where the events about obligations come from

Five kinds of events register obligations, start their compensation and pass them on. `Duty` lists
what is known of each in the state in which it was decided, so that a result about obligations is
proved by cases on it (`Move.dutiful`) and not on all that a command can do.
-/

namespace Graphrun

open Lib

variable {env : Env} {o : Enumeration} {s s' : Core} {e : DomainEvent} {time : Nat} {ids : IdGen}
  {es : List DomainEvent} {run : RunId} {act : ActivationState} {node : Node} {body : CommandBody}

@[simp] def dutyKinds : List EventKind := .obligationReleased :: owingKinds

/-- What an event about obligations rests on. -/
inductive Duty (s : Core) : DomainEvent → Prop
  | owed {a : ActivationId} {act : ActivationState} {output : Value} {e : DomainEvent}
      (hact : s.activations.lookup a = some act) (hready : act.status = .ready)
      (hrole : act.role ≠ .compensation) (howed : compensationEvents s act output = .ok [e]) :
      Duty s e
  | resolved {run : RunId} {forward : ActivationId} {input : Value} {item : Obligation}
      (hitem : s.obligations.find? (fun item => item.forward = forward) = some item)
      (hblocked : item.status.isBlocked = true) :
      Duty s (.obligationRegistered run forward item.handler item.handlerVersion input)
  | blocked {run : RunId} {a : ActivationId} {reason : String} {item : Obligation}
      (hitem : compensatedBy s a = some item) :
      Duty s (.obligationBlocked run item.forward item.handler item.handlerVersion reason)
  | started {saga a : ActivationId} {act : ActivationState} {item : Obligation} {error : FailError}
      (hact : s.activations.lookup saga = some act)
      (hitem : (pendingObligations s saga).getLast? = some item) :
      Duty s (.compensationStarted act.run saga item.forward a item.handler item.handlerVersion
        item.input error)
  | transferred {saga parent : ActivationId} {item : Obligation}
      (hparent : parentSaga s saga = some parent) (hitem : item ∈ pendingObligations s saga) :
      Duty s (.obligationTransferred item.forward saga parent)
  | released {saga : ActivationId} {run : RunId} {item : Obligation}
      (hparent : parentSaga s saga = none) (hitem : item ∈ pendingObligations s saga) :
      Duty s (.obligationReleased run item.forward)

/-- The events about obligations have their reasons. -/
def Dutiful (s : Core) (es : List DomainEvent) : Prop :=
  ∀ e ∈ es, e.kind ∈ dutyKinds → Duty s e

theorem dutiful_of_kinds (h : ∀ e ∈ es, e.kind ∉ dutyKinds) : Dutiful s es :=
  fun e he hkind => absurd hkind (h e he)

theorem Failing.dutiful {k : ScopeId} {error : FailError} (h : Failing o s k error es) :
    Dutiful s es :=
  dutiful_of_kinds (not_mem_of_kinds (h.kinds (List.Subset.refl failureKinds)) (by decide))

theorem Followed.dutiful {k : ScopeId} {key : NodeKey} (h : Followed s k key es) :
    Dutiful s es :=
  dutiful_of_kinds (not_mem_of_kinds (h.kinds (List.mem_singleton_self _)) (by decide))

theorem Aborting.dutiful {saga : ActivationId} {error : FailError}
    (h : Aborting o s saga error es) : Dutiful s es := by
  cases h with
  | waiting | blocked | intent => exact dutiful_of_kinds (by simp)
  | failed _ _ _ _ hfailing => exact hfailing.dutiful
  | compensating hact _ hitem => exact List.forall_mem_singleton.mpr fun _ => .started hact hitem

theorem settleSagaSuccess_dutiful (saga : ActivationId) :
    Dutiful s (settleSagaSuccess s saga) := by
  intro e he _
  unfold settleSagaSuccess at he
  dsimp only at he
  split at he
  · next hparent =>
    simp only [List.map_map, List.mem_map, Function.comp] at he
    obtain ⟨item, hitem, rfl⟩ := he
    exact .transferred hparent hitem
  · next hparent =>
    split at he
    · simp only [List.map_map, List.mem_map, Function.comp] at he
      obtain ⟨item, hitem, rfl⟩ := he
      exact .released hparent hitem
    · cases he

theorem NodeMove.dutiful (move : NodeMove o s run time act node es) : Dutiful s es := by
  have hplain {L : List EventKind} {es' : List DomainEvent} (h : ∀ e ∈ es', e.kind ∈ L)
      (hL : ∀ k ∈ L, k ∉ dutyKinds) : Dutiful s es' := dutiful_of_kinds (not_mem_of_kinds h hL)
  cases move with
  | reopened | timer | waiting | due => exact dutiful_of_kinds (by simp)
  | completed => exact hplain kinds_completed (by decide)
  | failed hfailing | conflict _ hfailing | childFailed _ _ hfailing => exact hfailing.dutiful
  | taken _ _ _ _ h =>
    exact List.forall_mem_cons.mpr ⟨by simp, hplain (kinds_satisfied h) (by decide)⟩
  | finished _ hguards _ h => exact hplain (kinds_finished hguards h) (by decide)
  | skipped _ _ _ h | joined _ h => exact hplain (kinds_output h) (by decide)
  | settled _ _ _ _ hfollowed =>
    exact List.forall_mem_append.mpr ⟨settleSagaSuccess_dutiful act.id,
      hplain (kinds_output hfollowed) (by decide)⟩
  | childOpened hguards => exact hplain (kinds_childOpened hguards) (by decide)
  | cancelled _ _ _ hcancelled hown =>
    exact hplain (kinds_cancelled hcancelled hown) (by decide)
  | aborted _ _ haborting => exact haborting.dutiful

theorem Move.dutiful (move : Move env o s time body es) : Dutiful s es := by
  have hother (h : ∀ k ∈ body.kinds, k ∉ dutyKinds) : Dutiful s es :=
    dutiful_of_kinds fun e he => h _ (move.kinds e he)
  have hplain {L : List EventKind} {es' : List DomainEvent} (h : ∀ e ∈ es', e.kind ∈ L)
      (hL : ∀ k ∈ L, k ∉ dutyKinds) : Dutiful s es' := dutiful_of_kinds (not_mem_of_kinds h hL)
  cases move with
  | accepted hreported hrole hprobe howed hfollowed =>
    refine List.forall_mem_append.mpr
      ⟨hplain (hprobe.kinds (List.mem_singleton_self _)) (by decide),
        List.forall_mem_cons.mpr ⟨by simp, List.forall_mem_cons.mpr ⟨by simp,
          List.forall_mem_append.mpr ⟨?_, ?_⟩⟩⟩⟩
    · rcases compensationEvents_shape howed with rfl | ⟨e, status, rfl, -⟩
      · exact List.forall_mem_nil _
      · exact List.forall_mem_singleton.mpr fun _ =>
          .owed hreported.hact hreported.hready hrole howed
    · rcases hfollowed with ⟨-, rfl⟩ | ⟨-, hfollowed⟩
      · exact List.forall_mem_nil _
      · exact hfollowed.dutiful
  | compensated _ _ hprobe => exact hplain (kinds_compensated hprobe) (by decide)
  | retried | lost | renewed => exact dutiful_of_kinds (by simp)
  | blocked _ _ hitem =>
    exact List.forall_mem_cons.mpr ⟨by simp, List.forall_mem_singleton.mpr fun _ => .blocked hitem⟩
  | erred _ _ hfailing => exact List.forall_mem_cons.mpr ⟨by simp, hfailing.dutiful⟩
  | notApplied _ _ hsettled => exact hplain (kinds_notApplied hsettled) (by decide)
  | unknown _ _ hfailure hescalated => exact hplain (kinds_unknown hfailure hescalated) (by decide)
  | resolved hitem _ hblocked =>
    exact List.forall_mem_singleton.mpr fun _ => .resolved hitem hblocked
  | satisfied _ _ hfollowed => exact hplain (kinds_satisfied hfollowed) (by decide)
  | timedOut => exact dutiful_of_kinds (by simp)
  | advanced _ _ hmove => exact hmove.dutiful
  | cancelled _ _ _ _ hfailing => exact hfailing.dutiful
  | cancelledSagas _ _ hes =>
    refine List.forall_mem_append.mpr ⟨dutiful_of_kinds ?_, ?_⟩
    · apply closePendingWaits_all (P := fun e => e.kind ∉ dutyKinds) <;> simp
    · exact cancelSagas_all (P := fun e => e.kind ∈ dutyKinds → Duty s e) hes
        fun _ _ _ haborting => haborting.dutiful
  | outside houtside => exact hplain (kinds_outside houtside) (by decide)
  | started | signalled | claimed | abandoned =>
    exact hother (by simp only [CommandBody.kinds]; decide)

end Graphrun
