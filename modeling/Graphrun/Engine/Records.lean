import Graphrun.Engine.Effects

/-!
# What events do to waits, inbox, obligations and marks

The equations for the parts of the state that are not indexed by scopes: waits and the inbox
they draw from, the obligations of sagas, and the marks that events leave (errors of sagas,
interventions, the claim counter and the carried values of loops).
-/

namespace Graphrun

open Lib

variable {s : Core} {e : DomainEvent}

/-! ## Waits -/

/-- A wait that is no longer pending. -/
def WaitState.close (wait : WaitState) : WaitState := { wait with pending := false }

section Waits

theorem closeWait_waits {wait status} :
    (s.closeWait wait status).waits = s.waits.modify wait WaitState.close := by
  unfold Core.closeWait
  split <;> rfl

theorem openActivation_waits {run scope activation node status role} :
    (s.openActivation run scope activation node status role).waits = s.waits := by
  unfold Core.openActivation
  split <;> rfl

theorem reportCompletion_waits {role output} :
    (reportCompletion s role output).waits = s.waits := by
  unfold reportCompletion
  split <;> rfl

theorem upsertObligation_waits {run forward handler version input status f} :
    (s.upsertObligation run forward handler version input status f).waits = s.waits := by
  unfold Core.upsertObligation
  split <;> rfl

theorem evolve_waits (s : Core) (e : DomainEvent) :
    (evolve s e).waits =
      match e with
      | .waitOpened run wait activation signal key deadlineMs consumeFrom =>
        s.waits.insert wait {
          id := wait, run, activation, signal, key, deadlineMs, consumeFrom
          openedSequence := ((s.runs.lookup run).map (·.nextSequence)).getD 0, pending := true }
      | .waitSatisfied _ wait _ _ | .waitTimedOut _ wait | .waitCancelled _ wait =>
        s.waits.modify wait WaitState.close
      | _ => s.waits := by
  cases e
  case waitSatisfied | waitTimedOut | waitCancelled => exact closeWait_waits
  case activationOpened => exact openActivation_waits
  case obligationRegistered | obligationBlocked => exact upsertObligation_waits
  case scopeOpened | leafSucceeded =>
    simp only [evolve]
    split <;> rfl
  case scopeCompleted =>
    simp only [evolve]
    split
    · rfl
    · exact reportCompletion_waits
  case compensationStarted =>
    simp only [evolve]
    split
    · exact openActivation_waits
    · rfl
  all_goals rfl

end Waits

/-! ## Inbox -/

section Inbox

theorem closeWait_inbox {wait status} : (s.closeWait wait status).inbox = s.inbox := by
  unfold Core.closeWait
  split <;> rfl

theorem openActivation_inbox {run scope activation node status role} :
    (s.openActivation run scope activation node status role).inbox = s.inbox := by
  unfold Core.openActivation
  split <;> rfl

theorem reportCompletion_inbox {role output} :
    (reportCompletion s role output).inbox = s.inbox := by
  unfold reportCompletion
  split <;> rfl

theorem upsertObligation_inbox {run forward handler version input status f} :
    (s.upsertObligation run forward handler version input status f).inbox = s.inbox := by
  unfold Core.upsertObligation
  split <;> rfl

/-- Whether an entry is the one of a run with an event id. -/
def InboxEntry.names (run : Option RunId) (eventId : EventId) (entry : InboxEntry) : Bool :=
  entry.run = run ∧ entry.eventId = eventId

/-- An entry that a wait has consumed. -/
def InboxEntry.consumedBy (wait : WaitId) (entry : InboxEntry) : InboxEntry :=
  { entry with consumed := true, reservedWait := some wait }

/-- An entry held for a wait, or for none. -/
def InboxEntry.heldFor (wait : Option WaitId) (entry : InboxEntry) : InboxEntry :=
  { entry with reservedWait := wait }

theorem evolve_inbox (s : Core) (e : DomainEvent) :
    (evolve s e).inbox =
      match e with
      | .waitSatisfied run wait eventId _ =>
        updateFirst (InboxEntry.names (some run) eventId) (InboxEntry.consumedBy wait) s.inbox
      | .eventAccepted run eventId signal key payload sequence acceptedMs expiresMs =>
        s.inbox ++ [{
          eventId, signal, key, payload, sequence, reservedWait := none, consumed := false
          acceptedMs, expiresMs, run := some run }]
      | .eventExpired run eventId =>
        s.inbox.filter fun entry => entry.run ≠ some run ∨ entry.eventId ≠ eventId
      | .eventReserved wait eventId =>
        updateFirst (InboxEntry.names ((s.waits.lookup wait).map (·.run)) eventId)
          (InboxEntry.heldFor (some wait)) s.inbox
      | .reservationReleased wait eventId =>
        updateFirst (InboxEntry.names ((s.waits.lookup wait).map (·.run)) eventId)
          (InboxEntry.heldFor none) s.inbox
      | _ => s.inbox := by
  cases e
  case waitSatisfied =>
    simp only [evolve, Core.modifyInbox, closeWait_inbox]
    rfl
  case waitTimedOut | waitCancelled => exact closeWait_inbox
  case activationOpened => exact openActivation_inbox
  case obligationRegistered | obligationBlocked => exact upsertObligation_inbox
  case scopeOpened | leafSucceeded =>
    simp only [evolve]
    split <;> rfl
  case scopeCompleted =>
    simp only [evolve]
    split
    · rfl
    · exact reportCompletion_inbox
  case compensationStarted =>
    simp only [evolve]
    split
    · exact openActivation_inbox
    · rfl
  all_goals rfl

end Inbox

/-! ## Obligations -/

section Obligations

theorem openActivation_obligations {run scope activation node status role} :
    (s.openActivation run scope activation node status role).obligations = s.obligations := by
  unfold Core.openActivation
  split <;> rfl

theorem closeWait_obligations {wait status} :
    (s.closeWait wait status).obligations = s.obligations := by
  unfold Core.closeWait
  split <;> rfl

theorem reportCompletion_obligations {role output} :
    (reportCompletion s role output).obligations = s.obligations := by
  unfold reportCompletion
  split <;> rfl

/-- Whether an obligation is the one of a forward activation. -/
def Obligation.isOf (forward : ActivationId) (item : Obligation) : Bool := item.forward = forward

/-- The obligation that a forward activation owes when it has none yet. -/
def newObligation (s : Core) (run : RunId) (forward : ActivationId) (handler : String)
    (handlerVersion : Nat) (input : Value) (status : ObligationStatus) : Obligation where
  forward := forward
  run := run
  owner := (sagaOwner s forward).getD forward
  handler := handler
  handlerVersion := handlerVersion
  input := input
  status := status

theorem evolve_obligations (s : Core) (e : DomainEvent) :
    (evolve s e).obligations =
      match e with
      | .leafSucceeded _ activation _ _ role =>
        if role = .compensation then
          updateFirst (·.isCompensating activation)
            (fun item => { item with status := .compensated }) s.obligations
        else s.obligations
      | .obligationRegistered run forward handler version input =>
        if s.obligations.any (Obligation.isOf forward) then
          updateFirst (Obligation.isOf forward)
            (fun item => { item with input, status := .open }) s.obligations
        else s.obligations ++ [newObligation s run forward handler version input .open]
      | .obligationBlocked run forward handler version reason =>
        if s.obligations.any (Obligation.isOf forward) then
          updateFirst (Obligation.isOf forward)
            (fun item => { item with status := blockedStatus handler reason }) s.obligations
        else s.obligations ++
          [newObligation s run forward handler version .null (blockedStatus handler reason)]
      | .compensationStarted _ _ forward activation _ _ _ _ =>
        updateFirst (Obligation.isOf forward)
          (fun item => { item with status := .compensating activation }) s.obligations
      | .obligationTransferred forward _ toSaga =>
        updateFirst (Obligation.isOf forward) (fun item => { item with owner := toSaga })
          s.obligations
      | .obligationReleased _ forward =>
        updateFirst (Obligation.isOf forward) (fun item => { item with status := .released })
          s.obligations
      | .compensationAbandoned run _ unresolved =>
        s.obligations.map fun item =>
          if item.run = run ∧ item.forward ∈ unresolved then { item with status := .abandoned }
          else item
      | _ => s.obligations := by
  cases e
  case leafSucceeded =>
    simp only [evolve]
    split <;> rfl
  case obligationRegistered | obligationBlocked =>
    simp only [evolve, Core.upsertObligation]
    split
    · next h =>
      have h' : s.obligations.any (Obligation.isOf _) = true := h
      rw [if_pos h']
      rfl
    · next h =>
      have h' : ¬ s.obligations.any (Obligation.isOf _) = true := h
      rw [if_neg h']
      rfl
  case compensationStarted =>
    simp only [evolve]
    split
    · rw [openActivation_obligations]; rfl
    · rfl
  case waitSatisfied | waitTimedOut | waitCancelled => exact closeWait_obligations
  case activationOpened => exact openActivation_obligations
  case scopeOpened =>
    simp only [evolve]
    split <;> rfl
  case scopeCompleted =>
    simp only [evolve]
    split
    · rfl
    · exact reportCompletion_obligations
  all_goals rfl

end Obligations

/-! ## Saga errors, interventions, the claim counter and loops -/

section Marks

/-- The recorded errors of sagas after an event. -/
def sagaErrorsAfter (s : Core) : DomainEvent → Table ActivationId FailError
  | .compensationStarted _ saga _ _ _ _ _ error | .abortIntent _ saga error =>
    s.sagaErrors.insert saga error
  | _ => s.sagaErrors

/-- The activations under intervention after an event. -/
def interventionsAfter (s : Core) : DomainEvent → Table ActivationId String
  | .interventionRequired _ activation reason => s.interventions.insert activation reason
  | _ => s.interventions

/-- The claim counter after an event. -/
def nextGenerationAfter (s : Core) : DomainEvent → Nat
  | .claimGranted .. => satAdd s.nextGeneration 1
  | _ => s.nextGeneration

/-- What an opened loop body, a completed one and a guard leave as the state of their loop. -/
def loopCarryAfter (s : Core) : DomainEvent → Table ActivationId (Value × Nat)
  | .scopeOpened _ _ _ (.loopBody activation index) input =>
    s.loopCarry.insert activation (input, index)
  | .scopeCompleted _ scope output =>
    match (s.scopes.lookup scope).map (fun scopeState => scopeState.role) with
    | some (ScopeRole.loopBody activation index) =>
      s.loopCarry.insert activation (output, index + 1)
    | _ => s.loopCarry
  | .guardRecorded _ activation _ index carry => s.loopCarry.insert activation (carry, index)
  | _ => s.loopCarry

theorem evolve_marks (s : Core) (e : DomainEvent) :
    (evolve s e).sagaErrors = sagaErrorsAfter s e ∧
      (evolve s e).interventions = interventionsAfter s e ∧
      (evolve s e).nextGeneration = nextGenerationAfter s e ∧
      (evolve s e).loopCarry = loopCarryAfter s e := by
  cases e
  case compensationStarted =>
    simp only [evolve, Core.openActivation]
    split
    · split <;> exact ⟨rfl, rfl, rfl, rfl⟩
    · exact ⟨rfl, rfl, rfl, rfl⟩
  case waitSatisfied | waitTimedOut | waitCancelled =>
    simp only [evolve, Core.closeWait, Core.modifyInbox]
    split <;> exact ⟨rfl, rfl, rfl, rfl⟩
  case activationOpened =>
    simp only [evolve, Core.openActivation, Core.modifyScope]
    split <;> exact ⟨rfl, rfl, rfl, rfl⟩
  case obligationRegistered | obligationBlocked =>
    simp only [evolve, Core.upsertObligation]
    split <;> exact ⟨rfl, rfl, rfl, rfl⟩
  case leafSucceeded =>
    simp only [evolve]
    split <;> exact ⟨rfl, rfl, rfl, rfl⟩
  case scopeOpened run scope parent role input => cases role <;> exact ⟨rfl, rfl, rfl, rfl⟩
  case scopeCompleted run scope output =>
    simp only [evolve]
    cases hs : s.scopes.lookup scope with
    | none => exact ⟨rfl, rfl, rfl, by simp [loopCarryAfter, hs, Core.mapActivations]⟩
    | some scopeState =>
      simp only [reportCompletion, loopCarryAfter, hs, Option.map_some]
      cases scopeState.role <;> exact ⟨rfl, rfl, rfl, rfl⟩
  all_goals exact ⟨rfl, rfl, rfl, rfl⟩

theorem evolve_interventions (s : Core) (e : DomainEvent) :
    (evolve s e).interventions = interventionsAfter s e := (evolve_marks s e).2.1

theorem evolve_nextGeneration (s : Core) (e : DomainEvent) :
    (evolve s e).nextGeneration = nextGenerationAfter s e := (evolve_marks s e).2.2.1

theorem evolve_loopCarry (s : Core) (e : DomainEvent) :
    (evolve s e).loopCarry = loopCarryAfter s e := (evolve_marks s e).2.2.2

/-- What a loop carries it carried before, or it is the input or the output of a body or what a
guard has left. -/
theorem carry_after_cases {s : Core} {e : DomainEvent} {a : ActivationId} {v : Value × Nat}
    (h : (evolve s e).loopCarry.lookup a = some v) :
    s.loopCarry.lookup a = some v ∨
      (∃ run k parent i input, e = .scopeOpened run k parent (.loopBody a i) input ∧
        v = (input, i)) ∨
      (∃ run k output sc i, e = .scopeCompleted run k output ∧ s.scopes.lookup k = some sc ∧
        sc.role = .loopBody a i ∧ v = (output, i + 1)) ∨
      ∃ run cont i carry, e = .guardRecorded run a cont i carry ∧ v = (carry, i) := by
  rw [evolve_loopCarry] at h
  unfold loopCarryAfter at h
  split at h
  · rw [Table.lookup_insert_eq] at h
    split at h
    · next hab =>
      subst hab
      exact .inr (.inl ⟨_, _, _, _, _, rfl, (Option.some.inj h).symm⟩)
    · exact .inl h
  · split at h
    · next hrole =>
      obtain ⟨sc, hsc, hrole⟩ := Option.map_eq_some_iff.mp hrole
      rw [Table.lookup_insert_eq] at h
      split at h
      · next hab =>
        subst hab
        exact .inr (.inr (.inl ⟨_, _, _, sc, _, rfl, hsc, hrole, (Option.some.inj h).symm⟩))
      · exact .inl h
    · exact .inl h
  · rw [Table.lookup_insert_eq] at h
    split at h
    · next hab =>
      subst hab
      exact .inr (.inr (.inr ⟨_, _, _, _, rfl, (Option.some.inj h).symm⟩))
    · exact .inl h
  · exact .inl h

end Marks

/-! ## Results of joins -/

section Results

variable {s : Core}

def ScopeRole.item? : ScopeRole → Option (ActivationId × Nat)
  | .foreachItem activation index => some (activation, index)
  | _ => none

def ScopeRole.branch? : ScopeRole → Option (ActivationId × String)
  | .parallelBranch activation name => some (activation, name)
  | _ => none

/-- The results recorded for the activations of a join after an event. -/
def doneAfter {κ : Type} (s : Core) (child? : ScopeRole → Option (ActivationId × κ))
    (record : κ → Value → List (κ × Value) → List (κ × Value))
    (table : Table ActivationId (List (κ × Value))) :
    DomainEvent → Table ActivationId (List (κ × Value))
  | .scopeCompleted _ scope output =>
    match (s.scopes.lookup scope).bind (child? ·.role) with
    | some (a, i) => table.insert a (record i output ((table.lookup a).getD []))
    | none => table
  | _ => table

theorem evolve_results (s : Core) (e : DomainEvent) :
    (evolve s e).foreachDone = doneAfter s ScopeRole.item? recordItem s.foreachDone e ∧
      (evolve s e).parallelDone = doneAfter s ScopeRole.branch? recordBranch s.parallelDone e := by
  cases e
  case compensationStarted =>
    simp only [evolve, Core.openActivation]
    split
    · split <;> exact ⟨rfl, rfl⟩
    · exact ⟨rfl, rfl⟩
  case waitSatisfied | waitTimedOut | waitCancelled =>
    simp only [evolve, Core.closeWait, Core.modifyInbox]
    split <;> exact ⟨rfl, rfl⟩
  case activationOpened =>
    simp only [evolve, Core.openActivation, Core.modifyScope]
    split <;> exact ⟨rfl, rfl⟩
  case obligationRegistered | obligationBlocked =>
    simp only [evolve, Core.upsertObligation]
    split <;> exact ⟨rfl, rfl⟩
  case leafSucceeded =>
    simp only [evolve]
    split <;> exact ⟨rfl, rfl⟩
  case scopeOpened run scope parent role input => cases role <;> exact ⟨rfl, rfl⟩
  case scopeCompleted run scope output =>
    simp only [evolve, doneAfter]
    cases hs : s.scopes.lookup scope with
    | none => exact ⟨rfl, rfl⟩
    | some scopeState =>
      simp only [reportCompletion, Option.bind_some]
      cases scopeState.role <;> exact ⟨rfl, rfl⟩
  all_goals exact ⟨rfl, rfl⟩

theorem done_after_cases {κ : Type} (s : Core) (child? : ScopeRole → Option (ActivationId × κ))
    (record : κ → Value → List (κ × Value) → List (κ × Value))
    (table : Table ActivationId (List (κ × Value))) (e : DomainEvent) (a : ActivationId) :
    ((doneAfter s child? record table e).lookup a).getD [] = (table.lookup a).getD [] ∨
      ∃ run k output sc i, e = .scopeCompleted run k output ∧ s.scopes.lookup k = some sc ∧
        child? sc.role = some (a, i) ∧ ((doneAfter s child? record table e).lookup a).getD [] =
          record i output ((table.lookup a).getD []) := by
  unfold doneAfter
  split
  · split
    · next hrole =>
      obtain ⟨sc, hsc, hrole⟩ := Option.bind_eq_some_iff.mp hrole
      rw [Table.lookup_insert_eq]
      split
      · next hab =>
        subst hab
        exact .inr ⟨_, _, _, sc, _, rfl, hsc, hrole, rfl⟩
      · exact .inl rfl
    · exact .inl rfl
  · exact .inl rfl

end Results

end Graphrun
