import Graphrun.Engine.Soundness

/-!
# Obligations and the sagas that hold them

An obligation that is open, compensating or blocked is held by a saga that has not succeeded
(`Owed.held`): it is registered inside of a saga that is still at work, passed on to the next saga
outwards when its own succeeds, and a saga that succeeds or whose scope completes holds none.

The last part is not kept by the engine alone: a saga succeeds with obligations that are blocked,
and an activity outside of any saga registers its obligation with itself. `Owing` is what an event
has to respect.
-/

namespace Graphrun

open Lib

variable {env : Env} {o : Enumeration} {s s' : Core} {e : DomainEvent} {time : Nat} {ids : IdGen}
  {es : List DomainEvent} {run : RunId} {item : Obligation} {a : ActivationId}

/-! ## What events do to obligations -/

/-- Something is still to be done about the obligation. -/
def ObligationStatus.isOwed : ObligationStatus → Bool
  | .open | .compensating _ | .blocked _ => true
  | _ => false

/-- The run, activation and status of the obligation that an event registers. -/
def DomainEvent.owes? : DomainEvent → Option (RunId × ActivationId × ObligationStatus)
  | .obligationRegistered run forward _ _ _ => some (run, forward, .open)
  | .obligationBlocked run forward handler _ reason =>
    some (run, forward, blockedStatus handler reason)
  | _ => none

/-- The handler that an event names for an obligation. -/
def DomainEvent.handler? : DomainEvent → Option String
  | .obligationRegistered _ _ handler _ _ | .obligationBlocked _ _ handler _ _ => some handler
  | _ => none

/-- How an event changes an obligation that is there. -/
inductive ObligationChange : DomainEvent → Obligation → Obligation → Prop
  | compensated {run : RunId} {a : ActivationId} {attempt : Nat} {output : Value}
      {item : Obligation} :
      ObligationChange (.leafSucceeded run a attempt output .compensation) item
        { item with status := .compensated }
  | registered {run : RunId} {handler : String} {version : Nat} {input : Value}
      {item : Obligation} :
      ObligationChange (.obligationRegistered run item.forward handler version input) item
        { item with input, status := .open }
  | blocked {run : RunId} {handler reason : String} {version : Nat} {item : Obligation} :
      ObligationChange (.obligationBlocked run item.forward handler version reason) item
        { item with status := blockedStatus handler reason }
  | started {run : RunId} {saga a : ActivationId} {handler : String} {version : Nat}
      {input : Value} {error : FailError} {item : Obligation} :
      ObligationChange (.compensationStarted run saga item.forward a handler version input error)
        item { item with status := .compensating a }
  | transferred {fromSaga toSaga : ActivationId} {item : Obligation} :
      ObligationChange (.obligationTransferred item.forward fromSaga toSaga) item
        { item with owner := toSaga }
  | released {run : RunId} {item : Obligation} :
      ObligationChange (.obligationReleased run item.forward) item { item with status := .released }
  | abandoned {run : RunId} {reason : String} {unresolved : List ActivationId} {item : Obligation}
      (hrun : item.run = run) :
      ObligationChange (.compensationAbandoned run reason unresolved) item
        { item with status := .abandoned }

theorem isOf_iff {forward : ActivationId} :
    Obligation.isOf forward item = true ↔ item.forward = forward := by
  simp [Obligation.isOf]

/-- An obligation is as before, has been changed or is new. -/
theorem obligation_after_cases (h : item ∈ (evolve s e).obligations) :
    item ∈ s.obligations ∨ (∃ old ∈ s.obligations, ObligationChange e old item) ∨
      ∃ run forward handler version input status, e.owes? = some (run, forward, status) ∧
        e.handler? = some handler ∧
        item = newObligation s run forward handler version input status ∧
        ∀ other ∈ s.obligations, other.forward ≠ forward := by
  have hupdated {p : Obligation → Bool} {f : Obligation → Obligation}
      (h : item ∈ updateFirst p f s.obligations)
      (hchange : ∀ old, p old = true → ObligationChange e old (f old)) :
      item ∈ s.obligations ∨ ∃ old ∈ s.obligations, ObligationChange e old item := by
    rcases mem_updateFirst h with h | ⟨old, hold, hp, rfl⟩
    · exact .inl h
    · exact .inr ⟨old, hold, hchange old hp⟩
  have hnone {forward : ActivationId}
      (h : ¬ s.obligations.any (Obligation.isOf forward) = true) :
      ∀ other ∈ s.obligations, other.forward ≠ forward := fun other hother hforward =>
    h (List.any_eq_true.mpr ⟨other, hother, isOf_iff.mpr hforward⟩)
  rw [evolve_obligations] at h
  cases e with
  | leafSucceeded run a attempt output role =>
    dsimp only at h
    split at h
    · next hrole =>
      subst hrole
      exact (hupdated h fun _ _ => .compensated).imp_right .inl
    · exact .inl h
  | obligationRegistered run forward handler version input =>
    dsimp only at h
    split at h
    · refine (hupdated h fun old hold => ?_).imp_right .inl
      rw [← isOf_iff.mp hold]
      exact .registered
    · next hnew =>
      rcases List.mem_append.mp h with h | h
      · exact .inl h
      · exact .inr (.inr ⟨run, forward, handler, version, input, _, rfl, rfl,
          List.mem_singleton.mp h, hnone hnew⟩)
  | obligationBlocked run forward handler version reason =>
    dsimp only at h
    split at h
    · refine (hupdated h fun old hold => ?_).imp_right .inl
      rw [← isOf_iff.mp hold]
      exact .blocked
    · next hnew =>
      rcases List.mem_append.mp h with h | h
      · exact .inl h
      · exact .inr (.inr ⟨run, forward, handler, version, .null, _, rfl, rfl,
          List.mem_singleton.mp h, hnone hnew⟩)
  | compensationStarted run saga forward a handler version input error =>
    refine (hupdated h fun old hold => ?_).imp_right .inl
    rw [← isOf_iff.mp hold]
    exact .started
  | obligationTransferred forward fromSaga toSaga =>
    refine (hupdated h fun old hold => ?_).imp_right .inl
    rw [← isOf_iff.mp hold]
    exact .transferred
  | obligationReleased run forward =>
    refine (hupdated h fun old hold => ?_).imp_right .inl
    rw [← isOf_iff.mp hold]
    exact .released
  | compensationAbandoned run reason unresolved =>
    obtain ⟨old, hold, rfl⟩ := List.mem_map.mp h
    split
    · next habandoned => exact .inr (.inl ⟨old, hold, .abandoned habandoned.1⟩)
    · exact .inl hold
  | _ => exact .inl h

theorem ObligationChange.same {item' : Obligation} (h : ObligationChange e item item') :
    item'.forward = item.forward ∧ item'.run = item.run := by
  cases h <;> exact ⟨rfl, rfl⟩

/-! ## The invariant -/

/-- The activation is a saga that has begun and has not succeeded. -/
def Underway (s : Core) (a : ActivationId) : Prop :=
  (∃ act, s.activations.lookup a = some act ∧ act.status ≠ .succeeded) ∧
    ∃ k sc, s.scopes.lookup k = some sc ∧ sc.role = .sagaBody a

/-- Nothing is still to be done about the obligations of an activation. -/
def Cleared (s : Core) (a : ActivationId) : Prop :=
  ∀ item ∈ s.obligations, item.owner = a → item.status.isOwed = false

structure Owed (s : Core) : Prop where
  owned : ∀ item ∈ s.obligations, ∃ act, s.activations.lookup item.owner = some act ∧
    act.run = item.run
  held : ∀ item ∈ s.obligations, item.status.isOwed = true → Underway s item.owner
  answered : ∀ item ∈ s.obligations, ∃ act, s.activations.lookup item.forward = some act ∧
    act.run = item.run ∧ ¬ Live act

/-- The obligations of a forward activation are still owed. -/
def StillOwed (s : Core) (forward : ActivationId) : Prop :=
  ∀ item ∈ s.obligations, item.forward = forward → item.status.isOwed = true

/-- What an event has to respect about obligations. -/
def Bound (s : Core) : DomainEvent → Prop
  | .compensationStarted _ _ forward _ _ _ _ _ => StillOwed s forward
  | .obligationTransferred forward _ toSaga => ∀ item ∈ s.obligations, item.forward = forward →
    Underway s toSaga ∧ ∃ act, s.activations.lookup toSaga = some act ∧ act.run = item.run
  | e => ∀ run forward status, e.owes? = some (run, forward, status) →
    StillOwed s forward ∧ ((∀ item ∈ s.obligations, item.forward ≠ forward) →
      (∃ act, s.activations.lookup forward = some act ∧ act.run = run ∧ ¬ Live act) ∧
      (∃ act, s.activations.lookup ((sagaOwner s forward).getD forward) = some act ∧
        act.run = run) ∧
      (status.isOwed = true → Underway s ((sagaOwner s forward).getD forward)))

structure Owing (s : Core) (e : DomainEvent) : Prop where
  clear : ∀ a act, s.activations.lookup a = some act → statusAfter s e a act = .succeeded →
    act.status = .succeeded ∨ Cleared s a
  bound : Bound s e

/-! ## One event -/

theorem Underway.evolve (placed : Placed s e) (h : Underway s a)
    (hclear : ∀ act, s.activations.lookup a = some act → statusAfter s e a act = .succeeded →
      act.status = .succeeded) : Underway (Graphrun.evolve s e) a := by
  obtain ⟨⟨act, hact, hstatus⟩, k, sc, hk, hrole⟩ := h
  exact ⟨⟨_, placed.activation hact, fun hsucceeded => hstatus (hclear act hact hsucceeded)⟩, k, _,
    placed.scope hk, hrole⟩

/-- An activation that holds an obligation does not succeed. -/
theorem Owing.underway (placed : Placed s e) (owing : Owing s e) (hmem : item ∈ s.obligations)
    (howed : item.status.isOwed = true) (h : Underway s item.owner) :
    Underway (evolve s e) item.owner := by
  refine h.evolve placed fun act hact hsucceeded => ?_
  rcases owing.clear _ act hact hsucceeded with hbefore | hcleared
  · exact hbefore
  · rw [hcleared item hmem rfl] at howed
    cases howed

theorem idle_evolve (placed : Placed s e) (tokened : Tokened s e)
    (h : ∃ act, s.activations.lookup a = some act ∧ act.run = run ∧ ¬ Live act) :
    ∃ act, (evolve s e).activations.lookup a = some act ∧ act.run = run ∧ ¬ Live act := by
  obtain ⟨act, hact, hrun, hidle⟩ := h
  refine ⟨_, placed.activation hact, hrun, fun hlive => ?_⟩
  rcases live_of_statusAfter hlive with hbefore | hwakes
  · exact hidle hbefore
  · cases e with
    | waitOpened run w b signal key deadline consumeFrom =>
      obtain rfl := Option.some.inj hwakes
      obtain ⟨-, act', hact', -, -, hopen, -⟩ := tokened
      obtain rfl := Option.mem_unique hact hact'
      exact hidle (.inl hopen)
    | leafFailed run b attempt code message retry =>
      cases retry with
      | true =>
        obtain rfl := Option.some.inj hwakes
        exact hidle (.inr (tokened act hact))
      | false => cases hwakes
    | _ => cases hwakes

theorem owner_evolve (placed : Placed s e)
    (h : ∃ act, s.activations.lookup a = some act ∧ act.run = run) :
    ∃ act, (evolve s e).activations.lookup a = some act ∧ act.run = run := by
  obtain ⟨act, hact, hrun⟩ := h
  exact ⟨_, placed.activation hact, hrun⟩

theorem bound_owes {forward : ActivationId} {status : ObligationStatus} (bound : Bound s e)
    (howes : e.owes? = some (run, forward, status)) :
    StillOwed s forward ∧ ((∀ item ∈ s.obligations, item.forward ≠ forward) →
      (∃ act, s.activations.lookup forward = some act ∧ act.run = run ∧ ¬ Live act) ∧
      (∃ act, s.activations.lookup ((sagaOwner s forward).getD forward) = some act ∧
        act.run = run) ∧
      (status.isOwed = true → Underway s ((sagaOwner s forward).getD forward))) := by
  cases e with
  | obligationRegistered | obligationBlocked => exact bound _ _ _ howes
  | _ => cases howes

theorem Owed.held_change {item' : Obligation} (placed : Placed s e) (owing : Owing s e)
    (owed : Owed s) (hmem : item ∈ s.obligations) (change : ObligationChange e item item')
    (howed : item'.status.isOwed = true) : Underway (evolve s e) item'.owner := by
  have hkept (h : item.status.isOwed = true) : Underway (evolve s e) item.owner :=
    owing.underway placed hmem h (owed.held item hmem h)
  cases change with
  | compensated | released | abandoned => cases howed
  | registered => exact hkept ((bound_owes owing.bound rfl).1 item hmem rfl)
  | blocked => exact hkept ((bound_owes owing.bound rfl).1 item hmem rfl)
  | started =>
    have bound : StillOwed s item.forward := owing.bound
    exact hkept (bound item hmem rfl)
  | transferred =>
    obtain ⟨hunderway, -⟩ := owing.bound item hmem rfl
    exact hunderway.evolve placed fun _ _ h => h

theorem Owed.evolve (placed : Placed s e) (tokened : Tokened s e) (owing : Owing s e)
    (owed : Owed s) : Owed (Graphrun.evolve s e) where
  owned item hitem := by
    refine owner_evolve placed ?_
    rcases obligation_after_cases hitem with hold | ⟨old, hold, change⟩ |
      ⟨run, forward, handler, version, input, status, howes, -, rfl, hnew⟩
    · exact owed.owned item hold
    · rw [change.same.2]
      cases change with
      | transferred => exact (owing.bound old hold rfl).2
      | _ => exact owed.owned old hold
    · exact ((bound_owes owing.bound howes).2 hnew).2.1
  held item hitem howed := by
    rcases obligation_after_cases hitem with hold | ⟨old, hold, change⟩ |
      ⟨run, forward, handler, version, input, status, howes, -, rfl, hnew⟩
    · exact owing.underway placed hold howed (owed.held item hold howed)
    · exact owed.held_change placed owing hold change howed
    · have hunderway := ((bound_owes owing.bound howes).2 hnew).2.2 howed
      refine hunderway.evolve placed fun act _ h => ?_
      cases e <;> first | exact h | cases howes
  answered item hitem := by
    refine idle_evolve placed tokened ?_
    rcases obligation_after_cases hitem with hold | ⟨old, hold, change⟩ |
      ⟨run, forward, handler, version, input, status, howes, -, rfl, hnew⟩
    · exact owed.answered item hold
    · rw [change.same.1, change.same.2]
      exact owed.answered old hold
    · exact ((bound_owes owing.bound howes).2 hnew).1

/-! ## Other changes -/

theorem mem_obligations_quiet (change : Quiet s s') (h : item ∈ s'.obligations) :
    item ∈ s.obligations := by
  cases change with
  | admitted | stamped | dropped => exact h
  | retired => exact List.mem_of_mem_filter h

theorem Owed.quiet (change : Quiet s s') (tree : Tree s) (owed : Owed s) : Owed s' := by
  cases change with
  | admitted | stamped | dropped => exact { owed with }
  | @retired gone _ _ _ =>
    have hown {item : Obligation} (h : item ∈ (dropRun s gone).obligations) :
        item ∈ s.obligations ∧ item.run ≠ gone := by
      obtain ⟨hmem, hne⟩ := List.mem_filter.mp h
      exact ⟨hmem, by simpa using hne⟩
    have hkept {a : ActivationId} {act : ActivationState} (hact : s.activations.lookup a = some act)
        (hne : act.run ≠ gone) : (dropRun s gone).activations.lookup a = some act := by
      simp [dropRun, Table.lookup_retain, hact, hne]
    refine ⟨fun item hitem => ?_, fun item hitem howed => ?_, fun item hitem => ?_⟩
    · obtain ⟨hmem, hne⟩ := hown hitem
      obtain ⟨act, hact, hrun⟩ := owed.owned item hmem
      exact ⟨act, hkept hact (hrun ▸ hne), hrun⟩
    · obtain ⟨hmem, hne⟩ := hown hitem
      obtain ⟨act, hact, hrun⟩ := owed.owned item hmem
      obtain ⟨⟨act', hact', hstatus⟩, k, sc, hk, hrole⟩ := owed.held item hmem howed
      obtain rfl := Option.mem_unique hact hact'
      have hparent : sc.parent = some item.owner := (tree.parent k sc hk).trans (by rw [hrole]; rfl)
      have hscope := tree.hung k sc item.owner act hk hparent hact
      refine ⟨⟨act, hkept hact (hrun ▸ hne), hstatus⟩, k, sc, ?_, hrole⟩
      have hleft : sc.run ≠ gone := by
        rw [← hscope, hrun]
        exact hne
      simp [dropRun, Table.lookup_retain, hk, hleft]
    · obtain ⟨hmem, hne⟩ := hown hitem
      obtain ⟨act, hact, hrun, hidle⟩ := owed.answered item hmem
      exact ⟨act, hkept hact (hrun ▸ hne), hrun, hidle⟩

theorem owed_empty (clusterId : String) : Owed (State.empty clusterId).toCore where
  owned _ h := by cases h
  held _ h := by cases h
  answered _ h := by cases h

/-! ## Holding -/

/-- Around a scope that has not completed no saga has succeeded. -/
theorem underway_of_sagaOwner {skip : Option ActivationId} {fuel : Nat} {k : ScopeId}
    {g : ActivationId} (tree : Tree s) (nested : Nested s)
    (h : sagaOwnerFromScope s skip fuel k = some g) (hincomplete : Incomplete s k) :
    skip ≠ some g ∧ Underway s g ∧ ∃ act sc, s.activations.lookup g = some act ∧
      s.scopes.lookup k = some sc ∧ act.run = sc.run := by
  induction fuel generalizing k with
  | zero => cases h
  | succ fuel ih =>
    simp only [sagaOwnerFromScope, Option.bind_eq_bind, Option.bind_eq_some_iff] at h
    obtain ⟨sc, hk, h⟩ := h
    have hparent : ∀ a, sc.parent = some a → ∃ act, s.activations.lookup a = some act ∧
        act.run = sc.run ∧ act.status ≠ .succeeded := by
      intro a ha
      obtain ⟨act, hact, hrun⟩ := tree.parent_exists hk ha
      exact ⟨act, hact, hrun, nested.above k sc a act hk ha hact (hincomplete sc hk)⟩
    have habove (h : (sc.parent.bind fun a => (s.activations.lookup a).bind fun parent =>
        sagaOwnerFromScope s skip fuel parent.scope) = some g) :
        skip ≠ some g ∧ Underway s g ∧ ∃ act sc', s.activations.lookup g = some act ∧
          s.scopes.lookup k = some sc' ∧ act.run = sc'.run := by
      simp only [Option.bind_eq_some_iff] at h
      obtain ⟨a, ha, act, hact, h⟩ := h
      obtain ⟨act', hact', hrun, hstatus⟩ := hparent a ha
      obtain rfl := Option.mem_unique hact hact'
      have hnext := (nested.within a act hact (.inl hstatus)).incomplete hact
      obtain ⟨hskip, hunderway, owner, sc', howner, hsc', hown⟩ := ih h hnext
      obtain ⟨sc'', hsc'', hrun'⟩ := tree.placed a act hact
      obtain rfl := Option.mem_unique hsc' hsc''
      exact ⟨hskip, hunderway, owner, sc, howner, hk, hown.trans (hrun'.trans hrun)⟩
    cases hrole : sc.role with
    | sagaBody a =>
      simp only [hrole] at h
      split at h
      · exact habove h
      · next hskip =>
        obtain rfl := Option.some.inj h
        have ha : sc.parent = some a := (tree.parent k sc hk).trans (by rw [hrole]; rfl)
        obtain ⟨act, hact, hrun, hstatus⟩ := hparent a ha
        exact ⟨hskip, ⟨⟨act, hact, hstatus⟩, k, sc, hk, hrole⟩, act, sc, hact, hk, hrun⟩
    | _ =>
      simp only [hrole] at h
      exact habove h

theorem Underway.not_barren (tree : Tree s) (h : Underway s a) : ¬ Barren s a := by
  obtain ⟨-, k, sc, hk, hrole⟩ := h
  exact fun barren => barren k sc hk ((tree.parent k sc hk).trans (by rw [hrole]; rfl))

theorem Owed.cleared_of_not_underway (owed : Owed s) (h : ¬ Underway s a) :
    Cleared s a := by
  rintro item hitem rfl
  by_contra howed
  exact h (owed.held item hitem (by simpa using howed))

theorem Owed.cleared_of_barren (tree : Tree s) (owed : Owed s) (h : Barren s a) : Cleared s a :=
  owed.cleared_of_not_underway fun hunderway => hunderway.not_barren tree h

end Graphrun
