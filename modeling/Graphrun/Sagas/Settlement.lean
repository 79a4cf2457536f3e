import Graphrun.Claims.Successes
import Graphrun.Sagas.Obligations

/-!
# Moves settle obligations

What a command records respects the obligations that are owed (`Move.owing`), if an activity with
a compensation lies in a saga and a saga that succeeds holds no blocked obligation.
-/

namespace Graphrun

open Lib

variable {env : Env} {o : Enumeration} {s s' : Core} {e : DomainEvent} {time : Nat}
  {ids ids' : IdGen} {es : List DomainEvent} {run : RunId} {forward saga : ActivationId}
  {item : Obligation} {k : ScopeId} {error : FailError} {output : Value} {role : ExecutionRole}
  {w : WaitId} {wait : WaitState} {followed : List DomainEvent}

/-! ## Events that owe nothing -/

/-- The kinds of events by which an activation succeeds. -/
@[simp] def finishKinds : List EventKind :=
  [.scopeCompleted, .nodeOutputRecorded, .leafSucceeded, .waitSatisfied, .waitTimedOut]

@[simp] def owingKinds : List EventKind :=
  [.obligationRegistered, .obligationBlocked, .compensationStarted, .obligationTransferred]

theorem succeeded_of_kind {a : ActivationId} {act : ActivationState}
    (h : e.kind ∉ finishKinds) (hstatus : statusAfter s e a act = .succeeded) :
    act.status = .succeeded := by
  cases e <;> first
    | exact hstatus
    | (refine absurd ?_ h; simp; done)
    | (simp only [statusAfter] at hstatus; split at hstatus <;>
      first | exact hstatus | cases hstatus)
    | (simp only [statusAfter] at hstatus
       split at hstatus
       · split at hstatus <;> cases hstatus
       · exact hstatus)

theorem bound_of_kind (h : e.kind ∉ owingKinds) : Bound s e := by
  cases e <;> first
    | (refine absurd ?_ h; simp; done)
    | (intro _ _ _ howes; cases howes)

theorem owing_of_kind (h : e.kind ∉ finishKinds ++ owingKinds) : Owing s e where
  clear _ _ _ hstatus :=
    .inl (succeeded_of_kind (fun hmem => h (List.mem_append_left _ hmem)) hstatus)
  bound := bound_of_kind fun hmem => h (List.mem_append_right _ hmem)

theorem guarded_owing_of_kinds (h : ∀ e ∈ es, e.kind ∉ finishKinds ++ owingKinds) :
    Guarded Owing s es :=
  Guarded.of_all fun e he _ => owing_of_kind (h e he)

/-- Events that are bound and by which nothing succeeds. -/
theorem owing_of_bound (h : e.kind ∉ finishKinds) (bound : Bound s e) : Owing s e where
  clear _ _ _ hstatus := .inl (succeeded_of_kind h hstatus)
  bound := bound

theorem Owed.evolveAll (respects : Guarded Respects s es) (owing : Guarded Owing s es)
    (owed : Owed s) : Owed (Graphrun.evolveAll s es) :=
  (respects.and owing).keeps
    (fun _ _ guard howed => howed.evolve guard.1.placed guard.1.tokened guard.2) owed

/-! ## Closing down -/

/-- Closing down leaves what is owed owed. -/
theorem StillOwed.kept (h : StillOwed s forward)
    (hes : ∀ e ∈ es, e.kind ∈ EventKind.waitCancelled :: .reservationReleased :: markKinds) :
    StillOwed (evolveAll s es) forward := by
  refine evolveAll_keeps (P := (StillOwed · forward))
    (fun s e he h item hitem hforward => ?_) hes h
  rcases obligation_after_cases hitem with hold | ⟨old, hold, change⟩ |
    ⟨_, _, _, _, _, _, howes, -⟩
  · exact h item hold hforward
  · cases change with
    | started => rfl
    | _ => simp at he
  · cases e <;> cases howes <;> simp at he

theorem stillOwed_of_open (once : OneEach s) (hitem : item ∈ s.obligations)
    (howed : item.status.isOwed = true) : StillOwed s item.forward := by
  intro other hother hforward
  rw [List.inj_on_of_nodup_map once hother hitem hforward]
  exact howed

theorem guarded_owing_closing
    (hkinds : ∀ e ∈ es, e.kind ∈ EventKind.waitCancelled :: .reservationReleased :: markKinds)
    (hstarted : ∀ run saga forward a handler version input error,
      .compensationStarted run saga forward a handler version input error ∈ es →
        StillOwed s forward) : Guarded Owing s es := by
  refine guarded_iff.mpr fun before e after hes => ?_
  have hmem : e ∈ es := by simp [hes]
  have hbefore : ∀ e ∈ before, e.kind ∈ EventKind.waitCancelled :: .reservationReleased ::
      markKinds := fun e he => hkinds e (by simp [hes, he])
  have hkind := hkinds e hmem
  cases e with
  | compensationStarted run saga forward a handler version input error =>
    exact owing_of_bound (by simp) ((hstarted _ _ _ _ _ _ _ _ hmem).kept hbefore)
  | _ =>
    refine owing_of_kind ?_
    revert hkind
    simp

theorem Failing.owing (h : Failing o s k error es) :
    Guarded Owing s es :=
  guarded_owing_of_kinds (not_mem_of_kinds (h.kinds (List.Subset.refl failureKinds)) (by decide))

theorem mem_pendingObligations :
    item ∈ pendingObligations s saga ↔
      item ∈ s.obligations ∧ item.owner = saga ∧ item.status = .open := by
  simp [pendingObligations]

theorem Aborting.stillOwed {saga' a : ActivationId} {error' : FailError} {handler : String}
    {version : Nat} {input : Value} (once : OneEach s) (h : Aborting o s saga error es)
    (hmem : .compensationStarted run saga' forward a handler version input error' ∈ es) :
    StillOwed s forward := by
  cases h with
  | waiting => cases hmem
  | blocked | intent => simp at hmem
  | failed _ _ _ _ hfailing =>
    have hkind := hfailing.kinds (List.Subset.refl failureKinds) _ hmem
    simp at hkind
  | @compensating act item a' _ _ hitem =>
    simp only [List.mem_singleton, DomainEvent.compensationStarted.injEq] at hmem
    obtain ⟨-, -, rfl, -⟩ := hmem
    obtain ⟨hmem, -, hopen⟩ := mem_pendingObligations.mp (List.mem_of_getLast? hitem)
    exact stillOwed_of_open once hmem (by rw [hopen]; rfl)

/-! ## Success of a saga -/

/-- Transferring or releasing one obligation. -/
structure Settles (saga : ActivationId) (forward : ActivationId) (e : DomainEvent) : Prop where
  kind : e.kind ∈ [EventKind.obligationTransferred, .obligationReleased]
  applied : ∀ (s : Core) (item : Obligation), OneEach s → item ∈ (evolve s e).obligations →
    item.owner = saga → item.status.isOwed = true → item ∈ s.obligations ∧ item.forward ≠ forward

theorem settles_transferred {parent : ActivationId} (hne : parent ≠ saga) :
    Settles saga forward (.obligationTransferred forward saga parent) where
  kind := by simp
  applied s item once hitem howner howed := by
    rw [evolve_obligations] at hitem
    dsimp only at hitem
    by_cases hforward : item.forward = forward
    · obtain ⟨old, -, -, rfl⟩ := updated_of_key once (fun _ => isOf_iff) hitem
        hforward
      exact absurd howner hne
    · rcases mem_updateFirst hitem with hold | ⟨old, -, hp, rfl⟩
      · exact ⟨hold, hforward⟩
      · exact absurd (isOf_iff.mp hp) hforward

theorem settles_released :
    Settles saga forward (.obligationReleased run forward) where
  kind := by simp
  applied s item once hitem howner howed := by
    rw [evolve_obligations] at hitem
    dsimp only at hitem
    by_cases hforward : item.forward = forward
    · obtain ⟨old, -, -, rfl⟩ := updated_of_key once (fun _ => isOf_iff) hitem
        hforward
      cases howed
    · rcases mem_updateFirst hitem with hold | ⟨old, -, hp, rfl⟩
      · exact ⟨hold, hforward⟩
      · exact absurd (isOf_iff.mp hp) hforward

theorem settled_mem {forwards : List ActivationId} {f : ActivationId → DomainEvent}
    (hf : ∀ forward, Settles saga forward (f forward)) (once : OneEach s)
    (hitem : item ∈ (evolveAll s (forwards.map f)).obligations) (howner : item.owner = saga)
    (howed : item.status.isOwed = true) :
    item ∈ s.obligations ∧ item.forward ∉ forwards := by
  induction forwards generalizing s with
  | nil => exact ⟨hitem, List.not_mem_nil⟩
  | cons forward rest ih =>
    obtain ⟨hmid, hrest⟩ := ih once.evolve hitem
    obtain ⟨hold, hne⟩ := (hf forward).applied s item once hmid howner howed
    exact ⟨hold, List.not_mem_cons_of_ne_of_not_mem hne hrest⟩

/-- A saga that succeeds passes on or releases what is open. -/
theorem settleSagaSuccess_shape {act : ActivationState}
    (hact : s.activations.lookup saga = some act) :
    ∃ f : ActivationId → DomainEvent,
      settleSagaSuccess s saga = ((pendingObligations s saga).map (·.forward)).map f ∧
      ((∃ parent, parentSaga s saga = some parent ∧
        f = fun forward => .obligationTransferred forward saga parent) ∨
      (parentSaga s saga = none ∧ f = fun forward => .obligationReleased act.run forward)) := by
  unfold settleSagaSuccess
  cases hparent : parentSaga s saga with
  | some parent => exact ⟨_, rfl, .inl ⟨parent, rfl, rfl⟩⟩
  | none =>
    refine ⟨fun forward => .obligationReleased act.run forward, ?_, .inr ⟨rfl, rfl⟩⟩
    simp [hact]

theorem parentSaga_ne {parent : ActivationId} (tree : Tree s) (nested : Nested s)
    {act : ActivationState} (hact : s.activations.lookup saga = some act)
    (hincomplete : Incomplete s act.scope) (h : parentSaga s saga = some parent) :
    parent ≠ saga ∧ Underway s parent ∧
      ∃ owner, s.activations.lookup parent = some owner ∧ owner.run = act.run := by
  simp only [parentSaga, hact, Option.bind_eq_bind, Option.bind_some] at h
  obtain ⟨hskip, hunderway, owner, sc, howner, hsc, hrun⟩ :=
    underway_of_sagaOwner tree nested h hincomplete
  obtain ⟨sc', hsc', hown⟩ := tree.placed saga act hact
  obtain rfl := Option.mem_unique hsc hsc'
  exact ⟨fun heq => hskip (by rw [heq]), hunderway, owner, howner, hrun.trans hown⟩

theorem cleared_settleSagaSuccess {act : ActivationState} (tree : Tree s) (nested : Nested s)
    (once : OneEach s) (hact : s.activations.lookup saga = some act)
    (hincomplete : Incomplete s act.scope) (hflight : compensatingInFlight s saga = false)
    (hblocked : ∀ item ∈ s.obligations, item.owner = saga → item.status.isBlocked = false) :
    Cleared (evolveAll s (settleSagaSuccess s saga)) saga := by
  intro item hitem howner
  by_contra howed
  have howed : item.status.isOwed = true := by simpa using howed
  obtain ⟨f, hshape, hf⟩ := settleSagaSuccess_shape hact
  rw [hshape] at hitem
  have hsettles : ∀ forward, Settles saga forward (f forward) := by
    rcases hf with ⟨parent, hparent, rfl⟩ | ⟨-, rfl⟩
    · exact fun _ => settles_transferred (parentSaga_ne tree nested hact hincomplete hparent).1
    · exact fun _ => settles_released
  obtain ⟨hold, hnot⟩ := settled_mem hsettles once hitem howner howed
  cases hstatus : item.status with
  | «open» =>
    exact hnot (List.mem_map.mpr ⟨item, mem_pendingObligations.mpr ⟨hold, howner, hstatus⟩, rfl⟩)
  | compensating a =>
    have hany := List.any_eq_false.mp hflight item hold
    simp [howner, hstatus, ObligationStatus.isCompensating] at hany
  | blocked reason =>
    have hnone := hblocked item hold howner
    simp [hstatus, ObligationStatus.isBlocked] at hnone
  | compensated | released | irreversible | abandoned =>
    rw [hstatus] at howed
    cases howed

theorem obligation_origin (hes : ∀ e ∈ es, e.owes? = none)
    (hitem : item ∈ (evolveAll s es).obligations) :
    ∃ old ∈ s.obligations, old.forward = item.forward ∧ old.run = item.run := by
  induction es generalizing s with
  | nil => exact ⟨item, hitem, rfl, rfl⟩
  | cons e es ih =>
    obtain ⟨he, hes⟩ := List.forall_mem_cons.mp hes
    obtain ⟨mid, hmid, hforward, hrun⟩ := ih hes hitem
    rcases obligation_after_cases hmid with hold | ⟨old, hold, change⟩ |
      ⟨_, _, _, _, _, _, howes, -⟩
    · exact ⟨mid, hold, hforward, hrun⟩
    · exact ⟨old, hold, change.same.1.symm.trans hforward, change.same.2.symm.trans hrun⟩
    · rw [he] at howes
      cases howes

theorem Underway.kept {a : ActivationId} (placed : Guarded Placed s es)
    (hes : ∀ e ∈ es, e.kind ∉ finishKinds) (h : Underway s a) : Underway (evolveAll s es) a :=
  (placed.and (Guarded.of_all fun e he _ => hes e he)).keeps (P := (Underway · a))
    (fun _ _ guard h => h.evolve guard.1 fun _ _ hstatus => succeeded_of_kind guard.2 hstatus) h

theorem guarded_owing_settleSagaSuccess {act : ActivationState} (tree : Tree s) (nested : Nested s)
    (owed : Owed s) (once : OneEach s) (hact : s.activations.lookup saga = some act)
    (hincomplete : Incomplete s act.scope) (placed : Guarded Placed s (settleSagaSuccess s saga)) :
    Guarded Owing s (settleSagaSuccess s saga) := by
  obtain ⟨f, hshape, ⟨parent, hparent, rfl⟩ | ⟨-, rfl⟩⟩ := settleSagaSuccess_shape hact
  · obtain ⟨-, hunderway, owner, howner, hrun⟩ := parentSaga_ne tree nested hact hincomplete hparent
    refine guarded_iff.mpr fun before e after hes => ?_
    have hall : ∀ event ∈ before ++ e :: after,
        ∃ forward ∈ (pendingObligations s saga).map (·.forward),
          event = .obligationTransferred forward saga parent := by
      rw [← hes, hshape]
      intro event he
      obtain ⟨forward, hforward, rfl⟩ := List.mem_map.mp he
      exact ⟨forward, hforward, rfl⟩
    obtain ⟨forward, hforward, rfl⟩ := hall e (by simp)
    have hkinds : ∀ e ∈ before, e.kind = .obligationTransferred := by
      intro e he
      obtain ⟨_, -, rfl⟩ := hall e (List.mem_append_left _ he)
      rfl
    rw [hes, guarded_append] at placed
    refine owing_of_bound (by simp) fun item hitem hitem' => ⟨?_, ?_⟩
    · exact hunderway.kept placed.1 fun e he => by rw [hkinds e he]; simp
    · obtain ⟨owner', howner', hrun', -⟩ :=
        (keeps_evolveAll placed.1 owner.run).activations parent owner howner rfl
      refine ⟨owner', howner', ?_⟩
      -- The obligation is one of those that the saga holds.
      obtain ⟨old, hold, hsame, hrun''⟩ := obligation_origin (fun e he => by
        have hkind := hkinds e he
        cases e <;> first | rfl | cases hkind) hitem
      obtain ⟨pending, hpending, rfl⟩ := List.mem_map.mp hforward
      obtain ⟨hmem, hheld, -⟩ := mem_pendingObligations.mp hpending
      obtain rfl := List.inj_on_of_nodup_map once hold hmem (hsame.trans hitem')
      obtain ⟨act', hact', hown⟩ := owed.owned old hold
      rw [hheld] at hact'
      obtain rfl := Option.mem_unique hact hact'
      rw [hrun', hrun, hown, hrun'']
  · rw [hshape]
    refine guarded_owing_of_kinds fun e he => ?_
    obtain ⟨forward, -, rfl⟩ := List.mem_map.mp he
    simp

/-! ## Success of activations -/

section Success

variable {a : ActivationId} {act : ActivationState} {pre : List DomainEvent}

/-- The output of an activation without obligations may be recorded. -/
theorem owing_output (sound : Sound s) (hact : s.activations.lookup a = some act)
    (hforward : act.role = .forward) (hactive : Active s a act) (hpre : ∀ e ∈ pre, Calm e)
    (sound' : Sound (evolveAll s pre)) (owed' : Owed (evolveAll s pre))
    (hcleared : Cleared (evolveAll s pre) a) :
    Owing (evolveAll s pre) (.nodeOutputRecorded run act.scope act.node output) where
  clear b other hb hstatus := by
    simp only [statusAfter] at hstatus
    split at hstatus
    · next hlive =>
      right
      by_cases hrole : other.role = .forward
      · obtain ⟨old, hold, hrole', hscope, hactive'⟩ :=
          active_of_calm hpre hb hrole (.inl hlive.2.2)
        obtain rfl := sound.tokens.alone a b act old hact hold hforward hrole' hactive hactive'
          (hlive.1.symm.trans hscope.symm)
        exact hcleared
      · refine owed'.cleared_of_barren sound'.tree fun k sc hk hparent => hrole ?_
        exact sound'.nested.parents k sc b other hk hparent hb
    · exact .inl hstatus
  bound := bound_of_kind (by simp)

/-- An activation from which nothing hangs may succeed. -/
theorem owing_leafSucceeded {attempt : Nat} (tree : Tree s) (owed : Owed s) (barren : Barren s a) :
    Owing s (.leafSucceeded run a attempt output role) where
  clear b other hb hstatus := by
    simp only [statusAfter] at hstatus
    split at hstatus
    · next hba =>
      subst hba
      exact .inr (owed.cleared_of_barren tree barren)
    · exact .inl hstatus
  bound := bound_of_kind (by simp)

theorem clear_of_wait (tree : Tree s) (owed : Owed s) (hwait : s.waits.lookup w = some wait)
    (barren : Barren s wait.activation) {b : ActivationId} {other : ActivationState}
    (hstatus : (if (s.waits.lookup w).map (·.activation) = some b then .succeeded
      else other.status) = ActivationStatus.succeeded) :
    other.status = .succeeded ∨ Cleared s b := by
  split at hstatus
  · next hb =>
    rw [hwait] at hb
    obtain rfl := Option.some.inj hb
    exact .inr (owed.cleared_of_barren tree barren)
  · exact .inl hstatus

theorem owing_waitSatisfied {eventId : EventId} {payload : Value} (tree : Tree s) (owed : Owed s)
    (hwait : s.waits.lookup w = some wait) (barren : Barren s wait.activation) :
    Owing s (.waitSatisfied run w eventId payload) where
  clear _ _ _ hstatus := clear_of_wait tree owed hwait barren hstatus
  bound := bound_of_kind (by simp)

theorem owing_waitTimedOut (tree : Tree s) (owed : Owed s) (hwait : s.waits.lookup w = some wait)
    (barren : Barren s wait.activation) :
    Owing s (.waitTimedOut run w) where
  clear _ _ _ hstatus := clear_of_wait tree owed hwait barren hstatus
  bound := bound_of_kind (by simp)

/-- Where a scope completes no saga holds anything. -/
theorem owing_scopeCompleted {own : RunId} {output : Binding} {value : Value} (sound : Sound s)
    (owed : Owed s) (advancing : Advancing s run act (.complete output)) :
    Owing s (.scopeCompleted own act.scope value) where
  clear b other hb hstatus := by
    simp only [statusAfter] at hstatus
    split at hstatus
    · next hscope =>
      by_cases hdone : other.status = .succeeded
      · exact .inl hdone
      refine .inr (owed.cleared_of_not_underway fun hunderway => ?_)
      have hbarren := hunderway.not_barren sound.tree
      have hactive : Active s act.id act := .inl (.inl advancing.hopen)
      by_cases hrole : other.role = .forward
      · cases hlive : other.status with
        | «open» | ready =>
          have hsame := sound.tokens.alone b act.id other act hb advancing.hact hrole
            advancing.hforward (.inl (by simp [Live, hlive])) hactive hscope
          subst hsame
          exact hbarren (sound.nested.barren_of_leaf advancing.hact advancing.hnode rfl)
        | succeeded => exact hdone hlive
        | failed =>
          exact sound.nested.stuck b act.id other act hb advancing.hact hrole advancing.hforward
            hscope hlive hbarren hactive
      · refine hbarren fun k sc hk hparent => hrole ?_
        exact sound.nested.parents k sc b other hk hparent hb
    · exact .inl hstatus
  bound := bound_of_kind (by simp)

end Success

/-! ## Lying in a saga -/

/-- The scope is the body of a saga or lies below one. -/
inductive InSaga (s : Core) : ScopeId → Prop
  | body {k : ScopeId} {sc : ScopeState} {a : ActivationId} (hk : s.scopes.lookup k = some sc)
      (hrole : sc.role = .sagaBody a) : InSaga s k
  | inner {k : ScopeId} {sc : ScopeState} {a : ActivationId} {act : ActivationState}
      (hk : s.scopes.lookup k = some sc) (hparent : sc.parent = some a)
      (hact : s.activations.lookup a = some act) (above : InSaga s act.scope) : InSaga s k

theorem inSaga_of_sagaOwner {fuel : Nat} {g : ActivationId}
    (h : sagaOwnerFromScope s none fuel k = some g) : InSaga s k := by
  induction fuel generalizing k with
  | zero => cases h
  | succ fuel ih =>
    simp only [sagaOwnerFromScope, Option.bind_eq_bind, Option.bind_eq_some_iff] at h
    obtain ⟨sc, hk, h⟩ := h
    cases hrole : sc.role with
    | sagaBody a => exact .body hk hrole
    | _ =>
      simp only [hrole, Option.bind_eq_some_iff] at h
      obtain ⟨a, ha, act, hact, h⟩ := h
      exact .inner hk ha hact (ih h)

theorem InSaga.kept (placed : Guarded Placed s es) (h : InSaga s k) :
    InSaga (evolveAll s es) k := by
  induction h with
  | body hk hrole =>
    obtain ⟨sc', hk', -, -, hrole', -⟩ := (keeps_evolveAll placed _).scopes _ _ hk rfl
    exact .body hk' (hrole'.trans hrole)
  | inner hk hparent hact _ ih =>
    obtain ⟨sc', hk', -, hparent', -⟩ := (keeps_evolveAll placed _).scopes _ _ hk rfl
    obtain ⟨act', hact', -, hscope, -⟩ := (keeps_evolveAll placed _).activations _ _ hact rfl
    exact .inner hk' (hparent'.trans hparent) hact' (hscope ▸ ih)

/-- The climb from a scope that lies in a saga finds one. -/
theorem InSaga.sagaOwner (tree : Tree s) (h : InSaga s k) :
    ∀ n fuel, Grounded (scopeAbove s) n k → n < fuel →
      (sagaOwnerFromScope s none fuel k).isSome = true := by
  induction h with
  | body hk hrole =>
    intro n fuel _ hfuel
    obtain ⟨fuel, rfl⟩ := Nat.exists_eq_add_one_of_ne_zero (Nat.ne_of_gt (Nat.zero_lt_of_lt hfuel))
    simp [sagaOwnerFromScope, hk, hrole]
  | @inner k sc a act hk hparent hact _ ih =>
    intro n fuel hn hfuel
    obtain ⟨fuel, rfl⟩ := Nat.exists_eq_add_one_of_ne_zero (Nat.ne_of_gt (Nat.zero_lt_of_lt hfuel))
    obtain ⟨sc', hsc', -⟩ := tree.placed a act hact
    obtain ⟨region, hregion⟩ := tree.region act.scope sc' hsc'
    have hup := scopeAbove_eq hk ((tree.parent k sc hk).symm.trans hparent) hact hregion
    cases hn with
    | root hnone =>
      rw [hup] at hnone
      cases hnone
    | @step n _ _ hstep rest =>
      obtain rfl := Option.mem_unique hup hstep
      have habove := ih n fuel rest (by omega)
      cases hrole : sc.role <;> simp [sagaOwnerFromScope, hk, hparent, hact, habove, hrole]

theorem InSaga.sagaOwner_isSome {a : ActivationId} {act : ActivationState} (tree : Tree s)
    (hact : s.activations.lookup a = some act) (h : InSaga s act.scope) :
    (Graphrun.sagaOwner s a).isSome = true := by
  obtain ⟨sc, hsc, -⟩ := tree.placed a act hact
  obtain ⟨region, hregion⟩ := tree.region act.scope sc hsc
  obtain ⟨n, hn⟩ := hregion.grounded
  simpa [Graphrun.sagaOwner, hact] using h.sagaOwner tree n _ hn (height_lt hsc hn)

/-- An obligation may be registered for an activation that has just succeeded. -/
theorem bound_registered {a : ActivationId} {act : ActivationState} {status : ObligationStatus}
    (sound : Sound s) (howes : e.owes? = some (run, a, status))
    (hact : s.activations.lookup a = some act) (hrun : act.run = run) (hidle : ¬ Live act)
    (hnone : ∀ item ∈ s.obligations, item.forward ≠ a) (hincomplete : Incomplete s act.scope)
    (hinside : status.isOwed = true → InSaga s act.scope) : Bound s e := by
  have hbound : StillOwed s a ∧ ((∀ item ∈ s.obligations, item.forward ≠ a) →
      (∃ act, s.activations.lookup a = some act ∧ act.run = run ∧ ¬ Live act) ∧
      (∃ act, s.activations.lookup ((sagaOwner s a).getD a) = some act ∧ act.run = run) ∧
      (status.isOwed = true → Underway s ((sagaOwner s a).getD a))) := by
    refine ⟨fun item hitem hforward => absurd hforward (hnone item hitem), fun _ =>
      ⟨⟨act, hact, hrun, hidle⟩, ?_⟩⟩
    cases howner : sagaOwner s a with
    | some g =>
      have hclimb := howner
      simp only [sagaOwner, hact, Option.bind_eq_bind, Option.bind_some] at hclimb
      obtain ⟨-, hunderway, owner, sc, hown, hsc, hsame⟩ :=
        underway_of_sagaOwner sound.tree sound.nested hclimb hincomplete
      obtain ⟨sc', hsc', hplaced⟩ := sound.tree.placed a act hact
      obtain rfl := Option.mem_unique hsc hsc'
      exact ⟨⟨owner, hown, hsame.trans (hplaced.trans hrun)⟩, fun _ => hunderway⟩
    | none =>
      refine ⟨⟨act, hact, hrun⟩, fun howed => ?_⟩
      have hsome := (hinside howed).sagaOwner_isSome sound.tree hact
      rw [howner] at hsome
      cases hsome
  cases e <;> cases howes
  all_goals
    intro run' forward' status' howes'
    cases howes'
    exact hbound

/-- What is owed may be registered again. -/
theorem bound_again {status : ObligationStatus} (howes : e.owes? = some (run, item.forward, status))
    (hitem : item ∈ s.obligations) (hstill : StillOwed s item.forward) : Bound s e := by
  cases e <;> cases howes
  all_goals
    intro run' forward' status' howes'
    cases howes'
    exact ⟨hstill, fun hnone => absurd rfl (hnone item hitem)⟩

/-! ## Moves -/

/-- No saga of the run whose body has completed holds a blocked obligation. -/
def SagasClear (s : Core) (run : RunId) : Prop :=
  ∀ act input body next, Advancing s run act (.saga input body next) →
    ∀ k sc, s.scopes.lookup k = some sc → sc.role = .sagaBody act.id →
      sc.status.isCompleted = true → ∀ item ∈ s.obligations, item.owner = act.id →
        item.status.isBlocked = false

/-- The node is an activity with a compensating activity. -/
def Node.compensates : Node → Bool
  | .activity _ _ _ _ (some (.activity ..)) _ => true
  | _ => false

/-- An activity with a compensating activity lies in a saga. -/
def Enclosed (s : Core) (a : ActivationId) : Prop :=
  ∀ act node, s.activations.lookup a = some act → nodeOf s act.scope act.node = some node →
    node.compensates = true → (sagaOwner s a).isSome = true

section Moves

variable {a : ActivationId} {act : ActivationState} {node : Node} {pre : List DomainEvent}

theorem owing_follow
    (hfollowed : Onward act.scope followed) :
    Guarded Owing s followed := by
  rcases hfollowed with rfl | ⟨run, b, next, rfl⟩
  · trivial
  · exact ⟨owing_of_kind (by simp), trivial⟩

/-- An output of an activation that holds nothing, and what follows. -/
theorem guarded_owing_output {post : List DomainEvent} (sound : Sound s) (owed : Owed s)
    (hact : s.activations.lookup a = some act) (hforward : act.role = .forward)
    (hactive : Active s a act) (hpre : ∀ e ∈ pre, Calm e) (respects : Guarded Respects s
      (pre ++ .nodeOutputRecorded run act.scope act.node output :: post))
    (owing : Guarded Owing s pre) (hcleared : Cleared (evolveAll s pre) a)
    (hpost : Guarded Owing
      (evolveAll s (pre ++ [.nodeOutputRecorded run act.scope act.node output])) post) :
    Guarded Owing s (pre ++ .nodeOutputRecorded run act.scope act.node output :: post) := by
  have hrespects := (guarded_append.mp respects).1
  refine guarded_append.mpr ⟨owing, ?_, ?_⟩
  · exact owing_output sound hact hforward hactive hpre (sound.evolveAll hrespects)
      (owed.evolveAll hrespects owing) hcleared
  · simpa [evolveAll] using hpost

/-- An output of an activation from which nothing hangs. -/
theorem guarded_owing_barren {post : List DomainEvent} (sound : Sound s) (owed : Owed s)
    (hact : s.activations.lookup a = some act) (hforward : act.role = .forward)
    (hactive : Active s a act) (barren : Barren s a)
    (hpre : ∀ e ∈ pre, Calm e ∧ e.kind ≠ .scopeOpened) (respects : Guarded Respects s
      (pre ++ .nodeOutputRecorded run act.scope act.node output :: post))
    (owing : Guarded Owing s pre)
    (hpost : Guarded Owing
      (evolveAll s (pre ++ [.nodeOutputRecorded run act.scope act.node output])) post) :
    Guarded Owing s (pre ++ .nodeOutputRecorded run act.scope act.node output :: post) := by
  have hrespects := (guarded_append.mp respects).1
  refine guarded_owing_output sound owed hact hforward hactive (fun e he => (hpre e he).1) respects
    owing ?_ hpost
  exact (owed.evolveAll hrespects owing).cleared_of_barren (sound.evolveAll hrespects).tree
    (barren.kept fun e he => (hpre e he).2)

/-- What is not a saga holds nothing, and neither does it after events that open no scope. -/
theorem cleared_of_node (sound : Sound s) (hact : s.activations.lookup a = some act)
    (hnode : nodeOf s act.scope act.node = some node) (hsaga : node.isSaga = false)
    (hpre : ∀ e ∈ pre, e.kind ≠ .scopeOpened) (owed : Owed (evolveAll s pre)) :
    Cleared (evolveAll s pre) a := by
  refine owed.cleared_of_not_underway ?_
  rintro ⟨-, k, sc, hk, hrole⟩
  obtain ⟨old, hold, -, -, hrole'⟩ := scope_of_kinds hpre hk
  have hold' : old.parent = some a := (sound.tree.parent k old hold).trans (by
    rw [hrole', hrole]
    rfl)
  have hfits := sound.nested.fits k old a act node hold hold' hact hnode
  rw [hrole', hrole] at hfits
  cases node with
  | saga => cases hsaga
  | _ => cases hfits

theorem guarded_owing_aborting (once : OneEach s) (h : Aborting o s saga error es) :
    Guarded Owing s es :=
  guarded_owing_closing h.closing.kinds fun _ _ _ _ _ _ _ _ hmem => h.stillOwed once hmem

theorem role_of_fits_saga {role : ScopeRole} {node : Node} {a : ActivationId}
    (h : role.fits node = true) (hsaga : node.isSaga = true) (hrole : role.activation? = some a) :
    role = .sagaBody a := by
  cases node with
  | saga =>
    cases role with
    | sagaBody => simpa [ScopeRole.activation?] using hrole
    | _ => cases h
  | _ => cases hsaga

/-- What progress of a saga records. -/
theorem NodeMove.owing_saga {input : Binding} {body : Region} {next : NodeKey} (sound : Sound s)
    (owed : Owed s) (once : OneEach s) (clear : SagasClear s run)
    (respects : Guarded Respects s es) (advancing : Advancing s run act (.saga input body next))
    (move : NodeMove o s run time act (.saga input body next) es) : Guarded Owing s es := by
  cases move with
  | timer hnode | joined hnode | cancelled hnode => cases hnode
  | finished _ _ _ _ _ hsaga => cases hsaga
  | childFailed _ _ hfailing => exact hfailing.owing
  | aborted _ _ haborting => exact guarded_owing_aborting once haborting
  | childOpened hguards =>
    exact guarded_owing_of_kinds (not_mem_of_kinds (kinds_childOpened hguards) (by decide))
  | settled hflight _ hchild hdone hfollowed =>
    have hincomplete := (advancing.uncompleted sound.nested).incomplete advancing.hact
    have hrespects := (guarded_append.mp respects).1
    have howing : Guarded Owing s (settleSagaSuccess s act.id) :=
      guarded_owing_settleSagaSuccess sound.tree sound.nested owed once advancing.hact hincomplete
        (hrespects.mono fun _ _ h => h.placed)
    refine guarded_owing_output sound owed advancing.hact advancing.hforward
      (.inl (.inl advancing.hopen)) ?_ respects howing ?_ (owing_follow hfollowed.onward)
    · exact settleSagaSuccess_all (fun _ _ => ⟨rfl, rfl⟩) fun _ _ => ⟨rfl, rfl⟩
    · refine cleared_settleSagaSuccess sound.tree sound.nested once advancing.hact
        hincomplete hflight ?_
      obtain ⟨hmem, -⟩ := childOf_eq_some hchild
      obtain ⟨⟨k, hk⟩, hparent⟩ := mem_childrenOf.mp hmem
      refine clear act input body next advancing k _ hk ?_ (by rw [hdone]; rfl)
      have hfits := sound.nested.fits k _ _ act _ hk hparent advancing.hact advancing.hnode
      exact role_of_fits_saga hfits rfl ((sound.tree.parent k _ hk).symm.trans hparent)

/-- A signal that is taken as soon as its wait has opened. -/
theorem guarded_owing_taken {signal key : String} {deadline : Option Nat}
    {consumeFrom : ConsumeFrom} {eventId : EventId} {payload : Value} (sound : Sound s)
    (owed : Owed s)
    (respects : Guarded Respects s (.waitOpened act.run w act.id signal key deadline consumeFrom ::
      .waitSatisfied act.run w eventId payload ::
      .nodeOutputRecorded act.run act.scope act.node payload :: followed))
    (advancing : Advancing s run act node) (hleaf : node.isLeaf = true)
    (hfollowed : Onward act.scope followed) :
    Guarded Owing s (.waitOpened act.run w act.id signal key deadline consumeFrom ::
      .waitSatisfied act.run w eventId payload ::
      .nodeOutputRecorded act.run act.scope act.node payload :: followed) := by
  have hopened : Owing s (.waitOpened act.run w act.id signal key deadline consumeFrom) :=
    owing_of_kind (by simp)
  refine ⟨hopened, ?_⟩
  obtain ⟨first, rest⟩ := respects
  have sound' := sound.evolve first
  have owed' := owed.evolve first.placed first.tokened hopened
  obtain ⟨act', hact', -, hscope, hnode, hrole⟩ :=
    (keeps_evolve first.placed act.run).activations act.id act advancing.hact rfl
  obtain ⟨wait, hwait, hown, hpending⟩ : ∃ wait, (evolve s (.waitOpened act.run w act.id signal
      key deadline consumeFrom)).waits.lookup w = some wait ∧ _ := wait_of_waitOpened
  have hbarren : Barren (evolve s (.waitOpened act.run w act.id signal key deadline
      consumeFrom)) act.id :=
    barren_of_wakes (a := act.id) rfl
      (sound.nested.barren_of_leaf advancing.hact advancing.hnode hleaf)
  have hsatisfied : Guarded Owing _ [.waitSatisfied act.run w eventId payload] :=
    ⟨owing_waitSatisfied sound'.tree owed' hwait (hown ▸ hbarren), trivial⟩
  have hguarded : Guarded Owing (evolve s (.waitOpened act.run w act.id signal key deadline
      consumeFrom)) ([.waitSatisfied act.run w eventId payload] ++
      .nodeOutputRecorded act.run act'.scope act'.node payload :: followed) := by
    refine guarded_owing_barren sound' owed' hact' (hrole.trans advancing.hforward)
      (.inr ⟨w, wait, hwait, hown, hpending⟩) hbarren ?_ ?_ hsatisfied ?_
    · simp [Calm, DomainEvent.wakes?, DomainEvent.opensForward?]
    · rw [hscope, hnode]
      exact rest
    · exact owing_follow hfollowed
  rw [hscope, hnode] at hguarded
  exact hguarded

theorem NodeMove.owing (sound : Sound s) (owed : Owed s) (respects : Guarded Respects s es)
    (advancing : Advancing s run act node) (hsaga : node.isSaga = false)
    (move : NodeMove o s run time act node es) : Guarded Owing s es := by
  have hactive : Active s act.id act := .inl (.inl advancing.hopen)
  have hfinishes {output : Value} {followed : List DomainEvent} (pre : List DomainEvent)
      (hes : es = pre ++ .nodeOutputRecorded act.run act.scope act.node output :: followed)
      (hpre : ∀ e ∈ pre, e.kind = .guardRecorded)
      (hfollowed : Followed s act.scope act.node followed) : Guarded Owing s es := by
    subst hes
    have hrespects := (guarded_append.mp respects).1
    have howing : Guarded Owing s pre := guarded_owing_of_kinds fun e he => by
      rw [hpre e he]
      simp
    refine guarded_owing_output sound owed advancing.hact advancing.hforward hactive
      (fun e he => ?_) respects howing ?_ (owing_follow hfollowed.onward)
    · have hkind := hpre e he
      cases e <;> first | exact ⟨rfl, rfl⟩ | cases hkind
    · refine cleared_of_node sound advancing.hact advancing.hnode hsaga (fun e he => ?_)
        (owed.evolveAll hrespects howing)
      rw [hpre e he]
      simp
  have hguards {guards : List DomainEvent} (h : Guards o s act node guards) :
      ∀ e ∈ guards, e.kind = .guardRecorded := h.all fun _ _ _ => rfl
  cases move with
  | reopened | timer | waiting | due => exact ⟨owing_of_kind (by simp), trivial⟩
  | completed hscope =>
    have hid := sound.tree.keyed.scopes _ _ hscope
    refine ⟨hid ▸ owing_scopeCompleted sound owed advancing, ?_⟩
    split
    · exact ⟨owing_of_kind (by simp), trivial⟩
    · trivial
  | failed hfailing | conflict _ hfailing | childFailed _ _ hfailing => exact hfailing.owing
  | taken _ _ _ _ hfollowed =>
    exact guarded_owing_taken sound owed respects advancing rfl hfollowed.onward
  | finished _ hg _ hfollowed => exact hfinishes _ rfl (hguards hg) hfollowed
  | skipped _ _ _ hfollowed => exact hfinishes [] rfl (List.forall_mem_nil _) hfollowed
  | joined _ hfollowed => exact hfinishes [] rfl (List.forall_mem_nil _) hfollowed
  | settled => cases hsaga
  | childOpened hg =>
    exact guarded_owing_of_kinds (not_mem_of_kinds (kinds_childOpened hg) (by decide))
  | cancelled _ _ _ hcancelled hown =>
    exact guarded_owing_of_kinds (not_mem_of_kinds (kinds_cancelled hcancelled hown) (by decide))
  | aborted => cases hsaga

/-- What an accepted result owes. -/
theorem compensationEvents_shape (h : compensationEvents s act output = .ok es) :
    es = [] ∨ ∃ e status, es = [e] ∧ e.owes? = some (act.run, act.id, status) ∧
      (status.isOwed = true →
        ∃ node, nodeOf s act.scope act.node = some node ∧ node.compensates = true) := by
  unfold compensationEvents at h
  split at h
  · next hnode =>
    have hcompensates : ∃ node, nodeOf s act.scope act.node = some node ∧ node.compensates = true :=
      ⟨_, hnode, rfl⟩
    split at h
    · exact .inl (pure_eq_ok.mp h).symm
    · simp only [bind_eq_ok] at h
      obtain ⟨ctx, -, bound, -, h⟩ := h
      split at h <;> exact .inr ⟨_, _, (pure_eq_ok.mp h).symm, rfl, fun _ => hcompensates⟩
  · exact .inr ⟨_, _, (pure_eq_ok.mp h).symm, rfl, fun howed => by cases howed⟩
  · exact .inl (pure_eq_ok.mp h).symm

/-- What an accepted result owes is registered inside of a saga. -/
theorem guarded_owing_compensation {owes : List DomainEvent} (sound : Sound s) (owed : Owed s)
    (respects : Guarded Respects s pre) (hact : s.activations.lookup a = some act)
    (hready : act.status = .ready) (enclosed : Enclosed s a)
    (howes : compensationEvents s act output = .ok owes)
    (hpre : ∀ e ∈ pre, e.owes? = none ∧ e.kind ∉ [.scopeOpened, .scopeCompleted])
    (hidle : ∃ act', (evolveAll s pre).activations.lookup a = some act' ∧ act'.run = act.run ∧
      ¬ Live act') : Guarded Owing (evolveAll s pre) owes := by
  rcases compensationEvents_shape howes with rfl | ⟨e, status, rfl, howes, hnode⟩
  · trivial
  have hid := sound.tree.keyed.activations a act hact
  have hplaced := respects.mono fun _ _ h => h.placed
  obtain ⟨act', hact', hrun', hidle⟩ := hidle
  obtain ⟨same, hsame, -, hscope, -⟩ := (keeps_evolveAll hplaced act.run).activations a act hact rfl
  obtain rfl := Option.mem_unique hact' hsame
  rw [hid] at howes
  refine ⟨owing_of_bound ?_ (bound_registered (sound.evolveAll respects) howes hact' hrun' hidle ?_
    ?_ ?_), trivial⟩
  · cases e <;> first | cases howes; done | simp
  · intro item hitem hforward
    obtain ⟨old, hold, hsame, -⟩ := obligation_origin (fun e he => (hpre e he).1) hitem
    obtain ⟨other, hother, -, hnot⟩ := owed.answered old hold
    rw [hsame, hforward, hact] at hother
    obtain rfl := Option.some.inj hother
    exact hnot (.inr hready)
  · rw [hscope]
    have huncompleted := sound.nested.within a act hact (.inl (by simp [hready]))
    exact (huncompleted.incomplete hact).kept fun e he => (hpre e he).2
  · intro howed
    rw [hscope]
    obtain ⟨node, hnode, hcompensates⟩ := hnode howed
    obtain ⟨g, hg⟩ := Option.isSome_iff_exists.mp (enclosed act node hact hnode hcompensates)
    simp only [sagaOwner, hact, Option.bind_eq_bind, Option.bind_some] at hg
    exact (inSaga_of_sagaOwner hg).kept hplaced

/-- A result, with what its probe records. -/
theorem guarded_owing_result {probe : List DomainEvent} (sound : Sound s) (owed : Owed s)
    (barren : Barren s a) (respects : Guarded Respects s probe)
    (hprobe : ∀ e ∈ probe, e.kind = .reconciliationRecorded) :
    Guarded Owing s (probe ++ [.leafSucceeded run a 1 output role]) := by
  have howing : Guarded Owing s probe := guarded_owing_of_kinds fun e he => by
    rw [hprobe e he]
    simp
  refine guarded_append.mpr ⟨howing, ?_, trivial⟩
  refine owing_leafSucceeded (sound.evolveAll respects).tree (owed.evolveAll respects howing)
    (barren.kept fun e he => ?_)
  rw [hprobe e he]
  simp

theorem idle_of_leafSucceeded {attempt : Nat} (hact : s.activations.lookup a = some act) :
    ∃ act', (evolve s (.leafSucceeded run a attempt output role)).activations.lookup a = some act' ∧
      act'.run = act.run ∧ ¬ Live act' := by
  refine ⟨act.after s (.leafSucceeded run a attempt output role) a, ?_, rfl, ?_⟩
  · rw [lookup_activations_evolve]
    simp [activationAfter, newActivation, hact]
  · simp [Live, ActivationState.after, statusAfter]

/-- An accepted result. -/
theorem guarded_owing_accepted {body : CommandBody} {probe owes : List DomainEvent}
    (sound : Sound s) (owed : Owed s)
    (respects : Guarded Respects s ((probe ++ [.leafSucceeded run a 1 output .forward]) ++
      .nodeOutputRecorded run act.scope act.node output :: (owes ++ followed)))
    (hreported : Reported s body run a act) (hforward : act.role = .forward)
    (hprobe : ∀ e ∈ probe, e.kind = .reconciliationRecorded) (enclosed : Enclosed s a)
    (howes : compensationEvents s act output = .ok owes)
    (hfollowed : Onward act.scope followed) :
    Guarded Owing s ((probe ++ [.leafSucceeded run a 1 output .forward]) ++
      .nodeOutputRecorded run act.scope act.node output :: (owes ++ followed)) := by
  obtain ⟨-, hbarren⟩ := sound.nested.of_reported hreported
  have hrespects := (guarded_append.mp respects).1
  have hwhole : Guarded Respects s ((probe ++ [.leafSucceeded run a 1 output .forward]) ++
      [.nodeOutputRecorded run act.scope act.node output]) :=
    guarded_append.mpr ⟨hrespects, (guarded_append.mp respects).2.1, trivial⟩
  have hpre : ∀ e ∈ probe ++ [.leafSucceeded run a 1 output .forward],
      (Calm e ∧ e.kind ≠ .scopeOpened) ∧ e.owes? = none ∧
        e.kind ∉ [.scopeOpened, .scopeCompleted] := by
    refine List.forall_mem_append.mpr ⟨fun e he => ?_, by
      simp [Calm, DomainEvent.wakes?, DomainEvent.opensForward?, DomainEvent.owes?]⟩
    have hkind := hprobe e he
    cases e <;> first
      | cases hkind; done
      | simp [Calm, DomainEvent.wakes?, DomainEvent.opensForward?, DomainEvent.owes?]
  refine guarded_owing_barren sound owed hreported.hact hforward (.inl (.inr hreported.hready))
    hbarren (fun e he => (hpre e he).1) respects
    (guarded_owing_result sound owed hbarren (guarded_append.mp hrespects).1 hprobe)
    (guarded_append.mpr ⟨?_, owing_follow hfollowed⟩)
  refine guarded_owing_compensation sound owed hwhole hreported.hact hreported.hready enclosed howes
    (List.forall_mem_append.mpr ⟨fun e he => (hpre e he).2, by simp [DomainEvent.owes?]⟩) ?_
  -- The activation has succeeded by its result.
  obtain ⟨mid, hmid, hrun, -⟩ := (keeps_evolveAll ((guarded_append.mp hrespects).1.mono
    fun _ _ h => h.placed) act.run).activations a act hreported.hact rfl
  obtain ⟨act', hact', hsame, hidle⟩ := idle_of_leafSucceeded hmid
  simp only [evolveAll, List.foldl_append, List.foldl_cons, List.foldl_nil] at hact' ⊢
  have hlast := (guarded_append.mp respects).2.1
  simp only [evolveAll, List.foldl_append, List.foldl_cons, List.foldl_nil] at hlast
  exact idle_evolve hlast.placed hlast.tokened ⟨act', hact', hsame.trans hrun, hidle⟩

theorem Move.owing {body : CommandBody} (sound : Sound s) (owed : Owed s) (once : OneEach s)
    (respects : Guarded Respects s es) (clear : ∀ run, body = .progress run → SagasClear s run)
    (enclosed : ∀ run a, body.reported? = some (run, a) → Enclosed s a)
    (move : Move env o s time body es) : Guarded Owing s es := by
  have hother : (∀ k ∈ body.kinds, k ∉ finishKinds ++ owingKinds) → Guarded Owing s es :=
    fun h => guarded_owing_of_kinds fun e he => h _ (move.kinds e he)
  have hprobes : ∀ {run a act probe}, AppliedProbe run a act probe →
      ∀ e ∈ probe, e.kind = .reconciliationRecorded := fun hprobe => hprobe.all fun _ _ => rfl
  cases move with
  | @accepted _ run a act output probe owes followed hreported hrole hprobe howes hfollowed =>
    have hforward := (sound.tokens.roles a act hreported.hact).resolve_right hrole
    rw [List.append_cons] at respects ⊢
    exact guarded_owing_accepted sound owed respects hreported hforward (hprobes hprobe)
      (enclosed run a hreported.hbody) howes
      (onward_or hfollowed)
  | @compensated _ run a act output probe item hreported hrole hprobe hitem hrun =>
    exact guarded_owing_result sound owed (sound.nested.of_reported hreported).2
      (guarded_append.mp respects).1 (hprobes hprobe)
  | retried | lost | renewed => exact guarded_owing_of_kinds (by simp)
  | @blocked _ run a act attempt code message item hreported hrole hitem =>
    refine ⟨owing_of_kind (by simp), owing_of_bound (by simp) ?_, trivial⟩
    have hmem := List.mem_of_find?_eq_some hitem
    have hstatus : item.status = .compensating a := by
      simpa [Obligation.isCompensating] using List.find?_some hitem
    exact bound_again rfl hmem (stillOwed_of_open once hmem (by rw [hstatus]; rfl))
  | erred _ _ hfailing =>
    exact guarded_owing_of_kinds (not_mem_of_kinds (kinds_erred hfailing) (by decide))
  | notApplied _ _ hsettled =>
    exact guarded_owing_of_kinds (not_mem_of_kinds (kinds_notApplied hsettled) (by decide))
  | unknown _ _ hfailure hescalated =>
    exact guarded_owing_of_kinds (not_mem_of_kinds (kinds_unknown hfailure hescalated) (by decide))
  | @resolved run forward input item hitem hrun hblocked =>
    refine ⟨owing_of_bound (by simp) ?_, trivial⟩
    have hmem := List.mem_of_find?_eq_some hitem
    obtain rfl : item.forward = forward := by simpa using List.find?_some hitem
    refine bound_again rfl hmem (stillOwed_of_open once hmem ?_)
    cases hstatus : item.status <;> simp_all [ObligationStatus.isBlocked, ObligationStatus.isOwed]
  | @satisfied _ run w wait act entry followed hsettling hentry hfollowed =>
    obtain ⟨act', hact', hforward, -⟩ :=
      sound.tokens.waiting w wait hsettling.hwait hsettling.hpending
    obtain rfl := Option.mem_unique hsettling.hact hact'
    have hawaited : Awaited s wait.activation := ⟨w, wait, hsettling.hwait, rfl, hsettling.hpending⟩
    have hbarren := sound.nested.barren _ act hact' (.inr hawaited)
    have hsatisfied : Guarded Owing s [.waitSatisfied run w entry.eventId entry.payload] :=
      ⟨owing_waitSatisfied sound.tree owed hsettling.hwait hbarren, trivial⟩
    exact guarded_owing_barren sound owed hact' hforward (.inr hawaited) hbarren
      (by simp [Calm, DomainEvent.wakes?, DomainEvent.opensForward?]) respects hsatisfied
      (owing_follow hfollowed.onward)
  | @timedOut _ run w wait act node next sc a hsettling hdeadline hentry hnode hnext hscope =>
    obtain ⟨act', hact', -⟩ := sound.tokens.waiting w wait hsettling.hwait hsettling.hpending
    have hawaited : Awaited s wait.activation := ⟨w, wait, hsettling.hwait, rfl, hsettling.hpending⟩
    exact ⟨owing_waitTimedOut sound.tree owed hsettling.hwait
      (sound.nested.barren _ act' hact' (.inr hawaited)), owing_of_kind (by simp), trivial⟩
  | @advanced run act node es ids ids' hadvancing _ hmove =>
    cases hsaga : node.isSaga with
    | false => exact hmove.owing sound owed respects hadvancing hsaga
    | true =>
      cases node with
      | saga => exact hmove.owing_saga sound owed once (clear run rfl) respects hadvancing
      | _ => cases hsaga
  | cancelled _ _ _ _ hfailing => exact hfailing.owing
  | @cancelledSagas run reason runState es ids hrun hactive hes =>
    have hclosing := (closing_closePendingWaits o s run).append (closing_cancelSagas hes)
    refine guarded_owing_closing hclosing.kinds ?_
    intro own saga forward a handler version input error hmem
    rcases List.mem_append.mp hmem with hmem | hmem
    · refine absurd rfl (closePendingWaits_all (P := fun e => e.kind ≠ .compensationStarted)
        (fun _ _ hkind => by cases hkind) (fun _ hkind => by cases hkind) _ hmem)
    · exact cancelSagas_all (P := fun e => ∀ forward, (∃ run saga a handler version input error,
          e = .compensationStarted run saga forward a handler version input error) →
            StillOwed s forward) hes
        (fun saga es _ haborting e he forward hstarted => by
          obtain ⟨run, saga', a, handler, version, input, error, rfl⟩ := hstarted
          exact haborting.stillOwed once he) _ hmem forward ⟨_, _, _, _, _, _, _, rfl⟩
  | outside houtside =>
    exact guarded_owing_of_kinds (not_mem_of_kinds (kinds_outside houtside) (by decide))
  | started | signalled | claimed | abandoned =>
    exact hother (by simp only [CommandBody.kinds]; decide)

end Moves

end Graphrun
