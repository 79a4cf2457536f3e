import Graphrun.Claims.Recovery
import Graphrun.Claims.Reporters
import Graphrun.Engine.TokenMoves

/-!
# A success is final

A success can be reported by a worker, by whoever holds the claim, by an operator or by a probe,
and the status of an activation is overwritten by the end of its scope, by the end of its waits and
by retries. Whatever the order, an activation that has succeeded is never handed out again and gets
no second result: an activation that is unfinished, or has waits, has not had a success yet
(`Unanswered`). Results are accepted for ready activations only (`Accepting`), and an activation
with waits is not that of an activity, so that no result of it can be recorded.
-/

namespace Graphrun

open Lib

variable {env : Env} {o : Enumeration} {s s' : Core} {e : DomainEvent} {time : Nat} {ids : IdGen}
  {es past : List DomainEvent} {a : ActivationId}

/-! ## Results -/

/-- The activation that an event hands out or records a result of. -/
def DomainEvent.concerns? : DomainEvent → Option ActivationId
  | .claimGranted _ _ a _ _ _ _ _ _ _ _ _ _ _ | .leafSucceeded _ a _ _ _
  | .leafFailed _ a _ _ _ _ | .reconciliationRecorded _ a _ _ _
  | .reconciliationFailed _ a _ _ => some a
  | _ => none

/-- A success of the activation is accepted. -/
def DomainEvent.succeeds (a : ActivationId) : DomainEvent → Bool
  | .leafSucceeded _ activation _ _ _ => activation = a
  | _ => false

/-- Whatever success the activation had, it began anew afterwards, so that it has begun more often
than it has succeeded. -/
structure Unanswered (a : ActivationId) (past : List DomainEvent) : Prop where
  since : Since (DomainEvent.succeeds a) (DomainEvent.begins a) past
  fewer : past.countP (DomainEvent.succeeds a) < past.countP (DomainEvent.begins a)

/-- Some wait was opened for the activation. -/
def HasWait (s : Core) (a : ActivationId) : Prop :=
  ∃ w wait, s.waits.lookup w = some wait ∧ wait.activation = a

/-- No activation has succeeded more often than it has begun, and unfinished ones, and those with
waits, have had no success. -/
structure Final (past : List DomainEvent) (s : Core) : Prop where
  counted : ∀ a, past.countP (DomainEvent.succeeds a) ≤ past.countP (DomainEvent.begins a)
  attended : ∀ w wait, s.waits.lookup w = some wait → Attends s wait.run wait.activation
  unfinished : ∀ a act, s.activations.lookup a = some act → act.status ≠ .succeeded →
    Unanswered a past
  waiting : ∀ a, HasWait s a → Unanswered a past

def Ready (s : Core) (a : ActivationId) : Prop :=
  ∃ act, s.activations.lookup a = some act ∧ act.status = .ready

/-- Results are for ready activations, and waits are opened for open ones that do not stand for an
activity. -/
def Accepting (s : Core) : DomainEvent → Prop
  | .waitOpened run _ a _ _ _ _ => ∃ act, s.activations.lookup a = some act ∧
    act.role = .forward ∧ act.run = run ∧ act.status = .open ∧
    isActivityNode s act.scope act.node = false
  | e => ∀ a, e.concerns? = some a → Ready s a

/-! ## One event -/

/-- No result of an activation with waits can be recorded. -/
theorem Final.not_hasWait (final : Final past s) (recorded : Recorded env s e)
    (hsucceeds : e.succeeds a = true) : ¬ HasWait s a := by
  rintro ⟨w, wait, hw, rfl⟩
  obtain ⟨act, hact, hrole, -, -, hnode⟩ := final.attended w wait hw
  cases e with
  | leafSucceeded run b attempt output role =>
    obtain rfl : b = wait.activation := of_decide_eq_true hsucceeds
    rw [isActivity_of_recorded recorded hact (by simp [hrole])] at hnode
    cases hnode
  | _ => cases hsucceeds

/-- What an event leaves or makes unfinished was unfinished before, or had a wait. -/
theorem Accepting.unfinished {act : ActivationState} (accepting : Accepting s e)
    (h : s.activations.lookup a = some act) (hstatus : statusAfter s e a act ≠ .succeeded) :
    act.status ≠ .succeeded ∨ HasWait s a := by
  by_cases hsucceeded : act.status = .succeeded
  · right
    cases e with
    | leafFailed run b attempt code message retry =>
      by_cases hab : a = b
      · obtain ⟨act', hact', hready⟩ := accepting b rfl
        subst hab
        obtain rfl := Option.mem_unique h hact'
        rw [hready] at hsucceeded
        cases hsucceeded
      · simp [statusAfter, hab, hsucceeded] at hstatus
    | waitOpened run w b signal key deadline consumeFrom =>
      by_cases hab : a = b
      · obtain ⟨act', hact', -, -, hopen, -⟩ := accepting
        subst hab
        obtain rfl := Option.mem_unique h hact'
        rw [hopen] at hsucceeded
        cases hsucceeded
      · simp [statusAfter, hab, hsucceeded] at hstatus
    | waitCancelled run w =>
      by_cases hw : (s.waits.lookup w).map (·.activation) = some a
      · obtain ⟨wait, hwait, rfl⟩ := Option.map_eq_some_iff.mp hw
        exact ⟨w, wait, hwait, rfl⟩
      · simp [statusAfter, hw, hsucceeded] at hstatus
    | _ =>
      refine absurd ?_ hstatus
      simp [statusAfter, hsucceeded]
  · exact .inl hsucceeded

/-- An event that is not a success of the activation leaves it without one. -/
theorem Unanswered.concat (h : e.succeeds a = false) (unanswered : Unanswered a past) :
    Unanswered a (past ++ [e]) := by
  refine ⟨since_concat h (.inr unanswered.since), ?_⟩
  have hfewer := unanswered.fewer
  simp only [List.countP_append, List.countP_singleton, h]
  grind

/-- An activation that begins is unanswered. -/
theorem Final.begun (final : Final past s) (h : e.begins a = true) :
    Unanswered a (past ++ [e]) := by
  have hnot : e.succeeds a = false := by
    cases e <;> first | rfl | cases h
  refine ⟨since_concat hnot (.inl h), ?_⟩
  have hcounted := final.counted a
  simp only [List.countP_append, List.countP_singleton, h, hnot]
  grind

theorem Final.answered (accepting : Accepting s e) (final : Final past s) :
    (past ++ [e]).countP (DomainEvent.succeeds a) ≤
      (past ++ [e]).countP (DomainEvent.begins a) := by
  have hcounted := final.counted a
  simp only [List.countP_append, List.countP_singleton]
  by_cases hsucceeds : e.succeeds a = true
  · cases e with
    | leafSucceeded run b attempt output role =>
      obtain rfl : b = a := of_decide_eq_true hsucceeds
      obtain ⟨act, hact, hready⟩ := accepting b rfl
      have hfewer := (final.unfinished b act hact (by simp [hready])).fewer
      rw [if_pos hsucceeds]
      omega
    | _ => cases hsucceeds
  · rw [if_neg hsucceeds]
    omega

theorem Final.evolve (tree : Tree s) (placed : Placed s e) (recorded : Recorded env s e)
    (accepting : Accepting s e) (final : Final past s) : Final (past ++ [e]) (evolve s e) where
  counted _ := final.answered accepting
  attended w wait hw := by
    rcases wait_after_cases hw with ⟨old, hold, hrun, hact⟩ | ⟨_, _, _, _, rfl⟩
    · rw [← hrun, ← hact]
      exact (final.attended w old hold).evolve tree placed
    · exact Attends.opened tree accepting
  unfinished a act hact hstatus := by
    rcases activation_after_cases hact with ⟨old, hold, rfl⟩ | ⟨_, _, _, rfl, -⟩ |
      ⟨_, _, _, _, _, _, _, _, rfl, -⟩
    · by_cases hsucceeds : e.succeeds a = true
      · cases e with
        | leafSucceeded run b attempt output role =>
          obtain rfl : b = a := of_decide_eq_true hsucceeds
          simp [ActivationState.after, statusAfter] at hstatus
        | _ => cases hsucceeds
      · rw [Bool.not_eq_true] at hsucceeds
        refine Unanswered.concat hsucceeds ?_
        rcases accepting.unfinished hold hstatus with hbefore | hwait
        · exact final.unfinished a old hold hbefore
        · exact final.waiting a hwait
    · exact final.begun (by simp [DomainEvent.begins])
    · exact final.begun (by simp [DomainEvent.begins])
  waiting a hwait := by
    obtain ⟨w, wait, hw, rfl⟩ := hwait
    rcases wait_after_cases hw with ⟨old, hold, hrun, hact⟩ | ⟨_, _, _, _, rfl⟩
    · have hbefore : HasWait s wait.activation := ⟨w, old, hold, hact⟩
      refine Unanswered.concat ?_ (final.waiting _ hbefore)
      rw [← Bool.not_eq_true]
      exact fun hsucceeds => final.not_hasWait recorded hsucceeds hbefore
    · -- A wait is opened for an open activation.
      obtain ⟨act, hact, -, -, hopen, -⟩ := accepting
      exact Unanswered.concat rfl (final.unfinished _ act hact (by simp [hopen]))

theorem Final.quiet (change : Quiet s s') (tree : Tree s) (final : Final past s) :
    Final past s' where
  counted := final.counted
  attended w wait hw := Attends.quiet change tree hw (final.attended w wait (change.waits hw))
  unfinished a act hact := final.unfinished a act (change.activations hact)
  waiting a hwait := by
    obtain ⟨w, wait, hw, hact⟩ := hwait
    exact final.waiting a ⟨w, wait, change.waits hw, hact⟩

theorem final_empty (clusterId : String) : Final [] (State.empty clusterId).toCore where
  counted _ := le_rfl
  attended _ _ h := by cases h
  unfinished _ _ h := by cases h
  waiting _ h := by
    obtain ⟨_, _, h, -⟩ := h
    cases h

/-! ## Moves -/

/-- The events that leave every activation as far as it is. -/
@[simp] def restKinds : List EventKind :=
  [.outside, .claimGranted, .claimCleared, .reconciliationRecorded, .reconciliationFailed,
    .interventionRequired]

theorem Ready.rest (ready : Ready s a) (h : e.kind ∈ restKinds) :
    Ready (evolve s e) a := by
  obtain ⟨act, hact, hready⟩ := ready
  refine ⟨act.after s e a, ?_, ?_⟩
  · cases e <;> first
      | (exfalso; simp at h; done)
      | simp [lookup_activations_evolve, activationAfter, newActivation, hact]
  · cases e <;> first
      | exact hready
      | simp at h

theorem Ready.restAll (ready : Ready s a) (h : ∀ e ∈ es, e.kind ∈ restKinds) :
    Ready (evolveAll s es) a :=
  evolveAll_keeps (P := (Ready · a)) (fun _ _ he ready => ready.rest he) h ready

theorem accepting_of_ready (h : e.kind ≠ .waitOpened)
    (hready : ∀ a, e.concerns? = some a → Ready s a) : Accepting s e := by
  cases e <;> first | exact hready | exact absurd rfl h

theorem accepting_of_kind (h : e.kind ∉ [.claimGranted, .leafSucceeded, .leafFailed,
    .reconciliationRecorded, .reconciliationFailed, .waitOpened]) : Accepting s e := by
  cases e <;> first
    | (refine absurd ?_ h; simp; done)
    | exact fun _ h => by cases h

theorem guarded_accepting_of_kinds (h : ∀ e ∈ es, e.kind ∉ [.claimGranted, .leafSucceeded,
    .leafFailed, .reconciliationRecorded, .reconciliationFailed, .waitOpened]) :
    Guarded Accepting s es :=
  Guarded.of_all fun e he _ => accepting_of_kind (h e he)

theorem concerns?_of_isOutside (h : e.isOutside = true) : e.concerns? = none := by
  cases e <;> first | rfl | cases h

/-- Events about activations that are ready at the beginning and stay so. -/
theorem guarded_accepting_rest (hkinds : ∀ e ∈ es, e.kind ∈ restKinds)
    (hready : ∀ e ∈ es, ∀ a, e.concerns? = some a → Ready s a) : Guarded Accepting s es := by
  induction es generalizing s with
  | nil => trivial
  | cons e es ih =>
    obtain ⟨hkind, hkinds⟩ := List.forall_mem_cons.mp hkinds
    obtain ⟨he, hes⟩ := List.forall_mem_cons.mp hready
    refine ⟨accepting_of_ready ?_ he, ih hkinds fun e' he' a ha => (hes e' he' a ha).rest hkind⟩
    intro hwait
    rw [hwait] at hkind
    simp at hkind

theorem guarded_accepting_probe {run : RunId} {probe : List DomainEvent} (ready : Ready s a)
    (hprobe : AppliedProbe run a act probe) :
    Guarded Accepting s probe ∧ Ready (evolveAll s probe) a := by
  have hkinds : ∀ e ∈ probe, e.kind ∈ restKinds := by
    apply hprobe.all (P := fun e => e.kind ∈ restKinds)
    intros
    simp
  refine ⟨guarded_accepting_rest hkinds ?_, ready.restAll hkinds⟩
  rcases hprobe with rfl | ⟨output, probes, -, rfl⟩
  · simp
  · rw [List.forall_mem_singleton]
    rintro b hb
    obtain rfl := Option.some.inj hb
    exact ready

theorem NodeMove.accepting {run : RunId} {act : ActivationState} {node : Node} (tree : Tree s)
    (advancing : Advancing s run act node) (move : NodeMove o s run time act node es) :
    Guarded Accepting s es := by
  have hadvance : ∀ k ∈ EventKind.waitSatisfied :: advanceKinds, k ∉ [EventKind.claimGranted,
      .leafSucceeded, .leafFailed, .reconciliationRecorded, .reconciliationFailed,
      .waitOpened] := by
    decide
  have hnode : isActivityNode s act.scope act.node = false := by
    obtain ⟨region, hregion, hnode⟩ := nodeOf_iff.mp advancing.hnode
    exact isActivityNode_eq_false advancing.hnode
      (tree.working _ _ _ _ advancing.hact advancing.hopen hregion hnode)
  rcases move.kinds_cases with h | ⟨own, w, signal, key, deadline, consumeFrom, rest, rfl, hown, h⟩
  · exact guarded_accepting_of_kinds fun e he => hadvance _ (List.mem_cons_of_mem _ (h e he))
  · have hrun : act.run = own := by
      rcases hown with rfl | rfl
      · exact advancing.hrun
      · rfl
    exact ⟨⟨act, advancing.hact, advancing.hforward, hrun, advancing.hopen, hnode⟩,
      guarded_accepting_of_kinds fun e he => hadvance _ (h e he)⟩

theorem Move.accepting {body : CommandBody} (tree : Tree s)
    (move : Move env o s time body es) : Guarded Accepting s es := by
  have hother : (∀ k ∈ body.kinds, k ∉ [EventKind.claimGranted, .leafSucceeded, .leafFailed,
      .reconciliationRecorded, .reconciliationFailed, .waitOpened]) → Guarded Accepting s es :=
    fun h => guarded_accepting_of_kinds fun e he => h _ (move.kinds e he)
  have hready : ∀ {run a act}, Reported s body run a act → Ready s a := fun hreported =>
    ⟨_, hreported.hact, hreported.hready⟩
  have hresult : ∀ {a : ActivationId} {e : DomainEvent}, Ready s a → e.kind ≠ .waitOpened →
      e.concerns? = some a → Accepting s e := fun hready hkind he =>
    accepting_of_ready hkind fun b hb => Option.mem_unique he hb ▸ hready
  cases move with
  | accepted hreported _ hprobe howed hfollowed =>
    obtain ⟨hfirst, hstill⟩ := guarded_accepting_probe (hready hreported) hprobe
    refine guarded_append.mpr ⟨hfirst, fun b hb => Option.some.inj hb ▸ hstill,
      guarded_accepting_of_kinds ?_⟩
    simp only [List.forall_mem_append, List.forall_mem_cons]
    refine ⟨by simp, ?_, ?_⟩
    · apply compensationEvents_all (P := fun e => e.kind ∉ _) howed <;> simp
    · rcases hfollowed with ⟨-, rfl⟩ | ⟨-, hfollowed⟩
      · exact List.forall_mem_nil _
      · apply hfollowed.all (P := fun e => e.kind ∉ _)
        simp
  | compensated hreported _ hprobe =>
    obtain ⟨hfirst, hstill⟩ := guarded_accepting_probe (hready hreported) hprobe
    exact guarded_append.mpr ⟨hfirst, fun b hb => Option.some.inj hb ▸ hstill, trivial⟩
  | retried hreported =>
    exact ⟨hresult (hready hreported) (by simp) rfl, accepting_of_kind (by simp), trivial⟩
  | blocked hreported =>
    exact ⟨hresult (hready hreported) (by simp) rfl, accepting_of_kind (by simp), trivial⟩
  | lost hreported => exact ⟨hresult (hready hreported) (by simp) rfl, trivial⟩
  | erred hreported _ hfailing =>
    exact ⟨hresult (hready hreported) (by simp) rfl, guarded_accepting_of_kinds
      (not_mem_of_kinds (hfailing.kinds (List.Subset.refl failureKinds)) (by decide))⟩
  | notApplied hreported _ hsettled =>
    refine ⟨hresult (hready hreported) (by simp) rfl, accepting_of_kind (by simp), ?_⟩
    rcases hsettled with ⟨-, rfl⟩ | ⟨-, attempt, code, message, rfl⟩
    · trivial
    · refine ⟨fun b hb => ?_, trivial⟩
      obtain rfl := Option.some.inj hb
      exact ((hready hreported).rest (by simp)).rest (by simp)
  | unknown hreported _ hfailure hescalated =>
    refine guarded_accepting_rest ?_ ?_
    · rcases hfailure with rfl | ⟨code, message, rfl⟩ <;>
        rcases hescalated with rfl | ⟨reason, rfl⟩ <;> simp
    · rcases hfailure with rfl | ⟨code, message, rfl⟩ <;>
        rcases hescalated with rfl | ⟨reason, rfl⟩ <;>
        simpa [DomainEvent.concerns?] using hready hreported
  | advanced hadvancing _ hmove => exact hmove.accepting tree hadvancing
  | claimed hrenewed hgranted =>
    refine guarded_accepting_rest (List.forall_mem_append.mpr ⟨?_, ?_⟩)
      (List.forall_mem_append.mpr ⟨?_, ?_⟩)
    · intro e he
      rw [kind_of_isOutside (hrenewed e he)]
      simp
    · apply hgranted.all (P := fun e => e.kind ∈ restKinds)
      rintro i a e ⟨⟩
      simp
    · intro e he a ha
      rw [concerns?_of_isOutside (hrenewed e he)] at ha
      cases ha
    · apply hgranted.all (P := fun e => ∀ a, e.concerns? = some a → Ready s a)
      rintro i a e ⟨hact, -, hstatus⟩ b hb
      obtain rfl := Option.some.inj hb
      exact ⟨_, hact, hstatus⟩
  | outside houtside =>
    exact guarded_accepting_of_kinds (not_mem_of_kinds (kinds_outside houtside) (by decide))
  | satisfied _ _ hfollowed =>
    exact guarded_accepting_of_kinds (not_mem_of_kinds (kinds_satisfied hfollowed) (by decide))
  | timedOut => exact guarded_accepting_of_kinds (by simp)
  | started | resolved | signalled | cancelled | cancelledSagas | renewed | abandoned =>
    exact hother (by simp)

/-! ## Obligations -/

/-- An event adds at most one obligation, of a forward activation that had none. -/
theorem forwards_evolve (s : Core) (e : DomainEvent) :
    (evolve s e).obligations.map (·.forward) = s.obligations.map (·.forward) ∨
      ∃ forward, forward ∉ s.obligations.map (·.forward) ∧
        (evolve s e).obligations.map (·.forward) = s.obligations.map (·.forward) ++ [forward] := by
  have hnew : ∀ {forward : ActivationId}, ¬ s.obligations.any (Obligation.isOf forward) = true →
      forward ∉ s.obligations.map (·.forward) := by
    intro forward hnot hmem
    obtain ⟨item, hitem, rfl⟩ := List.mem_map.mp hmem
    exact hnot (List.any_eq_true.mpr ⟨item, hitem, by simp [Obligation.isOf]⟩)
  rw [evolve_obligations]
  cases e with
  | leafSucceeded run a attempt output role =>
    left
    dsimp only
    split
    · exact map_updateFirst fun _ => rfl
    · rfl
  | obligationRegistered run forward handler version input =>
    dsimp only
    split
    · exact .inl (map_updateFirst fun _ => rfl)
    · next hnot => exact .inr ⟨forward, hnew hnot, by simp [newObligation]⟩
  | obligationBlocked run forward handler version reason =>
    dsimp only
    split
    · exact .inl (map_updateFirst fun _ => rfl)
    · next hnot => exact .inr ⟨forward, hnew hnot, by simp [newObligation]⟩
  | compensationStarted | obligationTransferred | obligationReleased =>
    exact .inl (map_updateFirst fun _ => rfl)
  | compensationAbandoned run reason unresolved =>
    left
    rw [List.map_map]
    refine List.map_congr_left fun item _ => ?_
    simp only [Function.comp_apply]
    split <;> rfl
  | _ => exact .inl rfl

/-- A forward activation has one obligation at most. -/
def OneEach (s : Core) : Prop := (s.obligations.map (·.forward)).Nodup

theorem OneEach.evolve (h : OneEach s) : OneEach (evolve s e) := by
  unfold OneEach
  rcases forwards_evolve s e with hsame | ⟨forward, hnew, hadded⟩
  · rw [hsame]
    exact h
  · rw [hadded, List.nodup_append]
    refine ⟨h, List.nodup_singleton _, ?_⟩
    intro x hx y hy hxy
    obtain rfl := List.mem_singleton.mp hy
    exact hnew (hxy ▸ hx)

theorem OneEach.evolveAll (h : OneEach s) : OneEach (Graphrun.evolveAll s es) :=
  evolveAll_keeps (C := fun _ => True) (fun _ _ _ h => h.evolve) (fun _ _ => trivial) h

theorem OneEach.quiet (change : Quiet s s') (h : OneEach s) : OneEach s' := by
  cases change with
  | admitted | stamped | dropped => exact h
  | retired => exact h.sublist (List.filter_sublist.map _)

/-! ## Every run -/

/-- In every run that draws unused identities, an activation begins only where none of its id is
left. One that begins once succeeds once at most and after its success is not granted and gets no
result any more; where an id is drawn again after a pruning, this holds from each beginning on. No
forward activation ever has two obligations. -/
theorem success_is_final {clusterId : String} {log : List Step} {final : State}
    (hrun : Run env (.empty clusterId) log final) (fresh : ∀ step ∈ log, Fresh step) :
    (∀ past core e a, Applied log past core e →
      (e.begins a = true → core.activations.lookup a = none) ∧
      (e.concerns? = some a → Unanswered a past)) ∧
    (∀ a, (eventsOf log).countP (DomainEvent.begins a) ≤ 1 →
      (eventsOf log).countP (DomainEvent.succeeds a) ≤ 1 ∧
      ∀ past core e, Applied log past core e → e.concerns? = some a →
        ∀ earlier ∈ past, earlier.succeeds a = false) ∧
    OneEach final.toCore ∧ ∀ past core e, Applied log past core e → OneEach core := by
  have htrace := hrun.trace (keyed_empty clusterId)
  obtain ⟨⟨-, hfinal, hend⟩, happlied⟩ := htrace.eventInvariant
    (P := fun past core => Tree core ∧ Final past core ∧ OneEach core)
    (G := fun core e => Placed core e ∧ Recorded env core e ∧ Accepting core e)
    (C := Fresh)
    (fun past s s' change h => ⟨h.1.quiet change, h.2.1.quiet change h.1, h.2.2.quiet change⟩)
    (fun past s e guard h => ⟨h.1.evolve guard.1,
      h.2.1.evolve h.1 guard.1 guard.2.1 guard.2.2, h.2.2.evolve⟩)
    (fun past step decided hfresh h => by
      obtain ⟨o, move⟩ := decided.move hfresh.unreplayed
      exact (decided.placed h.1 hfresh).and (decided.recordable.and (move.accepting h.1)))
    ⟨tree_empty clusterId, final_empty clusterId, List.nodup_nil⟩ fresh
  have hunanswered : ∀ past core e a, Applied log past core e → e.concerns? = some a →
      Unanswered a past := by
    intro past core e a happly hconcerns
    obtain ⟨⟨-, hfinal, -⟩, -, -, haccepting⟩ := happlied past core e happly
    have hready : Ready core a := by
      cases e <;> first | exact haccepting a hconcerns | cases hconcerns
    obtain ⟨act, hact, hstatus⟩ := hready
    exact hfinal.unfinished a act hact (by simp [hstatus])
  refine ⟨fun past core e a happly => ⟨(happlied past core e happly).2.1.unused,
    hunanswered past core e a happly⟩, fun a honce => ⟨(hfinal.counted a).trans honce, ?_⟩, hend,
    fun past core e happly => (happlied past core e happly).1.2.2⟩
  intro past core e happly hconcerns earlier hearlier
  have hfewer := (hunanswered past core e a happly hconcerns).fewer
  have hpast := happly.past_sublist.countP_le (p := DomainEvent.begins a)
  have hnone : past.countP (DomainEvent.succeeds a) = 0 := by omega
  simpa using List.countP_eq_zero.mp hnone earlier hearlier

/-- After the owner's result another one is reported, and an error. -/
def repeatedResult : List Command := ownersResult ++ [
  { id := ⟨8⟩, body := .reportLeaf ⟨1⟩ ⟨65⟩ .null, time := 40004 },
  { id := ⟨9⟩, body := .reportError ⟨1⟩ ⟨65⟩ "late" "after the result", time := 40005 }]

/-- Only the owner's result is accepted. -/
theorem repeatedResult_final : ∃ log final,
    Run sampleEnv (.empty sampleCluster) log final ∧ (∀ step ∈ log, Fresh step) ∧
    (eventsOf log).countP (DomainEvent.begins ⟨65⟩) = 1 ∧
    (eventsOf log).countP (DomainEvent.succeeds ⟨65⟩) = 1 ∧
    (∀ past core e, Applied log past core e → e.concerns? = some ⟨65⟩ →
      ∀ earlier ∈ past, earlier.succeeds ⟨65⟩ = false) ∧ OneEach final.toCore := by
  obtain ⟨log, final, hrun, hcheck⟩ := exists_sampleRun repeatedResult
    (fun log _ => log.all (Fresh ·) && (eventsOf log).countP (DomainEvent.begins ⟨65⟩) = 1 &&
      (eventsOf log).countP (DomainEvent.succeeds ⟨65⟩) = 1)
    (by decide +kernel)
  simp only [Bool.and_eq_true, List.all_eq_true, decide_eq_true_eq] at hcheck
  obtain ⟨⟨hfresh, hbegins⟩, hcount⟩ := hcheck
  obtain ⟨-, honce, hobligations, -⟩ := success_is_final hrun hfresh
  exact ⟨log, final, hrun, hfresh, hbegins, hcount, (honce ⟨65⟩ hbegins.le).2, hobligations⟩

end Graphrun
