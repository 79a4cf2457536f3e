import Graphrun.Claims.Allocation
import Graphrun.Model.Schedule

/-!
# What workers and the scheduler are told

Two questions are answered by scans of their own beside the one of a claim command. Whether there
is work for a worker is answered with yes exactly when a claim would grant something
(`workerHasReady_predicts`). The row that the scheduler keeps of a run says whether the run has
work that nobody holds, and until when that and the waits of the run stay as they are
(`schedule_agrees`).
-/

namespace Graphrun

open Lib

variable {env : Env} {o : Enumeration} {s : Core} {worker : WorkerSession} {time now cap : Nat}
  {session : WorkerSessionId} {run : RunId} {a : ActivationId} {ready : Bool}

/-! ## The two scans of ready work -/

theorem hasReadyIn_ok : ∀ {candidates : List ActivationId},
    hasReadyIn env o s worker run time candidates = .ok ready →
      ready = candidates.any (suitable env o s worker time run)
  | [], h => (pure_eq_ok.mp h).symm
  | a :: rest, h => by
    simp only [hasReadyIn, bind_eq_ok, okOr_eq_ok] at h
    obtain ⟨act, hact, h⟩ := h
    rw [List.any_cons]
    split at h
    · next hbarred =>
      rw [hasReadyIn_ok h]
      simp [suitable, hact, hbarred]
    · next hfree =>
      obtain ⟨suits, hsuits, h⟩ := bind_eq_ok.mp h
      have hsuitable : suitable env o s worker time run a = suits := by
        simp only [suitable, hact, Option.any_some, hfree, hsuits, Except.toOption,
          decide_false, Bool.not_false, Bool.true_and, Option.some.injEq]
        cases suits <;> rfl
      rw [hsuitable]
      cases suits with
      | false => exact hasReadyIn_ok h
      | true => exact (pure_eq_ok.mp h).symm

/-- A run has work for a worker. -/
def offers (env : Env) (o : Enumeration) (s : Core) (worker : WorkerSession) (time : Nat)
    (run : RunId) : Bool :=
  (unclaimedReady o s run time).any (suitable env o s worker time run)

theorem hasReadyInRuns_ok : ∀ {runs : List RunId},
    hasReadyInRuns env o s worker time runs = .ok ready →
      ready = runs.any (offers env o s worker time)
  | [], h => (pure_eq_ok.mp h).symm
  | run :: runs, h => by
    obtain ⟨found, hfound, h⟩ := bind_eq_ok.mp h
    rw [List.any_cons, offers, ← hasReadyIn_ok hfound]
    cases found with
    | false => exact hasReadyInRuns_ok h
    | true => exact (pure_eq_ok.mp h).symm

/-- Something has been granted. -/
def Granting (es : List DomainEvent) : Prop := ∃ e ∈ es, e.granted? ≠ none

theorem Granting.append {es : List DomainEvent} (h : Granting es) (es' : List DomainEvent) :
    Granting (es ++ es') := by
  obtain ⟨e, he, hgrant⟩ := h
  exact ⟨e, List.mem_append_left _ he, hgrant⟩

theorem grantInRun_keeps {grants grants' : Grants} (hgrants : Granting grants.events)
    (h : grantInRun env o s session worker time cap grants run = .ok grants') :
    Granting grants'.events := by
  unfold grantInRun at h
  split at h
  · exact pure_eq_ok.mp h ▸ hgrants
  · obtain ⟨selected, -, h⟩ := bind_eq_ok.mp h
    split at h
    · exact pure_eq_ok.mp h ▸ hgrants
    · obtain ⟨e, -, h⟩ := bind_eq_ok.mp h
      exact pure_eq_ok.mp h ▸ hgrants.append [e]

/-- The first turn of a run grants something exactly if the run has work. -/
theorem grantInRun_first {grants : Grants} (hcap : 1 ≤ cap)
    (h : grantInRun env o s session worker time cap ⟨[], []⟩ run = .ok grants) :
    if offers env o s worker time run then Granting grants.events else grants = ⟨[], []⟩ := by
  have hroom : ¬ ([] : List ActivationId).length ≥ cap := by
    rw [List.length_nil]
    omega
  simp only [grantInRun, hroom, if_false] at h
  obtain ⟨selected, hselected, h⟩ := bind_eq_ok.mp h
  have hfind := selectReady_eq_find? hselected
  simp only [List.not_mem_nil, decide_false, Bool.not_false, Bool.true_and] at hfind
  have hperm : (readyInOrder o s run time).Perm (unclaimedReady o s run time) :=
    List.perm_insertionSort _ _
  split
  · next hoffers =>
    obtain ⟨a, ha, hsuitable⟩ := List.any_eq_true.mp hoffers
    obtain ⟨b, hb⟩ := Option.isSome_iff_exists.mp
      (List.find?_isSome.mpr ⟨a, hperm.mem_iff.mpr ha, hsuitable⟩)
    obtain ⟨act, hact⟩ : ∃ act, s.activations.lookup b = some act := by
      have hsuitable := List.find?_some hb
      simp only [suitable, Option.any_eq_true] at hsuitable
      obtain ⟨act, hact, -⟩ := hsuitable
      exact ⟨act, hact⟩
    rw [hfind, hb, Option.bind_some, hact] at h
    obtain ⟨e, he, h⟩ := bind_eq_ok.mp h
    obtain ⟨_, _, _, _, _, _, rfl⟩ := grantClaim_ok he
    rw [← pure_eq_ok.mp h]
    exact ⟨_, List.mem_append_right _ List.mem_cons_self, by simp [DomainEvent.granted?]⟩
  · next hidle =>
    have hnone : selected = none := by
      rw [hfind, List.find?_eq_none]
      intro a ha hsuitable
      exact hidle (List.any_eq_true.mpr ⟨a, hperm.mem_iff.mp ha, hsuitable⟩)
    rw [hnone] at h
    exact (pure_eq_ok.mp h).symm

theorem foldlM_first {grants : Grants} (hcap : 1 ≤ cap) : ∀ {runs : List RunId},
    runs.foldlM (grantInRun env o s session worker time cap) ⟨[], []⟩ = .ok grants →
      if runs.any (offers env o s worker time) then Granting grants.events else grants = ⟨[], []⟩
  | [], h => (pure_eq_ok.mp h).symm
  | run :: runs, h => by
    rw [List.foldlM_cons] at h
    obtain ⟨first, hfirst, h⟩ := bind_eq_ok.mp h
    have hturn := grantInRun_first hcap hfirst
    rw [List.any_cons]
    split at hturn
    · next hoffers =>
      rw [hoffers, Bool.true_or, if_pos rfl]
      exact foldlM_keeps (fun _ _ _ hserved hgrants => grantInRun_keeps hgrants hserved) h hturn
    · next hidle =>
      rw [Bool.not_eq_true] at hidle
      rw [hidle, Bool.false_or]
      subst hturn
      exact foldlM_first hcap h

/-- A claim with room for one grants something exactly if some run has work. -/
theorem grantRounds_granting {grants : Grants} {runs : List RunId} (hcap : 1 ≤ cap)
    (h : grantRounds env o s session worker time cap runs cap ⟨[], []⟩ = .ok grants) :
    Granting grants.events ↔ runs.any (offers env o s worker time) = true := by
  obtain ⟨rounds, rfl⟩ : ∃ rounds, cap = rounds + 1 := ⟨cap - 1, by omega⟩
  have hroom : ¬ ([] : List ActivationId).length ≥ rounds + 1 := by simp
  simp only [grantRounds, hroom, if_false] at h
  obtain ⟨after, hafter, h⟩ := bind_eq_ok.mp h
  have hround := foldlM_first hcap hafter
  split at hround
  · next hoffers =>
    refine iff_of_true ?_ hoffers
    split at h
    · exact pure_eq_ok.mp h ▸ hround
    · exact grantRounds_keeps (fun _ _ _ hserved hgrants => grantInRun_keeps hgrants hserved) h
        hround
  · next hidle =>
    refine iff_of_false ?_ hidle
    subst hround
    simp only [if_true, pure_eq_ok] at h
    rw [← h]
    simp [Granting]

/-- If both are answered, there is said to be work for a worker exactly if a claim of the worker
grants something. -/
theorem workerHasReady_predicts {s : State} {id : CommandId} {capacity : Nat} {decision : Decision}
    (hready : workerHasReady env o s.toCore session time = .ok ready)
    (hrunning : executionSuspended s.toCore = false) (hcapacity : 1 ≤ capacity)
    (hclaim : decideBody env o s id time (.claim session capacity) = .ok decision) :
    ready = true ↔ Granting decision.events := by
  simp only [workerHasReady, bind_eq_ok, okOr_eq_ok, refuseIf_eq_ok] at hready
  obtain ⟨worker, hworker, -, -, hready⟩ := hready
  simp only [decideBody, hrunning, Bool.false_eq_true, if_false, map_eq_ok] at hclaim
  obtain ⟨es, hes, rfl⟩ := hclaim
  have hevents : (single id es).events = es := by simp [single, Decision.events]
  rw [hevents]
  simp only [decideClaim, hworker, okOr, ok_bind, bind_eq_ok, refuseIf_eq_ok] at hes
  obtain ⟨-, -, hes⟩ := hes
  have hrenewed : ∀ es', Granting ((if worker.principalId = "" then
      [DomainEvent.sessionRegistered session worker.activities worker.capacity
        (satAdd time sessionLeaseMs)] else []) ++ es') ↔ Granting es' := by
    intro es'
    split <;> simp [Granting, DomainEvent.granted?]
  have hserved : Granting es ↔ workerInFlight o s.toCore session time < worker.capacity ∧
      (activeRuns o s.toCore).any (offers env o s.toCore worker time) = true := by
    split at hes
    · next hnone =>
      rw [hnone, ← pure_eq_ok.mp hes, ← List.append_nil (ite _ _ _), hrenewed]
      simp [Granting]
    · obtain ⟨grants, hgrants, hes⟩ := bind_eq_ok.mp hes
      rw [← pure_eq_ok.mp hes, hrenewed]
      rcases Nat.lt_or_ge (workerInFlight o s.toCore session time) worker.capacity with
        hfree | hfull
      · rw [grantRounds_granting (by simp only [claimBatch]; omega) hgrants,
          (perm_fairOrder (activeRuns o s.toCore)).any_eq]
        simp [hfree]
      · rw [Nat.sub_eq_zero_of_le hfull, Nat.min_zero, Nat.zero_min, grantRounds, pure_eq_ok]
          at hgrants
        rw [← hgrants]
        simp [Granting, Nat.not_lt.mpr hfull]
  rw [hserved]
  split at hready
  · next hfull =>
    rw [← pure_eq_ok.mp hready]
    simp [Nat.not_lt.mpr hfull]
  · next hfree =>
    rw [hasReadyInRuns_ok hready]
    simp [Nat.lt_of_not_ge hfree]

/-- There is work for the worker of the sample, and a claim takes it. -/
theorem twoRuns_predicted : ∃ log final decision, Run sampleEnv (.empty sampleCluster) log final ∧
    decideBody sampleEnv .stored final ⟨4⟩ 4 (.claim ⟨1⟩ 1) = .ok decision ∧
    Granting decision.events := by
  obtain ⟨log, final, hrun, hcheck⟩ := exists_sampleRun twoRuns
    (fun _ final => (workerHasReady sampleEnv .stored final.toCore ⟨1⟩ 4).toOption = some true &&
      !executionSuspended final.toCore &&
      (decideBody sampleEnv .stored final ⟨4⟩ 4 (.claim ⟨1⟩ 1)).toOption.isSome)
    (by decide +kernel)
  simp only [Bool.and_eq_true, decide_eq_true_eq, Bool.not_eq_true',
    Option.isSome_iff_exists] at hcheck
  obtain ⟨⟨hready, hrunning⟩, decision, hdecision⟩ := hcheck
  exact ⟨log, final, decision, hrun, ok_of_toOption hdecision,
    (workerHasReady_predicts (ok_of_toOption hready) hrunning (Nat.le_refl 1)
      (ok_of_toOption hdecision)).mp rfl⟩

/-! ## Schedules -/

/-- An activation that is ready, not waited for and not left to an operator. -/
def idle (o : Enumeration) (s : Core) (act : ActivationState) : Bool :=
  act.status = .ready && (s.interventions.lookup act.id).isNone &&
    (o.values s.waits).all fun wait => wait.activation ≠ act.id ∨ wait.pending = false

/-- The end of the lease under which an idle activation is held. -/
def heldUntil (o : Enumeration) (s : Core) (now : Nat) (act : ActivationState) : Option Nat :=
  if idle o s act then (act.claim.map (·.leaseExpiryMs)).filter (now < ·) else none

theorem unclaimedReady_eq (keyed : Keyed s) :
    unclaimedReady o s run time = (((o.values s.activations).filter fun act => act.run = run).filter
      fun act => idle o s act && unclaimedAt act time).map (·.id) := by
  simp only [unclaimedReady, readyActivations, List.filter_map, List.filter_filter]
  congr 1
  refine List.filter_congr fun act hact => ?_
  obtain ⟨k, hk⟩ := Enumeration.mem_values.mp hact
  have hlookup : s.activations.lookup act.id = some act := by rw [keyed.activations k act hk, hk]
  simp only [Function.comp_apply, hlookup, Option.any_some, idle]
  grind

theorem idle_iff {act : ActivationState} : idle o s act = true ↔ ¬ (act.status ≠ .ready ∨
    (s.interventions.lookup act.id).isSome ∨
    ((o.values s.waits).any fun wait => wait.activation = act.id ∧ wait.pending) = true) := by
  simp [idle]
  grind

theorem min?_concat (due : List Nat) (x : Nat) :
    (due ++ [x]).min? = some ((due.min?.map fun old => min old x).getD x) := by
  cases due with
  | nil => rfl
  | cons first rest => simp [List.min?, List.foldl_append]

/-- Taking in an activation adds the end of its lease to the due times. -/
theorem scheduleActivation_eq (flag : Bool) (due : List Nat) (act : ActivationState) :
    scheduleActivation o s now (flag, due.min?) act =
      (flag || (idle o s act && unclaimedAt act now),
        (due ++ (heldUntil o s now act).toList).min?) := by
  unfold scheduleActivation heldUntil
  split
  · next hskip =>
    have hidle : idle o s act = false := by
      rw [← Bool.not_eq_true, idle_iff]
      exact not_not.mpr hskip
    simp [hidle]
  · next hfree =>
    rw [idle_iff.mpr hfree]
    cases hclaim : act.claim with
    | none => simp [unclaimedAt, hclaim]
    | some claim =>
      by_cases hheld : now < claim.leaseExpiryMs
      · simp [unclaimedAt, hclaim, hheld, Nat.not_le.mpr hheld, Option.filter, min?_concat]
      · simp [unclaimedAt, hclaim, hheld, Nat.not_lt.mp hheld, Option.filter]

theorem foldl_scheduleActivation (flag : Bool) (due : List Nat) (acts : List ActivationState) :
    acts.foldl (scheduleActivation o s now) (flag, due.min?) =
      (flag || acts.any (fun act => idle o s act && unclaimedAt act now),
        (due ++ acts.filterMap (heldUntil o s now)).min?) := by
  induction acts generalizing flag due with
  | nil => simp
  | cons act acts ih =>
    rw [List.foldl_cons, scheduleActivation_eq, ih]
    cases hheld : heldUntil o s now act <;> simp [hheld, Bool.or_assoc]

/-- A pending wait of a run is due at a time. -/
def WaitDue (s : Core) (run : RunId) (due : Nat) : Prop :=
  ∃ w wait, s.waits.lookup w = some wait ∧ wait.run = run ∧ wait.pending = true ∧
    wait.deadlineMs = some due

/-- The schedule of an active run is ready exactly if some work of the run is free. Both that work
and the waits of the run stay as they are until the deadline of the schedule, where either some
work becomes free or a wait is due. -/
theorem schedule_agrees {r : RunState} (keyed : Keyed s) (hrun : s.runs.lookup run = some r)
    (hactive : r.status.isActive = true) (progress : Bool) (now generation revision : Nat) :
    ∃ row, RunSchedule.fromState o s run progress now generation revision = some row ∧
      (row.ready = true ↔ unclaimedReady o s run now ≠ []) ∧
      (∀ t, now ≤ t → (∀ d, row.deadlineMs = some d → t < d) →
        unclaimedReady o s run t = unclaimedReady o s run now ∧
          ∀ due, WaitDue s run due → t < due) ∧
      ∀ d, row.deadlineMs = some d →
        unclaimedReady o s run d ≠ unclaimedReady o s run now ∨ WaitDue s run d := by
  set waiting := ((o.values s.waits).filter fun wait => wait.run = run ∧ wait.pending).filterMap
    (·.deadlineMs) with hwaiting
  set acts := (o.values s.activations).filter fun act => act.run = run with hacts
  have hrow : RunSchedule.fromState o s run progress now generation revision = some
      { format := 1, generation, progress
        ready := acts.any fun act => idle o s act && unclaimedAt act now
        deadlineMs := (waiting ++ acts.filterMap (heldUntil o s now)).min?
        sourceRevision := revision } := by
    simp only [RunSchedule.fromState, hrun, hactive, Option.bind_eq_bind, Option.bind_some,
      Bool.true_eq_false, if_false, ← hwaiting, ← hacts, foldl_scheduleActivation, Bool.false_or]
  have hdue : ∀ due, due ∈ waiting ↔ WaitDue s run due := by
    intro due
    simp only [hwaiting, List.mem_filterMap, List.mem_filter, Enumeration.mem_values,
      decide_eq_true_eq]
    constructor
    · rintro ⟨wait, ⟨⟨w, hw⟩, hof, hpending⟩, hdue⟩
      exact ⟨w, wait, hw, hof, hpending, hdue⟩
    · rintro ⟨w, wait, hw, hof, hpending, hdue⟩
      exact ⟨wait, ⟨⟨w, hw⟩, hof, hpending⟩, hdue⟩
  have hearliest {t due : Nat} (hearly : ∀ d,
      (waiting ++ acts.filterMap (heldUntil o s now)).min? = some d → t < d)
      (hmem : due ∈ waiting ++ acts.filterMap (heldUntil o s now)) : t < due := by
    obtain ⟨d, hd⟩ : ∃ d, (waiting ++ acts.filterMap (heldUntil o s now)).min? = some d := by
      rw [← Option.ne_none_iff_exists', ne_eq, List.min?_eq_none_iff]
      exact List.ne_nil_of_mem hmem
    exact (hearly d hd).trans_le ((List.min?_eq_some_iff.mp hd).2 due hmem)
  refine ⟨_, hrow, ?_, fun t hlater hearly => ⟨?_, fun due hwait => ?_⟩, fun d hd => ?_⟩
  · rw [unclaimedReady_eq keyed, ← hacts, ne_eq, List.map_eq_nil_iff, List.filter_eq_nil_iff]
    simp
  · rw [unclaimedReady_eq keyed, unclaimedReady_eq keyed, ← hacts]
    congr 1
    refine List.filter_congr fun act hact => ?_
    cases hidle : idle o s act with
    | false => rfl
    | true =>
      cases hclaim : act.claim with
      | none => simp [unclaimedAt, hclaim]
      | some claim =>
        by_cases hheld : now < claim.leaseExpiryMs
        · -- a lease that runs out later is among the due times
          have hmem : heldUntil o s now act = some claim.leaseExpiryMs := by
            simp [heldUntil, hidle, hclaim, hheld, Option.filter]
          have hstill := hearliest hearly
            (List.mem_append_right _ (List.mem_filterMap.mpr ⟨act, hact, hmem⟩))
          simp [unclaimedAt, hclaim, Nat.not_le.mpr hheld, Nat.not_le.mpr hstill]
        · simp [unclaimedAt, hclaim, Nat.not_lt.mp hheld, (Nat.not_lt.mp hheld).trans hlater]
  · exact hearliest hearly (List.mem_append_left _ ((hdue due).mpr hwait))
  · rcases List.mem_append.mp (List.min?_eq_some_iff.mp hd).1 with hmem | hmem
    · exact .inr ((hdue d).mp hmem)
    · obtain ⟨act, hact, hheld⟩ := List.mem_filterMap.mp hmem
      unfold heldUntil at hheld
      split at hheld
      · next hidle =>
        obtain ⟨hexpiry, hlt⟩ := Option.filter_eq_some_iff.mp hheld
        obtain ⟨claim, hclaim, rfl⟩ := Option.map_eq_some_iff.mp hexpiry
        refine .inl fun hsame => ?_
        -- the activation is free at the end of its lease and held before
        have hfree : act.id ∈ unclaimedReady o s run claim.leaseExpiryMs := by
          rw [unclaimedReady_eq keyed]
          refine List.mem_map_of_mem (List.mem_filter.mpr ⟨hact, ?_⟩)
          simp [hidle, unclaimedAt, hclaim]
        rw [hsame, unclaimedReady_eq keyed, ← hacts] at hfree
        obtain ⟨other, hother, hid⟩ := List.mem_map.mp hfree
        obtain ⟨hother, hunclaimed⟩ := List.mem_filter.mp hother
        obtain ⟨k, hk⟩ := Enumeration.mem_values.mp (List.mem_of_mem_filter hact)
        obtain ⟨k', hk'⟩ := Enumeration.mem_values.mp (List.mem_of_mem_filter hother)
        obtain rfl : k' = k := by
          rw [← keyed.activations k act hk, ← keyed.activations k' other hk', hid]
        obtain rfl := Option.mem_unique hk hk'
        simp only [unclaimedAt, hclaim, Option.all_some, Bool.and_eq_true,
          decide_eq_true_eq] at hunclaimed hlt
        omega
      · cases hheld

/-- The first run of the sample has an activity that nobody holds. -/
theorem twoRuns_scheduled : ∃ log final row, Run sampleEnv (.empty sampleCluster) log final ∧
    RunSchedule.fromState .stored final.toCore ⟨1⟩ false 4 0 1 = some row ∧
    unclaimedReady .stored final.toCore ⟨1⟩ 4 ≠ [] ∧ row.ready = true := by
  obtain ⟨log, final, hrun, hcheck⟩ := exists_sampleRun twoRuns
    (fun _ final => !(unclaimedReady .stored final.toCore ⟨1⟩ 4).isEmpty &&
      (final.runs.lookup ⟨1⟩).any fun run => run.status.isActive)
    (by decide +kernel)
  simp only [Bool.and_eq_true, Bool.not_eq_true', List.isEmpty_eq_false_iff,
    Option.any_eq_true] at hcheck
  obtain ⟨hwork, r, hr, hactive⟩ := hcheck
  have hkeyed :=
    (Trace.keyed (hrun.trace (keyed_empty sampleCluster)) (keyed_empty sampleCluster)).1
  obtain ⟨row, hrow, hready, -⟩ := schedule_agrees hkeyed hr hactive false 4 0 1
  exact ⟨log, final, row, hrun, hrow, hwork, hready.mpr hwork⟩

end Graphrun
