import Graphrun.Claims.Isolation
import Graphrun.Lib.Rounds

/-!
# The allocation of claims

A claim command deals ready work to a worker in rounds over the active runs, one activation of
each run in a round. What a run has to offer is its ready work that the worker may claim, in the
order in which it became ready (`claimableWork`), and the rounds of the command are those of a
fair dealer over these lists (`Rounds`).

* `Claimable` says what may be granted, in terms of the state alone.
* `grantRounds_rounds`: the loop of the command is such a dealer.
* `claims_allocated` is the statement about every claim command that succeeds.
-/

namespace Graphrun

open Lib

variable {env : Env} {o : Enumeration} {s : Core} {time : Nat} {session : WorkerSessionId}
  {worker : WorkerSession} {run : RunId} {a : ActivationId}

/-! ## What a run has to offer -/

/-- Ready work of an active run that nobody holds and that the worker may take. -/
structure Claimable (env : Env) (o : Enumeration) (s : Core) (worker : WorkerSession) (time : Nat)
    (run : RunId) (a : ActivationId) : Prop where
  active : ∃ runState, s.runs.lookup run = some runState ∧ runState.status.isActive = true
  ready : ∃ act, s.activations.lookup a = some act ∧ act.run = run ∧ act.status = .ready ∧
    unclaimedAt act time = true ∧
    (grantRole o s act time = .forward →
      runPastDeadline s run time = false ∧ runIsAborting o s run = false) ∧
    workerMatches env s worker a (grantRole o s act time) = .ok true
  settled : ∀ k wait, s.waits.lookup k = some wait → wait.activation = a → wait.pending = false
  undisturbed : s.interventions.lookup a = none

/-- Whether the worker may take a candidate. -/
def suitable (env : Env) (o : Enumeration) (s : Core) (worker : WorkerSession) (time : Nat)
    (run : RunId) (a : ActivationId) : Bool :=
  (s.activations.lookup a).any fun act =>
    let role := grantRole o s act time
    !(role = .forward ∧ (runPastDeadline s run time ∨ runIsAborting o s run) : Bool) &&
      (workerMatches env s worker a role).toOption = some true

/-- The work of a run that the worker may take, in the order in which it became ready. -/
def claimableWork (env : Env) (o : Enumeration) (s : Core) (worker : WorkerSession) (time : Nat)
    (run : RunId) : List ActivationId :=
  (readyInOrder o s run time).filter (suitable env o s worker time run)

/-- The candidate selected is the first suitable one that is not granted yet. -/
theorem selectReady_eq_find? {granted : List ActivationId} {selected : Option ActivationId} :
    ∀ {candidates : List ActivationId},
      selectReady env o s worker run time granted candidates = .ok selected →
        selected = candidates.find? fun a =>
          !(a ∈ granted : Bool) && suitable env o s worker time run a
  | [], h => (pure_eq_ok.mp h).symm
  | a :: rest, h => by
    have later (h : selectReady env o s worker run time granted rest = .ok selected)
        (hskip : a ∈ granted ∨ suitable env o s worker time run a = false) :
        selected = (a :: rest).find? fun a =>
          !(a ∈ granted : Bool) && suitable env o s worker time run a := by
      rw [List.find?_cons_of_neg (by rcases hskip with hskip | hskip <;> simp [hskip])]
      exact selectReady_eq_find? h
    rw [selectReady_cons] at h
    split at h
    · next hgranted => exact later h (.inl hgranted)
    · next hnew =>
      split at h
      · next hnone => exact later h (.inr (by simp [suitable, hnone]))
      · next act hact =>
        split at h
        · next hbarred => exact later h (.inr (by simp [suitable, hact, hbarred]))
        · next hfree =>
          obtain ⟨suits, hsuits, h⟩ := bind_eq_ok.mp h
          cases suits with
          | false =>
            refine later h (.inr ?_)
            simp [suitable, hact, hsuits, Except.toOption]
          | true =>
            obtain rfl := pure_eq_ok.mp h
            rw [List.find?_cons_of_pos]
            simp only [suitable, hact, hsuits, hnew, Except.toOption, Option.any_some, decide_false,
              Bool.not_false, decide_true, Bool.and_true, hfree]

theorem suitable_iff {act : ActivationState} (hact : s.activations.lookup a = some act) :
    suitable env o s worker time run a = true ↔
      (grantRole o s act time = .forward →
        runPastDeadline s run time = false ∧ runIsAborting o s run = false) ∧
      workerMatches env s worker a (grantRole o s act time) = .ok true := by
  have hok : ∀ r : Result Bool, r.toOption = some true ↔ r = .ok true := by
    intro r
    cases r <;> simp [Except.toOption]
  simp only [suitable, hact, Option.any_some, Bool.and_eq_true, decide_eq_true_eq, hok]
  simp [imp_iff_not_or]

theorem mem_activeRuns (keyed : Keyed s) :
    run ∈ activeRuns o s ↔
      ∃ runState, s.runs.lookup run = some runState ∧ runState.status.isActive = true := by
  simp only [activeRuns, List.mem_map, List.mem_filter, Enumeration.mem_values]
  constructor
  · rintro ⟨runState, ⟨⟨k, hk⟩, hactive⟩, rfl⟩
    rw [keyed.runs k runState hk]
    exact ⟨runState, hk, hactive⟩
  · rintro ⟨runState, hrun, hactive⟩
    exact ⟨runState, ⟨⟨run, hrun⟩, hactive⟩, keyed.runs run runState hrun⟩

/-- What the rounds of a claim deal from an active run is what is claimable there. -/
theorem mem_claimableWork (keyed : Keyed s) (hrun : run ∈ activeRuns o s) :
    a ∈ claimableWork env o s worker time run ↔ Claimable env o s worker time run a := by
  rw [claimableWork, List.mem_filter]
  constructor
  · rintro ⟨hready, hsuitable⟩
    obtain ⟨act, hact, hof, hstatus, hwaits, hfree, hquiet⟩ := mem_readyInOrder keyed hready
    obtain ⟨hforward, hmatches⟩ := (suitable_iff hact).mp hsuitable
    exact ⟨(mem_activeRuns keyed).mp hrun, ⟨act, hact, hof, hstatus, hfree, hforward, hmatches⟩,
      hwaits, hquiet⟩
  · rintro ⟨-, ⟨act, hact, hof, hstatus, hfree, hforward, hmatches⟩, hwaits, hquiet⟩
    refine ⟨?_, (suitable_iff hact).mpr ⟨hforward, hmatches⟩⟩
    apply (List.mem_insertionSort _).mpr
    have hreadied : a ∈ readyActivations o s run := by
      simp only [readyActivations, List.mem_map, List.mem_filter, Enumeration.mem_values]
      refine ⟨act, ⟨⟨a, hact⟩, ?_⟩, keyed.activations a act hact⟩
      simp only [decide_eq_true_eq, List.all_eq_true, Enumeration.mem_values]
      refine ⟨hof, hstatus, fun wait hstored => ?_⟩
      obtain ⟨k, hwait⟩ := hstored
      rw [keyed.activations a act hact]
      by_cases hmine : wait.activation = a
      · exact .inr (hwaits k wait hwait hmine)
      · exact .inl hmine
    simp [unclaimedReady, hreadied, hquiet, hact, hfree]

theorem nodup_claimableWork (keyed : Keyed s) :
    (claimableWork env o s worker time run).Nodup := by
  have hids : ((o.values s.activations).map (·.id)).Nodup :=
    o.nodup_map_values keyed.activations
  have hready : (readyActivations o s run).Nodup := by
    exact hids.sublist (List.filter_sublist.map _)
  exact (((List.perm_insertionSort _ _).nodup_iff).mpr (hready.filter _)).filter _

theorem nodup_activeRuns (keyed : Keyed s) : (activeRuns o s).Nodup := by
  have hids : ((o.values s.runs).map (·.id)).Nodup := o.nodup_map_values keyed.runs
  exact hids.sublist (List.filter_sublist.map _)

/-! ## The loop as a dealer -/

/-- The run and the activation that an event grants a claim for. -/
def DomainEvent.granted? : DomainEvent → Option (RunId × ActivationId)
  | .claimGranted run _ a _ _ _ _ _ _ _ _ _ _ _ => some (run, a)
  | _ => none

/-- The grants among some events, in order. -/
def grantsOf (es : List DomainEvent) : List (RunId × ActivationId) :=
  es.filterMap DomainEvent.granted?

/-- The grants so far are those recorded, each for an activation of its run. -/
structure Dealing (s : Core) (grants : Grants) : Prop where
  ids : grants.ids = (grantsOf grants.events).map Prod.snd
  owned : ∀ g ∈ grantsOf grants.events, ∃ act, s.activations.lookup g.2 = some act ∧ act.run = g.1

variable {grants grants' : Grants} {cap : Nat}

theorem Dealing.length (dealing : Dealing s grants) :
    grants.ids.length = (grantsOf grants.events).length := by
  rw [dealing.ids, List.length_map]

theorem Dealing.mem_ids (keyed : Keyed s) (dealing : Dealing s grants)
    (ha : a ∈ claimableWork env o s worker time run) :
    a ∈ grants.ids ↔ (run, a) ∈ grantsOf grants.events := by
  obtain ⟨act, hact, hrun, -⟩ := mem_readyInOrder keyed (List.mem_of_mem_filter ha)
  rw [dealing.ids, List.mem_map]
  constructor
  · rintro ⟨⟨r, b⟩, hg, rfl⟩
    obtain ⟨act', hact', hof⟩ := dealing.owned _ hg
    obtain rfl : act = act' := Option.mem_unique hact hact'
    obtain rfl : r = run := hof.symm.trans hrun
    exact hg
  · exact fun hg => ⟨_, hg, rfl⟩

/-- Serving a run is a turn of the dealer. -/
theorem grantInRun_serves (keyed : Keyed s) (dealing : Dealing s grants)
    (h : grantInRun env o s session worker time cap grants run = .ok grants') :
    Serves (claimableWork env o s worker time) cap (grantsOf grants.events) run
      (grantsOf grants'.events) ∧ Dealing s grants' := by
  have hlength := dealing.length
  unfold grantInRun at h
  split at h
  · next hfull =>
    obtain rfl := pure_eq_ok.mp h
    exact ⟨.full (by omega), dealing⟩
  · next hfree =>
    obtain ⟨selected, hselected, h⟩ := bind_eq_ok.mp h
    have hlt : (grantsOf grants.events).length < cap := by omega
    have hfind := selectReady_eq_find? hselected
    cases selected with
    | none =>
      obtain rfl := pure_eq_ok.mp h
      refine ⟨.sated hlt fun a ha => ?_, dealing⟩
      have hnone := List.find?_eq_none.mp hfind.symm a (List.mem_of_mem_filter ha)
      have hsuitable := List.of_mem_filter ha
      rw [← dealing.mem_ids keyed ha]
      simpa [hsuitable] using hnone
    | some a =>
      obtain ⟨hchosen, before, after, hsplit, hbefore⟩ :=
        List.find?_eq_some_iff_append.mp hfind.symm
      simp only [Bool.and_eq_true, Bool.not_eq_true', decide_eq_false_iff_not] at hchosen
      obtain ⟨hnew, hsuitable⟩ := hchosen
      have hwork : claimableWork env o s worker time run =
          before.filter (suitable env o s worker time run) ++
            a :: after.filter (suitable env o s worker time run) := by
        rw [claimableWork, hsplit, List.filter_append, List.filter_cons_of_pos hsuitable]
      have hmem : a ∈ claimableWork env o s worker time run := by
        rw [hwork]
        exact List.mem_append_right _ List.mem_cons_self
      obtain ⟨act, hact, hrun, -⟩ := mem_readyInOrder keyed (List.mem_of_mem_filter hmem)
      simp only [Option.bind_some, hact, Option.map_some, bind_eq_ok, pure_eq_ok] at h
      obtain ⟨e, he, rfl⟩ := h
      have hgrant : grantsOf [e] = [(run, a)] := by
        obtain ⟨handler, version, input, attempt, deadline, effectKey, rfl⟩ := grantClaim_ok he
        rfl
      have hgrants : grantsOf (grants.events ++ [e]) = grantsOf grants.events ++ [(run, a)] := by
        rw [grantsOf, List.filterMap_append]
        exact congrArg _ hgrant
      refine ⟨?_, ?_, ?_⟩
      · rw [hgrants]
        refine .deals hlt hwork (fun b hb => ?_) fun hg =>
          hnew ((dealing.mem_ids keyed hmem).mpr hg)
        obtain ⟨hb, hbsuitable⟩ := List.mem_filter.mp hb
        have hbwork : b ∈ claimableWork env o s worker time run := by
          rw [hwork]
          exact List.mem_append_left _ (List.mem_filter.mpr ⟨hb, hbsuitable⟩)
        rw [← dealing.mem_ids keyed hbwork]
        simpa [hbsuitable] using hbefore b hb
      · rw [hgrants, List.map_append, ← dealing.ids]
        rfl
      · rw [hgrants]
        refine List.forall_mem_append.mpr ⟨dealing.owned, ?_⟩
        rw [List.forall_mem_singleton]
        exact ⟨act, hact, hrun⟩

theorem foldlM_round (keyed : Keyed s) : ∀ {runs : List RunId} {grants : Grants},
    Dealing s grants →
    runs.foldlM (grantInRun env o s session worker time cap) grants = .ok grants' →
      Round (claimableWork env o s worker time) cap runs (grantsOf grants.events)
        (grantsOf grants'.events) ∧ Dealing s grants'
  | [], _, dealing, h => by
    obtain rfl := pure_eq_ok.mp h
    exact ⟨.nil, dealing⟩
  | run :: runs, grants, dealing, h => by
    rw [List.foldlM_cons] at h
    obtain ⟨next, hnext, h⟩ := bind_eq_ok.mp h
    obtain ⟨turn, hdealing⟩ := grantInRun_serves keyed dealing hnext
    obtain ⟨round, hdealing'⟩ := foldlM_round keyed hdealing h
    exact ⟨.cons turn round, hdealing'⟩

/-- The loop of a claim command deals in rounds. Every round but the last grants something, so
that it is not cut short. -/
theorem grantRounds_rounds (keyed : Keyed s) {runs : List RunId} :
    ∀ {rounds : Nat} {grants : Grants}, Dealing s grants → cap ≤ grants.ids.length + rounds →
      grantRounds env o s session worker time cap runs rounds grants = .ok grants' →
        Rounds (claimableWork env o s worker time) cap runs (grantsOf grants.events)
          (grantsOf grants'.events)
  | 0, grants, dealing, hfuel, h => by
    obtain rfl := pure_eq_ok.mp h
    have hlength := dealing.length
    exact .full (by omega)
  | rounds + 1, grants, dealing, hfuel, h => by
    have hlength := dealing.length
    unfold grantRounds at h
    split at h
    · next hfull =>
      obtain rfl := pure_eq_ok.mp h
      exact .full (by omega)
    · next hfree =>
      obtain ⟨after, hafter, h⟩ := bind_eq_ok.mp h
      obtain ⟨round, hdealing⟩ := foldlM_round keyed dealing hafter
      obtain ⟨hgrows, hsame⟩ := foldlM_grantInRun_le hafter
      have hlength' := hdealing.length
      split at h
      · next hidle =>
        obtain rfl := pure_eq_ok.mp h
        obtain rfl := hsame hidle
        exact .idle (by omega) round
      · next hgrew =>
        exact .more round (by omega) (grantRounds_rounds keyed hdealing (by omega) h)

/-! ## Fair allocation -/

/-- One activation became ready before another, or at the same time with the smaller identity. -/
def ReadyBefore (s : Core) (a b : ActivationId) : Prop :=
  ∃ act act', s.activations.lookup a = some act ∧ s.activations.lookup b = some act' ∧
    (act.readyOrder < act'.readyOrder ∨
      (act.readyOrder = act'.readyOrder ∧ a.bytes ≤ b.bytes))

/-- In the cyclic order of the runs that starts after the cursor, one run comes no later than
another. -/
def NoLater (cursor : Option RunId) (r r' : RunId) : Prop :=
  let wrapped := fun run : RunId => cursor.any fun last => run.bytes ≤ last.bytes
  (wrapped r = false ∧ wrapped r' = true) ∨ (wrapped r = wrapped r' ∧ r.bytes ≤ r'.bytes)

/-- A fair allocation of at most so many claims. -/
structure FairAllocation (env : Env) (o : Enumeration) (s : Core) (worker : WorkerSession)
    (time bound : Nat) (grants : List (RunId × ActivationId)) : Prop where
  claimable : ∀ g ∈ grants, Claimable env o s worker time g.1 g.2
  distinct : (grants.map Prod.snd).Nodup
  bounded : grants.length ≤ bound
  filled : ∀ work : List (RunId × ActivationId), work.Nodup →
    (∀ g ∈ work, Claimable env o s worker time g.1 g.2) → bound ≤ work.length →
      grants.length = bound
  even : ∀ r r', (dealtTo grants r').length ≤ (dealtTo grants r).length + 1 ∨
    ∀ a, Claimable env o s worker time r a → (r, a) ∈ grants
  ordered : ∀ r, (dealtTo grants r).Pairwise (ReadyBefore s)
  unskipped : ∀ r a b, (r, a) ∈ grants → Claimable env o s worker time r b → ReadyBefore s b a →
    (r, b) ∈ grants
  first : ∀ r a, grants.head? = some (r, a) → ∀ r' b, Claimable env o s worker time r' b →
    NoLater s.fairCursor r r'

theorem pairwise_claimableWork (keyed : Keyed s) :
    (claimableWork env o s worker time run).Pairwise (ReadyBefore s) := by
  have hsorted := (List.pairwise_insertionSort (fun a b : ActivationId =>
    ((s.activations.lookup a).map (·.readyOrder)).getD 0 <
        ((s.activations.lookup b).map (·.readyOrder)).getD 0 ∨
      (((s.activations.lookup a).map (·.readyOrder)).getD 0 =
        ((s.activations.lookup b).map (·.readyOrder)).getD 0 ∧ a.bytes ≤ b.bytes))
    (unclaimedReady o s run time)).filter (suitable env o s worker time run)
  refine hsorted.imp_of_mem fun {a b} ha hb hab => ?_
  obtain ⟨act, hact, -⟩ := mem_readyInOrder keyed (List.mem_of_mem_filter ha)
  obtain ⟨act', hact', -⟩ := mem_readyInOrder keyed (List.mem_of_mem_filter hb)
  simp only [hact, hact', Option.map_some, Option.getD_some] at hab
  exact ⟨act, act', hact, hact', hab⟩

theorem pairwise_fairOrder (runs : List RunId) :
    (fairOrder s runs).Pairwise (NoLater s.fairCursor) := by
  have hsorted := List.pairwise_insertionSort (fun a b : RunId => a.bytes ≤ b.bytes) runs
  cases hlast : s.fairCursor with
  | none =>
    simp only [fairOrder, hlast]
    exact hsorted.imp fun hab => .inr ⟨rfl, hab⟩
  | some last =>
    rw [fairOrder_eq_sorted s runs hlast, List.pairwise_append]
    refine ⟨(hsorted.filter _).imp_of_mem fun ha hb hab => .inr ⟨?_, hab⟩,
      (hsorted.filter _).imp_of_mem fun ha hb hab => .inr ⟨?_, hab⟩, fun a ha b hb => .inl ⟨?_, ?_⟩⟩
    · have hpast := List.of_mem_filter ha
      have hpast' := List.of_mem_filter hb
      rw [Bool.not_eq_true'] at hpast hpast'
      exact hpast.trans hpast'.symm
    · have hpast := List.of_mem_filter ha
      have hpast' := List.of_mem_filter hb
      exact hpast.trans hpast'.symm
    · simpa using List.of_mem_filter ha
    · simpa using List.of_mem_filter hb

theorem perm_fairOrder (runs : List RunId) : (fairOrder s runs).Perm runs := by
  have hsorted := List.perm_insertionSort (fun a b : RunId => a.bytes ≤ b.bytes) runs
  unfold fairOrder
  split
  · exact hsorted
  · exact (List.rotate_perm _ _).trans hsorted

theorem ReadyBefore.antisymm {b : ActivationId} (hab : ReadyBefore s a b)
    (hba : ReadyBefore s b a) : a = b := by
  obtain ⟨act, act', hact, hact', horder⟩ := hab
  obtain ⟨act₁', act₁, hact₁', hact₁, horder'⟩ := hba
  obtain rfl := Option.mem_unique hact hact₁
  obtain rfl := Option.mem_unique hact' hact₁'
  have hbytes : a.bytes = b.bytes := by omega
  cases a
  cases b
  exact congrArg _ hbytes

section Rounds

variable {bound : Nat} {given : List (RunId × ActivationId)}

/-- The runs that have something to offer are served. -/
theorem Claimable.served (keyed : Keyed s) (claimable : Claimable env o s worker time run a) :
    run ∈ fairOrder s (activeRuns o s) ∧ a ∈ claimableWork env o s worker time run := by
  have hactive : run ∈ activeRuns o s := (mem_activeRuns keyed).mpr claimable.active
  exact ⟨(perm_fairOrder _).mem_iff.mpr hactive, (mem_claimableWork keyed hactive).mpr claimable⟩

/-- What is dealt in rounds to distinct activations is a fair allocation. -/
theorem fairAllocation_of_rounds (keyed : Keyed s)
    (rounds : Rounds (claimableWork env o s worker time) bound (fairOrder s (activeRuns o s)) []
      given) (distinct : (given.map Prod.snd).Nodup) :
    FairAllocation env o s worker time bound given := by
  have hclients : (fairOrder s (activeRuns o s)).Nodup :=
    (perm_fairOrder _).nodup_iff.mpr (nodup_activeRuns keyed)
  obtain ⟨hbound, ⟨k, served, waiting, hdealt⟩, hend⟩ :=
    rounds.dealt hclients (fun _ _ => nodup_claimableWork keyed) (Nat.zero_le _) dealt_nil
  -- what a run was dealt is the beginning of its work
  have htaken : ∀ r, ∃ n, dealtTo given r = (claimableWork env o s worker time r).take n := by
    intro r
    by_cases hr : r ∈ fairOrder s (activeRuns o s)
    · obtain ⟨n, -, hn⟩ := hdealt.taken hr
      exact ⟨n, hn⟩
    · refine ⟨0, List.eq_nil_iff_forall_not_mem.mpr fun a ha => hr ?_⟩
      exact hdealt.known _ (mem_dealtTo.mp ha)
  refine ⟨fun g hg => ?_, distinct, hbound, fun work hwork hall hlength => ?_, fun r r' => ?_,
    fun r => ?_, fun r a b ha hb hbefore => ?_, fun r a hfirst r' b hb => ?_⟩
  · obtain ⟨n, hn⟩ := htaken g.1
    have hmem : g.2 ∈ dealtTo given g.1 := mem_dealtTo.mpr hg
    rw [hn] at hmem
    have hactive := (perm_fairOrder _).mem_iff.mp (hdealt.known g hg)
    exact (mem_claimableWork keyed hactive).mp (List.mem_of_mem_take hmem)
  · rcases hend with hfull | hall'
    · exact hfull
    · have hsub : work ⊆ given := fun g hg => by
        obtain ⟨hserved, hoffered⟩ := (hall g hg).served keyed
        exact hall' g.1 hserved g.2 hoffered
      have hle := (List.subperm_of_subset hwork hsub).length_le
      omega
  · by_cases hr : r ∈ fairOrder s (activeRuns o s)
    · by_cases hr' : r' ∈ fairOrder s (activeRuns o s)
      · refine (hdealt.fair hr' hr).imp_right fun hsated a ha => ?_
        rw [← mem_dealtTo, hsated]
        exact (ha.served keyed).2
      · left
        have hnone : dealtTo given r' = [] :=
          List.eq_nil_iff_forall_not_mem.mpr fun a ha => hr' (hdealt.known _ (mem_dealtTo.mp ha))
        rw [hnone]
        exact Nat.zero_le _
    · exact .inr fun a ha => absurd (ha.served keyed).1 hr
  · obtain ⟨n, hn⟩ := htaken r
    rw [hn]
    exact (pairwise_claimableWork keyed).sublist (List.take_sublist _ _)
  · obtain ⟨n, hn⟩ := htaken r
    have hwork : (claimableWork env o s worker time r).Pairwise (ReadyBefore s) :=
      pairwise_claimableWork keyed
    have hmem : a ∈ dealtTo given r := mem_dealtTo.mpr ha
    have hoffered := (hb.served keyed).2
    rw [← List.take_append_drop n (claimableWork env o s worker time r)] at hwork hoffered
    rw [← mem_dealtTo, hn]
    rcases List.mem_append.mp hoffered with hb | hb
    · exact hb
    · rw [hn] at hmem
      have hafter := (List.pairwise_append.mp hwork).2.2 a hmem b hb
      rwa [hbefore.antisymm hafter]
  · obtain ⟨before, after, hsplit, hnone⟩ := rounds.first hfirst
    obtain ⟨hserved, hoffered⟩ := hb.served keyed
    have hsorted := pairwise_fairOrder (s := s) (activeRuns o s)
    rw [hsplit] at hserved hsorted
    rcases List.mem_append.mp hserved with hbefore | hrest
    · rw [hnone r' hbefore] at hoffered
      cases hoffered
    · rcases List.mem_cons.mp hrest with rfl | hlater
      · exact .inr ⟨rfl, Nat.le_refl _⟩
      · exact (List.pairwise_cons.mp (List.pairwise_append.mp hsorted).2.1).1 r' hlater

end Rounds

/-- Whatever a claim command grants is a fair allocation of what is claimable, up to what was
asked for, what the worker has room for and the size of a batch. -/
theorem claims_allocated {capacity : Nat} {es : List DomainEvent} (keyed : Keyed s)
    (h : decideClaim env o s session capacity time = .ok es) :
    ∃ worker, s.sessions.lookup session = some worker ∧
      FairAllocation env o s worker time
        (min (min capacity (worker.capacity - workerInFlight o s session time)) claimBatch)
        (grantsOf es) := by
  simp only [decideClaim, bind_eq_ok, okOr_eq_ok, refuseIf_eq_ok] at h
  obtain ⟨worker, hworker, -, -, h⟩ := h
  refine ⟨worker, hworker, ?_⟩
  set bound := min (min capacity (worker.capacity - workerInFlight o s session time)) claimBatch
  have hrenewed : grantsOf (if worker.principalId = "" then
      [DomainEvent.sessionRegistered session worker.activities worker.capacity
        (satAdd time sessionLeaseMs)] else []) = [] := by
    split <;> rfl
  split at h
  · next hidle =>
    obtain rfl := pure_eq_ok.mp h
    rw [hrenewed]
    refine fairAllocation_of_rounds keyed ?_ List.nodup_nil
    rw [hidle]
    -- nobody to serve: the first round is the last
    have hnobody : fairOrder s [] = [] := (perm_fairOrder []).eq_nil
    rw [hnobody]
    rcases Nat.eq_zero_or_pos bound with hzero | hpos
    · exact .full (Nat.le_of_eq hzero)
    · exact .idle hpos .nil
  · obtain ⟨grants, hgrants, h⟩ := bind_eq_ok.mp h
    obtain rfl := pure_eq_ok.mp h
    have hnone : Dealing s ⟨[], []⟩ := ⟨rfl, List.forall_mem_nil _⟩
    have hdealing : Dealing s grants := grantRounds_keeps
      (fun _ _ _ hserved dealing => (grantInRun_serves keyed dealing hserved).2) hgrants hnone
    have hgranted := grantRounds_ok keyed hgrants (granted_nil o s session time)
    have hsplit : ∀ renewed, grantsOf renewed = [] →
        grantsOf (renewed ++ grants.events) = grantsOf grants.events := by
      intro renewed hnil
      rw [grantsOf, List.filterMap_append]
      exact congrArg (· ++ grantsOf grants.events) hnil
    rw [hsplit _ hrenewed]
    refine fairAllocation_of_rounds keyed ?_ (hdealing.ids ▸ hgranted.nodup)
    exact grantRounds_rounds keyed hnone (Nat.le_of_eq (Nat.zero_add _).symm) hgrants

/-- Two runs with a ready activity each, and a session with room for three. -/
def twoRuns : List Command := [
  { id := ⟨1⟩, body := .start ⟨1⟩ workWorkflow .null (sampleCatalog ["a"] .manual), time := 1 },
  { id := ⟨2⟩, body := .start ⟨2⟩ workWorkflow .null (sampleCatalog ["a"] .manual), time := 2 },
  { id := ⟨3⟩, body := .registerSession ⟨1⟩ ["*"] 3, time := 3 }]

/-- A claim of two serves both runs, the one with the smaller identity first. -/
theorem twoRuns_allocated : ∃ log final worker grants,
    Run sampleEnv (.empty sampleCluster) log final ∧ Keyed final.toCore ∧
    grants.map Prod.fst = [⟨1⟩, ⟨2⟩] ∧
    FairAllocation sampleEnv .stored final.toCore worker 4 2 grants := by
  have hrun := applyEntries_run sampleEnv .stored (.empty sampleCluster) twoRuns
  have hkeyed :=
    (Trace.keyed (hrun.trace (keyed_empty sampleCluster)) (keyed_empty sampleCluster)).1
  have hcheck : ((decideClaim sampleEnv .stored
      (applyEntries sampleEnv .stored (.empty sampleCluster) twoRuns).1.toCore ⟨1⟩ 2 4).toOption.any
        (fun es => (grantsOf es).map Prod.fst = [⟨1⟩, ⟨2⟩]) &&
      ((applyEntries sampleEnv .stored (.empty sampleCluster) twoRuns).1.sessions.lookup ⟨1⟩).all
        (fun worker => min (min 2 (worker.capacity - workerInFlight .stored
          (applyEntries sampleEnv .stored (.empty sampleCluster) twoRuns).1.toCore ⟨1⟩ 4))
            claimBatch = 2)) = true := by
    decide +kernel
  simp only [Bool.and_eq_true, Option.any_eq_true, decide_eq_true_eq] at hcheck
  obtain ⟨⟨es, hes, hruns⟩, hbound⟩ := hcheck
  obtain ⟨worker, hworker, hfair⟩ := claims_allocated hkeyed (ok_of_toOption hes)
  have htwo := hbound
  rw [hworker, Option.all_some, decide_eq_true_eq] at htwo
  exact ⟨_, _, worker, grantsOf es, hrun, hkeyed, hruns, htwo ▸ hfair⟩

end Graphrun
