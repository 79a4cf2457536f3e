import Graphrun.Claims.Fencing
import Graphrun.Engine.Kinds
import Graphrun.Engine.Tree
import Graphrun.Lib.Sorting

/-!
# Claims of one run beside another

A claim command goes over the active runs in turn and grants one ready activation of each. What
it reads of a run lies in the records of that run, so that adding a run (`RunAdded`) changes
nothing for the others: the same candidates are found in the same order, with the same roles and
inputs. But the command as a whole fails as soon as it consults a candidate that it cannot serve,
and a run whose ready activity has an input that cannot be evaluated makes it fail for all
(`strayInput_refused`).

* `RunAdded.grantInRun_other`: the other runs are served as before.
* `RunAdded.grantRounds_beside`: if the rounds without the new run go through, those with it do
  exactly if the candidates of the new run that they consult can be served.
* `claim_beside`: so a claim that grants something still does exactly then, as long as the worker
  has a free slot.
-/

namespace Graphrun

open Lib

variable {env : Env} {o : Enumeration} {s s' : Core} {time : Nat} {run : RunId} {k : ScopeId}
  {sc : ScopeState} {runs : List RunId}

/-! ## One more run -/

/-- An activation that a state has, or has scopes for. -/
def Mentions (s : Core) (a : ActivationId) : Prop :=
  (∃ b act, s.activations.lookup b = some act ∧ act.id = a) ∨
    ∃ k sc, s.scopes.lookup k = some sc ∧ sc.role.activation? = some a

/-- The records of one more active run are added, under identities that nothing in the state
refers to. -/
structure RunAdded (run : RunId) (s s' : Core) : Prop where
  unknown : s.runs.lookup run = none ∧ ∀ r state, s.runs.lookup r = some state → state.id ≠ run
  added : ∃ state, s'.runs.lookup run = some state ∧ state.id = run ∧ state.status.isActive = true
  runs : ∀ r, r ≠ run → s'.runs.lookup r = s.runs.lookup r
  others : (∀ k sc, s.scopes.lookup k = some sc → sc.run ≠ run) ∧
    ∀ a act, s.activations.lookup a = some act → act.run ≠ run
  scopes : s.scopes.Adds s'.scopes fun k sc => sc.run = run ∧
    ∀ a act, s.activations.lookup a = some act → act.scope ≠ k
  activations : s.activations.Adds s'.activations fun a act => act.run = run ∧ act.id = a ∧
    ¬ Mentions s a
  waits : s.waits.Adds s'.waits fun _ wait => ¬ Mentions s wait.activation
  obligations : s.obligations = s'.obligations.filter fun item => item.run ≠ run
  compensations : ∀ item ∈ s'.obligations, item.run = run → ∀ a, item.status = .compensating a →
    ¬ Mentions s a
  loopCarry : ∀ a, Mentions s a → s'.loopCarry.lookup a = s.loopCarry.lookup a
  interventions : ∀ a, Mentions s a → s'.interventions.lookup a = s.interventions.lookup a
  sagaErrors : s.sagaErrors.Adds s'.sagaErrors fun a _ => s.activations.lookup a = none
  sessions : s'.sessions = s.sessions
  fairCursor : s'.fairCursor = s.fairCursor

/-- Candidates are put in order of readiness, and by identity where that is the same. -/
instance readyOrder_total (order : ActivationId → Nat) : Std.Total fun a b : ActivationId =>
    order a < order b ∨ (order a = order b ∧ a.bytes ≤ b.bytes) :=
  ⟨fun a b => by omega⟩

instance readyOrder_trans (order : ActivationId → Nat) : IsTrans ActivationId fun a b =>
    order a < order b ∨ (order a = order b ∧ a.bytes ≤ b.bytes) :=
  ⟨fun a b c hab hbc => by omega⟩

instance readyOrder_antisymm (order : ActivationId → Nat) : Std.Antisymm fun a b : ActivationId =>
    order a < order b ∨ (order a = order b ∧ a.bytes ≤ b.bytes) :=
  ⟨fun ⟨m⟩ ⟨n⟩ hab hba => by
    have hsame : m = n := by
      simp only at hab hba
      omega
    rw [hsame]⟩

namespace RunAdded

variable (added : RunAdded run s s') {a : ActivationId} {act : ActivationState}
  {role : ExecutionRole} {r : RunId}

include added

theorem lookup_activation (h : Mentions s a) :
    s'.activations.lookup a = s.activations.lookup a :=
  added.activations.lookup_eq fun _ hnew => hnew.2.2 h

theorem lookup_scope (hact : s.activations.lookup a = some act) :
    s'.scopes.lookup act.scope = s.scopes.lookup act.scope :=
  added.scopes.lookup_eq fun _ hnew => hnew.2 a act hact rfl

theorem lookup_run (hact : s.activations.lookup a = some act) :
    s'.runs.lookup act.run = s.runs.lookup act.run :=
  added.runs _ (added.others.2 a act hact)

theorem lookup_run_of_scope (hscope : s.scopes.lookup k = some sc) :
    s'.runs.lookup sc.run = s.runs.lookup sc.run :=
  added.runs _ (added.others.1 k sc hscope)

theorem run_kept {state : RunState} (h : s.runs.lookup r = some state) :
    s'.runs.lookup r = some state := by
  have hne : r ≠ run := by
    rintro rfl
    rw [added.unknown.1] at h
    cases h
  rw [added.runs r hne, h]

theorem regionAt_kept {region : Region} (h : RegionAt s k region) :
    RegionAt s' k region := by
  induction h with
  | root hscope hrun hrole =>
    exact .root (added.scopes.kept hscope) (added.run_kept hrun) hrole
  | body hscope hrun hrole hact _ hnode hbody ih =>
    exact .body (added.scopes.kept hscope) (added.run_kept hrun) hrole
      (added.activations.kept hact) ih hnode hbody

theorem regionAt_of_added {region : Region} (h : RegionAt s' k region)
    (hold : s'.scopes.lookup k = s.scopes.lookup k) : RegionAt s k region := by
  induction h with
  | root hscope hrun hrole =>
    rw [hold] at hscope
    rw [added.lookup_run_of_scope hscope] at hrun
    exact .root hscope hrun hrole
  | body hscope hrun hrole hact _ hnode hbody ih =>
    rw [hold] at hscope
    rw [added.lookup_run_of_scope hscope] at hrun
    rw [added.lookup_activation (.inr ⟨_, _, hscope, hrole⟩)] at hact
    exact .body hscope hrun hrole hact (ih (added.lookup_scope hact)) hnode hbody

theorem regionForScope_eq (hact : s.activations.lookup a = some act) :
    regionForScope s' act.scope = regionForScope s act.scope := by
  ext region
  rw [regionForScope_iff, regionForScope_iff]
  exact ⟨fun h => added.regionAt_of_added h (added.lookup_scope hact), added.regionAt_kept⟩

theorem evalCtx_eq (hscope : s.scopes.lookup k = some sc) :
    evalCtx s' sc = evalCtx s sc := by
  unfold evalCtx
  rw [added.lookup_run_of_scope hscope]
  cases hrole : sc.role with
  | loopBody b index =>
    have hcarry := added.loopCarry b (.inr ⟨k, sc, hscope, by rw [hrole]; rfl⟩)
    simp only [hcarry]
  | _ => rfl

theorem compensatedBy_eq (h : Mentions s a) : compensatedBy s' a = compensatedBy s a := by
  unfold compensatedBy
  rw [added.obligations, find?_filter_of_imp]
  intro item hitem hstatus
  simp only [Obligation.isCompensating, decide_eq_true_eq] at hstatus ⊢
  exact fun hown => added.compensations item hitem hown a hstatus h

/-! ## Candidates -/

theorem runIsAborting_eq (hr : r ≠ run) : runIsAborting o s' r = runIsAborting o s r := by
  rw [Bool.eq_iff_iff]
  simp only [runIsAborting, List.any_eq_true, Enumeration.mem_keys, Option.any_eq_true,
    decide_eq_true_eq]
  constructor
  · rintro ⟨saga, ⟨error, herror⟩, act, hact, hown⟩
    rcases added.activations.kept_or_new hact with hold | ⟨-, hnew, -⟩
    · rcases added.sagaErrors.kept_or_new herror with herror | ⟨-, hnone⟩
      · exact ⟨saga, ⟨error, herror⟩, act, hold, hown⟩
      · rw [hold] at hnone
        cases hnone
    · exact absurd (hown.symm.trans hnew) hr
  · rintro ⟨saga, ⟨error, herror⟩, act, hact, hown⟩
    exact ⟨saga, ⟨error, added.sagaErrors.kept herror⟩, act, added.activations.kept hact, hown⟩

theorem runPastDeadline_eq (hr : r ≠ run) :
    runPastDeadline s' r time = runPastDeadline s r time := by
  unfold runPastDeadline
  rw [added.runs r hr]

theorem nodeOf_eq (hact : s.activations.lookup a = some act) (key : NodeKey) :
    nodeOf s' act.scope key = nodeOf s act.scope key := by
  unfold nodeOf
  rw [added.regionForScope_eq hact]

theorem grantRole_eq (hact : s.activations.lookup a = some act) :
    grantRole o s' act time = grantRole o s act time := by
  unfold grantRole
  rw [added.lookup_run hact, added.nodeOf_eq hact,
    added.runIsAborting_eq (added.others.2 a act hact)]

theorem claimedActivity_eq (h : Mentions s a) :
    claimedActivity s' a role = claimedActivity s a role := by
  unfold claimedActivity
  rw [added.lookup_activation h]
  cases hact : s.activations.lookup a with
  | none => rfl
  | some act =>
    simp only [okOr, ok_bind, added.lookup_run hact, added.compensatedBy_eq h,
      added.regionForScope_eq hact, added.lookup_scope hact]
    cases hscope : s.scopes.lookup act.scope with
    | none => rfl
    | some sc => simp only [ok_bind, added.evalCtx_eq hscope]

theorem workerMatches_eq (h : Mentions s a) (worker : WorkerSession) :
    workerMatches env s' worker a role = workerMatches env s worker a role := by
  unfold workerMatches
  rw [added.lookup_activation h, added.claimedActivity_eq h]
  cases hact : s.activations.lookup a with
  | none => rfl
  | some act => simp only [okOr, ok_bind, added.lookup_run hact]

theorem readyActivations_perm (hr : r ≠ run) :
    (readyActivations o s' r).Perm (readyActivations o s r) := by
  apply List.Perm.map
  apply (o.filter_values_perm added.activations ?_).trans
  · apply List.Perm.of_eq
    apply List.filter_congr
    intro act hmem
    obtain ⟨a, hact⟩ := Enumeration.mem_values.mp hmem
    have hmentions : Mentions s act.id := .inl ⟨a, act, hact, rfl⟩
    have hwaits : ((o.values s'.waits).all fun wait => wait.activation ≠ act.id ∨
        wait.pending = false) = (o.values s.waits).all fun wait => wait.activation ≠ act.id ∨
        wait.pending = false := by
      rw [Bool.eq_iff_iff]
      simp only [List.all_eq_true, Enumeration.mem_values, decide_eq_true_eq]
      constructor
      · rintro h wait ⟨w, hwait⟩
        exact h wait ⟨w, added.waits.kept hwait⟩
      · rintro h wait ⟨w, hwait⟩
        rcases added.waits.kept_or_new hwait with hold | ⟨-, hnew⟩
        · exact h wait ⟨w, hold⟩
        · exact .inl fun heq => hnew (heq ▸ hmentions)
    rw [hwaits]
  · rintro a act ⟨hown, -⟩
    have hne : ¬ act.run = r := fun heq => hr (heq.symm.trans hown)
    simp [hne]

omit added in
theorem mentions_of_ready (h : a ∈ readyActivations o s r) : Mentions s a := by
  obtain ⟨act, hact, rfl⟩ := List.mem_map.mp h
  obtain ⟨b, hb⟩ := Enumeration.mem_values.mp (List.mem_of_mem_filter hact)
  exact .inl ⟨b, act, hb, rfl⟩

theorem unclaimedReady_perm (hr : r ≠ run) :
    (unclaimedReady o s' r time).Perm (unclaimedReady o s r time) := by
  apply ((added.readyActivations_perm hr).filter _).trans
  apply List.Perm.of_eq
  apply List.filter_congr
  intro a ha
  have hmentions := mentions_of_ready ha
  rw [added.interventions a hmentions, added.lookup_activation hmentions]

/-- The candidates of the new run are new. -/
theorem new_of_ready (h : a ∈ readyActivations o s' run) : s.activations.lookup a = none := by
  obtain ⟨act, hact, rfl⟩ := List.mem_map.mp h
  obtain ⟨hmem, hready⟩ := List.mem_filter.mp hact
  have hown : act.run = run := (of_decide_eq_true hready).1
  obtain ⟨b, hb⟩ := Enumeration.mem_values.mp hmem
  rcases added.activations.kept_or_new hb with hold | ⟨hnone, -, rfl, -⟩
  · exact absurd hown (added.others.2 b act hold)
  · exact hnone

/-- The other runs have the same candidates, in the same order. -/
theorem readyInOrder_eq (hr : r ≠ run) : readyInOrder o s' r time = readyInOrder o s r time := by
  apply insertionSort_congr_perm (added.unclaimedReady_perm hr)
  intro a ha b hb
  have hlookup : ∀ {c}, c ∈ unclaimedReady o s' r time →
      s'.activations.lookup c = s.activations.lookup c := by
    intro c hc
    have hold := (added.unclaimedReady_perm hr).mem_iff.mp hc
    exact added.lookup_activation (mentions_of_ready (List.mem_of_mem_filter hold))
  simp only [hlookup ha, hlookup hb]

end RunAdded

/-! ## The order of the runs -/

instance runOrder_total : Std.Total fun a b : RunId => a.bytes ≤ b.bytes :=
  ⟨fun a b => Nat.le_total a.bytes b.bytes⟩

instance runOrder_trans : IsTrans RunId fun a b => a.bytes ≤ b.bytes :=
  ⟨fun _ _ _ hab hbc => Nat.le_trans hab hbc⟩

instance runOrder_antisymm : Std.Antisymm fun a b : RunId => a.bytes ≤ b.bytes :=
  ⟨fun ⟨m⟩ ⟨n⟩ hab hba => by
    have hsame : m = n := Nat.le_antisymm hab hba
    rw [hsame]⟩

theorem fairOrder_eq_sorted (s : Core) (runs : List RunId) {last : RunId}
    (hlast : s.fairCursor = some last) :
    fairOrder s runs =
      ((runs.insertionSort fun a b => a.bytes ≤ b.bytes).filter
        fun r => !Decidable.decide (r.bytes ≤ last.bytes)) ++
      (runs.insertionSort fun a b => a.bytes ≤ b.bytes).filter
        fun r => Decidable.decide (r.bytes ≤ last.bytes) := by
  have hdown : ∀ a b : RunId, a.bytes ≤ b.bytes → Decidable.decide (b.bytes ≤ last.bytes) = true →
      Decidable.decide (a.bytes ≤ last.bytes) = true := by
    intro a b hab hb
    simp only [decide_eq_true_eq] at hb ⊢
    omega
  obtain ⟨htake, hdrop⟩ := takeWhile_dropWhile_eq_filter hdown
    (List.pairwise_insertionSort (fun a b : RunId => a.bytes ≤ b.bytes) runs)
  simp only [fairOrder, hlast]
  rw [rotate_takeWhile, htake, hdrop]

/-- Without the new run, the runs are served in the same order as before. -/
theorem fairOrder_filter {runs' : List RunId} (hperm : runs'.Perm (run :: runs)) (hnew : run ∉ runs)
    (hcursor : s'.fairCursor = s.fairCursor) :
    ((fairOrder s' runs').filter fun r => Decidable.decide (r ≠ run)) = fairOrder s runs := by
  have hsorted : ((runs'.insertionSort fun a b => a.bytes ≤ b.bytes).filter
      fun r => Decidable.decide (r ≠ run)) = runs.insertionSort fun a b => a.bytes ≤ b.bytes := by
    have hperm' : ((runs'.insertionSort fun a b => a.bytes ≤ b.bytes).filter
        fun r => Decidable.decide (r ≠ run)).Perm
          (runs.insertionSort fun a b => a.bytes ≤ b.bytes) := by
      apply (((List.perm_insertionSort _ runs').trans hperm).filter _).trans
      have hrest : (run :: runs).filter (fun r => Decidable.decide (r ≠ run)) = runs := by
        rw [List.filter_cons]
        simp only [ne_eq, not_true_eq_false, decide_false, Bool.false_eq_true, if_false]
        apply List.filter_eq_self.mpr
        intro r hr
        simpa using fun heq : r = run => hnew (heq ▸ hr)
      rw [hrest]
      exact (List.perm_insertionSort _ runs).symm
    exact hperm'.eq_of_pairwise' ((List.pairwise_insertionSort _ runs').filter _)
      (List.pairwise_insertionSort _ runs)
  cases hlast : s.fairCursor with
  | none => simp only [fairOrder, hcursor, hlast, hsorted]
  | some last =>
    rw [fairOrder_eq_sorted s runs hlast, fairOrder_eq_sorted s' runs' (hcursor.trans hlast)]
    rw [← hsorted, List.filter_append]
    congr 1 <;> exact List.filter_comm ..

theorem RunAdded.activeRuns_perm (added : RunAdded run s s') :
    (activeRuns o s').Perm (run :: activeRuns o s) := by
  obtain ⟨state, hstate, hid, hactive⟩ := added.added
  have hvalues := o.values_perm_cons added.unknown.1 hstate added.runs
  have hruns := (hvalues.filter fun run => run.status.isActive).map (·.id)
  rw [List.filter_cons, if_pos hactive, List.map_cons, hid] at hruns
  exact hruns

theorem RunAdded.not_activeRun (added : RunAdded run s s') : run ∉ activeRuns o s := by
  intro hmem
  obtain ⟨state, hstate, hid⟩ := List.mem_map.mp hmem
  obtain ⟨r, hr⟩ := Enumeration.mem_values.mp (List.mem_of_mem_filter hstate)
  exact added.unknown.2 r state hr hid

/-! ## Serving the runs in rounds -/

/-- The input of an activation is bound and valid. -/
def inputValid (env : Env) (s : Core) (run : RunId) (a : ActivationId) (role : ExecutionRole) :
    Bool :=
  (claimedActivity s a role).toOption.any fun claimed =>
    (s.runs.lookup run).any fun runState =>
      (contractSchemas runState.catalog claimed.1 role).toOption.any fun schemas =>
        (runState.catalog.validateValue env schemas.1 claimed.2).toOption.isSome

theorem grantClaim_ok_iff {session : WorkerSessionId} {act : ActivationState} {a : ActivationId}
    {n : Nat} : (∃ e, grantClaim env o s session run act a time n = .ok e) ↔
      inputValid env s run a (grantRole o s act time) = true := by
  constructor
  · rintro ⟨e, he⟩
    simp only [grantClaim, bind_eq_ok, okOr_eq_ok, Prod.exists] at he
    obtain ⟨key, input, hkey, runState, hrun, schema, schema', hschemas, ⟨⟩, hvalid, -⟩ := he
    simp [inputValid, hkey, hrun, hschemas, hvalid, Except.toOption]
  · intro h
    simp only [inputValid, Option.any_eq_true, Option.isSome_iff_exists] at h
    obtain ⟨⟨key, input⟩, hkey, runState, hrun, schemas, hschemas, ⟨⟩, hvalid⟩ := h
    simp only [grantClaim, ok_of_toOption hkey, hrun, okOr, ok_bind, ok_of_toOption hschemas,
      ok_of_toOption hvalid]
    exact ⟨_, rfl⟩

/-- Whether the worker takes a candidate, where that can be told. -/
def suits? (env : Env) (o : Enumeration) (s : Core) (worker : WorkerSession) (time : Nat)
    (a : ActivationId) : Option Bool :=
  (s.activations.lookup a).bind fun act =>
    (workerMatches env s worker a (grantRole o s act time)).toOption

/-- The candidate can be served: whether the worker takes it can be told, and if so, its input is
bound and valid. -/
def canServe (env : Env) (o : Enumeration) (s : Core) (worker : WorkerSession) (run : RunId)
    (time : Nat) (a : ActivationId) : Bool :=
  (suits? env o s worker time a).any fun suits => !suits ||
    (s.activations.lookup a).any fun act => inputValid env s run a (grantRole o s act time)

/-- A candidate that is granted already or barred is passed over. -/
def passedOver (o : Enumeration) (s : Core) (run : RunId) (time : Nat)
    (granted : List ActivationId) (a : ActivationId) : Bool :=
  granted.contains a || (s.activations.lookup a).all fun act =>
    grantRole o s act time = .forward ∧ (runPastDeadline s run time ∨ runIsAborting o s run)

/-- The candidates that a selection consults: those that it does not pass over, up to the first
that the worker takes or for which that cannot be told. -/
def consulted (env : Env) (o : Enumeration) (s : Core) (worker : WorkerSession) (run : RunId)
    (time : Nat) (granted : List ActivationId) : List ActivationId → List ActivationId
  | [] => []
  | a :: rest =>
    if passedOver o s run time granted a then consulted env o s worker run time granted rest
    else if suits? env o s worker time a = some false then
      a :: consulted env o s worker run time granted rest
    else [a]

/-- A selection comes to a candidate with a valid input, or to none, exactly if those that it
consults can be served. -/
theorem selectReady_ok_iff {worker : WorkerSession} {granted candidates : List ActivationId} :
    (∃ selected, selectReady env o s worker run time granted candidates = .ok selected ∧
      ∀ a ∈ selected, ∀ act, s.activations.lookup a = some act →
        inputValid env s run a (grantRole o s act time) = true) ↔
      ∀ a ∈ consulted env o s worker run time granted candidates,
        canServe env o s worker run time a = true := by
  induction candidates with
  | nil => exact iff_of_true ⟨none, rfl, by simp⟩ (List.forall_mem_nil _)
  | cons a rest ih =>
    rw [selectReady_cons]
    unfold consulted
    by_cases hpassed : passedOver o s run time granted a = true
    · rw [if_pos hpassed, ← ih]
      simp only [passedOver, Bool.or_eq_true, List.contains_iff_mem] at hpassed
      split
      · rfl
      · next hnew =>
        have hbarred := hpassed.resolve_left hnew
        cases hact : s.activations.lookup a with
        | none => rfl
        | some act =>
          rw [hact, Option.all_some, decide_eq_true_eq] at hbarred
          simp only [if_pos hbarred]
    · rw [if_neg hpassed]
      simp only [passedOver, Bool.or_eq_true, List.contains_iff_mem, not_or] at hpassed
      obtain ⟨hnew, hopen⟩ := hpassed
      cases hact : s.activations.lookup a with
      | none => simp [hact] at hopen
      | some act =>
        rw [hact, Option.all_some, decide_eq_true_eq] at hopen
        have hsuits : suits? env o s worker time a =
            (workerMatches env s worker a (grantRole o s act time)).toOption := by
          rw [suits?, hact, Option.bind_some]
        simp only [if_neg hnew, if_neg hopen, hsuits]
        cases hmatch : workerMatches env s worker a (grantRole o s act time) with
        | error fault =>
          refine iff_of_false (by rintro ⟨_, h, -⟩; cases h) fun h => ?_
          simp [canServe, hsuits, hmatch, Except.toOption] at h
        | ok suits =>
          cases suits with
          | false =>
            simp only [ok_bind, Bool.false_eq_true, if_false, Except.toOption, if_true,
              List.forall_mem_cons, ih]
            simp [canServe, hsuits, hmatch, Except.toOption]
          | true => simp [canServe, hsuits, hmatch, hact, Except.toOption, ok_bind]

namespace RunAdded

variable (added : RunAdded run s s') {r : RunId}

include added

/-- The new run changes the selection in another run neither by its records nor by its grants. -/
theorem selectReady_eq {worker : WorkerSession} {granted granted' : List ActivationId}
    (hr : r ≠ run)
    (hgranted : granted'.filter (fun a => (s.activations.lookup a).isSome) = granted) :
    ∀ {candidates : List ActivationId}, (∀ a ∈ candidates, Mentions s a) →
      selectReady env o s' worker r time granted' candidates =
        selectReady env o s worker r time granted candidates
  | [], _ => rfl
  | a :: candidates, h => by
    obtain ⟨ha, hrest⟩ := List.forall_mem_cons.mp h
    have ih : selectReady env o s' worker r time granted' candidates =
        selectReady env o s worker r time granted candidates := selectReady_eq hr hgranted hrest
    rw [selectReady_cons, selectReady_cons, added.lookup_activation ha, ih]
    cases hact : s.activations.lookup a with
    | none => simp only [ite_self]
    | some act =>
      have hmem : a ∈ granted' ↔ a ∈ granted := by
        rw [← hgranted, List.mem_filter]
        simp [hact]
      simp only [hmem, added.grantRole_eq hact, added.runPastDeadline_eq hr,
        added.runIsAborting_eq hr, added.workerMatches_eq ha]

theorem grantClaim_ok {session : WorkerSessionId} {act : ActivationState} {a : ActivationId}
    {m n : Nat} {e : DomainEvent} (hr : r ≠ run) (ha : Mentions s a)
    (hact : s.activations.lookup a = some act)
    (h : grantClaim env o s session r act a time m = .ok e) :
    ∃ e', grantClaim env o s' session r act a time n = .ok e' := by
  rw [grantClaim_ok_iff, inputValid, added.grantRole_eq hact, added.claimedActivity_eq ha,
    added.runs r hr]
  exact grantClaim_ok_iff.mp ⟨e, h⟩

end RunAdded

/-- Grants with the new run beside grants without it: the same to the other runs, unless the
capacity is used up. -/
def Beside (s : Core) (cap : Nat) (grants grants' : Grants) : Prop :=
  grants'.ids.filter (fun a => (s.activations.lookup a).isSome) = grants.ids ∨
    cap ≤ grants'.ids.length

section Rounds

variable {session : WorkerSessionId} {worker : WorkerSession} {cap cap' : Nat}
  {grants grants' after : Grants} {r : RunId}

/-- Grants are only added. -/
theorem grantInRun_cases (h : grantInRun env o s session worker time cap grants r = .ok after) :
    after = grants ∨ ∃ a act e, a ∈ readyInOrder o s r time ∧ s.activations.lookup a = some act ∧
      grantClaim env o s session r act a time grants.ids.length = .ok e ∧
      after = ⟨grants.events ++ [e], grants.ids ++ [a]⟩ := by
  unfold grantInRun at h
  split at h
  · exact .inl (pure_eq_ok.mp h).symm
  · obtain ⟨selected, hselect, h⟩ := bind_eq_ok.mp h
    split at h
    · exact .inl (pure_eq_ok.mp h).symm
    · next a act hselected =>
      simp only [bind_eq_ok, pure_eq_ok] at h
      obtain ⟨e, he, rfl⟩ := h
      simp only [Option.bind_eq_some_iff, Option.map_eq_some_iff, Prod.mk.injEq] at hselected
      obtain ⟨b, rfl, act', hact, rfl, rfl⟩ := hselected
      exact .inr ⟨b, act', e, (selectReady_ok hselect).1, hact, he, rfl⟩

/-- The candidates of a run that its turn consults. -/
def consultedInRun (env : Env) (o : Enumeration) (s : Core) (worker : WorkerSession)
    (time cap : Nat) (grants : Grants) (run : RunId) : List ActivationId :=
  if grants.ids.length ≥ cap then []
  else consulted env o s worker run time grants.ids (readyInOrder o s run time)

theorem grantInRun_ok_iff :
    (∃ after, grantInRun env o s session worker time cap grants r = .ok after) ↔
      ∀ a ∈ consultedInRun env o s worker time cap grants r,
        canServe env o s worker r time a = true := by
  unfold grantInRun consultedInRun
  split
  · exact iff_of_true ⟨grants, rfl⟩ (List.forall_mem_nil _)
  · rw [← selectReady_ok_iff]
    constructor
    · rintro ⟨after, h⟩
      obtain ⟨selected, hselected, h⟩ := bind_eq_ok.mp h
      refine ⟨selected, hselected, fun a ha act hact => ?_⟩
      simp only [Option.mem_def.mp ha, Option.bind_some, hact, Option.map_some, bind_eq_ok] at h
      obtain ⟨e, he, -⟩ := h
      exact grantClaim_ok_iff.mp ⟨e, he⟩
    · rintro ⟨selected, hselected, hvalid⟩
      rw [hselected, ok_bind]
      cases selected with
      | none => exact ⟨grants, rfl⟩
      | some a =>
        obtain ⟨-, -, act, hact, -⟩ := selectReady_ok hselected
        obtain ⟨e, he⟩ : ∃ e, grantClaim env o s session r act a time grants.ids.length = .ok e :=
          grantClaim_ok_iff.mpr (hvalid a rfl act hact)
        simp only [Option.bind_some, hact, Option.map_some, he, ok_bind]
        exact ⟨_, rfl⟩

/-- Another run is served beside the new one as it was without. -/
theorem RunAdded.grantInRun_other (added : RunAdded run s s') (hr : r ≠ run) (hcap : cap' ≤ cap)
    (beside : Beside s cap' grants grants')
    (h : grantInRun env o s session worker time cap grants r = .ok after) :
    ∃ after', grantInRun env o s' session worker time cap' grants' r = .ok after' ∧
      Beside s cap' after after' := by
  by_cases hfull : cap' ≤ grants'.ids.length
  · refine ⟨grants', ?_, .inr hfull⟩
    rw [grantInRun, if_pos hfull]
    rfl
  · have hids := beside.resolve_right hfull
    have hlength : grants.ids.length ≤ grants'.ids.length := by
      rw [← hids]
      exact List.length_filter_le ..
    have hfree : ¬ grants.ids.length ≥ cap := by omega
    have hmentions : ∀ a ∈ readyInOrder o s r time, Mentions s a := by
      intro a ha
      have hunclaimed := (List.mem_insertionSort _).mp ha
      exact RunAdded.mentions_of_ready (List.mem_of_mem_filter hunclaimed)
    have hselect : selectReady env o s' worker r time grants'.ids (readyInOrder o s r time) =
        selectReady env o s worker r time grants.ids (readyInOrder o s r time) :=
      added.selectReady_eq hr hids hmentions
    unfold grantInRun at h ⊢
    rw [if_neg hfree] at h
    rw [if_neg hfull, added.readyInOrder_eq hr, hselect]
    obtain ⟨selected, hselected, h⟩ := bind_eq_ok.mp h
    rw [hselected, ok_bind]
    cases selected with
    | none =>
      obtain rfl := pure_eq_ok.mp h
      exact ⟨grants', rfl, .inl hids⟩
    | some a =>
      obtain ⟨hmem, -, act, hact, -⟩ := selectReady_ok hselected
      have hold := hmentions a hmem
      simp only [Option.bind_some, hact, Option.map_some, bind_eq_ok, pure_eq_ok] at h
      obtain ⟨e, he, rfl⟩ := h
      obtain ⟨e', he'⟩ := added.grantClaim_ok (n := grants'.ids.length) hr hold hact he
      simp only [Option.bind_some, added.lookup_activation hold, hact, Option.map_some, he',
        ok_bind]
      refine ⟨_, rfl, .inl ?_⟩
      simp [List.filter_append, hids, hact]

/-- What the new run is granted takes nothing from the other runs. -/
theorem RunAdded.grantInRun_new (added : RunAdded run s s') (beside : Beside s cap' grants grants')
    (h : grantInRun env o s' session worker time cap' grants' run = .ok after) :
    Beside s cap' grants after := by
  rcases grantInRun_cases h with rfl | ⟨a, act, e, hready, -, -, rfl⟩
  · exact beside
  · have hnew : s.activations.lookup a = none :=
      added.new_of_ready (List.mem_of_mem_filter ((List.mem_insertionSort _).mp hready))
    rcases beside with hids | hfull
    · left
      simp [List.filter_append, hids, hnew]
    · right
      simp only [List.length_append]
      omega

/-- The candidates of a run that a round consults. -/
def consultedInRound (env : Env) (o : Enumeration) (s : Core) (session : WorkerSessionId)
    (worker : WorkerSession) (time cap : Nat) (run : RunId) :
    List RunId → Grants → List ActivationId
  | [], _ => []
  | r :: rest, grants =>
    (if r = run then consultedInRun env o s worker time cap grants run else []) ++
      (grantInRun env o s session worker time cap grants r).toOption.elim [] fun after =>
        consultedInRound env o s session worker time cap run rest after

/-- The candidates of a run that the rounds consult. -/
def consultedInRounds (env : Env) (o : Enumeration) (s : Core) (session : WorkerSessionId)
    (worker : WorkerSession) (time cap : Nat) (run : RunId) (runs : List RunId) :
    Nat → Grants → List ActivationId
  | 0, _ => []
  | rounds + 1, grants =>
    if grants.ids.length ≥ cap then []
    else
      consultedInRound env o s session worker time cap run runs grants ++
        (runs.foldlM (grantInRun env o s session worker time cap) grants).toOption.elim []
          fun after =>
            if after.ids.length = grants.ids.length then []
            else consultedInRounds env o s session worker time cap run runs rounds after

/-- One round over the runs. -/
theorem RunAdded.foldlM_beside (added : RunAdded run s s') (hcap : cap' ≤ cap) {order : List RunId}
    (beside : Beside s cap' grants grants')
    (h : (order.filter fun r => r ≠ run).foldlM (grantInRun env o s session worker time cap)
      grants = .ok after) :
    ((∃ after', order.foldlM (grantInRun env o s' session worker time cap') grants' = .ok after') ↔
      ∀ a ∈ consultedInRound env o s' session worker time cap' run order grants',
        canServe env o s' worker run time a = true) ∧
    ∀ after', order.foldlM (grantInRun env o s' session worker time cap') grants' = .ok after' →
      Beside s cap' after after' := by
  induction order generalizing grants grants' with
  | nil =>
    obtain rfl := pure_eq_ok.mp h
    exact ⟨iff_of_true ⟨grants', rfl⟩ (List.forall_mem_nil _),
      fun after' h' => pure_eq_ok.mp h' ▸ beside⟩
  | cons r order ih =>
    -- the turn of `r` goes through exactly if what it consults of the new run can be served
    obtain ⟨hturn, hnext⟩ :
        ((∃ mid', grantInRun env o s' session worker time cap' grants' r = .ok mid') ↔
          ∀ a ∈ if r = run then consultedInRun env o s' worker time cap' grants' run else [],
            canServe env o s' worker run time a = true) ∧
        ∀ mid', grantInRun env o s' session worker time cap' grants' r = .ok mid' →
          ∃ mid, (order.filter fun r => r ≠ run).foldlM
            (grantInRun env o s session worker time cap) mid = .ok after ∧
            Beside s cap' mid mid' := by
      by_cases hr : r = run
      · rw [List.filter_cons_of_neg (by simp [hr])] at h
        rw [if_pos hr, hr]
        exact ⟨grantInRun_ok_iff, fun mid' hmid' =>
          ⟨grants, h, added.grantInRun_new beside hmid'⟩⟩
      · rw [List.filter_cons_of_pos (by simpa using hr), List.foldlM_cons] at h
        obtain ⟨mid, hmid, h⟩ := bind_eq_ok.mp h
        obtain ⟨mid', hmid', hbeside⟩ := added.grantInRun_other hr hcap beside hmid
        rw [if_neg hr]
        refine ⟨iff_of_true ⟨mid', hmid'⟩ (List.forall_mem_nil _), fun other hother => ?_⟩
        obtain rfl := Except.ok.inj (hmid'.symm.trans hother)
        exact ⟨mid, h, hbeside⟩
    rw [List.foldlM_cons]
    unfold consultedInRound
    rw [List.forall_mem_append, ← hturn]
    cases hmid' : grantInRun env o s' session worker time cap' grants' r with
    | error fault =>
      exact ⟨iff_of_false (by rintro ⟨_, h'⟩; cases h') (by rintro ⟨⟨_, h'⟩, -⟩; cases h'),
        fun after' h' => by cases h'⟩
    | ok mid' =>
      obtain ⟨mid, hrest, hbeside⟩ := hnext mid' hmid'
      obtain ⟨hiff, hlast⟩ := ih hbeside hrest
      exact ⟨⟨fun h' => ⟨⟨mid', rfl⟩, hiff.mp h'⟩, fun h' => hiff.mpr h'.2⟩, hlast⟩

/-- Rounds add grants, and one that adds none changes nothing. -/
theorem foldlM_grantInRun_le
    (h : runs.foldlM (grantInRun env o s session worker time cap) grants = .ok after) :
    grants.ids.length ≤ after.ids.length ∧
      (after.ids.length = grants.ids.length → after = grants) := by
  induction runs generalizing grants with
  | nil =>
    obtain rfl := pure_eq_ok.mp h
    exact ⟨Nat.le_refl _, fun _ => rfl⟩
  | cons r runs ih =>
    rw [List.foldlM_cons] at h
    obtain ⟨next, hnext, h⟩ := bind_eq_ok.mp h
    obtain ⟨hle, hsame⟩ := ih h
    rcases grantInRun_cases hnext with rfl | ⟨a, act, e, -, -, -, rfl⟩
    · exact ⟨hle, hsame⟩
    · simp only [List.length_append, List.length_singleton] at hle
      exact ⟨by omega, fun heq => by omega⟩

/-- All rounds. The rounds without the new run may end earlier, after one that granted nothing;
further ones would then not grant anything to the other runs either. -/
theorem RunAdded.grantRounds_beside (added : RunAdded run s s') (hcap : cap' ≤ cap)
    {order : List RunId} :
    ∀ (fuel' : Nat) {fuel : Nat} {grants grants' final : Grants},
      grantRounds env o s session worker time cap (order.filter fun r => r ≠ run) fuel grants =
        .ok final →
      cap ≤ grants.ids.length + fuel → Beside s cap' grants grants' →
      ((∃ final', grantRounds env o s' session worker time cap' order fuel' grants' =
          .ok final') ↔
        ∀ a ∈ consultedInRounds env o s' session worker time cap' run order fuel' grants',
          canServe env o s' worker run time a = true)
  | 0, _, _, grants', _, _, _, _ => iff_of_true ⟨grants', rfl⟩ (List.forall_mem_nil _)
  | fuel' + 1, fuel, grants, grants', final, h, hfuel, beside => by
    unfold grantRounds consultedInRounds
    split
    · exact iff_of_true ⟨grants', rfl⟩ (List.forall_mem_nil _)
    · next hfree =>
      have hids := beside.resolve_right hfree
      have hlength : grants.ids.length ≤ grants'.ids.length := by
        rw [← hids]
        exact List.length_filter_le ..
      obtain ⟨fuel, rfl⟩ : ∃ n, fuel = n + 1 := ⟨fuel - 1, by omega⟩
      have hrounds := h
      unfold grantRounds at h
      rw [if_neg (by omega)] at h
      obtain ⟨after, hafter, h⟩ := bind_eq_ok.mp h
      obtain ⟨hiff, hbeside⟩ := added.foldlM_beside hcap beside hafter
      obtain ⟨hle, hsame⟩ := foldlM_grantInRun_le hafter
      rw [List.forall_mem_append, ← hiff]
      cases hafter' : order.foldlM (grantInRun env o s' session worker time cap') grants' with
      | error fault =>
        exact iff_of_false (by rintro ⟨_, h'⟩; cases h') (by rintro ⟨⟨_, h'⟩, -⟩; cases h')
      | ok after' =>
        have hbeside := hbeside after' hafter'
        rw [ok_bind, and_iff_right ⟨after', rfl⟩]
        simp only [Except.toOption, Option.elim_some]
        split
        · exact iff_of_true ⟨after', rfl⟩ (List.forall_mem_nil _)
        · split at h
          · next hstill =>
            rw [hsame hstill] at hbeside
            exact added.grantRounds_beside hcap fuel' hrounds hfuel hbeside
          · exact added.grantRounds_beside hcap fuel' h (by omega) hbeside

/-- Grants of the first round are still there at the end. -/
theorem grantRounds_first {fuel : Nat} {final : Grants}
    (h : grantRounds env o s session worker time cap runs fuel ⟨[], []⟩ = .ok final)
    (hfuel : fuel ≠ 0) (hcap : cap ≠ 0) :
    ∃ after, runs.foldlM (grantInRun env o s session worker time cap) ⟨[], []⟩ = .ok after ∧
      after.ids.length ≤ final.ids.length ∧ (after.ids = [] → final = after) := by
  obtain ⟨fuel, rfl⟩ := Nat.exists_eq_add_one_of_ne_zero hfuel
  unfold grantRounds at h
  rw [if_neg (by simpa using hcap)] at h
  obtain ⟨after, hafter, h⟩ := bind_eq_ok.mp h
  refine ⟨after, hafter, ?_⟩
  split at h
  · obtain rfl := pure_eq_ok.mp h
    exact ⟨Nat.le_refl _, fun _ => rfl⟩
  · next hgrown =>
    refine ⟨?_, fun hnil => absurd (by rw [hnil]) hgrown⟩
    refine grantRounds_keeps (P := fun g => after.ids.length ≤ g.ids.length)
      (fun g r g' hg hle => ?_) h (Nat.le_refl _)
    rcases grantInRun_cases hg with rfl | ⟨a, act, e, -, -, -, rfl⟩
    · exact hle
    · simp only [List.length_append]
      omega

/-- Every grant is recorded. -/
def Tallied (grants : Grants) : Prop :=
  grants.events.length = grants.ids.length ∧ ∀ e ∈ grants.events, e.kind = .claimGranted

theorem grantInRun_tallied (h : grantInRun env o s session worker time cap grants r = .ok after)
    (tallied : Tallied grants) : Tallied after := by
  obtain ⟨hlength, hkinds⟩ := tallied
  rcases grantInRun_cases h with rfl | ⟨a, act, e, -, -, he, rfl⟩
  · exact ⟨hlength, hkinds⟩
  · obtain ⟨handler, version, input, attempt, deadline, effectKey, rfl⟩ := grantClaim_ok he
    refine ⟨by simp [hlength], List.forall_mem_append.mpr ⟨hkinds, ?_⟩⟩
    simp [DomainEvent.kind]

theorem Tallied.granted (tallied : Tallied grants) (hids : grants.ids ≠ []) :
    ∃ e ∈ grants.events, e.kind = .claimGranted := by
  cases hevents : grants.events with
  | nil =>
    have hlength := tallied.1
    rw [hevents] at hlength
    exact absurd (List.length_eq_zero_iff.mp hlength.symm) hids
  | cons e events =>
    exact ⟨e, List.mem_cons_self, tallied.2 e (hevents ▸ List.mem_cons_self)⟩

theorem workerInFlight_le (added : RunAdded run s s')
    (hsize : s'.activations.entries.length < 2 ^ 32) :
    workerInFlight o s session time ≤ workerInFlight o s' session time := by
  have hle := o.countP_values_le (q := fun act : ActivationState => act.status = .ready ∧
    act.claim.any fun claim => claim.session = session ∧ claim.leaseExpiryMs > time)
    added.activations
  have hbound := List.countP_le_length (p := fun act : ActivationState => act.status = .ready ∧
    act.claim.any fun claim => claim.session = session ∧ claim.leaseExpiryMs > time)
    (l := o.values s'.activations)
  have hlength : (o.values s'.activations).length = s'.activations.entries.length := by
    rw [Enumeration.values, List.length_map, (o.perm _).length_eq]
    exact List.length_map _
  unfold workerInFlight wrap32
  rw [Nat.mod_eq_of_lt (by omega), Nat.mod_eq_of_lt (by omega)]
  exact hle

/-- How much a claim may grant. -/
def claimCap (o : Enumeration) (s : Core) (session : WorkerSessionId) (worker : WorkerSession)
    (capacity time : Nat) : Nat :=
  min (min capacity (worker.capacity - workerInFlight o s session time)) claimBatch

/-- The candidates of a run that a claim consults before its capacity is used up. -/
def consultedByClaim (env : Env) (o : Enumeration) (s : Core) (session : WorkerSessionId)
    (worker : WorkerSession) (capacity time : Nat) (run : RunId) : List ActivationId :=
  consultedInRounds env o s session worker time (claimCap o s session worker capacity time) run
    (fairOrder s (activeRuns o s)) (claimCap o s session worker capacity time) ⟨[], []⟩

theorem decideClaim_grants {capacity : Nat} {events : List DomainEvent}
    (hworker : s.sessions.lookup session = some worker)
    (h : decideClaim env o s session capacity time = .ok events)
    (hgranted : ∃ e ∈ events, e.kind = .claimGranted) :
    ¬ time ≥ worker.expiresMs ∧ ∃ grants,
      grantRounds env o s session worker time (claimCap o s session worker capacity time)
        (fairOrder s (activeRuns o s)) (claimCap o s session worker capacity time) ⟨[], []⟩ =
          .ok grants ∧ grants.ids ≠ [] ∧ claimCap o s session worker capacity time ≠ 0 := by
  simp only [decideClaim, hworker, okOr, ok_bind, bind_eq_ok, refuseIf_eq_ok] at h
  obtain ⟨-, hlive, h⟩ := h
  refine ⟨hlive, ?_⟩
  obtain ⟨e, he, hkind⟩ := hgranted
  have hrenewed : e ∉ (if worker.principalId = "" then
      [DomainEvent.sessionRegistered session worker.activities worker.capacity
        (satAdd time sessionLeaseMs)] else []) := by
    intro hmem
    split at hmem
    · rw [List.mem_singleton.mp hmem] at hkind
      cases hkind
    · cases hmem
  split at h
  · obtain rfl := pure_eq_ok.mp h
    exact absurd he hrenewed
  · obtain ⟨grants, hgrants, h⟩ := bind_eq_ok.mp h
    obtain rfl := pure_eq_ok.mp h
    have htallied : Tallied grants :=
      grantRounds_keeps (fun _ _ _ => grantInRun_tallied) hgrants ⟨rfl, by simp⟩
    have hids : grants.ids ≠ [] := by
      intro hnil
      have hmem := (List.mem_append.mp he).resolve_left hrenewed
      rw [List.eq_nil_of_length_eq_zero (htallied.1.trans (by rw [hnil]; rfl))] at hmem
      cases hmem
    refine ⟨grants, hgrants, hids, fun hzero => ?_⟩
    unfold claimCap at hzero
    rw [hzero] at hgrants
    exact hids (pure_eq_ok.mp hgrants ▸ rfl)

theorem decideClaim_of_grants {capacity : Nat}
    (hworker : s.sessions.lookup session = some worker) (hlive : ¬ time ≥ worker.expiresMs)
    (hruns : activeRuns o s ≠ [])
    (h : grantRounds env o s session worker time (claimCap o s session worker capacity time)
      (fairOrder s (activeRuns o s)) (claimCap o s session worker capacity time) ⟨[], []⟩ =
        .ok grants) (hids : grants.ids ≠ []) :
    ∃ events, decideClaim env o s session capacity time = .ok events ∧
      ∃ e ∈ events, e.kind = .claimGranted := by
  have htallied : Tallied grants :=
    grantRounds_keeps (fun _ _ _ => grantInRun_tallied) h ⟨rfl, by simp⟩
  obtain ⟨e, he, hkind⟩ := htallied.granted hids
  unfold claimCap at h
  simp only [decideClaim, hworker, okOr, ok_bind, refuseIf, if_neg hlive, if_neg hruns, h]
  exact ⟨_, rfl, e, List.mem_append_right _ he, hkind⟩

end Rounds

/-- If a claim grants something, it still does after a run is added, exactly if the worker has a
free slot and the candidates of the new run that the claim consults can be served. -/
theorem claim_beside {session : WorkerSessionId} {worker : WorkerSession} {capacity : Nat}
    {events : List DomainEvent} (added : RunAdded run s s')
    (hworker : s.sessions.lookup session = some worker)
    (hsize : s'.activations.entries.length < 2 ^ 32)
    (h : decideClaim env o s session capacity time = .ok events)
    (hgranted : ∃ e ∈ events, e.kind = .claimGranted) :
    (∃ events', decideClaim env o s' session capacity time = .ok events' ∧
      ∃ e ∈ events', e.kind = .claimGranted) ↔
    workerInFlight o s' session time < worker.capacity ∧
      ∀ a ∈ consultedByClaim env o s' session worker capacity time run,
        canServe env o s' worker run time a = true := by
  have hworker' : s'.sessions.lookup session = some worker := by rw [added.sessions, hworker]
  have hinFlight : workerInFlight o s session time ≤ workerInFlight o s' session time :=
    workerInFlight_le added hsize
  have hruns := added.activeRuns_perm (o := o)
  have hsome' : activeRuns o s' ≠ [] := by
    intro hnil
    rw [hnil] at hruns
    exact List.cons_ne_nil _ _ hruns.nil_eq.symm
  have horder := fairOrder_filter hruns added.not_activeRun added.fairCursor
  obtain ⟨hlive, grants, hgrants, hids, hpositive⟩ := decideClaim_grants hworker h hgranted
  rw [← horder] at hgrants
  have hcap : claimCap o s' session worker capacity time ≤
      claimCap o s session worker capacity time := by
    simp only [claimCap]
    omega
  have hbeside : Beside s (claimCap o s' session worker capacity time) ⟨[], []⟩ ⟨[], []⟩ := .inl rfl
  have hrounds := added.grantRounds_beside hcap (claimCap o s' session worker capacity time)
    hgrants (by simp) hbeside
  constructor
  · rintro ⟨events', hevents', hgranted'⟩
    obtain ⟨-, grants', hgrants', -, hpositive'⟩ := decideClaim_grants hworker' hevents' hgranted'
    refine ⟨?_, hrounds.mp ⟨grants', hgrants'⟩⟩
    simp only [claimCap] at hpositive'
    omega
  · rintro ⟨hslot, hserves⟩
    -- what the new run leaves of the capacity is enough for one grant
    have hpositive' : claimCap o s' session worker capacity time ≠ 0 := by
      simp only [claimCap] at hpositive ⊢
      omega
    obtain ⟨grants', hgrants'⟩ := hrounds.mpr hserves
    refine decideClaim_of_grants hworker' hlive hsome' hgrants' ?_
    obtain ⟨after, hafter, -, hstill⟩ := grantRounds_first hgrants hpositive hpositive
    obtain ⟨after', hafter', hle, -⟩ := grantRounds_first hgrants' hpositive' hpositive'
    -- the first round grants something to another run, or the capacity is used up
    have hnonempty : 0 < after'.ids.length := by
      rcases (added.foldlM_beside hcap hbeside hafter).2 after' hafter' with hids' | hfull
      · apply List.length_pos_of_ne_nil
        intro hnil
        rw [hnil] at hids'
        have hempty : after.ids = [] := hids'.symm
        exact hids (hstill hempty ▸ hempty)
      · omega
    intro hnil
    rw [hnil] at hle
    simp only [List.length_nil] at hle
    omega

/-! ## A run that cannot be served -/

/-- Adds a run that stands at its first activation. -/
def Core.withRun (s : Core) (state : RunState) (sc : ScopeState) (act : ActivationState) : Core :=
  { s with
    runs := s.runs.insert state.id state
    scopes := s.scopes.insert sc.id sc
    activations := s.activations.insert act.id act }

/-- The identities of the run are new to the state. -/
def Core.hasRoomFor (s : Core) (state : RunState) (sc : ScopeState) (act : ActivationState) :
    Bool :=
  (state.status.isActive ∧ sc.run = state.id ∧ act.run = state.id) &&
  (s.runs.lookup state.id).isNone && (s.scopes.lookup sc.id).isNone &&
  (s.activations.lookup act.id).isNone &&
  (s.runs.entries.all fun e => e.2.id ≠ state.id) &&
  (s.scopes.entries.all fun e => e.2.run ≠ state.id ∧ e.2.role.activation? ≠ some act.id) &&
  (s.activations.entries.all fun e => e.2.run ≠ state.id ∧ e.2.id ≠ act.id ∧
    e.2.scope ≠ sc.id) &&
  s.obligations.all fun item => item.run ≠ state.id

theorem runAdded_withRun {state : RunState} {act : ActivationState}
    (h : s.hasRoomFor state sc act = true) :
    RunAdded state.id s (s.withRun state sc act) := by
  simp only [Core.hasRoomFor, Bool.and_eq_true, List.all_eq_true, decide_eq_true_eq,
    Option.isNone_iff_eq_none] at h
  obtain ⟨⟨⟨⟨⟨⟨⟨⟨hactive, hsc, hact⟩, hrun⟩, hscope⟩, hactivation⟩, hruns⟩, hscopes⟩,
    hactivations⟩, hobligations⟩ := h
  have hruns : ∀ r other, s.runs.lookup r = some other → other.id ≠ state.id := fun r other h =>
    hruns ⟨r, other⟩ (AList.mem_lookup_iff.mp h)
  have hscopes : ∀ k other, s.scopes.lookup k = some other → other.run ≠ state.id ∧
      other.role.activation? ≠ some act.id := fun k other h =>
    hscopes ⟨k, other⟩ (AList.mem_lookup_iff.mp h)
  have hactivations : ∀ a other, s.activations.lookup a = some other → other.run ≠ state.id ∧
      other.id ≠ act.id ∧ other.scope ≠ sc.id := fun a other h =>
    hactivations ⟨a, other⟩ (AList.mem_lookup_iff.mp h)
  have hunmentioned : ¬ Mentions s act.id := by
    rintro (⟨b, other, hother, heq⟩ | ⟨k, other, hother, heq⟩)
    · exact (hactivations b other hother).2.1 heq
    · exact (hscopes k other hother).2 heq
  exact {
    unknown := ⟨hrun, hruns⟩
    added := ⟨state, AList.lookup_insert _, rfl, hactive⟩
    runs := fun r hr => AList.lookup_insert_ne hr
    others := ⟨fun k other h => (hscopes k other h).1, fun a other h => (hactivations a other h).1⟩
    scopes := by
      intro k
      by_cases hk : k = sc.id
      · subst hk
        exact .inr ⟨hscope, sc, AList.lookup_insert _, hsc, fun a other h =>
          (hactivations a other h).2.2⟩
      · exact .inl (AList.lookup_insert_ne hk)
    activations := by
      intro a
      by_cases ha : a = act.id
      · subst ha
        exact .inr ⟨hactivation, act, AList.lookup_insert _, hact, rfl, hunmentioned⟩
      · exact .inl (AList.lookup_insert_ne ha)
    waits := fun _ => .inl rfl
    obligations := by
      symm
      apply List.filter_eq_self.mpr
      intro item hitem
      simpa using hobligations item hitem
    compensations := fun item hitem hown => absurd hown (hobligations item hitem)
    loopCarry := fun _ _ => rfl
    interventions := fun _ _ => rfl
    sagaErrors := fun _ => .inl rfl
    sessions := rfl
    fairCursor := rfl }

/-- An activity whose input is the field `x` of the run's input. -/
def fieldWorkflow : Definition :=
  sampleWorkflow [] "work" [("done", .complete (.literal .null)),
    ("work", .activity ⟨"a", 1⟩ (.from .workflowInput (some "/x")) none .forwardDefault none
      "done")]

/-- A run of this workflow with the given input. -/
def fieldRun (input : Value) : RunState :=
  { newRun ⟨2⟩ fieldWorkflow (sampleCatalog ["a"] .manual) none with input }

def fieldRoot (input : Value) : ScopeState where
  id := ⟨2⟩
  run := ⟨2⟩
  parent := none
  role := .root
  input := input
  status := .open
  outputs := []
  current := some "work"

def fieldActivation : ActivationState where
  id := ⟨66⟩
  run := ⟨2⟩
  scope := ⟨2⟩
  node := "work"
  status := .ready
  role := .forward
  claim := none
  attempts := 0
  readyOrder := 1

/-- One run with a ready activity, and a session that serves every activity. -/
def oneRun : List Command := [
  { id := ⟨1⟩, body := .start ⟨1⟩ workWorkflow .null (sampleCatalog ["a"] .manual), time := 1 },
  { id := ⟨2⟩, body := .registerSession ⟨1⟩ ["*"] 2, time := 2 }]

/-- The second run has no field `x` in its input, and the claim is refused for both. -/
theorem strayInput_refused : ∃ log final,
    Run sampleEnv (.empty sampleCluster) log final ∧
    RunAdded ⟨2⟩ final.toCore
      (final.toCore.withRun (fieldRun .null) (fieldRoot .null) fieldActivation) ∧
    (∃ events, decideClaim sampleEnv .stored final.toCore ⟨1⟩ 2 3 = .ok events ∧
      ∃ e ∈ events, e.kind = .claimGranted) ∧
    ∀ events, decideClaim sampleEnv .stored
      (final.toCore.withRun (fieldRun .null) (fieldRoot .null) fieldActivation) ⟨1⟩ 2 3 ≠
        .ok events := by
  obtain ⟨log, final, hrun, hcheck⟩ := exists_sampleRun oneRun
    (fun log final => final.hasRoomFor (fieldRun .null) (fieldRoot .null) fieldActivation &&
      (decideClaim sampleEnv .stored final.toCore ⟨1⟩ 2 3).toOption.any (fun events =>
      events.any fun e => e.kind = .claimGranted) &&
      (decideClaim sampleEnv .stored (final.withRun (fieldRun .null) (fieldRoot .null)
      fieldActivation) ⟨1⟩ 2 3).toOption.isNone)
    (by decide +kernel)
  simp only [Bool.and_eq_true, Option.any_eq_true, List.any_eq_true, decide_eq_true_eq,
    Option.isNone_iff_eq_none] at hcheck
  obtain ⟨⟨hroom, events, hevents, hgranted⟩, hrefused⟩ := hcheck
  refine ⟨_, _, hrun, runAdded_withRun hroom, ⟨events, ?_, hgranted⟩, fun events' hok => ?_⟩
  · exact ok_of_toOption hevents
  · rw [hok] at hrefused
    cases hrefused

/-- Inputs of the second run and capacities, with the candidates of that run that the claim
consults: with capacity 1 the first run takes it up, and with capacity 2 the second run is served
too if it has the field. -/
def besideSamples : List (Value × Nat × List ActivationId) :=
  [(.null, 1, []), (.object [("x", .null)], 2, [⟨66⟩])]

theorem givenInput_beside : ∃ log final worker,
    Run sampleEnv (.empty sampleCluster) log final ∧
    final.sessions.lookup ⟨1⟩ = some worker ∧
    ∀ sample ∈ besideSamples,
      consultedByClaim sampleEnv .stored (final.toCore.withRun (fieldRun sample.1)
        (fieldRoot .null) fieldActivation) ⟨1⟩ worker sample.2.1 3 ⟨2⟩ = sample.2.2 ∧
      ∃ events, decideClaim sampleEnv .stored (final.toCore.withRun (fieldRun sample.1)
        (fieldRoot .null) fieldActivation) ⟨1⟩ sample.2.1 3 = .ok events ∧
        ∃ e ∈ events, e.kind = .claimGranted := by
  obtain ⟨log, final, hrun, hcheck⟩ := exists_sampleRun oneRun
    (fun log final => (final.sessions.lookup ⟨1⟩).any fun worker => besideSamples.all fun sample =>
      let beside := final.withRun (fieldRun sample.1) (fieldRoot .null) fieldActivation
      final.hasRoomFor (fieldRun sample.1) (fieldRoot .null) fieldActivation &&
      consultedByClaim sampleEnv .stored beside ⟨1⟩ worker sample.2.1 3 ⟨2⟩ = sample.2.2 &&
      sample.2.2.all (canServe sampleEnv .stored beside worker ⟨2⟩ 3) &&
      workerInFlight .stored beside ⟨1⟩ 3 < worker.capacity &&
      beside.activations.entries.length < 2 ^ 32 &&
      (decideClaim sampleEnv .stored final.toCore ⟨1⟩ sample.2.1 3).toOption.any (fun events =>
      events.any fun e => e.kind = .claimGranted))
    (by decide +kernel)
  simp only [Bool.and_eq_true, Option.any_eq_true, List.any_eq_true, List.all_eq_true,
    decide_eq_true_eq] at hcheck
  obtain ⟨worker, hworker, hsamples⟩ := hcheck
  refine ⟨_, _, worker, hrun, hworker, fun sample hsample => ?_⟩
  obtain ⟨⟨⟨⟨⟨hroom, hconsulted⟩, hserves⟩, hslot⟩, hsize⟩, events, hevents, hgranted⟩ :=
    hsamples sample hsample
  exact ⟨hconsulted, (claim_beside (runAdded_withRun hroom) hworker hsize (ok_of_toOption hevents)
    hgranted).mpr ⟨hslot, hconsulted ▸ hserves⟩⟩

end Graphrun
