import Graphrun.Engine.Execution
import Graphrun.Engine.Kinds

/-!
# Claims are fenced

Every claim gets a generation of its own, in the order in which claims are granted, and an
activation is claimed only while no live claim is on it. The claim that an activation carries
is the one that was granted last (`Tracked`), with the revision and the lease of its last
renewal. Since whoever speaks for a claim has to present the claim that the activation
carries, no message of an earlier owner is accepted after a later grant.

* `Numbered` bounds the generations granted so far by the counter, and orders them.
* `Tracked` connects the claim in the state with the log.
* `claims_fenced` is the statement about every run.
-/

namespace Graphrun

open Lib

variable {env : Env} {o : Enumeration} {s : Core} {time : Nat} {ids : IdGen}
  {past : List DomainEvent} {e : DomainEvent} {a : ActivationId} {s' : Core}
  {session : WorkerSessionId} {es : List DomainEvent}

/-! ## The most recent claim -/

/-- A claim as the log shows it: what its owner has to present, and until when. -/
structure LoggedClaim where
  token : ClaimToken
  leaseExpiryMs : Nat

/-- The most recent claim on an activation after one more event. -/
def claimedAfter (a : ActivationId) (last : Option LoggedClaim) : DomainEvent → Option LoggedClaim
  | .claimGranted _ _ activation _ _ _ _ session generation revision leaseExpiryMs _ _ _ =>
    if activation = a then some ⟨⟨a, session, generation, revision⟩, leaseExpiryMs⟩ else last
  | .claimRenewed activation _ _ revision leaseExpiryMs =>
    if activation = a then
      last.map fun claim => ⟨{ claim.token with revision }, leaseExpiryMs⟩
    else last
  | _ => last

/-- The most recent claim on an activation, with its last renewal. -/
def lastClaim (a : ActivationId) (past : List DomainEvent) : Option LoggedClaim :=
  past.foldl (claimedAfter a) none

theorem lastClaim_concat (a : ActivationId) (past : List DomainEvent) (e : DomainEvent) :
    lastClaim a (past ++ [e]) = claimedAfter a (lastClaim a past) e := by
  simp [lastClaim]

/-- The claim on an activation is its most recent one. -/
def Tracked (past : List DomainEvent) (s : Core) : Prop :=
  ∀ a act claim, s.activations.lookup a = some act → act.claim = some claim →
    lastClaim a past = some ⟨claim.token a, claim.leaseExpiryMs⟩

/-- What an event does to a claim that it does not grant. -/
theorem claimAfter_logged {act : ActivationState} {claim : ClaimState}
    (h : claimAfter e a act = some claim) (hlast : ∀ old, act.claim = some old →
      lastClaim a past = some ⟨old.token a, old.leaseExpiryMs⟩) :
    claimedAfter a (lastClaim a past) e = some ⟨claim.token a, claim.leaseExpiryMs⟩ := by
  cases e
  case claimGranted =>
    simp only [claimAfter] at h
    simp only [claimedAfter]
    split at h
    · next ha =>
      rw [if_pos ha.symm]
      obtain rfl := Option.some.inj h
      rfl
    · next ha =>
      rw [if_neg (Ne.symm ha)]
      exact hlast claim h
  case claimRenewed =>
    simp only [claimAfter] at h
    simp only [claimedAfter]
    split at h
    · next ha =>
      rw [if_pos ha.symm]
      obtain ⟨old, hold, rfl⟩ := Option.map_eq_some_iff.mp h
      rw [hlast old hold]
      rfl
    · next ha =>
      rw [if_neg (Ne.symm ha)]
      exact hlast claim h
  case reconciliationRecorded =>
    -- a probe changes neither the token of the claim nor its lease
    simp only [claimAfter] at h
    split at h
    · obtain ⟨old, hold, rfl⟩ := Option.map_eq_some_iff.mp h
      exact hlast old hold
    · exact hlast claim h
  case leafFailed | claimCleared | compensationAbandoned =>
    simp only [claimAfter] at h
    split at h
    · cases h
    · exact hlast claim h
  all_goals exact hlast claim h

/-- An activation begins its life. -/
def DomainEvent.begins (a : ActivationId) : DomainEvent → Bool
  | .activationOpened _ _ activation _ | .compensationStarted _ _ _ activation _ _ _ _ =>
    activation = a
  | _ => false

/-- An activation after an event was there before it, or it begins. -/
theorem after_or_begun {act : ActivationState}
    (h : (evolve s e).activations.lookup a = some act) :
    (∃ old, s.activations.lookup a = some old ∧ act = old.after s e a) ∨
      (e.begins a = true ∧ act.role ≠ .reconciliation ∧ act.attempts = 0 ∧ act.claim = none) := by
  rw [lookup_activations_evolve, activationAfter] at h
  split at h
  · next new hnew =>
    obtain rfl := Option.some.inj h
    obtain ⟨hcreated, hid⟩ := Option.filter_eq_some_iff.mp hnew
    obtain rfl : new.id = a := of_decide_eq_true hid
    right
    cases e <;> simp only [newActivation, Option.map_eq_some_iff, Option.bind_eq_some_iff,
      reduceCtorEq] at hcreated
    · obtain ⟨_, -, rfl⟩ := hcreated
      simp [DomainEvent.begins]
    · obtain ⟨_, -, _, -, rfl⟩ := hcreated
      simp [DomainEvent.begins]
  · obtain ⟨old, hold, rfl⟩ := Option.map_eq_some_iff.mp h
    exact .inl ⟨old, hold, rfl⟩

/-- A claim is on an activation that was there before. -/
theorem activation_before_of_claim {act : ActivationState} {claim : ClaimState}
    (hact : (evolve s e).activations.lookup a = some act) (hclaim : act.claim = some claim) :
    ∃ old, s.activations.lookup a = some old ∧ act = old.after s e a := by
  refine (after_or_begun hact).resolve_right fun hbegun => ?_
  rw [hbegun.2.2.2] at hclaim
  cases hclaim

theorem Tracked.evolve (tracked : Tracked past s) (e : DomainEvent) :
    Tracked (past ++ [e]) (evolve s e) := by
  intro a act claim hact hclaim
  rw [lastClaim_concat]
  obtain ⟨old, hold, rfl⟩ := activation_before_of_claim hact hclaim
  exact claimAfter_logged hclaim fun c hc => tracked a old c hold hc

theorem Tracked.quiet (change : Quiet s s') (tracked : Tracked past s) :
    Tracked past s' :=
  fun a act claim hact => tracked a act claim (change.activations hact)

/-! ## Generations -/

/-- The generation that an event grants. -/
def DomainEvent.generation? : DomainEvent → Option Nat
  | .claimGranted _ _ _ _ _ _ _ _ generation _ _ _ _ _ => some generation
  | _ => none

/-- Later grants have larger generations, as long as the counter is not saturated. -/
def GenerationsOrdered (past : List DomainEvent) : Prop :=
  (past.filterMap DomainEvent.generation?).Pairwise fun g g' => g < g' ∨ g' = u64Max

/-- A grant takes the next generation, for an activation that no live claim is on. -/
def Fenced (time : Nat) (s : Core) : DomainEvent → Prop
  | .claimGranted _ _ activation _ _ _ _ _ generation _ _ _ _ _ =>
    generation = satAdd s.nextGeneration 1 ∧
      ∃ act, s.activations.lookup activation = some act ∧ unclaimedAt act time = true
  | _ => True

theorem satAdd_succ (n k : Nat) : satAdd (satAdd n k) 1 = satAdd n (k + 1) := by
  simp only [satAdd]
  omega

/-- The claim counter bounds the generations granted so far. -/
structure Numbered (past : List DomainEvent) (s : Core) : Prop where
  ordered : GenerationsOrdered past
  bounded : ∀ g ∈ past.filterMap DomainEvent.generation?, g ≤ s.nextGeneration ∧ g ≤ u64Max

theorem Numbered.evolve (numbered : Numbered past s)
    (fenced : ∀ g, e.generation? = some g → g = satAdd s.nextGeneration 1) :
    Numbered (past ++ [e]) (evolve s e) := by
  cases hg : e.generation? with
  | none =>
    have hkept : (Graphrun.evolve s e).nextGeneration = s.nextGeneration := by
      rw [evolve_nextGeneration]
      cases e <;> first | rfl | cases hg
    have hsame : (past ++ [e]).filterMap DomainEvent.generation? =
        past.filterMap DomainEvent.generation? := by
      simp [List.filterMap_append, hg]
    constructor
    · rw [GenerationsOrdered, hsame]
      exact numbered.ordered
    · rw [hsame, hkept]
      exact numbered.bounded
  | some g =>
    have hnext : (Graphrun.evolve s e).nextGeneration = satAdd s.nextGeneration 1 := by
      rw [evolve_nextGeneration]
      cases e <;> first | rfl | cases hg
    have hnew := fenced g hg
    have hmore : (past ++ [e]).filterMap DomainEvent.generation? =
        past.filterMap DomainEvent.generation? ++ [g] := by
      simp [List.filterMap_append, hg]
    have hbelow : ∀ old ∈ past.filterMap DomainEvent.generation?, old < g ∨ g = u64Max := by
      intro old hold
      have hle := numbered.bounded old hold
      simp only [satAdd] at hnew
      omega
    constructor
    · rw [GenerationsOrdered, hmore, List.pairwise_append]
      refine ⟨numbered.ordered, List.pairwise_singleton _ _, ?_⟩
      intro old hold new hmem
      rw [List.mem_singleton.mp hmem]
      exact hbelow old hold
    · intro old hold
      rw [hnext, ← hnew]
      rw [hmore, List.mem_append, List.mem_singleton] at hold
      simp only [satAdd] at hnew
      rcases hold with hold | rfl
      · have hle := numbered.bounded old hold
        have hlt := hbelow old hold
        omega
      · omega

theorem Numbered.quiet (change : Quiet s s') (numbered : Numbered past s) :
    Numbered past s' := by
  have hkept : s'.nextGeneration = s.nextGeneration := by
    cases change <;> rfl
  refine ⟨numbered.ordered, ?_⟩
  rw [hkept]
  exact numbered.bounded

/-! ## Grants -/

/-- A grant leaves every other activation as it is. -/
theorem lookup_activations_granted {i : Nat} {b : ActivationId} {s₀ : Core}
    (grant : Grant o s₀ session time i a e) (hb : b ≠ a) :
    (evolve s e).activations.lookup b = s.activations.lookup b := by
  cases grant
  rw [lookup_activations_evolve, activationAfter]
  simp [newActivation, ActivationState.after, statusAfter, claimAfter, attemptsAfter, hb]

/-- A grant that was made in one state and is applied in another, which agrees with it on what
the grant depends on. -/
inductive GrantedIn (o : Enumeration) (s₀ : Core) (time : Nat) (s : Core) (e : DomainEvent) : Prop
  | mk {session : WorkerSessionId} {i : Nat} {a : ActivationId}
      (hgrant : Grant o s₀ session time i a e)
      (hnext : satAdd s.nextGeneration 1 = satAdd s₀.nextGeneration (i + 1))
      (hact : s.activations.lookup a = s₀.activations.lookup a)

/-- The grants of one command, from the `k`-th on, in a state that the earlier ones left. -/
theorem guarded_grants {s₀ : Core} :
    ∀ {events : List DomainEvent} {granted : List ActivationId} {k : Nat} {s : Core},
      events.length = granted.length → granted.Nodup →
      (∀ i a e, granted[i]? = some a → events[i]? = some e →
        Grant o s₀ session time (k + i) a e) →
      satAdd s.nextGeneration 1 = satAdd s₀.nextGeneration (k + 1) →
      (∀ a ∈ granted, s.activations.lookup a = s₀.activations.lookup a) →
      Guarded (GrantedIn o s₀ time) s events
  | [], _, _, _, _, _, _, _, _ => trivial
  | e :: events, [], _, _, hlength, _, _, _, _ => by cases hlength
  | e :: events, a :: granted, k, s, hlength, hnodup, hgrant, hnext, hsame => by
    have hfirst : Grant o s₀ session time k a e := hgrant 0 a e rfl rfl
    obtain ⟨hnew, hnodup⟩ := List.nodup_cons.mp hnodup
    refine ⟨⟨hfirst, hnext, hsame a List.mem_cons_self⟩, ?_⟩
    apply guarded_grants (Nat.succ.inj hlength) hnodup (k := k + 1)
    · intro i b e' hb he'
      rw [Nat.add_right_comm, Nat.add_assoc]
      exact hgrant (i + 1) b e' hb he'
    · have hcounter : (evolve s e).nextGeneration = satAdd s.nextGeneration 1 := by
        rw [evolve_nextGeneration]
        cases hfirst
        rfl
      rw [hcounter, hnext, satAdd_succ]
    · intro b hb
      have hne : b ≠ a := fun heq => hnew (heq ▸ hb)
      rw [lookup_activations_granted hfirst hne]
      exact hsame b (List.mem_cons_of_mem _ hb)

/-- The renewal of sessions leaves what grants depend on. -/
theorem evolveAll_outside (h : ∀ e ∈ es, e.isOutside = true) :
    (evolveAll s es).nextGeneration = s.nextGeneration ∧
      (evolveAll s es).activations = s.activations := by
  induction es generalizing s with
  | nil => exact ⟨rfl, rfl⟩
  | cons e es ih =>
    obtain ⟨he, hrest⟩ := List.forall_mem_cons.mp h
    obtain ⟨hnext, hacts⟩ := ih (s := evolve s e) hrest
    have hstep : (evolve s e).nextGeneration = s.nextGeneration ∧
        (evolve s e).activations = s.activations := by
      cases e <;> first | exact ⟨rfl, rfl⟩ | cases he
    exact ⟨hnext.trans hstep.1, hacts.trans hstep.2⟩

/-- Claims are granted by claim commands. -/
theorem Move.granting {body : CommandBody} (move : Move env o s time body es) (he : e ∈ es)
    (hkind : e.kind = .claimGranted) :
    ∃ session capacity renewed grants, body = .claim session capacity ∧
      es = renewed ++ grants.events ∧ (∀ e ∈ renewed, DomainEvent.isOutside e = true) ∧
      Granted o s session time grants := by
  have hclaim : .claimGranted ∈ body.kinds := hkind ▸ move.kinds e he
  cases move with
  | claimed hrenewed hgranted => exact ⟨_, _, _, _, rfl, rfl, hrenewed, hgranted⟩
  | outside houtside =>
    rw [kind_of_isOutside (houtside e he)] at hkind
    cases hkind
  | accepted hreported | compensated hreported | retried hreported | blocked hreported
  | lost hreported | erred hreported | notApplied hreported | unknown hreported =>
    rw [kinds_of_reported? hreported.hbody] at hclaim
    simp at hclaim
  | satisfied hsettling | timedOut hsettling =>
    rcases hsettling.hbody with rfl | rfl <;> simp at hclaim
  | _ => simp at hclaim

/-- Whatever a command records, its grants are made in the state before it. -/
theorem Move.granted {body : CommandBody} (move : Move env o s time body es) :
    Guarded (fun s' e => e.kind = .claimGranted → GrantedIn o s time s' e) s es := by
  by_cases hgrant : ∃ e ∈ es, e.kind = .claimGranted
  · obtain ⟨e, he, hkind⟩ := hgrant
    obtain ⟨session, -, renewed, grants, -, rfl, hrenewed, granted⟩ := move.granting he hkind
    -- sessions are renewed before anything is granted
    obtain ⟨hnext, hacts⟩ := evolveAll_outside (s := s) hrenewed
    refine guarded_append.mpr ⟨Guarded.of_all fun e he core hkind => ?_, ?_⟩
    · rw [kind_of_isOutside (hrenewed e he)] at hkind
      cases hkind
    · have hgrants : Guarded (GrantedIn o s time) (evolveAll s renewed) grants.events := by
        apply guarded_grants granted.length granted.nodup (k := 0)
        · intro i a e ha he
          rw [Nat.zero_add]
          exact granted.grant i a e ha he
        · rw [hnext]
        · intro a _
          rw [hacts]
      exact hgrants.mono fun _ _ h _ => h
  · exact Guarded.of_all fun e he _ hkind => absurd ⟨e, he, hkind⟩ hgrant

theorem Move.fenced {body : CommandBody} (move : Move env o s time body es) :
    Guarded (Fenced time) s es := by
  refine move.granted.mono fun s e h => ?_
  cases e <;> try trivial
  obtain ⟨⟨hact, -, -, -, hfree⟩, hnext, hsame⟩ := h rfl
  exact ⟨hnext.symm, _, hsame.trans hact, hfree⟩

/-! ## Every run -/

/-- The steps of a trace are taken at increasing times. -/
theorem Trace.times {t t' : Nat} {log : List Step} (trace : Trace env s t log s' t') :
    log.Pairwise (fun a b => a.time ≤ b.time) ∧ ∀ step ∈ log, step.time ≤ t' := by
  induction trace with
  | refl => exact ⟨List.Pairwise.nil, by simp⟩
  | tick _ later ih => exact ⟨ih.1, fun step hstep => (ih.2 step hstep).trans later⟩
  | quiet _ _ ih => exact ih
  | step _ later _ ih =>
    refine ⟨?_, ?_⟩
    · rw [List.pairwise_append]
      refine ⟨ih.1, List.pairwise_singleton _ _, fun a ha b hb => ?_⟩
      rw [List.mem_singleton.mp hb]
      exact (ih.2 a ha).trans later
    · intro other hmem
      rcases List.mem_append.mp hmem with hmem | hmem
      · exact (ih.2 other hmem).trans later
      · rw [List.mem_singleton.mp hmem]

/-- A grant finds no live claim. -/
def GrantsUnclaimed (time : Nat) (s : Core) : DomainEvent → Prop
  | .claimGranted _ _ activation _ _ _ _ _ _ _ _ _ _ _ =>
    ∃ act, s.activations.lookup activation = some act ∧ unclaimedAt act time = true
  | _ => True

/-- Over every run generations are ordered and time does not go back, claims are granted where
no live claim is, and a message of an owner presents the most recent claim before its lease
ends. The id of a published start is taken to be that of no other command. -/
theorem claims_fenced {clusterId : String} {log : List Step} {final : State}
    (hrun : Run env (.empty clusterId) log final)
    (hreplayed : ∀ step ∈ log, step.replayed = false) :
    GenerationsOrdered (eventsOf log) ∧ log.Pairwise (fun a b => a.time ≤ b.time) ∧
      ∀ earlier step later, log = earlier ++ step :: later →
        Guarded (GrantsUnclaimed step.time) step.before step.events ∧
        ∀ token, step.body.presents? = some token → ∃ lease,
          lastClaim token.activation (eventsOf earlier) = some ⟨token, lease⟩ ∧
            step.time < lease := by
  have hempty := keyed_empty clusterId
  have htrace := hrun.trace hempty
  have hfenced : ∀ step ∈ log, Guarded (Fenced step.time) step.before step.events := by
    intro step hstep
    obtain ⟨o, move⟩ := (htrace.decided step hstep).move (hreplayed step hstep)
    exact move.fenced
  have hinitial : Numbered [] (State.empty clusterId).toCore :=
    ⟨List.Pairwise.nil, fun g hg => by cases hg⟩
  have huntracked : Tracked [] (State.empty clusterId).toCore := by
    intro a act claim hact
    cases hact
  obtain ⟨hnumbered, -⟩ := htrace.eventInvariant
    (G := fun s e => ∀ g, e.generation? = some g → g = satAdd s.nextGeneration 1)
    (fun _ _ _ change numbered => numbered.quiet change)
    (fun _ _ _ hg numbered => numbered.evolve hg)
    (fun _ step _ hc _ => hc.mono fun s e he g hg => by
      cases e <;> cases hg
      exact he.1)
    hinitial hfenced
  refine ⟨hnumbered.ordered, htrace.times.1, ?_⟩
  intro earlier step later hlog
  have hstep : step ∈ log := by simp [hlog]
  refine ⟨(hfenced step hstep).mono fun s e he => ?_, fun token htoken => ?_⟩
  · cases e <;> first | trivial | exact he.2
  · obtain ⟨act, claim, hact, hclaim, hpresented, hlease⟩ :=
      (htrace.decided step hstep).authorized.owner token htoken
    obtain ⟨-, htracked⟩ := htrace.logInvariant (C := fun _ => True)
      (P := fun log => Tracked (eventsOf log))
      (fun _ _ _ change tracked => tracked.quiet change)
      (fun log step _ _ tracked => by
        have hafter := Guarded.invariant (G := fun _ _ => True) (P := Tracked)
          (fun _ _ e _ tracked => tracked.evolve e)
          (show Guarded _ step.before step.events from Guarded.of_all fun _ _ _ => trivial) tracked
        simpa [eventsOf, Step.after] using hafter)
      huntracked (fun _ _ => trivial)
    have hlast := htracked earlier step later hlog token.activation act claim hact hclaim
    rw [hpresented] at hlast
    exact ⟨claim.leaseExpiryMs, hlast, hlease⟩

/-! ## A claim that changes hands -/

/-- One activity and the end. -/
def workWorkflow : Definition :=
  sampleWorkflow [] "work" [("done", .complete (.literal .null)),
    ("work", sampleActivity "a" none "done")]

/-- The first session claims an activity and lets its lease run out, and the second one asks for
it. -/
def lapsedWork (definition : Definition) (catalog : Catalog) : List Command := [
  { id := ⟨1⟩, body := .start ⟨1⟩ definition .null catalog, time := 1 },
  { id := ⟨2⟩, body := .registerSession ⟨1⟩ ["*"] 1, time := 2 },
  { id := ⟨3⟩, body := .claim ⟨1⟩ 1, time := 3 },
  { id := ⟨4⟩, body := .registerSession ⟨2⟩ ["*"] 1, time := 40000 },
  { id := ⟨5⟩, body := .claim ⟨2⟩ 1, time := 40001 }]

/-- The second session claims the activity and renews its claim. -/
def handedOver : List Command := lapsedWork workWorkflow (sampleCatalog ["a"] .manual) ++ [
  { id := ⟨6⟩, body := .renew ⟨2⟩ ⟨65⟩ 2 1, time := 40002 }]

/-- The renewal is accepted as that of the second claim. -/
theorem handedOver_fenced : ∃ log final,
    Run sampleEnv (.empty sampleCluster) log final ∧ (∀ step ∈ log, step.replayed = false) ∧
    GenerationsOrdered (eventsOf log) ∧
    ∃ earlier step later, log = earlier ++ step :: later ∧
      step.body.presents? = some ⟨⟨65⟩, ⟨2⟩, 2, 1⟩ ∧ ∃ lease,
        lastClaim ⟨65⟩ (eventsOf earlier) = some ⟨⟨⟨65⟩, ⟨2⟩, 2, 1⟩, lease⟩ ∧
          step.time < lease := by
  obtain ⟨log, final, hrun, hcheck⟩ := exists_sampleRun handedOver
    (fun log _ => log.all (fun step => !step.replayed) &&
      (log[5]?).any fun step => step.body.presents? = some ⟨⟨65⟩, ⟨2⟩, 2, 1⟩)
    (by decide +kernel)
  simp only [Bool.and_eq_true, List.all_eq_true, Option.any_eq_true, decide_eq_true_eq,
    Bool.not_eq_true'] at hcheck
  obtain ⟨hreplayed, step, hstep, htoken⟩ := hcheck
  obtain ⟨earlier, later, hlog⟩ := List.append_of_mem (List.mem_of_getElem? hstep)
  obtain ⟨hordered, -, hsteps⟩ := claims_fenced hrun hreplayed
  exact ⟨_, _, hrun, hreplayed, hordered, earlier, step, later, hlog, htoken,
    (hsteps earlier step later hlog).2 _ htoken⟩

end Graphrun
