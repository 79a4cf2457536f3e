import Graphrun.Claims.Recovery

/-!
# Probes are bounded

A probe that cannot tell whether an attempt was applied is followed by another one, but only so
often. The claim of a probe counts those that have come back without an answer: a further probe
takes the count over from the claim before, a forward claim starts anew. At the bound the engine
asks for an operator and clears the claim, and nobody gets a claim on the activation again.

* `Attested`: what the state shows of a grant and of a recorded probe.
* `Probing`: the claim on an activation shows how many probes have come back.
* `Probing.evolve`, `Probes.step`: what a step makes of it.
* `Barred`: what keeps an activation from being claimed.
* `probes_bounded` is the statement about every run.
-/

namespace Graphrun

open Lib

variable {env : Env} {o : Enumeration} {s : Core} {time : Nat} {past es : List DomainEvent}
  {e : DomainEvent} {a : ActivationId} {act : ActivationState} {body : CommandBody}

/-! ## Grants and recorded probes -/

theorem grantRole_eq_compensation :
    grantRole o s act time = .compensation ↔ act.role = .compensation := by
  unfold grantRole
  by_cases hrole : act.role = .compensation
  · simp [hrole]
  · rw [if_neg hrole]
    simp only [hrole, iff_false]
    repeat' split
    all_goals simp

/-- A probe is granted where a claim has run out. -/
theorem claim_of_grantRole (h : grantRole o s act time = .reconciliation) :
    act.claim.isSome = true := by
  unfold grantRole at h
  split at h
  · cases h
  · split at h
    · next hexpired =>
      cases hclaim : act.claim with
      | none =>
        rw [hclaim] at hexpired
        cases hexpired
      | some claim => rfl
    · cases h

/-- What the state shows of a grant or of a recorded probe. -/
def Attested (s : Core) : DomainEvent → Prop
  | .claimGranted _ _ a _ _ _ _ _ _ _ _ _ _ role =>
    ∃ act, s.activations.lookup a = some act ∧ (role = .compensation ↔ act.role = .compensation) ∧
      (role = .reconciliation → act.claim.isSome = true)
  | .reconciliationRecorded _ a outcome _ probes =>
    ∃ act, s.activations.lookup a = some act ∧ Probed act outcome probes
  | _ => True

/-- An event that neither grants a claim nor records a probe. -/
def Unclaiming (e : DomainEvent) : Prop :=
  e.kind ≠ .claimGranted ∧ e.kind ≠ .reconciliationRecorded

theorem Unclaiming.attested (h : Unclaiming e) : Attested s e := by
  obtain ⟨hgrant, hrecord⟩ := h
  cases e <;> trivial

theorem unclaiming_of_kinds {L : List EventKind} (h : ∀ e ∈ es, e.kind ∈ L)
    (hgrant : .claimGranted ∉ L) (hrecord : .reconciliationRecorded ∉ L) :
    ∀ e ∈ es, Unclaiming e :=
  fun e he => ⟨fun hkind => hgrant (hkind ▸ h e he), fun hkind => hrecord (hkind ▸ h e he)⟩

/-- What follows the record of a probe. -/
structure ProbeFollowed (run : RunId) (a : ActivationId) (outcome : ReconcileOutcome)
    (probes : Nat) (rest : List DomainEvent) : Prop where
  others : ∀ e ∈ rest, Unclaiming e
  escalated : outcome = .unknown → reconciliationProbes ≤ probes → ∃ reason,
    rest = [.interventionRequired run a reason, .claimCleared a]

/-- A probe that a report records: perhaps why it failed, its outcome, and what follows. -/
inductive ProbeRecorded (s : Core) : List DomainEvent → Prop
  | mk {run : RunId} {a : ActivationId} {act : ActivationState} {outcome : ReconcileOutcome}
      {output : Option Value} {probes : Nat} {rest : List DomainEvent} (failure : List DomainEvent)
      (hfailure : failure = [] ∨ ∃ code message,
        failure = [.reconciliationFailed run a code message])
      (hact : s.activations.lookup a = some act) (hprobed : Probed act outcome probes)
      (followed : ProbeFollowed run a outcome probes rest) :
      ProbeRecorded s (failure ++ .reconciliationRecorded run a outcome output probes :: rest)

/-- What a command has to do with claims: nothing, or it grants some, or it records a probe. -/
theorem Move.claims (move : Move env o s time body es) :
    (∀ e ∈ es, Unclaiming e) ∨ (∃ session capacity, body = .claim session capacity) ∨
      ProbeRecorded s es := by
  have hplain (h : .claimGranted ∉ body.kinds ∧ .reconciliationRecorded ∉ body.kinds) :
      ∀ e ∈ es, Unclaiming e :=
    unclaiming_of_kinds move.kinds h.1 h.2
  cases move with
  | @accepted _ run a act output probe owed followed hreported _ hprobe howed hfollowed =>
    have hrest : ∀ e ∈ DomainEvent.leafSucceeded run a 1 output .forward ::
        .nodeOutputRecorded run act.scope act.node output :: (owed ++ followed), Unclaiming e := by
      simp only [List.forall_mem_append, List.forall_mem_cons]
      refine ⟨by simp [Unclaiming], by simp [Unclaiming], ?_, ?_⟩
      · apply compensationEvents_all (P := Unclaiming) howed <;> intros <;> simp [Unclaiming]
      · rcases hfollowed with ⟨-, rfl⟩ | ⟨-, hfollowed⟩
        · exact List.forall_mem_nil _
        · exact unclaiming_of_kinds (hfollowed.kinds (List.mem_singleton_self _)) (by simp)
            (by simp)
    rcases hprobe with rfl | ⟨value, probes, hprobed, rfl⟩
    · exact .inl hrest
    · exact .inr (.inr (.mk [] (.inl rfl) hreported.hact hprobed ⟨hrest, by simp⟩))
  | compensated hreported _ hprobe =>
    rcases hprobe with rfl | ⟨value, probes, hprobed, rfl⟩
    · exact .inl (by simp [Unclaiming])
    · exact .inr (.inr (.mk [] (.inl rfl) hreported.hact hprobed ⟨by simp [Unclaiming], by simp⟩))
  | retried | blocked | lost => exact .inl (by simp [Unclaiming])
  | erred _ _ hfailing =>
    exact .inl (List.forall_mem_cons.mpr ⟨by simp [Unclaiming], unclaiming_of_kinds
      (hfailing.kinds (List.Subset.refl failureKinds)) (by simp) (by simp)⟩)
  | notApplied hreported hprobed hsettled =>
    refine .inr (.inr (.mk [] (.inl rfl) hreported.hact hprobed ⟨?_, by simp⟩))
    rcases hsettled with ⟨-, rfl⟩ | ⟨-, attempt, code, message, rfl⟩ <;> simp [Unclaiming]
  | unknown hreported hprobed hfailure hescalated hlast =>
    refine .inr (.inr (.mk _ hfailure hreported.hact hprobed ⟨?_, fun _ hbound => ?_⟩))
    · rcases hescalated with rfl | ⟨reason, rfl⟩ <;> simp [Unclaiming]
    · exact hescalated.resolve_left (hlast.mp hbound)
  | satisfied hsettling | timedOut hsettling =>
    refine .inl (hplain ?_)
    rcases hsettling.hbody with rfl | rfl <;> simp
  | claimed => exact .inr (.inl ⟨_, _, rfl⟩)
  | outside houtside =>
    exact .inl (unclaiming_of_kinds (kinds_outside houtside) (by simp) (by simp))
  | _ => exact .inl (hplain (by simp))

theorem ProbeRecorded.attested (recorded : ProbeRecorded s es) : Guarded Attested s es := by
  obtain ⟨failure, hfailure, hact, hprobed, followed⟩ := recorded
  have hrest {s : Core} : Guarded Attested s _ :=
    Guarded.of_all fun e he _ => (followed.others e he).attested
  rw [guarded_append]
  rcases hfailure with rfl | ⟨code, message, rfl⟩
  · exact ⟨trivial, ⟨_, hact, hprobed⟩, hrest⟩
  · -- a failed probe changes nothing by itself
    exact ⟨⟨trivial, trivial⟩, ⟨_, hact, hprobed⟩, hrest⟩

/-- Every event of a command is attested. -/
theorem Move.attested (move : Move env o s time body es) : Guarded Attested s es := by
  rcases move.claims with hnone | ⟨session, capacity, rfl⟩ | hrecorded
  · exact Guarded.of_all fun e he _ => (hnone e he).attested
  · have hkinds := Guarded.of_all (G := fun _ e => e.kind ∈ _) (s := s) fun e he _ =>
      move.kinds e he
    refine (move.granted.and hkinds).mono fun s' e h => ?_
    by_cases hgrant : e.kind = .claimGranted
    · obtain ⟨⟨hact, -, -, -, -, -, hrole⟩, -, hsame⟩ := h.1 hgrant
      subst hrole
      exact ⟨_, hsame.trans hact, grantRole_eq_compensation, claim_of_grantRole⟩
    · refine Unclaiming.attested ⟨hgrant, fun hkind => ?_⟩
      have hmem := h.2
      rw [hkind] at hmem
      simp at hmem
  · exact hrecorded.attested

/-! ## Counting probes -/

/-- A probe of the activation comes back without an answer. -/
def DomainEvent.unanswered (a : ActivationId) : DomainEvent → Bool
  | .reconciliationRecorded _ activation outcome _ _ => activation = a ∧ outcome = .unknown
  | _ => false

/-- The probes that have come back without an answer since the last forward claim. -/
def unansweredAttempt (a : ActivationId) (past : List DomainEvent) : Nat :=
  countSince (DomainEvent.unanswered a) (DomainEvent.attempts a) past

/-- The probes that have come back without an answer since the last claim of any role. -/
def unansweredClaim (a : ActivationId) (past : List DomainEvent) : Nat :=
  countSince (DomainEvent.unanswered a) (DomainEvent.claims a) past

theorem unclaiming_counts (h : Unclaiming e) : e.unanswered a = false ∧ e.claims a = false := by
  obtain ⟨hgrant, hrecord⟩ := h
  cases e <;> first | exact ⟨rfl, rfl⟩ | exact absurd rfl hgrant | exact absurd rfl hrecord

theorem unanswered_concat (past : List DomainEvent) (hprobe : e.unanswered a = false)
    (hclaim : e.claims a = false) :
    unansweredAttempt a (past ++ [e]) = unansweredAttempt a past ∧
      unansweredClaim a (past ++ [e]) = unansweredClaim a past := by
  simp [unansweredAttempt, unansweredClaim, countSince_concat, hprobe, hclaim,
    attempts_of_claims hclaim]

/-! ## What a claim shows -/

/-- A claim that is not for a compensation counts the probes, and is marked by the one that came
back under it. -/
structure ShowsProbes (a : ActivationId) (past : List DomainEvent) (act : ActivationState)
    (claim : ClaimState) : Prop where
  counted : (act.role = .compensation ∧ claim.role = .compensation) ∨
    (unansweredAttempt a past < reconciliationProbes ∧ unansweredAttempt a past ≤ claim.probes)
  marked : unansweredClaim a past = 0 ∨
    (unansweredClaim a past = 1 ∧ claim.unknownReported = true)

def Probing (a : ActivationId) (past : List DomainEvent) (s : Core) : Prop :=
  ∀ act claim, s.activations.lookup a = some act → act.claim = some claim →
    ShowsProbes a past act claim

/-- Every event but a probe without an answer keeps what the claim shows. -/
theorem Probing.evolve (probing : Probing a past s) (attested : Attested s e)
    (hprobe : e.unanswered a = false) : Probing a (past ++ [e]) (evolve s e) := by
  intro act claim hact hclaim
  obtain ⟨old, hold, rfl⟩ := activation_before_of_claim hact hclaim
  change claimAfter e a old = some claim at hclaim
  have hrole : (old.after s e a).role = old.role := rfl
  -- whatever keeps the count, the mark and the role of a claim
  have kept {c : ClaimState} (hc : old.claim = some c) (hclaims : e.claims a = false)
      (hsame : claim.role = c.role ∧ c.probes ≤ claim.probes ∧
        claim.unknownReported = c.unknownReported) :
      ShowsProbes a (past ++ [e]) (old.after s e a) claim := by
    obtain ⟨hcounted, hmarked⟩ := probing old c hold hc
    obtain ⟨hattempt, hsince⟩ := unanswered_concat past hprobe hclaims
    obtain ⟨hsameRole, hprobes, hreported⟩ := hsame
    refine ⟨?_, ?_⟩
    · rw [hattempt, hrole, hsameRole]
      exact hcounted.imp_right fun h => ⟨h.1, h.2.trans hprobes⟩
    · rw [hsince, hreported]
      exact hmarked
  cases e
  case claimGranted run scope b handler version input attempt session generation revision lease
      deadline key role =>
    simp only [claimAfter] at hclaim
    split at hclaim
    · next ha =>
      subst ha
      obtain ⟨found, hfound, hcompensation, hreconciliation⟩ := attested
      obtain rfl := Option.mem_unique hold hfound
      obtain rfl := Option.some.inj hclaim
      have hsince : unansweredClaim a (past ++ [.claimGranted run scope a handler version input
          attempt session generation revision lease deadline key role]) = 0 := by
        simp [unansweredClaim, countSince_concat, DomainEvent.claims]
      refine ⟨?_, .inl hsince⟩
      cases role with
      | compensation => exact .inl ⟨hcompensation.mp rfl, rfl⟩
      | forward =>
        right
        have hzero : unansweredAttempt a (past ++ [.claimGranted run scope a handler version input
            attempt session generation revision lease deadline key .forward]) = 0 := by
          simp [unansweredAttempt, countSince_concat, DomainEvent.attempts]
        rw [hzero]
        exact ⟨by decide, Nat.zero_le _⟩
      | reconciliation =>
        -- the count is taken over from the claim that has run out
        right
        obtain ⟨c, hc⟩ := Option.isSome_iff_exists.mp (hreconciliation rfl)
        have hsame : unansweredAttempt a (past ++ [.claimGranted run scope a handler version input
            attempt session generation revision lease deadline key .reconciliation]) =
            unansweredAttempt a past := by
          simp [unansweredAttempt, countSince_concat, DomainEvent.attempts, DomainEvent.unanswered]
        rw [hsame, hc]
        rcases (probing old c hold hc).counted with ⟨hcomp, -⟩ | hcounted
        · exact absurd (hcompensation.mpr hcomp) (by simp)
        · exact hcounted
    · next hne =>
      exact kept hclaim (by simpa [DomainEvent.claims] using Ne.symm hne) ⟨rfl, Nat.le_refl _, rfl⟩
  case claimRenewed =>
    simp only [claimAfter] at hclaim
    split at hclaim
    · obtain ⟨c, hc, rfl⟩ := Option.map_eq_some_iff.mp hclaim
      exact kept hc rfl ⟨rfl, Nat.le_refl _, rfl⟩
    · exact kept hclaim rfl ⟨rfl, Nat.le_refl _, rfl⟩
  case reconciliationRecorded run b outcome output probes =>
    obtain ⟨found, hfound, c, hc, -, hprobes, -⟩ := attested
    simp only [claimAfter] at hclaim
    split at hclaim
    · next ha =>
      subst ha
      obtain rfl := Option.mem_unique hold hfound
      rw [hc, Option.map_some, Option.some.injEq] at hclaim
      have hknown : outcome ≠ .unknown := by simpa [DomainEvent.unanswered] using hprobe
      obtain ⟨hcounted, hmarked⟩ := probing old c hold hc
      obtain ⟨hattempt, hsince⟩ := unanswered_concat past hprobe rfl
      rw [← hclaim]
      refine ⟨?_, ?_⟩
      · rw [hattempt, hrole]
        refine hcounted.imp_right fun hcount => ⟨hcount.1, ?_⟩
        obtain ⟨hlt, hle⟩ := hcount
        simp only [reconciliationProbes] at hlt
        simp only [hprobes]
        omega
      · rw [hsince, if_neg hknown]
        exact hmarked
    · exact kept hclaim rfl ⟨rfl, Nat.le_refl _, rfl⟩
  case leafFailed | claimCleared | compensationAbandoned =>
    simp only [claimAfter] at hclaim
    split at hclaim
    · cases hclaim
    · exact kept hclaim rfl ⟨rfl, Nat.le_refl _, rfl⟩
  all_goals exact kept hclaim rfl ⟨rfl, Nat.le_refl _, rfl⟩

/-- Events without such a probe keep it. -/
theorem Probing.evolveAll (probing : Probing a past s) (attested : Guarded Attested s es)
    (hprobes : ∀ e ∈ es, e.unanswered a = false) :
    Probing a (past ++ es) (Graphrun.evolveAll s es) :=
  (attested.and (Guarded.of_all fun e he _ => hprobes e he)).invariant
    (fun _ _ _ h probing => probing.evolve h.1 h.2) probing

theorem Probing.quiet {s' : Core} (change : Quiet s s') (probing : Probing a past s) :
    Probing a past s' :=
  fun act claim hact => probing act claim (change.activations hact)

/-! ## A probe without an answer -/

section Unknown

variable {run : RunId} {output : Option Value} {probes : Nat}

/-- Such a probe runs under a claim that counts it, and is the first under it. -/
theorem Probing.before_unknown (probing : Probing a past s)
    (attested : Attested s (.reconciliationRecorded run a .unknown output probes)) :
    unansweredAttempt a past < reconciliationProbes ∧ unansweredAttempt a past < probes ∧
      unansweredClaim a past = 0 := by
  obtain ⟨act, hact, claim, hclaim, hrole, hprobes, hreported⟩ := attested
  obtain ⟨hcounted, hmarked⟩ := probing act claim hact hclaim
  have hfirst : unansweredClaim a past = 0 := by
    rcases hmarked with hzero | ⟨-, hmarked⟩
    · exact hzero
    · rw [hreported rfl] at hmarked
      cases hmarked
  rcases hcounted with ⟨-, hcomp⟩ | ⟨hlt, hle⟩
  · rw [hrole] at hcomp
    cases hcomp
  · refine ⟨hlt, ?_, hfirst⟩
    simp only [reconciliationProbes] at hlt
    omega

theorem unanswered_unknown (past : List DomainEvent) :
    unansweredAttempt a (past ++ [.reconciliationRecorded run a .unknown output probes]) =
        unansweredAttempt a past + 1 ∧
      unansweredClaim a (past ++ [.reconciliationRecorded run a .unknown output probes]) =
        unansweredClaim a past + 1 := by
  simp [unansweredAttempt, unansweredClaim, countSince_concat, DomainEvent.unanswered,
    DomainEvent.attempts, DomainEvent.claims]

/-- Below the bound the claim shows that it came back. -/
theorem Probing.after_unknown (probing : Probing a past s)
    (attested : Attested s (.reconciliationRecorded run a .unknown output probes))
    (hmore : unansweredAttempt a past + 1 < reconciliationProbes) :
    Probing a (past ++ [.reconciliationRecorded run a .unknown output probes])
      (Graphrun.evolve s (.reconciliationRecorded run a .unknown output probes)) := by
  intro act claim hact hclaim
  obtain ⟨-, hlt, hfirst⟩ := probing.before_unknown attested
  obtain ⟨old, hold, rfl⟩ := activation_before_of_claim hact hclaim
  simp only [ActivationState.after, claimAfter, if_true] at hclaim
  obtain ⟨c, hc, rfl⟩ := Option.map_eq_some_iff.mp hclaim
  refine ⟨.inr ?_, .inr ?_⟩
  · rw [(unanswered_unknown past).1]
    exact ⟨hmore, hlt⟩
  · rw [(unanswered_unknown past).2, hfirst]
    exact ⟨rfl, rfl⟩

end Unknown

/-- What a step leaves behind of the probes of an activation. -/
structure Probes (a : ActivationId) (past : List DomainEvent) (s : Core) : Prop where
  probing : Probing a past s
  attempts : ∀ l₁ l₂, past = l₁ ++ l₂ → unansweredAttempt a l₁ ≤ reconciliationProbes
  claims : ∀ l₁ l₂, past = l₁ ++ l₂ → unansweredClaim a l₁ ≤ 1

theorem unanswered_le_append (past : List DomainEvent) (h : ∀ e ∈ es, e.unanswered a = false) :
    unansweredAttempt a (past ++ es) ≤ unansweredAttempt a past ∧
      unansweredClaim a (past ++ es) ≤ unansweredClaim a past :=
  ⟨countSince_append_le h, countSince_append_le h⟩

/-- Steps without such a probe. -/
theorem Probes.step_known (probes : Probes a past s) (attested : Guarded Attested s es)
    (h : ∀ e ∈ es, e.unanswered a = false) : Probes a (past ++ es) (evolveAll s es) := by
  obtain ⟨hattempt, hclaim⟩ := unanswered_le_append past h
  have hself := (List.append_nil past).symm
  exact ⟨probes.probing.evolveAll attested h,
    countSince_le_of_append probes.attempts (hattempt.trans (probes.attempts _ _ hself)) (.inl h),
    countSince_le_of_append probes.claims (hclaim.trans (probes.claims _ _ hself)) (.inl h)⟩

/-- The claim is gone after it was cleared. -/
theorem probing_cleared : Probing a past (evolve s (.claimCleared a)) := by
  intro act claim hact hclaim
  obtain ⟨old, -, rfl⟩ := activation_before_of_claim hact hclaim
  simp [ActivationState.after, claimAfter] at hclaim

/-- A step that records such a probe: the probes stay within the bound, and the one that reaches
it asks for an operator and clears the claim. -/
theorem Probes.step_unknown {run : RunId} {output : Option Value} {count : Nat}
    {rest : List DomainEvent} (probes : Probes a past s)
    (attested : Attested s (.reconciliationRecorded run a .unknown output count))
    (followed : ProbeFollowed run a .unknown count rest) :
    Probes a (past ++ .reconciliationRecorded run a .unknown output count :: rest)
      (evolveAll s (.reconciliationRecorded run a .unknown output count :: rest)) ∧
    (unansweredAttempt a (past ++ .reconciliationRecorded run a .unknown output count :: rest) =
        reconciliationProbes → ∃ reason,
      rest = [.interventionRequired run a reason, .claimCleared a]) := by
  obtain ⟨hlt, hcount, hfirst⟩ := probes.probing.before_unknown attested
  have hrest : ∀ e ∈ rest, e.unanswered a = false ∧ e.claims a = false :=
    fun e he => unclaiming_counts (followed.others e he)
  have hclaims : ∀ e ∈ DomainEvent.reconciliationRecorded run a .unknown output count :: rest,
      e.claims a = false :=
    List.forall_mem_cons.mpr ⟨rfl, fun e he => (hrest e he).2⟩
  have hone : (DomainEvent.reconciliationRecorded run a .unknown output count :: rest).countP
      (DomainEvent.unanswered a) = 1 := by
    rw [List.countP_cons, List.countP_eq_zero.mpr fun e he => by simp [(hrest e he).1]]
    simp [DomainEvent.unanswered]
  have hattempt : unansweredAttempt a
      (past ++ .reconciliationRecorded run a .unknown output count :: rest) =
        unansweredAttempt a past + 1 := by
    rw [unansweredAttempt, countSince_append fun e he => attempts_of_claims (hclaims e he), hone]
    rfl
  have hclaim : unansweredClaim a
      (past ++ .reconciliationRecorded run a .unknown output count :: rest) = 1 := by
    rw [unansweredClaim, countSince_append hclaims, hone]
    exact congrArg (· + 1) hfirst
  have hlast (hbound : unansweredAttempt a past + 1 = reconciliationProbes) : ∃ reason,
      rest = [.interventionRequired run a reason, .claimCleared a] :=
    followed.escalated rfl (by omega)
  refine ⟨⟨?_, ?_, ?_⟩, fun hbound => hlast (hattempt.symm.trans hbound)⟩
  · rcases Nat.lt_or_eq_of_le hlt with hmore | hbound
    · have hattested : Guarded Attested
          (evolve s (.reconciliationRecorded run a .unknown output count)) rest :=
        Guarded.of_all fun e he _ => (followed.others e he).attested
      have hafter := (probes.probing.after_unknown attested hmore).evolveAll hattested
        fun e he => (hrest e he).1
      rwa [List.append_assoc] at hafter
    · obtain ⟨reason, rfl⟩ := hlast hbound
      exact probing_cleared
  · refine countSince_le_of_append probes.attempts ?_
      (.inr fun e he => attempts_of_claims (hclaims e he))
    exact hattempt.le.trans hlt
  · exact countSince_le_of_append probes.claims hclaim.le (.inr hclaims)

theorem unanswered_of_kind (h : e.kind ≠ .reconciliationRecorded) : e.unanswered a = false := by
  cases e <;> first | rfl | exact absurd rfl h

/-- Every command keeps the probes within the bounds. -/
theorem Probes.step (move : Move env o s time body es) (probes : Probes a past s) :
    Probes a (past ++ es) (evolveAll s es) ∧
    ((∃ e ∈ es, e.unanswered a = true) →
      unansweredAttempt a (past ++ es) = reconciliationProbes → ∃ run reason,
        .interventionRequired run a reason ∈ es ∧ .claimCleared a ∈ es) := by
  have known (h : ∀ e ∈ es, e.unanswered a = false) :
      Probes a (past ++ es) (evolveAll s es) ∧
      ((∃ e ∈ es, e.unanswered a = true) →
        unansweredAttempt a (past ++ es) = reconciliationProbes → ∃ run reason,
          .interventionRequired run a reason ∈ es ∧ .claimCleared a ∈ es) := by
    refine ⟨probes.step_known move.attested h, fun ⟨e, he, hprobe⟩ => ?_⟩
    rw [h e he] at hprobe
    cases hprobe
  rcases move.claims with hnone | ⟨session, capacity, rfl⟩ | hrecorded
  · exact known fun e he => (unclaiming_counts (hnone e he)).1
  · refine known fun e he => unanswered_of_kind fun hkind => ?_
    have hmem := move.kinds e he
    rw [hkind] at hmem
    simp at hmem
  · obtain @⟨run, b, act, outcome, output, count, rest, failure, hfailure, hact, hprobed,
      followed⟩ := hrecorded
    have hunclaiming : ∀ e ∈ failure, Unclaiming e := by
      rcases hfailure with rfl | ⟨code, message, rfl⟩ <;> simp [Unclaiming]
    have hfailed : evolveAll s failure = s := by
      rcases hfailure with rfl | ⟨code, message, rfl⟩ <;> rfl
    by_cases hprobe : b = a ∧ outcome = .unknown
    · obtain ⟨rfl, rfl⟩ := hprobe
      have hattested : Guarded Attested s failure :=
        Guarded.of_all fun e he _ => (hunclaiming e he).attested
      have hbefore := probes.step_known hattested
        fun e he => (unclaiming_counts (hunclaiming e he)).1
      rw [hfailed] at hbefore
      obtain ⟨hprobes, hlast⟩ := hbefore.step_unknown ⟨act, hact, hprobed⟩ followed
      rw [evolveAll, List.foldl_append, ← evolveAll, ← evolveAll, hfailed, ← List.append_assoc]
      refine ⟨hprobes, fun _ hbound => ?_⟩
      obtain ⟨reason, rfl⟩ := hlast hbound
      exact ⟨run, reason, by simp, by simp⟩
    · refine known (List.forall_mem_append.mpr ⟨fun e he => ?_, List.forall_mem_cons.mpr ⟨?_, ?_⟩⟩)
      · exact (unclaiming_counts (hunclaiming e he)).1
      · simpa [DomainEvent.unanswered] using hprobe
      · exact fun e he => (unclaiming_counts (followed.others e he)).1

/-! ## Activations that nobody may claim -/

/-- An operator is asked for, or the activation is gone. -/
def Barred (s : Core) (a : ActivationId) : Prop :=
  (s.interventions.lookup a).isSome = true ∨ s.activations.lookup a = none

theorem Barred.evolve (barred : Barred s a) (h : e.begins a = false) :
    Barred (Graphrun.evolve s e) a := by
  refine barred.imp interventions_kept fun hgone => Option.eq_none_iff_forall_ne_some.mpr
    fun act hact => ?_
  rcases after_or_begun hact with ⟨old, hold, -⟩ | ⟨hbegins, -⟩
  · rw [hgone] at hold
    cases hold
  · rw [h] at hbegins
    cases hbegins

theorem Barred.evolveAll (barred : Barred s a) (h : ∀ e ∈ es, e.begins a = false) :
    Barred (Graphrun.evolveAll s es) a :=
  evolveAll_keeps (P := (Barred · a)) (fun _ _ he barred => barred.evolve he) h barred

theorem Barred.quiet {s' : Core} (change : Quiet s s') (barred : Barred s a) : Barred s' a := by
  cases change with
  | admitted | stamped | dropped => exact barred
  | @retired run =>
    unfold Barred dropRun
    simp only [Table.lookup_retain]
    rcases barred with hintervened | hgone
    · cases hact : s.activations.lookup a with
      | none => exact .inr rfl
      | some act =>
        by_cases hrun : act.run = run
        · exact .inr (by simp [hrun])
        · obtain ⟨reason, hreason⟩ := Option.isSome_iff_exists.mp hintervened
          exact .inl (by simp [hreason, hrun])
    · exact .inr (by simp [hgone])

/-- Asking for an operator bars the activation. -/
theorem barred_of_intervention {run : RunId} {reason : String}
    (h : .interventionRequired run a reason ∈ es) : Barred (Graphrun.evolveAll s es) a := by
  obtain ⟨before, after, rfl⟩ := List.append_of_mem h
  rw [Graphrun.evolveAll, List.foldl_append, List.foldl_cons]
  refine .inl (evolveAll_keeps (C := fun _ => True)
    (P := fun core => (core.interventions.lookup a).isSome = true)
    (fun _ _ _ => interventions_kept) (fun _ _ => trivial) ?_)
  rw [evolve_interventions, interventionsAfter, Table.lookup_insert_eq, if_pos rfl]
  rfl

/-- A barred activation is not claimed. -/
theorem Barred.unclaimed (barred : Barred s a) (move : Move env o s time body es) :
    ∀ e ∈ es, e.claims a = false := by
  intro e he
  by_contra hclaims
  rw [Bool.not_eq_false] at hclaims
  obtain ⟨before, after, rfl⟩ := List.append_of_mem he
  obtain ⟨session, -, i, -, hgrant, -⟩ := move.grant hclaims
  obtain ⟨hact, -, -, -, -, hquiet⟩ := hgrant
  rcases barred with hintervened | hgone
  · rw [hquiet] at hintervened
    cases hintervened
  · rw [hgone] at hact
    cases hact

/-! ## Every run -/

/-- Once an operator was asked for, the activation is barred until it begins anew. -/
def BarredSince (a : ActivationId) (log : List Step) (s : Core) : Prop :=
  ∀ earlier step later, log = earlier ++ step :: later →
    (∃ run reason, .interventionRequired run a reason ∈ step.events) →
    (∀ e ∈ eventsOf later, e.begins a = false) → Barred s a

theorem BarredSince.step {log : List Step} {step : Step}
    (barred : BarredSince a log step.before) : BarredSince a (log ++ [step]) step.after := by
  intro earlier asked later hsplit hasked hlater
  rcases List.eq_nil_or_concat later with rfl | ⟨later, last, rfl⟩
  · obtain ⟨rfl, hlast⟩ := List.append_inj' hsplit rfl
    obtain rfl := (List.cons.inj hlast).1
    obtain ⟨run, reason, hreason⟩ := hasked
    exact barred_of_intervention hreason
  · rw [List.concat_eq_append, ← List.cons_append, ← List.append_assoc] at hsplit
    obtain ⟨rfl, hlast⟩ := List.append_inj' hsplit rfl
    obtain rfl := (List.cons.inj hlast).1
    rw [List.concat_eq_append, eventsOf, List.flatMap_append] at hlater
    obtain ⟨hbefore, hstep⟩ := List.forall_mem_append.mp hlater
    rw [List.flatMap_singleton] at hstep
    exact (barred earlier asked later rfl hasked hbefore).evolveAll hstep

theorem countP_le_of_segment {p q : DomainEvent → Bool} {n : Nat} {past : List DomainEvent}
    (h : ∀ l₁ l₂, past = l₁ ++ l₂ → countSince p q l₁ ≤ n)
    {before segment after : List DomainEvent} (hsplit : past = before ++ segment ++ after)
    (hsegment : ∀ e ∈ segment, q e = false) : segment.countP p ≤ n := by
  have hbound := h _ _ hsplit
  rw [countSince_append hsegment] at hbound
  omega

/-- Over every run: between two forward claims on an activation at most so many probes come back
without an answer, at most one under one claim. The one that reaches the bound asks for an
operator and clears the claim, and the activation is not claimed any more unless it begins anew,
which, where ids are unused when they are drawn, it does not as long as it is there. The id of a
published start is taken to be that of no other command. -/
theorem probes_bounded {clusterId : String} {log : List Step} {final : State}
    (hrun : Run env (.empty clusterId) log final)
    (hreplayed : ∀ step ∈ log, step.replayed = false) (a : ActivationId) :
    (∀ before segment after, eventsOf log = before ++ segment ++ after →
      (∀ e ∈ segment, e.attempts a = false) →
        segment.countP (DomainEvent.unanswered a) ≤ reconciliationProbes) ∧
    (∀ before segment after, eventsOf log = before ++ segment ++ after →
      (∀ e ∈ segment, e.claims a = false) → segment.countP (DomainEvent.unanswered a) ≤ 1) ∧
    (∀ earlier step later, log = earlier ++ step :: later →
      (∃ e ∈ step.events, e.unanswered a = true) →
      unansweredAttempt a (eventsOf earlier ++ step.events) = reconciliationProbes →
        (∃ run reason, .interventionRequired run a reason ∈ step.events) ∧
        .claimCleared a ∈ step.events ∧
        ∀ middle last rest, later = middle ++ last :: rest →
          (∃ e ∈ last.events, e.claims a = true) → ∃ e ∈ eventsOf middle, e.begins a = true) ∧
    ((∀ step ∈ log, Fresh step) → ∀ past core e, Applied log past core e →
      e.begins a = true → core.activations.lookup a = none) := by
  have htrace := hrun.trace (keyed_empty clusterId)
  have hmoves : ∀ step ∈ log, ∃ o, Move env o step.before step.time step.body step.events :=
    fun step hstep => (htrace.decided step hstep).move (hreplayed step hstep)
  have hnone : Probes a [] (State.empty clusterId).toCore := by
    refine ⟨fun act claim hact => ?_, fun l₁ l₂ hnil => ?_, fun l₁ l₂ hnil => ?_⟩
    · cases hact
    · rw [(List.append_eq_nil_iff.mp hnil.symm).1]
      exact Nat.zero_le _
    · rw [(List.append_eq_nil_iff.mp hnil.symm).1]
      exact Nat.zero_le _
  obtain ⟨hprobes, hbefore⟩ := Trace.logInvariant (P := fun log => Probes a (eventsOf log))
    (fun _ _ _ change probes => ⟨probes.probing.quiet change, probes.attempts, probes.claims⟩)
    (fun log step _ hmove probes => by
      obtain ⟨o, move⟩ := hmove
      have hstep := (probes.step move).1
      simpa [eventsOf, Step.after] using hstep) htrace hnone hmoves
  obtain ⟨-, hbarred⟩ := Trace.logInvariant (P := BarredSince a) (C := fun _ => True)
    (fun _ _ _ change barred earlier step later hlog hasked hlater =>
      (barred earlier step later hlog hasked hlater).quiet change)
    (fun _ _ _ _ barred => barred.step) htrace (fun earlier step later hnil => by simp at hnil)
    fun _ _ => trivial
  refine ⟨fun before segment after => countP_le_of_segment hprobes.attempts,
    fun before segment after => countP_le_of_segment hprobes.claims, ?_,
    fun fresh _ _ _ => hrun.begins_unused fresh⟩
  intro earlier step later hlog hprobe hbound
  have hstep : step ∈ log := by simp [hlog]
  obtain ⟨o, move⟩ := hmoves step hstep
  obtain ⟨run, reason, hasked, hcleared⟩ :=
    ((hbefore earlier step later hlog).step move).2 hprobe hbound
  refine ⟨⟨run, reason, hasked⟩, hcleared, fun middle last rest hsplit hclaim => ?_⟩
  by_contra hnever
  have hlogged : log = (earlier ++ step :: middle) ++ last :: rest := by simp [hlog, hsplit]
  have hlast : last ∈ log := by simp [hlogged]
  obtain ⟨o', move'⟩ := hmoves last hlast
  have hmiddle : ∀ e ∈ eventsOf middle, e.begins a = false := by
    intro e he
    cases hbegins : e.begins a with
    | false => rfl
    | true => exact absurd ⟨e, he, hbegins⟩ hnever
  have hbar := hbarred _ last rest hlogged earlier step middle rfl ⟨run, reason, hasked⟩ hmiddle
  obtain ⟨e, he, hclaims⟩ := hclaim
  rw [hbar.unclaimed move' e he] at hclaims
  cases hclaims

/-- After the first claim has expired, three probes come back without an answer, each under a
claim of its own. -/
def fruitlessProbes : List Command := lapsedWork workWorkflow probedCatalog ++ [
  { id := ⟨6⟩, body := .reconcile ⟨1⟩ ⟨65⟩ ⟨2⟩ 2 1 .unknown none, time := 40002 },
  { id := ⟨7⟩, body := .registerSession ⟨3⟩ ["*"] 1, time := 80000 },
  { id := ⟨8⟩, body := .claim ⟨3⟩ 1, time := 80001 },
  { id := ⟨9⟩, body := .reconcile ⟨1⟩ ⟨65⟩ ⟨3⟩ 3 1 .unknown none, time := 80002 },
  { id := ⟨10⟩, body := .registerSession ⟨4⟩ ["*"] 1, time := 120000 },
  { id := ⟨11⟩, body := .claim ⟨4⟩ 1, time := 120001 },
  { id := ⟨12⟩, body := .reconcile ⟨1⟩ ⟨65⟩ ⟨4⟩ 4 1 .unknown none, time := 120002 }]

/-- The third one asks for an operator. -/
theorem fruitlessProbes_bounded : ∃ log final earlier step later,
    Run sampleEnv (.empty sampleCluster) log final ∧ (∀ step ∈ log, step.replayed = false) ∧
    log = earlier ++ step :: later ∧ (∃ e ∈ step.events, e.unanswered ⟨65⟩ = true) ∧
    unansweredAttempt ⟨65⟩ (eventsOf earlier ++ step.events) = reconciliationProbes ∧
    (∃ run reason, .interventionRequired run ⟨65⟩ reason ∈ step.events) ∧
    .claimCleared ⟨65⟩ ∈ step.events := by
  obtain ⟨log, final, hrun, hcheck⟩ := exists_sampleRun fruitlessProbes
    (fun log _ => log.all (fun step => !step.replayed) && (log[11]?).any fun step =>
      step.events.any (·.unanswered ⟨65⟩) && unansweredAttempt ⟨65⟩ (eventsOf (log.take 11) ++
      step.events) = reconciliationProbes)
    (by decide +kernel)
  simp only [Bool.and_eq_true, List.all_eq_true, Option.any_eq_true, decide_eq_true_eq,
    Bool.not_eq_true', List.any_eq_true] at hcheck
  obtain ⟨hreplayed, step, hstep, hprobe, hbound⟩ := hcheck
  obtain ⟨hlength, rfl⟩ := List.getElem?_eq_some_iff.mp hstep
  have hlog := (List.take_append_drop 11 log).symm
  rw [← List.getElem_cons_drop hlength] at hlog
  obtain ⟨-, -, hlast, -⟩ := probes_bounded hrun hreplayed ⟨65⟩
  obtain ⟨hasked, hcleared, -⟩ := hlast _ _ _ hlog hprobe hbound
  exact ⟨_, _, _, _, _, hrun, hreplayed, hlog, hprobe, hbound, hasked, hcleared⟩

end Graphrun
