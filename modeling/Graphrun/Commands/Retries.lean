import Graphrun.Commands.Receipts
import Graphrun.Engine.Execution

/-!
# Retries of commands

A command that is committed again is answered from its receipt and changes nothing, as long as
the receipt is retained. Whether a request under an id in use is answered or refused is decided
before anything is written (`receiptOf`), from what is kept under the id (`Matches`). Requests of
principals are compared in full. Those of the engine itself are compared only as far as the
tables of worker and start digests go: a retention command is answered from any receipt, and a
command that is neither a start nor a worker's from the receipt of a start.
-/

namespace Graphrun

open Lib

variable {env : Env} {o : Enumeration} {s s' : State} {c c' : Command} {id : CommandId}
  {events : List DomainEvent} {body : CommandBody} {digest principalId : String}
  {receipt : Option (List DomainEvent)} {f : Filing} {out : Outcome}

/-! ## Identities -/

/-- The principal that caused a command. -/
def Command.actor (command : Command) : Option String :=
  match command.body with
  | .authenticated principalId _ => some principalId
  | _ => none

/-- What a command asks for. -/
def Command.request (command : Command) : CommandBody :=
  match command.body with
  | .authenticated _ body => body
  | body => body

/-- The id under which a command is filed. -/
def internalId (env : Env) (command : Command) : CommandId :=
  match command.body with
  | .authenticated principalId _ => ⟨env.authenticatedId principalId command.id⟩
  | _ => command.id

/-- The part of `commit_command` before the first write: the receipt of the command, if there is
one. -/
def receiptOf (env : Env) (s : State) (command : Command) : Result (Option (List DomainEvent)) := do
  let (command, actor) ← command.intoCause
  match command.body with
  | .pruneHistory limit => do
    refuseIf (limit = 0 ∨ limit > 1024) (invalid "retention batch must be 1..=1024")
    verifyCommandIdentity s command.id none command.id none
    pure (s.commands.lookup command.id)
  | _ => do
    let (command, _, _) ← prepareCommand env s command actor
    let startDigest ← inlineStartDigest env command.body
    let workerDigest ← workerRequestDigest env command.body
    match s.commands.lookup command.id with
    | some events => do
      verifyWorkerRetry s command.id workerDigest
      refuseIf ((s.legacyStartDigests.lookup command.id).any fun expected =>
          startDigest.any fun actual => expected ≠ actual)
        (refusal .alreadyExists "command ID reused with a different inline start request")
      pure (some events)
    | none => pure none

/-- A computation of an outcome fails where the look for a receipt fails, and leaves the state as
it is where a receipt is found. -/
def Heeds (s : State) (receipt : Result (Option (List DomainEvent))) (outcome : Result Outcome) :
    Prop :=
  match receipt with
  | .error fault => outcome = .error fault
  | .ok (some events) => outcome = .ok { state := s, events, steps := [] }
  | .ok none => True

theorem Heeds.bind {α : Type} {m : Result α} {f : α → Result (Option (List DomainEvent))}
    {g : α → Result Outcome} (h : ∀ a, Heeds s (f a) (g a)) : Heeds s (m >>= f) (m >>= g) := by
  cases m with
  | error fault => rfl
  | ok a => exact h a

theorem heeds_receiptOf : Heeds s (receiptOf env s c) (commitCommand env o s c) := by
  refine .bind fun ⟨⟨id, body, time⟩, actor⟩ => ?_
  cases body with
  | pruneHistory limit =>
    refine .bind fun _ => .bind fun _ => ?_
    cases s.commands.lookup id with
    | none => trivial
    | some events => rfl
  | _ =>
    refine .bind fun prepared => .bind fun startDigest => .bind fun workerDigest => ?_
    cases s.commands.lookup prepared.1.id with
    | none => trivial
    | some events => exact .bind fun _ => .bind fun _ => rfl

/-! ## What answers a command -/

/-- What is kept under an id is signed as a command is, which is allowed to whoever sends it. -/
structure SignedAs (env : Env) (command : Command) (f : Filing) : Prop where
  caused : ∀ principalId, command.actor = some principalId →
    validPrincipal principalId = true ∧ command.request.isInternal = false
  actor : f.actor = command.actor
  unsigned : command.actor = none → f.externalId = none ∧ f.requestDigest = none
  signed : command.actor ≠ none → f.externalId = some command.id ∧
    ∃ digest, authenticatedRequestDigest env command.request = .ok digest ∧
      f.requestDigest = some digest
  retention : ∀ limit, command.request = .pruneHistory limit → 0 < limit ∧ limit ≤ 1024

theorem signedAs_unsigned {f : Filing} (hactor : c.actor = none)
    (h : f.actor = none ∧ f.externalId = none ∧ f.requestDigest = none)
    (hretention : ∀ limit, c.request = .pruneHistory limit → 0 < limit ∧ limit ≤ 1024) :
    SignedAs env c f where
  caused principalId hsigned := by
    rw [hactor] at hsigned
    cases hsigned
  actor := h.1.trans hactor.symm
  unsigned _ := h.2
  signed hsigned := absurd hactor hsigned
  retention := hretention

/-- What is kept under an id answers a command. -/
structure Matches (env : Env) (f : Filing) (command : Command) : Prop
    extends SignedAs env command f where
  digests : (∀ limit, command.request ≠ .pruneHistory limit) →
    ∃ startDigest workerDigest, inlineStartDigest env command.request = .ok startDigest ∧
      workerRequestDigest env command.request = .ok workerDigest ∧
      f.workerDigest = workerDigest ∧
      ∀ expected actual, f.startDigest = some expected → startDigest = some actual →
        expected = actual

theorem verify_unsigned {externalId : CommandId} (h : s.commands.lookup id = some events) :
    verifyCommandIdentity s id none externalId none = .ok () ↔
      (s.filing id).actor = none ∧ (s.filing id).externalId = none ∧
        (s.filing id).requestDigest = none := by
  simp [verifyCommandIdentity, h, State.filing, not_or]

/-- The digest of a request carries the version of its format. -/
theorem versioned_of_authenticatedRequestDigest
    (h : authenticatedRequestDigest env body = .ok digest) :
    "graphrun.authenticated-request/v1:".toList.isPrefixOf digest.toList = true := by
  simp only [authenticatedRequestDigest, bind_eq_ok, pure_eq_ok] at h
  obtain ⟨json, -, text, -, rfl⟩ := h
  rw [List.isPrefixOf_iff_prefix, String.toList_append]
  exact List.prefix_append _ _

theorem verify_signed {externalId : CommandId} (h : s.commands.lookup id = some events)
    (hversion : "graphrun.authenticated-request/v1:".toList.isPrefixOf digest.toList = true) :
    verifyCommandIdentity s id (some principalId) externalId (some digest) = .ok () ↔
      (s.filing id).actor = some principalId ∧ (s.filing id).externalId = some externalId ∧
        (s.filing id).requestDigest = some digest := by
  simp only [verifyCommandIdentity, h, Option.isNone_some, Bool.false_eq_true, if_false,
    Option.isSome_some, Option.isNone_some, false_and, or_false, true_and, if_true, bind_eq_ok,
    refuseIf_eq_ok, not_or, not_not, ne_eq, exists_const, State.filing]
  constructor
  · rintro ⟨⟨hactor, hexternal⟩, -, hdigest⟩
    exact ⟨hactor, hexternal, hdigest⟩
  · rintro ⟨hactor, hexternal, hdigest⟩
    refine ⟨⟨hactor, hexternal⟩, ?_, hdigest⟩
    rw [hdigest]
    simpa using hversion

theorem unsigned_eq (h : c.actor = none) :
    c.intoCause = .ok (c, none) ∧ c.request = c.body ∧ internalId env c = c.id := by
  obtain ⟨id, body, time⟩ := c
  cases body with
  | authenticated principalId body => cases h
  | _ => exact ⟨rfl, rfl, rfl⟩

theorem signed_eq (h : c.actor = some principalId) :
    c.body = .authenticated principalId c.request ∧
      internalId env c = ⟨env.authenticatedId principalId c.id⟩ := by
  obtain ⟨id, body, time⟩ := c
  cases body with
  | authenticated principalId body =>
    obtain rfl := Option.some.inj h
    exact ⟨rfl, rfl⟩
  | _ => cases h

theorem intoCause_signed (h : c.body = .authenticated principalId body) :
    c.intoCause = (do
      refuseIf (validPrincipal principalId = false ∨ body.isInternal = true)
        (invalid "invalid authenticated command cause")
      pure ({ c with body }, some principalId)) := by
  rw [Command.intoCause, h]

/-- The last checks of a command that has a receipt. -/
theorem receipt_checks (h : s.commands.lookup id = some events) :
    ((do
      let startDigest ← inlineStartDigest env body
      let workerDigest ← workerRequestDigest env body
      match s.commands.lookup id with
      | some events => do
        verifyWorkerRetry s id workerDigest
        refuseIf ((s.legacyStartDigests.lookup id).any fun expected =>
            startDigest.any fun actual => expected ≠ actual)
          (refusal .alreadyExists "command ID reused with a different inline start request")
        pure (some events)
      | none => pure none : Result (Option (List DomainEvent))) = .ok receipt) ↔
    some events = receipt ∧
    ∃ startDigest workerDigest, inlineStartDigest env body = .ok startDigest ∧
      workerRequestDigest env body = .ok workerDigest ∧
      (s.filing id).workerDigest = workerDigest ∧
      ∀ expected actual, (s.filing id).startDigest = some expected → startDigest = some actual →
        expected = actual := by
  simp only [h, bind_eq_ok, verifyWorkerRetry, refuseIf_eq_ok, pure_eq_ok, ne_eq, not_not,
    exists_const, State.filing, Option.any_eq_true, decide_eq_true_eq, not_exists, not_and]
  constructor
  · rintro ⟨startDigest, hstart, workerDigest, hworker, hretry, hdigest, hevents⟩
    refine ⟨hevents, startDigest, workerDigest, hstart, hworker, hretry, ?_⟩
    exact fun expected actual h h' => hdigest expected h actual h'
  · rintro ⟨hevents, startDigest, workerDigest, hstart, hworker, hretry, hdigest⟩
    refine ⟨startDigest, hstart, workerDigest, hworker, hretry, ?_, hevents⟩
    exact fun expected h actual h' => hdigest expected actual h h'

theorem receiptOf_unsigned_iff (hactor : c.actor = none)
    (h : s.commands.lookup (internalId env c) = some events) :
    receiptOf env s c = .ok receipt ↔
      some events = receipt ∧ Matches env (s.filing (internalId env c)) c := by
  obtain ⟨hcause, hrequest, hid⟩ := unsigned_eq hactor
  rw [hid] at h ⊢
  have hmatches : Matches env (s.filing c.id) c ↔
      ((s.filing c.id).actor = none ∧ (s.filing c.id).externalId = none ∧
        (s.filing c.id).requestDigest = none) ∧
      (∀ limit, c.body = .pruneHistory limit → 0 < limit ∧ limit ≤ 1024) ∧
      ((∀ limit, c.body ≠ .pruneHistory limit) →
        ∃ startDigest workerDigest, inlineStartDigest env c.body = .ok startDigest ∧
          workerRequestDigest env c.body = .ok workerDigest ∧
          (s.filing c.id).workerDigest = workerDigest ∧
          ∀ expected actual, (s.filing c.id).startDigest = some expected →
            startDigest = some actual → expected = actual) := by
    constructor
    · intro m
      refine ⟨⟨m.actor.trans hactor, m.unsigned hactor⟩, ?_, ?_⟩
      · rw [← hrequest]
        exact m.retention
      · rw [← hrequest]
        exact m.digests
    · rintro ⟨hunsigned, hretention, hdigests⟩
      rw [← hrequest] at hretention hdigests
      exact ⟨signedAs_unsigned hactor hunsigned hretention, hdigests⟩
  rw [hmatches, receiptOf, hcause, ok_bind]
  dsimp only
  split
  · next limit hlimit =>
    simp only [bind_eq_ok, refuseIf_eq_ok, pure_eq_ok, h, exists_const, verify_unsigned h, hlimit]
    constructor
    · rintro ⟨hrange, hverify, hreceipt⟩
      refine ⟨hreceipt, hverify, ?_, fun hno => absurd rfl (hno limit)⟩
      intro limit' heq
      obtain rfl := CommandBody.pruneHistory.inj heq
      omega
    · rintro ⟨hreceipt, hverify, hretention, -⟩
      have hrange := hretention limit rfl
      exact ⟨by omega, hverify, hreceipt⟩
  · next hother =>
    rw [bind_eq_ok]
    constructor
    · rintro ⟨prepared, hprepared, hrest⟩
      simp only [prepareCommand, bind_eq_ok, pure_eq_ok] at hprepared
      obtain ⟨⟨⟩, hverify, rfl⟩ := hprepared
      obtain ⟨hreceipt, hdigests⟩ := (receipt_checks h).mp hrest
      exact ⟨hreceipt, (verify_unsigned h).mp hverify,
        fun limit hlimit => absurd hlimit (hother limit), fun _ => hdigests⟩
    · rintro ⟨hreceipt, hverify, -, hdigests⟩
      have hverify : verifyCommandIdentity s c.id none c.id none = .ok () :=
        (verify_unsigned h).mpr hverify
      refine ⟨(c, c.id, none), ?_, (receipt_checks h).mpr ⟨hreceipt, hdigests hother⟩⟩
      rw [prepareCommand, hverify]
      rfl

theorem receiptOf_signed_iff (hactor : c.actor = some principalId)
    (h : s.commands.lookup (internalId env c) = some events) :
    receiptOf env s c = .ok receipt ↔
      some events = receipt ∧ Matches env (s.filing (internalId env c)) c := by
  obtain ⟨hbody, hid⟩ := signed_eq hactor
  rw [hid] at h ⊢
  have hmatches : Matches env (s.filing ⟨env.authenticatedId principalId c.id⟩) c ↔
      (validPrincipal principalId = true ∧ c.request.isInternal = false) ∧
      ∃ digest, authenticatedRequestDigest env c.request = .ok digest ∧
        ((s.filing ⟨env.authenticatedId principalId c.id⟩).actor = some principalId ∧
          (s.filing ⟨env.authenticatedId principalId c.id⟩).externalId = some c.id ∧
          (s.filing ⟨env.authenticatedId principalId c.id⟩).requestDigest = some digest) ∧
        ∃ startDigest workerDigest, inlineStartDigest env c.request = .ok startDigest ∧
          workerRequestDigest env c.request = .ok workerDigest ∧
          (s.filing ⟨env.authenticatedId principalId c.id⟩).workerDigest = workerDigest ∧
          ∀ expected actual,
            (s.filing ⟨env.authenticatedId principalId c.id⟩).startDigest = some expected →
            startDigest = some actual → expected = actual := by
    have hsigned : c.actor ≠ none := by rw [hactor]; nofun
    constructor
    · intro m
      obtain ⟨hvalid, hinternal⟩ := m.caused principalId hactor
      obtain ⟨hexternal, digest, hdigest, hfiled⟩ := m.signed hsigned
      refine ⟨⟨hvalid, hinternal⟩, digest, hdigest, ⟨m.actor.trans hactor, hexternal, hfiled⟩,
        m.digests fun limit hlimit => ?_⟩
      rw [hlimit] at hinternal
      cases hinternal
    · rintro ⟨⟨hvalid, hinternal⟩, digest, hdigest, ⟨hfactor, hexternal, hfiled⟩, hdigests⟩
      refine ⟨⟨?_, hfactor.trans hactor.symm, fun hnone => absurd hnone hsigned,
        fun _ => ⟨hexternal, digest, hdigest, hfiled⟩, fun limit hlimit => ?_⟩, fun _ => hdigests⟩
      · intro principalId' hactor'
        obtain rfl := Option.mem_unique hactor hactor'
        exact ⟨hvalid, hinternal⟩
      · rw [hlimit] at hinternal
        cases hinternal
  rw [hmatches, receiptOf, intoCause_signed hbody]
  constructor
  · intro hreceipt
    simp only [bind_eq_ok, refuseIf_eq_ok, pure_eq_ok] at hreceipt
    obtain ⟨_, ⟨⟨⟩, hcause, rfl⟩, hrest⟩ := hreceipt
    have hcaused : validPrincipal principalId = true ∧ c.request.isInternal = false := by
      simpa [not_or] using hcause
    dsimp only at hrest
    split at hrest
    · next limit hlimit =>
      rw [hlimit] at hcaused
      cases hcaused.2
    · rw [bind_eq_ok] at hrest
      obtain ⟨prepared, hprepared, hrest⟩ := hrest
      simp only [prepareCommand, bind_eq_ok, pure_eq_ok] at hprepared
      obtain ⟨digest, hdigest, ⟨⟩, hverify, rfl⟩ := hprepared
      have hversion := versioned_of_authenticatedRequestDigest hdigest
      obtain ⟨hreceipt, hdigests⟩ := (receipt_checks h).mp hrest
      exact ⟨hreceipt, hcaused, digest, hdigest, (verify_signed h hversion).mp hverify, hdigests⟩
  · rintro ⟨hreceipt, hcaused, digest, hdigest, hfiled, hdigests⟩
    have hcause : ¬ (validPrincipal principalId = false ∨ c.request.isInternal = true) := by
      simp [hcaused.1, hcaused.2]
    have hverify := (verify_signed h (versioned_of_authenticatedRequestDigest hdigest)).mpr hfiled
    simp only [refuseIf, hcause, if_false, ok_bind, pure_bind]
    split
    · next limit hlimit =>
      rw [hlimit] at hcaused
      cases hcaused.2
    · rw [bind_eq_ok]
      refine ⟨({ c with body := c.request, id := ⟨env.authenticatedId principalId c.id⟩ }, c.id,
        some digest), ?_, (receipt_checks h).mpr ⟨hreceipt, hdigests⟩⟩
      simp only [prepareCommand, hdigest, ok_bind, hverify]
      rfl

/-- A command whose id has a receipt is answered with it if what is kept matches, and refused
otherwise. -/
theorem receiptOf_iff (h : s.commands.lookup (internalId env c) = some events) :
    receiptOf env s c = .ok receipt ↔
      some events = receipt ∧ Matches env (s.filing (internalId env c)) c := by
  cases hactor : c.actor with
  | none => exact receiptOf_unsigned_iff hactor h
  | some principalId => exact receiptOf_signed_iff hactor h

theorem refused_iff (h : s.commands.lookup (internalId env c) = some events) :
    (∃ fault, receiptOf env s c = .error fault) ↔
      ¬ Matches env (s.filing (internalId env c)) c := by
  constructor
  · rintro ⟨fault, hfault⟩ m
    have hok := (receiptOf_iff h).mpr ⟨rfl, m⟩
    rw [hfault] at hok
    cases hok
  · intro hno
    cases hreceipt : receiptOf env s c with
    | error fault => exact ⟨fault, rfl⟩
    | ok receipt => exact absurd ((receiptOf_iff h).mp hreceipt).2 hno

/-! ## What a new command leaves -/

/-- What is kept under the id of a command after it was committed as a new one. -/
structure FiledBy (env : Env) (command : Command) (f : Filing) : Prop
    extends SignedAs env command f where
  digests : (∀ limit, command.request ≠ .pruneHistory limit) →
    inlineStartDigest env command.request = .ok f.startDigest ∧
      workerRequestDigest env command.request = .ok f.workerDigest

theorem FiledBy.matches (filed : FiledBy env c f) : Matches env f c where
  toSignedAs := filed.toSignedAs
  digests hother := by
    obtain ⟨hstart, hworker⟩ := filed.digests hother
    refine ⟨_, _, hstart, hworker, rfl, fun expected actual h h' => ?_⟩
    exact Option.mem_unique h h'

theorem filedBy_of_unsigned (wellFiled : WellFiled s) (hactor : c.actor = none)
    (hnew : s.commands.lookup (internalId env c) = none) (h : commitCommand env o s c = .ok out) :
    (out.state.filing (internalId env c)).events = some out.events ∧
      FiledBy env c (out.state.filing (internalId env c)) := by
  obtain ⟨hcause, hrequest, hid⟩ := unsigned_eq hactor
  rw [hid] at hnew ⊢
  have hblank : s.filing c.id = .blank := wellFiled c.id hnew
  rw [commitCommand, hcause, ok_bind] at h
  dsimp only at h
  split at h
  · next limit hlimit =>
    have hrange : 0 < limit ∧ limit ≤ 1024 := by
      simp only [commitPrune, bind_eq_ok, refuseIf_eq_ok] at h
      obtain ⟨_, hrange, -⟩ := h
      omega
    have hfiled : out.state.filing c.id = { Filing.blank with events := some out.events } := by
      rcases commitPrune_filing h with ⟨events, hold, -⟩ | ⟨-, hfiling⟩
      · rw [hnew] at hold
        cases hold
      · rcases (hfiling c.id).1 rfl with hsame | hemptied
        · rw [hsame, hblank]
        · exact hemptied
    rw [hfiled]
    refine ⟨rfl, signedAs_unsigned hactor ⟨rfl, rfl, rfl⟩ ?_, fun hother => ?_⟩
    · intro limit' hlimit'
      rw [hrequest, hlimit] at hlimit'
      obtain rfl := CommandBody.pruneHistory.inj hlimit'
      exact hrange
    · exact absurd (hrequest.trans hlimit) (hother limit)
  · next hother =>
    simp only [bind_eq_ok, prepareCommand, pure_eq_ok] at h
    obtain ⟨_, ⟨⟨⟩, -, rfl⟩, startDigest, hstart, workerDigest, hworker, h⟩ := h
    simp only [hnew, bind_eq_ok] at h
    obtain ⟨applied, happlied, h⟩ := h
    obtain ⟨workerDigest', hworker', hfiling⟩ := commitNew_filing hnew happlied h
    have hfiled := hfiling c.id
    rw [if_pos rfl, hblank] at hfiled
    rw [hfiled]
    refine ⟨rfl, signedAs_unsigned hactor ⟨rfl, rfl, rfl⟩ ?_, fun _ => ?_⟩
    · intro limit hlimit
      exact absurd (hrequest.symm.trans hlimit) (hother limit)
    · rw [hrequest]
      simp only [Filing.record, Filing.blank, Option.or_none]
      exact ⟨hstart, hworker'⟩

theorem filedBy_of_signed (wellFiled : WellFiled s) (hactor : c.actor = some principalId)
    (hnew : s.commands.lookup (internalId env c) = none) (h : commitCommand env o s c = .ok out) :
    (out.state.filing (internalId env c)).events = some out.events ∧
      FiledBy env c (out.state.filing (internalId env c)) := by
  obtain ⟨hbody, hid⟩ := signed_eq hactor
  rw [hid] at hnew ⊢
  have hblank := wellFiled _ hnew
  rw [commitCommand, intoCause_signed hbody] at h
  simp only [bind_eq_ok, refuseIf_eq_ok, pure_eq_ok] at h
  obtain ⟨_, ⟨⟨⟩, hcause, rfl⟩, h⟩ := h
  have hcaused : validPrincipal principalId = true ∧ c.request.isInternal = false := by
    simpa [not_or] using hcause
  have hother : ∀ limit, c.request ≠ .pruneHistory limit := by
    intro limit hlimit
    rw [hlimit] at hcaused
    cases hcaused.2
  dsimp only at h
  split at h
  · next limit hlimit => exact absurd hlimit (hother limit)
  · simp only [bind_eq_ok, prepareCommand, pure_eq_ok] at h
    obtain ⟨_, ⟨digest, hdigest, ⟨⟩, -, rfl⟩, startDigest, hstart, workerDigest, hworker, h⟩ := h
    simp only [hnew, bind_eq_ok] at h
    obtain ⟨applied, happlied, h⟩ := h
    obtain ⟨workerDigest', hworker', hfiling⟩ := commitNew_filing hnew happlied h
    have hfiled := hfiling ⟨env.authenticatedId principalId c.id⟩
    rw [if_pos rfl, hblank] at hfiled
    rw [hfiled]
    refine ⟨rfl, ⟨?_, hactor.symm, fun hnone => ?_, fun _ => ⟨rfl, digest, hdigest, rfl⟩, ?_⟩,
      fun _ => ?_⟩
    · intro principalId' hactor'
      obtain rfl := Option.mem_unique hactor hactor'
      exact hcaused
    · rw [hactor] at hnone
      cases hnone
    · exact fun limit hlimit => absurd hlimit (hother limit)
    · simp only [Filing.record, Filing.blank, Option.or_none]
      exact ⟨hstart, hworker'⟩

theorem filedBy_of_commit (wellFiled : WellFiled s)
    (hnew : s.commands.lookup (internalId env c) = none) (h : commitCommand env o s c = .ok out) :
    (out.state.filing (internalId env c)).events = some out.events ∧
      FiledBy env c (out.state.filing (internalId env c)) := by
  cases hactor : c.actor with
  | none => exact filedBy_of_unsigned wellFiled hactor hnew h
  | some principalId => exact filedBy_of_signed wellFiled hactor hnew h

/-- Whether it is new or answered, a committed command matches what is then kept under its id. -/
theorem matches_of_commit (wellFiled : WellFiled s) (h : commitCommand env o s c = .ok out) :
    (out.state.filing (internalId env c)).events = some out.events ∧
      Matches env (out.state.filing (internalId env c)) c := by
  cases hevents : s.commands.lookup (internalId env c) with
  | none =>
    obtain ⟨hfiled, filed⟩ := filedBy_of_commit wellFiled hevents h
    exact ⟨hfiled, filed.matches⟩
  | some events =>
    have heeds : Heeds s (receiptOf env s c) (commitCommand env o s c) := heeds_receiptOf
    rw [h] at heeds
    cases hreceipt : receiptOf env s c with
    | error fault =>
      rw [hreceipt] at heeds
      cases heeds
    | ok receipt =>
      obtain ⟨rfl, m⟩ := (receiptOf_iff hevents).mp hreceipt
      rw [hreceipt] at heeds
      obtain rfl := Except.ok.inj heeds
      exact ⟨hevents, m⟩

/-! ## Requests -/

/-- What of a request goes into its digests, and under which heading. The run of an inline start
is allocated by the server on each submission and left out. -/
def CommandBody.payload : CommandBody → Payload × String
  | .start _ definition input catalog => (.inlineStart definition input catalog, "start\x00")
  | body => (.body body, "body\x00")

/-- The heading and the canonical text of a request. -/
def requestText (env : Env) (body : CommandBody) : Result (String × String) := do
  let json ← toValue env .invalidArgument body.payload.1
  let text ← canonicalJson env json
  pure (body.payload.2, text)

def CommandBody.isStart : CommandBody → Bool
  | .start .. => true
  | _ => false

theorem requestText_eq_ok {heading text : String} :
    requestText env body = .ok (heading, text) ↔ body.payload.2 = heading ∧
      ∃ json, toValue env .invalidArgument body.payload.1 = .ok json ∧
        canonicalJson env json = .ok text := by
  simp only [requestText, bind_eq_ok, pure_eq_ok, Prod.mk.injEq]
  constructor
  · rintro ⟨json, hjson, text, htext, rfl, rfl⟩
    exact ⟨rfl, json, hjson, htext⟩
  · rintro ⟨rfl, json, hjson, htext⟩
    exact ⟨json, hjson, text, htext, rfl, rfl⟩

theorem payload_heading :
    body.payload.2 = if body.isStart then "start\x00" else "body\x00" := by
  cases body <;> rfl

theorem authenticatedRequestDigest_eq_ok (h : authenticatedRequestDigest env body = .ok digest) :
    ∃ text, requestText env body = .ok (body.payload.2, text) ∧
      digest = "graphrun.authenticated-request/v1:" ++ env.sha256Hex
        ("graphrun.authenticated-request/v1\x00" ++ body.payload.2 ++ text) := by
  have hpayload : authenticatedRequestDigest env body = (do
      let json ← toValue env .invalidArgument body.payload.1
      let text ← canonicalJson env json
      pure ("graphrun.authenticated-request/v1:" ++ env.sha256Hex
        ("graphrun.authenticated-request/v1\x00" ++ body.payload.2 ++ text))) := by
    cases body <;> rfl
  simp only [hpayload, bind_eq_ok, pure_eq_ok] at h
  obtain ⟨json, hjson, text, htext, rfl⟩ := h
  exact ⟨text, requestText_eq_ok.mpr ⟨rfl, json, hjson, htext⟩, rfl⟩

theorem inlineStartDigest_eq_ok {digest : Option String}
    (h : inlineStartDigest env body = .ok digest) :
    if body.isStart then ∃ text, requestText env body = .ok ("start\x00", text) ∧
      digest = some (env.sha256Hex text)
    else digest = none := by
  cases body with
  | start run definition input catalog =>
    simp only [inlineStartDigest, bind_eq_ok, pure_eq_ok] at h
    obtain ⟨json, hjson, text, htext, rfl⟩ := h
    exact ⟨text, requestText_eq_ok.mpr ⟨rfl, json, hjson, htext⟩, rfl⟩
  | _ => exact (pure_eq_ok.mp h).symm

theorem workerRequestDigest_eq_ok {digest : Option String}
    (h : workerRequestDigest env body = .ok digest) :
    if body.isWorker then ∃ text, requestText env body = .ok ("body\x00", text) ∧
      digest = some (env.sha256Hex text)
    else digest = none := by
  unfold workerRequestDigest at h
  split
  · next hworker =>
    have hpayload : body.payload = (.body body, "body\x00") := by
      cases body <;> first | rfl | cases hworker
    simp only [hworker, if_true, bind_eq_ok, pure_eq_ok] at h
    obtain ⟨json, hjson, text, htext, rfl⟩ := h
    refine ⟨text, requestText_eq_ok.mpr ⟨by rw [hpayload], json, ?_, htext⟩, rfl⟩
    rw [hpayload]
    exact hjson
  · next hworker =>
    simp only [hworker, Bool.false_eq_true, if_false, pure_eq_ok] at h
    exact h.symm

/-- The texts that are hashed for a request. -/
def Hashed (env : Env) (body : CommandBody) (text : String) : Prop :=
  ∃ heading request, requestText env body = .ok (heading, request) ∧
    (text = request ∨ text = "graphrun.authenticated-request/v1\x00" ++ heading ++ request)

/-- The texts of two requests have the same hash only where they are the same. -/
def HashedApart (env : Env) (body body' : CommandBody) : Prop :=
  ∀ text text', Hashed env body text → Hashed env body' text' →
    env.sha256Hex text = env.sha256Hex text' → text = text'

theorem HashedApart.requestText_eq {body' : CommandBody} {heading text text' : String}
    (hsha : HashedApart env body body') (htext : requestText env body = .ok (heading, text))
    (htext' : requestText env body' = .ok (heading, text'))
    (h : env.sha256Hex text = env.sha256Hex text') :
    requestText env body' = requestText env body := by
  rw [htext, htext', hsha _ _ ⟨_, _, htext, .inl rfl⟩ ⟨_, _, htext', .inl rfl⟩ h]

/-- Equal digests come from equal requests if the hash does not confuse them. -/
theorem requestText_of_digest {body' : CommandBody} (hsha : HashedApart env body body')
    (h : authenticatedRequestDigest env body = .ok digest)
    (h' : authenticatedRequestDigest env body' = .ok digest) :
    requestText env body = requestText env body' := by
  obtain ⟨text, htext, hdigest⟩ := authenticatedRequestDigest_eq_ok h
  obtain ⟨text', htext', hdigest'⟩ := authenticatedRequestDigest_eq_ok h'
  have hhash := hsha _ _ ⟨_, text, htext, .inr rfl⟩ ⟨_, text', htext', .inr rfl⟩
    (String.append_right_inj _ |>.mp (hdigest.symm.trans hdigest'))
  rw [String.append_assoc, String.append_assoc, String.append_right_inj] at hhash
  have hheading : body.payload.2 = body'.payload.2 := by
    have hchars := congrArg String.toList hhash
    rw [payload_heading, payload_heading, String.toList_append, String.toList_append] at hchars
    rw [payload_heading, payload_heading]
    by_cases hb : body.isStart <;> by_cases hb' : body'.isStart <;> simp [hb, hb'] at hchars ⊢
  rw [htext, htext', hheading]
  rw [hheading, String.append_right_inj] at hhash
  rw [hhash]

/-! ## Exactly once -/

/-- The entries of the log that lead from one state to another leave the receipt of an id in
place. -/
inductive Retaining (env : Env) (id : CommandId) (s : State) : State → Prop
  | refl : Retaining env id s s
  | entry {t : State} (before : Retaining env id s t) (o : Enumeration) (command : Command)
      (kept : ((applyEntry env o t command).1.filing id).events.isSome) :
      Retaining env id s (applyEntry env o t command).1

theorem Retaining.filing (h : Retaining env id s s') (hfiled : (s.filing id).events.isSome) :
    s'.filing id = s.filing id := by
  induction h with
  | refl => rfl
  | entry _ o command kept ih =>
    rw [← ih]
    exact (applyEntry_files command).kept (by rw [ih]; exact hfiled) kept

/-- The commands whose requests leave a digest. -/
def Command.leavesDigest (command : Command) : Prop :=
  command.actor ≠ none ∨ command.request.isWorker = true ∨ command.request.isStart = true

/-- Two commands of the engine itself, of which the second is a retention command, or neither a
start nor a worker's while the first is no worker's. -/
def SlipsThrough (first second : Command) : Prop :=
  first.actor = none ∧ second.actor = none ∧
    ((∃ limit, second.request = .pruneHistory limit ∧ 0 < limit ∧ limit ≤ 1024) ∨
      (first.request.isWorker = false ∧ second.request.isWorker = false ∧
        second.request.isStart = false ∧ ∀ limit, second.request ≠ .pruneHistory limit))

theorem FiledBy.digests_of_leaves (filed : FiledBy env c f) (hleaves : c.leavesDigest)
    (hactor : c.actor = none) : inlineStartDigest env c.request = .ok f.startDigest ∧
      workerRequestDigest env c.request = .ok f.workerDigest := by
  refine filed.digests fun limit hlimit => ?_
  rcases hleaves with hsigned | hworker | hstart
  · exact hsigned hactor
  · rw [hlimit] at hworker
    cases hworker
  · rw [hlimit] at hstart
    cases hstart

theorem Matches.slips (m : Matches env f c') (hsha : HashedApart env c.request c'.request)
    (filed : FiledBy env c f) (hleaves : c.leavesDigest)
    (hdiffers : requestText env c'.request ≠ requestText env c.request) : SlipsThrough c c' := by
  have hsame : c.actor = c'.actor := filed.actor.symm.trans m.actor
  have hactor : c.actor = none := by
    by_contra hsigned
    obtain ⟨-, digest, hdigest, hfiled⟩ := filed.signed hsigned
    obtain ⟨-, digest', hdigest', hfiled'⟩ := m.signed (hsame ▸ hsigned)
    obtain rfl := Option.mem_unique hfiled hfiled'
    exact hdiffers (requestText_of_digest hsha hdigest hdigest').symm
  refine ⟨hactor, hsame ▸ hactor, ?_⟩
  by_cases hprune : ∃ limit, c'.request = .pruneHistory limit
  · obtain ⟨limit, hlimit⟩ := hprune
    exact .inl ⟨limit, hlimit, m.retention limit hlimit⟩
  · have hother : ∀ limit, c'.request ≠ .pruneHistory limit := fun limit h => hprune ⟨limit, h⟩
    obtain ⟨startDigest, workerDigest, hstart', hworker', hretry, hstarts⟩ := m.digests hother
    obtain ⟨hstart, hworker⟩ := filed.digests_of_leaves hleaves hactor
    have hworker := workerRequestDigest_eq_ok hworker
    have hworker' := workerRequestDigest_eq_ok hworker'
    have hstart := inlineStartDigest_eq_ok hstart
    have hstart' := inlineStartDigest_eq_ok hstart'
    -- equal digests in one of the two tables would make the requests equal
    have hfirst : c.request.isWorker = false := by
      refine Bool.eq_false_iff.mpr fun hw => ?_
      rw [if_pos hw] at hworker
      obtain ⟨text, htext, hdigest⟩ := hworker
      split at hworker'
      · obtain ⟨text', htext', hdigest'⟩ := hworker'
        rw [hdigest, hdigest', Option.some.injEq] at hretry
        exact hdiffers (hsha.requestText_eq htext htext' hretry)
      · rw [hdigest, hworker'] at hretry
        cases hretry
    have hsecond : c'.request.isWorker = false := by
      refine Bool.eq_false_iff.mpr fun hw => ?_
      rw [if_neg (by simp [hfirst])] at hworker
      rw [if_pos hw] at hworker'
      obtain ⟨text', -, hdigest'⟩ := hworker'
      rw [hworker, hdigest'] at hretry
      cases hretry
    have hnoStart : c'.request.isStart = false := by
      refine Bool.eq_false_iff.mpr fun hs => ?_
      have hstarted : c.request.isStart = true := by
        rcases hleaves with hsigned | hw | hs'
        · exact absurd hactor hsigned
        · rw [hfirst] at hw
          cases hw
        · exact hs'
      rw [if_pos hstarted] at hstart
      rw [if_pos hs] at hstart'
      obtain ⟨text, htext, hdigest⟩ := hstart
      obtain ⟨text', htext', hdigest'⟩ := hstart'
      exact hdiffers (hsha.requestText_eq htext htext' (hstarts _ _ hdigest hdigest'))
    exact .inr ⟨hfirst, hsecond, hnoStart, hother⟩

/-- What a command filed matches a different request only if that slips through. -/
theorem FiledBy.matches_iff (hsha : HashedApart env c.request c'.request) (filed : FiledBy env c f)
    (hleaves : c.leavesDigest) (hdiffers : requestText env c'.request ≠ requestText env c.request) :
    Matches env f c' ↔ SlipsThrough c c' := by
  refine ⟨fun m => m.slips hsha filed hleaves hdiffers, ?_⟩
  rintro ⟨hactor, hactor', hslips⟩
  refine ⟨signedAs_unsigned hactor' ⟨filed.actor.trans hactor, filed.unsigned hactor⟩ ?_, ?_⟩
  · intro limit hlimit
    rcases hslips with ⟨limit', hlimit', hrange⟩ | ⟨-, -, -, hother⟩
    · obtain rfl := CommandBody.pruneHistory.inj (hlimit.symm.trans hlimit')
      exact hrange
    · exact absurd hlimit (hother limit)
  · intro hother
    rcases hslips with ⟨limit, hlimit, -⟩ | ⟨hfirst, hsecond, hnoStart, -⟩
    · exact absurd hlimit (hother limit)
    · have hworker := workerRequestDigest_eq_ok (filed.digests_of_leaves hleaves hactor).2
      rw [if_neg (by simp [hfirst])] at hworker
      refine ⟨none, none, ?_, ?_, hworker, by simp⟩
      · cases hbody : c'.request with
        | start => rw [hbody] at hnoStart; cases hnoStart
        | _ => rfl
      · simp [workerRequestDigest, hsecond]

theorem Matches.at_time (m : Matches env f c) (time : Nat) :
    Matches env f { c with time } :=
  ⟨⟨m.caused, m.actor, m.unsigned, m.signed, m.retention⟩, m.digests⟩

theorem commitCommand_of_matches (h : (s.filing (internalId env c)).events = some events)
    (m : Matches env (s.filing (internalId env c)) c) :
    commitCommand env o s c = .ok { state := s, events, steps := [] } := by
  have heeds : Heeds s (receiptOf env s c) (commitCommand env o s c) := heeds_receiptOf
  rw [(receiptOf_iff h).mpr ⟨rfl, m⟩] at heeds
  exact heeds

/-- As long as the receipt of a committed command is retained, the command is answered with the
same events at any time and changes nothing; a different request under its id is refused before
anything is written, unless it slips through; and no other principal is answered with it. -/
theorem commit_exactly_once {cluster : String} {log : List Step} {out : Outcome}
    (run : Run env (.empty cluster) log s) (h : commitCommand env o s c = .ok out)
    (later : Retaining env (internalId env c) out.state s') :
    (∀ o' time, commitCommand env o' s' { c with time } =
      .ok { state := s', events := out.events, steps := [] }) ∧
    (s.commands.lookup (internalId env c) = none → c.leavesDigest →
      ∀ c', internalId env c' = internalId env c →
        requestText env c'.request ≠ requestText env c.request →
        HashedApart env c.request c'.request →
        ((∃ fault, receiptOf env s' c' = .error fault ∧
          ∀ o', commitCommand env o' s' c' = .error fault) ↔ ¬ SlipsThrough c c')) ∧
    (∀ c' principalId principalId', c.actor = some principalId → c'.actor = some principalId' →
      principalId ≠ principalId' → c'.id = c.id →
      ∀ events, receiptOf env s' c' = .ok (some events) →
        internalId env c' ≠ internalId env c) := by
  obtain ⟨hevents, m⟩ := matches_of_commit run.wellFiled h
  have hkept := later.filing (by rw [hevents]; rfl)
  rw [← hkept] at hevents m
  refine ⟨?_, ?_, ?_⟩
  · intro o' time
    exact commitCommand_of_matches hevents (m.at_time time)
  · intro hnew hleaves c' hid hdiffers hsha
    obtain ⟨-, filed⟩ := filedBy_of_commit run.wellFiled hnew h
    rw [← hkept] at filed
    have hfiled : s'.commands.lookup (internalId env c') = some out.events := hid ▸ hevents
    have hrefused : (∃ fault, receiptOf env s' c' = .error fault) ↔ ¬ SlipsThrough c c' := by
      rw [refused_iff hfiled, hid]
      exact not_congr (filed.matches_iff hsha hleaves hdiffers)
    rw [← hrefused]
    constructor
    · rintro ⟨fault, hfault, -⟩
      exact ⟨fault, hfault⟩
    · rintro ⟨fault, hfault⟩
      refine ⟨fault, hfault, fun o' => ?_⟩
      have heeds : Heeds s' (receiptOf env s' c') (commitCommand env o' s' c') := heeds_receiptOf
      rw [hfault] at heeds
      exact heeds
  · intro c' principalId principalId' hactor hactor' hne _ events hanswer hid
    have hfiled : s'.commands.lookup (internalId env c') = some out.events := hid ▸ hevents
    have m' := ((receiptOf_iff hfiled).mp hanswer).2
    rw [hid] at m'
    have hsame := m.actor.symm.trans m'.actor
    rw [hactor, hactor'] at hsame
    exact hne (Option.some.inj hsame)

/-- Starts a run. -/
def startOnce : Command where
  id := ⟨1⟩
  body := .start ⟨1⟩ (sampleWorkflow [] "done" [("done", .complete (.literal .null))]) .null
    (sampleCatalog [] .manual)
  time := 1

/-- Asks for something else under the id of the start. -/
def underTheSameId (body : CommandBody) : Command where
  id := ⟨1⟩
  body := body
  time := 2

/-- The progress of the run under the id of its start is answered with the receipt of the
start. -/
theorem reusedId_answered : ∃ out,
    commitCommand sampleEnv .stored (.empty sampleCluster) startOnce = .ok out ∧
    out.events ≠ [] ∧
    requestText sampleEnv (.progress ⟨1⟩) ≠ requestText sampleEnv startOnce.request ∧
    commitCommand sampleEnv .stored out.state (underTheSameId (.progress ⟨1⟩)) =
      .ok { state := out.state, events := out.events, steps := [] } := by
  have hcheck : (commitCommand sampleEnv .stored (.empty sampleCluster) startOnce).toOption.any
      (fun out => out.events.length = 3) = true := by
    decide +kernel
  obtain ⟨out, hout, hlength⟩ := Option.any_eq_true _ _ |>.mp hcheck
  have hcommit := ok_of_toOption hout
  obtain ⟨hevents, filed⟩ :=
    filedBy_of_commit (Run.refl : Run sampleEnv _ [] _).wellFiled rfl hcommit
  have hdiffers : requestText sampleEnv (underTheSameId (.progress ⟨1⟩)).request ≠
      requestText sampleEnv startOnce.request := by
    intro heq
    have hheading := congrArg (fun text => text.toOption.map Prod.fst) heq
    revert hheading
    decide +kernel
  refine ⟨out, hcommit, ?_, hdiffers, ?_⟩
  · rintro hnil
    rw [hnil] at hlength
    cases hlength
  · refine commitCommand_of_matches hevents ((filed.matches_iff (fun _ _ _ _ h => h)
      (.inr (.inr rfl)) hdiffers).mpr ⟨rfl, rfl, .inr ⟨rfl, rfl, rfl, nofun⟩⟩)

/-- The start itself is answered again, and a claim under its id is refused. -/
theorem startOnce_exactly_once : ∃ out,
    commitCommand sampleEnv .stored (.empty sampleCluster) startOnce = .ok out ∧
    commitCommand sampleEnv .backward out.state { startOnce with time := 7 } =
      .ok { state := out.state, events := out.events, steps := [] } ∧
    ∃ fault, commitCommand sampleEnv .stored out.state (underTheSameId (.claim ⟨1⟩ 1)) =
      .error fault := by
  have hcheck : (commitCommand sampleEnv .stored (.empty sampleCluster)
      startOnce).toOption.isSome = true := by
    decide +kernel
  obtain ⟨out, hout⟩ := Option.isSome_iff_exists.mp hcheck
  have hcommit := ok_of_toOption hout
  obtain ⟨hagain, hother, -⟩ := commit_exactly_once Run.refl hcommit .refl
  have hdiffers : requestText sampleEnv (underTheSameId (.claim ⟨1⟩ 1)).request ≠
      requestText sampleEnv startOnce.request := by
    intro heq
    have hheading := congrArg (fun text => text.toOption.map Prod.fst) heq
    revert hheading
    decide +kernel
  have hrefused := (hother rfl (.inr (.inr rfl)) (underTheSameId (.claim ⟨1⟩ 1)) rfl
    hdiffers fun _ _ _ _ h => h).mpr
  obtain ⟨fault, -, hfault⟩ := hrefused (by
    rintro ⟨-, -, ⟨limit, hlimit, -⟩ | ⟨-, hworker, -⟩⟩
    · cases hlimit
    · cases hworker)
  exact ⟨out, hcommit, hagain .backward 7, fault, hfault .stored⟩

end Graphrun
