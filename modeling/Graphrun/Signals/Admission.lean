import Graphrun.Engine.Execution

/-!
# Admission of signals

A signal is admitted by its own run, except for the quota of its address: the entries that are
counted there are those of every run with the same signal and key. Two states that agree on a run
decide a signal to it alike exactly if they do not differ in that quota and the run has one wait
at the address to offer.
-/

namespace Graphrun

open Lib

variable {env : Env} {o o' : Enumeration} {s s' : State} {id : CommandId} {time : Nat}
  {run : RunId} {eventId : EventId} {signal key : String} {payload : Value} {wait : WaitState}

/-- Two states agree on a run and on the receipt of a command. -/
structure AgreeOn (id : CommandId) (run : RunId) (s s' : State) : Prop where
  state : s.runs.lookup run = s'.runs.lookup run
  waits : ∀ w wait, wait.run = run → (s.waits.lookup w = some wait ↔ s'.waits.lookup w = some wait)
  inbox : s.inbox.filter (fun entry => entry.run = some run) =
    s'.inbox.filter (fun entry => entry.run = some run)
  tombstones : ∀ eventId, s.signalTombstones.lookup (tombstoneKey run eventId) =
    s'.signalTombstones.lookup (tombstoneKey run eventId)
  commands : s.commands.lookup id = s'.commands.lookup id
  actors : s.commandActors.lookup id = s'.commandActors.lookup id
  externalIds : s.commandExternalIds.lookup id = s'.commandExternalIds.lookup id
  digests : s.authenticatedRequestDigests.lookup id = s'.authenticatedRequestDigests.lookup id

/-- The command is new, and so is the event to a run that takes it. -/
structure Admissible (s : State) (id : CommandId) (run : RunId) (eventId : EventId)
    (signal : String) (runState : RunState) : Prop where
  identity : verifyCommandIdentity s id none id none = .ok ()
  unseen : s.commands.lookup id = none
  untombed : s.signalTombstones.lookup (tombstoneKey run eventId) = none
  known : s.runs.lookup run = some runState
  new : s.inbox.find? (fun entry => entry.run = some run ∧ entry.eventId = eventId) = none
  active : runState.status.isActive = true
  declared : (mapGet runState.definition.signals signal).isSome = true
  room : s.inbox.countP (fun entry => entry.run = some run ∧ entry.consumed = false) <
    maxBufferedEventsPerRun

/-- The entries of an address, of whichever run, have reached their quota. -/
def addressFull (s : Core) (signal key : String) : Bool :=
  maxEventsPerAddress ≤ s.inbox.countP fun entry =>
    entry.consumed = false ∧ entry.signal = signal ∧ entry.key = key

/-- A wait of the run that a signal to the address may be reserved for. -/
def AwaitedAt (s : Core) (run : RunId) (signal key : String) (wait : WaitState) : Prop :=
  ∃ w, s.waits.lookup w = some wait ∧ wait.run = run ∧ wait.pending = true ∧
    wait.signal = signal ∧ wait.key = key

/-! ## Pending waits -/

theorem awaitedAt_of_pendingWait (h : pendingWait o s.toCore run signal key = some wait) :
    AwaitedAt s.toCore run signal key wait := by
  obtain ⟨w, hw⟩ := Enumeration.mem_values.mp (List.mem_of_find?_eq_some h)
  have hwait := List.find?_some h
  simp only [decide_eq_true_eq] at hwait
  exact ⟨w, hw, hwait⟩

theorem pendingWait_isSome (h : AwaitedAt s.toCore run signal key wait) :
    (pendingWait o s.toCore run signal key).isSome = true := by
  obtain ⟨w, hw, hwait⟩ := h
  exact List.find?_isSome.mpr ⟨wait, Enumeration.mem_values.mpr ⟨w, hw⟩, by simpa using hwait⟩

/-- Any of the waits may be the one that is found. -/
theorem exists_pendingWait (h : AwaitedAt s.toCore run signal key wait) :
    ∃ o, pendingWait o s.toCore run signal key = some wait := by
  obtain ⟨w, hw, hwait⟩ := h
  obtain ⟨o, ho⟩ := Enumeration.exists_head_values hw
  refine ⟨o, ?_⟩
  obtain ⟨rest, hrest⟩ := List.head?_eq_some_iff.mp ho
  rw [pendingWait, hrest, List.find?_cons_of_pos (by simpa using hwait)]

theorem AgreeOn.awaitedAt (agree : AgreeOn id run s s') :
    AwaitedAt s.toCore run signal key wait ↔ AwaitedAt s'.toCore run signal key wait := by
  constructor
  · rintro ⟨w, hw, hrun, hwait⟩
    exact ⟨w, (agree.waits w wait hrun).mp hw, hrun, hwait⟩
  · rintro ⟨w, hw, hrun, hwait⟩
    exact ⟨w, (agree.waits w wait hrun).mpr hw, hrun, hwait⟩

/-! ## Admission -/

theorem AgreeOn.find_entry (agree : AgreeOn id run s s') :
    s.inbox.find? (fun entry => entry.run = some run ∧ entry.eventId = eventId) =
      s'.inbox.find? (fun entry => entry.run = some run ∧ entry.eventId = eventId) := by
  have hfind (inbox : List InboxEntry) :
      inbox.find? (fun entry => entry.run = some run ∧ entry.eventId = eventId) =
        (inbox.filter (fun entry => entry.run = some run)).find? (·.eventId = eventId) := by
    rw [List.find?_filter]
    simp
  rw [hfind, hfind, agree.inbox]

theorem AgreeOn.countP_entries (agree : AgreeOn id run s s') :
    s.inbox.countP (fun entry => entry.run = some run ∧ entry.consumed = false) =
      s'.inbox.countP (fun entry => entry.run = some run ∧ entry.consumed = false) := by
  have hcount (inbox : List InboxEntry) :
      inbox.countP (fun entry => entry.run = some run ∧ entry.consumed = false) =
        (inbox.filter (fun entry => entry.run = some run)).countP (·.consumed = false) := by
    rw [List.countP_filter]
    simp [and_comm]
  rw [hcount, hcount, agree.inbox]

theorem AgreeOn.identity (agree : AgreeOn id run s s') :
    verifyCommandIdentity s id none id none = verifyCommandIdentity s' id none id none := by
  simp only [verifyCommandIdentity, agree.commands, agree.actors, agree.externalIds, agree.digests]

theorem AgreeOn.admissible {runState : RunState} (agree : AgreeOn id run s s')
    (h : Admissible s id run eventId signal runState) :
    Admissible s' id run eventId signal runState where
  identity := agree.identity ▸ h.identity
  unseen := agree.commands ▸ h.unseen
  untombed := agree.tombstones eventId ▸ h.untombed
  known := agree.state ▸ h.known
  new := agree.find_entry ▸ h.new
  active := h.active
  declared := h.declared
  room := agree.countP_entries ▸ h.room

/-- What is decided on an admissible signal. -/
theorem decide_admissible {runState : RunState} (h : Admissible s id run eventId signal runState) :
    Graphrun.decide env o s { id, body := .signal run eventId signal key payload, time } =
      if addressFull s.toCore signal key then
        .error (refusal .resourceExhausted "inbox address quota exceeded")
      else .ok (single id (.eventAccepted run eventId signal key payload runState.nextSequence time
        (satAdd time (satMul runState.policy.unreservedEventDays (24 * 60 * 60 * 1000))) ::
          match pendingWait o s.toCore run signal key with
          | some wait => [.eventReserved wait.id eventId]
          | none => [])) := by
  have hactive : ¬ runState.status.isActive = false := by simp [h.active]
  have hdeclared : ¬ (mapGet runState.definition.signals signal).isNone = true := by
    rw [Option.isNone_iff_eq_none]
    exact Option.isSome_iff_ne_none.mp h.declared
  have hroom := Nat.not_le.mpr h.room
  simp only [Graphrun.decide, h.identity, ok_bind, h.unseen, decideBody, decideSignal, h.untombed,
    h.known, okOr, h.new, ge_iff_le]
  rw [(refuseIf_eq_ok (u := ())).mpr hactive, (refuseIf_eq_ok (u := ())).mpr hdeclared,
    (refuseIf_eq_ok (u := ())).mpr hroom]
  simp only [ok_bind, refuseIf, addressFull, decide_eq_true_eq]
  split <;> rfl

/-- A signal that is not admissible is decided by the run alone. -/
theorem decide_not_admissible (agree : AgreeOn id run s s')
    (h : ∀ runState, ¬ Admissible s id run eventId signal runState) :
    Graphrun.decide env o s { id, body := .signal run eventId signal key payload, time } =
      Graphrun.decide env o' s' { id, body := .signal run eventId signal key payload, time } := by
  simp only [Graphrun.decide, ← agree.identity, ← agree.commands]
  cases hidentity : verifyCommandIdentity s id none id none with
  | error => rfl
  | ok =>
    simp only [ok_bind]
    cases hunseen : s.commands.lookup id with
    | some => rfl
    | none =>
      simp only [decideBody]
      congr 1
      simp only [decideSignal, ← agree.tombstones, ← agree.state, ← agree.find_entry,
        ← agree.countP_entries]
      cases htomb : s.signalTombstones.lookup (tombstoneKey run eventId) with
      | some => rfl
      | none =>
        cases hrun : s.runs.lookup run with
        | none => rfl
        | some runState =>
          simp only [okOr, ok_bind]
          cases hnew : s.inbox.find?
              (fun entry => entry.run = some run ∧ entry.eventId = eventId) with
          | some => rfl
          | none =>
            by_cases hactive : runState.status.isActive = false
            · simp only [hactive, refuseIf]
              rfl
            by_cases hdeclared : (mapGet runState.definition.signals signal).isNone = true
            · simp only [hactive, hdeclared, refuseIf]
              rfl
            by_cases hroom : s.inbox.countP (fun entry => entry.run = some run ∧
                entry.consumed = false) < maxBufferedEventsPerRun
            · exact absurd ⟨hidentity, hunseen, htomb, hrun, hnew, by simpa using hactive,
                by simpa [Option.isSome_iff_ne_none] using hdeclared, hroom⟩ (h runState)
            · simp only [hactive, hdeclared, Nat.not_lt.mp hroom, refuseIf]
              rfl

/-- Two states that agree on a run decide a signal to it alike, in whatever order they walk over
the waits, exactly if an admissible signal finds the quota of its address reached in both or in
neither, and then the run has no two waits at the address. -/
theorem signal_decided_alike (agree : AgreeOn id run s s') :
    (∀ o o', Graphrun.decide env o s
        { id, body := .signal run eventId signal key payload, time } =
      Graphrun.decide env o' s' { id, body := .signal run eventId signal key payload, time }) ↔
    ((∃ runState, Admissible s id run eventId signal runState) →
      addressFull s.toCore signal key = addressFull s'.toCore signal key ∧
      (addressFull s.toCore signal key = false → ∀ wait wait',
        AwaitedAt s.toCore run signal key wait → AwaitedAt s.toCore run signal key wait' →
          wait.id = wait'.id)) := by
  constructor
  · rintro hsame ⟨runState, h⟩
    have hsame' := fun o o' => (decide_admissible h).symm.trans
      ((hsame o o').trans (decide_admissible (agree.admissible h)))
    have hfull : addressFull s.toCore signal key = addressFull s'.toCore signal key := by
      have heq := hsame' .stored .stored
      cases hs : addressFull s.toCore signal key <;>
        cases hs' : addressFull s'.toCore signal key <;> simp [hs, hs'] at heq ⊢
    refine ⟨hfull, fun hfree wait wait' hwait hwait' => ?_⟩
    obtain ⟨o, ho⟩ := exists_pendingWait hwait
    obtain ⟨o', ho'⟩ := exists_pendingWait (agree.awaitedAt.mp hwait')
    have heq := hsame' o o'
    simpa [hfree, ← hfull, ho, ho', single] using heq
  · intro hcond o o'
    by_cases hadm : ∃ runState, Admissible s id run eventId signal runState
    · obtain ⟨hfull, hlone⟩ := hcond hadm
      obtain ⟨runState, h⟩ := hadm
      rw [decide_admissible h, decide_admissible (agree.admissible h), ← hfull]
      cases hfree : addressFull s.toCore signal key with
      | true => rfl
      | false =>
        cases hwait : pendingWait o s.toCore run signal key with
        | some wait =>
          have hawaited := awaitedAt_of_pendingWait hwait
          obtain ⟨wait', hwait'⟩ := Option.isSome_iff_exists.mp
            (pendingWait_isSome (o := o') (agree.awaitedAt.mp hawaited))
          have hid := hlone hfree wait wait' hawaited
            (agree.awaitedAt.mpr (awaitedAt_of_pendingWait hwait'))
          simp [hwait', hid]
        | none =>
          cases hwait' : pendingWait o' s'.toCore run signal key with
          | none => rfl
          | some wait' =>
            have hsome := pendingWait_isSome (o := o)
              (agree.awaitedAt.mpr (awaitedAt_of_pendingWait hwait'))
            rw [hwait] at hsome
            cases hsome
    · exact decide_not_admissible agree fun runState h => hadm ⟨runState, h⟩

/-! ## A crowded address -/

/-- Two runs of a workflow that takes a signal. -/
def listeners : List Command :=
  let listener := sampleWorkflow ["go"] "done" [("done", .complete (.literal .null))]
  [{ id := ⟨1⟩, body := .start ⟨1⟩ listener .null (sampleCatalog [] .retrySafe), time := 1 },
    { id := ⟨2⟩, body := .start ⟨2⟩ listener .null (sampleCatalog [] .retrySafe), time := 2 }]

def listening : State := (applyEntries sampleEnv .stored (.empty sampleCluster) listeners).1

/-- The second run has got signals. -/
def crowded (count : Nat) : State :=
  { listening with
    inbox := (List.range count).map fun n => {
      eventId := ⟨n⟩, signal := "go", key := "k", payload := .null, sequence := n
      reservedWait := none, consumed := false, acceptedMs := 3, expiresMs := 0, run := some ⟨2⟩ } }

theorem listening_admissible : listening.inbox = [] ∧ listening.waits.keys = [] ∧
    ∃ runState, Admissible listening ⟨3⟩ ⟨1⟩ ⟨7⟩ "go" runState := by
  have hcheck : (listening.inbox.isEmpty && listening.waits.keys.isEmpty &&
      (listening.commands.lookup ⟨3⟩).isNone && (listening.commandActors.lookup ⟨3⟩).isNone &&
      (listening.commandExternalIds.lookup ⟨3⟩).isNone &&
      (listening.authenticatedRequestDigests.lookup ⟨3⟩).isNone &&
      (listening.signalTombstones.lookup (tombstoneKey ⟨1⟩ ⟨7⟩)).isNone &&
      (listening.runs.lookup ⟨1⟩).any fun runState => runState.status.isActive &&
        (mapGet runState.definition.signals "go").isSome) = true := by
    decide +kernel
  simp only [Bool.and_eq_true, List.isEmpty_iff, Option.isNone_iff_eq_none, Option.any_eq_true]
    at hcheck
  obtain ⟨⟨⟨⟨⟨⟨⟨hinbox, hwaits⟩, hunseen⟩, hactor⟩, hexternal⟩, hdigest⟩, htomb⟩, runState, hrun,
    hactive, hdeclared⟩ := hcheck
  refine ⟨hinbox, hwaits, runState, ?_, hunseen, htomb, hrun, by rw [hinbox]; rfl, hactive,
    hdeclared, by rw [hinbox]; simp [maxBufferedEventsPerRun]⟩
  simp [verifyCommandIdentity, hunseen, hactor, hexternal, hdigest]

theorem agree_crowded (count : Nat) : AgreeOn ⟨3⟩ ⟨1⟩ listening (crowded count) where
  state := rfl
  waits _ _ _ := Iff.rfl
  inbox := by
    rw [listening_admissible.1]
    simp [crowded]
  tombstones _ := rfl
  commands := rfl
  actors := rfl
  externalIds := rfl
  digests := rfl

/-- A signal that the first run takes is refused when the address is full of signals to the
second. -/
theorem crowded_refuses : AgreeOn ⟨3⟩ ⟨1⟩ listening (crowded 100) ∧
    (∃ decision, Graphrun.decide sampleEnv .stored listening
      { id := ⟨3⟩, body := .signal ⟨1⟩ ⟨7⟩ "go" "k" .null, time := 3 } = .ok decision) ∧
    Graphrun.decide sampleEnv .stored (crowded 100)
      { id := ⟨3⟩, body := .signal ⟨1⟩ ⟨7⟩ "go" "k" .null, time := 3 } =
        .error (refusal .resourceExhausted "inbox address quota exceeded") := by
  obtain ⟨hinbox, -, runState, h⟩ := listening_admissible
  have hfree : addressFull listening.toCore "go" "k" = false := by
    simp [addressFull, hinbox, maxEventsPerAddress]
  have hfull : addressFull (crowded 100).toCore "go" "k" = true := by
    simp only [addressFull, crowded, List.countP_map, maxEventsPerAddress, decide_eq_true_eq]
    rw [List.countP_eq_length.mpr (by simp)]
    simp
  refine ⟨agree_crowded 100, ?_, ?_⟩
  · rw [decide_admissible h, hfree]
    exact ⟨_, rfl⟩
  · rw [decide_admissible ((agree_crowded 100).admissible h), hfull]
    rfl

/-- One signal to the second run changes nothing for the first. -/
theorem crowded_once_alike : AgreeOn ⟨3⟩ ⟨1⟩ listening (crowded 1) ∧
    ∀ o o', Graphrun.decide sampleEnv o listening
        { id := ⟨3⟩, body := .signal ⟨1⟩ ⟨7⟩ "go" "k" .null, time := 3 } =
      Graphrun.decide sampleEnv o' (crowded 1)
        { id := ⟨3⟩, body := .signal ⟨1⟩ ⟨7⟩ "go" "k" .null, time := 3 } := by
  obtain ⟨hinbox, hwaits, -⟩ := listening_admissible
  refine ⟨agree_crowded 1, (signal_decided_alike (agree_crowded 1)).mpr fun _ => ⟨?_, ?_⟩⟩
  · simp [addressFull, hinbox, crowded, maxEventsPerAddress, List.range_succ]
  · rintro - wait - ⟨w, hw, -⟩
    have hmem : w ∈ listening.waits.keys :=
      AList.mem_keys.mp (AList.lookup_isSome.mp (by rw [hw]; rfl))
    rw [hwaits] at hmem
    cases hmem

end Graphrun
