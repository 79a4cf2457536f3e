import Graphrun.Model.Claims

/-!
# Signals and waits

Admission of external events, the choice of an inbox entry for a wait, and the three places
that satisfy a wait: a due wait found by progress, a resolved timer, and a wait that finds
its event buffered when it opens (`decide_signal`, `reserved_or_eligible`, `decide_timer`,
`due_wait`, `open_wait`).
-/

namespace Graphrun

open Lib

/-- Whether an unreserved inbox entry may satisfy a wait. -/
def isEligible (wait : WaitState) (now : Nat) (entry : InboxEntry) : Bool :=
  entry.consumed = false ∧ entry.reservedWait = none ∧ entry.signal = wait.signal ∧
    entry.key = wait.key ∧
    (wait.consumeFrom = .buffered ∨ entry.sequence ≥ wait.openedSequence) ∧
    (wait.deadlineMs = none ∨ entry.acceptedMs = 0 ∨
      wait.deadlineMs.any fun deadline => entry.acceptedMs ≤ deadline) ∧
    (entry.expiresMs = 0 ∨ now < entry.expiresMs)

/-- An unconsumed entry held for a wait. -/
def isReservedFor (wait : WaitId) (entry : InboxEntry) : Bool :=
  entry.consumed = false ∧ entry.reservedWait = some wait

def reservedOrEligible (s : Core) (wait : WaitState) (now : Nat) : Option InboxEntry :=
  match s.inbox.find? (isReservedFor wait.id) with
  | some entry => some entry
  | none => s.inbox.find? (isEligible wait now)

def pendingWait (o : Enumeration) (s : Core) (run : RunId) (signal key : String) :
    Option WaitState :=
  (o.values s.waits).find? fun wait =>
    wait.run = run ∧ wait.pending ∧ wait.signal = signal ∧ wait.key = key

/-- The key of a signal's tombstone. -/
def tombstoneKey (run : RunId) (eventId : EventId) : String := s!"{run.toHex}:{eventId.toHex}"

def decideSignal (env : Env) (o : Enumeration) (s : State) (run : RunId) (eventId : EventId)
    (signal key : String) (payload : Value) (time : Nat) : Result (List DomainEvent) :=
  match s.signalTombstones.lookup (tombstoneKey run eventId) with
  | some existing =>
    if existing.signal = signal ∧ existing.key = key then do
      let captured ← captureIn env existing.payload.clusterId "graphrun.signal-payload/v1"
        (.value payload)
      refuseIf (existing.payload ≠ captured) (refusal .alreadyExists "event id payload conflict")
      pure []
    else throw (refusal .alreadyExists "event id payload conflict")
  | none => do
    let runState ← okOr (s.runs.lookup run) (invalid "unknown run")
    match s.inbox.find? fun entry => entry.run = some run ∧ entry.eventId = eventId with
    | some existing => do
      refuseIf (¬ (existing.signal = signal ∧ existing.key = key ∧ existing.payload = payload))
        (refusal .alreadyExists "event id payload conflict")
      pure []
    | none => do
      refuseIf (runState.status.isActive = false) (invalid "run is terminal")
      refuseIf ((mapGet runState.definition.signals signal).isNone)
        (invalid s!"unknown signal {signal}")
      let buffered := s.inbox.countP fun entry => entry.run = some run ∧ entry.consumed = false
      refuseIf (buffered ≥ maxBufferedEventsPerRun)
        (refusal .resourceExhausted "inbox quota exceeded")
      let sameAddr := s.inbox.countP fun entry =>
        entry.consumed = false ∧ entry.signal = signal ∧ entry.key = key
      refuseIf (sameAddr ≥ maxEventsPerAddress)
        (refusal .resourceExhausted "inbox address quota exceeded")
      let expiresMs := satAdd time
        (satMul runState.policy.unreservedEventDays (24 * 60 * 60 * 1000))
      let accepted := DomainEvent.eventAccepted run eventId signal key payload
        runState.nextSequence time expiresMs
      let reserved := match pendingWait o s.toCore run signal key with
        | some wait => [DomainEvent.eventReserved wait.id eventId]
        | none => []
      pure (accepted :: reserved)

/-- A wait takes an inbox entry: the wait is satisfied, the payload becomes the node's output,
and the workflow follows the node's edge. -/
def satisfyWait (env : Env) (s : Core) (run : RunId) (wait : WaitId) (act : ActivationState)
    (entry : InboxEntry) (ids : IdGen) : Result Emission := do
  let (followed, ids) ← followNext env s act.scope act.node ids
  pure ([.waitSatisfied run wait entry.eventId entry.payload,
    .nodeOutputRecorded run act.scope act.node entry.payload] ++ followed, ids)

def decideTimer (env : Env) (s : Core) (run : RunId) (wait : WaitId) (time : Nat) (ids : IdGen) :
    Result Emission := do
  let waitState ← okOr (s.waits.lookup wait) (invalid "unknown wait")
  refuseIf (waitState.run ≠ run ∨ waitState.pending = false) (invalid "wait is not pending")
  let deadline ← okOr waitState.deadlineMs (invalid "wait has no deadline")
  refuseIf (time < deadline) (invalid "wait deadline has not been reached")
  match reservedOrEligible s waitState time with
  | some entry => do
    let act ← okOr (s.activations.lookup waitState.activation) .panicked
    satisfyWait env s run wait act entry ids
  | none => do
    let act ← okOr (s.activations.lookup waitState.activation) .panicked
    let (followed, ids) ← followTimeout env s act ids
    pure (.waitTimedOut run wait :: followed, ids)

/-- Whether progress may settle a wait now. -/
def isDue (s : Core) (now : Nat) (wait : WaitState) : Bool :=
  wait.pending ∧ (wait.deadlineMs.any (fun deadline => now ≥ deadline) ∨
    (reservedOrEligible s wait now).isSome)

/-- The due wait of a run with the earliest deadline. -/
def firstDue (o : Enumeration) (s : Core) (run : RunId) (now : Nat) : Option WaitState :=
  let due := (o.values s.waits).filter fun wait => wait.run = run ∧ isDue s now wait
  (due.insertionSort fun a b => a.deadlineMs.getD 0 ≤ b.deadlineMs.getD 0).head?

/-- The target of a timer node's edge. -/
def Node.timerNext? : Node → Option NodeKey
  | .delay _ next | .waitUntil _ next => some next
  | _ => none

def timerSignal : String := "__timer"

def dueWait (env : Env) (o : Enumeration) (s : Core) (run : RunId) (time : Nat) (ids : IdGen) :
    Result (Option Emission) :=
  match firstDue o s run time with
  | none => pure none
  | some wait =>
    match reservedOrEligible s wait time with
    | some entry => do
      let act ← okOr (s.activations.lookup wait.activation) .panicked
      some <$> satisfyWait env s run wait.id act entry ids
    | none => do
      let act ← okOr (s.activations.lookup wait.activation) .panicked
      if wait.signal = timerSignal then do
        let region ← okOr (regionForScope s act.scope) .panicked
        let next ← okOr ((region.node? act.node).bind Node.timerNext?)
          (invalid "timer wait is not a delay or wait_until")
        let (followed, ids) ← openNode env s act.scope next ids
        pure (some (.waitTimedOut run wait.id :: followed, ids))
      else some <$> decideTimer env s run wait.id time ids

/-- The wait that a `wait_signal` node opens. -/
def openedWait (runState : RunState) (act : ActivationState) (wait : WaitId)
    (signal key : String) (deadlineMs : Option Nat) (consumeFrom : ConsumeFrom) : WaitState where
  id := wait
  run := act.run
  activation := act.id
  signal := signal
  key := key
  deadlineMs := deadlineMs
  consumeFrom := consumeFrom
  openedSequence := runState.nextSequence
  pending := true

def openWait (env : Env) (o : Enumeration) (s : Core) (act : ActivationState) (signal : String)
    (key : Binding) (timeoutMs : Option Nat) (consumeFrom : ConsumeFrom) (time : Nat)
    (ids : IdGen) : Result Emission := do
  let scope ← okOr (s.scopes.lookup act.scope) .panicked
  let ctx ← evalCtx s scope
  let keyVal ← evalBinding ctx key
  let keyStr ← okOr keyVal.asStr (invalid "wait key must be a string")
  if (o.values s.waits).any fun existing =>
      existing.run = act.run ∧ existing.pending ∧ existing.signal = signal ∧
        existing.key = keyStr then do
    let failed ← failScope o s act.scope {
      code := "WaitKeyConflict"
      message := s!"conflicting active wait address {signal}/{keyStr}" }
    pure (failed, ids)
  else do
    let (wait, ids) := ids.wait env
    let deadline := timeoutMs.map fun ms => satAdd time ms
    let opened := DomainEvent.waitOpened act.run wait act.id signal keyStr deadline consumeFrom
    let runState ← okOr (s.runs.lookup act.run) .panicked
    match reservedOrEligible s
        (openedWait runState act wait signal keyStr deadline consumeFrom) time with
    | none => pure ([opened], ids)
    | some entry => do
      let (satisfied, ids) ← satisfyWait env s act.run wait act entry ids
      pure (opened :: satisfied, ids)

end Graphrun
