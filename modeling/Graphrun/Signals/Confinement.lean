import Graphrun.Engine.Execution
import Graphrun.Engine.Kinds
import Graphrun.Signals.Delivery

/-!
# Signals are confined to their run

Every move is deliverable in a state whose mail is in order, provided that the entries it may
find for its waits are those of its run. Hence, in a run of the engine whose steps all find
their own entries, what satisfies a wait is an event that was accepted for the run of the wait,
the entry that is marked consumed is the one that was chosen, an accepted event satisfies one
wait, and a wait is satisfied once.
-/

namespace Graphrun

open Lib

variable {env : Env} {o : Enumeration} {s : Core} {time : Nat} {ids : IdGen}
  {past : List DomainEvent} {wait : WaitState} {entry : InboxEntry} {body : CommandBody}
  {run : RunId} {w : WaitId} {act : ActivationState} {es : List DomainEvent}

/-! ## The condition -/

/-- A wait that progress of a run may settle or open. -/
inductive Offered (s : Core) (run : RunId) (time : Nat) : WaitState → Prop
  | pending {w : WaitId} {wait : WaitState} (hwait : s.waits.lookup w = some wait)
      (hrun : wait.run = run) (hpending : wait.pending = true) : Offered s run time wait
  | opening {act : ActivationState} {signal key timeoutMs consumeFrom next onTimeout}
      {text : String} {w : WaitId} {runState : RunState}
      (hadvancing : Advancing s run act
        (.waitSignal signal key timeoutMs consumeFrom next onTimeout))
      (hkey : WaitsFor s act key text) (hrun : s.runs.lookup act.run = some runState) :
      Offered s run time (openedWait runState act w signal text
        (timeoutMs.map (satAdd time ·)) consumeFrom)

/-- The commands that settle waits of a run. -/
def CommandBody.settles (run : RunId) (body : CommandBody) : Prop :=
  body = .progress run ∨ ∃ w, body = .resolveTimer run w

/-- Whatever the engine may find for a wait of the run is an event of the run. -/
def OwnEntries (step : Step) : Prop :=
  ∀ run, step.body.settles run → ∀ wait, Offered step.before run step.time wait →
    ∀ entry ∈ step.before.inbox, isEligible wait step.time entry = true → entry.run = some run

/-! ## Moves -/

theorem reservedOrEligible_eq_some (h : reservedOrEligible s wait time = some entry) :
    entry ∈ s.inbox ∧ entry.consumed = false ∧
      (entry.reservedWait = some wait.id ∨ isEligible wait time entry = true) := by
  unfold reservedOrEligible at h
  split at h
  · next found hfound =>
    obtain rfl := Option.some.inj h
    have hreserved := List.find?_some hfound
    simp only [isReservedFor, decide_eq_true_eq] at hreserved
    exact ⟨List.mem_of_find?_eq_some hfound, hreserved.1, .inl hreserved.2⟩
  · have heligible := List.find?_some h
    refine ⟨List.mem_of_find?_eq_some h, ?_, .inr heligible⟩
    simp only [isEligible, decide_eq_true_eq] at heligible
    exact heligible.1

/-- A settled wait takes an entry of its run. -/
theorem holds_of_settling (mail : Mail past s)
    (own : ∀ entry ∈ s.inbox, isEligible wait time entry = true → entry.run = some run)
    (settling : Settling s body run w wait act)
    (hentry : reservedOrEligible s wait time = some entry) :
    Holds s run entry.eventId entry.payload := by
  obtain ⟨hmem, hconsumed, hfound⟩ := reservedOrEligible_eq_some hentry
  refine ⟨entry, hmem, ?_, rfl, rfl, hconsumed⟩
  rcases hfound with hreserved | heligible
  · rw [mail.keyed.waits w wait settling.hwait] at hreserved
    obtain ⟨wait', hwait', hrun⟩ := mail.reserved entry hmem hconsumed w hreserved
    obtain rfl := Option.mem_unique settling.hwait hwait'
    rw [hrun, settling.hrun]
  · exact own entry hmem heligible

/-- A wait that opens takes an entry of its run. -/
theorem holds_of_opening {runState : RunState} {signal key : String} {deadlineMs : Option Nat}
    {consumeFrom : ConsumeFrom} (mail : Mail past s) (hnew : s.waits.lookup w = none)
    (own : ∀ entry ∈ s.inbox, isEligible (openedWait runState act w signal key deadlineMs
      consumeFrom) time entry = true → entry.run = some run)
    (hentry : reservedOrEligible s (openedWait runState act w signal key deadlineMs consumeFrom)
      time = some entry) :
    Holds s run entry.eventId entry.payload := by
  obtain ⟨hmem, hconsumed, hfound⟩ := reservedOrEligible_eq_some hentry
  refine ⟨entry, hmem, ?_, rfl, rfl, hconsumed⟩
  rcases hfound with hreserved | heligible
  · -- nothing can be reserved to a wait that does not exist yet
    obtain ⟨wait', hwait', -⟩ := mail.reserved entry hmem hconsumed w hreserved
    rw [hnew] at hwait'
    cases hwait'
  · exact own entry hmem heligible

/-- The kinds of events that the mail depends on. -/
@[simp] def mailKinds : List EventKind :=
  [.waitSatisfied, .eventAccepted, .eventReserved, .waitOpened]

theorem guarded_deliverable_of_kinds (h : ∀ e ∈ es, e.kind ∉ mailKinds) :
    Guarded Deliverable s es := by
  refine Guarded.of_all fun e he _ => ?_
  have hkind := h e he
  cases e <;> first
    | trivial
    | (refine absurd ?_ hkind; simp)

theorem NodeMove.deliverable {node : Node} (mail : Mail past s)
    (fresh : ∀ e ∈ es, ∀ w ∈ e.opensWait?, s.waits.lookup w = none)
    (own : ∀ wait, Offered s run time wait →
      ∀ entry ∈ s.inbox, isEligible wait time entry = true → entry.run = some run)
    (advancing : Advancing s run act node) (move : NodeMove o s run time act node es) :
    Guarded Deliverable s es := by
  rcases move.advances_or_waits with hkinds | waiting
  · exact guarded_deliverable_of_kinds (not_mem_of_kinds hkinds (by decide))
  cases waiting with
  | opened hown => exact ⟨fresh _ List.mem_cons_self _ rfl, trivial⟩
  | taken hkey hrun hentry hfollowed =>
    have hnew := fresh _ List.mem_cons_self _ rfl
    have hholds := holds_of_opening mail hnew (own _ (.opening advancing hkey hrun)) hentry
    rw [← advancing.hrun] at hholds
    refine ⟨hnew, ⟨?_, ?_⟩, trivial, guarded_deliverable_of_kinds
      (not_mem_of_kinds (hfollowed.kinds (List.mem_singleton_self _)) (by decide))⟩
    · obtain ⟨entry, hmem, hfacts⟩ := hholds
      exact ⟨entry, hmem, hfacts⟩
    · rw [evolve_waits]
      exact ⟨_, AList.lookup_insert _, rfl⟩

theorem Settling.settles (h : Settling s body run w wait act) : body.settles run := by
  rcases h.hbody with h | h
  · exact .inl h
  · exact .inr ⟨w, h⟩

theorem Move.deliverable (mail : Mail past s)
    (fresh : ∀ e ∈ es, ∀ w ∈ e.opensWait?, s.waits.lookup w = none)
    (own : ∀ run, body.settles run → ∀ wait, Offered s run time wait →
      ∀ entry ∈ s.inbox, isEligible wait time entry = true → entry.run = some run)
    (move : Move env o s time body es) : Guarded Deliverable s es := by
  rcases move.letters_or_plain with hkinds | letters
  · exact guarded_deliverable_of_kinds (not_mem_of_kinds hkinds (by decide))
  cases letters with
  | signalled hrun hactive hnew hreserved =>
    have hnone : ∀ entry ∈ s.inbox, entry.identity ≠ _ := fun entry hentry heq =>
      List.find?_eq_none.mp hnew entry hentry (names_eq_true.mpr heq)
    refine ⟨hnone, ?_⟩
    rcases hreserved with ⟨-, rfl⟩ | ⟨wait, hwait, rfl⟩
    · trivial
    · refine ⟨?_, trivial⟩
      obtain ⟨k, hk⟩ := Enumeration.mem_values.mp (List.mem_of_find?_eq_some hwait)
      refine ⟨wait, ?_⟩
      rw [evolve_waits, mail.keyed.waits k wait hk]
      exact hk
  | satisfied hsettling hentry hfollowed =>
    have hown := own _ hsettling.settles _
      (.pending hsettling.hwait hsettling.hrun hsettling.hpending)
    exact ⟨⟨holds_of_settling mail hown hsettling hentry, _, hsettling.hwait,
      hsettling.hpending⟩, trivial, guarded_deliverable_of_kinds
        (not_mem_of_kinds (hfollowed.kinds (List.mem_singleton_self _)) (by decide))⟩
  | advanced hadvancing hmove => exact hmove.deliverable mail fresh (own _ (.inl rfl)) hadvancing

/-! ## The theorem -/

/-- A wait is satisfied by an event that was accepted for its run and that no wait has taken
since, and the entry of that event is the one that is marked. -/
structure Confined (past : List DomainEvent) (s : Core) (run : RunId) (wait : WaitId)
    (eventId : EventId) (payload : Value) : Prop where
  accepted : ∃ e ∈ past, e.acceptsPayload run eventId payload = true
  marked : ∃ l₁ entry l₂, s.inbox = l₁ ++ entry :: l₂ ∧ entry.run = some run ∧
    entry.eventId = eventId ∧ entry.payload = payload ∧ entry.consumed = false ∧
    (evolve s (.waitSatisfied run wait eventId payload)).inbox = l₁ ++ entry.consumedBy wait :: l₂
  eventOnce : Since (DomainEvent.takes run eventId) (DomainEvent.accepts run eventId) past
  waitOnce : Since (DomainEvent.satisfies wait) (DomainEvent.opensWait wait) past

theorem Mail.confined {eventId : EventId} {payload : Value} (mail : Mail past s)
    (deliverable : Deliverable s (.waitSatisfied run w eventId payload)) :
    Confined past s run w eventId payload := by
  obtain ⟨holds, wait, hwait, hpending⟩ := deliverable
  obtain ⟨l₁, entry, l₂, hsplit, hrun, hid, hpayload, hconsumed, -, hupdate⟩ := mail.place holds
  have hentry : entry ∈ s.inbox := by simp [hsplit]
  refine ⟨?_, ⟨l₁, entry, l₂, hsplit, hrun, hid, hpayload, hconsumed, ?_⟩, ?_,
    mail.pending w wait hwait hpending⟩
  · obtain ⟨run', hrun', e, he, haccepts⟩ := mail.accepted entry hentry
    obtain rfl := Option.mem_unique hrun hrun'
    exact ⟨e, he, hid ▸ hpayload ▸ haccepts⟩
  · rw [evolve_inbox]
    exact hupdate _
  · exact hid ▸ mail.unused entry hentry hconsumed run hrun

/-- In every run whose steps find only entries of their own run, signals are confined. -/
theorem waitSatisfied_confined {clusterId : String} {log : List Step} {final : State} {core : Core}
    {run : RunId} {w : WaitId} {eventId : EventId} {payload : Value}
    (hrun : Run env (.empty clusterId) log final)
    (hsteps : ∀ step ∈ log, Fresh step ∧ OwnEntries step)
    (happlied : Applied log past core (.waitSatisfied run w eventId payload)) :
    Confined past core run w eventId payload := by
  have hempty := keyed_empty clusterId
  have hmail : Mail [] (State.empty clusterId).toCore := mail_nil hempty rfl
  obtain ⟨-, hevents⟩ := (hrun.trace hempty).eventInvariant (G := Deliverable)
    (fun _ _ _ change mail => mail.quiet change) (fun _ _ _ hd mail => mail.evolve hd)
    (fun _ step decided condition mail => by
      obtain ⟨fresh, own⟩ := condition
      obtain ⟨o, move⟩ := decided.move fresh.unreplayed
      exact move.deliverable mail fresh.waits own)
    hmail hsteps
  obtain ⟨mail, deliverable⟩ := hevents _ _ _ happlied
  exact mail.confined deliverable

/-! ## Two runs of one workflow -/

/-- Waits for the signal `go` under the key `k`, also for one that came earlier. -/
def signalWorkflow : Definition :=
  sampleWorkflow ["go"] "wait" [("done", .complete (.literal .null)),
    ("wait", .waitSignal "go" (.literal (.string "k")) none .buffered "done" none)]

/-- Two runs, a signal to the second, and progress of the first. -/
def crossedSignal : List Command := [
  { id := ⟨1⟩, body := .start ⟨1⟩ signalWorkflow .null ⟨[], [], []⟩, time := 1 },
  { id := ⟨2⟩, body := .start ⟨2⟩ signalWorkflow .null ⟨[], [], []⟩, time := 2 },
  { id := ⟨3⟩, body := .signal ⟨2⟩ ⟨7⟩ "go" "k" .null, time := 3 },
  { id := ⟨4⟩, body := .progress ⟨1⟩, time := 4 }]

/-- The first run takes the event of the second. -/
theorem crossedSignal_taken : ∃ log final past core,
    Run sampleEnv (.empty sampleCluster) log final ∧ (∀ step ∈ log, Fresh step) ∧
    Applied log past core (.waitSatisfied ⟨1⟩ ⟨4⟩ ⟨7⟩ .null) ∧
    ∀ e ∈ past, e.acceptsPayload ⟨1⟩ ⟨7⟩ .null = false := by
  obtain ⟨log, final, hrun, hcheck⟩ := exists_sampleRun crossedSignal
    (fun log _ => log.all (Fresh ·) && (appliedAt log 3 1).any fun at_ =>
      at_.2.2 = .waitSatisfied ⟨1⟩ ⟨4⟩ ⟨7⟩ .null && at_.1.all fun e =>
      !e.acceptsPayload ⟨1⟩ ⟨7⟩ .null)
    (by decide +kernel)
  simp only [Bool.and_eq_true, Option.any_eq_true, List.all_eq_true, decide_eq_true_eq,
    Bool.not_eq_true'] at hcheck
  obtain ⟨hfresh, ⟨past, core, e⟩, happlied, rfl, hpast⟩ := hcheck
  exact ⟨_, _, past, core, hrun, hfresh, applied_of_appliedAt happlied, hpast⟩

/-- Two runs, each with a signal of its own: the first takes its own when its wait opens, the second
while it waits. -/
def ownSignals : List Command := crossedSignal.take 2 ++ [
  { id := ⟨3⟩, body := .signal ⟨1⟩ ⟨7⟩ "go" "k" .null, time := 3 },
  { id := ⟨4⟩, body := .progress ⟨1⟩, time := 4 },
  { id := ⟨5⟩, body := .progress ⟨2⟩, time := 5 },
  { id := ⟨6⟩, body := .signal ⟨2⟩ ⟨8⟩ "go" "k" (.bool true), time := 6 },
  { id := ⟨7⟩, body := .progress ⟨2⟩, time := 7 }]

/-- A command that settles waits of one run at most. -/
def CommandBody.settlesOnly (run : RunId) : CommandBody → Bool
  | .progress r | .resolveTimer r _ => r = run
  | _ => true

/-- Entries that are left are those of the run whose waits are settled. -/
def Step.findsOwn (step : Step) : Bool :=
  step.before.inbox.all fun entry => entry.consumed || entry.run.any step.body.settlesOnly

theorem ownEntries_of_findsOwn {step : Step} (h : step.findsOwn = true) : OwnEntries step := by
  intro r hsettles wait _ entry hentry heligible
  simp only [isEligible, decide_eq_true_eq] at heligible
  have hown := List.all_eq_true.mp h entry hentry
  simp only [heligible.1, Bool.false_or, Option.any_eq_true] at hown
  obtain ⟨run, hrun, honly⟩ := hown
  have hr : r = run := by
    rcases hsettles with h | ⟨w, h⟩ <;> simpa [h, CommandBody.settlesOnly] using honly
  rw [hr, hrun]

theorem ownSignals_confined : ∃ log final past core,
    Run sampleEnv (.empty sampleCluster) log final ∧
    (∀ step ∈ log, Fresh step ∧ OwnEntries step) ∧
    Applied log past core (.waitSatisfied ⟨2⟩ ⟨5⟩ ⟨8⟩ (.bool true)) ∧
    Confined past core ⟨2⟩ ⟨5⟩ ⟨8⟩ (.bool true) := by
  obtain ⟨log, final, hrun, hcheck⟩ := exists_sampleRun ownSignals
    (fun log _ => log.all (fun step => Fresh step && step.findsOwn) &&
      (appliedAt log 7 0).any fun at_ => at_.2.2 = .waitSatisfied ⟨2⟩ ⟨5⟩ ⟨8⟩ (.bool true))
    (by decide +kernel)
  simp only [Bool.and_eq_true, Option.any_eq_true, List.all_eq_true, decide_eq_true_eq] at hcheck
  obtain ⟨hsteps, ⟨past, core, e⟩, happlied, rfl⟩ := hcheck
  have hconditions : ∀ step ∈ _, Fresh step ∧ OwnEntries step := fun step hstep =>
    ⟨(hsteps step hstep).1, ownEntries_of_findsOwn (hsteps step hstep).2⟩
  have happlied := applied_of_appliedAt happlied
  exact ⟨_, _, past, core, hrun, hconditions, happlied,
    waitSatisfied_confined hrun hconditions happlied⟩

end Graphrun
