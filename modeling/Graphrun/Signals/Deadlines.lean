import Graphrun.Engine.Kinds
import Graphrun.Signals.Confinement

/-!
# Deadlines of waits

The engine decides in two places which event a wait may take. A signal is reserved for a pending
wait at its address whenever it comes, and an unreserved entry is held against the deadline, the
sequence window and its expiry. Where signals come before the deadlines of the waits they are
reserved for, and nothing is accepted at the very instant of a deadline (`OnTime`), what satisfies
a wait was accepted before its deadline, and after the wait opened if it takes later events only.

`Dated` ties every entry to the event that accepted it and to the waits that had been opened by
then.
-/

namespace Graphrun

open Lib

variable {env : Env} {o : Enumeration} {s s' : Core} {e : DomainEvent} {time : Nat} {ids : IdGen}
  {es past : List DomainEvent} {entry : InboxEntry} {wait : WaitState} {w : WaitId} {run : RunId}
  {body : CommandBody}

/-- The event that accepted an entry for a run. -/
def InboxEntry.acceptance (run : RunId) (entry : InboxEntry) : DomainEvent :=
  .eventAccepted run entry.eventId entry.signal entry.key entry.payload entry.sequence
    entry.acceptedMs entry.expiresMs

/-- The entry was accepted before the deadline of the wait, and in its window. -/
structure InTime (wait : WaitState) (entry : InboxEntry) : Prop where
  early : ∀ deadline, wait.deadlineMs = some deadline → entry.acceptedMs < deadline
  window : wait.consumeFrom = .afterActivation → wait.openedSequence ≤ entry.sequence

/-- How the entries go back to their acceptance. -/
structure Dated (past : List DomainEvent) (s : Core) : Prop where
  below : ∀ entry ∈ s.inbox, ∀ run, entry.run = some run →
    ∃ r, s.runs.lookup run = some r ∧ entry.sequence < r.nextSequence
  recorded : ∀ entry ∈ s.inbox, ∀ run, entry.run = some run → ∃ before after,
    past = before ++ entry.acceptance run :: after ∧
    (∀ e ∈ after, e.accepts run entry.eventId = false) ∧
    ∀ w wait, s.waits.lookup w = some wait → wait.run = run →
      wait.openedSequence ≤ entry.sequence → ∀ e ∈ after, e.opensWait w = false
  reserved : ∀ entry ∈ s.inbox, entry.consumed = false → ∀ w, entry.reservedWait = some w →
    ∃ wait, s.waits.lookup w = some wait ∧ InTime wait entry
  opened : ∀ w wait, s.waits.lookup w = some wait →
    ∃ r, s.runs.lookup wait.run = some r ∧ wait.openedSequence ≤ r.nextSequence

/-- What an event needs in order to keep entries dated. -/
def Timely (s : Core) : DomainEvent → Prop
  | .waitSatisfied run w eventId _ => ∃ wait, s.waits.lookup w = some wait ∧ wait.run = run ∧
    ∃ entry ∈ s.inbox, entry.run = some run ∧ entry.eventId = eventId ∧ entry.consumed = false ∧
      (entry.reservedWait = some w ∨ InTime wait entry)
  | .eventReserved w eventId => ∃ wait, s.waits.lookup w = some wait ∧
    ∀ entry ∈ s.inbox, entry.identity = (some wait.run, eventId) → InTime wait entry
  | .eventAccepted run _ _ _ _ sequence _ _ => ∃ r, s.runs.lookup run = some r ∧
    r.nextSequence = sequence
  | .waitOpened run _ _ _ _ _ _ => ∃ r, s.runs.lookup run = some r
  | _ => True

theorem dated_empty (clusterId : String) : Dated [] (State.empty clusterId).toCore where
  below _ h := by cases h
  recorded _ h := by cases h
  reserved _ h := by cases h
  opened _ _ h := by cases h

/-! ## One event -/

/-- An entry after an event is an entry before it, up to its marks, or the event accepts it. -/
theorem entry_after_cases (h : entry ∈ (evolve s e).inbox) :
    (∃ old ∈ s.inbox, ∃ held consumed,
      entry = { old with reservedWait := held, consumed } ∧ (consumed = false →
        (held = old.reservedWait ∧ old.consumed = false) ∨ held = none ∨
          ∃ w, e = .eventReserved w old.eventId ∧ held = some w ∧
            old.run = (s.waits.lookup w).map (·.run))) ∨
      ∃ run, entry.run = some run ∧ e = entry.acceptance run ∧ entry.reservedWait = none := by
  have hsame : entry ∈ s.inbox → ∃ old ∈ s.inbox, ∃ held consumed,
      entry = { old with reservedWait := held, consumed } ∧ (consumed = false →
        (held = old.reservedWait ∧ old.consumed = false) ∨ held = none ∨
          ∃ w, e = .eventReserved w old.eventId ∧ held = some w ∧
            old.run = (s.waits.lookup w).map (·.run)) :=
    fun hmem => ⟨entry, hmem, entry.reservedWait, entry.consumed, rfl, fun hfree =>
      .inl ⟨rfl, hfree⟩⟩
  rw [evolve_inbox] at h
  split at h
  · rcases mem_updateFirst h with hmem | ⟨old, hmem, -, rfl⟩
    · exact .inl (hsame hmem)
    · exact .inl ⟨old, hmem, _, _, rfl, fun hfree => by cases hfree⟩
  · rcases List.mem_append.mp h with hmem | hnew
    · exact .inl (hsame hmem)
    · obtain rfl := List.mem_singleton.mp hnew
      exact .inr ⟨_, rfl, rfl, rfl⟩
  · exact .inl (hsame (List.mem_of_mem_filter h))
  · rcases mem_updateFirst h with hmem | ⟨old, hmem, hnames, rfl⟩
    · exact .inl (hsame hmem)
    · obtain ⟨hrun, rfl⟩ : _ ∧ _ := by simpa [InboxEntry.names] using hnames
      by_cases hconsumed : old.consumed = false
      · exact .inl ⟨old, hmem, _, old.consumed, rfl, fun _ => .inr (.inr ⟨_, rfl, rfl, hrun⟩)⟩
      · exact .inl ⟨old, hmem, _, old.consumed, rfl, fun hfree => absurd hfree hconsumed⟩
  · rcases mem_updateFirst h with hmem | ⟨old, hmem, -, rfl⟩
    · exact .inl (hsame hmem)
    · exact .inl ⟨old, hmem, _, old.consumed, rfl, fun _ => .inr (.inl rfl)⟩
  · exact .inl (hsame h)

/-- A wait after an event is one from before, open or closed, or the event opens it. -/
theorem wait_dates (h : (evolve s e).waits.lookup w = some wait) :
    (∃ old pending, s.waits.lookup w = some old ∧ wait = { old with pending }) ∨
      (∃ a signal key deadlineMs consumeFrom,
        e = .waitOpened wait.run w a signal key deadlineMs consumeFrom ∧
        wait.openedSequence = ((s.runs.lookup wait.run).map (·.nextSequence)).getD 0) := by
  rw [evolve_waits] at h
  split at h
  · rw [Table.lookup_insert_eq] at h
    split at h
    · next hw =>
      subst hw
      obtain rfl := Option.some.inj h
      exact .inr ⟨_, _, _, _, _, rfl, rfl⟩
    · exact .inl ⟨wait, wait.pending, h, rfl⟩
  iterate 3
    rw [Table.lookup_modify] at h
    split at h
    · obtain ⟨old, hold, rfl⟩ := Option.map_eq_some_iff.mp h
      exact .inl ⟨old, false, hold, rfl⟩
    · exact .inl ⟨wait, wait.pending, h, rfl⟩
  exact .inl ⟨wait, wait.pending, h, rfl⟩

/-- A wait that is there stays, open or closed. -/
theorem wait_stays (deliverable : Deliverable s e) (h : s.waits.lookup w = some wait) :
    ∃ pending, (evolve s e).waits.lookup w = some { wait with pending } := by
  rw [evolve_waits]
  split
  · rw [Table.lookup_insert_eq, if_neg]
    · exact ⟨wait.pending, h⟩
    · rintro rfl
      rw [show s.waits.lookup w = none from deliverable] at h
      cases h
  iterate 3
    rw [Table.lookup_modify, h]
    split
    · exact ⟨false, rfl⟩
    · exact ⟨wait.pending, rfl⟩
  exact ⟨wait.pending, h⟩

/-- Sequence numbers of a run do not go back. -/
theorem nextSequence_evolve {r : RunState} (timely : Timely s e) (h : s.runs.lookup run = some r) :
    ∃ r', (evolve s e).runs.lookup run = some r' ∧ r.nextSequence ≤ r'.nextSequence := by
  refine ⟨r.after s e run, by rw [lookup_runs_evolve, h]; rfl, ?_⟩
  cases e with
  | eventAccepted run' eventId signal key payload sequence acceptedMs expiresMs =>
    simp only [RunState.after]
    split
    · next heq =>
      subst heq
      obtain ⟨r', hr', hsequence⟩ := timely
      obtain rfl := Option.mem_unique h hr'
      exact hsequence ▸ Nat.le_succ _
    · exact le_rfl
  | _ =>
    simp only [RunState.after]
    first
      | exact le_rfl
      | (split <;> exact le_rfl)

theorem Dated.below_evolve (dated : Dated past s) (timely : Timely s e) :
    ∀ entry ∈ (evolve s e).inbox, ∀ run, entry.run = some run →
      ∃ r, (evolve s e).runs.lookup run = some r ∧ entry.sequence < r.nextSequence := by
  intro entry hentry run hrun
  rcases entry_after_cases hentry with ⟨old, hold, held, consumed, rfl, -⟩ | ⟨run', hrun', rfl, -⟩
  · obtain ⟨r, hr, hlt⟩ := dated.below old hold run hrun
    obtain ⟨r', hr', hle⟩ := nextSequence_evolve timely hr
    exact ⟨r', hr', hlt.trans_le hle⟩
  · obtain rfl := Option.mem_unique hrun hrun'
    obtain ⟨r, hr, -⟩ := timely
    refine ⟨r.after s (entry.acceptance run) run, by rw [lookup_runs_evolve, hr]; rfl, ?_⟩
    simp [RunState.after, InboxEntry.acceptance]

theorem Dated.evolve (dated : Dated past s) (deliverable : Deliverable s e) (timely : Timely s e) :
    Dated (past ++ [e]) (Graphrun.evolve s e) where
  below := dated.below_evolve timely
  recorded entry hentry run hrun := by
    rcases entry_after_cases hentry with ⟨old, hold, held, consumed, rfl, -⟩ |
      ⟨run', hrun', rfl, -⟩
    · obtain ⟨before, after, rfl, haccepts, hopens⟩ := dated.recorded old hold run hrun
      refine ⟨before, after ++ [e], by simp [InboxEntry.acceptance], ?_, ?_⟩
      · refine List.forall_mem_append.mpr ⟨haccepts, List.forall_mem_singleton.mpr ?_⟩
        cases e with
        | eventAccepted run' eventId' =>
          -- An event of the run under the same id is not accepted while its entry is there.
          have hne := deliverable old hold
          simp only [DomainEvent.accepts, decide_eq_false_iff_not]
          rintro ⟨rfl, rfl⟩
          exact hne (by simpa [InboxEntry.identity] using hrun)
        | _ => rfl
      · intro w wait hwait hown hle
        rcases wait_dates hwait with ⟨oldWait, pending, holdWait, rfl⟩ |
          ⟨_, _, _, _, _, -, hsequence⟩
        · refine List.forall_mem_append.mpr ⟨hopens w oldWait holdWait hown hle,
            List.forall_mem_singleton.mpr ?_⟩
          cases e with
          | waitOpened run' w' =>
            simp only [DomainEvent.opensWait, decide_eq_false_iff_not]
            rintro rfl
            rw [show s.waits.lookup w' = none from deliverable] at holdWait
            cases holdWait
          | _ => rfl
        · -- A wait that opens now has a later window.
          obtain ⟨r, hr, hlt⟩ := dated.below old hold run hrun
          rw [hown, hr] at hsequence
          dsimp only [Option.map_some, Option.getD_some] at hsequence
          have hle : wait.openedSequence ≤ old.sequence := hle
          omega
    · obtain rfl := Option.mem_unique hrun hrun'
      exact ⟨past, [], rfl, List.forall_mem_nil _, fun _ _ _ _ _ => List.forall_mem_nil _⟩
  reserved entry hentry hfree w hw := by
    rcases entry_after_cases hentry with ⟨old, hold, held, consumed, rfl, hheld⟩ |
      ⟨run', hrun', rfl, hnone⟩
    · rcases hheld hfree with ⟨rfl, hfree'⟩ | rfl | ⟨w', rfl, rfl, hrun⟩
      · obtain ⟨wait, hwait, hintime⟩ := dated.reserved old hold hfree' w hw
        obtain ⟨pending, hwait'⟩ := wait_stays deliverable hwait
        exact ⟨_, hwait', hintime.early, hintime.window⟩
      · cases hw
      · obtain rfl := Option.some.inj hw
        obtain ⟨wait, hwait, hintime⟩ := timely
        have hintime := hintime old hold (by simp [InboxEntry.identity, hrun, hwait])
        obtain ⟨pending, hwait'⟩ := wait_stays deliverable hwait
        exact ⟨_, hwait', hintime.early, hintime.window⟩
    · rw [hnone] at hw
      cases hw
  opened w wait hwait := by
    rcases wait_dates hwait with ⟨old, pending, hold, rfl⟩ | ⟨_, _, _, _, _, rfl, hsequence⟩
    · obtain ⟨r, hr, hle⟩ := dated.opened w old hold
      obtain ⟨r', hr', hle'⟩ := nextSequence_evolve timely hr
      exact ⟨r', hr', hle.trans hle'⟩
    · have hknown := timely
      obtain ⟨r, hr⟩ := hknown
      obtain ⟨r', hr', hle⟩ := nextSequence_evolve timely hr
      rw [hr] at hsequence
      exact ⟨r', hr', hsequence ▸ hle⟩

theorem Dated.quiet (change : Quiet s s') (mail : Mail past s) (dated : Dated past s) :
    Dated past s' := by
  cases change with
  | @admitted run definition catalog published hnew =>
    have hkept {run' : RunId} {r : RunState} (h : s.runs.lookup run' = some r) :
        (s.runs.insert run (newRun run definition catalog published)).lookup run' = some r := by
      rw [Table.lookup_insert_eq, if_neg, h]
      rintro rfl
      rw [hnew] at h
      cases h
    refine ⟨fun entry hentry run' hrun => ?_, dated.recorded, dated.reserved,
      fun w wait hwait => ?_⟩
    · obtain ⟨r, hr, hlt⟩ := dated.below entry hentry run' hrun
      exact ⟨r, hkept hr, hlt⟩
    · obtain ⟨r, hr, hle⟩ := dated.opened w wait hwait
      exact ⟨r, hkept hr, hle⟩
  | @stamped run time =>
    have hkept {run' : RunId} {r : RunState} (h : s.runs.lookup run' = some r) :
        ∃ r', (s.modifyRun run fun r => { r with terminalMs := time }).runs.lookup run' = some r' ∧
          r'.nextSequence = r.nextSequence := by
      simp only [Core.modifyRun, Table.lookup_modify, h]
      split
      · exact ⟨_, rfl, rfl⟩
      · exact ⟨r, rfl, rfl⟩
    refine ⟨fun entry hentry run' hrun => ?_, dated.recorded, dated.reserved,
      fun w wait hwait => ?_⟩
    · obtain ⟨r, hr, hlt⟩ := dated.below entry hentry run' hrun
      obtain ⟨r', hr', hsame⟩ := hkept hr
      exact ⟨r', hr', hsame ▸ hlt⟩
    · obtain ⟨r, hr, hle⟩ := dated.opened w wait hwait
      obtain ⟨r', hr', hsame⟩ := hkept hr
      exact ⟨r', hr', hsame ▸ hle⟩
  | @dropped key =>
    have hkept {entry : InboxEntry} (h : entry ∈ (dropInbox s key).inbox) : entry ∈ s.inbox :=
      List.mem_of_mem_filter h
    exact ⟨fun entry hentry => dated.below entry (hkept hentry),
      fun entry hentry => dated.recorded entry (hkept hentry),
      fun entry hentry => dated.reserved entry (hkept hentry), dated.opened⟩
  | @retired run runState hrun hended =>
    have hkept {entry : InboxEntry} (h : entry ∈ (dropRun s run).inbox) :
        entry ∈ s.inbox ∧ entry.run ≠ some run := by
      obtain ⟨hmem, hne⟩ := List.mem_filter.mp h
      exact ⟨hmem, by simpa using hne⟩
    have hwaits {w : WaitId} {wait : WaitState}
        (h : (dropRun s run).waits.lookup w = some wait) :
        s.waits.lookup w = some wait ∧ wait.run ≠ run := by
      rw [dropRun, Table.lookup_retain] at h
      obtain ⟨hwait, hne⟩ := Option.filter_eq_some_iff.mp h
      exact ⟨hwait, by simpa using hne⟩
    have hruns {run' : RunId} {r : RunState} (h : s.runs.lookup run' = some r)
        (hother : run' ≠ run) : (dropRun s run).runs.lookup run' = some r := by
      rw [dropRun, Table.lookup_erase_eq, if_neg hother, h]
    refine ⟨fun entry hentry run' hown => ?_, fun entry hentry run' hown => ?_,
      fun entry hentry hfree w hw => ?_, fun w wait hwait => ?_⟩
    · obtain ⟨hmem, hne⟩ := hkept hentry
      obtain ⟨r, hr, hlt⟩ := dated.below entry hmem run' hown
      refine ⟨r, hruns hr ?_, hlt⟩
      rintro rfl
      exact hne hown
    · obtain ⟨before, after, hpast, haccepts, hopens⟩ :=
        dated.recorded entry (hkept hentry).1 run' hown
      exact ⟨before, after, hpast, haccepts, fun w wait hwait => hopens w wait (hwaits hwait).1⟩
    · obtain ⟨hmem, hne⟩ := hkept hentry
      obtain ⟨wait, hwait, hintime⟩ := dated.reserved entry hmem hfree w hw
      obtain ⟨wait', hwait', hown⟩ := mail.reserved entry hmem hfree w hw
      obtain rfl := Option.mem_unique hwait hwait'
      refine ⟨wait, ?_, hintime⟩
      have hother : wait.run ≠ run := by
        rintro rfl
        exact hne hown
      simp [dropRun, Table.lookup_retain, hwait, hother]
    · obtain ⟨hold, hother⟩ := hwaits hwait
      obtain ⟨r, hr, hle⟩ := dated.opened w wait hold
      exact ⟨r, hruns hr hother, hle⟩

/-! ## The condition -/

/-- No signal comes at or after the deadline of a pending wait at its address, and no entry that
the engine may find for a wait was accepted at the instant of its deadline. -/
structure OnTime (step : Step) : Prop where
  signals : ∀ run eventId signal key payload, step.body = .signal run eventId signal key payload →
    ∀ w wait, step.before.waits.lookup w = some wait → wait.run = run → wait.pending = true →
      wait.signal = signal → wait.key = key →
        ∀ deadline, wait.deadlineMs = some deadline → step.time < deadline
  entries : ∀ run, step.body.settles run → ∀ wait, Offered step.before run step.time wait →
    ∀ entry ∈ step.before.inbox, isEligible wait step.time entry = true →
      wait.deadlineMs ≠ some entry.acceptedMs

theorem inTime_of_isEligible (h : isEligible wait time entry = true)
    (hne : wait.deadlineMs ≠ some entry.acceptedMs) : InTime wait entry := by
  simp only [isEligible, decide_eq_true_eq] at h
  obtain ⟨-, -, -, -, hwindow, hdeadline, -⟩ := h
  refine ⟨fun deadline hsome => ?_, fun hafter => ?_⟩
  · rw [hsome] at hdeadline hne
    have hle : entry.acceptedMs = 0 ∨ entry.acceptedMs ≤ deadline := by simpa using hdeadline
    have hne : deadline ≠ entry.acceptedMs := by simpa using hne
    omega
  · rw [hafter] at hwindow
    exact hwindow.resolve_left (by simp)

/-! ## Moves -/

/-- The kinds of events that concern the dates of entries. -/
@[simp] def datedKinds : List EventKind :=
  [.waitSatisfied, .eventReserved, .eventAccepted, .waitOpened]

theorem timely_of_kind (h : e.kind ∉ datedKinds) : Timely s e := by
  cases e <;> first
    | trivial
    | (refine absurd ?_ h; simp)

theorem guarded_timely_of_kinds (h : ∀ e ∈ es, e.kind ∉ datedKinds) : Guarded Timely s es :=
  Guarded.of_all fun e he _ => timely_of_kind (h e he)

/-- A pending wait that is settled takes what is reserved for it or in time. -/
theorem timely_of_settling {act : ActivationState} (mail : Mail past s)
    (own : ∀ entry ∈ s.inbox, isEligible wait time entry = true → entry.run = some run)
    (hne : ∀ entry ∈ s.inbox, isEligible wait time entry = true →
      wait.deadlineMs ≠ some entry.acceptedMs) (settling : Settling s body run w wait act)
    (hentry : reservedOrEligible s wait time = some entry) :
    Timely s (.waitSatisfied run w entry.eventId entry.payload) := by
  obtain ⟨hmem, hconsumed, hfound⟩ := reservedOrEligible_eq_some hentry
  have hid := mail.keyed.waits w wait settling.hwait
  refine ⟨wait, settling.hwait, settling.hrun, entry, hmem, ?_, rfl, hconsumed, ?_⟩
  · rcases hfound with hreserved | heligible
    · obtain ⟨wait', hwait', hrun⟩ := mail.reserved entry hmem hconsumed _ hreserved
      rw [hid, settling.hwait] at hwait'
      obtain rfl := Option.some.inj hwait'
      rw [hrun, settling.hrun]
    · exact own entry hmem heligible
  · rcases hfound with hreserved | heligible
    · exact .inl (hid ▸ hreserved)
    · exact .inr (inTime_of_isEligible heligible (hne entry hmem heligible))

theorem NodeMove.timely {act : ActivationState} {node : Node} (mail : Mail past s)
    (fresh : ∀ e ∈ es, ∀ w ∈ e.opensWait?, s.waits.lookup w = none)
    (own : ∀ wait, Offered s run time wait →
      ∀ entry ∈ s.inbox, isEligible wait time entry = true → entry.run = some run)
    (hne : ∀ wait, Offered s run time wait →
      ∀ entry ∈ s.inbox, isEligible wait time entry = true →
        wait.deadlineMs ≠ some entry.acceptedMs)
    (advancing : Advancing s run act node) (move : NodeMove o s run time act node es) :
    Guarded Timely s es := by
  rcases move.advances_or_waits with hkinds | waiting
  · exact guarded_timely_of_kinds (not_mem_of_kinds hkinds (by decide))
  cases waiting with
  | opened hown =>
    obtain ⟨r, hr, -⟩ := advancing.hactive
    refine ⟨⟨r, ?_⟩, trivial⟩
    rcases hown with rfl | rfl
    · exact hr
    · rw [advancing.hrun]
      exact hr
  | @taken signal _ timeoutMs consumeFrom _ _ text w runState entry _ hkey hrun hentry hfollowed =>
    obtain ⟨hmem, hconsumed, hfound⟩ := reservedOrEligible_eq_some hentry
    -- Nothing is reserved for a wait that opens now.
    have heligible := hfound.resolve_left fun hreserved => by
      obtain ⟨wait', hwait', -⟩ := mail.reserved entry hmem hconsumed w hreserved
      rw [fresh _ List.mem_cons_self w rfl] at hwait'
      cases hwait'
    have hoffered : Offered s run time (openedWait runState act w signal text
        (timeoutMs.map (satAdd time ·)) consumeFrom) := .opening advancing hkey hrun
    have hintime := inTime_of_isEligible heligible (hne _ hoffered entry hmem heligible)
    refine ⟨⟨runState, hrun⟩, ⟨openedWait runState act w signal text (timeoutMs.map (satAdd time ·))
      consumeFrom, ?_, rfl, entry, ?_, ?_, rfl, hconsumed, .inr hintime⟩, trivial,
      guarded_timely_of_kinds
        (not_mem_of_kinds (hfollowed.kinds (List.mem_singleton_self _)) (by decide))⟩
    · rw [evolve_waits]
      simp only [hrun, AList.lookup_insert]
      rfl
    · rw [evolve_inbox]
      exact hmem
    · rw [own _ hoffered entry hmem heligible, advancing.hrun]

theorem Move.timely (mail : Mail past s)
    (fresh : ∀ e ∈ es, ∀ w ∈ e.opensWait?, s.waits.lookup w = none)
    (own : ∀ run, body.settles run → ∀ wait, Offered s run time wait →
      ∀ entry ∈ s.inbox, isEligible wait time entry = true → entry.run = some run)
    (signals : ∀ run eventId signal key payload, body = .signal run eventId signal key payload →
      ∀ w wait, s.waits.lookup w = some wait → wait.run = run → wait.pending = true →
        wait.signal = signal → wait.key = key →
          ∀ deadline, wait.deadlineMs = some deadline → time < deadline)
    (hne : ∀ run, body.settles run → ∀ wait, Offered s run time wait →
      ∀ entry ∈ s.inbox, isEligible wait time entry = true →
        wait.deadlineMs ≠ some entry.acceptedMs) (dated : Dated past s)
    (move : Move env o s time body es) : Guarded Timely s es := by
  rcases move.letters_or_plain with hkinds | letters
  · exact guarded_timely_of_kinds (not_mem_of_kinds hkinds (by decide))
  cases letters with
  | signalled hrun hactive hnew hreserved =>
    refine ⟨⟨_, hrun, rfl⟩, ?_⟩
    rcases hreserved with ⟨-, rfl⟩ | ⟨wait, hwait, rfl⟩
    · trivial
    · obtain ⟨w, hw⟩ := Enumeration.mem_values.mp (List.mem_of_find?_eq_some hwait)
      have haddress := List.find?_some hwait
      simp only [decide_eq_true_eq] at haddress
      obtain ⟨rfl, hpending, hsignal, hkey⟩ := haddress
      refine ⟨⟨wait, ?_, fun entry hentry hidentity => ?_⟩, trivial⟩
      · rw [evolve_waits, mail.keyed.waits w wait hw]
        exact hw
      · rw [evolve_inbox] at hentry
        rcases List.mem_append.mp hentry with hold | hnew'
        · exact absurd (names_eq_true.mpr hidentity)
            (by simpa [InboxEntry.names] using List.find?_eq_none.mp hnew entry hold)
        · -- The signal that comes now is before the deadline, and the last of its run.
          obtain rfl := List.mem_singleton.mp hnew'
          refine ⟨fun deadline hdeadline => ?_, fun _ => ?_⟩
          · exact signals _ _ _ _ _ rfl w wait hw rfl hpending hsignal hkey deadline hdeadline
          · obtain ⟨r, hr, hle⟩ := dated.opened w wait hw
            obtain rfl := Option.mem_unique hrun hr
            exact hle
  | satisfied hsettling hentry hfollowed =>
    have hoffered : Offered s _ time _ :=
      .pending hsettling.hwait hsettling.hrun hsettling.hpending
    exact ⟨timely_of_settling mail (own _ hsettling.settles _ hoffered)
      (hne _ hsettling.settles _ hoffered) hsettling hentry, trivial, guarded_timely_of_kinds
        (not_mem_of_kinds (hfollowed.kinds (List.mem_singleton_self _)) (by decide))⟩
  | advanced hadvancing hmove =>
    exact hmove.timely mail fresh (own _ (.inl rfl)) (hne _ (.inl rfl)) hadvancing

/-- Where a wait is timed out, it is due and finds nothing. -/
theorem Move.timedOut_of_mem (move : Move env o s time body es)
    (hmem : .waitTimedOut run w ∈ es) :
    ∃ wait, s.waits.lookup w = some wait ∧
      (∃ deadline, wait.deadlineMs = some deadline ∧ deadline ≤ time) ∧
      reservedOrEligible s wait time = none := by
  have hkind := move.kinds _ hmem
  cases move with
  | timedOut hsettling hdeadline hentry =>
    obtain ⟨rfl, rfl⟩ : _ ∧ _ := by simpa using hmem
    exact ⟨_, hsettling.hwait, hdeadline, hentry⟩
  | satisfied _ _ hfollowed =>
    simp only [List.mem_cons, reduceCtorEq, false_or] at hmem
    cases List.mem_singleton.mp (hfollowed.kinds (List.mem_singleton_self _) _ hmem)
  | advanced _ _ hmove =>
    rcases hmove.advances_or_waits with hkinds | waiting
    · have hkind := hkinds _ hmem
      simp at hkind
    · cases waiting with
      | opened => simp at hmem
      | taken _ _ _ hfollowed =>
        simp only [List.mem_cons, reduceCtorEq, false_or] at hmem
        cases List.mem_singleton.mp (hfollowed.kinds (List.mem_singleton_self _) _ hmem)
  | started | resolved | signalled | cancelled | cancelledSagas | claimed | renewed | abandoned =>
    simp at hkind
  | accepted h | compensated h | retried h | blocked h | lost h | erred h | notApplied h
  | unknown h =>
    rw [kinds_of_reported? h.hbody] at hkind
    simp at hkind
  | outside houtside => cases kind_of_isOutside (houtside _ hmem)

/-! ## The theorem -/

/-- The event that satisfies a wait was accepted before its deadline and, for a wait that takes
later events only, after the wait had been opened. -/
def TakenInTime (past : List DomainEvent) (s : Core) (run : RunId) (w : WaitId)
    (eventId : EventId) : Prop :=
  ∃ wait signal key payload sequence acceptedMs expiresMs before after,
    s.waits.lookup w = some wait ∧
    past = before ++
      .eventAccepted run eventId signal key payload sequence acceptedMs expiresMs :: after ∧
    (∀ e ∈ after, e.accepts run eventId = false) ∧
    (∀ deadline, wait.deadlineMs = some deadline → acceptedMs < deadline) ∧
    (wait.consumeFrom = .afterActivation → ∀ e ∈ after, e.opensWait w = false)

/-- An event at the address of a wait that was accepted before its deadline and in its window, and
that is reserved for the wait or has not expired. -/
structure Available (time : Nat) (wait : WaitState) (entry : InboxEntry) : Prop where
  unconsumed : entry.consumed = false
  run : entry.run = some wait.run
  signal : entry.signal = wait.signal
  key : entry.key = wait.key
  inTime : InTime wait entry
  held : entry.reservedWait = some wait.id ∨
    (entry.reservedWait = none ∧ (entry.expiresMs = 0 ∨ time < entry.expiresMs))

theorem not_available (h : reservedOrEligible s wait time = none) (hentry : entry ∈ s.inbox) :
    ¬ Available time wait entry := by
  intro available
  unfold reservedOrEligible at h
  split at h
  · cases h
  · next hnone =>
    rcases available.held with hreserved | ⟨hfree, hexpires⟩
    · exact List.find?_eq_none.mp hnone entry hentry
        (by simp [isReservedFor, available.unconsumed, hreserved])
    · refine List.find?_eq_none.mp h entry hentry ?_
      simp only [isEligible, decide_eq_true_eq]
      refine ⟨available.unconsumed, hfree, available.signal, available.key, ?_, ?_, hexpires⟩
      · cases hfrom : wait.consumeFrom with
        | buffered => exact .inl rfl
        | afterActivation => exact .inr (available.inTime.window hfrom)
      · cases hdeadline : wait.deadlineMs with
        | none => exact .inl rfl
        | some deadline =>
          have hearly := available.inTime.early deadline hdeadline
          exact .inr (.inr (by simpa using hearly.le))

theorem Dated.takenInTime {eventId : EventId} {payload : Value} (dated : Dated past s)
    (timely : Timely s (.waitSatisfied run w eventId payload)) :
    TakenInTime past s run w eventId := by
  obtain ⟨wait, hwait, hown, entry, hentry, hrun, rfl, hfree, hheld⟩ := timely
  have hintime : InTime wait entry := by
    rcases hheld with hreserved | hintime
    · obtain ⟨wait', hwait', hintime⟩ := dated.reserved entry hentry hfree w hreserved
      obtain rfl := Option.mem_unique hwait hwait'
      exact hintime
    · exact hintime
  obtain ⟨before, after, hpast, haccepts, hopens⟩ := dated.recorded entry hentry run hrun
  exact ⟨wait, _, _, _, _, _, _, before, after, hwait, hpast, haccepts, hintime.early,
    fun hafter => hopens w wait hwait hown (hintime.window hafter)⟩

/-- In every run whose steps are on time, waits keep their deadlines. -/
theorem waits_keep_deadlines {clusterId : String} {log : List Step} {final : State}
    (hrun : Run env (.empty clusterId) log final)
    (hsteps : ∀ step ∈ log, Fresh step ∧ OwnEntries step ∧ OnTime step) :
    (∀ past core run w eventId payload,
      Applied log past core (.waitSatisfied run w eventId payload) →
        TakenInTime past core run w eventId) ∧
    ∀ step ∈ log, ∀ run w, .waitTimedOut run w ∈ step.events →
      ∃ wait, step.before.waits.lookup w = some wait ∧
        (∃ deadline, wait.deadlineMs = some deadline ∧ deadline ≤ step.time) ∧
        ∀ entry ∈ step.before.inbox, ¬ Available step.time wait entry := by
  have hempty := keyed_empty clusterId
  have htrace := hrun.trace hempty
  constructor
  · intro past core run w eventId payload happlied
    obtain ⟨-, hevents⟩ := htrace.eventInvariant
      (P := fun past s => Mail past s ∧ Dated past s)
      (G := fun s e => Deliverable s e ∧ Timely s e)
      (fun _ _ _ change h => ⟨h.1.quiet change, h.2.quiet change h.1⟩)
      (fun _ _ _ guard h => ⟨h.1.evolve guard.1, h.2.evolve guard.1 guard.2⟩)
      (fun _ step decided condition h => by
        obtain ⟨fresh, own, onTime⟩ := condition
        obtain ⟨o, move⟩ := decided.move fresh.unreplayed
        exact (move.deliverable h.1 fresh.waits own).and
          (move.timely h.1 fresh.waits own onTime.signals onTime.entries h.2))
      ⟨mail_nil hempty rfl, dated_empty clusterId⟩ hsteps
    obtain ⟨⟨-, dated⟩, -, timely⟩ := hevents _ _ _ happlied
    exact dated.takenInTime timely
  · intro step hstep run w hmem
    obtain ⟨o, move⟩ := (htrace.decided step hstep).move (hsteps step hstep).1.unreplayed
    obtain ⟨wait, hwait, hdeadline, hnone⟩ := move.timedOut_of_mem hmem
    exact ⟨wait, hwait, hdeadline, fun entry hentry => not_available hnone hentry⟩

/-! ## A signal after the deadline -/

/-- Waits ten milliseconds for the signal `go` under the key `k`. -/
def briefWait : Definition :=
  sampleWorkflow ["go"] "wait" [("done", .complete (.literal .null)),
    ("wait", .waitSignal "go" (.literal (.string "k")) (some 10) .afterActivation "done"
      (some "done"))]

/-- The wait opens at time 2, and the signal comes at the given time. -/
def signalAt (time : Nat) : List Command := [
  { id := ⟨1⟩, body := .start ⟨1⟩ briefWait .null ⟨[], [], []⟩, time := 1 },
  { id := ⟨2⟩, body := .progress ⟨1⟩, time := 2 },
  { id := ⟨3⟩, body := .signal ⟨1⟩ ⟨7⟩ "go" "k" .null, time },
  { id := ⟨4⟩, body := .progress ⟨1⟩, time := time + 1 }]

/-- The event accepts event 7 of run 1 before time 12. -/
def DomainEvent.acceptsEarly : DomainEvent → Bool
  | .eventAccepted run eventId _ _ _ _ acceptedMs _ =>
    run = ⟨1⟩ ∧ eventId = ⟨7⟩ ∧ acceptedMs < 12
  | _ => false

/-- Before a signal all deadlines are ahead, and otherwise nothing is left unreserved. -/
def Step.keepsTime (step : Step) : Bool :=
  match step.body with
  | .signal .. => step.before.waits.entries.all fun e =>
    e.2.deadlineMs.all fun deadline => step.time < deadline
  | _ => step.before.inbox.all fun entry => entry.reservedWait.isSome

theorem onTime_of_keepsTime {step : Step} (h : step.keepsTime = true) : OnTime step where
  signals run eventId signal key payload hbody w wait hwait _ _ _ _ deadline hdeadline := by
    simp only [Step.keepsTime, hbody, List.all_eq_true] at h
    have hmem : (⟨w, wait⟩ : (_ : WaitId) × WaitState) ∈ step.before.waits.entries :=
      AList.mem_lookup_iff.mp hwait
    simpa [hdeadline] using h _ hmem
  entries run hsettles wait _ entry hentry heligible := by
    have hall : step.before.inbox.all (fun entry => entry.reservedWait.isSome) = true := by
      rcases hsettles with hbody | ⟨w, hbody⟩ <;> simpa [Step.keepsTime, hbody] using h
    have hreserved := List.all_eq_true.mp hall entry hentry
    simp only [isEligible, decide_eq_true_eq] at heligible
    rw [heligible.2.1] at hreserved
    cases hreserved

/-- The event accepted at time 20 satisfies the wait whose deadline is 12. -/
theorem lateSignal_taken : ∃ log final past core w,
    Run sampleEnv (.empty sampleCluster) log final ∧
    (∀ step ∈ log, Fresh step ∧ OwnEntries step) ∧
    Applied log past core (.waitSatisfied ⟨1⟩ w ⟨7⟩ .null) ∧
    ¬ TakenInTime past core ⟨1⟩ w ⟨7⟩ := by
  obtain ⟨log, final, hrun, hcheck⟩ := exists_sampleRun (signalAt 20)
    (fun log _ => log.all (fun step => Fresh step && step.findsOwn) &&
    (appliedAt log 3 0).any fun at_ =>
      at_.2.2 = .waitSatisfied ⟨1⟩ ⟨2⟩ ⟨7⟩ .null && at_.1.all (fun e =>
      !e.acceptsEarly) && (at_.2.1.waits.lookup ⟨2⟩).any fun wait => wait.deadlineMs = some 12)
    (by decide +kernel)
  simp only [Bool.and_eq_true, Option.any_eq_true, List.all_eq_true, decide_eq_true_eq,
    Bool.not_eq_true'] at hcheck
  obtain ⟨hsteps, ⟨past, core, e⟩, happlied, ⟨rfl, hpast⟩, wait, hwait, hdeadline⟩ := hcheck
  refine ⟨_, _, past, core, ⟨2⟩, hrun, fun step hstep =>
    ⟨(hsteps step hstep).1, ownEntries_of_findsOwn (hsteps step hstep).2⟩,
    applied_of_appliedAt happlied, ?_⟩
  rintro ⟨wait', _, _, _, _, acceptedMs, _, before, after, hwait', rfl, -, hearly, -⟩
  obtain rfl := Option.mem_unique hwait hwait'
  have hlate := hpast _ (List.mem_append_right before List.mem_cons_self)
  simp [DomainEvent.acceptsEarly, hearly 12 hdeadline] at hlate

/-- The event accepted at time 5 satisfies it in time. -/
theorem earlySignal_taken : ∃ log final past core w,
    Run sampleEnv (.empty sampleCluster) log final ∧
    (∀ step ∈ log, Fresh step ∧ OwnEntries step ∧ OnTime step) ∧
    Applied log past core (.waitSatisfied ⟨1⟩ w ⟨7⟩ .null) ∧
    TakenInTime past core ⟨1⟩ w ⟨7⟩ := by
  obtain ⟨log, final, hrun, hcheck⟩ := exists_sampleRun (signalAt 5)
    (fun log _ => log.all (fun step => Fresh step && step.findsOwn && step.keepsTime) &&
    (appliedAt log 3 0).any fun at_ =>
      at_.2.2 = .waitSatisfied ⟨1⟩ ⟨2⟩ ⟨7⟩ .null)
    (by decide +kernel)
  simp only [Bool.and_eq_true, Option.any_eq_true, List.all_eq_true, decide_eq_true_eq] at hcheck
  obtain ⟨hsteps, ⟨past, core, e⟩, happlied, rfl⟩ := hcheck
  have hconditions : ∀ step ∈ _, Fresh step ∧ OwnEntries step ∧ OnTime step :=
    fun step hstep => ⟨(hsteps step hstep).1.1, ownEntries_of_findsOwn (hsteps step hstep).1.2,
      onTime_of_keepsTime (hsteps step hstep).2⟩
  have happlied := applied_of_appliedAt happlied
  exact ⟨_, _, past, core, ⟨2⟩, hrun, hconditions, happlied,
    (waits_keep_deadlines hrun hconditions).1 _ _ _ _ _ _ happlied⟩

end Graphrun
