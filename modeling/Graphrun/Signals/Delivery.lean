import Graphrun.Engine.Contents
import Graphrun.Engine.Refinement

/-!
# Delivery of signals

An accepted event waits in one inbox that all runs share. A wait takes an entry in one of
three places (a due wait, a resolved timer, a wait that opens), and the event that records
this names the entry again by its run and event id. `Mail` says how the inbox, the waits and
the events so far fit together; `Deliverable` says what an event needs in order to keep it.

The engine looks for an unreserved entry by signal and key only. Where every entry it may find
for a wait of a run belongs to that run (`OwnEntries`), what a wait takes is an event that was
accepted for its run, and it is taken once.
-/

namespace Graphrun

open Lib

variable {env : Env} {o : Enumeration} {s : Core} {time : Nat} {ids : IdGen} {eventId : EventId}
  {s' : Core} {run : RunId} {w : WaitId}

/-! ## Occurrences -/

/-- The event accepts an external event of a run. -/
def DomainEvent.accepts (run : RunId) (eventId : EventId) : DomainEvent → Bool
  | .eventAccepted run' eventId' _ _ _ _ _ _ => run' = run ∧ eventId' = eventId
  | _ => false

/-- The event accepts an external event of a run with a payload. -/
def DomainEvent.acceptsPayload (run : RunId) (eventId : EventId) (payload : Value) :
    DomainEvent → Bool
  | .eventAccepted run' eventId' _ _ payload' _ _ _ =>
    run' = run ∧ eventId' = eventId ∧ payload' = payload
  | _ => false

/-- The event lets some wait take an external event of a run. -/
def DomainEvent.takes (run : RunId) (eventId : EventId) : DomainEvent → Bool
  | .waitSatisfied run' _ eventId' _ => run' = run ∧ eventId' = eventId
  | _ => false

/-- The event satisfies a wait. -/
def DomainEvent.satisfies (wait : WaitId) : DomainEvent → Bool
  | .waitSatisfied _ wait' _ _ => wait' = wait
  | _ => false

/-- The event opens a wait. -/
def DomainEvent.opensWait (wait : WaitId) : DomainEvent → Bool
  | .waitOpened _ wait' _ _ _ _ _ => wait' = wait
  | _ => false

/-- What names an inbox entry. -/
def InboxEntry.identity (entry : InboxEntry) : Option RunId × EventId := (entry.run, entry.eventId)

theorem names_eq_true {run : Option RunId} {entry : InboxEntry} :
    entry.names run eventId = true ↔ entry.identity = (run, eventId) := by
  simp [InboxEntry.names, InboxEntry.identity]

/-! ## The invariant -/

/-- How the inbox and the waits go back to the events so far. -/
structure Mail (past : List DomainEvent) (s : Core) : Prop where
  keyed : Keyed s
  accepted : ∀ entry ∈ s.inbox, ∃ run, entry.run = some run ∧
    ∃ e ∈ past, e.acceptsPayload run entry.eventId entry.payload = true
  distinct : (s.inbox.map InboxEntry.identity).Nodup
  unused : ∀ entry ∈ s.inbox, entry.consumed = false → ∀ run, entry.run = some run →
    Since (DomainEvent.takes run entry.eventId) (DomainEvent.accepts run entry.eventId) past
  reserved : ∀ entry ∈ s.inbox, entry.consumed = false → ∀ w, entry.reservedWait = some w →
    ∃ wait, s.waits.lookup w = some wait ∧ entry.run = some wait.run
  pending : ∀ w wait, s.waits.lookup w = some wait → wait.pending = true →
    Since (DomainEvent.satisfies w) (DomainEvent.opensWait w) past

/-- The inbox holds an unconsumed entry of a run with an event id and a payload. -/
def Holds (s : Core) (run : RunId) (eventId : EventId) (payload : Value) : Prop :=
  ∃ entry ∈ s.inbox, entry.run = some run ∧ entry.eventId = eventId ∧ entry.payload = payload ∧
    entry.consumed = false

/-- What an event needs in order to keep the mail in order. -/
def Deliverable (s : Core) : DomainEvent → Prop
  | .waitSatisfied run w eventId payload =>
    Holds s run eventId payload ∧ ∃ wait, s.waits.lookup w = some wait ∧ wait.pending = true
  | .eventAccepted run eventId _ _ _ _ _ _ => ∀ entry ∈ s.inbox,
    entry.identity ≠ (some run, eventId)
  | .eventReserved w _ => ∃ wait, s.waits.lookup w = some wait
  | .waitOpened _ w _ _ _ _ _ => s.waits.lookup w = none
  | _ => True

theorem mail_nil (keyed : Keyed s) (hinbox : s.inbox = []) : Mail [] s where
  keyed := keyed
  accepted := by simp [hinbox]
  distinct := by simp [hinbox]
  unused := by simp [hinbox]
  reserved := by simp [hinbox]
  pending _ _ _ _ := since_nil

section Mail

variable {past : List DomainEvent} {e : DomainEvent}

/-- Entries may be left out, and waits may be left out that no entry is reserved to. -/
theorem Mail.shrink (mail : Mail past s) (keyed : Keyed s') (hinbox : s'.inbox.Sublist s.inbox)
    (hwaits : ∀ w wait, s'.waits.lookup w = some wait → s.waits.lookup w = some wait)
    (hkept : ∀ entry ∈ s'.inbox, ∀ w wait, s.waits.lookup w = some wait →
      entry.run = some wait.run → s'.waits.lookup w = some wait) : Mail past s' where
  keyed := keyed
  accepted entry hentry := mail.accepted entry (hinbox.subset hentry)
  distinct := mail.distinct.sublist (hinbox.map _)
  unused entry hentry := mail.unused entry (hinbox.subset hentry)
  reserved entry hentry hconsumed w hw := by
    obtain ⟨wait, hwait, hrun⟩ := mail.reserved entry (hinbox.subset hentry) hconsumed w hw
    exact ⟨wait, hkept entry hentry w wait hwait hrun, hrun⟩
  pending w wait hwait := mail.pending w wait (hwaits w wait hwait)

theorem Mail.quiet (change : Quiet s s') (mail : Mail past s) : Mail past s' := by
  have keyed := mail.keyed.quiet change
  cases change with
  | admitted | stamped =>
    exact mail.shrink keyed (.refl _) (fun _ _ h => h) (fun _ _ _ _ h _ => h)
  | dropped =>
    exact mail.shrink keyed List.filter_sublist (fun _ _ h => h) (fun _ _ _ _ h _ => h)
  | @retired run runState hrun hended =>
    refine mail.shrink keyed List.filter_sublist (fun _ _ => Table.lookup_of_retain) ?_
    intro entry hentry w wait hwait hown
    have hother : entry.run ≠ some run := by simpa using (List.mem_filter.mp hentry).2
    rw [dropRun, Table.lookup_retain, hwait]
    have hne : wait.run ≠ run := fun heq => hother (heq ▸ hown)
    simp [hne]

theorem Mail.frame (mail : Mail past s) (keyed : Keyed s') (hinbox : s'.inbox = s.inbox)
    (hwaits : s'.waits = s.waits) : Mail past s' :=
  mail.shrink keyed (hinbox ▸ .refl _) (fun _ _ h => hwaits ▸ h) (fun _ _ _ _ h _ => hwaits ▸ h)

/-- An event that satisfies no wait can be added to the past. -/
theorem Mail.extend (mail : Mail past s)
    (he : ∀ run w eventId payload, e ≠ .waitSatisfied run w eventId payload) :
    Mail (past ++ [e]) s where
  keyed := mail.keyed
  accepted entry hentry := by
    obtain ⟨run, hrun, e', he', haccepts⟩ := mail.accepted entry hentry
    exact ⟨run, hrun, e', List.mem_append_left _ he', haccepts⟩
  distinct := mail.distinct
  unused entry hentry hconsumed run hrun :=
    since_concat (by cases e <;> first | rfl | exact absurd rfl (he _ _ _ _))
      (.inr (mail.unused entry hentry hconsumed run hrun))
  reserved := mail.reserved
  pending w wait hwait hpending :=
    since_concat (by cases e <;> first | rfl | exact absurd rfl (he _ _ _ _))
      (.inr (mail.pending w wait hwait hpending))

/-- An entry may come to be held for a wait of its run, or for none. -/
theorem Mail.held {run : Option RunId} {w : Option WaitId} (mail : Mail past s) (keyed : Keyed s')
    (hwaits : s'.waits = s.waits) (hinbox : s'.inbox =
      updateFirst (InboxEntry.names run eventId) (InboxEntry.heldFor w) s.inbox)
    (hw : ∀ w', w = some w' → ∃ wait, s.waits.lookup w' = some wait ∧ run = some wait.run) :
    Mail past s' where
  keyed := keyed
  accepted entry hentry := by
    rw [hinbox] at hentry
    rcases mem_updateFirst hentry with hmem | ⟨old, hmem, -, rfl⟩
    · exact mail.accepted entry hmem
    · exact mail.accepted old hmem
  distinct := by
    rw [hinbox, map_updateFirst (f := InboxEntry.heldFor w) fun _ => rfl]
    exact mail.distinct
  unused entry hentry := by
    rw [hinbox] at hentry
    rcases mem_updateFirst hentry with hmem | ⟨old, hmem, -, rfl⟩
    · exact mail.unused entry hmem
    · exact mail.unused old hmem
  reserved entry hentry hconsumed w' hw' := by
    rw [hinbox] at hentry
    rw [hwaits]
    rcases mem_updateFirst hentry with hmem | ⟨old, hmem, hnames, rfl⟩
    · exact mail.reserved entry hmem hconsumed w' hw'
    · obtain ⟨wait, hwait, hrun⟩ := hw w' hw'
      have hold := congrArg Prod.fst (names_eq_true.mp hnames)
      exact ⟨wait, hwait, hold.trans hrun⟩
  pending w wait hwait := mail.pending w wait (hwaits ▸ hwait)

/-- A new entry may come in with the event that accepts it. -/
theorem Mail.accept {entry : InboxEntry} (mail : Mail (past ++ [e]) s) (keyed : Keyed s')
    (hwaits : s'.waits = s.waits) (hinbox : s'.inbox = s.inbox ++ [entry])
    (hrun : entry.run = some run) (hfree : entry.reservedWait = none)
    (hnew : ∀ other ∈ s.inbox, other.identity ≠ entry.identity)
    (haccepts : e.acceptsPayload run entry.eventId entry.payload = true) :
    Mail (past ++ [e]) s' where
  keyed := keyed
  accepted other hother := by
    rw [hinbox, List.mem_append, List.mem_singleton] at hother
    rcases hother with hmem | rfl
    · exact mail.accepted other hmem
    · exact ⟨run, hrun, e, by simp, haccepts⟩
  distinct := by
    rw [hinbox, List.map_append, List.nodup_append]
    refine ⟨mail.distinct, by simp, ?_⟩
    intro i hi j hj
    obtain ⟨other, hother, rfl⟩ := List.mem_map.mp hi
    obtain rfl : j = entry.identity := by simpa using hj
    exact hnew other hother
  unused other hother hconsumed run' hrun' := by
    rw [hinbox, List.mem_append, List.mem_singleton] at hother
    rcases hother with hmem | rfl
    · exact mail.unused other hmem hconsumed run' hrun'
    · obtain rfl : run' = run := by simpa [hrun] using hrun'.symm
      cases e with
      | eventAccepted r i _ _ p _ _ _ =>
        refine since_concat rfl (.inl ?_)
        simp only [DomainEvent.acceptsPayload, decide_eq_true_eq] at haccepts
        simp [DomainEvent.accepts, haccepts.1, haccepts.2.1]
      | _ => cases haccepts
  reserved other hother hconsumed w hw := by
    rw [hinbox, List.mem_append, List.mem_singleton] at hother
    rw [hwaits]
    rcases hother with hmem | rfl
    · exact mail.reserved other hmem hconsumed w hw
    · rw [hfree] at hw
      cases hw
  pending w wait hwait := mail.pending w wait (hwaits ▸ hwait)

/-- A wait may open under an unused id. -/
theorem Mail.opened {wait : WaitState} (mail : Mail (past ++ [e]) s) (keyed : Keyed s')
    (hinbox : s'.inbox = s.inbox) (hwaits : s'.waits = s.waits.insert w wait)
    (hnew : s.waits.lookup w = none) (hopens : e.opensWait w = true)
    (hsatisfies : ∀ w, e.satisfies w = false) : Mail (past ++ [e]) s' where
  keyed := keyed
  accepted := hinbox ▸ mail.accepted
  distinct := hinbox ▸ mail.distinct
  unused := hinbox ▸ mail.unused
  reserved entry hentry hconsumed w' hw' := by
    obtain ⟨other, hother, hrun⟩ := mail.reserved entry (hinbox ▸ hentry) hconsumed w' hw'
    refine ⟨other, ?_, hrun⟩
    rw [hwaits, Table.lookup_insert_eq, if_neg, hother]
    rintro rfl
    rw [hnew] at hother
    cases hother
  pending w' wait' hwait' hpending := by
    rw [hwaits, Table.lookup_insert_eq] at hwait'
    split at hwait'
    · next heq =>
      subst heq
      exact since_concat (hsatisfies _) (.inl hopens)
    · exact mail.pending w' wait' hwait' hpending

/-- A wait may close. -/
theorem Mail.closed (mail : Mail past s) (keyed : Keyed s') (hinbox : s'.inbox = s.inbox)
    (hwaits : s'.waits = s.waits.modify w WaitState.close) :
    Mail past s' where
  keyed := keyed
  accepted := hinbox ▸ mail.accepted
  distinct := hinbox ▸ mail.distinct
  unused := hinbox ▸ mail.unused
  reserved entry hentry hconsumed w' hw' := by
    obtain ⟨wait, hwait, hrun⟩ := mail.reserved entry (hinbox ▸ hentry) hconsumed w' hw'
    rw [hwaits, Table.lookup_modify, hwait]
    split
    · exact ⟨wait.close, rfl, hrun⟩
    · exact ⟨wait, rfl, hrun⟩
  pending w' wait' hwait' hpending := by
    rw [hwaits, Table.lookup_modify] at hwait'
    split at hwait'
    · obtain ⟨old, -, rfl⟩ := Option.map_eq_some_iff.mp hwait'
      cases hpending
    · exact mail.pending w' wait' hwait' hpending

/-- The one place of the inbox that an identity names. -/
theorem Mail.place {payload : Value} (mail : Mail past s) (holds : Holds s run eventId payload) :
    ∃ l₁ entry l₂, s.inbox = l₁ ++ entry :: l₂ ∧ entry.run = some run ∧
      entry.eventId = eventId ∧ entry.payload = payload ∧ entry.consumed = false ∧
      (∀ other ∈ l₁ ++ l₂, other.identity ≠ (some run, eventId)) ∧
      ∀ f, updateFirst (InboxEntry.names (some run) eventId) f s.inbox = l₁ ++ f entry :: l₂ := by
  obtain ⟨entry, hentry, hrun, hid, hpayload, hconsumed⟩ := holds
  obtain ⟨l₁, l₂, hsplit⟩ := List.append_of_mem hentry
  have hidentity : entry.identity = (some run, eventId) := by simp [InboxEntry.identity, hrun, hid]
  have hothers : ∀ other ∈ l₁ ++ l₂, other.identity ≠ (some run, eventId) := by
    intro other hother heq
    have hdistinct := mail.distinct
    rw [hsplit, List.map_append, List.map_cons, List.nodup_middle, List.nodup_cons,
      ← List.map_append] at hdistinct
    exact hdistinct.1 (List.mem_map.mpr ⟨other, hother, heq.trans hidentity.symm⟩)
  refine ⟨l₁, entry, l₂, hsplit, hrun, hid, hpayload, hconsumed, hothers, fun f => ?_⟩
  rw [hsplit]
  refine updateFirst_append (fun other hother => ?_) (names_eq_true.mpr hidentity)
  rw [Bool.eq_false_iff, Ne, names_eq_true]
  exact hothers other (List.mem_append_left _ hother)

/-- A pending wait may take an entry of the inbox. -/
theorem Mail.taken {payload : Value} (mail : Mail past s) (holds : Holds s run eventId payload) :
    Mail (past ++ [.waitSatisfied run w eventId payload])
      (evolve s (.waitSatisfied run w eventId payload)) := by
  obtain ⟨l₁, entry, l₂, hsplit, hrun, hid, hpayload, hconsumed, hothers, hupdate⟩ :=
    mail.place holds
  have hinbox := evolve_inbox s (.waitSatisfied run w eventId payload)
  have hwaits := evolve_waits s (.waitSatisfied run w eventId payload)
  simp only at hinbox hwaits
  rw [hupdate] at hinbox
  -- the entries of the new inbox are the old ones and the consumed one
  have hmem : ∀ other ∈ (evolve s (.waitSatisfied run w eventId payload)).inbox,
      (other ∈ s.inbox ∧ other.identity ≠ (some run, eventId)) ∨ other = entry.consumedBy w := by
    intro other hother
    rw [hinbox, List.mem_append, List.mem_cons] at hother
    rw [hsplit]
    rcases hother with h | rfl | h
    · exact .inl ⟨by simp [h], hothers other (by simp [h])⟩
    · exact .inr rfl
    · exact .inl ⟨by simp [h], hothers other (by simp [h])⟩
  refine ⟨mail.keyed.evolve _, ?_, ?_, ?_, ?_, ?_⟩
  · intro other hother
    have haccepted : ∃ run', other.run = some run' ∧
        ∃ e ∈ past, e.acceptsPayload run' other.eventId other.payload = true := by
      rcases hmem other hother with ⟨h, -⟩ | rfl
      · exact mail.accepted other h
      · exact mail.accepted entry (by simp [hsplit])
    obtain ⟨run', hrun', e, he, haccepts⟩ := haccepted
    exact ⟨run', hrun', e, List.mem_append_left _ he, haccepts⟩
  · have hdistinct := mail.distinct
    rw [hsplit] at hdistinct
    rw [hinbox]
    simpa [InboxEntry.consumedBy, InboxEntry.identity] using hdistinct
  · intro other hother hfree run' hrun'
    rcases hmem other hother with ⟨h, hne⟩ | rfl
    · refine since_concat ?_ (.inr (mail.unused other h hfree run' hrun'))
      simp only [DomainEvent.takes, decide_eq_false_iff_not]
      rintro ⟨rfl, hid'⟩
      exact hne (by simp [InboxEntry.identity, hrun', ← hid'])
    · cases hfree
  · intro other hother hfree w' hw'
    rcases hmem other hother with ⟨h, -⟩ | rfl
    · obtain ⟨wait, hwait, hown⟩ := mail.reserved other h hfree w' hw'
      rw [hwaits, Table.lookup_modify, hwait]
      split
      · exact ⟨wait.close, rfl, hown⟩
      · exact ⟨wait, rfl, hown⟩
    · cases hfree
  · intro w' wait' hwait' hpending
    rw [hwaits, Table.lookup_modify] at hwait'
    split at hwait'
    · obtain ⟨old, -, rfl⟩ := Option.map_eq_some_iff.mp hwait'
      cases hpending
    · next hne =>
      refine since_concat ?_ (.inr (mail.pending w' wait' hwait' hpending))
      simp only [DomainEvent.satisfies, decide_eq_false_iff_not]
      exact fun heq => hne heq.symm

/-- Deliverable events keep the mail in order. -/
theorem Mail.evolve (deliverable : Deliverable s e) (mail : Mail past s) :
    Mail (past ++ [e]) (evolve s e) := by
  by_cases htake : ∃ run w eventId payload, e = .waitSatisfied run w eventId payload
  · obtain ⟨run, w, eventId, payload, rfl⟩ := htake
    exact mail.taken deliverable.1
  · have hpast : Mail (past ++ [e]) s :=
      mail.extend fun run w eventId payload heq => htake ⟨run, w, eventId, payload, heq⟩
    have keyed := mail.keyed.evolve e
    have hinbox := evolve_inbox s e
    have hwaits := evolve_waits s e
    cases e
    case waitSatisfied => exact absurd ⟨_, _, _, _, rfl⟩ htake
    case eventAccepted =>
      exact hpast.accept keyed hwaits hinbox rfl rfl deliverable
        (by simp [DomainEvent.acceptsPayload])
    case eventReserved w eventId =>
      obtain ⟨wait, hwait⟩ := deliverable
      refine hpast.held keyed hwaits hinbox fun w' hw' => ?_
      obtain rfl := Option.some.inj hw'
      exact ⟨wait, hwait, by simp [hwait]⟩
    case reservationReleased => exact hpast.held keyed hwaits hinbox (by simp)
    case waitOpened =>
      exact hpast.opened keyed hinbox hwaits deliverable (by simp [DomainEvent.opensWait])
        fun _ => rfl
    case waitTimedOut | waitCancelled => exact hpast.closed keyed hinbox hwaits
    case eventExpired =>
      refine hpast.shrink keyed ?_ (fun _ _ h => hwaits ▸ h) (fun _ _ _ _ h _ => hwaits ▸ h)
      rw [hinbox]
      exact List.filter_sublist
    all_goals exact hpast.frame keyed hinbox hwaits

end Mail

end Graphrun
