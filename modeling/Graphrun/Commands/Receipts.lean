import Graphrun.Engine.Refinement

/-!
# Receipts of commands

What the state keeps under the id of a command lies in six tables: the events it was answered
with, the principal that caused it, the id it had for that principal, and the digests of its
request. `State.filing` reads them together. A commit files under its own id, and only if the
id has no receipt; retention empties an id in all tables at once; everything else leaves the
tables as they are (`applyEntry_files`). In a state that was reached from the empty one an id
without a receipt therefore has nothing in any table (`Run.wellFiled`).
-/

namespace Graphrun

open Lib

variable {env : Env} {o : Enumeration} {s s' : State} {time : Nat} {id externalId : CommandId}
  {run : RunId} {e : DomainEvent} {cause : Cause} {published : Published} {command : Command}
  {actor digest : Option String} {outcome : Outcome} {limit : Nat} {key : CommandKey}
  {a b c : State} {expired : List DomainEvent} {other : CommandId}
  {operation : PublicationOperation}

/-- What is kept under the id of a command. -/
@[ext]
structure Filing where
  events : Option (List DomainEvent)
  actor : Option String
  externalId : Option CommandId
  requestDigest : Option String
  startDigest : Option String
  workerDigest : Option String

def Filing.blank : Filing where
  events := none
  actor := none
  externalId := none
  requestDigest := none
  startDigest := none
  workerDigest := none

def State.filing (s : State) (id : CommandId) : Filing where
  events := s.commands.lookup id
  actor := s.commandActors.lookup id
  externalId := s.commandExternalIds.lookup id
  requestDigest := s.authenticatedRequestDigests.lookup id
  startDigest := s.legacyStartDigests.lookup id
  workerDigest := s.workerCommandDigests.lookup id

/-- An id is left alone, or emptied, or filed for the first time. -/
def Files (s s' : State) : Prop :=
  ∀ id, s'.filing id = s.filing id ∨ s'.filing id = .blank ∨
    ((s.filing id).events = none ∧ (s'.filing id).events.isSome)

theorem Files.of_eq (h : s'.filing = s.filing) : Files s s' := fun id => .inl (by rw [h])

theorem Files.eq_trans (h : b.filing = a.filing) (h' : Files b c) : Files a c := by
  intro id
  have hb := h' id
  rwa [h] at hb

theorem Files.trans_eq (h : Files a b) (h' : c.filing = b.filing) : Files a c := by
  intro id
  rw [h']
  exact h id

/-- An id that has a receipt before and after keeps all of it. -/
theorem Files.kept (h : Files s s') (hbefore : (s.filing id).events.isSome)
    (hafter : (s'.filing id).events.isSome) : s'.filing id = s.filing id := by
  rcases h id with heq | hblank | ⟨hnone, -⟩
  · exact heq
  · rw [hblank] at hafter
    cases hafter
  · rw [hnone] at hbefore
    cases hbefore

/-! ## What leaves the tables alone -/

/-- What is published, and what is kept under start keys and for requests. -/
structure Shelf where
  catalogs : List (Nat × PublishedCatalog)
  definitions : List (String × List (Nat × PublishedDefinition))
  startKeys : List (String × List (String × StartKeyRecord))
  results : List (String × CommandResult)

def State.shelf (s : State) : Shelf where
  catalogs := s.publishedCatalogs
  definitions := s.publishedDefinitions
  startKeys := s.startKeys
  results := s.commandResults

/-- The tables that events do not write to. -/
structure Desk where
  filing : CommandId → Filing
  shelf : Shelf

def State.desk (s : State) : Desk where
  filing := s.filing
  shelf := s.shelf

theorem filing_of_desk (h : s'.desk = s.desk) : s'.filing = s.filing := congrArg Desk.filing h

theorem shelf_of_desk (h : s'.desk = s.desk) : s'.shelf = s.shelf := congrArg Desk.shelf h

theorem foldlM_desk {α : Type} {f : State → α → Result State}
    (hf : ∀ s a s', f s a = .ok s' → s'.desk = s.desk) {xs : List α}
    (h : xs.foldlM f s = .ok s') : s'.desk = s.desk :=
  foldlM_keeps (P := fun t => t.desk = s.desk)
    (fun b a b' hb hkept => (hf b a b' hb).trans hkept) h rfl

theorem appendHistory_desk {refs : IoRefs} (h : appendHistory env s run e cause refs = .ok s') :
    s'.desk = s.desk := by
  simp only [appendHistory, bind_eq_ok, pure_eq_ok] at h
  obtain ⟨dependencies, -, payload, -, tombstones, -, rfl⟩ := h
  rfl

theorem applyEvent_desk (h : applyEvent env cause s e = .ok s') : s'.desk = s.desk := by
  obtain ⟨owner, -, h⟩ := bind_eq_ok.mp h
  cases owner with
  | some run =>
    simp only [bind_eq_ok] at h
    obtain ⟨refs, -, _, -, h⟩ := h
    exact (appendHistory_desk h).trans rfl
  | none =>
    simp only [bind_eq_ok, pure_eq_ok] at h
    obtain ⟨_, -, _, -, rfl⟩ := h
    rfl

theorem applyEventsWithCause_desk {es : List DomainEvent}
    (h : applyEventsWithCause env cause s es = .ok s') : s'.desk = s.desk :=
  foldlM_desk (fun _ _ _ h => applyEvent_desk h) h

theorem stampTerminal_desk (h : stampTerminal time s e = .ok s') :
    s'.desk = s.desk := by
  rcases stampTerminal_cases h with rfl | ⟨_, -, -, rfl⟩ <;> rfl

theorem checkpointAfterCommand_desk (h : checkpointAfterCommand env s run time = .ok s') :
    s'.desk = s.desk := by
  obtain ⟨_, rfl⟩ := checkpointAfterCommand_eq h
  rfl

theorem pruneInbox_desk {keys : List (Option RunId × EventId)}
    (h : pruneInbox env id time s keys = .ok (s', expired)) :
    s'.desk = s.desk := by
  refine pruneInbox_keeps (P := fun t => t.desk = s.desk) ?_ (fun _ _ ht => ht) h rfl
  intro t _ _ _ applied marked ht happlied hmarked
  exact ((checkpointAfterCommand_desk hmarked).trans (applyEventsWithCause_desk happlied)).trans ht

theorem pruneRun_desk (h : pruneRun s run = .ok s') : s'.desk = s.desk := by
  obtain ⟨_, _, -, -, rfl⟩ := pruneRun_eq h
  rfl

theorem foldl_pruneSummary_filing (s : State) (ids : List RunId) :
    (ids.foldl pruneSummary s).filing = s.filing := by
  induction ids generalizing s with
  | nil => rfl
  | cons id ids ih => exact (ih _).trans rfl

theorem insertStarted_desk (body : CommandBody) : (insertStarted s body).desk = s.desk := by
  unfold insertStarted
  split
  · split <;> rfl
  · rfl

/-! ## What files and what empties -/

/-- What a command adds to what is kept under its id. -/
def Filing.record (f : Filing) (events : List DomainEvent) (actor : Option String)
    (externalId : CommandId) (digest workerDigest : Option String) : Filing :=
  { f with
    events := some events
    actor := actor.or f.actor
    externalId := if actor.isSome then some externalId else f.externalId
    requestDigest := if actor.isSome then some (digest.getD "") else f.requestDigest
    workerDigest := workerDigest.or f.workerDigest }

theorem recordReceipt_filing {events : List DomainEvent} {workerDigest : Option String} :
    (recordReceipt s command events actor externalId digest workerDigest).filing id =
      if id = command.id then (s.filing id).record events actor externalId digest workerDigest
      else s.filing id := by
  by_cases hid : id = command.id
  · subst hid
    cases actor <;> cases workerDigest <;>
      simp [State.filing, recordReceipt, Filing.record, AList.lookup_insert]
  · cases actor <;> cases workerDigest <;>
      simp [State.filing, recordReceipt, hid, AList.lookup_insert_ne]

/-- A command is answered from its receipt, or files one where there was none. -/
theorem applyCommandWithActor_filing
    (h : applyCommandWithActor env o s command actor externalId digest = .ok outcome) :
    (∃ events, s.commands.lookup command.id = some events ∧
      outcome = { state := s, events, steps := [] }) ∨
    (s.commands.lookup command.id = none ∧
      ∃ workerDigest, workerRequestDigest env command.body = .ok workerDigest ∧
        ∀ id, outcome.state.filing id = if id = command.id then
          (s.filing id).record outcome.events actor externalId digest workerDigest
          else s.filing id) := by
  obtain ⟨workerDigest, hworker, h⟩ := bind_eq_ok.mp h
  cases hnew : s.commands.lookup command.id with
  | some events =>
    simp only [hnew, bind_eq_ok, pure_eq_ok] at h
    obtain ⟨_, -, rfl⟩ := h
    exact .inl ⟨events, rfl, rfl⟩
  | none =>
    simp only [hnew, bind_eq_ok, pure_eq_ok] at h
    obtain ⟨decision, -, applied, happlied, stamped, hstamped, affected, -, final, hfinal, rfl⟩ := h
    refine .inr ⟨rfl, workerDigest, hworker, fun id => ?_⟩
    have hbefore : stamped.filing = s.filing :=
      filing_of_desk ((foldlM_desk (fun _ _ _ h => stampTerminal_desk h) hstamped).trans
        ((applyEventsWithCause_desk happlied).trans rfl))
    have hafter :=
      filing_of_desk (foldlM_desk (fun _ _ _ h => checkpointAfterCommand_desk h) hfinal)
    show final.filing id = _
    rw [hafter, recordReceipt_filing, hbefore]

theorem applyCommandWithActor_files
    (h : applyCommandWithActor env o s command actor externalId digest = .ok outcome) :
    Files s outcome.state := by
  rcases applyCommandWithActor_filing h with ⟨events, -, rfl⟩ | ⟨hnew, workerDigest, -, hfiling⟩
  · exact .of_eq rfl
  · intro id
    rw [hfiling id]
    by_cases hid : id = command.id
    · rw [if_pos hid]
      subst hid
      exact .inr (.inr ⟨hnew, rfl⟩)
    · rw [if_neg hid]
      exact .inl rfl

theorem pruneCommand_filing :
    (pruneCommand s id).filing other = if other = id then .blank else s.filing other := by
  by_cases hid : other = id
  · subst hid
    simp [State.filing, pruneCommand, Filing.blank]
  · simp [State.filing, pruneCommand, hid, AList.lookup_erase_ne]

theorem foldl_pruneCommand_filing (ids : List CommandId) : ∀ (s : State) (id : CommandId),
    (ids.foldl pruneCommand s).filing id = s.filing id ∨
      (ids.foldl pruneCommand s).filing id = .blank := by
  induction ids with
  | nil => exact fun s id => .inl rfl
  | cons first ids ih =>
    intro s id
    rcases ih (pruneCommand s first) id with heq | hblank
    · rw [List.foldl_cons, heq, pruneCommand_filing]
      split
      · exact .inr rfl
      · exact .inl rfl
    · exact .inr hblank

theorem prune_filing (h : prune env o s id time limit = .ok (s', expired)) (other : CommandId) :
    s'.filing other = s.filing other ∨ s'.filing other = .blank := by
  simp only [prune, bind_eq_ok, pure_eq_ok, Prod.exists, Prod.mk.injEq] at h
  obtain ⟨inboxed, events, hinbox, dropped, hdropped, rfl, -⟩ := h
  rw [foldl_pruneSummary_filing,
    filing_of_desk (foldlM_desk (fun _ _ _ h => pruneRun_desk h) hdropped),
    filing_of_desk (pruneInbox_desk hinbox)]
  exact foldl_pruneCommand_filing _ _ other

theorem commitPrune_filing (h : commitPrune env o s command limit = .ok outcome) :
    (∃ events, s.commands.lookup command.id = some events ∧
      outcome = { state := s, events, steps := [] }) ∨
    (s.commands.lookup command.id = none ∧
      ∀ id, (id = command.id →
          outcome.state.filing id = { s.filing id with events := some outcome.events } ∨
          outcome.state.filing id = { Filing.blank with events := some outcome.events }) ∧
        (id ≠ command.id →
          outcome.state.filing id = s.filing id ∨ outcome.state.filing id = .blank)) := by
  simp only [commitPrune, bind_eq_ok] at h
  obtain ⟨_, -, _, -, h⟩ := h
  split at h
  · next events hevents =>
    obtain rfl := pure_eq_ok.mp h
    exact .inl ⟨events, hevents, rfl⟩
  · next hnew =>
    simp only [bind_eq_ok, pure_eq_ok, Prod.exists] at h
    obtain ⟨_, -, pruned, events, hpruned, rfl⟩ := h
    have hfiling : ∀ id, pruned.filing id = s.filing id ∨ pruned.filing id = .blank :=
      fun id => prune_filing hpruned id
    refine .inr ⟨hnew, fun id => ⟨?_, ?_⟩⟩
    · rintro rfl
      refine (hfiling command.id).imp (fun h => ?_) fun h => ?_
      · rw [← h]
        simp [State.filing, AList.lookup_insert]
      · rw [← h]
        simp [State.filing, AList.lookup_insert]
    · intro hid
      refine (hfiling id).imp (fun h => ?_) fun h => ?_
      · rw [← h]
        simp [State.filing, AList.lookup_insert_ne hid]
      · rw [← h]
        simp [State.filing, AList.lookup_insert_ne hid]

theorem commitPrune_files (h : commitPrune env o s command limit = .ok outcome) :
    Files s outcome.state := by
  rcases commitPrune_filing h with ⟨events, -, rfl⟩ | ⟨hnew, hfiling⟩
  · exact .of_eq rfl
  · intro id
    obtain ⟨hown, hother⟩ := hfiling id
    by_cases hid : id = command.id
    · refine .inr (.inr ⟨?_, ?_⟩)
      · rw [hid]
        exact hnew
      · rcases hown hid with h | h <;> rw [h] <;> rfl
    · rcases hother hid with h | h
      · exact .inl h
      · exact .inr (.inl h)

/-! ## Entries of the log -/

theorem applyCommand_files (h : applyCommand env o s command = .ok outcome) :
    Files s outcome.state := by
  simp only [applyCommand, bind_eq_ok, Prod.exists] at h
  obtain ⟨command, actor, -, command', externalId, digest, -, h⟩ := h
  exact applyCommandWithActor_files h

theorem admitPublished_files {pinned : PublishedDefinition} {catalog : PublishedCatalog}
    {input : Value} {progressed : Outcome} {started : List Step}
    (h : admitPublished env o s command key pinned catalog input =
      .ok (run, progressed, started)) : Files s progressed.state := by
  simp only [admitPublished, bind_eq_ok, pure_eq_ok, Prod.mk.injEq] at h
  obtain ⟨_, -, decision, -, applied, happlied, outcome, hprogress, -, rfl, -⟩ := h
  have hstarted : applied.desk = s.desk := (applyEventsWithCause_desk happlied).trans rfl
  exact .eq_trans (filing_of_desk hstarted) (applyCommand_files hprogress)

theorem applyRequest_files (h : applyRequest env o s command key operation = .ok published) :
    Files s published.state := by
  cases applyRequest_fulfilled h with
  | kept | catalog | definition => exact .of_eq rfl
  | start _ hadmit => exact (admitPublished_files hadmit).trans_eq rfl

theorem applyPublication_files :
    Files s (applyPublication env o s command key operation).1 := by
  unfold applyPublication
  split
  · exact .of_eq rfl
  · dsimp only
    split
    · next published h =>
      have hpublished : Files _ published.state := applyRequest_files h
      exact (Files.eq_trans rfl hpublished).trans_eq rfl
    · exact .of_eq rfl

/-- The digest of an inline start is added to what was just filed. -/
theorem withStartDigest_filing {digest : String} :
    State.filing { s with legacyStartDigests := s.legacyStartDigests.insert id digest } other =
      if other = id then { s.filing other with startDigest := some digest }
        else s.filing other := by
  by_cases hid : other = id
  · subst hid
    simp [State.filing, AList.lookup_insert]
  · simp [State.filing, hid, AList.lookup_insert_ne hid]

/-- What a new command that is no retention leaves in the tables. -/
theorem commitNew_filing {startDigest : Option String} {applied : Outcome}
    (hnew : s.commands.lookup command.id = none)
    (happlied : applyCommandWithActor env o (insertStarted s command.body) command actor externalId
      digest = .ok applied) (h : (match startDigest with
      | some startDigest => (pure { applied with
          state := { applied.state with
            legacyStartDigests :=
              applied.state.legacyStartDigests.insert command.id startDigest } } : Result Outcome)
      | none => pure applied) = .ok outcome) :
    ∃ workerDigest, workerRequestDigest env command.body = .ok workerDigest ∧
      ∀ id, outcome.state.filing id = if id = command.id then
        { (s.filing id).record outcome.events actor externalId digest workerDigest with
          startDigest := startDigest.or (s.filing id).startDigest }
        else s.filing id := by
  have hinserted := filing_of_desk (insertStarted_desk (s := s) command.body)
  have hnew' : (insertStarted s command.body).commands.lookup command.id = none :=
    (congrArg Filing.events (congrFun hinserted command.id)).trans hnew
  rcases applyCommandWithActor_filing happlied with ⟨events, hold, -⟩ | ⟨-, workerDigest, hworker,
    hfiling⟩
  · rw [hnew'] at hold
    cases hold
  · refine ⟨workerDigest, hworker, fun id => ?_⟩
    rw [hinserted] at hfiling
    cases startDigest with
    | none =>
      obtain rfl := pure_eq_ok.mp h
      exact hfiling id
    | some startDigest =>
      obtain rfl := pure_eq_ok.mp h
      show State.filing { applied.state with
        legacyStartDigests := applied.state.legacyStartDigests.insert command.id startDigest }
          id = _
      rw [withStartDigest_filing, hfiling id]
      split <;> rfl

theorem commitCommand_files (h : commitCommand env o s command = .ok outcome) :
    Files s outcome.state := by
  simp only [commitCommand, bind_eq_ok, Prod.exists] at h
  obtain ⟨command, actor, -, h⟩ := h
  split at h
  · exact commitPrune_files h
  · simp only [bind_eq_ok, Prod.exists] at h
    obtain ⟨command, externalId, digest, -, startDigest, -, workerDigest, -, h⟩ := h
    split at h
    · simp only [bind_eq_ok, pure_eq_ok] at h
      obtain ⟨_, -, _, -, rfl⟩ := h
      exact .of_eq rfl
    · next hnew =>
      obtain ⟨applied, happlied, h⟩ := bind_eq_ok.mp h
      obtain ⟨workerDigest, -, hfiling⟩ := commitNew_filing hnew happlied h
      intro id
      rw [hfiling id]
      by_cases hid : id = command.id
      · rw [if_pos hid, hid]
        exact .inr (.inr ⟨hnew, rfl⟩)
      · rw [if_neg hid]
        exact .inl rfl

/-- An entry of the log files under one id at most, where nothing was filed, and otherwise only
empties ids. -/
theorem applyEntry_files (command : Command) : Files s (applyEntry env o s command).1 := by
  unfold applyEntry
  split
  · split
    · exact .of_eq rfl
    · exact applyPublication_files
  · split
    · next outcome h => exact commitCommand_files h
    · exact .of_eq rfl

/-- Nothing is kept under an id without a receipt. -/
def WellFiled (s : State) : Prop := ∀ id, (s.filing id).events = none → s.filing id = .blank

theorem WellFiled.files (wellFiled : WellFiled s) (h : Files s s') : WellFiled s' := by
  intro id hnone
  rcases h id with heq | hblank | ⟨-, hsome⟩
  · rw [heq] at hnone ⊢
    exact wellFiled id hnone
  · exact hblank
  · rw [hnone] at hsome
    cases hsome

theorem Run.wellFiled {cluster : String} {log : List Step}
    (run : Run env (.empty cluster) log s) : WellFiled s := by
  induction run with
  | refl => exact fun id _ => rfl
  | entry _ o command ih => exact ih.files (applyEntry_files command)

end Graphrun
