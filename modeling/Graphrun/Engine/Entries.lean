import Graphrun.Model.Publication

/-!
# What an entry of the log comes to

The functions of the commit path with their refusals taken away: what a publication request that
is not refused has fulfilled (`Fulfilled`), what a command that is not refused has committed
(`Committed`), and what retention does to an inbox and to a run. Whatever is proved about entries
is proved from these cases.
-/

namespace Graphrun

open Lib

variable {env : Env} {o : Enumeration} {s s' : State} {command : Command} {key : CommandKey}

/-! ## Publications -/

/-- What is recorded under a start key. -/
def State.startRecord (s : State) (workflow startKey : String) : Option StartKeyRecord :=
  mapGet ((mapGet s.startKeys workflow).getD []) startKey

inductive Fulfilled (env : Env) (o : Enumeration) (s : State) (command : Command)
    (key : CommandKey) : PublicationOperation → Published → Prop
  | kept {operation : PublicationOperation} {run : Option RunId} {digest : Option String}
      {version : Option Nat} :
      Fulfilled env o s command key operation
        { state := s, disposition := .applied run digest version }
  | catalog {version : Nat} {catalog : Catalog} {catalogs} {digest : Option String}
      {number : Option Nat} :
      Fulfilled env o s command key (.catalog version catalog)
        { state := { s with publishedCatalogs := catalogs }
          disposition := .applied none digest number }
  | definition {definition : Definition} {version : Nat} {definitions} {digest : Option String}
      {number : Option Nat} :
      Fulfilled env o s command key (.definition definition version)
        { state := { s with publishedDefinitions := definitions }
          disposition := .applied none digest number }
  | start {workflow : String} {version : Option Nat} {startKey : String} {input : Value}
      {pinned : PublishedDefinition} {catalog : PublishedCatalog} {run : RunId}
      {progressed : Outcome} {started : List Step} {keys} {digest : Option String}
      {number : Option Nat} {range : Option EventRange}
      (hrecord : s.startRecord workflow startKey = none)
      (hstarted : admitPublished env o s command key pinned catalog input =
        .ok (run, progressed, started)) :
      Fulfilled env o s command key (.start workflow version startKey input)
        { state := { progressed.state with startKeys := keys }
          disposition := .applied (some run) digest number
          range, steps := started ++ progressed.steps }

/-- A start with a new key has a digest of its input and a definition to be pinned to. -/
theorem checkStart_new {workflow startKey : String} {version : Option Nat} {input : Value}
    {pinned : PublishedDefinition} {catalog : PublishedCatalog} {inputDigest : String}
    (h : checkStart env s workflow version startKey input = .ok (.new pinned catalog inputDigest)) :
    payloadDigest env (.value input) maxPayloadBytes = .ok inputDigest ∧
      s.startRecord workflow startKey = none ∧
      pinnedVersion env s workflow version = .ok (pinned, catalog) := by
  simp only [checkStart, bind_eq_ok] at h
  obtain ⟨_, -, _, -, digest, hdigest, h⟩ := h
  split at h
  · simp only [checkExisting, bind_eq_ok, pure_eq_ok, reduceCtorEq, and_false, exists_false] at h
  · next hrecord =>
    simp only [checkNew, bind_eq_ok, pure_eq_ok, Prod.exists, Checked.new.injEq] at h
    obtain ⟨_, _, hpinned, _, -, _, -, rfl, rfl, rfl⟩ := h
    exact ⟨hdigest, hrecord, hpinned⟩

theorem applyRequest_fulfilled {operation : PublicationOperation} {published : Published}
    (h : applyRequest env o s command key operation = .ok published) :
    Fulfilled env o s command key operation published := by
  simp only [applyRequest, bind_eq_ok] at h
  obtain ⟨_, -, _, -, h⟩ := h
  cases operation with
  | catalog =>
    simp only [applyOperation, publishCatalog, bind_eq_ok] at h
    obtain ⟨_, -, _, -, _, -, digest, -, h⟩ := h
    split at h
    · obtain ⟨_, -, rfl⟩ := by simpa only [bind_eq_ok, pure_eq_ok] using h
      exact .kept
    · obtain ⟨_, -, rfl⟩ := by simpa only [bind_eq_ok, pure_eq_ok] using h
      exact .catalog
  | definition =>
    simp only [applyOperation, publishDefinition, bind_eq_ok] at h
    obtain ⟨_, -, h⟩ := h
    split at h
    · obtain ⟨_, -, rfl⟩ := by simpa only [bind_eq_ok, pure_eq_ok] using h
      exact .kept
    · obtain rfl := pure_eq_ok.mp h
      exact .definition
  | start =>
    simp only [applyOperation, publishStart, bind_eq_ok] at h
    obtain ⟨checked, hchecked, h⟩ := h
    cases checked with
    | existing record =>
      obtain rfl := pure_eq_ok.mp h
      exact .kept
    | new =>
      simp only [finishStart, bind_eq_ok, pure_eq_ok, Prod.exists] at h
      obtain ⟨run, progressed, started, hstarted, _, -, rfl⟩ := h
      exact .start (checkStart_new hchecked).2.1 hstarted

/-! ## Commands -/

inductive Committed (env : Env) (o : Enumeration) (s : State) (command : Command) :
    Outcome → Prop
  | again {events : List DomainEvent} :
      Committed env o s command { state := s, events, steps := [] }
  | pruned {inner : Command} {actor : Option String} {limit time : Nat} {pruned : State}
      {events : List DomainEvent} (hcause : command.intoCause = .ok (inner, actor))
      (hbody : inner.body = .pruneHistory limit) (hlater : s.engineTimeWatermarkMs ≤ time)
      (hpruned : prune env o { s with engineTimeWatermarkMs := time } inner.id time limit =
        .ok (pruned, events)) :
      Committed env o s command {
        state := { pruned with
          commands := pruned.commands.insert inner.id events
          commandTimes := pruned.commandTimes.insert inner.id time }
        events, steps := [] }
  | first {inner prepared : Command} {actor digest : Option String} {externalId : CommandId}
      {applied : Outcome} {digests} (hcause : command.intoCause = .ok (inner, actor))
      (hprepared : prepareCommand env s inner actor = .ok (prepared, externalId, digest))
      (happlied : applyCommandWithActor env o (insertStarted s prepared.body) prepared actor
        externalId digest = .ok applied) :
      Committed env o s command
        { applied with state := { applied.state with legacyStartDigests := digests } }

theorem commitCommand_committed {outcome : Outcome}
    (h : commitCommand env o s command = .ok outcome) : Committed env o s command outcome := by
  simp only [commitCommand, bind_eq_ok, Prod.exists] at h
  obtain ⟨inner, actor, hcause, h⟩ := h
  split at h
  · next limit hbody =>
    simp only [commitPrune, bind_eq_ok] at h
    obtain ⟨_, -, _, -, h⟩ := h
    split at h
    · obtain rfl := pure_eq_ok.mp h
      exact .again
    · simp only [bind_eq_ok, pure_eq_ok, Prod.exists] at h
      obtain ⟨_, -, pruned, events, hpruned, rfl⟩ := h
      exact .pruned hcause hbody (Nat.le_max_right ..) hpruned
  · simp only [bind_eq_ok, Prod.exists] at h
    obtain ⟨prepared, externalId, digest, hprepared, startDigest, -, _, -, h⟩ := h
    split at h
    · simp only [bind_eq_ok, pure_eq_ok] at h
      obtain ⟨_, -, _, -, rfl⟩ := h
      exact .again
    · obtain ⟨applied, happlied, h⟩ := bind_eq_ok.mp h
      split at h <;>
        · obtain rfl := pure_eq_ok.mp h
          exact .first hcause hprepared happlied

/-! ## Retention -/

/-- Inboxes are pruned entry by entry. -/
theorem pruneInbox_keeps {P : State → Prop} {id : CommandId} {time : Nat}
    (expired : ∀ s cause run event applied marked, P s →
      applyEventsWithCause env cause s [.eventExpired run event] = .ok applied →
      checkpointAfterCommand env applied run time = .ok marked → P marked)
    (dropped : ∀ s key, P s → P { s with toCore := dropInbox s.toCore key })
    {keys : List (Option RunId × EventId)} {es : List DomainEvent}
    (h : pruneInbox env id time s keys = .ok (s', es)) (hs : P s) : P s' := by
  induction keys generalizing s es with
  | nil =>
    simp only [pruneInbox, pure_eq_ok, Prod.mk.injEq] at h
    exact h.1 ▸ hs
  | cons key keys ih =>
    simp only [pruneInbox, bind_eq_ok] at h
    obtain ⟨entry, -, _, -, h⟩ := h
    split at h
    · simp only [bind_eq_ok, pure_eq_ok, Prod.exists, Prod.mk.injEq] at h
      obtain ⟨applied, happlied, marked, hmarked, final, others, hrest, rfl, -⟩ := h
      exact ih hrest (expired _ _ _ _ _ _ hs happlied hmarked)
    · exact ih h (dropped _ _ hs)

theorem checkpointAfterCommand_eq {run : RunId} {time : Nat}
    (h : checkpointAfterCommand env s run time = .ok s') :
    ∃ checkpoints, s' = { s with checkpoints } := by
  unfold checkpointAfterCommand at h
  split at h
  · exact ⟨_, (pure_eq_ok.mp h).symm⟩
  · dsimp only at h
    split at h
    · exact ⟨_, (pure_eq_ok.mp h).symm⟩
    · simp only [bind_eq_ok, pure_eq_ok] at h
      obtain ⟨_, -, _, -, _, -, rfl⟩ := h
      exact ⟨_, rfl⟩

theorem stampTerminal_cases {time : Nat} {e : DomainEvent} (h : stampTerminal time s e = .ok s') :
    s' = s ∨ ∃ run, e.isRunEnd = true ∧ eventOwner s.toCore e = .ok (some run) ∧
      s' = { s with toCore := s.toCore.modifyRun run fun r => { r with terminalMs := time } } := by
  unfold stampTerminal at h
  split at h
  · next hend =>
    obtain ⟨owner, howner, h⟩ := bind_eq_ok.mp h
    cases owner with
    | none => exact .inl (pure_eq_ok.mp h).symm
    | some run => exact .inr ⟨run, hend, howner, (pure_eq_ok.mp h).symm⟩
  · exact .inl (pure_eq_ok.mp h).symm

/-- A run that is pruned has ended, and leaves a summary. -/
theorem pruneRun_eq {run : RunId} (h : pruneRun s run = .ok s') :
    ∃ runState summaries, s.runs.lookup run = some runState ∧ runState.status.isActive = false ∧
      s' = { s with
        toCore := dropRun s.toCore run
        terminalSummaries := summaries
        history := s.history.erase run
        historyRecords := s.historyRecords.erase run
        historyDependencies := s.historyDependencies.erase run
        checkpoints := s.checkpoints.erase run } := by
  simp only [pruneRun, bind_eq_ok, okOr_eq_ok] at h
  obtain ⟨runState, hrun, h⟩ := h
  cases hstatus : runState.status with
  | active => simp only [hstatus, bind_eq_ok, throw_eq_ok, false_and, exists_false] at h
  | succeeded | failed =>
    simp only [hstatus, bind_eq_ok, pure_eq_ok] at h
    obtain ⟨_, -, rfl⟩ := h
    exact ⟨runState, _, hrun, by rw [hstatus]; rfl, rfl⟩

/-! ## Changes -/

/-- The id under which a command creates a run, if there is no such run: the one derived for a
published start of a pair that has no record, or the one that an inline start names. -/
def createdRun? (env : Env) (s : State) (command : Command) : Option RunId :=
  (match command.body with
    | .publication key (.start workflow _ startKey _) =>
      if (s.startRecord workflow startKey).isNone ∧ (mapGet s.commandResults key.storageKey).isNone
      then some (⟨(env.publishedIds key).1⟩ : RunId) else none
    | .start run _ _ _ | .authenticated _ (.start run _ _ _) => some run
    | _ => none).filter fun run => (s.runs.lookup run).isNone

/-- What an entry may do beside deciding commands: the ids under which it may create runs, and
whether it may prune or publish. -/
structure Permit where
  creates : RunId → Prop
  prunes : Prop
  publishes : Prop

/-- Nothing but deciding commands. -/
def Permit.none : Permit where
  creates _ := False
  prunes := False
  publishes := False

def Command.permit (env : Env) (s : State) (command : Command) : Permit where
  creates run := createdRun? env s command = some run
  prunes := ∃ limit, command.body = .pruneHistory limit
  publishes := ∃ key operation, command.body = .publication key operation

/-- One of the changes that an entry consists of, with the steps it takes. -/
inductive Change (env : Env) (permit : Permit) : State → List Step → State → Prop
  | timed {s : State} {time : Nat} (hlater : s.engineTimeWatermarkMs ≤ time) :
      Change env permit s [] { s with engineTimeWatermarkMs := time }
  | admitted {s : State} {run : RunId} {definition : Definition} {catalog : Catalog}
      {published : Option PinnedPublication} (hpermit : permit.creates run)
      (hnew : s.runs.lookup run = none) :
      Change env permit s [] (s.addRun run definition catalog published)
  | decided {s s' : State} {o : Enumeration} {command : Command} {d : Decision} {cause : Cause}
      {replayed : Bool} (hdecision : decide env o s command = .ok d)
      (hclock : command.time = s.engineTimeWatermarkMs)
      (hnew : replayed = false → s.commands.lookup command.id = none)
      (hstart : replayed = true → ∃ run definition input catalog,
        command.body = .start run definition input catalog)
      (happlied : applyEventsWithCause env cause s d.events = .ok s') :
      Change env permit s (stepsOf replayed command.body command.time s.toCore d.portions) s'
  | checkpointed {s : State} {checkpoints} : Change env permit s [] { s with checkpoints }
  | filed {s : State} {commands commandTimes commandActors commandExternalIds
      authenticatedRequestDigests legacyStartDigests workerCommandDigests} :
      Change env permit s [] { s with
        commands, commandTimes, commandActors, commandExternalIds, authenticatedRequestDigests,
        legacyStartDigests, workerCommandDigests }
  | published {s : State} {publishedCatalogs publishedDefinitions startKeys commandResults}
      (hpermit : permit.publishes) :
      Change env permit s [] { s with
        publishedCatalogs, publishedDefinitions, startKeys, commandResults }
  | cleared {s : State} {keys : List String} (hpermit : permit.prunes) :
      Change env permit s [] { s with
        commandResults := s.commandResults.filter fun e => e.1 ∉ keys }
  | expired {s s' : State} {cause : Cause} {run : RunId} {event : EventId}
      (hpermit : permit.prunes)
      (h : applyEventsWithCause env cause s [.eventExpired run event] = .ok s') :
      Change env permit s [] s'
  | dropped {s : State} {key : Option RunId × EventId} (hpermit : permit.prunes) :
      Change env permit s [] { s with toCore := dropInbox s.toCore key }
  | retired {s : State} {run : RunId} {runState : RunState} {terminalSummaries}
      (hpermit : permit.prunes) (hrun : s.runs.lookup run = some runState)
      (hended : runState.status.isActive = false) :
      Change env permit s [] { s with
        toCore := dropRun s.toCore run
        terminalSummaries
        history := s.history.erase run
        historyRecords := s.historyRecords.erase run
        historyDependencies := s.historyDependencies.erase run
        checkpoints := s.checkpoints.erase run }
  | dismissed {s : State} {run : RunId} (hpermit : permit.prunes) :
      Change env permit s [] (pruneSummary s run)

/-- The changes of an entry, one after the other. The end of a run is stamped after the step that
has recorded it. -/
inductive Changes (env : Env) (permit : Permit) (s : State) : List Step → State → Prop
  | refl : Changes env permit s [] s
  | step {log log' : List Step} {s' s'' : State} (first : Changes env permit s log s')
      (change : Change env permit s' log' s'') : Changes env permit s (log ++ log') s''
  | stamped {log : List Step} {s' : State} {e : DomainEvent} {run : RunId} {time : Nat}
      (first : Changes env permit s log s') (hpast : ∃ step ∈ log, e ∈ step.events)
      (hend : e.isRunEnd = true) (howner : eventOwner s'.toCore e = .ok (some run)) :
      Changes env permit s log
        { s' with toCore := s'.toCore.modifyRun run fun r => { r with terminalMs := time } }

section Changes

variable {permit : Permit} {log log' : List Step} {s'' : State} {outcome : Outcome}
  {α : Type}

theorem Changes.trans (first : Changes env permit s log s')
    (second : Changes env permit s' log' s'') : Changes env permit s (log ++ log') s'' := by
  induction second with
  | refl => rwa [List.append_nil]
  | step _ change ih =>
    rw [← List.append_assoc]
    exact ih.step change
  | stamped _ hpast hend howner ih =>
    obtain ⟨step, hstep, he⟩ := hpast
    exact ih.stamped ⟨step, List.mem_append_right _ hstep, he⟩ hend howner

theorem Changes.one (change : Change env permit s log s') : Changes env permit s log s' := by
  simpa using Changes.refl.step change

/-- A change that takes no step. -/
theorem Changes.also (first : Changes env permit s log s')
    (change : Change env permit s' [] s'') : Changes env permit s log s'' := by
  simpa using first.step change

theorem Changes.foldlM {f : State → α → Result State} {xs : List α}
    (first : Changes env permit s log s')
    (hf : ∀ t a t', f t a = .ok t' → Change env permit t [] t') (h : xs.foldlM f s' = .ok s'') :
    Changes env permit s log s'' :=
  foldlM_keeps (P := Changes env permit s log)
    (fun t a t' ht hchanges => hchanges.also (hf t a t' ht)) h first

theorem Changes.foldl {f : State → α → State} (first : Changes env permit s log s')
    (hf : ∀ t a, Change env permit t [] (f t a)) (xs : List α) :
    Changes env permit s log (xs.foldl f s') := by
  induction xs generalizing s' with
  | nil => exact first
  | cons a xs ih => exact ih (first.also (hf s' a))

theorem mem_stepsOf {replayed : Bool} {body : CommandBody} {time : Nat} {core : Core}
    {portions : List Portion} {e : DomainEvent} (he : e ∈ portions.flatMap (·.events)) :
    ∃ step ∈ stepsOf replayed body time core portions, e ∈ step.events := by
  induction portions generalizing core with
  | nil => cases he
  | cons portion rest ih =>
    rw [List.flatMap_cons, List.mem_append] at he
    rcases he with he | he
    · exact ⟨_, List.mem_cons_self, he⟩
    · obtain ⟨step, hstep, he⟩ := ih he
      exact ⟨step, List.mem_cons_of_mem _ hstep, he⟩

theorem applyCommandWithActor_changes {actor : Option String} {externalId : CommandId}
    {digest : Option String}
    (h : applyCommandWithActor env o s command actor externalId digest = .ok outcome) :
    Changes env permit s outcome.steps outcome.state := by
  obtain ⟨workerDigest, -, h⟩ := bind_eq_ok.mp h
  cases hnew : s.commands.lookup command.id with
  | some events =>
    simp only [hnew, bind_eq_ok, pure_eq_ok] at h
    obtain ⟨_, -, rfl⟩ := h
    exact .refl
  | none =>
    simp only [hnew, bind_eq_ok, pure_eq_ok] at h
    obtain ⟨decision, hdecision, applied, happlied, stamped, hstamped, affected, -, final, hfinal,
      rfl⟩ := h
    have htimed : Changes env permit s [] _ :=
      .one (.timed (Nat.le_max_right command.time _))
    have happly := htimed.step (.decided hdecision rfl (fun _ => hnew)
      (fun hreplayed : false = true => absurd hreplayed (by decide)) happlied)
    have hstamp := foldlM_keeps_mem (P := Changes env permit s _)
      (fun t e t' hmem h hchanges => ?_) hstamped happly
    · refine Changes.foldlM (hstamp.also ?_) (fun t run t' h => ?_) hfinal
      · cases actor <;> exact .filed
      · obtain ⟨_, rfl⟩ := checkpointAfterCommand_eq h
        exact .checkpointed
    · rcases stampTerminal_cases h with rfl | ⟨run, hend, howner, rfl⟩
      · exact hchanges
      · exact hchanges.stamped (mem_stepsOf hmem) hend howner

theorem applyCommand_changes (h : applyCommand env o s command = .ok outcome) :
    Changes env permit s outcome.steps outcome.state := by
  simp only [applyCommand, bind_eq_ok, Prod.exists] at h
  obtain ⟨command, actor, -, command', externalId, digest, -, h⟩ := h
  exact applyCommandWithActor_changes h

theorem pruneInbox_changes {id : CommandId} {time : Nat} {es : List DomainEvent}
    {keys : List (Option RunId × EventId)} (hpermit : permit.prunes)
    (h : pruneInbox env id time s' keys = .ok (s'', es)) (first : Changes env permit s log s') :
    Changes env permit s log s'' :=
  pruneInbox_keeps (fun _ _ _ _ _ _ ht happlied hmarked => by
      obtain ⟨_, rfl⟩ := checkpointAfterCommand_eq hmarked
      exact (ht.also (.expired hpermit happlied)).also .checkpointed)
    (fun _ _ ht => ht.also (.dropped hpermit)) h first

theorem prune_changes {id : CommandId} {time limit : Nat} {es : List DomainEvent}
    (hpermit : permit.prunes) (h : prune env o s id time limit = .ok (s', es)) :
    Changes env permit s [] s' := by
  simp only [prune, bind_eq_ok, pure_eq_ok, Prod.exists, Prod.mk.injEq] at h
  obtain ⟨inboxed, events, hinbox, dropped, hdropped, rfl, -⟩ := h
  have hinboxed : Changes env permit s [] inboxed := pruneInbox_changes hpermit hinbox
    (.foldl (.one (.cleared hpermit)) (fun _ _ => .filed) _)
  have hruns : Changes env permit s [] dropped := hinboxed.foldlM (fun t run t' h => by
    obtain ⟨_, _, hrun, hended, rfl⟩ := pruneRun_eq h
    exact .retired hpermit hrun hended) hdropped
  exact hruns.foldl (fun _ _ => .dismissed hpermit) _

theorem insertStarted_changes {body : CommandBody}
    (hpermit : ∀ run definition input catalog, body = .start run definition input catalog →
      s.runs.lookup run = none → permit.creates run) :
    Changes env permit s [] (insertStarted s body) := by
  unfold insertStarted
  split
  · next run definition input catalog =>
    split
    · exact .refl
    · next hused =>
      have hnew : s.runs.lookup run = none := by simpa using hused
      exact .one (.admitted (hpermit run definition input catalog rfl hnew) hnew)
  · exact .refl

/-- The body of a command is prepared as it was sent, with or without a principal. -/
theorem prepareCommand_body {inner prepared : Command} {actor digest : Option String}
    {externalId : CommandId}
    (h : prepareCommand env s inner actor = .ok (prepared, externalId, digest)) :
    prepared.body = inner.body := by
  cases actor with
  | none =>
    simp only [prepareCommand, bind_eq_ok, pure_eq_ok, Prod.mk.injEq] at h
    obtain ⟨_, -, rfl, -⟩ := h
    rfl
  | some actor =>
    simp only [prepareCommand, bind_eq_ok, pure_eq_ok, Prod.mk.injEq] at h
    obtain ⟨_, -, _, -, rfl, -⟩ := h
    rfl

theorem commitCommand_changes (h : commitCommand env o s command = .ok outcome) :
    Changes env (command.permit env s) s outcome.steps outcome.state := by
  cases commitCommand_committed h with
  | again => exact .refl
  | @pruned inner _ limit _ _ _ hcause hbody hlater hpruned =>
    -- No principal can cause a retention.
    have hprunes : command.body = .pruneHistory limit := by
      unfold Command.intoCause at hcause
      split at hcause
      · simp only [bind_eq_ok, refuseIf_eq_ok, pure_eq_ok, Prod.mk.injEq] at hcause
        obtain ⟨_, hvalid, rfl, -⟩ := hcause
        simp only at hbody
        simp [hbody, CommandBody.isInternal] at hvalid
      · obtain ⟨rfl, -⟩ := Prod.mk.inj (pure_eq_ok.mp hcause)
        exact hbody
    have htimed : Changes env (command.permit env s) s [] _ := .one (.timed hlater)
    exact (htimed.trans (prune_changes ⟨limit, hprunes⟩ hpruned)).also .filed
  | @first inner prepared _ _ _ _ _ hcause hprepared happlied =>
    -- The run that an inline start names, with or without a principal, is the one created.
    have hrun : ∀ run definition input catalog, inner.body = .start run definition input catalog →
        s.runs.lookup run = none → createdRun? env s command = some run := by
      intro run definition input catalog hinner hnone
      unfold Command.intoCause at hcause
      unfold createdRun?
      split at hcause
      · next principalId body heq =>
        simp only [bind_eq_ok, pure_eq_ok, Prod.mk.injEq] at hcause
        obtain ⟨_, -, rfl, -⟩ := hcause
        obtain rfl : body = _ := hinner
        simp [heq, hnone, Option.filter]
      · obtain ⟨rfl, -⟩ := Prod.mk.inj (pure_eq_ok.mp hcause)
        simp [hinner, hnone, Option.filter]
    have hinserted : Changes env (command.permit env s) s [] _ :=
      insertStarted_changes (prepareCommand_body hprepared ▸ hrun)
    exact (hinserted.trans (applyCommandWithActor_changes happlied)).also .filed

/-- An admission creates the run and makes its first progress. -/
theorem admitPublished_changes {pinned : PublishedDefinition} {catalog : PublishedCatalog}
    {input : Value} {run : RunId} {progressed : Outcome} {started : List Step}
    (htime : command.time = s.engineTimeWatermarkMs)
    (h : admitPublished env o s command key pinned catalog input =
      .ok (run, progressed, started)) :
    run = ⟨(env.publishedIds key).1⟩ ∧ s.runs.lookup run = none ∧
      Changes env permit (s.addRun run pinned.definition catalog.catalog
        (some (pinned.identity catalog))) (started ++ progressed.steps) progressed.state := by
  simp only [admitPublished, bind_eq_ok, refuseIf_eq_ok, pure_eq_ok, Prod.mk.injEq] at h
  obtain ⟨_, hused, decision, hdecision, applied, happlied, outcome, hprogress, rfl, rfl, rfl⟩ := h
  have hnew : s.runs.lookup ⟨(env.publishedIds key).1⟩ = none := by simpa using hused
  refine ⟨rfl, hnew, .trans (.one (.decided hdecision htime (fun hreplayed => ?_)
    (fun _ => ⟨_, _, _, _, rfl⟩) happlied)) (applyCommand_changes hprogress)⟩
  simpa using hreplayed

theorem applyPublication_changes {operation : PublicationOperation} (hpublishes : permit.publishes)
    (hcreates : ∀ workflow version startKey input,
      operation = .start workflow version startKey input →
      s.startRecord workflow startKey = none → mapGet s.commandResults key.storageKey = none →
      s.runs.lookup ⟨(env.publishedIds key).1⟩ = none →
        permit.creates ⟨(env.publishedIds key).1⟩) :
    Changes env permit s (applyPublication env o s command key operation).2
      (applyPublication env o s command key operation).1 := by
  have htimed : Changes env permit s [] _ :=
    .one (.timed (Nat.le_max_right command.time s.engineTimeWatermarkMs))
  unfold applyPublication
  split
  · exact .refl
  · next hfirst =>
    dsimp only
    split
    · next published h =>
      cases applyRequest_fulfilled h with
      | kept | catalog | definition => exact htimed.also (.published hpublishes)
      | @start workflow version startKey input _ _ _ _ _ _ _ _ _ hrecord hadmit =>
        obtain ⟨rfl, hnew, hchanges⟩ := admitPublished_changes rfl hadmit
        have hpermit := hcreates workflow version startKey input rfl hrecord (by simpa using hfirst)
          hnew
        exact ((htimed.also (.admitted hpermit hnew)).trans hchanges).also (.published hpublishes)
    · exact .one (.published hpublishes)

/-- What a member does with an entry of the log. -/
theorem applyEntry_changes (command : Command) :
    Changes env (command.permit env s) s (applyEntry env o s command).2
      (applyEntry env o s command).1 := by
  unfold applyEntry
  split
  · next key operation hbody =>
    split
    · exact .refl
    · refine applyPublication_changes ⟨key, operation, hbody⟩ ?_
      intro workflow version startKey input hoperation hrecord hfirst hnew
      show createdRun? env s command = _
      unfold createdRun?
      simp [hbody, hoperation, hrecord, hfirst, hnew, Option.filter]
  · split
    · next outcome h => exact commitCommand_changes h
    · exact .refl

end Changes

end Graphrun
