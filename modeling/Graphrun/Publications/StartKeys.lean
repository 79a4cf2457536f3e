import Graphrun.Publications.Pins
import Graphrun.Compiler.Contexts
import Mathlib.Data.String.Basic

/-!
# One run for each start key

A published start is answered from three tables that are emptied at different times: the receipts
of requests after a day, the runs when their history expires, and the records of start keys with
the summaries of their runs. While the record of a start key is kept, every start with that key is
answered with the run of the record or rejected (`Served.kept`), and one request only has admitted
the run.

That the run stays what it was admitted as fails if the command id of the admission is used again
after its receipt and its run are gone: the id of the run is derived from the command id, and only
the table of runs is asked whether it is free (`readmitted_run`). It holds if runs are created under
ids that no record names (`one_run_per_start_key`).
-/

namespace Graphrun

open Lib

variable {env : Env} {o : Enumeration} {s s' : State} {workflow startKey : String} {κ α : Type}
  {startKeys : List (String × List (String × StartKeyRecord))} {record : StartKeyRecord}
  {catalog : PublishedCatalog} {key : CommandKey} {published : Published} {svc : Service}
  {operation : PublicationOperation} {C : State → Command → Prop}

/-! ## Services -/

/-- What the request of a publication entry is answered with. -/
def publicationReply (env : Env) (o : Enumeration) (s : State) (command : Command)
    (key : CommandKey) (operation : PublicationOperation) : CommandResult :=
  match mapGet s.commandResults key.storageKey with
  | some previous => answerAgain env command key operation previous
  | none =>
    let time := max command.time s.engineTimeWatermarkMs
    let command := { command with time }
    match applyRequest env o { s with engineTimeWatermarkMs := time } command key operation with
    | .ok published => receiptFor env command key operation published.disposition published.range
    | .error fault => receiptFor env command key operation fault.rejection none

/-- A request that has been answered. -/
structure Service where
  before : State
  operation : PublicationOperation
  receipt : CommandResult
  after : State

def servicesOf (env : Env) (o : Enumeration) (s : State) (command : Command) : List Service :=
  match command.body with
  | .publication key operation =>
    if key.commandId ≠ command.id ∨ key.clusterId = "" ∨ key.principalId = "" then []
    else [{
      before := s, operation, receipt := publicationReply env o s command key operation
      after := (applyEntry env o s command).1 }]
  | _ => []

/-- The requests answered and the state reached by entries that meet a condition, as long as the
record of a start key is not pruned. -/
inductive Served (env : Env) (C : State → Command → Prop) (workflow startKey : String) :
    List Service → State → Prop
  | empty (cluster : String) : Served env C workflow startKey [] (.empty cluster)
  | entry {log : List Service} {s : State} (served : Served env C workflow startKey log s)
      (o : Enumeration) (command : Command) (condition : C s command)
      (kept : (s.startRecord workflow startKey).isSome →
        ((applyEntry env o s command).1.startRecord workflow startKey).isSome) :
      Served env C workflow startKey (log ++ servicesOf env o s command)
        (applyEntry env o s command).1

/-! ## Tables -/

theorem mapGet_of_mem [DecidableEq κ] {m : List (κ × α)} {k : κ} {v : α}
    (hnodup : (m.map (·.1)).Nodup) (h : (k, v) ∈ m) : mapGet m k = some v := by
  obtain ⟨e, he⟩ : ∃ e, m.find? (fun e => e.1 = k) = some e := by
    rw [← Option.isSome_iff_exists, List.find?_isSome]
    exact ⟨(k, v), h, by simp⟩
  have hkey : e.1 = k := by simpa using List.find?_some he
  have heq : e = (k, v) :=
    List.inj_on_of_nodup_map hnodup (List.mem_of_find?_eq_some he) h hkey
  rw [mapGet, he, heq]
  rfl

theorem mapGet_of_filter [DecidableEq κ] {m : List (κ × α)} {k : κ} {v : α} {p : κ × α → Bool}
    (hnodup : (m.map (·.1)).Nodup) (h : mapGet (m.filter p) k = some v) :
    mapGet m k = some v :=
  mapGet_of_mem hnodup (List.mem_of_mem_filter (mem_of_mapGet h))

theorem mapGet_map {β : Type} [DecidableEq κ] {m : List (κ × α)} {k : κ} {f : α → β} :
    mapGet (m.map fun e => (e.1, f e.2)) k = (mapGet m k).map f := by
  simp only [mapGet, List.find?_map, Option.map_map]
  rfl

/-- The keys of an ordered map. -/
def Ascending {α : Type} (m : List (String × α)) : Prop := (m.map (·.1)).Pairwise (· < ·)

theorem Ascending.nodup {m : List (String × α)} (h : Ascending m) :
    (m.map (·.1)).Nodup := h.imp ne_of_lt

theorem mem_keys_mapInsert {m : List (String × α)} {k key : String} {v : α}
    (h : key ∈ (mapInsert k v m).map (·.1)) : key = k ∨ key ∈ m.map (·.1) := by
  induction m with
  | nil => simpa [mapInsert] using h
  | cons e rest ih =>
    unfold mapInsert at h
    split at h
    · simpa using h
    · split at h
      · next heq =>
        rw [List.map_cons, List.mem_cons] at h
        exact h.imp_right fun hrest => List.mem_cons_of_mem _ hrest
      · rw [List.map_cons, List.mem_cons] at h
        rcases h with heq | hrest
        · exact .inr (heq ▸ List.mem_cons_self)
        · exact (ih hrest).imp_right fun hmem => List.mem_cons_of_mem _ hmem

theorem Ascending.mapInsert {m : List (String × α)} (h : Ascending m) (k : String) (v : α) :
    Ascending (mapInsert k v m) := by
  induction m with
  | nil => simp [Ascending, Graphrun.mapInsert]
  | cons e rest ih =>
    obtain ⟨hfirst, hrest⟩ := List.pairwise_cons.mp h
    unfold Graphrun.mapInsert
    split
    · next hlt =>
      refine List.pairwise_cons.mpr ⟨fun key hkey => ?_, h⟩
      rcases List.mem_cons.mp hkey with rfl | hmem
      · exact hlt
      · exact hlt.trans (hfirst key hmem)
    · next hnlt =>
      split
      · next heq =>
        refine List.pairwise_cons.mpr ⟨fun key hkey => ?_, hrest⟩
        exact heq ▸ hfirst key hkey
      · next hne =>
        refine List.pairwise_cons.mpr ⟨fun key hkey => ?_, ih hrest⟩
        rcases mem_keys_mapInsert hkey with rfl | hmem
        · exact lt_of_le_of_ne (not_lt.mp hnlt) (Ne.symm hne)
        · exact hfirst key hmem

/-- The tables of start keys are ordered maps of ordered maps. -/
structure Tidy (startKeys : List (String × List (String × StartKeyRecord))) : Prop where
  workflows : Ascending startKeys
  keys : ∀ e ∈ startKeys, Ascending e.2

def recordIn (startKeys : List (String × List (String × StartKeyRecord)))
    (workflow startKey : String) : Option StartKeyRecord :=
  mapGet ((mapGet startKeys workflow).getD []) startKey

/-- Records are put in as they are asked for. -/
theorem recordIn_mapInsert {workflow' startKey' : String} :
    recordIn (mapInsert workflow (mapInsert startKey record
        ((mapGet startKeys workflow).getD [])) startKeys) workflow' startKey' =
      if workflow' = workflow ∧ startKey' = startKey then some record
      else recordIn startKeys workflow' startKey' := by
  unfold recordIn
  rw [mapGet_mapInsert]
  by_cases hworkflow : workflow' = workflow
  · subst hworkflow
    rw [if_pos rfl, Option.getD_some, mapGet_mapInsert]
    simp
  · rw [if_neg hworkflow, if_neg fun h => hworkflow h.1]

theorem Tidy.mapInsert (tidy : Tidy startKeys) (record : StartKeyRecord) :
    Tidy (mapInsert workflow (mapInsert startKey record ((mapGet startKeys workflow).getD []))
      startKeys) := by
  refine ⟨tidy.workflows.mapInsert _ _, fun e he => ?_⟩
  have hentry : mapGet _ e.1 = some e.2 := mapGet_of_mem (tidy.workflows.mapInsert _ _).nodup he
  rw [mapGet_mapInsert] at hentry
  split at hentry
  · rw [← Option.some.inj hentry]
    refine Ascending.mapInsert ?_ _ _
    cases hold : mapGet startKeys workflow with
    | none => exact List.Pairwise.nil
    | some keys => exact tidy.keys _ (mem_of_mapGet hold)
  · exact tidy.keys _ (mem_of_mapGet hentry)

theorem Tidy.drop (tidy : Tidy startKeys) (id : RunId) :
    Tidy (startKeys.map fun e => (e.1, e.2.filter fun key => key.2.run ≠ id)) := by
  refine ⟨?_, fun e he => ?_⟩
  · have hkeys : (startKeys.map fun e => (e.1, e.2.filter fun key => key.2.run ≠ id)).map (·.1) =
        startKeys.map (·.1) := by simp [Function.comp_def]
    rw [Ascending, hkeys]
    exact tidy.workflows
  · obtain ⟨e', he', rfl⟩ := List.mem_map.mp he
    exact List.Pairwise.sublist (List.filter_sublist.map _) (tidy.keys e' he')

/-- Retention removes records and puts nothing in their place. -/
theorem Tidy.record_of_drop (tidy : Tidy startKeys) (id : RunId)
    (h : recordIn (startKeys.map fun e => (e.1, e.2.filter fun key => key.2.run ≠ id)) workflow
      startKey = some record) : recordIn startKeys workflow startKey = some record := by
  unfold recordIn at h ⊢
  have hget : mapGet (startKeys.map fun e => (e.1, e.2.filter fun key => key.2.run ≠ id))
      workflow = (mapGet startKeys workflow).map fun keys =>
        keys.filter fun key => key.2.run ≠ id := mapGet_map
  rw [hget] at h
  cases hold : mapGet startKeys workflow with
  | none =>
    rw [hold] at h
    cases h
  | some keys =>
    rw [hold] at h
    exact mapGet_of_filter (tidy.keys _ (mem_of_mapGet hold)).nodup h

/-! ## What other commands leave -/

theorem mapGet_of_filter_keys [DecidableEq κ] {m : List (κ × α)} {k : κ} {v : α} {p : κ → Bool}
    (h : mapGet (m.filter fun e => p e.1) k = some v) : mapGet m k = some v := by
  obtain ⟨e, he, rfl⟩ := Option.map_eq_some_iff.mp h
  rw [List.find?_filter] at he
  have hkey : p e.1 = true ∧ e.1 = k := by simpa using List.find?_some he
  have hsame : (fun a : κ × α =>
        Decidable.decide (p a.1 = true ∧ Decidable.decide (a.1 = k) = true)) =
      fun a => Decidable.decide (a.1 = k) := by
    funext a
    by_cases ha : a.1 = k
    · simp [ha, ← hkey.2, hkey.1]
    · simp [ha]
  rw [hsame] at he
  rw [mapGet, he]
  rfl

/-- Records and receipts may go; those that are left are what they were. -/
structure Sheds (shelf shelf' : Shelf) : Prop where
  tidy : Tidy shelf.startKeys → Tidy shelf'.startKeys
  records : Tidy shelf.startKeys → ∀ workflow startKey record,
    recordIn shelf'.startKeys workflow startKey = some record →
      recordIn shelf.startKeys workflow startKey = some record
  results : ∀ key receipt, mapGet shelf'.results key = some receipt →
    mapGet shelf.results key = some receipt

theorem Sheds.of_eq {shelf shelf' : Shelf} (h : shelf' = shelf) : Sheds shelf shelf' where
  tidy tidy := h ▸ tidy
  records _ _ _ _ hrecord := h ▸ hrecord
  results _ _ hresult := h ▸ hresult

theorem Sheds.trans {a b c : Shelf} (h : Sheds a b) (h' : Sheds b c) : Sheds a c where
  tidy tidy := h'.tidy (h.tidy tidy)
  records tidy w k record hrecord :=
    h.records tidy w k record (h'.records (h.tidy tidy) w k record hrecord)
  results key receipt hresult := h.results key receipt (h'.results key receipt hresult)

theorem pruneSummary_sheds (s : State) (id : RunId) :
    Sheds s.shelf (pruneSummary s id).shelf where
  tidy tidy := tidy.drop id
  records tidy _ _ _ hrecord := tidy.record_of_drop id hrecord
  results _ _ hresult := hresult

theorem Changes.sheds {permit : Permit} {log : List Step} (changes : Changes env permit s log s')
    (hother : ¬ permit.publishes) : Sheds s.shelf s'.shelf := by
  induction changes with
  | refl => exact .of_eq rfl
  | @step _ _ mid _ _ change ih =>
    refine ih.trans ?_
    rcases change.shelf hother with h | ⟨-, ⟨_, h⟩ | ⟨run, h⟩⟩
    · exact .of_eq h
    · rw [h]
      exact ⟨fun tidy => tidy, fun _ _ _ _ hrecord => hrecord,
        fun _ _ hresult =>
          mapGet_of_filter_keys (p := fun key => Decidable.decide (key ∉ _)) hresult⟩
    · rw [h]
      exact pruneSummary_sheds mid run
  | stamped _ _ _ _ ih => exact ih

/-! ## What a start does -/

/-- What a run that has been admitted is pinned to, and under which version and digest. -/
structure PinnedAs (env : Env) (version : Nat) (digest : String) (p : Pins) : Prop where
  versioned : p.definition.version = version
  digested : p.definition.digest = digest
  identity : ∃ identity, p.published = some identity ∧ identity.definitionDigest = digest ∧
    payloadDigest env (.catalog p.catalog) publicCommandEnvelope = .ok identity.catalogDigest

theorem pinnedVersion_pinnedAs {version : Option Nat} {pinned : PublishedDefinition}
    (coherent : s.shelf.Coherent)
    (h : pinnedVersion env s workflow version = .ok (pinned, catalog)) :
    (∀ v ∈ version, v = pinned.definition.version) ∧
      PinnedAs env pinned.definition.version pinned.digest
        { definition := pinned.definition, catalog := catalog.catalog
          published := some (pinned.identity catalog) } := by
  simp only [pinnedVersion, bind_eq_ok, okOr_eq_ok, pure_eq_ok, Prod.mk.injEq] at h
  obtain ⟨versions, hversions, pinned, hpinned, _, hverified, catalog, -, _, hcatalog, rfl,
    rfl⟩ := h
  simp only [PublishedDefinition.verify, bind_eq_ok, refuseIf_eq_ok, not_or, not_not] at hverified
  obtain ⟨_, ⟨-, -, -, hdigest⟩, -⟩ := hverified
  simp only [PublishedCatalog.verify, bind_eq_ok, refuseIf_eq_ok, not_not] at hcatalog
  obtain ⟨_, -, digest, hcanonical, hsame⟩ := hcatalog
  refine ⟨fun v hv => ?_, ⟨rfl, hdigest, _, rfl, rfl, ?_⟩⟩
  · obtain rfl : version = some v := hv
    have hentry : s.shelf.definition? workflow v = some pinned := by
      simp only [Shelf.definition?, State.shelf, hversions]
      exact hpinned
    exact (coherent.keyed workflow v pinned hentry).2.symm
  · rw [hcanonical, ← hsame]
    rfl

/-- What a start is answered with: the run of the record of its pair, or a run that is admitted
and recorded. -/
inductive Started (env : Env) (s : State) (workflow : String) (version : Option Nat)
    (startKey : String) (input : Value) (published : Published) : Prop
  | renewed (record : StartKeyRecord)
      (hdigest : payloadDigest env (.value input) maxPayloadBytes = .ok record.inputDigest)
      (hrecord : s.startRecord workflow startKey = some record)
      (hagrees : ∀ v ∈ version, v = record.version)
      (hsame : published = {
        state := s, disposition := .applied (some record.run) none (some record.version) })
  | admitted (record : StartKeyRecord)
      (hdigest : payloadDigest env (.value input) maxPayloadBytes = .ok record.inputDigest)
      (hrecord : s.startRecord workflow startKey = none)
      (hagrees : ∀ v ∈ version, v = record.version) (hunused : s.pins record.run = none)
      (hkeys : published.state.startKeys = mapInsert workflow (mapInsert startKey record
        ((mapGet s.startKeys workflow).getD [])) s.startKeys)
      (hresults : published.state.commandResults = s.commandResults)
      (hpinned : ∃ p digest, published.state.pins record.run = some p ∧
        PinnedAs env record.version digest p ∧
        published.disposition = .applied (some record.run) (some digest) (some record.version))
      (hrange : ∃ events, published.state.history.lookup record.run = some events ∧
        published.range = some { run := record.run, first := 1, last := events.length })

/-- A start with the key of a run has its input and, if it names one, its version. -/
theorem checkStart_existing {version : Option Nat} {input : Value} {record : StartKeyRecord}
    (h : checkStart env s workflow version startKey input = .ok (.existing record)) :
    payloadDigest env (.value input) maxPayloadBytes = .ok record.inputDigest ∧
      s.startRecord workflow startKey = some record ∧ ∀ v ∈ version, v = record.version := by
  simp only [checkStart, bind_eq_ok] at h
  obtain ⟨_, -, _, -, digest, hdigest, h⟩ := h
  split at h
  · next hrecord =>
    simp only [checkExisting, bind_eq_ok, refuseIf_eq_ok, pure_eq_ok, not_or, not_not,
      Checked.existing.injEq] at h
    obtain ⟨_, ⟨rfl, hversion⟩, rfl⟩ := h
    refine ⟨hdigest, hrecord, fun v hv => ?_⟩
    obtain rfl : version = some v := hv
    simpa using hversion
  · simp only [checkNew, bind_eq_ok, pure_eq_ok, reduceCtorEq, and_false, exists_false] at h

theorem publishStart_started {command : Command} {version : Option Nat} {input : Value}
    (retained : Retained s) (coherent : s.shelf.Coherent)
    (htime : command.time = s.engineTimeWatermarkMs)
    (h : publishStart env o s command key workflow version startKey input = .ok published) :
    Started env s workflow version startKey input published := by
  simp only [publishStart, bind_eq_ok] at h
  obtain ⟨checked, hchecked, h⟩ := h
  cases checked with
  | existing record =>
    obtain rfl := pure_eq_ok.mp h
    obtain ⟨hdigest, hrecord, hversion⟩ := checkStart_existing hchecked
    exact .renewed record hdigest hrecord hversion rfl
  | new pinned catalog inputDigest =>
    obtain ⟨hdigest, hrecord, hpinned⟩ := checkStart_new hchecked
    simp only [finishStart, bind_eq_ok, refuseIf_eq_ok, pure_eq_ok, Prod.exists] at h
    obtain ⟨run, progressed, started, hadmit, _, hrange, rfl⟩ := h
    obtain ⟨hagrees, hpinnedAs⟩ := pinnedVersion_pinnedAs coherent hpinned
    obtain ⟨-, hnew, hchanges⟩ := admitPublished_changes htime hadmit
    have hshelf : progressed.state.shelf = s.shelf := hchanges.shelf
    have hpins := hchanges.creates.kept id run _ (pins_addRun.trans (if_pos rfl))
    have hkeys : progressed.state.startKeys = s.startKeys := congrArg Shelf.startKeys hshelf
    have hunused : s.pins run = none := by simp [State.pins, hnew]
    -- A run that is not there has no history, so that its first event is the first of all.
    have hhistory : s.history.lookup run = none := by
      by_contra hsome
      have hpinned := retained run (Option.isSome_iff_ne_none.mpr hsome)
      simp [hunused] at hpinned
    have hfirst : ((s.history.lookup run).map fun events => events.length + 1).getD 1 = 1 := by
      rw [hhistory]
      rfl
    rw [hfirst] at hrange
    obtain ⟨events, hevents⟩ : ∃ events, progressed.state.history.lookup run = some events := by
      by_contra hnone
      rw [not_exists] at hnone
      have hlookup := Option.eq_none_iff_forall_ne_some.mpr hnone
      simp [hlookup] at hrange
    let record : StartKeyRecord := {
      run, version := pinned.definition.version, inputDigest, admittedMs := command.time }
    refine .admitted record hdigest hrecord hagrees hunused ?_ (congrArg Shelf.results hshelf)
      ⟨_, pinned.digest, hpins, hpinnedAs, rfl⟩ ⟨events, hevents, ?_⟩
    · dsimp only
      rw [hkeys]
    · simp only [hfirst, hevents, Option.map_some, Option.getD_some, record]

/-! ## What a request does -/

/-- A start of a pair with the input and the version that are recorded for it. -/
def Requests (env : Env) (workflow startKey : String) (record : StartKeyRecord)
    (operation : PublicationOperation) : Prop :=
  ∃ version input, operation = .start workflow version startKey input ∧
    payloadDigest env (.value input) maxPayloadBytes = .ok record.inputDigest ∧
    ∀ v ∈ version, v = record.version

/-- A service that admitted the run of a pair. -/
structure Admission (env : Env) (workflow startKey : String) (record : StartKeyRecord)
    (svc : Service) : Prop where
  requests : Requests env workflow startKey record svc.operation
  unrecorded : svc.before.startRecord workflow startKey = none
  unused : svc.before.pins record.run = none
  startKeys : svc.after.startKeys =
    mapInsert workflow (mapInsert startKey record
      ((mapGet svc.before.startKeys workflow).getD [])) svc.before.startKeys
  pinned : ∃ p digest, svc.after.pins record.run = some p ∧
    PinnedAs env record.version digest p ∧
    svc.receipt.outcome = .applied (some record.run) (some digest) (some record.version)
  range : ∃ events, svc.after.history.lookup record.run = some events ∧
    svc.receipt.eventRange = some { run := record.run, first := 1, last := events.length }

/-- A service that named the run that is recorded for a pair. -/
structure Renewal (env : Env) (workflow startKey : String) (record : StartKeyRecord)
    (svc : Service) : Prop where
  requests : Requests env workflow startKey record svc.operation
  recorded : svc.before.startRecord workflow startKey = some record
  runs : svc.after.runs = svc.before.runs
  startKeys : svc.after.startKeys = svc.before.startKeys
  names : svc.receipt.outcome = .applied (some record.run) none (some record.version)
  range : svc.receipt.eventRange = none

inductive Handled (env : Env) (svc : Service) : Prop
  | again (key : String) (previous : CommandResult)
      (received : mapGet svc.before.commandResults key = some previous)
      (same : svc.after = svc.before)
      (reply : (svc.receipt = previous ∧
          previous.requestDigest = (requestDigest env svc.operation).1) ∨
        svc.receipt.outcome.isRejected = true)
  | refused (rejected : svc.receipt.outcome.isRejected = true)
      (runs : svc.after.runs = svc.before.runs)
      (startKeys : svc.after.startKeys = svc.before.startKeys)
  | published (other : ∀ workflow version startKey input,
        svc.operation ≠ .start workflow version startKey input)
      (startKeys : svc.after.startKeys = svc.before.startKeys)
  | renewal (workflow startKey : String) (record : StartKeyRecord)
      (renewal : Renewal env workflow startKey record svc)
  | admission (workflow startKey : String) (record : StartKeyRecord)
      (admission : Admission env workflow startKey record svc)

/-- The receipts that a service leaves. -/
def Filed (env : Env) (svc : Service) : Prop :=
  ∀ key receipt, mapGet svc.after.commandResults key = some receipt →
    mapGet svc.before.commandResults key = some receipt ∨
      (receipt = svc.receipt ∧ receipt.requestDigest = (requestDigest env svc.operation).1)

theorem Admission.recorded (h : Admission env workflow startKey record svc) :
    svc.after.startRecord workflow startKey = some record := by
  change recordIn svc.after.startKeys workflow startKey = some record
  rw [h.startKeys, recordIn_mapInsert, if_pos ⟨rfl, rfl⟩]

/-- What a publication request leaves of the records, the receipts and the runs. -/
theorem applyRequest_cases {command : Command} (retained : Retained s) (coherent : s.shelf.Coherent)
    (htime : command.time = s.engineTimeWatermarkMs)
    (h : applyRequest env o s command key operation = .ok published) :
    published.state.commandResults = s.commandResults ∧
      (((∀ workflow version startKey input, operation ≠ .start workflow version startKey input) ∧
          published.state.startKeys = s.startKeys) ∨
        ∃ workflow version startKey input, operation = .start workflow version startKey input ∧
          Started env s workflow version startKey input published) := by
  have hfulfilled := applyRequest_fulfilled h
  simp only [applyRequest, bind_eq_ok] at h
  obtain ⟨_, -, _, -, h⟩ := h
  cases operation with
  | catalog | definition =>
    cases hfulfilled <;>
      exact ⟨rfl, .inl ⟨fun _ _ _ _ hstart => (by cases hstart), rfl⟩⟩
  | start workflow version startKey input =>
    have started := publishStart_started retained coherent htime h
    refine ⟨?_, .inr ⟨workflow, version, startKey, input, rfl, started⟩⟩
    cases started with
    | renewed _ _ _ _ hsame => rw [hsame]
    | admitted _ _ _ _ _ _ hresults => exact hresults

theorem rejection_isRejected (fault : Fault) : fault.rejection.isRejected = true := by
  cases fault <;> rfl

theorem answerAgain_cases (command : Command) (key : CommandKey)
    (operation : PublicationOperation) (previous : CommandResult) :
    (answerAgain env command key operation previous = previous ∧
        previous.requestDigest = (requestDigest env operation).1) ∨
      (answerAgain env command key operation previous).outcome.isRejected = true := by
  unfold answerAgain
  split
  · next hsame => exact .inl ⟨rfl, hsame.1⟩
  · exact .inr rfl

theorem filed_receiptFor {command : Command} {outcome : Disposition} {range : Option EventRange}
    {before after : State} (hresults : after.commandResults = mapInsert key.storageKey
      (receiptFor env command key operation outcome range) before.commandResults) :
    Filed env {
      before, operation, after
      receipt := receiptFor env command key operation outcome range } := by
  intro other receipt hreceipt
  change mapGet after.commandResults other = some receipt at hreceipt
  rw [hresults, mapGet_mapInsert] at hreceipt
  split at hreceipt
  · obtain rfl := Option.some.inj hreceipt
    exact .inr ⟨rfl, rfl⟩
  · exact .inl hreceipt

/-- The service of a publication entry. -/
theorem applyPublication_handled (command : Command) (key : CommandKey)
    (operation : PublicationOperation) (retained : Retained s) (coherent : s.shelf.Coherent)
    (hsvc : svc = {
      before := s, operation, receipt := publicationReply env o s command key operation
      after := (applyPublication env o s command key operation).1 }) :
    Handled env svc ∧ Filed env svc := by
  subst hsvc
  unfold applyPublication publicationReply
  cases hprevious : mapGet s.commandResults key.storageKey with
  | some previous =>
    refine ⟨.again key.storageKey previous hprevious rfl ?_, fun other receipt h => .inl h⟩
    exact answerAgain_cases command key operation previous
  | none =>
    dsimp only
    have hretained : Retained { s with
        engineTimeWatermarkMs := max command.time s.engineTimeWatermarkMs } := retained
    have hcoherent : (State.shelf { s with
        engineTimeWatermarkMs := max command.time s.engineTimeWatermarkMs }).Coherent := coherent
    cases happlied : applyRequest env o
        { s with engineTimeWatermarkMs := max command.time s.engineTimeWatermarkMs }
        { command with time := max command.time s.engineTimeWatermarkMs } key operation with
    | error fault =>
      exact ⟨.refused (rejection_isRejected fault) rfl rfl, filed_receiptFor rfl⟩
    | ok published =>
      obtain ⟨hresults, hcases⟩ := applyRequest_cases hretained hcoherent rfl happlied
      refine ⟨?_, filed_receiptFor (by simp [hresults])⟩
      rcases hcases with ⟨hother, hkeys⟩ | ⟨workflow, version, startKey, input, hstart, started⟩
      · exact .published hother hkeys
      cases started with
      | renewed record hdigest hrecord hagrees hsame =>
        subst hsame
        exact .renewal workflow startKey record
          ⟨⟨version, input, hstart, hdigest, hagrees⟩, hrecord, rfl, rfl, rfl, rfl⟩
      | admitted record hdigest hrecord hagrees hunused hkeys _ hpinned hrange =>
        exact .admission workflow startKey record
          ⟨⟨version, input, hstart, hdigest, hagrees⟩, hrecord, hunused, hkeys, hpinned, hrange⟩

theorem servicesOf_handled {command : Command} (retained : Retained s) (coherent : s.shelf.Coherent)
    (h : svc ∈ servicesOf env o s command) :
    svc.before = s ∧ svc.after = (applyEntry env o s command).1 ∧
      Handled env svc ∧ Filed env svc := by
  unfold servicesOf at h
  split at h
  · next key operation hbody =>
    split at h
    · cases h
    · next hkey =>
      obtain rfl := List.mem_singleton.mp h
      have hentry :
          applyEntry env o s command = applyPublication env o s command key operation := by
        simp only [applyEntry, hbody, if_neg hkey]
      rw [hentry]
      exact ⟨rfl, rfl, applyPublication_handled command key operation retained coherent rfl⟩
  · cases h

/-- An entry that answers no request only removes records and receipts. -/
theorem servicesOf_nil_sheds {command : Command} (h : servicesOf env o s command = []) :
    Sheds s.shelf (applyEntry env o s command).1.shelf := by
  cases hbody : command.body with
  | publication key operation =>
    simp only [servicesOf, hbody] at h
    split at h
    · next hkey =>
      simp only [applyEntry, hbody, if_pos hkey]
      exact .of_eq rfl
    · cases h
  | _ =>
    simp only [applyEntry, hbody]
    split
    · next outcome h =>
      refine (commitCommand_changes h).sheds fun ⟨key, operation, hpublication⟩ => ?_
      rw [hbody] at hpublication
      cases hpublication
    · exact .of_eq rfl

/-! ## One pair -/

def Service.Starts (svc : Service) (workflow startKey : String) : Prop :=
  ∃ version input, svc.operation = .start workflow version startKey input

/-- A start that was answered with a rejection and changed no run. -/
structure TurnedAway (svc : Service) : Prop where
  rejected : svc.receipt.outcome.isRejected = true
  runs : svc.after.runs = svc.before.runs

/-- A service that did not admit the run of a pair leaves its record alone. If it is a start of the
pair, it has left the runs alone too, and has been answered with a rejection, with a receipt that
was there, or from the record. -/
theorem Handled.of_not_admission (h : Handled env svc)
    (hnot : ∀ record, ¬ Admission env workflow startKey record svc) :
    svc.after.startRecord workflow startKey = svc.before.startRecord workflow startKey ∧
      (svc.Starts workflow startKey → TurnedAway svc ∨ (svc.after.runs = svc.before.runs ∧
        ((∃ key, mapGet svc.before.commandResults key = some svc.receipt ∧
            svc.receipt.requestDigest = (requestDigest env svc.operation).1) ∨
          ∃ record, Renewal env workflow startKey record svc))) := by
  have hsame (hkeys : svc.after.startKeys = svc.before.startKeys) :
      svc.after.startRecord workflow startKey = svc.before.startRecord workflow startKey := by
    rw [State.startRecord, State.startRecord, hkeys]
  cases h with
  | again key previous received same reply =>
    refine ⟨by rw [same], fun _ => ?_⟩
    rcases reply with ⟨rfl, hdigest⟩ | hrejected
    · exact .inr ⟨by rw [same], .inl ⟨key, received, hdigest⟩⟩
    · exact .inl ⟨hrejected, by rw [same]⟩
  | refused rejected runs startKeys => exact ⟨hsame startKeys, fun _ => .inl ⟨rejected, runs⟩⟩
  | published other startKeys =>
    exact ⟨hsame startKeys, fun ⟨version, input, hstart⟩ => absurd hstart (other _ _ _ _)⟩
  | renewal workflow' startKey' record renewal =>
    refine ⟨hsame renewal.startKeys, fun ⟨version, input, hstart⟩ => .inr ⟨renewal.runs, .inr ?_⟩⟩
    obtain ⟨version', input', hstart', -⟩ := renewal.requests
    obtain ⟨rfl, -, rfl, -⟩ := PublicationOperation.start.inj (hstart'.symm.trans hstart)
    exact ⟨record, renewal⟩
  | admission workflow' startKey' record admission =>
    have hother : ¬ (workflow = workflow' ∧ startKey = startKey') := by
      rintro ⟨rfl, rfl⟩
      exact hnot record admission
    refine ⟨?_, fun ⟨version, input, hstart⟩ => ?_⟩
    · change recordIn svc.after.startKeys workflow startKey = _
      rw [admission.startKeys, recordIn_mapInsert, if_neg hother]
      rfl
    · obtain ⟨version', input', hstart', -⟩ := admission.requests
      obtain ⟨rfl, -, rfl, -⟩ := PublicationOperation.start.inj (hstart'.symm.trans hstart)
      exact absurd ⟨rfl, rfl⟩ hother

theorem Handled.tidy (h : Handled env svc) (tidy : Tidy svc.before.startKeys) :
    Tidy svc.after.startKeys := by
  cases h with
  | again _ _ _ same => rw [same]; exact tidy
  | refused _ _ startKeys => rw [startKeys]; exact tidy
  | published _ startKeys => rw [startKeys]; exact tidy
  | renewal _ _ _ renewal => rw [renewal.startKeys]; exact tidy
  | admission _ _ record admission => rw [admission.startKeys]; exact tidy.mapInsert record

/-- A start of a pair after the run of the pair was admitted. -/
structure Follows (env : Env) (workflow startKey : String) (record : StartKeyRecord)
    (admission svc : Service) : Prop where
  runs : svc.after.runs = svc.before.runs
  answer : svc.receipt.outcome.isRejected = true ∨
    (Requests env workflow startKey record svc.operation ∧
      (∃ digest, svc.receipt.outcome = .applied (some record.run) digest (some record.version)) ∧
      (svc.receipt.eventRange = none ∨ svc.receipt = admission.receipt))

/-- What has become of the starts of a pair. -/
inductive Accounted (env : Env) (workflow startKey : String) (log : List Service) (s : State) : Prop
  | unstarted (unrecorded : s.startRecord workflow startKey = none)
      (turned : ∀ svc ∈ log, svc.Starts workflow startKey → TurnedAway svc)
  | started (record : StartKeyRecord) (earlier : List Service) (admission : Service)
      (later : List Service) (recorded : s.startRecord workflow startKey = some record)
      (split : log = earlier ++ admission :: later)
      (turned : ∀ svc ∈ earlier, svc.Starts workflow startKey → TurnedAway svc)
      (admits : Admission env workflow startKey record admission)
      (follows : ∀ svc ∈ later, svc.Starts workflow startKey →
        Follows env workflow startKey record admission svc)
      (pins : ∀ p, s.pins record.run = some p → admission.after.pins record.run = some p)

/-- Different requests have different digests. -/
def Unmistakable (env : Env) (log : List Service) : Prop :=
  ∀ a ∈ log, ∀ b ∈ log, (requestDigest env a.operation).1 = (requestDigest env b.operation).1 →
    a.operation = b.operation

structure PairKept (env : Env) (workflow startKey : String) (log : List Service) (s : State) :
    Prop where
  retained : Retained s
  coherent : s.shelf.Coherent
  tidy : Tidy s.startKeys
  answered : ∀ key receipt, mapGet s.commandResults key = some receipt →
    ∃ svc ∈ log, svc.receipt = receipt ∧
      receipt.requestDigest = (requestDigest env svc.operation).1
  accounted : Accounted env workflow startKey log s

/-- The runs that a pair must not lose its own to: a command that creates a run does so under
another id than the one recorded for the pair. -/
def CreatesOther (env : Env) (workflow startKey : String) (s : State) (command : Command) : Prop :=
  ∀ record, s.startRecord workflow startKey = some record →
    createdRun? env s command ≠ some record.run

section Entries

variable {log : List Service} {command : Command}

/-- An entry that answers no request removes the record of the pair or leaves it. -/
theorem Accounted.idle (accounted : Accounted env workflow startKey log s) (tidy : Tidy s.startKeys)
    (sheds : Sheds s.shelf s'.shelf)
    (hkept : (s.startRecord workflow startKey).isSome → (s'.startRecord workflow startKey).isSome)
    (hpins : ∀ record, s.startRecord workflow startKey = some record → ∀ p,
      s'.pins record.run = some p → s.pins record.run = some p) :
    Accounted env workflow startKey log s' := by
  have hrecord : ∀ record, s'.startRecord workflow startKey = some record →
      s.startRecord workflow startKey = some record := sheds.records tidy workflow startKey
  cases accounted with
  | unstarted unrecorded turned =>
    refine .unstarted (Option.eq_none_iff_forall_ne_some.mpr fun record hsome => ?_) turned
    cases unrecorded.symm.trans (hrecord record hsome)
  | started record earlier admission later recorded split turned admits follows pins =>
    obtain ⟨record', hrecord'⟩ := Option.isSome_iff_exists.mp (hkept (by rw [recorded]; rfl))
    obtain rfl : record' = record :=
      Option.some.inj ((hrecord record' hrecord').symm.trans recorded)
    exact .started record' earlier admission later hrecord' split turned admits follows
      fun p hp => pins p (hpins record' recorded p hp)

/-- The start of a pair that has a receipt is the repetition of an earlier start. -/
theorem exists_original {key : String}
    (answered : ∀ key receipt, mapGet s.commandResults key = some receipt →
      ∃ svc ∈ log, svc.receipt = receipt ∧
        receipt.requestDigest = (requestDigest env svc.operation).1)
    (hdigests : Unmistakable env (log ++ [svc]))
    (hreceived : mapGet s.commandResults key = some svc.receipt)
    (hdigest : svc.receipt.requestDigest = (requestDigest env svc.operation).1) :
    ∃ original ∈ log, original.receipt = svc.receipt ∧ original.operation = svc.operation := by
  obtain ⟨original, hmem, hreceipt, hsame⟩ := answered key svc.receipt hreceived
  refine ⟨original, hmem, hreceipt, hdigests original ?_ svc ?_ (hsame.symm.trans hdigest)⟩
  · exact List.mem_append_left _ hmem
  · exact List.mem_append_right _ List.mem_cons_self

theorem Accounted.serve (accounted : Accounted env workflow startKey log svc.before)
    (handled : Handled env svc)
    (answered : ∀ key receipt, mapGet svc.before.commandResults key = some receipt →
      ∃ svc ∈ log, svc.receipt = receipt ∧
        receipt.requestDigest = (requestDigest env svc.operation).1)
    (hdigests : Unmistakable env (log ++ [svc]))
    (hpins : ∀ record, svc.before.startRecord workflow startKey = some record → ∀ p,
      svc.after.pins record.run = some p → svc.before.pins record.run = some p) :
    Accounted env workflow startKey (log ++ [svc]) svc.after := by
  by_cases hadmission : ∃ record, Admission env workflow startKey record svc
  · obtain ⟨record, admission⟩ := hadmission
    cases accounted with
    | unstarted unrecorded turned =>
      exact .started record log svc [] admission.recorded rfl turned admission
        (fun _ hmem => (by cases hmem)) fun p hp => hp
    | started record' earlier _ later recorded => cases admission.unrecorded.symm.trans recorded
  · rw [not_exists] at hadmission
    obtain ⟨hrecord, hstart⟩ := handled.of_not_admission hadmission
    cases accounted with
    | unstarted unrecorded turned =>
      refine .unstarted (hrecord.trans unrecorded) fun other hother hstarts => ?_
      rcases List.mem_append.mp hother with hold | hnew
      · exact turned other hold hstarts
      obtain rfl := List.mem_singleton.mp hnew
      rcases hstart hstarts with away | ⟨runs, ⟨key, hreceived, hdigest⟩ | ⟨record, renewal⟩⟩
      · exact away
      · obtain ⟨original, hmem, hreceipt, hoperation⟩ :=
          exists_original answered hdigests hreceived hdigest
        have hturned := turned original hmem (by rwa [Service.Starts, hoperation])
        exact ⟨hreceipt ▸ hturned.rejected, runs⟩
      · cases unrecorded.symm.trans renewal.recorded
    | started record earlier admission later recorded split turned admits follows pins =>
      refine .started record earlier admission (later ++ [svc]) (hrecord.trans recorded)
        (by rw [split, List.append_assoc, List.cons_append]) turned admits ?_
        fun p hp => pins p (hpins record recorded p hp)
      intro other hother hstarts
      rcases List.mem_append.mp hother with hold | hnew
      · exact follows other hold hstarts
      obtain rfl := List.mem_singleton.mp hnew
      rcases hstart hstarts with away | ⟨runs, ⟨key, hreceived, hdigest⟩ | ⟨record', renewal⟩⟩
      · exact ⟨away.runs, .inl away.rejected⟩
      · obtain ⟨original, hmem, hreceipt, hoperation⟩ :=
          exists_original answered hdigests hreceived hdigest
        have hstarts' : original.Starts workflow startKey := by rwa [Service.Starts, hoperation]
        refine ⟨runs, ?_⟩
        rw [split] at hmem
        rcases List.mem_append.mp hmem with hbefore | hafter
        · exact .inl (hreceipt ▸ (turned original hbefore hstarts').rejected)
        rcases List.mem_cons.mp hafter with rfl | hafter
        · obtain ⟨p, digest, -, -, houtcome⟩ := admits.pinned
          exact .inr ⟨hoperation ▸ admits.requests, ⟨some digest, hreceipt ▸ houtcome⟩,
            .inr hreceipt.symm⟩
        · have hanswer := (follows original hafter hstarts').answer
          rwa [hreceipt, hoperation] at hanswer
      · obtain rfl := Option.mem_unique renewal.recorded recorded
        exact ⟨runs, .inr ⟨renewal.requests, ⟨none, renewal.names⟩, .inl renewal.range⟩⟩

theorem servicesOf_cases (command : Command) :
    servicesOf env o s command = [] ∨ ∃ svc, servicesOf env o s command = [svc] := by
  unfold servicesOf
  split
  · split
    · exact .inl rfl
    · exact .inr ⟨_, rfl⟩
  · exact .inl rfl

theorem PairKept.entry (kept : PairKept env workflow startKey log s)
    (hcreates : CreatesOther env workflow startKey s command)
    (hrecord : (s.startRecord workflow startKey).isSome →
      ((applyEntry env o s command).1.startRecord workflow startKey).isSome)
    (hdigests : Unmistakable env (log ++ servicesOf env o s command)) :
    PairKept env workflow startKey (log ++ servicesOf env o s command)
      (applyEntry env o s command).1 := by
  have creates : Creates (command.permit env s) s (applyEntry env o s command).1 :=
    (applyEntry_changes command).creates
  have hpins : ∀ record, s.startRecord workflow startKey = some record → ∀ p,
      (applyEntry env o s command).1.pins record.run = some p →
        s.pins record.run = some p := by
    intro record hsome p hp
    refine (creates.pins record.run p hp).resolve_right fun hnew => ?_
    exact hcreates record hsome hnew
  have retained := creates.retained kept.retained
  have coherent : (applyEntry env o s command).1.shelf.Coherent :=
    (applyEntry_publishes command).2 kept.coherent
  have hservices : servicesOf env o s command = [] ∨ ∃ svc, servicesOf env o s command = [svc] :=
    servicesOf_cases command
  rcases hservices with hnil | ⟨svc, hsvc⟩
  · have sheds := servicesOf_nil_sheds hnil
    rw [hnil, List.append_nil]
    exact ⟨retained, coherent, sheds.tidy kept.tidy,
      fun key receipt h => kept.answered key receipt (sheds.results key receipt h),
      kept.accounted.idle kept.tidy sheds hrecord hpins⟩
  · have hmem : svc ∈ servicesOf env o s command := by
      rw [hsvc]
      exact List.mem_cons_self
    obtain ⟨rfl, hafter, handled, filed⟩ :=
      servicesOf_handled kept.retained kept.coherent hmem
    rw [hsvc] at hdigests ⊢
    rw [← hafter] at retained coherent hpins ⊢
    refine ⟨retained, coherent, handled.tidy kept.tidy, fun key receipt h => ?_,
      kept.accounted.serve handled kept.answered hdigests hpins⟩
    rcases filed key receipt h with hold | ⟨rfl, hdigest⟩
    · obtain ⟨original, hmem, hreceipt⟩ := kept.answered key receipt hold
      exact ⟨original, List.mem_append_left _ hmem, hreceipt⟩
    · exact ⟨svc, List.mem_append_right _ List.mem_cons_self, rfl, hdigest⟩

/-- Along every run that keeps the record of a pair, if runs are created under other ids. -/
theorem Served.kept
    (served : Served env (CreatesOther env workflow startKey) workflow startKey log s)
    (hdigests : Unmistakable env log) : PairKept env workflow startKey log s := by
  induction served with
  | empty cluster =>
    exact {
      retained := fun run h => by cases h
      coherent := coherent_empty cluster
      tidy := ⟨List.Pairwise.nil, fun _ h => (by cases h)⟩
      answered := fun _ _ h => by cases h
      accounted := .unstarted rfl fun _ h => (by cases h) }
  | @entry log s served o command condition kept ih =>
    have hprior : Unmistakable env log := fun a ha b hb =>
      hdigests a (List.mem_append_left _ ha) b (List.mem_append_left _ hb)
    exact (ih hprior).entry condition kept hdigests

end Entries

/-! ## All starts of a pair -/

def Service.input? (svc : Service) : Option Value :=
  match svc.operation with
  | .start _ _ _ input => some input
  | _ => none

/-- Different inputs have different digests. -/
def DistinctInputs (env : Env) (log : List Service) : Prop :=
  ∀ a ∈ log, ∀ b ∈ log, ∀ input ∈ a.input?, ∀ input' ∈ b.input?, ∀ digest,
    payloadDigest env (.value input) maxPayloadBytes = .ok digest →
    payloadDigest env (.value input') maxPayloadBytes = .ok digest → input = input'

theorem Admission.starts (h : Admission env workflow startKey record svc) :
    svc.Starts workflow startKey := by
  obtain ⟨version, input, hstart, -⟩ := h.requests
  exact ⟨version, input, hstart⟩

theorem Admission.runs_ne (h : Admission env workflow startKey record svc) :
    svc.after.runs ≠ svc.before.runs := by
  intro hsame
  obtain ⟨p, digest, hpins, -⟩ := h.pinned
  have hunused := h.unused
  rw [State.pins, ← hsame] at hunused
  cases hunused.symm.trans hpins

/-- While the record of a pair is kept, and runs are created under other ids than the recorded one:
without a record every start of the pair has been rejected. With a record exactly one service has
admitted the run; its receipt names the events from the first to the last that the history had
then. The starts before it have been rejected. Those after it have changed no run, and have been
rejected or have had the same input and version and have been told the same run. The run, if it is
still there, is pinned to what it was admitted with. -/
theorem one_run_per_start_key {log : List Service}
    (served : Served env (CreatesOther env workflow startKey) workflow startKey log s)
    (hdigests : Unmistakable env log) (hinputs : DistinctInputs env log) :
    (s.startRecord workflow startKey = none →
      ∀ svc ∈ log, svc.Starts workflow startKey → TurnedAway svc) ∧
    ∀ record, s.startRecord workflow startKey = some record →
      ∃ earlier admission later, log = earlier ++ admission :: later ∧
        Admission env workflow startKey record admission ∧
        (∀ svc ∈ earlier ++ later, ∀ record', ¬ Admission env workflow startKey record' svc) ∧
        (∀ svc ∈ earlier, svc.Starts workflow startKey → TurnedAway svc) ∧
        (∀ svc ∈ later, ∀ version input, svc.operation = .start workflow version startKey input →
          svc.after.runs = svc.before.runs ∧
          (svc.receipt.outcome.isRejected = true ∨
            ((∃ digest, svc.receipt.outcome =
                .applied (some record.run) digest (some record.version)) ∧
              admission.input? = some input ∧ (∀ v ∈ version, v = record.version) ∧
              (svc.receipt.eventRange = none ∨ svc.receipt = admission.receipt)))) ∧
        ∀ p, s.pins record.run = some p → admission.after.pins record.run = some p := by
  have kept := served.kept hdigests
  refine ⟨fun hnone => ?_, fun record hsome => ?_⟩
  · cases kept.accounted with
    | unstarted _ turned => exact turned
    | started record _ _ _ recorded => cases hnone.symm.trans recorded
  cases kept.accounted with
  | unstarted unrecorded => cases unrecorded.symm.trans hsome
  | started record' earlier admission later recorded split turned admits follows pins =>
    obtain rfl := Option.mem_unique recorded hsome
    refine ⟨earlier, admission, later, split, admits, fun svc hmem record'' hadmits => ?_, turned,
      fun svc hmem version input hstart => ?_, pins⟩
    · rcases List.mem_append.mp hmem with hearlier | hlater
      · exact hadmits.runs_ne (turned svc hearlier hadmits.starts).runs
      · exact hadmits.runs_ne (follows svc hlater hadmits.starts).runs
    · have hfollows := follows svc hmem ⟨version, input, hstart⟩
      refine ⟨hfollows.runs, hfollows.answer.imp_right fun ⟨hrequests, hnames, hrange⟩ => ?_⟩
      obtain ⟨version', input', hstart', hdigest, hagrees⟩ := hrequests
      obtain ⟨-, rfl, -, rfl⟩ := PublicationOperation.start.inj (hstart.symm.trans hstart')
      obtain ⟨version'', first, hfirst, hdigest', -⟩ := admits.requests
      have hlog : svc ∈ log := by
        rw [split]
        exact List.mem_append_right _ (List.mem_cons_of_mem _ hmem)
      have hlog' : admission ∈ log := by
        rw [split]
        exact List.mem_append_right _ List.mem_cons_self
      have hinput : svc.input? = some input := by simp [Service.input?, hstart]
      have hinput' : admission.input? = some first := by simp [Service.input?, hfirst]
      have hsame : first = input := hinputs admission hlog' svc hlog first hinput' input hinput
        record'.inputDigest hdigest' hdigest
      exact ⟨hnames, hsame ▸ hinput', hagrees, hrange⟩

/-! ## Runs of requests -/

instance (command : Command) : Decidable (CreatesOther env workflow startKey s command) :=
  inferInstanceAs (Decidable (∀ record ∈ s.startRecord workflow startKey,
    createdRun? env s command ≠ some record.run))

/-- Answers requests one after the other. -/
def serveAll (env : Env) : List Service × State → List Command → List Service × State
  | acc, [] => acc
  | (log, s), command :: commands =>
    serveAll env (log ++ servicesOf env .stored s command, (applyEntry env .stored s command).1)
      commands

/-- Every request meets a condition and none loses the record of a pair. -/
def servable (env : Env) (C : State → Command → Prop) [∀ s command, Decidable (C s command)]
    (workflow startKey : String) : State → List Command → Bool
  | _, [] => true
  | s, command :: commands =>
    Decidable.decide (C s command) &&
      ((s.startRecord workflow startKey).isNone ||
        ((applyEntry env .stored s command).1.startRecord workflow startKey).isSome) &&
      servable env C workflow startKey (applyEntry env .stored s command).1 commands

theorem serveAll_served [∀ s command, Decidable (C s command)] {log : List Service}
    (commands : List Command) (served : Served env C workflow startKey log s)
    (h : servable env C workflow startKey s commands = true) :
    Served env C workflow startKey (serveAll env (log, s) commands).1
      (serveAll env (log, s) commands).2 := by
  induction commands generalizing log s with
  | nil => exact served
  | cons command commands ih =>
    simp only [servable, Bool.and_eq_true, decide_eq_true_eq] at h
    obtain ⟨⟨hcondition, hkept⟩, hrest⟩ := h
    refine ih (served.entry .stored command hcondition fun hsome => ?_) hrest
    simpa [Option.isSome_iff_ne_none.mp hsome] using hkept

/-- Digests that tell requests and inputs apart. -/
def requestEnv : Env := { sampleEnv with
  toJson := fun payload => match payload with
    | .operation (.start workflow version startKey input) =>
      .ok (.array [.string workflow, .number (.posInt (version.getD 0)), .string startKey,
        .bool (input = .null)])
    | .operation operation => .ok (.string operation.target)
    | .definition definition => .ok (.number (.posInt definition.version))
    | .value input => .ok (.bool (input = .null))
    | _ => .ok .null }

theorem unmistakable_of_nodup {log : List Service} (operations : List PublicationOperation)
    (indices : List Nat)
    (hnodup : (operations.map fun operation => (requestDigest env operation).1).Nodup)
    (hlog : log.map Service.operation = indices.filterMap (operations[·]?)) :
    Unmistakable env log := by
  have hmem : ∀ svc ∈ log, svc.operation ∈ operations := by
    intro svc hsvc
    have hoperation := List.mem_map_of_mem (f := Service.operation) hsvc
    rw [hlog] at hoperation
    obtain ⟨i, -, hi⟩ := List.mem_filterMap.mp hoperation
    exact List.mem_of_getElem? hi
  exact fun a ha b hb hdigest => List.inj_on_of_nodup_map hnodup (hmem a ha) (hmem b hb) hdigest

theorem distinctInputs_of_inputs {log : List Service} (inputs : List Value)
    (hinputs : ∀ a ∈ inputs, ∀ b ∈ inputs,
      (payloadDigest env (.value a) maxPayloadBytes).toOption =
        (payloadDigest env (.value b) maxPayloadBytes).toOption → a = b)
    (hlog : log.filterMap Service.input? = inputs) : DistinctInputs env log := by
  have hmem : ∀ svc ∈ log, ∀ input ∈ svc.input?, input ∈ inputs := by
    intro svc hsvc input hinput
    rw [← hlog]
    exact List.mem_filterMap.mpr ⟨svc, hsvc, hinput⟩
  intro a ha b hb input hinput input' hinput' digest hdigest hdigest'
  refine hinputs input (hmem a ha input hinput) input' (hmem b hb input' hinput') ?_
  rw [hdigest, hdigest']

/-- A request under a short key. -/
def keyedRequest (id time : Nat) (operation : PublicationOperation) : Command where
  id := ⟨id⟩
  time := time
  body := .publication { clusterId := "c", principalId := "p", commandId := ⟨id⟩ } operation

/-- A workflow that completes at once. -/
def sampleVersion (version : Nat) : Definition := {
  sampleWorkflow [] "done" [("done", .complete (.literal .null))] with
  version, digest := toString version }

def sampleOperations : List PublicationOperation :=
  [.catalog 1 (sampleCatalog [] .retrySafe), .definition (sampleVersion 1) 1,
    .definition (sampleVersion 2) 1, .start "sample" (some 1) "a" .null,
    .start "sample" none "b" .null, .start "sample" none "a" (.bool true)]

/-- A catalog and two versions of a workflow are published. -/
def publications : List Command :=
  [keyedRequest 1 1 (.catalog 1 (sampleCatalog [] .retrySafe)),
    keyedRequest 2 1 (.definition (sampleVersion 1) 1),
    keyedRequest 3 1 (.definition (sampleVersion 2) 1)]

/-- A run of requests, of which something is evaluated. -/
theorem exists_served [∀ s command, Decidable (C s command)] {P : List Service → State → Prop}
    (commands : List Command)
    (hservable : servable requestEnv C "sample" "a" (.empty sampleCluster) commands = true)
    (h : P (serveAll requestEnv ([], .empty sampleCluster) commands).1
      (serveAll requestEnv ([], .empty sampleCluster) commands).2) :
    ∃ log s, Served requestEnv C "sample" "a" log s ∧ P log s :=
  ⟨_, _, serveAll_served commands (.empty sampleCluster) hservable, h⟩

def readmission : List Command := publications ++
  [keyedRequest 9 1 (.start "sample" (some 1) "a" .null),
    { id := ⟨5⟩, time := 40 * 86400000, body := .pruneHistory 100 },
    keyedRequest 9 (40 * 86400000) (.start "sample" none "b" .null)]

/-- A command id that is used again when the receipt and the run of its first use are gone: the run
of another pair is admitted under the id that the record of the first pair still names, and is
pinned to another definition. -/
theorem readmitted_run :
    ∃ log s, Served requestEnv (fun _ _ => True) "sample" "a" log s ∧
      Unmistakable requestEnv log ∧ DistinctInputs requestEnv log ∧
      (s.startRecord "sample" "a").map (·.run) = some ⟨9⟩ ∧
      (s.pins ⟨9⟩).map (·.definition.digest) = some "2" ∧
      ∃ svc ∈ log, (svc.before.startRecord "sample" "a").map (·.run) = none ∧
        (svc.after.startRecord "sample" "a").map (·.run) = some ⟨9⟩ ∧
        (svc.after.pins ⟨9⟩).map (·.definition.digest) = some "1" := by
  obtain ⟨log, s, served, hlog, hinputs, ⟨hrecord, hpins⟩, hany⟩ :=
    exists_served readmission (C := fun _ _ => True) (P := fun log s =>
      log.map Service.operation = [0, 1, 2, 3, 4].filterMap (sampleOperations[·]?) ∧
      log.filterMap Service.input? = [.null, .null] ∧
      ((s.startRecord "sample" "a").map (·.run) = some ⟨9⟩ ∧
        (s.pins ⟨9⟩).map (·.definition.digest) = some "2") ∧
      (log.drop 3).any (fun svc => (svc.before.startRecord "sample" "a").map (·.run) = none ∧
        (svc.after.startRecord "sample" "a").map (·.run) = some ⟨9⟩ ∧
        (svc.after.pins ⟨9⟩).map (·.definition.digest) = some "1") = true)
      (by decide +kernel) ⟨rfl, rfl, by decide +kernel, by decide +kernel⟩
  simp only [List.any_eq_true, decide_eq_true_eq] at hany
  obtain ⟨svc, hmem, hsvc⟩ := hany
  exact ⟨log, s, served, unmistakable_of_nodup sampleOperations _ (by decide +kernel) hlog,
    distinctInputs_of_inputs _ (by decide +kernel) hinputs, hrecord, hpins, svc,
    List.mem_of_mem_drop hmem, hsvc⟩

def repeatedStart : List Command := publications ++
  [keyedRequest 9 1 (.start "sample" (some 1) "a" .null),
    keyedRequest 10 1 (.start "sample" (some 1) "a" .null),
    keyedRequest 11 1 (.start "sample" none "a" (.bool true)),
    keyedRequest 9 1 (.start "sample" (some 1) "a" .null)]

/-- Four starts of one pair: the first admits the run, the second is told of it, the third has
another input and the fourth repeats the first. -/
theorem repeatedStart_admits_once :
    ∃ log s record, Served requestEnv (CreatesOther requestEnv "sample" "a") "sample" "a" log s ∧
      log.length = 7 ∧ s.startRecord "sample" "a" = some record ∧
      ∃ earlier admission later, log = earlier ++ admission :: later ∧
        Admission requestEnv "sample" "a" record admission ∧
        ∀ svc ∈ earlier ++ later, ∀ record', ¬ Admission requestEnv "sample" "a" record' svc := by
  obtain ⟨log, s, served, hlog, hinputs, hrecord⟩ :=
    exists_served repeatedStart (C := CreatesOther requestEnv "sample" "a") (P := fun log s =>
      log.map Service.operation = [0, 1, 2, 3, 3, 5, 3].filterMap (sampleOperations[·]?) ∧
      log.filterMap Service.input? = [.null, .null, .bool true, .null] ∧
      (s.startRecord "sample" "a").isSome = true)
      (by decide +kernel) ⟨rfl, rfl, by decide +kernel⟩
  obtain ⟨record, hrecord⟩ := Option.isSome_iff_exists.mp hrecord
  obtain ⟨earlier, admission, later, hsplit, hadmits, honce, -⟩ := (one_run_per_start_key served
    (unmistakable_of_nodup sampleOperations _ (by decide +kernel) hlog)
    (distinctInputs_of_inputs _ (by decide +kernel) hinputs)).2 record hrecord
  have hlength : log.length = 7 := by
    rw [← List.length_map (f := Service.operation), hlog]
    rfl
  exact ⟨log, s, record, served, hlength, hrecord, earlier, admission, later, hsplit,
    hadmits, honce⟩

end Graphrun
