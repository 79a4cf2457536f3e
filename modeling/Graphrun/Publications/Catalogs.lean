import Graphrun.Commands.Receipts
import Graphrun.Engine.Execution
import Graphrun.Publications.Modes

/-!
# What is published stays published

Catalogs and definitions are only added: a version that is there is compared and left alone, and
nothing removes one (`applyEntry_publishes`). A catalog that is added has been compared with every
one that is there, so all catalogs agree on the keys they share, and a definition is added under
its own name and version and with a catalog that is there (`Coherent`). A request that is rejected
leaves the tables as they are, in place as well (`publications_kept`).
-/

namespace Graphrun

open Lib

variable {env : Env} {o : Enumeration} {s s' : State} {time : Nat} {a b c : Shelf}
  {published : Published} {command : Command} {outcome : Outcome} {key : CommandKey}
  {operation : PublicationOperation}

/-! ## Comparison of schemas -/

mutual
theorem Json.eq_of_beq : ∀ {a b : Json}, a.beq b = true → a = b
  | .null, .null, _ => rfl
  | .bool _, .bool _, h | .number _, .number _, h | .string _, .string _, h => by
    simpa [Json.beq] using h
  | .array a, .array b, h => congrArg Json.array (Json.eq_of_beqItems h)
  | .object a, .object b, h => congrArg Json.object (Json.eq_of_beqFields h)
theorem Json.eq_of_beqItems : ∀ {a b : List Json}, Json.beqItems a b = true → a = b
  | [], [], _ => rfl
  | a :: as, b :: bs, h => by
    simp only [Json.beqItems, Bool.and_eq_true] at h
    rw [Json.eq_of_beq h.1, Json.eq_of_beqItems h.2]
theorem Json.eq_of_beqFields : ∀ {a b : List (String × Json)}, Json.beqFields a b = true → a = b
  | [], [], _ => rfl
  | (k, a) :: as, (l, b) :: bs, h => by
    simp only [Json.beqFields, Bool.and_eq_true, beq_iff_eq] at h
    rw [h.1.1, Json.eq_of_beq h.1.2, Json.eq_of_beqFields h.2]
end

/-- Two catalogs say the same about every key that they share. -/
structure Catalog.Agrees (a b : Catalog) : Prop where
  schemas : ∀ key x y, mapGet a.schemas key = some x → mapGet b.schemas key = some y → x = y
  activities : ∀ key x y, mapGet a.activities key = some x → mapGet b.activities key = some y →
    x = y
  reconcilers : ∀ key x y, mapGet a.reconcilers key = some x → mapGet b.reconcilers key = some y →
    x = y

theorem Catalog.Agrees.refl (a : Catalog) : a.Agrees a where
  schemas _ _ _ h h' := Option.mem_unique h h'
  activities _ _ _ h h' := Option.mem_unique h h'
  reconcilers _ _ _ h h' := Option.mem_unique h h'

theorem Catalog.Agrees.symm {a b : Catalog} (h : a.Agrees b) : b.Agrees a where
  schemas key x y hx hy := (h.schemas key y x hy hx).symm
  activities key x y hx hy := (h.activities key y x hy hx).symm
  reconcilers key x y hx hy := (h.reconcilers key y x hy hx).symm

theorem mem_of_mapGet {κ α : Type} [DecidableEq κ] {m : List (κ × α)} {k : κ} {v : α}
    (h : mapGet m k = some v) : (k, v) ∈ m := by
  obtain ⟨e, he, rfl⟩ := Option.map_eq_some_iff.mp h
  have hkey : e.1 = k := by simpa using List.find?_some he
  rw [← hkey]
  exact List.mem_of_find?_eq_some he

/-- The loop over the entries of one kind finds no entry that differs. -/
theorem eq_of_noConflict {κ α : Type} [DecidableEq κ] {new prior : List (κ × α)}
    (differs : α → α → Bool) {fault : κ × α → Fault}
    (hdiffers : ∀ old x, differs old x = false → x = old)
    (h : (new.forM fun e =>
      (refuseIf ((mapGet prior e.1).any fun old => differs old e.2) (fault e) : Result Unit)) =
        .ok ()) :
    ∀ key x y, mapGet new key = some x → mapGet prior key = some y → x = y := by
  intro key x y hx hy
  have hentry := forM_eq_ok.mp h (key, x) (mem_of_mapGet hx)
  rw [refuseIf_eq_ok] at hentry
  refine hdiffers y x ?_
  simpa [hy] using hentry

theorem agrees_of_noConflicts {catalog prior : Catalog}
    (h : catalogConflicts catalog prior = .ok ()) : catalog.Agrees prior := by
  simp only [catalogConflicts, bind_eq_ok] at h
  obtain ⟨⟨⟩, hschemas, ⟨⟩, hactivities, hreconcilers⟩ := h
  refine ⟨eq_of_noConflict (fun old x => !old.beq x) (fun old x hsame => ?_) hschemas,
    eq_of_noConflict (fun old x => old ≠ x) (fun old x hsame => ?_) hactivities,
    eq_of_noConflict (fun old x => old ≠ x) (fun old x hsame => ?_) hreconcilers⟩
  · exact (Json.eq_of_beq (by simpa using hsame)).symm
  · exact (not_not.mp (of_decide_eq_false hsame)).symm
  · exact (not_not.mp (of_decide_eq_false hsame)).symm

/-! ## The tables -/

/-- What is published of a workflow as a version. -/
def Shelf.definition? (shelf : Shelf) (workflow : String) (version : Nat) :
    Option PublishedDefinition :=
  (mapGet shelf.definitions workflow).bind fun versions => mapGet versions version

/-- One shelf holds what another one holds. -/
structure Shelf.Extends (shelf shelf' : Shelf) : Prop where
  catalogs : ∀ version catalog, mapGet shelf.catalogs version = some catalog →
    mapGet shelf'.catalogs version = some catalog
  definitions : ∀ workflow version definition,
    shelf.definition? workflow version = some definition →
      shelf'.definition? workflow version = some definition

structure Shelf.Coherent (shelf : Shelf) : Prop where
  keyed : ∀ workflow version definition, shelf.definition? workflow version = some definition →
    definition.definition.id = workflow ∧ definition.definition.version = version
  pinned : ∀ workflow version definition, shelf.definition? workflow version = some definition →
    ∃ catalog, mapGet shelf.catalogs definition.catalogVersion = some catalog
  agree : ∀ v v' a b, mapGet shelf.catalogs v = some a → mapGet shelf.catalogs v' = some b →
    a.catalog.Agrees b.catalog

theorem Shelf.Extends.trans (h : a.Extends b) (h' : b.Extends c) :
    a.Extends c where
  catalogs version catalog hget := h'.catalogs version catalog (h.catalogs version catalog hget)
  definitions workflow version definition hget :=
    h'.definitions workflow version definition (h.definitions workflow version definition hget)

/-- Published content that stays the same, whatever becomes of start keys and receipts. -/
structure SamePublished (shelf shelf' : Shelf) : Prop where
  catalogs : shelf'.catalogs = shelf.catalogs
  definitions : shelf'.definitions = shelf.definitions

theorem SamePublished.of_eq {shelf shelf' : Shelf} (h : shelf' = shelf) :
    SamePublished shelf shelf' := h ▸ ⟨rfl, rfl⟩

theorem SamePublished.trans (h : SamePublished a b) (h' : SamePublished b c) :
    SamePublished a c :=
  ⟨h'.catalogs.trans h.catalogs, h'.definitions.trans h.definitions⟩

/-- A step that keeps what is published, and keeps it coherent. -/
def Publishes (shelf shelf' : Shelf) : Prop :=
  shelf.Extends shelf' ∧ (shelf.Coherent → shelf'.Coherent)

theorem SamePublished.publishes {shelf shelf' : Shelf} (h : SamePublished shelf shelf') :
    Publishes shelf shelf' := by
  obtain ⟨hcatalogs, hdefinitions⟩ := h
  have hdefinition : shelf'.definition? = shelf.definition? := by
    funext workflow version
    rw [Shelf.definition?, Shelf.definition?, hdefinitions]
  refine ⟨⟨fun v c h => hcatalogs ▸ h, fun w v d h => hdefinition ▸ h⟩,
    fun coherent => ⟨?_, ?_, ?_⟩⟩
  · rw [hdefinition]
    exact coherent.keyed
  · rw [hdefinition, hcatalogs]
    exact coherent.pinned
  · rw [hcatalogs]
    exact coherent.agree

theorem Publishes.trans (h : Publishes a b) (h' : Publishes b c) :
    Publishes a c :=
  ⟨h.1.trans h'.1, fun coherent => h'.2 (h.2 coherent)⟩

/-! ## Publishing -/

theorem publishCatalog_publishes {version : Nat} {catalog : Catalog}
    (h : publishCatalog env s version catalog = .ok published) :
    Publishes s.shelf published.state.shelf := by
  simp only [publishCatalog, bind_eq_ok] at h
  obtain ⟨_, -, _, -, _, -, digest, -, h⟩ := h
  cases hexisting : mapGet s.publishedCatalogs version with
  | some existing =>
    simp only [hexisting, bind_eq_ok, pure_eq_ok] at h
    obtain ⟨_, -, rfl⟩ := h
    exact (SamePublished.of_eq rfl).publishes
  | none =>
    simp only [hexisting, bind_eq_ok, pure_eq_ok] at h
    obtain ⟨⟨⟩, hconflicts, rfl⟩ := h
    have hget : ∀ v, mapGet (mapInsert version { format := catalogFormat, digest, catalog }
        s.publishedCatalogs) v =
          if v = version then some { format := catalogFormat, digest, catalog }
          else mapGet s.publishedCatalogs v := fun v => mapGet_mapInsert
    have hprior : ∀ v prior, mapGet s.publishedCatalogs v = some prior →
        catalog.Agrees prior.catalog := fun v prior hprior =>
      agrees_of_noConflicts (forM_eq_ok.mp hconflicts (v, prior) (mem_of_mapGet hprior))
    refine ⟨⟨fun v c hold => ?_, fun w v d hold => hold⟩,
      fun coherent => ⟨coherent.keyed, fun w v d hd => ?_, ?_⟩⟩
    · refine (hget v).trans ?_
      rw [if_neg]
      · exact hold
      · rintro rfl
        cases hexisting.symm.trans hold
    · obtain ⟨c, hc⟩ := coherent.pinned w v d hd
      by_cases hnew : d.catalogVersion = version
      · exact ⟨_, (hget _).trans (if_pos hnew)⟩
      · exact ⟨c, ((hget _).trans (if_neg hnew)).trans hc⟩
    · intro v v' a b ha hb
      replace ha := (hget v).symm.trans ha
      replace hb := (hget v').symm.trans hb
      split at ha
      · obtain rfl := Option.some.inj ha
        split at hb
        · obtain rfl := Option.some.inj hb
          exact .refl _
        · exact hprior v' b hb
      · split at hb
        · obtain rfl := Option.some.inj hb
          exact (hprior v a ha).symm
        · exact coherent.agree v v' a b ha hb

theorem publishDefinition_publishes {definition : Definition} {catalogVersion : Nat}
    (h : publishDefinition env s definition catalogVersion = .ok published) :
    Publishes s.shelf published.state.shelf := by
  simp only [publishDefinition, checkDefinition, bind_assoc, bind_eq_ok, okOr_eq_ok] at h
  obtain ⟨catalog, hcatalog, _, -, _, -, _, -, digest, -, _, -, _, -, h⟩ := h
  cases hexisting : mapGet ((mapGet s.publishedDefinitions definition.id).getD [])
      definition.version with
  | some existing =>
    simp only [hexisting, bind_eq_ok, pure_eq_ok] at h
    obtain ⟨_, -, rfl⟩ := h
    exact (SamePublished.of_eq rfl).publishes
  | none =>
    simp only [hexisting, pure_eq_ok] at h
    subst h
    -- One version is new; what was there before is found where it was.
    have hget : ∀ w v d, Shelf.definition? (State.shelf { s with
        publishedDefinitions := mapInsert definition.id (mapInsert definition.version
          { format := definitionFormat, normalizedFormatVersion := definition.formatVersion
            digest := definition.digest, catalogVersion, definition }
          ((mapGet s.publishedDefinitions definition.id).getD [])) s.publishedDefinitions }) w v =
            some d ↔
        if w = definition.id ∧ v = definition.version then
          d = { format := definitionFormat, normalizedFormatVersion := definition.formatVersion
                digest := definition.digest, catalogVersion, definition }
        else s.shelf.definition? w v = some d := by
      intro w v d
      simp only [Shelf.definition?, State.shelf, mapGet_mapInsert]
      by_cases hw : w = definition.id
      · subst hw
        rw [if_pos rfl, Option.bind_some, mapGet_mapInsert]
        by_cases hv : v = definition.version
        · simp [hv, eq_comm]
        · simp only [hv, if_false, and_false]
          cases mapGet s.publishedDefinitions definition.id with
          | none => simp [mapGet]
          | some versions => rfl
      · simp [hw]
    refine ⟨⟨fun v c hold => hold, fun w v d hold => (hget w v d).mpr ?_⟩,
      fun coherent => ⟨fun w v d hd => ?_, fun w v d hd => ?_, coherent.agree⟩⟩
    · rw [if_neg]
      · exact hold
      · rintro ⟨rfl, rfl⟩
        obtain ⟨versions, hversions, hd⟩ := Option.bind_eq_some_iff.mp hold
        have hversions' : mapGet s.publishedDefinitions definition.id = some versions := hversions
        rw [hversions'] at hexisting
        cases hexisting.symm.trans hd
    · have hd' := (hget w v d).mp hd
      split at hd'
      · next hsame =>
        subst hd'
        exact ⟨hsame.1.symm, hsame.2.symm⟩
      · exact coherent.keyed w v d hd'
    · have hd' := (hget w v d).mp hd
      split at hd'
      · subst hd'
        exact ⟨catalog, hcatalog⟩
      · exact coherent.pinned w v d hd'

/-! ## What publishes nothing -/

section Changes

variable {permit : Permit} {log : List Step}

/-- A change that publishes nothing leaves the tables alone, or prunes them. -/
theorem Change.shelf (change : Change env permit s log s') (hother : ¬ permit.publishes) :
    s'.shelf = s.shelf ∨ permit.prunes ∧
      ((∃ keys : List String, s'.shelf = { s.shelf with
          results := s.shelf.results.filter fun e => e.1 ∉ keys }) ∨
        ∃ run, s'.shelf = (pruneSummary s run).shelf) := by
  cases change with
  | timed | admitted | filed | checkpointed | dropped | retired => exact .inl rfl
  | decided _ _ _ _ h | expired _ h => exact .inl (shelf_of_desk (applyEventsWithCause_desk h))
  | published hpermit => exact absurd hpermit hother
  | cleared hpermit => exact .inr ⟨hpermit, .inl ⟨_, rfl⟩⟩
  | dismissed hpermit => exact .inr ⟨hpermit, .inr ⟨_, rfl⟩⟩

theorem Changes.samePublished (changes : Changes env permit s log s')
    (hother : ¬ permit.publishes) : SamePublished s.shelf s'.shelf := by
  induction changes with
  | refl => exact .of_eq rfl
  | step _ change ih =>
    refine ih.trans ?_
    rcases change.shelf hother with h | ⟨-, ⟨_, h⟩ | ⟨_, h⟩⟩ <;> rw [h] <;> exact ⟨rfl, rfl⟩
  | stamped _ _ _ _ ih => exact ih

theorem Changes.shelf (changes : Changes env .none s log s') : s'.shelf = s.shelf := by
  induction changes with
  | refl => rfl
  | step _ change ih => exact ((change.shelf id).resolve_right fun h => h.1).trans ih
  | stamped _ _ _ _ ih => exact ih

end Changes

theorem applyRequest_publishes (htime : command.time = s.engineTimeWatermarkMs)
    (h : applyRequest env o s command key operation = .ok published) :
    Publishes s.shelf published.state.shelf := by
  cases operation with
  | catalog | definition =>
    simp only [applyRequest, bind_eq_ok] at h
    obtain ⟨_, -, _, -, h⟩ := h
    first | exact publishCatalog_publishes h | exact publishDefinition_publishes h
  | start =>
    cases applyRequest_fulfilled h with
    | kept => exact (SamePublished.of_eq rfl).publishes
    | start _ hadmit =>
      obtain ⟨-, -, hchanges⟩ := admitPublished_changes htime hadmit
      have hcatalogs := congrArg Shelf.catalogs hchanges.shelf
      have hdefinitions := congrArg Shelf.definitions hchanges.shelf
      exact SamePublished.publishes ⟨hcatalogs, hdefinitions⟩

/-! ## Entries of the log -/

theorem applyPublication_publishes :
    Publishes s.shelf (applyPublication env o s command key operation).1.shelf := by
  unfold applyPublication
  split
  · exact (SamePublished.of_eq rfl).publishes
  · dsimp only
    split
    · next published h =>
      have hpublished := applyRequest_publishes rfl h
      have hreceipt : SamePublished published.state.shelf (State.shelf { published.state with
          commandResults := mapInsert key.storageKey
            (receiptFor env { command with time := max command.time s.engineTimeWatermarkMs } key
              operation published.disposition published.range)
            published.state.commandResults }) := ⟨rfl, rfl⟩
      exact Publishes.trans hpublished hreceipt.publishes
    · exact SamePublished.publishes ⟨rfl, rfl⟩

theorem applyEntry_publishes (command : Command) :
    Publishes s.shelf (applyEntry env o s command).1.shelf := by
  unfold applyEntry
  split
  · split
    · exact (SamePublished.of_eq rfl).publishes
    · exact applyPublication_publishes
  · next hother =>
    split
    · next outcome h =>
      refine ((commitCommand_changes h).samePublished ?_).publishes
      exact fun ⟨key, operation, hbody⟩ => hother key operation hbody
    · exact (SamePublished.of_eq rfl).publishes

theorem Run.publishes {log : List Step} (run : Run env s log s') : Publishes s.shelf s'.shelf := by
  induction run with
  | refl => exact (SamePublished.of_eq rfl).publishes
  | entry _ o command ih => exact ih.trans (applyEntry_publishes command)

theorem coherent_empty (cluster : String) : (State.empty cluster).shelf.Coherent where
  keyed _ _ _ h := by cases h
  pinned _ _ _ h := by cases h
  agree _ _ _ _ h := by cases h

/-! ## Rejections -/

def Disposition.isRejected : Disposition → Bool
  | .rejected _ _ => true
  | .applied _ _ _ => false

/-- What is applied is not answered with a rejection. -/
theorem applyRequest_applied (h : applyRequest env o s command key operation = .ok published) :
    published.disposition.isRejected = false := by
  cases applyRequest_fulfilled h <;> rfl

theorem applyPublication_rejected {receipt : CommandResult}
    (hnew : mapGet s.commandResults key.storageKey = none)
    (hreceipt : mapGet (applyPublication env o s command key operation).1.commandResults
      key.storageKey = some receipt) (hrejected : receipt.outcome.isRejected = true) :
    SamePublished s.shelf (applyPublication env o s command key operation).1.shelf := by
  unfold applyPublication at hreceipt ⊢
  have hfirst : ¬ (mapGet s.commandResults key.storageKey).isSome = true := by simp [hnew]
  rw [if_neg hfirst] at hreceipt ⊢
  dsimp only at hreceipt ⊢
  split at hreceipt
  · next published h =>
    rw [mapGet_mapInsert, if_pos rfl] at hreceipt
    obtain rfl := Option.some.inj hreceipt
    have happlied := applyRequest_applied h
    cases happlied.symm.trans hrejected
  · next h => exact ⟨rfl, rfl⟩

theorem applyTransactional_rejected {torn : Torn} {receipt : CommandResult}
    (h : applyTransactional env o torn s command key operation = (.ok receipt, s'))
    (hrejected : receipt.outcome.isRejected = true) : SamePublished s.shelf s'.shelf := by
  cases hprevious : mapGet s.commandResults key.storageKey with
  | some previous =>
    simp only [applyTransactional, applyWithMode, hprevious, Prod.mk.injEq] at h
    exact .of_eq (congrArg State.shelf h.2.symm)
  | none =>
    have halike := requestInPlace_alike env o torn s command key operation
    have hmirrors : Mirrors (requestInPlace env o torn true s command key operation)
        (applyRequest env o s command key operation) := requestInPlace_mirrors
    generalize htrue : requestInPlace env o torn true s command key operation = x at halike hmirrors
    generalize hfalse : requestInPlace env o torn false s command key operation = y at halike
    cases halike with
    | applied answer s₁ =>
      rw [applyTransactional, applyWithMode_ok hprevious hfalse] at h
      obtain ⟨hreceipt, -⟩ := Prod.mk.inj h
      obtain rfl := Except.ok.inj hreceipt
      cases happlied : applyRequest env o s command key operation with
      | error fault =>
        rw [happlied] at hmirrors
        cases hmirrors
      | ok published =>
        rw [happlied] at hmirrors
        obtain ⟨hanswer, -⟩ := Prod.mk.inj hmirrors
        obtain rfl := Except.ok.inj hanswer
        cases (applyRequest_applied happlied).symm.trans hrejected
    | failed fault s₁ =>
      cases fault with
      | panicked =>
        rw [applyTransactional, applyWithMode_panicked hprevious hfalse] at h
        cases (Prod.mk.inj h).1
      | error error =>
        rw [applyTransactional_error hprevious hfalse] at h
        obtain rfl := (Prod.mk.inj h).2
        exact ⟨rfl, rfl⟩

/-- In every state that is reached, what is published is coherent and is kept by everything that
follows, and a rejected request leaves it as it is, whether it comes from the log or is applied to
a clone. -/
theorem publications_kept {cluster : String} {log : List Step}
    (run : Run env (.empty cluster) log s) :
    s.shelf.Coherent ∧
      (∀ later t, Run env s later t → s.shelf.Extends t.shelf) ∧
      (∀ o command key operation receipt, mapGet s.commandResults key.storageKey = none →
        mapGet (applyPublication env o s command key operation).1.commandResults key.storageKey =
          some receipt → receipt.outcome.isRejected = true →
        SamePublished s.shelf (applyPublication env o s command key operation).1.shelf) ∧
      ∀ o torn command key operation receipt t,
        applyTransactional env o torn s command key operation = (.ok receipt, t) →
        receipt.outcome.isRejected = true → SamePublished s.shelf t.shelf :=
  ⟨run.publishes.2 (coherent_empty cluster), fun _ _ later => later.publishes.1,
    fun _ _ _ _ _ hnew hreceipt hrejected => applyPublication_rejected hnew hreceipt hrejected,
    fun _ _ _ _ _ _ _ h hrejected => applyTransactional_rejected h hrejected⟩

/-- A request of a principal. -/
def sampleRequest (id time : Nat) (operation : PublicationOperation) : Command where
  id := ⟨id⟩
  time := time
  body := .publication
    { clusterId := sampleCluster, principalId := "p", commandId := ⟨id⟩ } operation

def growingCatalogs : List Command :=
  [sampleRequest 1 0 (.catalog 1 (sampleCatalog ["a"] .retrySafe)),
    sampleRequest 2 0 (.catalog 2 (sampleCatalog ["a", "b"] .retrySafe))]

/-- Two catalogs that share an activity. -/
theorem growingCatalogs_agree :
    (applyEntries sampleEnv .stored (.empty sampleCluster) growingCatalogs).1.shelf.Coherent ∧
      ((applyEntries sampleEnv .stored (.empty sampleCluster)
        growingCatalogs).1.publishedCatalogs.map (·.1)) = [1, 2] := by
  refine ⟨(publications_kept (applyEntries_run sampleEnv .stored (.empty sampleCluster)
    growingCatalogs)).1, ?_⟩
  decide +kernel

end Graphrun
