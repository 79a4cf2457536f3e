import Graphrun.Model.InPlace

/-!
# The two modes of publication

Whether a publication is applied in place or to a clone makes a difference only to what a failure
leaves behind. Before a start is admitted nothing is written, and the entry that a definition makes
for its workflow is there already when the comparison with the published version fails
(`enterDefinition_error`); so a failure outside the admission leaves the state alone in both modes,
and a failure inside it is dropped with the clone (`modes_agree`).

What is applied is what `applyRequest` says, without any state to be torn (`Mirrors`).
-/

namespace Graphrun

open Lib

variable {env : Env} {o : Enumeration} {torn : Torn} {inPlace : Bool} {s s' : State}
  {command : Command} {key : CommandKey} {operation : PublicationOperation} {fault : Fault}
  {definition : Definition} {catalogVersion : Nat} {workflow startKey : String}
  {version : Option Nat} {input : Value}

/-! ## Failures -/

/-- A version that is there is compared in an entry that is there. -/
theorem enterDefinition_error (h : (enterDefinition s definition catalogVersion).1 = .error fault) :
    (enterDefinition s definition catalogVersion).2 = s := by
  unfold enterDefinition at h ⊢
  dsimp only at h ⊢
  by_cases hentry : (mapGet s.publishedDefinitions definition.id).isSome
  · have hsame : mapOrDefault definition.id s.publishedDefinitions = s.publishedDefinitions :=
      if_pos hentry
    rw [hsame] at h ⊢
    split at h
    · split at h
      · next hdiffers => rw [if_pos hdiffers]
      · cases h
    · cases h
  · -- A new entry holds no version to be compared with.
    have hnew : mapGet (mapOrDefault definition.id s.publishedDefinitions) definition.id =
        some [] := by
      rw [mapOrDefault, if_neg hentry, mapGet_mapInsert, if_pos rfl]
    rw [hnew] at h
    cases h

theorem definitionInPlace_error
    (h : (definitionInPlace env s definition catalogVersion).1 = .error fault) :
    (definitionInPlace env s definition catalogVersion).2 = s := by
  unfold definitionInPlace at h ⊢
  split
  · rfl
  · next hchecked =>
    rw [hchecked] at h
    exact enterDefinition_error h

theorem catalogInPlace_error {version : Nat} {catalog : Catalog}
    (h : (catalogInPlace env s version catalog).1 = .error fault) :
    (catalogInPlace env s version catalog).2 = s := by
  unfold catalogInPlace at h ⊢
  split at h
  · rfl
  · cases h

/-! ## Both modes -/

/-- Both modes end in one answer and one state, or in one failure, which on a clone leaves the
state as it was. -/
inductive Alike (s : State) : Result Answer × State → Result Answer × State → Prop
  | applied (answer : Answer) (s' : State) : Alike s (.ok answer, s') (.ok answer, s')
  | failed (fault : Fault) (s' : State) : Alike s (.error fault, s') (.error fault, s)

theorem Alike.refl {x : Result Answer × State} (h : ∀ fault, x.1 = .error fault → x.2 = s) :
    Alike s x x := by
  obtain ⟨result, s'⟩ := x
  cases result with
  | ok answer => exact .applied answer s'
  | error fault =>
    obtain rfl : s' = s := h fault rfl
    exact .failed fault s'

theorem requestInPlace_alike (env : Env) (o : Enumeration) (torn : Torn) (s : State)
    (command : Command) (key : CommandKey) (operation : PublicationOperation) :
    Alike s (requestInPlace env o torn true s command key operation)
      (requestInPlace env o torn false s command key operation) := by
  unfold requestInPlace
  split
  · exact .failed _ s
  · split
    · exact .failed _ s
    · cases operation with
      | catalog => exact .refl fun _ => catalogInPlace_error
      | definition => exact .refl fun _ => definitionInPlace_error
      | start workflow version startKey input =>
        simp only [operationInPlace, startInPlace]
        split
        · exact .failed _ s
        · exact .applied _ s
        · split
          · exact .failed _ s
          · split
            · exact .applied _ _
            · exact .failed _ _

section New

variable (hnew : mapGet s.commandResults key.storageKey = none)

include hnew

theorem applyWithMode_ok {answer : Answer}
    (h : requestInPlace env o torn inPlace s command key operation = (.ok answer, s')) :
    applyWithMode env o torn inPlace s command key operation =
      (.ok (receiptFor env command key operation answer.1 answer.2),
        s'.putResult key (receiptFor env command key operation answer.1 answer.2)) := by
  simp only [applyWithMode, hnew, h]

theorem applyWithMode_panicked
    (h : requestInPlace env o torn inPlace s command key operation = (.error .panicked, s')) :
    applyWithMode env o torn inPlace s command key operation = (.error .panicked, s') := by
  simp only [applyWithMode, hnew, h]

theorem applyReplicated_error {error : Error}
    (h : requestInPlace env o torn true s command key operation = (.error (.error error), s')) :
    applyReplicated env o torn s command key operation = (.error (.error error), s') := by
  simp only [applyReplicated, applyWithMode, hnew, h, if_pos]

theorem applyTransactional_error {error : Error}
    (h : requestInPlace env o torn false s command key operation = (.error (.error error), s')) :
    applyTransactional env o torn s command key operation =
      (.ok (receiptFor env command key operation (.rejected error.kind.code error.message) none),
        s'.putResult key
          (receiptFor env command key operation
            (.rejected error.kind.code error.message) none)) := by
  simp only [applyTransactional, applyWithMode, hnew, h, Bool.false_eq_true, if_false]

end New

/-- `apply` takes the branch that answers a failure of `apply_operation` with a rejection. -/
def TakesRejection (env : Env) (o : Enumeration) (torn : Torn) (s : State) (command : Command)
    (key : CommandKey) (operation : PublicationOperation) : Prop :=
  mapGet s.commandResults key.storageKey = none ∧
    ∃ error, (requestInPlace env o torn false s command key operation).1 = .error (.error error)

/-- Unless the engine panics, which it does in both modes or in none: the mode in place returns a
receipt exactly when the transactional one does not take the rejection, and then both return and
leave the same. Where the mode in place fails, the transactional one answers with the code and the
message of that error, enters this receipt under the key and changes nothing else. -/
theorem modes_agree (env : Env) (o : Enumeration) (torn : Torn) (s : State) (command : Command)
    (key : CommandKey) (operation : PublicationOperation) :
    ((applyReplicated env o torn s command key operation).1 = .error .panicked ∧
      (applyTransactional env o torn s command key operation).1 = .error .panicked) ∨
    (((∃ receipt, (applyReplicated env o torn s command key operation).1 = .ok receipt) ↔
        ¬ TakesRejection env o torn s command key operation) ∧
      (∀ receipt, (applyReplicated env o torn s command key operation).1 = .ok receipt →
        applyTransactional env o torn s command key operation =
          applyReplicated env o torn s command key operation) ∧
      ∀ fault, (applyReplicated env o torn s command key operation).1 = .error fault →
        ∃ error receipt, fault = .error error ∧
          receipt.outcome = .rejected error.kind.code error.message ∧
          applyTransactional env o torn s command key operation =
            (.ok receipt, { s with
              commandResults := mapInsert key.storageKey receipt s.commandResults })) := by
  cases hprevious : mapGet s.commandResults key.storageKey with
  | some previous =>
    have hsame (inPlace : Bool) : applyWithMode env o torn inPlace s command key operation =
        (.ok (answerAgain env command key operation previous), s) := by
      simp only [applyWithMode, hprevious]
    rw [applyReplicated, applyTransactional, hsame, hsame]
    refine .inr ⟨⟨fun _ hrejects => ?_, fun _ => ⟨_, rfl⟩⟩, fun _ _ => rfl, fun _ h => (by cases h)⟩
    cases hprevious.symm.trans hrejects.1
  | none =>
    have halike := requestInPlace_alike env o torn s command key operation
    generalize htrue : requestInPlace env o torn true s command key operation = x at halike
    generalize hfalse : requestInPlace env o torn false s command key operation = y at halike
    cases halike with
    | applied answer s' =>
      rw [applyReplicated, applyTransactional, applyWithMode_ok hprevious htrue,
        applyWithMode_ok hprevious hfalse]
      refine .inr ⟨⟨fun _ hrejects => ?_, fun _ => ⟨_, rfl⟩⟩, fun _ _ => rfl,
        fun _ h => (by cases h)⟩
      obtain ⟨error, herror⟩ := hrejects.2
      rw [hfalse] at herror
      cases herror
    | failed fault s' =>
      cases fault with
      | panicked =>
        refine .inl ⟨?_, ?_⟩
        · rw [applyReplicated, applyWithMode_panicked hprevious htrue]
        · rw [applyTransactional, applyWithMode_panicked hprevious hfalse]
      | error error =>
        rw [applyReplicated_error hprevious htrue, applyTransactional_error hprevious hfalse]
        refine .inr ⟨⟨fun h => ?_, fun h => ?_⟩, fun _ h => (by cases h),
          fun _ h => (by cases h; exact ⟨error, _, rfl, rfl, rfl⟩)⟩
        · obtain ⟨receipt, hreceipt⟩ := h
          cases hreceipt
        · exact absurd ⟨hprevious, error, congrArg Prod.fst hfalse⟩ h

/-! ## What is applied -/

/-- A computation on a state that it may tear does what another one does on values. -/
def Mirrors (y : Result Answer × State) : Result Published → Prop
  | .ok published => y = (.ok (published.disposition, published.range), published.state)
  | .error fault => y.1 = .error fault

theorem catalogInPlace_mirrors {version : Nat} {catalog : Catalog} :
    Mirrors (catalogInPlace env s version catalog) (publishCatalog env s version catalog) := by
  unfold catalogInPlace
  cases publishCatalog env s version catalog <;> rfl

theorem mapInsert_mapInsert {α : Type} {k : String} {v w : α} {m : List (String × α)} :
    mapInsert k v (mapInsert k w m) = mapInsert k v m := by
  induction m with
  | nil => simp [mapInsert]
  | cons e rest ih =>
    obtain ⟨k', v'⟩ := e
    by_cases hlt : k < k'
    · simp [mapInsert, hlt]
    · by_cases heq : k = k'
      · simp [mapInsert, heq]
      · simp [mapInsert, hlt, heq, ih]

theorem definitionInPlace_mirrors :
    Mirrors (definitionInPlace env s definition catalogVersion)
      (publishDefinition env s definition catalogVersion) := by
  rw [publishDefinition, definitionInPlace]
  cases checkDefinition env s definition catalogVersion with
  | error fault => rfl
  | ok u =>
    rw [ok_bind]
    unfold enterDefinition
    by_cases hentry : (mapGet s.publishedDefinitions definition.id).isSome
    · have hsame : mapOrDefault definition.id s.publishedDefinitions = s.publishedDefinitions :=
        if_pos hentry
      dsimp only
      rw [hsame]
      cases mapGet ((mapGet s.publishedDefinitions definition.id).getD []) definition.version with
      | none => rfl
      | some existing =>
        dsimp only
        unfold refuseIf
        split <;> rfl
    · have hnone : mapGet s.publishedDefinitions definition.id = none := by simpa using hentry
      have hnew : mapOrDefault definition.id s.publishedDefinitions =
          mapInsert definition.id [] s.publishedDefinitions := if_neg hentry
      dsimp only
      rw [hnew, mapGet_mapInsert, if_pos rfl, hnone, mapInsert_mapInsert]
      rfl

theorem startInPlace_mirrors :
    Mirrors (startInPlace env o torn true s command key workflow version startKey input)
      (publishStart env o s command key workflow version startKey input) := by
  rw [publishStart, startInPlace]
  cases checkStart env s workflow version startKey input with
  | error fault => rfl
  | ok checked =>
    cases checked with
    | existing record => rfl
    | new pinned catalog inputDigest =>
      simp only [ok_bind, finishStart, admitPublished, admitInPlace, bind_assoc, pure_bind]
      by_cases hused : (s.runs.lookup ⟨(env.publishedIds key).1⟩).isSome
      · rw [refuseIf, if_pos hused, if_pos hused]
        rfl
      · rw [refuseIf, if_neg hused, if_neg hused, ok_bind]
        cases decide env o _ _ with
        | error fault => rfl
        | ok decision =>
          simp only [ok_bind]
          cases applyEventsWithCause env _ _ decision.events with
          | error fault => rfl
          | ok started =>
            simp only [ok_bind, progressInPlace]
            cases applyCommand env o started _ with
            | error fault => rfl
            | ok progressed =>
              simp only [ok_bind, keepStart, refuseIf]
              split_ifs <;> rfl

/-- In place, a request does what `applyRequest` says. -/
theorem requestInPlace_mirrors :
    Mirrors (requestInPlace env o torn true s command key operation)
      (applyRequest env o s command key operation) := by
  unfold requestInPlace applyRequest
  cases (requestDigest env operation).2 with
  | error fault => rfl
  | ok size =>
    by_cases hlarge : size > publicCommandEnvelope
    · rw [ok_bind, refuseIf, if_pos hlarge]
      dsimp only
      rw [if_pos hlarge]
      rfl
    · rw [ok_bind, refuseIf, if_neg hlarge, ok_bind]
      dsimp only
      rw [if_neg hlarge]
      cases operation with
      | catalog => exact catalogInPlace_mirrors
      | definition => exact definitionInPlace_mirrors
      | start => exact startInPlace_mirrors

end Graphrun
