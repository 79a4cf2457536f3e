import Graphrun.Model.FormatUpgrade
import Mathlib.Data.List.Perm.Subperm
import Mathlib.Data.Set.Function

/-!
# Activation of the writer format

The policy is changed by two commands that are far apart in the log: one stores the proofs of the
readers and a later one consumes them. What is stored is checked again when it is consumed, against
the roster of that position, so that nothing depends on what has happened between them
(`attemptFormat_ok`). A length test, a test for repetitions and a membership test make the proofs
and the nodes of the roster correspond one to one (`validateRoster_covers`).

`format_activation` puts this together over every sequence of commands: the format is raised once at
most, by an activation whose proofs cover the roster, and a command that comes again finds its first
receipt.
-/

namespace Graphrun

open Lib

/-! ## Rosters -/

/-- The proofs at hand are those of the nodes of a roster, one for each. -/
structure Covers (clusterId : String) (roster : StoredMembership) (proofs : List ReaderProof) :
    Prop where
  distinct : proofs.Nodup
  bijection : Set.BijOn ReaderProof.memberId {proof | proof ∈ proofs} {node | node ∈ roster.nodes}
  fit : ∀ proof ∈ proofs, proof.clusterId = clusterId ∧
    proof.rosterLogId = position roster.logId ∧ proof.supports nextFormat = true
  voters : ∀ voters ∈ roster.jointConfig, ∀ member ∈ voters,
    ∃ proof ∈ proofs, proof.memberId = member

section Rosters

variable {roster : StoredMembership} {target : Nat} {clusterId : String} {receipt : FormatReceipt}

/-- The loop has seen every proof once, and each is of a node of the roster. -/
theorem checkProofs_ok {proofs : List ReaderProof} {seen seen' : List Nat}
    (h : checkProofs roster target clusterId seen proofs = .ok seen') :
    seen' = (proofs.map ReaderProof.memberId).reverse ++ seen ∧
      (seen.Nodup → seen'.Nodup) ∧
      ∀ proof ∈ proofs, proof.memberId ∈ roster.nodes ∧ proof.clusterId = clusterId ∧
        proof.rosterLogId = position roster.logId ∧ proof.supports target = true := by
  induction proofs generalizing seen with
  | nil =>
    obtain rfl := pure_eq_ok.mp h
    exact ⟨rfl, id, fun _ hmem => (by cases hmem)⟩
  | cons proof proofs ih =>
    simp only [checkProofs, bind_eq_ok, refuseIf_eq_ok, not_or, not_not, Bool.not_eq_false] at h
    obtain ⟨_, ⟨hnew, hcluster, hroster, -, hsupports, hnode⟩, hrest⟩ := h
    obtain ⟨hseen, hnodup, hproofs⟩ := ih hrest
    refine ⟨by rw [hseen]; simp, fun hn => hnodup (List.nodup_cons.mpr ⟨hnew, hn⟩), ?_⟩
    intro other hother
    rcases List.mem_cons.mp hother with rfl | hmem
    · exact ⟨hnode, hcluster, hroster, hsupports⟩
    · exact hproofs other hmem

/-- Distinct proofs of nodes of the roster, as many as there are nodes, are one for each. -/
theorem validateRoster_covers {proofs : List ReaderProof}
    (h : validateRoster roster proofs nextFormat clusterId = .ok ()) :
    Covers clusterId roster proofs := by
  simp only [validateRoster, bind_eq_ok, refuseIf_eq_ok, not_not] at h
  obtain ⟨_, hlength, seen, hseen, hvoters⟩ := h
  obtain ⟨hmembers, hnodup, hfit⟩ := checkProofs_ok hseen
  rw [List.append_nil] at hmembers
  have hdistinct : (proofs.map ReaderProof.memberId).Nodup := by
    rw [← List.nodup_reverse, ← hmembers]
    exact hnodup List.nodup_nil
  have hsubset : proofs.map ReaderProof.memberId ⊆ roster.nodes := by
    intro member hmember
    obtain ⟨proof, hproof, rfl⟩ := List.mem_map.mp hmember
    exact (hfit proof hproof).1
  have hperm : (proofs.map ReaderProof.memberId).Perm roster.nodes :=
    (hdistinct.subperm hsubset).perm_of_length_le (by rw [List.length_map, hlength])
  refine ⟨hdistinct.of_map _, ⟨fun proof hproof => (hfit proof hproof).1, ?_, ?_⟩,
    fun proof hproof => (hfit proof hproof).2, fun voters hmem member hmember => ?_⟩
  · exact fun a ha b hb hab => List.inj_on_of_nodup_map hdistinct ha hb hab
  · intro node hnode
    obtain ⟨proof, hproof, rfl⟩ := List.mem_map.mp (hperm.mem_iff.mpr hnode)
    exact ⟨proof, hproof, rfl⟩
  · have hcovered := forM_eq_ok.mp hvoters voters hmem
    simp only [refuseIf_eq_ok, not_or, not_not] at hcovered
    have hmember := hcovered.2 member hmember
    rw [hmembers, List.mem_reverse] at hmember
    obtain ⟨proof, hproof, rfl⟩ := List.mem_map.mp hmember
    exact ⟨proof, hproof, rfl⟩

end Rosters

/-! ## One command -/

section Commands

variable {digestOf : String → Nat → Option Position → Result String} {s : FormatState}
  {command : FormatCommand} {roster : StoredMembership} {logId : LogId}
  {principal clusterId : String}

def FormatBody.isActivation : FormatBody → Bool
  | .activateWriterFormat _ _ => true
  | _ => false

/-- What an activation has found and what it has changed. -/
structure ActivatedBy (clusterId : String) (roster : StoredMembership) (logId : LogId)
    (policy policy' : FormatPolicy) : Prop where
  base : policy.activeWriter ≠ nextFormat
  raised : policy'.activeWriter = nextFormat
  activated : policy'.activationLogId = some logId.position
  current : policy'.rosterLogId = position roster.logId
  covers : Covers clusterId roster (policy'.prepared.map (·.2))

theorem attemptFormat_ok {policy policy' : FormatPolicy} {body : FormatBody}
    {requestedRoster : Option Position}
    (h : attemptFormat policy body target requestedRoster roster logId principal clusterId =
      .ok policy') :
    (body.isActivation = true ∧ ActivatedBy clusterId roster logId policy policy') ∨
      (body.isActivation = false ∧ policy'.activeWriter = policy.activeWriter) := by
  simp only [attemptFormat, bind_eq_ok, refuseIf_eq_ok, not_or, not_not] at h
  obtain ⟨_, ⟨-, rfl, -⟩, h⟩ := h
  cases body with
  | prepareWriterFormat proofs rosterLogId =>
    simp only [preparePolicy, bind_eq_ok, pure_eq_ok] at h
    obtain ⟨_, -, rfl⟩ := h
    exact .inr ⟨rfl, rfl⟩
  | activateWriterFormat rosterLogId target =>
    simp only [activatePolicy, bind_eq_ok, refuseIf_eq_ok, not_not, pure_eq_ok] at h
    obtain ⟨_, hbase, _, hroster, _, hvalid, rfl⟩ := h
    exact .inl ⟨rfl, hbase, rfl, rfl, hroster, validateRoster_covers hvalid⟩
  | authenticated => simp at h
  | other => simp at h

/-- What a command is answered with, and what it leaves. -/
inductive FormatAnswered (digestOf : String → Nat → Option Position → Result String)
    (clusterId : String) (s : FormatState) (command : FormatCommand) (roster : StoredMembership)
    (logId : LogId) (principal : String) : Result FormatReceipt × FormatState → Prop
  | refused (fault : Fault) :
      FormatAnswered digestOf clusterId s command roster logId principal (.error fault, s)
  | again (operation : String) (target : Nat) (requestedRoster : Option Position)
      (receipt : FormatReceipt)
      (named : principal ≠ "")
      (request : command.body.inner.request = .ok (operation, target, requestedRoster))
      (digested : digestOf operation target requestedRoster = .ok receipt.requestDigest)
      (received : mapGet s.receipts (formatKey clusterId principal command.id) = some receipt) :
      FormatAnswered digestOf clusterId s command roster logId principal (.ok receipt, s)
  | received (operation : String) (target : Nat) (requestedRoster : Option Position)
      (digest : String) (s' : FormatState) (receipt : FormatReceipt)
      (named : principal ≠ "")
      (request : command.body.inner.request = .ok (operation, target, requestedRoster))
      (digested : digestOf operation target requestedRoster = .ok digest)
      (unknown : mapGet s.receipts (formatKey clusterId principal command.id) = none)
      (left : receiveFormat s command target requestedRoster digest roster logId principal
        clusterId = (receipt, s')) :
      FormatAnswered digestOf clusterId s command roster logId principal (.ok receipt, s')

theorem applyFormat_answered :
    FormatAnswered digestOf clusterId s command roster logId principal
      (applyFormat digestOf s command roster logId principal clusterId) := by
  unfold applyFormat
  cases hrequest : command.body.inner.request with
  | error fault => exact .refused fault
  | ok request =>
    obtain ⟨operation, target, requestedRoster⟩ := request
    dsimp only
    by_cases hnamed : principal = ""
    · rw [if_pos hnamed]
      exact .refused _
    rw [if_neg hnamed]
    cases hdigest : digestOf operation target requestedRoster with
    | error fault => exact .refused fault
    | ok digest =>
      dsimp only
      cases hreceipt : mapGet s.receipts (formatKey clusterId principal command.id) with
      | some receipt =>
        dsimp only
        split
        · exact .refused _
        · next hsame =>
          obtain rfl := not_not.mp hsame
          exact .again _ _ _ receipt hnamed hrequest hdigest hreceipt
      | none => exact .received _ _ _ digest _ _ hnamed hrequest hdigest hreceipt rfl

variable {reply : Result FormatReceipt × FormatState}

/-- A receipt that is there stays. -/
theorem FormatAnswered.keeps
    (h : FormatAnswered digestOf clusterId s command roster logId principal reply) {key : String}
    (hkey : mapGet s.receipts key = some receipt) :
    mapGet reply.2.receipts key = some receipt := by
  cases h with
  | refused | again => exact hkey
  | received _ _ _ _ s' _ _ _ _ unknown left =>
    obtain ⟨-, rfl⟩ := Prod.mk.inj left
    have hne : key ≠ formatKey clusterId principal command.id := by
      rintro rfl
      cases unknown.symm.trans hkey
    rw [mapGet_mapInsert, if_neg hne]
    exact hkey

/-- A receipt that is returned is there, with the digest of the request. -/
theorem FormatAnswered.filed {s' : FormatState}
    (h : FormatAnswered digestOf clusterId s command roster logId principal (.ok receipt, s')) :
    mapGet s'.receipts (formatKey clusterId principal command.id) = some receipt ∧
      principal ≠ "" ∧ ∃ operation target requestedRoster,
        command.body.inner.request = .ok (operation, target, requestedRoster) ∧
        digestOf operation target requestedRoster = .ok receipt.requestDigest := by
  cases h with
  | again operation target requestedRoster _ named request digested received =>
    exact ⟨received, named, operation, target, requestedRoster, request, digested⟩
  | received operation target requestedRoster digest _ _ named request digested unknown left =>
    obtain ⟨rfl, rfl⟩ := Prod.mk.inj left
    refine ⟨?_, named, operation, target, requestedRoster, request, digested⟩
    rw [mapGet_mapInsert, if_pos rfl]

/-- A command that comes again finds its receipt, whatever the roster is by then. -/
theorem applyFormat_again {operation : String} {requestedRoster : Option Position}
    (hreceived : mapGet s.receipts (formatKey clusterId principal command.id) = some receipt)
    (hnamed : principal ≠ "")
    (hrequest : command.body.inner.request = .ok (operation, target, requestedRoster))
    (hdigest : digestOf operation target requestedRoster = .ok receipt.requestDigest) :
    applyFormat digestOf s command roster logId principal clusterId = (.ok receipt, s) := by
  have hsame : ¬ receipt.requestDigest ≠ receipt.requestDigest := fun h => h rfl
  simp only [applyFormat, hrequest, if_neg hnamed, hdigest, hreceived, if_neg hsame]

end Commands

/-! ## Sequences of commands -/

/-- A command that has been answered. -/
structure FormatStep where
  before : FormatState
  command : FormatCommand
  roster : StoredMembership
  logId : LogId
  principal : String
  answer : Result FormatReceipt
  after : FormatState

/-- The commands answered by a cluster and the state reached. The roster, the position and the
principal of each command are arbitrary. -/
inductive FormatRun (digestOf : String → Nat → Option Position → Result String)
    (clusterId : String) : List FormatStep → FormatState → Prop
  | initial : FormatRun digestOf clusterId [] {}
  | step {log : List FormatStep} {s : FormatState} (run : FormatRun digestOf clusterId log s)
      (command : FormatCommand) (roster : StoredMembership) (logId : LogId) (principal : String) :
      FormatRun digestOf clusterId
        (log ++ [{
          before := s, command, roster, logId, principal
          answer := (applyFormat digestOf s command roster logId principal clusterId).1
          after := (applyFormat digestOf s command roster logId principal clusterId).2 }])
        (applyFormat digestOf s command roster logId principal clusterId).2

/-- The format that members write has changed. -/
def FormatStep.raises (step : FormatStep) : Bool :=
  step.before.policy.activeWriter ≠ step.after.policy.activeWriter

/-- An activation that is applied here, and not one that is answered from its receipt. -/
structure FormatStep.Activates (clusterId : String) (step : FormatStep) : Prop where
  activation : step.command.body.inner.isActivation = true
  first : mapGet step.before.receipts
    (formatKey clusterId step.principal step.command.id) = none
  applied : ∃ receipt, step.answer = .ok receipt ∧ receipt.applied = true

section Runs

variable {digestOf : String → Nat → Option Position → Result String} {clusterId : String}
  {log : List FormatStep} {s : FormatState} {step : FormatStep}

def FormatStep.Answered (digestOf : String → Nat → Option Position → Result String)
    (clusterId : String) (step : FormatStep) : Prop :=
  FormatAnswered digestOf clusterId step.before step.command step.roster step.logId step.principal
    (step.answer, step.after)

theorem FormatRun.answered (run : FormatRun digestOf clusterId log s) :
    ∀ step ∈ log, step.Answered digestOf clusterId := by
  induction run with
  | initial => exact fun _ hmem => (by cases hmem)
  | step _ command roster logId principal ih =>
    intro other hother
    rcases List.mem_append.mp hother with hold | hnew
    · exact ih other hold
    · obtain rfl := List.mem_singleton.mp hnew
      exact applyFormat_answered

theorem FormatStep.Activates.activatedBy (h : step.Activates clusterId)
    (answered : step.Answered digestOf clusterId) :
    ActivatedBy clusterId step.roster step.logId step.before.policy step.after.policy := by
  obtain ⟨hactivation, hfirst, receipt, hanswer, happlied⟩ := h
  obtain ⟨before, command, roster, logId, principal, answer, after⟩ := step
  dsimp only [FormatStep.Answered] at hactivation hfirst hanswer answered ⊢
  subst hanswer
  cases answered with
  | again _ _ _ _ _ _ _ received => cases hfirst.symm.trans received
  | received operation target requestedRoster digest _ _ named request digested unknown left =>
    obtain ⟨rfl, rfl⟩ := Prod.mk.inj left
    cases hattempt : attemptFormat before.policy command.body.inner target requestedRoster roster
      logId principal clusterId with
    | error fault =>
      simp only [hattempt] at happlied
      cases happlied
    | ok policy =>
      rcases attemptFormat_ok hattempt with ⟨-, hactivated⟩ | ⟨hother, -⟩
      · exact hactivated
      · cases hactivation.symm.trans hother

/-- The format changes by an activation only. -/
theorem FormatStep.activates_of_raises (answered : step.Answered digestOf clusterId)
    (h : step.raises = true) : step.Activates clusterId := by
  have hchanged : step.before.policy.activeWriter ≠ step.after.policy.activeWriter :=
    of_decide_eq_true h
  obtain ⟨before, command, roster, logId, principal, answer, after⟩ := step
  dsimp only [FormatStep.Answered] at hchanged answered
  cases answered with
  | refused | again => exact absurd rfl hchanged
  | received operation target requestedRoster digest _ _ named request digested unknown left =>
    obtain ⟨rfl, rfl⟩ := Prod.mk.inj left
    cases hattempt : attemptFormat before.policy command.body.inner target requestedRoster roster
      logId principal clusterId with
    | error fault =>
      simp only [hattempt] at hchanged
      exact absurd rfl hchanged
    | ok policy =>
      simp only [hattempt] at hchanged
      rcases attemptFormat_ok hattempt with ⟨hactivation, -⟩ | ⟨-, hsame⟩
      · exact ⟨hactivation, unknown, _, rfl, rfl⟩
      · exact absurd hsame.symm hchanged

/-- The format is the base format until it has been raised, and it has been raised once then. -/
theorem FormatRun.writer (run : FormatRun digestOf clusterId log s) :
    s.policy.activeWriter = baseFormat + log.countP FormatStep.raises ∧
      log.countP FormatStep.raises ≤ 1 := by
  induction run with
  | initial => exact ⟨rfl, Nat.zero_le _⟩
  | @step log s run command roster logId principal ih =>
    obtain ⟨hwriter, hcount⟩ := ih
    rw [List.countP_append, List.countP_singleton]
    split
    · next hraises =>
      have answered := (run.step command roster logId principal).answered _
        (List.mem_append_right _ List.mem_cons_self)
      have hactivated := (FormatStep.activates_of_raises answered hraises).activatedBy answered
      have hbase : s.policy.activeWriter ≠ nextFormat := hactivated.base
      have hnone : log.countP FormatStep.raises = 0 := by
        rw [hwriter] at hbase
        unfold baseFormat nextFormat at hbase
        omega
      rw [hnone]
      exact ⟨hactivated.raised, le_rfl⟩
    · next hsame =>
      have hsame' : s.policy.activeWriter =
          (applyFormat digestOf s command roster logId principal
            clusterId).2.policy.activeWriter := by
        simpa [FormatStep.raises] using hsame
      rw [← hsame']
      exact ⟨hwriter, hcount⟩

theorem FormatRun.filed (run : FormatRun digestOf clusterId log s) (hmem : step ∈ log)
    (hanswer : step.answer = .ok receipt) :
    mapGet s.receipts (formatKey clusterId step.principal step.command.id) = some receipt := by
  induction run with
  | initial => cases hmem
  | step run command roster logId principal ih =>
    rcases List.mem_append.mp hmem with hold | hnew
    · exact applyFormat_answered.keeps (ih hold)
    · obtain rfl := List.mem_singleton.mp hnew
      have answered := (run.step command roster logId principal).answered _ hmem
      rw [FormatStep.Answered, hanswer] at answered
      exact answered.filed.1

theorem FormatRun.before_writer (run : FormatRun digestOf clusterId log s) :
    ∀ step ∈ log, step.before.policy.activeWriter = baseFormat ∨
      step.before.policy.activeWriter = nextFormat := by
  induction run with
  | initial => exact fun _ hmem => (by cases hmem)
  | step run command roster logId principal ih =>
    intro other hother
    rcases List.mem_append.mp hother with hold | hnew
    · exact ih other hold
    · obtain rfl := List.mem_singleton.mp hnew
      obtain ⟨hwriter, hcount⟩ := run.writer
      rw [hwriter]
      unfold baseFormat nextFormat
      omega

/-- Over every sequence of format commands, with any rosters and principals: the format is raised
from the base format to the next one, once at most and by an activation. Where an activation is
applied, the proofs that the policy holds correspond to the nodes of the roster, each of this
cluster and this roster and for the next format, and cover the voters of every configuration. A
command that has a receipt is answered with it again, and nothing changes. -/
theorem format_activation (run : FormatRun digestOf clusterId log s) :
    (s.policy.activeWriter = baseFormat + log.countP FormatStep.raises ∧
      log.countP FormatStep.raises ≤ 1) ∧
    (∀ step ∈ log, step.raises = true →
      step.before.policy.activeWriter = baseFormat ∧
        step.after.policy.activeWriter = nextFormat ∧ step.Activates clusterId) ∧
    (∀ step ∈ log, step.Activates clusterId →
      step.raises = true ∧ step.after.policy.activationLogId = some step.logId.position ∧
        step.after.policy.rosterLogId = position step.roster.logId ∧
        Covers clusterId step.roster (step.after.policy.prepared.map (·.2))) ∧
    ∀ step ∈ log, ∀ receipt, step.answer = .ok receipt →
      ∀ command roster logId, command.id = step.command.id →
        command.body.inner = step.command.body.inner →
        applyFormat digestOf s command roster logId step.principal clusterId =
          (.ok receipt, s) := by
  refine ⟨run.writer, fun step hmem hraises => ?_, fun step hmem hactivates => ?_,
    fun step hmem receipt hanswer command roster logId hid hbody => ?_⟩
  · have hactivates := FormatStep.activates_of_raises (run.answered step hmem) hraises
    have hactivated := hactivates.activatedBy (run.answered step hmem)
    exact ⟨(run.before_writer step hmem).resolve_right hactivated.base, hactivated.raised,
      hactivates⟩
  · have hactivated := hactivates.activatedBy (run.answered step hmem)
    have hraises : step.raises = true := by
      rw [FormatStep.raises, hactivated.raised]
      exact decide_eq_true hactivated.base
    exact ⟨hraises, hactivated.activated, hactivated.current, hactivated.covers⟩
  · have answered := run.answered step hmem
    rw [FormatStep.Answered, hanswer] at answered
    obtain ⟨-, hnamed, operation, target, requestedRoster, hrequest, hdigest⟩ := answered.filed
    have hreceived := run.filed hmem hanswer
    rw [← hid] at hreceived
    rw [← hbody] at hrequest
    exact applyFormat_again hreceived hnamed hrequest hdigest

end Runs

/-! ## Two nodes -/

def sampleLogId (index : Nat) (bounded : index ≤ u64Max) : LogId where
  leaderId := ⟨1, 1⟩
  index := index
  bounded := bounded

/-- A voter that is joined by a second one. -/
def sampleRoster : StoredMembership where
  logId := some (sampleLogId 3 (by decide))
  nodes := [1, 2]
  jointConfig := [[1], [1, 2]]
  nodup := by decide

def sampleProof (member : Nat) : ReaderProof where
  format := proofFormat
  clusterId := "c"
  memberId := member
  rosterLogId := position sampleRoster.logId
  activeGeneration := 1
  appliedLogId := none
  readerFloor := 5
  commandReaders := [4, 5]
  domainReaders := [domainFormat]
  graphReaders := [1]
  stateRecords := [stateRecordFormat, nextStateRecordFormat]
  eventReaders := [eventFormat]
  checkpointReaders := [checkpointFormat]
  artifactReaders := [artifactFormat]
  snapshotReaders := [1]

def sampleDigest (operation : String) (_ : Nat) (_ : Option Position) : Result String :=
  .ok operation

def samplePrepare : FormatCommand where
  id := ⟨1⟩
  body := .prepareWriterFormat [sampleProof 2, sampleProof 1] (position sampleRoster.logId)

def sampleActivate : FormatCommand where
  id := ⟨2⟩
  body := .activateWriterFormat (position sampleRoster.logId) nextFormat

def preparedState : FormatState :=
  (applyFormat sampleDigest {} samplePrepare sampleRoster (sampleLogId 4 (by decide)) "admin" "c").2

def activatedState : FormatState :=
  (applyFormat sampleDigest preparedState sampleActivate sampleRoster (sampleLogId 5 (by decide))
    "admin" "c").2

/-- The two nodes are prepared, and the format is activated. -/
theorem activatedState_raised_once :
    activatedState.policy.activeWriter = nextFormat ∧
      ∃ log, FormatRun sampleDigest "c" log activatedState ∧ log.countP FormatStep.raises = 1 := by
  have hwriter : activatedState.policy.activeWriter = nextFormat := by decide +kernel
  have prepared : FormatRun sampleDigest "c" _ preparedState :=
    FormatRun.initial.step samplePrepare sampleRoster (sampleLogId 4 (by decide)) "admin"
  have activated : FormatRun sampleDigest "c" _ activatedState :=
    prepared.step sampleActivate sampleRoster (sampleLogId 5 (by decide)) "admin"
  have hcount := (format_activation activated).1.1
  have hone : nextFormat = baseFormat + 1 := rfl
  rw [hwriter, hone] at hcount
  exact ⟨hwriter, _, activated, (Nat.add_left_cancel hcount).symm⟩

end Graphrun
