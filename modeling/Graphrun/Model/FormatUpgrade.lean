import Graphrun.Model.History
import Graphrun.Model.LogStore
import Graphrun.Model.Reports

/-!
# Change of the writer format

The replicated policy of `format_upgrade.rs`: members write format 4 until an administrator has
collected a proof from every configured node that it reads format 5 and has then activated it. A
request leaves a receipt under its cluster, principal and command id, from which it is answered
when it comes again.
-/

namespace Graphrun

open Lib

def baseFormat : Nat := 4
def nextFormat : Nat := 5
def policyFormat : String := "graphrun.writer-policy/v1"
def proofFormat : String := "graphrun.reader-proof/v1"
def formatReceiptFormat : String := "graphrun.writer-format-receipt/v1"
def domainFormat : String := "graphrun.domain/v1"
def stateRecordFormat : String := "graphrun.state-record/v2"
def nextStateRecordFormat : String := "graphrun.state-record/v3"

structure Position where
  term : Nat
  leaderId : Nat
  index : Nat
  deriving DecidableEq, Repr

def LogId.position (id : LogId) : Position where
  term := id.leaderId.term
  leaderId := id.leaderId.nodeId
  index := id.index

def position (id : Option LogId) : Option Position := id.map LogId.position

/-- The committed membership: the configured nodes, voters and learners, and the voters of each
configuration of a joint one. -/
structure StoredMembership where
  logId : Option LogId
  nodes : List Nat
  jointConfig : List (List Nat)
  nodup : nodes.Nodup

structure ReaderProof where
  format : String
  clusterId : String
  memberId : Nat
  rosterLogId : Option Position
  activeGeneration : Nat
  appliedLogId : Option Position
  readerFloor : Nat
  commandReaders : List Nat
  domainReaders : List String
  graphReaders : List Nat
  stateRecords : List String
  eventReaders : List String
  checkpointReaders : List String
  artifactReaders : List String
  snapshotReaders : List Nat
  deriving DecidableEq, Repr

def ReaderProof.supports (proof : ReaderProof) (target : Nat) : Bool :=
  proof.format = proofFormat && target = nextFormat && target ≤ proof.readerFloor &&
    proof.commandReaders = [baseFormat, nextFormat] && domainFormat ∈ proof.domainReaders &&
    formatVersion ∈ proof.graphReaders && nextStateRecordFormat ∈ proof.stateRecords &&
    stateRecordFormat ∈ proof.stateRecords && eventFormat ∈ proof.eventReaders &&
    checkpointFormat ∈ proof.checkpointReaders && artifactFormat ∈ proof.artifactReaders &&
    1 ∈ proof.snapshotReaders

structure FormatPolicy where
  format : String := policyFormat
  activeWriter : Nat := baseFormat
  activationLogId : Option Position := none
  rosterLogId : Option Position := none
  prepared : List (Nat × ReaderProof) := []

structure FormatReceipt where
  format : String
  clusterId : String
  principalId : String
  commandId : CommandId
  requestDigest : String
  appliedLogId : Position
  activeWriter : Nat
  applied : Bool
  message : String

/-- The bodies of commands as far as the change of the format tells them apart. -/
inductive FormatBody where
  | prepareWriterFormat (proofs : List ReaderProof) (rosterLogId : Option Position)
  | activateWriterFormat (rosterLogId : Option Position) (target : Nat)
  | authenticated (principalId : String) (body : FormatBody)
  | other

structure FormatCommand where
  id : CommandId
  body : FormatBody

def FormatBody.inner : FormatBody → FormatBody
  | .authenticated _ body => body
  | body => body

/-! ## Checks -/

/-- The loop over the proofs, with the members seen so far. -/
def checkProofs (roster : StoredMembership) (target : Nat) (clusterId : String) :
    List Nat → List ReaderProof → Result (List Nat)
  | seen, [] => pure seen
  | seen, proof :: proofs => do
    refuseIf (proof.memberId ∈ seen ∨ proof.clusterId ≠ clusterId ∨
        proof.rosterLogId ≠ position roster.logId ∨ proof.activeGeneration = 0 ∨
        proof.supports target = false ∨ proof.memberId ∉ roster.nodes)
      (failedPrecondition
        "reader preparation does not match the committed roster and required versions")
    checkProofs roster target clusterId (proof.memberId :: seen) proofs

def validateRoster (roster : StoredMembership) (proofs : List ReaderProof) (target : Nat)
    (clusterId : String) : Result Unit := do
  refuseIf (proofs.length ≠ roster.nodes.length)
    (failedPrecondition "every configured data-bearing voter and learner must prepare readers")
  let seen ← checkProofs roster target clusterId [] proofs
  roster.jointConfig.forM fun voters =>
    refuseIf (voters = [] ∨ ¬ ∀ member ∈ voters, member ∈ seen)
      (failedPrecondition "joint voter configuration has an unprepared member")

/-! ## Commands -/

/-- What a request asks for: the operation, the target and the roster. -/
def FormatBody.request : FormatBody → Result (String × Nat × Option Position)
  | .prepareWriterFormat _ rosterLogId => pure ("prepare", nextFormat, rosterLogId)
  | .activateWriterFormat rosterLogId target => pure ("activate", target, rosterLogId)
  | _ => throw (invalid "not a writer format command")

def preparePolicy (policy : FormatPolicy) (proofs : List ReaderProof) (roster : StoredMembership)
    (target : Nat) (clusterId : String) : Result FormatPolicy := do
  validateRoster roster proofs target clusterId
  pure { policy with
    rosterLogId := position roster.logId
    prepared := proofs.foldl (fun m proof => mapInsert proof.memberId proof m) [] }

def activatePolicy (policy : FormatPolicy) (roster : StoredMembership) (logId : LogId)
    (target : Nat) (clusterId : String) : Result FormatPolicy := do
  refuseIf (policy.activeWriter = nextFormat)
    (failedPrecondition "writer format activation is monotonic")
  refuseIf (policy.rosterLogId ≠ position roster.logId)
    (failedPrecondition "reader readiness belongs to an older roster")
  validateRoster roster (policy.prepared.map (·.2)) target clusterId
  pure { policy with activeWriter := target, activationLogId := some logId.position }

/-- The closure `attempt`: the policy that a new request leaves, or why it is refused. -/
def attemptFormat (policy : FormatPolicy) (body : FormatBody) (target : Nat)
    (requestedRoster : Option Position) (roster : StoredMembership) (logId : LogId)
    (principal clusterId : String) : Result FormatPolicy := do
  refuseIf (principal = "" ∨ target ≠ nextFormat ∨ requestedRoster ≠ position roster.logId)
    (failedPrecondition "writer format target or committed roster changed")
  match body with
  | .prepareWriterFormat proofs _ => preparePolicy policy proofs roster target clusterId
  | .activateWriterFormat _ _ => activatePolicy policy roster logId target clusterId
  | _ => throw .panicked

structure FormatState where
  policy : FormatPolicy := {}
  receipts : List (String × FormatReceipt) := []

def formatKey (clusterId principal : String) (id : CommandId) : String :=
  s!"{clusterId}/{principal}/{id.toHex}"

/-- A request that has no receipt: it is attempted and leaves its receipt. -/
def receiveFormat (s : FormatState) (command : FormatCommand) (target : Nat)
    (requestedRoster : Option Position) (digest : String) (roster : StoredMembership)
    (logId : LogId) (principal clusterId : String) : FormatReceipt × FormatState :=
  let attempt := attemptFormat s.policy command.body.inner target requestedRoster roster logId
    principal clusterId
  let policy := attempt.toOption.getD s.policy
  let receipt : FormatReceipt := {
    format := formatReceiptFormat, clusterId, principalId := principal, commandId := command.id
    requestDigest := digest, appliedLogId := logId.position, activeWriter := policy.activeWriter
    applied := attempt.isOk
    message := match attempt with
      | .ok _ => ""
      | .error fault => fault.message }
  (receipt, {
    policy, receipts := mapInsert (formatKey clusterId principal command.id) receipt s.receipts })

/-- `apply`, with the digest of a request as a parameter. -/
def applyFormat (digestOf : String → Nat → Option Position → Result String) (s : FormatState)
    (command : FormatCommand) (roster : StoredMembership) (logId : LogId)
    (principal clusterId : String) : Result FormatReceipt × FormatState :=
  match command.body.inner.request with
  | .error fault => (.error fault, s)
  | .ok (operation, target, requestedRoster) =>
    if principal = "" then
      (.error (refusal .permissionDenied "format change requires a verified admin principal"), s)
    else
      match digestOf operation target requestedRoster with
      | .error fault => (.error fault, s)
      | .ok digest =>
        match mapGet s.receipts (formatKey clusterId principal command.id) with
        | some receipt =>
          if receipt.requestDigest ≠ digest then
            (.error (refusal .alreadyExists
              "format command identity reused with a different request"), s)
          else (.ok receipt, s)
        | none =>
          let (receipt, s') := receiveFormat s command target requestedRoster digest roster logId
            principal clusterId
          (.ok receipt, s')

end Graphrun
