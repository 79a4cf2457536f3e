import Graphrun.Lib.Log
import Graphrun.Lib.Outcome
import Graphrun.Model.Value

/-!
# The log store of a member

The Raft log of `storage.rs`: the table `LOG` of encoded entries, and the boundaries and the ledger
of unapplied entries that are kept in the table `META`. Truncation and purge move the boundaries
only; rows outside of them stay until `gc_invisible_logs` removes them.

A function returns the tables as they are after its transaction, or the error after which nothing
of its transaction is kept.
-/

namespace Graphrun

open Lib

inductive ErrorVerb where
  | read
  | write
  deriving DecidableEq, Repr

structure StorageError where
  verb : ErrorVerb
  message : String
  deriving DecidableEq, Repr

def stoErr (verb : ErrorVerb) (message : String) : StorageError := { verb, message }

structure CommittedLeaderId where
  term : Nat
  nodeId : Nat
  deriving DecidableEq, Repr

/-- The id of a log entry; the index is a `u64`. -/
structure LogId where
  leaderId : CommittedLeaderId
  index : Nat
  bounded : index ≤ u64Max
  deriving DecidableEq, Repr

/-- A log entry with a payload of any kind. -/
structure LogEntry (P : Type) where
  logId : LogId
  payload : P
  deriving DecidableEq, Repr

def LogEntry.index {P : Type} (entry : LogEntry P) : Nat := entry.logId.index

abbrev Bytes := List UInt8

/-- How entries are written to rows and read back. -/
structure EntryCodec (P : Type) where
  toVec : LogEntry P → Except String Bytes
  fromSlice : Bytes → Except String (LogEntry P)

structure PendingCredits where
  entries : Nat
  bytes : Nat
  deriving DecidableEq, Repr

structure LogStore where
  log : Ordered Bytes
  visibleLogEnd : Option LogId
  lastPurged : Option LogId
  lastApplied : Option LogId
  unappliedCredits : PendingCredits

/-- `initialize_publication_store`. -/
def LogStore.initial : LogStore where
  log := .empty
  visibleLogEnd := none
  lastPurged := none
  lastApplied := none
  unappliedCredits := { entries := 0, bytes := 0 }

def u32Max : Nat := 2 ^ 32 - 1

def unappliedEntries : Nat := 4096
def unappliedBytes : Nat := 64 * 1024 * 1024

def checkedAdd (limit a b : Nat) : Option Nat := if a + b ≤ limit then some (a + b) else none

def checkedSub (a b : Nat) : Option Nat := if b ≤ a then some (a - b) else none

variable {P : Type}

/-! ## Appending -/

/-- The state of the loop of `admit_and_append`. -/
structure Appending where
  visible : Option LogId
  appended : List (Nat × Nat)
  credits : PendingCredits
  table : Ordered Bytes

/-- The credits without the entry that is written over, or with one entry more. -/
def chargeOver (credits : PendingCredits) (previous : Option Nat) :
    Except StorageError PendingCredits :=
  match previous with
  | some previous => do
    let bytes ← okOr (checkedSub credits.bytes previous) (stoErr .read "unapplied ledger mismatch")
    pure { credits with bytes }
  | none => do
    let entries ← okOr (checkedAdd u32Max credits.entries 1)
      (stoErr .write "unapplied entry overflow")
    pure { credits with entries }

/-- The credits after an unapplied entry. -/
def chargeEntry (credits : PendingCredits) (previous : Option Nat) (length : Nat) :
    Except StorageError PendingCredits := do
  let credits ← chargeOver credits previous
  let bytes ← okOr (checkedAdd u64Max credits.bytes length)
    (stoErr .write "unapplied byte overflow")
  let credits := { credits with bytes }
  refuseIf (credits.entries > unappliedEntries) (stoErr .write "unapplied entry credit exhausted")
  refuseIf (credits.bytes > unappliedBytes) (stoErr .write "unapplied byte credit exhausted")
  pure credits

def refuseGap (last? : Option LogId) (index : Nat) : Except StorageError Unit :=
  match last? with
  | some last =>
    refuseIf (index > satAdd last.index 1) (stoErr .write "append would expose a log gap")
  | none => pure ()

/-- The length of the entry that is written over. -/
def previousLength (previousVisible : Option LogId) (acc : Appending) (index : Nat) : Option Nat :=
  match mapGet acc.appended index with
  | some previous => some previous
  | none =>
    if previousVisible.any fun last => index ≤ last.index then
      (acc.table.get? index).map List.length
    else none

/-- The lengths noted and the credits after an entry. -/
def chargeAppended (previousVisible purged lastApplied : Option LogId) (acc : Appending)
    (index length : Nat) : Except StorageError (List (Nat × Nat) × PendingCredits) :=
  if (lastApplied.all fun id => index > id.index) ∧ (purged.all fun id => index > id.index) then do
    let credits ← chargeEntry acc.credits (previousLength previousVisible acc index) length
    pure (mapInsert index length acc.appended, credits)
  else pure (acc.appended, acc.credits)

def appendEntry (codec : EntryCodec P) (previousVisible purged lastApplied : Option LogId)
    (acc : Appending) (entry : LogEntry P) : Except StorageError Appending := do
  let bytes ← (codec.toVec entry).mapError (stoErr .write)
  let index := entry.index
  refuseGap (acc.visible.or purged) index
  let visible := if acc.visible.all fun last => index ≥ last.index then some entry.logId
    else acc.visible
  let (appended, credits) ← chargeAppended previousVisible purged lastApplied acc index bytes.length
  pure { visible, appended, credits, table := acc.table.insert index bytes }

def admitAndAppend (codec : EntryCodec P) (store : LogStore) (lastApplied : Option LogId)
    (entries : List (LogEntry P)) : Except StorageError LogStore := do
  let acc ← entries.foldlM (appendEntry codec store.visibleLogEnd store.lastPurged lastApplied)
    { visible := store.visibleLogEnd, appended := [], credits := store.unappliedCredits
      table := store.log }
  pure { store with
    log := acc.table, visibleLogEnd := acc.visible, unappliedCredits := acc.credits }

/-! ## Moving the boundaries -/

def removePendingCredit (credits : PendingCredits) (bytes : Nat) :
    Except StorageError PendingCredits := do
  let entries ← okOr (checkedSub credits.entries 1)
    (stoErr .read "unapplied entry ledger mismatch")
  let left ← okOr (checkedSub credits.bytes bytes) (stoErr .read "unapplied byte ledger mismatch")
  pure { entries, bytes := left }

/-- Takes the credits of rows back. -/
def removePendingCredits (credits : PendingCredits) (rows : List (Nat × Bytes)) :
    Except StorageError PendingCredits :=
  rows.foldlM (fun credits row => removePendingCredit credits row.2.length) credits

/-- The id of the entry in a row, if there is one. -/
def rowLogId (codec : EntryCodec P) (row : Option Bytes) : Except StorageError (Option LogId) :=
  match row with
  | some bytes => do
    let entry ← (codec.fromSlice bytes).mapError (stoErr .read)
    pure (some entry.logId)
  | none => pure none

/-- The id of the entry before the first one truncated. -/
def truncatePredecessor (codec : EntryCodec P) (store : LogStore) (start : Nat) :
    Except StorageError (Option LogId) :=
  if start = 0 then pure store.lastPurged
  else do
    let row ← rowLogId codec (store.log.get? (start - 1))
    pure (row.or (store.lastPurged.filter fun id => id.index = start - 1))

def truncateLogs (codec : EntryCodec P) (store : LogStore) (start : Nat) :
    Except StorageError LogStore :=
  match store.visibleLogEnd with
  | none => pure store
  | some oldVisible =>
    if start > oldVisible.index then pure store
    else do
      refuseIf (store.lastPurged.any fun id => start ≤ id.index)
        (stoErr .write "truncate crosses durable purge")
      let predecessor ← truncatePredecessor codec store start
      refuseIf (start ≠ 0 ∧ predecessor = none)
        (stoErr .read "visible log predecessor missing during truncate")
      let first := store.lastApplied.elim start fun id => max start (satAdd id.index 1)
      let credits ← removePendingCredits store.unappliedCredits
        (if first ≤ oldVisible.index then store.log.range first oldVisible.index else [])
      pure { store with visibleLogEnd := predecessor, unappliedCredits := credits }

/-- Moves the purge point of a store to a later index. -/
def movePurge (store : LogStore) (through : Nat) (lastPurged : LogId) :
    Except StorageError LogStore := do
  let first := store.lastPurged.elim 0 fun id => satAdd id.index 1
  let first := store.lastApplied.elim first fun id => max first (satAdd id.index 1)
  let last := (store.visibleLogEnd.map fun visible => min through visible.index).filter
    fun last => first ≤ last
  let credits ← removePendingCredits store.unappliedCredits
    (last.elim [] fun last => store.log.range first last)
  let visible := (store.visibleLogEnd.filter fun visible => visible.index > through).or
    (some lastPurged)
  pure { store with
    lastPurged := some lastPurged, visibleLogEnd := visible, unappliedCredits := credits }

/-- `purge_logs`, which is called with the index of the id purged. -/
def purgeLogs (store : LogStore) (through : Nat) (lastPurged : LogId) :
    Except StorageError LogStore :=
  match store.lastPurged with
  | some old =>
    if through < old.index then pure store
    else if through = old.index then do
      refuseIf (lastPurged ≠ old) (stoErr .read "purged log identity changed")
      pure store
    else movePurge store through lastPurged
  | none => movePurge store through lastPurged

/-! ## Reading -/

def getLogs (codec : EntryCodec P) (store : LogStore) (start stop : Nat) :
    Except StorageError (List (LogEntry P)) :=
  match store.visibleLogEnd with
  | none => pure []
  | some visible =>
    if start ≥ stop then pure []
    else
      let first := store.lastPurged.elim start fun id => max start (satAdd id.index 1)
      let last := min visible.index (stop - 1)
      if first > last ∨ store.lastPurged.any (fun id => id.index = u64Max) then pure []
      else (store.log.range first last).mapM fun row =>
        (codec.fromSlice row.2).mapError (stoErr .read)

/-! ## Applying entries and installing snapshots -/

/-- Gives the credits of the entries back that an application goes over. -/
def releaseAppliedCredits (store : LogStore) (start? through? : Option LogId) :
    Except StorageError PendingCredits :=
  match through?, store.visibleLogEnd with
  | some through, some visible =>
    let start := start?.elim 0 fun id => satAdd id.index 1
    let stop := min through.index visible.index
    if start > stop then pure store.unappliedCredits
    else removePendingCredits store.unappliedCredits (store.log.range start stop)
  | _, _ => pure store.unappliedCredits

/-- What `apply_one_entry` does to the log store. -/
def applyLogEntry (store : LogStore) (next : LogId) : Except StorageError LogStore := do
  let credits ← releaseAppliedCredits store store.lastApplied (some next)
  pure { store with lastApplied := some next, unappliedCredits := credits }

def recountRow (credits : PendingCredits) (row : Nat × Bytes) :
    Except StorageError PendingCredits := do
  let entries ← okOr (checkedAdd u32Max credits.entries 1)
    (stoErr .read "unapplied count overflow")
  let bytes ← okOr (checkedAdd u64Max credits.bytes row.2.length)
    (stoErr .read "unapplied byte overflow")
  refuseIf (entries > unappliedEntries ∨ bytes > unappliedBytes)
    (stoErr .read "snapshot leaves an over-limit unapplied log")
  pure { entries, bytes }

def recountUnappliedCredits (store : LogStore) (applied : Option LogId) :
    Except StorageError PendingCredits :=
  let start := applied.elim 0 fun id => satAdd id.index 1
  match store.visibleLogEnd.filter fun stop => start ≤ stop.index with
  | some stop => (store.log.range start stop.index).foldlM recountRow { entries := 0, bytes := 0 }
  | none => pure { entries := 0, bytes := 0 }

/-- The visible end after a snapshot: a snapshot that reaches over it becomes the end. -/
def raiseVisible : Option LogId → Option LogId → Option LogId
  | some old, some new => if new.index > old.index then some new else some old
  | none, some new => some new
  | old, none => old

/-- What the activation of a snapshot in `install_snapshot` does to the log store. -/
def installSnapshot (store : LogStore) (applied : Option LogId) : Except StorageError LogStore := do
  let store := { store with
    lastApplied := applied, visibleLogEnd := raiseVisible store.visibleLogEnd applied }
  let credits ← recountUnappliedCredits store applied
  pure { store with unappliedCredits := credits }

/-! ## Removing rows -/

def selectGcKey (keys : List Nat) (bytes : Nat) (index size : Nat) : Option (List Nat × Nat) :=
  if keys.length = 4096 ∨ (keys ≠ [] ∧ satAdd bytes size > 4 * 1024 * 1024) then none
  else some (keys ++ [index], satAdd bytes size)

/-- Selects keys of rows until one is refused; the flag says whether one was. -/
def selectGcKeys (keys : List Nat) (bytes : Nat) : List (Nat × Bytes) → List Nat × Nat × Bool
  | [] => (keys, bytes, false)
  | row :: rows =>
    match selectGcKey keys bytes row.1 row.2.length with
    | none => (keys, bytes, true)
    | some (keys, bytes) => selectGcKeys keys bytes rows

/-- The rows after the visible end. -/
def rowsAfterVisible (store : LogStore) : List (Nat × Bytes) :=
  match store.visibleLogEnd with
  | some visible =>
    (checkedAdd u64Max visible.index 1).elim [] fun first =>
      store.log.entries.filter fun row => first ≤ row.1
  | none => store.log.entries

/-- The rows up to the purge point. -/
def rowsPurged (store : LogStore) : List (Nat × Bytes) :=
  store.lastPurged.elim [] fun purged => store.log.entries.filter fun row => row.1 ≤ purged.index

/-- The keys of the rows to be removed, and whether there are more of them. -/
def gcKeys (store : LogStore) : List Nat × Bool :=
  let purged := selectGcKeys [] 0 (rowsPurged store)
  if purged.2.2 then (purged.1, true)
  else
    let selected := selectGcKeys purged.1 purged.2.1 (rowsAfterVisible store)
    (selected.1, selected.2.2)

def gcInvisibleLogs (store : LogStore) : LogStore × Bool :=
  ({ store with log := (gcKeys store).1.foldl .remove store.log }, (gcKeys store).2)

/-! ## Transactions -/

/-- The transactions on the log store. -/
inductive LogOp (P : Type) where
  | append (lastApplied : Option LogId) (entries : List (LogEntry P))
  | truncate (start : Nat)
  | purge (id : LogId)
  | gc
  | apply (next : LogId)
  | install (applied : Option LogId)

def LogOp.perform (codec : EntryCodec P) (store : LogStore) :
    LogOp P → Except StorageError LogStore
  | .append lastApplied entries => admitAndAppend codec store lastApplied entries
  | .truncate start => truncateLogs codec store start
  | .purge id => purgeLogs store id.index id
  | .gc => pure (gcInvisibleLogs store).1
  | .apply next => applyLogEntry store next
  | .install applied => installSnapshot store applied

end Graphrun
