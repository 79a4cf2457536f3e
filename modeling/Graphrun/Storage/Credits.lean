import Graphrun.Storage.Boundaries
import Mathlib.Algebra.BigOperators.Group.List.Basic
import Mathlib.Algebra.GroupWithZero.Nat
import Mathlib.Algebra.Group.Prod

/-!
# The ledger of unapplied entries

The store keeps the number and the bytes of the entries that are visible but not applied, and
refuses appends that would take them over the limits. Four transactions move credits, each over its
own range of rows, and rows that are no longer in the log stay in the table.

`Ledger` says that the credits are those of the rows between the applied and the purged index and
the visible end. Used as Raft uses it, every transaction keeps that (`LogOp.ledger`), and none is
refused because a subtraction failed (`LogOp.not_mismatch`). An append notes the lengths that it has
written, which is what `Charging` relates to the rows.
-/

namespace Graphrun

open Lib

variable {P : Type} {codec : EntryCodec P} {store store' : LogStore} {log : Log (LogEntry P)}
  {entry : LogEntry P} {applied purged visible applied' purged' visible' : Option LogId}
  {start i index : Nat} {error : StorageError} {id : LogId} {op : LogOp P}

/-- An index that is charged if it is in the log: after the applied and the purged one. -/
def Chargeable (applied purged : Option LogId) (i : Nat) : Prop :=
  (∀ a ∈ applied, a.index < i) ∧ ∀ p ∈ purged, p.index < i

/-- An index whose row is counted. -/
def Pending (applied purged visible : Option LogId) (i : Nat) : Prop :=
  Chargeable applied purged i ∧ ∃ v ∈ visible, i ≤ v.index

instance : DecidablePred (Chargeable applied purged) := fun i =>
  inferInstanceAs (Decidable ((∀ a ∈ applied, a.index < i) ∧ ∀ p ∈ purged, p.index < i))

instance : DecidablePred (Pending applied purged visible) := fun i =>
  inferInstanceAs (Decidable (Chargeable applied purged i ∧ ∃ v ∈ visible, i ≤ v.index))

/-- The rows between the applied and the purged index and the visible end. -/
def LogStore.pendingRows (store : LogStore) : List (Nat × Bytes) :=
  store.log.entries.filter fun row =>
    Pending store.lastApplied store.lastPurged store.visibleLogEnd row.1

/-- Credits as a pair, which is added componentwise. -/
def PendingCredits.pair (credits : PendingCredits) : Nat × Nat := (credits.entries, credits.bytes)

/-- What a row costs. -/
def rowCost (row : Nat × Bytes) : Nat × Nat := (1, row.2.length)

def PendingCredits.Within (credits : PendingCredits) : Prop :=
  credits.entries ≤ unappliedEntries ∧ credits.bytes ≤ unappliedBytes

theorem PendingCredits.pair_eq {credits : PendingCredits} {n : Nat × Nat} :
    credits.pair = n ↔ credits.entries = n.1 ∧ credits.bytes = n.2 := Prod.ext_iff

/-- The credits of rows can be taken back if they are part of the credits. -/
theorem removePendingCredits_eq {rows : List (Nat × Bytes)} {credits rest : PendingCredits}
    (h : credits.pair = (rows.map rowCost).sum + rest.pair) :
    removePendingCredits credits rows = .ok rest := by
  induction rows generalizing credits with
  | nil =>
    obtain ⟨hentries, hbytes⟩ := PendingCredits.pair_eq.mp h
    simp only [List.map_nil, List.sum_nil, zero_add, PendingCredits.pair] at hentries hbytes
    obtain rfl : credits = rest := by
      cases credits
      cases rest
      simp_all
    rfl
  | cons row rows ih =>
    obtain ⟨hentries, hbytes⟩ := PendingCredits.pair_eq.mp h
    simp only [List.map_cons, List.sum_cons, rowCost, Prod.fst_add, Prod.snd_add,
      PendingCredits.pair] at hentries hbytes
    have hstep : removePendingCredit credits row.2.length =
        .ok { entries := credits.entries - 1, bytes := credits.bytes - row.2.length } := by
      simp only [removePendingCredit, checkedSub]
      rw [if_pos (by omega), if_pos (by omega)]
      rfl
    have hrest := @ih { entries := credits.entries - 1, bytes := credits.bytes - row.2.length } (by
      apply PendingCredits.pair_eq.mpr
      simp only [Prod.fst_add, Prod.snd_add, PendingCredits.pair]
      exact ⟨by omega, by omega⟩)
    rw [removePendingCredits, List.foldlM_cons, hstep]
    exact hrest

/-! ## The invariant -/

structure Ledger (store : LogStore) : Prop where
  exact : store.unappliedCredits.pair = store.log.sum rowCost
    (Pending store.lastApplied store.lastPurged store.visibleLogEnd)
  within : store.unappliedCredits.Within
  settled : ∀ p ∈ store.lastPurged, ∃ a ∈ store.lastApplied, p.index ≤ a.index
  bounded : ∀ a ∈ store.lastApplied, a.index < u64Max

theorem ledger_initial : Ledger .initial where
  exact := rfl
  within := ⟨Nat.zero_le _, Nat.zero_le _⟩
  settled _ h := by cases h
  bounded _ h := by cases h

/-- Taking back the credits of a range of rows leaves those of the others. -/
theorem Ledger.release (ledger : Ledger store) {lo hi : Nat}
    (hsplit : ∀ i, Pending store.lastApplied store.lastPurged store.visibleLogEnd i ↔
      (lo ≤ i ∧ i ≤ hi) ∨ Pending applied purged visible i)
    (hdisjoint : ∀ i, lo ≤ i ∧ i ≤ hi → ¬ Pending applied purged visible i) :
    ∃ rest, removePendingCredits store.unappliedCredits (store.log.range lo hi) = .ok rest ∧
      rest.pair = store.log.sum rowCost (Pending applied purged visible) ∧ rest.Within := by
  obtain ⟨rest, hrest⟩ : ∃ rest : PendingCredits,
      rest.pair = store.log.sum rowCost (Pending applied purged visible) := ⟨⟨_, _⟩, rfl⟩
  have hsum : store.unappliedCredits.pair =
      ((store.log.range lo hi).map rowCost).sum + rest.pair := by
    rw [ledger.exact, hrest, Ordered.sum_or hsplit hdisjoint]
    rfl
  refine ⟨rest, removePendingCredits_eq hsum, hrest, ?_⟩
  obtain ⟨hentries, hbytes⟩ := PendingCredits.pair_eq.mp hsum
  have hwithin := ledger.within
  simp only [Prod.fst_add, Prod.snd_add, PendingCredits.pair, PendingCredits.Within] at *
  omega

/-- The errors of subtractions that fail. -/
def StorageError.Mismatch (error : StorageError) : Prop :=
  error.verb = .read ∧ error.message ∈ ["unapplied ledger mismatch",
    "unapplied entry ledger mismatch", "unapplied byte ledger mismatch"]

/-! ## Moving the boundaries -/

theorem afterApplied_le_iff (hbounded : ∀ a ∈ applied, a.index < u64Max) :
    (applied.elim start fun id => max start (satAdd id.index 1)) ≤ i ↔
      start ≤ i ∧ ∀ a ∈ applied, a.index < i := by
  cases applied with
  | none => simp
  | some a =>
    have hlt := hbounded a rfl
    simp only [Option.elim_some, satAdd, Option.mem_def, Option.some.injEq, forall_eq']
    omega

theorem range_eq_nil {table : Ordered Bytes} {lo hi : Nat} (h : hi < lo) :
    table.range lo hi = [] := by
  refine List.filter_eq_nil_iff.mpr fun row _ => ?_
  simp only [decide_eq_true_eq]
  omega

/-- The credits of the rows after what is left can be taken back. -/
theorem Ledger.truncated (ledger : Ledger store) {old : LogId}
    (hvisible : store.visibleLogEnd = some old) (hle : start ≤ old.index)
    (hpurged : ∀ p ∈ store.lastPurged, p.index < start)
    (hpredecessor : visible.map (·.index) = if start = 0 then none else some (start - 1)) :
    ∃ rest, removePendingCredits store.unappliedCredits
        (if (store.lastApplied.elim start fun id => max start (satAdd id.index 1)) ≤ old.index
        then store.log.range (store.lastApplied.elim start fun id => max start (satAdd id.index 1))
          old.index else []) = .ok rest ∧
      rest.pair = store.log.sum rowCost (Pending store.lastApplied store.lastPurged visible) ∧
      rest.Within := by
  have hrows {lo hi : Nat} :
      (if lo ≤ hi then store.log.range lo hi else []) = store.log.range lo hi := by
    split
    · rfl
    · next hgt => exact (range_eq_nil (not_le.mp hgt)).symm
  rw [hrows]
  have hleft : ∀ i, (∃ v ∈ visible, i ≤ v.index) ↔ i < start := by
    intro i
    cases visible with
    | none =>
      have hzero : start = 0 := by
        by_contra hne
        simp [hne] at hpredecessor
      simp [hzero]
    | some v =>
      have hindex : start ≠ 0 ∧ v.index = start - 1 := by
        split at hpredecessor <;> simp_all
      simp only [Option.mem_def, Option.some.injEq, exists_eq_left']
      omega
  refine ledger.release (fun i => ?_) fun i hi => ?_
  · rw [afterApplied_le_iff ledger.bounded, Pending, Pending, hleft, hvisible]
    simp only [Option.mem_def, Option.some.injEq, exists_eq_left']
    constructor
    · rintro ⟨hafter, hend⟩
      by_cases hi : start ≤ i
      · exact .inl ⟨⟨hi, hafter.1⟩, hend⟩
      · exact .inr ⟨hafter, by omega⟩
    · rintro (⟨⟨hi, happlied⟩, hend⟩ | ⟨hafter, hlt⟩)
      · exact ⟨⟨happlied, fun p hp => (hpurged p hp).trans_le hi⟩, hend⟩
      · exact ⟨hafter, by omega⟩
  · rintro ⟨-, hend⟩
    have hstart := ((afterApplied_le_iff ledger.bounded).mp hi.1).1
    have hlt := (hleft i).mp hend
    omega

theorem Ledger.truncate (stores : Stores codec store log)
    (ledger : Ledger store) (h : truncateLogs codec store start = .ok store') : Ledger store' := by
  rcases truncateLogs_ok h with
    ⟨rfl, -⟩ | ⟨old, predecessor, credits, hvisible, hle, hpurged, hbefore, hcredits, rfl⟩
  · exact ledger
  · have hindex := stores.truncatePredecessor hvisible hle hpurged hbefore
    obtain ⟨rest, hrest, hexact, hwithin⟩ := ledger.truncated hvisible hle hpurged hindex
    obtain rfl : rest = credits := Except.ok.inj (hrest.symm.trans hcredits)
    exact ⟨hexact, hwithin, ledger.settled, ledger.bounded⟩

theorem truncatePredecessor_ok (stores : Stores codec store log)
    (start : Nat) : ∃ predecessor, truncatePredecessor codec store start = .ok predecessor := by
  unfold truncatePredecessor
  split
  · exact ⟨_, rfl⟩
  · cases hrow : store.log.get? (start - 1) with
    | none => exact ⟨_, rfl⟩
    | some bytes =>
      obtain ⟨id, hid, -⟩ := stores.keyed _ _ hrow
      rw [hid]
      exact ⟨_, rfl⟩

theorem truncateLogs_not_mismatch (stores : Stores codec store log)
    (ledger : Ledger store) (h : truncateLogs codec store start = .error error) :
    ¬ error.Mismatch := by
  unfold truncateLogs at h
  split at h
  · cases h
  · next old hvisible =>
    split at h
    · cases h
    · next hle =>
      simp only [bind_eq_error, refuseIf_eq_error, refuseIf_eq_ok] at h
      rcases h with ⟨-, rfl⟩ | ⟨-, hpurged, h⟩
      · rintro ⟨hverb, -⟩
        cases hverb
      obtain ⟨predecessor, hbefore⟩ := truncatePredecessor_ok stores start
      rcases h with h | ⟨predecessor', hbefore', h⟩
      · rw [hbefore] at h
        cases h
      obtain rfl : predecessor = predecessor' := Except.ok.inj (hbefore.symm.trans hbefore')
      rcases h with ⟨-, rfl⟩ | ⟨-, -, h⟩
      · rintro ⟨-, hmessage⟩
        revert hmessage
        decide
      have hlater : ∀ p ∈ store.lastPurged, p.index < start := by
        intro p hp
        rw [Option.mem_def] at hp
        simpa [hp] using hpurged
      obtain ⟨rest, hrest, -⟩ := ledger.truncated hvisible (not_lt.mp hle) hlater
        (stores.truncatePredecessor hvisible (not_lt.mp hle) hlater hbefore)
      rw [hrest] at h
      rcases h with h | ⟨_, -, h⟩ <;> cases h

/-- A purge up to the applied index takes no credits back. -/
theorem Ledger.movePurge (ledger : Ledger store)
    (hlater : ∀ old ∈ store.lastPurged, old.index < id.index)
    (happlied : ∃ a ∈ store.lastApplied, id.index ≤ a.index) :
    ∃ store', movePurge store id.index id = .ok store' ∧ Ledger store' := by
  obtain ⟨a, ha, hle⟩ := happlied
  rw [Option.mem_def] at ha
  have hlast : ((store.visibleLogEnd.map fun visible => min id.index visible.index).filter
      fun last => (store.lastApplied.elim (store.lastPurged.elim 0 fun id => satAdd id.index 1)
        fun a => max (store.lastPurged.elim 0 fun id => satAdd id.index 1) (satAdd a.index 1)) ≤
          last) = none := by
    have hlt := ledger.bounded a ha
    rw [Option.filter_eq_none_iff]
    intro last hlast
    obtain ⟨v, -, rfl⟩ := Option.map_eq_some_iff.mp hlast
    simp only [ha, Option.elim_some, decide_eq_true_eq, satAdd]
    omega
  refine ⟨{ store with
    lastPurged := some id
    visibleLogEnd := (store.visibleLogEnd.filter fun visible => visible.index > id.index).or
      (some id) }, ?_, ?_, ledger.within, ?_, ledger.bounded⟩
  · simp only [Graphrun.movePurge, hlast]
    rfl
  · refine ledger.exact.trans (Ordered.sum_eq fun i bytes => and_congr_right fun _ => ?_)
    -- Nothing is pending up to the index purged, whichever end is shown.
    simp only [Pending, Chargeable, ha, Option.mem_def, Option.some.injEq, forall_eq']
    constructor
    · rintro ⟨⟨hafter, -⟩, v, hv, hend⟩
      refine ⟨⟨hafter, by omega⟩, v, ?_, hend⟩
      simp [hv, Option.filter, show v.index > id.index by omega]
    · rintro ⟨⟨hafter, -⟩, v, hv, hend⟩
      refine ⟨⟨hafter, fun p hp => (hlater p hp).trans (by omega)⟩, v, ?_, hend⟩
      rcases Option.or_eq_some_iff.mp hv with hv | ⟨-, hv⟩
      · exact (Option.filter_eq_some_iff.mp hv).1
      · obtain rfl := Option.some.inj hv
        omega
  · rintro p hp
    obtain rfl := Option.some.inj hp
    exact ⟨a, ha, hle⟩

theorem Ledger.purge (ledger : Ledger store)
    (happlied : ∃ a ∈ store.lastApplied, id.index ≤ a.index)
    (h : purgeLogs store id.index id = .ok store') : Ledger store' := by
  rcases purgeLogs_ok h with ⟨rfl, -⟩ | ⟨hlater, h⟩
  · exact ledger
  · obtain ⟨moved, hmoved, hledger⟩ := ledger.movePurge hlater happlied
    exact Except.ok.inj (hmoved.symm.trans h) ▸ hledger

theorem purgeLogs_not_mismatch (ledger : Ledger store)
    (happlied : ∃ a ∈ store.lastApplied, id.index ≤ a.index)
    (h : purgeLogs store id.index id = .error error) : ¬ error.Mismatch := by
  have hmove : (∀ old ∈ store.lastPurged, old.index < id.index) →
      movePurge store id.index id ≠ .error error := by
    intro hlater hmove
    obtain ⟨moved, hmoved, -⟩ := ledger.movePurge hlater happlied
    rw [hmoved] at hmove
    cases hmove
  unfold purgeLogs at h
  split at h
  · next old hold =>
    split at h
    · cases h
    · next hge =>
      split at h
      · simp only [bind_eq_error, refuseIf_eq_error, pure_eq_error, and_false, exists_false,
          or_false] at h
        obtain ⟨-, rfl⟩ := h
        rintro ⟨-, hmessage⟩
        revert hmessage
        decide
      · next hne =>
        refine absurd h (hmove fun p hp => ?_)
        rw [hold] at hp
        obtain rfl := Option.some.inj hp
        omega
  · next hnone =>
    refine absurd h (hmove fun p hp => ?_)
    rw [hnone] at hp
    cases hp

/-! ## Applying and collecting -/

/-- An application in order takes back the credits of the rows it goes over. -/
theorem Ledger.apply (ledger : Ledger store) {next : LogId}
    (horder : ∀ a ∈ store.lastApplied, a.index < next.index) (hnext : next.index < u64Max) :
    ∃ store', applyLogEntry store next = .ok store' ∧ Ledger store' := by
  have hrest : ∃ rest, releaseAppliedCredits store store.lastApplied (some next) = .ok rest ∧
      rest.pair = store.log.sum rowCost
        (Pending (some next) store.lastPurged store.visibleLogEnd) ∧ rest.Within := by
    cases hvisible : store.visibleLogEnd with
    | none =>
      refine ⟨store.unappliedCredits, by simp [releaseAppliedCredits, hvisible], ?_, ledger.within⟩
      refine ledger.exact.trans (Ordered.sum_eq fun i bytes => and_congr_right fun _ => ?_)
      simp [Pending, hvisible]
    | some v =>
      have hrows : releaseAppliedCredits store store.lastApplied (some next) =
          removePendingCredits store.unappliedCredits (store.log.range
            (store.lastApplied.elim 0 fun id => satAdd id.index 1) (min next.index v.index)) := by
        simp only [releaseAppliedCredits, hvisible]
        split
        · next hgt =>
          rw [range_eq_nil hgt]
          rfl
        · rfl
      have hafter : ∀ i, (store.lastApplied.elim 0 fun id => satAdd id.index 1) ≤ i ↔
          ∀ a ∈ store.lastApplied, a.index < i := by
        intro i
        simpa using @afterApplied_le_iff store.lastApplied 0 i ledger.bounded
      rw [hrows]
      refine ledger.release (fun i => ?_) fun i hi => ?_
      · rw [hafter, hvisible]
        simp only [Pending, Chargeable, Option.mem_def, Option.some.injEq, exists_eq_left',
          forall_eq', Nat.le_min]
        constructor
        · rintro ⟨⟨happlied, hpurged⟩, hend⟩
          by_cases hi : i ≤ next.index
          · exact .inl ⟨happlied, hi, hend⟩
          · exact .inr ⟨⟨by omega, hpurged⟩, hend⟩
        · rintro (⟨happlied, hi, hend⟩ | ⟨⟨hi, hpurged⟩, hend⟩)
          · refine ⟨⟨happlied, fun p hp => ?_⟩, hend⟩
            obtain ⟨a, ha, hle⟩ := ledger.settled p hp
            exact hle.trans_lt (happlied a ha)
          · exact ⟨⟨fun a ha => (horder a ha).trans hi, hpurged⟩, hend⟩
      · rintro ⟨⟨hgt, -⟩, -⟩
        have hlt := hgt next rfl
        have hle := (Nat.le_min.mp hi.2).1
        omega
  obtain ⟨rest, hrelease, hexact, hwithin⟩ := hrest
  refine ⟨{ store with lastApplied := some next, unappliedCredits := rest }, ?_, hexact, hwithin,
    fun p hp => ?_, fun a ha => ?_⟩
  · simp only [applyLogEntry, hrelease]
    rfl
  · obtain ⟨a, ha, hle⟩ := ledger.settled p hp
    exact ⟨next, rfl, hle.trans (horder a ha).le⟩
  · exact Option.some.inj ha ▸ hnext

theorem Ledger.gc (ledger : Ledger store) : Ledger (gcInvisibleLogs store).1 := by
  refine ⟨?_, ledger.within, ledger.settled, ledger.bounded⟩
  refine ledger.exact.trans (Ordered.sum_eq fun i bytes => and_congr_left fun hpending => ?_)
  simp only [gcInvisibleLogs]
  rw [get?_foldl_remove]
  obtain ⟨⟨-, hafter⟩, v, hv, hend⟩ := hpending
  intro hmem
  rcases mem_gcKeys hmem with ⟨p, hp, hle⟩ | hbeyond
  · have hlt := hafter p hp
    omega
  · have hlt := hbeyond v hv
    omega

/-! ## Appending

The loop writes over the rows of the table, so the length of an entry that is written over is found
in the table only if this batch has not written it before. -/

/-- The loop of an append, at a point where it has charged what it has written. -/
structure Charging (store : LogStore) (acc : Appending) : Prop where
  exact : acc.credits.pair = acc.table.sum rowCost
    (Pending store.lastApplied store.lastPurged acc.visible)
  within : acc.credits.Within
  noted : ∀ i, Pending store.lastApplied store.lastPurged acc.visible i →
    (∀ v ∈ store.visibleLogEnd, v.index < i) → ∃ n, mapGet acc.appended i = some n
  lengths : ∀ i n, mapGet acc.appended i = some n →
    Pending store.lastApplied store.lastPurged acc.visible i ∧
      (acc.table.get? i).map List.length = some n
  grown : ∀ v ∈ store.visibleLogEnd, ∃ v' ∈ acc.visible, v.index ≤ v'.index

variable {acc acc' : Appending}

/-- The length that is written over is that of the row if the row is counted. -/
theorem Charging.previousLength (charging : Charging store acc)
    (hafter : Chargeable store.lastApplied store.lastPurged i) :
    previousLength store.visibleLogEnd acc i =
      if Pending store.lastApplied store.lastPurged acc.visible i
      then (acc.table.get? i).map List.length else none := by
  unfold Graphrun.previousLength
  cases hnoted : mapGet acc.appended i with
  | some n =>
    obtain ⟨hpending, hlength⟩ := charging.lengths i n hnoted
    rw [if_pos hpending, hlength]
  | none =>
    dsimp only
    by_cases hold : ∃ v ∈ store.visibleLogEnd, i ≤ v.index
    · obtain ⟨v, hv, hle⟩ := hold
      obtain ⟨v', hv', hle'⟩ := charging.grown v hv
      have hany : (store.visibleLogEnd.any fun last => i ≤ last.index) = true :=
        (Option.any_eq_true _ _).mpr ⟨v, hv, by simpa using hle⟩
      have hpending : Pending store.lastApplied store.lastPurged acc.visible i :=
        ⟨hafter, v', hv', hle.trans hle'⟩
      rw [if_pos hany, if_pos hpending]
    · have hnot : ¬ Pending store.lastApplied store.lastPurged acc.visible i := by
        intro hpending
        obtain ⟨n, hn⟩ := charging.noted i hpending fun v hv =>
          not_le.mp fun hle => hold ⟨v, hv, hle⟩
        rw [hnoted] at hn
        cases hn
      have hnone : ¬ (store.visibleLogEnd.any fun last => i ≤ last.index) = true := by
        intro hany
        obtain ⟨v, hv, hle⟩ := (Option.any_eq_true _ _).mp hany
        exact hold ⟨v, hv, by simpa using hle⟩
      rw [if_neg hnone, if_neg hnot]

/-- What an entry adds to the indices that are counted is its own. -/
theorem pending_append (applied purged : Option LogId) {v : LogId}
    (hstart : visible = none → index = 0) (hgap : ∀ last ∈ visible, index ≤ last.index + 1)
    (hindex : v.index = visible.elim index fun last => max last.index index) (i : Nat) :
    Pending applied purged (some v) i ↔
      Pending applied purged visible i ∨ (Chargeable applied purged i ∧ i = index) := by
  have hend : i ≤ v.index ↔ (∃ last ∈ visible, i ≤ last.index) ∨ i = index := by
    cases visible with
    | none =>
      have hzero := hstart rfl
      simp only [Option.elim_none] at hindex
      simp
      omega
    | some last =>
      have hstep := hgap last rfl
      simp only [Option.elim_some] at hindex
      simp
      omega
  simp only [Pending, Option.mem_def, Option.some.injEq, exists_eq_left', ← and_or_left]
  exact and_congr_right fun _ => hend

/-- The cost of the rows that are counted, one index apart. -/
def costBeside (store : LogStore) (acc : Appending) (index : Nat) : Nat × Nat :=
  acc.table.sum rowCost fun i =>
    Pending store.lastApplied store.lastPurged acc.visible i ∧ i ≠ index

/-- Giving back what is written over never fails. -/
theorem Charging.chargeOver (charging : Charging store acc)
    (hafter : Chargeable store.lastApplied store.lastPurged index)
    (hrow : Pending store.lastApplied store.lastPurged acc.visible index →
      ∃ bytes, acc.table.get? index = some bytes) :
    chargeOver acc.credits (Graphrun.previousLength store.visibleLogEnd acc index) =
      .ok { entries := (costBeside store acc index).1 + 1
            bytes := (costBeside store acc index).2 } := by
  rw [charging.previousLength hafter]
  have hwithin := charging.within.1
  by_cases hpending : Pending store.lastApplied store.lastPurged acc.visible index
  · obtain ⟨bytes, hbytes⟩ := hrow hpending
    have hsum : acc.credits.pair = costBeside store acc index + rowCost (index, bytes) := by
      rw [charging.exact, ← Ordered.sum_key (f := rowCost) hbytes]
      refine Ordered.sum_or (fun i => ?_) fun i hi => hi.2
      by_cases hi : i = index
      · simp [hi, hpending]
      · simp [hi]
    obtain ⟨hentries, hbytes'⟩ := PendingCredits.pair_eq.mp hsum
    simp only [Prod.fst_add, Prod.snd_add, rowCost] at hentries hbytes'
    rw [if_pos hpending, hbytes, hentries.symm]
    simp only [Option.map_some, Graphrun.chargeOver, checkedSub]
    rw [if_pos (by omega), hbytes', Nat.add_sub_cancel]
    rfl
  · have hsum : acc.credits.pair = costBeside store acc index := by
      rw [charging.exact]
      refine Ordered.sum_eq fun i bytes => and_congr_right fun _ => ?_
      refine (and_iff_left_of_imp fun hi => ?_).symm
      rintro rfl
      exact hpending hi
    obtain ⟨hentries, hbytes⟩ := PendingCredits.pair_eq.mp hsum
    rw [if_neg hpending, ← hentries, ← hbytes]
    simp only [Graphrun.chargeOver, checkedAdd]
    rw [if_pos]
    · rfl
    · simp only [unappliedEntries, u32Max] at hwithin ⊢
      omega

/-- The rows that are counted after an entry has been written. -/
theorem sum_insert_pending {v : LogId} {bytes : Bytes}
    (hafter : Chargeable store.lastApplied store.lastPurged index)
    (hpending : ∀ i, Pending store.lastApplied store.lastPurged (some v) i ↔
      Pending store.lastApplied store.lastPurged acc.visible i ∨
        (Chargeable store.lastApplied store.lastPurged i ∧ i = index)) :
    (acc.table.insert index bytes).sum rowCost
        (Pending store.lastApplied store.lastPurged (some v)) =
      costBeside store acc index + rowCost (index, bytes) := by
  have hkey : (acc.table.insert index bytes).get? index = some bytes := by
    rw [Ordered.get?_insert, if_pos rfl]
  rw [← Ordered.sum_key (f := rowCost) hkey, Ordered.sum_or (q := fun i =>
    Pending store.lastApplied store.lastPurged acc.visible i ∧ i ≠ index) (r := (· = index))
    (fun i => ?_) fun i hi => hi.2]
  · congr 1
    refine Ordered.sum_eq fun i bytes' => and_congr_left fun hi => ?_
    rw [Ordered.get?_insert, if_neg hi.2]
  · rw [hpending]
    by_cases hi : i = index
    · simp [hi, hafter]
    · simp [hi]

/-- What a charge for an entry is, and why it may be refused. -/
theorem Charging.chargeEntry (charging : Charging store acc) {length : Nat}
    (hafter : Chargeable store.lastApplied store.lastPurged index)
    (hrow : Pending store.lastApplied store.lastPurged acc.visible index →
      ∃ bytes, acc.table.get? index = some bytes) :
    (∀ credits, chargeEntry acc.credits (Graphrun.previousLength store.visibleLogEnd acc index)
        length = .ok credits →
      credits.pair = costBeside store acc index + (1, length) ∧ credits.Within) ∧
    ∀ error, chargeEntry acc.credits (Graphrun.previousLength store.visibleLogEnd acc index)
      length = .error error → error.verb = .write := by
  simp only [Graphrun.chargeEntry, charging.chargeOver hafter hrow, ok_bind]
  constructor
  · intro credits h
    simp only [bind_eq_ok, okOr_eq_ok, refuseIf_eq_ok, pure_eq_ok, checkedAdd,
      Option.ite_none_right_eq_some, Option.some.injEq] at h
    obtain ⟨total, ⟨-, rfl⟩, -, hentries, -, hbytes, rfl⟩ := h
    exact ⟨rfl, not_lt.mp hentries, not_lt.mp hbytes⟩
  · intro error h
    simp only [bind_eq_error, okOr_eq_error, refuseIf_eq_error, pure_eq_error] at h
    rcases h with ⟨-, rfl⟩ | ⟨_, -, ⟨-, rfl⟩ | ⟨_, -, ⟨-, rfl⟩ | ⟨_, -, hfalse⟩⟩⟩
    · rfl
    · rfl
    · rfl
    · exact hfalse.elim

theorem chargeable_iff :
    ((applied.all fun id => index > id.index) = true ∧
      (purged.all fun id => index > id.index) = true) ↔ Chargeable applied purged index := by
  simp [Chargeable, Option.all_eq_true]

theorem Stores.row_of_pending (stores : Stores codec
      { store with log := acc.table, visibleLogEnd := acc.visible } log)
    (hpending : Pending store.lastApplied store.lastPurged acc.visible i) :
    ∃ bytes, acc.table.get? i = some bytes := by
  obtain ⟨entry, -, rfl, bytes, -, hrow⟩ :=
    stores.rows i (stores.shows_iff.mpr ⟨hpending.1.2, hpending.2⟩)
  exact ⟨bytes, hrow⟩

theorem Charging.appendEntry (stores : Stores codec
      { store with log := acc.table, visibleLogEnd := acc.visible } log)
    (charging : Charging store acc) (hfirst : acc.visible = none → entry.index = 0)
    (h : appendEntry codec store.visibleLogEnd store.lastPurged store.lastApplied acc entry =
      .ok acc') : Charging store acc' := by
  obtain ⟨-, -, -, hgap, hvisible⟩ := appendEntry_ok h
  obtain ⟨v, hv, hindex⟩ := end_append acc.visible entry.logId
  replace hvisible := hvisible.trans hv
  have hgap' : ∀ last ∈ acc.visible, entry.index ≤ last.index + 1 := by
    intro last hlast
    rw [Option.mem_def] at hlast
    have hle := hgap last (by simp [hlast])
    simp only [satAdd] at hle
    omega
  have hpending := pending_append store.lastApplied store.lastPurged hfirst hgap' hindex
  have hgrown : ∀ old ∈ store.visibleLogEnd, ∃ v' ∈ acc'.visible, old.index ≤ v'.index := by
    intro old hold
    obtain ⟨last, hlast, hle⟩ := charging.grown old hold
    rw [Option.mem_def] at hlast
    refine ⟨v, hvisible, ?_⟩
    rw [hindex, hlast]
    exact hle.trans (le_max_left _ _)
  simp only [Graphrun.appendEntry, bind_eq_ok, mapError_eq_ok, pure_eq_ok] at h
  obtain ⟨bytes, -, -, -, ⟨appended, credits⟩, hcharge, rfl⟩ := h
  dsimp only at hvisible hgrown
  unfold chargeAppended at hcharge
  split at hcharge
  · next hafter =>
    -- An entry that is charged is counted from now on.
    rw [chargeable_iff] at hafter
    simp only [bind_eq_ok, pure_eq_ok, Prod.mk.injEq] at hcharge
    obtain ⟨credits', hcredits, rfl, rfl⟩ := hcharge
    obtain ⟨hpair, hwithin⟩ :=
      (charging.chargeEntry hafter stores.row_of_pending).1 credits' hcredits
    refine ⟨?_, hwithin, ?_, ?_, hgrown⟩
    · rw [hpair]
      dsimp only
      rw [hvisible, sum_insert_pending hafter hpending]
      rfl
    · intro i hi hbeyond
      dsimp only at hi ⊢
      rw [hvisible] at hi
      rw [mapGet_mapInsert]
      split
      · exact ⟨_, rfl⟩
      · next hne =>
        exact charging.noted i (((hpending i).mp hi).resolve_right fun h => hne h.2) hbeyond
    · intro i n hn
      dsimp only at hn ⊢
      rw [mapGet_mapInsert] at hn
      rw [hvisible, hpending, Ordered.get?_insert]
      split at hn
      · next heq =>
        rw [if_pos heq]
        exact ⟨.inr ⟨heq ▸ hafter, heq⟩, hn⟩
      · next hne =>
        obtain ⟨hi, hlength⟩ := charging.lengths i n hn
        rw [if_neg hne]
        exact ⟨.inl hi, hlength⟩
  · next hafter =>
    -- One that is not charged is not counted, and its row is beside those that are.
    rw [chargeable_iff] at hafter
    obtain ⟨rfl, rfl⟩ := Prod.mk.inj (pure_eq_ok.mp hcharge)
    have hsame : ∀ i, Pending store.lastApplied store.lastPurged (some v) i ↔
        Pending store.lastApplied store.lastPurged acc.visible i := by
      intro i
      rw [hpending]
      refine or_iff_left ?_
      rintro ⟨hi, rfl⟩
      exact hafter hi
    have hbeside : ∀ i, Pending store.lastApplied store.lastPurged acc.visible i →
        (acc.table.insert entry.index bytes).get? i = acc.table.get? i := by
      intro i hi
      rw [Ordered.get?_insert, if_neg]
      rintro rfl
      exact hafter hi.1
    refine ⟨?_, charging.within, ?_, ?_, hgrown⟩
    · refine charging.exact.trans (Ordered.sum_eq fun i bytes' => ?_)
      dsimp only
      rw [hvisible, hsame]
      exact and_congr_left fun hi => by rw [hbeside i hi]
    · intro i hi hbeyond
      dsimp only at hi
      rw [hvisible, hsame] at hi
      exact charging.noted i hi hbeyond
    · intro i n hn
      obtain ⟨hi, hlength⟩ := charging.lengths i n hn
      dsimp only
      rw [hvisible, hsame, hbeside i hi]
      exact ⟨hi, hlength⟩

theorem appendEntry_error (stores : Stores codec
      { store with log := acc.table, visibleLogEnd := acc.visible } log)
    (charging : Charging store acc)
    (h : appendEntry codec store.visibleLogEnd store.lastPurged store.lastApplied acc entry =
      .error error) : error.verb = .write := by
  simp only [appendEntry, bind_eq_error, mapError_eq_error] at h
  rcases h with ⟨message, -, rfl⟩ | ⟨bytes, -, hgap | ⟨-, -, hcharge | ⟨⟨_, _⟩, -, h⟩⟩⟩
  · rfl
  · unfold refuseGap at hgap
    split at hgap
    · rw [refuseIf_eq_error] at hgap
      rw [← hgap.2]
      rfl
    · cases hgap
  · unfold chargeAppended at hcharge
    split at hcharge
    · next hafter =>
      rw [chargeable_iff] at hafter
      simp only [bind_eq_error, pure_eq_error, and_false, exists_false, or_false] at hcharge
      exact (charging.chargeEntry hafter stores.row_of_pending).2 error hcharge
    · cases hcharge
  · cases h

/-- A batch that is written leaves an exact ledger, and one that is refused is refused for what it
writes. -/
theorem Ledger.append {entries : List (LogEntry P)} (stores : Stores codec store log)
    (ledger : Ledger store) (keeps : ∀ entry ∈ entries, codec.KeepsId entry)
    (hfirst : store.visibleLogEnd = none → ∀ entry ∈ entries.head?, entry.index = 0) :
    (∀ store', admitAndAppend codec store store.lastApplied entries = .ok store' →
      Ledger store') ∧
    ∀ error, admitAndAppend codec store store.lastApplied entries = .error error →
      error.verb = .write := by
  have hloop : ∀ (entries : List (LogEntry P)) (acc : Appending) (log : Log (LogEntry P)),
      Stores codec { store with log := acc.table, visibleLogEnd := acc.visible } log →
      Charging store acc → (∀ entry ∈ entries, codec.KeepsId entry) →
      (acc.visible = none → ∀ entry ∈ entries.head?, entry.index = 0) →
      (∀ acc', entries.foldlM (Graphrun.appendEntry codec store.visibleLogEnd store.lastPurged
          store.lastApplied) acc = .ok acc' → Charging store acc') ∧
      ∀ error, entries.foldlM (Graphrun.appendEntry codec store.visibleLogEnd store.lastPurged
          store.lastApplied) acc = .error error → error.verb = .write := by
    intro entries
    induction entries with
    | nil =>
      intro acc log _ charging _ _
      exact ⟨fun acc' h => pure_eq_ok.mp h ▸ charging, fun error h => by cases h⟩
    | cons entry rest ih =>
      intro acc log hstores charging keeps hfirst
      obtain ⟨hkeep, hrests⟩ := List.forall_mem_cons.mp keeps
      have hzero : acc.visible = none → entry.index = 0 := fun hnone => hfirst hnone entry rfl
      have hnext : ∀ mid, Graphrun.appendEntry codec store.visibleLogEnd store.lastPurged
          store.lastApplied acc entry = .ok mid → _ := fun mid hmid =>
        ih mid _ (hstores.appendEntry hkeep
          (fun hnone => hzero (by simpa [hstores.last] using hnone)) hmid)
          (charging.appendEntry hstores hzero hmid) hrests fun hnone => by
            obtain ⟨-, -, -, -, hvisible⟩ := appendEntry_ok hmid
            obtain ⟨v, hv, -⟩ := end_append acc.visible entry.logId
            cases hnone.symm.trans (hvisible.trans hv)
      simp only [List.foldlM_cons]
      refine ⟨fun acc' h => ?_, fun error h => ?_⟩
      · obtain ⟨mid, hmid, hrest⟩ := bind_eq_ok.mp h
        exact (hnext mid hmid).1 acc' hrest
      · rcases bind_eq_error.mp h with herror | ⟨mid, hmid, hrest⟩
        · exact appendEntry_error hstores charging herror
        · exact (hnext mid hmid).2 error hrest
  have hstart : Charging store
      { visible := store.visibleLogEnd, appended := [], credits := store.unappliedCredits
        table := store.log } := by
    refine ⟨ledger.exact, ledger.within, ?_, fun i n hn => (by cases hn),
      fun v hv => ⟨v, hv, le_refl _⟩⟩
    rintro i ⟨-, v, hv, hle⟩ hbeyond
    have hlt := hbeyond v hv
    omega
  obtain ⟨hok, herror⟩ := hloop entries _ log stores hstart keeps hfirst
  simp only [admitAndAppend]
  refine ⟨fun store' h => ?_, fun error h => ?_⟩
  · simp only [bind_eq_ok, pure_eq_ok] at h
    obtain ⟨acc', hfold, rfl⟩ := h
    have charging := hok acc' hfold
    exact ⟨charging.exact, charging.within, ledger.settled, ledger.bounded⟩
  · simp only [bind_eq_error, pure_eq_error, and_false, exists_false, or_false] at h
    exact herror error h

/-! ## Sequences of transactions -/

/-- How Raft uses the store: an append is given what has been applied and starts an empty log at
index 0, a purge does not go over what has been applied, and entries are applied in order. The
index after an applied one is a `u64`. -/
def LogOp.AsRaft (store : LogStore) : LogOp P → Prop
  | .append lastApplied entries => lastApplied = store.lastApplied ∧
    (store.visibleLogEnd = none → store.lastPurged = none →
      ∀ entry ∈ entries.head?, entry.index = 0)
  | .truncate _ | .gc => True
  | .purge id => ∃ a ∈ store.lastApplied, id.index ≤ a.index
  | .apply next => (∀ a ∈ store.lastApplied, a.index < next.index) ∧ next.index < u64Max
  | .install _ => False

instance (store : LogStore) : DecidablePred (LogOp.AsRaft (P := P) store)
  | .append _ entries =>
    inferInstanceAs (Decidable (_ ∧ (_ → _ → ∀ entry ∈ entries.head?, _)))
  | .truncate _ | .gc => inferInstanceAs (Decidable True)
  | .purge _ => inferInstanceAs (Decidable (∃ a ∈ store.lastApplied, _))
  | .apply _ => inferInstanceAs (Decidable ((∀ a ∈ store.lastApplied, _) ∧ _))
  | .install _ => inferInstanceAs (Decidable False)

theorem LogOp.AsRaft.inBounds (h : op.AsRaft store) : op.InBounds store := by
  cases op with
  | append => exact h.2
  | install => exact h.elim
  | _ => trivial

theorem LogOp.ledger (keeps : ∀ entry ∈ op.appended, codec.KeepsId entry)
    (stores : Stores codec store log) (ledger : Ledger store) (hraft : op.AsRaft store)
    (h : op.perform codec store = .ok store') : Ledger store' := by
  cases op with
  | append lastApplied entries =>
    obtain ⟨rfl, hfirst⟩ := hraft
    exact (ledger.append stores keeps (stores.first_of_end hfirst)).1 store' h
  | truncate => exact ledger.truncate stores h
  | purge => exact ledger.purge hraft h
  | gc => exact pure_eq_ok.mp h ▸ ledger.gc
  | apply next =>
    obtain ⟨store₁, happly, hledger⟩ := ledger.apply hraft.1 hraft.2
    exact Except.ok.inj (happly.symm.trans h) ▸ hledger
  | install => exact hraft.elim

theorem LogOp.not_mismatch (keeps : ∀ entry ∈ op.appended, codec.KeepsId entry)
    (stores : Stores codec store log) (ledger : Ledger store) (hraft : op.AsRaft store)
    (h : op.perform codec store = .error error) : ¬ error.Mismatch := by
  cases op with
  | append lastApplied entries =>
    obtain ⟨rfl, hfirst⟩ := hraft
    have hwrite := (ledger.append stores keeps (stores.first_of_end hfirst)).2 error h
    rintro ⟨hread, -⟩
    cases hwrite.symm.trans hread
  | truncate => exact truncateLogs_not_mismatch stores ledger h
  | purge => exact purgeLogs_not_mismatch ledger hraft h
  | gc => cases h
  | apply next =>
    obtain ⟨store₁, happly, -⟩ := ledger.apply hraft.1 hraft.2
    cases happly.symm.trans h
  | install => exact hraft.elim

theorem Performed.ledger {ops : List (LogOp P)}
    (keeps : ∀ op ∈ ops, ∀ entry ∈ op.appended, codec.KeepsId entry)
    (performed : Performed codec LogOp.AsRaft ops store log) :
    Stores codec store log ∧ Ledger store := by
  induction performed with
  | initial => exact ⟨stores_initial, ledger_initial⟩
  | done _ condition h ih =>
    obtain ⟨hbefore, hop⟩ := List.forall_mem_append.mp keeps
    obtain ⟨stores, ledger⟩ := ih hbefore
    have hop := hop _ (List.mem_singleton_self _)
    exact ⟨LogOp.stores hop stores condition.inBounds h, LogOp.ledger hop stores ledger condition h⟩
  | refused _ _ ih => exact ih (List.forall_mem_append.mp keeps).1

/-- The credits are the number and the bytes of the rows that are pending, they stay within the
limits, and no transaction is refused because a subtraction fails. -/
theorem ledger_exact {ops : List (LogOp P)}
    (keeps : ∀ op ∈ ops, ∀ entry ∈ op.appended, codec.KeepsId entry)
    (performed : Performed codec LogOp.AsRaft ops store log) :
    store.unappliedCredits.entries = store.pendingRows.length ∧
      store.unappliedCredits.bytes = (store.pendingRows.map fun row => row.2.length).sum ∧
      store.unappliedCredits.entries ≤ unappliedEntries ∧
      store.unappliedCredits.bytes ≤ unappliedBytes ∧
      ∀ (op : LogOp P) error, (∀ entry ∈ op.appended, codec.KeepsId entry) → op.AsRaft store →
        op.perform codec store = .error error → ¬ error.Mismatch := by
  obtain ⟨stores, ledger⟩ := performed.ledger keeps
  have hsum (rows : List (Nat × Bytes)) :
      (rows.map rowCost).sum = (rows.length, (rows.map fun row => row.2.length).sum) := by
    induction rows with
    | nil => rfl
    | cons row rows ih =>
      rw [List.map_cons, List.sum_cons, ih]
      simp [rowCost, Nat.add_comm]
  obtain ⟨hentries, hbytes⟩ := PendingCredits.pair_eq.mp (ledger.exact.trans (hsum _))
  exact ⟨hentries, hbytes, ledger.within.1, ledger.within.2,
    fun op error hkeep hraft h => LogOp.not_mismatch hkeep stores ledger hraft h⟩

def raftOps : List (LogOp Nat) :=
  [.append none (sampleEntries.take 3), .truncate 1, .append none (sampleEntries.drop 3),
    .apply firstId, .purge firstId, .gc]

/-- An entry of three bytes is left after a truncation, an append over the rows left behind, an
application, a purge and a pass of collection. -/
theorem raftOps_exact :
    (sampleBoth raftOps).1.unappliedCredits = { entries := 1, bytes := 3 } ∧
      (sampleBoth raftOps).1.unappliedCredits.entries =
        (sampleBoth raftOps).1.pendingRows.length := by
  refine ⟨by decide +kernel, ?_⟩
  exact (ledger_exact (fun _ _ entry _ => (listCodec_readsBack _ entry).keepsId)
    (performed_performAll _ LogOp.AsRaft raftOps (by decide +kernel))).1

end Graphrun
