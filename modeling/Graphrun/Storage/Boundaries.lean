import Graphrun.Model.LogStore
import Graphrun.Model.State

/-!
# The log store refines a log

The rows of the table are not the log: truncation and purge leave rows behind, and appends write
over them. What is read lies between the boundaries. `Stores` relates the tables to a log: the
boundaries are those of the log, and every index that the log shows has a row with its entry. All
transactions keep it, the removal of rows included (`LogOp.stores`), and what `get_logs` returns is
what the slice of the log reads back as (`Stores.getLogs`). That is the slice itself exactly if
every entry shown reads back as it was written (`getLogs_eq_slice`); the output of a probe need not
(`nullOutput_lost`).

A snapshot that is installed raises the visible end over rows that are not there or were truncated
(`installed_gap`); the relation is kept if the snapshot does not reach over the end
(`committed_rows`).
-/

namespace Graphrun

open Lib

variable {P : Type} {codec : EntryCodec P} {store store' : LogStore} {log : Log (LogEntry P)}
  {entry : LogEntry P} {i start : Nat} {lastApplied : Option LogId} {id : LogId} {keys : List Nat}

/-- What is written of an entry is read back as it. -/
def EntryCodec.ReadsBack (codec : EntryCodec P) (entry : LogEntry P) : Prop :=
  ∀ bytes, codec.toVec entry = .ok bytes → codec.fromSlice bytes = .ok entry

/-- The id of an entry is read back from its row. -/
def EntryCodec.KeepsId (codec : EntryCodec P) (entry : LogEntry P) : Prop :=
  ∀ bytes, codec.toVec entry = .ok bytes → rowLogId codec (some bytes) = .ok (some entry.logId)

theorem EntryCodec.ReadsBack.keepsId (h : codec.ReadsBack entry) : codec.KeepsId entry := by
  intro bytes hbytes
  simp [rowLogId, h bytes hbytes, Except.mapError]

/-- What an entry is read back as after it was written. -/
def EntryCodec.readBack (codec : EntryCodec P) (entry : LogEntry P) :
    Except StorageError (LogEntry P) := do
  let bytes ← (codec.toVec entry).mapError (stoErr .write)
  (codec.fromSlice bytes).mapError (stoErr .read)

/-- The row of an entry. -/
def HasRow (codec : EntryCodec P) (table : Ordered Bytes) (entry : LogEntry P) : Prop :=
  ∃ bytes, codec.toVec entry = .ok bytes ∧ table.get? entry.index = some bytes

structure Stores (codec : EntryCodec P) (store : LogStore) (log : Log (LogEntry P)) : Prop where
  purged : log.purged = store.lastPurged.map (·.index)
  last : log.last = store.visibleLogEnd.map (·.index)
  ordered : ∀ p ∈ store.lastPurged, ∃ v ∈ store.visibleLogEnd, p.index ≤ v.index
  keyed : ∀ i bytes, store.log.get? i = some bytes →
    ∃ id : LogId, rowLogId codec (some bytes) = .ok (some id) ∧ id.index = i
  rows : ∀ i, log.Shows i → ∃ entry, log.entry i = some entry ∧ entry.index = i ∧
    HasRow codec store.log entry

theorem stores_initial : Stores codec .initial .empty where
  purged := rfl
  last := rfl
  ordered _ h := by cases h
  keyed _ _ h := by cases h
  rows i h := by
    obtain ⟨-, l, hl, -⟩ := h
    cases hl

/-- The store shows the index. -/
theorem Stores.shows_iff (stores : Stores codec store log) :
    log.Shows i ↔ (∀ p ∈ store.lastPurged, p.index < i) ∧
      ∃ v ∈ store.visibleLogEnd, i ≤ v.index := by
  simp only [Log.Shows, stores.purged, stores.last, Option.mem_def, Option.map_eq_some_iff,
    forall_exists_index, and_imp, forall_apply_eq_imp_iff₂, exists_exists_and_eq_and]

/-! ## Appending -/

/-- What one turn of the loop does to the rows and the visible end. -/
theorem appendEntry_ok {previousVisible purged : Option LogId} {acc acc' : Appending}
    (h : appendEntry codec previousVisible purged lastApplied acc entry = .ok acc') :
    ∃ bytes, codec.toVec entry = .ok bytes ∧ acc'.table = acc.table.insert entry.index bytes ∧
      (∀ last ∈ acc.visible.or purged, entry.index ≤ satAdd last.index 1) ∧
      acc'.visible = if acc.visible.all fun last => entry.index ≥ last.index then some entry.logId
        else acc.visible := by
  simp only [appendEntry, bind_eq_ok, mapError_eq_ok] at h
  obtain ⟨bytes, hbytes, u, hgap, ⟨appended, credits⟩, -, h⟩ := h
  obtain rfl := pure_eq_ok.mp h
  refine ⟨bytes, hbytes, rfl, fun last hlast => ?_, rfl⟩
  rw [Option.mem_def] at hlast
  simpa [refuseGap, hlast] using hgap

/-- The visible end does not move back. -/
theorem end_append (visible : Option LogId) (id : LogId) :
    ∃ v, (if visible.all fun last => id.index ≥ last.index then some id else visible) = some v ∧
      v.index = visible.elim id.index fun last => max last.index id.index := by
  cases visible with
  | none => exact ⟨id, rfl, rfl⟩
  | some last =>
    by_cases hle : last.index ≤ id.index
    · exact ⟨id, by simp [hle], (max_eq_right hle).symm⟩
    · exact ⟨last, by simp [hle], (max_eq_left (by omega)).symm⟩

theorem Stores.appendEntry {previousVisible : Option LogId} {acc acc' : Appending}
    (stores : Stores codec { store with log := acc.table, visibleLogEnd := acc.visible } log)
    (keeps : codec.KeepsId entry) (hfirst : log.last = none → entry.index = 0)
    (h : appendEntry codec previousVisible store.lastPurged lastApplied acc entry = .ok acc') :
    Stores codec { store with log := acc'.table, visibleLogEnd := acc'.visible }
      (log.append entry.index entry) := by
  obtain ⟨bytes, hbytes, htable, hgap, hvisible⟩ := appendEntry_ok h
  have hlast : log.last = acc.visible.map (·.index) := stores.last
  obtain ⟨v, hv, hmax⟩ : ∃ v, acc'.visible = some v ∧
      v.index = log.last.elim entry.index (max · entry.index) := by
    obtain ⟨v, hv, hindex⟩ := end_append acc.visible entry.logId
    refine ⟨v, hvisible.trans hv, hindex.trans ?_⟩
    rw [hlast, Option.elim_map]
    rfl
  have hshows : ∀ i, (log.append entry.index entry).Shows i → i ≠ entry.index → log.Shows i := by
    rintro i ⟨hpurged, l, hl, hle⟩ hne
    refine ⟨hpurged, ?_⟩
    obtain rfl := Option.some.inj hl
    cases hend : log.last with
    | none =>
      rw [hend] at hle
      have hzero := hfirst hend
      simp only [Option.elim_none] at hle
      omega
    | some l =>
      rw [hend] at hle hlast
      obtain ⟨last, hvisible', hindex⟩ := Option.map_eq_some_iff.mp hlast.symm
      have hstep := hgap last (by simp [hvisible'])
      simp only [Option.elim_some] at hle
      refine ⟨l, rfl, ?_⟩
      simp only [satAdd] at hstep
      omega
  refine ⟨stores.purged, ?_, fun p hp => ?_, fun i bytes' hrow => ?_, fun i hi => ?_⟩
  · simp only [hv, Option.map_some, hmax, Log.append]
  · obtain ⟨old, hold, hle⟩ := stores.ordered p hp
    refine ⟨v, hv, ?_⟩
    rw [hmax, hlast, show acc.visible = some old from hold]
    exact hle.trans (le_max_left _ _)
  · dsimp only at hrow
    rw [htable, Ordered.get?_insert] at hrow
    split at hrow
    · next heq => exact ⟨entry.logId, keeps _ (Option.some.inj hrow ▸ hbytes), heq.symm⟩
    · exact stores.keyed i bytes' hrow
  · by_cases hne : i = entry.index
    · subst hne
      refine ⟨entry, Function.update_self _ _ _, rfl, bytes, hbytes, ?_⟩
      simp [htable, Ordered.get?_insert]
    · obtain ⟨other, hother, hindex, bytes', hbytes', hrow⟩ := stores.rows i (hshows i hi hne)
      refine ⟨other, (Function.update_of_ne hne _ _).trans hother, hindex, bytes', hbytes', ?_⟩
      simp only [htable, Ordered.get?_insert]
      rw [if_neg (by rw [hindex]; exact hne)]
      exact hrow

theorem last_append : (log.append i entry).last ≠ none := by simp [Log.append]

theorem Stores.append {entries : List (LogEntry P)} (stores : Stores codec store log)
    (keeps : ∀ entry ∈ entries, codec.KeepsId entry)
    (hfirst : log.last = none → ∀ entry ∈ entries.head?, entry.index = 0)
    (h : admitAndAppend codec store lastApplied entries = .ok store') :
    Stores codec store' (log.appendAll LogEntry.index entries) := by
  simp only [admitAndAppend, bind_eq_ok, pure_eq_ok] at h
  obtain ⟨acc', hfold, rfl⟩ := h
  -- The loop is at entries of the log that is appended to so far.
  have hloop : ∀ (entries : List (LogEntry P)) (acc : Appending) (log : Log (LogEntry P)),
      Stores codec { store with log := acc.table, visibleLogEnd := acc.visible } log →
      (∀ entry ∈ entries, codec.KeepsId entry) →
      (log.last = none → ∀ entry ∈ entries.head?, entry.index = 0) →
      entries.foldlM (Graphrun.appendEntry codec store.visibleLogEnd store.lastPurged lastApplied)
        acc = .ok acc' →
      Stores codec { store with log := acc'.table, visibleLogEnd := acc'.visible }
        (log.appendAll LogEntry.index entries) := by
    intro entries
    induction entries with
    | nil =>
      intro acc log hstores _ _ hfold
      obtain rfl := pure_eq_ok.mp hfold
      exact hstores
    | cons entry rest ih =>
      intro acc log hstores hkeeps hfirst hfold
      rw [List.foldlM_cons, bind_eq_ok] at hfold
      obtain ⟨mid, hmid, hrest⟩ := hfold
      obtain ⟨hentry, hkeeps⟩ := List.forall_mem_cons.mp hkeeps
      have hstep := hstores.appendEntry hentry (fun hnone => hfirst hnone entry rfl) hmid
      exact ih mid _ hstep hkeeps (fun hnone => absurd hnone last_append) hrest
  have hstores := hloop entries _ log stores keeps hfirst hfold
  exact { hstores with }

/-! ## Truncation -/

/-- The predecessor of what is truncated is found, in its row or as the purge point. -/
theorem Stores.truncatePredecessor {predecessor : Option LogId} {visible : LogId}
    (stores : Stores codec store log)
    (hvisible : store.visibleLogEnd = some visible) (hle : start ≤ visible.index)
    (hpurged : ∀ p ∈ store.lastPurged, p.index < start)
    (h : truncatePredecessor codec store start = .ok predecessor) :
    predecessor.map (·.index) = if start = 0 then none else some (start - 1) := by
  unfold Graphrun.truncatePredecessor at h
  split at h
  · next hzero =>
    obtain rfl := pure_eq_ok.mp h
    cases hnone : store.lastPurged with
    | none => simp [hzero]
    | some p =>
      have hlt := hpurged p hnone
      omega
  · next hzero =>
    simp only [bind_eq_ok, pure_eq_ok] at h
    obtain ⟨row, hrow, rfl⟩ := h
    rw [if_neg hzero]
    cases hget : store.log.get? (start - 1) with
    | some bytes =>
      obtain ⟨id, hid, hindex⟩ := stores.keyed _ bytes hget
      rw [hget] at hrow
      obtain rfl := Except.ok.inj (hid.symm.trans hrow)
      simpa using hindex
    | none =>
      simp only [hget, rowLogId, pure_eq_ok] at hrow
      subst hrow
      -- An index that the log shows has a row, so this one has been purged.
      have hpoint : ∃ p ∈ store.lastPurged, p.index = start - 1 := by
        by_contra hnone
        have hshows : log.Shows (start - 1) := by
          refine stores.shows_iff.mpr ⟨fun p hp => ?_, visible, hvisible, by omega⟩
          have hlt := hpurged p hp
          have hne : p.index ≠ start - 1 := fun heq => hnone ⟨p, hp, heq⟩
          omega
        obtain ⟨entry, -, hindex, bytes, -, hrow⟩ := stores.rows _ hshows
        rw [hindex, hget] at hrow
        cases hrow
      obtain ⟨p, hp, hindex⟩ := hpoint
      rw [Option.mem_def] at hp
      simp [hp, hindex]

theorem truncateLogs_ok (h : truncateLogs codec store start = .ok store') :
    (store' = store ∧ ∀ visible ∈ store.visibleLogEnd, visible.index < start) ∨
      ∃ visible predecessor credits, store.visibleLogEnd = some visible ∧ start ≤ visible.index ∧
        (∀ p ∈ store.lastPurged, p.index < start) ∧
        truncatePredecessor codec store start = .ok predecessor ∧
        removePendingCredits store.unappliedCredits
          (if (store.lastApplied.elim start fun id => max start (satAdd id.index 1)) ≤ visible.index
          then store.log.range
              (store.lastApplied.elim start fun id => max start (satAdd id.index 1)) visible.index
            else []) = .ok credits ∧
        store' = { store with visibleLogEnd := predecessor, unappliedCredits := credits } := by
  unfold truncateLogs at h
  split at h
  · next hnone =>
    obtain rfl := pure_eq_ok.mp h
    exact .inl ⟨rfl, fun v hv => by rw [hnone] at hv; cases hv⟩
  · next visible hvisible =>
    split at h
    · next hlt =>
      obtain rfl := pure_eq_ok.mp h
      refine .inl ⟨rfl, fun v hv => ?_⟩
      rw [hvisible] at hv
      obtain rfl := Option.some.inj hv
      exact hlt
    · next hle =>
      simp only [bind_eq_ok, refuseIf_eq_ok, pure_eq_ok] at h
      obtain ⟨-, hpurged, predecessor, hpredecessor, -, -, credits, hcredits, rfl⟩ := h
      refine .inr ⟨visible, predecessor, credits, hvisible, by omega, fun p hp => ?_, hpredecessor,
        hcredits, rfl⟩
      rw [Option.mem_def] at hp
      simpa [hp] using hpurged

theorem Stores.truncate (stores : Stores codec store log)
    (h : truncateLogs codec store start = .ok store') :
    Stores codec store' (log.truncate start) := by
  have hentries : ∀ i, i < start → (log.truncate start).entry i = log.entry i :=
    fun i hi => if_pos hi
  rcases truncateLogs_ok h with ⟨rfl, hbelow⟩ |
    ⟨visible, predecessor, credits, hvisible, hle, hpurged, hpredecessor, -, rfl⟩
  · -- Nothing lies at or after the index.
    have hlast : (log.truncate start).last = log.last := by
      simp only [Log.truncate, stores.last]
      cases hend : store'.visibleLogEnd with
      | none => rfl
      | some v =>
        have hlt := hbelow v hend
        simp [show ¬ start ≤ v.index by omega]
    refine ⟨stores.purged, hlast.trans stores.last, stores.ordered, stores.keyed, fun i hi => ?_⟩
    have hshows : log.Shows i := by
      obtain ⟨hpurged, l, hl, hle⟩ := hi
      exact ⟨hpurged, l, hlast ▸ hl, hle⟩
    obtain ⟨v, hv, hle⟩ := (stores.shows_iff.mp hshows).2
    rw [hentries i (by have hlt := hbelow v hv; omega)]
    exact stores.rows i hshows
  · have hindex := stores.truncatePredecessor hvisible hle hpurged hpredecessor
    have hlast : (log.truncate start).last = if start = 0 then none else some (start - 1) := by
      simp [Log.truncate, stores.last, hvisible, hle]
    refine ⟨stores.purged, hlast.trans hindex.symm, fun p hp => ?_, stores.keyed, fun i hi => ?_⟩
    · have hlt := hpurged p hp
      rw [if_neg (by omega)] at hindex
      obtain ⟨v, hv, hvindex⟩ := Option.map_eq_some_iff.mp hindex
      exact ⟨v, hv, by omega⟩
    · obtain ⟨hafter, l, hl, hbefore⟩ := hi
      rw [hlast, Option.mem_def] at hl
      split at hl
      · cases hl
      · obtain rfl := Option.some.inj hl
        rw [hentries i (by omega)]
        exact stores.rows i ⟨hafter, visible.index, by simp [stores.last, hvisible], by omega⟩

/-! ## Purge -/

theorem purgeLogs_ok (h : purgeLogs store id.index id = .ok store') :
    (store' = store ∧ ∃ old ∈ store.lastPurged, id.index ≤ old.index) ∨
      ((∀ old ∈ store.lastPurged, old.index < id.index) ∧
        movePurge store id.index id = .ok store') := by
  unfold purgeLogs at h
  split at h
  · next old hold =>
    split at h
    · next hlt =>
      obtain rfl := pure_eq_ok.mp h
      exact .inl ⟨rfl, old, hold, by omega⟩
    · next hge =>
      split at h
      · next heq =>
        simp only [bind_eq_ok, pure_eq_ok] at h
        obtain ⟨-, -, rfl⟩ := h
        exact .inl ⟨rfl, old, hold, by omega⟩
      · next hne =>
        refine .inr ⟨fun p hp => ?_, h⟩
        obtain rfl := Option.mem_unique hold hp
        omega
  · next hnone => exact .inr ⟨fun p hp => (by rw [hnone] at hp; cases hp), h⟩

theorem movePurge_ok {through : Nat} (h : movePurge store through id = .ok store') :
    ∃ credits, store' = { store with
      lastPurged := some id
      visibleLogEnd := (store.visibleLogEnd.filter fun visible => visible.index > through).or
        (some id)
      unappliedCredits := credits } := by
  simp only [movePurge, bind_eq_ok, pure_eq_ok] at h
  obtain ⟨credits, -, rfl⟩ := h
  exact ⟨credits, rfl⟩

theorem Stores.purge (stores : Stores codec store log)
    (h : purgeLogs store id.index id = .ok store') : Stores codec store' (log.purge id.index) := by
  rcases purgeLogs_ok h with ⟨rfl, old, hold, hle⟩ | ⟨hlater, h⟩
  · obtain ⟨v, hv, hv'⟩ := stores.ordered old hold
    rw [Option.mem_def] at hold hv
    have hsame : log.purge id.index = log := by
      have hpurged : log.purged = some old.index := by simp [stores.purged, hold]
      have hlast : log.last = some v.index := by simp [stores.last, hv]
      cases log
      simp only at hpurged hlast
      subst hpurged hlast
      simp [Log.purge, hle, hle.trans hv']
    rw [hsame]
    exact stores
  · obtain ⟨credits, rfl⟩ := movePurge_ok h
    -- The end is the later one of the old end and the purge point.
    obtain ⟨v, hv, hindex⟩ : ∃ v, (store.visibleLogEnd.filter fun visible =>
        visible.index > id.index).or (some id) = some v ∧
        v.index = log.last.elim id.index (max · id.index) := by
      rw [stores.last]
      cases store.visibleLogEnd with
      | none => exact ⟨id, rfl, rfl⟩
      | some visible =>
        by_cases hlt : id.index < visible.index
        · exact ⟨visible, by simp [Option.filter, hlt], (max_eq_left hlt.le).symm⟩
        · exact ⟨id, by simp [Option.filter, hlt], (max_eq_right (not_lt.mp hlt)).symm⟩
    have hpurged : (log.purge id.index).purged = some id.index := by
      simp only [Log.purge, stores.purged, Option.some.injEq]
      cases hold : store.lastPurged with
      | none => rfl
      | some old => exact max_eq_right (hlater old hold).le
    refine ⟨hpurged, ?_, fun p hp => ⟨v, hv, ?_⟩, stores.keyed, fun i hi => ?_⟩
    · simp only [hv, Option.map_some, hindex, Log.purge]
    · obtain rfl := Option.some.inj hp
      rw [hindex]
      cases log.last with
      | none => exact le_rfl
      | some l => exact le_max_right _ _
    · obtain ⟨hafter, l, hl, hle⟩ := hi
      have hlt : id.index < i := hafter id.index hpurged
      obtain rfl := Option.some.inj hl
      refine stores.rows i ⟨fun p hp => ?_, ?_⟩
      · rw [stores.purged, Option.mem_def] at hp
        obtain ⟨old, hold, rfl⟩ := Option.map_eq_some_iff.mp hp
        exact (hlater old hold).trans hlt
      · cases hend : log.last with
        | none =>
          rw [hend] at hle
          simp only [Option.elim_none] at hle
          omega
        | some l =>
          rw [hend] at hle
          simp only [Option.elim_some] at hle
          exact ⟨l, rfl, by omega⟩

/-! ## Removing rows -/

theorem selectGcKeys_mem {bytes : Nat} {rows : List (Nat × Bytes)} :
    ∀ k ∈ (selectGcKeys keys bytes rows).1, k ∈ keys ∨ ∃ row ∈ rows, row.1 = k := by
  induction rows generalizing keys bytes with
  | nil => exact fun k hk => .inl hk
  | cons row rows ih =>
    intro k hk
    rw [selectGcKeys] at hk
    split at hk
    · exact .inl hk
    · next keys' bytes' hselect =>
      unfold selectGcKey at hselect
      split at hselect
      · cases hselect
      · obtain ⟨rfl, rfl⟩ := Prod.mk.inj (Option.some.inj hselect)
        rcases ih k hk with hmem | ⟨row', hrow', rfl⟩
        · rcases List.mem_append.mp hmem with hmem | hmem
          · exact .inl hmem
          · exact .inr ⟨row, List.mem_cons_self, (List.mem_singleton.mp hmem).symm⟩
        · exact .inr ⟨row', List.mem_cons_of_mem _ hrow', rfl⟩

/-- Only rows outside of the boundaries are removed. -/
theorem mem_gcKeys {k : Nat} (hk : k ∈ (gcKeys store).1) :
    (∃ p ∈ store.lastPurged, k ≤ p.index) ∨ ∀ v ∈ store.visibleLogEnd, v.index < k := by
  have hpurged : k ∈ (selectGcKeys [] 0 (rowsPurged store)).1 →
      ∃ p ∈ store.lastPurged, k ≤ p.index := by
    intro hmem
    rcases selectGcKeys_mem k hmem with hnone | ⟨row, hrow, rfl⟩
    · cases hnone
    · unfold rowsPurged at hrow
      cases hend : store.lastPurged with
      | none => simp [hend] at hrow
      | some p =>
        simp only [hend, Option.elim_some, List.mem_filter, decide_eq_true_eq] at hrow
        exact ⟨p, rfl, hrow.2⟩
  unfold gcKeys at hk
  dsimp only at hk
  split at hk
  · exact .inl (hpurged hk)
  · rcases selectGcKeys_mem k hk with hmem | ⟨row, hrow, rfl⟩
    · exact .inl (hpurged hmem)
    · refine .inr fun v hv => ?_
      rw [Option.mem_def] at hv
      simp only [rowsAfterVisible, hv, checkedAdd] at hrow
      split at hrow
      · simp only [Option.elim_some, List.mem_filter, decide_eq_true_eq] at hrow
        omega
      · cases hrow

theorem get?_foldl_remove {table : Ordered Bytes} (hi : i ∉ keys) :
    (keys.foldl .remove table).get? i = table.get? i := by
  induction keys generalizing table with
  | nil => rfl
  | cons k keys ih =>
    rw [List.foldl_cons, ih (fun hmem => hi (List.mem_cons_of_mem _ hmem)), Ordered.get?_remove,
      if_neg fun heq : i = k => hi (heq ▸ List.mem_cons_self)]

theorem get?_of_foldl_remove {table : Ordered Bytes} {bytes : Bytes}
    (h : (keys.foldl .remove table).get? i = some bytes) : table.get? i = some bytes := by
  induction keys generalizing table with
  | nil => exact h
  | cons k keys ih =>
    have hremoved := ih h
    rw [Ordered.get?_remove] at hremoved
    split at hremoved
    · cases hremoved
    · exact hremoved

theorem Stores.gc (stores : Stores codec store log) :
    Stores codec (gcInvisibleLogs store).1 log := by
  refine ⟨stores.purged, stores.last, stores.ordered,
    fun i bytes hrow => stores.keyed i bytes (get?_of_foldl_remove hrow), fun i hi => ?_⟩
  obtain ⟨entry, hentry, hindex, bytes, hbytes, hrow⟩ := stores.rows i hi
  refine ⟨entry, hentry, hindex, bytes, hbytes, ?_⟩
  simp only [gcInvisibleLogs]
  rw [get?_foldl_remove, hrow]
  intro hmem
  rw [hindex] at hmem
  obtain ⟨hafter, v, hv, hle⟩ := stores.shows_iff.mp hi
  rcases mem_gcKeys hmem with ⟨p, hp, hle'⟩ | hbeyond
  · have hlt := hafter p hp
    omega
  · have hlt := hbeyond v hv
    omega

/-! ## Applying entries and installing snapshots -/

theorem Stores.apply {next : LogId} (stores : Stores codec store log)
    (h : applyLogEntry store next = .ok store') : Stores codec store' log := by
  simp only [applyLogEntry, bind_eq_ok, pure_eq_ok] at h
  obtain ⟨credits, -, rfl⟩ := h
  exact { stores with }

theorem raiseVisible_eq {old applied : Option LogId}
    (hwithin : ∀ new ∈ applied, ∃ v ∈ old, new.index ≤ v.index) :
    raiseVisible old applied = old := by
  cases applied with
  | none => cases old <;> rfl
  | some new =>
    obtain ⟨v, rfl, hle⟩ := hwithin new rfl
    exact if_neg (not_lt.mpr hle)

/-- A snapshot that does not reach over the end leaves the end where it is. -/
theorem Stores.install {applied : Option LogId} (stores : Stores codec store log)
    (hwithin : ∀ new ∈ applied, ∃ v ∈ store.visibleLogEnd, new.index ≤ v.index)
    (h : installSnapshot store applied = .ok store') : Stores codec store' log := by
  simp only [installSnapshot, bind_eq_ok, pure_eq_ok, raiseVisible_eq hwithin] at h
  obtain ⟨credits, -, rfl⟩ := h
  exact { stores with }

/-! ## Sequences of transactions -/

/-- What a transaction is to the log. -/
def LogOp.abstract (log : Log (LogEntry P)) : LogOp P → Log (LogEntry P)
  | .append _ entries => log.appendAll LogEntry.index entries
  | .truncate start => log.truncate start
  | .purge id => log.purge id.index
  | .gc | .apply _ | .install _ => log

/-- The entries that a transaction appends. -/
def LogOp.appended : LogOp P → List (LogEntry P)
  | .append _ entries => entries
  | .truncate _ | .purge _ | .gc | .apply _ | .install _ => []

/-- The first append to a log that is empty and has not been purged is at index 0, and a snapshot
that is installed does not reach over the visible end. -/
def LogOp.InBounds (store : LogStore) : LogOp P → Prop
  | .append _ entries => store.visibleLogEnd = none → store.lastPurged = none →
    ∀ entry ∈ entries.head?, entry.index = 0
  | .install applied => ∀ new ∈ applied, ∃ v ∈ store.visibleLogEnd, new.index ≤ v.index
  | .truncate _ | .purge _ | .gc | .apply _ => True

instance (store : LogStore) : DecidablePred (LogOp.InBounds (P := P) store)
  | .append _ entries => inferInstanceAs (Decidable (_ → _ → ∀ entry ∈ entries.head?, _))
  | .install applied => inferInstanceAs (Decidable (∀ new ∈ applied, _))
  | .truncate _ | .purge _ | .gc | .apply _ => inferInstanceAs (Decidable True)

/-- The store and the log after transactions, each of which meets a condition on the store before
it or is refused. -/
inductive Performed (codec : EntryCodec P) (C : LogStore → LogOp P → Prop) :
    List (LogOp P) → LogStore → Log (LogEntry P) → Prop
  | initial : Performed codec C [] .initial .empty
  | done {ops : List (LogOp P)} {op : LogOp P} {store store' : LogStore} {log : Log (LogEntry P)}
      (before : Performed codec C ops store log) (condition : C store op)
      (h : op.perform codec store = .ok store') :
      Performed codec C (ops ++ [op]) store' (op.abstract log)
  | refused {ops : List (LogOp P)} {op : LogOp P} {store : LogStore} {log : Log (LogEntry P)}
      {error : StorageError} (before : Performed codec C ops store log)
      (h : op.perform codec store = .error error) : Performed codec C (ops ++ [op]) store log

/-- A log without an end has not been purged. -/
theorem Stores.first_of_end (stores : Stores codec store log) {entries : List (LogEntry P)}
    (hfirst : store.visibleLogEnd = none → store.lastPurged = none →
      ∀ entry ∈ entries.head?, entry.index = 0) (hnone : store.visibleLogEnd = none) :
    ∀ entry ∈ entries.head?, entry.index = 0 := by
  refine hfirst hnone (Option.eq_none_iff_forall_not_mem.mpr fun p hp => ?_)
  obtain ⟨v, hv, -⟩ := stores.ordered p hp
  rw [hnone] at hv
  cases hv

theorem LogOp.stores {op : LogOp P} (keeps : ∀ entry ∈ op.appended, codec.KeepsId entry)
    (stores : Stores codec store log) (hbounds : op.InBounds store)
    (h : op.perform codec store = .ok store') : Stores codec store' (op.abstract log) := by
  cases op with
  | append lastApplied entries =>
    refine stores.append keeps (fun hnone => stores.first_of_end hbounds ?_) h
    simpa [stores.last] using hnone
  | truncate => exact stores.truncate h
  | purge => exact stores.purge h
  | gc =>
    obtain rfl := pure_eq_ok.mp h
    exact stores.gc
  | apply => exact stores.apply h
  | install => exact stores.install hbounds h

theorem Performed.stores {ops : List (LogOp P)}
    (keeps : ∀ op ∈ ops, ∀ entry ∈ op.appended, codec.KeepsId entry)
    (performed : Performed codec LogOp.InBounds ops store log) : Stores codec store log := by
  induction performed with
  | initial => exact stores_initial
  | done _ condition h ih =>
    obtain ⟨hbefore, hop⟩ := List.forall_mem_append.mp keeps
    exact LogOp.stores (hop _ (List.mem_singleton_self _)) (ih hbefore) condition h
  | refused _ _ ih => exact ih (List.forall_mem_append.mp keeps).1

/-- What the log holds was appended. -/
theorem Performed.appended {C : LogStore → LogOp P → Prop} {ops : List (LogOp P)}
    (performed : Performed codec C ops store log) (h : log.entry i = some entry) :
    ∃ op ∈ ops, entry ∈ op.appended := by
  have hearlier {ops : List (LogOp P)} {op : LogOp P} (h : ∃ op ∈ ops, entry ∈ op.appended) :
      ∃ op' ∈ ops ++ [op], entry ∈ op'.appended := by
    obtain ⟨op', hop, hentry⟩ := h
    exact ⟨op', List.mem_append_left _ hop, hentry⟩
  induction performed with
  | initial => cases h
  | refused _ _ ih => exact hearlier (ih h)
  | @done ops op _ _ log _ _ _ ih =>
    cases op with
    | append lastApplied entries =>
      rcases Log.entry_appendAll h with hnew | hold
      · exact ⟨_, List.mem_append_right _ (List.mem_singleton_self _), hnew⟩
      · exact hearlier (ih hold)
    | truncate start =>
      obtain ⟨-, hold⟩ := Option.ite_none_right_eq_some.mp h
      exact hearlier (ih hold)
    | purge | gc | apply | install => exact hearlier (ih h)

/-- Performs a transaction, or leaves everything as it is. -/
def LogOp.performBoth (codec : EntryCodec P) (both : LogStore × Log (LogEntry P)) (op : LogOp P) :
    LogStore × Log (LogEntry P) :=
  match op.perform codec both.1 with
  | .ok store' => (store', op.abstract both.2)
  | .error _ => both

/-- Each transaction meets a condition on the store it starts from. -/
def LogOp.meets (codec : EntryCodec P) (C : LogStore → LogOp P → Prop)
    [∀ store op, Decidable (C store op)] (both : LogStore × Log (LogEntry P)) :
    List (LogOp P) → Bool
  | [] => true
  | op :: ops =>
    Decidable.decide (C both.1 op) && LogOp.meets codec C (op.performBoth codec both) ops

theorem Performed.performBoth {C : LogStore → LogOp P → Prop}
    [∀ store op, Decidable (C store op)] {before ops : List (LogOp P)}
    {both : LogStore × Log (LogEntry P)} (performed : Performed codec C before both.1 both.2)
    (hmeets : LogOp.meets codec C both ops = true) :
    Performed codec C (before ++ ops) (ops.foldl (LogOp.performBoth codec) both).1
      (ops.foldl (LogOp.performBoth codec) both).2 := by
  induction ops generalizing before both with
  | nil => simpa using performed
  | cons op ops ih =>
    simp only [LogOp.meets, Bool.and_eq_true, decide_eq_true_eq] at hmeets
    have hstep : Performed codec C (before ++ [op]) (op.performBoth codec both).1
        (op.performBoth codec both).2 := by
      unfold LogOp.performBoth
      cases h : op.perform codec both.1 with
      | ok store' => exact performed.done hmeets.1 h
      | error error => exact performed.refused h
    have hrest := ih hstep hmeets.2
    rwa [List.append_assoc, List.singleton_append] at hrest

/-- The store and the log after transactions. -/
def LogOp.performAll (codec : EntryCodec P) (ops : List (LogOp P)) :
    LogStore × Log (LogEntry P) :=
  ops.foldl (LogOp.performBoth codec) (.initial, .empty)

theorem performed_performAll (codec : EntryCodec P) (C : LogStore → LogOp P → Prop)
    [∀ store op, Decidable (C store op)] (ops : List (LogOp P))
    (hmeets : LogOp.meets codec C (.initial, .empty) ops = true) :
    Performed codec C ops (LogOp.performAll codec ops).1 (LogOp.performAll codec ops).2 := by
  have start : Performed codec C [] LogStore.initial Log.empty := .initial
  exact start.performBoth hmeets

/-! ## Reading -/

/-- The rows of indices that the log shows are those of its entries. -/
theorem Stores.decode_range (stores : Stores codec store log) {first last : Nat}
    (hle : first ≤ last) (hshows : ∀ i, first ≤ i → i ≤ last → log.Shows i) :
    ∃ f : Nat → LogEntry P, (∀ i, first ≤ i → i ≤ last → log.entry i = some (f i)) ∧
      ((store.log.range first last).mapM fun row =>
        (codec.fromSlice row.2).mapError (stoErr .read)) =
          ((List.range' first (last + 1 - first)).map f).mapM codec.readBack := by
  obtain ⟨default, -⟩ := stores.rows first (hshows first (le_refl _) hle)
  have hrow : ∀ i, ∃ row : LogEntry P × Bytes, first ≤ i → i ≤ last →
      log.entry i = some row.1 ∧ codec.toVec row.1 = .ok row.2 ∧
        store.log.get? i = some row.2 := by
    intro i
    by_cases hi : first ≤ i ∧ i ≤ last
    · obtain ⟨entry, hentry, hindex, bytes, hbytes, hget⟩ := stores.rows i (hshows i hi.1 hi.2)
      rw [hindex] at hget
      exact ⟨(entry, bytes), fun _ _ => ⟨hentry, hbytes, hget⟩⟩
    · exact ⟨(default, []), fun hfirst hlast => absurd ⟨hfirst, hlast⟩ hi⟩
  choose row hrow using hrow
  refine ⟨fun i => (row i).1, fun i hfirst hlast => (hrow i hfirst hlast).1, ?_⟩
  rw [Ordered.range_eq fun i hfirst hlast => (hrow i hfirst hlast).2.2,
    List.mapM_map, List.mapM_map]
  refine mapM_congr fun i hi => ?_
  have hmem := List.mem_range'_1.mp hi
  rw [Function.comp_apply, Function.comp_apply, EntryCodec.readBack,
    (hrow i hmem.1 (by omega)).2.1]
  rfl

/-- What is read is what the log shows, as it reads back. -/
theorem Stores.getLogs (stores : Stores codec store log) (start stop : Nat) :
    getLogs codec store start stop = (log.slice start stop).mapM codec.readBack := by
  unfold Graphrun.getLogs
  cases hvisible : store.visibleLogEnd with
  | none =>
    rw [Log.slice_eq_nil]
    · rfl
    · intro i _ _ hshows
      obtain ⟨v, hv, -⟩ := (stores.shows_iff.mp hshows).2
      rw [hvisible] at hv
      cases hv
  | some visible =>
    dsimp only
    have hshows : ∀ i, log.Shows i ↔
        (∀ p ∈ store.lastPurged, p.index < i) ∧ i ≤ visible.index := by
      intro i
      simp [stores.shows_iff, hvisible]
    split
    · rw [Log.slice_eq_nil]
      · rfl
      · intro i hstart hstop
        omega
    · rename_i hbounds
      split
      · rename_i hempty
        rw [Log.slice_eq_nil]
        · rfl
        · intro i hstart hstop hshown
          obtain ⟨hpurged, hle⟩ := (hshows i).mp hshown
          have hbounded := visible.bounded
          cases hlast : store.lastPurged with
          | none =>
            simp [hlast] at hempty
            omega
          | some p =>
            have hlt := hpurged p hlast
            simp [hlast, satAdd] at hempty
            omega
      · rename_i hnonempty
        have hbetween : ∀ i, start ≤ i ∧ i < stop ∧ log.Shows i ↔
            (store.lastPurged.elim start fun id => max start (satAdd id.index 1)) ≤ i ∧
              i ≤ min visible.index (stop - 1) := by
          intro i
          rw [hshows]
          cases hlast : store.lastPurged with
          | none =>
            simp
            omega
          | some p =>
            have hbounded := p.bounded
            simp [hlast, satAdd] at hnonempty ⊢
            omega
        obtain ⟨f, hentry, hread⟩ := stores.decode_range
          (not_lt.mp fun h => hnonempty (.inl h))
          fun i hfirst hlast => ((hbetween i).mpr ⟨hfirst, hlast⟩).2.2
        rw [hread, Log.slice_eq hbetween hentry]

theorem Stores.mem_slice (stores : Stores codec store log) {stop : Nat} :
    entry ∈ log.slice start stop ↔
      start ≤ entry.index ∧ entry.index < stop ∧ log.Shows entry.index ∧
        log.entry entry.index = some entry := by
  simp only [Log.slice, List.mem_filterMap, List.mem_filter, List.mem_range'_1, decide_eq_true_eq]
  constructor
  · rintro ⟨i, ⟨hrange, hshows⟩, hentry⟩
    obtain ⟨found, hfound, hindex, -⟩ := stores.rows i hshows
    obtain rfl := Option.mem_unique hfound hentry
    subst hindex
    exact ⟨hrange.1, by omega, hshows, hentry⟩
  · rintro ⟨hstart, hstop, hshows, hentry⟩
    exact ⟨_, ⟨⟨hstart, by omega⟩, hshows⟩, hentry⟩

theorem EntryCodec.readBack_eq_ok {bytes : Bytes} (hbytes : codec.toVec entry = .ok bytes) :
    codec.readBack entry = .ok entry ↔ codec.ReadsBack entry := by
  simp [EntryCodec.readBack, EntryCodec.ReadsBack, hbytes, mapError_eq_ok]

/-- What is read between two indices is the slice of the log exactly if every entry that the log
shows reads back as it was written. Every index that is shown has an entry appended there. -/
theorem getLogs_eq_slice {ops : List (LogOp P)}
    (keeps : ∀ op ∈ ops, ∀ entry ∈ op.appended, codec.KeepsId entry)
    (performed : Performed codec LogOp.InBounds ops store log) :
    ((∀ start stop, getLogs codec store start stop = .ok (log.slice start stop)) ↔
      ∀ i entry, log.Shows i → log.entry i = some entry → codec.ReadsBack entry) ∧
      ∀ i, log.Shows i → ∃ entry, log.entry i = some entry ∧ entry.index = i ∧
        ∃ op ∈ ops, entry ∈ op.appended := by
  have stores := performed.stores keeps
  refine ⟨⟨fun hread i entry hshows hentry => ?_, fun hback start stop => ?_⟩, fun i hshows => ?_⟩
  · obtain ⟨found, hfound, rfl, bytes, hbytes, -⟩ := stores.rows i hshows
    obtain rfl := Option.mem_unique hfound hentry
    -- the slice of this one index
    have hslice : log.slice found.index (found.index + 1) = [found] := by
      simp [Log.slice, hshows, hentry]
    have hone := hread found.index (found.index + 1)
    rw [stores.getLogs, hslice] at hone
    simp only [List.mapM_cons, List.mapM_nil, bind_eq_ok, pure_eq_ok] at hone
    obtain ⟨read, hread, rest, rfl, hsame⟩ := hone
    obtain rfl := List.singleton_inj.mp hsame
    exact (EntryCodec.readBack_eq_ok hbytes).mp hread
  · rw [stores.getLogs, mapM_ok (g := id), List.map_id]
    intro entry hentry
    obtain ⟨-, -, hshows, hentry⟩ := stores.mem_slice.mp hentry
    obtain ⟨found, hfound, -, bytes, hbytes, -⟩ := stores.rows _ hshows
    obtain rfl := Option.mem_unique hfound hentry
    exact (EntryCodec.readBack_eq_ok hbytes).mpr (hback _ _ hshows hentry)
  · obtain ⟨entry, hentry, hindex, -⟩ := stores.rows i hshows
    exact ⟨entry, hentry, hindex, performed.appended hentry⟩

/-- A codec that knows the entries of a list. -/
def listCodec [DecidableEq P] (entries : List (LogEntry P)) : EntryCodec P where
  toVec entry := okOr ((entries.idxOf? entry).map fun n => List.replicate n 0) "unknown entry"
  fromSlice bytes := okOr entries[bytes.length]? "unknown entry"

theorem listCodec_readsBack [DecidableEq P] (entries : List (LogEntry P)) (entry : LogEntry P) :
    (listCodec entries).ReadsBack entry := by
  intro bytes h
  simp only [listCodec, okOr_eq_ok, Option.map_eq_some_iff] at h ⊢
  obtain ⟨n, hn, rfl⟩ := h
  obtain ⟨hlt, heq, -⟩ := List.idxOf?_eq_some_iff.mp hn
  rw [List.length_replicate, List.getElem?_eq_getElem hlt, heq]

/-- An entry of a term at a small index. -/
def sampleEntry (term index : Nat) (bounded : index ≤ u64Max) : LogEntry Nat :=
  { logId := { leaderId := { term, nodeId := 1 }, index, bounded }, payload := term }

def sampleEntries : List (LogEntry Nat) :=
  [sampleEntry 1 0 (by decide), sampleEntry 1 1 (by decide), sampleEntry 1 2 (by decide),
    sampleEntry 2 1 (by decide)]

def firstId : LogId := (sampleEntry 1 0 (by decide)).logId

/-- The store and the log after transactions on the sample entries. -/
abbrev sampleBoth (ops : List (LogOp Nat)) : LogStore × Log (LogEntry Nat) :=
  LogOp.performAll (listCodec sampleEntries) ops

def overwritingOps : List (LogOp Nat) :=
  [.append none (sampleEntries.take 3), .truncate 1, .append none (sampleEntries.drop 3),
    .purge firstId, .gc]

/-- Truncation, an append over the rows left behind, a purge and a pass of collection. -/
theorem overwritten_read :
    (∀ start stop, getLogs (listCodec sampleEntries) (sampleBoth overwritingOps).1 start stop =
      .ok ((sampleBoth overwritingOps).2.slice start stop)) ∧
      (sampleBoth overwritingOps).2.slice 0 4 = [sampleEntry 2 1 (by decide)] := by
  have performed := performed_performAll (listCodec sampleEntries) LogOp.InBounds overwritingOps
    (by decide +kernel)
  refine ⟨(getLogs_eq_slice (fun _ _ entry _ => (listCodec_readsBack _ entry).keepsId)
    performed).1.mpr fun _ entry _ _ => listCodec_readsBack _ entry, ?_⟩
  decide +kernel

/-- What the result of a probe is read back as. `Value` is untagged, so an output of null is
written as no output is, and `Option` reads null as none. -/
def WorkerProbe.reread : WorkerProbe → WorkerProbe
  | .observed outcome output => .observed outcome (output.filter (· ≠ .null))
  | .error code message => .error code message

/-- An entry that reports a probe, reduced to the result. -/
def nullOutput : LogEntry WorkerProbe where
  logId := firstId
  payload := .observed .applied (some .null)

/-- The rows of such entries: what reads back alike is written alike. -/
def probeCodec : EntryCodec WorkerProbe where
  toVec entry := (listCodec [{ nullOutput with payload := nullOutput.payload.reread }]).toVec
    { entry with payload := entry.payload.reread }
  fromSlice := (listCodec [{ nullOutput with payload := nullOutput.payload.reread }]).fromSlice

/-- The output of an applied probe is lost. -/
theorem nullOutput_lost : ∃ store log,
    Performed probeCodec LogOp.InBounds [.append none [nullOutput]] store log ∧
    log.slice 0 1 = [nullOutput] ∧ getLogs probeCodec store 0 1 =
      .ok [{ nullOutput with payload := .observed .applied none }] := by
  exact ⟨_, _, performed_performAll probeCodec LogOp.InBounds _ (by decide +kernel),
    by decide +kernel, by decide +kernel⟩

/-! ## Gaps

`install_snapshot` raises the visible end to the snapshot without writing rows and without moving
the purge point. -/

/-- Every index between the boundaries has the row of the entry that was appended there last and
has not been truncated since. -/
def NoGap (codec : EntryCodec P) (store : LogStore) (log : Log (LogEntry P)) : Prop :=
  ∀ i, (∀ p ∈ store.lastPurged, p.index < i) → (∃ v ∈ store.visibleLogEnd, i ≤ v.index) →
    log.Shows i ∧ ∃ entry, log.entry i = some entry ∧ entry.index = i ∧
      HasRow codec store.log entry

def installingOps : List (LogOp Nat) := [.install (some (sampleEntry 1 2 (by decide)).logId)]

def exposingOps : List (LogOp Nat) :=
  [.append none (sampleEntries.take 3), .truncate 1,
    .install (some (sampleEntry 1 2 (by decide)).logId)]

/-- A snapshot installed in an empty store shows an index without a row, and one installed after
a truncation shows a row that was truncated. -/
theorem installed_gap :
    (∃ store log, Performed (listCodec sampleEntries) (fun _ _ => True) installingOps store log ∧
      ¬ NoGap (listCodec sampleEntries) store log ∧ store.log.get? 0 = none) ∧
    ∃ store log, Performed (listCodec sampleEntries) (fun _ _ => True) exposingOps store log ∧
      ¬ NoGap (listCodec sampleEntries) store log ∧
      getLogs (listCodec sampleEntries) store 1 2 = .ok [sampleEntry 1 1 (by decide)] := by
  refine ⟨⟨_, _, performed_performAll _ _ installingOps (by decide +kernel), fun hgap => ?_,
      by decide +kernel⟩,
    _, _, performed_performAll _ _ exposingOps (by decide +kernel), fun hgap => ?_,
      by decide +kernel⟩
  · have hshows := (hgap 0 (by decide +kernel) (by decide +kernel)).1
    exact absurd hshows (by decide +kernel)
  · have hshows := (hgap 1 (by decide +kernel) (by decide +kernel)).1
    exact absurd hshows (by decide +kernel)

theorem committed_rows {ops : List (LogOp P)}
    (keeps : ∀ op ∈ ops, ∀ entry ∈ op.appended, codec.KeepsId entry)
    (performed : Performed codec LogOp.InBounds ops store log) : NoGap codec store log := by
  intro i hpurged hvisible
  have stores := performed.stores keeps
  have hshows := stores.shows_iff.mpr ⟨hpurged, hvisible⟩
  exact ⟨hshows, stores.rows i hshows⟩

def installingInsideOps : List (LogOp Nat) :=
  overwritingOps ++ [.install (some (sampleEntry 2 1 (by decide)).logId)]

/-- A snapshot inside the log, after a truncation and an append over the rows left behind. -/
theorem installed_inside :
    NoGap (listCodec sampleEntries) (sampleBoth installingInsideOps).1
      (sampleBoth installingInsideOps).2 :=
  committed_rows (fun _ _ entry _ => (listCodec_readsBack _ entry).keepsId)
    (performed_performAll _ LogOp.InBounds installingInsideOps (by decide +kernel))

end Graphrun
