import Graphrun.Lib.Ordered
import Mathlib.Logic.Function.Basic

/-!
# A log

An indexed log from whose front entries are purged and from whose end entries are truncated. An
entry that is appended at an index replaces the one that was there. What the log shows are the
entries after the last one purged and up to the last index, in the order of their indices
(`Log.slice`).
-/

namespace Lib

structure Log (α : Type) where
  /-- The last index purged. -/
  purged : Option Nat
  /-- The last index. -/
  last : Option Nat
  /-- What was last appended at an index and has not been truncated since. -/
  entry : Nat → Option α

namespace Log

variable {α : Type} {log : Log α} {i : Nat}

def empty : Log α where
  purged := none
  last := none
  entry _ := none

/-- The log shows the index. -/
def Shows (log : Log α) (i : Nat) : Prop :=
  (∀ p ∈ log.purged, p < i) ∧ ∃ l ∈ log.last, i ≤ l

instance (log : Log α) (i : Nat) : Decidable (log.Shows i) := by
  unfold Shows
  infer_instance

def append (log : Log α) (i : Nat) (a : α) : Log α where
  purged := log.purged
  last := some (log.last.elim i (max · i))
  entry := Function.update log.entry i (some a)

/-- Appends entries at their own indices. -/
def appendAll (index : α → Nat) (log : Log α) (entries : List α) : Log α :=
  entries.foldl (fun log a => log.append (index a) a) log

/-- Truncates the log at an index, and after it. -/
def truncate (log : Log α) (i : Nat) : Log α where
  purged := log.purged
  last := log.last.bind fun l => if i ≤ l then (if i = 0 then none else some (i - 1)) else some l
  entry := fun j => if j < i then log.entry j else none

/-- Purges the log up to an index, which may lie after its end. -/
def purge (log : Log α) (i : Nat) : Log α where
  purged := some (log.purged.elim i (max · i))
  last := some (log.last.elim i (max · i))
  entry := log.entry

/-- The entries with `start ≤ index < stop`. -/
def slice (log : Log α) (start stop : Nat) : List α :=
  ((List.range' start (stop - start)).filter fun i => log.Shows i).filterMap log.entry

/-- What is at an index after entries were appended is one of them, or was there before. -/
theorem entry_appendAll {index : α → Nat} {entries : List α} {a : α}
    (h : (appendAll index log entries).entry i = some a) : a ∈ entries ∨ log.entry i = some a := by
  induction entries generalizing log with
  | nil => exact .inr h
  | cons b rest ih =>
    rcases ih h with hmem | hold
    · exact .inl (List.mem_cons_of_mem _ hmem)
    · by_cases hi : i = index b
      · subst hi
        simp only [append, Function.update_self, Option.some.injEq] at hold
        exact .inl (hold ▸ List.mem_cons_self)
      · exact .inr ((Function.update_of_ne hi _ _).symm.trans hold)

/-- A slice is read off the interval of the indices shown. -/
theorem slice_eq {f : Nat → α} {start stop first last : Nat}
    (hshows : ∀ i, start ≤ i ∧ i < stop ∧ log.Shows i ↔ first ≤ i ∧ i ≤ last)
    (hentry : ∀ i, first ≤ i → i ≤ last → log.entry i = some (f i)) :
    log.slice start stop = (List.range' first (last + 1 - first)).map f := by
  have hfilter : (List.range' start (stop - start)).filter (fun i => log.Shows i) =
      List.range' first (last + 1 - first) := by
    refine eq_of_increasing id ((List.pairwise_lt_range' 1).filter _)
      (List.pairwise_lt_range' 1) fun i => ?_
    simp only [List.mem_filter, List.mem_range'_1, decide_eq_true_eq]
    constructor
    · rintro ⟨⟨hstart, hstop⟩, hshown⟩
      have hbetween := (hshows i).mp ⟨hstart, by omega, hshown⟩
      omega
    · rintro ⟨hfirst, hlast⟩
      obtain ⟨hstart, hstop, hshown⟩ := (hshows i).mpr ⟨hfirst, by omega⟩
      exact ⟨⟨hstart, by omega⟩, hshown⟩
  rw [slice, hfilter, ← List.filterMap_eq_map]
  refine List.filterMap_congr fun i hi => ?_
  have hmem := List.mem_range'_1.mp hi
  exact hentry i hmem.1 (by omega)

/-- Nothing is shown, and so nothing is sliced. -/
theorem slice_eq_nil {start stop : Nat} (h : ∀ i, start ≤ i → i < stop → ¬ log.Shows i) :
    log.slice start stop = [] := by
  have hnone : (List.range' start (stop - start)).filter (fun i => log.Shows i) = [] := by
    refine List.filter_eq_nil_iff.mpr fun i hi => ?_
    have hmem := List.mem_range'_1.mp hi
    simpa using h i hmem.1 (by omega)
  rw [slice, hnone, List.filterMap_nil]

end Log

end Lib
