import Mathlib.Algebra.BigOperators.Group.List.Basic
import Mathlib.Data.List.Range
import Mathlib.Data.List.Sort
import Mathlib.Order.Basic

/-!
# Ordered tables

A table that is walked in the order of its keys, such as a table of a B-tree store: a list of
entries that is strictly increasing in key. A range of keys is walked by a filter, and where every
key of an interval has a value the walk is the interval (`range_eq`). The values under the keys
that meet a condition are summed with `sum`, which depends on those entries only (`sum_eq`) and is
additive in the condition (`sum_or`).
-/

namespace Lib

/-- Two lists that are strictly increasing are equal if they have the same elements. -/
theorem eq_of_increasing {α : Type} (key : α → Nat) {l l' : List α}
    (hl : l.Pairwise fun a b => key a < key b) (hl' : l'.Pairwise fun a b => key a < key b)
    (h : ∀ a, a ∈ l ↔ a ∈ l') : l = l' := by
  have hnodup {l : List α} (hl : l.Pairwise fun a b => key a < key b) : l.Nodup := by
    refine hl.imp fun hlt => ?_
    rintro rfl
    exact Nat.lt_irrefl _ hlt
  have hperm : l.Perm l' := (List.perm_ext_iff_of_nodup (hnodup hl) (hnodup hl')).mpr h
  exact hperm.eq_of_pairwise (fun a b _ _ hab hba => absurd hba (Nat.lt_asymm hab)) hl hl'

structure Ordered (V : Type) where
  entries : List (Nat × V)
  sorted : entries.Pairwise fun a b => a.1 < b.1

namespace Ordered

variable {V : Type} {t : Ordered V} {k k' lo hi : Nat} {v v' : V}

def empty : Ordered V := ⟨[], .nil⟩

def get? (t : Ordered V) (k : Nat) : Option V := (t.entries.find? (·.1 = k)).map (·.2)

def insert (t : Ordered V) (k : Nat) (v : V) : Ordered V where
  entries := t.entries.filter (·.1 < k) ++ (k, v) :: t.entries.filter (k < ·.1)
  sorted := by
    refine List.pairwise_append.mpr ⟨t.sorted.filter _, List.pairwise_cons.mpr
      ⟨fun e he => by simpa using List.of_mem_filter he, t.sorted.filter _⟩, fun a ha b hb => ?_⟩
    have hlow : a.1 < k := by simpa using List.of_mem_filter ha
    rcases List.mem_cons.mp hb with rfl | hb
    · exact hlow
    · exact hlow.trans (by simpa using List.of_mem_filter hb)

def remove (t : Ordered V) (k : Nat) : Ordered V where
  entries := t.entries.filter (·.1 ≠ k)
  sorted := t.sorted.filter _

/-- The entries with `lo ≤ key ≤ hi`, in order. -/
def range (t : Ordered V) (lo hi : Nat) : List (Nat × V) :=
  t.entries.filter fun e => lo ≤ e.1 ∧ e.1 ≤ hi

theorem eq_of_mem (h : (k, v) ∈ t.entries) (h' : (k, v') ∈ t.entries) : v = v' := by
  have hnodup : (t.entries.map (·.1)).Nodup := List.pairwise_map.mpr (t.sorted.imp Nat.ne_of_lt)
  exact congrArg Prod.snd (List.inj_on_of_nodup_map hnodup h h' rfl)

theorem get?_eq_some : t.get? k = some v ↔ (k, v) ∈ t.entries := by
  constructor
  · intro h
    obtain ⟨e, he, rfl⟩ := Option.map_eq_some_iff.mp h
    have hkey : e.1 = k := by simpa using List.find?_some he
    rw [← hkey]
    exact List.mem_of_find?_eq_some he
  · intro h
    have hsome : (t.entries.find? (·.1 = k)).isSome = true :=
      List.find?_isSome.mpr ⟨(k, v), h, by simp⟩
    obtain ⟨e, he⟩ := Option.isSome_iff_exists.mp hsome
    have hkey : e.1 = k := by simpa using List.find?_some he
    have hmem : (k, e.2) ∈ t.entries := by
      rw [← hkey]
      exact List.mem_of_find?_eq_some he
    rw [get?, he, Option.map_some, eq_of_mem hmem h]

theorem get?_insert : (t.insert k v).get? k' = if k' = k then some v else t.get? k' := by
  apply Option.ext
  intro w
  rw [get?_eq_some]
  simp only [insert, List.mem_append, List.mem_filter, List.mem_cons, Prod.mk.injEq,
    decide_eq_true_eq, ← get?_eq_some]
  split
  · next h =>
    subst h
    simp [eq_comm]
  · next h =>
    have hne : k' < k ∨ k < k' := Nat.lt_or_gt_of_ne h
    simp only [h, false_and, false_or]
    rw [← and_or_left, and_iff_left hne]

theorem get?_remove : (t.remove k).get? k' = if k' = k then none else t.get? k' := by
  apply Option.ext
  intro w
  rw [get?_eq_some]
  simp only [remove, List.mem_filter, ← get?_eq_some, decide_eq_true_eq]
  split
  · next h => simp [h]
  · next h => simp [h]

theorem mem_range {e : Nat × V} :
    e ∈ t.range lo hi ↔ t.get? e.1 = some e.2 ∧ lo ≤ e.1 ∧ e.1 ≤ hi := by
  simp [range, List.mem_filter, get?_eq_some]

/-- Where every key of an interval has a value, the walk is the interval. -/
theorem range_eq {f : Nat → V} (h : ∀ k, lo ≤ k → k ≤ hi → t.get? k = some (f k)) :
    t.range lo hi = (List.range' lo (hi + 1 - lo)).map fun k => (k, f k) := by
  refine eq_of_increasing Prod.fst (t.sorted.filter _) ?_ fun e => ?_
  · exact List.pairwise_map.mpr (List.pairwise_lt_range' 1)
  · rw [mem_range]
    simp only [List.mem_map, List.mem_range'_1]
    constructor
    · rintro ⟨hget, hlo, hhi⟩
      rw [h e.1 hlo hhi] at hget
      exact ⟨e.1, ⟨hlo, by omega⟩, Prod.ext rfl (Option.some.inj hget)⟩
    · rintro ⟨k, ⟨hlo, hhi⟩, rfl⟩
      have hle : k ≤ hi := by omega
      exact ⟨h k hlo hle, hlo, hle⟩

/-! ## Sums -/

variable {M : Type} [AddCommMonoid M] {t' : Ordered V} {f : Nat × V → M} {p q r : Nat → Prop}
  [DecidablePred p] [DecidablePred q] [DecidablePred r]

/-- The sum of a measure over the entries whose key meets a condition. -/
def sum (t : Ordered V) (f : Nat × V → M) (p : Nat → Prop) [DecidablePred p] : M :=
  ((t.entries.filter fun e => p e.1).map f).sum

theorem sum_eq (h : ∀ k v, t.get? k = some v ∧ p k ↔ t'.get? k = some v ∧ q k) :
    t.sum f p = t'.sum f q := by
  have hfilter : (t.entries.filter fun e => p e.1) = t'.entries.filter fun e => q e.1 := by
    refine eq_of_increasing Prod.fst (t.sorted.filter _) (t'.sorted.filter _) fun e => ?_
    simp only [List.mem_filter, decide_eq_true_eq, ← get?_eq_some (k := e.1) (v := e.2)]
    exact h e.1 e.2
  rw [sum, sum, hfilter]

theorem sum_or (hor : ∀ k, p k ↔ q k ∨ r k) (hdisjoint : ∀ k, q k → ¬ r k) :
    t.sum f p = t.sum f q + t.sum f r := by
  unfold sum
  induction t.entries with
  | nil => simp
  | cons e rest ih =>
    by_cases hq : q e.1
    · have hr := hdisjoint e.1 hq
      have hp := (hor e.1).mpr (.inl hq)
      simp [hp, hq, hr, ih, add_assoc]
    · by_cases hr : r e.1
      · have hp := (hor e.1).mpr (.inr hr)
        simp [hp, hq, hr, ih, add_left_comm]
      · have hp : ¬ p e.1 := fun hp => ((hor e.1).mp hp).elim hq hr
        simp [hp, hq, hr, ih]

theorem sum_key (h : t.get? k = some v) : t.sum f (· = k) = f (k, v) := by
  have hfilter : (t.entries.filter fun e => e.1 = k) = [(k, v)] := by
    refine eq_of_increasing Prod.fst (t.sorted.filter _) (List.pairwise_singleton _ _) fun e => ?_
    simp only [List.mem_filter, decide_eq_true_eq, List.mem_singleton]
    constructor
    · rintro ⟨hmem, rfl⟩
      exact Prod.ext rfl (eq_of_mem hmem (get?_eq_some.mp h))
    · rintro rfl
      exact ⟨get?_eq_some.mp h, rfl⟩
  rw [sum, hfilter, List.map_singleton, List.sum_singleton]

end Ordered

end Lib
