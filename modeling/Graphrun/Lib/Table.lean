import Mathlib.Data.List.AList
import Mathlib.Data.List.Rotate

/-!
# Tables enumerated in an unknown order

A hash map is a finite partial function, but a program may also walk over it, and then
sees its entries in an order it cannot predict. `Table` is the finite partial function
(an association list without duplicate keys). `Enumeration` is one admissible behaviour
of the walk: for each table, its entries in some order. A function that walks over a
table takes the enumeration as an argument; a function that only looks keys up does not.
-/

namespace Lib

/-- A finite partial function from `K` to `V`. -/
abbrev Table (K V : Type) := AList (fun _ : K => V)

namespace Table

variable {K V : Type} [DecidableEq K]

/-- The entries as pairs. -/
def pairs (t : Table K V) : List (K × V) := t.entries.map fun e => (e.1, e.2)

/-- Changes the value stored under `k`, if there is one. -/
def modify (k : K) (f : V → V) (t : Table K V) : Table K V :=
  match t.lookup k with
  | some v => t.insert k (f v)
  | none => t

/-- Keeps the entries that satisfy the test. -/
def retain (p : K → V → Bool) (t : Table K V) : Table K V where
  entries := t.entries.filter fun e => p e.1 e.2
  nodupKeys := by
    have h := t.nodupKeys
    unfold List.NodupKeys List.keys at *
    exact h.sublist (List.filter_sublist.map _)

/-- Applies `f` to every value. -/
def mapValues (f : V → V) (t : Table K V) : Table K V where
  entries := t.entries.map fun e => ⟨e.1, f e.2⟩
  nodupKeys := by
    have h := t.nodupKeys
    unfold List.NodupKeys List.keys at *
    simpa [List.map_map, Function.comp_def] using h

theorem lookup_insert_eq {k k' : K} {v : V} {t : Table K V} :
    AList.lookup k' (t.insert k v) = if k' = k then some v else t.lookup k' := by
  split
  · next h => subst h; exact AList.lookup_insert _
  · next h => exact AList.lookup_insert_ne h

theorem lookup_erase_eq {k k' : K} {t : Table K V} :
    AList.lookup k' (t.erase k) = if k' = k then none else t.lookup k' := by
  split
  · next h => subst h; exact AList.lookup_erase _ _
  · next h => exact AList.lookup_erase_ne h

theorem lookup_modify {k k' : K} {f : V → V} {t : Table K V} :
    AList.lookup k' (t.modify k f) = if k' = k then (t.lookup k').map f else t.lookup k' := by
  unfold modify
  split
  · next v hv =>
    rw [lookup_insert_eq]
    split
    · next h => subst h; simp [hv]
    · rfl
  · next hv =>
    split
    · next h => subst h; simp [hv]
    · rfl

theorem lookup_retain {k : K} {p : K → V → Bool} {t : Table K V} :
    AList.lookup k (t.retain p) = (t.lookup k).filter (p k) := by
  ext v
  rw [Option.filter_eq_some_iff, ← Option.mem_def, ← Option.mem_def, AList.mem_lookup_iff,
    AList.mem_lookup_iff]
  simp [retain]

theorem lookup_of_retain {k : K} {v : V} {p : K → V → Bool} {t : Table K V}
    (h : AList.lookup k (t.retain p) = some v) : t.lookup k = some v := by
  rw [lookup_retain] at h
  exact (Option.filter_eq_some_iff.mp h).1

theorem lookup_mapValues {k : K} {f : V → V} {t : Table K V} :
    AList.lookup k (t.mapValues f) = (t.lookup k).map f := by
  ext v
  rw [Option.map_eq_some_iff, ← Option.mem_def, AList.mem_lookup_iff]
  constructor
  · intro h
    obtain ⟨⟨k', v'⟩, he, hk⟩ := List.mem_map.mp h
    cases hk
    exact ⟨v', AList.mem_lookup_iff.mpr he, rfl⟩
  · rintro ⟨v', hv, rfl⟩
    exact List.mem_map.mpr ⟨⟨k, v'⟩, AList.mem_lookup_iff.mp hv, rfl⟩

theorem mem_pairs {t : Table K V} {k : K} {v : V} : (k, v) ∈ t.pairs ↔ t.lookup k = some v := by
  rw [← Option.mem_def, AList.mem_lookup_iff]
  constructor
  · intro h
    obtain ⟨⟨k', v'⟩, he, hk⟩ := List.mem_map.mp h
    cases hk
    exact he
  · intro h
    exact List.mem_map.mpr ⟨⟨k, v⟩, h, rfl⟩

omit [DecidableEq K] in
theorem nodup_pairs (t : Table K V) : t.pairs.Nodup := by
  apply List.Nodup.of_map Prod.fst
  have hkeys : t.pairs.map Prod.fst = t.keys := by
    simp [pairs, AList.keys, List.keys, Function.comp_def]
  rw [hkeys]
  exact t.keys_nodup

/-- A table that has more entries, all of which satisfy `P`. -/
def Adds (t t' : Table K V) (P : K → V → Prop) : Prop :=
  ∀ k, t'.lookup k = t.lookup k ∨ t.lookup k = none ∧ ∃ v, t'.lookup k = some v ∧ P k v

variable {t t' : Table K V} {P : K → V → Prop} {k : K} {v : V}

theorem Adds.kept (adds : Adds t t' P) (h : t.lookup k = some v) : t'.lookup k = some v := by
  rcases adds k with hsame | ⟨hnone, -⟩
  · exact hsame.trans h
  · rw [h] at hnone
    cases hnone

theorem Adds.kept_or_new (adds : Adds t t' P) (h : t'.lookup k = some v) :
    t.lookup k = some v ∨ t.lookup k = none ∧ P k v := by
  rcases adds k with hsame | ⟨hnone, v', hv', hP⟩
  · exact .inl (hsame.symm.trans h)
  · obtain rfl := Option.mem_unique hv' h
    exact .inr ⟨hnone, hP⟩

/-- Keys that the new entries avoid are looked up as before. -/
theorem Adds.lookup_eq (adds : Adds t t' P) (h : ∀ v, ¬ P k v) : t'.lookup k = t.lookup k := by
  rcases adds k with hsame | ⟨-, v, -, hP⟩
  · exact hsame
  · exact absurd hP (h v)

end Table

/-- One way to walk over tables: every table's entries, in some order. -/
structure Enumeration where
  /-- The entries in the order in which the walk meets them. -/
  pairs : ∀ {K V : Type}, Table K V → List (K × V)
  perm : ∀ {K V : Type} [DecidableEq K] (t : Table K V), (pairs t).Perm t.pairs

namespace Enumeration

variable {K V : Type} [DecidableEq K]

/-- The values in the order of the walk. -/
def values (o : Enumeration) (t : Table K V) : List V := (o.pairs t).map (·.2)

/-- The keys in the order of the walk. -/
def keys (o : Enumeration) (t : Table K V) : List K := (o.pairs t).map (·.1)

theorem mem_pairs {o : Enumeration} {t : Table K V} {k : K} {v : V} :
    (k, v) ∈ o.pairs t ↔ t.lookup k = some v :=
  (o.perm t).mem_iff.trans Table.mem_pairs

theorem mem_values {o : Enumeration} {t : Table K V} {v : V} :
    v ∈ o.values t ↔ ∃ k, t.lookup k = some v := by
  simp [values, mem_pairs]

theorem mem_keys {o : Enumeration} {t : Table K V} {k : K} :
    k ∈ o.keys t ↔ ∃ v, t.lookup k = some v := by
  simp [keys, mem_pairs]

theorem nodup_pairs (o : Enumeration) (t : Table K V) : (o.pairs t).Nodup :=
  (o.perm t).nodup_iff.mpr t.nodup_pairs

variable {t t' : Table K V} {P : K → V → Prop} {q : V → Bool}

/-- A walk over entries that carry their keys meets no key twice. -/
theorem nodup_map_values (o : Enumeration) {f : V → K}
    (hkeyed : ∀ k v, t.lookup k = some v → f v = k) : ((o.values t).map f).Nodup := by
  rw [values, List.map_map]
  refine (List.nodup_map_iff_inj_on (o.nodup_pairs t)).mpr ?_
  rintro ⟨k, v⟩ hv ⟨k', v'⟩ hv' hsame
  rw [mem_pairs] at hv hv'
  obtain rfl : k = k' := by
    rw [← hkeyed k v hv, ← hkeyed k' v' hv']
    exact hsame
  rw [Option.mem_unique hv hv']

/-- A walk that skips the new entries meets the old ones. -/
theorem filter_values_perm (o : Enumeration) (adds : t.Adds t' P)
    (hq : ∀ k v, P k v → q v = false) :
    ((o.values t').filter q).Perm ((o.values t).filter q) := by
  simp only [values, List.filter_map]
  apply List.Perm.map
  apply (List.perm_ext_iff_of_nodup ((o.nodup_pairs t').filter _)
    ((o.nodup_pairs t).filter _)).mpr
  rintro ⟨k, v⟩
  simp only [List.mem_filter, mem_pairs, Function.comp_apply]
  constructor
  · rintro ⟨hv, hqv⟩
    rcases adds.kept_or_new hv with hold | ⟨-, hP⟩
    · exact ⟨hold, hqv⟩
    · rw [hq k v hP] at hqv
      cases hqv
  · rintro ⟨hv, hqv⟩
    exact ⟨adds.kept hv, hqv⟩

/-- A walk over a table with one more entry. -/
theorem values_perm_cons (o : Enumeration) {k : K} {v : V} (hnone : t.lookup k = none)
    (hsome : t'.lookup k = some v) (hrest : ∀ k', k' ≠ k → t'.lookup k' = t.lookup k') :
    (o.values t').Perm (v :: o.values t) := by
  have hnew : (k, v) ∉ o.pairs t := by
    rw [mem_pairs, hnone]
    simp
  have hpairs : (o.pairs t').Perm ((k, v) :: o.pairs t) := by
    apply (List.perm_ext_iff_of_nodup (o.nodup_pairs t')
      (List.nodup_cons.mpr ⟨hnew, o.nodup_pairs t⟩)).mpr
    rintro ⟨k', v'⟩
    simp only [List.mem_cons, Prod.mk.injEq, mem_pairs]
    by_cases hk : k' = k
    · subst hk
      rw [hsome, hnone]
      simp [eq_comm]
    · simp [hk, hrest k' hk]
  exact hpairs.map Prod.snd

theorem countP_values_le (o : Enumeration) (adds : t.Adds t' P) :
    (o.values t).countP q ≤ (o.values t').countP q := by
  simp only [values, List.countP_map]
  apply List.Subperm.countP_le
  apply List.subperm_of_subset (o.nodup_pairs t)
  rintro ⟨k, v⟩ h
  exact mem_pairs.mpr (adds.kept (mem_pairs.mp h))

/-- Entries as they are stored. -/
def stored : Enumeration where
  pairs t := t.entries.map fun e => (e.1, e.2)
  perm _ := .refl _

/-- Entries as they are stored, from the `n`-th on and then those before it. -/
def rotated (n : Nat) : Enumeration where
  pairs t := (t.entries.map fun e => (e.1, e.2)).rotate n
  perm _ := List.rotate_perm _ _

/-- Every value comes first in some walk. -/
theorem exists_head_values {v : V} {k : K} (h : t.lookup k = some v) :
    ∃ o : Enumeration, (o.values t).head? = some v := by
  have hmem : (k, v) ∈ stored.pairs t := mem_pairs.mpr h
  obtain ⟨i, hi, hget⟩ := List.mem_iff_getElem.mp hmem
  have hpairs : (rotated i).pairs t = (stored.pairs t).drop i ++ (stored.pairs t).take i :=
    List.rotate_eq_drop_append_take hi.le
  refine ⟨rotated i, ?_⟩
  rw [values, hpairs, List.drop_eq_getElem_cons hi, hget]
  rfl

/-- Entries in the opposite of the stored order. -/
def backward : Enumeration where
  pairs t := (t.entries.map fun e => (e.1, e.2)).reverse
  perm _ := List.reverse_perm _

end Enumeration

end Lib
