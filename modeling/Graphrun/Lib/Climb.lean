import Mathlib.Data.List.Basic
import Mathlib.Data.List.Perm.Subperm

/-!
# Climbing a finite forest

A forest is given by the partial function that takes a key to the key above it. A key is
grounded when the climb from it ends. A climb never passes a key twice, so in a forest with
finitely many keys a climb that ends takes fewer steps than there are keys: as many units of
fuel as keys are enough for any function that recurses along a climb.
-/

namespace Lib

variable {K : Type} {up : K → Option K}

/-- The climb from a key ends after `n` steps. -/
inductive Grounded (up : K → Option K) : Nat → K → Prop
  | root {k : K} (h : up k = none) : Grounded up 0 k
  | step {n : Nat} {k k' : K} (h : up k = some k') (rest : Grounded up n k') :
      Grounded up (n + 1) k

namespace Grounded

theorem unique {m n : Nat} {k : K} (hm : Grounded up m k) (hn : Grounded up n k) : m = n := by
  induction hm generalizing n with
  | root h =>
    cases hn with
    | root => rfl
    | step h' => rw [h] at h'; cases h'
  | step h _ ih =>
    cases hn with
    | root h' => rw [h] at h'; cases h'
    | step h' rest =>
      obtain rfl := Option.mem_unique h h'
      rw [ih rest]

/-- The keys on a climb, which are distinct because each is at its own height. -/
theorem keys_on_climb {n : Nat} {k : K} (h : Grounded up n k) {keys : List K} (hk : k ∈ keys)
    (hup : ∀ k k', k ∈ keys → up k = some k' → k' ∈ keys) :
    ∃ l : List K, l.length = n + 1 ∧ l.Nodup ∧ l ⊆ keys ∧
      ∀ x ∈ l, ∃ m ≤ n, Grounded up m x := by
  induction h with
  | root h => exact ⟨[_], rfl, by simp, by simpa using hk, fun x hx => ⟨0, Nat.le_refl _, by
      obtain rfl := List.mem_singleton.mp hx
      exact .root h⟩⟩
  | @step n k k' h rest ih =>
    obtain ⟨l, hlength, hnodup, hsubset, hheights⟩ := ih (hup k k' hk h)
    refine ⟨k :: l, by simp [hlength], ?_, List.cons_subset.mpr ⟨hk, hsubset⟩, ?_⟩
    · refine List.nodup_cons.mpr ⟨fun hmem => ?_, hnodup⟩
      obtain ⟨m, hm, hx⟩ := hheights k hmem
      have := hx.unique (.step h rest)
      omega
    · intro x hx
      rcases List.mem_cons.mp hx with rfl | hx
      · exact ⟨n + 1, Nat.le_refl _, .step h rest⟩
      · obtain ⟨m, hm, hx⟩ := hheights x hx
        exact ⟨m, by omega, hx⟩

theorem lt_length {n : Nat} {k : K} (h : Grounded up n k) {keys : List K} (hk : k ∈ keys)
    (hup : ∀ k k', k ∈ keys → up k = some k' → k' ∈ keys) : n < keys.length := by
  obtain ⟨l, hlength, hnodup, hsubset, -⟩ := h.keys_on_climb hk hup
  have := (List.subperm_of_subset hnodup hsubset).length_le
  omega

end Grounded

end Lib
