import Mathlib.Data.List.Rotate
import Mathlib.Data.List.Sort

/-!
# Sorted lists

What a program sees of a table once it has sorted what the walk over the table met: the result
does not depend on the order of the walk. A sorted list is cut in two by a test that fails from
some point on, and may be rotated to start there.
-/

namespace Lib

variable {α : Type} {r r' : α → α → Prop} {p : α → Bool}

/-- The same elements are sorted to the same list, also by a second relation that agrees on
them. -/
theorem insertionSort_congr_perm [DecidableRel r] [DecidableRel r'] [Std.Total r'] [IsTrans α r']
    [Std.Antisymm r'] {l l' : List α} (h : l.Perm l')
    (hsame : ∀ a ∈ l, ∀ b ∈ l, r a b ↔ r' a b) : l.insertionSort r = l'.insertionSort r' := by
  have hmap : l.insertionSort r = l.insertionSort r' := by
    have hmap := List.map_insertionSort r r' id l hsame
    simpa using hmap
  rw [hmap]
  have hperm := (List.perm_insertionSort r' l).trans (h.trans (List.perm_insertionSort r' l').symm)
  exact hperm.eq_of_pairwise' (List.pairwise_insertionSort r' l)
    (List.pairwise_insertionSort r' l')

/-- On a sorted list, a test that passes on to smaller elements splits where it first fails. -/
theorem takeWhile_dropWhile_eq_filter (hp : ∀ a b, r a b → p b = true → p a = true) :
    ∀ {l : List α}, l.Pairwise r →
      l.takeWhile p = l.filter p ∧ l.dropWhile p = l.filter fun a => !p a
  | [], _ => ⟨rfl, rfl⟩
  | a :: l, h => by
    obtain ⟨ha, hl⟩ := List.pairwise_cons.mp h
    cases hpa : p a with
    | true =>
      obtain ⟨htake, hdrop⟩ := takeWhile_dropWhile_eq_filter hp hl
      simp [hpa, htake, hdrop]
    | false =>
      have hnone : ∀ b ∈ l, p b = false := by
        intro b hb
        cases hpb : p b with
        | true => exact absurd (hp a b (ha b hb) hpb) (by simp [hpa])
        | false => rfl
      have hall : l.filter (fun a => !p a) = l := List.filter_eq_self.mpr (by simpa using hnone)
      have hno : l.filter p = [] := List.filter_eq_nil_iff.mpr (by simpa using hnone)
      simp [hpa, hall, hno]

/-- Starting a list where a test first fails. -/
theorem rotate_takeWhile (l : List α) :
    l.rotate ((l.takeWhile p).length % l.length) = l.dropWhile p ++ l.takeWhile p := by
  rw [List.rotate_mod]
  have happend := List.rotate_append_length_eq (l.takeWhile p) (l.dropWhile p)
  rwa [List.takeWhile_append_dropWhile] at happend

end Lib
