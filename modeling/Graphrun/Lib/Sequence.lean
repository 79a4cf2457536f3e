import Mathlib.Data.List.Basic
import Mathlib.Data.List.Nodup
import Mathlib.Data.List.Perm.Subperm
import Mathlib.Data.List.TakeWhile

/-!
# Sequences

Three things about sequences. `updateFirst` changes the first element that satisfies a test, as
`iter_mut().find(..)` does on a vector; the update is described by what it keeps and, where
keys are distinct, by the one place it changes. `TakesIn` says that a list takes in an element
unless it has it. `Since p q l` is a temporal statement about a
history: whatever satisfied `p` has been followed by something that satisfies `q`.
-/

namespace Lib

variable {α β : Type}

/-! ## Updating the first match -/

/-- Applies `f` to the first element that satisfies `p`. -/
def updateFirst (p : α → Bool) (f : α → α) : List α → List α
  | [] => []
  | a :: l => if p a then f a :: l else a :: updateFirst p f l

section UpdateFirst

variable {p : α → Bool} {f : α → α} {l : List α}

theorem mem_updateFirst {x : α} (h : x ∈ updateFirst p f l) :
    x ∈ l ∨ ∃ a ∈ l, p a = true ∧ x = f a := by
  induction l with
  | nil => cases h
  | cons a l ih =>
    unfold updateFirst at h
    split at h
    · next hp =>
      rcases List.mem_cons.mp h with rfl | h
      · exact .inr ⟨a, List.mem_cons_self, hp, rfl⟩
      · exact .inl (List.mem_cons_of_mem _ h)
    · rcases List.mem_cons.mp h with rfl | h
      · exact .inl List.mem_cons_self
      · rcases ih h with h | ⟨b, hb, hp, rfl⟩
        · exact .inl (List.mem_cons_of_mem _ h)
        · exact .inr ⟨b, List.mem_cons_of_mem _ hb, hp, rfl⟩

theorem exists_mem_updateFirst (h : l.any p = true) :
    ∃ a ∈ l, p a = true ∧ f a ∈ updateFirst p f l := by
  induction l with
  | nil => cases h
  | cons a l ih =>
    unfold updateFirst
    by_cases hp : p a = true
    · exact ⟨a, List.mem_cons_self, hp, by simp [hp]⟩
    · obtain ⟨b, hb, hpb, hmem⟩ := ih (by simpa [hp] using h)
      exact ⟨b, List.mem_cons_of_mem _ hb, hpb, by simp [hp, hmem]⟩

/-- An update that keeps a component of the elements keeps the sequence of components. -/
theorem map_updateFirst {g : α → β} (hg : ∀ a, g (f a) = g a) :
    (updateFirst p f l).map g = l.map g := by
  induction l with
  | nil => rfl
  | cons a l ih =>
    unfold updateFirst
    split
    · simp [hg]
    · simp [ih]

/-- Where keys are distinct, nothing with the key of the update escapes it. -/
theorem updated_of_key {key : α → β} {k : β} {x : α} (hnodup : (l.map key).Nodup)
    (hp : ∀ a, p a = true ↔ key a = k) (h : x ∈ updateFirst p f l) (hx : key x = k) :
    ∃ a ∈ l, key a = k ∧ x = f a := by
  induction l with
  | nil => cases h
  | cons a l ih =>
    rw [List.map_cons, List.nodup_cons] at hnodup
    unfold updateFirst at h
    split at h
    · next ha =>
      rcases List.mem_cons.mp h with rfl | h
      · exact ⟨a, List.mem_cons_self, (hp a).mp ha, rfl⟩
      · exact absurd (List.mem_map.mpr ⟨x, h, hx.trans ((hp a).mp ha).symm⟩) hnodup.1
    · next ha =>
      rcases List.mem_cons.mp h with rfl | h
      · exact absurd ((hp x).mpr hx) ha
      · obtain ⟨b, hb, hkey, rfl⟩ := ih hnodup.2 h
        exact ⟨b, List.mem_cons_of_mem _ hb, hkey, rfl⟩

theorem updateFirst_append {l₁ l₂ : List α} {a : α} (h₁ : ∀ b ∈ l₁, p b = false)
    (ha : p a = true) : updateFirst p f (l₁ ++ a :: l₂) = l₁ ++ f a :: l₂ := by
  induction l₁ with
  | nil => simp [updateFirst, ha]
  | cons b l₁ ih =>
    simp only [List.cons_append, updateFirst, h₁ b List.mem_cons_self, Bool.false_eq_true,
      if_false]
    rw [ih fun c hc => h₁ c (List.mem_cons_of_mem _ hc)]

end UpdateFirst

/-! ## Taking in an element -/

/-- The second list is the first one, with `x` somewhere if it was not there. -/
def TakesIn (x : α) (l l' : List α) : Prop := l' = l ∨ (x ∉ l ∧ l'.Perm (x :: l))

theorem TakesIn.nodup {x : α} {l l' : List α} (h : TakesIn x l l') (hl : l.Nodup) : l'.Nodup := by
  rcases h with rfl | ⟨hnew, hperm⟩
  · exact hl
  · exact hperm.nodup_iff.mpr (List.nodup_cons.mpr ⟨hnew, hl⟩)

/-- Distinct elements of a list that miss one of them are fewer. -/
theorem length_lt_of_missing {x : α} {l all : List α} (hnodup : l.Nodup)
    (hsub : ∀ y ∈ l, y ∈ all) (hx : x ∈ all) (hmissing : x ∉ l) : l.length < all.length := by
  have hall : ∀ y ∈ x :: l, y ∈ all := List.forall_mem_cons.mpr ⟨hx, hsub⟩
  have hle := (List.subperm_of_subset (List.nodup_cons.mpr ⟨hmissing, hnodup⟩) hall).length_le
  rw [List.length_cons] at hle
  omega

/-! ## Histories -/

/-- Whatever in the history satisfied `p` has been followed by something that satisfies `q`. -/
def Since (p q : α → Bool) (l : List α) : Prop :=
  ∀ l₁ x l₂, l = l₁ ++ x :: l₂ → p x = true → ∃ y ∈ l₂, q y = true

section Since

variable {p q : α → Bool} {l : List α} {x : α}

theorem since_nil : Since p q ([] : List α) := by
  intro l₁ y l₂ h
  simp at h

theorem since_concat (hp : p x = false) (h : q x = true ∨ Since p q l) :
    Since p q (l ++ [x]) := by
  intro l₁ y l₂ hsplit hy
  rcases List.eq_nil_or_concat l₂ with rfl | ⟨l₂, last, rfl⟩
  · obtain ⟨-, hlast⟩ := List.append_inj' hsplit rfl
    obtain rfl := (List.cons.inj hlast).1
    rw [hp] at hy
    cases hy
  · rw [List.concat_eq_append, ← List.cons_append, ← List.append_assoc] at hsplit
    obtain ⟨rfl, hlast⟩ := List.append_inj' hsplit rfl
    obtain rfl := (List.cons.inj hlast).1
    rw [List.concat_eq_append]
    rcases h with hx | hl
    · exact ⟨x, by simp, hx⟩
    · obtain ⟨z, hz, hq⟩ := hl l₁ y l₂ rfl hy
      exact ⟨z, List.mem_append_left _ hz, hq⟩

/-- Something that satisfies `p` stands after the last that satisfies `q`. -/
theorem not_since (h : (l.reverse.takeWhile fun x => !q x).any p = true) : ¬ Since p q l := by
  intro hsince
  obtain ⟨x, hx, hp⟩ := List.any_eq_true.mp h
  obtain ⟨t₁, t₂, hsplit⟩ := List.append_of_mem hx
  have hreverse : l = ((l.reverse.dropWhile fun x => !q x).reverse ++ t₂.reverse) ++
      x :: t₁.reverse := by
    have hparts := List.takeWhile_append_dropWhile (p := fun x => !q x) (l := l.reverse)
    rw [hsplit] at hparts
    have hback := congrArg List.reverse hparts
    simpa using hback.symm
  obtain ⟨y, hy, hq⟩ := hsince _ x _ hreverse hp
  have hmem : y ∈ l.reverse.takeWhile fun x => !q x := by
    rw [hsplit]
    exact List.mem_append_left _ (List.mem_reverse.mp hy)
  have hnot := List.mem_takeWhile_imp hmem
  rw [hq] at hnot
  cases hnot

/-- How many have satisfied `p` after the last that satisfied `q`. -/
def countSince (p q : α → Bool) (l : List α) : ℕ :=
  l.foldl (fun n x => if q x then 0 else if p x then n + 1 else n) 0

theorem countSince_concat : countSince p q (l ++ [x]) =
    if q x then 0 else if p x then countSince p q l + 1 else countSince p q l := by
  simp [countSince]

theorem countSince_append {l' : List α} (h : ∀ x ∈ l', q x = false) :
    countSince p q (l ++ l') = countSince p q l + l'.countP p := by
  induction l' generalizing l with
  | nil => simp
  | cons x l' ih =>
    obtain ⟨hx, hl'⟩ := List.forall_mem_cons.mp h
    rw [← List.singleton_append, ← List.append_assoc, ih hl', countSince_concat, List.countP_append,
      List.countP_singleton, hx]
    cases p x with
    | true => simp [Nat.add_assoc]
    | false => simp

theorem countSince_append_le {l' : List α} (h : ∀ x ∈ l', p x = false) :
    countSince p q (l ++ l') ≤ countSince p q l := by
  induction l' generalizing l with
  | nil => simp
  | cons x l' ih =>
    obtain ⟨hx, hl'⟩ := List.forall_mem_cons.mp h
    rw [← List.singleton_append, ← List.append_assoc]
    refine (ih hl').trans ?_
    rw [countSince_concat, hx]
    split <;> simp

/-- The count stays within a bound while things are added that do not both count and reset. -/
theorem countSince_le_of_append {l' : List α} {n : ℕ}
    (hbound : ∀ l₁ l₂, l = l₁ ++ l₂ → countSince p q l₁ ≤ n)
    (hend : countSince p q (l ++ l') ≤ n)
    (h : (∀ x ∈ l', p x = false) ∨ ∀ x ∈ l', q x = false) :
    ∀ l₁ l₂, l ++ l' = l₁ ++ l₂ → countSince p q l₁ ≤ n := by
  intro l₁ l₂ hsplit
  rcases List.append_eq_append_iff.mp hsplit with ⟨more, rfl, rfl⟩ | ⟨rest, rfl, -⟩
  · rcases h with hcounts | hresets
    · have hmore := countSince_append_le (q := q) (l := l) (List.forall_mem_append.mp hcounts).1
      exact hmore.trans (hbound l [] (List.append_nil l).symm)
    · rw [countSince_append hresets, List.countP_append] at hend
      rw [countSince_append (List.forall_mem_append.mp hresets).1]
      omega
  · exact hbound l₁ rest rfl

end Since

/-- The only element that passes a test is where the list is split at it. -/
theorem eq_of_append_cons {α : Type} {p : α → Prop} {pre post before after : List α} {x e : α}
    (hpre : ∀ y ∈ pre, ¬ p y) (hpost : ∀ y ∈ post, ¬ p y) (he : p e)
    (h : pre ++ x :: post = before ++ e :: after) : before = pre ∧ e = x ∧ after = post := by
  rcases List.append_eq_append_iff.mp h with ⟨middle, rfl, hmiddle⟩ | ⟨middle, rfl, hmiddle⟩
  · cases middle with
    | nil =>
      obtain ⟨rfl, rfl⟩ := List.cons.inj hmiddle
      exact ⟨List.append_nil _, rfl, rfl⟩
    | cons head middle =>
      obtain ⟨-, rfl⟩ := List.cons.inj hmiddle
      exact absurd he (hpost e (by simp))
  · cases middle with
    | nil =>
      obtain ⟨rfl, rfl⟩ := List.cons.inj hmiddle
      exact ⟨(List.append_nil _).symm, rfl, rfl⟩
    | cons head middle =>
      obtain ⟨rfl, -⟩ := List.cons.inj hmiddle
      exact absurd he (hpre e (by simp))

/-- A list is split at the element that a test was run on. -/
theorem eq_append_of_any {α : Type} {l : List α} {i : ℕ} {p : α → Bool}
    (h : (l[i]?).any p = true) : ∃ x, l = l.take i ++ x :: l.drop (i + 1) ∧ p x = true := by
  cases hx : l[i]? with
  | none =>
    rw [hx] at h
    cases h
  | some x =>
    rw [hx] at h
    obtain ⟨hi, rfl⟩ := List.getElem?_eq_some_iff.mp hx
    exact ⟨l[i], by rw [List.getElem_cons_drop, List.take_append_drop], h⟩

/-- A search that the filter does not hinder. -/
theorem find?_filter_of_imp {α : Type} {p q : α → Bool} :
    ∀ {l : List α}, (∀ x ∈ l, q x = true → p x = true) → (l.filter p).find? q = l.find? q
  | [], _ => rfl
  | x :: l, h => by
    obtain ⟨hx, hl⟩ := List.forall_mem_cons.mp h
    have ih := find?_filter_of_imp hl
    cases hq : q x with
    | true => simp [hx hq, hq]
    | false =>
      rw [List.filter_cons, List.find?_cons, hq]
      split
      · rw [List.find?_cons, hq, ih]
      · exact ih

end Lib
