import Graphrun.Model.History
import Mathlib.Data.List.Sort

/-!
# What retention selects

Retention takes the earliest of the records that are due. The loop keeps the candidates selected so
far on a heap and lets a candidate take the place of the latest one. What it leaves out is never
earlier than what it keeps (`Selected`), so the result is the beginning of the sorted candidates,
however they were ordered (`earliestDue_selects`).
-/

namespace Graphrun

variable {κ : Type} {lt : κ → κ → Bool} {a b c : Nat × κ} {heap seen : List (Nat × κ)} {limit : Nat}

/-- A strict total order. -/
structure StrictlyOrders {α : Type} (lt : α → α → Bool) : Prop where
  irrefl : ∀ a, lt a a = false
  trans : ∀ a b c, lt a b = true → lt b c = true → lt a c = true
  total : ∀ a b, lt a b = false → lt b a = false → a = b

/-! ## The orders of keys -/

theorem Id.strictlyOrders (k : IdKind) : StrictlyOrders (Id.lt (k := k)) where
  irrefl a := by simp [Id.lt]
  trans a b c h h' := by
    simp only [Id.lt, decide_eq_true_eq] at *
    exact lt_trans h h'
  total a b h h' := by
    simp only [Id.lt, decide_eq_false_iff_not, not_lt] at h h'
    obtain ⟨a⟩ := a
    obtain ⟨b⟩ := b
    exact congrArg _ (le_antisymm h' h)

theorem StrictlyOrders.candidateLt (order : StrictlyOrders lt) :
    StrictlyOrders (candidateLt lt) where
  irrefl a := by simp [Graphrun.candidateLt, order.irrefl]
  trans a b c h h' := by
    simp only [Graphrun.candidateLt, Bool.or_eq_true, Bool.and_eq_true, decide_eq_true_eq] at *
    rcases h with h | ⟨heq, h⟩ <;> rcases h' with h' | ⟨heq', h'⟩
    · exact .inl (h.trans h')
    · exact .inl (heq' ▸ h)
    · exact .inl (heq ▸ h')
    · exact .inr ⟨heq.trans heq', order.trans _ _ _ h h'⟩
  total a b h h' := by
    simp only [Graphrun.candidateLt, Bool.or_eq_false_iff, Bool.and_eq_false_iff,
      decide_eq_false_iff_not, not_lt] at h h'
    have hdue : a.1 = b.1 := le_antisymm h'.1 h.1
    exact Prod.ext hdue (order.total _ _ (h.2.resolve_left (not_not.mpr hdue))
      (h'.2.resolve_left (not_not.mpr hdue.symm)))

/-! ## The heap -/

/-- The first candidate is not later than the second. -/
def NotAfter (lt : κ → κ → Bool) (a b : Nat × κ) : Prop := candidateLt lt b a = false

instance : DecidableRel (NotAfter lt) := fun _ _ => inferInstanceAs (Decidable (_ = false))

theorem NotAfter.trans (order : StrictlyOrders lt) (h : NotAfter lt a b) (h' : NotAfter lt b c) :
    NotAfter lt a c := by
  by_contra hlater
  have hca : candidateLt lt c a = true := by simpa [NotAfter] using hlater
  cases hab : candidateLt lt a b with
  | false =>
    obtain rfl := order.candidateLt.total a b hab h
    exact hlater h'
  | true =>
    have hcb := order.candidateLt.trans c a b hca hab
    cases hcb.symm.trans h'

theorem NotAfter.of_lt (order : StrictlyOrders lt) (h : candidateLt lt a b = true) :
    NotAfter lt a b := by
  by_contra hlater
  have hba : candidateLt lt b a = true := by simpa [NotAfter] using hlater
  have haa := order.candidateLt.trans a b a h hba
  cases haa.symm.trans (order.candidateLt.irrefl a)

theorem heapPush_perm : (heapPush lt c heap).Perm (c :: heap) := by
  induction heap with
  | nil => exact .refl _
  | cons d rest ih =>
    unfold heapPush
    split
    · exact .refl _
    · exact (ih.cons d).trans (.swap ..)

/-- The greatest item stays in front. -/
theorem heapPush_descending (order : StrictlyOrders lt)
    (h : heap.Pairwise fun a b => NotAfter lt b a) :
    (heapPush lt c heap).Pairwise fun a b => NotAfter lt b a := by
  induction heap with
  | nil => exact List.pairwise_singleton _ _
  | cons d rest ih =>
    obtain ⟨hfirst, hrest⟩ := List.pairwise_cons.mp h
    unfold heapPush
    split
    · next hlt =>
      refine List.pairwise_cons.mpr ⟨fun x hx => ?_, h⟩
      have hd := NotAfter.of_lt order hlt
      rcases List.mem_cons.mp hx with rfl | hx
      · exact hd
      · exact (hfirst x hx).trans order hd
    · next hnot =>
      refine List.pairwise_cons.mpr ⟨fun x hx => ?_, ih hrest⟩
      rcases List.mem_cons.mp (heapPush_perm.subset hx) with rfl | hx
      · exact Bool.eq_false_iff.mpr hnot
      · exact hfirst x hx

/-! ## The loop -/

/-- What the heap holds of the candidates seen: the rest of them is not earlier, and there is none
while the heap has room. -/
structure Selected (lt : κ → κ → Bool) (limit : Nat) (seen heap : List (Nat × κ)) : Prop where
  descending : heap.Pairwise fun a b => NotAfter lt b a
  bounded : heap.length ≤ limit
  rest : ∃ left, (heap ++ left).Perm seen ∧ (∀ d ∈ left, ∀ x ∈ heap, NotAfter lt x d) ∧
    (heap.length < limit → left = [])

/-- One turn of the loop of `earliest_due`. -/
def select (lt : κ → κ → Bool) (limit : Nat) (heap : List (Nat × κ)) (candidate : Nat × κ) :
    List (Nat × κ) :=
  if heap.length < limit then heapPush lt candidate heap
  else
    match heap with
    | latest :: rest =>
      if candidateLt lt candidate latest then heapPush lt candidate rest else heap
    | [] => heap

theorem Selected.select (order : StrictlyOrders lt) (hlimit : limit ≠ 0)
    (h : Selected lt limit seen heap) (c : Nat × κ) :
    Selected lt limit (seen ++ [c]) (select lt limit heap c) := by
  obtain ⟨left, hperm, hlater, hroom⟩ := h.rest
  have hseen : (c :: (heap ++ left)).Perm (seen ++ [c]) :=
    (hperm.cons c).trans (List.perm_append_singleton c seen).symm
  unfold Graphrun.select
  split
  · next hlt =>
    obtain rfl := hroom hlt
    rw [List.append_nil] at hseen
    refine ⟨heapPush_descending order h.descending, ?_, [], ?_, List.forall_mem_nil _, fun _ => rfl⟩
    · rw [heapPush_perm.length_eq, List.length_cons]
      exact hlt
    · rw [List.append_nil]
      exact heapPush_perm.trans hseen
  · next hfull =>
    cases heap with
    | nil =>
      have hzero := h.bounded
      simp at hfull
      exact absurd hfull hlimit
    | cons latest rest =>
      obtain ⟨hlatest, hdescending⟩ := List.pairwise_cons.mp h.descending
      dsimp only
      split
      · next hlt =>
        -- The latest one leaves the heap, and is later than all that stay.
        have hlength : (heapPush lt c rest).length = (latest :: rest).length :=
          heapPush_perm.length_eq
        refine ⟨heapPush_descending order hdescending, hlength ▸ h.bounded, latest :: left, ?_, ?_,
          fun hroom' => absurd (hlength ▸ hroom') hfull⟩
        · refine ((heapPush_perm.append_right _).trans ?_).trans hseen
          exact .cons c List.perm_middle
        · intro d hd x hx
          have hbefore : NotAfter lt x latest := by
            rcases List.mem_cons.mp (heapPush_perm.subset hx) with rfl | hx
            · exact .of_lt order hlt
            · exact hlatest x hx
          rcases List.mem_cons.mp hd with rfl | hd
          · exact hbefore
          · exact hbefore.trans order (hlater d hd latest List.mem_cons_self)
      · next hnot =>
        have hc : NotAfter lt latest c := Bool.eq_false_iff.mpr hnot
        refine ⟨h.descending, h.bounded, c :: left, List.perm_middle.trans hseen, ?_,
          fun hroom' => absurd hroom' hfull⟩
        intro d hd x hx
        rcases List.mem_cons.mp hd with rfl | hd
        · rcases List.mem_cons.mp hx with rfl | hx
          · exact hc
          · exact (hlatest x hx).trans order hc
        · exact hlater d hd x hx

theorem Selected.foldl (order : StrictlyOrders lt) (hlimit : limit ≠ 0)
    (h : Selected lt limit seen heap) (candidates : List (Nat × κ)) :
    Selected lt limit (seen ++ candidates) (candidates.foldl (Graphrun.select lt limit) heap) := by
  induction candidates generalizing seen heap with
  | nil => rwa [List.append_nil]
  | cons c candidates ih =>
    have hrest := ih (h.select order hlimit c)
    rwa [List.append_assoc] at hrest

/-! ## The selection -/

theorem sorted_unique (order : StrictlyOrders lt) {sorted sorted' : List (Nat × κ)}
    (h : sorted.Pairwise (NotAfter lt)) (h' : sorted'.Pairwise (NotAfter lt))
    (hperm : sorted.Perm sorted') : sorted = sorted' :=
  hperm.eq_of_pairwise (fun a b _ _ hab hba => order.candidateLt.total a b hba hab) h h'

theorem exists_sorted (order : StrictlyOrders lt) (candidates : List (Nat × κ)) :
    ∃ sorted : List (Nat × κ), sorted.Perm candidates ∧ sorted.Pairwise (NotAfter lt) := by
  have htotal : Std.Total (NotAfter lt) := ⟨fun a b => by
    cases h : candidateLt lt b a with
    | false => exact .inl h
    | true => exact .inr (.of_lt order h)⟩
  have htrans : IsTrans _ (NotAfter lt) := ⟨fun _ _ _ h h' => h.trans order h'⟩
  exact ⟨candidates.insertionSort (NotAfter lt), List.perm_insertionSort _ _,
    List.pairwise_insertionSort _ _⟩

/-- The heap in ascending order is the beginning of the sorted candidates. -/
theorem Selected.take (order : StrictlyOrders lt) (h : Selected lt limit seen heap)
    {sorted : List (Nat × κ)} (hperm : sorted.Perm seen) (hsorted : sorted.Pairwise (NotAfter lt)) :
    heap.reverse = sorted.take limit := by
  obtain ⟨left, hleft, hlater, hroom⟩ := h.rest
  obtain ⟨tail, htail, htailSorted⟩ := exists_sorted order left
  have hwhole : sorted = heap.reverse ++ tail := by
    refine sorted_unique order hsorted (List.pairwise_append.mpr
      ⟨List.pairwise_reverse.mpr h.descending, htailSorted, fun x hx d hd => ?_⟩) ?_
    · exact hlater d (htail.subset hd) x (List.mem_reverse.mp hx)
    · exact hperm.trans (hleft.symm.trans ((List.reverse_perm heap).symm.append htail.symm))
  rw [hwhole]
  rcases h.bounded.lt_or_eq with hlt | heq
  · obtain rfl := hroom hlt
    rw [List.perm_nil.mp htail, List.append_nil, List.take_of_length_le]
    rw [List.length_reverse]
    exact h.bounded
  · rw [List.take_left']
    rw [List.length_reverse, heq]

theorem earliestDue_eq (order : StrictlyOrders lt) {candidates sorted : List (Nat × κ)}
    (hperm : sorted.Perm candidates) (hsorted : sorted.Pairwise (NotAfter lt)) (limit : Nat) :
    earliestDue lt candidates limit = (sorted.take limit).map (·.2) := by
  by_cases hlimit : limit = 0
  · simp [earliestDue, hlimit]
  · have hempty : Selected lt limit [] [] :=
      ⟨List.Pairwise.nil, Nat.zero_le _, [], .refl _, List.forall_mem_nil _, fun _ => rfl⟩
    have hselected := hempty.foldl order hlimit candidates
    rw [List.nil_append] at hselected
    rw [← hselected.take order hperm hsorted, earliestDue, if_neg hlimit]
    rfl

/-- The keys of the first candidates in sorted order, as many as the limit admits. The order in
which the candidates come does not matter, and a smaller limit selects the beginning of what a
larger one does. -/
theorem earliestDue_selects (order : StrictlyOrders lt) (candidates : List (Nat × κ)) :
    (∃ sorted : List (Nat × κ), sorted.Perm candidates ∧ sorted.Pairwise (NotAfter lt) ∧
      ∀ limit, earliestDue lt candidates limit =
        (sorted.take (min limit candidates.length)).map (·.2)) ∧
    (∀ candidates', candidates'.Perm candidates → ∀ limit,
      earliestDue lt candidates' limit = earliestDue lt candidates limit) ∧
    ∀ limit limit', limit ≤ limit' →
      earliestDue lt candidates limit <+: earliestDue lt candidates limit' := by
  obtain ⟨sorted, hperm, hsorted⟩ := exists_sorted order candidates
  refine ⟨⟨sorted, hperm, hsorted, fun limit => ?_⟩, fun candidates' hsame limit => ?_,
    fun limit limit' hle => ?_⟩
  · rw [earliestDue_eq order hperm hsorted, ← hperm.length_eq, List.take_eq_take_min]
  · rw [earliestDue_eq order hperm hsorted, earliestDue_eq order (hperm.trans hsame.symm) hsorted]
  · rw [earliestDue_eq order hperm hsorted, earliestDue_eq order hperm hsorted]
    exact (List.take_prefix_take_left hle).map _

/-- Three candidates under ids, two of them selected. -/
theorem threeDue_selected :
    earliestDue (Id.lt (k := .run)) [(7, ⟨1⟩), (5, ⟨3⟩), (5, ⟨2⟩)] 2 = [⟨2⟩, ⟨3⟩] ∧
      earliestDue (Id.lt (k := .run)) [(7, ⟨1⟩), (5, ⟨3⟩), (5, ⟨2⟩)] 1 <+:
        earliestDue (Id.lt (k := .run)) [(7, ⟨1⟩), (5, ⟨3⟩), (5, ⟨2⟩)] 2 :=
  ⟨by decide, (earliestDue_selects (Id.strictlyOrders _) _).2.2 1 2 (by decide)⟩

end Graphrun
