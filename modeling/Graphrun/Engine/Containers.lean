import Graphrun.Engine.Producers

/-!
# What a container does its own part on

The state in which a container opens another child (`Opens`), records a guard or records its
output (`Finishes`). A loop, a `choose` or a saga goes on from the child that it opened last, a
`foreach` and a `parallel` from the results recorded for them.
-/

namespace Graphrun

open Lib

variable {env : Env} {o : Enumeration} {s : Core} {time : Nat} {ids ids' : IdGen}
  {es : List DomainEvent} {act : ActivationState} {node : Node} {error : FailError} {body : Region}
  {a : ActivationId} {state : Binding} {next : NodeKey}

def ScopeStatus.isCompleted : ScopeStatus → Bool
  | .completed _ => true
  | _ => false

/-- The value of a binding in the scope of an activation. -/
def Evaluates (s : Core) (act : ActivationState) (binding : Binding) (value : Value) : Prop :=
  ∃ scope ctx, s.scopes.lookup act.scope = some scope ∧ evalCtx s scope = .ok ctx ∧
    evalBinding ctx binding = .ok value

/-- The child that an activation looks at has completed, if there is one. -/
def LastDone (o : Enumeration) (s : Core) (a : ActivationId) : Prop :=
  ∀ child, childOf o s a = some child → child.status.isCompleted = true

/-- The counter that a loop carries is not above an index. -/
def CarriesUpTo (s : Core) (a : ActivationId) (i : Nat) : Prop :=
  ∀ v n, s.loopCarry.lookup a = some (v, n) → n ≤ i

/-- The loops that record guards. -/
def Node.isGuarded : Node → Bool
  | .while .. | .doWhile .. => true
  | _ => false

/-- Open children of an activation. -/
def OpenChildren (s : Core) (a : ActivationId) (ks : List ScopeId) : Prop :=
  ks.Nodup ∧ ∀ k ∈ ks, ∃ sc, s.scopes.lookup k = some sc ∧ sc.parent = some a ∧ sc.status = .open

/-- The state in which a `foreach` opens a child for an item. -/
structure OpensItem (s : Core) (act : ActivationState) (items : Binding) (maxConcurrency i : Nat)
    (input : Value) : Prop where
  listed : ∃ list, Evaluates s act items (.array list) ∧ list[i]? = some input
  unfailed : ∀ k sc error, s.scopes.lookup k = some sc → sc.parent = some act.id →
    sc.status ≠ .failed error
  room : ∀ ks, OpenChildren s act.id ks → ks.length < maxConcurrency

/-- The output of a `foreach`: the results of all items in order. -/
def Gathers (s : Core) (act : ActivationState) (items : Binding) (output : Value) : Prop :=
  ∃ list out, Evaluates s act items (.array list) ∧ output = .array out ∧
    out.length = list.length ∧
    (list = [] ∨ ((s.foreachDone.lookup act.id).getD []).length = list.length) ∧
    ∀ i v, out[i]? = some v → (i, v) ∈ (s.foreachDone.lookup act.id).getD []

/-- The state in which a node opens a child of the given role. -/
inductive Opens (o : Enumeration) (s : Core) (act : ActivationState) (input : Value) :
    Node → ScopeRole → Prop
  | guarded {node : Node} {i : Nat} (hnode : node.isGuarded = true)
      (hlast : LastDone o s act.id) (hindex : CarriesUpTo s act.id i) :
      Opens o s act input node (.loopBody act.id i)
  | repeated {count state schema maxIterations body next} {i : Nat} {c : Int}
      (hlast : LastDone o s act.id) (hindex : CarriesUpTo s act.id i)
      (hcount : Evaluates s act count (.int c))
      (hgoes : c ≠ 0 ∨ ∃ carried, s.loopCarry.lookup act.id = some carried) :
      Opens o s act input (.repeat count state schema maxIterations body next) (.loopBody act.id i)
  | item {items schema maxItems maxConcurrency body next} {i : Nat}
      (hopens : OpensItem s act items maxConcurrency i input)
      (hnew : ∀ k sc, s.scopes.lookup k = some sc → sc.parent = some act.id →
        sc.role ≠ .foreachItem act.id i) :
      Opens o s act input (.foreach items schema maxItems maxConcurrency body next)
        (.foreachItem act.id i)
  | branch {branches next} {name : String}
      (hnew : ∀ k sc, s.scopes.lookup k = some sc → sc.parent = some act.id →
        sc.role ≠ .parallelBranch act.id name) :
      Opens o s act input (.parallel branches next) (.parallelBranch act.id name)
  | case {binding cases_ default next} {name : String} (hnone : childOf o s act.id = none) :
      Opens o s act input (.choose binding cases_ default next) (.chooseBody act.id name)
  | body {binding body next} (hnone : childOf o s act.id = none) :
      Opens o s act input (.saga binding body next) (.sagaBody act.id)

/-- The state in which a node records its output. -/
def Finishes (o : Enumeration) (s : Core) (act : ActivationState) (output : Value) : Node → Prop
  | .while .. | .doWhile .. | .choose .. | .saga .. => LastDone o s act.id
  | .repeat count .. => LastDone o s act.id ∨
    (Evaluates s act count (.int 0) ∧ CarriesUpTo s act.id 0)
  | .foreach items .. => Gathers s act items output
  | .parallel branches _ => ((s.parallelDone.lookup act.id).getD []).length = branches.length
  | _ => True

/-! ## Loops -/

/-- Without an open child, an activation looks at one with the highest index. -/
theorem childOf_max {child other : ScopeState} (h : childOf o s a = some child)
    (hclosed : child.status ≠ .open) (hother : other ∈ childrenOf o s a) :
    childIndex other ≤ childIndex child := by
  simp only [childOf] at h
  split at h
  · next found hfound =>
    obtain rfl := Option.some.inj h
    exact absurd (by simpa using List.find?_some hfound) hclosed
  · have htotal : Std.Total fun a b : ScopeState => childIndex a ≤ childIndex b :=
      ⟨fun a b => Nat.le_total _ _⟩
    have htrans : IsTrans ScopeState fun a b => childIndex a ≤ childIndex b :=
      ⟨fun a b c => Nat.le_trans⟩
    have hsorted := List.pairwise_insertionSort
      (fun a b : ScopeState => childIndex a ≤ childIndex b) (childrenOf o s a)
    have hmem := (List.perm_insertionSort (fun a b : ScopeState => childIndex a ≤ childIndex b)
      (childrenOf o s a)).mem_iff.mpr hother
    have hlast := hsorted.rel_getLast_of_rel_getLast_getLast hmem (Nat.le_refl _)
    rw [List.getLast?_eq_some_getLast (List.ne_nil_of_mem hmem)] at h
    rwa [Option.some.inj h] at hlast

/-- An activation that looks at no child has none. -/
theorem childOf_none (h : childOf o s a = none) : childrenOf o s a = [] := by
  simp only [childOf] at h
  split at h
  · cases h
  · have hempty := List.getLast?_eq_none_iff.mp h
    have hperm := List.perm_insertionSort (fun a b : ScopeState => childIndex a ≤ childIndex b)
      (childrenOf o s a)
    rw [hempty] at hperm
    exact hperm.nil_eq.symm

theorem lastDone_of_none (h : childOf o s a = none) : LastDone o s a := by
  intro child hchild
  rw [h] at hchild
  cases hchild

theorem lastDone_of_completed {child : ScopeState} {output : Value} (h : childOf o s a = some child)
    (hdone : child.status = .completed output) :
    LastDone o s a := by
  intro other hother
  obtain rfl := Option.mem_unique h hother
  rw [hdone]
  rfl

/-- The counter that a loop goes on from. -/
theorem carriesUpTo_of_loopCarryOf {ctx : EvalCtx} {carry : Value} {n : Nat}
    (h : loopCarryOf s act ctx state = .ok (carry, n)) : CarriesUpTo s act.id n := by
  intro v m hm
  simp only [loopCarryOf, hm, pure_eq_ok, Prod.mk.injEq] at h
  omega

theorem CarriesUpTo.mono {i j : Nat} (h : CarriesUpTo s a i) (hij : i ≤ j) :
    CarriesUpTo s a j :=
  fun v n hn => (h v n hn).trans hij

/-! ## Joins -/

/-- Among more indices than are taken, one that is free is found. -/
theorem nextIndex_free (taken : Nat → Bool) {l : List Nat} (htaken : ∀ i, taken i = true → i ∈ l) :
    ∀ fuel start, (∀ i < start, i ∈ l) → l.length ≤ start + fuel →
      taken (nextIndex taken fuel start) = false
  | 0, start, hbelow, hfuel => by
    -- All indices below `start` are taken, so there is no room for another one in the list.
    by_contra hstart
    have hmem : ∀ i ∈ List.range (start + 1), i ∈ l := by
      intro i hi
      rcases Nat.lt_or_eq_of_le (Nat.le_of_lt_succ (List.mem_range.mp hi)) with hlt | rfl
      · exact hbelow i hlt
      · exact htaken i (by simpa [nextIndex] using hstart)
    have hlength := (List.subperm_of_subset List.nodup_range hmem).length_le
    simp only [List.length_range] at hlength
    omega
  | fuel + 1, start, hbelow, hfuel => by
    unfold nextIndex
    split
    · next hstart =>
      refine nextIndex_free taken htaken fuel (start + 1) (fun i hi => ?_) (by omega)
      rcases Nat.lt_or_eq_of_le (Nat.le_of_lt_succ hi) with hlt | rfl
      · exact hbelow i hlt
      · exact htaken i hstart
    · next hstart => exact Bool.eq_false_iff.mpr hstart

/-- The index of the next item is not that of a child. -/
theorem nextIndex_not_mem (taken : List Nat) (done : List (Nat × Value)) :
    nextIndex (fun i => Decidable.decide (i ∈ taken) || foreachHas done i)
      (taken.length + done.length) 0 ∉ taken := by
  have hmem : ∀ i, (Decidable.decide (i ∈ taken) || foreachHas done i) = true →
      i ∈ taken ++ done.map Prod.fst := by
    intro i hi
    rw [List.mem_append, List.mem_map]
    simp only [Bool.or_eq_true, decide_eq_true_eq, foreachHas, List.any_eq_true] at hi
    exact hi
  have hfree := nextIndex_free _ hmem (taken.length + done.length) 0
    (fun i hi => absurd hi (Nat.not_lt_zero i)) (by simp)
  simp only [Bool.or_eq_false_iff, decide_eq_false_iff_not] at hfree
  exact hfree.1

/-- The open children are among those that are counted. -/
theorem OpenChildren.length_le {ks : List ScopeId} (h : OpenChildren s a ks) :
    ks.length ≤ (childrenOf o s a).countP fun child => child.status = .open := by
  have hsub : ks ⊆ ((o.pairs s.scopes).filter fun e => Decidable.decide (e.2.status = .open) &&
      Decidable.decide (e.2.parent = some a)).map (·.1) := by
    intro k hk
    obtain ⟨sc, hsc, hparent, hopen⟩ := h.2 k hk
    exact List.mem_map.mpr ⟨(k, sc), List.mem_filter.mpr
      ⟨Enumeration.mem_pairs.mpr hsc, by simp [hparent, hopen]⟩, rfl⟩
  have hle := (List.subperm_of_subset h.1 hsub).length_le
  rw [List.length_map, ← List.countP_eq_length_filter] at hle
  rw [childrenOf, List.countP_filter, Enumeration.values, List.countP_map]
  exact hle

theorem orderedItems_ok {done : List (Nat × Value)} {n : Nat} {out : List Value}
    (h : orderedItems done n = .ok out) :
    out.length = n ∧ ∀ i v, out[i]? = some v → (i, v) ∈ done := by
  induction n generalizing out with
  | zero =>
    obtain rfl := pure_eq_ok.mp h
    exact ⟨rfl, nofun⟩
  | succ n ih =>
    simp only [orderedItems, bind_eq_ok, okOr_eq_ok, pure_eq_ok] at h
    obtain ⟨earlier, hearlier, value, hvalue, rfl⟩ := h
    obtain ⟨hlength, hmem⟩ := ih hearlier
    refine ⟨by simp [hlength], fun i v hi => ?_⟩
    rw [List.getElem?_append, List.getElem?_singleton] at hi
    split at hi
    · exact hmem i v hi
    · split at hi
      · obtain rfl := Option.some.inj hi
        obtain ⟨e, he, rfl⟩ := Option.map_eq_some_iff.mp hvalue
        have hkey : e.1 = n := by simpa using List.find?_some he
        obtain rfl : i = e.1 := by omega
        exact List.mem_of_find?_eq_some he
      · cases hi

end Graphrun
