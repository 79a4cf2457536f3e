import Graphrun.Engine.Contents
import Graphrun.Engine.Trace
import Graphrun.Lib.Climb

/-!
# The tree of scopes

Scopes hang from activations and activations lie in scopes; a scope runs the region that is
found by climbing to the root of its run and coming down again through the nodes of the
activations passed. `Tree` says that this works out for every scope. It is kept by events that
are `Placed`: a new scope hangs from an activation whose node has a body for it, a new
activation lies in a scope of its run, and neither takes an identity in use. What a scope runs
and where an activation stands then never changes as long as its run is kept.
-/

namespace Graphrun

open Lib

variable {env : Env} {o : Enumeration} {s s' : Core} {e : DomainEvent} {k : ScopeId}
  {region : Region} {sc : ScopeState} {a : ActivationId} {act : ActivationState} {run : RunId}

/-! ## Regions -/

/-- The scope in which the activation lies that a scope hangs from, if it is there. -/
def scopeAbove (s : Core) (k : ScopeId) : Option ScopeId :=
  (((s.scopes.lookup k).bind (·.role.activation?)).bind fun a =>
    (s.activations.lookup a).map (·.scope)).filter fun above => (s.scopes.lookup above).isSome

/-- The region that a scope runs. -/
inductive RegionAt (s : Core) : ScopeId → Region → Prop
  | root {k : ScopeId} {sc : ScopeState} {run : RunState} (hscope : s.scopes.lookup k = some sc)
      (hrun : s.runs.lookup sc.run = some run) (hrole : sc.role.activation? = none) :
      RegionAt s k run.definition.root
  | body {k : ScopeId} {sc : ScopeState} {run : RunState} {a : ActivationId}
      {act : ActivationState} {above region : Region} {node : Node}
      (hscope : s.scopes.lookup k = some sc) (hrun : s.runs.lookup sc.run = some run)
      (hrole : sc.role.activation? = some a) (hact : s.activations.lookup a = some act)
      (habove : RegionAt s act.scope above) (hnode : above.node? act.node = some node)
      (hbody : bodyRegion sc.role node = some region) : RegionAt s k region

theorem regionAt_of_lookupRegion {fuel : Nat} (h : lookupRegion s fuel k = some region) :
    RegionAt s k region := by
  induction fuel generalizing k region with
  | zero => cases h
  | succ fuel ih =>
    simp only [lookupRegion, Option.bind_eq_bind, Option.bind_eq_some_iff] at h
    obtain ⟨sc, hscope, run, hrun, h⟩ := h
    cases hrole : sc.role.activation? with
    | none =>
      simp only [hrole, Option.some.injEq] at h
      exact h ▸ .root hscope hrun hrole
    | some a =>
      simp only [hrole, Option.bind_eq_some_iff] at h
      obtain ⟨act, hact, above, habove, node, hnode, hbody⟩ := h
      exact .body hscope hrun hrole hact (ih habove) hnode hbody

theorem RegionAt.unique {region' : Region} (h : RegionAt s k region) (h' : RegionAt s k region') :
    region = region' := by
  induction h generalizing region' with
  | root hscope hrun hrole =>
    cases h' with
    | root hscope' hrun' _ =>
      obtain rfl := Option.mem_unique hscope hscope'
      obtain rfl := Option.mem_unique hrun hrun'
      rfl
    | body hscope' _ hrole' =>
      obtain rfl := Option.mem_unique hscope hscope'
      rw [hrole] at hrole'
      cases hrole'
  | body hscope hrun hrole hact _ hnode hbody ih =>
    cases h' with
    | root hscope' _ hrole' =>
      obtain rfl := Option.mem_unique hscope hscope'
      rw [hrole] at hrole'
      cases hrole'
    | body hscope' _ hrole' hact' habove' hnode' hbody' =>
      obtain rfl := Option.mem_unique hscope hscope'
      obtain rfl := Option.mem_unique hrole hrole'
      obtain rfl := Option.mem_unique hact hact'
      obtain rfl := ih habove'
      obtain rfl := Option.mem_unique hnode hnode'
      exact Option.mem_unique hbody hbody'

theorem RegionAt.scope (h : RegionAt s k region) :
    ∃ sc, s.scopes.lookup k = some sc := by
  cases h with
  | root hscope => exact ⟨_, hscope⟩
  | body hscope => exact ⟨_, hscope⟩

theorem scopeAbove_eq {above : Region} (hscope : s.scopes.lookup k = some sc)
    (hrole : sc.role.activation? = some a) (hact : s.activations.lookup a = some act)
    (habove : RegionAt s act.scope above) :
    scopeAbove s k = some act.scope := by
  obtain ⟨sc', hsc'⟩ := habove.scope
  simp [scopeAbove, hscope, hrole, hact, hsc']

theorem RegionAt.grounded (h : RegionAt s k region) :
    ∃ n, Grounded (scopeAbove s) n k := by
  induction h with
  | root hscope _ hrole =>
    refine ⟨0, .root ?_⟩
    simp [scopeAbove, hscope, hrole]
  | body hscope _ hrole hact habove _ _ ih =>
    obtain ⟨n, hn⟩ := ih
    exact ⟨n + 1, .step (scopeAbove_eq hscope hrole hact habove) hn⟩

theorem height_lt {n : Nat} (hscope : s.scopes.lookup k = some sc)
    (h : Grounded (scopeAbove s) n k) : n < s.scopes.entries.length := by
  have hkeys : s.scopes.keys.length = s.scopes.entries.length := List.length_map _
  rw [← hkeys]
  refine h.lt_length (AList.mem_keys.mp (AList.lookup_isSome.mp (by simp [hscope]))) ?_
  intro k k' _ hup
  rw [scopeAbove, Option.filter_eq_some_iff] at hup
  exact AList.mem_keys.mp (AList.lookup_isSome.mp hup.2)

theorem lookupRegion_of_regionAt (h : RegionAt s k region) :
    ∀ n fuel, Grounded (scopeAbove s) n k → n < fuel → lookupRegion s fuel k = some region := by
  induction h with
  | root hscope hrun hrole =>
    intro n fuel _ hfuel
    obtain ⟨fuel, rfl⟩ := Nat.exists_eq_add_one_of_ne_zero (Nat.ne_of_gt (Nat.zero_lt_of_lt hfuel))
    simp [lookupRegion, hscope, hrun, hrole]
  | @body k sc run a act above region node hscope hrun hrole hact habove hnode hbody ih =>
    intro n fuel hn hfuel
    obtain ⟨fuel, rfl⟩ := Nat.exists_eq_add_one_of_ne_zero (Nat.ne_of_gt (Nat.zero_lt_of_lt hfuel))
    have hup := scopeAbove_eq hscope hrole hact habove
    cases hn with
    | root h => rw [hup] at h; cases h
    | @step n _ _ h rest =>
      obtain rfl := Option.mem_unique hup h
      have habove := ih n fuel rest (by omega)
      simp [lookupRegion, hscope, hrun, hrole, hact, habove, hnode, hbody]

/-- The fuel of `regionForScope` is always enough. -/
theorem regionForScope_iff :
    regionForScope s k = some region ↔ RegionAt s k region := by
  refine ⟨regionAt_of_lookupRegion, fun h => ?_⟩
  obtain ⟨n, hn⟩ := h.grounded
  obtain ⟨sc, hscope⟩ := h.scope
  exact lookupRegion_of_regionAt h n _ hn (height_lt hscope hn)

theorem nodeOf_iff {key : NodeKey} {node : Node} :
    nodeOf s k key = some node ↔ ∃ region, RegionAt s k region ∧ region.node? key = some node := by
  simp only [nodeOf, Option.bind_eq_some_iff, regionForScope_iff]

/-- A scope tree that hangs together. An open activation is not that of an activity, which is
ready from the start. -/
structure Tree (s : Core) : Prop where
  keyed : Keyed s
  placed : ∀ a act, s.activations.lookup a = some act →
    ∃ sc, s.scopes.lookup act.scope = some sc ∧ sc.run = act.run
  parent : ∀ k sc, s.scopes.lookup k = some sc → sc.parent = sc.role.activation?
  hung : ∀ k sc a act, s.scopes.lookup k = some sc → sc.parent = some a →
    s.activations.lookup a = some act → act.run = sc.run
  region : ∀ k sc, s.scopes.lookup k = some sc → ∃ region, RegionAt s k region
  working : ∀ a act region node, s.activations.lookup a = some act → act.status = .open →
    RegionAt s act.scope region → region.node? act.node = some node → node.isActivity = false

namespace Tree

variable (tree : Tree s)

include tree

/-- What hangs from an activation is found with the activation. -/
theorem parent_exists (hscope : s.scopes.lookup k = some sc) (hparent : sc.parent = some a) :
    ∃ act, s.activations.lookup a = some act ∧ act.run = sc.run := by
  obtain ⟨region, hregion⟩ := tree.region k sc hscope
  have hrole : sc.role.activation? = some a := (tree.parent k sc hscope).symm.trans hparent
  cases hregion with
  | root hscope' _ hrole' =>
    obtain rfl := Option.mem_unique hscope hscope'
    rw [hrole'] at hrole
    cases hrole
  | body hscope' _ hrole' hact =>
    obtain rfl := Option.mem_unique hscope hscope'
    obtain rfl := Option.mem_unique hrole hrole'
    exact ⟨_, hact, tree.hung k sc _ _ hscope hparent hact⟩

end Tree

/-! ## What stays -/

/-- The parts of a run that never change are the same in a second state. -/
structure Keeps (run : RunId) (s s' : Core) : Prop where
  runs : ∀ r, s.runs.lookup run = some r →
    ∃ r', s'.runs.lookup run = some r' ∧ r'.definition = r.definition ∧ r'.catalog = r.catalog
  scopes : ∀ k sc, s.scopes.lookup k = some sc → sc.run = run →
    ∃ sc', s'.scopes.lookup k = some sc' ∧ sc'.run = sc.run ∧ sc'.parent = sc.parent ∧
      sc'.role = sc.role ∧ sc'.input = sc.input
  activations : ∀ a act, s.activations.lookup a = some act → act.run = run →
    ∃ act', s'.activations.lookup a = some act' ∧ act'.run = act.run ∧ act'.scope = act.scope ∧
      act'.node = act.node ∧ act'.role = act.role

theorem Keeps.refl (run : RunId) (s : Core) : Keeps run s s where
  runs r h := ⟨r, h, rfl, rfl⟩
  scopes _ sc h _ := ⟨sc, h, rfl, rfl, rfl, rfl⟩
  activations _ act h _ := ⟨act, h, rfl, rfl, rfl, rfl⟩

theorem Keeps.trans {a b c : Core} (h : Keeps run a b) (h' : Keeps run b c) :
    Keeps run a c where
  runs r hr := by
    obtain ⟨r', hr', hd, hc⟩ := h.runs r hr
    obtain ⟨r'', hr'', hd', hc'⟩ := h'.runs r' hr'
    exact ⟨r'', hr'', hd'.trans hd, hc'.trans hc⟩
  scopes k sc hk hrun := by
    obtain ⟨sc', hk', h₁, h₂, h₃, h₄⟩ := h.scopes k sc hk hrun
    obtain ⟨sc'', hk'', h₁', h₂', h₃', h₄'⟩ := h'.scopes k sc' hk' (h₁.trans hrun)
    exact ⟨sc'', hk'', h₁'.trans h₁, h₂'.trans h₂, h₃'.trans h₃, h₄'.trans h₄⟩
  activations a act ha hrun := by
    obtain ⟨act', ha', h₁, h₂, h₃, h₄⟩ := h.activations a act ha hrun
    obtain ⟨act'', ha'', h₁', h₂', h₃', h₄'⟩ := h'.activations a act' ha' (h₁.trans hrun)
    exact ⟨act'', ha'', h₁'.trans h₁, h₂'.trans h₂, h₃'.trans h₃, h₄'.trans h₄⟩

theorem Tree.regionAt_keeps (tree : Tree s) (keeps : Keeps run s s') (h : RegionAt s k region)
    (hscope : s.scopes.lookup k = some sc) (hrun : sc.run = run) : RegionAt s' k region := by
  induction h generalizing sc with
  | root hscope' hrun' hrole =>
    obtain rfl := Option.mem_unique hscope hscope'
    obtain ⟨sc', hsc', hrun'', -, hrole', -⟩ := keeps.scopes _ _ hscope hrun
    obtain ⟨r', hr', hdefinition, -⟩ := keeps.runs _ (hrun ▸ hrun')
    rw [← hdefinition]
    exact .root hsc' (by rw [hrun'', hrun, hr']) (by rw [hrole', hrole])
  | @body k sc₀ r a act above region node hscope' hrun' hrole hact _ hnode hbody ih =>
    obtain rfl := Option.mem_unique hscope hscope'
    obtain ⟨sc', hsc', hrun'', -, hrole', -⟩ := keeps.scopes _ _ hscope hrun
    obtain ⟨r', hr', -, -⟩ := keeps.runs _ (hrun ▸ hrun')
    have hparent : sc.parent = some a := (tree.parent _ _ hscope).trans hrole
    have hown : act.run = run := (tree.hung _ _ _ _ hscope hparent hact).trans hrun
    obtain ⟨act', hact', -, hplace, hkey, -⟩ := keeps.activations _ _ hact hown
    obtain ⟨above', habove', habovRun⟩ := tree.placed _ _ hact
    have hregion := ih habove' (habovRun.trans hown)
    exact .body hsc' (by rw [hrun'', hrun, hr']) (by rw [hrole', hrole]) hact'
      (by rw [hplace]; exact hregion) (by rw [hkey, hnode]) (by rw [hrole', hbody])

/-! ## Placing events -/

/-- What an event needs in order to keep the tree. -/
def Placed (s : Core) : DomainEvent → Prop
  | .scopeOpened run scope parent role _ => s.scopes.lookup scope = none ∧
    parent = role.activation? ∧ (∃ r, s.runs.lookup run = some r) ∧
    ∀ a, parent = some a → ∃ act node, s.activations.lookup a = some act ∧ act.run = run ∧
      nodeOf s act.scope act.node = some node ∧ (bodyRegion role node).isSome = true
  | .activationOpened run scope a _ => s.activations.lookup a = none ∧
    ∃ sc, s.scopes.lookup scope = some sc ∧ sc.run = run
  | .compensationStarted run saga _ a _ _ _ _ => s.activations.lookup a = none ∧
    ∃ act, s.activations.lookup saga = some act ∧ act.run = run
  | _ => True

theorem RunState.after_definition (s : Core) (e : DomainEvent) (k : RunId) (r : RunState) :
    (r.after s e k).definition = r.definition ∧ (r.after s e k).catalog = r.catalog := by
  cases e <;> first
    | exact ⟨rfl, rfl⟩
    | (simp only [RunState.after]; split <;> exact ⟨rfl, rfl⟩)

theorem newScope_eq_some {new : ScopeState} (h : newScope e = some new) :
    ∃ run scope parent role input, e = .scopeOpened run scope parent role input ∧
      new = { id := scope, run, parent, role, input, status := .open, outputs := []
              current := none } := by
  cases e <;> cases h
  exact ⟨_, _, _, _, _, rfl, rfl⟩

/-- An event keeps what never changes. -/
theorem Placed.scope (placed : Placed s e) (hk : s.scopes.lookup k = some sc) :
    (evolve s e).scopes.lookup k = some (sc.after e k) := by
  rw [lookup_scopes_evolve, scopeAfter]
  split
  · next new hnew =>
    obtain ⟨hnew, hid⟩ := Option.filter_eq_some_iff.mp hnew
    obtain ⟨_, _, _, _, _, rfl, rfl⟩ := newScope_eq_some hnew
    obtain rfl : _ = k := by simpa using hid
    rw [placed.1] at hk
    cases hk
  · rw [hk]
    rfl

theorem Placed.activation (placed : Placed s e) (ha : s.activations.lookup a = some act) :
    (evolve s e).activations.lookup a = some (act.after s e a) := by
  rw [lookup_activations_evolve, activationAfter]
  split
  · next new hnew =>
    obtain ⟨hnew, hid⟩ := Option.filter_eq_some_iff.mp hnew
    have hid : new.id = a := by simpa using hid
    cases e <;> simp only [newActivation, reduceCtorEq] at hnew
    · obtain ⟨_, -, rfl⟩ := Option.map_eq_some_iff.mp hnew
      obtain rfl := hid
      rw [placed.1] at ha
      cases ha
    · obtain ⟨_, -, hnew⟩ := Option.bind_eq_some_iff.mp hnew
      obtain ⟨_, -, rfl⟩ := Option.map_eq_some_iff.mp hnew
      obtain rfl := hid
      rw [placed.1] at ha
      cases ha
  · rw [ha]
    rfl

theorem keeps_evolve (placed : Placed s e) (run : RunId) : Keeps run s (evolve s e) where
  runs r hr := by
    obtain ⟨hd, hc⟩ := RunState.after_definition s e run r
    exact ⟨r.after s e run, by rw [lookup_runs_evolve, hr]; rfl, hd, hc⟩
  scopes k sc hk _ := ⟨sc.after e k, placed.scope hk, rfl, rfl, rfl, rfl⟩
  activations a act ha _ := ⟨act.after s e a, placed.activation ha, rfl, rfl, rfl, rfl⟩

/-- A scope that an event finds or opens. -/
theorem scope_after_cases (h : (evolve s e).scopes.lookup k = some sc) :
    (∃ old, s.scopes.lookup k = some old ∧ sc = old.after e k) ∨
      ∃ run parent role input, e = .scopeOpened run k parent role input ∧
        sc = { id := k, run, parent, role, input, status := .open, outputs := []
               current := none } := by
  rw [lookup_scopes_evolve, scopeAfter] at h
  split at h
  · next new hnew =>
    obtain ⟨hnew, hid⟩ := Option.filter_eq_some_iff.mp hnew
    obtain ⟨run, scope, parent, role, input, rfl, rfl⟩ := newScope_eq_some hnew
    obtain rfl : scope = k := by simpa using hid
    exact .inr ⟨run, parent, role, input, rfl, (Option.some.inj h).symm⟩
  · obtain ⟨old, hold, rfl⟩ := Option.map_eq_some_iff.mp h
    exact .inl ⟨old, hold, rfl⟩

theorem lookup_opened_scope (s : Core) (run : RunId) (scope : ScopeId)
    (parent : Option ActivationId) (role : ScopeRole) (input : Value) :
    (evolve s (.scopeOpened run scope parent role input)).scopes.lookup scope =
      some { id := scope, run, parent, role, input, status := .open, outputs := []
             current := none } := by
  rw [lookup_scopes_evolve, scopeAfter]
  simp [newScope, Option.filter]

/-- An activation that an event finds or opens. -/
theorem activation_after_cases (h : (evolve s e).activations.lookup a = some act) :
    (∃ old, s.activations.lookup a = some old ∧ act = old.after s e a) ∨
      (∃ run scope node, e = .activationOpened run scope a node ∧ act.id = a ∧ act.run = run ∧
        act.scope = scope ∧ act.node = node ∧ act.role = .forward ∧ act.claim = none ∧
        act.status = if isActivityNode s scope node then .ready else .open) ∨
      (∃ run saga forward handler version input error scope,
        e = .compensationStarted run saga forward a handler version input error ∧
        compensationScope s run saga = some scope ∧ act.id = a ∧ act.run = run ∧
        act.scope = scope ∧ act.node = "__compensate" ∧ act.role = .compensation ∧
        act.claim = none ∧ act.status = .ready) := by
  rw [lookup_activations_evolve, activationAfter] at h
  split at h
  · next new hnew =>
    obtain ⟨hnew, hid⟩ := Option.filter_eq_some_iff.mp hnew
    have hid : new.id = a := by simpa using hid
    obtain rfl := Option.some.inj h
    refine .inr ?_
    cases e <;> simp only [newActivation, reduceCtorEq] at hnew
    · obtain ⟨_, -, rfl⟩ := Option.map_eq_some_iff.mp hnew
      obtain rfl := hid
      exact .inl ⟨_, _, _, rfl, rfl, rfl, rfl, rfl, rfl, rfl, rfl⟩
    · obtain ⟨scope, hscope, hnew⟩ := Option.bind_eq_some_iff.mp hnew
      obtain ⟨_, -, rfl⟩ := Option.map_eq_some_iff.mp hnew
      obtain rfl := hid
      exact .inr ⟨_, _, _, _, _, _, _, scope, rfl, hscope, rfl, rfl, rfl, rfl, rfl, rfl, rfl⟩
  · obtain ⟨old, hold, rfl⟩ := Option.map_eq_some_iff.mp h
    exact .inl ⟨old, hold, rfl⟩

theorem statusAfter_eq_open (h : statusAfter s e a act = .open) : act.status = .open := by
  unfold statusAfter at h
  split at h <;> first
    | exact h
    | (split at h <;> first | exact h | cases h)
    | (split at h <;> [split at h <;> cases h; exact h])

/-- Placed events keep the tree. -/
theorem Tree.evolve (tree : Tree s) (placed : Placed s e) : Tree (evolve s e) := by
  have keeps := keeps_evolve placed
  refine ⟨tree.keyed.evolve e, ?_, ?_, ?_, ?_, ?_⟩
  · intro a act ha
    rcases activation_after_cases ha with ⟨old, hold, rfl⟩ |
      ⟨run, scope, node, rfl, -, hrun, hscope, -⟩ |
      ⟨run, saga, _, _, _, _, _, scope, rfl, hcomp, -, hrun, hscope, -⟩
    · obtain ⟨sc, hsc, hrun⟩ := tree.placed a old hold
      obtain ⟨sc', hsc', hrun', -⟩ := (keeps sc.run).scopes _ sc hsc rfl
      exact ⟨sc', hsc', hrun'.trans hrun⟩
    · obtain ⟨-, sc, hsc, hsc_run⟩ := placed
      obtain ⟨sc', hsc', hrun', -⟩ := (keeps sc.run).scopes _ sc hsc rfl
      exact ⟨sc', by rw [hscope]; exact hsc', by rw [hrun', hrun, hsc_run]⟩
    · obtain ⟨-, sagaAct, hsaga, hsagaRun⟩ := placed
      simp only [compensationScope, hsaga, Option.some.injEq] at hcomp
      obtain ⟨sc, hsc, hsc_run⟩ := tree.placed saga sagaAct hsaga
      obtain ⟨sc', hsc', hrun', -⟩ := (keeps sc.run).scopes _ sc hsc rfl
      refine ⟨sc', by rw [hscope, ← hcomp]; exact hsc', ?_⟩
      rw [hrun', hrun, hsc_run, hsagaRun]
  · intro k sc hk
    rcases scope_after_cases hk with ⟨old, hold, rfl⟩ | ⟨run, parent, role, input, rfl, rfl⟩
    · exact tree.parent k old hold
    · exact placed.2.1
  · intro k sc a act hk hparent ha
    rcases scope_after_cases hk with ⟨old, hold, rfl⟩ | ⟨run, parent, role, input, rfl, rfl⟩
    · obtain ⟨oldAct, holdAct, -⟩ := tree.parent_exists hold hparent
      obtain ⟨act', hact', hrun, -⟩ := (keeps oldAct.run).activations _ oldAct holdAct rfl
      obtain rfl := Option.mem_unique ha hact'
      exact hrun.trans (tree.hung k old a oldAct hold hparent holdAct)
    · obtain ⟨parentAct, node, hparentAct, hrun, -⟩ := placed.2.2.2 a hparent
      obtain ⟨act', hact', hrun', -⟩ := (keeps parentAct.run).activations _ parentAct hparentAct rfl
      obtain rfl := Option.mem_unique ha hact'
      exact hrun'.trans hrun
  · intro k sc hk
    rcases scope_after_cases hk with ⟨old, hold, rfl⟩ | ⟨run, parent, role, input, rfl, rfl⟩
    · obtain ⟨region, hregion⟩ := tree.region k old hold
      exact ⟨region, tree.regionAt_keeps (keeps old.run) hregion hold rfl⟩
    · obtain ⟨-, hparent, ⟨r, hr⟩, hacts⟩ := placed
      obtain ⟨r', hr', -⟩ := (keeps run).runs r hr
      cases hrole : role.activation? with
      | none => exact ⟨_, .root hk hr' hrole⟩
      | some a =>
        obtain ⟨act, node, hact, hrun, hnode, hbody⟩ := hacts a (hparent.trans hrole)
        obtain ⟨above, habove, hnode⟩ := nodeOf_iff.mp hnode
        obtain ⟨sc₀, hsc₀, hsc₀_run⟩ := tree.placed a act hact
        have habove' := tree.regionAt_keeps (keeps sc₀.run) habove hsc₀ rfl
        obtain ⟨act', hact', -, hplace, hkey, -⟩ := (keeps act.run).activations _ act hact rfl
        obtain ⟨region, hregion⟩ := Option.isSome_iff_exists.mp hbody
        exact ⟨region, .body hk hr' hrole hact' (by rw [hplace]; exact habove')
          (by rw [hkey]; exact hnode) hregion⟩
  · intro a act region node ha hopen hregion hnode
    rcases activation_after_cases ha with ⟨old, hold, rfl⟩ |
      ⟨run, scope, key, rfl, -, -, rfl, rfl, -, -, hstatus⟩ |
      ⟨_, _, _, _, _, _, _, _, rfl, -, -, -, -, -, -, -, hstatus⟩
    · obtain ⟨sc, hsc, -⟩ := tree.placed a old hold
      obtain ⟨region₀, hregion₀⟩ := tree.region _ sc hsc
      obtain rfl := (tree.regionAt_keeps (keeps sc.run) hregion₀ hsc rfl).unique hregion
      exact tree.working a old _ node hold (statusAfter_eq_open hopen) hregion₀ hnode
    · obtain ⟨-, sc, hsc, -⟩ := placed
      obtain ⟨region₀, hregion₀⟩ := tree.region _ sc hsc
      obtain rfl := (tree.regionAt_keeps (keeps sc.run) hregion₀ hsc rfl).unique hregion
      have hnodeOf : nodeOf s act.scope act.node = some node :=
        nodeOf_iff.mpr ⟨_, hregion₀, hnode⟩
      rw [hopen] at hstatus
      by_contra hactivity
      simp [isActivityNode, hnodeOf, hactivity] at hstatus
    · rw [hopen] at hstatus
      cases hstatus

/-- A change that no decision makes keeps the runs that it leaves. -/
theorem keeps_quiet (change : Quiet s s') {r : RunState} (hrun : s'.runs.lookup run = some r) :
    Keeps run s s' := by
  cases change with
  | @admitted new _ _ _ hnew =>
    refine { Keeps.refl run s with runs := fun r hr => ⟨r, ?_, rfl, rfl⟩ }
    rw [Table.lookup_insert_eq, if_neg, hr]
    rintro rfl
    rw [hnew] at hr
    cases hr
  | @stamped stamped time =>
    refine { Keeps.refl run s with runs := fun r hr => ?_ }
    simp only [Core.modifyRun, Table.lookup_modify, hr]
    split
    · exact ⟨_, rfl, rfl, rfl⟩
    · exact ⟨r, rfl, rfl, rfl⟩
  | dropped => exact { Keeps.refl run s with }
  | @retired gone _ _ _ =>
    have hne : run ≠ gone := by
      rintro rfl
      simp [dropRun] at hrun
    refine ⟨fun r hr => ⟨r, ?_, rfl, rfl⟩, fun k sc hk hown => ⟨sc, ?_, rfl, rfl, rfl, rfl⟩,
      fun a act ha hown => ⟨act, ?_, rfl, rfl, rfl, rfl⟩⟩
    · simp [dropRun, hne, hr]
    · simp [dropRun, Table.lookup_retain, hk, hown, hne]
    · simp [dropRun, Table.lookup_retain, ha, hown, hne]

theorem Tree.run_of_scope (tree : Tree s) (h : s.scopes.lookup k = some sc) :
    ∃ r, s.runs.lookup sc.run = some r := by
  obtain ⟨region, hregion⟩ := tree.region k sc h
  cases hregion with
  | root hscope hrun | body hscope hrun =>
    obtain rfl := Option.mem_unique h hscope
    exact ⟨_, hrun⟩

/-- Every scope and activation that is left belongs to a run that is left. -/
theorem quiet_run_of_scope (tree : Tree s) (change : Quiet s s')
    (h : s'.scopes.lookup k = some sc) : ∃ r, s'.runs.lookup sc.run = some r := by
  obtain ⟨r, hr⟩ := tree.run_of_scope (change.scopes h)
  cases change with
  | admitted =>
    rw [Table.lookup_insert_eq]
    split
    · exact ⟨_, rfl⟩
    · exact ⟨r, hr⟩
  | stamped =>
    simp only [Core.modifyRun, Table.lookup_modify, hr]
    split
    · exact ⟨_, rfl⟩
    · exact ⟨r, rfl⟩
  | dropped => exact ⟨r, hr⟩
  | retired =>
    rw [dropRun, Table.lookup_retain, Option.filter_eq_some_iff] at h
    have hne : sc.run ≠ _ := of_decide_eq_true h.2
    exact ⟨r, by simp [dropRun, hne, hr]⟩

theorem Tree.quiet (change : Quiet s s') (tree : Tree s) : Tree s' := by
  refine ⟨tree.keyed.quiet change, ?_, ?_, ?_, ?_, ?_⟩
  · intro a act ha
    obtain ⟨sc, hsc, hrun⟩ := tree.placed a act (change.activations ha)
    refine ⟨sc, ?_, hrun⟩
    cases change with
    | admitted | stamped | dropped => exact hsc
    | retired =>
      rw [dropRun, Table.lookup_retain, Option.filter_eq_some_iff] at ha
      have hne : act.run ≠ _ := of_decide_eq_true ha.2
      simp [dropRun, Table.lookup_retain, hsc, hrun, hne]
  · exact fun k sc hk => tree.parent k sc (change.scopes hk)
  · exact fun k sc a act hk hparent ha =>
      tree.hung k sc a act (change.scopes hk) hparent (change.activations ha)
  · intro k sc hk
    have hscope := change.scopes hk
    obtain ⟨region, hregion⟩ := tree.region k sc hscope
    obtain ⟨r, hr⟩ := quiet_run_of_scope tree change hk
    exact ⟨region, tree.regionAt_keeps (keeps_quiet change hr) hregion hscope rfl⟩
  · intro a act region node ha hopen hregion hnode
    have hact := change.activations ha
    obtain ⟨sc, hsc, -⟩ := tree.placed a act hact
    obtain ⟨region₀, hregion₀⟩ := tree.region _ sc hsc
    obtain ⟨sc', hsc'⟩ : ∃ sc', s'.scopes.lookup act.scope = some sc' := by
      cases hregion with
      | root hscope => exact ⟨_, hscope⟩
      | body hscope => exact ⟨_, hscope⟩
    obtain rfl := Option.mem_unique hsc (change.scopes hsc')
    obtain ⟨r, hr⟩ := quiet_run_of_scope tree change hsc'
    obtain rfl := (tree.regionAt_keeps (keeps_quiet change hr) hregion₀ hsc rfl).unique hregion
    exact tree.working a act _ node hact hopen hregion₀ hnode

end Graphrun
