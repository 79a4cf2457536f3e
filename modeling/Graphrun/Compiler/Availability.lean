import Mathlib.Data.List.Chain
import Mathlib.Data.List.Perm.Subperm
import Graphrun.Model.Analyze
import Graphrun.Model.Eval

/-!
# Soundness of the availability analysis

`analyze_region` walks the region with a stack of keys, intersects what the edges into a node
carry, and checks the bindings of a node when its key is popped for the first time. The set a
node is checked against is therefore the intersection over the predecessors expanded so far.
The order in which the keys are expanded depends on the edges alone (`Region.expansions`). Along
a path on which every node is expanded before the next one is, a reference that passes the check
is available (`accepted_reference_left_behind`); a predecessor that comes too late is not asked
(`mergedWait_missing_output`).
-/

namespace Graphrun

open Lib

variable {region : Region} {key : NodeKey} {edge : Edge × NodeKey} {node : Node} {ctx : RegionCtx}
  {flow : Flow} {path : List (NodeKey × Edge)}

/-- The nodes passed on a way from the start of a region to a key, each with the edge it was
left by. -/
inductive Region.Path (region : Region) : List (NodeKey × Edge) → NodeKey → Prop
  | start : Region.Path region [] region.start
  | step {path : List (NodeKey × Edge)} {key target : NodeKey} {edge : Edge} :
      Region.Path region path key → (edge, target) ∈ region.outgoing key →
      Region.Path region (path ++ [(key, edge)]) target

/-! ## The order of expansion -/

/-- The keys that the work list expands, the latest first. -/
def popLoop (region : Region) : Nat → List NodeKey → List NodeKey → List NodeKey
  | 0, _, seen => seen
  | _ + 1, [], seen => seen
  | fuel + 1, key :: pending, seen =>
    if key ∈ seen then popLoop region fuel pending seen
    else popLoop region fuel (((region.outgoing key).map (·.2)).reverse ++ pending) (key :: seen)

/-- The keys of a region in the order in which the analysis expands them. -/
def Region.expansions (region : Region) : List NodeKey :=
  (popLoop region (2 * region.nodes.length + 2) [region.start] []).reverse

/-- Every node that a path passes is expanded before the next one. -/
def Region.PopsInOrder (region : Region) (path : List (NodeKey × Edge)) (n : NodeKey) : Prop :=
  (path.map (·.1) ++ [n]).IsChain fun q k =>
    region.expansions.idxOf q < region.expansions.idxOf k

instance {region : Region} {path : List (NodeKey × Edge)} {n : NodeKey} :
    Decidable (region.PopsInOrder path n) :=
  inferInstanceAs (Decidable (List.IsChain _ _))

/-- A path whose nodes stand in a given order. -/
inductive Region.Ordered (region : Region) (order : List NodeKey) :
    List (NodeKey × Edge) → NodeKey → Prop
  | start : Region.Ordered region order [] region.start
  | step {path : List (NodeKey × Edge)} {key target : NodeKey} {edge : Edge} :
      Region.Ordered region order path key → (edge, target) ∈ region.outgoing key →
      order.idxOf key < order.idxOf target →
      Region.Ordered region order (path ++ [(key, edge)]) target

theorem Region.Path.ordered (hpath : region.Path path key)
    (inOrder : region.PopsInOrder path key) : region.Ordered region.expansions path key := by
  induction hpath with
  | start => exact .start
  | @step path key target edge _ hedge ih =>
    have hchain : (path.map (·.1) ++ key :: [target]).IsChain fun q k =>
        region.expansions.idxOf q < region.expansions.idxOf k := by
      simpa [Region.PopsInOrder] using inOrder
    obtain ⟨hold, hbefore, -⟩ := List.isChain_append_cons_cons.mp hchain
    exact .step (ih hold) hedge hbefore

/-- A path to a key that is expanded last or before stands in the order without it. -/
theorem Region.Ordered.earlier {order : List NodeKey} {k : NodeKey} (hnew : key ∉ order)
    (h : region.Ordered (order ++ [key]) path k) (hk : k ∈ order ++ [key]) :
    region.Ordered order path k := by
  induction h with
  | start => exact .start
  | @step path q target edge _ hedge hbefore ih =>
    have hlast : order.idxOf key = order.length := List.idxOf_eq_length hnew
    by_cases hq : q ∈ order
    · refine .step (ih (List.mem_append_left _ hq)) hedge ?_
      rw [List.idxOf_append_of_mem hq] at hbefore
      rcases List.mem_append.mp hk with htarget | htarget
      · rwa [List.idxOf_append_of_mem htarget] at hbefore
      · rw [List.mem_singleton.mp htarget, hlast]
        exact List.idxOf_lt_length_of_mem hq
    · -- nothing comes after the last key
      exfalso
      rw [List.idxOf_append_of_notMem hq] at hbefore
      have htarget := List.idxOf_lt_length_of_mem hk
      simp only [List.length_append, List.length_singleton] at htarget
      omega

theorem mem_outgoing :
    edge ∈ region.outgoing key ↔ ∃ node, region.node? key = some node ∧ edge ∈ node.edges := by
  unfold Region.outgoing
  cases region.node? key with
  | none => simp
  | some node => simp

/-! ## What an edge carries -/

/-- The references that an edge hands to its target. -/
def carried (available : List Reference) (key : NodeKey) (node : Node) (edge : Edge) :
    List Reference :=
  match edge, successOutput key node with
  | .next, some output => output :: available
  | _, _ => available

theorem mem_carried {available : List Reference} {edge : Edge} {r : Reference} :
    r ∈ carried available key node edge ↔
      r ∈ available ∨ (edge = .next ∧ successOutput key node = some r) := by
  unfold carried
  split
  · next output hout =>
    rw [List.mem_cons, hout]
    constructor
    · rintro (rfl | hr)
      · exact .inr ⟨rfl, rfl⟩
      · exact .inl hr
    · rintro (hr | ⟨-, hr⟩)
      · exact .inr hr
      · exact .inl (Option.some.inj hr).symm
  · next hnot =>
    constructor
    · exact .inl
    · rintro (hr | ⟨rfl, hr⟩)
      · exact hr
      · exact absurd hr (hnot r rfl)

theorem successOutput_eq {r : Reference} (h : successOutput key node = some r) :
    r = .nodeOutput key := by
  cases node <;> simp_all [successOutput]

theorem carry_pending :
    (flow.carry ctx key node edge).pending = edge.2 :: flow.pending := rfl

theorem mapGet_carry {k : NodeKey} :
    mapGet (flow.carry ctx key node edge).atNode k =
      if k = edge.2 then
        some (((mapGet flow.atNode edge.2).getD
          (carried (flow.availableAt ctx key) key node edge.1)).filter
          fun r => r ∈ carried (flow.availableAt ctx key) key node edge.1)
      else mapGet flow.atNode k :=
  mapGet_mapInsert

/-! ## What a path leaves behind -/

/-- Node outputs among the given references were left behind on a path. -/
def LeftBehind (region : Region) (path : List (NodeKey × Edge)) (available : List Reference) :
    Prop :=
  ∀ m, .nodeOutput m ∈ available → (m, .next) ∈ path ∧
    ∃ producer, region.node? m = some producer ∧ successOutput m producer = some (.nodeOutput m)

theorem LeftBehind.mono {available fewer : List Reference}
    (h : LeftBehind region path available) (hsub : fewer ⊆ available) :
    LeftBehind region path fewer :=
  fun m hm => h m (hsub hm)

/-- Nothing that encloses a region is the output of one of its nodes. -/
theorem leftBehind_base (ctx : RegionCtx) : LeftBehind region path ctx.base := by
  intro m hm
  simp [RegionCtx.base] at hm

theorem LeftBehind.carried {available : List Reference} {edge : Edge}
    (h : LeftBehind region path available) (hnode : region.node? key = some node) :
    LeftBehind region (path ++ [(key, edge)]) (carried available key node edge) := by
  intro m hm
  rcases mem_carried.mp hm with hold | ⟨rfl, hout⟩
  · obtain ⟨hleft, hproducer⟩ := h m hold
    exact ⟨List.mem_append_left _ hleft, hproducer⟩
  · obtain rfl := Reference.nodeOutput.inj (successOutput_eq hout)
    exact ⟨by simp, node, hnode, hout⟩

/-! ## Expanding a key -/

/-- What holds of a flow after some of the edges of a key have been carried. -/
structure Carrying (ctx : RegionCtx) (key : NodeKey) (node : Node) (before : Flow)
    (done : List (Edge × NodeKey)) (flow : Flow) : Prop where
  seen_eq : flow.seen = before.seen
  pushed : flow.pending = (done.map (·.2)).reverse ++ before.pending
  shrinks : ∀ k entry, mapGet before.atNode k = some entry →
    ∃ entry', mapGet flow.atNode k = some entry' ∧ entry' ⊆ entry
  given : ∀ e k, (e, k) ∈ done → ∃ entry, mapGet flow.atNode k = some entry ∧
    entry ⊆ carried (before.availableAt ctx key) key node e

theorem carried_mono {available fewer : List Reference} {edge : Edge} (hsub : fewer ⊆ available) :
    carried fewer key node edge ⊆ carried available key node edge := fun _ hr =>
  mem_carried.mpr ((mem_carried.mp hr).imp_left fun h => hsub h)

theorem Carrying.carry {before : Flow} {done : List (Edge × NodeKey)} {own : List Reference}
    (carrying : Carrying ctx key node before done flow)
    (hown : mapGet before.atNode key = some own) :
    Carrying ctx key node before (done ++ [edge]) (flow.carry ctx key node edge) := by
  have havail : flow.availableAt ctx key ⊆ before.availableAt ctx key := by
    obtain ⟨entry, hentry, hsub⟩ := carrying.shrinks key own hown
    simpa [Flow.availableAt, hentry, hown] using hsub
  refine ⟨carrying.seen_eq, by simp [carry_pending, carrying.pushed], ?_, ?_⟩
  · intro k entry hentry
    obtain ⟨entry', hentry', hsub⟩ := carrying.shrinks k entry hentry
    rw [mapGet_carry]
    split
    · next hk =>
      subst hk
      exact ⟨_, rfl, fun r hr => hsub (by simpa [hentry'] using List.mem_of_mem_filter hr)⟩
    · exact ⟨entry', hentry', hsub⟩
  · intro e k he
    rw [mapGet_carry]
    rcases List.mem_append.mp he with he | he
    · obtain ⟨entry, hentry, hsub⟩ := carrying.given e k he
      split
      · next hk =>
        subst hk
        exact ⟨_, rfl, fun r hr => hsub (by simpa [hentry] using List.mem_of_mem_filter hr)⟩
      · exact ⟨entry, hentry, hsub⟩
    · obtain rfl := List.mem_singleton.mp he
      rw [if_pos rfl]
      refine ⟨_, rfl, fun r hr => carried_mono havail ?_⟩
      simpa using (List.mem_filter.mp hr).2

theorem Carrying.foldl {before : Flow} {done : List (Edge × NodeKey)} {own : List Reference}
    (carrying : Carrying ctx key node before done flow) (edges : List (Edge × NodeKey))
    (hown : mapGet before.atNode key = some own) :
    Carrying ctx key node before (done ++ edges)
      (edges.foldl (Flow.carry ctx key node) flow) := by
  induction edges generalizing done flow with
  | nil => simpa using carrying
  | cons edge rest ih =>
    have hrest := ih (carrying.carry hown : Carrying ctx key node before (done ++ [edge]) _)
    simpa using hrest

/-- Where there was an entry before, it has only become smaller. -/
theorem Carrying.availableAt_subset {before : Flow} {done : List (Edge × NodeKey)} {k : NodeKey}
    (carrying : Carrying ctx key node before done flow)
    (hfilled : ∃ entry, mapGet before.atNode k = some entry) :
    flow.availableAt ctx k ⊆ before.availableAt ctx k := by
  obtain ⟨entry, hentry⟩ := hfilled
  obtain ⟨entry', hentry', hsub⟩ := carrying.shrinks k entry hentry
  simpa [Flow.availableAt, hentry, hentry'] using hsub

/-! ## The work list -/

/-- The invariant of the work list. What a key was checked against was left behind on every
path in order; what a key that is still to be expanded will be checked against was left behind
on those that end in an expanded node. -/
structure Settled (region : Region) (ctx : RegionCtx) (flow : Flow) : Prop where
  filled : ∀ k, k = region.start ∨ k ∈ flow.pending ∨
    (∃ q ∈ flow.seen, ∃ e, (e, k) ∈ region.outgoing q) →
      ∃ entry, mapGet flow.atNode k = some entry
  entered : ∀ k ∉ flow.seen, ∀ path, region.Ordered flow.seen.reverse path k →
    LeftBehind region path (flow.availableAt ctx k)
  checked : ∀ k ∈ flow.seen, ∃ node, region.node? k = some node ∧
    ∃ available, checkBindings node available ctx = .ok () ∧
      ∀ path, region.Ordered flow.seen.reverse path k → LeftBehind region path available

/-- The flow with which the analysis starts. -/
def Flow.initial (region : Region) (ctx : RegionCtx) : Flow where
  pending := [region.start]
  seen := []
  atNode := [(region.start, ctx.base)]

theorem settled_initial : Settled region ctx (.initial region ctx) := by
  refine ⟨?_, fun k _ path hpath => ?_, by simp [Flow.initial]⟩
  · rintro k (rfl | hk | ⟨q, hq, -⟩)
    · exact ⟨ctx.base, by simp [Flow.initial, mapGet]⟩
    · obtain rfl := List.mem_singleton.mp hk
      exact ⟨ctx.base, by simp [Flow.initial, mapGet]⟩
    · cases hq
  · have havail : (Flow.initial region ctx).availableAt ctx k = ctx.base := by
      by_cases hk : region.start = k <;> simp [Flow.initial, Flow.availableAt, mapGet, hk]
    rw [havail]
    exact leftBehind_base ctx

theorem Settled.skip {pending : List NodeKey} (settled : Settled region ctx flow)
    (hpending : flow.pending = key :: pending) :
    Settled region ctx { flow with pending } := by
  refine ⟨fun k hk => settled.filled k ?_, settled.entered, settled.checked⟩
  refine hk.imp_right (Or.imp_left fun h => ?_)
  rw [hpending]
  exact List.mem_cons_of_mem _ h

/-- After the edges of a key, an entry is there that was there before or that one of them makes. -/
theorem Settled.filled_after {after : Flow} {pending : List NodeKey} {k : NodeKey}
    (settled : Settled region ctx flow) (hpending : flow.pending = key :: pending)
    (hnode : region.node? key = some node)
    (carrying : Carrying ctx key node { flow with pending, seen := key :: flow.seen } node.edges
      after)
    (hk : k = region.start ∨ k ∈ after.pending ∨
      ∃ q ∈ after.seen, ∃ e, (e, k) ∈ region.outgoing q) :
    ∃ entry, mapGet after.atNode k = some entry := by
  have hcases : (∃ e, (e, k) ∈ node.edges) ∨ k = region.start ∨ k ∈ flow.pending ∨
      ∃ q ∈ flow.seen, ∃ e, (e, k) ∈ region.outgoing q := by
    rcases hk with rfl | hk | ⟨q, hq, e, he⟩
    · exact .inr (.inl rfl)
    · rw [carrying.pushed, List.mem_append, List.mem_reverse, List.mem_map] at hk
      rcases hk with ⟨⟨e, _⟩, he, rfl⟩ | hk
      · exact .inl ⟨e, he⟩
      · exact .inr (.inr (.inl (by simp [hpending, hk])))
    · rw [carrying.seen_eq] at hq
      rcases List.mem_cons.mp hq with rfl | hq
      · obtain ⟨found, hfound, he⟩ := mem_outgoing.mp he
        obtain rfl := Option.mem_unique hnode hfound
        exact .inl ⟨e, he⟩
      · exact .inr (.inr (.inr ⟨q, hq, e, he⟩))
  rcases hcases with ⟨e, he⟩ | hold
  · obtain ⟨entry, hentry, -⟩ := carrying.given e k he
    exact ⟨entry, hentry⟩
  · obtain ⟨entry, hentry⟩ := settled.filled k hold
    obtain ⟨entry', hentry', -⟩ := carrying.shrinks k entry hentry
    exact ⟨entry', hentry'⟩

theorem Settled.expand {pending : List NodeKey} (settled : Settled region ctx flow)
    (hpending : flow.pending = key :: pending) (hnew : key ∉ flow.seen)
    (hnode : region.node? key = some node)
    (hcheck : checkBindings node (flow.availableAt ctx key) ctx = .ok ()) :
    Settled region ctx (node.edges.foldl (Flow.carry ctx key node)
      { flow with pending, seen := key :: flow.seen }) := by
  obtain ⟨own, hown⟩ := settled.filled key (.inr (.inl (by simp [hpending])))
  have start : Carrying ctx key node { flow with pending, seen := key :: flow.seen } []
      { flow with pending, seen := key :: flow.seen } :=
    ⟨rfl, rfl, fun k entry h => ⟨entry, h, List.Subset.refl _⟩, by simp⟩
  have carrying := start.foldl node.edges hown
  rw [List.nil_append] at carrying
  generalize node.edges.foldl (Flow.carry ctx key node)
    { flow with pending, seen := key :: flow.seen } = after at carrying ⊢
  have horder : after.seen.reverse = flow.seen.reverse ++ [key] := by simp [carrying.seen_eq]
  have hmem : ∀ k, k ∈ after.seen ↔ k = key ∨ k ∈ flow.seen := by simp [carrying.seen_eq]
  have hearlier : ∀ {k path}, k ∈ after.seen → region.Ordered after.seen.reverse path k →
      region.Ordered flow.seen.reverse path k := by
    intro k path hk hpath
    rw [horder] at hpath
    exact hpath.earlier (by simpa using hnew) (by simpa [or_comm] using (hmem k).mp hk)
  refine ⟨fun k hk => ?_, fun k hk path hpath => ?_, fun k hk => ?_⟩
  · exact settled.filled_after hpending hnode carrying hk
  · have hold : k ∉ flow.seen := fun h => hk ((hmem k).mpr (.inr h))
    cases hpath with
    | start =>
      exact (settled.entered _ hold _ .start).mono
        (carrying.availableAt_subset (settled.filled _ (.inl rfl)))
    | @step path q _ edge hpath hedge hbefore =>
      have hq : q ∈ after.seen := by
        rw [← List.mem_reverse]
        exact List.idxOf_lt_length_iff.mp (hbefore.trans_le List.idxOf_le_length)
      have hprefix := hearlier hq hpath
      rcases (hmem q).mp hq with rfl | hseen
      · obtain ⟨found, hfound, hedge⟩ := mem_outgoing.mp hedge
        obtain rfl := Option.mem_unique hnode hfound
        obtain ⟨entry, hentry, hsub⟩ := carrying.given edge k hedge
        refine ((settled.entered q hnew path hprefix).carried hnode).mono ?_
        simpa [Flow.availableAt, hentry] using hsub
      · have hfilled := settled.filled k (.inr (.inr ⟨q, hseen, edge, hedge⟩))
        refine (settled.entered k hold _ (.step hprefix hedge ?_)).mono
          (carrying.availableAt_subset hfilled)
        have hlength : flow.seen.reverse.idxOf k = flow.seen.reverse.length :=
          List.idxOf_eq_length (by simpa using hold)
        rw [hlength]
        exact List.idxOf_lt_length_of_mem (by simpa using hseen)
  · rcases (hmem k).mp hk with rfl | hseen
    · exact ⟨node, hnode, _, hcheck, fun path hpath =>
        settled.entered _ hnew path (hearlier hk hpath)⟩
    · obtain ⟨found, hfound, available, hchecked, hleft⟩ := settled.checked k hseen
      exact ⟨found, hfound, available, hchecked, fun path hpath =>
        hleft path (hearlier hk hpath)⟩

/-- What popping a known key and expanding a new one keep, the work list keeps. -/
theorem flowLoop_keeps {P : Flow → Prop}
    (skip : ∀ {flow key pending}, P flow → flow.pending = key :: pending →
      P { flow with pending })
    (expand : ∀ {flow key pending node}, P flow → flow.pending = key :: pending →
      key ∉ flow.seen → region.node? key = some node →
      checkBindings node (flow.availableAt ctx key) ctx = .ok () →
      P (node.edges.foldl (Flow.carry ctx key node)
        { flow with pending, seen := key :: flow.seen })) (fuel : Nat) :
    ∀ {flow after : Flow}, P flow →
      flowLoop region ctx fuel flow = .ok after → P after := by
  induction fuel with
  | zero =>
    intro flow after hp h
    simp only [flowLoop, pure_eq_ok] at h
    exact h ▸ hp
  | succ fuel ih =>
    intro flow after hp h
    unfold flowLoop at h
    split at h
    · simp only [pure_eq_ok] at h
      exact h ▸ hp
    · next key pending hpending =>
      split at h
      · exact ih (skip hp hpending) h
      · next hnew =>
        simp only [bind_eq_ok, okOr_eq_ok] at h
        obtain ⟨node, hnode, ⟨⟩, hcheck, h⟩ := h
        exact ih (expand hp hpending hnew hnode hcheck) h

theorem foldl_carry_seen (edges : List (Edge × NodeKey)) :
    ∀ {flow : Flow}, (edges.foldl (Flow.carry ctx key node) flow).seen = flow.seen := by
  induction edges with
  | nil => exact rfl
  | cons edge rest ih => exact ih.trans rfl

/-- The loop of an accepted region ends with every node expanded, each after its bindings have
been checked. -/
theorem expanded_of_accepted (accepted : analyzeRegion region ctx = .ok ()) :
    ∃ flow, flowLoop region ctx (2 * region.nodes.length + 2) (.initial region ctx) = .ok flow ∧
      ∀ k node, region.node? k = some node → k ∈ flow.seen ∧
        ∃ available, checkBindings node available ctx = .ok () := by
  simp only [analyzeRegion, bind_eq_ok, refuseIf_eq_ok, ne_eq, not_not] at accepted
  obtain ⟨-, -, -, -, flow, hflow, hlength⟩ := accepted
  have hexpanded : flow.seen.Nodup ∧ ∀ q ∈ flow.seen, ∃ node, region.node? q = some node ∧
      ∃ available, checkBindings node available ctx = .ok () := by
    refine flowLoop_keeps (P := fun flow => flow.seen.Nodup ∧ ∀ q ∈ flow.seen, ∃ node,
      region.node? q = some node ∧ ∃ available, checkBindings node available ctx = .ok ())
      (fun hp _ => hp) ?_ _ ⟨List.nodup_nil, by simp⟩ hflow
    rintro flow key pending node ⟨hnodup, hchecked⟩ _ hnew hnode hcheck
    rw [foldl_carry_seen]
    refine ⟨List.nodup_cons.mpr ⟨hnew, hnodup⟩, List.forall_mem_cons.mpr ⟨?_, hchecked⟩⟩
    exact ⟨node, hnode, _, hcheck⟩
  obtain ⟨hnodup, hchecked⟩ := hexpanded
  have hkeys : flow.seen ⊆ region.nodes.map (·.1) := by
    intro k hk
    obtain ⟨node, hnode, -⟩ := hchecked k hk
    exact mem_keys_of_mapGet hnode
  -- as many distinct keys as there are nodes: all of them
  have hperm : flow.seen.Perm (region.nodes.map (·.1)) :=
    (List.subperm_of_subset hnodup hkeys).perm_of_length_le (by rw [List.length_map, hlength])
  refine ⟨flow, hflow, fun k node hnode => ?_⟩
  have hk : k ∈ flow.seen := hperm.mem_iff.mpr (mem_keys_of_mapGet hnode)
  obtain ⟨found, hfound, hcheck⟩ := hchecked k hk
  obtain rfl := Option.mem_unique hnode hfound
  exact ⟨hk, hcheck⟩

theorem foldl_carry_pending (edges : List (Edge × NodeKey)) :
    ∀ {flow : Flow}, (edges.foldl (Flow.carry ctx key node) flow).pending =
      (edges.map (·.2)).reverse ++ flow.pending := by
  induction edges with
  | nil => simp
  | cons edge rest ih => simp [ih, carry_pending]

/-- The order of expansion does not depend on what is available. -/
theorem flowLoop_seen (fuel : Nat) : ∀ {flow after : Flow},
    flowLoop region ctx fuel flow = .ok after →
      after.seen = popLoop region fuel flow.pending flow.seen := by
  induction fuel with
  | zero =>
    intro flow after h
    rw [← pure_eq_ok.mp h, popLoop]
  | succ fuel ih =>
    intro flow after h
    unfold flowLoop at h
    split at h
    · next hpending =>
      rw [← pure_eq_ok.mp h, hpending, popLoop]
    · next key pending hpending =>
      rw [hpending, popLoop]
      split at h
      · next hseen =>
        rw [if_pos hseen]
        exact ih h
      · next hnew =>
        simp only [bind_eq_ok, okOr_eq_ok] at h
        obtain ⟨node, hnode, ⟨⟩, -, h⟩ := h
        rw [if_neg hnew, ih h, foldl_carry_seen, foldl_carry_pending, Region.outgoing, hnode]
        rfl

/-! ## Soundness -/

theorem nodeOutput_mem_of_checkBindings {available : List Reference} {binding : Binding}
    {m : NodeKey} (h : checkBindings node available ctx = .ok ()) (hb : binding ∈ node.bindings)
    (hm : .nodeOutput m ∈ binding.references) : .nodeOutput m ∈ available := by
  have hbinding := forM_eq_ok.mp h binding hb
  simp only [checkBinding, bind_eq_ok] at hbinding
  obtain ⟨-, -, hrefs⟩ := hbinding
  have href := forM_eq_ok.mp hrefs _ hm
  simpa [checkReference] using href

/-- The outputs that a path leaves behind are in the context. -/
def EvalCtx.Follows (ectx : EvalCtx) (region : Region) (path : List (NodeKey × Edge)) : Prop :=
  ∀ k producer, (k, .next) ∈ path → region.node? k = some producer →
    successOutput k producer = some (.nodeOutput k) → (mapGet ectx.nodeOutputs k).isSome

/-- In an accepted region, whatever node output a binding refers to was produced on every way
to its node on which the nodes are expanded in order. -/
theorem accepted_reference_left_behind {region : Region} {ctx : RegionCtx}
    (accepted : analyzeRegion region ctx = .ok ())
    {path : List (NodeKey × Edge)} {n m : NodeKey} {node : Node} {binding : Binding}
    (hpath : region.Path path n) (inOrder : region.PopsInOrder path n)
    (hnode : region.node? n = some node) (hb : binding ∈ node.bindings)
    (hm : .nodeOutput m ∈ binding.references) :
    (m, .next) ∈ path ∧
    (∃ producer, region.node? m = some producer ∧
      successOutput m producer = some (.nodeOutput m)) ∧
    ∀ ectx : EvalCtx, ectx.Follows region path → ∃ v, evalRef ectx (.nodeOutput m) = .ok v := by
  obtain ⟨flow, hflow, hall⟩ := expanded_of_accepted accepted
  have settled : Settled region ctx flow :=
    flowLoop_keeps Settled.skip Settled.expand _ settled_initial hflow
  have horder : region.expansions = flow.seen.reverse := by
    rw [flowLoop_seen _ hflow]
    rfl
  obtain ⟨found, hfound, available, hcheck, hleft⟩ := settled.checked n (hall n node hnode).1
  obtain rfl := Option.mem_unique hnode hfound
  obtain ⟨hleft, producer, hproducer, hout⟩ := hleft path (horder ▸ hpath.ordered inOrder) m
    (nodeOutput_mem_of_checkBindings hcheck hb hm)
  refine ⟨hleft, ⟨producer, hproducer, hout⟩, ?_⟩
  intro ectx hfollows
  obtain ⟨v, hv⟩ := Option.isSome_iff_exists.mp (hfollows m producer hleft hproducer hout)
  exact ⟨v, okOr_eq_ok.mpr hv⟩

/-- A context that holds the outputs of the given nodes. -/
def outputsOf (keys : List NodeKey) : EvalCtx where
  workflowInput := .null
  scopeInput := .null
  scopeId := ""
  nodeOutputs := keys.map fun key => (key, .null)
  loopState := none
  loopIndex := none
  itemValue := none
  itemIndex := none

/-- A region of a wait and what its branches lead to. -/
def waitRegion (start afterSignal afterTimeout : NodeKey) (others : List (String × Node)) :
    Region where
  path := []
  inputSchema := .null
  outputSchema := .null
  start := start
  nodes := others ++
    [("wait", .waitSignal "go" (.literal .null) (some 1) .buffered afterSignal (some afterTimeout))]

/-- An activity that leads to the given node. -/
def leadsTo (next : NodeKey) : Node :=
  .activity ⟨"work", 1⟩ (.literal .null) none .forwardDefault none next

/-- Both branches lead to `done`, which takes the output of the timeout branch. -/
def mergedWait : Region := waitRegion "wait" "a" "b" [
  ("a", leadsTo "done"), ("b", leadsTo "done"), ("done", .complete (.from (.nodeOutput "b") none))]

/-- The timeout branch is popped first, so that `done` is checked before the signal branch is
known to reach it. -/
theorem mergedWait_missing_output :
    analyzeRegion mergedWait { inputSchema := .null, outputSchema := .null } = .ok () ∧
    mergedWait.Path [("wait", .next), ("a", .next)] "done" ∧
    mergedWait.node? "done" = some (.complete (.from (.nodeOutput "b") none)) ∧
    ("b", Edge.next) ∉ [("wait", Edge.next), ("a", .next)] ∧
    (outputsOf ["wait", "a"]).Follows mergedWait [("wait", .next), ("a", .next)] ∧
    evalRef (outputsOf ["wait", "a"]) (.nodeOutput "b") = .error (invalid "missing output b") := by
  refine ⟨ok_of_toOption (by decide +kernel), ?_, rfl, by decide, ?_, rfl⟩
  · have hwait : mergedWait.Path ([] ++ [("wait", .next)]) "a" :=
      .step .start (mem_outgoing.mpr ⟨_, rfl, by simp [Node.edges]⟩)
    exact .step hwait (mem_outgoing.mpr ⟨_, rfl, by simp [Node.edges, leadsTo]⟩)
  · intro k producer hk _ _
    simp only [List.mem_cons, Prod.mk.injEq, and_true, List.not_mem_nil, or_false] at hk
    rcases hk with rfl | rfl <;> rfl

/-- The signal leads to `done` and the timeout to `q` before it; `done` takes what came before
the wait. -/
def rejoinedWait : Region := waitRegion "pre" "done" "q" [
  ("done", .complete (.from (.nodeOutput "pre") none)), ("pre", leadsTo "wait"),
  ("q", leadsTo "done")]

/-- Both ways to `done` pass `pre`, and both branches are expanded before it. -/
theorem rejoinedWait_output :
    rejoinedWait.Path [("pre", .next), ("wait", .next)] "done" ∧
    ("pre", Edge.next) ∈ [("pre", Edge.next), ("wait", .next)] ∧
    ∃ v, evalRef (outputsOf ["pre", "wait"]) (.nodeOutput "pre") = .ok v := by
  have accepted :
      analyzeRegion rejoinedWait { inputSchema := .null, outputSchema := .null } = .ok () :=
    ok_of_toOption (by decide +kernel)
  have hpre : rejoinedWait.Path ([] ++ [("pre", .next)]) "wait" :=
    .step .start (mem_outgoing.mpr ⟨_, rfl, by simp [Node.edges, leadsTo]⟩)
  have hpath : rejoinedWait.Path [("pre", .next), ("wait", .next)] "done" :=
    .step hpre (mem_outgoing.mpr ⟨_, rfl, by simp [Node.edges]⟩)
  obtain ⟨hleft, -, heval⟩ := accepted_reference_left_behind accepted hpath (by decide +kernel)
    (m := "pre") rfl (List.mem_singleton.mpr rfl) (List.mem_singleton.mpr rfl)
  refine ⟨hpath, hleft, heval _ ?_⟩
  intro k producer hk _ _
  simp only [List.mem_cons, Prod.mk.injEq, and_true, List.not_mem_nil, or_false] at hk
  rcases hk with rfl | rfl <;> rfl

end Graphrun
