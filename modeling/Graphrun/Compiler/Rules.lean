import Graphrun.Model.Compile
import Graphrun.Publications.StartKeys

/-!
# What a published definition may be

A definition is checked twice: the compiler checks it while it builds it from a document, and the
publication checks what it is given. The second check goes over the regions of the definition in
preorder (`analyzeTree_eq_forM`) and looks at the graph of each and at the references in it, and
at nothing else: it takes an activity that no catalog knows, and it panics on a region whose start
node is missing (`strayDefinition_published`).

`validation_exact` says when the check panics, which of the rules an accepted definition meets,
and that what the compiler returns meets them all.
-/

namespace Graphrun

open Lib

/-! ## The regions of a definition -/

/-- A region with the context in which it is analysed and the levels that are left for it, its own
included. -/
structure Located where
  region : Region
  ctx : RegionCtx
  levels : Nat

mutual
/-- A region and those inside it, in the order in which `analyze_tree` comes to them. -/
def Region.within (ctx : RegionCtx) (levels : Nat) : Region → List Located
  | ⟨path, inputSchema, outputSchema, start, nodes⟩ =>
    ⟨⟨path, inputSchema, outputSchema, start, nodes⟩, ctx, levels⟩ ::
      Region.withinNodes ctx (levels - 1) nodes
def Region.withinNodes (ctx : RegionCtx) (levels : Nat) : List (String × Node) → List Located
  | [] => []
  | (_, node) :: rest => node.within ctx levels ++ Region.withinNodes ctx levels rest
def Node.within (ctx : RegionCtx) (levels : Nat) : Node → List Located
  | .while _ _ _ _ body _ | .doWhile _ _ _ _ body _ | .repeat _ _ _ _ body _ =>
    body.within { ctx.inside body with inLoop := true } levels
  | .foreach _ _ _ _ body _ => body.within { ctx.inside body with inForeach := true } levels
  | .saga _ body _ => body.within { ctx.inside body with inSaga := true } levels
  | .parallel branches _ => Region.withinBranches ctx levels branches
  | .choose _ cases default _ =>
    Region.withinCases ctx levels cases ++ default.within (ctx.inside default) levels
  | .activity .. | .delay .. | .waitUntil .. | .waitSignal .. | .complete _ | .fail _ => []
def Region.withinBranches (ctx : RegionCtx) (levels : Nat) : List ParallelBranch → List Located
  | [] => []
  | ⟨_, _, body⟩ :: rest =>
    body.within (ctx.inside body) levels ++ Region.withinBranches ctx levels rest
def Region.withinCases (ctx : RegionCtx) (levels : Nat) : List ChooseCase → List Located
  | [] => []
  | ⟨_, _, body⟩ :: rest =>
    body.within (ctx.inside body) levels ++ Region.withinCases ctx levels rest
end

/-- The regions of a definition. -/
def Definition.regions (definition : Definition) : List Located :=
  definition.root.within definition.rootCtx maxNesting

/-! ## The rules -/

def CompensationMeets (catalog : Catalog) (inSaga : Bool) : Option Compensation → Prop
  | none => True
  | some (.activity activity _ _ _) =>
    inSaga = true ∧ (mapGet catalog.activities activity).isSome = true
  | some (.irreversible _) => inSaga = true

/-- What the compiler enforces of a node, what is inside it left out. -/
def Node.Obeys (catalog : Catalog) (inSaga : Bool) : Node → Prop
  | .activity key _ _ _ compensation _ =>
    (mapGet catalog.activities key).isSome = true ∧ CompensationMeets catalog inSaga compensation
  | .waitSignal _ _ timeoutMs _ _ onTimeout => onTimeout.isSome = timeoutMs.isSome
  | .while _ _ _ maxIterations _ _ | .doWhile _ _ _ maxIterations _ _
  | .repeat _ _ _ maxIterations _ _ => 0 < maxIterations ∧ maxIterations ≤ maxLoopIterations
  | .foreach _ _ maxItems maxConcurrency _ _ =>
    (0 < maxItems ∧ maxItems ≤ maxLoopIterations) ∧
      0 < maxConcurrency ∧ maxConcurrency ≤ maxForeachConcurrency
  | .parallel branches _ =>
    (0 < branches.length ∧ branches.length ≤ maxParallelBranches) ∧ (branches.map (·.name)).Nodup
  | .choose _ cases _ _ => (cases.map (·.name)).Nodup
  | .saga .. | .delay .. | .waitUntil .. | .complete _ | .fail _ => True

/-- The start node of a region exists. -/
def Located.Started (r : Located) : Prop := (r.region.node? r.region.start).isSome = true

/-- The other rules of the compiler: the nesting and what it enforces of every node. -/
def Located.Obeys (catalog : Catalog) (r : Located) : Prop :=
  0 < r.levels ∧ ∀ e ∈ r.region.nodes, e.2.Obeys catalog r.ctx.inSaga

/-- The rules of the compiler, in every region of a definition. -/
def Definition.Meets (catalog : Catalog) (definition : Definition) : Prop :=
  ∀ r ∈ definition.regions, r.Started ∧ r.Obeys catalog

/-! ## The walk over the regions -/

/-- One step of the walk. -/
def Located.analyze (r : Located) : Result Unit := analyzeRegion r.region r.ctx

section Walk

variable {l l' : List Located}

theorem forM_append {x y : Result Unit} (hx : x = l.forM Located.analyze)
    (hy : y = l'.forM Located.analyze) :
    (do
      x
      y) = (l ++ l').forM Located.analyze := by
  subst hx hy
  exact List.forM_append.symm

mutual
theorem analyzeTree_eq_forM (ctx : RegionCtx) (levels : Nat) : ∀ region : Region,
    analyzeTree ctx region = (region.within ctx levels).forM Located.analyze
  | ⟨path, inputSchema, outputSchema, start, nodes⟩ => by
    rw [analyzeTree, Region.within, analyzeNodes_eq_forM ctx (levels - 1) nodes]
    rfl
theorem analyzeNodes_eq_forM (ctx : RegionCtx) (levels : Nat) : ∀ nodes : List (String × Node),
    analyzeNodes ctx nodes = (Region.withinNodes ctx levels nodes).forM Located.analyze
  | [] => rfl
  | (_, node) :: rest => by
    rw [analyzeNodes, Region.withinNodes]
    exact forM_append (analyzeNode_eq_forM ctx levels node) (analyzeNodes_eq_forM ctx levels rest)
theorem analyzeNode_eq_forM (ctx : RegionCtx) (levels : Nat) : ∀ node : Node,
    analyzeNode ctx node = (node.within ctx levels).forM Located.analyze
  | .while _ _ _ _ body _ | .doWhile _ _ _ _ body _ | .repeat _ _ _ _ body _ =>
    analyzeTree_eq_forM { ctx.inside body with inLoop := true } levels body
  | .foreach _ _ _ _ body _ =>
    analyzeTree_eq_forM { ctx.inside body with inForeach := true } levels body
  | .saga _ body _ => analyzeTree_eq_forM { ctx.inside body with inSaga := true } levels body
  | .parallel branches _ => analyzeBranches_eq_forM ctx levels branches
  | .choose _ cases default _ => by
    rw [analyzeNode, Node.within]
    exact forM_append (analyzeCases_eq_forM ctx levels cases)
      (analyzeTree_eq_forM (ctx.inside default) levels default)
  | .activity .. | .delay .. | .waitUntil .. | .waitSignal .. | .complete _ | .fail _ => rfl
theorem analyzeBranches_eq_forM (ctx : RegionCtx) (levels : Nat) :
    ∀ branches : List ParallelBranch, analyzeBranches ctx branches =
      (Region.withinBranches ctx levels branches).forM Located.analyze
  | [] => rfl
  | ⟨_, _, body⟩ :: rest => by
    rw [analyzeBranches, Region.withinBranches]
    exact forM_append (analyzeTree_eq_forM (ctx.inside body) levels body)
      (analyzeBranches_eq_forM ctx levels rest)
theorem analyzeCases_eq_forM (ctx : RegionCtx) (levels : Nat) : ∀ cases : List ChooseCase,
    analyzeCases ctx cases = (Region.withinCases ctx levels cases).forM Located.analyze
  | [] => rfl
  | ⟨_, _, body⟩ :: rest => by
    rw [analyzeCases, Region.withinCases]
    exact forM_append (analyzeTree_eq_forM (ctx.inside body) levels body)
      (analyzeCases_eq_forM ctx levels rest)
end

theorem validateDefinition_eq (definition : Definition) :
    validateDefinition definition = definition.regions.forM Located.analyze :=
  analyzeTree_eq_forM definition.rootCtx maxNesting definition.root

end Walk

/-! ## Panics -/

section Panics

variable {region : Region} {ctx : RegionCtx} {key : NodeKey} {node : Node}

theorem checkNode_not_panicked : checkNode region key node ≠ .error .panicked := by
  intro h
  cases hfind : node.edges.find? fun e => (region.node? e.2).isNone with
  | some e =>
    simp only [checkNode, hfind] at h
    cases h
  | none =>
    simp only [checkNode, hfind] at h
    split at h <;> simp [bind_eq_error, refuseIf_eq_error, invalid, refusal] at h

theorem visit_not_panicked (fuel : Nat) : ∀ {key : NodeKey} {v : Visited},
    visit region fuel key v ≠ .error .panicked := by
  induction fuel with
  | zero => intro key v h; cases h
  | succ fuel ih =>
    intro key v h
    rw [visit] at h
    split at h
    · cases h
    · split at h
      · cases h
      · simp only [bind_eq_error, pure_eq_error, and_false, exists_false, or_false] at h
        obtain ⟨v, edge, -, h⟩ := foldlM_eq_error h
        exact ih h

theorem checkBindings_not_panicked {available : List Reference} :
    checkBindings node available ctx ≠ .error .panicked := by
  intro h
  obtain ⟨-, binding, -, -, -, h⟩ := forM_eq_error.mp h
  simp only [checkBinding, bind_eq_error] at h
  rcases h with h | ⟨⟨⟩, -, h⟩
  · simp [refuseIf_eq_error, invalid, refusal] at h
  · obtain ⟨-, reference, -, -, -, h⟩ := forM_eq_error.mp h
    cases reference <;> simp [checkReference, refuseIf_eq_error, invalid, refusal, pure,
      Except.pure] at h

/-- The work list panics on a key that is no node: one it was given, or the target of an edge. -/
theorem flowLoop_panics (fuel : Nat) : ∀ {flow : Flow},
    flowLoop region ctx fuel flow = .error .panicked →
      ∃ key, region.node? key = none ∧
        (key ∈ flow.pending ∨ ∃ q e, (e, key) ∈ region.outgoing q) := by
  induction fuel with
  | zero => intro flow h; cases h
  | succ fuel ih =>
    intro flow h
    unfold flowLoop at h
    split at h
    · cases h
    · next key pending hpending =>
      split at h
      · obtain ⟨missing, hmissing, hkey⟩ := ih h
        refine ⟨missing, hmissing, hkey.imp_left fun hmem => ?_⟩
        rw [hpending]
        exact List.mem_cons_of_mem _ hmem
      · simp only [bind_eq_error, okOr_eq_error, and_true, okOr_eq_ok] at h
        rcases h with hmissing | ⟨node, hnode, h | ⟨⟨⟩, -, h⟩⟩
        · exact ⟨key, hmissing, .inl (by simp [hpending])⟩
        · exact absurd h checkBindings_not_panicked
        · obtain ⟨missing, hmissing, hkey⟩ := ih h
          refine ⟨missing, hmissing, ?_⟩
          rcases hkey with hmem | hedge
          · rw [foldl_carry_pending, List.mem_append, List.mem_reverse, List.mem_map] at hmem
            rcases hmem with ⟨⟨e, _⟩, he, rfl⟩ | hmem
            · exact .inr ⟨key, e, mem_outgoing.mpr ⟨node, hnode, he⟩⟩
            · exact .inl (by simp [hpending, hmem])
          · exact .inr hedge

/-- The nodes of a region point at nodes of the region. -/
theorem node_of_edge {e : Edge} {target : NodeKey}
    (hnodes : ∀ entry ∈ region.nodes, checkNode region entry.1 entry.2 = .ok ())
    (hedge : (e, target) ∈ region.outgoing key) : region.node? target ≠ none := by
  obtain ⟨node, hnode, hedge⟩ := mem_outgoing.mp hedge
  have hcheck := hnodes _ (mem_of_mapGet hnode)
  cases hfind : node.edges.find? fun e => (region.node? e.2).isNone with
  | some e =>
    simp only [checkNode, hfind] at hcheck
    cases hcheck
  | none => simpa using List.find?_eq_none.mp hfind _ hedge

/-- The analysis of a region panics exactly when its nodes pass the checks of their own and its
start node is missing. -/
theorem analyzeRegion_panics_iff : analyzeRegion region ctx = .error .panicked ↔
    (∀ e ∈ region.nodes, checkNode region e.1 e.2 = .ok ()) ∧
      region.node? region.start = none := by
  constructor
  · intro h
    simp only [analyzeRegion, bind_eq_error] at h
    rcases h with h | ⟨⟨⟩, hnodes, h | ⟨⟨⟩, -, h | ⟨flow, -, h⟩⟩⟩
    · obtain ⟨-, e, -, -, -, h⟩ := forM_eq_error.mp h
      exact absurd h checkNode_not_panicked
    · simp only [detectCycle, bind_eq_error, pure_eq_error, and_false, exists_false,
        or_false] at h
      exact absurd h (visit_not_panicked _)
    · rw [forM_eq_ok] at hnodes
      obtain ⟨key, hmissing, hkey⟩ := flowLoop_panics _ h
      rcases hkey with hkey | ⟨q, e, hedge⟩
      · obtain rfl := List.mem_singleton.mp hkey
        exact ⟨hnodes, hmissing⟩
      · exact absurd hmissing (node_of_edge hnodes hedge)
    · simp [refuseIf_eq_error, invalid, refusal] at h
  · rintro ⟨hnodes, hstart⟩
    have hnone : region.outgoing region.start = [] := by simp [Region.outgoing, hstart]
    have hcycle : detectCycle region = .ok () := by
      simp [detectCycle, visit, hnone, pure, Except.pure, bind, Except.bind]
    rw [analyzeRegion, forM_eq_ok.mpr hnodes, ok_bind, hcycle, ok_bind]
    simp [flowLoop, hstart, okOr, bind, Except.bind]

/-- The start node of an accepted region exists. -/
theorem started_of_accepted (accepted : analyzeRegion region ctx = .ok ()) :
    (region.node? region.start).isSome = true := by
  refine Option.isSome_iff_ne_none.mpr fun hnone => ?_
  have hnodes : ∀ e ∈ region.nodes, checkNode region e.1 e.2 = .ok () := by
    simp only [analyzeRegion, bind_eq_ok] at accepted
    obtain ⟨⟨⟩, hnodes, -⟩ := accepted
    exact forM_eq_ok.mp hnodes
  rw [analyzeRegion_panics_iff.mpr ⟨hnodes, hnone⟩] at accepted
  cases accepted

end Panics

/-! ## Compensations -/

/-- What `checkCompensations` asks of a node, what is inside it left out. -/
def Node.Compensates (catalog : Catalog) (inSaga : Bool) : Node → Prop
  | .activity key _ _ _ compensation _ =>
    checkCompensation catalog inSaga key compensation = .ok ()
  | _ => True

def Located.Compensates (catalog : Catalog) (r : Located) : Prop :=
  ∀ e ∈ r.region.nodes, e.2.Compensates catalog r.ctx.inSaga

section Compensations

variable (catalog : Catalog)

mutual
theorem checkCompensations_of_within (ctx : RegionCtx) (levels : Nat) : ∀ region : Region,
    (∀ r ∈ region.within ctx levels, r.Compensates catalog) →
      checkCompensations catalog ctx.inSaga region = .ok ()
  | ⟨path, inputSchema, outputSchema, start, nodes⟩, h => by
    rw [Region.within, List.forall_mem_cons] at h
    rw [checkCompensations]
    exact checkCompensationsNodes_of_within ctx (levels - 1) nodes h.1 h.2
theorem checkCompensationsNodes_of_within (ctx : RegionCtx) (levels : Nat) :
    ∀ nodes : List (String × Node), (∀ e ∈ nodes, e.2.Compensates catalog ctx.inSaga) →
      (∀ r ∈ Region.withinNodes ctx levels nodes, r.Compensates catalog) →
      checkCompensationsNodes catalog ctx.inSaga nodes = .ok ()
  | [], _, _ => rfl
  | (_, node) :: rest, hnodes, h => by
    rw [Region.withinNodes, List.forall_mem_append] at h
    obtain ⟨hnode, hrest⟩ := List.forall_mem_cons.mp hnodes
    rw [checkCompensationsNodes, checkCompensationsNode_of_within ctx levels node hnode h.1]
    exact checkCompensationsNodes_of_within ctx levels rest hrest h.2
theorem checkCompensationsNode_of_within (ctx : RegionCtx) (levels : Nat) : ∀ node : Node,
    node.Compensates catalog ctx.inSaga →
      (∀ r ∈ node.within ctx levels, r.Compensates catalog) →
      checkCompensationsNode catalog ctx.inSaga node = .ok ()
  | .activity .., hnode, _ => hnode
  | .while _ _ _ _ body _, _, h | .doWhile _ _ _ _ body _, _, h | .repeat _ _ _ _ body _, _, h =>
    checkCompensations_of_within { ctx.inside body with inLoop := true } levels body h
  | .foreach _ _ _ _ body _, _, h =>
    checkCompensations_of_within { ctx.inside body with inForeach := true } levels body h
  | .saga _ body _, _, h =>
    checkCompensations_of_within { ctx.inside body with inSaga := true } levels body h
  | .parallel branches _, _, h => checkCompensationsBranches_of_within ctx levels branches h
  | .choose _ cases default _, _, h => by
    rw [Node.within, List.forall_mem_append] at h
    rw [checkCompensationsNode, checkCompensationsCases_of_within ctx levels cases h.1]
    exact checkCompensations_of_within (ctx.inside default) levels default h.2
  | .delay .., _, _ | .waitUntil .., _, _ | .waitSignal .., _, _ | .complete _, _, _
  | .fail _, _, _ => rfl
theorem checkCompensationsBranches_of_within (ctx : RegionCtx) (levels : Nat) :
    ∀ branches : List ParallelBranch,
      (∀ r ∈ Region.withinBranches ctx levels branches, r.Compensates catalog) →
      checkCompensationsBranches catalog ctx.inSaga branches = .ok ()
  | [], _ => rfl
  | ⟨_, _, body⟩ :: rest, h => by
    rw [Region.withinBranches, List.forall_mem_append] at h
    have hbody := checkCompensations_of_within (ctx.inside body) levels body h.1
    rw [checkCompensationsBranches, show checkCompensations catalog ctx.inSaga body = _ from hbody]
    exact checkCompensationsBranches_of_within ctx levels rest h.2
theorem checkCompensationsCases_of_within (ctx : RegionCtx) (levels : Nat) :
    ∀ cases : List ChooseCase,
      (∀ r ∈ Region.withinCases ctx levels cases, r.Compensates catalog) →
      checkCompensationsCases catalog ctx.inSaga cases = .ok ()
  | [], _ => rfl
  | ⟨_, _, body⟩ :: rest, h => by
    rw [Region.withinCases, List.forall_mem_append] at h
    have hbody := checkCompensations_of_within (ctx.inside body) levels body h.1
    rw [checkCompensationsCases, show checkCompensations catalog ctx.inSaga body = _ from hbody]
    exact checkCompensationsCases_of_within ctx levels rest h.2
end

end Compensations

/-! ## Regions -/

section Regions

variable {catalog : Catalog} {signals : List (String × SchemaRef)} {ctx : RegionCtx} {levels : Nat}
  {nodes : List (String × Node)} {names : List String}

/-- What holds of a region that the compiler returns. -/
structure Located.Compiled (catalog : Catalog) (r : Located) : Prop where
  started : r.Started
  obeys : r.Obeys catalog
  compensates : r.Compensates catalog
  analyzed : r.analyze = .ok ()

/-- What the compiler returns for a region: it and those inside it are compiled, and it has the
schemas of its context. -/
structure Compiles (catalog : Catalog) (ctx : RegionCtx) (levels : Nat) (region : Region) :
    Prop where
  within : ∀ r ∈ region.within ctx levels, r.Compiled catalog
  inputSchema : region.inputSchema = ctx.inputSchema
  outputSchema : region.outputSchema = ctx.outputSchema

/-- The same for a node. -/
structure NodeCompiles (catalog : Catalog) (ctx : RegionCtx) (levels : Nat) (node : Node) :
    Prop where
  obeys : node.Obeys catalog ctx.inSaga
  compensates : node.Compensates catalog ctx.inSaga
  within : ∀ r ∈ node.within ctx levels, r.Compiled catalog

theorem withinNodes_compiled (h : ∀ e ∈ nodes, NodeCompiles catalog ctx levels e.2) :
    ∀ r ∈ Region.withinNodes ctx levels nodes, r.Compiled catalog := by
  induction nodes with
  | nil => exact List.forall_mem_nil _
  | cons e rest ih =>
    obtain ⟨he, hrest⟩ := List.forall_mem_cons.mp h
    exact List.forall_mem_append.mpr ⟨he.within, ih hrest⟩

/-- A body is analysed with its own schemas, which are those it was compiled with. -/
theorem Compiles.inside {region : Region} {input output : SchemaRef}
    {inLoop inForeach inSaga : Bool} (h : Compiles catalog
      { ctx with inputSchema := input, outputSchema := output, inLoop, inForeach, inSaga } levels
      region) :
    ∀ r ∈ region.within { ctx.inside region with inLoop, inForeach, inSaga } levels,
      r.Compiled catalog := by
  rw [RegionCtx.inside, h.inputSchema, h.outputSchema]
  exact h.within

/-- The compiler of bodies does what it should. -/
def SoundBody (catalog : Catalog) (levels : Nat) (compileBody : BodyCompiler) : Prop :=
  ∀ fields span path ctx counts region counts',
    compileBody fields span path ctx counts = .ok (region, counts') →
      Compiles catalog ctx levels region

variable {fields : DocMap} {span : DocSpan} {path : RegionPath} {counts counts' : Nat} {node : Node}
  {compileBody : BodyCompiler}

/-! ## Leaves -/

theorem isSome_of_activity {activity : ActivityKey} {contract : ActivityContract}
    (h : catalog.activity activity = .ok contract) :
    (mapGet catalog.activities activity).isSome = true := by
  rw [okOr_eq_ok.mp h]
  rfl

theorem parseCompensation_meets {doc : Spanned} {compensation : Compensation}
    (h : parseCompensation doc catalog = .ok compensation) :
    CompensationMeets catalog true (some compensation) := by
  simp only [parseCompensation, bind_eq_ok] at h
  obtain ⟨fields, -, kindNode, -, kind, -, h⟩ := h
  split at h
  · simp only [bind_eq_ok, pure_eq_ok] at h
    obtain ⟨_, -, _, -, reason, -, rfl⟩ := h
    rfl
  · split at h
    · simp only [parseCompensationActivity, bind_eq_ok, pure_eq_ok] at h
      obtain ⟨_, -, _, -, activity, -, contract, hcontract, _, -, input, -, _, -, timeout, -, retry,
        -, rfl⟩ := h
      exact ⟨rfl, isSome_of_activity hcontract⟩
    · cases h

theorem compileActivity_compiles (h : compileActivity fields span catalog ctx = .ok node) :
    NodeCompiles catalog ctx levels node := by
  simp only [compileActivity, bind_eq_ok, pure_eq_ok] at h
  obtain ⟨_, -, _, -, activity, -, contract, hcontract, _, -, input, -, _, -, next, -, timeout, -,
    retry, -, compensation, hcompensation, rfl⟩ := h
  unfold compileCompensation at hcompensation
  split at hcompensation
  · simp only [bind_eq_ok, refuseIf_eq_ok, Bool.not_eq_false, pure_eq_ok] at hcompensation
    obtain ⟨_, hsaga, parsed, hparsed, rfl⟩ := hcompensation
    refine ⟨⟨isSome_of_activity hcontract, ?_⟩, ?_, List.forall_mem_nil _⟩
    · rw [hsaga]
      exact parseCompensation_meets hparsed
    · simp [Node.Compensates, checkCompensation, hcontract, hsaga]
  · simp only [bind_eq_ok, refuseIf_eq_ok, pure_eq_ok] at hcompensation
    obtain ⟨_, hinternal, rfl⟩ := hcompensation
    refine ⟨⟨isSome_of_activity hcontract, trivial⟩, ?_, List.forall_mem_nil _⟩
    simpa [Node.Compensates, checkCompensation, hcontract] using hinternal

theorem compileDelay_compiles (h : compileDelay fields span = .ok node) :
    NodeCompiles catalog ctx levels node := by
  simp only [compileDelay, bind_eq_ok, pure_eq_ok] at h
  obtain ⟨_, -, _, -, duration, -, _, -, next, -, rfl⟩ := h
  exact ⟨trivial, trivial, List.forall_mem_nil _⟩

theorem compileWaitUntil_compiles (h : compileWaitUntil fields span = .ok node) :
    NodeCompiles catalog ctx levels node := by
  simp only [compileWaitUntil, bind_eq_ok, pure_eq_ok] at h
  obtain ⟨_, -, _, -, at_, -, _, -, next, -, rfl⟩ := h
  exact ⟨trivial, trivial, List.forall_mem_nil _⟩

theorem compileWaitSignal_compiles (h : compileWaitSignal fields span signals = .ok node) :
    NodeCompiles catalog ctx levels node := by
  simp only [compileWaitSignal, bind_eq_ok, refuseIf_eq_ok, pure_eq_ok] at h
  obtain ⟨_, -, _, -, signal, -, _, -, _, -, timeoutMs, -, onTimeout, -, _, hfinite, _, hindefinite,
    consumeFrom, -, _, -, key, -, _, -, next, -, rfl⟩ := h
  refine ⟨?_, trivial, List.forall_mem_nil _⟩
  change onTimeout.isSome = timeoutMs.isSome
  cases htimeout : timeoutMs.isSome <;> cases honTimeout : onTimeout.isSome
  · rfl
  · exact absurd ⟨htimeout, honTimeout⟩ hindefinite
  · exact absurd ⟨htimeout, honTimeout⟩ hfinite
  · rfl

theorem compileComplete_compiles (h : compileComplete fields span = .ok node) :
    NodeCompiles catalog ctx levels node := by
  simp only [compileComplete, bind_eq_ok, pure_eq_ok] at h
  obtain ⟨_, -, _, -, output, -, rfl⟩ := h
  exact ⟨trivial, trivial, List.forall_mem_nil _⟩

theorem compileFail_compiles (h : compileFail fields span = .ok node) :
    NodeCompiles catalog ctx levels node := by
  simp only [compileFail, bind_eq_ok, pure_eq_ok] at h
  obtain ⟨_, -, _, -, _, -, _, -, _, -, code, -, _, -, message, -, rfl⟩ := h
  exact ⟨trivial, trivial, List.forall_mem_nil _⟩

theorem asLeaf_compiles {leaf : Result Node}
    (hleaf : ∀ node, leaf = .ok node → NodeCompiles catalog ctx levels node)
    (h : asLeaf counts leaf = .ok (node, counts')) : NodeCompiles catalog ctx levels node := by
  simp only [asLeaf, bind_eq_ok, pure_eq_ok, Prod.mk.injEq] at h
  obtain ⟨compiled, hcompiled, rfl, -⟩ := h
  exact hleaf compiled hcompiled

/-! ## Containers -/

theorem compileLoop_compiles {kind : LoopKind} (hbody : SoundBody catalog levels compileBody)
    (h : compileLoop compileBody fields span catalog path ctx counts kind = .ok (node, counts')) :
    NodeCompiles catalog ctx levels node := by
  simp only [compileLoop, bind_eq_ok, refuseIf_eq_ok, pure_eq_ok, Prod.exists, Prod.mk.injEq] at h
  obtain ⟨_, -, stateSchema, -, _, -, _, -, maxIterations, -, _, hmax, bodyNode, -, bodyFields, -,
    input, -, output, -, _, -, body, _, hcompiled, _, -, next, -, _, -, state, -, loop, hloop, rfl,
    -⟩ := h
  have hbody := hbody _ _ _ _ _ _ _ hcompiled
  have hrange : 0 < maxIterations ∧ maxIterations ≤ maxLoopIterations := by omega
  cases kind <;>
    · simp only [loopNode, bind_eq_ok, pure_eq_ok] at hloop
      obtain ⟨_, -, _, -, rfl⟩ := hloop
      exact ⟨hrange, trivial, hbody.inside⟩

theorem compileForeach_compiles (hbody : SoundBody catalog levels compileBody)
    (h : compileForeach compileBody fields span catalog path ctx counts = .ok (node, counts')) :
    NodeCompiles catalog ctx levels node := by
  simp only [compileForeach, bind_eq_ok, refuseIf_eq_ok, pure_eq_ok, Prod.exists,
    Prod.mk.injEq] at h
  obtain ⟨_, -, itemSchema, -, _, -, _, -, maxItems, -, _, hitems, _, -, maxConcurrency, -, _,
    hconcurrency, bodyNode, -, bodyFields, -, input, -, _, -, output, -, _, -, body, _,
    hcompiled, _, -, items, -, _, -, next, -, rfl, -⟩ := h
  have hbody := hbody _ _ _ _ _ _ _ hcompiled
  exact ⟨⟨by omega, by omega⟩, trivial, hbody.inside⟩

theorem compileSaga_compiles (hbody : SoundBody catalog levels compileBody)
    (h : compileSaga compileBody fields span catalog path ctx counts = .ok (node, counts')) :
    NodeCompiles catalog ctx levels node := by
  simp only [compileSaga, bind_eq_ok, pure_eq_ok, Prod.exists, Prod.mk.injEq] at h
  obtain ⟨_, -, bodyNode, -, bodyFields, -, input, output, -, body, _, hcompiled, _, -, binding,
    -, _, -, next, -, rfl, -⟩ := h
  have hbody := hbody _ _ _ _ _ _ _ hcompiled
  exact ⟨trivial, trivial, hbody.inside⟩

theorem compileBranch_ok {item : Spanned} {branch : ParallelBranch}
    (hbody : SoundBody catalog levels compileBody)
    (h : compileBranch compileBody catalog path ctx names counts item = .ok (branch, counts')) :
    branch.name ∉ names ∧
      ∀ r ∈ branch.body.within (ctx.inside branch.body) levels, r.Compiled catalog := by
  simp only [compileBranch, bind_eq_ok, refuseIf_eq_ok, not_or, pure_eq_ok, Prod.exists,
    Prod.mk.injEq] at h
  obtain ⟨_, -, _, -, _, -, name, -, _, ⟨-, hnew⟩, bodyNode, -, bodyFields, -, input, output,
    -, body, _, hcompiled, _, -, binding, -, rfl, -⟩ := h
  have hbody := hbody _ _ _ _ _ _ _ hcompiled
  exact ⟨hnew, hbody.inside⟩

theorem compileBranches_ok {items : List Spanned} {branches : List ParallelBranch}
    (hbody : SoundBody catalog levels compileBody)
    (h : compileBranches compileBody catalog path ctx names counts items =
      .ok (branches, counts')) :
    branches.length = items.length ∧ (branches.map (·.name)).Nodup ∧
      (∀ branch ∈ branches, branch.name ∉ names) ∧
      ∀ r ∈ Region.withinBranches ctx levels branches, r.Compiled catalog := by
  induction items generalizing names counts counts' branches with
  | nil =>
    simp only [compileBranches, pure_eq_ok, Prod.mk.injEq] at h
    obtain ⟨rfl, -⟩ := h
    exact ⟨rfl, List.nodup_nil, List.forall_mem_nil _, List.forall_mem_nil _⟩
  | cons item items ih =>
    simp only [compileBranches, bind_eq_ok, pure_eq_ok, Prod.exists, Prod.mk.injEq] at h
    obtain ⟨⟨name, input, body⟩, _, hbranch, rest, _, hrest, rfl, -⟩ := h
    obtain ⟨hnew, hcompiled⟩ := compileBranch_ok hbody hbranch
    obtain ⟨hlength, hnodup, hnames, hothers⟩ := ih hrest
    refine ⟨by rw [List.length_cons, List.length_cons, hlength],
      List.nodup_cons.mpr ⟨fun hmem => ?_, hnodup⟩, fun other hother => ?_,
      List.forall_mem_append.mpr ⟨hcompiled, hothers⟩⟩
    · obtain ⟨other, hother, hsame⟩ := List.mem_map.mp hmem
      exact hnames other hother (hsame ▸ List.mem_cons_self)
    · rcases List.mem_cons.mp hother with rfl | hmem
      · exact hnew
      · exact fun hin => hnames other hmem (List.mem_cons_of_mem _ hin)

theorem compileParallel_compiles (hbody : SoundBody catalog levels compileBody)
    (h : compileParallel compileBody fields span catalog path ctx counts = .ok (node, counts')) :
    NodeCompiles catalog ctx levels node := by
  simp only [compileParallel, bind_eq_ok, refuseIf_eq_ok, not_or, pure_eq_ok, Prod.exists,
    Prod.mk.injEq] at h
  obtain ⟨_, -, _, -, items, -, _, ⟨hnonempty, hmax⟩, branches, _, hbranches, _, -, next, -, rfl,
    -⟩ := h
  obtain ⟨hlength, hnodup, -, hcompiled⟩ := compileBranches_ok hbody hbranches
  have hrange : 0 < branches.length ∧ branches.length ≤ maxParallelBranches := by
    rw [hlength]
    exact ⟨List.length_pos_iff.mpr hnonempty, not_lt.mp hmax⟩
  exact ⟨⟨hrange, hnodup⟩, trivial, hcompiled⟩

theorem compileCase_ok {caseOutput : Option SchemaRef} {item : Spanned} {case : ChooseCase}
    {output : SchemaRef} (hbody : SoundBody catalog levels compileBody)
    (h : compileCase compileBody catalog path ctx names caseOutput counts item =
      .ok (case, output, counts')) :
    case.name ∉ names ∧
      ∀ r ∈ case.body.within (ctx.inside case.body) levels, r.Compiled catalog := by
  simp only [compileCase, bind_eq_ok, refuseIf_eq_ok, not_or, pure_eq_ok, Prod.exists,
    Prod.mk.injEq] at h
  obtain ⟨_, -, _, -, _, -, name, -, _, ⟨-, hnew⟩, bodyNode, -, bodyFields, -, input, output, -,
    _, -, body, _, hcompiled, _, -, condition, -, rfl, -⟩ := h
  have hbody := hbody _ _ _ _ _ _ _ hcompiled
  exact ⟨hnew, hbody.inside⟩

theorem compileCases_ok {caseOutput caseOutput' : Option SchemaRef} {items : List Spanned}
    {cases : List ChooseCase} (hbody : SoundBody catalog levels compileBody)
    (h : compileCases compileBody catalog path ctx names caseOutput counts items =
      .ok (cases, caseOutput', counts')) :
    (cases.map (·.name)).Nodup ∧ (∀ case ∈ cases, case.name ∉ names) ∧
      ∀ r ∈ Region.withinCases ctx levels cases, r.Compiled catalog := by
  induction items generalizing names caseOutput counts counts' cases with
  | nil =>
    simp only [compileCases, pure_eq_ok, Prod.mk.injEq] at h
    obtain ⟨rfl, -⟩ := h
    exact ⟨List.nodup_nil, List.forall_mem_nil _, List.forall_mem_nil _⟩
  | cons item items ih =>
    simp only [compileCases, bind_eq_ok, pure_eq_ok, Prod.exists, Prod.mk.injEq] at h
    obtain ⟨⟨name, condition, body⟩, _, _, hcase, rest, _, _, hrest, rfl, rfl, -⟩ := h
    obtain ⟨hnew, hcompiled⟩ := compileCase_ok hbody hcase
    obtain ⟨hnodup, hnames, hothers⟩ := ih hrest
    refine ⟨List.nodup_cons.mpr ⟨fun hmem => ?_, hnodup⟩, fun other hother => ?_,
      List.forall_mem_append.mpr ⟨hcompiled, hothers⟩⟩
    · obtain ⟨other, hother, hsame⟩ := List.mem_map.mp hmem
      exact hnames other hother (hsame ▸ List.mem_cons_self)
    · rcases List.mem_cons.mp hother with rfl | hmem
      · exact hnew
      · exact fun hin => hnames other hmem (List.mem_cons_of_mem _ hin)

theorem compileChoose_compiles (hbody : SoundBody catalog levels compileBody)
    (h : compileChoose compileBody fields span catalog path ctx counts = .ok (node, counts')) :
    NodeCompiles catalog ctx levels node := by
  simp only [compileChoose, bind_eq_ok, pure_eq_ok, Prod.exists, Prod.mk.injEq] at h
  obtain ⟨_, -, _, -, items, -, _, -, cases, _, _, hcases, _, -, _, -, input, -, output, -, _, -,
    default, _, hcompiled, _, -, binding, -, _, -, next, -, rfl, -⟩ := h
  obtain ⟨hnodup, -, hothers⟩ := compileCases_ok hbody hcases
  have hdefault := hbody _ _ _ _ _ _ _ hcompiled
  exact ⟨hnodup, trivial, List.forall_mem_append.mpr ⟨hothers, hdefault.inside⟩⟩

/-! ## Nodes and regions -/

/-- One branch of the dispatch on the kind of a node. -/
theorem of_ite_ok {α : Type} {c : Prop} [Decidable c] {x y : Result α} {a : α} {P : Prop}
    (h : (if c then x else y) = .ok a) (hx : x = .ok a → P) (hy : y = .ok a → P) : P := by
  by_cases hc : c
  · rw [if_pos hc] at h
    exact hx h
  · rw [if_neg hc] at h
    exact hy h

theorem compileNode_compiles {doc : Spanned} (hbody : SoundBody catalog levels compileBody)
    (h : compileNode compileBody catalog signals path ctx counts doc = .ok (node, counts')) :
    NodeCompiles catalog ctx levels node := by
  simp only [compileNode, bind_eq_ok] at h
  obtain ⟨fields, -, kindNode, -, kind, -, h⟩ := h
  refine of_ite_ok h (asLeaf_compiles fun _ => compileActivity_compiles) fun h => ?_
  refine of_ite_ok h (compileChoose_compiles hbody) fun h => ?_
  refine of_ite_ok h (asLeaf_compiles fun _ => compileDelay_compiles) fun h => ?_
  refine of_ite_ok h (asLeaf_compiles fun _ => compileWaitUntil_compiles) fun h => ?_
  refine of_ite_ok h (asLeaf_compiles fun _ => compileWaitSignal_compiles) fun h => ?_
  refine of_ite_ok h (asLeaf_compiles fun _ => compileComplete_compiles) fun h => ?_
  refine of_ite_ok h (asLeaf_compiles fun _ => compileFail_compiles) fun h => ?_
  refine of_ite_ok h (compileLoop_compiles hbody) fun h => ?_
  refine of_ite_ok h (compileLoop_compiles hbody) fun h => ?_
  refine of_ite_ok h (compileLoop_compiles hbody) fun h => ?_
  refine of_ite_ok h (compileForeach_compiles hbody) fun h => ?_
  refine of_ite_ok h (compileParallel_compiles hbody) fun h => ?_
  refine of_ite_ok h (compileSaga_compiles hbody) fun h => ?_
  cases h

theorem compileNodes_compiles {nodes' : List (String × Node)} {docs : DocMap}
    (hbody : SoundBody catalog levels compileBody)
    (hnodes : ∀ e ∈ nodes, NodeCompiles catalog ctx levels e.2)
    (h : compileNodes compileBody catalog signals path ctx nodes counts docs =
      .ok (nodes', counts')) :
    ∀ e ∈ nodes', NodeCompiles catalog ctx levels e.2 := by
  induction docs generalizing nodes counts with
  | nil =>
    simp only [compileNodes, pure_eq_ok, Prod.mk.injEq] at h
    obtain ⟨rfl, -⟩ := h
    exact hnodes
  | cons entry docs ih =>
    obtain ⟨key, doc⟩ := entry
    simp only [compileNodes, bind_eq_ok, Prod.exists] at h
    obtain ⟨parsed, -, compiled, _, hcompiled, hrest⟩ := h
    refine ih (fun e he => ?_) hrest
    rcases mem_of_mem_mapInsert he with rfl | hold
    · exact compileNode_compiles hbody hcompiled
    · exact hnodes e hold

/-- By induction on the number of levels. -/
theorem compileRegion_sound (isRoot : Bool) (levels : Nat) :
    SoundBody catalog levels (compileRegion catalog signals isRoot levels) := by
  induction levels generalizing isRoot with
  | zero =>
    intro fields span path ctx counts region counts' h
    cases h
  | succ levels ih =>
    intro fields span path ctx counts region counts' h
    simp only [compileRegion, bind_eq_ok, refuseIf_eq_ok, pure_eq_ok, Prod.exists,
      Prod.mk.injEq] at h
    obtain ⟨_, -, _, -, start, -, _, -, docs, -, nodes, _, hnodes, _, hstart, _, hanalyzed, rfl,
      -⟩ := h
    have hcompiled := compileNodes_compiles (ih false) (List.forall_mem_nil _) hnodes
    refine ⟨List.forall_mem_cons.mpr ⟨⟨?_, ⟨Nat.succ_pos levels, ?_⟩, ?_, hanalyzed⟩,
      withinNodes_compiled hcompiled⟩, rfl, rfl⟩
    · change (mapGet nodes start).isSome = true
      exact Option.isSome_iff_ne_none.mpr fun hnone => hstart (by rw [hnone]; rfl)
    · exact fun e he => (hcompiled e he).obeys
    · exact fun e he => (hcompiled e he).compensates

end Regions

/-! ## Definitions -/

/-- What the compiler returns is compiled in every region. -/
theorem compileSpanned_compiled {env : Env} {root : Spanned} {catalog : Catalog}
    {definition : Definition} (h : compileSpanned env root catalog = .ok definition) :
    ∀ r ∈ definition.regions, r.Compiled catalog := by
  simp only [compileSpanned, bind_eq_ok, pure_eq_ok, Prod.exists] at h
  obtain ⟨fields, -, _, -, _, -, _, -, _, -, _, -, id, -, _, -, _, -, version, -, _, -, input, -,
    output, -, _, -, _, -, timeout, -, _, -, signals, -, region, counts, hregion, _, -, digest, -,
    rfl⟩ := h
  exact (compileRegion_sound true maxNesting _ _ _ _ _ _ _ hregion).within

/-- What the compiler returns has compensations where they are needed, and only there. -/
theorem compileSpanned_checkCompensations {env : Env} {root : Spanned} {catalog : Catalog}
    {definition : Definition} (h : compileSpanned env root catalog = .ok definition) :
    checkCompensations catalog false definition.root = .ok () :=
  checkCompensations_of_within catalog definition.rootCtx maxNesting definition.root
    fun r hr => (compileSpanned_compiled h r hr).compensates

/-- The check of a publication panics exactly on a definition with a region that is analysed,
passes the checks of its nodes and lacks its start node. In an accepted definition every start node
exists, and it meets the rules of the compiler exactly when it obeys those that are left; what the
compiler returns for the catalog is accepted and obeys them. -/
theorem validation_exact (env : Env) (definition : Definition) :
    (validateDefinition definition = .error .panicked ↔
      ∃ earlier r later, definition.regions = earlier ++ r :: later ∧
        (∀ before ∈ earlier, analyzeRegion before.region before.ctx = .ok ()) ∧
        (∀ e ∈ r.region.nodes, checkNode r.region e.1 e.2 = .ok ()) ∧ ¬ r.Started) ∧
    (∀ s version published, publishDefinition env s definition version = .ok published →
      ∃ catalog, mapGet s.publishedCatalogs version = some catalog ∧
        digestOf env definition = .ok definition.digest ∧ (∀ r ∈ definition.regions, r.Started) ∧
        (definition.Meets catalog.catalog ↔
          ∀ r ∈ definition.regions, r.Obeys catalog.catalog)) ∧
    (∀ root catalog, compileSpanned env root catalog = .ok definition →
      validateDefinition definition = .ok () ∧ definition.Meets catalog) := by
  refine ⟨?_, fun s version published h => ?_, fun root catalog h => ?_⟩
  · rw [validateDefinition_eq, forM_eq_error]
    simp only [Located.analyze, analyzeRegion_panics_iff, Located.Started,
      Option.not_isSome_iff_eq_none]
  · simp only [publishDefinition, checkDefinition, bind_assoc, bind_eq_ok, okOr_eq_ok,
      refuseIf_eq_ok, not_not] at h
    obtain ⟨catalog, hcatalog, -, -, -, -, -, -, digest, hdigest, -, rfl, ⟨⟩, hvalid, -⟩ := h
    rw [validateDefinition_eq, forM_eq_ok] at hvalid
    have hstarted : ∀ r ∈ definition.regions, r.Started := fun r hr =>
      started_of_accepted (hvalid r hr)
    refine ⟨catalog, hcatalog, hdigest, hstarted, fun h r hr => (h r hr).2, fun h r hr => ?_⟩
    exact ⟨hstarted r hr, h r hr⟩
  · have hcompiled := compileSpanned_compiled h
    refine ⟨?_, fun r hr => ⟨(hcompiled r hr).started, (hcompiled r hr).obeys⟩⟩
    rw [validateDefinition_eq, forM_eq_ok]
    exact fun r hr => (hcompiled r hr).analyzed

/-! ## Samples -/

def sampleSpan : DocSpan where
  line := 1
  column := 1

def docText (text : String) : Spanned := ⟨sampleSpan, .string text⟩

def docMap (fields : DocMap) : Spanned := ⟨sampleSpan, .map fields⟩

/-- A workflow that completes at once, as a document. -/
def sampleFields : DocMap :=
  [("dsl", docText dslName), ("id", docText "sample"), ("input_schema", docText "any/v1"),
    ("nodes", docMap [("done", docMap [("kind", docText "complete"),
      ("output", docMap [("literal", ⟨sampleSpan, .null⟩)])])]),
    ("output_schema", docText "any/v1"), ("start", docText "done"),
    ("version", ⟨sampleSpan, .int 1⟩)]

def schemaCatalog : Catalog where
  schemas := [(⟨"any", 1⟩, .bool true)]
  activities := []
  reconcilers := []

def compiledRegion : Region where
  path := [.root]
  inputSchema := .named ⟨"any", 1⟩
  outputSchema := .named ⟨"any", 1⟩
  start := "done"
  nodes := [("done", .complete (.literal .null))]

def compiledDefinition : Definition where
  formatVersion := 1
  dsl := dslName
  id := "sample"
  version := 1
  inputSchema := .named ⟨"any", 1⟩
  outputSchema := .named ⟨"any", 1⟩
  signals := []
  runTimeoutMs := none
  root := compiledRegion
  digest := "1"

/-- A state in which a catalog is published. -/
def withCatalog (catalog : Catalog) : State := {
  State.empty sampleCluster with
  publishedCatalogs := [(1, { format := catalogFormat, digest := "null", catalog })] }

/-- The compiled workflow is published, and meets the rules. -/
theorem compiledDefinition_meets :
    compileSpanned requestEnv (docMap sampleFields) schemaCatalog = .ok compiledDefinition ∧
    ∃ published, publishDefinition requestEnv (withCatalog schemaCatalog) compiledDefinition 1 =
      .ok published ∧ compiledDefinition.Meets schemaCatalog := by
  have hcompiled :
      compileSpanned requestEnv (docMap sampleFields) schemaCatalog = .ok compiledDefinition := rfl
  have hpublished : (publishDefinition requestEnv (withCatalog schemaCatalog) compiledDefinition
      1).toOption.isSome = true := by decide +kernel
  obtain ⟨published, hpublished⟩ := Option.isSome_iff_exists.mp hpublished
  exact ⟨hcompiled, published, ok_of_toOption hpublished,
    ((validation_exact requestEnv compiledDefinition).2.2 _ _ hcompiled).2⟩

/-- An activity that the catalog does not have. -/
def strayDefinition : Definition := {
  sampleWorkflow [] "work" [("done", .complete (.literal .null)),
    ("work", sampleActivity "ghost" none "done")] with digest := "1" }

/-- The region of a definition whose start node is not there. -/
def headlessDefinition : Definition :=
  sampleWorkflow [] "absent" [("done", .complete (.literal .null))]

/-- The check of the publication accepts an activity that the catalog does not have, and panics if
the start node is missing. -/
theorem strayDefinition_published :
    (∃ published, publishDefinition requestEnv (withCatalog schemaCatalog) strayDefinition 1 =
      .ok published) ∧ ¬ strayDefinition.Meets schemaCatalog ∧
      validateDefinition headlessDefinition = .error .panicked := by
  have hpublished : (publishDefinition requestEnv (withCatalog schemaCatalog) strayDefinition
      1).toOption.isSome = true := by decide +kernel
  obtain ⟨published, hpublished⟩ := Option.isSome_iff_exists.mp hpublished
  refine ⟨⟨published, ok_of_toOption hpublished⟩, fun hmeets => ?_, rfl⟩
  have hwork := (hmeets _ List.mem_cons_self).2.2 ("work", _) (by
    exact List.mem_cons_of_mem _ List.mem_cons_self)
  cases hwork.1

end Graphrun
