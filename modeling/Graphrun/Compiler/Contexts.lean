import Graphrun.Compiler.Availability
import Graphrun.Engine.Execution
import Graphrun.Engine.Tree

/-!
# Contexts at compile time and at run time

The compiler hands the flags `in_loop` and `in_foreach` down the tree of regions, and lets a
loop, a foreach and an activity with a compensation use the references of their own context.
The engine recomputes the context from the role of one scope (`eval_ctx`). The two agree on a
node exactly when its references are direct: `loop.*` is used in the body of the loop itself or
in a loop's guard, `item.*` in the body of the foreach itself, `forward.*` in a compensation.
-/

namespace Graphrun

open Lib

variable {s : Core} {k : ScopeId} {sc : ScopeState} {region : Region} {ctx : RegionCtx}
  {node : Node} {body : Region} {r : Reference} {site : Site} {b : Binding} {run : RunState}
  {ectx : EvalCtx} {v : Value}

/-! ## The contexts of the compiler -/

/-- The context in which the compiler looks at a body of a node. -/
def Node.enter (ctx : RegionCtx) (node : Node) (body : Region) : RegionCtx :=
  match node with
  | .while .. | .doWhile .. | .repeat .. => { ctx.inside body with inLoop := true }
  | .foreach .. => { ctx.inside body with inForeach := true }
  | .saga .. => { ctx.inside body with inSaga := true }
  | _ => ctx.inside body

/-- The context of the whole definition. -/
def Definition.rootCtx (definition : Definition) : RegionCtx where
  inputSchema := definition.inputSchema
  outputSchema := definition.outputSchema

/-- The context in which the compiler looked at the region that a scope runs. -/
inductive ContextAt (s : Core) : ScopeId → RegionCtx → Region → Prop
  | root {k : ScopeId} {sc : ScopeState} {run : RunState} (hscope : s.scopes.lookup k = some sc)
      (hrun : s.runs.lookup sc.run = some run) (hrole : sc.role.activation? = none) :
      ContextAt s k run.definition.rootCtx run.definition.root
  | body {k : ScopeId} {sc : ScopeState} {run : RunState} {a : ActivationId}
      {act : ActivationState} {ctx : RegionCtx} {above region : Region} {node : Node}
      (hscope : s.scopes.lookup k = some sc) (hrun : s.runs.lookup sc.run = some run)
      (hrole : sc.role.activation? = some a) (hact : s.activations.lookup a = some act)
      (habove : ContextAt s act.scope ctx above) (hnode : above.node? act.node = some node)
      (hbody : bodyRegion sc.role node = some region) :
      ContextAt s k (node.enter ctx region) region

/-- Every scope that runs a region runs it in some context. -/
theorem exists_contextAt (h : RegionAt s k region) : ∃ ctx, ContextAt s k ctx region := by
  induction h with
  | root hscope hrun hrole => exact ⟨_, .root hscope hrun hrole⟩
  | body hscope hrun hrole hact _ hnode hbody ih =>
    obtain ⟨ctx, habove⟩ := ih
    exact ⟨_, .body hscope hrun hrole hact habove hnode hbody⟩

theorem analyzeTree_eq :
    analyzeTree ctx region = (do
      analyzeRegion region ctx
      analyzeNodes ctx region.nodes) := by
  cases region
  rw [analyzeTree]

theorem analyzeNodes_mem {nodes : List (String × Node)} {e : String × Node}
    (h : analyzeNodes ctx nodes = .ok ()) (he : e ∈ nodes) : analyzeNode ctx e.2 = .ok () := by
  induction nodes with
  | nil => cases he
  | cons head rest ih =>
    rw [analyzeNodes, bind_eq_ok] at h
    obtain ⟨⟨⟩, hhead, hrest⟩ := h
    rcases List.mem_cons.mp he with rfl | he
    · exact hhead
    · exact ih hrest he

theorem analyzeBranches_mem {branches : List ParallelBranch} {branch : ParallelBranch}
    (h : analyzeBranches ctx branches = .ok ()) (hb : branch ∈ branches) :
    analyzeTree (ctx.inside branch.body) branch.body = .ok () := by
  induction branches with
  | nil => cases hb
  | cons head rest ih =>
    obtain ⟨name, input, body⟩ := head
    rw [analyzeBranches, bind_eq_ok] at h
    obtain ⟨⟨⟩, hhead, hrest⟩ := h
    rcases List.mem_cons.mp hb with rfl | hb
    · exact hhead
    · exact ih hrest hb

theorem analyzeCases_mem {cases : List ChooseCase} {case : ChooseCase}
    (h : analyzeCases ctx cases = .ok ()) (hc : case ∈ cases) :
    analyzeTree (ctx.inside case.body) case.body = .ok () := by
  induction cases with
  | nil => cases hc
  | cons head rest ih =>
    obtain ⟨name, when, body⟩ := head
    rw [analyzeCases, bind_eq_ok] at h
    obtain ⟨⟨⟩, hhead, hrest⟩ := h
    rcases List.mem_cons.mp hc with rfl | hc
    · exact hhead
    · exact ih hrest hc

/-- Accepting a node accepts each of its bodies. -/
theorem analyzeTree_of_analyzeNode {role : ScopeRole} (h : analyzeNode ctx node = .ok ())
    (hbody : bodyRegion role node = some body) :
    analyzeTree (node.enter ctx body) body = .ok () := by
  have hwhole : node.body? = some body → analyzeTree (node.enter ctx body) body = .ok () := by
    intro hb
    cases node with
    | «while» | doWhile | «repeat» | foreach | saga =>
      obtain rfl := Option.some.inj hb
      simp only [analyzeNode] at h
      exact h
    | _ => cases hb
  cases role with
  | root => cases hbody
  | loopBody | foreachItem | sagaBody => exact hwhole hbody
  | parallelBranch a name =>
    cases node with
    | parallel branches next =>
      obtain ⟨branch, hfind, rfl⟩ := Option.map_eq_some_iff.mp hbody
      simp only [analyzeNode] at h
      exact analyzeBranches_mem h (List.mem_of_find?_eq_some hfind)
    | _ => cases hbody
  | chooseBody a name =>
    cases node with
    | choose input cases default next =>
      simp only [analyzeNode, bind_eq_ok] at h
      obtain ⟨⟨⟩, hcases, hdefault⟩ := h
      simp only [bodyRegion, Node.caseBody?] at hbody
      split at hbody
      · obtain rfl := Option.some.inj hbody
        exact hdefault
      · obtain ⟨case, hfind, rfl⟩ := Option.map_eq_some_iff.mp hbody
        exact analyzeCases_mem hcases (List.mem_of_find?_eq_some hfind)
    | _ => cases hbody

theorem inCompensation_enter :
    (node.enter ctx body).inCompensation = ctx.inCompensation := by
  cases node <;> rfl

/-- In a state whose runs have accepted definitions every region was accepted in its context,
which is never that of a compensation. -/
theorem ContextAt.accepted (h : ContextAt s k ctx region)
    (accepted : ∀ r run, s.runs.lookup r = some run → validateDefinition run.definition = .ok ()) :
    analyzeTree ctx region = .ok () ∧ ctx.inCompensation = false := by
  induction h with
  | root _ hrun _ => exact ⟨accepted _ _ hrun, rfl⟩
  | @body k sc run a act ctx above region node _ _ _ _ _ hnode hbody ih =>
    obtain ⟨htree, hcompensation⟩ := ih
    rw [analyzeTree_eq, bind_eq_ok] at htree
    obtain ⟨⟨⟩, -, hnodes⟩ := htree
    obtain ⟨e, he, rfl⟩ := Option.map_eq_some_iff.mp hnode
    have hnode := analyzeNodes_mem hnodes (List.mem_of_find?_eq_some he)
    exact ⟨analyzeTree_of_analyzeNode hnode hbody, inCompensation_enter.trans hcompensation⟩

/-! ## The contexts of the engine -/

def Reference.isLoop : Reference → Bool
  | .loopState | .loopIndex => true
  | _ => false

def Reference.isItem : Reference → Bool
  | .itemValue | .itemIndex => true
  | _ => false

def Reference.isForward : Reference → Bool
  | .forwardInput | .forwardOutput => true
  | _ => false

theorem isLoop_iff : r.isLoop = true ↔ r = .loopState ∨ r = .loopIndex := by
  cases r <;> simp [Reference.isLoop]

theorem isItem_iff : r.isItem = true ↔ r = .itemValue ∨ r = .itemIndex := by
  cases r <;> simp [Reference.isItem]

theorem isForward_iff :
    r.isForward = true ↔ r = .forwardInput ∨ r = .forwardOutput := by
  cases r <;> simp [Reference.isForward]

/-- Where the engine evaluates bindings of a node: in the bare context of its scope, in the
guard of a loop after `completed` bodies, and when an activity with a compensation succeeds. -/
inductive Site where
  | entry
  | guard (carry : Value) (completed : Nat)
  | compensation (output : Value)

/-- The bindings of a node that are evaluated at a site. -/
def Node.bindingsAt (node : Node) : Site → List Binding
  | .entry => match node with
    | .activity _ input _ _ _ _ => [input]
    | .while state _ _ _ _ _ | .doWhile state _ _ _ _ _ => [state]
    | other => other.bindings
  | .guard _ _ => match node with
    | .while _ _ condition _ _ _ | .doWhile _ _ condition _ _ _ => condition.bindings
    | _ => []
  | .compensation _ => match node with
    | .activity _ _ _ _ (some (.activity _ input _ _)) _ => [input]
    | _ => []

/-- `act_input_binding`. -/
def Node.inputBinding? : Node → Option Binding
  | .activity _ input _ _ _ _ => some input
  | _ => none

/-- The input of the activity that is compensated, evaluated once more. -/
def forwardInputOf (ctx : EvalCtx) (node : Node) : Option Value :=
  node.inputBinding?.bind fun input => (evalBinding ctx input).toOption

/-- What a site adds to the context of the scope. -/
def Site.adjust (node : Node) (ctx : EvalCtx) : Site → EvalCtx
  | .entry => ctx
  | .guard carry completed => guardCtx ctx carry completed
  | .compensation output =>
    { ctx with forwardInput := forwardInputOf ctx node, forwardOutput := some output }

/-- The context of a site. -/
def evalCtxAt (s : Core) (sc : ScopeState) (node : Node) (site : Site) : Result EvalCtx :=
  site.adjust node <$> evalCtx s sc

/-- The bindings that the compiler checks are those of the sites. -/
theorem mem_bindings_of_mem_bindingsAt (h : b ∈ node.bindingsAt site) : b ∈ node.bindings := by
  cases site with
  | entry =>
    cases node with
    | activity a input t r compensation n =>
      rcases compensation with _ | (_ | _) <;> simp_all [Node.bindingsAt, Node.bindings]
    | _ => simp_all [Node.bindingsAt, Node.bindings]
  | guard =>
    cases node <;> simp_all [Node.bindingsAt, Node.bindings]
  | compensation =>
    cases node with
    | activity a input t r compensation n =>
      rcases compensation with _ | (_ | _) <;> simp_all [Node.bindingsAt, Node.bindings]
    | _ => simp_all [Node.bindingsAt]

/-- The nearest scope of a kind, from a scope upwards. -/
inductive Nearest (s : Core) (P : ScopeState → Prop) : ScopeState → ScopeState → Prop
  | here {sc : ScopeState} (h : P sc) : Nearest s P sc sc
  | above {sc up found : ScopeState} {a : ActivationId} {act : ActivationState} (h : ¬ P sc)
      (hrole : sc.role.activation? = some a) (hact : s.activations.lookup a = some act)
      (hup : s.scopes.lookup act.scope = some up) (hfound : Nearest s P up found) :
      Nearest s P sc found

/-- What a reference to a context means at a site. -/
def Meaning (s : Core) (sc : ScopeState) (node : Node) : Site → Reference → Value → Prop
  | .guard carry _, .loopState, v => v = carry
  | .guard _ completed, .loopIndex, v => v = .int completed
  | _, .loopState, v => ∃ body a i, Nearest s (fun sc => ∃ a i, sc.role = .loopBody a i) sc body ∧
      body.role = .loopBody a i ∧ v = ((s.loopCarry.lookup a).map (·.1)).getD body.input
  | _, .loopIndex, v => ∃ body a i, Nearest s (fun sc => ∃ a i, sc.role = .loopBody a i) sc body ∧
      body.role = .loopBody a i ∧ v = .int i
  | _, .itemValue, v => ∃ body a i,
      Nearest s (fun sc => ∃ a i, sc.role = .foreachItem a i) sc body ∧
      body.role = .foreachItem a i ∧ v = body.input
  | _, .itemIndex, v => ∃ body a i,
      Nearest s (fun sc => ∃ a i, sc.role = .foreachItem a i) sc body ∧
      body.role = .foreachItem a i ∧ v = .int i
  | .compensation _, .forwardInput, v => ∃ ctx input, evalCtx s sc = .ok ctx ∧
      node.inputBinding? = some input ∧ evalBinding ctx input = .ok v
  | .compensation output, .forwardOutput, v => v = output
  | _, .forwardInput, _ | _, .forwardOutput, _ => False
  | _, _, _ => True

/-- Every reference to a context that is evaluated for a node has its value and its meaning. -/
def ContextsResolve (s : Core) (sc : ScopeState) (node : Node) : Prop :=
  ∀ site, ∀ b ∈ node.bindingsAt site, ∀ r ∈ b.references, r.isLoop ∨ r.isItem ∨ r.isForward →
    ∃ ctx v, evalCtxAt s sc node site = .ok ctx ∧ evalRef ctx r = .ok v ∧ Meaning s sc node site r v

/-- No reference of a kind occurs in the bindings of a site. -/
def Node.Avoids (node : Node) (site : Site) (kind : Reference → Bool) : Prop :=
  ∀ b ∈ node.bindingsAt site, ∀ r ∈ b.references, kind r = false

/-- Where the compiler would let a node use a context, the node uses it only if the scope itself
is of the kind, apart from a loop's own guard and a compensation. -/
structure Node.Direct (ctx : RegionCtx) (role : ScopeRole) (node : Node) : Prop where
  loop : ctx.inLoop = true ∨ node.isLoop = true → (∀ a i, role ≠ .loopBody a i) →
    node.Avoids .entry (·.isLoop) ∧ ∀ output, node.Avoids (.compensation output) (·.isLoop)
  item : ctx.inForeach = true ∨ node.isForeach = true → (∀ a i, role ≠ .foreachItem a i) →
    ∀ site, node.Avoids site (·.isItem)
  forward : node.hasCompensation = true → node.Avoids .entry (·.isForward)

/-- If the compensation of an activity uses `forward.input`, the input of the activity can be
evaluated. -/
def InputEvaluates (s : Core) (sc : ScopeState) (node : Node) : Prop :=
  ∀ output, ∀ b ∈ node.bindingsAt (.compensation output), .forwardInput ∈ b.references →
    ∃ ctx v, evalCtx s sc = .ok ctx ∧ forwardInputOf ctx node = some v

/-! ## Agreement -/

/-- The context of a scope reads its role. -/
theorem evalCtx_spec (hrun : s.runs.lookup sc.run = some run) :
    ∃ ctx, evalCtx s sc = .ok ctx ∧
      (∀ a i, sc.role = .loopBody a i →
        ctx.loopState = some (((s.loopCarry.lookup a).map (·.1)).getD sc.input) ∧
        ctx.loopIndex = some (i : Int)) ∧
      ((∀ a i, sc.role ≠ .loopBody a i) → ctx.loopState = none ∧ ctx.loopIndex = none) ∧
      (∀ a i, sc.role = .foreachItem a i →
        ctx.itemValue = some sc.input ∧ ctx.itemIndex = some (i : Int)) ∧
      ((∀ a i, sc.role ≠ .foreachItem a i) → ctx.itemValue = none ∧ ctx.itemIndex = none) ∧
      ctx.forwardInput = none ∧ ctx.forwardOutput = none := by
  simp only [evalCtx, okOr, hrun, ok_bind, pure, Except.pure, Except.ok.injEq, exists_eq_left']
  cases sc.role <;> simp

theorem evalCtxAt_eq (h : evalCtx s sc = .ok ectx) :
    evalCtxAt s sc node site = .ok (site.adjust node ectx) := by
  rw [evalCtxAt, h]
  rfl

theorem evalRef_item (hr : r.isItem = true) :
    evalRef (site.adjust node ectx) r = evalRef ectx r := by
  rcases isItem_iff.mp hr with rfl | rfl <;> cases site <;> rfl

theorem evalRef_loop (hsite : ∀ carry completed, site ≠ .guard carry completed)
    (hr : r.isLoop = true) :
    evalRef (site.adjust node ectx) r = evalRef ectx r := by
  cases site with
  | guard carry completed => exact absurd rfl (hsite carry completed)
  | _ => rcases isLoop_iff.mp hr with rfl | rfl <;> rfl

theorem not_evalRef_loop (h : ectx.loopState = none ∧ ectx.loopIndex = none)
    (hr : r.isLoop = true) : evalRef ectx r ≠ .ok v := by
  rcases isLoop_iff.mp hr with rfl | rfl
  · simp [evalRef, h.1]
  · simp [evalRef, h.2, map_eq_ok]

theorem not_evalRef_item (h : ectx.itemValue = none ∧ ectx.itemIndex = none)
    (hr : r.isItem = true) : evalRef ectx r ≠ .ok v := by
  rcases isItem_iff.mp hr with rfl | rfl
  · simp [evalRef, h.1]
  · simp [evalRef, h.2, map_eq_ok]

theorem not_evalRef_forward (h : ectx.forwardInput = none ∧ ectx.forwardOutput = none)
    (hr : r.isForward = true) :
    evalRef ectx r ≠ .ok v := by
  rcases isForward_iff.mp hr with rfl | rfl
  · simp [evalRef, h.1]
  · simp [evalRef, h.2]

/-- A node whose contexts resolve at every site is direct. -/
theorem direct_of_resolve (hrun : s.runs.lookup sc.run = some run)
    (resolve : ContextsResolve s sc node) :
    node.Direct ctx sc.role ∧ InputEvaluates s sc node := by
  obtain ⟨ectx, hctx, -, hnoLoop, -, hnoItem, hforward⟩ := evalCtx_spec hrun
  have hvalue : ∀ site, ∀ b ∈ node.bindingsAt site, ∀ r ∈ b.references,
      r.isLoop ∨ r.isItem ∨ r.isForward → ∃ v, evalRef (site.adjust node ectx) r = .ok v := by
    intro site b hb r hr hkind
    obtain ⟨ectx', v, hectx', hv, -⟩ := resolve site b hb r hr hkind
    rw [evalCtxAt_eq hctx] at hectx'
    exact ⟨v, Except.ok.inj hectx' ▸ hv⟩
  refine ⟨⟨?_, ?_, ?_⟩, ?_⟩
  · intro _ hrole
    have havoid : ∀ site, (∀ carry completed, site ≠ .guard carry completed) →
        node.Avoids site (·.isLoop) := by
      intro site hsite b hb r hr
      refine Bool.eq_false_iff.mpr fun hkind => ?_
      obtain ⟨v, hv⟩ := hvalue site b hb r hr (.inl hkind)
      rw [evalRef_loop hsite hkind] at hv
      exact not_evalRef_loop (hnoLoop hrole) hkind hv
    exact ⟨havoid .entry nofun, fun output => havoid _ nofun⟩
  · intro _ hrole site b hb r hr
    refine Bool.eq_false_iff.mpr fun hkind => ?_
    obtain ⟨v, hv⟩ := hvalue site b hb r hr (.inr (.inl hkind))
    rw [evalRef_item hkind] at hv
    exact not_evalRef_item (hnoItem hrole) hkind hv
  · intro _ b hb r hr
    refine Bool.eq_false_iff.mpr fun hkind => ?_
    obtain ⟨v, hv⟩ := hvalue .entry b hb r hr (.inr (.inr hkind))
    exact not_evalRef_forward hforward hkind hv
  · intro output b hb hr
    obtain ⟨v, hv⟩ := hvalue (.compensation output) b hb _ hr (.inr (.inr rfl))
    exact ⟨ectx, v, hctx, okOr_eq_ok.mp hv⟩

/-- What the compiler has checked about the references of a node. -/
structure Permitted (ctx : RegionCtx) (node : Node) (r : Reference) : Prop where
  loop : r.isLoop = true → ctx.inLoop = true ∨ node.isLoop = true
  item : r.isItem = true → ctx.inForeach = true ∨ node.isForeach = true
  forward : r.isForward = true → ctx.inCompensation = true ∨ node.hasCompensation = true

theorem permitted_of_accepted {key : NodeKey} (accepted : analyzeRegion region ctx = .ok ())
    (hnode : region.node? key = some node) (hb : b ∈ node.bindings) (hr : r ∈ b.references) :
    Permitted ctx node r := by
  obtain ⟨flow, -, hall⟩ := expanded_of_accepted accepted
  obtain ⟨-, available, hcheck⟩ := hall key node hnode
  have hbinding := forM_eq_ok.mp hcheck b hb
  simp only [checkBinding, bind_eq_ok] at hbinding
  obtain ⟨-, -, hrefs⟩ := hbinding
  have href := forM_eq_ok.mp hrefs r hr
  cases r <;> constructor <;>
    simp_all [checkReference, Reference.isLoop, Reference.isItem, Reference.isForward,
      or_iff_not_imp_left]

theorem not_hasCompensation_of_guard {carry : Value} {completed : Nat}
    (hb : b ∈ node.bindingsAt (.guard carry completed)) : node.hasCompensation = false := by
  cases node <;> first | rfl | cases hb

/-- A direct node finds every context that the compiler lets it use. -/
theorem resolve_of_direct {key : NodeKey} (hrun : s.runs.lookup sc.run = some run)
    (accepted : analyzeRegion region ctx = .ok ()) (hcompensation : ctx.inCompensation = false)
    (hnode : region.node? key = some node) (direct : node.Direct ctx sc.role)
    (hinput : InputEvaluates s sc node) :
    ContextsResolve s sc node := by
  obtain ⟨ectx, hctx, hloop, -, hitem, -, -⟩ := evalCtx_spec hrun
  intro site b hb r hr hkind
  have permitted := permitted_of_accepted accepted hnode (mem_bindings_of_mem_bindingsAt hb) hr
  refine ⟨site.adjust node ectx, ?_⟩
  rw [evalCtxAt_eq hctx]
  rcases hkind with hkind | hkind | hkind
  · -- the guard has the loop's own values, elsewhere the scope is a body of the loop
    by_cases hsite : ∃ carry completed, site = .guard carry completed
    · obtain ⟨carry, completed, rfl⟩ := hsite
      rcases isLoop_iff.mp hkind with rfl | rfl
      · exact ⟨carry, rfl, rfl, rfl⟩
      · exact ⟨.int completed, rfl, rfl, rfl⟩
    · have hsite : ∀ carry completed, site ≠ .guard carry completed := fun carry completed h =>
        hsite ⟨carry, completed, h⟩
      have hrole : ∃ a i, sc.role = .loopBody a i := by
        by_contra hno
        obtain ⟨hentry, hcomp⟩ := direct.loop (permitted.loop hkind)
          fun a i h => hno ⟨a, i, h⟩
        cases site with
        | entry => exact Bool.false_ne_true ((hentry b hb r hr).symm.trans hkind)
        | guard carry completed => exact hsite carry completed rfl
        | compensation output =>
          exact Bool.false_ne_true ((hcomp output b hb r hr).symm.trans hkind)
      obtain ⟨a, i, hrole⟩ := hrole
      obtain ⟨hstate, hindex⟩ := hloop a i hrole
      rw [evalRef_loop hsite hkind]
      rcases isLoop_iff.mp hkind with rfl | rfl
      · refine ⟨_, rfl, okOr_eq_ok.mpr hstate, ?_⟩
        cases site with
        | guard carry completed => exact absurd rfl (hsite carry completed)
        | _ => exact ⟨sc, a, i, .here ⟨a, i, hrole⟩, hrole, rfl⟩
      · refine ⟨.int i, rfl, map_eq_ok.mpr ⟨_, okOr_eq_ok.mpr hindex, rfl⟩, ?_⟩
        cases site with
        | guard carry completed => exact absurd rfl (hsite carry completed)
        | _ => exact ⟨sc, a, i, .here ⟨a, i, hrole⟩, hrole, rfl⟩
  · have hrole : ∃ a i, sc.role = .foreachItem a i := by
      by_contra hno
      have havoid := direct.item (permitted.item hkind) (fun a i h => hno ⟨a, i, h⟩) site
      exact Bool.false_ne_true ((havoid b hb r hr).symm.trans hkind)
    obtain ⟨a, i, hrole⟩ := hrole
    obtain ⟨hvalue, hindex⟩ := hitem a i hrole
    rw [evalRef_item hkind]
    rcases isItem_iff.mp hkind with rfl | rfl
    · exact ⟨_, rfl, okOr_eq_ok.mpr hvalue,
        by cases site <;> exact ⟨sc, a, i, .here ⟨a, i, hrole⟩, hrole, rfl⟩⟩
    · exact ⟨.int i, rfl, map_eq_ok.mpr ⟨_, okOr_eq_ok.mpr hindex, rfl⟩,
        by cases site <;> exact ⟨sc, a, i, .here ⟨a, i, hrole⟩, hrole, rfl⟩⟩
  · have hhas : node.hasCompensation = true :=
      (permitted.forward hkind).resolve_left (by simp [hcompensation])
    cases site with
    | entry => exact absurd hkind (by simp [direct.forward hhas b hb r hr])
    | guard carry completed =>
      exact absurd hhas (by simp [not_hasCompensation_of_guard hb])
    | compensation output =>
      rcases isForward_iff.mp hkind with rfl | rfl
      · obtain ⟨ectx', v, hctx', hv⟩ := hinput output b hb hr
        obtain rfl := Except.ok.inj (hctx.symm.trans hctx')
        obtain ⟨input, hbinding, heval⟩ := Option.bind_eq_some_iff.mp hv
        exact ⟨v, rfl, okOr_eq_ok.mpr hv, ectx, input, hctx, hbinding, ok_of_toOption heval⟩
      · exact ⟨output, rfl, rfl, rfl⟩

/-- In every state whose runs have accepted definitions, a node finds every context it refers to,
each with its meaning, exactly when it is direct and the inputs its compensation needs are
there. -/
theorem contexts_resolve_iff {key : NodeKey} {node : Node}
    (accepted : ∀ r run, s.runs.lookup r = some run → validateDefinition run.definition = .ok ())
    (hcontext : ContextAt s k ctx region) (hscope : s.scopes.lookup k = some sc)
    (hnode : region.node? key = some node) :
    ContextsResolve s sc node ↔ node.Direct ctx sc.role ∧ InputEvaluates s sc node := by
  obtain ⟨htree, hcompensation⟩ := hcontext.accepted accepted
  rw [analyzeTree_eq, bind_eq_ok] at htree
  obtain ⟨⟨⟩, hregion, -⟩ := htree
  obtain ⟨run, hrun⟩ : ∃ run, s.runs.lookup sc.run = some run := by
    cases hcontext with
    | root hscope' hrun => exact ⟨_, Option.mem_unique hscope hscope' ▸ hrun⟩
    | body hscope' hrun => exact ⟨_, Option.mem_unique hscope hscope' ▸ hrun⟩
  constructor
  · exact direct_of_resolve hrun
  · rintro ⟨direct, hinput⟩
    exact resolve_of_direct hrun hregion hcompensation hnode direct hinput

/-! ## A saga inside a loop -/

/-- A loop that runs a body once. -/
def onceWorkflow (body : Region) : Definition :=
  sampleWorkflow [] "loop" [("done", .complete (.literal .null)),
    ("loop", .repeat (.literal (.int 1)) (.literal .null) .null 1 body "done")]

/-- The body of a saga that ends with the state of the loop around the saga. -/
def leaveRegion : Region := sampleRegion "leave" [("leave", .complete (.from .loopState none))]

/-- A loop body with this saga. -/
def sagaLoopBody : Region :=
  sampleRegion "inner" [("end", .complete (.literal .null)),
    ("inner", .saga (.literal .null) leaveRegion "end")]

/-- An activity that takes the state of the loop and whose compensation takes it again. -/
def carryNode : Node :=
  .activity ⟨"work", 1⟩ (.from .loopState none) none .forwardDefault
    (some (.activity ⟨"undo", 1⟩ (.from .forwardInput none) none none)) "end"

/-- A loop body with this activity. -/
def carryLoopBody : Region :=
  sampleRegion "work" [("end", .complete (.literal .null)), ("work", carryNode)]

/-- The context of the body of `onceWorkflow`. -/
def loopBodyCtx : RegionCtx where
  inputSchema := .null
  outputSchema := .null
  inLoop := true

/-- Starts the loop with the saga in its body. -/
def startSagaLoop : List Command := [{
  id := ⟨1⟩
  body := .start ⟨1⟩ (onceWorkflow sagaLoopBody) .null (sampleCatalog [] .manual)
  time := 1 }]

/-- The body of the saga is not a loop body, and the first progress of the run is refused. -/
theorem sagaLoop_out_of_context : ∃ log final,
    validateDefinition (onceWorkflow sagaLoopBody) = .ok () ∧
    (applyEntries sampleEnv .stored (.empty sampleCluster) startSagaLoop).1 = final ∧
    Run sampleEnv (.empty sampleCluster) log final ∧ log.length = 1 ∧
    decide sampleEnv .stored final { id := ⟨2⟩, body := .progress ⟨1⟩, time := 2 } =
      .error (invalid "loop.state is not in context") := by
  have hrun := applyEntries_run sampleEnv .stored (.empty sampleCluster) startSagaLoop
  have hcheck :
      ((applyEntries sampleEnv .stored (.empty sampleCluster) startSagaLoop).2.length = 1 &&
      match decide sampleEnv .stored
        (applyEntries sampleEnv .stored (.empty sampleCluster) startSagaLoop).1
        { id := ⟨2⟩, body := .progress ⟨1⟩, time := 2 } with
      | .error fault => Decidable.decide (fault = invalid "loop.state is not in context")
      | .ok _ => false) = true := by
    decide +kernel
  rw [Bool.and_eq_true, decide_eq_true_eq] at hcheck
  obtain ⟨hlog, hcheck⟩ := hcheck
  refine ⟨_, _, ok_of_toOption (by decide +kernel), rfl, hrun, hlog, ?_⟩
  split at hcheck
  · next fault hfault => exact hfault.trans (congrArg _ (of_decide_eq_true hcheck))
  · cases hcheck

/-- A run inside the first body of its loop. -/
def carryCore : Core :=
  { (State.empty sampleCluster).toCore with
    runs := (∅ : Table RunId RunState).insert ⟨1⟩
      (newRun ⟨1⟩ (onceWorkflow carryLoopBody) (sampleCatalog ["work", "undo"] .manual) none)
    scopes := ((∅ : Table ScopeId ScopeState).insert ⟨1⟩ {
      id := ⟨1⟩, run := ⟨1⟩, parent := none, role := .root, input := .null, status := .open
      outputs := [], current := some "loop" }).insert ⟨2⟩ {
      id := ⟨2⟩, run := ⟨1⟩, parent := some ⟨65⟩, role := .loopBody ⟨65⟩ 0, input := .null
      status := .open, outputs := [], current := some "work" }
    activations := (∅ : Table ActivationId ActivationState).insert ⟨65⟩ {
      id := ⟨65⟩, run := ⟨1⟩, scope := ⟨1⟩, node := "loop", status := .open, role := .forward
      claim := none, attempts := 0, readyOrder := 0 } }

/-- The activity in the loop body is direct and finds the state of its loop. -/
theorem carryNode_resolves : ∃ sc, carryCore.scopes.lookup ⟨2⟩ = some sc ∧
    ContextsResolve carryCore sc carryNode := by
  have hrun : carryCore.runs.lookup ⟨1⟩ = some (newRun ⟨1⟩ (onceWorkflow carryLoopBody)
      (sampleCatalog ["work", "undo"] .manual) none) := rfl
  have hroot := ContextAt.root (show carryCore.scopes.lookup ⟨1⟩ = _ from rfl) hrun rfl
  have hbody : ContextAt carryCore ⟨2⟩ loopBodyCtx carryLoopBody := by
    have hscope : carryCore.scopes.lookup ⟨2⟩ = _ := rfl
    have hact : carryCore.activations.lookup ⟨65⟩ = _ := rfl
    have hnode : (onceWorkflow carryLoopBody).root.node? "loop" = _ := rfl
    exact ContextAt.body hscope hrun rfl hact hroot hnode rfl
  have accepted : ∀ r run, carryCore.runs.lookup r = some run →
      validateDefinition run.definition = .ok () := by
    intro r run h
    by_cases hr : r = ⟨1⟩
    · subst hr
      obtain rfl := Option.mem_unique hrun h
      exact ok_of_toOption (by decide +kernel)
    · rw [show carryCore.runs.lookup r = none from AList.lookup_insert_ne hr] at h
      cases h
  have hentry : carryNode.bindingsAt .entry = [.from .loopState none] := rfl
  refine ⟨_, rfl, (contexts_resolve_iff accepted hbody rfl (show carryLoopBody.node? "work" = _
    from rfl)).mpr ⟨⟨?_, ?_, ?_⟩, ?_⟩⟩
  · intro _ hrole
    exact absurd rfl (hrole ⟨65⟩ 0)
  · rintro (h | h) <;> cases h
  · intro _ b hb r hr
    rw [hentry, List.mem_singleton] at hb
    subst hb
    rw [Binding.references, List.mem_singleton] at hr
    subst hr
    rfl
  · intro output b hb _
    exact ⟨_, .null, rfl, rfl⟩

end Graphrun
