import Graphrun.Engine.Nesting

/-!
# What an open activation evaluates stays the same

A `foreach` evaluates its items whenever it progresses, and a `repeat` its count. While such an
activation is open, nothing that its bindings can refer to changes: outputs are recorded in its
scope only when it finishes, and the loop around it does not go on before its scope has
completed. So the children of an open `foreach` are items of the list that it evaluates now, and
a `repeat` that carries a value still counts to a number other than zero (`Measured`).
-/

namespace Graphrun

open Lib

variable {env : Env} {o : Enumeration} {s s' : Core} {e : DomainEvent} {time : Nat} {ids : IdGen}
  {es : List DomainEvent} {scope : ScopeState} {binding count state : Binding} {schema : SchemaRef}
  {maxIterations : Nat} {body : Region} {next : NodeKey} {role : ScopeRole}

/-! ## Contexts -/

/-- The context of a scope depends on the scope, on the input of its run and, in the body of a
loop, on what the loop carries. -/
theorem evalCtx_congr {scope' : ScopeState}
    (hinput : (s'.runs.lookup scope.run).map (·.input) = (s.runs.lookup scope.run).map (·.input))
    (hscope : scope'.id = scope.id ∧ scope'.run = scope.run ∧ scope'.role = scope.role ∧
      scope'.input = scope.input ∧ scope'.outputs = scope.outputs)
    (hcarry : ∀ a i, scope.role = .loopBody a i → s'.loopCarry.lookup a = s.loopCarry.lookup a) :
    evalCtx s' scope' = evalCtx s scope := by
  obtain ⟨id, run, parent, role, input, status, outputs, current⟩ := scope
  obtain ⟨id', run', parent', role', input', status', outputs', current'⟩ := scope'
  simp only at hinput hcarry hscope
  obtain ⟨rfl, rfl, rfl, rfl, rfl⟩ := hscope
  simp only [evalCtx]
  cases hr : s.runs.lookup run' with
  | none =>
    rw [hr, Option.map_none, Option.map_eq_none_iff] at hinput
    rw [hinput]
    rfl
  | some r =>
    rw [hr, Option.map_some, Option.map_eq_some_iff] at hinput
    obtain ⟨r', hr', hsame⟩ := hinput
    rw [hr', okOr, okOr, ok_bind, ok_bind, hsame]
    cases role' with
    | loopBody a i => simp only [hcarry a i rfl]
    | _ => rfl

/-- The input of a run is set when it is admitted. -/
theorem input_evolve {run : RunId}
    (h : ∀ definition version input root policy time,
      e ≠ .runAdmitted run definition version input root policy time) :
    ((evolve s e).runs.lookup run).map (·.input) = (s.runs.lookup run).map (·.input) := by
  rw [lookup_runs_evolve, Option.map_map]
  cases s.runs.lookup run with
  | none => rfl
  | some r =>
    simp only [Option.map_some, Function.comp_apply, Option.some.injEq]
    cases e with
    | runAdmitted run' definition version input root policy time =>
      simp only [RunState.after]
      split
      · next hrun => exact absurd (by rw [hrun]) (h definition version input root policy time)
      · rfl
    | _ => first | rfl | (simp only [RunState.after]; split <;> rfl)

/-! ## The invariant -/

/-- The items of a `foreach` and how many of them it works on at once. -/
def Node.window? : Node → Option (Binding × Nat)
  | .foreach items _ _ maxConcurrency _ _ => some (items, maxConcurrency)
  | _ => none

def Node.count? : Node → Option Binding
  | .repeat count .. => some count
  | _ => none

/-- An activation is at a node of the kind that `p` reads. -/
def AtNode {α : Type} (p : Node → Option α) (s : Core) (a : ActivationId) (act : ActivationState)
    (x : α) : Prop :=
  s.activations.lookup a = some act ∧ act.role = .forward ∧
    ∃ node, nodeOf s act.scope act.node = some node ∧ p node = some x

structure Measured (s : Core) : Prop where
  carriers : ∀ a v, s.loopCarry.lookup a = some v → ∃ act, s.activations.lookup a = some act
  listed : ∀ k sc a i act w, s.scopes.lookup k = some sc → sc.role = .foreachItem a i →
    AtNode Node.window? s a act w → act.status = .open →
    ∃ list, Evaluates s act w.1 (.array list) ∧ list[i]? = some sc.input
  windowed : ∀ a act w ks, AtNode Node.window? s a act w → OpenChildren s a ks → ks.length ≤ w.2
  counted : ∀ a v act count, s.loopCarry.lookup a = some v → AtNode Node.count? s a act count →
    act.status = .open → ∃ c, Evaluates s act count (.int c) ∧ c ≠ 0

/-- What an event has to respect in order to leave alone what is evaluated. -/
def Measuring (s : Core) : DomainEvent → Prop
  | .runAdmitted run _ _ _ _ _ _ => ∀ a act, s.activations.lookup a = some act → act.run ≠ run
  | .scopeOpened _ _ _ role input => ∀ a act i,
    (∀ w, role = .foreachItem a i → AtNode Node.window? s a act w →
      OpensItem s act w.1 w.2 i input) ∧
    (∀ count, role = .loopBody a i → AtNode Node.count? s a act count →
      ∃ c, Evaluates s act count (.int c) ∧ c ≠ 0)
  | .nodeOutputRecorded _ k node output => ∀ a act, s.activations.lookup a = some act →
    act.scope = k → act.role = .forward → act.status = .open → act.node = node ∧
      ∀ w, AtNode Node.window? s a act w → Gathers s act w.1 output
  | .guardRecorded _ a _ _ _ => ∃ act node, s.activations.lookup a = some act ∧
    nodeOf s act.scope act.node = some node ∧ node.isGuarded = true
  | _ => True

/-- The context in which an activation that stays open evaluates its bindings is as before. -/
theorem evalCtx_evolve {a : ActivationId} {act : ActivationState} (tree : Tree s)
    (placed : Placed s e) (nested : Nested s) (nesting : Nesting s e) (measuring : Measuring s e)
    (hact : s.activations.lookup a = some act) (hforward : act.role = .forward)
    (hopen : statusAfter s e a act = .open) (hscope : s.scopes.lookup act.scope = some scope) :
    ∃ scope', (evolve s e).scopes.lookup act.scope = some scope' ∧
      evalCtx (evolve s e) scope' = evalCtx s scope := by
  have hbefore : act.status = .open := statusAfter_eq_open hopen
  have huncompleted : scope.status.isCompleted = false :=
    nested.within a act hact (.inl (by simp [hbefore])) act scope hact hscope
  refine ⟨_, placed.scope hscope, ?_⟩
  refine evalCtx_congr (input_evolve ?_) ⟨rfl, rfl, rfl, rfl, ?_⟩ ?_
  · rintro definition version input root policy time rfl
    obtain ⟨sc, hsc, hrun⟩ := tree.placed a act hact
    obtain rfl := Option.mem_unique hscope hsc
    exact measuring a act hact hrun.symm
  · -- An output is recorded in the scope by the activation itself, which closes it.
    cases e with
    | nodeOutputRecorded run k node output =>
      simp only [ScopeState.after, outputsAfter]
      split
      · next hk =>
        have hnode := (measuring a act hact hk hforward hbefore).1
        simp [statusAfter, hk, hnode, hbefore] at hopen
      · rfl
    | _ => rfl
  · -- The loop around the scope waits for it.
    intro b i hrole
    have hparent : scope.parent = some b := (tree.parent _ scope hscope).trans (by rw [hrole]; rfl)
    rw [evolve_loopCarry]
    cases e with
    | scopeOpened run k parent role input =>
      cases role with
      | loopBody b' j =>
        by_cases hb : b = b'
        · subst hb
          obtain ⟨-, -, -, -, -, -, -, hothers⟩ := nesting.2 b placed.2.1
          rw [(hothers rfl _ scope hscope hparent).1] at huncompleted
          cases huncompleted
        · simp [loopCarryAfter, hb]
      | _ => rfl
    | scopeCompleted run k output =>
      by_cases hk : act.scope = k
      · simp [statusAfter, hk] at hopen
      · cases hsc : s.scopes.lookup k with
        | none => simp [loopCarryAfter, hsc]
        | some sc =>
          cases hrole' : sc.role with
          | loopBody b' j =>
            by_cases hb : b = b'
            · subst hb
              have hparent' : sc.parent = some b :=
                (tree.parent k sc hsc).trans (by rw [hrole']; rfl)
              obtain ⟨hdone, -⟩ := nested.last b k act.scope sc scope hsc hscope hparent' hparent
                (fun h => hk h.symm) (by rw [hrole']; rfl) (nesting.1 sc hsc)
              rw [hdone] at huncompleted
              cases huncompleted
            · simp [loopCarryAfter, hsc, hrole', hb]
          | _ => simp [loopCarryAfter, hsc, hrole']
    | guardRecorded run b' cont j carry =>
      by_cases hb : b = b'
      · subst hb
        rw [nesting.1 _ scope hscope hparent] at huncompleted
        cases huncompleted
      · simp [loopCarryAfter, hb]
    | _ => rfl

/-- An activation that stays open evaluates its bindings as before. -/
theorem Evaluates.evolve {a : ActivationId} {act : ActivationState} {value : Value} (tree : Tree s)
    (placed : Placed s e) (nested : Nested s) (nesting : Nesting s e) (measuring : Measuring s e)
    (hact : s.activations.lookup a = some act) (hforward : act.role = .forward)
    (hopen : statusAfter s e a act = .open) (h : Evaluates s act binding value) :
    Evaluates (Graphrun.evolve s e) (act.after s e a) binding value := by
  obtain ⟨scope, ctx, hscope, hctx, hvalue⟩ := h
  obtain ⟨scope', hscope', hsame⟩ :=
    evalCtx_evolve tree placed nested nesting measuring hact hforward hopen hscope
  exact ⟨scope', ctx, hscope', hsame.trans hctx, hvalue⟩

section Evolve

variable {a : ActivationId} {act : ActivationState} {α : Type} {p : Node → Option α} {x : α}
  (tree : Tree s) (placed : Placed s e) (nested : Nested s) (nesting : Nesting s e)
  (measuring : Measuring s e) (measured : Measured s)

include tree placed in
/-- An activation that was there before was at its node. -/
theorem AtNode.before {old : ActivationState} (h : AtNode p (evolve s e) a act x)
    (hold : s.activations.lookup a = some old) : AtNode p s a old x ∧ act = old.after s e a := by
  obtain ⟨hact, hforward, node, hnode, hx⟩ := h
  obtain rfl := Option.mem_unique hact (placed.activation hold)
  rw [tree.node_kept (keeps_evolve placed old.run) hold hact] at hnode
  exact ⟨⟨hold, hforward, node, hnode, hx⟩, rfl⟩

include tree placed measuring measured in
/-- An activation that carries a value was there before. -/
theorem Measured.carrier_before {v : Value × Nat}
    (h : (Graphrun.evolve s e).loopCarry.lookup a = some v) :
    ∃ act, s.activations.lookup a = some act := by
  rcases carry_after_cases h with h | ⟨_, _, _, _, _, rfl, -⟩ |
    ⟨_, k, _, sc, _, rfl, hsc, hrole, -⟩ | ⟨_, _, _, _, rfl, -⟩
  · exact measured.carriers a v h
  · obtain ⟨act, -, hact, -⟩ := placed.2.2.2 a placed.2.1
    exact ⟨act, hact⟩
  · have hparent : sc.parent = some a := (tree.parent k sc hsc).trans (by rw [hrole]; rfl)
    obtain ⟨act, hact, -⟩ := tree.parent_exists hsc hparent
    exact ⟨act, hact⟩
  · obtain ⟨act, -, hact, -⟩ := measuring
    exact ⟨act, hact⟩

include nested measuring measured in
/-- A `repeat` that carries a value carried one before, or opens its first body. -/
theorem Measured.counted_evolve {v : Value × Nat}
    (hv : (Graphrun.evolve s e).loopCarry.lookup a = some v)
    (hat : AtNode Node.count? s a act count) (hopen : act.status = .open) :
    ∃ c, Evaluates s act count (.int c) ∧ c ≠ 0 := by
  rcases carry_after_cases hv with hv | ⟨_, _, _, i, _, rfl, -⟩ |
    ⟨_, k, _, sc, i, rfl, hsc, hrole, -⟩ | ⟨_, _, _, _, rfl, -⟩
  · exact measured.counted a v act count hv hat hopen
  · exact (measuring a act i).2 count rfl hat
  · obtain ⟨v', n, hv', -⟩ := nested.carried k sc a i hsc hrole
    exact measured.counted a _ act count hv' hat hopen
  · obtain ⟨act', node, hact', hnode', hguarded⟩ := measuring
    obtain ⟨hact, -, node', hnode, hcount⟩ := hat
    obtain rfl := Option.mem_unique hact hact'
    obtain rfl := Option.mem_unique hnode hnode'
    cases node' <;> first | (cases hcount; done) | cases hguarded

theorem ScopeRole.foreachItem_of_fits {node : Node} {w : Binding × Nat}
    (hnode : node.window? = some w) (h : role.fits node = true) :
    ∃ a i, role = .foreachItem a i := by
  cases node <;> first | (cases hnode; done) | (cases role <;> first | exact ⟨_, _, rfl⟩ | cases h)

include tree placed nesting measuring measured in
/-- A `foreach` has room for a child that opens. -/
theorem Measured.windowed_evolve {w : Binding × Nat} {ks : List ScopeId}
    (hat : AtNode Node.window? (Graphrun.evolve s e) a act w)
    (hks : OpenChildren (Graphrun.evolve s e) a ks) : ks.length ≤ w.2 := by
  cases ks with
  | nil => exact Nat.zero_le _
  | cons first rest =>
    obtain ⟨sc, hsc, hparent, -⟩ := hks.2 first List.mem_cons_self
    obtain ⟨old, hold⟩ := parent_before tree placed hsc hparent
    obtain ⟨hbefore, -⟩ := hat.before tree placed hold
    -- an open child was open before, or is the one that opens
    have hcases : ∀ k ∈ first :: rest, (∃ sc, s.scopes.lookup k = some sc ∧ sc.parent = some a ∧
        sc.status = .open) ∨ ∃ run role input, e = .scopeOpened run k (some a) role input := by
      intro k hk
      obtain ⟨sc, hsc, hparent, hopen⟩ := hks.2 k hk
      rcases scope_after_cases hsc with ⟨old, hold, rfl⟩ | ⟨run, parent, role, input, rfl, rfl⟩
      · exact .inl ⟨old, hold, hparent, scopeStatus_open hopen⟩
      · exact .inr ⟨run, role, input, by rw [← hparent]⟩
    by_cases hopens : ∃ run k role input, e = .scopeOpened run k (some a) role input
    · obtain ⟨run, k, role, input, rfl⟩ := hopens
      obtain ⟨old', node, hold', -, -, hnode, hfits, -⟩ := nesting.2 a rfl
      obtain rfl := Option.mem_unique hold hold'
      have ⟨_, _, node', hnode', hwindow⟩ := hbefore
      obtain rfl := Option.mem_unique hnode hnode'
      obtain ⟨b, i, rfl⟩ := ScopeRole.foreachItem_of_fits hwindow hfits
      obtain rfl : a = b := Option.some.inj placed.2.1
      have hothers : OpenChildren s old.id ((first :: rest).erase k) := by
        rw [tree.keyed.activations a old hold]
        refine ⟨hks.1.erase k, fun k' hk' => ?_⟩
        obtain ⟨hne, hmem⟩ := hks.1.mem_erase_iff.mp hk'
        refine (hcases k' hmem).resolve_right ?_
        rintro ⟨_, _, _, heq⟩
        cases heq
        exact hne rfl
      have hroom := ((measuring a old i).1 w rfl hbefore).room _ hothers
      rw [List.length_erase] at hroom
      split at hroom <;> omega
    · exact measured.windowed a old w _ hbefore ⟨hks.1, fun k hk => (hcases k hk).resolve_right
        fun ⟨run, role, input, heq⟩ => hopens ⟨run, k, role, input, heq⟩⟩

include tree placed nested nesting measuring measured in
/-- Events that respect what is evaluated keep the measures. -/
theorem Measured.evolve : Measured (evolve s e) where
  carriers a v h := by
    obtain ⟨act, hact⟩ := measured.carrier_before tree placed measuring h
    exact ⟨_, placed.activation hact⟩
  listed k sc a i act w hk hrole hat hopen := by
    obtain ⟨old, hold⟩ := parent_before tree placed hk
      (((tree.evolve placed).parent k sc hk).trans (by rw [hrole]; rfl))
    obtain ⟨hbefore, rfl⟩ := hat.before tree placed hold
    have hevaluates : ∃ list, Evaluates s old w.1 (.array list) ∧ list[i]? = some sc.input := by
      rcases scope_after_cases hk with ⟨sc₀, hk₀, rfl⟩ | ⟨run, parent, role, input, rfl, rfl⟩
      · exact measured.listed k sc₀ a i old w hk₀ hrole hbefore (statusAfter_eq_open hopen)
      · exact ((measuring a old i).1 w hrole hbefore).listed
    obtain ⟨list, hlist, hinput⟩ := hevaluates
    exact ⟨list, hlist.evolve tree placed nested nesting measuring hold hat.2.1 hopen, hinput⟩
  windowed a act w ks := measured.windowed_evolve tree placed nesting measuring
  counted a v act count hv hat hopen := by
    obtain ⟨old, hold⟩ := measured.carrier_before tree placed measuring hv
    obtain ⟨hbefore, rfl⟩ := hat.before tree placed hold
    obtain ⟨c, hcount, hc⟩ := measured.counted_evolve nested measuring hv hbefore
      (statusAfter_eq_open hopen)
    exact ⟨c, hcount.evolve tree placed nested nesting measuring hold hat.2.1 hopen, hc⟩

end Evolve

/-! ## Other changes -/

theorem carry_quiet {a : ActivationId} {act : ActivationState} (change : Quiet s s')
    (h : s'.activations.lookup a = some act) :
    s'.loopCarry.lookup a = s.loopCarry.lookup a := by
  cases change with
  | admitted | stamped | dropped => rfl
  | @retired gone =>
    rw [dropRun, Table.lookup_retain, Option.filter_eq_some_iff] at h
    have hne : act.run ≠ gone := of_decide_eq_true h.2
    cases hcarry : s.loopCarry.lookup a with
    | none => simp [dropRun, Table.lookup_retain, hcarry]
    | some v => simp [dropRun, Table.lookup_retain, hcarry, h.1, hne]

theorem input_quiet {run : RunId} {r r' : RunState} (change : Quiet s s')
    (h : s.runs.lookup run = some r) (h' : s'.runs.lookup run = some r') : r'.input = r.input := by
  cases change with
  | admitted hnew =>
    rw [Table.lookup_insert_eq] at h'
    split at h'
    · next hrun =>
      subst hrun
      rw [hnew] at h
      cases h
    · rw [Option.mem_unique h h']
  | stamped =>
    simp only [Core.modifyRun, Table.lookup_modify, h] at h'
    split at h'
    · rw [← Option.some.inj h']
    · rw [← Option.some.inj h']
  | dropped => rw [Option.mem_unique h h']
  | retired =>
    simp only [dropRun, Table.lookup_erase_eq] at h'
    split at h'
    · cases h'
    · rw [Option.mem_unique h h']

theorem evalCtx_quiet {k : ScopeId} (tree : Tree s) (change : Quiet s s')
    (hscope : s'.scopes.lookup k = some scope) : evalCtx s' scope = evalCtx s scope := by
  have tree' := tree.quiet change
  refine evalCtx_congr ?_ ⟨rfl, rfl, rfl, rfl, rfl⟩ fun a i hrole => ?_
  · obtain ⟨r', hr'⟩ := quiet_run_of_scope tree change hscope
    obtain ⟨r, hr⟩ := tree.run_of_scope (change.scopes hscope)
    rw [hr, hr', Option.map_some, Option.map_some, input_quiet change hr hr']
  · have hparent : scope.parent = some a := (tree'.parent _ scope hscope).trans (by rw [hrole]; rfl)
    obtain ⟨act', hact', -⟩ := tree'.parent_exists hscope hparent
    exact carry_quiet change hact'

theorem Evaluates.quiet {act : ActivationState} {value : Value} {sc : ScopeState} (tree : Tree s)
    (change : Quiet s s') (hsc : s'.scopes.lookup act.scope = some sc)
    (h : Evaluates s act binding value) :
    Evaluates s' act binding value := by
  obtain ⟨scope, ctx, hscope, hctx, hvalue⟩ := h
  obtain rfl := Option.mem_unique hscope (change.scopes hsc)
  exact ⟨scope, ctx, hsc, (evalCtx_quiet tree change hsc).trans hctx, hvalue⟩

theorem Measured.quiet (change : Quiet s s') (tree : Tree s) (measured : Measured s) :
    Measured s' := by
  have tree' := tree.quiet change
  have hbefore {α a act x} {p : Node → Option α} (h : AtNode p s' a act x) :
      AtNode p s a act x := by
    obtain ⟨ha, hforward, node, hnode, hx⟩ := h
    obtain ⟨sc, hsc, hrun⟩ := tree'.placed a act ha
    obtain ⟨r, hr⟩ := quiet_run_of_scope tree change hsc
    rw [hrun] at hr
    have hold := change.activations ha
    rw [tree.node_kept (keeps_quiet change hr) hold ha] at hnode
    exact ⟨hold, hforward, node, hnode, hx⟩
  refine ⟨?_, ?_, ?_, ?_⟩
  · intro a v hv
    cases change with
    | admitted | stamped | dropped => exact measured.carriers a v hv
    | @retired gone =>
      rw [dropRun, Table.lookup_retain, Option.filter_eq_some_iff] at hv
      obtain ⟨act, hact⟩ := measured.carriers a v hv.1
      have hne : act.run ≠ gone := by simpa [hact] using hv.2
      exact ⟨act, by simp [dropRun, Table.lookup_retain, hact, hne]⟩
  · intro k sc a i act w hk hrole hat hopen
    obtain ⟨list, hlist, hinput⟩ :=
      measured.listed k sc a i act w (change.scopes hk) hrole (hbefore hat) hopen
    obtain ⟨sc', hsc', -⟩ := tree'.placed a act hat.1
    exact ⟨list, hlist.quiet tree change hsc', hinput⟩
  · intro a act w ks hat hks
    refine measured.windowed a act w ks (hbefore hat) ⟨hks.1, fun k hk => ?_⟩
    obtain ⟨sc, hsc, hopen⟩ := hks.2 k hk
    exact ⟨sc, change.scopes hsc, hopen⟩
  · intro a v act count hv hat hopen
    obtain ⟨c, hcount, hc⟩ :=
      measured.counted a v act count (carry_quiet change hat.1 ▸ hv) (hbefore hat) hopen
    obtain ⟨sc', hsc', -⟩ := tree'.placed a act hat.1
    exact ⟨c, hcount.quiet tree change hsc', hc⟩

theorem measured_empty (clusterId : String) : Measured (State.empty clusterId).toCore where
  carriers _ _ h := by cases h
  listed _ _ _ _ _ _ h := by cases h
  windowed _ _ _ _ h := by cases h.1
  counted _ _ _ _ h := by cases h

/-! ## Finishing -/

/-- The value of a binding is determined. -/
theorem Evaluates.unique {act : ActivationState} {v v' : Value} (h : Evaluates s act binding v)
    (h' : Evaluates s act binding v') : v = v' := by
  obtain ⟨scope, ctx, hscope, hctx, hv⟩ := h
  obtain ⟨scope', ctx', hscope', hctx', hv'⟩ := h'
  obtain rfl := Option.mem_unique hscope hscope'
  obtain rfl := Except.ok.inj (hctx.symm.trans hctx')
  exact Except.ok.inj (hv.symm.trans hv')

/-- The nodes that have no children. -/
def Node.isLeaf : Node → Bool
  | .activity .. | .complete _ | .fail _ | .delay .. | .waitUntil .. | .waitSignal .. => true
  | _ => false

theorem ScopeRole.isLeaf_of_fits {node : Node} (h : role.fits node = true) :
    node.isLeaf = false := by
  cases role <;> cases node <;> first | rfl | cases h

theorem ScopeRole.loopBody_of_fits {node : Node} (hnode : node.count? = some count)
    (h : role.fits node = true) : ∃ a i, role = .loopBody a i := by
  cases node <;> first | (cases hnode; done) | (cases role <;> first | exact ⟨_, _, rfl⟩ | cases h)

theorem ScopeRole.loopBody_of_guarded {node : Node} (hnode : node.isGuarded = true)
    (h : role.fits node = true) : ∃ a i, role = .loopBody a i := by
  cases role <;> cases node <;> first
    | exact ⟨_, _, rfl⟩
    | (exfalso; simp [ScopeRole.fits] at h; done)
    | simp [Node.isGuarded] at hnode

theorem ScopeRole.parallelBranch_of_fits {branches : List ParallelBranch}
    (h : role.fits (.parallel branches next) = true) :
    ∃ a name, role = .parallelBranch a name := by
  cases role <;> first | exact ⟨_, _, rfl⟩ | cases h

section Children

variable {a : ActivationId} {act : ActivationState} {node : Node} {k : ScopeId} {sc : ScopeState}

/-- A child has a role for its parent's node. -/
theorem Tree.body_of_child (tree : Tree s) (hk : s.scopes.lookup k = some sc)
    (hparent : sc.parent = some a) (hact : s.activations.lookup a = some act)
    (hnode : nodeOf s act.scope act.node = some node) :
    ∃ region, bodyRegion sc.role node = some region := by
  obtain ⟨region, hregion⟩ := tree.region k sc hk
  have hrole : sc.role.activation? = some a := (tree.parent k sc hk).symm.trans hparent
  cases hregion with
  | root hscope _ hroot =>
    obtain rfl := Option.mem_unique hk hscope
    rw [hroot] at hrole
    cases hrole
  | body hscope _ hrole' hact' habove hnode' hbody =>
    obtain rfl := Option.mem_unique hk hscope
    obtain rfl := Option.mem_unique hrole hrole'
    obtain rfl := Option.mem_unique hact hact'
    obtain rfl := Option.mem_unique hnode (nodeOf_iff.mpr ⟨_, habove, hnode'⟩)
    exact ⟨region, hbody⟩

theorem Nested.barren_of_leaf (nested : Nested s) (hact : s.activations.lookup a = some act)
    (hnode : nodeOf s act.scope act.node = some node) (hleaf : node.isLeaf = true) :
    Barren s a := by
  intro k sc hk hparent
  have hfits := nested.fits k sc a act node hk hparent hact hnode
  rw [ScopeRole.isLeaf_of_fits hfits] at hleaf
  cases hleaf

theorem Nested.joins_of_child (nested : Nested s) (hact : s.activations.lookup a = some act)
    (hnode : nodeOf s act.scope act.node = some node) (hjoin : node.isJoin = false) :
    ∀ k sc, s.scopes.lookup k = some sc → sc.parent = some a → sc.role.joins = false := by
  intro k sc hk hparent
  rw [ScopeRole.joins_of_fits (nested.fits k sc a act node hk hparent hact hnode)]
  exact hjoin

/-- A `repeat` that skips its bodies has none. -/
theorem Measured.allDone_of_skipped (measured : Measured s) (nested : Nested s) (tree : Tree s)
    (hat : AtNode Node.count? s a act count) (hopen : act.status = .open)
    (hzero : Evaluates s act count (.int 0)) : AllDone s a := by
  intro k sc hk hparent
  have ⟨hact, _, node, hnode, hcount⟩ := hat
  obtain ⟨b, i, hsc⟩ :=
    ScopeRole.loopBody_of_fits hcount (nested.fits k sc a act _ hk hparent hact hnode)
  have hrole : sc.role.activation? = some a := (tree.parent k sc hk).symm.trans hparent
  obtain rfl : b = a := by simpa [hsc, ScopeRole.activation?] using hrole
  obtain ⟨v, n, hv, -⟩ := nested.carried k sc b i hk hsc
  obtain ⟨c, hcount, hc⟩ := measured.counted b _ act count hv hat hopen
  have hsame := hcount.unique hzero
  exact absurd (Value.int.inj hsame) hc

/-- With as many results as there can be children, every child has completed. -/
theorem Nested.completed_of_gathered {κ : Type} {role : κ → ScopeRole} {done : List (κ × Value)}
    {all : List κ} {i : κ} (nested : Nested s) (hdone : Gathered s role done)
    (hall : ∀ {k sc i}, s.scopes.lookup k = some sc → sc.role = role i → i ∈ all)
    (hlength : done.length = all.length) (hk : s.scopes.lookup k = some sc)
    (hsc : sc.role = role i) (hroot : role i ≠ .root) : sc.status.isCompleted = true := by
  by_contra hunfinished
  have hmissing : i ∉ done.map (·.1) := by
    intro hmem
    obtain ⟨e, he, rfl⟩ := List.mem_map.mp hmem
    obtain ⟨k', sc', hk', hrole', hcompleted⟩ := hdone.2 e he
    obtain rfl := nested.unique k k' sc sc' hk hk' (hsc.trans hrole'.symm) (hsc ▸ hroot)
    obtain rfl := Option.mem_unique hk hk'
    exact hunfinished (by rw [hcompleted]; rfl)
  have hsub : ∀ j ∈ done.map (·.1), j ∈ all := by
    intro j hj
    obtain ⟨e, he, rfl⟩ := List.mem_map.mp hj
    obtain ⟨k', sc', hk', hrole', -⟩ := hdone.2 e he
    exact hall hk' hrole'
  have hlt := length_lt_of_missing hdone.1 hsub (hall hk hsc) hmissing
  rw [List.length_map] at hlt
  omega

/-- A `foreach` with as many results as items has no other children than completed ones. -/
theorem Measured.allDone_of_items {w : Binding × Nat} {list : List Value} (measured : Measured s)
    (nested : Nested s) (tree : Tree s) (hat : AtNode Node.window? s a act w)
    (hopen : act.status = .open) (hlist : Evaluates s act w.1 (.array list))
    (hdone : list = [] ∨ ((s.foreachDone.lookup a).getD []).length = list.length) :
    AllDone s a := by
  have hlisted : ∀ {k sc i}, s.scopes.lookup k = some sc → sc.role = .foreachItem a i →
      i < list.length := by
    intro k sc i hk hrole
    obtain ⟨list', hlist', hlt⟩ := measured.listed k sc a i act w hk hrole hat hopen
    rw [Value.array.inj (hlist'.unique hlist)] at hlt
    exact (List.getElem?_eq_some_iff.mp hlt).1
  intro k sc hk hparent
  have ⟨hact, _, node, hnode, hwindow⟩ := hat
  obtain ⟨b, i, hsc⟩ :=
    ScopeRole.foreachItem_of_fits hwindow (nested.fits k sc a act _ hk hparent hact hnode)
  have hrole : sc.role.activation? = some a := (tree.parent k sc hk).symm.trans hparent
  obtain rfl : b = a := by simpa [hsc, ScopeRole.activation?] using hrole
  rcases hdone with rfl | hlength
  · cases hlisted hk hsc
  · exact nested.completed_of_gathered (nested.items b)
      (fun hk hrole => List.mem_range.mpr (hlisted hk hrole)) (by rw [hlength, List.length_range])
      hk hsc (by simp)

/-- A `parallel` with as many results as branches has no other children than completed ones. -/
theorem Nested.allDone_of_branches {branches : List ParallelBranch} (nested : Nested s)
    (tree : Tree s) (hact : s.activations.lookup a = some act)
    (hnode : nodeOf s act.scope act.node = some (.parallel branches next))
    (hlength : ((s.parallelDone.lookup a).getD []).length = branches.length) : AllDone s a := by
  have hnamed : ∀ {k sc name}, s.scopes.lookup k = some sc → sc.role = .parallelBranch a name →
      name ∈ branches.map (·.name) := by
    intro k sc name hk hrole
    have hparent : sc.parent = some a := (tree.parent k sc hk).trans (by rw [hrole]; rfl)
    obtain ⟨region, hregion⟩ := tree.body_of_child hk hparent hact hnode
    rw [hrole] at hregion
    obtain ⟨branch, hbranch, -⟩ := Option.map_eq_some_iff.mp hregion
    exact List.mem_map.mpr ⟨branch, List.mem_of_find?_eq_some hbranch,
      by simpa using List.find?_some hbranch⟩
  intro k sc hk hparent
  obtain ⟨b, name, hsc⟩ :=
    ScopeRole.parallelBranch_of_fits (nested.fits k sc a act _ hk hparent hact hnode)
  have hrole : sc.role.activation? = some a := (tree.parent k sc hk).symm.trans hparent
  obtain rfl : b = a := by simpa [hsc, ScopeRole.activation?] using hrole
  exact nested.completed_of_gathered (nested.branches b) hnamed
    (by rw [hlength, List.length_map]) hk hsc (by simp)

/-- A node that records its output has no unfinished children. -/
theorem Measured.allDone_of_finishes (measured : Measured s) (nested : Nested s) (tree : Tree s)
    (hact : s.activations.lookup act.id = some act) (hforward : act.role = .forward)
    (hopen : act.status = .open) (hnode : nodeOf s act.scope act.node = some node)
    {output : Value} (h : Finishes o s act output node) : AllDone s act.id := by
  have hlast (hjoin : node.isJoin = false) (h : LastDone o s act.id) : AllDone s act.id :=
    nested.allDone_of_lastDone (nested.joins_of_child hact hnode hjoin) h
  cases node with
  | «while» | doWhile | choose | saga => exact hlast rfl h
  | «repeat» =>
    rcases h with h | ⟨hzero, -⟩
    · exact hlast rfl h
    · exact measured.allDone_of_skipped nested tree ⟨hact, hforward, _, hnode, rfl⟩ hopen hzero
  | foreach =>
    obtain ⟨list, out, hlist, -, -, hdone, -⟩ := h
    exact measured.allDone_of_items nested tree ⟨hact, hforward, _, hnode, rfl⟩ hopen hlist hdone
  | parallel => exact nested.allDone_of_branches tree hact hnode h
  | _ => exact (nested.barren_of_leaf hact hnode rfl).allDone

end Children

end Graphrun
