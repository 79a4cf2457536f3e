import Graphrun.Engine.Placing
import Graphrun.Loops.Reference

/-!
# Bodies of loops

What a `while` or `do_while` activation leaves behind: child scopes, and a carried value with a
counter. Only the activation itself opens its bodies and records its guards
(`Move.unlooped`, `NodeMove.onlyOwn`). As long as no body has completed when its run
progresses, an activation has one body at most, numbered 0, and it has a body when it is open
and carries a value (`Looped`).
-/

namespace Graphrun

open Lib

variable {env : Env} {o : Enumeration} {s s' : Core} {time : Nat} {ids ids' : IdGen}
  {es : List DomainEvent} {act : ActivationState} {k : ScopeId} {role : ScopeRole} {input : Value}
  {run : RunId} {node : Node} {a : ActivationId} {loop : Loop}

/-! ## Who records guards and opens bodies -/

/-- The activation whose guard an event records or whose child scope it opens. -/
def DomainEvent.loops? : DomainEvent → Option ActivationId
  | .guardRecorded _ a _ _ _ => some a
  | .scopeOpened _ _ parent _ _ => parent
  | _ => none

@[simp] def loopKinds : List EventKind := [.guardRecorded, .scopeOpened]

theorem loops?_of_kinds (h : ∀ e ∈ es, e.kind ∉ loopKinds) : ∀ e ∈ es, e.loops? = none := by
  intro e he
  have hkind := h e he
  cases e <;> first | rfl | simp at hkind

/-- An activation opens a child or records its output. -/
def Concludes (act : ActivationState) (es : List DomainEvent) : Prop :=
  (∃ k role input, .scopeOpened act.run k (some act.id) role input ∈ es) ∨
    ∃ first output rest,
      es = first ++ .nodeOutputRecorded act.run act.scope act.node output :: rest

theorem concludes_of_scopeOpened {first rest : List DomainEvent} :
    Concludes act (first ++ .scopeOpened act.run k (some act.id) role input :: rest) :=
  .inl ⟨k, role, input, List.mem_append_right _ List.mem_cons_self⟩

/-- What a node records of guards and children is its own, and after a guard it goes on. -/
theorem NodeMove.onlyOwn (move : NodeMove o s run time act node es) :
    ∀ e ∈ es, e.loops? = none ∨ (e.loops? = some act.id ∧ Concludes act es) := by
  have none_of {es' : List DomainEvent} (h : ∀ e ∈ es', e.kind ∉ loopKinds) : ∀ e ∈ es',
      e.loops? = none ∨ (e.loops? = some act.id ∧ Concludes act es) :=
    fun e he => .inl (loops?_of_kinds h e he)
  cases move with
  | reopened | timer | due | waiting => exact none_of (by simp)
  | completed => exact none_of (not_mem_of_kinds kinds_completed (by decide))
  | failed h | conflict _ h | childFailed _ _ h =>
    exact none_of (not_mem_of_kinds (h.kinds (List.Subset.refl failureKinds)) (by decide))
  | taken _ _ _ _ h =>
    exact List.forall_mem_cons.mpr
      ⟨.inl rfl, none_of (not_mem_of_kinds (kinds_satisfied h) (by decide))⟩
  | finished _ hguards _ h =>
    exact List.forall_mem_append.mpr ⟨hguards.all fun _ _ _ => .inr ⟨rfl, .inr ⟨_, _, _, rfl⟩⟩,
      none_of (not_mem_of_kinds (kinds_output h) (by decide))⟩
  | skipped _ _ _ h | joined _ h => exact none_of (not_mem_of_kinds (kinds_output h) (by decide))
  | settled _ _ _ _ h => exact none_of (not_mem_of_kinds (kinds_settled h) (by decide))
  | childOpened hguards =>
    simp only [List.forall_mem_append, List.forall_mem_cons]
    exact ⟨hguards.all fun _ _ _ => .inr ⟨rfl, concludes_of_scopeOpened⟩,
      .inr ⟨rfl, concludes_of_scopeOpened⟩, .inl rfl, by simp⟩
  | cancelled _ _ _ hcancelled hown =>
    exact none_of (not_mem_of_kinds (kinds_cancelled hcancelled hown) (by decide))
  | aborted _ _ h =>
    exact none_of (not_mem_of_kinds (h.kinds (List.Subset.refl abortKinds)) (by decide))

/-- Guards are recorded and child scopes opened by progress of an activation alone. -/
theorem Move.unlooped {body : CommandBody} (move : Move env o s time body es) :
    (∀ e ∈ es, e.loops? = none) ∨ ∃ run act node ids ids', body = .progress run ∧
      Advancing s run act node ∧
      progressNode env o s run time act node ids = .ok (some (es, ids')) ∧
      NodeMove o s run time act node es := by
  have hkinds := move.kinds
  have hother (h : ∀ k ∈ body.kinds, k ∉ loopKinds) : ∀ e ∈ es, e.loops? = none :=
    loops?_of_kinds fun e he => h _ (hkinds e he)
  cases move with
  | advanced hadvancing hprogress hmove =>
    exact .inr ⟨_, _, _, _, _, rfl, hadvancing, hprogress, hmove⟩
  | started | timedOut => exact .inl (by simp [DomainEvent.loops?])
  | accepted h | compensated h | retried h | blocked h | lost h | erred h | notApplied h
  | unknown h => exact .inl (hother (by rw [kinds_of_reported? h.hbody]; decide))
  | satisfied _ _ hfollowed =>
    exact .inl (loops?_of_kinds (not_mem_of_kinds (kinds_satisfied hfollowed) (by decide)))
  | outside houtside =>
    exact .inl (loops?_of_kinds (not_mem_of_kinds (kinds_outside houtside) (by decide)))
  | resolved | signalled | cancelled | cancelledSagas | claimed | renewed | abandoned =>
    exact .inl (hother (by simp only [CommandBody.kinds]; decide))

/-! ## One body at most -/

/-- Some scope hangs from an activation. -/
def HasChild (s : Core) (a : ActivationId) : Prop :=
  ∃ k sc, s.scopes.lookup k = some sc ∧ sc.parent = some a

theorem HasChild.keeps (h : HasChild s a) (keeps : ∀ run, Keeps run s s') :
    HasChild s' a := by
  obtain ⟨k, sc, hk, hparent⟩ := h
  obtain ⟨sc', hk', -, hparent', -⟩ := (keeps sc.run).scopes k sc hk rfl
  exact ⟨k, sc', hk', hparent'.trans hparent⟩

/-- A loop carries a value that it carried before, that it recorded with a guard or that one of
its bodies left. -/
theorem carry_evolveAll_cases {v : Value × Nat} (tree : Tree s) (placed : Guarded Placed s es)
    (h : (evolveAll s es).loopCarry.lookup a = some v) :
    (∃ v', s.loopCarry.lookup a = some v') ∨ (∃ e ∈ es, e.loops? = some a) ∨
      HasChild (evolveAll s es) a := by
  induction es generalizing s with
  | nil => exact .inl ⟨v, h⟩
  | cons e es ih =>
    have child (h : HasChild (evolve s e) a) : HasChild (evolveAll s (e :: es)) a :=
      h.keeps (keeps_evolveAll placed.2)
    rcases ih (tree.evolve placed.1) placed.2 h with ⟨v', hv'⟩ | ⟨e', he', hloops⟩ | hchild
    · rcases carry_after_cases hv' with hv' | ⟨_, _, _, _, _, rfl, -⟩ |
        ⟨_, k, _, sc, _, rfl, hsc, hrole, -⟩ | ⟨_, _, _, _, rfl, -⟩
      · exact .inl ⟨v', hv'⟩
      · exact .inr (.inl ⟨_, List.mem_cons_self, placed.1.2.1⟩)
      · have hparent : sc.parent = some a := by
          rw [tree.parent k sc hsc, hrole]
          rfl
        have hchild : HasChild s a := ⟨k, sc, hsc, hparent⟩
        exact .inr (.inr (child (hchild.keeps (keeps_evolve placed.1))))
      · exact .inr (.inl ⟨_, List.mem_cons_self, rfl⟩)
    · exact .inr (.inl ⟨e', List.mem_cons_of_mem _ he', hloops⟩)
    · exact .inr (.inr hchild)

/-- Loops have one body at most, and an open activation that carries a value has one. -/
structure Looped (s : Core) : Prop where
  carried : ∀ a v, s.loopCarry.lookup a = some v →
    (∃ act, s.activations.lookup a = some act ∧ act.status ≠ .open) ∨ HasChild s a
  single : ∀ a act node loop, s.activations.lookup a = some act →
    nodeOf s act.scope act.node = some node → node.loop? = some loop → 1 ≤ loop.maxIterations →
    ∀ k sc, s.scopes.lookup k = some sc → sc.parent = some a →
      sc.role = .loopBody a 0 ∧
        ∀ k' sc', s.scopes.lookup k' = some sc' → sc'.parent = some a → k' = k

/-- No loop whose run progresses has a completed body. -/
def BodiesUnfinished (step : Step) : Prop :=
  ∀ run, step.body = .progress run → ∀ act node loop, Advancing step.before run act node →
    node.loop? = some loop → ∀ k body, step.before.scopes.lookup k = some body →
      body.parent = some act.id → ∀ output, body.status ≠ .completed output

theorem not_hasChild_of_childOf_none (h : childOf o s a = none) :
    ¬ HasChild s a := by
  rintro ⟨k, sc, hk, hparent⟩
  have hmem : sc ∈ childrenOf o s a := mem_childrenOf.mpr ⟨⟨k, hk⟩, hparent⟩
  simp only [childOf] at h
  split at h
  · cases h
  · have hsorted := (List.perm_insertionSort (fun a b => childIndex a ≤ childIndex b) _).mem_iff.mpr
      hmem
    rw [List.getLast?_eq_none_iff.mp h] at hsorted
    cases hsorted

theorem Looped.quiet (change : Quiet s s') (tree : Tree s) (looped : Looped s) : Looped s' := by
  have tree' := tree.quiet change
  refine ⟨fun a v hv => ?_, fun a act node loop ha hnode hloop hmax k sc hk hparent => ?_⟩
  · cases change with
    | admitted | stamped | dropped => exact looped.carried a v hv
    | @retired gone =>
      simp only [dropRun, Table.lookup_retain, Option.filter_eq_some_iff, Bool.not_eq_true'] at hv
      obtain ⟨hv, hleft⟩ := hv
      rcases looped.carried a v hv with ⟨act, hact, hsettled⟩ | ⟨k, sc, hk, hparent⟩
      · refine .inl ⟨act, ?_, hsettled⟩
        have hrun : act.run ≠ gone := by simpa [hact] using hleft
        simp [dropRun, Table.lookup_retain, hact, hrun]
      · obtain ⟨act, hact, hrun⟩ := tree.parent_exists hk hparent
        have hgone : act.run ≠ gone := by simpa [hact] using hleft
        rw [hrun] at hgone
        exact .inr ⟨k, sc, by simp [dropRun, Table.lookup_retain, hk, hgone], hparent⟩
  · have hact := change.activations ha
    obtain ⟨sc₀, hsc₀, hrun₀⟩ := tree'.placed a act ha
    obtain ⟨r, hr⟩ := quiet_run_of_scope tree change hsc₀
    have hsame := tree.nodeOf_keeps (keeps_quiet change hr) (change.scopes hsc₀) rfl
    rw [hsame] at hnode
    obtain ⟨hrole, honly⟩ := looped.single a act node loop hact hnode hloop hmax k sc
      (change.scopes hk) hparent
    exact ⟨hrole, fun k' sc' hk' => honly k' sc' (change.scopes hk')⟩

/-- The bodies of a loop, in a state where there is one at most. -/
theorem Looped.bodies (looped : Looped s) (tree : Tree s) (hact : s.activations.lookup a = some act)
    (hnode : nodeOf s act.scope act.node = some node) (hloop : node.loop? = some loop)
    (hmax : 1 ≤ loop.maxIterations) : ∃ bodies, LoopBodies s a bodies ∧ bodies.length ≤ 1 := by
  by_cases hchild : HasChild s a
  · obtain ⟨k, sc, hk, hparent⟩ := hchild
    obtain ⟨hrole, honly⟩ := looped.single a act node loop hact hnode hloop hmax k sc hk hparent
    have hid := tree.keyed.scopes k sc hk
    refine ⟨[sc], ⟨fun i body hbody => ?_, fun k' body hk' hparent' => ?_, ?_⟩, Nat.le_refl _⟩
    · obtain ⟨rfl, rfl⟩ : i = 0 ∧ sc = body := by
        cases i with
        | zero => exact ⟨rfl, Option.some.inj hbody⟩
        | succ i => cases hbody
      exact ⟨by rw [hid, hk], hparent, hrole⟩
    · obtain rfl := honly k' body hk' hparent'
      exact List.mem_singleton.mpr (Option.mem_unique hk' hk)
    · simp
  · refine ⟨[], ⟨by simp, fun k body hk hparent => ?_, by simp⟩, Nat.zero_le _⟩
    exact absurd ⟨k, body, hk, hparent⟩ hchild

/-- As long as no body has completed, progress of a loop is that of the reference loop. -/
theorem Looped.drive (looped : Looped s) {bodies : List ScopeState}
    (advancing : Advancing s run act node) (hmax : 1 ≤ loop.maxIterations)
    (unfinished : ∀ k body, s.scopes.lookup k = some body → body.parent = some act.id →
      ∀ output, body.status ≠ .completed output) (hbodies : LoopBodies s act.id bodies)
    (hlength : bodies.length ≤ 1) (h : loop.progress env o s act ids = .ok (es, ids')) :
    LoopDrive env o s ids act loop bodies es := by
  cases hchild : childOf o s act.id with
  | none =>
    have hnone := not_hasChild_of_childOf_none hchild
    obtain rfl : bodies = [] := by
      cases bodies with
      | nil => rfl
      | cons body rest =>
        obtain ⟨hlookup, hparent, -⟩ := hbodies.indexed 0 body rfl
        exact absurd ⟨_, body, hlookup, hparent⟩ hnone
    have hnew : s.loopCarry.lookup act.id = none := by
      rw [Option.eq_none_iff_forall_ne_some]
      intro v hv
      rcases looped.carried act.id v hv with ⟨other, hother, hsettled⟩ | hchild
      · obtain rfl := Option.mem_unique advancing.hact hother
        exact hsettled advancing.hopen
      · exact hnone hchild
    exact Loop.drive_first hmax hnew hchild h
  | some child =>
    obtain ⟨hmem, -⟩ := childOf_eq_some hchild
    obtain ⟨⟨k, hk⟩, hparent⟩ := mem_childrenOf.mp hmem
    obtain rfl : bodies = [child] := by
      have hmem := hbodies.complete k child hk hparent
      match bodies, hlength, hmem with
      | [body], _, hmem => rw [List.mem_singleton.mp hmem]
    simp only [Loop.progress, progressWhile, bind_eq_ok, okOr_eq_ok, hchild] at h
    obtain ⟨scope, hscope, ctx, hctx, ⟨carry, completed⟩, hcarry, h⟩ := h
    split at h
    · next hopen =>
      simp only [pure_eq_ok, Prod.mk.injEq] at h
      exact .waiting rfl hopen h.1.symm
    · next error hfailed =>
      simp only [bind_eq_ok, pure_eq_ok, Prod.mk.injEq] at h
      obtain ⟨failed, hes, rfl, rfl⟩ := h
      exact .failed rfl hfailed (failScope_ok hes)
    · next output hdone => exact absurd hdone (unfinished k child hk hparent output)

/-- What a loop opens when no body of it has completed: its first body, and only when it has
none. -/
theorem LoopDrive.opened {bodies : List ScopeState}
    (drive : LoopDrive env o s ids act loop bodies es)
    (unfinished : ∀ body ∈ bodies, ∀ output, body.status ≠ .completed output)
    {parent : Option ActivationId} (h : .scopeOpened run k parent role input ∈ es) :
    bodies = [] ∧ role = .loopBody act.id 0 ∧
      ∀ run' k' parent' role' input', .scopeOpened run' k' parent' role' input' ∈ es → k' = k := by
  have failing {scope : ScopeId} {error : FailError} (hfailing : Failing o s scope error es) :
      False := by
    have hnone : ∀ e ∈ es, e.opensScope? = none :=
      hfailing.all (fun _ => rfl) (fun _ => rfl) (fun _ _ => rfl) fun _ _ => rfl
    cases hnone _ h
  cases drive with
  | waiting _ _ hes =>
    rw [hes] at h
    cases h
  | failed _ _ hfailing => exact (failing hfailing).elim
  | @acted carry action hcarry haction hes =>
    have hempty : bodies = [] := by
      cases hlast : bodies.getLast? with
      | none => exact List.getLast?_eq_none_iff.mp hlast
      | some body =>
        simp only [Carries, hlast] at hcarry
        exact absurd hcarry (unfinished body (List.mem_of_getLast? hlast) _)
    subst hempty
    cases hes with
    | stop hfollowed =>
      have hnone : ∀ e ∈ _, DomainEvent.opensScope? e = none :=
        (followNext_ok hfollowed).all fun _ _ _ => rfl
      simp only [List.mem_cons, reduceCtorEq, false_or] at h
      cases hnone _ h
    | exceed hfailing => exact (failing hfailing).elim
    | @body guards scope start hguards =>
      have hmem : ∀ run' k' parent' role' input', .scopeOpened run' k' parent' role' input' ∈
          guards ++ [.scopeOpened act.run scope (some act.id) (.loopBody act.id 0) carry,
            .activationOpened act.run scope start loop.body.start] →
          k' = scope ∧ role' = .loopBody act.id 0 := by
        intro run' k' parent' role' input' hmem
        rw [hguards] at hmem
        split at hmem <;> simp_all
      obtain ⟨rfl, rfl⟩ := hmem _ _ _ _ _ h
      exact ⟨rfl, rfl, fun _ _ _ _ _ h' => (hmem _ _ _ _ _ h').1⟩

/-- A child scope is opened by its parent, which progresses. -/
theorem Move.opened_by {body : CommandBody} (move : Move env o s time body es)
    (h : .scopeOpened run k (some a) role input ∈ es) :
    ∃ run act node ids ids', body = .progress run ∧ Advancing s run act node ∧
      progressNode env o s run time act node ids = .ok (some (es, ids')) ∧ a = act.id := by
  rcases move.unlooped with hnone | ⟨run, act, node, ids, ids', hbody, hadvancing, hprogress, hmove⟩
  · cases hnone _ h
  · refine ⟨run, act, node, ids, ids', hbody, hadvancing, hprogress, ?_⟩
    rcases hmove.onlyOwn _ h with hnone | ⟨hown, -⟩
    · cases hnone
    · exact Option.some.inj hown

theorem Looped.step {step : Step} (tree : Tree step.before) (fresh : Fresh step)
    (unfinished : BodiesUnfinished step) (decided : Decided env step)
    (looped : Looped step.before) : Looped step.after := by
  have placed := decided.placed tree fresh
  have tree' : Tree step.after := tree.evolveAll placed
  have keeps : ∀ run, Keeps run step.before step.after := keeps_evolveAll placed
  obtain ⟨o, move⟩ := decided.move fresh.unreplayed
  refine ⟨fun a v hv => ?_, fun a act' node loop ha hnode hloop hmax k sc hk hparent => ?_⟩
  · rcases carry_evolveAll_cases tree placed hv with ⟨v', hv'⟩ | ⟨e, he, hloops⟩ | hchild
    · rcases looped.carried a v' hv' with ⟨act, hact, hsettled⟩ | hchild
      · exact .inl (settled_evolveAll placed hact hsettled)
      · exact .inr (hchild.keeps keeps)
    · -- the activation itself has recorded a guard or opened a child
      rcases move.unlooped with hnone | ⟨run, act, node, ids, ids', hbody, hadvancing, -, hmove⟩
      · rw [hnone e he] at hloops
        cases hloops
      · rcases hmove.onlyOwn e he with hnone | ⟨hown, hconcludes⟩
        · rw [hnone] at hloops
          cases hloops
        · obtain rfl := Option.mem_unique hown hloops
          rcases hconcludes with ⟨k, role, input, hopened⟩ | ⟨first, output, rest, hevents⟩
          · obtain ⟨sc, hsc, -, hparent, -⟩ := opened_evolveAll placed hopened
            exact .inr ⟨k, sc, hsc, hparent⟩
          · rw [Step.after, hevents]
            rw [hevents] at placed
            exact .inl (settled_of_nodeOutputRecorded placed hadvancing.hact)
    · exact .inr hchild
  · by_cases hopens : ∃ run k role input, .scopeOpened run k (some a) role input ∈ step.events
    · obtain ⟨run, k₁, role, input, hopened⟩ := hopens
      obtain ⟨run, act, node', ids, ids', hbody, hadvancing, hprogress, rfl⟩ :=
        move.opened_by hopened
      -- the node is the one that the activation had before
      rw [tree.node_kept (keeps act.run) hadvancing.hact ha, hadvancing.hnode] at hnode
      obtain rfl := Option.some.inj hnode
      have hdone := unfinished run hbody act node' loop hadvancing hloop
      obtain ⟨bodies, hbodies, hlength⟩ :=
        looped.bodies tree hadvancing.hact hadvancing.hnode hloop hmax
      have hdrive := looped.drive hadvancing hmax hdone hbodies hlength
        (progressNode_loop hloop hprogress)
      have hunfinished : ∀ body ∈ bodies, ∀ output, body.status ≠ .completed output := by
        intro body hbody
        obtain ⟨i, hi⟩ := List.mem_iff_getElem?.mp hbody
        obtain ⟨hlookup, hparent', -⟩ := hbodies.indexed i body hi
        exact hdone _ body hlookup hparent'
      -- so there was no child before, and one is opened
      have hnew : ∀ k sc, step.after.scopes.lookup k = some sc → sc.parent = some act.id →
          .scopeOpened sc.run k sc.parent sc.role sc.input ∈ step.events := by
        intro k sc hk hparent
        rcases scope_evolveAll_cases hk with ⟨old, hold, -, hparent', -⟩ | hopened'
        · have hmem := hbodies.complete k old hold (hparent'.symm.trans hparent)
          rw [(hdrive.opened hunfinished hopened).1] at hmem
          cases hmem
        · exact hopened'
      obtain ⟨-, hrole, honly⟩ := hdrive.opened hunfinished (hnew k sc hk hparent)
      exact ⟨hrole, fun k' sc' hk' hparent' => honly _ _ _ _ _ (hnew k' sc' hk' hparent')⟩
    · -- every child was there before
      have hold : ∀ k sc, step.after.scopes.lookup k = some sc → sc.parent = some a →
          ∃ old, step.before.scopes.lookup k = some old ∧ old.parent = some a ∧
            sc.role = old.role := by
        intro k sc hk hparent
        rcases scope_evolveAll_cases hk with ⟨old, hold, -, hparent', hrole, -⟩ | hopened
        · exact ⟨old, hold, hparent'.symm.trans hparent, hrole⟩
        · rw [hparent] at hopened
          exact absurd ⟨_, _, _, _, hopened⟩ hopens
      obtain ⟨old, hk₀, hparent₀, hrole⟩ := hold k sc hk hparent
      obtain ⟨act, hact, -⟩ := tree.parent_exists hk₀ hparent₀
      rw [tree.node_kept (keeps act.run) hact ha] at hnode
      obtain ⟨hrole₀, honly⟩ :=
        looped.single a act node loop hact hnode hloop hmax k old hk₀ hparent₀
      refine ⟨hrole.trans hrole₀, fun k' sc' hk' hparent' => ?_⟩
      obtain ⟨old', hk₁, hparent₁, -⟩ := hold k' sc' hk' hparent'
      exact honly k' old' hk₁ hparent₁

end Graphrun
