import Graphrun.Engine.Containers

/-!
# What progress of a node can produce

The inversion of `progressNode`: every event list that an open activation can produce, with the
facts about the state under which it is produced.
-/

namespace Graphrun

open Lib

variable {env : Env} {o : Enumeration} {s : Core} {time : Nat} {ids ids' : IdGen}
  {es : List DomainEvent} {body : Region} {next : NodeKey} {x : Result Emission}
  {g : List DomainEvent} {state input : Binding} {maxIterations : Nat} {default : Region}

/-! ## Nodes -/

/-- The key that a `wait_signal` node waits for. -/
def WaitsFor (s : Core) (act : ActivationState) (key : Binding) (text : String) : Prop :=
  ∃ scope ctx value, s.scopes.lookup act.scope = some scope ∧ evalCtx s scope = .ok ctx ∧
    evalBinding ctx key = .ok value ∧ value.asStr = some text

/-- The instant of a `wait_until` node has come. -/
def UntilDue (s : Core) (act : ActivationState) (instant : Binding) (time : Nat) : Prop :=
  ∃ scope ctx value ms, s.scopes.lookup act.scope = some scope ∧ evalCtx s scope = .ok ctx ∧
    evalBinding ctx instant = .ok value ∧ instantOf value = .ok ms ∧ ms ≤ time

/-- The guard that a loop records next to what it does. -/
def Guards (o : Enumeration) (s : Core) (act : ActivationState) (node : Node)
    (es : List DomainEvent) : Prop :=
  es = [] ∨ ∃ cont index carry, es = [.guardRecorded act.run act.id cont index carry] ∧
    node.isGuarded = true ∧ LastDone o s act.id ∧ CarriesUpTo s act.id index

/-- What an open activation can produce, by the kind of its node. -/
inductive NodeMove (o : Enumeration) (s : Core) (run : RunId) (time : Nat)
    (act : ActivationState) : Node → List DomainEvent → Prop
  | reopened {activity input timeoutMs retry compensation next} :
      NodeMove o s run time act (.activity activity input timeoutMs retry compensation next)
        [.activationOpened run act.scope act.id act.node]
  | completed {output scope value}
      (hscope : s.scopes.lookup act.scope = some scope) :
      NodeMove o s run time act (.complete output) (completeScope scope value)
  | failed {error es}
      (hfailing : Failing o s act.scope error es) :
      NodeMove o s run time act (.fail error) es
  | timer {node w deadline} (hnode : node.timerNext?.isSome = true)
      (hfree : hasPendingWait o s act.id = false) :
      NodeMove o s run time act node
        [.waitOpened run w act.id timerSignal act.id.toHex (some deadline) .afterActivation]
  | due {instant next sc a}
      (hfree : hasPendingWait o s act.id = false) (hdue : UntilDue s act instant time)
      (hscope : s.scopes.lookup act.scope = some sc) :
      NodeMove o s run time act (.waitUntil instant next)
        [.activationOpened sc.run act.scope a next]
  | conflict {signal key timeoutMs consumeFrom next onTimeout error es}
      (hfree : hasPendingWait o s act.id = false)
      (hfailing : Failing o s act.scope error es) :
      NodeMove o s run time act
        (.waitSignal signal key timeoutMs consumeFrom next onTimeout) es
  | waiting {signal key timeoutMs consumeFrom next onTimeout text w runState}
      (hfree : hasPendingWait o s act.id = false)
      (hkey : WaitsFor s act key text)
      (hrun : s.runs.lookup act.run = some runState)
      (hentry : reservedOrEligible s (openedWait runState act w signal text
        (timeoutMs.map (satAdd time ·)) consumeFrom) time = none) :
      NodeMove o s run time act
        (.waitSignal signal key timeoutMs consumeFrom next onTimeout)
        [.waitOpened act.run w act.id signal text (timeoutMs.map (satAdd time ·)) consumeFrom]
  | taken {signal key timeoutMs consumeFrom next onTimeout text w runState entry followed}
      (hfree : hasPendingWait o s act.id = false) (hkey : WaitsFor s act key text)
      (hrun : s.runs.lookup act.run = some runState)
      (hentry : reservedOrEligible s (openedWait runState act w signal text
        (timeoutMs.map (satAdd time ·)) consumeFrom) time = some entry)
      (hfollowed : Followed s act.scope act.node followed) :
      NodeMove o s run time act
        (.waitSignal signal key timeoutMs consumeFrom next onTimeout)
        (.waitOpened act.run w act.id signal text (timeoutMs.map (satAdd time ·)) consumeFrom ::
          .waitSatisfied act.run w entry.eventId entry.payload ::
          .nodeOutputRecorded act.run act.scope act.node entry.payload :: followed)
  | finished {node guards followed output}
      (hnode : node.isJoin = false) (hguards : Guards o s act node guards)
      (hclosed : Childless s act.id) (hfollowed : Followed s act.scope act.node followed)
      (hfinishes : Finishes o s act output node) (hsaga : node.isSaga = false) :
      NodeMove o s run time act node
        (guards ++ .nodeOutputRecorded act.run act.scope act.node output :: followed)
  | skipped {count state stateSchema maxIterations body next ctx scope followed output}
      (hscope : s.scopes.lookup act.scope = some scope) (hctx : evalCtx s scope = .ok ctx)
      (hcount : evalBinding ctx count = .ok (.int 0))
      (hfollowed : Followed s act.scope act.node followed)
      (hfinishes : Finishes o s act output
        (.repeat count state stateSchema maxIterations body next)) :
      NodeMove o s run time act (.repeat count state stateSchema maxIterations body next)
        (.nodeOutputRecorded act.run act.scope act.node output :: followed)
  | joined {node followed output}
      (hnode : node.isJoin = true) (hfollowed : Followed s act.scope act.node followed)
      (hfinishes : Finishes o s act output node) :
      NodeMove o s run time act node
        (.nodeOutputRecorded act.run act.scope act.node output :: followed)
  | settled {input body next child output followed}
      (hflight : compensatingInFlight s act.id = false)
      (herror : s.sagaErrors.lookup act.id = none) (hchild : childOf o s act.id = some child)
      (hdone : child.status = .completed output)
      (hfollowed : Followed s act.scope act.node followed) :
      NodeMove o s run time act (.saga input body next)
        (settleSagaSuccess s act.id ++
          .nodeOutputRecorded act.run act.scope act.node output :: followed)
  | childOpened {node guards role input} {body : Region} {scope start}
      (hguards : Guards o s act node guards) (hrole : role.activation? = some act.id)
      (hbody : (bodyRegion role node).isSome = true)
      (hclosed : node.isJoin = false → Childless s act.id)
      (hopens : Opens o s act input node role) :
      NodeMove o s run time act node
        (guards ++ [.scopeOpened act.run scope (some act.id) role input,
          .activationOpened act.run scope start body.start])
  | childFailed {node error es}
      (hnode : node.isJoin = false) (hclosed : Childless s act.id)
      (hfailing : Failing o s act.scope error es) :
      NodeMove o s run time act node es
  | cancelled {node failed error reason siblings es own} (hnode : node.isJoin = true)
      (hfailed : failedChild o s act.id = some (failed, error))
      (hsiblings : siblings ⊆ openSiblings o s act.id failed.id)
      (hcancelled : FailingAll o s reason siblings es)
      (hown : own = [] ∨
        (siblings = openSiblings o s act.id failed.id ∧ Failing o s act.scope error own)) :
      NodeMove o s run time act node (es ++ own)
  | aborted {input body next error es} (hflight : compensatingInFlight s act.id = false)
      (herror : s.sagaErrors.lookup act.id = some error ∨
        (s.sagaErrors.lookup act.id = none ∧
          ∃ child, childOf o s act.id = some child ∧ child.status = .failed error))
      (haborting : Aborting o s act.id error es) :
      NodeMove o s run time act (.saga input body next) es

theorem asI64_eq_some {v : Value} {i : Int} (h : v.asI64 = some i) : v = .int i := by
  cases v <;> simp_all [Value.asI64]

theorem map_some_ok {e : Emission} (h : some <$> x = .ok (some e)) : ∃ e', x = .ok e' ∧ e' = e := by
  cases x with
  | error fault => cases h
  | ok e' => exact ⟨e', rfl, Option.some.inj (Except.ok.inj h)⟩

section Nodes

variable {run : RunId} {act : ActivationState} {node : Node}

theorem openChild_move {role : ScopeRole} {input : Value}
    (h : openChild env act role input body ids = (es, ids')) (hguards : Guards o s act node g)
    (hrole : role.activation? = some act.id) (hbody : (bodyRegion role node).isSome = true)
    (hclosed : node.isJoin = false → Childless s act.id) (hopens : Opens o s act input node role) :
    NodeMove o s run time act node (g ++ es) := by
  obtain ⟨scope, start, heq⟩ := openChild_eq env ids act role input body
  rw [h] at heq
  simp only at heq
  subst heq
  exact .childOpened hguards hrole hbody hclosed hopens

theorem finishNode_move {output : Value} (h : finishNode env s act output ids = .ok (es, ids'))
    (hguards : Guards o s act node g) (hnode : node.isJoin = false) (hclosed : Childless s act.id)
    (hfinishes : Finishes o s act output node) (hsaga : node.isSaga = false) :
    NodeMove o s run time act node (g ++ es) := by
  obtain ⟨followed, hfollowed, rfl⟩ := finishNode_ok h
  exact .finished hnode hguards hclosed hfollowed hfinishes hsaga

theorem progressWhile_ok {condition : Condition} {doWhile : Bool} (hguarded : node.isGuarded = true)
    (hbody : node.body?.isSome = true)
    (h : progressWhile env o s act state condition maxIterations body doWhile ids =
      .ok (es, ids')) (hne : es ≠ []) :
    NodeMove o s run time act node es := by
  obtain ⟨hnode, hsaga⟩ : node.isJoin = false ∧ node.isSaga = false := by
    cases node <;> first | exact ⟨rfl, rfl⟩ | cases hguarded
  have hfinishes {output : Value} (hlast : LastDone o s act.id) : Finishes o s act output node := by
    cases node <;> first | exact hlast | cases hguarded
  simp only [progressWhile, bind_eq_ok, okOr_eq_ok] at h
  obtain ⟨scope, -, ctx, -, ⟨carry, completed⟩, hcarry, h⟩ := h
  have hcarries : CarriesUpTo s act.id completed := carriesUpTo_of_loopCarryOf hcarry
  split at h
  · next child hchild =>
    obtain ⟨-, hclosed⟩ := childOf_eq_some hchild
    split at h
    · simp only [pure_eq_ok, Prod.mk.injEq] at h
      exact absurd h.1.symm hne
    · next error herror =>
      simp only [bind_eq_ok, pure_eq_ok, Prod.mk.injEq] at h
      obtain ⟨failed, hfailed, rfl, rfl⟩ := h
      exact .childFailed hnode (hclosed (by simp [herror])) (failScope_ok hfailed)
    · next output hdone =>
      have hclosed := hclosed (by simp [hdone])
      have hlast := lastDone_of_completed hchild hdone
      have hnext : CarriesUpTo s act.id (completed + 1) := hcarries.mono (Nat.le_succ completed)
      simp only [bind_eq_ok] at h
      obtain ⟨cont, -, h⟩ := h
      split at h
      · simp only [bind_eq_ok, pure_eq_ok, Prod.mk.injEq, Prod.exists] at h
        obtain ⟨finished, ids₁, hfinished, rfl, rfl⟩ := h
        exact finishNode_move (g := [_]) hfinished (.inr ⟨_, _, _, rfl, hguarded, hlast, hnext⟩)
          hnode hclosed (hfinishes hlast) hsaga
      · split at h
        · simp only [bind_eq_ok, pure_eq_ok, Prod.mk.injEq] at h
          obtain ⟨failed, hfailed, rfl, rfl⟩ := h
          exact .childFailed hnode hclosed (failScope_ok hfailed)
        · simp only [pure_eq_ok, Prod.mk.injEq] at h
          obtain ⟨rfl, rfl⟩ := h
          exact openChild_move (g := [_]) rfl (.inr ⟨_, _, _, rfl, hguarded, hlast, hnext⟩)
            rfl hbody (fun _ => hclosed) (.guarded hguarded hlast hnext)
  · next hchild =>
    have hclosed := childless_of_childOf_none hchild
    have hlast := lastDone_of_none hchild
    split at h
    · next hstart =>
      have hcarries : CarriesUpTo s act.id 0 := hstart.1 ▸ hcarries
      simp only [bind_eq_ok] at h
      obtain ⟨cont, -, h⟩ := h
      split at h
      · simp only [bind_eq_ok, pure_eq_ok, Prod.mk.injEq, Prod.exists] at h
        obtain ⟨finished, ids₁, hfinished, rfl, rfl⟩ := h
        exact finishNode_move (g := [_]) hfinished (.inr ⟨_, _, _, rfl, hguarded, hlast, hcarries⟩)
          hnode hclosed (hfinishes hlast) hsaga
      · simp only [pure_eq_ok, Prod.mk.injEq] at h
        obtain ⟨rfl, rfl⟩ := h
        exact openChild_move (g := [_]) rfl (.inr ⟨_, _, _, rfl, hguarded, hlast, hcarries⟩) rfl
          hbody (fun _ => hclosed) (.guarded hguarded hlast hcarries)
    · split at h <;> simp only [pure_eq_ok] at h
      · next hstart =>
        exact openChild_move (g := []) h (.inl rfl) rfl hbody (fun _ => hclosed)
          (.guarded hguarded hlast (hstart ▸ hcarries))
      · exact absurd (Prod.mk.inj h).1.symm hne

theorem progressRepeat_ok {count : Binding} {stateSchema : SchemaRef}
    (h : progressRepeat env o s act count state maxIterations body ids = .ok (es, ids'))
    (hne : es ≠ []) :
    NodeMove o s run time act
      (.repeat count state stateSchema maxIterations body next) es := by
  simp only [progressRepeat, bind_eq_ok, okOr_eq_ok] at h
  obtain ⟨scope, hscope, ctx, hctx, countV, hcount, countN, hcountN, -, -, ⟨carry, completed⟩,
    hcarry, h⟩ := h
  have hcarries : CarriesUpTo s act.id completed := carriesUpTo_of_loopCarryOf hcarry
  rw [asI64_eq_some hcountN] at hcount
  have hvalue : Evaluates s act count (.int countN) := ⟨scope, ctx, hscope, hctx, hcount⟩
  split at h
  · next hzero =>
    obtain ⟨followed, hfollowed, rfl⟩ := finishNode_ok h
    exact .skipped hscope hctx (hzero.1 ▸ hcount) hfollowed
      (.inr ⟨hzero.1 ▸ hvalue, hzero.2 ▸ hcarries⟩)
  · next hgoes =>
    -- A count of zero is only passed by a loop that carries a value already.
    have hstarts : countN ≠ 0 ∨ ∃ carried, s.loopCarry.lookup act.id = some carried := by
      by_cases hzero : countN = 0
      · refine .inr ?_
        cases hlookup : s.loopCarry.lookup act.id with
        | some carried => exact ⟨carried, rfl⟩
        | none =>
          exfalso
          simp only [loopCarryOf, hlookup] at hcarry
          split at hcarry
          · simp only [pure_eq_ok, Prod.mk.injEq] at hcarry
            exact hgoes ⟨hzero, hcarry.2.symm⟩
          · simp at hcarry
      · exact .inl hzero
    split at h
    · next child hchild =>
      obtain ⟨-, hclosed⟩ := childOf_eq_some hchild
      split at h
      · simp only [pure_eq_ok, Prod.mk.injEq] at h
        exact absurd h.1.symm hne
      · next error herror =>
        simp only [bind_eq_ok, pure_eq_ok, Prod.mk.injEq] at h
        obtain ⟨failed, hfailed, rfl, rfl⟩ := h
        exact .childFailed rfl (hclosed (by simp [herror])) (failScope_ok hfailed)
      · next output hdone =>
        have hclosed := hclosed (by simp [hdone])
        have hlast := lastDone_of_completed hchild hdone
        split at h
        · exact finishNode_move (g := []) h (.inl rfl) rfl hclosed (.inl hlast) rfl
        · split at h <;> simp only [pure_eq_ok] at h
          · exact absurd (Prod.mk.inj h).1.symm hne
          · exact openChild_move (g := []) h (.inl rfl) rfl rfl (fun _ => hclosed)
              (.repeated hlast hcarries hvalue hstarts)
    · next hchild =>
      have hclosed := childless_of_childOf_none hchild
      simp only [pure_eq_ok] at h
      exact openChild_move (g := []) h (.inl rfl) rfl rfl (fun _ => hclosed)
        (.repeated (lastDone_of_none hchild) hcarries hvalue hstarts)

theorem progressForeach_ok {items : Binding} {schema : SchemaRef} {maxItems maxConcurrency : Nat}
    (h : progressForeach env o s act items maxItems maxConcurrency body ids = .ok (es, ids'))
    (hne : es ≠ []) :
    NodeMove o s run time act (.foreach items schema maxItems maxConcurrency body next) es := by
  simp only [progressForeach, bind_eq_ok, okOr_eq_ok] at h
  obtain ⟨scope, hscope, ctx, hctx, value, hvalue, h⟩ := h
  split at h
  · next list =>
    have hitems : Evaluates s act items (.array list) := ⟨scope, ctx, hscope, hctx, hvalue⟩
    simp only [bind_eq_ok] at h
    obtain ⟨-, -, h⟩ := h
    split at h
    · next hempty =>
      obtain ⟨followed, hfollowed, rfl⟩ := finishNode_ok h
      exact .joined rfl hfollowed ⟨list, [], hitems, rfl, by rw [hempty], .inl hempty, by simp⟩
    · split at h
      · next hdone =>
        simp only [bind_eq_ok] at h
        obtain ⟨ordered, hordered, h⟩ := h
        obtain ⟨hlength, hmem⟩ := orderedItems_ok hordered
        obtain ⟨followed, hfollowed, rfl⟩ := finishNode_ok h
        exact .joined rfl hfollowed ⟨list, ordered, hitems, rfl, hlength, .inr hdone, hmem⟩
      · split at h
        · next failed error hfailed =>
          simp only [bind_eq_ok, pure_eq_ok, Prod.mk.injEq] at h
          obtain ⟨cancelled, hcancelled, own, hown, rfl, rfl⟩ := h
          exact .cancelled rfl hfailed (List.Subset.refl _) (failScopes_ok hcancelled)
            (.inr ⟨rfl, failScope_ok hown⟩)
        · next hfailed =>
          split at h
          · simp only [pure_eq_ok, Prod.mk.injEq] at h
            exact absurd h.1.symm hne
          · next hroom =>
            split at h <;> simp only [pure_eq_ok] at h
            · exact absurd (Prod.mk.inj h).1.symm hne
            · next input hinput =>
              have hopens : OpensItem s act items maxConcurrency _ input :=
                ⟨⟨list, hitems, hinput⟩, fun _ _ _ => not_failed_of_failedChild hfailed,
                  fun ks hks => hks.length_le.trans_lt (Nat.not_le.mp hroom)⟩
              refine openChild_move (g := []) h (.inl rfl) rfl rfl (fun hjoin => by cases hjoin)
                (.item hopens fun k sc hk hparent hrole => ?_)
              have hmem : sc ∈ childrenOf o s act.id := mem_childrenOf.mpr ⟨⟨k, hk⟩, hparent⟩
              exact nextIndex_not_mem ((childrenOf o s act.id).filterMap itemIndex?) _
                (List.mem_filterMap.mpr ⟨sc, hmem, by rw [itemIndex?, hrole]⟩)
  · simp at h

theorem progressParallel_ok {branches : List ParallelBranch}
    (h : progressParallel env o s act branches ids = .ok (es, ids')) (hne : es ≠ []) :
    NodeMove o s run time act (.parallel branches next) es := by
  simp only [progressParallel] at h
  split at h
  · next hdone =>
    simp only [bind_eq_ok] at h
    obtain ⟨ordered, -, h⟩ := h
    obtain ⟨followed, hfollowed, rfl⟩ := finishNode_ok h
    exact .joined rfl hfollowed hdone
  · split at h
    · next branch hmissing =>
      simp only [bind_eq_ok, okOr_eq_ok, pure_eq_ok] at h
      obtain ⟨scope, -, ctx, -, input, -, h⟩ := h
      split at hmissing
      · refine openChild_move (g := []) h (.inl rfl) rfl ?_ (fun hjoin => by cases hjoin)
          (.branch fun k sc hk hparent hrole => ?_)
        · simp only [bodyRegion, Node.branchBody?, Option.isSome_map, List.find?_isSome]
          exact ⟨branch, List.mem_of_find?_eq_some hmissing, by simp⟩
        · have hmem : sc ∈ childrenOf o s act.id := mem_childrenOf.mpr ⟨⟨k, hk⟩, hparent⟩
          have hfree := List.find?_some hmissing
          refine of_decide_eq_true hfree (List.mem_filterMap.mpr ⟨sc, hmem, ?_⟩)
          rw [branchName?, hrole]
      · cases hmissing
    · split at h
      · simp only [pure_eq_ok, Prod.mk.injEq] at h
        exact absurd h.1.symm hne
      · next failed error hfailed =>
        simp only [bind_eq_ok] at h
        obtain ⟨cancelled, hcancelled, h⟩ := h
        split at h
        · simp only [pure_eq_ok, Prod.mk.injEq] at h
          obtain ⟨rfl, rfl⟩ := h
          have hmove : NodeMove o s run time act (.parallel branches next) (cancelled ++ []) :=
            .cancelled rfl hfailed (List.filter_subset_self _) (failScopes_ok hcancelled)
              (.inl rfl)
          rw [List.append_nil] at hmove
          exact hmove
        · next hclaimed =>
          simp only [bind_eq_ok, pure_eq_ok, Prod.mk.injEq] at h
          obtain ⟨own, hown, rfl, rfl⟩ := h
          -- Without a claimed sibling all of them are cancelled.
          have hall : (openSiblings o s act.id failed.id).filter
              (fun sibling => scopeIsClaimed o s sibling.id = false) =
                openSiblings o s act.id failed.id := by
            refine List.filter_eq_self.mpr fun sibling hmem => ?_
            simp only [List.any_eq_true, not_exists, not_and, Bool.not_eq_true] at hclaimed
            simpa using hclaimed sibling hmem
          rw [hall] at hcancelled
          exact .cancelled rfl hfailed (List.Subset.refl _) (failScopes_ok hcancelled)
            (.inr ⟨rfl, failScope_ok hown⟩)

theorem chooseBody_ok {ctx : EvalCtx} {chosen : Region} {name : String} :
    ∀ {cases_ : List ChooseCase}, chooseBody ctx default cases_ = .ok (name, chosen) →
      name = "default" ∨ ∃ case ∈ cases_, case.name = name
  | [], h => by
    simp only [chooseBody, pure_eq_ok, Prod.mk.injEq] at h
    exact .inl h.1.symm
  | case :: rest, h => by
    simp only [chooseBody, bind_eq_ok] at h
    obtain ⟨holds, -, h⟩ := h
    split at h
    · simp only [pure_eq_ok, Prod.mk.injEq] at h
      exact .inr ⟨case, List.mem_cons_self, h.1⟩
    · rcases chooseBody_ok h with hdefault | ⟨other, hmem, hname⟩
      · exact .inl hdefault
      · exact .inr ⟨other, List.mem_cons_of_mem _ hmem, hname⟩

theorem progressChoose_ok {cases_ : List ChooseCase}
    (h : progressChoose env o s act input cases_ default ids = .ok (es, ids')) (hne : es ≠ []) :
    NodeMove o s run time act (.choose input cases_ default next) es := by
  simp only [progressChoose] at h
  split at h
  · next child hchild =>
    obtain ⟨-, hclosed⟩ := childOf_eq_some hchild
    split at h
    · simp only [pure_eq_ok, Prod.mk.injEq] at h
      exact absurd h.1.symm hne
    · next error herror =>
      simp only [bind_eq_ok, pure_eq_ok, Prod.mk.injEq] at h
      obtain ⟨failed, hfailed, rfl, rfl⟩ := h
      exact .childFailed rfl (hclosed (by simp [herror])) (failScope_ok hfailed)
    · next output hdone =>
      exact finishNode_move (g := []) h (.inl rfl) rfl (hclosed (by simp [hdone]))
        (lastDone_of_completed hchild hdone) rfl
  · next hchild =>
    simp only [bind_eq_ok, okOr_eq_ok, pure_eq_ok] at h
    obtain ⟨scope, -, ctx, -, captured, -, ⟨name, chosen⟩, hchosen, h⟩ := h
    refine openChild_move (g := []) h (.inl rfl) rfl ?_
      (fun _ => childless_of_childOf_none hchild) (.case hchild)
    simp only [bodyRegion, Node.caseBody?]
    split
    · rfl
    · next hname =>
      rcases chooseBody_ok hchosen with hdefault | ⟨case, hmem, hcase⟩
      · exact absurd hdefault hname
      · simp only [Option.isSome_map, List.find?_isSome]
        exact ⟨case, hmem, by simp [hcase]⟩

theorem progressSaga_ok (h : progressSaga env o s act input body ids = .ok (es, ids'))
    (hne : es ≠ []) :
    NodeMove o s run time act (.saga input body next) es := by
  simp only [progressSaga] at h
  split at h
  · simp only [pure_eq_ok, Prod.mk.injEq] at h
    exact absurd h.1.symm hne
  · next hflight =>
    have hflight := Bool.eq_false_iff.mpr hflight
    split at h
    · next error herror =>
      exact .aborted hflight (.inl herror) (compensateOrFail_ok h)
    · next herror =>
      split at h
      · next child hchild =>
        split at h
        · simp only [pure_eq_ok, Prod.mk.injEq] at h
          exact absurd h.1.symm hne
        · next error hfailed =>
          exact .aborted hflight (.inr ⟨herror, child, hchild, hfailed⟩) (compensateOrFail_ok h)
        · next output hdone =>
          simp only [bind_eq_ok, pure_eq_ok, Prod.mk.injEq, Prod.exists] at h
          obtain ⟨finished, ids₁, hfinished, rfl, rfl⟩ := h
          obtain ⟨followed, hfollowed, rfl⟩ := finishNode_ok hfinished
          exact .settled hflight herror hchild hdone hfollowed
      · next hchild =>
        simp only [bind_eq_ok, okOr_eq_ok, pure_eq_ok] at h
        obtain ⟨scope, -, ctx, -, captured, -, h⟩ := h
        exact openChild_move (g := []) h (.inl rfl) rfl rfl
          (fun _ => childless_of_childOf_none hchild) (.body hchild)

theorem satisfyWait_ok {wait : WaitId} {entry : InboxEntry}
    (h : satisfyWait env s run wait act entry ids = .ok (es, ids')) :
    ∃ followed, Followed s act.scope act.node followed ∧
      es = .waitSatisfied run wait entry.eventId entry.payload ::
        .nodeOutputRecorded run act.scope act.node entry.payload :: followed := by
  simp only [satisfyWait, bind_eq_ok, pure_eq_ok, Prod.mk.injEq, Prod.exists] at h
  obtain ⟨followed, ids₁, hf, rfl, rfl⟩ := h
  exact ⟨followed, followNext_ok hf, rfl⟩

theorem openWait_ok {signal : String} {key : Binding} {timeoutMs : Option Nat}
    {consumeFrom : ConsumeFrom} {onTimeout : Option NodeKey}
    (hfree : hasPendingWait o s act.id = false)
    (h : openWait env o s act signal key timeoutMs consumeFrom time ids = .ok (es, ids')) :
    NodeMove o s run time act
      (.waitSignal signal key timeoutMs consumeFrom next onTimeout) es := by
  simp only [openWait, bind_eq_ok, okOr_eq_ok] at h
  obtain ⟨scope, hscope, ctx, hctx, keyVal, hval, text, htext, h⟩ := h
  split at h
  · simp only [bind_eq_ok, pure_eq_ok, Prod.mk.injEq] at h
    obtain ⟨failed, hfailed, rfl, rfl⟩ := h
    exact .conflict hfree (failScope_ok hfailed)
  · simp only [bind_eq_ok, okOr_eq_ok] at h
    obtain ⟨runState, hrun, h⟩ := h
    have hkey : WaitsFor s act key text := ⟨scope, ctx, keyVal, hscope, hctx, hval, htext⟩
    split at h
    · next hentry =>
      simp only [pure_eq_ok, Prod.mk.injEq] at h
      obtain ⟨rfl, rfl⟩ := h
      exact .waiting hfree hkey hrun hentry
    · next entry hentry =>
      simp only [bind_eq_ok, pure_eq_ok, Prod.mk.injEq, Prod.exists] at h
      obtain ⟨satisfied, ids₁, hsat, rfl, rfl⟩ := h
      obtain ⟨followed, hfollowed, rfl⟩ := satisfyWait_ok hsat
      exact .taken hfree hkey hrun hentry hfollowed

theorem unlessEmpty_eq_some {emission : Emission} (h : unlessEmpty emission = some (es, ids')) :
    emission = (es, ids') ∧ es ≠ [] := by
  unfold unlessEmpty at h
  split at h
  · cases h
  · next hne =>
    obtain rfl := Option.some.inj h
    exact ⟨rfl, hne⟩

theorem map_unlessEmpty_ok (h : unlessEmpty <$> x = .ok (some (es, ids'))) :
    x = .ok (es, ids') ∧ es ≠ [] := by
  cases x with
  | error e => cases h
  | ok emission =>
    obtain ⟨rfl, hne⟩ := unlessEmpty_eq_some (Except.ok.inj h)
    exact ⟨rfl, hne⟩

/-- Everything that an open activation can produce. -/
theorem progressNode_ok
    (h : progressNode env o s run time act node ids = .ok (some (es, ids'))) :
    NodeMove o s run time act node es := by
  cases node with
  | activity =>
    simp only [progressNode, pure_eq_ok, Option.some.injEq, Prod.mk.injEq] at h
    obtain ⟨rfl, rfl⟩ := h
    exact .reopened
  | complete output =>
    simp only [progressNode, bind_eq_ok, okOr_eq_ok, pure_eq_ok, Option.some.injEq,
      Prod.mk.injEq] at h
    obtain ⟨scope, hscope, ctx, -, value, -, rfl, rfl⟩ := h
    exact .completed hscope
  | fail error =>
    simp only [progressNode, bind_eq_ok, pure_eq_ok, Option.some.injEq, Prod.mk.injEq] at h
    obtain ⟨failed, hfailed, rfl, rfl⟩ := h
    exact .failed (failScope_ok hfailed)
  | delay duration next =>
    simp only [progressNode] at h
    split at h
    · cases h
    · next hfree =>
      simp only [bind_eq_ok, okOr_eq_ok, pure_eq_ok, Option.some.injEq] at h
      obtain ⟨scope, -, ctx, -, ms, -, h⟩ := h
      obtain ⟨rfl, rfl⟩ := Prod.mk.inj h
      exact .timer rfl (Bool.eq_false_iff.mpr hfree)
  | waitUntil instant next =>
    simp only [progressNode] at h
    split at h
    · cases h
    · next hfree =>
      have hfree := Bool.eq_false_iff.mpr hfree
      simp only [bind_eq_ok, okOr_eq_ok] at h
      obtain ⟨scope, hscope, ctx, hctx, value, hvalue, ms, hms, h⟩ := h
      split at h
      · next hdue =>
        obtain ⟨emission, hopen, hemission⟩ := map_some_ok h
        subst hemission
        obtain ⟨sc, a, hsc, rfl⟩ := openNode_ok hopen
        exact .due hfree ⟨scope, ctx, value, ms, hscope, hctx, hvalue, hms, hdue⟩ hsc
      · simp only [pure_eq_ok, Option.some.injEq] at h
        obtain ⟨rfl, rfl⟩ := Prod.mk.inj h
        exact .timer rfl hfree
  | waitSignal signal key timeoutMs consumeFrom next onTimeout =>
    simp only [progressNode] at h
    split at h
    · cases h
    · next hfree =>
      obtain ⟨emission, hopen, hemission⟩ := map_some_ok h
      subst hemission
      exact openWait_ok (Bool.eq_false_iff.mpr hfree) hopen
  | «while» state schema condition maxIterations body next =>
    obtain ⟨h, hne⟩ := map_unlessEmpty_ok h
    exact progressWhile_ok rfl rfl h hne
  | doWhile state schema condition maxIterations body next =>
    obtain ⟨h, hne⟩ := map_unlessEmpty_ok h
    exact progressWhile_ok rfl rfl h hne
  | «repeat» count state schema maxIterations body next =>
    obtain ⟨h, hne⟩ := map_unlessEmpty_ok h
    exact progressRepeat_ok h hne
  | foreach items schema maxItems maxConcurrency body next =>
    obtain ⟨h, hne⟩ := map_unlessEmpty_ok h
    exact progressForeach_ok h hne
  | parallel branches next =>
    obtain ⟨h, hne⟩ := map_unlessEmpty_ok h
    exact progressParallel_ok h hne
  | choose input cases_ default next =>
    obtain ⟨h, hne⟩ := map_unlessEmpty_ok h
    exact progressChoose_ok h hne
  | saga input body next =>
    obtain ⟨h, hne⟩ := map_unlessEmpty_ok h
    exact progressSaga_ok h hne

end Nodes

end Graphrun
