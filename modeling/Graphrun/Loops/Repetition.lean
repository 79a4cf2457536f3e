import Graphrun.Loops.Counted

/-!
# Repeating a body a number of times

The reference for `repeat`: a count outside of 0 … `maxIterations` is refused, otherwise bodies
0, 1, …, `count` − 1 run one after the other, the first on the value of the state binding and each
other one on the output of the one before, and the last value is the output of the node
(`Repetition.reference`).

The source compares the low 32 bits of the count with the limit. A count of 2³² + 1 therefore
passes a limit of one, and a body is opened (`wideCount_opens`). In every run in which the counts
of the loops that are progressed fit into 32 bits, a `repeat` does what the reference does
(`repeats_count_times`).
-/

namespace Graphrun

open Lib

variable {env : Env} {o : Enumeration} {s : Core} {time : Nat} {ids ids' : IdGen}
  {es : List DomainEvent} {a : ActivationId} {act : ActivationState} {r : Repetition} {c : Int}
  {bodies : List ScopeState} {body : ScopeState}

/-! ## The reference -/

/-- The value with which a counted loop starts. The source unwraps the evaluation. -/
def Repetition.initial (s : Core) (act : ActivationState) (r : Repetition) : Result Value := do
  let scope ← okOr (s.scopes.lookup act.scope) .panicked
  let ctx ← evalCtx s scope
  match evalBinding ctx r.state with
  | .ok value => pure value
  | .error _ => throw .panicked

/-- What a loop with the given bodies and the given last value does next. -/
def Repetition.goOn (env : Env) (s : Core) (act : ActivationState) (r : Repetition) (count : Int)
    (bodies : List ScopeState) (carry : Value) (ids : IdGen) : Result Emission :=
  if (bodies.length : Int) < count then
    pure (openLoopBody env act r.body carry bodies.length ids)
  else finishNode env s act carry ids

/-- One step of a loop that runs its body `count` times. -/
def Repetition.reference (env : Env) (o : Enumeration) (s : Core) (act : ActivationState)
    (r : Repetition) (count : Int) (bodies : List ScopeState) (ids : IdGen) : Result Emission :=
  if count < 0 ∨ r.maxIterations < count then throw (invalid "repeat count is out of range")
  else
    match bodies.getLast? with
    | none => do
      let carry ← r.initial s act
      r.goOn env s act count bodies carry ids
    | some body =>
      match body.status with
      | .open => pure ([], ids)
      | .failed error => do
        let failed ← failScope o s act.scope error
        pure (failed, ids)
      | .completed output => r.goOn env s act count bodies output ids

/-! ## The code follows the reference -/

/-- The last body is the child that the activation looks at. -/
theorem LoopBodies.childOf_last (h : LoopBodies s a bodies) (hlast : bodies.getLast? = some body) :
    childOf o s a = some body := by
  have hget : bodies[bodies.length - 1]? = some body := by rw [← List.getLast?_eq_getElem?, hlast]
  obtain ⟨hlookup, hparent, hrole⟩ := h.indexed _ _ hget
  have hmem : body ∈ childrenOf o s a := mem_childrenOf.mpr ⟨⟨_, hlookup⟩, hparent⟩
  cases hchild : childOf o s a with
  | none =>
    rw [childOf_none hchild] at hmem
    cases hmem
  | some child =>
    obtain ⟨hchildMem, -⟩ := childOf_eq_some hchild
    obtain ⟨⟨k, hk⟩, hparent'⟩ := mem_childrenOf.mp hchildMem
    obtain ⟨j, hj⟩ := List.mem_iff_getElem?.mp (h.complete k child hk hparent')
    obtain ⟨hjlt, -⟩ := List.getElem?_eq_some_iff.mp hj
    obtain ⟨-, -, hrole'⟩ := h.indexed _ _ hj
    have hjlast : j = bodies.length - 1 := by
      by_cases hopen : child.status = .open
      · -- all bodies but the last one have completed
        by_contra hne
        have hnext := List.getElem?_eq_getElem (l := bodies) (i := j + 1) (by omega)
        rw [h.chained j child _ hj hnext] at hopen
        cases hopen
      · have hle := childOf_max hchild hopen hmem
        simp only [childIndex_eq, hrole, hrole', ScopeRole.index] at hle
        omega
    rw [hjlast, hget] at hj
    exact hj.symm

theorem wrapInt32_of_fits (h : 0 ≤ c) (hfits : c < 2 ^ 32) : (wrapInt32 c : Int) = c := by
  rw [wrapInt32, Int.emod_eq_of_lt h hfits]
  exact Int.toNat_of_nonneg h

/-- The counter of a loop without bodies. -/
theorem Counted.carry_of_nil (counted : Counted s) (hrepeats : Repeats s a act r)
    (tree : Tree s) (h : LoopBodies s a []) : s.loopCarry.lookup a = none := by
  have hnone {i sc} (hbody : BodyAt s a i sc) : False := by
    obtain ⟨k, hk, hrole⟩ := hbody
    cases h.complete k sc hk ((tree.parent k sc hk).trans (by rw [hrole]; rfl))
  rw [Option.eq_none_iff_forall_ne_some]
  intro v hv
  rcases counted.top a act r v.1 v.2 hrepeats hv with ⟨sc, hsc⟩ | ⟨m, sc, -, hsc, -⟩
  · exact hnone hsc
  · exact hnone hsc

/-- The counter of a loop whose last body has completed is the number of its bodies. -/
theorem Counted.carry_of_completed {output : Value} (counted : Counted s) (sound : Sound s)
    (hrepeats : Repeats s a act r) (h : LoopBodies s a bodies)
    (hlast : bodies.getLast? = some body) (hdone : body.status = .completed output) :
    ∃ v, s.loopCarry.lookup a = some (v, bodies.length) := by
  have hget : bodies[bodies.length - 1]? = some body := by rw [← List.getLast?_eq_getElem?, hlast]
  have hlength : bodies.length ≠ 0 := by
    intro hzero
    rw [List.eq_nil_of_length_eq_zero hzero] at hlast
    cases hlast
  have hbelow {i sc} (hbody : BodyAt s a i sc) : i < bodies.length := by
    obtain ⟨k, hk, hrole⟩ := hbody
    have hparent : sc.parent = some a := (sound.tree.parent k sc hk).trans (by rw [hrole]; rfl)
    obtain ⟨j, hj⟩ := List.mem_iff_getElem?.mp (h.complete k sc hk hparent)
    obtain ⟨hjlt, -⟩ := List.getElem?_eq_some_iff.mp hj
    obtain ⟨-, -, hrole'⟩ := h.indexed _ _ hj
    cases hrole.symm.trans hrole'
    exact hjlt
  obtain ⟨hlookup, -, hrole⟩ := h.indexed _ _ hget
  obtain ⟨v, n, hv, -, hn⟩ := sound.nested.carried _ body a _ hlookup hrole
  have hafter := hn (by rw [hdone]; rfl)
  rcases counted.top a act r v n hrepeats hv with ⟨sc, hsc⟩ | ⟨m, sc, rfl, hsc, -⟩
  · have := hbelow hsc
    omega
  · have := hbelow hsc
    obtain hm : m + 1 = bodies.length := by omega
    exact ⟨v, hm ▸ hv⟩

/-- A loop with a body has a count that was not refused and that its bodies do not exceed. -/
theorem Counted.within_count (counted : Counted s) (hrepeats : Repeats s a act r)
    (hforward : act.role = .forward) (hopen : act.status = .open) (h : LoopBodies s a bodies)
    (hcount : Evaluates s act r.count (.int c)) (hne : bodies ≠ []) :
    (bodies.length : Int) ≤ c ∧ c ≤ r.maxIterations := by
  have hlength := List.length_pos_of_ne_nil hne
  have hget := List.getElem?_eq_getElem (l := bodies) (i := bodies.length - 1) (by omega)
  obtain ⟨hlookup, -, hrole⟩ := h.indexed _ _ hget
  obtain ⟨c', hc', hlt, hmax⟩ :=
    counted.counted a act r _ _ hrepeats hforward hopen ⟨_, hlookup, hrole⟩
  obtain rfl := Value.int.inj (hc'.unique hcount)
  exact ⟨by omega, hmax⟩

/-- Where the count fits into 32 bits, `progress_repeat` is the reference step. -/
theorem Counted.progress_eq (counted : Counted s) (sound : Sound s)
    (hrepeats : Repeats s act.id act r) (hforward : act.role = .forward)
    (hopen : act.status = .open) (h : LoopBodies s act.id bodies)
    (hcount : Evaluates s act r.count (.int c)) (hfits : c < 2 ^ 32) (ids : IdGen) :
    r.progress env o s act ids = r.reference env o s act c bodies ids := by
  have hwithin := counted.within_count hrepeats hforward hopen h hcount
  obtain ⟨scope, ctx, hscope, hctx, hvalue⟩ := hcount
  simp only [Repetition.progress, progressRepeat, hscope, hctx, hvalue, okOr, ok_bind,
    Value.asI64, Repetition.reference]
  by_cases hrange : c < 0 ∨ r.maxIterations < c
  · have hrefused : c < 0 ∨ wrapInt32 c > r.maxIterations := by
      rcases hrange with hneg | hbig
      · exact .inl hneg
      · have := wrapInt32_of_fits (by omega) hfits
        omega
    simp only [refuseIf, if_pos hrefused, if_pos hrange]
    rfl
  · have hallowed : ¬ (c < 0 ∨ wrapInt32 c > r.maxIterations) := by
      have := wrapInt32_of_fits (by omega) hfits
      omega
    simp only [refuseIf, if_neg hallowed, if_neg hrange, ok_bind]
    cases hlast : bodies.getLast? with
    | none =>
      obtain rfl := List.getLast?_eq_none_iff.mp hlast
      have hcarry := counted.carry_of_nil hrepeats sound.tree h
      have hchild : childOf o s act.id = none := by
        cases hchild : childOf o s act.id with
        | none => rfl
        | some child =>
          obtain ⟨⟨k, hk⟩, hparent⟩ := mem_childrenOf.mp (childOf_eq_some hchild).1
          cases h.complete k child hk hparent
      simp only [loopCarryOf, hcarry, hchild, Repetition.initial, hscope, hctx, okOr, ok_bind,
        Repetition.goOn, List.length_nil]
      cases evalBinding ctx r.state with
      | error fault => rfl
      | ok value =>
        simp only [pure, Except.pure, ok_bind, and_true]
        by_cases hzero : c = 0
        · simp [hzero]
        · rw [if_neg hzero, if_pos (by omega)]
    | some body =>
      have hget : bodies[bodies.length - 1]? = some body := by
        rw [← List.getLast?_eq_getElem?, hlast]
      obtain ⟨hlookup, -, hrole⟩ := h.indexed _ _ hget
      have hne : bodies ≠ [] := by
        rintro rfl
        cases hlast
      have hlength := List.length_pos_of_ne_nil hne
      have hle := (hwithin hne).1
      have hzero : c ≠ 0 := by omega
      obtain ⟨v, n, hv, -⟩ := sound.nested.carried _ body act.id _ hlookup hrole
      simp only [loopCarryOf, hv, h.childOf_last hlast, hzero, false_and, if_false, pure,
        Except.pure, ok_bind]
      cases hstatus : body.status with
      | «open» => rfl
      | failed error => rfl
      | completed output =>
        obtain ⟨v', hv'⟩ := counted.carry_of_completed sound hrepeats h hlast hstatus
        cases Option.mem_unique hv hv'
        simp only [Repetition.goOn]
        rcases lt_or_ge (bodies.length : Int) c with hlt | hge
        · rw [if_neg (by omega), if_neg (by omega), if_pos hlt]
          rfl
        · rw [if_pos (by omega), if_neg (by omega)]

/-! ## Steps -/

/-- The counts of the loops of the run that a step progresses fit into 32 bits. -/
def CountsFit (step : Step) : Prop :=
  ∀ run act node r c, step.body = .progress run → Advancing step.before run act node →
    node.repetition? = some r → Evaluates step.before act r.count (.int c) → c < 2 ^ 32

theorem Repetition.goOn_opens {carry : Value} {run : RunId} {k : ScopeId}
    {parent : Option ActivationId} {role : ScopeRole} {input : Value}
    (h : r.goOn env s act c bodies carry ids = .ok (es, ids'))
    (hopened : .scopeOpened run k parent role input ∈ es) :
    (bodies.length : Int) < c ∧ input = carry ∧
      ∃ k' start, es = [
        .scopeOpened act.run k' (some act.id) (.loopBody act.id bodies.length) input,
        .activationOpened act.run k' start r.body.start] := by
  unfold Repetition.goOn at h
  split at h
  · next hlt =>
    obtain ⟨k', start, heq⟩ :=
      openChild_eq env ids act (.loopBody act.id bodies.length) carry r.body
    rw [openLoopBody, pure_eq_ok] at h
    obtain rfl : es = _ := (congrArg Prod.fst h).symm.trans heq
    obtain ⟨-, -, -, -, rfl⟩ : _ ∧ _ ∧ _ ∧ _ ∧ input = carry := by simpa using hopened
    exact ⟨hlt, rfl, k', start, rfl⟩
  · obtain ⟨followed, hfollowed, rfl⟩ := finishNode_ok h
    have hnone : ∀ e ∈ followed, e.opensScope? = none := hfollowed.all fun _ _ _ => rfl
    simp only [List.mem_cons, reduceCtorEq, false_or] at hopened
    cases hnone _ hopened

/-- A step of the reference that opens a scope opens the next body, on the last value. -/
theorem Repetition.reference_opens {run : RunId} {k : ScopeId} {parent : Option ActivationId}
    {role : ScopeRole} {input : Value}
    (h : r.reference env o s act c bodies ids = .ok (es, ids'))
    (hopened : .scopeOpened run k parent role input ∈ es) :
    (bodies.length : Int) < c ∧ c ≤ r.maxIterations ∧
      (∀ body, bodies.getLast? = some body → body.status = .completed input) ∧
      ∃ k' start, es = [
        .scopeOpened act.run k' (some act.id) (.loopBody act.id bodies.length) input,
        .activationOpened act.run k' start r.body.start] := by
  unfold Repetition.reference at h
  split at h
  · cases h
  · next hrange =>
    split at h
    · next hlast =>
      simp only [bind_eq_ok] at h
      obtain ⟨carry, -, h⟩ := h
      obtain ⟨hlt, -, hes⟩ := Repetition.goOn_opens h hopened
      exact ⟨hlt, by omega, fun body hbody => by simp [hlast] at hbody, hes⟩
    · next body hlast =>
      split at h
      · simp only [pure_eq_ok, Prod.mk.injEq] at h
        rw [← h.1] at hopened
        cases hopened
      · simp only [bind_eq_ok, pure_eq_ok, Prod.mk.injEq] at h
        obtain ⟨failed, hfailed, rfl, rfl⟩ := h
        have hnone : ∀ e ∈ failed, e.opensScope? = none :=
          (failScope_ok hfailed).all (fun _ => rfl) (fun _ => rfl) (fun _ _ => rfl) fun _ _ => rfl
        cases hnone _ hopened
      · next output hdone =>
        obtain ⟨hlt, rfl, hes⟩ := Repetition.goOn_opens h hopened
        refine ⟨hlt, by omega, fun body' hbody' => ?_, hes⟩
        rw [← Option.mem_unique hlast hbody', hdone]

/-- A `repeat` that makes progress has a count. -/
theorem Repetition.count_of_ok (h : r.progress env o s act ids = .ok (es, ids')) :
    ∃ c, Evaluates s act r.count (.int c) := by
  simp only [Repetition.progress, progressRepeat, bind_eq_ok, okOr_eq_ok] at h
  obtain ⟨scope, hscope, ctx, hctx, value, hvalue, c, hc, -⟩ := h
  exact ⟨c, scope, ctx, hscope, hctx, by rw [hvalue, asI64_eq_some hc]⟩

/-- What a step records respects the counting. -/
theorem Counted.counting {step : Step} (rest : AtRest step.before) (steady : Steady step)
    (fit : CountsFit step) (decided : Decided env step) (counted : Counted step.before) :
    Guarded Counting step.before step.events := by
  have respects := decided.respects rest steady
  obtain ⟨o, move⟩ := decided.move steady.fresh.unreplayed
  refine guarded_iff.mpr fun before e after hes => ?_
  unfold Counting
  split
  · next run k parent a i input =>
    have hplaced := (guarded_iff.mp respects before _ after hes).placed
    obtain rfl : parent = some a := hplaced.2.1
    have hmem : .scopeOpened run k (some a) (.loopBody a i) input ∈ step.events := by simp [hes]
    obtain ⟨run', act, node, ids, ids', hbody, hadvancing, hprogress, rfl⟩ := move.opened_by hmem
    intro act' r hrepeats
    -- the node is the one that the activation had before the step
    obtain ⟨node', hnode', hr⟩ := hrepeats.2
    have placed : Guarded Placed step.before before := by
      have hall := decided.placed rest.sound.tree steady.fresh
      rw [hes, guarded_append] at hall
      exact hall.1
    rw [rest.sound.tree.node_kept (keeps_evolveAll placed act.run)
      hadvancing.hact hrepeats.1, hadvancing.hnode] at hnode'
    obtain rfl := Option.some.inj hnode'
    have hbefore : Repeats step.before act.id act r := ⟨hadvancing.hact, node, hadvancing.hnode, hr⟩
    have hok := progressNode_repetition hr hprogress
    obtain ⟨c, hc⟩ := Repetition.count_of_ok hok
    obtain ⟨bodies, hbodies, -⟩ := counted.bodies rest.sound hbefore
    rw [counted.progress_eq rest.sound hbefore hadvancing.hforward hadvancing.hopen hbodies hc
      (fit run' act node r c hbody hadvancing hr hc)] at hok
    obtain ⟨hlt, hmax, hlast, k', start, hevents⟩ := Repetition.reference_opens hok hmem
    -- and the body is the first thing that the step records
    obtain rfl : before = [] := by
      rw [hes] at hevents
      cases before with
      | nil => rfl
      | cons first before => cases before <;> simp at hevents
    rw [hes] at hevents
    simp only [List.nil_append, List.cons.injEq, DomainEvent.scopeOpened.injEq,
      ScopeRole.loopBody.injEq] at hevents
    obtain ⟨⟨-, -, -, ⟨-, rfl⟩, -⟩, -⟩ := hevents
    obtain rfl := Option.mem_unique hadvancing.hact hrepeats.1
    refine ⟨by omega, ⟨c, hc, hlt, hmax⟩, fun j hj => ?_⟩
    have hget := List.getElem?_eq_getElem (l := bodies) (i := j) (by omega)
    obtain ⟨hlookup, -, hrole⟩ := hbodies.indexed j _ hget
    refine ⟨_, ⟨_, hlookup, hrole⟩, hlast _ ?_⟩
    have hindex : bodies.length - 1 = j := by omega
    rw [List.getLast?_eq_getElem?, hindex, hget]
  · trivial

theorem Counted.step {step : Step} (rest : AtRest step.before) (steady : Steady step)
    (fit : CountsFit step) (decided : Decided env step) (counted : Counted step.before) :
    Counted step.after := by
  have guarded := (decided.respects rest steady).and (counted.counting rest steady fit decided)
  exact (guarded.keeps (P := fun s => Sound s ∧ Counted s)
    (fun _ _ h hs => ⟨hs.1.evolve h.1, hs.2.evolve hs.1 h.1 h.2⟩) ⟨rest.sound, counted⟩).2

/-! ## Runs -/

/-- The bodies of every `repeat` of the run that a step progresses are numbered and chained, none
if its count is refused and otherwise no more than its count, and what it does is what the
reference does. -/
def FollowsCount (env : Env) (step : Step) : Prop :=
  ∀ run act node r c, step.body = .progress run → Advancing step.before run act node →
    node.repetition? = some r → Evaluates step.before act r.count (.int c) →
    ∃ bodies, LoopBodies step.before act.id bodies ∧
      (c < 0 ∨ r.maxIterations < c → bodies = []) ∧ (0 ≤ c → bodies.length ≤ c) ∧
      ∀ o ids, r.progress env o step.before act ids =
        r.reference env o step.before act c bodies ids

/-- In every run of steady steps that progress loops with counts below 2³² only, a `repeat` has
numbered and chained bodies, at most as many as its limit allows, and runs them as often as its
count says. -/
theorem repeats_count_times {clusterId : String} {log : List Step} {final : State}
    (hrun : Run env (.empty clusterId) log final)
    (hsteps : ∀ step ∈ log, Steady step ∧ CountsFit step) :
    (∀ a act r, Repeats final.toCore a act r →
      ∃ bodies, LoopBodies final.toCore a bodies ∧ bodies.length ≤ r.maxIterations) ∧
    ∀ step ∈ log, FollowsCount env step := by
  obtain ⟨⟨rest, counted⟩, hbefore⟩ := (hrun.trace (keyed_empty clusterId)).invariant
    (P := fun s => AtRest s ∧ Counted s)
    (fun _ _ change h => ⟨h.1.quiet change, h.2.quiet change h.1.sound⟩)
    (fun step decided condition h => by
      obtain ⟨steady, fit⟩ := condition
      exact ⟨decided.atRest h.1 steady, h.2.step h.1 steady fit decided⟩)
    ⟨atRest_empty clusterId, counted_empty clusterId⟩ hsteps
  refine ⟨fun a act r hrepeats => counted.bodies rest.sound hrepeats, fun step hstep => ?_⟩
  intro run act node r c hbody hadvancing hr hc
  obtain ⟨rest, counted⟩ := hbefore step hstep
  have hrepeats : Repeats step.before act.id act r := ⟨hadvancing.hact, node, hadvancing.hnode, hr⟩
  obtain ⟨bodies, hbodies, -⟩ := counted.bodies rest.sound hrepeats
  have hwithin := counted.within_count hrepeats hadvancing.hforward hadvancing.hopen hbodies hc
  refine ⟨bodies, hbodies, fun hrange => ?_, fun hc => ?_, fun o ids => ?_⟩
  · by_contra hne
    have := hwithin hne
    omega
  · by_cases hne : bodies = []
    · simp [hne, hc]
    · exact (hwithin hne).1
  · exact counted.progress_eq rest.sound hrepeats hadvancing.hforward hadvancing.hopen hbodies hc
      ((hsteps step hstep).2 run act node r c hbody hadvancing hr hc) ids

/-! ## A count beyond 32 bits and one within -/

/-- Repeats a body that completes at once, at most two times. -/
def countingCommands (count : Int) : List Command := [
  { id := ⟨1⟩, time := 1, body := .start ⟨1⟩ (sampleWorkflow [] "loop"
      [("done", .complete (.literal .null)),
        ("loop", .repeat (.literal (.int count)) (.literal .null) .null 2
          (sampleRegion "done" [("done", .complete (.literal .null))]) "done")]) .null
      ⟨[], [], []⟩ },
  { id := ⟨2⟩, time := 2, body := .progress ⟨1⟩ }]

def Binding.isSmallCount : Binding → Bool
  | .literal (.int c) => c < 2 ^ 32
  | _ => false

theorem Binding.lt_of_isSmallCount {binding : Binding} (h : binding.isSmallCount = true)
    (hc : Evaluates s act binding (.int c)) : c < 2 ^ 32 := by
  obtain ⟨scope, ctx, -, -, hvalue⟩ := hc
  unfold Binding.isSmallCount at h
  split at h
  · simp only [evalBinding, pure_eq_ok, Value.int.injEq] at hvalue
    exact hvalue ▸ of_decide_eq_true h
  · cases h

/-- The counts of the loops at the nodes of a state are small literals. -/
def Step.countsSmall (step : Step) : Bool :=
  step.before.activations.entries.all fun entry =>
    (nodeOf step.before entry.2.scope entry.2.node).all fun node =>
      node.repetition?.all fun r => r.count.isSmallCount

theorem Step.countsFit_of_countsSmall {step : Step} (h : step.countsSmall = true) :
    CountsFit step := by
  intro run act node r c _ hadvancing hr hc
  have hentry := List.all_eq_true.mp h _ (AList.mem_lookup_iff.mp hadvancing.hact)
  simp only [hadvancing.hnode, hr, Option.all_some] at hentry
  exact Binding.lt_of_isSmallCount hentry hc

/-- The count that a `repeat` evaluates. -/
def countAt (s : Core) (act : ActivationState) (r : Repetition) : Option Int :=
  (do evalBinding (← evalCtx s (← okOr (s.scopes.lookup act.scope) .panicked)) r.count :
    Result Value).toOption.bind Value.asI64

theorem evaluates_of_countAt (h : countAt s act r = some c) : Evaluates s act r.count (.int c) := by
  obtain ⟨value, hvalue, hc⟩ := Option.bind_eq_some_iff.mp h
  have hok := ok_of_toOption hvalue
  simp only [bind_eq_ok, okOr_eq_ok] at hok
  obtain ⟨scope, hscope, ctx, hctx, hvalue⟩ := hok
  exact ⟨scope, ctx, hscope, hctx, asI64_eq_some hc ▸ hvalue⟩

/-- The first body of the activation 65 is opened. -/
def DomainEvent.opensFirstBody : DomainEvent → Bool
  | .scopeOpened ⟨1⟩ _ (some ⟨65⟩) (.loopBody ⟨65⟩ 0) _ => true
  | _ => false

/-- With a limit of two, a count of 2³² + 1 opens a body. -/
theorem wideCount_opens : ∃ log final, Run sampleEnv (.empty sampleCluster) log final ∧
    (∀ step ∈ log, Steady step) ∧ ∃ step ∈ log, ∃ act node r c k input,
      Advancing step.before ⟨1⟩ act node ∧ node.repetition? = some r ∧
      Evaluates step.before act r.count (.int c) ∧ r.maxIterations < c ∧
      .scopeOpened ⟨1⟩ k (some act.id) (.loopBody act.id 0) input ∈ step.events ∧
      ¬ FollowsCount sampleEnv step := by
  obtain ⟨log, final, hrun, hcheck⟩ := exists_sampleRun (countingCommands (2 ^ 32 + 1))
    (fun log _ => log.all Step.checksSteady && log[1]?.any fun step =>
      step.body.progressed? = some ⟨1⟩ && (advancingAt step.before ⟨1⟩ ⟨65⟩).any fun found =>
      found.2.repetition?.any fun r => ((countAt step.before found.1 r).any fun c =>
      (r.maxIterations : Int) < c) &&
      (r.progress sampleEnv .stored step.before found.1 step.ids).toOption.isSome &&
      step.events.any DomainEvent.opensFirstBody)
    (by decide +kernel)
  simp only [Bool.and_eq_true, Option.any_eq_true, List.all_eq_true, decide_eq_true_eq,
    List.any_eq_true, Option.isSome_iff_exists] at hcheck
  obtain ⟨hsteady, step, hstep, hbody, ⟨act, node⟩, hadvancing, r, hr, ⟨⟨c, hc, hlt⟩,
    emission, hprogress⟩, e, he, hopened⟩ := hcheck
  obtain ⟨hid, hadvancing⟩ := advancing_of_advancingAt hadvancing
  have hc := evaluates_of_countAt hc
  refine ⟨log, final, hrun, fun step hstep => Step.steady_of_checksSteady (hsteady step hstep),
    step, List.mem_of_getElem? hstep, act, node, r, c, ?_⟩
  unfold DomainEvent.opensFirstBody at hopened
  split at hopened
  · next k input =>
    refine ⟨k, input, hadvancing, hr, hc, hlt, hid ▸ he, fun follows => ?_⟩
    obtain ⟨bodies, -, -, -, heq⟩ :=
      follows ⟨1⟩ act node r c (CommandBody.progressed?_eq_some hbody) hadvancing hr hc
    have hrefused := (ok_of_toOption hprogress).symm.trans (heq .stored step.ids)
    rw [Repetition.reference, if_pos (.inr hlt)] at hrefused
    cases hrefused
  · cases hopened

/-- With a count of two, the loop records its output after two bodies. -/
theorem twoBodies_repeat : ∃ log final step act node r bodies, ∃ emission : Emission,
    Run sampleEnv (.empty sampleCluster) log final ∧
    (∀ step ∈ log, Steady step ∧ CountsFit step) ∧ step ∈ log ∧
    Advancing step.before ⟨1⟩ act node ∧ node.repetition? = some r ∧
    Evaluates step.before act r.count (.int 2) ∧
    LoopBodies step.before act.id bodies ∧ bodies.length = 2 ∧
    r.reference sampleEnv .stored step.before act 2 bodies step.ids = .ok emission ∧
    .nodeOutputRecorded ⟨1⟩ act.scope act.node .null ∈ emission.1 := by
  obtain ⟨log, final, hrun, hcheck⟩ := exists_sampleRun (countingCommands 2)
    (fun log _ => log.all (fun step => step.checksSteady && step.countsSmall) &&
      log[5]?.any fun step => step.body.progressed? = some ⟨1⟩ &&
      (advancingAt step.before ⟨1⟩ ⟨65⟩).any fun found => found.2.repetition?.any fun r =>
      countAt step.before found.1 r = some 2 &&
      ((step.before.scopes.lookup ⟨130⟩).any fun child =>
        child.parent = some ⟨65⟩ ∧ child.role = .loopBody ⟨65⟩ 1) &&
      (r.progress sampleEnv .stored step.before found.1 step.ids).toOption.any fun emission =>
      .nodeOutputRecorded ⟨1⟩ found.1.scope found.1.node .null ∈ emission.1)
    (by decide +kernel)
  simp only [Bool.and_eq_true, Option.any_eq_true, List.all_eq_true, decide_eq_true_eq] at hcheck
  obtain ⟨hchecks, step, hstep, hbody, ⟨act, node⟩, hadvancing, r, hr, ⟨hc, child, hchild, hparent,
    hrole⟩, emission, hprogress, hrecorded⟩ := hcheck
  obtain ⟨hid, hadvancing⟩ := advancing_of_advancingAt hadvancing
  have hc := evaluates_of_countAt hc
  have hsteps : ∀ step ∈ log, Steady step ∧ CountsFit step := fun step hstep =>
    ⟨Step.steady_of_checksSteady (hchecks step hstep).1,
      Step.countsFit_of_countsSmall (hchecks step hstep).2⟩
  have hmem := List.mem_of_getElem? hstep
  obtain ⟨bodies, hbodies, -, hwithin, heq⟩ := (repeats_count_times hrun hsteps).2 step hmem ⟨1⟩ act
    node r 2 (CommandBody.progressed?_eq_some hbody) hadvancing hr hc
  have hwithin := hwithin (by decide)
  -- the scope 130 is the body of number 1
  obtain ⟨i, hi⟩ := List.mem_iff_getElem?.mp (hbodies.complete _ child hchild (hid ▸ hparent))
  obtain ⟨hlt, -⟩ := List.getElem?_eq_some_iff.mp hi
  obtain ⟨-, rfl⟩ := ScopeRole.loopBody.inj (hrole.symm.trans (hbodies.indexed i child hi).2.2)
  exact ⟨log, final, step, act, node, r, bodies, emission, hrun, hsteps, hmem, hadvancing, hr, hc,
    hbodies, by omega, (heq _ _).symm.trans (ok_of_toOption hprogress), hrecorded⟩

end Graphrun
