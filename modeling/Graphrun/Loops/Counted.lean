import Graphrun.Engine.Soundness
import Graphrun.Loops.Bodies

/-!
# Bodies of counted loops

What a `repeat` activation leaves behind. Its bodies are numbered from 0 without gaps, each is
started on the output of the one before, the carried counter is that of the last body, and there
are never more bodies than the count that the activation evaluates (`Counted`). The counter of a
`repeat` is advanced once for each body, by the completion of the body.

`Counting` is what an event has to respect in order to keep this.
-/

namespace Graphrun

open Lib

variable {env : Env} {o : Enumeration} {s s' : Core} {e : DomainEvent} {time : Nat}
  {ids ids' : IdGen} {es : List DomainEvent} {a : ActivationId} {act : ActivationState}
  {i : Nat} {sc : ScopeState}

/-! ## Counted loops -/

/-- What `progress_repeat` is given of a `repeat` node. -/
structure Repetition where
  count : Binding
  state : Binding
  maxIterations : Nat
  body : Region

variable {r : Repetition}

def Node.repetition? : Node → Option Repetition
  | .repeat count state _ maxIterations body _ => some ⟨count, state, maxIterations, body⟩
  | _ => none

/-- One call of `progress_repeat`. -/
def Repetition.progress (env : Env) (o : Enumeration) (s : Core) (act : ActivationState)
    (r : Repetition) (ids : IdGen) : Result Emission :=
  progressRepeat env o s act r.count r.state r.maxIterations r.body ids

theorem progressNode_repetition {run : RunId} {node : Node} (hnode : node.repetition? = some r)
    (h : progressNode env o s run time act node ids = .ok (some (es, ids'))) :
    r.progress env o s act ids = .ok (es, ids') := by
  cases node <;> simp only [Node.repetition?, reduceCtorEq, Option.some.injEq] at hnode
  subst hnode
  exact (map_unlessEmpty_ok h).1

/-- An activation is at a `repeat` node. -/
def Repeats (s : Core) (a : ActivationId) (act : ActivationState) (r : Repetition) : Prop :=
  s.activations.lookup a = some act ∧
    ∃ node, nodeOf s act.scope act.node = some node ∧ node.repetition? = some r

/-- A scope is the body of a loop with the given index. -/
def BodyAt (s : Core) (a : ActivationId) (i : Nat) (sc : ScopeState) : Prop :=
  ∃ k, s.scopes.lookup k = some sc ∧ sc.role = .loopBody a i

structure Counted (s : Core) : Prop where
  chained : ∀ a act r i next, Repeats s a act r → BodyAt s a (i + 1) next →
    ∃ sc, BodyAt s a i sc ∧ sc.status = .completed next.input
  top : ∀ a act r v n, Repeats s a act r → s.loopCarry.lookup a = some (v, n) →
    (∃ sc, BodyAt s a n sc) ∨
      ∃ m sc, n = m + 1 ∧ BodyAt s a m sc ∧ sc.status = .completed v
  bounded : ∀ a act r i sc, Repeats s a act r → BodyAt s a i sc → i < r.maxIterations
  counted : ∀ a act r i sc, Repeats s a act r → act.role = .forward → act.status = .open →
    BodyAt s a i sc →
    ∃ c : Int, Evaluates s act r.count (.int c) ∧ i < c ∧ c ≤ r.maxIterations

/-- What an event has to respect in order to keep the bodies counted. -/
def Counting (s : Core) : DomainEvent → Prop
  | .scopeOpened _ _ _ (.loopBody a i) input => ∀ act r, Repeats s a act r →
    i < r.maxIterations ∧
    (∃ c : Int, Evaluates s act r.count (.int c) ∧ i < c ∧ c ≤ r.maxIterations) ∧
    ∀ j, i = j + 1 → ∃ sc, BodyAt s a j sc ∧ sc.status = .completed input
  | _ => True

/-! ## Events -/

theorem BodyAt.after_cases (h : BodyAt (evolve s e) a i sc) :
    (∃ k old, s.scopes.lookup k = some old ∧ old.role = .loopBody a i ∧ sc = old.after e k) ∨
      ∃ run k parent, e = .scopeOpened run k parent (.loopBody a i) sc.input := by
  obtain ⟨k, hk, hrole⟩ := h
  rcases scope_after_cases hk with ⟨old, hold, rfl⟩ | ⟨run, parent, role, input, rfl, rfl⟩
  · exact .inl ⟨k, old, hold, hrole, rfl⟩
  · exact .inr ⟨run, k, parent, by rw [← hrole]⟩

/-- A body stays, with the output that it has completed with. -/
theorem BodyAt.kept (placed : Placed s e) (nesting : Nesting s e) (h : BodyAt s a i sc) :
    ∃ sc', BodyAt (evolve s e) a i sc' ∧
      ∀ v, sc.status = .completed v → sc'.status = .completed v := by
  obtain ⟨k, hk, hrole⟩ := h
  exact ⟨_, ⟨k, placed.scope hk, hrole⟩, fun v hv =>
    (nesting.completed_kept hk (by rw [hv]; rfl)).trans hv⟩

/-- An activation that carries a value was at its node before. -/
theorem Repeats.before {act' : ActivationState} {v : Value × Nat} (sound : Sound s)
    (respects : Respects s e) (h : Repeats (evolve s e) a act' r)
    (hv : (evolve s e).loopCarry.lookup a = some v) :
    ∃ act, Repeats s a act r ∧ act' = act.after s e a := by
  obtain ⟨hact', node, hnode, hr⟩ := h
  obtain ⟨act, hact⟩ := sound.measured.carrier_before sound.tree respects.placed
    respects.measuring hv
  obtain rfl := Option.mem_unique hact' (respects.placed.activation hact)
  rw [sound.tree.node_kept (keeps_evolve respects.placed act.run) hact hact'] at hnode
  exact ⟨act, ⟨hact, node, hnode, hr⟩, rfl⟩

/-- The value that a `repeat` carries is the input or the output of its last body. -/
theorem Counted.top_evolve {v : Value} {n : Nat} (respects : Respects s e)
    (counted : Counted s) (hrepeats : Repeats s a act r)
    (hv : (evolve s e).loopCarry.lookup a = some (v, n)) :
    (∃ sc, BodyAt (evolve s e) a n sc) ∨
      ∃ m sc, n = m + 1 ∧ BodyAt (evolve s e) a m sc ∧ sc.status = .completed v := by
  have hbefore (hv : s.loopCarry.lookup a = some (v, n)) : (∃ sc, BodyAt (evolve s e) a n sc) ∨
      ∃ m sc, n = m + 1 ∧ BodyAt (evolve s e) a m sc ∧ sc.status = .completed v := by
    rcases counted.top a act r v n hrepeats hv with ⟨sc, hsc⟩ | ⟨m, sc, hn, hsc, hdone⟩
    · obtain ⟨sc', hsc', -⟩ := hsc.kept respects.placed respects.nesting
      exact .inl ⟨sc', hsc'⟩
    · obtain ⟨sc', hsc', hstatus⟩ := hsc.kept respects.placed respects.nesting
      exact .inr ⟨m, sc', hn, hsc', hstatus v hdone⟩
  rcases carry_after_cases hv with hv | ⟨run, k, parent, i, input, rfl, heq⟩ |
    ⟨run, k, output, sc, i, rfl, hsc, hrole, heq⟩ | ⟨_, _, _, _, rfl, -⟩
  · exact hbefore hv
  · obtain ⟨rfl, rfl⟩ := Prod.mk.inj heq
    have placed : Guarded Placed s [.scopeOpened run k parent (.loopBody a n) v] :=
      ⟨respects.placed, trivial⟩
    obtain ⟨sc, hsc, -, -, hrole, -⟩ := opened_evolveAll placed List.mem_cons_self
    exact .inl ⟨sc, k, hsc, hrole⟩
  · obtain ⟨rfl, rfl⟩ := Prod.mk.inj heq
    have hk : (evolve s (.scopeCompleted run k v)).scopes.lookup k =
        some (sc.after (.scopeCompleted run k v) k) := by
      rw [lookup_scopes_evolve, scopeAfter, hsc]
      rfl
    exact .inr ⟨i, _, rfl, ⟨k, hk, hrole⟩, by simp [ScopeState.after, scopeStatusAfter]⟩
  · -- guards are recorded at other nodes
    obtain ⟨hact, node, hnode, hr⟩ := hrepeats
    obtain ⟨act', node', hact', hnode', hguarded⟩ := respects.measuring
    obtain rfl := Option.mem_unique hact hact'
    obtain rfl := Option.mem_unique hnode hnode'
    cases node <;> first | (cases hr; done) | cases hguarded

/-- Events that respect the counting keep the bodies counted. -/
theorem Counted.evolve (sound : Sound s) (respects : Respects s e) (counting : Counting s e)
    (counted : Counted s) : Counted (evolve s e) := by
  have sound' := sound.evolve respects
  have carries {a i sc} (h : BodyAt (Graphrun.evolve s e) a i sc) :
      ∃ v, (Graphrun.evolve s e).loopCarry.lookup a = some v := by
    obtain ⟨k, hk, hrole⟩ := h
    obtain ⟨v, n, hv, -⟩ := sound'.nested.carried k sc a i hk hrole
    exact ⟨(v, n), hv⟩
  refine ⟨?_, ?_, ?_, ?_⟩
  · intro a act' r i next hrepeats hnext
    obtain ⟨v, hv⟩ := carries hnext
    obtain ⟨act, hbefore, -⟩ := hrepeats.before sound respects hv
    have hbody : ∃ sc, BodyAt s a i sc ∧ sc.status = .completed next.input := by
      rcases hnext.after_cases with ⟨k, old, hold, hrole, rfl⟩ | ⟨run, k, parent, rfl⟩
      · exact counted.chained a act r i old hbefore ⟨k, hold, hrole⟩
      · exact (counting act r hbefore).2.2 i rfl
    obtain ⟨sc, hsc, hdone⟩ := hbody
    obtain ⟨sc', hsc', hkept⟩ := hsc.kept respects.placed respects.nesting
    exact ⟨sc', hsc', hkept _ hdone⟩
  · intro a act' r v n hrepeats hv
    obtain ⟨act, hbefore, -⟩ := hrepeats.before sound respects hv
    exact counted.top_evolve respects hbefore hv
  · intro a act' r i sc hrepeats hsc
    obtain ⟨v, hv⟩ := carries hsc
    obtain ⟨act, hbefore, -⟩ := hrepeats.before sound respects hv
    rcases hsc.after_cases with ⟨k, old, hold, hrole, -⟩ | ⟨run, k, parent, rfl⟩
    · exact counted.bounded a act r i old hbefore ⟨k, hold, hrole⟩
    · exact (counting act r hbefore).1
  · intro a act' r i sc hrepeats hforward hopen hsc
    obtain ⟨v, hv⟩ := carries hsc
    obtain ⟨act, hbefore, rfl⟩ := hrepeats.before sound respects hv
    have hcount : ∃ c : Int, Evaluates s act r.count (.int c) ∧ i < c ∧ c ≤ r.maxIterations := by
      rcases hsc.after_cases with ⟨k, old, hold, hrole, -⟩ | ⟨run, k, parent, rfl⟩
      · exact counted.counted a act r i old hbefore hforward (statusAfter_eq_open hopen)
          ⟨k, hold, hrole⟩
      · exact (counting act r hbefore).2.1
    obtain ⟨c, hc, hlt⟩ := hcount
    exact ⟨c, hc.evolve sound.tree respects.placed sound.nested respects.nesting
      respects.measuring hbefore.1 hforward hopen, hlt⟩

theorem Counted.quiet (change : Quiet s s') (sound : Sound s) (counted : Counted s) :
    Counted s' := by
  have tree' := sound.tree.quiet change
  have hbody {a i sc} (h : BodyAt s' a i sc) : BodyAt s a i sc := by
    obtain ⟨k, hk, hrole⟩ := h
    exact ⟨k, change.scopes hk, hrole⟩
  -- an activation that stays keeps its run, its node and the bodies that hang from it
  have hkeeps {a act} (h : s'.activations.lookup a = some act) : Keeps act.run s s' := by
    obtain ⟨sc, hsc, hrun⟩ := tree'.placed a act h
    obtain ⟨run, hrun'⟩ := quiet_run_of_scope sound.tree change hsc
    exact keeps_quiet change (hrun ▸ hrun')
  have hrepeats {a act r} (h : Repeats s' a act r) : Repeats s a act r := by
    obtain ⟨hact, node, hnode, hr⟩ := h
    have hbefore := change.activations hact
    rw [sound.tree.node_kept (hkeeps hact) hbefore hact] at hnode
    exact ⟨hbefore, node, hnode, hr⟩
  have hstay {a act r i sc} (h : Repeats s' a act r) (hsc : BodyAt s a i sc) :
      BodyAt s' a i sc := by
    obtain ⟨k, hk, hrole⟩ := hsc
    have hparent : sc.parent = some a := (sound.tree.parent k sc hk).trans (by rw [hrole]; rfl)
    obtain ⟨act', hact', hrun⟩ := sound.tree.parent_exists hk hparent
    obtain rfl := Option.some.inj ((change.activations h.1).symm.trans hact')
    obtain ⟨sc', hk', -⟩ := (hkeeps h.1).scopes k sc hk hrun.symm
    obtain rfl := Option.mem_unique hk (change.scopes hk')
    exact ⟨k, hk', hrole⟩
  refine ⟨?_, ?_, ?_, ?_⟩
  · intro a act r i next h hnext
    obtain ⟨sc, hsc, hdone⟩ := counted.chained a act r i next (hrepeats h) (hbody hnext)
    exact ⟨sc, hstay h hsc, hdone⟩
  · intro a act r v n h hv
    rcases counted.top a act r v n (hrepeats h) (carry_quiet change h.1 ▸ hv) with
      ⟨sc, hsc⟩ | ⟨m, sc, hn, hsc, hdone⟩
    · exact .inl ⟨sc, hstay h hsc⟩
    · exact .inr ⟨m, sc, hn, hstay h hsc, hdone⟩
  · intro a act r i sc h hsc
    exact counted.bounded a act r i sc (hrepeats h) (hbody hsc)
  · intro a act r i sc h hforward hopen hsc
    obtain ⟨c, hc, hlt⟩ :=
      counted.counted a act r i sc (hrepeats h) hforward hopen (hbody hsc)
    obtain ⟨outer, houter, -⟩ := tree'.placed a act h.1
    exact ⟨c, hc.quiet sound.tree change houter, hlt⟩

theorem counted_empty (clusterId : String) : Counted (State.empty clusterId).toCore where
  chained _ _ _ _ _ h := by cases h.1
  top _ _ _ _ _ h := by cases h.1
  bounded _ _ _ _ _ h := by cases h.1
  counted _ _ _ _ _ h := by cases h.1

/-! ## The bodies in order -/

/-- There is a body for each index below that of another one. -/
theorem Counted.below (counted : Counted s) (hrepeats : Repeats s a act r) {n : Nat}
    (h : BodyAt s a n sc) : ∀ i ≤ n, ∃ sc, BodyAt s a i sc := by
  induction n generalizing sc with
  | zero =>
    intro i hi
    obtain rfl : i = 0 := by omega
    exact ⟨sc, h⟩
  | succ n ih =>
    obtain ⟨before, hbefore, -⟩ := counted.chained a act r n sc hrepeats h
    intro i hi
    rcases Nat.lt_or_ge n i with hlt | hle
    · obtain rfl : i = n + 1 := by omega
      exact ⟨sc, h⟩
    · exact ih hbefore i hle

/-- The bodies of a `repeat` are those of an initial part of the numbers. -/
theorem Counted.exists_length (counted : Counted s) (nested : Nested s)
    (hrepeats : Repeats s a act r) : ∃ n, ∀ i, (∃ sc, BodyAt s a i sc) ↔ i < n := by
  have hcarried {i sc} (h : BodyAt s a i sc) :
      ∃ v n, s.loopCarry.lookup a = some (v, n) ∧ i ≤ n := by
    obtain ⟨k, hk, hrole⟩ := h
    obtain ⟨v, n, hv, hle, -⟩ := nested.carried k sc a i hk hrole
    exact ⟨v, n, hv, hle⟩
  cases hcarry : s.loopCarry.lookup a with
  | none =>
    refine ⟨0, fun i => ⟨fun ⟨sc, hsc⟩ => ?_, fun h => by omega⟩⟩
    obtain ⟨v, n, hv, -⟩ := hcarried hsc
    rw [hcarry] at hv
    cases hv
  | some v =>
    have hle {i sc} (h : BodyAt s a i sc) : i ≤ v.2 := by
      obtain ⟨v', n, hv, hle⟩ := hcarried h
      obtain rfl := Option.mem_unique hcarry hv
      exact hle
    by_cases htop : ∃ sc, BodyAt s a v.2 sc
    · obtain ⟨sc, hsc⟩ := htop
      refine ⟨v.2 + 1, fun i => ⟨fun ⟨sc, hsc⟩ => ?_, fun hi => ?_⟩⟩
      · have := hle hsc
        omega
      · exact counted.below hrepeats hsc i (by omega)
    · refine ⟨v.2, fun i => ⟨fun ⟨sc, hsc⟩ => ?_, fun hi => ?_⟩⟩
      · refine Nat.lt_of_le_of_ne (hle hsc) ?_
        rintro rfl
        exact htop ⟨sc, hsc⟩
      · rcases counted.top a act r v.1 v.2 hrepeats hcarry with hbody | ⟨m, sc, hm, hsc, -⟩
        · exact absurd hbody htop
        · exact counted.below hrepeats hsc i (by omega)

/-- The bodies of a `repeat`, in order. -/
theorem Counted.bodies (counted : Counted s) (sound : Sound s) (hrepeats : Repeats s a act r) :
    ∃ bodies, LoopBodies s a bodies ∧ bodies.length ≤ r.maxIterations := by
  obtain ⟨n, hn⟩ := counted.exists_length sound.nested hrepeats
  choose body hbody using fun i : Fin n => (hn i).mpr i.isLt
  have hsame {i sc sc'} (h : BodyAt s a i sc) (h' : BodyAt s a i sc') : sc = sc' := by
    obtain ⟨k, hk, hrole⟩ := h
    obtain ⟨k', hk', hrole'⟩ := h'
    obtain rfl := sound.nested.unique k k' sc sc' hk hk' (hrole.trans hrole'.symm) (by simp [hrole])
    exact Option.mem_unique hk hk'
  have hget {i sc} (h : (List.ofFn body)[i]? = some sc) : BodyAt s a i sc := by
    rw [List.getElem?_ofFn] at h
    split at h
    · next hi =>
      obtain rfl := Option.some.inj h
      exact hbody ⟨i, hi⟩
    · cases h
  refine ⟨List.ofFn body, ⟨?_, ?_, ?_⟩, ?_⟩
  · intro i sc hi
    obtain ⟨k, hk, hrole⟩ := hget hi
    have hid := sound.tree.keyed.scopes k sc hk
    exact ⟨by rw [hid, hk], (sound.tree.parent k sc hk).trans (by rw [hrole]; rfl), hrole⟩
  · intro k sc hk hparent
    obtain ⟨hact, node, hnode, hr⟩ := hrepeats
    have hfits := sound.nested.fits k sc a act node hk hparent hact hnode
    obtain ⟨b, i, hrole⟩ : ∃ b i, sc.role = .loopBody b i := by
      cases node <;> first | (cases hr; done) | exact ScopeRole.loopBody_of_fits rfl hfits
    have hb : sc.role.activation? = some a := (sound.tree.parent k sc hk).symm.trans hparent
    obtain rfl : b = a := by simpa [hrole, ScopeRole.activation?] using hb
    have hi := (hn i).mp ⟨sc, k, hk, hrole⟩
    rw [hsame ⟨k, hk, hrole⟩ (hbody ⟨i, hi⟩)]
    exact List.mem_ofFn.mpr ⟨_, rfl⟩
  · intro i sc next hi hnext
    obtain ⟨before, hbefore, hdone⟩ := counted.chained a act r i next hrepeats (hget hnext)
    rw [hsame (hget hi) hbefore, hdone]
  · rw [List.length_ofFn]
    cases n with
    | zero => exact Nat.zero_le _
    | succ n => exact counted.bounded a act r n _ hrepeats (hbody (Fin.last n))

end Graphrun
