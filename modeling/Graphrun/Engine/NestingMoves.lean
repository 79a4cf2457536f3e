import Graphrun.Engine.Closing
import Graphrun.Engine.Stability
import Graphrun.Engine.TokenMoves

/-!
# Moves respect the nesting

What a command records keeps containers around their children: nodes record their output when all
their children have completed, a scope completes when everything in it is settled, and what is
closed down was not complete (`Move.nesting`). What an open activation evaluates is left alone
(`Move.measuring`).
-/

namespace Graphrun

open Lib

variable {env : Env} {o : Enumeration} {s s' : Core} {e : DomainEvent} {time : Nat} {ids : IdGen}
  {es : List DomainEvent} {w : WaitId} {error : FailError} {output input : Value}
  {guards : List DomainEvent} {body : CommandBody}

/-! ## What events leave alone -/

section Frame

variable {a : ActivationId} {k : ScopeId}

theorem scope_of_kind {sc : ScopeState} (h : e.kind ≠ .scopeOpened)
    (hk : (evolve s e).scopes.lookup k = some sc) :
    ∃ old, s.scopes.lookup k = some old ∧ sc = old.after e k := by
  rcases scope_after_cases hk with hold | ⟨_, _, _, _, rfl, -⟩
  · exact hold
  · exact absurd rfl h

/-- The scope has not completed, if it is there. -/
def Incomplete (s : Core) (k : ScopeId) : Prop :=
  ∀ sc, s.scopes.lookup k = some sc → sc.status.isCompleted = false

theorem Incomplete.kept (h : Incomplete s k)
    (hes : ∀ e ∈ es, e.kind ∉ [.scopeOpened, .scopeCompleted]) : Incomplete (evolveAll s es) k := by
  refine evolveAll_keeps (P := (Incomplete · k)) (fun s e he h sc hk => ?_) hes h
  obtain ⟨old, hold, rfl⟩ := scope_of_kind (fun hkind => he (by rw [hkind]; simp)) hk
  by_contra hdone
  rw [Bool.not_eq_false] at hdone
  rcases completed_after_cases hdone with hbefore | ⟨run, output, rfl⟩
  · rw [h old hold] at hbefore
    cases hbefore
  · exact he (by simp)

theorem scope_of_kinds {sc : ScopeState} (hes : ∀ e ∈ es, e.kind ≠ .scopeOpened)
    (hk : (evolveAll s es).scopes.lookup k = some sc) :
    ∃ old, s.scopes.lookup k = some old ∧ old.run = sc.run ∧ old.parent = sc.parent ∧
      old.role = sc.role := by
  induction es generalizing s with
  | nil => exact ⟨sc, hk, rfl, rfl, rfl⟩
  | cons e es ih =>
    obtain ⟨he, hes⟩ := List.forall_mem_cons.mp hes
    obtain ⟨mid, hmid, hsame⟩ := ih hes hk
    obtain ⟨old, hold, rfl⟩ := scope_of_kind he hmid
    exact ⟨old, hold, hsame⟩

theorem Barren.kept (h : Barren s a) (hes : ∀ e ∈ es, e.kind ≠ .scopeOpened) :
    Barren (evolveAll s es) a := by
  intro k sc hk hparent
  obtain ⟨old, hold, -, hsame, -⟩ := scope_of_kinds hes hk
  exact h k old hold (hsame.trans hparent)

theorem AllDone.kept (h : AllDone s a)
    (hes : ∀ e ∈ es, e.kind ∉ [.scopeOpened, .scopeFailed]) : AllDone (evolveAll s es) a := by
  refine evolveAll_keeps (P := (AllDone · a)) (fun s e he h k sc hk hparent => ?_) hes h
  obtain ⟨old, hold, rfl⟩ := scope_of_kind (fun hkind => he (by rw [hkind]; simp)) hk
  have hdone := h k old hold hparent
  simp only [ScopeState.after]
  cases e with
  | scopeFailed => exact absurd (by simp) he
  | scopeCompleted run k' output =>
    simp only [scopeStatusAfter]
    split
    · rfl
    · exact hdone
  | runFailed run error =>
    simp only [scopeStatusAfter]
    split
    · next hopen =>
      rw [hopen.2] at hdone
      cases hdone
    · exact hdone
  | _ => exact hdone

theorem Uncompleted.incomplete {act : ActivationState} (h : Uncompleted s a)
    (hact : s.activations.lookup a = some act) : Incomplete s act.scope :=
  fun sc hk => h act sc hact hk

theorem Uncompleted.kept {act : ActivationState} (h : Uncompleted s a)
    (hact : s.activations.lookup a = some act) (placed : Guarded Placed s es)
    (hes : ∀ e ∈ es, e.kind ∉ [.scopeOpened, .scopeCompleted]) :
    Uncompleted (evolveAll s es) a := by
  intro act' sc hact' hk
  obtain ⟨act'', hact'', -, hscope, -⟩ :=
    (keeps_evolveAll placed act.run).activations a act hact rfl
  obtain rfl := Option.mem_unique hact' hact''
  exact (h.incomplete hact).kept hes sc (hscope ▸ hk)

theorem wait_of_kinds {wait : WaitState} (hes : ∀ e ∈ es, e.kind ≠ .waitOpened)
    (h : (evolveAll s es).waits.lookup w = some wait) :
    ∃ old, s.waits.lookup w = some old ∧ old.activation = wait.activation := by
  induction es generalizing s with
  | nil => exact ⟨wait, h, rfl⟩
  | cons e es ih =>
    obtain ⟨he, hes⟩ := List.forall_mem_cons.mp hes
    obtain ⟨mid, hmid, hsame⟩ := ih hes h
    rcases wait_after_cases hmid with ⟨old, hold, -, hact⟩ | ⟨_, _, _, _, rfl⟩
    · exact ⟨old, hold, hact.trans hsame⟩
    · exact absurd rfl he

end Frame

/-! ## Closing down -/

theorem Closing.kinds (h : Closing s es) :
    ∀ e ∈ es, e.kind ∈ EventKind.waitCancelled :: .reservationReleased :: markKinds := by
  induction h with
  | nil => simp
  | mark hkind _ ih =>
    exact List.forall_mem_cons.mpr ⟨List.mem_cons_of_mem _ (List.mem_cons_of_mem _ hkind), ih⟩
  | cancel _ _ _ ih =>
    refine List.forall_mem_append.mpr ⟨?_, ih⟩
    apply cancelWait_all (P := fun e => e.kind ∈ EventKind.waitCancelled :: _) <;> simp

/-- The activations of waits that are pending can be cancelled. -/
theorem Nested.cancellable {wait : WaitState} (nested : Nested s) (tokens : Tokens s)
    (hwait : s.waits.lookup w = some wait) (hpending : wait.pending = true) :
    ∃ act, s.activations.lookup wait.activation = some act ∧ Uncompleted s wait.activation ∧
      Barren s wait.activation := by
  obtain ⟨act, hact, -⟩ := tokens.waiting w wait hwait hpending
  have hawaited : Awaited s wait.activation := ⟨w, wait, hwait, rfl, hpending⟩
  exact ⟨act, hact, nested.within _ act hact (.inr hawaited), nested.barren _ act hact
    (.inr hawaited)⟩

/-- Events that neither open nor complete scopes, nor open waits. -/
def Inward (e : DomainEvent) : Prop := e.kind ∉ [.scopeOpened, .scopeCompleted, .waitOpened]

theorem Inward.not_opened (h : Inward e) : e.kind ∉ [.scopeOpened, .scopeCompleted] := by
  intro hmem
  refine h ?_
  revert hmem
  cases e <;> simp

/-- The saga that is compensated is there. -/
def Anchored (s : Core) : DomainEvent → Prop
  | .compensationStarted _ saga _ _ _ _ _ _ => ∃ act, s.activations.lookup saga = some act
  | _ => True

/-- A mark that may be made in one state may be made after other events. -/
theorem Nesting.mark_kept {m : DomainEvent} (h : Nesting s m) (hm : m.kind ∈ markKinds)
    (anchored : Anchored s m) (placed : Guarded Placed s es) (hes : ∀ e ∈ es, Inward e) :
    Nesting (evolveAll s es) m := by
  have hes' := fun e he => (hes e he).not_opened
  cases m with
  | scopeFailed run k error => exact Incomplete.kept h hes'
  | compensationStarted run saga forward a handler version input error =>
    obtain ⟨act, hact⟩ := anchored
    exact Uncompleted.kept h hact placed hes'
  | runFailed | interventionRequired | abortIntent => trivial
  | _ => simp at hm

theorem cancelWait_shape (s : Core) (run : RunId) (wait : WaitState) :
    ∃ released, cancelWait s run wait = released ++ [.waitCancelled run wait.id] ∧
      ∀ e ∈ released, e.kind = .reservationReleased := by
  refine ⟨_, rfl, ?_⟩
  intro e he
  split at he
  · obtain rfl := List.mem_singleton.mp he
    rfl
  · cases he

/-- What a mark needs. -/
def Markable (s : Core) (e : DomainEvent) : Prop :=
  e.kind ∈ markKinds → Nesting s e ∧ Anchored s e

/-- Closing down respects the nesting as far as its marks do, also after other events. -/
theorem Closing.nesting (closing : Closing s es) (pre : List DomainEvent) (keyed : Keyed s)
    (nested : Nested s) (tokens : Tokens s)
    (marks : ∀ e ∈ es, Markable s e)
    (hpre : ∀ e ∈ pre, Inward e) (placed : Guarded Placed s (pre ++ es)) :
    Guarded Nesting (evolveAll s pre) es := by
  induction closing generalizing pre with
  | nil => trivial
  | @mark e es hkind _ ih =>
    obtain ⟨hfirst, hrest⟩ := List.forall_mem_cons.mp marks
    obtain ⟨hnesting, hanchored⟩ := hfirst hkind
    refine ⟨hnesting.mark_kept hkind hanchored (guarded_append.mp placed).1 hpre, ?_⟩
    have htail := ih (pre ++ [e]) hrest ?_ (by simpa using placed)
    · simpa [evolveAll] using htail
    · have hinward : Inward e := by
        unfold Inward
        revert hkind
        generalize e.kind = k
        revert k
        decide
      exact List.forall_mem_append.mpr ⟨hpre, List.forall_mem_singleton.mpr hinward⟩
  | @cancel run k wait es hwait hpending _ ih =>
    obtain ⟨released, hshape, hreleased⟩ := cancelWait_shape s run wait
    have hrest : ∀ e ∈ es, Markable s e := fun e he => marks e (List.mem_append_right _ he)
    rw [hshape] at placed ⊢
    have hfirst : ∀ e ∈ pre ++ released, Inward e :=
      List.forall_mem_append.mpr ⟨hpre, fun e he => by rw [Inward, hreleased e he]; simp⟩
    have hplaced : Guarded Placed s (pre ++ released) := by
      rw [← List.append_assoc, ← List.append_assoc, guarded_append, guarded_append] at placed
      exact placed.1.1
    have hall : ∀ e ∈ pre ++ (released ++ [.waitCancelled run wait.id]), Inward e := by
      rw [← List.append_assoc]
      exact List.forall_mem_append.mpr ⟨hfirst, List.forall_mem_singleton.mpr (by simp [Inward])⟩
    have htail := ih (pre ++ (released ++ [.waitCancelled run wait.id])) hrest hall
      (by simpa using placed)
    refine guarded_append.mpr
      ⟨guarded_append.mpr ⟨Guarded.of_all fun e he s => ?_, ?_, trivial⟩, ?_⟩
    · have hkind := hreleased e he
      cases e <;> trivial
    · -- The wait was pending when closing down began.
      intro wait' hwait'
      have hkept : (evolveAll s (pre ++ released)).waits.lookup wait.id = some wait' := by
        simpa [evolveAll] using hwait'
      obtain ⟨old, hold, hact⟩ := wait_of_kinds
        (fun e he hkind => hfirst e he (by rw [hkind]; simp)) hkept
      rw [keyed.waits k wait hwait] at hold
      obtain rfl := Option.mem_unique hold hwait
      obtain ⟨act, hlookup, huncompleted, hbarren⟩ := nested.cancellable tokens hwait hpending
      rw [← hact]
      have hkinds := fun e he => (hfirst e he).not_opened
      have hstill := huncompleted.kept hlookup hplaced hkinds
      have hstill' := hbarren.kept fun e he hkind => hkinds e he (by rw [hkind]; simp)
      simpa [evolveAll] using And.intro hstill hstill'
    · simpa [evolveAll] using htail

theorem Failing.markable {k : ScopeId} (h : Failing o s k error es) (incomplete : Incomplete s k) :
    ∀ e ∈ es, Markable s e :=
  h.all (fun _ _ => ⟨incomplete, trivial⟩) (fun _ _ => ⟨trivial, trivial⟩)
    (fun _ _ hkind => by simp at hkind) fun _ _ hkind => by simp at hkind

theorem FailingAll.markable {scopes : List ScopeState} (h : FailingAll o s error scopes es)
    (incomplete : ∀ sc ∈ scopes, Incomplete s sc.id) :
    ∀ e ∈ es, Markable s e := by
  induction h with
  | nil => simp
  | cons first _ ih =>
    obtain ⟨hfirst, hrest⟩ := List.forall_mem_cons.mp incomplete
    exact List.forall_mem_append.mpr ⟨first.markable hfirst, ih hrest⟩

theorem Aborting.markable {saga : ActivationId} (h : Aborting o s saga error es)
    (uncompleted : Uncompleted s saga) :
    ∀ e ∈ es, Markable s e := by
  cases h with
  | waiting => simp
  | blocked | intent => exact List.forall_mem_singleton.mpr fun _ => ⟨trivial, trivial⟩
  | failed hact _ _ _ hfailing => exact hfailing.markable (uncompleted.incomplete hact)
  | compensating hact =>
    exact List.forall_mem_singleton.mpr fun _ => ⟨uncompleted, _, hact⟩

theorem mem_openSagas {run : RunId} {saga : ActivationId} (keyed : Keyed s)
    (h : saga ∈ openSagas o s run) :
    ∃ act, s.activations.lookup saga = some act ∧ act.run = run ∧ act.status = .open ∧
      (nodeOf s act.scope act.node).any Node.isSaga = true := by
  simp only [openSagas, List.mem_map, List.mem_filter, Enumeration.mem_values,
    decide_eq_true_eq] at h
  obtain ⟨act, ⟨⟨k, hk⟩, hrun, hsaga, hopen⟩, rfl⟩ := h
  rw [keyed.activations k act hk]
  exact ⟨act, hk, hrun, hopen, hsaga⟩

theorem markable_closePendingWaits (o : Enumeration) (s : Core) (run : RunId) :
    ∀ e ∈ closePendingWaits o s run, Markable s e :=
  closePendingWaits_all (fun _ _ hkind => by simp at hkind) fun _ hkind => by simp at hkind

/-! ## Going on in a scope -/

/-- Events that end nothing and open no scope. -/
def Mild (e : DomainEvent) : Prop :=
  e.kind ∉ [.scopeOpened, .scopeCompleted, .scopeFailed, .runFailed, .leafFailed, .waitCancelled]

theorem Mild.not_opened (h : Mild e) : e.kind ∉ [.scopeOpened, .scopeCompleted] := by
  intro hmem
  refine h ?_
  revert hmem
  cases e <;> simp

theorem Mild.not_failed (h : Mild e) : e.kind ∉ [.scopeOpened, .scopeFailed] := by
  intro hmem
  refine h ?_
  revert hmem
  cases e <;> simp

theorem failed_of_mild {a : ActivationId} {act : ActivationState} (hes : ∀ e ∈ es, Mild e)
    (h : (evolveAll s es).activations.lookup a = some act) (hfailed : act.status = .failed) :
    ∃ old, s.activations.lookup a = some old ∧ old.status = .failed ∧ old.role = act.role ∧
      old.scope = act.scope := by
  induction es generalizing s with
  | nil => exact ⟨act, h, hfailed, rfl, rfl⟩
  | cons e es ih =>
    obtain ⟨he, hes⟩ := List.forall_mem_cons.mp hes
    obtain ⟨mid, hmid, hstatus, hrole, hscope⟩ := ih hes h
    rcases activation_after_cases hmid with ⟨old, hold, rfl⟩ |
      ⟨_, _, _, -, -, -, -, -, -, -, hopened⟩ |
      ⟨_, _, _, _, _, _, _, _, -, -, -, -, -, -, -, -, hopened⟩
    · refine ⟨old, hold, ?_, hrole, hscope⟩
      simp only [ActivationState.after] at hstatus
      cases e <;> first
        | exact hstatus
        | (refine absurd ?_ he; simp; done)
        | (simp only [statusAfter] at hstatus; split at hstatus <;>
          first | exact hstatus | cases hstatus)
    · rw [hstatus] at hopened
      split at hopened <;> cases hopened
    · rw [hstatus] at hopened
      cases hopened

section Next

variable {a : ActivationId} {act : ActivationState} {pre : List DomainEvent}

theorem Active.unsettled (h : Active s a act) : Unsettled s a act := by
  rcases h with hlive | hawaited
  · left
    rcases hlive with h | h <;> simp [h]
  · exact .inr hawaited

/-- Where an activation is at work the next one may be opened, after mild events. -/
theorem nesting_next {run : RunId} {b : ActivationId} {next : NodeKey} (nested : Nested s)
    (hact : s.activations.lookup a = some act)
    (hforward : act.role = .forward) (hactive : Active s a act) (hpre : ∀ e ∈ pre, Mild e) :
    Nesting (evolveAll s pre) (.activationOpened run act.scope b next) := by
  have huncompleted := nested.within a act hact hactive.unsettled
  refine ⟨(huncompleted.incomplete hact).kept fun e he => (hpre e he).not_opened, ?_⟩
  intro c other hc hscope hrole hfailed
  obtain ⟨old, hold, hstatus, hrole', hscope'⟩ := failed_of_mild hpre hc hfailed
  by_contra hchildren
  refine nested.stuck c a old act hold hact (hrole'.trans hrole) hforward (hscope'.trans hscope)
    hstatus (fun barren => hchildren ?_) hactive
  exact barren.kept fun e he hkind => hpre e he (by rw [hkind]; simp)

/-- Nothing hangs from an activation that is not a forward one. -/
theorem allDone_of_role {c : ActivationId} {other : ActivationState} (tree : Tree s)
    (nested : Nested s) (placed : Guarded Placed s pre) (hpre : ∀ e ∈ pre, Mild e)
    (hc : (evolveAll s pre).activations.lookup c = some other) (hrole : other.role ≠ .forward) :
    AllDone (evolveAll s pre) c := by
  refine Barren.allDone fun k sc hk hparent => hrole ?_
  -- The scope was there before, and so was the activation that it hangs from.
  obtain ⟨oldScope, hscope, -, hsame, -⟩ := scope_of_kinds
    (fun e he hkind => hpre e he (by rw [hkind]; simp)) hk
  obtain ⟨old, hold, -⟩ := tree.parent_exists hscope (hsame.trans hparent)
  obtain ⟨kept, hkept, -, -, -, hrole'⟩ :=
    (keeps_evolveAll placed old.run).activations c old hold rfl
  obtain rfl := Option.mem_unique hc hkept
  exact hrole'.trans (nested.parents k oldScope c old hscope (hsame.trans hparent) hold)

/-- An activation that is at work and has no unfinished children may record its output, after
mild events that set nothing to work. -/
theorem nesting_output {run : RunId} (tree : Tree s) (tokens : Tokens s) (nested : Nested s)
    (placed : Guarded Placed s pre) (hact : s.activations.lookup a = some act)
    (hforward : act.role = .forward) (hactive : Active s a act) (done : AllDone s a)
    (hpre : ∀ e ∈ pre, Mild e ∧ Calm e) :
    Nesting (evolveAll s pre) (.nodeOutputRecorded run act.scope act.node output) := by
  intro c other hc hscope _ hlive
  by_cases hrole : other.role = .forward
  · obtain ⟨old, hold, hrole', hscope', holdActive⟩ :=
      active_of_calm (fun e he => (hpre e he).2) hc hrole (.inl hlive)
    obtain rfl := tokens.alone a c act old hact hold hforward hrole' hactive holdActive
      (hscope.symm.trans hscope'.symm)
    exact done.kept fun e he => (hpre e he).1.not_failed
  · exact allDone_of_role tree nested placed (fun e he => (hpre e he).1) hc hrole

/-- Recording an output and following an edge. -/
theorem guarded_nesting_output {run : RunId} {followed : List DomainEvent} (post : List DomainEvent)
    (tree : Tree s) (tokens : Tokens s) (nested : Nested s) (placed : Guarded Placed s pre)
    (hact : s.activations.lookup a = some act) (hforward : act.role = .forward)
    (hactive : Active s a act) (done : AllDone s a) (hpre : ∀ e ∈ pre, Mild e ∧ Calm e)
    (nesting : Guarded Nesting s pre) (hpost : ∀ e ∈ post, Mild e ∧ ∀ s, Nesting s e)
    (hfollowed : Onward act.scope followed) :
    Guarded Nesting s
      (pre ++ .nodeOutputRecorded run act.scope act.node output :: (post ++ followed)) := by
  have houtput : Nesting (evolveAll s pre) (.nodeOutputRecorded run act.scope act.node output) :=
    nesting_output tree tokens nested placed hact hforward hactive done hpre
  have hmild : ∀ e ∈ pre ++ .nodeOutputRecorded run act.scope act.node output :: post, Mild e :=
    List.forall_mem_append.mpr ⟨fun e he => (hpre e he).1, List.forall_mem_cons.mpr
      ⟨by simp [Mild], fun e he => (hpost e he).1⟩⟩
  refine guarded_append.mpr ⟨nesting, houtput, guarded_append.mpr
    ⟨Guarded.of_all fun e he => (hpost e he).2, ?_⟩⟩
  rcases hfollowed with rfl | ⟨run', b, next, rfl⟩
  · trivial
  · have hnext : Nesting (evolveAll s (pre ++
        .nodeOutputRecorded run act.scope act.node output :: post))
        (.activationOpened run' act.scope b next) :=
      nesting_next nested hact hforward hactive hmild
    refine ⟨?_, trivial⟩
    simpa [evolveAll] using hnext

end Next

/-! ## Opening children -/

section Opening

variable {act : ActivationState} {node : Node} {role : ScopeRole}

/-- A node opens a child beside which there is no other of its role. -/
theorem Opens.nesting (opens : Opens o s act input node role) (tree : Tree s) (nested : Nested s)
    (hact : s.activations.lookup act.id = some act)
    (hnode : nodeOf s act.scope act.node = some node) :
    role.fits node = true ∧ role.activation? = some act.id ∧
    (∀ k sc, s.scopes.lookup k = some sc → sc.role ≠ role) ∧
    (role.joins = false → ∀ k sc, s.scopes.lookup k = some sc → sc.parent = some act.id →
      sc.status.isCompleted = true ∧ sc.role.index < role.index) := by
  have hparent : ∀ {k sc}, s.scopes.lookup k = some sc → sc.role = role →
      role.activation? = some act.id → sc.parent = some act.id := by
    intro k sc hk hrole hown
    rw [tree.parent k sc hk, hrole, hown]
  -- The bodies of a loop before the next one have completed and carry on to it.
  have hloop : ∀ {i}, node.isJoin = false → (∀ {role : ScopeRole}, role.fits node = true →
      ∃ a j, role = .loopBody a j) → LastDone o s act.id → CarriesUpTo s act.id i →
      ∀ k sc, s.scopes.lookup k = some sc → sc.parent = some act.id →
        sc.status.isCompleted = true ∧ sc.role.index < i := by
    intro i hjoin hroles hlast hindex k sc hk hsc
    have hdone :=
      nested.allDone_of_lastDone (nested.joins_of_child hact hnode hjoin) hlast k sc hk hsc
    obtain ⟨b, j, hrole⟩ := hroles (nested.fits k sc act.id act node hk hsc hact hnode)
    have hown : sc.role.activation? = some act.id := (tree.parent k sc hk).symm.trans hsc
    obtain rfl : b = act.id := by simpa [hrole, ScopeRole.activation?] using hown
    obtain ⟨v, n, hv, -, hlt⟩ := nested.carried k sc act.id j hk hrole
    rw [hrole]
    exact ⟨hdone, (hlt hdone).trans_le (hindex v n hv)⟩
  have hnone : childOf o s act.id = none → ∀ k sc, s.scopes.lookup k = some sc →
      sc.parent ≠ some act.id := by
    intro hnone k sc hk hsc
    have hmem : sc ∈ childrenOf o s act.id := mem_childrenOf.mpr ⟨⟨k, hk⟩, hsc⟩
    rw [childOf_none hnone] at hmem
    cases hmem
  cases opens with
  | @guarded _ i hguarded hlast hindex =>
    have hbefore := hloop (by cases node <;> first | rfl | cases hguarded)
      (fun hfits => ScopeRole.loopBody_of_guarded hguarded hfits) hlast hindex
    have hfits : (ScopeRole.loopBody act.id i).fits node = true := by
      cases node <;> first | rfl | cases hguarded
    refine ⟨hfits, rfl, fun k sc hk hrole => ?_, fun _ => hbefore⟩
    have hlt := (hbefore k sc hk (hparent hk hrole rfl)).2
    rw [hrole] at hlt
    exact absurd hlt (Nat.lt_irrefl i)
  | @repeated count state schema maxIterations body next i c hlast hindex _ _ =>
    have hbefore := hloop rfl (fun hfits => ScopeRole.loopBody_of_fits rfl hfits) hlast hindex
    refine ⟨rfl, rfl, fun k sc hk hrole => ?_, fun _ => hbefore⟩
    have hlt := (hbefore k sc hk (hparent hk hrole rfl)).2
    rw [hrole] at hlt
    exact absurd hlt (Nat.lt_irrefl i)
  | item _ hnew =>
    refine ⟨rfl, rfl, fun k sc hk hrole => hnew k sc hk (hparent hk hrole rfl) hrole,
      fun hjoins => ?_⟩
    cases hjoins
  | branch hnew =>
    refine ⟨rfl, rfl, fun k sc hk hrole => hnew k sc hk (hparent hk hrole rfl) hrole,
      fun hjoins => ?_⟩
    cases hjoins
  | case h =>
    exact ⟨rfl, rfl, fun k sc hk hrole => hnone h k sc hk (hparent hk hrole rfl),
      fun _ k sc hk hsc => absurd hsc (hnone h k sc hk)⟩
  | body h =>
    exact ⟨rfl, rfl, fun k sc hk hrole => hnone h k sc hk (hparent hk hrole rfl),
      fun _ k sc hk hsc => absurd hsc (hnone h k sc hk)⟩

/-- In a scope that was not there before, the first node may be opened. -/
theorem nesting_start {run : RunId} {k : ScopeId} {a : ActivationId} {start : NodeKey}
    {parent : Option ActivationId} (tree : Tree s) (hnew : s.scopes.lookup k = none) :
    Nesting (evolve s (.scopeOpened run k parent role input))
      (.activationOpened run k a start) := by
  refine ⟨fun sc hk => ?_, fun b other hb hscope => ?_⟩
  · rw [lookup_opened_scope] at hk
    obtain rfl := Option.some.inj hk
    rfl
  · rcases activation_after_cases hb with ⟨old, hold, rfl⟩ | ⟨_, _, _, hopened, -⟩ |
      ⟨_, _, _, _, _, _, _, _, hopened, -⟩
    · obtain ⟨sc, hsc, -⟩ := tree.placed b old hold
      rw [show old.scope = k from hscope, hnew] at hsc
      cases hsc
    · cases hopened
    · cases hopened

end Opening

/-! ## Nodes -/

section Nodes

variable {run : RunId} {act : ActivationState} {node : Node}

theorem Advancing.uncompleted (advancing : Advancing s run act node) (nested : Nested s) :
    Uncompleted s act.id :=
  nested.within act.id act advancing.hact (.inl (by simp [advancing.hopen]))

theorem guarded_nesting_guards (nested : Nested s) (advancing : Advancing s run act node)
    (hguards : Guards o s act node guards) : Guarded Nesting s guards := by
  rcases hguards with rfl | ⟨cont, index, carry, rfl, hguarded, hlast, hindex⟩
  · trivial
  · have hjoin : node.isJoin = false := by cases node <;> first | rfl | cases hguarded
    exact ⟨⟨nested.allDone_of_lastDone
      (nested.joins_of_child advancing.hact advancing.hnode hjoin) hlast, hindex⟩, trivial⟩

/-- A scope completes when everything in it is settled. -/
theorem guarded_nesting_completed {scope : ScopeState} {value : Value} {output : Binding}
    (tree : Tree s) (tokens : Tokens s) (nested : Nested s)
    (advancing : Advancing s run act (.complete output))
    (hscope : s.scopes.lookup act.scope = some scope) :
    Guarded Nesting s (completeScope scope value) := by
  have hid : scope.id = act.scope := tree.keyed.scopes _ _ hscope
  have hactive : Active s act.id act := .inl (.inl advancing.hopen)
  have hfirst : Nesting s (.scopeCompleted scope.run scope.id value) := by
    rw [hid]
    refine ⟨(advancing.uncompleted nested).incomplete advancing.hact, fun a other ha hplace => ?_⟩
    have hbarren : ∀ {a other}, s.activations.lookup a = some other → other.role ≠ .forward →
        Barren s a := fun ha hrole k sc hk hparent => hrole (nested.parents k sc _ _ hk hparent ha)
    have hnot : other.role = .forward → Awaited s a → a = act.id := fun hrole hawaited =>
      tokens.alone a act.id other act ha advancing.hact hrole advancing.hforward (.inr hawaited)
        hactive hplace
    refine ⟨?_, fun hawaited => ?_⟩
    · by_cases hrole : other.role = .forward
      · by_cases hsame : a = act.id
        · subst hsame
          exact (nested.barren_of_leaf advancing.hact advancing.hnode rfl).allDone
        · by_contra hunfinished
          cases hstatus : other.status with
          | «open» | ready =>
            refine hsame (tokens.alone a act.id other act ha advancing.hact hrole
              advancing.hforward (.inl ?_) hactive hplace)
            simp [Live, hstatus]
          | succeeded =>
            refine hunfinished fun k sc hk hparent => ?_
            by_contra hopen
            exact nested.above k sc a other hk hparent ha (by simpa using hopen) hstatus
          | failed =>
            exact nested.stuck a act.id other act ha advancing.hact hrole advancing.hforward hplace
              hstatus (fun barren => hunfinished barren.allDone) hactive
      · exact (hbarren ha hrole).allDone
    · obtain ⟨w, wait, hw, rfl, hpending⟩ := hawaited
      obtain ⟨act', hact', hrole, -⟩ := tokens.waiting w wait hw hpending
      obtain rfl := Option.mem_unique ha hact'
      have hawaited : Awaited s wait.activation := ⟨w, wait, hw, rfl, hpending⟩
      have hsame := hnot hrole hawaited
      exact tokens.not_awaited_of_open advancing.hact advancing.hopen (hsame ▸ hawaited)
  unfold completeScope
  refine ⟨hfirst, ?_⟩
  split
  · exact ⟨trivial, trivial⟩
  · trivial

/-- A new child and the first activation in it. -/
theorem guarded_nesting_child {role : ScopeRole} {body : Region} {k : ScopeId} {a : ActivationId}
    (tree : Tree s) (nested : Nested s) (advancing : Advancing s run act node)
    (hguards : Guards o s act node guards) (hopens : Opens o s act input node role)
    (placed : Guarded Placed s (guards ++ [.scopeOpened act.run k (some act.id) role input,
      .activationOpened act.run k a body.start])) (hnew : s.scopes.lookup k = none) :
    Guarded Nesting s (guards ++ [.scopeOpened act.run k (some act.id) role input,
      .activationOpened act.run k a body.start]) := by
  obtain ⟨hfits, hown, hothers, hbefore⟩ :=
    hopens.nesting tree nested advancing.hact advancing.hnode
  have hnesting := guarded_nesting_guards nested advancing hguards
  have hopened {s₁ : Core} (hscopes : s₁.scopes = s.scopes)
      (hactivations : s₁.activations = s.activations)
      (hnode : nodeOf s₁ act.scope act.node = some node) :
      Nesting s₁ (.scopeOpened act.run k (some act.id) role input) := by
    rw [Nesting, hscopes, hactivations]
    refine ⟨fun k' sc hk' hrole => absurd hrole (hothers k' sc hk'), fun b hb => ?_⟩
    obtain rfl := Option.some.inj hb
    exact ⟨act, node, advancing.hact, advancing.hforward, advancing.hopen, hnode, hfits, hbefore⟩
  rcases hguards with rfl | ⟨cont, index, carry, rfl, -⟩
  · exact ⟨hopened rfl rfl advancing.hnode, nesting_start tree hnew, trivial⟩
  · -- Recording a guard changes neither scopes nor activations.
    have tree' := tree.evolve placed.1
    have hnode := tree.node_kept (keeps_evolve placed.1 act.run) advancing.hact
      (show (evolve s (.guardRecorded act.run act.id cont index carry)).activations.lookup act.id =
        some act from advancing.hact)
    exact ⟨hnesting.1, hopened rfl rfl (hnode.trans advancing.hnode), nesting_start tree' hnew,
      trivial⟩

/-- A wait that finds its event when it opens. -/
theorem guarded_nesting_taken {signal key : String} {deadline : Option Nat}
    {consumeFrom : ConsumeFrom} {eventId : EventId} {payload : Value} {followed : List DomainEvent}
    (tree : Tree s) (tokens : Tokens s) (nested : Nested s) (advancing : Advancing s run act node)
    (hopened : Nesting s (.waitOpened act.run w act.id signal key deadline consumeFrom))
    (placed : Guarded Placed s (.waitOpened act.run w act.id signal key deadline consumeFrom ::
      .waitSatisfied act.run w eventId payload ::
      .nodeOutputRecorded act.run act.scope act.node payload :: followed))
    (tokened : Tokened s (.waitOpened act.run w act.id signal key deadline consumeFrom))
    (hfollowed : Onward act.scope followed) :
    Guarded Nesting s (.waitOpened act.run w act.id signal key deadline consumeFrom ::
      .waitSatisfied act.run w eventId payload ::
      .nodeOutputRecorded act.run act.scope act.node payload :: followed) := by
  refine ⟨hopened, ?_⟩
  obtain ⟨act', hact', -, hscope, hnode, hrole⟩ :=
    (keeps_evolve placed.1 act.run).activations act.id act advancing.hact rfl
  obtain ⟨wait, hwait, hown, hpending⟩ : ∃ wait, (evolve s (.waitOpened act.run w act.id signal
      key deadline consumeFrom)).waits.lookup w = some wait ∧ _ := wait_of_waitOpened
  -- In between the activation is awaited, and nothing hangs from it.
  have hbarren : Barren (evolve s (.waitOpened act.run w act.id signal key deadline
      consumeFrom)) act.id := barren_of_wakes (a := act.id) rfl hopened.2
  have hsatisfied : Nesting (evolve s (.waitOpened act.run w act.id signal key deadline
      consumeFrom)) (.waitSatisfied act.run w eventId payload) := by
    intro other hother
    obtain rfl := Option.mem_unique hwait hother
    rw [hown]
    exact hbarren.allDone
  have hguarded : Guarded Nesting _ ([.waitSatisfied act.run w eventId payload] ++
      .nodeOutputRecorded act.run act'.scope act'.node payload :: ([] ++ followed)) :=
    guarded_nesting_output [] (tree.evolve placed.1) (tokens.evolve tree placed.1 tokened)
      (nested.evolve tree placed.1 tokens tokened hopened) ⟨trivial, trivial⟩ hact'
      (hrole.trans advancing.hforward) (.inr ⟨w, wait, hwait, hown, hpending⟩) hbarren.allDone
      (by simp [Mild, Calm, DomainEvent.wakes?, DomainEvent.opensForward?]) ⟨hsatisfied, trivial⟩
      (by simp) (by rw [hscope]; exact hfollowed)
  rw [hscope, hnode] at hguarded
  exact hguarded

theorem NodeMove.nesting (tree : Tree s) (tokens : Tokens s) (nested : Nested s)
    (measured : Measured s) (placed : Guarded Placed s es) (tokened : Guarded Tokened s es)
    (freshScope : ∀ e ∈ es, ∀ k ∈ e.opensScope?, s.scopes.lookup k = none)
    (undue : Undue s run time) (advancing : Advancing s run act node)
    (move : NodeMove o s run time act node es) : Guarded Nesting s es := by
  have hact := advancing.hact
  have huncompleted := advancing.uncompleted nested
  have hactive : Active s act.id act := .inl (.inl advancing.hopen)
  have hclosing : Closing s es → (∀ e ∈ es, Markable s e) → Guarded Nesting s es :=
    fun closing marks => closing.nesting [] tree.keyed nested tokens marks (by simp) placed
  have hfails : ∀ {error}, Failing o s act.scope error es → Guarded Nesting s es := fun hfailing =>
    hclosing hfailing.closing (hfailing.markable (huncompleted.incomplete hact))
  have hwaits : ∀ {own w signal key deadline consumeFrom}, node.isLeaf = true →
      Nesting s (.waitOpened own w act.id signal key deadline consumeFrom) := fun hleaf =>
    ⟨huncompleted, nested.barren_of_leaf hact advancing.hnode hleaf⟩
  have hfinishes : ∀ (pre : List DomainEvent) {followed : List DomainEvent} {output : Value},
      es = pre ++ .nodeOutputRecorded act.run act.scope act.node output :: followed →
      (∀ e ∈ pre, Mild e ∧ Calm e) → Guarded Nesting s pre → Finishes o s act output node →
      Followed s act.scope act.node followed → Guarded Nesting s es := by
    rintro pre followed output rfl hpre hnesting hfinishes hfollowed
    have hdone : AllDone s act.id := measured.allDone_of_finishes nested tree hact
      advancing.hforward advancing.hopen advancing.hnode hfinishes
    exact guarded_nesting_output [] tree tokens nested (guarded_append.mp placed).1 hact
      advancing.hforward hactive hdone hpre hnesting (by simp) hfollowed.onward
  cases move with
  | reopened =>
    obtain ⟨region, hregion, hnode⟩ := nodeOf_iff.mp advancing.hnode
    cases tree.working _ _ _ _ hact advancing.hopen hregion hnode
  | completed hscope => exact guarded_nesting_completed tree tokens nested advancing hscope
  | failed hfailing | conflict _ hfailing | childFailed _ _ hfailing => exact hfails hfailing
  | timer hnode =>
    refine ⟨hwaits ?_, trivial⟩
    cases node <;> first | rfl | cases hnode
  | due _ hdue => exact absurd hdue (undue act _ _ advancing)
  | waiting => exact ⟨hwaits rfl, trivial⟩
  | taken _ _ _ _ hfollowed =>
    exact guarded_nesting_taken tree tokens nested advancing (hwaits rfl) placed tokened.1
      hfollowed.onward
  | finished _ hguards _ hfollowed hdone =>
    refine hfinishes _ rfl ?_ (guarded_nesting_guards nested advancing hguards) hdone hfollowed
    exact hguards.all fun _ _ _ => ⟨by simp [Mild], rfl, rfl⟩
  | skipped _ _ _ hfollowed hdone | joined _ hfollowed hdone =>
    exact hfinishes [] rfl (by simp) trivial hdone hfollowed
  | settled _ _ hchild hdone hfollowed =>
    refine hfinishes _ rfl ?_ (Guarded.of_all ?_) (lastDone_of_completed hchild hdone) hfollowed
    · exact settleSagaSuccess_all (fun _ _ => ⟨by simp [Mild], rfl, rfl⟩)
        fun _ _ => ⟨by simp [Mild], rfl, rfl⟩
    · exact settleSagaSuccess_all (fun _ _ _ => trivial) fun _ _ _ => trivial
  | @childOpened _ guards role input _ scope _ hguards _ _ _ hopens =>
    exact guarded_nesting_child tree nested advancing hguards hopens placed
      (freshScope (.scopeOpened act.run scope (some act.id) role input) (by simp) _ rfl)
  | @cancelled _ failed error reason siblings es own _ _ hsiblings hcancelled hown =>
    have hopen : ∀ sc ∈ siblings, Incomplete s sc.id := by
      intro sc hsc sc' hk
      obtain ⟨hmem, hstatus⟩ := List.mem_filter.mp (hsiblings hsc)
      obtain ⟨⟨k, hlookup⟩, -⟩ := mem_childrenOf.mp hmem
      rw [tree.keyed.scopes k sc hlookup, hlookup] at hk
      obtain rfl := Option.some.inj hk
      have hstatus : sc.status = .open := (of_decide_eq_true hstatus).2
      rw [hstatus]
      rfl
    rcases hown with rfl | ⟨-, hfailing⟩
    · rw [List.append_nil] at hclosing ⊢
      exact hclosing hcancelled.closing (hcancelled.markable hopen)
    · exact hclosing (hcancelled.closing.append hfailing.closing) (List.forall_mem_append.mpr
        ⟨hcancelled.markable hopen, hfailing.markable (huncompleted.incomplete hact)⟩)
  | aborted _ _ haborting =>
    exact hclosing haborting.closing (haborting.markable huncompleted)

end Nodes

/-! ## Moves -/

/-- The kinds of events that the nesting constrains. -/
@[simp] def nestingKinds : List EventKind :=
  [.scopeOpened, .scopeCompleted, .scopeFailed, .activationOpened, .nodeOutputRecorded,
    .guardRecorded, .leafSucceeded, .leafFailed, .waitOpened, .waitSatisfied, .waitTimedOut,
    .waitCancelled, .compensationStarted]

theorem nesting_of_kind (h : e.kind ∉ nestingKinds) : Nesting s e := by
  cases e <;> first | trivial | (refine absurd ?_ h; simp)

theorem guarded_nesting_of_kinds (h : ∀ e ∈ es, e.kind ∉ nestingKinds) : Guarded Nesting s es :=
  Guarded.of_all fun e he _ => nesting_of_kind (h e he)

/-- The root scope of a run that is still active is open. -/
def RootsOpen (s : Core) : Prop :=
  ∀ k sc r, s.scopes.lookup k = some sc → sc.role = .root → s.runs.lookup sc.run = some r →
    r.status.isActive = true → sc.status = .open

theorem Nested.of_reported {run : RunId} {a : ActivationId} {act : ActivationState}
    (nested : Nested s) (hreported : Reported s body run a act) :
    Uncompleted s a ∧ Barren s a :=
  ⟨nested.within a act hreported.hact (.inl (by simp [hreported.hready])),
    nested.barren a act hreported.hact (.inl hreported.hready)⟩

theorem Move.nesting (tree : Tree s) (tokens : Tokens s) (nested : Nested s) (measured : Measured s)
    (roots : RootsOpen s) (placed : Guarded Placed s es) (tokened : Guarded Tokened s es)
    (freshScope : ∀ e ∈ es, ∀ k ∈ e.opensScope?, s.scopes.lookup k = none)
    (undue : ∀ run, body = .progress run → Undue s run time)
    (move : Move env o s time body es) : Guarded Nesting s es := by
  have hother : (∀ k ∈ body.kinds, k ∉ nestingKinds) → Guarded Nesting s es :=
    fun h => guarded_nesting_of_kinds fun e he => h _ (move.kinds e he)
  have hprobeCalm : ∀ {run a act probe}, AppliedProbe run a act probe →
      ∀ e ∈ probe, Mild e ∧ Calm e :=
    fun hprobe => hprobe.all fun _ _ => ⟨by simp [Mild], rfl, rfl⟩
  have hprobeNesting : ∀ {run a act probe}, AppliedProbe run a act probe →
      Guarded Nesting s probe :=
    fun hprobe => Guarded.of_all (hprobe.all fun _ _ _ => trivial)
  have hrootOf : ∀ {run runState root}, s.runs.lookup run = some runState →
      runState.status.isActive = true → rootScope? o s run = some root → Incomplete s root.id := by
    intro run runState root hrun hactive hroot sc hk
    obtain ⟨hlookup, rfl, hrole⟩ := rootScope?_eq_some tree.keyed hroot
    obtain rfl := Option.mem_unique hlookup hk
    rw [roots _ root runState hlookup hrole hrun hactive]
    rfl
  cases move with
  | @started run definition input catalog root a =>
    refine ⟨trivial, ⟨fun _ _ _ _ => rfl, nofun⟩, ?_, trivial⟩
    exact nesting_start (tree.evolve placed.1)
      (freshScope (.scopeOpened run root none .root input) (by simp) _ rfl)
  | @accepted _ run a act output probe owed followed hreported hrole hprobe howed hfollowed =>
    have hforward := (tokens.roles a act hreported.hact).resolve_right hrole
    obtain ⟨-, hbarren⟩ := nested.of_reported hreported
    have hpre : ∀ e ∈ probe ++ [.leafSucceeded run a 1 output .forward], Mild e ∧ Calm e :=
      List.forall_mem_append.mpr ⟨hprobeCalm hprobe,
        List.forall_mem_singleton.mpr ⟨by simp [Mild], rfl, rfl⟩⟩
    have hnesting : Guarded Nesting s (probe ++ [.leafSucceeded run a 1 output .forward]) := by
      refine guarded_append.mpr ⟨hprobeNesting hprobe, ?_, trivial⟩
      exact hbarren.allDone.kept fun e he => (hprobeCalm hprobe e he).1.not_failed
    have hplaced : Guarded Placed s (probe ++ [.leafSucceeded run a 1 output .forward]) := by
      have hparts : Guarded Placed s ((probe ++ [.leafSucceeded run a 1 output .forward]) ++
          .nodeOutputRecorded run act.scope act.node output :: (owed ++ followed)) := by
        simpa using placed
      exact (guarded_append.mp hparts).1
    have hguarded : Guarded Nesting s ((probe ++ [.leafSucceeded run a 1 output .forward]) ++
        .nodeOutputRecorded run act.scope act.node output :: (owed ++ followed)) :=
      guarded_nesting_output owed tree tokens nested hplaced hreported.hact hforward
        (.inl (.inr hreported.hready)) hbarren.allDone hpre hnesting
        (compensationEvents_all howed (fun _ _ _ => ⟨by simp [Mild], fun _ => trivial⟩)
          fun _ _ _ => ⟨by simp [Mild], fun _ => trivial⟩) (onward_or hfollowed)
    simpa using hguarded
  | @compensated _ run a act output probe item hreported hrole hprobe hitem hrun =>
    obtain ⟨-, hbarren⟩ := nested.of_reported hreported
    refine guarded_append.mpr ⟨hprobeNesting hprobe, ?_, trivial⟩
    exact hbarren.allDone.kept fun e he => (hprobeCalm hprobe e he).1.not_failed
  | retried hreported => exact ⟨nested.of_reported hreported, trivial, trivial⟩
  | blocked hreported => exact ⟨nested.of_reported hreported, trivial, trivial⟩
  | lost hreported => exact ⟨nested.of_reported hreported, trivial⟩
  | @erred _ run a act attempt code message failed hreported hrole hfailing =>
    obtain ⟨huncompleted, hbarren⟩ := nested.of_reported hreported
    refine ⟨⟨huncompleted, hbarren⟩, ?_⟩
    exact hfailing.closing.nesting [_] tree.keyed nested tokens
      (hfailing.markable (huncompleted.incomplete hreported.hact)) (by simp [Inward]) placed
  | @notApplied _ run a act probes settled hreported _ hsettled =>
    refine ⟨trivial, trivial, ?_⟩
    rcases hsettled with ⟨-, rfl⟩ | ⟨-, attempt, code, message, rfl⟩
    · trivial
    · obtain ⟨huncompleted, hbarren⟩ := nested.of_reported hreported
      have hkinds : ∀ e ∈ [DomainEvent.reconciliationRecorded run a .notApplied none probes,
          .claimCleared a], e.kind ∉ [.scopeOpened, .scopeCompleted] := by simp
      have hplaced : Guarded Placed s [.reconciliationRecorded run a .notApplied none probes,
          .claimCleared a] := ⟨trivial, trivial, trivial⟩
      exact ⟨⟨huncompleted.kept hreported.hact hplaced hkinds,
        hbarren.kept fun e he hkind => hkinds e he (by rw [hkind]; simp)⟩, trivial⟩
  | unknown _ _ hfailure hescalated =>
    exact guarded_nesting_of_kinds (not_mem_of_kinds (kinds_unknown hfailure hescalated)
      (by decide))
  | @satisfied _ run w wait act entry followed hsettling hentry hfollowed =>
    obtain ⟨act', hact', hforward, -⟩ := tokens.waiting w wait hsettling.hwait hsettling.hpending
    obtain rfl := Option.mem_unique hsettling.hact hact'
    have hawaited : Awaited s wait.activation := ⟨w, wait, hsettling.hwait, rfl, hsettling.hpending⟩
    have hdone := (nested.barren _ act hact' (.inr hawaited)).allDone
    have hfirst : Nesting s (.waitSatisfied run w entry.eventId entry.payload) := by
      intro other hother
      obtain rfl := Option.mem_unique hsettling.hwait hother
      exact hdone
    have hguarded : Guarded Nesting s ([.waitSatisfied run w entry.eventId entry.payload] ++
        .nodeOutputRecorded run act.scope act.node entry.payload :: ([] ++ followed)) :=
      guarded_nesting_output [] tree tokens nested ⟨trivial, trivial⟩ hact' hforward (.inr hawaited)
        hdone (by simp [Mild, Calm, DomainEvent.wakes?, DomainEvent.opensForward?])
        ⟨hfirst, trivial⟩ (by simp) hfollowed.onward
    exact hguarded
  | @timedOut _ run w wait act node next sc a hsettling hdeadline hentry hnode hnext hscope =>
    obtain ⟨act', hact', hforward, -⟩ := tokens.waiting w wait hsettling.hwait hsettling.hpending
    obtain rfl := Option.mem_unique hsettling.hact hact'
    have hawaited : Awaited s wait.activation := ⟨w, wait, hsettling.hwait, rfl, hsettling.hpending⟩
    refine ⟨fun other hother => ?_, ?_, trivial⟩
    · obtain rfl := Option.mem_unique hsettling.hwait hother
      exact (nested.barren _ act hact' (.inr hawaited)).allDone
    · have hpre : ∀ e ∈ [DomainEvent.waitTimedOut run w], Mild e := by simp [Mild]
      exact nesting_next nested hact' hforward (.inr hawaited) hpre
  | advanced hadvancing _ hmove =>
    exact hmove.nesting tree tokens nested measured placed tokened freshScope (undue _ rfl)
      hadvancing
  | @cancelled run reason runState root es hrun hactive _ hroot hfailing =>
    exact hfailing.closing.nesting [] tree.keyed nested tokens
      (hfailing.markable (hrootOf hrun hactive hroot)) (by simp) placed
  | @cancelledSagas run reason runState es ids hrun hactive hes =>
    have hclosing := (closing_closePendingWaits o s run).append (closing_cancelSagas hes)
    refine hclosing.nesting [] tree.keyed nested tokens ?_ (by simp) placed
    refine List.forall_mem_append.mpr ⟨markable_closePendingWaits o s run, ?_⟩
    refine cancelSagas_all hes fun saga es hmem haborting => haborting.markable ?_
    obtain ⟨act, hact, -, hopen, -⟩ := mem_openSagas tree.keyed hmem
    exact nested.within saga act hact (.inl (by simp [hopen]))
  | @abandoned run reason runState failed hrun hfailed =>
    refine ⟨trivial, ?_⟩
    rcases hfailed with ⟨-, rfl⟩ | ⟨root, error, hactive, hroot, hfailing⟩
    · trivial
    · exact hfailing.closing.nesting [_] tree.keyed nested tokens
        (hfailing.markable (hrootOf hrun hactive hroot)) (by simp [Inward]) placed
  | outside houtside =>
    exact guarded_nesting_of_kinds (not_mem_of_kinds (kinds_outside houtside) (by decide))
  | signalled | resolved | claimed | renewed => exact hother (by simp)

/-! ## What is evaluated -/

theorem measuring_of_kind
    (h : e.kind ∉ [.runAdmitted, .scopeOpened, .nodeOutputRecorded, .guardRecorded]) :
    Measuring s e := by
  cases e <;> first | trivial | (refine absurd ?_ h; simp)

theorem guarded_measuring_of_kinds (h : ∀ e ∈ es, e.kind ∉
    [.runAdmitted, .scopeOpened, .nodeOutputRecorded, .guardRecorded]) : Guarded Measuring s es :=
  Guarded.of_all fun e he _ => measuring_of_kind (h e he)

/-- An activation that is open was open before. -/
theorem open_of_evolveAll {a : ActivationId} {act act' : ActivationState}
    (placed : Guarded Placed s es) (hact : s.activations.lookup a = some act)
    (h : (evolveAll s es).activations.lookup a = some act') (hopen : act'.status = .open) :
    act.status = .open := by
  by_contra hsettled
  obtain ⟨act'', h', hclosed⟩ := settled_evolveAll placed hact hsettled
  obtain rfl := Option.mem_unique h h'
  exact hclosed hopen

/-- An output for the activation of a node: it is not one of a `foreach`, or gathers the items. -/
def Outputs (o : Enumeration) (s : Core) (act : ActivationState) (pre : List DomainEvent)
    (output : Value) : Prop :=
  ∃ node, nodeOf s act.scope act.node = some node ∧
    (node.isJoin = false ∨ pre = [] ∧ Finishes o s act output node)

/-- The output that is recorded in a scope is that of the activation at work in it. -/
theorem measuring_output {a : ActivationId} {act : ActivationState} {pre : List DomainEvent}
    {run : RunId} (tree : Tree s) (tokens : Tokens s) (placed : Guarded Placed s pre)
    (hact : s.activations.lookup a = some act) (hforward : act.role = .forward)
    (hactive : Active s a act) (hpre : ∀ e ∈ pre, Calm e)
    (houtput : act.status = .open → Outputs o s act pre output) :
    Measuring (evolveAll s pre) (.nodeOutputRecorded run act.scope act.node output) := by
  intro b other hb hscope hrole hopen
  obtain ⟨old, hold, hrole', hscope', holdActive⟩ :=
    active_of_calm hpre hb hrole (.inl (.inl hopen))
  obtain rfl := tokens.alone a b act old hact hold hforward hrole' hactive holdActive
    (hscope.symm.trans hscope'.symm)
  obtain ⟨kept, hkept, -, -, hnode, -⟩ :=
    (keeps_evolveAll placed act.run).activations a act hact rfl
  obtain rfl := Option.mem_unique hb hkept
  refine ⟨hnode, fun w ⟨_, _, node', hother, hwindow⟩ => ?_⟩
  obtain ⟨node, hfound, hout⟩ := houtput (open_of_evolveAll placed hact hb hopen)
  rw [tree.node_kept (keeps_evolveAll placed act.run) hact hb,
    hfound] at hother
  obtain rfl := Option.some.inj hother
  rcases hout with hjoin | ⟨rfl, hfinishes⟩
  · cases node <;> first | (cases hwindow; done) | cases hjoin
  · obtain rfl := Option.mem_unique hact hb
    cases node <;> cases hwindow
    exact hfinishes

theorem guarded_measuring_output {a : ActivationId} {act : ActivationState}
    {pre post : List DomainEvent} {run : RunId} (tree : Tree s) (tokens : Tokens s)
    (placed : Guarded Placed s pre) (hact : s.activations.lookup a = some act)
    (hforward : act.role = .forward) (hactive : Active s a act) (hpre : ∀ e ∈ pre, Calm e)
    (houtput : act.status = .open → Outputs o s act pre output)
    (measuring : Guarded Measuring s pre)
    (hpost : ∀ e ∈ post, e.kind ∉
      [.runAdmitted, .scopeOpened, .nodeOutputRecorded, .guardRecorded]) :
    Guarded Measuring s (pre ++ .nodeOutputRecorded run act.scope act.node output :: post) :=
  guarded_append.mpr ⟨measuring, measuring_output tree tokens placed hact hforward hactive
    hpre houtput, guarded_measuring_of_kinds hpost⟩

theorem Followed.unmeasured {scope : ScopeId} {node : NodeKey}
    (h : Followed s scope node es) : ∀ e ∈ es, e.kind ∉
      [EventKind.runAdmitted, .scopeOpened, .nodeOutputRecorded, .guardRecorded] := by
  apply h.all (P := fun e => e.kind ∉ _)
  simp

section Measuring

variable {run : RunId} {act : ActivationState} {node : Node}

theorem guarded_measuring_guards (advancing : Advancing s run act node)
    (hguards : Guards o s act node guards) : Guarded Measuring s guards := by
  rcases hguards with rfl | ⟨cont, index, carry, rfl, hguarded, -⟩
  · trivial
  · exact ⟨⟨act, node, advancing.hact, advancing.hnode, hguarded⟩, trivial⟩

theorem AtNode.same {α : Type} {p : Node → Option α} {x : α} {other : ActivationState}
    (h : AtNode p s act.id other x) (advancing : Advancing s run act node) :
    other = act ∧ p node = some x := by
  obtain ⟨hother, -, found, hfound, hx⟩ := h
  obtain rfl := Option.mem_unique advancing.hact hother
  obtain rfl := Option.mem_unique hfound advancing.hnode
  exact ⟨rfl, hx⟩

/-- A new child is one that its node still evaluates to. -/
theorem Opens.measuring {k : ScopeId} {role : ScopeRole} (opens : Opens o s act input node role)
    (measured : Measured s) (advancing : Advancing s run act node) :
    Measuring s (.scopeOpened act.run k (some act.id) role input) := by
  refine fun a other i => ⟨fun w hrole hat => ?_, fun count hrole hat => ?_⟩
  · cases opens with
    | item hopens =>
      cases hrole
      obtain ⟨rfl, hnode⟩ := hat.same advancing
      cases hnode
      exact hopens
    | _ => cases hrole
  · cases opens with
    | @guarded node _ hguarded =>
      cases hrole
      obtain ⟨rfl, hnode⟩ := hat.same advancing
      cases node <;> first | (cases hnode; done) | cases hguarded
    | repeated _ _ hcount hgoes =>
      cases hrole
      obtain ⟨rfl, hnode⟩ := hat.same advancing
      cases hnode
      rcases hgoes with hc | ⟨carried, hcarried⟩
      · exact ⟨_, hcount, hc⟩
      · exact measured.counted _ carried _ _ hcarried hat advancing.hopen
    | _ => cases hrole

theorem guarded_measuring_child {role : ScopeRole} {body : Region} {k : ScopeId} {a : ActivationId}
    (tree : Tree s) (measured : Measured s) (advancing : Advancing s run act node)
    (hguards : Guards o s act node guards) (hopens : Opens o s act input node role)
    (placed : Guarded Placed s (guards ++ [.scopeOpened act.run k (some act.id) role input,
      .activationOpened act.run k a body.start])) :
    Guarded Measuring s (guards ++ [.scopeOpened act.run k (some act.id) role input,
      .activationOpened act.run k a body.start]) := by
  have hmeasuring := guarded_measuring_guards advancing hguards
  rcases hguards with rfl | ⟨cont, index, carry, rfl, hguarded, -⟩
  · exact ⟨hopens.measuring measured advancing, trivial, trivial⟩
  · -- A loop that records guards is neither a `foreach` nor a `repeat`.
    refine ⟨hmeasuring.1, fun b other i => ⟨?_, ?_⟩, trivial, trivial⟩
    · rintro w rfl -
      cases hopens
      cases hguarded
    · rintro count rfl hat
      have hown : b = act.id := by cases hopens <;> rfl
      subst hown
      obtain ⟨-, hnode⟩ := (hat.before tree placed.1 advancing.hact).1.same advancing
      cases node <;> first | (cases hnode; done) | cases hguarded

theorem NodeMove.measuring (tree : Tree s) (tokens : Tokens s) (measured : Measured s)
    (placed : Guarded Placed s es) (tokened : Guarded Tokened s es)
    (advancing : Advancing s run act node)
    (move : NodeMove o s run time act node es) : Guarded Measuring s es := by
  have hact := advancing.hact
  have hactive : Active s act.id act := .inl (.inl advancing.hopen)
  have hclosing : Closing s es → Guarded Measuring s es := fun closing =>
    guarded_measuring_of_kinds fun e he hkind => by
      have hmem := closing.kinds e he
      revert hkind hmem
      generalize e.kind = k
      revert k
      decide
  have hfinishes : ∀ (pre : List DomainEvent) {followed : List DomainEvent} {output : Value},
      es = pre ++ .nodeOutputRecorded act.run act.scope act.node output :: followed →
      (∀ e ∈ pre, Calm e) → Outputs o s act pre output → Guarded Measuring s pre →
      Followed s act.scope act.node followed → Guarded Measuring s es := by
    rintro pre followed output rfl hpre houtputs hmeasuring hfollowed
    exact guarded_measuring_output tree tokens (guarded_append.mp placed).1 hact advancing.hforward
      hactive hpre (fun _ => houtputs) hmeasuring hfollowed.unmeasured
  cases move with
  | reopened | timer | due | waiting => exact ⟨trivial, trivial⟩
  | completed => exact guarded_measuring_of_kinds (not_mem_of_kinds kinds_completed (by decide))
  | failed hfailing | conflict _ hfailing | childFailed _ _ hfailing =>
    exact hclosing hfailing.closing
  | @taken signal key timeoutMs consumeFrom next onTimeout text w runState entry followed _ _ _ _
      hfollowed =>
    refine ⟨trivial, ?_⟩
    obtain ⟨act', hact', -, hscope, hnode, hrole⟩ :=
      (keeps_evolve placed.1 act.run).activations act.id act hact rfl
    obtain ⟨wait, hwait, hown, hpending⟩ : ∃ wait, (evolve s (.waitOpened act.run w act.id signal
        text (timeoutMs.map (satAdd time ·)) consumeFrom)).waits.lookup w = some wait ∧ _ :=
      wait_of_waitOpened
    have hawaited : Awaited _ act.id := ⟨w, wait, hwait, hown, hpending⟩
    have hguarded : Guarded Measuring _ ([.waitSatisfied act.run w entry.eventId entry.payload] ++
        .nodeOutputRecorded act.run act'.scope act'.node entry.payload :: followed) :=
      guarded_measuring_output (o := o) (tree.evolve placed.1)
        (tokens.evolve tree placed.1 tokened.1)
        ⟨trivial, trivial⟩ hact' (hrole.trans advancing.hforward) (.inr hawaited)
        (by simp [Calm, DomainEvent.wakes?, DomainEvent.opensForward?])
        (fun hopen => ((tokens.evolve tree placed.1 tokened.1).not_awaited_of_open hact' hopen
          hawaited).elim) ⟨trivial, trivial⟩
        hfollowed.unmeasured
    rw [hscope, hnode] at hguarded
    exact hguarded
  | finished hjoin hguards _ hfollowed =>
    exact hfinishes _ rfl (hguards.all fun _ _ _ => ⟨rfl, rfl⟩) ⟨_, advancing.hnode, .inl hjoin⟩
      (guarded_measuring_guards advancing hguards) hfollowed
  | skipped _ _ _ hfollowed hdone | joined _ hfollowed hdone =>
    exact hfinishes [] rfl (by simp) ⟨_, advancing.hnode, .inr ⟨rfl, hdone⟩⟩ trivial hfollowed
  | settled _ _ _ _ hfollowed =>
    refine hfinishes _ rfl (settleSagaSuccess_all (fun _ _ => ⟨rfl, rfl⟩) fun _ _ => ⟨rfl, rfl⟩)
      ⟨_, advancing.hnode, .inl rfl⟩ (guarded_measuring_of_kinds ?_) hfollowed
    apply settleSagaSuccess_all (P := fun e => e.kind ∉ _) <;> simp
  | childOpened hguards _ _ _ hopens =>
    exact guarded_measuring_child tree measured advancing hguards hopens placed
  | cancelled _ _ _ hcancelled hown =>
    rcases hown with rfl | ⟨-, hfailing⟩
    · rw [List.append_nil] at hclosing ⊢
      exact hclosing hcancelled.closing
    · exact hclosing (hcancelled.closing.append hfailing.closing)
  | aborted _ _ haborting => exact hclosing haborting.closing

end Measuring

/-- The run that a command starts has no scope yet. -/
def StartsNew (s : Core) (body : CommandBody) : Prop :=
  ∀ run definition input catalog, body = .start run definition input catalog →
    ∀ k sc, s.scopes.lookup k = some sc → sc.run ≠ run

theorem Move.measuring (tree : Tree s) (tokens : Tokens s) (measured : Measured s)
    (placed : Guarded Placed s es) (tokened : Guarded Tokened s es)
    (hnew : StartsNew s body) (move : Move env o s time body es) :
    Guarded Measuring s es := by
  have hother : (∀ k ∈ body.kinds, k ∉ [EventKind.runAdmitted, .scopeOpened, .nodeOutputRecorded,
      .guardRecorded]) → Guarded Measuring s es :=
    fun h => guarded_measuring_of_kinds fun e he => h _ (move.kinds e he)
  have hplain {L : List EventKind} {es' : List DomainEvent} (h : ∀ e ∈ es', e.kind ∈ L)
      (hL : ∀ k ∈ L, k ∉ [EventKind.runAdmitted, .scopeOpened, .nodeOutputRecorded,
        .guardRecorded]) : Guarded Measuring s es' :=
    guarded_measuring_of_kinds (not_mem_of_kinds h hL)
  cases move with
  | started =>
    refine ⟨fun a act hact hrun => ?_, fun _ _ _ => ⟨nofun, nofun⟩, trivial, trivial⟩
    obtain ⟨sc, hsc, hown⟩ := tree.placed a act hact
    exact hnew _ _ _ _ rfl _ sc hsc (hown.trans hrun)
  | @accepted _ run a act output probe owed followed hreported hrole hprobe howed hfollowed =>
    have hforward := (tokens.roles a act hreported.hact).resolve_right hrole
    have hcalm : ∀ e ∈ probe ++ [.leafSucceeded run a 1 output .forward], Calm e :=
      List.forall_mem_append.mpr ⟨hprobe.all fun _ _ => ⟨rfl, rfl⟩,
        List.forall_mem_singleton.mpr ⟨rfl, rfl⟩⟩
    have hparts : Guarded Placed s ((probe ++ [.leafSucceeded run a 1 output .forward]) ++
        .nodeOutputRecorded run act.scope act.node output :: (owed ++ followed)) := by
      simpa using placed
    have hpost : ∀ e ∈ owed ++ followed, e.kind ∉
        [EventKind.runAdmitted, .scopeOpened, .nodeOutputRecorded, .guardRecorded] := by
      refine List.forall_mem_append.mpr ⟨?_, ?_⟩
      · apply compensationEvents_all (P := fun e => e.kind ∉ _) howed <;> simp
      · rcases hfollowed with ⟨-, rfl⟩ | ⟨-, hfollowed⟩
        · exact List.forall_mem_nil _
        · exact hfollowed.unmeasured
    have hpre : Guarded Measuring s (probe ++ [.leafSucceeded run a 1 output .forward]) :=
      guarded_append.mpr ⟨Guarded.of_all (hprobe.all fun _ _ _ => trivial), trivial, trivial⟩
    have hguarded : Guarded Measuring s ((probe ++ [.leafSucceeded run a 1 output .forward]) ++
        .nodeOutputRecorded run act.scope act.node output :: (owed ++ followed)) :=
      guarded_measuring_output (o := o) tree tokens (guarded_append.mp hparts).1
        hreported.hact hforward (.inl (.inr hreported.hready)) hcalm
        (fun hopen => nomatch hreported.hready.symm.trans hopen) hpre hpost
    simpa using hguarded
  | @satisfied _ run w wait act entry followed hsettling hentry hfollowed =>
    obtain ⟨act', hact', hforward, -, hclosed, -⟩ :=
      tokens.waiting w wait hsettling.hwait hsettling.hpending
    obtain rfl := Option.mem_unique hsettling.hact hact'
    have hguarded : Guarded Measuring s ([.waitSatisfied run w entry.eventId entry.payload] ++
        .nodeOutputRecorded run act.scope act.node entry.payload :: followed) :=
      guarded_measuring_output (o := o) tree tokens ⟨trivial, trivial⟩ hact' hforward
        (.inr ⟨w, wait, hsettling.hwait, rfl, hsettling.hpending⟩)
        (by simp [Calm, DomainEvent.wakes?, DomainEvent.opensForward?])
        (fun hopen => absurd hopen hclosed) ⟨trivial, trivial⟩ hfollowed.unmeasured
    exact hguarded
  | advanced hadvancing _ hmove =>
    exact hmove.measuring tree tokens measured placed tokened hadvancing
  | compensated _ _ hprobe => exact hplain (kinds_compensated hprobe) (by decide)
  | retried | blocked | timedOut => exact ⟨trivial, trivial, trivial⟩
  | lost => exact ⟨trivial, trivial⟩
  | erred _ _ hfailing => exact hplain (kinds_erred hfailing) (by decide)
  | notApplied _ _ hsettled => exact hplain (kinds_notApplied hsettled) (by decide)
  | unknown _ _ hfailure hescalated => exact hplain (kinds_unknown hfailure hescalated) (by decide)
  | outside houtside => exact hplain (kinds_outside houtside) (by decide)
  | signalled | resolved | claimed | renewed | cancelled | cancelledSagas | abandoned =>
    exact hother (by simp)

end Graphrun
