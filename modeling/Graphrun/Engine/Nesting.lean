import Graphrun.Engine.Kinds
import Graphrun.Engine.Tokens

/-!
# Containers outlive their children

A scope that has not completed keeps everything above it from succeeding: its parent activation
has not succeeded (`Nested.above`), and a scope in which an activation has not succeeded has not
completed (`Nested.within`). The rest of `Nested` is what containers count on: children are told
apart by their roles, of the children of a loop, a `choose` or a saga only the last one may be
unfinished, and the results recorded for a join are those of completed children.

`Nesting` is what an event has to respect in order to keep this.
-/

namespace Graphrun

open Lib

variable {env : Env} {o : Enumeration} {s s' : Core} {e : DomainEvent} {time : Nat} {ids : IdGen}
  {es : List DomainEvent} {role : ScopeRole} {a : ActivationId} {k : ScopeId} {sc : ScopeState}
  {act : ActivationState}

/-! ## Roles -/

/-- The children of joins run side by side. -/
def ScopeRole.joins : ScopeRole → Bool
  | .foreachItem .. | .parallelBranch .. => true
  | _ => false

def ScopeRole.index : ScopeRole → Nat
  | .loopBody _ index | .foreachItem _ index => index
  | _ => 0

theorem childIndex_eq (child : ScopeState) : childIndex child = child.role.index := by
  cases hrole : child.role <;> simp [childIndex, ScopeRole.index, hrole]

/-- The roles of the children of a node. -/
def ScopeRole.fits : ScopeRole → Node → Bool
  | .loopBody .., .while .. | .loopBody .., .doWhile .. | .loopBody .., .repeat ..
  | .foreachItem .., .foreach .. | .parallelBranch .., .parallel ..
  | .chooseBody .., .choose .. | .sagaBody _, .saga .. => true
  | _, _ => false

theorem ScopeRole.joins_of_fits {node : Node} (h : role.fits node = true) :
    role.joins = node.isJoin := by
  cases role <;> cases node <;> first | rfl | cases h

/-! ## The invariant -/

/-- All children of an activation have completed. -/
def AllDone (s : Core) (a : ActivationId) : Prop :=
  ∀ k sc, s.scopes.lookup k = some sc → sc.parent = some a → sc.status.isCompleted = true

/-- No scope hangs from an activation. -/
def Barren (s : Core) (a : ActivationId) : Prop :=
  ∀ k sc, s.scopes.lookup k = some sc → sc.parent ≠ some a

theorem Barren.allDone (h : Barren s a) : AllDone s a :=
  fun k sc hk hparent => absurd hparent (h k sc hk)

/-- The scope of an activation has not completed. -/
def Uncompleted (s : Core) (a : ActivationId) : Prop :=
  ∀ act sc, s.activations.lookup a = some act → s.scopes.lookup act.scope = some sc →
    sc.status.isCompleted = false

/-- A scope of the given role has completed with an output. -/
def CompletedWith (s : Core) (role : ScopeRole) (output : Value) : Prop :=
  ∃ k sc, s.scopes.lookup k = some sc ∧ sc.role = role ∧ sc.status = .completed output

/-- Results that belong to completed scopes, at most one to each. -/
def Gathered {κ : Type} (s : Core) (role : κ → ScopeRole) (done : List (κ × Value)) : Prop :=
  (done.map (·.1)).Nodup ∧ ∀ e ∈ done, CompletedWith s (role e.1) e.2

structure Nested (s : Core) : Prop where
  unique : ∀ k k' sc sc', s.scopes.lookup k = some sc → s.scopes.lookup k' = some sc' →
    sc.role = sc'.role → sc.role ≠ .root → k = k'
  fits : ∀ k sc a act node, s.scopes.lookup k = some sc → sc.parent = some a →
    s.activations.lookup a = some act → nodeOf s act.scope act.node = some node →
    sc.role.fits node = true
  above : ∀ k sc a act, s.scopes.lookup k = some sc → sc.parent = some a →
    s.activations.lookup a = some act → sc.status.isCompleted = false → act.status ≠ .succeeded
  within : ∀ a act, s.activations.lookup a = some act → Unsettled s a act → Uncompleted s a
  parents : ∀ k sc a act, s.scopes.lookup k = some sc → sc.parent = some a →
    s.activations.lookup a = some act → act.role = .forward
  barren : ∀ a act, s.activations.lookup a = some act → act.status = .ready ∨ Awaited s a →
    Barren s a
  stuck : ∀ a b act act', s.activations.lookup a = some act → s.activations.lookup b = some act' →
    act.role = .forward → act'.role = .forward → act.scope = act'.scope → act.status = .failed →
    ¬ Barren s a → ¬ Active s b act'
  last : ∀ a k k' sc sc', s.scopes.lookup k = some sc → s.scopes.lookup k' = some sc' →
    sc.parent = some a → sc'.parent = some a → k ≠ k' → sc.role.joins = false →
    sc.status.isCompleted = false → sc'.status.isCompleted = true ∧ sc'.role.index < sc.role.index
  carried : ∀ k sc a i, s.scopes.lookup k = some sc → sc.role = .loopBody a i →
    ∃ v n, s.loopCarry.lookup a = some (v, n) ∧ i ≤ n ∧ (sc.status.isCompleted = true → i < n)
  items : ∀ a, Gathered s (.foreachItem a) ((s.foreachDone.lookup a).getD [])
  branches : ∀ a, Gathered s (.parallelBranch a) ((s.parallelDone.lookup a).getD [])

/-- What an event has to respect in order to keep the nesting. -/
def Nesting (s : Core) : DomainEvent → Prop
  | .scopeOpened _ _ parent role _ =>
    (∀ k sc, s.scopes.lookup k = some sc → sc.role = role → role = .root) ∧
    ∀ a, parent = some a → ∃ act node, s.activations.lookup a = some act ∧
      act.role = .forward ∧ act.status = .open ∧ nodeOf s act.scope act.node = some node ∧
      role.fits node = true ∧
      (role.joins = false → ∀ k sc, s.scopes.lookup k = some sc → sc.parent = some a →
        sc.status.isCompleted = true ∧ sc.role.index < role.index)
  | .scopeCompleted _ k _ =>
    (∀ sc, s.scopes.lookup k = some sc → sc.status.isCompleted = false) ∧
    ∀ a act, s.activations.lookup a = some act → act.scope = k →
      AllDone s a ∧ ¬ Awaited s a
  | .scopeFailed _ k _ => ∀ sc, s.scopes.lookup k = some sc → sc.status.isCompleted = false
  | .activationOpened _ k _ _ =>
    (∀ sc, s.scopes.lookup k = some sc → sc.status.isCompleted = false) ∧
    ∀ a act, s.activations.lookup a = some act → act.scope = k → act.role = .forward →
      act.status = .failed → Barren s a
  | .nodeOutputRecorded _ k node _ => ∀ a act, s.activations.lookup a = some act →
    act.scope = k → act.node = node → Live act → AllDone s a
  | .guardRecorded _ a _ i _ => AllDone s a ∧ CarriesUpTo s a i
  | .leafSucceeded _ a _ _ _ => AllDone s a
  | .leafFailed _ a _ _ _ _ | .waitOpened _ _ a _ _ _ _ => Uncompleted s a ∧ Barren s a
  | .compensationStarted _ saga _ _ _ _ _ _ => Uncompleted s saga
  | .waitSatisfied _ w _ _ | .waitTimedOut _ w => ∀ wait, s.waits.lookup w = some wait →
    AllDone s wait.activation
  | .waitCancelled _ w => ∀ wait, s.waits.lookup w = some wait →
    Uncompleted s wait.activation ∧ Barren s wait.activation
  | _ => True

/-! ## Completed scopes -/

/-- Events that respect the nesting leave completed scopes alone. -/
theorem Nesting.completed_kept (nesting : Nesting s e) (h : s.scopes.lookup k = some sc)
    (hdone : sc.status.isCompleted = true) : (sc.after e k).status = sc.status := by
  simp only [ScopeState.after]
  cases e with
  | scopeCompleted run k' output =>
    simp only [scopeStatusAfter]
    split
    · next hk =>
      subst hk
      rw [nesting.1 sc h] at hdone
      cases hdone
    · rfl
  | scopeFailed run k' error =>
    simp only [scopeStatusAfter]
    split
    · next hk =>
      subst hk
      rw [nesting sc h] at hdone
      cases hdone
    · rfl
  | runFailed run error =>
    simp only [scopeStatusAfter]
    split
    · next hopen =>
      rw [hopen.2] at hdone
      cases hdone
    · rfl
  | _ => rfl

theorem scopeStatus_open (h : (sc.after e k).status = .open) :
    sc.status = .open := by
  simp only [ScopeState.after, scopeStatusAfter] at h
  split at h <;> first
    | exact h
    | (split at h <;> first | exact h | cases h)

/-- A scope is completed by its own event. -/
theorem completed_after_cases (h : (sc.after e k).status.isCompleted = true) :
    sc.status.isCompleted = true ∨ ∃ run output, e = .scopeCompleted run k output := by
  simp only [ScopeState.after] at h
  cases e with
  | scopeCompleted run k' output =>
    simp only [scopeStatusAfter] at h
    split at h
    · next hk => exact .inr ⟨run, output, by rw [hk]⟩
    · exact .inl h
  | scopeFailed run k' error =>
    simp only [scopeStatusAfter] at h
    split at h
    · cases h
    · exact .inl h
  | runFailed run error =>
    simp only [scopeStatusAfter] at h
    split at h
    · cases h
    · exact .inl h
  | _ => exact .inl h

/-- An activation succeeds when all its children have completed. -/
theorem Nesting.allDone_of_succeeded (nesting : Nesting s e) (h : s.activations.lookup a = some act)
    (hstatus : statusAfter s e a act = .succeeded) : act.status = .succeeded ∨ AllDone s a := by
  cases e with
  | scopeCompleted run k output =>
    simp only [statusAfter] at hstatus
    split at hstatus
    · next hk => exact .inr (nesting.2 a act h hk).1
    · exact .inl hstatus
  | nodeOutputRecorded run k node output =>
    simp only [statusAfter] at hstatus
    split at hstatus
    · next hlive => exact .inr (nesting a act h hlive.1 hlive.2.1 hlive.2.2)
    · exact .inl hstatus
  | leafSucceeded run b attempt output role =>
    simp only [statusAfter] at hstatus
    split at hstatus
    · next hab => exact .inr (hab ▸ nesting)
    · exact .inl hstatus
  | waitSatisfied run w | waitTimedOut run w =>
    simp only [statusAfter] at hstatus
    split at hstatus
    · next hw =>
      obtain ⟨wait, hwait, rfl⟩ := Option.map_eq_some_iff.mp hw
      exact .inr (nesting wait hwait)
    · exact .inl hstatus
  | leafFailed run b attempt code message retry =>
    simp only [statusAfter] at hstatus
    split at hstatus
    · split at hstatus <;> cases hstatus
    · exact .inl hstatus
  | _ =>
    simp only [statusAfter] at hstatus
    first
      | exact .inl hstatus
      | (split at hstatus <;> first | exact .inl hstatus | cases hstatus)

/-- An activation that an event leaves or makes unsettled is in a scope that has not completed. -/
theorem Nesting.uncompleted (nesting : Nesting s e) (h : s.activations.lookup a = some act)
    (hunsettled : statusAfter s e a act ≠ .succeeded ∨ Awaited (evolve s e) a) :
    Unsettled s a act ∨ Uncompleted s a := by
  rcases hunsettled with hstatus | hawaited
  · by_cases hsucceeded : act.status = .succeeded
    · refine .inr ?_
      cases e with
      | leafFailed run b attempt code message retry =>
        by_cases hab : a = b
        · exact hab ▸ nesting.1
        · simp [statusAfter, hab, hsucceeded] at hstatus
      | waitOpened run w b signal key deadline consumeFrom =>
        by_cases hab : a = b
        · exact hab ▸ nesting.1
        · simp [statusAfter, hab, hsucceeded] at hstatus
      | waitCancelled run w =>
        by_cases hw : (s.waits.lookup w).map (·.activation) = some a
        · obtain ⟨wait, hwait, rfl⟩ := Option.map_eq_some_iff.mp hw
          exact (nesting wait hwait).1
        · simp [statusAfter, hw, hsucceeded] at hstatus
      | _ =>
        refine absurd ?_ hstatus
        simp [statusAfter, hsucceeded]
    · exact .inl (.inl hsucceeded)
  · rcases awaited_of_evolve hawaited with hawaited | hwakes
    · exact .inl (.inr hawaited)
    · refine .inr ?_
      cases e with
      | waitOpened run w b signal key deadline consumeFrom =>
        obtain rfl := Option.some.inj hwakes
        exact nesting.1
      | leafFailed run b attempt code message retry =>
        cases retry with
        | true =>
          obtain rfl := Option.some.inj hwakes
          exact nesting.1
        | false => cases hwakes
      | _ => cases hwakes

/-! ## Gathered results -/

theorem takesIn_recordItem (i : Nat) (output : Value) (slot : List (Nat × Value)) :
    TakesIn i (slot.map (·.1)) ((recordItem i output slot).map (·.1)) := by
  unfold recordItem
  split
  · exact .inl (map_updateFirst fun _ => rfl)
  · next hnew =>
    refine .inr ⟨fun hmem => hnew ?_, ?_⟩
    · obtain ⟨entry, hentry, hindex⟩ := List.mem_map.mp hmem
      exact List.any_eq_true.mpr ⟨entry, hentry, by simpa using hindex⟩
    · rw [List.map_append]
      exact List.perm_append_singleton i (slot.map (·.1))

theorem mem_recordItem (i : Nat) (output : Value) (slot : List (Nat × Value)) :
    ∀ e ∈ recordItem i output slot, e = (i, output) ∨ e ∈ slot := by
  unfold recordItem
  intro e he
  split at he
  · rcases mem_updateFirst he with he | ⟨old, -, hi, rfl⟩
    · exact .inr he
    · exact .inl (by rw [of_decide_eq_true hi])
  · simpa [or_comm] using he

theorem mem_recordBranch (name : String) (output : Value) (slot : List (String × Value)) :
    ∀ e ∈ recordBranch name output slot, e = (name, output) ∨ e ∈ slot := by
  unfold recordBranch
  intro e he
  split at he
  · exact .inr he
  · exact mem_of_mem_mapInsert he

theorem takesIn_recordBranch (name : String) (output : Value) (slot : List (String × Value)) :
    TakesIn name (slot.map (·.1)) ((recordBranch name output slot).map (·.1)) := by
  unfold recordBranch
  split
  · exact .inl rfl
  · next hnew => exact .inr (keys_mapInsert (by simpa using hnew))

/-! ## One event -/

section Evolve

variable (tree : Tree s) (placed : Placed s e) (tokens : Tokens s) (tokened : Tokened s e)
  (nesting : Nesting s e) (nested : Nested s)

include nesting nested in
theorem Nested.unique_evolve {k' : ScopeId} {sc' : ScopeState}
    (hk : (evolve s e).scopes.lookup k = some sc) (hk' : (evolve s e).scopes.lookup k' = some sc')
    (hrole : sc.role = sc'.role) (hroot : sc.role ≠ .root) : k = k' := by
  rcases scope_after_cases hk with ⟨old, hold, rfl⟩ | ⟨run, parent, role, input, rfl, rfl⟩ <;>
    rcases scope_after_cases hk' with ⟨old', hold', rfl⟩ |
      ⟨run', parent', role', input', hopened, rfl⟩
  · exact nested.unique k k' old old' hold hold' hrole hroot
  · rw [hopened] at nesting
    exact absurd (hrole.trans (nesting.1 k old hold hrole)) hroot
  · exact absurd (nesting.1 k' old' hold' hrole.symm) hroot
  · exact (DomainEvent.scopeOpened.inj hopened).2.1

include tree placed nesting nested in
theorem Nested.fits_evolve {node : Node} (hk : (evolve s e).scopes.lookup k = some sc)
    (hparent : sc.parent = some a) (ha : (evolve s e).activations.lookup a = some act)
    (hnode : nodeOf (evolve s e) act.scope act.node = some node) : sc.role.fits node = true := by
  have tree' := tree.evolve placed
  rcases scope_after_cases hk with ⟨old, hold, rfl⟩ | ⟨run, parent, role, input, rfl, rfl⟩
  · obtain ⟨oldAct, holdAct, -⟩ := tree.parent_exists hold hparent
    rw [tree.node_kept (keeps_evolve placed oldAct.run) holdAct ha] at hnode
    exact nested.fits k old a oldAct node hold hparent holdAct hnode
  · obtain ⟨oldAct, oldNode, holdAct, -, -, holdNode, hfits, -⟩ := nesting.2 a hparent
    rw [tree.node_kept (keeps_evolve placed oldAct.run) holdAct ha, holdNode] at hnode
    obtain rfl := Option.some.inj hnode
    exact hfits

include tree placed nesting nested in
theorem Nested.above_evolve (hk : (evolve s e).scopes.lookup k = some sc)
    (hparent : sc.parent = some a) (ha : (evolve s e).activations.lookup a = some act)
    (hopen : sc.status.isCompleted = false) : act.status ≠ .succeeded := by
  intro hstatus
  rcases scope_after_cases hk with ⟨old, hold, rfl⟩ | ⟨run, parent, role, input, rfl, rfl⟩
  · obtain ⟨oldAct, holdAct, -⟩ := tree.parent_exists hold hparent
    have hbefore : old.status.isCompleted = false := by
      by_contra hdone
      rw [nesting.completed_kept hold (Bool.not_eq_false _ ▸ hdone)] at hopen
      exact hdone hopen
    obtain rfl := Option.mem_unique ha (placed.activation holdAct)
    rcases nesting.allDone_of_succeeded holdAct hstatus with hsucceeded | hdone
    · exact nested.above k old a oldAct hold hparent holdAct hbefore hsucceeded
    · rw [hdone k old hold hparent] at hbefore
      cases hbefore
  · obtain ⟨oldAct, oldNode, holdAct, -, hopened, -⟩ := nesting.2 a hparent
    obtain rfl := Option.mem_unique ha (placed.activation holdAct)
    rw [show oldAct.status = .succeeded from hstatus] at hopened
    cases hopened

include placed nesting nested in
theorem Nested.within_evolve (ha : (evolve s e).activations.lookup a = some act)
    (hunsettled : Unsettled (evolve s e) a act) : Uncompleted (evolve s e) a := by
  intro act' sc ha' hk
  obtain rfl := Option.mem_unique ha ha'
  -- A scope that completes leaves nothing unsettled in it.
  have hcompletes : ∀ run k output, e = .scopeCompleted run k output → act.scope ≠ k := by
    rintro run k output rfl hscope
    rcases activation_after_cases ha with ⟨old, hold, rfl⟩ | ⟨_, _, _, hopened, -⟩ |
      ⟨_, _, _, _, _, _, _, _, hopened, -⟩
    · rcases hunsettled with hstatus | hawaited
      · exact hstatus (if_pos hscope)
      · have hnot := (nesting.2 a old hold hscope).2
        exact (awaited_of_evolve hawaited).elim hnot nofun
    · cases hopened
    · cases hopened
  by_contra hdone
  rw [Bool.not_eq_false] at hdone
  rcases scope_after_cases hk with ⟨old, hold, rfl⟩ | ⟨run, parent, role, input, rfl, rfl⟩
  · rcases completed_after_cases hdone with hbefore | ⟨run, output, hcompleted⟩
    · rcases activation_after_cases ha with ⟨oldAct, holdAct, rfl⟩ |
        ⟨run, scope, node, rfl, -, -, hscope, -⟩ |
        ⟨run, saga, _, _, _, _, _, scope, rfl, hcomp, -, -, hscope, -⟩
      · have huncompleted : Uncompleted s a := (nesting.uncompleted holdAct hunsettled).elim
          (nested.within a oldAct holdAct) id
        rw [huncompleted oldAct old holdAct hold] at hbefore
        cases hbefore
      · rw [nesting.1 old (hscope ▸ hold)] at hbefore
        cases hbefore
      · obtain ⟨-, sagaAct, hsaga, -⟩ := placed
        simp only [compensationScope, hsaga, Option.some.injEq] at hcomp
        rw [nesting sagaAct old hsaga (by rw [hcomp, ← hscope]; exact hold)] at hbefore
        cases hbefore
    · exact hcompletes run _ output hcompleted rfl
  · cases hdone

include nesting nested in
theorem Nested.last_evolve {k' : ScopeId} {sc' : ScopeState}
    (hk : (evolve s e).scopes.lookup k = some sc) (hk' : (evolve s e).scopes.lookup k' = some sc')
    (hparent : sc.parent = some a) (hparent' : sc'.parent = some a) (hne : k ≠ k')
    (hjoins : sc.role.joins = false) (hopen : sc.status.isCompleted = false) :
    sc'.status.isCompleted = true ∧ sc'.role.index < sc.role.index := by
  rcases scope_after_cases hk with ⟨old, hold, rfl⟩ | ⟨run, parent, role, input, rfl, rfl⟩ <;>
    rcases scope_after_cases hk' with ⟨old', hold', rfl⟩ |
      ⟨run', parent', role', input', hopened, rfl⟩
  · have hbefore : old.status.isCompleted = false := by
      by_contra hdone
      rw [nesting.completed_kept hold (Bool.not_eq_false _ ▸ hdone)] at hopen
      exact hdone hopen
    obtain ⟨hdone, hindex⟩ :=
      nested.last a k k' old old' hold hold' hparent hparent' hne hjoins hbefore
    exact ⟨(nesting.completed_kept hold' hdone).symm ▸ hdone, hindex⟩
  · subst hopened
    obtain ⟨act, node, hact, -, -, hnode, hfits, hothers⟩ := nesting.2 a hparent'
    have hsame : role'.joins = old.role.joins :=
      (ScopeRole.joins_of_fits hfits).trans (ScopeRole.joins_of_fits
        (nested.fits k old a act node hold hparent hact hnode)).symm
    have hdone := (hothers (hsame.trans hjoins) k old hold hparent).1
    rw [nesting.completed_kept hold hdone, hdone] at hopen
    cases hopen
  · obtain ⟨act, node, -, -, -, -, -, hothers⟩ := nesting.2 a hparent
    exact hothers hjoins k' old' hold' hparent'
  · exact absurd (DomainEvent.scopeOpened.inj hopened).2.1 hne

include tree placed nesting nested in
theorem Nested.carried_evolve {i : Nat} (hk : (evolve s e).scopes.lookup k = some sc)
    (hrole : sc.role = .loopBody a i) :
    ∃ v n, (evolve s e).loopCarry.lookup a = some (v, n) ∧ i ≤ n ∧
      (sc.status.isCompleted = true → i < n) := by
  rw [evolve_loopCarry]
  rcases scope_after_cases hk with ⟨old, hold, rfl⟩ | ⟨run, parent, role, input, rfl, rfl⟩
  · replace hrole : old.role = .loopBody a i := hrole
    have hparent : old.parent = some a := (tree.parent k old hold).trans (by rw [hrole]; rfl)
    obtain ⟨v, n, hv, hle, hlt⟩ := nested.carried k old a i hold hrole
    -- Events that leave the loop alone.
    have hsame (hcarry : (loopCarryAfter s e).lookup a = s.loopCarry.lookup a)
        (hnot : ∀ run output, e ≠ .scopeCompleted run k output) :
        ∃ v n, (loopCarryAfter s e).lookup a = some (v, n) ∧ i ≤ n ∧
          ((old.after e k).status.isCompleted = true → i < n) := by
      refine ⟨v, n, hcarry.trans hv, hle, fun hdone => ?_⟩
      rcases completed_after_cases hdone with hdone | ⟨run, output, hcompleted⟩
      · exact hlt hdone
      · exact absurd hcompleted (hnot run output)
    cases e with
    | scopeOpened run k' parent role input =>
      cases role with
      | loopBody b j =>
        by_cases hab : a = b
        · subst hab
          obtain ⟨act, node, -, -, -, -, -, hothers⟩ := nesting.2 a placed.2.1
          have hindex : old.role.index < j := (hothers rfl k old hold hparent).2
          rw [hrole] at hindex
          exact ⟨input, j, by simp [loopCarryAfter], Nat.le_of_lt hindex, fun _ => hindex⟩
        · exact hsame (by simp [loopCarryAfter, hab]) (by simp)
      | _ => exact hsame rfl (by simp)
    | scopeCompleted run k' output =>
      by_cases hkk : k = k'
      · subst hkk
        exact ⟨output, i + 1, by simp [loopCarryAfter, hold, hrole], Nat.le_succ i,
          fun _ => Nat.lt_succ_self i⟩
      · have hnot : ∀ run' output', DomainEvent.scopeCompleted run k' output ≠
            .scopeCompleted run' k output' := by
          intro run' output' heq
          exact hkk (DomainEvent.scopeCompleted.inj heq).2.1.symm
        cases hk' : s.scopes.lookup k' with
        | none => exact hsame (by simp [loopCarryAfter, hk']) hnot
        | some sc' =>
          cases hrole' : sc'.role with
          | loopBody b j =>
            by_cases hab : a = b
            · subst hab
              -- The body that completes is the last one.
              have hparent' : sc'.parent = some a :=
                (tree.parent k' sc' hk').trans (by rw [hrole']; rfl)
              obtain ⟨-, hindex⟩ := nested.last a k' k sc' old hk' hold hparent' hparent
                (fun h => hkk h.symm) (by rw [hrole']; rfl) (nesting.1 sc' hk')
              rw [hrole, hrole'] at hindex
              have hindex : i < j := hindex
              refine ⟨output, j + 1, by simp [loopCarryAfter, hk', hrole'], by omega,
                fun _ => by omega⟩
            · exact hsame (by simp [loopCarryAfter, hk', hrole', hab]) hnot
          | _ => exact hsame (by simp [loopCarryAfter, hk', hrole']) hnot
    | guardRecorded run b cont j carry =>
      by_cases hab : a = b
      · subst hab
        have hindex : i < j := (hlt (nesting.1 k old hold hparent)).trans_le (nesting.2 v n hv)
        exact ⟨carry, j, by simp [loopCarryAfter], Nat.le_of_lt hindex, fun _ => hindex⟩
      · exact hsame (by simp [loopCarryAfter, hab]) (by simp)
    | _ => exact hsame rfl (by simp)
  · replace hrole : role = .loopBody a i := hrole
    subst hrole
    exact ⟨input, i, by simp [loopCarryAfter], Nat.le_refl i, fun hdone => by cases hdone⟩

include tree placed nesting nested in
theorem Nested.parents_evolve (hk : (evolve s e).scopes.lookup k = some sc)
    (hparent : sc.parent = some a) (ha : (evolve s e).activations.lookup a = some act) :
    act.role = .forward := by
  have hkept {oldAct : ActivationState} (hold : s.activations.lookup a = some oldAct)
      (hrole : oldAct.role = .forward) : act.role = .forward := by
    obtain rfl := Option.mem_unique ha (placed.activation hold)
    exact hrole
  rcases scope_after_cases hk with ⟨old, hold, rfl⟩ | ⟨run, parent, role, input, rfl, rfl⟩
  · obtain ⟨oldAct, holdAct, -⟩ := tree.parent_exists hold hparent
    exact hkept holdAct (nested.parents k old a oldAct hold hparent holdAct)
  · obtain ⟨oldAct, oldNode, holdAct, hrole, -⟩ := nesting.2 a hparent
    exact hkept holdAct hrole

/-- Nothing hangs from an activation that is not open. -/
theorem Nesting.barren (nesting : Nesting s e) (h : s.activations.lookup a = some act)
    (hopen : act.status ≠ .open) (barren : Barren s a) :
    Barren (evolve s e) a := by
  intro k sc hk hparent
  rcases scope_after_cases hk with ⟨old, hold, rfl⟩ | ⟨run, parent, role, input, rfl, rfl⟩
  · exact barren k old hold hparent
  · obtain ⟨act', node, hact', -, hstatus, -⟩ := nesting.2 a hparent
    obtain rfl := Option.mem_unique h hact'
    exact hopen hstatus

/-- An activation that is woken has nothing hanging from it. -/
theorem Nesting.barren_of_wakes (nesting : Nesting s e) (h : e.wakes? = some a) : Barren s a := by
  cases e with
  | waitOpened run w b signal key deadline consumeFrom =>
    obtain rfl := Option.some.inj h
    exact nesting.2
  | leafFailed run b attempt code message retry =>
    cases retry with
    | true =>
      obtain rfl := Option.some.inj h
      exact nesting.2
    | false => cases h
  | _ => cases h

/-- Waking an activation opens no scope. -/
theorem barren_of_wakes {b : ActivationId} (h : e.wakes? = some a) (barren : Barren s b) :
    Barren (evolve s e) b := by
  intro k sc hk hparent
  rcases scope_after_cases hk with ⟨old, hold, rfl⟩ | ⟨run, parent, role, input, rfl, rfl⟩
  · exact barren k old hold hparent
  · cases h

/-- Where a ready activation comes from. -/
theorem ready_of_statusAfter (h : statusAfter s e a act = .ready) :
    act.status = .ready ∨ e.wakes? = some a := by
  rcases statusAfter_cases s e a act with hwakes | hstatus | hstatus | hstatus
  · exact .inr hwakes
  · exact .inl (hstatus ▸ h)
  all_goals simp [hstatus] at h

include tree placed in
/-- An activation with a child was there before. -/
theorem parent_before (hk : (evolve s e).scopes.lookup k = some sc) (hparent : sc.parent = some a) :
    ∃ act, s.activations.lookup a = some act := by
  rcases scope_after_cases hk with ⟨old, hold, rfl⟩ | ⟨run, parent, role, input, rfl, rfl⟩
  · obtain ⟨act, hact, -⟩ := tree.parent_exists hold hparent
    exact ⟨act, hact⟩
  · obtain ⟨act, -, hact, -⟩ := placed.2.2.2 a hparent
    exact ⟨act, hact⟩

include tree placed nesting nested tokens in
theorem Nested.barren_evolve (ha : (evolve s e).activations.lookup a = some act)
    (h : act.status = .ready ∨ Awaited (evolve s e) a) : Barren (evolve s e) a := by
  rcases activation_after_cases ha with ⟨old, hold, rfl⟩ | ⟨_, _, _, rfl, -⟩ |
    ⟨_, _, _, _, _, _, _, _, rfl, -⟩
  · have hbefore : (old.status = .ready ∨ Awaited s a) ∨ e.wakes? = some a := by
      rcases h with hready | hawaited
      · exact (ready_of_statusAfter hready).imp_left .inl
      · exact (awaited_of_evolve hawaited).imp_left .inr
    rcases hbefore with hbefore | hwakes
    · refine nesting.barren hold ?_ (nested.barren a old hold hbefore)
      rcases hbefore with hready | hawaited
      · simp [hready]
      · exact fun hopen => tokens.not_awaited_of_open hold hopen hawaited
    · exact barren_of_wakes hwakes (nesting.barren_of_wakes hwakes)
  · intro k sc hk hparent
    obtain ⟨act', hact'⟩ := parent_before tree placed hk hparent
    rw [placed.1] at hact'
    cases hact'
  · intro k sc hk hparent
    obtain ⟨act', hact'⟩ := parent_before tree placed hk hparent
    rw [placed.1] at hact'
    cases hact'

/-- An activation that fails was at work, or nothing hangs from it. -/
theorem Nesting.failed_cases (nesting : Nesting s e) (h : statusAfter s e a act = .failed) :
    act.status = .failed ∨ Live act ∨ Barren s a := by
  have hunfinished (h : act.status ≠ .succeeded) :
      act.status = .failed ∨ Live act ∨ Barren s a := by
    cases hstatus : act.status with
    | «open» => exact .inr (.inl (.inl hstatus))
    | ready => exact .inr (.inl (.inr hstatus))
    | succeeded => exact absurd hstatus h
    | failed => exact .inl rfl
  cases e with
  | leafFailed run b attempt code message retry =>
    by_cases hab : a = b
    · exact .inr (.inr (hab ▸ nesting.2))
    · simp only [statusAfter, if_neg hab] at h
      exact .inl h
  | waitCancelled run w =>
    by_cases hw : (s.waits.lookup w).map (·.activation) = some a
    · obtain ⟨wait, hwait, rfl⟩ := Option.map_eq_some_iff.mp hw
      exact .inr (.inr (nesting wait hwait).2)
    · simp only [statusAfter, if_neg hw] at h
      exact .inl h
  | scopeFailed | runFailed =>
    simp only [statusAfter] at h
    split at h
    · next hk => exact hunfinished hk.2
    · exact .inl h
  | _ =>
    simp only [statusAfter] at h
    first
      | exact .inl h
      | (split at h <;> first | exact .inl h | cases h)

include tokens tokened nesting nested in
theorem Nested.stuck_evolve {b : ActivationId} {act' : ActivationState}
    (ha : (evolve s e).activations.lookup a = some act)
    (hb : (evolve s e).activations.lookup b = some act') (hrole : act.role = .forward)
    (hrole' : act'.role = .forward) (hscope : act.scope = act'.scope)
    (hfailed : act.status = .failed) (hchildren : ¬ Barren (evolve s e) a) :
    ¬ Active (evolve s e) b act' := by
  intro hactive
  rcases activation_after_cases ha with ⟨old, hold, rfl⟩ |
    ⟨_, _, _, -, -, -, -, -, -, -, hstatus⟩ | ⟨_, _, _, _, _, _, _, _, -, -, -, -, -, -, hcomp, -⟩
  · have hbefore : ¬ Barren s a := by
      intro barren
      by_cases hopen : old.status = .open
      · -- An open activation has not failed by opening a scope.
        refine hchildren fun k sc hk hparent => ?_
        rcases scope_after_cases hk with ⟨oldScope, holdScope, rfl⟩ | ⟨_, _, _, _, rfl, -⟩
        · exact barren k oldScope holdScope hparent
        · rw [show old.status = .failed from hfailed] at hopen
          cases hopen
      · exact hchildren (nesting.barren hold hopen barren)
    rcases active_after_cases hb hrole' hactive with ⟨old', hold', rfl, hwas⟩ | ⟨run, hopened⟩
    · have hwas : Active s b old' := hwas.elim id (tokened.active_of_wakes hold')
      rcases nesting.failed_cases hfailed with hstatus | hlive | barren
      · exact nested.stuck a b old old' hold hold' hrole hrole' hscope hstatus hbefore hwas
      · -- The token was at the activation itself, and is there no longer.
        obtain rfl := tokens.alone a b old old' hold hold' hrole hrole' (.inl hlive) hwas hscope
        obtain rfl := Option.mem_unique hold hold'
        have hawaited : Awaited (evolve s e) a := by
          refine hactive.resolve_left fun hlive => ?_
          rcases hlive with h | h <;> rw [hfailed] at h <;> cases h
        rcases awaited_of_evolve hawaited with hawaited | hwakes
        · exact hbefore (nested.barren a old hold (.inr hawaited))
        · exact hbefore (nesting.barren_of_wakes hwakes)
      · exact hbefore barren
    · subst hopened
      exact hbefore (nesting.2 a old hold hscope hrole hfailed)
  · rw [hfailed] at hstatus
    split at hstatus <;> cases hstatus
  · rw [hrole] at hcomp
    cases hcomp

/-- Completed scopes of a role stay. -/
theorem CompletedWith.kept {output : Value} (h : CompletedWith s role output)
    (nesting : Nesting s e) (placed : Placed s e) : CompletedWith (evolve s e) role output := by
  obtain ⟨k, sc, hk, hrole, hdone⟩ := h
  exact ⟨k, _, placed.scope hk, hrole, (nesting.completed_kept hk (by rw [hdone]; rfl)).trans hdone⟩

/-- The scope that completes is completed afterwards. -/
theorem completedWith_evolve {run : RunId} {output : Value} (hk : s.scopes.lookup k = some sc) :
    CompletedWith (evolve s (.scopeCompleted run k output)) sc.role output := by
  refine ⟨k, sc.after (.scopeCompleted run k output) k, ?_, rfl, ?_⟩
  · simp [lookup_scopes_evolve, scopeAfter, newScope, hk]
  · simp [ScopeState.after, scopeStatusAfter]

/-- Results that are recorded belong to completed scopes. -/
theorem gathered_evolve {κ : Type} {child? : ScopeRole → Option (ActivationId × κ)}
    {record : κ → Value → List (κ × Value) → List (κ × Value)}
    {table : Table ActivationId (List (κ × Value))} {role : κ → ScopeRole}
    (placed : Placed s e) (nesting : Nesting s e)
    (hrole : ∀ {r i}, child? r = some (a, i) → r = role i)
    (htakes : ∀ i output slot, TakesIn i (slot.map (·.1)) ((record i output slot).map (·.1)))
    (hmem : ∀ i output slot, ∀ e ∈ record i output slot, e = (i, output) ∨ e ∈ slot)
    (hdone : Gathered s role ((table.lookup a).getD [])) :
    Gathered (evolve s e) role (((doneAfter s child? record table e).lookup a).getD []) := by
  rcases done_after_cases s child? record table e a with
    heq | ⟨run, k, output, sc, i, rfl, hsc, hchild, heq⟩ <;> rw [heq]
  · exact ⟨hdone.1, fun r hr => (hdone.2 r hr).kept nesting placed⟩
  · refine ⟨(htakes i output _).nodup hdone.1, fun r hr => ?_⟩
    rcases hmem i output _ r hr with rfl | hr
    · exact hrole hchild ▸ completedWith_evolve hsc
    · exact (hdone.2 r hr).kept nesting placed

/-- Events that respect the nesting keep it. -/
theorem Nested.evolve (tree : Tree s) (placed : Placed s e) (tokens : Tokens s)
    (tokened : Tokened s e) (nesting : Nesting s e) (nested : Nested s) : Nested (evolve s e) where
  unique _ _ _ _ := nested.unique_evolve nesting
  fits _ _ _ _ _ := nested.fits_evolve tree placed nesting
  above _ _ _ _ := nested.above_evolve tree placed nesting
  within _ _ := nested.within_evolve placed nesting
  parents _ _ _ _ := nested.parents_evolve tree placed nesting
  barren _ _ := nested.barren_evolve tree placed tokens nesting
  stuck _ _ _ _ := nested.stuck_evolve tokens tokened nesting
  last _ _ _ _ _ := nested.last_evolve nesting
  carried _ _ _ _ := nested.carried_evolve tree placed nesting
  items a := by
    rw [(evolve_results s e).1]
    refine gathered_evolve placed nesting (fun {r i} hr => ?_) takesIn_recordItem
      mem_recordItem (nested.items a)
    cases r <;> cases hr
    rfl
  branches a := by
    rw [(evolve_results s e).2]
    refine gathered_evolve placed nesting (fun {r i} hr => ?_) takesIn_recordBranch
      mem_recordBranch (nested.branches a)
    cases r <;> cases hr
    rfl

end Evolve

/-! ## Other changes -/

theorem Quiet.awaited (change : Quiet s s') (h : Awaited s' a) :
    Awaited s a := by
  obtain ⟨w, wait, hw, hact, hpending⟩ := h
  exact ⟨w, wait, change.waits hw, hact, hpending⟩

/-- The children of an activation that is not removed with a run are not removed either. -/
theorem CompletedWith.dropRun {gone : RunId} {output : Value} (h : CompletedWith s role output)
    (tree : Tree s) (hrole : role.activation? = some a)
    (hleft : (!(s.activations.lookup a).any fun act => act.run = gone) = true) :
    CompletedWith (dropRun s gone) role output := by
  obtain ⟨k, sc, hk, hsc, hdone⟩ := h
  refine ⟨k, sc, ?_, hsc, hdone⟩
  have hparent : sc.parent = some a := (tree.parent k sc hk).trans (hsc ▸ hrole)
  obtain ⟨act, hact, hrun⟩ := tree.parent_exists hk hparent
  have hne : act.run ≠ gone := by simpa [hact] using hleft
  rw [hrun] at hne
  simp [Graphrun.dropRun, Table.lookup_retain, hk, hne]

theorem Gathered.dropRun {κ : Type} {gone : RunId} {role : κ → ScopeRole}
    {table : Table ActivationId (List (κ × Value))}
    (h : Gathered s role ((table.lookup a).getD [])) (tree : Tree s)
    (hrole : ∀ i, (role i).activation? = some a) :
    Gathered (dropRun s gone) role (((table.retain fun a _ =>
      !(s.activations.lookup a).any fun act => act.run = gone).lookup a).getD []) := by
  rw [Table.lookup_retain]
  cases hlookup : table.lookup a with
  | none => exact ⟨List.nodup_nil, List.forall_mem_nil _⟩
  | some done =>
    rw [hlookup] at h
    simp only [Option.filter]
    split
    · next hleft => exact ⟨h.1, fun e he => (h.2 e he).dropRun tree (hrole e.1) hleft⟩
    · exact ⟨List.nodup_nil, List.forall_mem_nil _⟩

theorem Nested.quiet (change : Quiet s s') (tree : Tree s) (nested : Nested s) : Nested s' := by
  have tree' := tree.quiet change
  refine ⟨?_, ?_, ?_, ?_, ?_, ?_, ?_, ?_, ?_, ?_, ?_⟩
  · exact fun k k' sc sc' hk hk' =>
      nested.unique k k' sc sc' (change.scopes hk) (change.scopes hk')
  · intro k sc a act node hk hparent ha hnode
    obtain ⟨sc₀, hsc₀, hrun₀⟩ := tree'.placed a act ha
    obtain ⟨r, hr⟩ := quiet_run_of_scope tree change hsc₀
    rw [hrun₀] at hr
    rw [tree.node_kept (keeps_quiet change hr) (change.activations ha) ha] at hnode
    exact nested.fits k sc a act node (change.scopes hk) hparent
      (change.activations ha) hnode
  · exact fun k sc a act hk hparent ha =>
      nested.above k sc a act (change.scopes hk) hparent (change.activations ha)
  · intro a act ha hunsettled act' sc ha' hk
    exact nested.within a act (change.activations ha)
      (hunsettled.imp_right change.awaited) act' sc (change.activations ha')
      (change.scopes hk)
  · exact fun k sc a act hk hparent ha =>
      nested.parents k sc a act (change.scopes hk) hparent (change.activations ha)
  · intro a act ha h k sc hk
    exact nested.barren a act (change.activations ha) (h.imp_right change.awaited) k sc
      (change.scopes hk)
  · intro a b act act' ha hb hrole hrole' hscope hfailed hchildren hactive
    refine nested.stuck a b act act' (change.activations ha) (change.activations hb)
      hrole hrole' hscope hfailed (fun barren => hchildren fun k sc hk => ?_)
      (hactive.imp_right change.awaited)
    exact barren k sc (change.scopes hk)
  · exact fun a k k' sc sc' hk hk' =>
      nested.last a k k' sc sc' (change.scopes hk) (change.scopes hk')
  · intro k sc a i hk hrole
    obtain ⟨v, n, hv, hn⟩ := nested.carried k sc a i (change.scopes hk) hrole
    refine ⟨v, n, ?_, hn⟩
    cases change with
    | admitted | stamped | dropped => exact hv
    | @retired gone =>
      have hparent : sc.parent = some a := (tree'.parent k sc hk).trans (by rw [hrole]; rfl)
      obtain ⟨act, hact, hrun⟩ := tree'.parent_exists hk hparent
      rw [dropRun, Table.lookup_retain, Option.filter_eq_some_iff] at hact
      have hne : act.run ≠ gone := of_decide_eq_true hact.2
      simp [dropRun, Table.lookup_retain, hv, hact.1, hne]
  · intro a
    cases change with
    | admitted | stamped | dropped => exact nested.items a
    | retired => exact (nested.items a).dropRun tree fun _ => rfl
  · intro a
    cases change with
    | admitted | stamped | dropped => exact nested.branches a
    | retired => exact (nested.branches a).dropRun tree fun _ => rfl

theorem nested_empty (clusterId : String) : Nested (State.empty clusterId).toCore where
  unique _ _ _ _ h := by cases h
  fits _ _ _ _ _ h := by cases h
  above _ _ _ _ h := by cases h
  within _ _ h := by cases h
  parents _ _ _ _ h := by cases h
  barren _ _ h := by cases h
  stuck _ _ _ _ h := by cases h
  last _ _ _ _ _ h := by cases h
  carried _ _ _ _ h := by cases h
  items _ := ⟨List.nodup_nil, List.forall_mem_nil _⟩
  branches _ := ⟨List.nodup_nil, List.forall_mem_nil _⟩

/-! ## What containers conclude from the nesting -/

/-- If the child that a loop, a `choose` or a saga looks at has completed, all of them have. -/
theorem Nested.allDone_of_lastDone (nested : Nested s)
    (hjoins : ∀ k sc, s.scopes.lookup k = some sc → sc.parent = some a → sc.role.joins = false)
    (h : LastDone o s a) : AllDone s a := by
  intro k sc hk hparent
  by_contra hopen
  rw [Bool.not_eq_true] at hopen
  have hmem : sc ∈ childrenOf o s a := mem_childrenOf.mpr ⟨⟨k, hk⟩, hparent⟩
  cases hchild : childOf o s a with
  | none =>
    rw [childOf_none hchild] at hmem
    cases hmem
  | some child =>
    have hdone := h child hchild
    obtain ⟨hchildMem, -⟩ := childOf_eq_some hchild
    obtain ⟨⟨k', hk'⟩, hparent'⟩ := mem_childrenOf.mp hchildMem
    have hclosed : child.status ≠ .open := by
      intro hstatus
      rw [hstatus] at hdone
      cases hdone
    have hle := childOf_max hchild hclosed hmem
    have hne : k ≠ k' := by
      rintro rfl
      obtain rfl := Option.mem_unique hk hk'
      rw [hdone] at hopen
      cases hopen
    -- An unfinished child is the last one, but the last one has completed.
    obtain ⟨-, hlt⟩ := nested.last a k k' sc child hk hk' hparent hparent' hne
      (hjoins k sc hk hparent) hopen
    rw [childIndex_eq, childIndex_eq] at hle
    omega

end Graphrun
