import Graphrun.Engine.Placing

/-!
# One token in each scope

A scope runs its nodes one after the other: at any time one forward activation in it is at work.
An activation is at work (`Active`) when it is open or ready, and also when a wait of it is
pending, because the end of the wait opens the next node whatever has become of the activation.
`Tokens` says that there is one active activation in a scope at most. It is kept by events that
are `Tokened`: a new activation finds its scope without an active one, a wait is opened for an
open activation, and only a ready activation is retried.
-/

namespace Graphrun

open Lib

variable {env : Env} {o : Enumeration} {s s' : Core} {e : DomainEvent} {time : Nat} {ids : IdGen}
  {es : List DomainEvent} {a : ActivationId} {act : ActivationState} {run : RunId} {w : WaitId}
  {wait : WaitState}

/-! ## Active activations -/

def Live (act : ActivationState) : Prop := act.status = .open ∨ act.status = .ready

/-- An activation for which a wait is pending. -/
def Awaited (s : Core) (a : ActivationId) : Prop :=
  ∃ w wait, s.waits.lookup w = some wait ∧ wait.activation = a ∧ wait.pending = true

/-- An activation that is at work. -/
def Active (s : Core) (a : ActivationId) (act : ActivationState) : Prop := Live act ∨ Awaited s a

/-- An activation that has not succeeded or for which a wait is pending. -/
def Unsettled (s : Core) (a : ActivationId) (act : ActivationState) : Prop :=
  act.status ≠ .succeeded ∨ Awaited s a

/-- The activation that an event may set to work again. -/
def DomainEvent.wakes? : DomainEvent → Option ActivationId
  | .waitOpened _ _ a _ _ _ _ | .leafFailed _ a _ _ _ true => some a
  | _ => none

/-- The forward activation that an event opens. -/
def DomainEvent.opensForward? : DomainEvent → Option ActivationId
  | .activationOpened _ _ a _ => some a
  | _ => none

/-- An event that sets no forward activation to work. -/
def Calm (e : DomainEvent) : Prop := e.wakes? = none ∧ e.opensForward? = none

/-- An event that does not wake an activation leaves its status or ends it. -/
theorem statusAfter_cases (s : Core) (e : DomainEvent) (a : ActivationId) (act : ActivationState) :
    e.wakes? = some a ∨ statusAfter s e a act = act.status ∨ statusAfter s e a act = .succeeded ∨
      statusAfter s e a act = .failed := by
  cases e with
  | waitOpened run w b signal key deadline consumeFrom =>
    by_cases hab : a = b
    · exact .inl (by rw [hab]; rfl)
    · simp [statusAfter, hab]
  | leafFailed run b attempt code message retry =>
    by_cases hab : a = b
    · cases retry with
      | true => exact .inl (by rw [hab]; rfl)
      | false => simp [statusAfter, hab]
    · simp [statusAfter, hab]
  | _ =>
    first
      | exact .inr (.inl rfl)
      | (simp only [statusAfter]; split <;> simp)

theorem live_of_statusAfter (h : Live (act.after s e a)) : Live act ∨ e.wakes? = some a := by
  simp only [Live, ActivationState.after] at h ⊢
  rcases statusAfter_cases s e a act with hwakes | hstatus | hstatus | hstatus
  · exact .inr hwakes
  · exact .inl (hstatus ▸ h)
  all_goals simp [hstatus] at h

theorem awaited_of_evolve (h : Awaited (evolve s e) a) :
    Awaited s a ∨ e.wakes? = some a := by
  obtain ⟨w, wait, hw, hact, hpending⟩ := h
  rw [evolve_waits] at hw
  split at hw
  · rw [Table.lookup_insert_eq] at hw
    split at hw
    · obtain rfl := Option.some.inj hw
      exact .inr (by rw [← hact]; rfl)
    · exact .inl ⟨w, wait, hw, hact, hpending⟩
  iterate 3
    rw [Table.lookup_modify] at hw
    split at hw
    · obtain ⟨old, -, rfl⟩ := Option.map_eq_some_iff.mp hw
      cases hpending
    · exact .inl ⟨w, wait, hw, hact, hpending⟩
  · exact .inl ⟨w, wait, hw, hact, hpending⟩

/-- The wait that has been opened. -/
theorem wait_of_waitOpened {signal key : String} {deadline : Option Nat}
    {consumeFrom : ConsumeFrom} :
    ∃ wait, (evolve s (.waitOpened run w a signal key deadline consumeFrom)).waits.lookup w =
      some wait ∧ wait.activation = a ∧ wait.pending = true := by
  rw [evolve_waits]
  simp only [Table.lookup_insert_eq, if_true, Option.some.injEq]
  exact ⟨_, rfl, rfl, rfl⟩

/-- Where an active forward activation comes from. -/
theorem active_after_cases (h : (evolve s e).activations.lookup a = some act)
    (hrole : act.role = .forward) (hactive : Active (evolve s e) a act) :
    (∃ old, s.activations.lookup a = some old ∧ act = old.after s e a ∧
      (Active s a old ∨ e.wakes? = some a)) ∨
      ∃ run, e = .activationOpened run act.scope a act.node := by
  rcases activation_after_cases h with ⟨old, hold, rfl⟩ |
    ⟨run, scope, node, rfl, -, -, rfl, rfl, -⟩ |
    ⟨_, _, _, _, _, _, _, _, rfl, -, -, -, -, -, hcomp, -⟩
  · refine .inl ⟨old, hold, rfl, ?_⟩
    rcases hactive with hlive | hawaited
    · exact (live_of_statusAfter hlive).imp_left .inl
    · exact (awaited_of_evolve hawaited).imp_left .inr
  · exact .inr ⟨run, rfl⟩
  · rw [hrole] at hcomp
    cases hcomp

/-- Calm events set nothing to work. -/
theorem active_of_calm (hes : ∀ e ∈ es, Calm e)
    (h : (evolveAll s es).activations.lookup a = some act) (hrole : act.role = .forward)
    (hactive : Active (evolveAll s es) a act) :
    ∃ old, s.activations.lookup a = some old ∧ old.role = .forward ∧ old.scope = act.scope ∧
      Active s a old := by
  induction es generalizing s with
  | nil => exact ⟨act, h, hrole, rfl, hactive⟩
  | cons e es ih =>
    obtain ⟨mid, hmid, hmidRole, hmidScope, hmidActive⟩ :=
      ih (fun e he => hes e (List.mem_cons_of_mem _ he)) h hactive
    obtain ⟨hwakes, hopens⟩ := hes e List.mem_cons_self
    rcases active_after_cases hmid hmidRole hmidActive with
      ⟨old, hold, rfl, hactive | hwoken⟩ | ⟨run, rfl⟩
    · exact ⟨old, hold, hmidRole, hmidScope, hactive⟩
    · rw [hwakes] at hwoken
      cases hwoken
    · cases hopens

/-! ## The invariant -/

/-- One active forward activation in a scope at most; pending waits belong to forward activations
of nodes that wait, which are not open any more, one for each. -/
structure Tokens (s : Core) : Prop where
  alone : ∀ a b act act', s.activations.lookup a = some act → s.activations.lookup b = some act' →
    act.role = .forward → act'.role = .forward → Active s a act → Active s b act' →
    act.scope = act'.scope → a = b
  waiting : ∀ w wait, s.waits.lookup w = some wait → wait.pending = true →
    ∃ act, s.activations.lookup wait.activation = some act ∧ act.role = .forward ∧
      act.run = wait.run ∧ act.status ≠ .open ∧ isActivityNode s act.scope act.node = false
  unique : ∀ w w' wait wait', s.waits.lookup w = some wait → s.waits.lookup w' = some wait' →
    wait.pending = true → wait'.pending = true → wait.activation = wait'.activation → w = w'
  roles : ∀ a act, s.activations.lookup a = some act →
    act.role = .forward ∨ act.role = .compensation

/-- What an event needs in order to keep one token in each scope. -/
def Tokened (s : Core) : DomainEvent → Prop
  | .activationOpened _ scope _ _ => ∀ b act, s.activations.lookup b = some act →
    act.role = .forward → act.scope = scope → ¬ Active s b act
  | .waitOpened run w a _ _ _ _ => s.waits.lookup w = none ∧
    ∃ act, s.activations.lookup a = some act ∧ act.role = .forward ∧ act.run = run ∧
      act.status = .open ∧ isActivityNode s act.scope act.node = false
  | .leafFailed _ a _ _ _ true => ∀ act, s.activations.lookup a = some act → act.status = .ready
  | _ => True

theorem Tokens.not_awaited_of_open (tokens : Tokens s) (h : s.activations.lookup a = some act)
    (hopen : act.status = .open) : ¬ Awaited s a := by
  rintro ⟨w, wait, hw, rfl, hpending⟩
  obtain ⟨act', hact', -, -, hstatus, -⟩ := tokens.waiting w wait hw hpending
  obtain rfl := Option.mem_unique h hact'
  exact hstatus hopen

/-- An event that wakes an activation finds it active. -/
theorem Tokened.active_of_wakes (tokened : Tokened s e) (h : s.activations.lookup a = some act)
    (hwakes : e.wakes? = some a) : Active s a act := by
  cases e with
  | waitOpened run w b signal key deadline consumeFrom =>
    obtain rfl : b = a := Option.some.inj hwakes
    obtain ⟨-, act', hact', -, -, hopen, -⟩ := tokened
    obtain rfl := Option.mem_unique h hact'
    exact .inl (.inl hopen)
  | leafFailed run b attempt code message retry =>
    cases retry with
    | true =>
      obtain rfl : b = a := Option.some.inj hwakes
      exact .inl (.inr (tokened act h))
    | false => cases hwakes
  | _ => cases hwakes

/-- A wait that an event finds or opens. -/
theorem wait_after_cases (h : (evolve s e).waits.lookup w = some wait) :
    (∃ old, s.waits.lookup w = some old ∧ old.run = wait.run ∧
      old.activation = wait.activation) ∨ ∃ signal key deadline consumeFrom,
      e = .waitOpened wait.run w wait.activation signal key deadline consumeFrom := by
  rw [evolve_waits] at h
  split at h
  · rw [Table.lookup_insert_eq] at h
    split at h
    · next hw =>
      obtain rfl := Option.some.inj h
      exact .inr ⟨_, _, _, _, by rw [hw]⟩
    · exact .inl ⟨wait, h, rfl, rfl⟩
  iterate 3
    rw [Table.lookup_modify] at h
    split at h
    · obtain ⟨old, hold, rfl⟩ := Option.map_eq_some_iff.mp h
      exact .inl ⟨old, hold, rfl, rfl⟩
    · exact .inl ⟨wait, h, rfl, rfl⟩
  · exact .inl ⟨wait, h, rfl, rfl⟩

theorem waitState_after (h : (evolve s e).waits.lookup w = some wait)
    (hpending : wait.pending = true) :
    s.waits.lookup w = some wait ∨ ∃ signal key deadline consumeFrom,
      e = .waitOpened wait.run w wait.activation signal key deadline consumeFrom := by
  rw [evolve_waits] at h
  split at h
  · rw [Table.lookup_insert_eq] at h
    split at h
    · next hw =>
      obtain rfl := Option.some.inj h
      exact .inr ⟨_, _, _, _, by rw [hw]⟩
    · exact .inl h
  iterate 3
    rw [Table.lookup_modify] at h
    split at h
    · obtain ⟨old, -, rfl⟩ := Option.map_eq_some_iff.mp h
      cases hpending
    · exact .inl h
  · exact .inl h

/-! ## Activations that wait -/

/-- A forward activation of a run that may have waits: its node is not an activity, and it is not
open any more. -/
def Attends (s : Core) (run : RunId) (a : ActivationId) : Prop :=
  ∃ act, s.activations.lookup a = some act ∧ act.role = .forward ∧ act.run = run ∧
    act.status ≠ .open ∧ isActivityNode s act.scope act.node = false

theorem Attends.evolve (tree : Tree s) (placed : Placed s e) (h : Attends s run a) :
    Attends (evolve s e) run a := by
  obtain ⟨act, hact, hrole, hrun, hstatus, hnode⟩ := h
  refine ⟨_, placed.activation hact, hrole, hrun,
    fun hopen => hstatus (statusAfter_eq_open hopen), ?_⟩
  rw [isActivityNode, tree.node_kept (keeps_evolve placed act.run) hact
    (placed.activation hact)]
  exact hnode

/-- Opening a wait makes its activation one that waits. -/
theorem Attends.opened {signal key : String} {deadline : Option Nat} {consumeFrom : ConsumeFrom}
    (tree : Tree s)
    (h : ∃ act, s.activations.lookup a = some act ∧ act.role = .forward ∧ act.run = run ∧
      act.status = .open ∧ isActivityNode s act.scope act.node = false) :
    Attends (Graphrun.evolve s (.waitOpened run w a signal key deadline consumeFrom)) run a := by
  obtain ⟨act, hact, hrole, hrun, -, hnode⟩ := h
  have placed : Placed s (.waitOpened run w a signal key deadline consumeFrom) := trivial
  refine ⟨_, placed.activation hact, hrole, hrun, by simp [ActivationState.after, statusAfter], ?_⟩
  rw [isActivityNode, tree.node_kept (keeps_evolve placed act.run) hact
    (placed.activation hact)]
  exact hnode

/-- An activation goes with its waits. -/
theorem Attends.quiet (change : Quiet s s') (tree : Tree s) (hw : s'.waits.lookup w = some wait)
    (h : Attends s wait.run wait.activation) :
    Attends s' wait.run wait.activation := by
  obtain ⟨act, hact, hrole, hrun, hstatus, hnode⟩ := h
  have tree' := tree.quiet change
  have hact' : s'.activations.lookup wait.activation = some act := by
    cases change with
    | admitted | stamped | dropped => exact hact
    | @retired gone =>
      rw [dropRun, Table.lookup_retain, Option.filter_eq_some_iff] at hw
      have hne : wait.run ≠ gone := of_decide_eq_true hw.2
      simp [dropRun, Table.lookup_retain, hact, hrun, hne]
  refine ⟨act, hact', hrole, hrun, hstatus, ?_⟩
  obtain ⟨sc, hsc, hscRun⟩ := tree'.placed _ act hact'
  obtain ⟨r, hr⟩ := quiet_run_of_scope tree change hsc
  rw [hscRun] at hr
  rw [isActivityNode, tree.node_kept (keeps_quiet change hr) hact hact']
  exact hnode

/-! ## One token -/

theorem Tokens.evolve (tree : Tree s) (placed : Placed s e) (tokened : Tokened s e)
    (tokens : Tokens s) : Tokens (evolve s e) := by
  refine ⟨?_, ?_, ?_, ?_⟩
  · intro a b act act' ha hb hrole hrole' hactive hactive' hscope
    rcases active_after_cases ha hrole hactive with ⟨old, hold, rfl, hwas⟩ | ⟨run, rfl⟩ <;>
      rcases active_after_cases hb hrole' hactive' with ⟨old', hold', rfl, hwas'⟩ | ⟨run', hopened⟩
    · have hactive := hwas.elim id (tokened.active_of_wakes hold)
      have hactive' := hwas'.elim id (tokened.active_of_wakes hold')
      exact tokens.alone a b old old' hold hold' hrole hrole' hactive hactive' hscope
    · obtain rfl := hopened
      exact absurd (hwas.elim id nofun) (tokened a old hold hrole hscope)
    · exact absurd (hwas'.elim id nofun) (tokened b old' hold' hrole' hscope.symm)
    · exact Option.some.inj (congrArg DomainEvent.opensForward? hopened)
  · intro w wait hw hpending
    rcases waitState_after hw hpending with hw | ⟨_, _, _, _, rfl⟩
    · exact Attends.evolve tree placed (tokens.waiting w wait hw hpending)
    · exact Attends.opened tree tokened.2
  · intro w w' wait wait' hw hw' hpending hpending' hsame
    rcases waitState_after hw hpending with hold | ⟨_, _, _, _, rfl⟩ <;>
      rcases waitState_after hw' hpending' with hold' | ⟨_, _, _, _, hopened⟩
    · exact tokens.unique w w' wait wait' hold hold' hpending hpending' hsame
    · rw [hopened] at tokened
      obtain ⟨-, act, hact, -, -, hopen, -⟩ := tokened
      exact absurd ⟨w, wait, hold, hsame, hpending⟩ (tokens.not_awaited_of_open hact hopen)
    · obtain ⟨-, act, hact, -, -, hopen, -⟩ := tokened
      exact absurd ⟨w', wait', hold', hsame.symm, hpending'⟩ (tokens.not_awaited_of_open hact hopen)
    · simp only [DomainEvent.waitOpened.injEq] at hopened
      exact hopened.2.1
  · intro a act ha
    rcases activation_after_cases ha with ⟨old, hold, rfl⟩ |
      ⟨_, _, _, -, -, -, -, -, hrole, -⟩ | ⟨_, _, _, _, _, _, _, _, -, -, -, -, -, -, hrole, -⟩
    · exact tokens.roles a old hold
    · exact .inl hrole
    · exact .inr hrole

theorem Tokens.quiet (change : Quiet s s') (tree : Tree s) (tokens : Tokens s) : Tokens s' := by
  have hactive : ∀ a act, Active s' a act → Active s a act := by
    rintro a act (hlive | ⟨w, wait, hw, hact, hpending⟩)
    · exact .inl hlive
    · exact .inr ⟨w, wait, change.waits hw, hact, hpending⟩
  refine ⟨?_, ?_, ?_, fun a act ha => tokens.roles a act (change.activations ha)⟩
  · intro a b act act' ha hb hrole hrole' hactive₁ hactive₂
    exact tokens.alone a b act act' (change.activations ha) (change.activations hb) hrole
      hrole' (hactive a act hactive₁) (hactive b act' hactive₂)
  · intro w wait hw hpending
    exact Attends.quiet change tree hw (tokens.waiting w wait (change.waits hw) hpending)
  · intro w w' wait wait' hw hw'
    exact tokens.unique w w' wait wait' (change.waits hw) (change.waits hw')

theorem tokens_empty (clusterId : String) : Tokens (State.empty clusterId).toCore where
  alone _ _ _ _ h := by cases h
  waiting _ _ h := by cases h
  unique _ _ _ _ h := by cases h
  roles _ _ h := by cases h

end Graphrun
