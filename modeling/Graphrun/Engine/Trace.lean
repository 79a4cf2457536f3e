import Graphrun.Engine.Inversion
import Graphrun.Model.Publication

/-!
# The engine as a transition system

The abstract view of the engine: a state changes by decided steps, each of which is a move
whose events can be recorded, and by the few changes that no decision makes (a run is
created, its end is stamped, expired entries and ended runs are removed). `Trace` is the
behaviour of this transition system together with its clock. The commit path refines it:
whatever a member does with entries of the log is a trace (`Run.trace`).
-/

namespace Graphrun

open Lib

variable {env : Env} {o : Enumeration} {C : Step → Prop} {P : List DomainEvent → Core → Prop}
  {past : List DomainEvent}

/-! ## Changes -/

/-- An event that can be applied: its owner is known, its payload can be referred to and its
effect is defined. -/
def Recorded (env : Env) (s : Core) (e : DomainEvent) : Prop :=
  (∃ owner, eventOwner s e = .ok owner ∧
    ∀ run, owner = some run → ∃ cluster refs, ioReferences env s cluster run e = .ok refs) ∧
  evolvePanics s e = false

/-- Events each of which meets a condition in the state it is applied to. -/
def Guarded (G : Core → DomainEvent → Prop) : Core → List DomainEvent → Prop
  | _, [] => True
  | s, e :: es => G s e ∧ Guarded G (evolve s e) es

section Guarded

variable {G : Core → DomainEvent → Prop} {s : Core} {es es' : List DomainEvent}

theorem guarded_append :
    Guarded G s (es ++ es') ↔ Guarded G s es ∧ Guarded G (evolveAll s es) es' := by
  induction es generalizing s with
  | nil => simp [Guarded, evolveAll]
  | cons e es ih => simp [Guarded, evolveAll, ih, and_assoc]

theorem Guarded.of_all (h : ∀ e ∈ es, ∀ s, G s e) : Guarded G s es := by
  induction es generalizing s with
  | nil => trivial
  | cons e es ih =>
    exact ⟨h e List.mem_cons_self s, ih fun e he => h e (List.mem_cons_of_mem _ he)⟩

theorem Guarded.mono {H : Core → DomainEvent → Prop} (h : ∀ s e, G s e → H s e)
    (guarded : Guarded G s es) : Guarded H s es := by
  induction es generalizing s with
  | nil => trivial
  | cons e es ih => exact ⟨h s e guarded.1, ih guarded.2⟩

theorem Guarded.and {H : Core → DomainEvent → Prop} (h : Guarded G s es) (h' : Guarded H s es) :
    Guarded (fun s e => G s e ∧ H s e) s es := by
  induction es generalizing s with
  | nil => trivial
  | cons e es ih => exact ⟨⟨h.1, h'.1⟩, ih h.2 h'.2⟩

instance Guarded.decidable [∀ s e, Decidable (G s e)] :
    ∀ (s : Core) (es : List DomainEvent), Decidable (Guarded G s es)
  | _, [] => isTrue trivial
  | s, e :: es =>
    haveI := Guarded.decidable (evolve s e) es
    inferInstanceAs (Decidable (G s e ∧ Guarded G (evolve s e) es))

end Guarded

/-- Events that can be applied one after the other. -/
def Recordable (env : Env) : Core → List DomainEvent → Prop := Guarded (Recorded env)

/-- A step that the engine may take. Of replayed events nothing is known but that they can be
recorded; only a published start replays. -/
structure Decided (env : Env) (step : Step) : Prop where
  move : step.replayed = false →
    ∃ o, Move env o step.before step.time step.body step.events
  authorized : Authorized step.before step.time step.body
  recordable : Recordable env step.before step.events

/-- A change that no decision makes. -/
inductive Quiet : Core → Core → Prop
  | admitted {s : Core} {run : RunId} {definition : Definition} {catalog : Catalog}
      {published : Option PinnedPublication} (hnew : s.runs.lookup run = none) :
      Quiet s { s with runs := s.runs.insert run (newRun run definition catalog published) }
  | stamped {s : Core} {run : RunId} {time : Nat} :
      Quiet s (s.modifyRun run fun r => { r with terminalMs := time })
  | dropped {s : Core} {key : Option RunId × EventId} : Quiet s (dropInbox s key)
  | retired {s : Core} {run : RunId} {runState : RunState}
      (hrun : s.runs.lookup run = some runState) (hended : runState.status.isActive = false) :
      Quiet s (dropRun s run)

/-- The states that the engine passes through from a state and a clock on. -/
inductive Trace (env : Env) (s : Core) (clock : Nat) : List Step → Core → Nat → Prop
  | refl : Trace env s clock [] s clock
  | tick {log : List Step} {s' : Core} {t t' : Nat} (trace : Trace env s clock log s' t)
      (later : t ≤ t') : Trace env s clock log s' t'
  | quiet {log : List Step} {s' s'' : Core} {t : Nat} (trace : Trace env s clock log s' t)
      (change : Quiet s' s'') : Trace env s clock log s'' t
  | step {log : List Step} {step : Step} {t : Nat}
      (trace : Trace env s clock log step.before t) (later : t ≤ step.time)
      (decided : Decided env step) :
      Trace env s clock (log ++ [step]) step.after step.time

namespace Trace

variable {s s' s'' : Core} {t t' t'' : Nat} {log log' : List Step}

theorem trans (first : Trace env s t log s' t') (second : Trace env s' t' log' s'' t'') :
    Trace env s t (log ++ log') s'' t'' := by
  induction second with
  | refl => simpa using first
  | tick _ later ih => exact ih.tick later
  | quiet _ change ih => exact ih.quiet change
  | step _ later decided ih =>
    rw [← List.append_assoc]
    exact ih.step later decided

/-- A property of the steps taken and the state that every change keeps, and every step that
meets a condition, holds after a trace whose steps meet the condition and before each step. -/
theorem logInvariant {P : List Step → Core → Prop}
    (quiet : ∀ log s s', Quiet s s' → P log s → P log s')
    (step : ∀ log step, Decided env step → C step → P log step.before →
      P (log ++ [step]) step.after) (trace : Trace env s t log s' t') (initial : P [] s)
    (condition : ∀ step ∈ log, C step) :
    P log s' ∧ ∀ earlier step later, log = earlier ++ step :: later → P earlier step.before := by
  induction trace with
  | refl => exact ⟨initial, by simp⟩
  | tick _ _ ih => exact ih condition
  | quiet _ change ih =>
    obtain ⟨hp, hlog⟩ := ih condition
    exact ⟨quiet _ _ _ change hp, hlog⟩
  | @step log st t _ _ decided ih =>
    obtain ⟨hp, hlog⟩ := ih fun other hmem => condition other (List.mem_append_left _ hmem)
    refine ⟨step log st decided (condition st (by simp)) hp, ?_⟩
    intro earlier other later hsplit
    rcases List.eq_nil_or_concat later with rfl | ⟨later, last, rfl⟩
    · obtain ⟨rfl, hlast⟩ := List.append_inj' hsplit rfl
      obtain rfl := (List.cons.inj hlast).1
      exact hp
    · rw [List.concat_eq_append, ← List.cons_append, ← List.append_assoc] at hsplit
      exact hlog earlier other later (List.append_inj' hsplit rfl).1

/-- The same for a property of the state alone. -/
theorem invariant {P : Core → Prop} (quiet : ∀ s s', Quiet s s' → P s → P s')
    (step : ∀ step, Decided env step → C step → P step.before → P step.after)
    (trace : Trace env s t log s' t') (initial : P s) (condition : ∀ step ∈ log, C step) :
    P s' ∧ ∀ step ∈ log, P step.before := by
  obtain ⟨hp, hlog⟩ := trace.logInvariant (P := fun _ => P) (fun _ => quiet) (fun _ => step)
    initial condition
  refine ⟨hp, fun step hmem => ?_⟩
  obtain ⟨earlier, later, hsplit⟩ := List.append_of_mem hmem
  exact hlog earlier step later hsplit

/-- Every step of a trace is decided. -/
theorem decided (trace : Trace env s t log s' t') : ∀ step ∈ log, Decided env step := by
  induction trace with
  | refl => simp
  | tick _ _ ih => exact ih
  | quiet _ _ ih => exact ih
  | step _ _ hdecided ih =>
    intro other hmem
    rcases List.mem_append.mp hmem with hmem | hmem
    · exact ih other hmem
    · obtain rfl := List.mem_singleton.mp hmem
      exact hdecided

end Trace

/-! ## Events of a log -/

/-- The events of a log in order. -/
def eventsOf (log : List Step) : List DomainEvent := log.flatMap (·.events)

/-- An event of a log, with the events before it and the state it was applied to. -/
inductive Applied (log : List Step) : List DomainEvent → Core → DomainEvent → Prop
  | mk {earlier later : List Step} {step : Step} {before after : List DomainEvent}
      {e : DomainEvent} (hlog : log = earlier ++ step :: later)
      (hevents : step.events = before ++ e :: after) :
      Applied log (eventsOf earlier ++ before) (evolveAll step.before before) e

theorem Applied.past_sublist {log : List Step} {past : List DomainEvent} {core : Core}
    {e : DomainEvent} (h : Applied log past core e) : past.Sublist (eventsOf log) := by
  obtain ⟨rfl, hevents⟩ := h
  simp [eventsOf, hevents]

/-- Guarded events keep a property that each of them keeps. -/
theorem Guarded.invariant {G : Core → DomainEvent → Prop}
    (event : ∀ past s e, G s e → P past s → P (past ++ [e]) (evolve s e)) {es : List DomainEvent}
    {s : Core} (guarded : Guarded G s es) (initial : P past s) :
    P (past ++ es) (evolveAll s es) := by
  induction es generalizing past s with
  | nil => simpa [evolveAll] using initial
  | cons e es ih =>
    have hrest := ih guarded.2 (event past s e guarded.1 initial)
    rwa [List.append_assoc] at hrest

/-- The same for a property of the state alone. -/
theorem Guarded.keeps {G : Core → DomainEvent → Prop} {P : Core → Prop}
    (event : ∀ s e, G s e → P s → P (evolve s e)) {es : List DomainEvent} {s : Core}
    (guarded : Guarded G s es) (initial : P s) : P (evolveAll s es) := by
  induction es generalizing s with
  | nil => exact initial
  | cons e es ih => exact ih guarded.2 (event s e guarded.1 initial)

/-- And for a condition on the events alone. -/
theorem evolveAll_keeps {C : DomainEvent → Prop} {P : Core → Prop}
    (event : ∀ s e, C e → P s → P (evolve s e)) {es : List DomainEvent} {s : Core}
    (h : ∀ e ∈ es, C e) (initial : P s) : P (evolveAll s es) :=
  Guarded.keeps event (Guarded.of_all fun e he _ => h e he) initial

/-- Events each of which meets a condition on the events before it and the state it is applied
to. -/
def GuardedFrom (G : List DomainEvent → Core → DomainEvent → Prop) :
    List DomainEvent → Core → List DomainEvent → Prop
  | _, _, [] => True
  | past, s, e :: es => G past s e ∧ GuardedFrom G (past ++ [e]) (evolve s e) es

theorem GuardedFrom.of_all {G : List DomainEvent → Core → DomainEvent → Prop}
    {es : List DomainEvent} {s : Core} (h : ∀ e ∈ es, ∀ past s, G past s e) :
    GuardedFrom G past s es := by
  induction es generalizing past s with
  | nil => trivial
  | cons e es ih =>
    obtain ⟨he, hes⟩ := List.forall_mem_cons.mp h
    exact ⟨he past s, ih hes⟩

theorem GuardedFrom.and {G H : List DomainEvent → Core → DomainEvent → Prop}
    {es : List DomainEvent} {s : Core} (h : GuardedFrom G past s es)
    (h' : GuardedFrom H past s es) :
    GuardedFrom (fun past s e => G past s e ∧ H past s e) past s es := by
  induction es generalizing past s with
  | nil => trivial
  | cons e es ih => exact ⟨⟨h.1, h'.1⟩, ih h.2 h'.2⟩

/-- With a property that the guard keeps, it meets any condition that follows from both. -/
theorem Guarded.from_invariant {G : Core → DomainEvent → Prop} {P : Core → Prop}
    {H : List DomainEvent → Core → DomainEvent → Prop}
    (event : ∀ s e, G s e → P s → P (evolve s e))
    (imp : ∀ past s e, P s → G s e → H past s e) {es : List DomainEvent} {s : Core}
    (guarded : Guarded G s es) (initial : P s) : GuardedFrom H past s es := by
  induction es generalizing past s with
  | nil => trivial
  | cons e es ih =>
    exact ⟨imp past s e initial guarded.1, ih guarded.2 (event s e guarded.1 initial)⟩

theorem GuardedFrom.invariant {G : List DomainEvent → Core → DomainEvent → Prop}
    (event : ∀ past s e, G past s e → P past s → P (past ++ [e]) (evolve s e))
    {es : List DomainEvent} {s : Core} (guarded : GuardedFrom G past s es) (initial : P past s) :
    P (past ++ es) (evolveAll s es) := by
  induction es generalizing past s with
  | nil => simpa [evolveAll] using initial
  | cons e es ih =>
    have hrest := ih guarded.2 (event past s e guarded.1 initial)
    rwa [List.append_assoc] at hrest

/-- A property of the events so far and the state that every change keeps, and every event
that meets a guard, holds after a trace whose steps are guarded as long as it holds. Wherever
an event of the trace was applied, the property and the guard held. -/
theorem Trace.eventInvariant {G : Core → DomainEvent → Prop} {s s' : Core} {t t' : Nat}
    {log : List Step} (quiet : ∀ past s s', Quiet s s' → P past s → P past s')
    (event : ∀ past s e, G s e → P past s → P (past ++ [e]) (evolve s e))
    (guarded : ∀ past step, Decided env step → C step → P past step.before →
      Guarded G step.before step.events) (trace : Trace env s t log s' t') (initial : P [] s)
    (condition : ∀ step ∈ log, C step) :
    P (eventsOf log) s' ∧
      ∀ past core e, Applied log past core e → P past core ∧ G core e := by
  obtain ⟨hp, hlog⟩ := trace.logInvariant (P := fun log => P (eventsOf log))
    (fun log => quiet (eventsOf log))
    (fun log step hdecided hc hp => by
      have hafter := (guarded _ step hdecided hc hp).invariant event hp
      simpa [eventsOf, Step.after] using hafter)
    initial condition
  refine ⟨hp, ?_⟩
  rintro _ _ e ⟨rfl, hevents⟩
  rename_i earlier later step before after
  have hbefore := hlog earlier step later rfl
  have hdecided := trace.decided step (by simp)
  have hguarded := guarded _ step hdecided (condition step (by simp)) hbefore
  rw [hevents, guarded_append] at hguarded
  exact ⟨hguarded.1.invariant event hbefore, hguarded.2.1⟩

/-! ## Keys -/

theorem newActivation_id {s : Core} {e : DomainEvent} {k : ActivationId} {act : ActivationState}
    (h : activationAfter s e k = some act) (hold : ∀ act, s.activations.lookup k = some act →
      act.id = k) : act.id = k := by
  unfold activationAfter at h
  split at h
  · next new hnew =>
    obtain rfl := Option.some.inj h
    simpa using (Option.filter_eq_some_iff.mp hnew).2
  · obtain ⟨old, hlookup, rfl⟩ := Option.map_eq_some_iff.mp h
    exact hold old hlookup

theorem Keyed.evolve {s : Core} (keyed : Keyed s) (e : DomainEvent) : Keyed (evolve s e) where
  runs k run h := by
    rw [lookup_runs_evolve] at h
    obtain ⟨old, hold, rfl⟩ := Option.map_eq_some_iff.mp h
    have hid : (RunState.after s e k old).id = old.id := by
      cases e <;> simp only [RunState.after] <;> split <;> rfl
    rw [hid]
    exact keyed.runs k old hold
  scopes k scope h := by
    rw [lookup_scopes_evolve] at h
    unfold scopeAfter at h
    split at h
    · next new hnew =>
      obtain rfl := Option.some.inj h
      simpa using (Option.filter_eq_some_iff.mp hnew).2
    · obtain ⟨old, hold, rfl⟩ := Option.map_eq_some_iff.mp h
      exact keyed.scopes k old hold
  activations k act h := by
    rw [lookup_activations_evolve] at h
    exact newActivation_id h fun old hold => keyed.activations k old hold
  waits k wait h := by
    rw [evolve_waits] at h
    split at h
    · rw [Table.lookup_insert_eq] at h
      split at h
      · next hk =>
        obtain rfl := Option.some.inj h
        exact hk.symm
      · exact keyed.waits k wait h
    iterate 3
      rw [Table.lookup_modify] at h
      split at h
      · obtain ⟨old, hold, rfl⟩ := Option.map_eq_some_iff.mp h
        exact keyed.waits k old hold
      · exact keyed.waits k wait h
    · exact keyed.waits k wait h

theorem Keyed.evolveAll {s : Core} (keyed : Keyed s) (es : List DomainEvent) :
    Keyed (evolveAll s es) :=
  evolveAll_keeps (C := fun _ => True) (fun _ e _ keyed => keyed.evolve e)
    (fun _ _ => trivial) keyed

section Quiet

variable {s s' : Core} (change : Quiet s s')

include change

theorem Quiet.scopes {k : ScopeId} {sc : ScopeState} (h : s'.scopes.lookup k = some sc) :
    s.scopes.lookup k = some sc := by
  cases change with
  | admitted | stamped | dropped => exact h
  | retired => exact Table.lookup_of_retain h

theorem Quiet.activations {a : ActivationId} {act : ActivationState}
    (h : s'.activations.lookup a = some act) : s.activations.lookup a = some act := by
  cases change with
  | admitted | stamped | dropped => exact h
  | retired => exact Table.lookup_of_retain h

theorem Quiet.waits {w : WaitId} {wait : WaitState} (h : s'.waits.lookup w = some wait) :
    s.waits.lookup w = some wait := by
  cases change with
  | admitted | stamped | dropped => exact h
  | retired => exact Table.lookup_of_retain h

end Quiet

theorem Keyed.quiet {s s' : Core} (change : Quiet s s') (keyed : Keyed s) : Keyed s' := by
  refine ⟨?_, fun k sc h => keyed.scopes k sc (change.scopes h),
    fun a act h => keyed.activations a act (change.activations h),
    fun w wait h => keyed.waits w wait (change.waits h)⟩
  intro k run h
  cases change with
  | admitted hnew =>
    rw [Table.lookup_insert_eq] at h
    split at h
    · next hk =>
      obtain rfl := Option.some.inj h
      exact hk.symm
    · exact keyed.runs k run h
  | stamped =>
    simp only [Core.modifyRun, Table.lookup_modify] at h
    split at h
    · obtain ⟨old, hold, rfl⟩ := Option.map_eq_some_iff.mp h
      exact keyed.runs k old hold
    · exact keyed.runs k run h
  | dropped => exact keyed.runs k run h
  | retired =>
    simp only [dropRun, Table.lookup_erase_eq] at h
    split at h
    · cases h
    · exact keyed.runs k run h

theorem Trace.keyed {s s' : Core} {t t' : Nat} {log : List Step}
    (trace : Trace env s t log s' t') (keyed : Keyed s) :
    Keyed s' ∧ ∀ step ∈ log, Keyed step.before :=
  trace.invariant (fun _ _ change => Keyed.quiet change)
    (fun step _ (_ : True) hbefore => Keyed.evolveAll hbefore step.events) keyed
    (fun _ _ => trivial)

/-! ## Identities -/

/-- The scope that an event opens. -/
def DomainEvent.opensScope? : DomainEvent → Option ScopeId
  | .scopeOpened _ scope _ _ _ => some scope
  | _ => none

/-- The activation that an event opens. -/
def DomainEvent.opensActivation? : DomainEvent → Option ActivationId
  | .activationOpened _ _ a _ | .compensationStarted _ _ _ a _ _ _ _ => some a
  | _ => none

/-- The wait that an event opens. -/
def DomainEvent.opensWait? : DomainEvent → Option WaitId
  | .waitOpened _ w _ _ _ _ _ => some w
  | _ => none

/-- An event that opens again, under its own identity, an activity's activation that is open. -/
def Core.reopens (s : Core) : DomainEvent → Bool
  | .activationOpened _ scope a node => (s.activations.lookup a).any fun act =>
      act.scope = scope ∧ act.node = node ∧ act.status = .open ∧ isActivityNode s scope node
  | _ => false

/-- A step that gives out unused identities only. They are digests of the command's id and a
counter, cut to the length of an id; nothing in the engine compares them with those in use.
An activation that is opened again is given no new one. -/
@[mk_iff]
structure Fresh (step : Step) : Prop where
  unreplayed : step.replayed = false
  scopes : ∀ e ∈ step.events, ∀ k ∈ e.opensScope?, step.before.scopes.lookup k = none
  activations : ∀ e ∈ step.events, step.before.reopens e = false →
    ∀ a ∈ e.opensActivation?, step.before.activations.lookup a = none
  waits : ∀ e ∈ step.events, ∀ w ∈ e.opensWait?, step.before.waits.lookup w = none
  distinct : (step.events.filterMap DomainEvent.opensActivation?).Nodup

instance (step : Step) : Decidable (Fresh step) := decidable_of_iff _ (fresh_iff step).symm

end Graphrun
