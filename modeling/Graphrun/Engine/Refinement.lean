import Graphrun.Engine.Entries
import Graphrun.Engine.Trace

/-!
# The commit path refines the transition system

Whatever a member does with an entry of the log is a trace of the abstract engine from the
state and clock before the entry to those after it (`applyEntry_trace`), so every run is a
trace (`Run.trace`). The lemmas follow the changes that an entry consists of: the events of a
decision are applied to the state in which they were decided, the ends of runs are stamped, and
receipts, histories and checkpoints leave what the engine sees as it is.
-/

namespace Graphrun

open Lib

variable {env : Env} {o : Enumeration} {s s' : State} {time : Nat} {a b c : State} {run : RunId}
  {e : DomainEvent} {cause : Cause} {command : Command} {log : List Step} {outcome : Outcome}
  {published : Published} {key : CommandKey} {portions : List Portion} {d : Decision}
  {replayed : Bool} {body : CommandBody} {clock : Nat} {id : CommandId} {expired : List DomainEvent}
  {operation : PublicationOperation}

/-! ## Applying events -/

theorem appendHistory_ok {refs : IoRefs} (h : appendHistory env s run e cause refs = .ok s') :
    s'.toCore = s.toCore ∧ s'.engineTimeWatermarkMs = s.engineTimeWatermarkMs := by
  simp only [appendHistory, bind_eq_ok, pure_eq_ok] at h
  obtain ⟨dependencies, -, payload, -, tombstones, -, rfl⟩ := h
  exact ⟨rfl, rfl⟩

theorem applyEvent_ok (h : applyEvent env cause s e = .ok s') :
    Recorded env s.toCore e ∧ s'.toCore = evolve s.toCore e ∧
      s'.engineTimeWatermarkMs = s.engineTimeWatermarkMs := by
  obtain ⟨owner, howner, h⟩ := bind_eq_ok.mp h
  cases owner with
  | some run =>
    simp only [bind_eq_ok, refuseIf_eq_ok, Bool.not_eq_true] at h
    obtain ⟨refs, hrefs, _, hdefined, h⟩ := h
    refine ⟨⟨⟨_, howner, ?_⟩, hdefined⟩, (appendHistory_ok h).1, (appendHistory_ok h).2⟩
    rintro other hother
    cases hother
    exact ⟨_, _, hrefs⟩
  | none =>
    simp only [bind_eq_ok, refuseIf_eq_ok, Bool.not_eq_true, pure_eq_ok] at h
    obtain ⟨_, -, _, hdefined, rfl⟩ := h
    exact ⟨⟨⟨_, howner, by simp⟩, hdefined⟩, rfl, rfl⟩

theorem applyEventsWithCause_ok {es : List DomainEvent}
    (h : applyEventsWithCause env cause s es = .ok s') :
    Recordable env s.toCore es ∧ s'.toCore = evolveAll s.toCore es ∧
      s'.engineTimeWatermarkMs = s.engineTimeWatermarkMs := by
  induction es generalizing s with
  | nil =>
    obtain rfl := pure_eq_ok.mp h
    exact ⟨trivial, rfl, rfl⟩
  | cons e es ih =>
    simp only [applyEventsWithCause, List.foldlM_cons, bind_eq_ok] at h
    obtain ⟨middle, hfirst, hrest⟩ := h
    obtain ⟨hrecorded, hcore, hclock⟩ := applyEvent_ok hfirst
    obtain ⟨hrecordable, hcore', hclock'⟩ := ih hrest
    rw [hcore] at hrecordable hcore'
    exact ⟨⟨hrecorded, hrecordable⟩, hcore', hclock'.trans hclock⟩

/-! ## Decisions -/

/-- Portions that are moves, each in the state that the earlier ones leave. -/
def Moving (env : Env) (o : Enumeration) (time : Nat) (body : CommandBody) :
    Core → List Portion → Prop
  | _, [] => True
  | s, portion :: rest =>
    Move env o s time body portion.events ∧ Authorized s time body ∧
      Moving env o time body (evolveAll s portion.events) rest

theorem progressSteps_ok {batch : Nat} {ids : IdGen} (keyed : Keyed s.toCore)
    (h : progressSteps env o run time batch s ids = .ok portions) :
    Moving env o time (.progress run) s.toCore portions := by
  induction batch generalizing s ids portions with
  | zero =>
    obtain rfl := pure_eq_ok.mp h
    trivial
  | succ batch ih =>
    simp only [progressSteps, bind_eq_ok] at h
    obtain ⟨step, hstep, h⟩ := h
    cases step with
    | none =>
      obtain rfl := pure_eq_ok.mp h
      trivial
    | some result =>
      simp only [bind_eq_ok, pure_eq_ok] at h
      obtain ⟨working, hworking, others, hothers, rfl⟩ := h
      obtain ⟨-, hcore, -⟩ := applyEventsWithCause_ok hworking
      have hrest := ih (by rw [hcore]; exact keyed.evolveAll _) hothers
      rw [hcore] at hrest
      exact ⟨nextProgress_ok keyed hstep, .of_unreported rfl rfl, hrest⟩

theorem decide_ok (h : decide env o s command = .ok d) (keyed : Keyed s.toCore)
    (hnew : s.commands.lookup command.id = none) :
    Moving env o command.time command.body s.toCore d.portions := by
  simp only [decide, hnew, bind_eq_ok] at h
  obtain ⟨_, -, h⟩ := h
  by_cases hprogress : ∃ run, command.body = .progress run
  · obtain ⟨run, hbody⟩ := hprogress
    rw [hbody] at h ⊢
    obtain ⟨portions, hportions, rfl⟩ := map_eq_ok.mp h
    exact progressSteps_ok keyed hportions
  · obtain ⟨es, rfl, hmove⟩ := decideBody_ok keyed (fun run hbody => hprogress ⟨run, hbody⟩) h
    exact ⟨hmove, decideBody_authorized h, trivial⟩

/-- The steps of recordable portions form a trace. -/
theorem trace_stepsOf {core : Core} (later : clock ≤ time)
    (moving : replayed = false → Moving env o time body core portions)
    (start : replayed = true → ∃ run definition input catalog,
      body = .start run definition input catalog)
    (recordable : Recordable env core (portions.flatMap (·.events))) :
    Trace env core clock (stepsOf replayed body time core portions)
      (evolveAll core (portions.flatMap (·.events))) time := by
  induction portions generalizing core clock with
  | nil => exact Trace.refl.tick later
  | cons portion rest ih =>
    rw [List.flatMap_cons, Recordable, guarded_append] at recordable
    have hauthorized : Authorized core time body := by
      cases hreplayed : replayed with
      | false => exact (moving hreplayed).2.1
      | true =>
        obtain ⟨run, definition, input, catalog, rfl⟩ := start hreplayed
        exact .of_unreported rfl rfl
    have hstep : Decided env
        { before := core, ids := portion.ids, body, time, events := portion.events, replayed } :=
      ⟨fun hreplayed => ⟨o, (moving hreplayed).1⟩, hauthorized, recordable.1⟩
    have hrest := ih le_rfl (fun hreplayed => (moving hreplayed).2.2) recordable.2
    rw [List.flatMap_cons, evolveAll, List.foldl_append]
    exact (Trace.refl.step later hstep).trans hrest

/-- A decision that is applied to the state in which it was made. -/
theorem trace_of_applied (later : clock ≤ s.engineTimeWatermarkMs)
    (moving : replayed = false → Moving env o s.engineTimeWatermarkMs body s.toCore d.portions)
    (start : replayed = true → ∃ run definition input catalog,
      body = .start run definition input catalog)
    (h : applyEventsWithCause env cause s d.events = .ok s') :
    Trace env s.toCore clock (stepsOf replayed body s.engineTimeWatermarkMs s.toCore d.portions)
      s'.toCore s'.engineTimeWatermarkMs := by
  obtain ⟨hrecordable, hcore, hclock⟩ := applyEventsWithCause_ok h
  rw [hcore, hclock]
  exact trace_stepsOf later moving start hrecordable

/-! ## Commands -/

/-- The transition system takes the engine part and the clock of a state to those of another. -/
def Reaches (env : Env) (s : State) (log : List Step) (s' : State) : Prop :=
  Trace env s.toCore s.engineTimeWatermarkMs log s'.toCore s'.engineTimeWatermarkMs

theorem Reaches.trans {log' : List Step} (h : Reaches env a log b) (h' : Reaches env b log' c) :
    Reaches env a (log ++ log') c :=
  Trace.trans h h'

/-! ## Entries of the log -/

theorem Change.reaches {permit : Permit} (change : Change env permit s log s')
    (keyed : Keyed s.toCore) : Reaches env s log s' := by
  cases change with
  | timed hlater => exact Trace.refl.tick hlater
  | admitted _ hnew => exact Trace.refl.quiet (.admitted hnew)
  | decided hdecision hclock hnew hstart happlied =>
    rw [hclock]
    exact trace_of_applied le_rfl
      (fun hreplayed => hclock ▸ decide_ok hdecision keyed (hnew hreplayed)) hstart happlied
  | filed | published | cleared | dismissed | checkpointed => exact .refl
  | @expired _ _ run event _ h =>
    obtain ⟨-, hcore, hclock⟩ := applyEventsWithCause_ok h
    -- expiry of an event removes the entries of its identity, as pruning does
    have hchange : Quiet s.toCore (dropInbox s.toCore (some run, event)) := .dropped
    unfold Reaches
    rw [hcore, hclock]
    exact Trace.refl.quiet hchange
  | dropped => exact Trace.refl.quiet .dropped
  | retired _ hrun hended => exact Trace.refl.quiet (.retired hrun hended)

theorem Changes.reaches {permit : Permit} (changes : Changes env permit s log s')
    (keyed : Keyed s.toCore) : Reaches env s log s' := by
  induction changes with
  | refl => exact .refl
  | step _ change ih => exact ih.trans (change.reaches (Trace.keyed ih keyed).1)
  | stamped _ _ _ _ ih => exact Trace.quiet ih .stamped

/-- What a member does with an entry of the log is a trace. -/
theorem applyEntry_trace (keyed : Keyed s.toCore) (command : Command) :
    Reaches env s (applyEntry env o s command).2 (applyEntry env o s command).1 :=
  (applyEntry_changes command).reaches keyed

/-- Every run is a trace. -/
theorem Run.trace (run : Run env s log s') (keyed : Keyed s.toCore) :
    Reaches env s log s' := by
  induction run with
  | refl => exact .refl
  | entry _ o command ih => exact ih.trans (applyEntry_trace (Trace.keyed ih keyed).1 command)

theorem keyed_empty (clusterId : String) : Keyed (State.empty clusterId).toCore := by
  constructor <;> intro k value h <;> cases h

end Graphrun
