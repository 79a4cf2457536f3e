import Graphrun.Publications.Catalogs

/-!
# Runs keep what they are pinned to

The definition and the catalog of a run, and the publication it is an instance of, are fixed when
the run is created. Events leave them alone, and a history is kept for runs that are there only.
Retention removes a run together with its history. So an entry of the log leaves a run pinned to
what it was pinned to, unless it creates the run (`Changes.creates`).
-/

namespace Graphrun

open Lib

variable {env : Env} {s s' : State} {e : DomainEvent} {run : RunId} {a b c : State} {core : Core}
  {cause : Cause} {permit : Permit} {log : List Step}

/-- What a run is pinned to. -/
structure Pins where
  definition : Definition
  catalog : Catalog
  published : Option PinnedPublication

def RunState.pins (run : RunState) : Pins where
  definition := run.definition
  catalog := run.catalog
  published := run.published

/-- What the runs of a state are pinned to. -/
def State.pins (s : State) (run : RunId) : Option Pins := (s.runs.lookup run).map RunState.pins

/-! ## Events -/

theorem RunState.after_pins {k : RunId} (r : RunState) :
    (r.after core e k).pins = r.pins := by
  unfold RunState.after
  cases e <;> dsimp only
  case runAdmitted | activationOpened | compensationStarted | eventAccepted | runSucceeded |
      runFailed =>
    split <;> rfl

/-- An event that a history refers to belongs to a run that is there. -/
theorem run_of_ioReferences {cluster : String} {refs : IoRefs}
    (h : ioReferences env core cluster run e = .ok refs) :
    (core.runs.lookup run).isSome := by
  unfold ioReferences at h
  split at h <;>
    · simp only [bind_eq_ok, okOr_eq_ok] at h
      obtain ⟨r, hrun, -⟩ := h
      rw [hrun]
      rfl

/-- A history is kept for runs that are there only. -/
def Retained (s : State) : Prop :=
  ∀ run, (s.history.lookup run).isSome → (s.pins run).isSome

/-- Runs are created under ids that are permitted, and removed only where retention is. A run that
is there stays pinned to what it was pinned to. -/
structure Creates (permit : Permit) (s s' : State) : Prop where
  pins : ∀ run p, s'.pins run = some p → s.pins run = some p ∨ permit.creates run
  kept : ¬ permit.prunes → ∀ run p, s.pins run = some p → s'.pins run = some p
  retained : Retained s → Retained s'

theorem Creates.of_pins (hpins : s'.pins = s.pins) (hhistory : ∀ run,
    (s'.history.lookup run).isSome → (s.history.lookup run).isSome ∨ (s.pins run).isSome) :
    Creates permit s s' where
  pins _ _ hp := .inl (hpins ▸ hp)
  kept _ _ _ hp := hpins ▸ hp
  retained retained run hrun := hpins ▸ (hhistory run hrun).elim (retained run) id

theorem Creates.of_eq (hruns : s'.runs = s.runs) (hhistory : s'.history = s.history) :
    Creates permit s s' := by
  refine .of_pins ?_ fun run h => .inl (hhistory ▸ h)
  funext run
  rw [State.pins, State.pins, hruns]

theorem Creates.trans (h : Creates permit a b) (h' : Creates permit b c) : Creates permit a c where
  pins run p hp := (h'.pins run p hp).elim (h.pins run p) .inr
  kept hprunes run p hp := h'.kept hprunes run p (h.kept hprunes run p hp)
  retained retained := h'.retained (h.retained retained)

theorem evolve_pins :
    State.pins { s with toCore := evolve s.toCore e } = s.pins := by
  funext run
  have hrun := lookup_runs_evolve s.toCore e run
  simp only [State.pins, hrun, Option.map_map]
  congr 1
  funext r
  exact RunState.after_pins r

theorem applyEvent_creates (h : applyEvent env cause s e = .ok s') : Creates permit s s' := by
  obtain ⟨owner, -, h⟩ := bind_eq_ok.mp h
  cases owner with
  | some run =>
    simp only [bind_eq_ok, appendHistory, pure_eq_ok] at h
    obtain ⟨refs, hrefs, _, -, dependencies, -, payload, -, tombstones, -, rfl⟩ := h
    refine .of_pins evolve_pins fun other hother => ?_
    by_cases heq : other = run
    · subst heq
      exact .inr (by simpa [State.pins] using run_of_ioReferences hrefs)
    · rw [Table.lookup_insert_eq, if_neg heq] at hother
      exact .inl hother
  | none =>
    simp only [bind_eq_ok, pure_eq_ok] at h
    obtain ⟨_, -, _, -, rfl⟩ := h
    exact .of_pins evolve_pins fun run hrun => .inl hrun

theorem applyEventsWithCause_creates {es : List DomainEvent}
    (h : applyEventsWithCause env cause s es = .ok s') : Creates permit s s' :=
  foldlM_keeps (P := Creates permit s) (fun _ _ _ h hkept => hkept.trans (applyEvent_creates h)) h
    (.of_eq rfl rfl)

/-! ## Entries of the log -/

theorem pins_addRun {definition : Definition} {catalog : Catalog}
    {published : Option PinnedPublication} {other : RunId} :
    (s.addRun run definition catalog published).pins other =
      if other = run then some { definition, catalog, published } else s.pins other := by
  simp only [State.pins, State.addRun, Table.lookup_insert_eq]
  split <;> rfl

theorem Change.creates (change : Change env permit s log s') : Creates permit s s' := by
  cases change with
  | timed | filed | published | cleared | dismissed | dropped | checkpointed =>
    exact .of_eq rfl rfl
  | @admitted run _ _ _ hpermit hnew =>
    refine ⟨fun other p hp => ?_, fun _ other p hp => ?_, fun retained other hother => ?_⟩
    · rw [pins_addRun] at hp
      split at hp
      · next heq => exact .inr (heq ▸ hpermit)
      · exact .inl hp
    · rw [pins_addRun, if_neg, hp]
      rintro rfl
      simp [State.pins, hnew] at hp
    · rw [pins_addRun]
      split
      · rfl
      · exact retained other hother
  | decided _ _ _ _ happlied => exact applyEventsWithCause_creates happlied
  | expired _ h => exact applyEventsWithCause_creates h
  | retired hprunes =>
    refine ⟨fun other p hp => ?_, fun hnot => absurd hprunes hnot, fun retained other hother => ?_⟩
    · simp only [State.pins, dropRun, Table.lookup_erase_eq] at hp
      split at hp
      · cases hp
      · exact .inl hp
    · simp only [Table.lookup_erase_eq] at hother
      split at hother
      · cases hother
      · next hne =>
        have hpins := retained other hother
        simpa [State.pins, dropRun, Table.lookup_erase_eq, hne] using hpins

theorem Changes.creates (changes : Changes env permit s log s') : Creates permit s s' := by
  induction changes with
  | refl => exact .of_eq rfl rfl
  | step _ change ih => exact ih.trans change.creates
  | stamped _ _ _ _ ih =>
    refine ih.trans (.of_pins ?_ fun other hother => .inl hother)
    funext other
    simp only [State.pins, Core.modifyRun, Table.lookup_modify]
    split
    · rw [Option.map_map]
      rfl
    · rfl

end Graphrun
