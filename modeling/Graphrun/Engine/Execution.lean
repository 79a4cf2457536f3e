import Graphrun.Engine.Refinement

/-!
# Executing a log

`applyEntries` executes a list of log entries; what it returns is a run. To compute with it,
the functions of other crates are replaced by simple ones (`sampleEnv`): the identities that a
command draws are numbered, and nothing is kept of what is serialized. Whether a step draws
unused identities can then be checked on the tables of its state.
-/

namespace Graphrun

open Lib

variable {env : Env} {o : Enumeration}

/-- Executes entries one after the other. -/
def applyEntries (env : Env) (o : Enumeration) (s : State) : List Command → State × List Step
  | [] => (s, [])
  | command :: rest =>
    let first := applyEntry env o s command
    let others := applyEntries env o first.1 rest
    (others.1, first.2 ++ others.2)

theorem Run.trans {a b c : State} {log log' : List Step} (first : Run env a log b)
    (second : Run env b log' c) : Run env a (log ++ log') c := by
  induction second with
  | refl => simpa using first
  | entry _ o command ih =>
    rw [← List.append_assoc]
    exact ih.entry o command

theorem applyEntries_run (env : Env) (o : Enumeration) (s : State) (commands : List Command) :
    Run env s (applyEntries env o s commands).2 (applyEntries env o s commands).1 := by
  induction commands generalizing s with
  | nil => exact .refl
  | cons command rest ih =>
    have hfirst : Run env s (applyEntry env o s command).2 (applyEntry env o s command).1 := by
      simpa using Run.refl.entry o command
    exact hfirst.trans (ih _)

/-- The event at a position of a log, with the events before it and the state before it. -/
def appliedAt (log : List Step) (i j : Nat) : Option (List DomainEvent × Core × DomainEvent) := do
  let step ← log[i]?
  let e ← step.events[j]?
  pure (eventsOf (log.take i) ++ step.events.take j,
    evolveAll step.before (step.events.take j), e)

theorem applied_of_appliedAt {log : List Step} {i j : Nat} {past : List DomainEvent} {core : Core}
    {e : DomainEvent} (h : appliedAt log i j = some (past, core, e)) :
    Applied log past core e := by
  simp only [appliedAt, Option.bind_eq_bind, Option.bind_eq_some_iff, Option.pure_def,
    Option.some.injEq, Prod.mk.injEq] at h
  obtain ⟨step, hstep, e, he, rfl, rfl, rfl⟩ := h
  obtain ⟨hi, rfl⟩ := List.getElem?_eq_some_iff.mp hstep
  obtain ⟨hj, rfl⟩ := List.getElem?_eq_some_iff.mp he
  have hlog : log = log.take i ++ log[i] :: log.drop (i + 1) := by
    rw [List.getElem_cons_drop, List.take_append_drop]
  have hevents : log[i].events =
      log[i].events.take j ++ log[i].events[j] :: log[i].events.drop (j + 1) := by
    rw [List.getElem_cons_drop, List.take_append_drop]
  exact .mk hlog hevents

/-! ## A computable environment -/

/-- Identities are the command's id plus multiples of 64. -/
def sampleEnv : Env where
  mint command n := command.bytes % 64 + 64 * n
  effectKey _ _ _ := 0
  authenticatedId _ id := id.bytes
  publishedIds key := (key.commandId.bytes, key.commandId.bytes, key.commandId.bytes)
  sha256Hex text := text
  toJson _ := .ok .null
  rawRequest _ := ""
  quote text := text
  isValid _ _ := true
  hexError _ := none

def sampleCluster : String := "00000000000000000000000000000000"

/-- What is computed of the log and the state that some commands leave is true of a run. -/
theorem exists_sampleRun (commands : List Command) (check : List Step → State → Bool)
    (h : check (applyEntries sampleEnv .stored (.empty sampleCluster) commands).2
      (applyEntries sampleEnv .stored (.empty sampleCluster) commands).1 = true) :
    ∃ log final, Run sampleEnv (.empty sampleCluster) log final ∧ check log final = true :=
  ⟨_, _, applyEntries_run .., h⟩

/-- A region without schemas. -/
def sampleRegion (start : NodeKey) (nodes : List (String × Node)) : Region where
  path := []
  inputSchema := .null
  outputSchema := .null
  start := start
  nodes := nodes

/-- A workflow without schemas. -/
def sampleWorkflow (signals : List String) (start : NodeKey) (nodes : List (String × Node)) :
    Definition where
  formatVersion := 1
  dsl := "graphrun/v1"
  id := "sample"
  version := 1
  inputSchema := .null
  outputSchema := .null
  signals := signals.map fun signal => (signal, .null)
  runTimeoutMs := none
  root := sampleRegion start nodes
  digest := ""

/-- An activity without input. -/
def sampleActivity (name : String) (compensation : Option Compensation) (next : NodeKey) : Node :=
  .activity ⟨name, 1⟩ (.literal .null) none .forwardDefault compensation next

/-- A catalog of activities without schemas or declared errors. -/
def sampleCatalog (names : List String) (recovery : Recovery) : Catalog where
  schemas := []
  activities := names.map fun name => (⟨name, 1⟩, {
    key := ⟨name, 1⟩, inputSchema := .null, outputSchema := .null, execution := .async
    effects := .external, recovery, errorCodes := [], reconciler := none })
  reconcilers := []

/-! ## Reading steps -/

/-- The run that a command progresses. -/
def CommandBody.progressed? : CommandBody → Option RunId
  | .progress run => some run
  | _ => none

theorem CommandBody.progressed?_eq_some {body : CommandBody} {run : RunId}
    (h : body.progressed? = some run) : body = .progress run := by
  cases body <;> simp_all [CommandBody.progressed?]

/-- An activation that a run can progress, with its node. -/
def advancingAt (s : Core) (run : RunId) (a : ActivationId) : Option (ActivationState × Node) := do
  let runState ← s.runs.lookup run
  let act ← s.activations.lookup a
  let node ← nodeOf s act.scope act.node
  if runState.status.isActive ∧ act.id = a ∧ act.run = run ∧ act.role = .forward ∧
      act.status = .open then
    some (act, node)
  else none

theorem advancing_of_advancingAt {s : Core} {run : RunId} {a : ActivationId}
    {act : ActivationState} {node : Node} (h : advancingAt s run a = some (act, node)) :
    act.id = a ∧ Advancing s run act node := by
  simp only [advancingAt, Option.bind_eq_bind, Option.bind_eq_some_iff] at h
  obtain ⟨runState, hstate, act', hact, node', hnode, h⟩ := h
  split at h
  · next hcond =>
    obtain ⟨hactive, hid, hown, hforward, hopen⟩ := hcond
    simp only [Option.some.injEq, Prod.mk.injEq] at h
    obtain ⟨rfl, rfl⟩ := h
    exact ⟨hid, ⟨runState, hstate, hactive⟩, hid.symm ▸ hact, hown, hforward, hopen, hnode⟩
  · cases h

end Graphrun
