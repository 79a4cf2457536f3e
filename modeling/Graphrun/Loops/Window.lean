import Graphrun.Engine.Soundness

/-!
# The window of a `foreach`

What holds of a `foreach` activation throughout a run. In every state at most `max_concurrency`
of its children are open, an index has one child at most, and the input of a child is the item
that the activation evaluates at its index (`Windowed`). An event opens a child for an index that
has none, while there is room and no child has failed, and the output of the activation is made
of what the children of all indices completed with (`Spreading`).
-/

namespace Graphrun

open Lib

section Definitions

variable (s : Core) (a : ActivationId) (act : ActivationState) (items : Binding)
  (maxConcurrency : Nat)

/-- An activation is at a `foreach` node. -/
def Spreads : Prop := AtNode Node.window? s a act (items, maxConcurrency)

/-- A scope is the child for an item. -/
def ItemAt (i : Nat) (k : ScopeId) (sc : ScopeState) : Prop :=
  s.scopes.lookup k = some sc ∧ sc.role = .foreachItem a i

structure Windowed : Prop where
  window : ∀ ks, OpenChildren s a ks → ks.length ≤ maxConcurrency
  once : ∀ i k k' sc sc', ItemAt s a i k sc → ItemAt s a i k' sc' → k = k'
  inputs : act.status = .open → ∀ i k sc, ItemAt s a i k sc →
    ∃ list, Evaluates s act items (.array list) ∧ list[i]? = some sc.input

structure Spreading (e : DomainEvent) : Prop where
  opening : ∀ run k parent i input, e = .scopeOpened run k parent (.foreachItem a i) input →
    (∀ k sc, ¬ ItemAt s a i k sc) ∧ OpensItem s act items maxConcurrency i input
  output : ∀ run output, e = .nodeOutputRecorded run act.scope act.node output →
    act.status = .open → ∃ list out, Evaluates s act items (.array list) ∧ output = .array out ∧
      out.length = list.length ∧ ∀ i v, out[i]? = some v → CompletedWith s (.foreachItem a i) v

end Definitions

variable {env : Env} {s : Core} {e : DomainEvent} {log : List Step} {a : ActivationId}
  {act : ActivationState} {items : Binding} {maxConcurrency : Nat}

theorem Sound.windowed (sound : Sound s) (h : Spreads s a act items maxConcurrency) :
    Windowed s a act items maxConcurrency := by
  refine ⟨fun ks => sound.measured.windowed a act _ ks h, ?_, ?_⟩
  · rintro i k k' sc sc' ⟨hk, hrole⟩ ⟨hk', hrole'⟩
    exact sound.nested.unique k k' sc sc' hk hk' (hrole.trans hrole'.symm) (by simp [hrole])
  · rintro hopen i k sc ⟨hk, hrole⟩
    exact sound.measured.listed k sc a i act _ hk hrole h hopen

theorem Respects.spreading (respects : Respects s e) (sound : Sound s)
    (h : Spreads s a act items maxConcurrency) : Spreading s a act items maxConcurrency e := by
  refine ⟨?_, ?_⟩
  · rintro run k parent i input rfl
    refine ⟨fun k' sc h => ?_, ?_⟩
    · have hroot := respects.nesting.1 k' sc h.1 h.2
      cases hroot
    · exact (respects.measuring a act i).1 _ rfl h
  · rintro run output rfl hopen
    obtain ⟨list, out, hlist, hout, hlength, -, hdone⟩ :=
      (respects.measuring a act h.1 rfl h.2.1 hopen).2 _ h
    rw [sound.tree.keyed.activations a act h.1] at hdone
    exact ⟨list, out, hlist, hout, hlength, fun i v hi => (sound.nested.items a).2 _ (hdone i v hi)⟩

/-- A `foreach` keeps to its window, opens each item once and gathers the results in order. -/
theorem foreach_keeps_window {clusterId : String} {final : State}
    (reached : Run env (.empty clusterId) log final) (steady : ∀ step ∈ log, Steady step) :
    (∀ a act items maxConcurrency, Spreads final.toCore a act items maxConcurrency →
      Windowed final.toCore a act items maxConcurrency) ∧
    ∀ past core e, Applied log past core e →
      ∀ a act items maxConcurrency, Spreads core a act items maxConcurrency →
        Windowed core a act items maxConcurrency ∧
          Spreading core a act items maxConcurrency e := by
  obtain ⟨hfinal, hbefore⟩ := reached.atRest steady
  refine ⟨fun a act items maxConcurrency => hfinal.sound.windowed, ?_⟩
  intro past core e happlied a act items maxConcurrency hspreads
  obtain @⟨earlier, later, step, before, after, _, hlog, hevents⟩ := happlied
  have hstep : step ∈ log := by simp [hlog]
  have decided := (reached.trace (keyed_empty clusterId)).decided step hstep
  have hrespects := decided.respects (hbefore step hstep) (steady step hstep)
  rw [hevents] at hrespects
  obtain ⟨hfirst, hrest⟩ := guarded_append.mp hrespects
  have sound := (hbefore step hstep).sound.evolveAll hfirst
  exact ⟨sound.windowed hspreads, hrest.1.spreading sound hspreads⟩

/-! ## Several activations of one node -/

/-- Works on the items, before which it may wait until an instant that has passed. -/
def spreadWorkflow (start : NodeKey) (items : List Value) (maxConcurrency : Nat) : Definition :=
  sampleWorkflow [] start [("done", .complete (.literal .null)),
    ("each", .foreach (.literal (.array items)) .null items.length maxConcurrency
      (sampleRegion "work" [("done", .complete (.from (.nodeOutput "work") none)),
        ("work", sampleActivity "work" none "done")]) "done"),
    ("wait", .waitUntil (.literal (.int 0)) "each")]

/-- A start, progress, results of activities, and progress after each. -/
def workedItems (definition : Definition) (results : List (ActivationId × Value)) : List Command :=
  { id := ⟨1⟩, time := 1
    body := .start ⟨1⟩ definition .null (sampleCatalog ["work"] .retrySafe) } ::
  { id := ⟨2⟩, body := .progress ⟨1⟩, time := 2 } ::
  results.zipIdx.flatMap fun ((work, output), i) => [
    { id := ⟨3 + 2 * i⟩, body := .reportLeaf ⟨1⟩ work output, time := 3 + 2 * i },
    { id := ⟨4 + 2 * i⟩, body := .progress ⟨1⟩, time := 4 + 2 * i }]

/-- A step records an output at the `foreach` node that an activation is at. -/
def recordsAt (log : List Step) (i : Nat) (a : ActivationId) (out : List Value)
    (check : Core → Bool) : Bool :=
  (appliedAt log i 0).any fun (_, core, e) => check core &&
    (advancingAt core ⟨1⟩ a).any fun (act, node) => node.window?.isSome &&
      e = .nodeOutputRecorded ⟨1⟩ act.scope act.node (.array out)

theorem spreads_of_recordsAt {i : Nat} {out : List Value} {check : Core → Bool}
    (h : recordsAt log i a out check = true) :
    ∃ past core act items maxConcurrency, check core = true ∧ act.status = .open ∧
      Applied log past core (.nodeOutputRecorded ⟨1⟩ act.scope act.node (.array out)) ∧
      Spreads core a act items maxConcurrency := by
  simp only [recordsAt, Bool.and_eq_true, Option.any_eq_true, decide_eq_true_eq] at h
  obtain ⟨⟨past, core, e⟩, happlied, hcheck, ⟨act, node⟩, hat, hwindow, rfl⟩ := h
  obtain ⟨rfl, advancing⟩ := advancing_of_advancingAt hat
  obtain ⟨⟨items, maxConcurrency⟩, hwindow⟩ := Option.isSome_iff_exists.mp hwindow
  exact ⟨past, core, act, items, maxConcurrency, hcheck, advancing.hopen,
    applied_of_appliedAt happlied, advancing.hact, advancing.hforward, node, advancing.hnode,
    hwindow⟩

/-- A `wait_until` that is due opens its successor again and again. The output of one activation
of a `foreach` node completes another one whose item is still worked on. -/
theorem openItem_outrun : ∃ log final, Run sampleEnv (.empty sampleCluster) log final ∧
    ∃ past core e a act items maxConcurrency, Applied log past core e ∧
      Spreads core a act items maxConcurrency ∧ ¬ Spreading core a act items maxConcurrency e := by
  obtain ⟨log, final, hrun, hcheck⟩ := exists_sampleRun
    (workedItems (spreadWorkflow "wait" [.null] 1) [(⟨130⟩, .null)])
    (fun log _ => recordsAt log 35 ⟨194⟩ [.null] fun core => core.scopes.entries.all fun entry =>
      entry.2.role ≠ .foreachItem ⟨194⟩ 0 ∨ entry.2.status = .open)
    (by decide +kernel)
  obtain ⟨past, core, act, items, maxConcurrency, hopen, hstatus, happlied, hspreads⟩ :=
    spreads_of_recordsAt hcheck
  refine ⟨log, final, hrun, past, core, _, _, act, items, maxConcurrency, happlied, hspreads, ?_⟩
  intro hspreading
  obtain ⟨list, out, -, hout, -, hdone⟩ := hspreading.output _ _ rfl hstatus
  cases hout
  obtain ⟨k, sc, hk, hrole, hcompleted⟩ := hdone 0 .null rfl
  have hentry := List.all_eq_true.mp hopen _ (AList.mem_lookup_iff.mp hk)
  simp [hrole, hcompleted] at hentry

/-- Without the wait there is one activation. Two of its three items are worked on at a time, the
second is ready first, and the outputs stand in the order of the items. -/
theorem workedItems_gathered : ∃ log final, Run sampleEnv (.empty sampleCluster) log final ∧
    (∀ step ∈ log, Steady step) ∧
    ∃ past core act items maxConcurrency,
      Applied log past core
        (.nodeOutputRecorded ⟨1⟩ act.scope act.node (.array [.int 10, .int 20, .int 30])) ∧
      Spreads core ⟨65⟩ act items maxConcurrency ∧
      Windowed core ⟨65⟩ act items maxConcurrency ∧
      Spreading core ⟨65⟩ act items maxConcurrency
        (.nodeOutputRecorded ⟨1⟩ act.scope act.node (.array [.int 10, .int 20, .int 30])) := by
  obtain ⟨log, final, hrun, hcheck⟩ := exists_sampleRun
    (workedItems (spreadWorkflow "each" [.int 1, .int 2, .int 3] 2)
      [(⟨194⟩, .int 20), (⟨66⟩, .int 10), (⟨68⟩, .int 30)])
    (fun log _ => log.all Step.checksSteady &&
      recordsAt log 10 ⟨65⟩ [.int 10, .int 20, .int 30] fun _ => true)
    (by decide +kernel)
  obtain ⟨hsteady, hcheck⟩ := (Bool.and_eq_true _ _).mp hcheck
  have steady (step) (hstep : step ∈ log) : Steady step :=
    Step.steady_of_checksSteady (List.all_eq_true.mp hsteady step hstep)
  obtain ⟨past, core, act, items, maxConcurrency, -, -, happlied, hspreads⟩ :=
    spreads_of_recordsAt hcheck
  exact ⟨log, final, hrun, steady, past, core, act, items, maxConcurrency, happlied, hspreads,
    (foreach_keeps_window hrun steady).2 past core _ happlied _ _ _ _ hspreads⟩

end Graphrun
