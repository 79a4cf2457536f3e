import Graphrun.Sagas.Duties
import Graphrun.Claims.Successes

/-!
# Irreversible effects

An obligation is irreversible if the node of its forward activation says so. The state does not
keep what the node says: an obligation becomes irreversible when it is blocked with the handler
`irreversible`, and the handler is the name of an activity if there is one to compensate with. An
activity may have that name (`namedIrreversible_stuck`). It must not, for the status to be what the
node declares (`irreversible_as_declared`).

* `Faithful` is what an obligation says of the declaration it comes from.
* `Naming` is what an event about obligations says of it.
-/

namespace Graphrun

open Lib

variable {env : Env} {o : Enumeration} {s s' : Core} {e : DomainEvent} {time : Nat} {ids : IdGen}
  {es : List DomainEvent} {body : CommandBody} {a forward : ActivationId} {c : Compensation}
  {item : Obligation}

/-! ## Declarations -/

/-- How the node of an activation is to be compensated. -/
def declaredCompensation (s : Core) (a : ActivationId) : Option Compensation := do
  let act ← s.activations.lookup a
  match nodeOf s act.scope act.node with
  | some (.activity _ _ _ _ compensation _) => compensation
  | _ => none

def Compensation.isIrreversible : Compensation → Bool
  | .irreversible _ => true
  | .activity .. => false

/-- The handler that events name for a compensation. -/
def Compensation.handler : Compensation → String
  | .irreversible _ => "irreversible"
  | .activity key _ _ _ => key.name

/-- No activity to compensate with is called `irreversible`. -/
def NamedApart (s : Core) : Prop :=
  ∀ a c, declaredCompensation s a = some c → c.isIrreversible = false →
    c.handler ≠ "irreversible"

theorem declaredCompensation_kept {act : ActivationState} (tree : Tree s)
    (hact : s.activations.lookup a = some act) (keeps : Keeps act.run s s') :
    declaredCompensation s' a = declaredCompensation s a := by
  obtain ⟨act', hact', -⟩ := keeps.activations a act hact rfl
  simp only [declaredCompensation, hact, hact', Option.bind_eq_bind, Option.bind_some,
    tree.node_kept keeps hact hact']

theorem declared_evolveAll (tree : Tree s) (placed : Guarded Placed s es)
    (h : declaredCompensation s a = some c) :
    declaredCompensation (evolveAll s es) a = some c := by
  cases hact : s.activations.lookup a with
  | none => simp [declaredCompensation, hact] at h
  | some act =>
    rw [declaredCompensation_kept tree hact (keeps_evolveAll placed act.run)]
    exact h

theorem declaredCompensation_eq {act : ActivationState} {key : ActivityKey} {input : Binding}
    {timeoutMs : Option Nat} {retry : RetryPolicy} {next : NodeKey}
    (hact : s.activations.lookup a = some act)
    (hnode : nodeOf s act.scope act.node =
      some (.activity key input timeoutMs retry (some c) next)) :
    declaredCompensation s a = some c := by
  simp [declaredCompensation, hact, hnode]

/-- What a result owes is what its node declares. -/
theorem declared_of_owed {act : ActivationState} {output : Value}
    (hact : s.activations.lookup a = some act) (howed : compensationEvents s act output = .ok [e]) :
    ∃ c, declaredCompensation s a = some c ∧
      ((∃ version input, e = .obligationRegistered act.run act.id c.handler version input ∧
          c.isIrreversible = false) ∨
        ∃ version reason, e = .obligationBlocked act.run act.id c.handler version reason) := by
  unfold compensationEvents at howed
  split at howed
  · next hnode =>
    refine ⟨_, declaredCompensation_eq hact hnode, ?_⟩
    split at howed
    · cases pure_eq_ok.mp howed
    · simp only [bind_eq_ok] at howed
      obtain ⟨ctx, -, bound, -, howed⟩ := howed
      split at howed
      · obtain rfl := List.singleton_inj.mp (pure_eq_ok.mp howed)
        exact .inl ⟨_, _, rfl, rfl⟩
      · obtain rfl := List.singleton_inj.mp (pure_eq_ok.mp howed)
        exact .inr ⟨_, _, rfl⟩
  · next hnode =>
    refine ⟨_, declaredCompensation_eq hact hnode, ?_⟩
    obtain rfl := List.singleton_inj.mp (pure_eq_ok.mp howed)
    exact .inr ⟨_, _, rfl⟩
  · cases pure_eq_ok.mp howed

/-! ## Obligations and events -/

/-- The obligation belongs to its activation, has the handler that was declared for it, and is
irreversible as declared. -/
def Faithful (s : Core) (item : Obligation) : Prop :=
  (∃ act, s.activations.lookup item.forward = some act ∧ act.run = item.run) ∧
  ∃ c, declaredCompensation s item.forward = some c ∧ item.handler = c.handler ∧
    (item.status.isIrreversible = true ↔ c.isIrreversible = true ∧ item.status ≠ .abandoned)

/-- There is an obligation already, or it is registered for the run of its activation. -/
def Rightful (s : Core) (run : RunId) (forward : ActivationId) : Prop :=
  forward ∈ s.obligations.map (·.forward) ∨
    ∃ act, s.activations.lookup forward = some act ∧ act.run = run

/-- An event about an obligation fits what was declared. -/
def Naming (s : Core) : DomainEvent → Prop
  | .obligationRegistered run forward handler _ _ => Rightful s run forward ∧
    ∃ c, declaredCompensation s forward = some c ∧ c.isIrreversible = false ∧ handler = c.handler
  | .compensationStarted _ _ forward _ _ _ _ _ | .obligationReleased _ forward =>
    ∃ c, declaredCompensation s forward = some c ∧ c.isIrreversible = false
  | .obligationBlocked run forward handler _ _ => Rightful s run forward ∧
    ∃ c, declaredCompensation s forward = some c ∧ handler = c.handler ∧
      (handler = "irreversible" ↔ c.isIrreversible = true)
  | _ => True

theorem naming_of_kind (h : e.kind ∉ dutyKinds) : Naming s e := by
  cases e <;> first | trivial | exact absurd (by simp) h

theorem forwards_evolveAll (h : forward ∈ s.obligations.map (·.forward)) :
    forward ∈ (evolveAll s es).obligations.map (·.forward) := by
  induction es generalizing s with
  | nil => exact h
  | cons e es ih =>
    refine ih ?_
    rcases forwards_evolve s e with hsame | ⟨new, -, hadded⟩
    · rwa [hsame]
    · rw [hadded]
      exact List.mem_append_left _ h

theorem Rightful.kept {run : RunId} (placed : Guarded Placed s es) (h : Rightful s run forward) :
    Rightful (evolveAll s es) run forward := by
  refine h.imp forwards_evolveAll ?_
  rintro ⟨act, hact, hrun⟩
  obtain ⟨act', hact', hrun', -⟩ := (keeps_evolveAll placed act.run).activations _ act hact rfl
  exact ⟨act', hact', hrun'.trans hrun⟩

theorem Naming.kept (tree : Tree s) (placed : Guarded Placed s es) (h : Naming s e) :
    Naming (evolveAll s es) e := by
  cases e with
  | obligationRegistered | obligationBlocked =>
    obtain ⟨hrightful, c, hc, hrest⟩ := h
    exact ⟨hrightful.kept placed, c, declared_evolveAll tree placed hc, hrest⟩
  | compensationStarted | obligationReleased =>
    obtain ⟨c, hc, hrest⟩ := h
    exact ⟨c, declared_evolveAll tree placed hc, hrest⟩
  | _ => trivial

/-- What is neither irreversible nor abandoned was not declared irreversible. -/
theorem Faithful.reversible (h : Faithful s item) (hstatus : item.status.isIrreversible = false)
    (hkept : item.status ≠ .abandoned) :
    ∃ c, declaredCompensation s item.forward = some c ∧ c.isIrreversible = false ∧
      item.handler = c.handler := by
  obtain ⟨-, c, hc, hhandler, hiff⟩ := h
  refine ⟨c, hc, ?_, hhandler⟩
  rw [← Bool.not_eq_true]
  intro hirreversible
  rw [hiff.mpr ⟨hirreversible, hkept⟩] at hstatus
  cases hstatus

theorem Duty.naming (keyed : Keyed s) (apart : NamedApart s)
    (faithful : ∀ item ∈ s.obligations, Faithful s item) (duty : Duty s e) : Naming s e := by
  have hpending {saga : ActivationId} {item : Obligation} (h : item ∈ pendingObligations s saga) :
      ∃ c, declaredCompensation s item.forward = some c ∧ c.isIrreversible = false := by
    obtain ⟨hmem, -, hopen⟩ := mem_pendingObligations.mp h
    obtain ⟨c, hc, hreversible, -⟩ :=
      (faithful item hmem).reversible (by rw [hopen]; rfl) (by simp [hopen])
    exact ⟨c, hc, hreversible⟩
  cases duty with
  | @owed a act output _ hact hready hrole howed =>
    obtain ⟨c, hc, ⟨version, input, rfl, hreversible⟩ | ⟨version, reason, rfl⟩⟩ :=
      declared_of_owed hact howed
    · rw [keyed.activations a act hact]
      exact ⟨.inr ⟨act, hact, rfl⟩, c, hc, hreversible, rfl⟩
    · rw [keyed.activations a act hact]
      refine ⟨.inr ⟨act, hact, rfl⟩, c, hc, rfl, fun hname => ?_, fun hirreversible => ?_⟩
      · by_contra hreversible
        exact apart a c hc (by simpa using hreversible) hname
      · cases c with
        | irreversible => rfl
        | activity => cases hirreversible
  | @resolved run forward input item hitem hblocked =>
    have hmem := List.mem_of_find?_eq_some hitem
    obtain rfl : item.forward = forward := by simpa using List.find?_some hitem
    refine ⟨.inl (List.mem_map_of_mem hmem), (faithful item hmem).reversible ?_ ?_⟩
    · cases hstatus : item.status <;> simp_all [ObligationStatus.isBlocked,
        ObligationStatus.isIrreversible]
    · intro habandoned
      rw [habandoned] at hblocked
      cases hblocked
  | @blocked run a reason item hitem =>
    have hmem := List.mem_of_find?_eq_some hitem
    have hstatus : item.status = .compensating a := by
      simpa [Obligation.isCompensating] using List.find?_some hitem
    obtain ⟨c, hc, hreversible, hhandler⟩ :=
      (faithful item hmem).reversible (by rw [hstatus]; rfl) (by simp [hstatus])
    refine ⟨.inl (List.mem_map_of_mem hmem), c, hc, hhandler, fun hname => ?_,
      fun hirreversible => ?_⟩
    · exact absurd (hhandler.symm.trans hname) (apart _ c hc hreversible)
    · rw [hreversible] at hirreversible
      cases hirreversible
  | started _ hitem => exact hpending (List.mem_of_getLast? hitem)
  | transferred => trivial
  | released _ hitem => exact hpending hitem

theorem Move.naming (move : Move env o s time body es) (tree : Tree s) (apart : NamedApart s)
    (faithful : ∀ item ∈ s.obligations, Faithful s item) (placed : Guarded Placed s es) :
    Guarded Naming s es := by
  refine guarded_iff.mpr fun before e after hes => ?_
  have hdecided : Naming s e := by
    by_cases hkind : e.kind ∈ dutyKinds
    · exact (move.dutiful e (by simp [hes]) hkind).naming tree.keyed apart faithful
    · exact naming_of_kind hkind
  rw [hes] at placed
  exact hdecided.kept tree (guarded_append.mp placed).1

/-! ## One event -/

theorem blockedStatus_isIrreversible {handler reason : String} :
    (blockedStatus handler reason).isIrreversible = true ↔ handler = "irreversible" := by
  unfold blockedStatus
  split <;> simp_all [ObligationStatus.isIrreversible]

theorem blockedStatus_ne_abandoned {handler reason : String} :
    blockedStatus handler reason ≠ .abandoned := by
  unfold blockedStatus
  split <;> simp

/-- What an obligation says stays true of it with another status that fits the declaration. -/
theorem Faithful.evolve {item' : Obligation} (tree : Tree s) (placed : Placed s e)
    (h : Faithful s item) (hforward : item'.forward = item.forward) (hrun : item'.run = item.run)
    (hhandler : item'.handler = item.handler)
    (hstatus : ∀ c, declaredCompensation s item.forward = some c →
      (item.status.isIrreversible = true ↔ c.isIrreversible = true ∧ item.status ≠ .abandoned) →
      (item'.status.isIrreversible = true ↔ c.isIrreversible = true ∧ item'.status ≠ .abandoned)) :
    Faithful (Graphrun.evolve s e) item' := by
  obtain ⟨⟨act, hact, hown⟩, c, hc, hname, hiff⟩ := h
  rw [Faithful, hforward, hrun, hhandler]
  refine ⟨owner_evolve placed ⟨act, hact, hown⟩, c, ?_, hname, hstatus c hc hiff⟩
  rw [declaredCompensation_kept tree hact (keeps_evolve placed act.run)]
  exact hc

theorem faithful_evolve (tree : Tree s) (placed : Placed s e) (naming : Naming s e)
    (faithful : ∀ item ∈ s.obligations, Faithful s item) :
    ∀ item ∈ (evolve s e).obligations, Faithful (evolve s e) item := by
  intro item hitem
  have hsame {item : Obligation} (h : item ∈ s.obligations) : Faithful (evolve s e) item :=
    (faithful item h).evolve tree placed rfl rfl rfl fun _ _ hiff => hiff
  -- a new status of what was declared with a compensating activity
  have hchanged {old : Obligation} {status : ObligationStatus} {input : Value}
      (hold : old ∈ s.obligations) (hstatus : status.isIrreversible = false)
      (h : ∃ c, declaredCompensation s old.forward = some c ∧ c.isIrreversible = false) :
      Faithful (evolve s e) { old with status, input } := by
    obtain ⟨c, hc, hreversible⟩ := h
    refine (faithful old hold).evolve tree placed rfl rfl rfl fun c' hc' _ => ?_
    obtain rfl := Option.mem_unique hc hc'
    simp [hstatus, hreversible]
  by_cases hresult : ∃ run b attempt output, e = .leafSucceeded run b attempt output .compensation
  · obtain ⟨run, b, attempt, output, rfl⟩ := hresult
    rw [evolve_obligations] at hitem
    dsimp only at hitem
    rw [if_pos rfl] at hitem
    rcases mem_updateFirst hitem with hold | ⟨old, hold, hcompensating, rfl⟩
    · exact hsame hold
    · have hstatus : old.status = .compensating b := by
        simpa [Obligation.isCompensating] using hcompensating
      obtain ⟨c, hc, hreversible, -⟩ :=
        (faithful old hold).reversible (by rw [hstatus]; rfl) (by simp [hstatus])
      exact hchanged hold rfl ⟨c, hc, hreversible⟩
  rcases obligation_after_cases hitem with hold | ⟨old, hold, change⟩ |
    ⟨run, forward, handler, version, input, status, howes, hhandler, rfl, hnew⟩
  · exact hsame hold
  · cases change with
    | compensated => exact absurd ⟨_, _, _, _, rfl⟩ hresult
    | registered =>
      obtain ⟨-, c, hc, hreversible, -⟩ := naming
      exact hchanged hold rfl ⟨c, hc, hreversible⟩
    | blocked =>
      obtain ⟨-, c, hc, hname, hiff⟩ := naming
      refine (faithful old hold).evolve tree placed rfl rfl rfl fun c' hc' _ => ?_
      obtain rfl := Option.mem_unique hc hc'
      simpa [blockedStatus_isIrreversible, blockedStatus_ne_abandoned] using hiff
    | started | released => exact hchanged hold rfl naming
    | transferred => exact (faithful old hold).evolve tree placed rfl rfl rfl fun _ _ hiff => hiff
    | abandoned =>
      refine (faithful old hold).evolve tree placed rfl rfl rfl fun _ _ _ => ?_
      simp [ObligationStatus.isIrreversible]
  · have hown (h : Rightful s run forward) :
        ∃ act, (evolve s e).activations.lookup forward = some act ∧ act.run = run := by
      refine owner_evolve placed (h.resolve_left fun hmem => ?_)
      obtain ⟨other, hother, hsame⟩ := List.mem_map.mp hmem
      exact hnew other hother hsame
    have hdeclared {c : Compensation} (h : declaredCompensation s forward = some c) :
        declaredCompensation (evolveAll s [e]) forward = some c :=
      declared_evolveAll tree ⟨placed, trivial⟩ h
    cases e with
    | obligationRegistered =>
      obtain ⟨hrightful, c, hc, hreversible, rfl⟩ := naming
      cases howes
      cases hhandler
      exact ⟨hown hrightful, c, hdeclared hc, rfl, by simp [newObligation,
        ObligationStatus.isIrreversible, hreversible]⟩
    | obligationBlocked =>
      obtain ⟨hrightful, c, hc, rfl, hiff⟩ := naming
      cases howes
      cases hhandler
      refine ⟨hown hrightful, c, hdeclared hc, rfl, ?_⟩
      simpa [newObligation, blockedStatus_isIrreversible, blockedStatus_ne_abandoned] using hiff
    | _ => cases howes

theorem faithful_quiet (change : Quiet s s') (tree : Tree s)
    (faithful : ∀ item ∈ s.obligations, Faithful s item) :
    ∀ item ∈ s'.obligations, Faithful s' item := by
  intro item hitem
  obtain ⟨⟨act, hact, hrun⟩, c, hc, hrest⟩ := faithful item (mem_obligations_quiet change hitem)
  have hact' : s'.activations.lookup item.forward = some act := by
    cases change with
    | admitted | stamped | dropped => exact hact
    | retired =>
      have hne : item.run ≠ _ := of_decide_eq_true (List.mem_filter.mp hitem).2
      simp [dropRun, Table.lookup_retain, hact, hrun, hne]
  obtain ⟨sc, hsc, hplace⟩ := (tree.quiet change).placed _ act hact'
  obtain ⟨r, hr⟩ := quiet_run_of_scope tree change hsc
  refine ⟨⟨act, hact', hrun⟩, c, ?_, hrest⟩
  rw [declaredCompensation_kept tree hact (keeps_quiet change (hplace ▸ hr))]
  exact hc

/-! ## Blocked obligations -/

/-- After an obligation has been blocked, its command only opens an activation. -/
theorem Move.opens_after_blocked {run : RunId} {handler reason : String} {version : Nat}
    {before after : List DomainEvent}
    (move : Move env o s time body
      (before ++ .obligationBlocked run forward handler version reason :: after)) :
    ∀ e ∈ after, e.kind = .activationOpened := by
  generalize hes : before ++ DomainEvent.obligationBlocked run forward handler version reason ::
    after = es at move
  have hmem : .obligationBlocked run forward handler version reason ∈ es := by simp [← hes]
  have hkind := move.kinds _ hmem
  have hprobes {run : RunId} {a : ActivationId} {act : ActivationState}
      {probe : List DomainEvent} (h : AppliedProbe run a act probe) :
      ∀ e ∈ probe, e.kind ≠ .obligationBlocked :=
    h.all (P := fun e => e.kind ≠ .obligationBlocked) fun _ _ => by simp
  cases move with
  | @accepted _ run a act output probe owed followed hreported hrole hprobe howed hfollowed =>
    have hopens : ∀ e ∈ followed, e.kind = .activationOpened := by
      rcases hfollowed with ⟨-, rfl⟩ | ⟨-, hfollowed⟩
      · exact List.forall_mem_nil _
      · exact fun e he => List.mem_singleton.mp (hfollowed.kinds (List.mem_singleton_self _) e he)
    have hafter : ∀ e ∈ followed, ¬ e.kind = .obligationBlocked := fun e he => by
      rw [hopens e he]
      exact nofun
    rcases compensationEvents_shape howed with rfl | ⟨x, status, rfl, -⟩
    · simp only [List.mem_append, List.mem_cons, reduceCtorEq, List.not_mem_nil, false_or] at hmem
      rcases hmem with hmem | hmem
      · exact absurd rfl (hprobes hprobe _ hmem)
      · exact absurd rfl (hafter _ hmem)
    · have hsplit : probe ++ .leafSucceeded run a 1 output .forward ::
          .nodeOutputRecorded run act.scope act.node output :: ([x] ++ followed) =
            (probe ++ [.leafSucceeded run a 1 output .forward,
              .nodeOutputRecorded run act.scope act.node output]) ++ x :: followed := by simp
      obtain ⟨-, -, rfl⟩ := eq_of_append_cons (p := fun e => e.kind = .obligationBlocked)
        (List.forall_mem_append.mpr ⟨hprobes hprobe, by simp⟩) hafter rfl
        (hsplit.symm.trans hes.symm)
      exact hopens
  | @blocked _ run a act attempt code message item hreported hrole hitem =>
    have hsplit : [.leafFailed run a attempt code message false] ++
        .obligationBlocked run item.forward item.handler item.handlerVersion
          s!"{code}: {message}" :: [] = before ++ _ := hes.symm
    obtain ⟨-, -, rfl⟩ := eq_of_append_cons (p := fun e => e.kind = .obligationBlocked) (by simp)
      (List.forall_mem_nil _) rfl hsplit
    exact List.forall_mem_nil _
  | compensated _ _ hprobe => exact absurd (kinds_compensated hprobe _ hmem) (by simp)
  | erred _ _ hfailing => exact absurd (kinds_erred hfailing _ hmem) (by simp)
  | notApplied _ _ hsettled => exact absurd (kinds_notApplied hsettled _ hmem) (by simp)
  | unknown _ _ hfailure hescalated =>
    exact absurd (kinds_unknown hfailure hescalated _ hmem) (by simp)
  | outside houtside => exact absurd (kinds_outside houtside _ hmem) (by simp)
  | satisfied hsettling | timedOut hsettling =>
    rcases hsettling.hbody with rfl | rfl <;> simp at hkind
  | retried | lost => simp at hmem
  | _ => simp at hkind

theorem evolveAll_obligations_of_kinds
    (h : ∀ e ∈ es, e.kind = .activationOpened) :
    (evolveAll s es).obligations = s.obligations := by
  refine evolveAll_keeps (P := fun core => core.obligations = s.obligations)
    (fun core e he hcore => ?_) h rfl
  rw [evolve_obligations, ← hcore]
  cases e <;> first | rfl | cases he

/-- An obligation that is blocked under the name of an activity is there and blocked. -/
theorem blocked_after {run : RunId} {handler reason : String} {version : Nat}
    (hname : handler ≠ "irreversible") :
    ∃ item ∈ (evolve s (.obligationBlocked run forward handler version reason)).obligations,
      item.forward = forward ∧ item.status = .blocked reason := by
  rw [evolve_obligations]
  dsimp only
  split
  · next hthere =>
    obtain ⟨found, -, hfound, hupdated⟩ := exists_mem_updateFirst
      (f := fun item => { item with status := blockedStatus handler reason }) hthere
    exact ⟨_, hupdated, isOf_iff.mp hfound, by simp [blockedStatus, hname]⟩
  · exact ⟨_, List.mem_append_right _ (List.mem_singleton_self _), rfl,
      by simp [newObligation, blockedStatus, hname]⟩

theorem find?_of_oneEach (once : OneEach s) (hitem : item ∈ s.obligations) :
    s.obligations.find? (fun other => other.forward = item.forward) = some item := by
  cases hfound : s.obligations.find? (fun other => other.forward = item.forward) with
  | none => exact absurd (List.find?_eq_none.mp hfound item hitem) (by simp)
  | some found =>
    have hsame : found.forward = item.forward := by simpa using List.find?_some hfound
    rw [List.inj_on_of_nodup_map once (List.mem_of_find?_eq_some hfound) hitem hsame]

theorem decideResolveBlocked_eq {reason : String} (once : OneEach s) (hitem : item ∈ s.obligations)
    (hstatus : item.status = .blocked reason) (input : Value) :
    decideResolveBlocked s item.run item.forward input = .ok
      [.obligationRegistered item.run item.forward item.handler item.handlerVersion input] := by
  have hblocked : item.status.isBlocked = true := by rw [hstatus]; rfl
  simp only [decideResolveBlocked, find?_of_oneEach once hitem, bind_eq_ok, okOr_eq_ok,
    refuseIf_eq_ok, pure_eq_ok]
  exact ⟨item, rfl, (), by simp, (), by simp [hblocked], rfl⟩

/-! ## Failed compensations -/

/-- The input of a compensation, given the output of the activity that it undoes. -/
def compensationInput (s : Core) (act : ActivationState) (forwardInput input : Binding)
    (output : Value) : Result Value := do
  let scope ← okOr (s.scopes.lookup act.scope) (invalid "unknown scope")
  let ctx ← evalCtx s scope
  let bound ← attempt (evalBinding ctx forwardInput)
  evalBinding { ctx with forwardInput := bound, forwardOutput := some output } input

/-- Among the events of a command, the compensation of an activation fails for good: its input
cannot be bound, or the compensating activity ends with an error that is not retried. -/
inductive CompensationFails (s : Core) (es : List DomainEvent) : ActivationId → String → Prop
  | unbound {run a attempt output act key forwardInput timeoutMs retry activity input timeoutMs'
      retry' next fault} (haccepted : .leafSucceeded run a attempt output .forward ∈ es)
      (hact : s.activations.lookup a = some act)
      (hnode : nodeOf s act.scope act.node = some (.activity key forwardInput timeoutMs retry
        (some (.activity activity input timeoutMs' retry')) next))
      (hfault : compensationInput s act forwardInput input output = .error fault) :
      CompensationFails s es a fault.message
  | terminal {run a attempt code message act item}
      (hfailed : .leafFailed run a attempt code message false ∈ es)
      (hact : s.activations.lookup a = some act) (hrole : act.role = .compensation)
      (hitem : compensatedBy s a = some item) :
      CompensationFails s es item.forward s!"{code}: {message}"

/-- A claim on a compensation is one to compensate. -/
def RightlyClaimed (s : Core) : Prop :=
  ∀ a act claim, s.activations.lookup a = some act → act.claim = some claim →
    act.role = .compensation → claim.role = .compensation

theorem RightlyClaimed.evolve {s₀ : Core}
    (granted : e.kind = .claimGranted → GrantedIn o s₀ time s e) (h : RightlyClaimed s) :
    RightlyClaimed (Graphrun.evolve s e) := by
  intro a act claim hact hclaim hrole
  obtain ⟨old, hold, rfl⟩ := activation_before_of_claim hact hclaim
  have hbefore {c : ClaimState} (hc : old.claim = some c) : c.role = .compensation :=
    h a old c hold hc hrole
  cases e
  case claimGranted =>
    simp only [ActivationState.after, claimAfter] at hclaim
    split at hclaim
    · next heq =>
      subst heq
      obtain rfl := Option.some.inj hclaim
      obtain ⟨⟨hact₀, -, -, -, -, -, rfl, -⟩, -, hsame⟩ := granted rfl
      obtain rfl := Option.mem_unique hold (hsame.trans hact₀)
      exact if_pos hrole
    · exact hbefore hclaim
  case claimRenewed | reconciliationRecorded =>
    simp only [ActivationState.after, claimAfter] at hclaim
    split at hclaim
    · obtain ⟨c, hc, rfl⟩ := Option.map_eq_some_iff.mp hclaim
      exact (hbefore hc : c.role = _)
    · exact hbefore hclaim
  case leafFailed | claimCleared | compensationAbandoned =>
    simp only [ActivationState.after, claimAfter] at hclaim
    split at hclaim
    · cases hclaim
    · exact hbefore hclaim
  all_goals exact hbefore hclaim

theorem RightlyClaimed.quiet (change : Quiet s s') (h : RightlyClaimed s) :
    RightlyClaimed s' :=
  fun a act claim hact => h a act claim (change.activations hact)

/-- An input that cannot be bound blocks the obligation. -/
theorem compensationEvents_unbound {act : ActivationState} {output : Value} {fault : Fault}
    {key forwardInput timeoutMs retry activity input timeoutMs' retry' next} (tree : Tree s)
    (hact : s.activations.lookup a = some act)
    (hnode : nodeOf s act.scope act.node = some (.activity key forwardInput timeoutMs retry
      (some (.activity activity input timeoutMs' retry')) next))
    (hfault : compensationInput s act forwardInput input output = .error fault)
    (h : compensationEvents s act output = .ok es) :
    es = [.obligationBlocked act.run a activity.name activity.version fault.message] := by
  obtain ⟨sc, hsc, -⟩ := tree.placed a act hact
  simp only [compensationInput, hsc, okOr, ok_bind] at hfault
  simp only [compensationEvents, hnode, hsc, bind_eq_ok] at h
  obtain ⟨ctx, hctx, bound, hbound, h⟩ := h
  simp only [hctx, ok_bind, hbound] at hfault
  simp only [hfault, pure_eq_ok] at h
  rw [← h, tree.keyed.activations a act hact]

/-- A success that is accepted comes with the events of its compensation. -/
theorem Move.owed_of_succeeded {run : RunId} {attempt : Nat} {output : Value}
    (move : Move env o s time body es)
    (hmem : .leafSucceeded run a attempt output .forward ∈ es) :
    ∃ act owed, s.activations.lookup a = some act ∧
      compensationEvents s act output = .ok owed ∧ owed ⊆ es := by
  have hbody := move.kinds _ hmem
  cases move with
  | @accepted _ _ b act _ probe owed followed hreported _ hprobe howed hfollowed =>
    simp only [List.mem_append, List.mem_cons, DomainEvent.leafSucceeded.injEq, reduceCtorEq,
      false_or] at hmem
    rcases hmem with hmem | ⟨-, rfl, -, rfl, -⟩ | hmem | hmem
    · exact absurd (hprobe.kinds (List.mem_singleton_self _) _ hmem) (by simp)
    · exact ⟨act, owed, hreported.hact, howed, fun e he => by simp [he]⟩
    · refine absurd rfl (compensationEvents_all (P := fun e => e.kind ≠ .leafSucceeded) howed
        ?_ ?_ _ hmem) <;> simp
    · rcases hfollowed with ⟨-, rfl⟩ | ⟨-, hfollowed⟩
      · cases hmem
      · exact absurd (hfollowed.kinds (List.mem_singleton_self _) _ hmem) (by simp)
  | compensated _ _ hprobe =>
    rcases List.mem_append.mp hmem with hmem | hmem
    · exact absurd (hprobe.kinds (List.mem_singleton_self _) _ hmem) (by simp)
    · simp at hmem
  | retried | blocked | lost => simp at hmem
  | erred _ _ hfailing => exact absurd (kinds_erred hfailing _ hmem) (by simp)
  | notApplied _ _ hsettled => exact absurd (kinds_notApplied hsettled _ hmem) (by simp)
  | unknown _ _ hfailure hescalated =>
    exact absurd (kinds_unknown hfailure hescalated _ hmem) (by simp)
  | outside houtside => exact absurd (kinds_outside houtside _ hmem) (by simp)
  | satisfied hsettling | timedOut hsettling =>
    rcases hsettling.hbody with rfl | rfl <;> exact absurd hbody (by simp)
  | _ => exact absurd hbody (by simp)

/-- A compensation that ends with an error blocks its obligation. -/
theorem Move.blocked_of_failed {run : RunId} {attempt : Nat} {code message : String}
    {act : ActivationState} (claimed : RightlyClaimed s) (move : Move env o s time body es)
    (hmem : .leafFailed run a attempt code message false ∈ es)
    (hact : s.activations.lookup a = some act) (hrole : act.role = .compensation)
    (hitem : compensatedBy s a = some item) :
    .obligationBlocked run item.forward item.handler item.handlerVersion
      s!"{code}: {message}" ∈ es := by
  have hbody := move.kinds _ hmem
  cases move with
  | blocked _ _ hitem' =>
    simp only [List.mem_cons, DomainEvent.leafFailed.injEq, reduceCtorEq, List.not_mem_nil,
      or_false] at hmem
    obtain ⟨rfl, rfl, -, rfl, rfl, -⟩ := hmem
    obtain rfl := Option.mem_unique hitem hitem'
    exact List.mem_cons_of_mem _ (List.mem_singleton_self _)
  | lost _ _ hnone =>
    simp only [List.mem_singleton, DomainEvent.leafFailed.injEq] at hmem
    rw [hmem.2.1, hnone] at hitem
    cases hitem
  | erred hreported hforward hfailing =>
    rcases List.mem_cons.mp hmem with hmem | hmem
    · simp only [DomainEvent.leafFailed.injEq] at hmem
      rw [hmem.2.1] at hact
      obtain rfl := Option.mem_unique hact hreported.hact
      exact absurd hrole hforward
    · exact absurd (hfailing.kinds (List.Subset.refl _) _ hmem) (by simp)
  | @notApplied _ _ b _ _ _ hreported hprobed hsettled =>
    have hsame : a = b := by
      rcases hsettled with ⟨-, rfl⟩ | ⟨-, _, _, _, rfl⟩ <;>
        simp only [List.mem_cons, DomainEvent.leafFailed.injEq, reduceCtorEq, List.not_mem_nil,
          false_or, or_false] at hmem
      exact hmem.2.1
    subst hsame
    -- a compensation is not probed
    obtain ⟨claim, hclaim, hprobe, -⟩ := hprobed
    obtain rfl := Option.mem_unique hact hreported.hact
    rw [claimed _ _ claim hact hclaim hrole] at hprobe
    cases hprobe
  | retried => simp at hmem
  | accepted _ _ hprobe howed hfollowed =>
    exact absurd (kinds_accepted hprobe howed hfollowed _ hmem) (by simp)
  | compensated _ _ hprobe => exact absurd (kinds_compensated hprobe _ hmem) (by simp)
  | unknown _ _ hfailure hescalated =>
    exact absurd (kinds_unknown hfailure hescalated _ hmem) (by simp)
  | outside houtside => exact absurd (kinds_outside houtside _ hmem) (by simp)
  | satisfied hsettling | timedOut hsettling =>
    rcases hsettling.hbody with rfl | rfl <;> exact absurd hbody (by simp)
  | _ => exact absurd hbody (by simp)

/-- Whatever makes a compensation fail, its obligation is blocked for it. -/
theorem Move.blocks {reason : String} (tree : Tree s) (claimed : RightlyClaimed s)
    (move : Move env o s time body es) (fails : CompensationFails s es forward reason) :
    ∃ run handler version, .obligationBlocked run forward handler version reason ∈ es := by
  cases fails with
  | unbound haccepted hact hnode hfault =>
    obtain ⟨act, owed, hact', howed, hsub⟩ := move.owed_of_succeeded haccepted
    obtain rfl := Option.mem_unique hact hact'
    rw [compensationEvents_unbound tree hact hnode hfault howed] at hsub
    exact ⟨_, _, _, hsub (List.mem_singleton_self _)⟩
  | terminal hfailed hact hrole hitem =>
    exact ⟨_, _, _, move.blocked_of_failed claimed hfailed hact hrole hitem⟩

/-! ## Every run -/

structure Vouched (s : Core) : Prop where
  tree : Tree s
  once : OneEach s
  faithful : ∀ item ∈ s.obligations, Faithful s item
  claimed : RightlyClaimed s

theorem Vouched.quiet (change : Quiet s s') (h : Vouched s) : Vouched s' :=
  ⟨h.tree.quiet change, h.once.quiet change, faithful_quiet change h.tree h.faithful,
    h.claimed.quiet change⟩

theorem vouched_empty (clusterId : String) : Vouched (State.empty clusterId).toCore :=
  ⟨tree_empty clusterId, List.nodup_nil, List.forall_mem_nil _, fun _ _ _ h => by cases h⟩

theorem Vouched.step {step : Step} (h : Vouched step.before) (decided : Decided env step)
    (fresh : Fresh step) (apart : NamedApart step.before) : Vouched step.after := by
  obtain ⟨o, move⟩ := decided.move fresh.unreplayed
  have hplaced := decided.placed h.tree fresh
  refine ((hplaced.and (move.naming h.tree apart h.faithful hplaced)).and move.granted).keeps
    (P := Vouched) ?_ h
  rintro core e ⟨⟨placed, naming⟩, granted⟩ vouched
  exact ⟨vouched.tree.evolve placed, vouched.once.evolve,
    faithful_evolve vouched.tree placed naming vouched.faithful, vouched.claimed.evolve granted⟩

/-- The obligation of an activation is blocked for a reason, and an operator can resolve it. -/
def Resolvable (s : Core) (forward : ActivationId) (reason : String) : Prop :=
  ∃ item ∈ s.obligations, item.forward = forward ∧ item.status = .blocked reason ∧
    ∀ input, decideResolveBlocked s item.run forward input = .ok
      [.obligationRegistered item.run forward item.handler item.handlerVersion input]

/-- An obligation with an activity to compensate with can be resolved after it has been blocked. -/
theorem Vouched.resolvable {step : Step} {run : RunId} {handler reason : String} {version : Nat}
    (h : Vouched step.before) (apart : NamedApart step.before)
    (move : Move env o step.before step.time step.body step.events)
    (hmem : .obligationBlocked run forward handler version reason ∈ step.events)
    (hc : declaredCompensation step.before forward = some c)
    (hreversible : c.isIrreversible = false) : Resolvable step.after forward reason := by
  obtain ⟨-, c', hc', -, hiff⟩ : Naming step.before _ :=
    (move.dutiful _ hmem (by simp)).naming h.tree.keyed apart h.faithful
  obtain rfl := Option.mem_unique hc hc'
  have hname : handler ≠ "irreversible" := by
    rw [ne_eq, hiff, hreversible]
    simp
  obtain ⟨before, after, hevents⟩ := List.append_of_mem hmem
  rw [hevents] at move
  have hafter : step.after.obligations = (evolve (evolveAll step.before before)
      (.obligationBlocked run forward handler version reason)).obligations := by
    rw [Step.after, hevents, evolveAll, List.foldl_append, List.foldl_cons]
    exact evolveAll_obligations_of_kinds move.opens_after_blocked
  have honce : OneEach step.after := h.once.evolveAll
  obtain ⟨item, hitem, rfl, hstatus⟩ : ∃ item ∈ step.after.obligations,
      item.forward = forward ∧ item.status = .blocked reason := hafter ▸ blocked_after hname
  exact ⟨item, hitem, rfl, hstatus, decideResolveBlocked_eq honce hitem hstatus⟩

/-- A compensation that fails has an activity to compensate with. -/
theorem CompensationFails.reversible {reason : String}
    (faithful : ∀ item ∈ s.obligations, Faithful s item)
    (fails : CompensationFails s es forward reason) :
    ∃ c, declaredCompensation s forward = some c ∧ c.isIrreversible = false := by
  cases fails with
  | unbound _ hact hnode => exact ⟨_, declaredCompensation_eq hact hnode, rfl⟩
  | terminal _ _ _ hitem =>
    have hstatus := List.find?_some hitem
    simp only [Obligation.isCompensating, decide_eq_true_eq] at hstatus
    obtain ⟨-, c, hc, -, hiff⟩ := faithful _ (List.mem_of_find?_eq_some hitem)
    rw [hstatus] at hiff
    refine ⟨c, hc, Bool.eq_false_iff.mpr fun hirreversible => ?_⟩
    cases hiff.mpr ⟨hirreversible, by simp⟩

/-- In every run that draws unused identities and in which no activity to compensate with is called
`irreversible`: an obligation is irreversible if and only if the node of its forward activation
declares it and it has not been abandoned, one with an activity to compensate with that has been
blocked can be resolved, and it is blocked when its compensation fails. -/
theorem irreversible_as_declared {clusterId : String} {log : List Step} {final : State}
    (hrun : Run env (.empty clusterId) log final)
    (hsteps : ∀ step ∈ log, Fresh step ∧ NamedApart step.before) :
    (∀ s, (s = final.toCore ∨ ∃ step ∈ log, s = step.before) → ∀ item ∈ s.obligations,
      ∃ c, declaredCompensation s item.forward = some c ∧
        (item.status.isIrreversible = true ↔
          c.isIrreversible = true ∧ item.status ≠ .abandoned)) ∧
    (∀ step ∈ log, ∀ run forward handler version reason c,
      .obligationBlocked run forward handler version reason ∈ step.events →
      declaredCompensation step.before forward = some c → c.isIrreversible = false →
        Resolvable step.after forward reason) ∧
    ∀ step ∈ log, ∀ forward reason, CompensationFails step.before step.events forward reason →
      Resolvable step.after forward reason := by
  have htrace := hrun.trace (keyed_empty clusterId)
  obtain ⟨hfinal, hbefore⟩ := htrace.invariant (fun _ _ => Vouched.quiet)
    (fun _ decided condition h => h.step decided condition.1 condition.2)
    (vouched_empty clusterId) hsteps
  refine ⟨fun s hs item hitem => ?_, fun step hstep run forward handler version reason c => ?_,
    fun step hstep forward reason fails => ?_⟩
  · have hvouched : Vouched s := by
      rcases hs with rfl | ⟨step, hstep, rfl⟩
      · exact hfinal
      · exact hbefore step hstep
    obtain ⟨-, c, hc, -, hiff⟩ := hvouched.faithful item hitem
    exact ⟨c, hc, hiff⟩
  · obtain ⟨hfresh, apart⟩ := hsteps step hstep
    obtain ⟨o, move⟩ := (htrace.decided step hstep).move hfresh.unreplayed
    exact (hbefore step hstep).resolvable apart move
  · obtain ⟨hfresh, apart⟩ := hsteps step hstep
    obtain ⟨o, move⟩ := (htrace.decided step hstep).move hfresh.unreplayed
    have vouched := hbefore step hstep
    obtain ⟨run, handler, version, hmem⟩ := move.blocks vouched.tree vouched.claimed fails
    obtain ⟨c, hc, hreversible⟩ := fails.reversible vouched.faithful
    exact vouched.resolvable apart move hmem hc hreversible

/-! ## A name for two things -/

/-- A saga around an activity whose compensation, by the given activity, takes a part of the output
that the output does not have. -/
def blockedTrip (handler : String) : List Command := [
  { id := ⟨1⟩
    body := .start ⟨1⟩ (sampleWorkflow [] "trip" [("done", .complete (.literal .null)),
      ("trip", .saga (.literal .null) (sampleRegion "book" [
        ("book", sampleActivity "book" (some (.activity ⟨handler, 1⟩
          (.from .forwardOutput (some "/receipt")) none none)) "done"),
        ("done", .complete (.literal .null))]) "done")]) .null
      (sampleCatalog ["book", handler] .retrySafe)
    time := 1 },
  { id := ⟨2⟩, body := .progress ⟨1⟩, time := 2 },
  { id := ⟨3⟩, body := .reportLeaf ⟨1⟩ ⟨66⟩ .null, time := 3 }]

/-- The compensating activity is called `irreversible`: the obligation is, and nothing resolves
it. -/
theorem namedIrreversible_stuck : ∃ log final, Run sampleEnv (.empty sampleCluster) log final ∧
    (∀ step ∈ log, Fresh step) ∧ ∃ item ∈ final.toCore.obligations, ∃ c,
      declaredCompensation final.toCore item.forward = some c ∧ c.isIrreversible = false ∧
      item.status.isIrreversible = true ∧
      (decideResolveBlocked final.toCore item.run item.forward .null).toOption = none := by
  obtain ⟨log, final, hrun, hcheck⟩ := exists_sampleRun (blockedTrip "irreversible")
    (fun log final => log.all (Fresh ·) && final.obligations.any fun item =>
      ((declaredCompensation final.toCore item.forward).any (!·.isIrreversible)) &&
        item.status.isIrreversible &&
        (decideResolveBlocked final.toCore item.run item.forward .null).toOption.isNone)
    (by decide +kernel)
  simp only [Bool.and_eq_true, List.all_eq_true, List.any_eq_true, Option.any_eq_true,
    Option.isNone_iff_eq_none, Bool.not_eq_true', decide_eq_true_eq] at hcheck
  obtain ⟨hsteps, item, hitem, ⟨⟨c, hc, hreversible⟩, hstatus⟩, hrefused⟩ := hcheck
  exact ⟨log, final, hrun, hsteps, item, hitem, c, hc, hreversible, hstatus, hrefused⟩

def Step.checksNamedApart (step : Step) : Bool :=
  step.before.activations.entries.all fun entry =>
    (declaredCompensation step.before entry.1).all fun c =>
      c.isIrreversible || c.handler ≠ "irreversible"

theorem namedApart_of_check {step : Step} (h : step.checksNamedApart = true) :
    NamedApart step.before := by
  intro a c hc hreversible
  cases hact : step.before.activations.lookup a with
  | none => simp [declaredCompensation, hact] at hc
  | some act =>
    have hentry := List.all_eq_true.mp h _ (AList.mem_lookup_iff.mp hact)
    simpa [hc, hreversible] using hentry

/-- Under another name it is blocked, and can be resolved. -/
theorem namedOtherwise_resolvable : ∃ log final step item,
    Run sampleEnv (.empty sampleCluster) log final ∧
    (∀ step ∈ log, Fresh step ∧ NamedApart step.before) ∧ step ∈ log ∧
    item ∈ step.after.obligations ∧ item.status.isBlocked = true ∧
    (decideResolveBlocked step.after item.run item.forward .null).toOption.isSome = true := by
  obtain ⟨log, final, hrun, hcheck⟩ := exists_sampleRun (blockedTrip "cancel")
    (fun log _ => log.all (fun step => Fresh step && step.checksNamedApart) &&
      (log[2]?).any fun step => (step.events[2]?).any fun e => match e with
        | .obligationBlocked _ forward _ _ _ =>
          (declaredCompensation step.before forward).any (!·.isIrreversible)
        | _ => false)
    (by decide +kernel)
  obtain ⟨hchecked, hblocked⟩ := Bool.and_eq_true_iff.mp hcheck
  have hsteps : ∀ step ∈ log, Fresh step ∧ NamedApart step.before := by
    intro step hstep
    obtain ⟨hfresh, hapart⟩ := Bool.and_eq_true_iff.mp (List.all_eq_true.mp hchecked step hstep)
    exact ⟨of_decide_eq_true hfresh, namedApart_of_check hapart⟩
  obtain ⟨step, hlog, hblocked⟩ := eq_append_of_any hblocked
  obtain ⟨e, hevents, hblocked⟩ := eq_append_of_any hblocked
  have hstep : step ∈ log := by rw [hlog]; simp
  split at hblocked
  · next run forward handler version reason =>
    cases hc : declaredCompensation step.before forward with
    | none => simp [hc] at hblocked
    | some c =>
      obtain ⟨item, hitem, rfl, hstatus, hresolved⟩ :=
        (irreversible_as_declared hrun hsteps).2.1 step
        hstep run forward handler version reason c (by rw [hevents]; simp) hc
        (by simpa [hc] using hblocked)
      exact ⟨log, final, step, item, hrun, hsteps, hstep, hitem, by rw [hstatus]; rfl,
        by rw [hresolved]; rfl⟩
  · cases hblocked

end Graphrun
