import Graphrun.Engine.Closing
import Graphrun.Engine.Execution
import Graphrun.Signals.Delivery

/-!
# No accepted signal is stranded

A signal that finds a pending wait is reserved to it. As long as at most one unconsumed entry
is reserved to a wait, whatever ends the wait also deals with the entry: a satisfied wait
consumes it, a cancelled wait releases it, and a wait with an entry does not time out. So an
entry is never left reserved to a wait that has closed (`Reservations`).

`decide_signal` does not look at the entries that the wait already has: a second signal to the
same pending wait is reserved to it too and is stranded when the wait is satisfied
(`secondSignal_stranded`). The condition `WaitsUnreserved` excludes this.
-/

namespace Graphrun

open Lib

variable {env : Env} {o : Enumeration} {s : Core} {time : Nat} {ids : IdGen} {e : DomainEvent}
  {s' t : Core} {w : WaitId} {entry : InboxEntry} {eventId : EventId} {wait : WaitState}
  {es : List DomainEvent}

/-! ## The invariant -/

/-- An unconsumed entry that is reserved to a wait. -/
def ReservedIn (s : Core) (w : WaitId) (entry : InboxEntry) : Prop :=
  entry ∈ s.inbox ∧ entry.consumed = false ∧ entry.reservedWait = some w

/-- Every reserved entry belongs to a pending wait of its run, which has no other entry. -/
structure Reservations (s : Core) : Prop where
  keyed : Keyed s
  distinct : (s.inbox.map InboxEntry.identity).Nodup
  waiting : ∀ w entry, ReservedIn s w entry → ∃ wait, s.waits.lookup w = some wait ∧
    wait.pending = true ∧ entry.run = some wait.run
  single : ∀ w entry entry', ReservedIn s w entry → ReservedIn s w entry' → entry = entry'

/-- What an event needs in order to strand no entry. -/
def Orderly (s : Core) : DomainEvent → Prop
  | .waitSatisfied run w eventId _ => ∀ entry, ReservedIn s w entry →
    entry.identity = (some run, eventId)
  | .waitTimedOut _ w | .waitCancelled _ w => ∀ entry, ¬ ReservedIn s w entry
  | .eventAccepted run eventId _ _ _ _ _ _ => ∀ entry ∈ s.inbox,
    entry.identity ≠ (some run, eventId)
  | .eventReserved w _ => (∃ wait, s.waits.lookup w = some wait ∧ wait.pending = true) ∧
    ∀ entry, ¬ ReservedIn s w entry
  | .waitOpened _ w _ _ _ _ _ => s.waits.lookup w = none
  | _ => True

/-- Entries may lose their reservation or disappear, and waits without entries may change. -/
theorem Reservations.shrink (reservations : Reservations s) (keyed : Keyed s')
    (hdistinct : (s'.inbox.map InboxEntry.identity).Nodup)
    (hinbox : ∀ w entry, ReservedIn s' w entry → ReservedIn s w entry)
    (hwaits : ∀ w entry wait, ReservedIn s' w entry → s.waits.lookup w = some wait →
      entry.run = some wait.run → s'.waits.lookup w = some wait) : Reservations s' where
  keyed := keyed
  distinct := hdistinct
  waiting w entry h := by
    obtain ⟨wait, hwait, hpending, hrun⟩ := reservations.waiting w entry (hinbox w entry h)
    exact ⟨wait, hwaits w entry wait h hwait hrun, hpending, hrun⟩
  single w entry entry' h h' := reservations.single w entry entry' (hinbox w entry h)
    (hinbox w entry' h')

theorem Reservations.quiet (change : Quiet s s') (reservations : Reservations s) :
    Reservations s' := by
  have keyed := reservations.keyed.quiet change
  cases change with
  | admitted | stamped =>
    exact reservations.shrink keyed reservations.distinct (fun _ _ h => h) (fun _ _ _ _ h _ => h)
  | dropped =>
    refine reservations.shrink keyed ?_ ?_ (fun _ _ _ _ h _ => h)
    · exact reservations.distinct.sublist (List.filter_sublist.map _)
    · rintro w entry ⟨hmem, hfree⟩
      exact ⟨List.mem_of_mem_filter hmem, hfree⟩
  | @retired run runState hrun hended =>
    refine reservations.shrink keyed ?_ ?_ ?_
    · exact reservations.distinct.sublist (List.filter_sublist.map _)
    · rintro w entry ⟨hmem, hfree⟩
      exact ⟨List.mem_of_mem_filter hmem, hfree⟩
    · -- the entry is still there, so neither it nor its wait belongs to the run that goes
      rintro w entry wait ⟨hmem, -⟩ hwait hown
      have hother : entry.run ≠ some run := by simpa using (List.mem_filter.mp hmem).2
      have hne : wait.run ≠ run := fun heq => hother (heq ▸ hown)
      rw [dropRun, Table.lookup_retain, hwait]
      simp [hne]

theorem reservedIn_of_inbox (hinbox : s'.inbox = s.inbox) (h : ReservedIn s' w entry) :
    ReservedIn s w entry :=
  ⟨hinbox ▸ h.1, h.2⟩

/-- An entry may be released. -/
theorem reservedIn_of_held {run : Option RunId} (hinbox : s'.inbox =
      updateFirst (InboxEntry.names run eventId) (InboxEntry.heldFor none) s.inbox)
    (h : ReservedIn s' w entry) : ReservedIn s w entry := by
  obtain ⟨hmem, hfree, hreserved⟩ := h
  rw [hinbox] at hmem
  rcases mem_updateFirst hmem with hmem | ⟨old, -, -, rfl⟩
  · exact ⟨hmem, hfree, hreserved⟩
  · cases hreserved

theorem lookup_closed_of_ne {w' : WaitId} (hwaits : s'.waits = s.waits.modify w WaitState.close)
    (hne : w' ≠ w) (h : s.waits.lookup w' = some wait) : s'.waits.lookup w' = some wait := by
  rw [hwaits, Table.lookup_modify, if_neg hne]
  exact h

theorem distinct_updateFirst {p : InboxEntry → Bool} {f : InboxEntry → InboxEntry}
    (hf : ∀ entry, (f entry).identity = entry.identity) (reservations : Reservations s) :
    ((updateFirst p f s.inbox).map InboxEntry.identity).Nodup := by
  rw [map_updateFirst hf]
  exact reservations.distinct

/-- A wait that takes the entry that is reserved to it leaves none behind. -/
theorem Reservations.satisfied {run : RunId} {payload : Value} (reservations : Reservations s)
    (orderly : Orderly s (.waitSatisfied run w eventId payload)) :
    Reservations (evolve s (.waitSatisfied run w eventId payload)) := by
  have hinbox := evolve_inbox s (.waitSatisfied run w eventId payload)
  have hwaits := evolve_waits s (.waitSatisfied run w eventId payload)
  simp only at hinbox hwaits
  have hold : ∀ w' entry,
      ReservedIn (Graphrun.evolve s (.waitSatisfied run w eventId payload)) w' entry →
      ReservedIn s w' entry := by
    rintro w' entry ⟨hmem, hfree, hreserved⟩
    rw [hinbox] at hmem
    rcases mem_updateFirst hmem with hmem | ⟨old, -, -, rfl⟩
    · exact ⟨hmem, hfree, hreserved⟩
    · cases hfree
  refine reservations.shrink (reservations.keyed.evolve _) ?_ hold ?_
  · rw [hinbox]
    exact distinct_updateFirst (fun _ => rfl) reservations
  · intro w' entry wait h hwait _
    refine lookup_closed_of_ne hwaits (fun heq => ?_) hwait
    -- an entry of the wait is the one that is consumed
    have hidentity := orderly entry (heq ▸ hold w' entry h)
    obtain ⟨hmem, hfree, -⟩ := h
    rw [hinbox] at hmem
    obtain ⟨old, -, -, rfl⟩ := updated_of_key (f := InboxEntry.consumedBy w)
      reservations.distinct (fun _ => names_eq_true) hmem hidentity
    cases hfree

/-- A pending wait without an entry may get one. -/
theorem Reservations.reserved (reservations : Reservations s)
    (orderly : Orderly s (.eventReserved w eventId)) :
    Reservations (evolve s (.eventReserved w eventId)) := by
  obtain ⟨⟨wait, hwait, hpending⟩, hnone⟩ := orderly
  have hinbox := evolve_inbox s (.eventReserved w eventId)
  have hwaits := evolve_waits s (.eventReserved w eventId)
  simp only [hwait, Option.map_some] at hinbox hwaits
  have hdistinct : ((Graphrun.evolve s (.eventReserved w eventId)).inbox.map
      InboxEntry.identity).Nodup := by
    rw [hinbox]
    exact distinct_updateFirst (fun _ => rfl) reservations
  have hcases : ∀ w' entry, ReservedIn (Graphrun.evolve s (.eventReserved w eventId)) w' entry →
      ReservedIn s w' entry ∨
        (w' = w ∧ entry.identity = (some wait.run, eventId)) := by
    rintro w' entry ⟨hmem, hfree, hreserved⟩
    rw [hinbox] at hmem
    rcases mem_updateFirst hmem with hmem | ⟨old, -, hnames, rfl⟩
    · exact .inl ⟨hmem, hfree, hreserved⟩
    · exact .inr ⟨(Option.some.inj hreserved).symm, names_eq_true.mp hnames⟩
  refine ⟨reservations.keyed.evolve _, hdistinct, ?_, ?_⟩
  · intro w' entry h
    rw [hwaits]
    rcases hcases w' entry h with hold | ⟨rfl, hidentity⟩
    · exact reservations.waiting w' entry hold
    · exact ⟨wait, hwait, hpending, congrArg Prod.fst hidentity⟩
  · intro w' entry entry' h h'
    rcases hcases w' entry h with hold | ⟨rfl, hidentity⟩ <;>
      rcases hcases w' entry' h' with hold' | ⟨hw, hidentity'⟩
    · exact reservations.single w' entry entry' hold hold'
    · exact absurd (hw ▸ hold) (hnone entry)
    · exact absurd hold' (hnone entry')
    · exact List.inj_on_of_nodup_map hdistinct h.1 h'.1 (hidentity.trans hidentity'.symm)

/-- Orderly events strand no entry. -/
theorem Reservations.evolve (orderly : Orderly s e) (reservations : Reservations s) :
    Reservations (evolve s e) := by
  have keyed := reservations.keyed.evolve e
  have hinbox := evolve_inbox s e
  have hwaits := evolve_waits s e
  cases e
  case waitSatisfied => exact reservations.satisfied orderly
  case eventReserved => exact reservations.reserved orderly
  case waitTimedOut run w | waitCancelled run w =>
    refine reservations.shrink keyed (hinbox ▸ reservations.distinct)
      (fun _ _ h => reservedIn_of_inbox hinbox h) ?_
    intro w' entry wait h hwait _
    refine lookup_closed_of_ne hwaits (fun heq => ?_) hwait
    exact orderly entry (heq ▸ reservedIn_of_inbox hinbox h)
  case eventAccepted =>
    refine reservations.shrink keyed ?_ ?_ (fun _ _ _ _ h _ => hwaits ▸ h)
    · rw [hinbox, List.map_append, List.nodup_append]
      refine ⟨reservations.distinct, by simp, ?_⟩
      intro i hi j hj
      obtain ⟨other, hother, rfl⟩ := List.mem_map.mp hi
      rw [List.map_singleton, List.mem_singleton] at hj
      rw [hj]
      exact orderly other hother
    · rintro w entry ⟨hmem, hfree, hreserved⟩
      rw [hinbox, List.mem_append, List.mem_singleton] at hmem
      rcases hmem with hmem | rfl
      · exact ⟨hmem, hfree, hreserved⟩
      · cases hreserved
  case reservationReleased =>
    refine reservations.shrink keyed ?_ (fun _ _ h => reservedIn_of_held hinbox h)
      (fun _ _ _ _ h _ => hwaits ▸ h)
    rw [hinbox]
    exact distinct_updateFirst (fun _ => rfl) reservations
  case waitOpened run w _ _ _ _ _ =>
    refine reservations.shrink keyed (hinbox ▸ reservations.distinct)
      (fun _ _ h => reservedIn_of_inbox hinbox h) ?_
    intro w' entry wait h hwait _
    have hne : w' ≠ w := by
      rintro rfl
      rw [show s.waits.lookup w' = none from orderly] at hwait
      cases hwait
    rw [hwaits, Table.lookup_insert_eq, if_neg hne]
    exact hwait
  case eventExpired =>
    refine reservations.shrink keyed ?_ ?_ (fun _ _ _ _ h _ => hwaits ▸ h)
    · rw [hinbox]
      exact reservations.distinct.sublist (List.filter_sublist.map _)
    · rintro w entry ⟨hmem, hfree⟩
      rw [hinbox] at hmem
      exact ⟨List.mem_of_mem_filter hmem, hfree⟩
  all_goals
    exact reservations.shrink keyed (hinbox ▸ reservations.distinct)
      (fun _ _ h => reservedIn_of_inbox hinbox h) (fun _ _ _ _ h _ => hwaits ▸ h)

/-! ## Closing down -/

/-- A state in which some of the entries have been released and some of the waits closed. -/
structure Released (s t : Core) : Prop where
  reservations : Reservations t
  entries : ∀ w entry, ReservedIn t w entry → ReservedIn s w entry
  waits : ∀ w wait, s.waits.lookup w = some wait → (t.waits.lookup w).map (·.run) = some wait.run

theorem Released.refl (reservations : Reservations s) : Released s s where
  reservations := reservations
  entries _ _ h := h
  waits w wait h := by simp [h]

/-- The kinds of events that could strand an entry. -/
@[simp] def waitKinds : List EventKind :=
  [.waitSatisfied, .waitTimedOut, .waitCancelled, .eventAccepted, .eventReserved, .waitOpened]

theorem orderly_of_kind (h : e.kind ∉ waitKinds) : Orderly s e := by
  cases e <;> first | trivial | exact absurd (by simp) h

/-- Other events leave entries and waits alone. -/
theorem Released.frame (released : Released s t) (hkind : e.kind ∉ waitKinds)
    (hentry : e.kind ∉ [.reservationReleased, .eventExpired]) : Released s (evolve t e) := by
  have hinbox : (evolve t e).inbox = t.inbox := by
    rw [evolve_inbox]
    cases e <;> first | rfl | (refine absurd ?_ hkind; simp; done) | exact absurd (by simp) hentry
  have hwaits : (evolve t e).waits = t.waits := by
    rw [evolve_waits]
    cases e <;> first | rfl | exact absurd (by simp) hkind
  refine ⟨released.reservations.evolve (orderly_of_kind hkind), ?_, ?_⟩
  · intro w entry h
    exact released.entries w entry (reservedIn_of_inbox hinbox h)
  · rw [hwaits]
    exact released.waits

/-- A wait without an entry may be cancelled. -/
theorem Released.cancelled (released : Released s t) (run : RunId)
    (hnone : ∀ entry, ¬ ReservedIn t w entry) :
    Orderly t (.waitCancelled run w) ∧ Released s (evolve t (.waitCancelled run w)) := by
  have hinbox := evolve_inbox t (.waitCancelled run w)
  have hwaits := evolve_waits t (.waitCancelled run w)
  simp only at hinbox hwaits
  refine ⟨hnone, released.reservations.evolve hnone, ?_, ?_⟩
  · intro w' entry h
    exact released.entries w' entry (reservedIn_of_inbox hinbox h)
  · intro w' wait hwait
    rw [hwaits, Table.lookup_modify]
    split
    · rw [Option.map_map]
      exact released.waits w' wait hwait
    · exact released.waits w' wait hwait

/-- Releasing the entry of a wait leaves it none. -/
theorem Released.release {k : WaitId} (reservations : Reservations s) (released : Released s t)
    (hwait : s.waits.lookup k = some wait) (hentry : ReservedIn s wait.id entry) :
    Released s (evolve t (.reservationReleased wait.id entry.eventId)) ∧
      ∀ other,
        ¬ ReservedIn (evolve t (.reservationReleased wait.id entry.eventId)) wait.id other := by
  have hinbox := evolve_inbox t (.reservationReleased wait.id entry.eventId)
  have hwaits := evolve_waits t (.reservationReleased wait.id entry.eventId)
  rw [← reservations.keyed.waits k wait hwait] at hwait
  simp only [released.waits _ wait hwait] at hinbox hwaits
  have hold : ∀ w other, ReservedIn (Graphrun.evolve t (.reservationReleased wait.id
      entry.eventId)) w other → ReservedIn s w other := fun w other h =>
    released.entries w other (reservedIn_of_held hinbox h)
  refine ⟨⟨released.reservations.evolve trivial, hold, hwaits ▸ released.waits⟩, fun other h => ?_⟩
  -- the entry that would be left is the one that was released
  obtain rfl := reservations.single wait.id other entry (hold _ _ h) hentry
  obtain ⟨wait', hwait', -, hown⟩ := reservations.waiting wait.id other hentry
  obtain rfl := Option.mem_unique hwait hwait'
  obtain ⟨hmem, -, hreserved⟩ := h
  rw [hinbox] at hmem
  have hidentity : other.identity = (some wait.run, other.eventId) := by
    simp [InboxEntry.identity, hown]
  obtain ⟨old, -, -, heq⟩ := updated_of_key (f := InboxEntry.heldFor none)
    released.reservations.distinct (fun _ => names_eq_true) hmem hidentity
  rw [heq] at hreserved
  cases hreserved

theorem Closing.orderly (reservations : Reservations s) (closing : Closing s es)
    (released : Released s t) : Guarded Orderly t es := by
  induction closing generalizing t with
  | nil => trivial
  | mark hkind _ ih =>
    have hmarks : ∀ k ∈ markKinds, k ∉ waitKinds ∧
        k ∉ [EventKind.reservationReleased, .eventExpired] := by decide
    obtain ⟨hwait, hentry⟩ := hmarks _ hkind
    exact ⟨orderly_of_kind hwait, ih (released.frame hwait hentry)⟩
  | @cancel run k wait es hwait hpending _ ih =>
    unfold cancelWait
    dsimp only
    split
    · next entry hfound =>
      have hreserved := List.find?_some hfound
      simp only [decide_eq_true_eq] at hreserved
      have hentry : ReservedIn s wait.id entry :=
        ⟨List.mem_of_find?_eq_some hfound, hreserved.2, hreserved.1⟩
      obtain ⟨hreleased, hnone⟩ := released.release reservations hwait hentry
      obtain ⟨horderly, hcancelled⟩ := hreleased.cancelled run hnone
      exact ⟨trivial, horderly, ih hcancelled⟩
    · next hfound =>
      have hnone : ∀ entry, ¬ ReservedIn t wait.id entry := by
        intro entry h
        obtain ⟨hmem, hfree, hreserved⟩ := released.entries _ _ h
        have := List.find?_eq_none.mp hfound entry hmem
        simp [hfree, hreserved] at this
      obtain ⟨horderly, hcancelled⟩ := released.cancelled run hnone
      exact ⟨horderly, ih hcancelled⟩

/-! ## Moves -/

theorem guarded_orderly (h : ∀ e ∈ es, e.kind ∉ waitKinds) :
    Guarded Orderly s es :=
  Guarded.of_all fun e he _ => orderly_of_kind (h e he)

theorem Followed.unwaiting {scope : ScopeId} {node : NodeKey}
    (h : Followed s scope node es) : ∀ e ∈ es, e.kind ∉ waitKinds := by
  apply h.all (P := fun e => e.kind ∉ waitKinds)
  intros
  simp

/-- What a wait may take is the entry that is reserved to it, if there is one. -/
theorem taken_of_reserved (reservations : Reservations s)
    (h : reservedOrEligible s wait time = some entry) :
    ∀ other, ReservedIn s wait.id other → other = entry := by
  rintro other ⟨hmem, hfree, hreserved⟩
  unfold reservedOrEligible at h
  split at h
  · next found hfound =>
    obtain rfl := Option.some.inj h
    have hentry := List.find?_some hfound
    simp only [isReservedFor, decide_eq_true_eq] at hentry
    exact reservations.single wait.id other found ⟨hmem, hfree, hreserved⟩
      ⟨List.mem_of_find?_eq_some hfound, hentry.1, hentry.2⟩
  · next hnone =>
    have := List.find?_eq_none.mp hnone other hmem
    simp [isReservedFor, hfree, hreserved] at this

theorem unreserved_of_none (h : reservedOrEligible s wait time = none) :
    ∀ entry, ¬ ReservedIn s wait.id entry := by
  rintro entry ⟨hmem, hfree, hreserved⟩
  unfold reservedOrEligible at h
  split at h
  · cases h
  · next hnone =>
    have := List.find?_eq_none.mp hnone entry hmem
    simp [isReservedFor, hfree, hreserved] at this

theorem NodeMove.orderly {run : RunId} {act : ActivationState} {node : Node}
    (reservations : Reservations s)
    (fresh : ∀ e ∈ es, ∀ w ∈ e.opensWait?, s.waits.lookup w = none)
    (move : NodeMove o s run time act node es) : Guarded Orderly s es := by
  have hplain {L : List EventKind} {es' : List DomainEvent} (h : ∀ e ∈ es', e.kind ∈ L)
      (hL : ∀ k ∈ L, k ∉ waitKinds) : Guarded Orderly s es' :=
    guarded_orderly (not_mem_of_kinds h hL)
  cases move with
  | timer | waiting => exact ⟨fresh _ List.mem_cons_self _ rfl, trivial⟩
  | @taken _ _ _ _ _ _ _ w _ entry _ _ _ _ _ h =>
    have hnew := fresh _ List.mem_cons_self w rfl
    refine ⟨hnew, ?_, trivial, guarded_orderly h.unwaiting⟩
    -- nothing is reserved to a wait that has just opened
    rintro other ⟨hmem, hfree, hreserved⟩
    rw [evolve_inbox] at hmem
    obtain ⟨wait, hwait, -⟩ := reservations.waiting w other ⟨hmem, hfree, hreserved⟩
    rw [hnew] at hwait
    cases hwait
  | reopened | due => exact guarded_orderly (by simp)
  | completed => exact hplain kinds_completed (by decide)
  | failed h | conflict _ h | childFailed _ _ h =>
    exact h.closing.orderly reservations (.refl reservations)
  | finished _ hguards _ h => exact hplain (kinds_finished hguards h) (by decide)
  | skipped _ _ _ h | joined _ h => exact hplain (kinds_output h) (by decide)
  | settled _ _ _ _ h => exact hplain (kinds_settled h) (by decide)
  | childOpened hguards => exact hplain (kinds_childOpened hguards) (by decide)
  | cancelled _ _ _ hcancelled hown =>
    have hclosing : Closing s _ := hcancelled.closing
    rcases hown with rfl | ⟨-, h⟩
    · rw [List.append_nil]
      exact hclosing.orderly reservations (.refl reservations)
    · exact (hclosing.append h.closing).orderly reservations (.refl reservations)
  | aborted _ _ h => exact h.closing.orderly reservations (.refl reservations)

/-- A signal finds no pending wait of its run, name and key that has an entry already. -/
def WaitsUnreserved (step : Step) : Prop :=
  ∀ run eventId signal key payload, step.body = .signal run eventId signal key payload →
    ∀ w wait, step.before.waits.lookup w = some wait → wait.run = run → wait.pending = true →
      wait.signal = signal → wait.key = key → ∀ entry, ¬ ReservedIn step.before w entry

theorem Move.orderly {body : CommandBody} (reservations : Reservations s)
    (fresh : ∀ e ∈ es, ∀ w ∈ e.opensWait?, s.waits.lookup w = none)
    (unreserved : ∀ run eventId signal key payload, body = .signal run eventId signal key payload →
      ∀ w wait, s.waits.lookup w = some wait → wait.run = run → wait.pending = true →
        wait.signal = signal → wait.key = key → ∀ entry, ¬ ReservedIn s w entry)
    (move : Move env o s time body es) : Guarded Orderly s es := by
  have hother : (∀ k ∈ body.kinds, k ∉ waitKinds) → Guarded Orderly s es := fun h =>
    guarded_orderly fun e he => h _ (move.kinds e he)
  have hplain {L : List EventKind} {es' : List DomainEvent} (h : ∀ e ∈ es', e.kind ∈ L)
      (hL : ∀ k ∈ L, k ∉ waitKinds) : Guarded Orderly s es' :=
    guarded_orderly (not_mem_of_kinds h hL)
  cases move with
  | signalled hrun hactive hnew hreserved =>
    have hdistinct : ∀ entry ∈ s.inbox, entry.identity ≠ _ := fun entry hentry heq =>
      List.find?_eq_none.mp hnew entry hentry (names_eq_true.mpr heq)
    refine ⟨hdistinct, ?_⟩
    rcases hreserved with ⟨-, rfl⟩ | ⟨wait, hwait, rfl⟩
    · trivial
    · obtain ⟨k, hk⟩ := Enumeration.mem_values.mp (List.mem_of_find?_eq_some hwait)
      rw [← reservations.keyed.waits k wait hk] at hk
      have hfound := List.find?_some hwait
      simp only [decide_eq_true_eq] at hfound
      obtain ⟨hown, hpending, hsignal, hkey⟩ := hfound
      refine ⟨⟨⟨wait, ?_, hpending⟩, ?_⟩, trivial⟩
      · rw [evolve_waits]
        exact hk
      · rintro entry ⟨hmem, hfree, hheld⟩
        rw [evolve_inbox, List.mem_append, List.mem_singleton] at hmem
        rcases hmem with hmem | rfl
        · exact unreserved _ _ _ _ _ rfl wait.id wait hk hown hpending hsignal hkey entry
            ⟨hmem, hfree, hheld⟩
        · cases hheld
  | satisfied hsettling hentry hfollowed =>
    refine ⟨fun other h => ?_, trivial, guarded_orderly hfollowed.unwaiting⟩
    rw [← reservations.keyed.waits _ _ hsettling.hwait] at h
    obtain rfl := taken_of_reserved reservations hentry other h
    obtain ⟨wait, hwait, -, hown⟩ := reservations.waiting _ other h
    rw [reservations.keyed.waits _ _ hsettling.hwait] at hwait
    obtain rfl := Option.mem_unique hsettling.hwait hwait
    simp [InboxEntry.identity, hown, hsettling.hrun]
  | timedOut hsettling _ hentry =>
    refine ⟨?_, trivial, trivial⟩
    have hnone := unreserved_of_none hentry
    rwa [reservations.keyed.waits _ _ hsettling.hwait] at hnone
  | advanced hadvancing _ hmove => exact hmove.orderly reservations fresh
  | accepted _ _ hprobe howed hfollowed =>
    exact hplain (kinds_accepted hprobe howed hfollowed) (by decide)
  | compensated _ _ hprobe => exact hplain (kinds_compensated hprobe) (by decide)
  | retried | blocked | lost => exact guarded_orderly (by simp)
  | notApplied _ _ hsettled => exact hplain (kinds_notApplied hsettled) (by decide)
  | unknown _ _ hfailure hescalated => exact hplain (kinds_unknown hfailure hescalated) (by decide)
  | erred _ _ hfailing =>
    exact ⟨trivial, hfailing.closing.orderly reservations
      (Released.frame (.refl reservations) (by simp) (by simp))⟩
  | cancelled _ _ _ _ hfailing =>
    exact hfailing.closing.orderly reservations (.refl reservations)
  | cancelledSagas _ _ hes =>
    exact ((closing_closePendingWaits o s _).append (closing_cancelSagas hes)).orderly reservations
      (.refl reservations)
  | abandoned _ hfailed =>
    refine ⟨trivial, ?_⟩
    rcases hfailed with ⟨-, rfl⟩ | ⟨root, error, -, -, hfailing⟩
    · trivial
    · exact hfailing.closing.orderly reservations
        (Released.frame (.refl reservations) (by simp) (by simp))
  | started | resolved | claimed | renewed => exact hother (by simp)
  | outside houtside => exact hplain (kinds_outside houtside) (by decide)

/-! ## Every run -/

theorem reservations_empty (clusterId : String) :
    Reservations (State.empty clusterId).toCore where
  keyed := keyed_empty clusterId
  distinct := List.nodup_nil
  waiting w entry h := by cases h.1
  single w entry entry' h := by cases h.1

/-- No unconsumed entry is reserved to a wait that is not pending, and no two are reserved to one
wait. An entry that no pending wait holds is found by any wait that its signal, key, sequence and
times suit. -/
structure NoneStranded (s : Core) : Prop where
  pending : ∀ entry ∈ s.inbox, entry.consumed = false → ∀ w, entry.reservedWait = some w →
    ∃ wait, s.waits.lookup w = some wait ∧ wait.pending = true
  single : ∀ w, (s.inbox.filter (isReservedFor w)).length ≤ 1
  available : ∀ entry ∈ s.inbox, entry.consumed = false →
    (∀ w wait, s.waits.lookup w = some wait → wait.pending = true → entry.reservedWait ≠ some w) →
    ∀ wait now, isEligible wait now { entry with reservedWait := none } = true →
      (reservedOrEligible s wait now).isSome = true

theorem Reservations.noneStranded (reservations : Reservations s) : NoneStranded s := by
  have hpending : ∀ entry ∈ s.inbox, entry.consumed = false → ∀ w, entry.reservedWait = some w →
      ∃ wait, s.waits.lookup w = some wait ∧ wait.pending = true := by
    intro entry hmem hfree w hreserved
    obtain ⟨wait, hwait, hpending, -⟩ := reservations.waiting w entry ⟨hmem, hfree, hreserved⟩
    exact ⟨wait, hwait, hpending⟩
  refine ⟨hpending, ?_, ?_⟩
  · intro w
    have hin : ∀ entry ∈ s.inbox.filter (isReservedFor w), ReservedIn s w entry := by
      intro entry hentry
      obtain ⟨hmem, hreserved⟩ := List.mem_filter.mp hentry
      simp only [isReservedFor, decide_eq_true_eq] at hreserved
      exact ⟨hmem, hreserved⟩
    have hnodup : (s.inbox.filter (isReservedFor w)).Nodup :=
      (List.Nodup.of_map _ reservations.distinct).filter _
    cases hlist : s.inbox.filter (isReservedFor w) with
    | nil => simp
    | cons first rest =>
      cases rest with
      | nil => simp
      | cons second rest =>
        rw [hlist] at hin hnodup
        have hsame := reservations.single w first second (hin first (by simp))
          (hin second (by simp))
        rw [hsame] at hnodup
        simp at hnodup
  · intro entry hmem hfree hunheld wait now heligible
    have hnone : entry.reservedWait = none := by
      rw [Option.eq_none_iff_forall_ne_some]
      intro w hreserved
      obtain ⟨held, hheld, hpending⟩ := hpending entry hmem hfree w hreserved
      exact hunheld w held hheld hpending hreserved
    have hentry : isEligible wait now entry = true := by
      have hsame : { entry with reservedWait := none } = entry := by rw [← hnone]
      rwa [hsame] at heligible
    unfold reservedOrEligible
    split
    · rfl
    · exact List.find?_isSome.mpr ⟨entry, hmem, hentry⟩

/-- In every run whose signals find no reserved wait, no entry is ever stranded. -/
theorem signals_not_stranded {clusterId : String} {log : List Step} {final : State}
    (hrun : Run env (.empty clusterId) log final)
    (hsteps : ∀ step ∈ log, Fresh step ∧ WaitsUnreserved step) :
    NoneStranded final.toCore ∧ ∀ step ∈ log, NoneStranded step.before := by
  have hinvariant := (hrun.trace (keyed_empty clusterId)).invariant (P := Reservations)
    (fun _ _ change reservations => reservations.quiet change)
    (fun step decided condition reservations => by
      obtain ⟨fresh, unreserved⟩ := condition
      obtain ⟨o, move⟩ := decided.move fresh.unreplayed
      have horderly := move.orderly reservations fresh.waits unreserved
      exact horderly.keeps (fun _ _ h reservations => reservations.evolve h) reservations)
    (reservations_empty clusterId) hsteps
  exact ⟨hinvariant.1.noneStranded, fun step hstep => (hinvariant.2 step hstep).noneStranded⟩

/-! ## Two signals to one wait -/

/-- Waits for the signal `go` under the key `k`. -/
def waitWorkflow : Definition :=
  sampleWorkflow ["go"] "wait" [("done", .complete (.literal .null)),
    ("wait", .waitSignal "go" (.literal (.string "k")) none .afterActivation "more" none),
    ("more", .waitSignal "go" (.literal (.string "k")) none .buffered "done" none)]

/-- Two signals come while the wait is pending, and then the run makes progress. -/
def secondSignal : List Command := [
  { id := ⟨1⟩, body := .start ⟨1⟩ waitWorkflow .null ⟨[], [], []⟩, time := 1 },
  { id := ⟨2⟩, body := .progress ⟨1⟩, time := 2 },
  { id := ⟨3⟩, body := .signal ⟨1⟩ ⟨7⟩ "go" "k" .null, time := 3 },
  { id := ⟨4⟩, body := .signal ⟨1⟩ ⟨8⟩ "go" "k" .null, time := 4 },
  { id := ⟨5⟩, body := .progress ⟨1⟩, time := 5 }]

theorem secondSignal_stranded : ∃ log final entry wait,
    Run sampleEnv (.empty sampleCluster) log final ∧ (∀ step ∈ log, Fresh step) ∧
    entry ∈ final.inbox ∧ entry.eventId = ⟨8⟩ ∧ entry.consumed = false ∧
    entry.reservedWait = some ⟨2⟩ ∧ final.waits.lookup ⟨2⟩ = some wait ∧ wait.pending = false := by
  obtain ⟨log, final, hrun, hcheck⟩ := exists_sampleRun secondSignal
    (fun log final => log.all (Fresh ·) && (final.inbox.any fun entry =>
      entry.eventId = ⟨8⟩ ∧ entry.consumed = false ∧ entry.reservedWait = some ⟨2⟩) &&
      (final.waits.lookup ⟨2⟩).any fun wait => wait.pending = false)
    (by decide +kernel)
  simp only [Bool.and_eq_true, List.all_eq_true, List.any_eq_true, Option.any_eq_true,
    decide_eq_true_eq] at hcheck
  obtain ⟨⟨hfresh, entry, hentry, hid, hfree, hreserved⟩, wait, hwait, hclosed⟩ := hcheck
  exact ⟨_, _, entry, wait, hrun, hfresh, hentry, hid, hfree, hreserved, hwait, hclosed⟩

/-- The second signal comes after the first has been taken. -/
def spacedSignals : List Command := secondSignal.take 3 ++ [
  { id := ⟨4⟩, body := .progress ⟨1⟩, time := 4 },
  { id := ⟨5⟩, body := .signal ⟨1⟩ ⟨8⟩ "go" "k" .null, time := 5 }]

/-- No entry is reserved when a signal comes. -/
def Step.signalsFree (step : Step) : Bool :=
  match step.body with
  | .signal .. => step.before.inbox.all fun entry => entry.consumed ∨ entry.reservedWait = none
  | _ => true

theorem waitsUnreserved_of_signalsFree {step : Step} (h : step.signalsFree = true) :
    WaitsUnreserved step := by
  rintro run eventId signal key payload hbody w wait - - - - - entry ⟨hmem, hfree, hreserved⟩
  simp only [Step.signalsFree, hbody, List.all_eq_true, decide_eq_true_eq] at h
  rcases h entry hmem with hconsumed | hnone
  · rw [hfree] at hconsumed
    cases hconsumed
  · rw [hreserved] at hnone
    cases hnone

theorem spacedSignals_not_stranded : ∃ log final,
    Run sampleEnv (.empty sampleCluster) log final ∧
    (∀ step ∈ log, Fresh step ∧ WaitsUnreserved step) ∧
    final.inbox.map (fun entry => (entry.eventId, entry.consumed, entry.reservedWait)) =
      [(⟨7⟩, true, some ⟨2⟩), (⟨8⟩, false, some ⟨68⟩)] ∧
    NoneStranded final.toCore ∧ ∀ step ∈ log, NoneStranded step.before := by
  obtain ⟨log, final, hrun, hcheck⟩ := exists_sampleRun spacedSignals
    (fun log final => log.all (fun step => Fresh step && step.signalsFree) &&
      final.inbox.map (fun entry => (entry.eventId, entry.consumed, entry.reservedWait)) = [(⟨7⟩,
      true, some ⟨2⟩), (⟨8⟩, false, some ⟨68⟩)])
    (by decide +kernel)
  simp only [Bool.and_eq_true, List.all_eq_true, decide_eq_true_eq] at hcheck
  obtain ⟨hsteps, hinbox⟩ := hcheck
  have hconditions : ∀ step ∈ _, Fresh step ∧ WaitsUnreserved step := fun step hstep =>
    ⟨(hsteps step hstep).1, waitsUnreserved_of_signalsFree (hsteps step hstep).2⟩
  exact ⟨_, _, hrun, hconditions, hinbox, signals_not_stranded hrun hconditions⟩

end Graphrun
