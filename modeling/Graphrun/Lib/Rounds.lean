import Mathlib.Data.List.Basic
import Mathlib.Data.List.Nodup
import Mathlib.Data.List.Perm.Subperm

/-!
# Dealing in rounds

Every client can take certain things, in an order of its own. A dealer goes round the clients,
and hands to each in turn the first thing that it has not got yet, until a given number has been
dealt or nobody can take any more. After `k` whole rounds every client has its first `k` things,
or all of them if there are fewer; within a round those that have been served have one more
(`Dealt`). So no client is ahead of another by more than one thing, unless the other has
everything it can take.
-/

namespace Lib

variable {ι α : Type} {clients served waiting : List ι} {work : ι → List α}
  {cap k : ℕ} {given given' : List (ι × α)} {i j : ι} {a : α}

section Standing

variable [DecidableEq ι]

/-- What a client has got, in order. -/
def dealtTo (given : List (ι × α)) (i : ι) : List α :=
  (given.filter fun e => e.1 = i).map Prod.snd

theorem mem_dealtTo : a ∈ dealtTo given i ↔ (i, a) ∈ given := by
  simp [dealtTo]

theorem dealtTo_append_self : dealtTo (given ++ [(i, a)]) i = dealtTo given i ++ [a] := by
  simp [dealtTo]

theorem dealtTo_append_of_ne (h : j ≠ i) : dealtTo (given ++ [(i, a)]) j = dealtTo given j := by
  simp [dealtTo, Ne.symm h]

/-! ## Where the dealer stands -/

/-- After `k` rounds, in a further one. -/
structure Dealt (clients : List ι) (work : ι → List α) (given : List (ι × α)) (k : ℕ)
    (served waiting : List ι) : Prop where
  split : clients = served ++ waiting
  served : ∀ i ∈ served, dealtTo given i = (work i).take (k + 1)
  waiting : ∀ i ∈ waiting, dealtTo given i = (work i).take k
  known : ∀ e ∈ given, e.1 ∈ clients

theorem dealt_nil : Dealt clients work [] 0 [] clients where
  split := rfl
  served := List.forall_mem_nil _
  waiting _ _ := by simp [dealtTo]
  known := List.forall_mem_nil _

theorem Dealt.round (h : Dealt clients work given k served []) :
    Dealt clients work given (k + 1) [] clients where
  split := rfl
  served := List.forall_mem_nil _
  waiting i hi := by
    rw [h.split, List.append_nil] at hi
    exact h.served i hi
  known := h.known

theorem Dealt.skip (h : Dealt clients work given k served (i :: waiting))
    (hdone : (work i).length ≤ k) : Dealt clients work given k (served ++ [i]) waiting where
  split := by rw [h.split, List.append_assoc, List.singleton_append]
  served j hj := by
    rcases List.mem_append.mp hj with hj | hj
    · exact h.served j hj
    · obtain rfl := List.mem_singleton.mp hj
      rw [h.waiting j List.mem_cons_self, List.take_of_length_le hdone,
        List.take_of_length_le (Nat.le_succ_of_le hdone)]
  waiting j hj := h.waiting j (List.mem_cons_of_mem _ hj)
  known := h.known

theorem Dealt.deal (hclients : clients.Nodup)
    (h : Dealt clients work given k served (i :: waiting)) (ha : (work i)[k]? = some a) :
    Dealt clients work (given ++ [(i, a)]) k (served ++ [i]) waiting := by
  have hsplit := h.split
  rw [hsplit, List.nodup_append] at hclients
  obtain ⟨-, hwaiting, hapart⟩ := hclients
  refine ⟨by rw [hsplit, List.append_assoc, List.singleton_append], fun j hj => ?_, fun j hj => ?_,
    fun e he => ?_⟩
  · rcases List.mem_append.mp hj with hj | hj
    · rw [dealtTo_append_of_ne (hapart j hj i List.mem_cons_self), h.served j hj]
    · obtain rfl := List.mem_singleton.mp hj
      rw [dealtTo_append_self, h.waiting j List.mem_cons_self, List.take_add_one, ha]
      rfl
  · have hne : j ≠ i := fun heq => (List.nodup_cons.mp hwaiting).1 (heq ▸ hj)
    rw [dealtTo_append_of_ne hne, h.waiting j (List.mem_cons_of_mem _ hj)]
  · rcases List.mem_append.mp he with he | he
    · exact h.known e he
    · rw [List.mem_singleton.mp he, hsplit]
      exact List.mem_append_right _ List.mem_cons_self

/-- Every client has its first things, as many as there were rounds. -/
theorem Dealt.taken (h : Dealt clients work given k served waiting) (hi : i ∈ clients) :
    ∃ n, (n = k ∨ n = k + 1) ∧ dealtTo given i = (work i).take n := by
  rw [h.split] at hi
  rcases List.mem_append.mp hi with hi | hi
  · exact ⟨k + 1, .inr rfl, h.served i hi⟩
  · exact ⟨k, .inl rfl, h.waiting i hi⟩

/-- No client is ahead of another by more than one, unless the other has everything. -/
theorem Dealt.fair (h : Dealt clients work given k served waiting) (hi : i ∈ clients)
    (hj : j ∈ clients) :
    (dealtTo given i).length ≤ (dealtTo given j).length + 1 ∨ dealtTo given j = work j := by
  obtain ⟨n, hn, hgot⟩ := h.taken hi
  obtain ⟨m, hm, hgot'⟩ := h.taken hj
  rcases Nat.le_total (work j).length m with hall | hsome
  · exact .inr (hgot'.trans (List.take_of_length_le hall))
  · have hlen : (dealtTo given j).length = m := by
      rw [hgot', List.length_take, Nat.min_eq_left hsome]
    have hle : (dealtTo given i).length ≤ n := by
      rw [hgot]
      exact List.length_take_le n (work i)
    exact .inl (by omega)

end Standing

/-! ## The dealer -/

/-- One client's turn: it gets the first thing that it has not got yet, if there is one and the
number to be dealt is not reached. -/
inductive Serves (work : ι → List α) (cap : ℕ) (given : List (ι × α)) (i : ι) :
    List (ι × α) → Prop
  | full (h : cap ≤ given.length) : Serves work cap given i given
  | sated (h : given.length < cap) (hall : ∀ a ∈ work i, (i, a) ∈ given) :
      Serves work cap given i given
  | deals {before after : List α} {a : α} (h : given.length < cap)
      (hwork : work i = before ++ a :: after) (hbefore : ∀ b ∈ before, (i, b) ∈ given)
      (hnew : (i, a) ∉ given) : Serves work cap given i (given ++ [(i, a)])

/-- The turns of some clients, one after the other. -/
inductive Round (work : ι → List α) (cap : ℕ) :
    List ι → List (ι × α) → List (ι × α) → Prop
  | nil {given : List (ι × α)} : Round work cap [] given given
  | cons {i : ι} {rest : List ι} {given mid given' : List (ι × α)}
      (turn : Serves work cap given i mid) (round : Round work cap rest mid given') :
      Round work cap (i :: rest) given given'

/-- Rounds over all clients until the number is reached or a round deals nothing. -/
inductive Rounds (work : ι → List α) (cap : ℕ) (clients : List ι) :
    List (ι × α) → List (ι × α) → Prop
  | full {given : List (ι × α)} (h : cap ≤ given.length) : Rounds work cap clients given given
  | idle {given : List (ι × α)} (h : given.length < cap)
      (round : Round work cap clients given given) : Rounds work cap clients given given
  | more {given mid given' : List (ι × α)} (round : Round work cap clients given mid)
      (grew : given.length < mid.length) (rounds : Rounds work cap clients mid given') :
      Rounds work cap clients given given'

theorem Serves.length_le (h : Serves work cap given i given') (hcap : given.length ≤ cap) :
    given.length ≤ given'.length ∧ given'.length ≤ cap := by
  cases h with
  | full _ => exact ⟨Nat.le_refl _, hcap⟩
  | sated _ _ => exact ⟨Nat.le_refl _, hcap⟩
  | deals hlt _ _ _ => simp; omega

theorem Round.length_le (h : Round work cap waiting given given') (hcap : given.length ≤ cap) :
    given.length ≤ given'.length ∧ given'.length ≤ cap := by
  induction h with
  | nil => exact ⟨Nat.le_refl _, hcap⟩
  | cons turn _ ih =>
    obtain ⟨hle, hmid⟩ := turn.length_le hcap
    obtain ⟨hle', hcap'⟩ := ih hmid
    exact ⟨Nat.le_trans hle hle', hcap'⟩

/-- Of distinct things, the first `k` are those before one that is not among them. -/
theorem length_eq_of_take {before after : List α} (hnodup : (before ++ a :: after).Nodup)
    (hin : ∀ b ∈ before, b ∈ (before ++ a :: after).take k)
    (hout : a ∉ (before ++ a :: after).take k) : k = before.length := by
  rcases Nat.lt_trichotomy before.length k with hlt | heq | hgt
  · exact absurd (List.mem_take_iff_getElem.mpr ⟨before.length, by simp; omega, by simp⟩) hout
  · exact heq.symm
  · have hsub : before ⊆ before.take k := fun b hb => by
      have hmem := hin b hb
      rwa [List.take_append_of_le_length (Nat.le_of_lt hgt)] at hmem
    have hlen := (List.subperm_of_subset (List.nodup_append.mp hnodup).1 hsub).length_le
    rw [List.length_take] at hlen
    omega

/-- A turn of the next client in line, the number to be dealt not being reached. -/
theorem Dealt.turn [DecidableEq ι] (hclients : clients.Nodup) (hwork : (work i).Nodup)
    (h : Dealt clients work given k served (i :: waiting)) (hlt : given.length < cap)
    (turn : Serves work cap given i given') :
    Dealt clients work given' k (served ++ [i]) waiting := by
  have hgot := h.waiting i List.mem_cons_self
  cases turn with
  | full hcap => omega
  | sated _ hall =>
    have hsub : work i ⊆ (work i).take k := fun a ha =>
      hgot ▸ mem_dealtTo.mpr (hall a ha)
    have hlen := (List.subperm_of_subset hwork hsub).length_le
    rw [List.length_take] at hlen
    have hle : (work i).length ≤ k := by omega
    exact h.skip hle
  | @deals before after a _ hsplit hbefore hnew =>
    rw [hsplit] at hwork hgot
    have hk : k = before.length := by
      refine length_eq_of_take hwork (fun b hb => ?_) fun ha => ?_
      · exact hgot ▸ mem_dealtTo.mpr (hbefore b hb)
      · exact hnew (mem_dealtTo.mp (hgot ▸ ha))
    refine h.deal hclients ?_
    rw [hsplit, hk]
    simp

theorem Serves.eq_of_full (h : Serves work cap given i given') (hfull : cap ≤ given.length) :
    given' = given := by
  cases h with
  | full _ => rfl
  | sated _ _ => rfl
  | deals hlt _ _ _ => omega

theorem Round.eq_of_full (h : Round work cap waiting given given') (hfull : cap ≤ given.length) :
    given' = given := by
  induction h with
  | nil => rfl
  | cons turn _ ih =>
    obtain rfl := turn.eq_of_full hfull
    exact ih hfull

/-- A round that deals nothing finds everybody sated. -/
theorem Round.sated (h : Round work cap waiting given given') (hlt : given.length < cap)
    (hsame : given'.length = given.length) : ∀ i ∈ waiting, ∀ a ∈ work i, (i, a) ∈ given := by
  induction h with
  | nil => exact List.forall_mem_nil _
  | @cons j rest given mid given' turn round ih =>
    obtain ⟨hmid, hcap⟩ := turn.length_le (Nat.le_of_lt hlt)
    obtain ⟨hend, -⟩ := round.length_le hcap
    cases turn with
    | full hfull => omega
    | sated _ hall => exact List.forall_mem_cons.mpr ⟨hall, ih hlt hsame⟩
    | deals _ _ _ _ =>
      rw [List.length_append, List.length_singleton] at hend
      omega

/-- A round runs to its end, unless the number is reached on the way. -/
theorem Dealt.turns [DecidableEq ι] (hclients : clients.Nodup)
    (hwork : ∀ i ∈ clients, (work i).Nodup) (round : Round work cap waiting given given')
    (hcap : given.length ≤ cap) (h : Dealt clients work given k served waiting) :
    (∃ served waiting, Dealt clients work given' k served waiting) ∧
      (given'.length < cap → Dealt clients work given' k clients []) := by
  induction round generalizing served with
  | nil =>
    refine ⟨⟨_, _, h⟩, fun _ => ?_⟩
    have hsplit := h.split
    rw [List.append_nil] at hsplit
    exact hsplit ▸ h
  | @cons i rest given mid given' turn round ih =>
    rcases Nat.lt_or_ge given.length cap with hlt | hfull
    · have hi : i ∈ clients := h.split ▸ List.mem_append_right _ List.mem_cons_self
      exact ih (turn.length_le hcap).2 (h.turn hclients (hwork i hi) hlt turn)
    · obtain rfl := turn.eq_of_full hfull
      obtain rfl := round.eq_of_full hfull
      exact ⟨⟨_, _, h⟩, fun hlt => absurd hlt (Nat.not_lt.mpr hfull)⟩

/-- The rounds stop in order: with the number reached, or with everybody sated. -/
theorem Rounds.dealt [DecidableEq ι] (hclients : clients.Nodup)
    (hwork : ∀ i ∈ clients, (work i).Nodup) (rounds : Rounds work cap clients given given')
    (hcap : given.length ≤ cap) (h : Dealt clients work given k [] clients) :
    given'.length ≤ cap ∧ (∃ k served waiting, Dealt clients work given' k served waiting) ∧
      (given'.length = cap ∨ ∀ i ∈ clients, ∀ a ∈ work i, (i, a) ∈ given') := by
  induction rounds generalizing k with
  | full hfull => exact ⟨hcap, ⟨k, _, _, h⟩, .inl (Nat.le_antisymm hcap hfull)⟩
  | idle hlt round => exact ⟨hcap, ⟨k, _, _, h⟩, .inr (round.sated hlt rfl)⟩
  | @more given mid given' round grew rounds ih =>
    obtain ⟨-, hmid⟩ := round.length_le hcap
    obtain ⟨⟨served, waiting, hsome⟩, hend⟩ := h.turns hclients hwork round hcap
    rcases Nat.lt_or_ge mid.length cap with hlt | hfull
    · exact ih hmid (hend hlt).round
    · cases rounds with
      | full _ => exact ⟨hmid, ⟨k, _, _, hsome⟩, .inl (Nat.le_antisymm hmid hfull)⟩
      | idle hlt _ => omega
      | more round' grew' _ =>
        rw [round'.eq_of_full hfull] at grew'
        omega

/-! ## Who is served first -/

theorem Serves.extended (h : Serves work cap given i given') : ∃ more, given' = given ++ more := by
  cases h with
  | full _ => exact ⟨[], (List.append_nil _).symm⟩
  | sated _ _ => exact ⟨[], (List.append_nil _).symm⟩
  | deals _ _ _ _ => exact ⟨_, rfl⟩

theorem Round.extended (h : Round work cap waiting given given') :
    ∃ more, given' = given ++ more := by
  induction h with
  | nil => exact ⟨[], (List.append_nil _).symm⟩
  | cons turn _ ih =>
    obtain ⟨more, rfl⟩ := turn.extended
    obtain ⟨rest, rfl⟩ := ih
    exact ⟨more ++ rest, List.append_assoc _ _ _⟩

theorem Rounds.extended (h : Rounds work cap clients given given') :
    ∃ more, given' = given ++ more := by
  induction h with
  | full _ => exact ⟨[], (List.append_nil _).symm⟩
  | idle _ _ => exact ⟨[], (List.append_nil _).symm⟩
  | more round _ _ ih =>
    obtain ⟨more, rfl⟩ := round.extended
    obtain ⟨rest, rfl⟩ := ih
    exact ⟨more ++ rest, List.append_assoc _ _ _⟩

/-- Nobody who could take anything stands before the client that gets the first thing. -/
theorem Round.first (h : Round work cap waiting [] given') (hfirst : given'.head? = some (i, a)) :
    ∃ before after, waiting = before ++ i :: after ∧ ∀ j ∈ before, work j = [] := by
  generalize hnil : ([] : List (ι × α)) = given at h
  induction h with
  | nil =>
    subst hnil
    cases hfirst
  | @cons j rest given mid given' turn round ih =>
    subst hnil
    cases turn with
    | full hfull =>
      rw [round.eq_of_full hfull] at hfirst
      cases hfirst
    | sated _ hall =>
      obtain ⟨before, after, rfl, hbefore⟩ := ih hfirst rfl
      have hnone : work j = [] :=
        List.eq_nil_iff_forall_not_mem.mpr fun b hb => List.not_mem_nil (hall b hb)
      exact ⟨j :: before, after, rfl, List.forall_mem_cons.mpr ⟨hnone, hbefore⟩⟩
    | deals _ _ _ _ =>
      obtain ⟨more, rfl⟩ := round.extended
      simp only [List.nil_append, List.cons_append, List.head?_cons, Option.some.injEq,
        Prod.mk.injEq] at hfirst
      exact ⟨[], rest, by rw [hfirst.1]; rfl, List.forall_mem_nil _⟩

theorem Rounds.first (h : Rounds work cap clients [] given')
    (hfirst : given'.head? = some (i, a)) :
    ∃ before after, clients = before ++ i :: after ∧ ∀ j ∈ before, work j = [] := by
  cases h with
  | full _ => cases hfirst
  | idle _ _ => cases hfirst
  | @more _ mid _ round grew rounds =>
    obtain ⟨more, rfl⟩ := rounds.extended
    refine round.first (a := a) ?_
    cases mid with
    | nil => cases grew
    | cons e mid => exact hfirst

end Lib
