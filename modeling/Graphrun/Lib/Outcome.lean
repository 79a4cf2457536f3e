import Mathlib.Data.List.Basic

/-!
# Computations that may be refused

Small combinators over `Except` in which a fallible function is written as a chain of
binds, together with the lemmas that take such a chain apart again: a chain succeeds
exactly when each of its links does. With them a successful run of a function is turned
into a conjunction of facts without ever unfolding the monad.
-/

namespace Lib

variable {ε α β : Type}

/-- The value of an option, or a refusal. -/
def okOr (x : Option α) (e : ε) : Except ε α :=
  match x with
  | some a => .ok a
  | none => .error e

/-- Refuses when the condition holds. -/
def refuseIf (c : Prop) [Decidable c] (e : ε) : Except ε Unit :=
  if c then .error e else .ok ()

@[simp] theorem bind_eq_ok {x : Except ε α} {f : α → Except ε β} {b : β} :
    (x >>= f) = .ok b ↔ ∃ a, x = .ok a ∧ f a = .ok b := by
  cases x <;> simp [bind, Except.bind]

theorem ok_bind {a : α} {f : α → Except ε β} : (Except.ok a >>= f) = f a := rfl

theorem ok_of_toOption {x : Except ε α} {a : α} (h : x.toOption = some a) : x = .ok a := by
  cases x with
  | error => cases h
  | ok => rw [Option.some.inj h]

@[simp] theorem pure_eq_ok {a b : α} : (pure a : Except ε α) = .ok b ↔ a = b := by
  simp [pure, Except.pure]

theorem map_eq_ok {x : Except ε α} {f : α → β} {b : β} :
    f <$> x = .ok b ↔ ∃ a, x = .ok a ∧ f a = b := by
  cases x <;> simp [Functor.map, Except.map]

@[simp] theorem throw_eq_ok {e : ε} {b : α} : (throw e : Except ε α) = .ok b ↔ False := by
  simp [throw, throwThe, MonadExceptOf.throw]

@[simp] theorem okOr_eq_ok {x : Option α} {e : ε} {a : α} : okOr x e = .ok a ↔ x = some a := by
  cases x <;> simp [okOr]

@[simp] theorem refuseIf_eq_ok {c : Prop} [Decidable c] {e : ε} {u : Unit} :
    refuseIf c e = .ok u ↔ ¬ c := by
  unfold refuseIf
  split <;> simp_all

@[simp] theorem mapError_eq_ok {ε' : Type} {x : Except ε α} {f : ε → ε'} {a : α} :
    x.mapError f = .ok a ↔ x = .ok a := by
  cases x <;> simp [Except.mapError]

theorem bind_eq_error {x : Except ε α} {f : α → Except ε β} {e : ε} :
    (x >>= f) = .error e ↔ x = .error e ∨ ∃ a, x = .ok a ∧ f a = .error e := by
  cases x <;> simp [bind, Except.bind]

theorem pure_eq_error {a : α} {e : ε} : (pure a : Except ε α) = .error e ↔ False := by
  simp [pure, Except.pure]

theorem okOr_eq_error {x : Option α} {e e' : ε} : okOr x e = .error e' ↔ x = none ∧ e = e' := by
  cases x <;> simp [okOr]

theorem refuseIf_eq_error {c : Prop} [Decidable c] {e e' : ε} :
    refuseIf c e = .error e' ↔ c ∧ e = e' := by
  unfold refuseIf
  split <;> simp_all

theorem mapError_eq_error {ε' : Type} {x : Except ε α} {f : ε → ε'} {e' : ε'} :
    x.mapError f = .error e' ↔ ∃ e, x = .error e ∧ f e = e' := by
  cases x <;> simp [Except.mapError]

theorem mapM_congr {f g : α → Except ε β} {xs : List α} (h : ∀ x ∈ xs, f x = g x) :
    xs.mapM f = xs.mapM g := by
  induction xs with
  | nil => rfl
  | cons x xs ih =>
    obtain ⟨hx, hxs⟩ := List.forall_mem_cons.mp h
    rw [List.mapM_cons, List.mapM_cons, hx, ih hxs]

theorem mapM_ok {f : α → Except ε β} {g : α → β} {xs : List α} (h : ∀ x ∈ xs, f x = .ok (g x)) :
    xs.mapM f = .ok (xs.map g) :=
  (mapM_congr h).trans List.mapM_pure

theorem forM_eq_ok {f : α → Except ε Unit} {l : List α} :
    l.forM f = .ok () ↔ ∀ a ∈ l, f a = .ok () := by
  induction l with
  | nil => exact ⟨fun _ a ha => absurd ha List.not_mem_nil, fun _ => rfl⟩
  | cons a rest ih =>
    have hcons : (a :: rest).forM f = f a >>= fun _ => rest.forM f := rfl
    rw [hcons, bind_eq_ok, List.forall_mem_cons, ← ih]
    exact ⟨fun ⟨⟨⟩, h⟩ => h, fun h => ⟨(), h⟩⟩

/-- A traversal is refused where the first element is. -/
theorem forM_eq_error {f : α → Except ε Unit} {l : List α} {e : ε} :
    l.forM f = .error e ↔ ∃ l₁ a l₂, l = l₁ ++ a :: l₂ ∧ (∀ b ∈ l₁, f b = .ok ()) ∧
      f a = .error e := by
  induction l with
  | nil => exact ⟨fun h => (by cases h), fun ⟨l₁, a, l₂, h, _⟩ => (by simp at h)⟩
  | cons x rest ih =>
    have hcons : (x :: rest).forM f = f x >>= fun _ => rest.forM f := rfl
    rw [hcons, bind_eq_error, ih]
    constructor
    · rintro (h | ⟨⟨⟩, hx, l₁, a, l₂, rfl, hl₁, h⟩)
      · exact ⟨[], x, rest, rfl, List.forall_mem_nil _, h⟩
      · exact ⟨x :: l₁, a, l₂, rfl, List.forall_mem_cons.mpr ⟨hx, hl₁⟩, h⟩
    · rintro ⟨l₁, a, l₂, heq, hl₁, h⟩
      cases l₁ with
      | nil =>
        obtain ⟨rfl, -⟩ := List.cons.inj heq
        exact .inl h
      | cons y l₁ =>
        obtain ⟨rfl, rfl⟩ := List.cons.inj heq
        obtain ⟨hx, hl₁⟩ := List.forall_mem_cons.mp hl₁
        exact .inr ⟨(), hx, l₁, a, l₂, rfl, hl₁, h⟩

theorem foldlM_eq_error {f : β → α → Except ε β} {xs : List α} {b : β} {e : ε}
    (h : xs.foldlM f b = .error e) : ∃ b x, x ∈ xs ∧ f b x = .error e := by
  induction xs generalizing b with
  | nil => cases h
  | cons x xs ih =>
    rw [List.foldlM_cons, bind_eq_error] at h
    rcases h with h | ⟨c, -, h⟩
    · exact ⟨b, x, List.mem_cons_self, h⟩
    · obtain ⟨b, y, hy, h⟩ := ih h
      exact ⟨b, y, List.mem_cons_of_mem _ hy, h⟩

/-- What every successful step of a fold keeps holds at its end. -/
theorem foldlM_keeps_mem {f : β → α → Except ε β} {P : β → Prop} {xs : List α} {b b' : β}
    (step : ∀ b a b', a ∈ xs → f b a = .ok b' → P b → P b')
    (h : xs.foldlM f b = .ok b') (hb : P b) : P b' := by
  induction xs generalizing b with
  | nil => exact pure_eq_ok.mp h ▸ hb
  | cons x xs ih =>
    rw [List.foldlM_cons] at h
    obtain ⟨c, hc, h⟩ := bind_eq_ok.mp h
    exact ih (fun b a b' ha => step b a b' (List.mem_cons_of_mem _ ha)) h
      (step b x c List.mem_cons_self hc hb)

theorem foldlM_keeps {f : β → α → Except ε β} {P : β → Prop}
    (step : ∀ b a b', f b a = .ok b' → P b → P b') {xs : List α} {b b' : β}
    (h : xs.foldlM f b = .ok b') (hb : P b) : P b' :=
  foldlM_keeps_mem (fun b a b' _ => step b a b') h hb

end Lib
