import ClassLowering.Fault

/-!
# Outcomes

A computation that can fail is taken apart at its binds: it succeeds when every step does, and a
fault of the whole is a fault of one step. `FailsWithin` bounds the faults that a computation can
have, whatever it computes.
-/

set_option autoImplicit false

namespace ClassLowering

variable {α β : Type}

@[simp] theorem ok_bind (a : α) (f : α → Except Fault β) : (Except.ok a >>= f) = f a := rfl

@[simp] theorem pure_def (a : α) : (pure a : Except Fault α) = .ok a := rfl

@[simp] theorem error_bind (e : Fault) (f : α → Except Fault β) :
    (Except.error e >>= f) = .error e := rfl

@[simp] theorem throw_def (e : Fault) : (throw e : Except Fault α) = .error e := rfl

@[simp] theorem bind_ok (x : Except Fault α) : (x >>= .ok) = x := by
  cases x <;> rfl

@[simp] theorem map_eq_bind (f : α → β) (x : Except Fault α) :
    f <$> x = x >>= fun a => .ok (f a) := by
  cases x <;> rfl

theorem bind_eq_ok {ε : Type} {x : Except ε α} {f : α → Except ε β} {b : β} :
    x >>= f = .ok b ↔ ∃ a, x = .ok a ∧ f a = .ok b := by
  cases x with
  | error e => simp [bind, Except.bind]
  | ok a => simp [bind, Except.bind]

theorem pure_eq_ok {ε : Type} {a b : α} : (pure a : Except ε α) = .ok b ↔ a = b := by
  simp [pure, Except.pure]

theorem mapM_ok {f : α → Except Fault β} (g : α → β) {xs : List α}
    (h : ∀ x ∈ xs, f x = .ok (g x)) : xs.mapM f = .ok (xs.map g) := by
  induction xs with
  | nil => rfl
  | cons x xs ih =>
    rw [List.mapM_cons, h x (by simp), ih fun y hy => h y (by simp [hy])]
    rfl

theorem mapM_map_ok {γ : Type} {f : β → Except Fault γ} {build : α → β} (g : α → γ) {xs : List α}
    (h : ∀ x ∈ xs, f (build x) = .ok (g x)) : (xs.map build).mapM f = .ok (xs.map g) := by
  rw [List.mapM_map]
  exact mapM_ok g h

theorem mapM_eq_ok {f : α → Except Fault β} {g : α → β} (hg : ∀ x y, f x = .ok y → y = g x)
    {xs : List α} {ys : List β} :
    xs.mapM f = .ok ys ↔ (∀ x ∈ xs, f x = .ok (g x)) ∧ ys = xs.map g := by
  constructor
  · intro h
    induction xs generalizing ys with
    | nil =>
      rw [List.mapM_nil, pure_eq_ok] at h
      simp [← h]
    | cons x xs ih =>
      rw [List.mapM_cons] at h
      obtain ⟨y, hy, h⟩ := bind_eq_ok.mp h
      obtain ⟨zs, hzs, h⟩ := bind_eq_ok.mp h
      obtain ⟨hall, rfl⟩ := ih hzs
      obtain rfl := hg x y hy
      rw [← pure_eq_ok.mp h]
      simpa [hy] using hall
  · rintro ⟨h, rfl⟩
    exact mapM_ok g h

theorem exists_of_mem_mapM {f : α → Except Fault β} {xs : List α} {ys : List β}
    (h : xs.mapM f = .ok ys) {y : β} (hy : y ∈ ys) : ∃ x ∈ xs, f x = .ok y := by
  induction xs generalizing ys with
  | nil =>
    rw [List.mapM_nil, pure_eq_ok] at h
    simp [← h] at hy
  | cons x xs ih =>
    rw [List.mapM_cons] at h
    obtain ⟨z, hz, h⟩ := bind_eq_ok.mp h
    obtain ⟨zs, hzs, h⟩ := bind_eq_ok.mp h
    rw [← pure_eq_ok.mp h] at hy
    rcases List.mem_cons.mp hy with rfl | hy
    · exact ⟨x, by simp, hz⟩
    · obtain ⟨w, hw, hf⟩ := ih hzs hy
      exact ⟨w, by simp [hw], hf⟩

/-- A list of computations fails as the first of them that fails. -/
theorem mapM_eq_error {f : α → Except Fault β} {xs : List α} {e : Fault} :
    xs.mapM f = .error e ↔ ∃ before x after, xs = before ++ x :: after ∧
      (∀ y ∈ before, ∃ b, f y = .ok b) ∧ f x = .error e := by
  constructor
  · intro h
    induction xs with
    | nil => cases h
    | cons x xs ih =>
      rw [List.mapM_cons] at h
      cases hx : f x with
      | error e' =>
        rw [hx] at h
        exact ⟨[], x, xs, rfl, by simp, by rw [hx, Except.error.inj h]⟩
      | ok y =>
        rw [hx, ok_bind] at h
        cases hxs : xs.mapM f with
        | ok ys =>
          rw [hxs] at h
          cases h
        | error e' =>
          rw [hxs] at h
          obtain ⟨before, z, after, rfl, hall, hz⟩ := ih (by rw [hxs, Except.error.inj h])
          exact ⟨x :: before, z, after, rfl, by simpa [hx] using hall, hz⟩
  · rintro ⟨before, x, after, rfl, hall, hx⟩
    induction before with
    | nil => simp [hx]
    | cons b before ih =>
      obtain ⟨y, hy⟩ := hall b (by simp)
      rw [List.cons_append, List.mapM_cons, hy, ih fun z hz => hall z (by simp [hz])]
      rfl

theorem mapM_built {m : Type → Type} [Monad m] [LawfulMonad m] {γ : Type} {read : β → m γ}
    (build : α → β) (content : α → γ) (h : ∀ x, read (build x) = pure (content x)) (xs : List α) :
    (xs.map build).mapM read = pure (xs.map content) := by
  have composed : read ∘ build = fun x => pure (content x) := funext h
  rw [List.mapM_map, composed, List.mapM_pure]

/-- Every fault that `x` can have is one of `E`. -/
structure FailsWithin (E : Fault → Prop) (x : Except Fault α) : Prop where
  of_error : ∀ e, x = .error e → E e

namespace FailsWithin

variable {E : Fault → Prop}

theorem ok (a : α) : FailsWithin E (.ok a) := by
  constructor
  intro e h
  cases h

theorem bind {x : Except Fault α} {f : α → Except Fault β} (hx : FailsWithin E x)
    (hf : ∀ a, FailsWithin E (f a)) : FailsWithin E (x >>= f) := by
  constructor
  intro e h
  cases x with
  | error e' => exact hx.of_error e (congrArg Except.error (Except.error.inj h))
  | ok a => exact (hf a).of_error e h

theorem mapM {f : α → Except Fault β} {xs : List α} (h : ∀ x ∈ xs, FailsWithin E (f x)) :
    FailsWithin E (xs.mapM f) := by
  induction xs with
  | nil => exact ok []
  | cons x xs ih =>
    rw [List.mapM_cons]
    refine (h x (by simp)).bind fun y => ?_
    exact (ih fun z hz => h z (by simp [hz])).bind fun ys => ok (y :: ys)

end FailsWithin

end ClassLowering
