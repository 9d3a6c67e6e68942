/-!
# Computations that can stop

What a computation with a result says about its parts, and how one that runs through goes on.
-/

namespace Clausification

variable {ε σ α β : Type}

theorem map_eq_ok {x : Except ε α} {f : α → β} {b : β} :
    x.map f = .ok b ↔ ∃ a, x = .ok a ∧ f a = b := by
  constructor
  · intro h
    cases x with
    | error e => cases h
    | ok a => exact ⟨a, rfl, Except.ok.inj h⟩
  · rintro ⟨a, rfl, rfl⟩
    rfl

theorem map_eq_error {x : Except ε α} {f : α → β} {e : ε} : x.map f = .error e ↔ x = .error e := by
  constructor
  · intro h
    cases x with
    | error e' => exact congrArg Except.error (Except.error.inj h)
    | ok a => cases h
  · rintro rfl
    rfl

theorem bind_eq_ok {x : Except ε α} {k : α → Except ε β} {b : β} :
    x >>= k = .ok b ↔ ∃ a, x = .ok a ∧ k a = .ok b := by
  constructor
  · intro h
    cases x with
    | error e => cases h
    | ok a => exact ⟨a, rfl, h⟩
  · rintro ⟨a, rfl, h⟩
    exact h

theorem mapError_eq_ok {ε' : Type} {x : Except ε α} {f : ε → ε'} {a : α} :
    x.mapError f = .ok a ↔ x = .ok a := by
  constructor
  · intro h
    cases x with
    | error e => cases h
    | ok a' => exact congrArg _ (Except.ok.inj h)
  · rintro rfl
    rfl

theorem mapM_ok {f : α → Except ε β} {g : α → β} {xs : List α} (h : ∀ x ∈ xs, f x = .ok (g x)) :
    xs.mapM f = .ok (xs.map g) := by
  induction xs with
  | nil => rfl
  | cons x xs ih =>
    obtain ⟨hx, hxs⟩ := List.forall_mem_cons.mp h
    rw [List.mapM_cons, hx, ih hxs]
    rfl

/-- Why a computation stops, if it does. -/
def stop? : Except ε α → Option ε
  | .error e => some e
  | .ok _ => none

theorem stop?_eq_some {x : Except ε α} {e : ε} : stop? x = some e ↔ x = .error e := by
  cases x <;> simp [stop?]

theorem stop?_eq_none {x : Except ε α} : stop? x = none ↔ ∃ a, x = .ok a := by
  cases x <;> simp [stop?]

theorem stop?_map {x : Except ε α} {f : α → β} : stop? (x.map f) = stop? x := by
  cases x <;> rfl

/-- What follows a computation counts only if this runs through. -/
theorem stop?_bind {x : Except ε α} {k : α → Except ε β} {o : Option ε}
    (h : ∀ a, x = .ok a → stop? (k a) = o) : stop? (x >>= k) = (stop? x).or o := by
  cases x with
  | error e => rfl
  | ok a => exact h a rfl

/-- A computation for each element of a list stops where the first of them does. -/
theorem stop?_mapM {f : α → Except ε β} {xs : List α} :
    stop? (xs.mapM f) = xs.findSome? fun x => stop? (f x) := by
  induction xs with
  | nil => rfl
  | cons x xs ih =>
    have hrest : ∀ b, f x = .ok b →
        stop? (xs.mapM f >>= fun bs => pure (b :: bs)) = xs.findSome? fun x => stop? (f x) := by
      intro b _
      rw [stop?_bind (o := none) fun _ _ => rfl, ih, Option.or_none]
    rw [List.mapM_cons, stop?_bind hrest, List.findSome?_cons]
    cases stop? (f x) <;> rfl

theorem run_bind {x : ExceptT ε (StateM σ) α} {k : α → ExceptT ε (StateM σ) β} {a : α} {s s' : σ}
    (h : x.run.run s = (.ok a, s')) : (x >>= k).run.run s = (k a).run.run s' := by
  rw [ExceptT.run_bind, StateT.run_bind, h]
  rfl

theorem run_bind_error {x : ExceptT ε (StateM σ) α} {k : α → ExceptT ε (StateM σ) β} {e : ε}
    {s s' : σ} (h : x.run.run s = (.error e, s')) : (x >>= k).run.run s = (.error e, s') := by
  rw [ExceptT.run_bind, StateT.run_bind, h]
  rfl

end Clausification
