/-!
# Computations that may fail

When a computation in several steps succeeds, every step has succeeded; when it fails, one step has
failed and those before it have succeeded.
-/

namespace ToneGraph

variable {ε α β : Type}

theorem bind_eq_ok_iff {x : Except ε α} {f : α → Except ε β} {b : β} :
    x >>= f = .ok b ↔ ∃ a, x = .ok a ∧ f a = .ok b := by
  cases x with
  | error why => simp [bind, Except.bind]
  | ok a => simp [bind, Except.bind]

theorem bind_eq_error_iff {x : Except ε α} {f : α → Except ε β} {why : ε} :
    x >>= f = .error why ↔ x = .error why ∨ ∃ a, x = .ok a ∧ f a = .error why := by
  cases x with
  | error other => simp [bind, Except.bind]
  | ok a => simp [bind, Except.bind]

theorem map_eq_ok_iff {x : Except ε α} {f : α → β} {b : β} :
    f <$> x = .ok b ↔ ∃ a, x = .ok a ∧ f a = b := by
  cases x with
  | error why => simp [Functor.map, Except.map]
  | ok a => simp [Functor.map, Except.map]

theorem mapError_eq_ok_iff {ε' : Type} {x : Except ε α} {f : ε → ε'} {a : α} :
    x.mapError f = .ok a ↔ x = .ok a := by
  cases x with
  | error why =>
      show (Except.error (f why) : Except ε' α) = .ok a ↔ _
      simp
  | ok b =>
      show (Except.ok b : Except ε' α) = .ok a ↔ _
      simp

theorem mapError_eq_error_iff {ε' : Type} {x : Except ε α} {f : ε → ε'} {why : ε'} :
    x.mapError f = .error why ↔ ∃ err, x = .error err ∧ f err = why := by
  cases x with
  | error err =>
      show (Except.error (f err) : Except ε' α) = .error why ↔ _
      simp
  | ok a =>
      show (Except.ok a : Except ε' α) = .error why ↔ _
      simp

/-! ## The error of a computation -/

/-- The error that a computation ends in, if it does. -/
def errorOf : Except ε α → Option ε
  | .ok _ => none
  | .error why => some why

theorem errorOf_eq_some_iff {x : Except ε α} {why : ε} : errorOf x = some why ↔ x = .error why := by
  cases x <;> simp [errorOf]

theorem errorOf_eq_none_iff {x : Except ε α} : errorOf x = none ↔ ∃ a, x = .ok a := by
  cases x <;> simp [errorOf]

theorem errorOf_bind_pure (x : Except ε α) (f : α → β) :
    errorOf (x >>= fun a => pure (f a)) = errorOf x := by
  cases x <;> rfl

/-- The first error counts, if the later one does not depend on the result before. -/
theorem errorOf_bind {x : Except ε α} {f : α → Except ε β} {later : Option ε}
    (h : ∀ a, errorOf (f a) = later) : errorOf (x >>= f) = (errorOf x).or later := by
  cases x with
  | error why => rfl
  | ok a => exact h a

/-! ## Results and errors in other words -/

variable {ε' α' β' : Type}

/-- The same outcome with the result and the error put in other words. -/
def mapBoth (f : α → α') (g : ε → ε') : Except ε α → Except ε' α'
  | .ok a => .ok (f a)
  | .error why => .error (g why)

/-- If every step gives the same outcome in other words, so do all of them in a row. -/
theorem mapBoth_bind {f : α → α'} {g : ε → ε'} {h : β → β'} {x : Except ε α} {x' : Except ε' α'}
    {next : α → Except ε β} {next' : α' → Except ε' β'} (hx : x' = mapBoth f g x)
    (hnext : ∀ a, next' (f a) = mapBoth h g (next a)) :
    x' >>= next' = mapBoth h g (x >>= next) := by
  rw [hx]
  cases x with
  | error why => rfl
  | ok a => exact hnext a

end ToneGraph
