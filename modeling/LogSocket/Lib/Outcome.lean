import Mathlib.Logic.Basic

/-! Results of computations that may fail, `Except ε α`, and two relations on them that compose
along `>>=`: `Ensures`, a postcondition on values with a set of allowed failures, and `Settles`,
which compares a computation on part of an input with the same computation on more of it. -/

namespace LogSocket.Lib

variable {ε α β : Type}

theorem ok_bind (a : α) (f : α → Except ε β) : (Except.ok a >>= f) = f a := rfl

theorem error_bind (e : ε) (f : α → Except ε β) : (Except.error e >>= f) = .error e := rfl

theorem bind_eq_ok {x : Except ε α} {f : α → Except ε β} {b : β} :
    x >>= f = .ok b ↔ ∃ a, x = .ok a ∧ f a = .ok b := by
  cases x with
  | ok a =>
    constructor
    · intro h
      exact ⟨a, rfl, h⟩
    · rintro ⟨_, ha, h⟩
      cases ha
      exact h
  | error e =>
    constructor
    · intro h
      cases h
    · rintro ⟨_, ha, -⟩
      cases ha

theorem map_eq_ok {x : Except ε α} {f : α → β} {b : β} :
    x.map f = .ok b ↔ ∃ a, x = .ok a ∧ f a = b := by
  cases x <;> simp [Except.map]

theorem map_eq_error {x : Except ε α} {f : α → β} {e : ε} :
    x.map f = .error e ↔ x = .error e := by
  cases x <;> simp [Except.map]

theorem toOption_eq_some {x : Except ε α} {a : α} : x.toOption = some a ↔ x = .ok a := by
  cases x <;> simp [Except.toOption]

/-- Every value of `x` satisfies `P`, and every failure is one that `ok` allows. -/
def Ensures (ok : ε → Prop) (P : α → Prop) : Except ε α → Prop
  | .ok a => P a
  | .error e => ok e

namespace Ensures

variable {ok ok' : ε → Prop} {P : α → Prop} {x : Except ε α}

@[simp] theorem ok_iff {a : α} : Ensures ok P (.ok a : Except ε α) ↔ P a := Iff.rfl

@[simp] theorem error_iff {e : ε} : Ensures ok P (.error e : Except ε α) ↔ ok e := Iff.rfl

@[simp] theorem pure_iff {a : α} : Ensures ok P (pure a : Except ε α) ↔ P a := Iff.rfl

@[simp] theorem throw_iff {e : ε} : Ensures ok P (throw e : Except ε α) ↔ ok e := Iff.rfl

/-- Nothing is asked of the values or the failures. -/
theorem trivial (x : Except ε α) : Ensures (fun _ => True) (fun _ => True) x := by
  cases x <;> exact True.intro

/-- More failures may be allowed. -/
theorem weaken (h : Ensures ok P x) (hok : ∀ e, ok e → ok' e) : Ensures ok' P x := by
  cases x with
  | ok a => exact h
  | error e => exact hok e h

theorem mono {P' : α → Prop} (h : Ensures ok P x) (hok : ∀ e, ok e → ok' e)
    (hP : ∀ a, P a → P' a) : Ensures ok' P' x := by
  cases x with
  | ok a => exact hP a h
  | error e => exact hok e h

theorem bind {R : β → Prop} {f : α → Except ε β} (hx : Ensures ok P x)
    (hf : ∀ a, P a → Ensures ok R (f a)) : Ensures ok R (x >>= f) := by
  cases x with
  | ok a => exact hf a hx
  | error e => exact hx

/-- What holds of a value can be read off the equation that gives it. -/
theorem of_value (h : ∀ a, x = .ok a → P a) : Ensures (fun _ => True) P x := by
  cases x with
  | ok a => exact h a rfl
  | error e => exact True.intro

/-- The value of a computation that succeeds. -/
theorem value (h : Ensures ok P x) {a : α} (hx : x = .ok a) : P a := by
  subst hx; exact h

/-- The failure of a computation that fails. -/
theorem failure (h : Ensures ok P x) {e : ε} (hx : x = .error e) : ok e := by
  subst hx; exact h

end Ensures

/-- `x'` repeats `x`, unless `x` failed for want of input. -/
def Settles (more : ε → Prop) (x x' : Except ε α) : Prop :=
  (∃ e, x = .error e ∧ more e) ∨ x' = x

namespace Settles

variable {more : ε → Prop} {x x' : Except ε α}

theorem refl (x : Except ε α) : Settles more x x := .inr rfl

theorem wants {e : ε} (h : more e) : Settles more (.error e : Except ε α) x' := .inl ⟨e, rfl, h⟩

theorem bind {f f' : α → Except ε β} (hx : Settles more x x')
    (hf : ∀ a, x = .ok a → Settles more (f a) (f' a)) : Settles more (x >>= f) (x' >>= f') := by
  obtain ⟨e, rfl, he⟩ | rfl := hx
  · exact .wants he
  · cases x' with
    | ok a => exact hf a rfl
    | error e => exact .inr rfl

/-- A value is repeated. -/
theorem value (h : Settles more x x') {a : α} (hx : x = .ok a) : x' = .ok a := by
  subst hx
  obtain ⟨e, he, -⟩ | h := h
  · cases he
  · exact h

/-- A failure that more input does not cure is repeated. -/
theorem failure (h : Settles more x x') {e : ε} (hx : x = .error e) (he : ¬more e) :
    x' = .error e := by
  subst hx
  obtain ⟨_, he', hmore⟩ | h := h
  · cases he'
    exact absurd hmore he
  · exact h

end Settles

/-- Two computations that both succeed, with values that `R` relates, or both fail, with failures
that `Q` relates. -/
def Relates {ε' : Type} (Q : ε → ε' → Prop) (R : α → β → Prop) : Except ε α → Except ε' β → Prop
  | .ok a, .ok b => R a b
  | .error e, .error e' => Q e e'
  | _, _ => False

namespace Relates

variable {ε' γ δ : Type} {Q : ε → ε' → Prop} {R : α → β → Prop} {x : Except ε α} {y : Except ε' β}

@[simp] theorem ok_iff {a : α} {b : β} :
    Relates Q R (.ok a : Except ε α) (.ok b : Except ε' β) ↔ R a b := Iff.rfl

@[simp] theorem error_iff {e : ε} {e' : ε'} :
    Relates Q R (.error e : Except ε α) (.error e' : Except ε' β) ↔ Q e e' := Iff.rfl

theorem cases (h : Relates Q R x y) : (∃ a b, x = .ok a ∧ y = .ok b ∧ R a b) ∨
    ∃ e e', x = .error e ∧ y = .error e' ∧ Q e e' := by
  cases x with
  | ok a =>
    cases y with
    | ok b => exact .inl ⟨a, b, rfl, rfl, h⟩
    | error e' => exact h.elim
  | error e =>
    cases y with
    | ok b => exact h.elim
    | error e' => exact .inr ⟨e, e', rfl, rfl, h⟩

/-- The rests of two computations are compared where both have gone well so far. -/
theorem bind {S : γ → δ → Prop} {f : α → Except ε γ} {g : β → Except ε' δ} (h : Relates Q R x y)
    (hf : ∀ a b, x = .ok a → y = .ok b → R a b → Relates Q S (f a) (g b)) :
    Relates Q S (x >>= f) (y >>= g) := by
  rcases h.cases with ⟨a, b, rfl, rfl, hR⟩ | ⟨e, e', rfl, rfl, hQ⟩
  · exact hf a b rfl rfl hR
  · exact hQ

theorem weaken {S : α → β → Prop} (h : Relates Q R x y) (hRS : ∀ a b, R a b → S a b) :
    Relates Q S x y := by
  rcases h.cases with ⟨a, b, rfl, rfl, hR⟩ | ⟨e, e', rfl, rfl, hQ⟩
  · exact hRS a b hR
  · exact hQ

/-- More failures may go together. -/
theorem allow {Q' : ε → ε' → Prop} (h : Relates Q R x y) (hQ : ∀ e e', Q e e' → Q' e e') :
    Relates Q' R x y := by
  rcases h.cases with ⟨a, b, rfl, rfl, hR⟩ | ⟨e, e', rfl, rfl, hFail⟩
  · exact hR
  · exact hQ e e' hFail

/-- A last step that only one of the two computations takes. -/
theorem map {S : γ → β → Prop} {f : α → γ} (h : Relates Q R x y)
    (hf : ∀ a b, R a b → S (f a) b) : Relates Q S (x >>= fun a => pure (f a)) y := by
  rw [← bind_pure y]
  exact h.bind fun a b _ _ hR => hf a b hR

end Relates

end LogSocket.Lib
