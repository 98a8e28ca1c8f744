import LogSocket.Lib.Calls

/-! Programs whose surroundings are a function of their state: a call is answered and leaves a new
state, or it ends the run. What is left of a program after some calls runs as the program does whose
calls were answered so. -/

namespace LogSocket.Lib

variable {ω ε κ : Type} {answer : ω → Type} {α β σ : Type}

/-- How a run ended, and the state that it left. -/
abbrev Ending (ε κ α : Type) := Except ε α × κ

namespace Ending

/-- What follows a run that was not ended. -/
def andThen (r : Ending ε κ α) (f : α → κ → Ending ε κ β) : Ending ε κ β :=
  match r with
  | (.ok a, k) => f a k
  | (.error e, k) => (.error e, k)

@[simp] theorem andThen_ok (a : α) (k : κ) (f : α → κ → Ending ε κ β) :
    andThen (.ok a, k) f = f a k := rfl

@[simp] theorem andThen_error (e : ε) (k : κ) (f : α → κ → Ending ε κ β) :
    andThen (.error e, k) f = (.error e, k) := rfl

end Ending

variable (reply : (o : ω) → κ → Except ε (answer o × κ))

namespace Calls

def run : Calls ω answer α → κ → Ending ε κ α
  | done a, k => (.ok a, k)
  | call o next, k =>
    match reply o k with
    | .ok (a, k) => (next a).run k
    | .error e => (.error e, k)

@[simp] theorem run_pure (a : α) (k : κ) :
    (pure a : Calls ω answer α).run reply k = (.ok a, k) := rfl

theorem run_ask {o : ω} {k k' : κ} {a : answer o} (h : reply o k = .ok (a, k')) :
    (ask answer o).run reply k = (.ok a, k') := by
  simp [ask, run, h]

theorem run_bind (p : Calls ω answer α) (f : α → Calls ω answer β) (k : κ) :
    (p >>= f).run reply k = (p.run reply k).andThen fun a k => (f a).run reply k := by
  induction p generalizing k with
  | done a => rfl
  | call o next ih =>
    change (call o fun a => (next a).bind f).run reply k = _
    simp only [run]
    cases reply o k with
    | error e => rfl
    | ok r => exact ih r.1 r.2

variable {reply}

/-- What every reply keeps, a run keeps. -/
theorem run_keeps {I : κ → Prop} (p : Calls ω answer α) {k : κ}
    (hReply : ∀ o k a k', reply o k = .ok (a, k') → I k → I k') (h : I k) :
    I (p.run reply k).2 := by
  induction p generalizing k with
  | done a => exact h
  | call o next ih =>
    simp only [run]
    cases hAnswer : reply o k with
    | error e => exact h
    | ok r => exact ih r.1 (hReply o k r.1 r.2 hAnswer h)

end Calls

/-- The calls of a trace are answered as the surroundings reply. -/
inductive Replied : κ → Trace ω answer → κ → Prop
  | nil {k : κ} : Replied k [] k
  | cons {o : ω} {a : answer o} {t : Trace ω answer} {k k' k'' : κ} : reply o k = .ok (a, k') →
      Replied k' t k'' → Replied k (⟨o, a⟩ :: t) k''

variable {reply}

theorem Reaches.run_eq {p q : Calls ω answer α} {t : Trace ω answer} {k k' : κ}
    (h : Reaches p t q) (hReplied : Replied reply k t k') : p.run reply k = q.run reply k' := by
  induction h generalizing k with
  | here =>
    cases hReplied
    rfl
  | call _ ih =>
    cases hReplied with
    | cons hReply hRest =>
      rw [Calls.run, hReply]
      exact ih hRest

end LogSocket.Lib
