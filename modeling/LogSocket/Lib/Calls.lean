import Mathlib.Data.List.Basic

/-! Programs that call their surroundings. A program makes a call, goes on with the answer, and ends
with a value; the surroundings may answer anything. `Reaches` is a part of a run and its trace.
`Spec` says which calls a program makes, after which past, and what holds at its end. -/

namespace LogSocket.Lib

variable {ω : Type} {answer : ω → Type} {α β σ : Type}

inductive Calls (ω : Type) (answer : ω → Type) (α : Type)
  | done (a : α)
  | call (o : ω) (next : answer o → Calls ω answer α)

/-- The calls of a part of a run with their answers, in order. -/
abbrev Trace (ω : Type) (answer : ω → Type) := List (Σ o, answer o)

namespace Calls

def bind : Calls ω answer α → (α → Calls ω answer β) → Calls ω answer β
  | done a, f => f a
  | call o next, f => call o fun a => (next a).bind f

instance : Monad (Calls ω answer) where
  pure := done
  bind := bind

theorem bind_done (p : Calls ω answer α) : p.bind done = p := by
  induction p with
  | done a => rfl
  | call o next ih => exact congrArg (call o) (funext ih)

theorem bind_bind {γ : Type} (p : Calls ω answer α) (f : α → Calls ω answer β)
    (g : β → Calls ω answer γ) : (p.bind f).bind g = p.bind fun a => (f a).bind g := by
  induction p with
  | done a => rfl
  | call o next ih => exact congrArg (call o) (funext ih)

instance : LawfulMonad (Calls ω answer) := .mk' _ bind_done (fun _ _ => rfl) bind_bind

/-- A call whose answer is the value. -/
def ask (answer : ω → Type) (o : ω) : Calls ω answer (answer o) := call o done

/-- The call that a program is about to make. -/
def next? : Calls ω answer α → Option ω
  | done _ => none
  | call o _ => some o

theorem eq_call_of_next? {p : Calls ω answer α} {o : ω} (h : p.next? = some o) :
    ∃ next, p = call o next := by
  cases p with
  | done a => cases h
  | call o' next =>
    cases h
    exact ⟨next, rfl⟩

/-- At most `n` turns, each of which goes on with a new state or leaves with a value. -/
def loop (turn : σ → Calls ω answer (σ ⊕ β)) : Nat → σ → Calls ω answer (σ ⊕ β)
  | 0, s => done (.inl s)
  | n + 1, s =>
    (turn s).bind fun
      | .inl s' => loop turn n s'
      | .inr b => done (.inr b)

end Calls

/-- After the calls of a trace, with the answers in it, `q` is left of a program. -/
inductive Reaches : Calls ω answer α → Trace ω answer → Calls ω answer α → Prop
  | here {p} : Reaches p [] p
  | call {o : ω} {next : answer o → Calls ω answer α} {a : answer o} {t q} :
      Reaches (next a) t q → Reaches (.call o next) (⟨o, a⟩ :: t) q

theorem Reaches.bind {p : Calls ω answer α} {a : α} {t t' : Trace ω answer}
    {f : α → Calls ω answer β} {q : Calls ω answer β} (h : Reaches p t (.done a))
    (h' : Reaches (f a) t' q) : Reaches (p >>= f) (t ++ t') q := by
  generalize hDone : Calls.done a = r at h
  induction h with
  | here =>
    subst hDone
    exact h'
  | call _ ih => exact .call (ih hDone)

theorem Reaches.bind_left {p q : Calls ω answer α} {t : Trace ω answer} (h : Reaches p t q)
    (f : α → Calls ω answer β) : Reaches (p >>= f) t (q >>= f) := by
  induction h with
  | here => exact .here
  | call _ ih => exact .call ih

theorem Reaches.trans {p q r : Calls ω answer α} {t t' : Trace ω answer} (h : Reaches p t q)
    (h' : Reaches q t' r) : Reaches p (t ++ t') r := by
  induction h with
  | here => exact h'
  | call _ ih => exact .call (ih h')

/-- A run may be cut anywhere. -/
theorem Reaches.split {p r : Calls ω answer α} {t t' : Trace ω answer} (h : Reaches p (t ++ t') r) :
    ∃ q, Reaches p t q ∧ Reaches q t' r := by
  induction t generalizing p with
  | nil => exact ⟨p, .here, h⟩
  | cons e t ih =>
    cases h with
    | call h =>
      obtain ⟨q, hFirst, hRest⟩ := ih h
      exact ⟨q, .call hFirst, hRest⟩

theorem Reaches.next?_eq {p q : Calls ω answer α} {o : ω} {a : answer o} {t : Trace ω answer}
    (h : Reaches p (⟨o, a⟩ :: t) q) : p.next? = some o := by
  cases h
  rfl

/-- Every call that a program makes is one that `may` allows after the calls before it, and `Q`
holds of its value and of all calls, whatever is answered. -/
def Spec (may : Trace ω answer → ω → Prop) (Q : α → Trace ω answer → Prop) :
    Calls ω answer α → Trace ω answer → Prop
  | .done a, past => Q a past
  | .call o next, past => may past o ∧ ∀ a, Spec may Q (next a) (past ++ [⟨o, a⟩])

namespace Spec

variable {may : Trace ω answer → ω → Prop} {Q : α → Trace ω answer → Prop}
  {R : β → Trace ω answer → Prop} {p q : Calls ω answer α} {past t : Trace ω answer}

theorem pure {a : α} (h : Q a past) : Spec may Q (Pure.pure a : Calls ω answer α) past := h

theorem ask {o : ω} {Q : answer o → Trace ω answer → Prop} (hMay : may past o)
    (h : ∀ a, Q a (past ++ [⟨o, a⟩])) : Spec may Q (Calls.ask answer o) past := ⟨hMay, h⟩

theorem bind {f : α → Calls ω answer β} (hp : Spec may Q p past)
    (hf : ∀ a past', Q a past' → Spec may R (f a) past') : Spec may R (p >>= f) past := by
  induction p generalizing past with
  | done a => exact hf a past hp
  | call o next ih => exact ⟨hp.1, fun a => ih a (hp.2 a)⟩

theorem weaken {Q' : α → Trace ω answer → Prop} (hp : Spec may Q p past)
    (h : ∀ a past', Q a past' → Q' a past') : Spec may Q' p past := by
  induction p generalizing past with
  | done a => exact h a past hp
  | call o next ih => exact ⟨hp.1, fun a => ih a (hp.2 a)⟩

/-- Behind other calls a program ends as it does by itself. -/
theorem behind (hp : Spec may Q p t) (past : Trace ω answer) :
    Spec (fun _ _ => True) (fun a past' => ∃ t', past' = past ++ t' ∧ Q a t') p (past ++ t) := by
  induction p generalizing t with
  | done a => exact ⟨t, rfl, hp⟩
  | call o next ih =>
    refine ⟨trivial, fun a => ?_⟩
    rw [List.append_assoc]
    exact ih a (hp.2 a)

theorem any (p : Calls ω answer α) : Spec (fun _ _ => True) (fun _ _ => True) p past := by
  induction p generalizing past with
  | done a => trivial
  | call o next ih => exact ⟨trivial, fun a => ih a⟩

/-- The calls made so far stay. -/
theorem grows (hp : Spec may Q p past) :
    Spec may (fun a past' => Q a past' ∧ past <+: past') p past := by
  induction p generalizing past with
  | done a => exact ⟨hp, List.prefix_rfl⟩
  | call o next ih =>
    refine ⟨hp.1, fun a => (ih a (hp.2 a)).weaken fun _ _ h => ⟨h.1, ?_⟩⟩
    exact (List.prefix_append past [⟨o, a⟩]).trans h.2

/-- A loop keeps what each of its turns keeps. -/
theorem loop {turn : σ → Calls ω answer (σ ⊕ β)} {I : σ → Trace ω answer → Prop} (n : Nat) {s : σ}
    (hTurn : ∀ s past, I s past → Spec may (Sum.elim I R) (turn s) past) (h : I s past) :
    Spec may (Sum.elim I R) (Calls.loop turn n s) past := by
  induction n generalizing s past with
  | zero => exact h
  | succ n ih =>
    refine (hTurn s past h).bind fun r past' hr => ?_
    cases r with
    | inl s' => exact ih hr
    | inr b => exact hr

/-- What is left of a program meets the specification of the program. -/
theorem reaches (hp : Spec may Q p past) (h : Reaches p t q) : Spec may Q q (past ++ t) := by
  induction h generalizing past with
  | here => rwa [List.append_nil]
  | @call o next a t q _ ih =>
    have hRest := ih (hp.2 a)
    rwa [List.append_assoc, List.singleton_append] at hRest

/-- Every call in the trace of a run is one that it may make. -/
theorem may_of_reaches (hp : Spec may Q p past) {pre post : Trace ω answer} {o : ω} {a : answer o}
    (h : Reaches p (pre ++ ⟨o, a⟩ :: post) q) : may (past ++ pre) o := by
  generalize ht : pre ++ ⟨o, a⟩ :: post = t at h
  induction h generalizing past pre with
  | here => cases pre <;> cases ht
  | @call o' next a' t q _ ih =>
    cases pre with
    | nil =>
      cases ht
      rw [List.append_nil]
      exact hp.1
    | cons e pre =>
      obtain ⟨rfl, rfl⟩ := List.cons.inj ht
      have hRest := ih (hp.2 a') rfl
      rwa [List.append_assoc, List.singleton_append] at hRest

end Spec

end LogSocket.Lib
