import Mathlib.Logic.Relation
import LogSocket.Lib.Calls

/-! Programs in surroundings that have a state. The surroundings answer each call, and change by
themselves at any time in between. `Keeps` says what holds of their state at every call and at the
end of a program, whatever they do; its rules are those of a Hoare logic whose assertions the
surroundings cannot falsify by themselves. -/

namespace LogSocket.Lib

open Relation

structure Surroundings (κ ω : Type) (answer : ω → Type) where
  drifts : κ → κ → Prop
  answers : κ → (o : ω) → answer o → κ → Prop

variable {κ ω : Type} {answer : ω → Type} {α β σ : Type}

namespace Surroundings

/-- The same surroundings where they answer each call as `c` allows. -/
def restrict (w : Surroundings κ ω answer) (c : κ → (o : ω) → answer o → Prop) :
    Surroundings κ ω answer where
  drifts := w.drifts
  answers k o a k' := w.answers k o a k' ∧ c k o a

/-- One step of a program in its surroundings. -/
inductive Step (w : Surroundings κ ω answer) : Calls ω answer α × κ → Calls ω answer α × κ → Prop
  | drift {p : Calls ω answer α} {k k' : κ} : w.drifts k k' → Step w (p, k) (p, k')
  | answer {o : ω} {next : answer o → Calls ω answer α} {a : answer o} {k k' : κ} :
      w.answers k o a k' → Step w (.call o next, k) (next a, k')

/-- A run of any number of steps. -/
abbrev Runs (w : Surroundings κ ω answer) :
    Calls ω answer α × κ → Calls ω answer α × κ → Prop := ReflTransGen w.Step

/-- The surroundings do not falsify `I` by themselves. -/
def Stable (w : Surroundings κ ω answer) (I : κ → Prop) : Prop :=
  ∀ k k', w.drifts k k' → I k → I k'

/-- `P` holds of the state at every call and `Q` at the end, whatever the surroundings do. -/
def Keeps (w : Surroundings κ ω answer) (P : κ → ω → Prop) (Q : α → κ → Prop) :
    Calls ω answer α → κ → Prop
  | .done a, k => ∀ k', ReflTransGen w.drifts k k' → Q a k'
  | .call o next, k => ∀ k', ReflTransGen w.drifts k k' →
      P k' o ∧ ∀ a k'', w.answers k' o a k'' → Keeps w P Q (next a) k''

/-- A run leads from `s` to a state of which `G` holds. -/
def CanReach (w : Surroundings κ ω answer) (s : Calls ω answer α × κ)
    (G : Calls ω answer α × κ → Prop) : Prop := ∃ s', w.Runs s s' ∧ G s'

namespace CanReach

variable {w : Surroundings κ ω answer} {G : Calls ω answer α × κ → Prop} {k k' : κ}

theorem here {s : Calls ω answer α × κ} (h : G s) : w.CanReach s G := ⟨s, .refl, h⟩

theorem call {o : ω} {next : answer o → Calls ω answer α} (a : answer o) (h : w.answers k o a k')
    (hRest : w.CanReach (next a, k') G) : w.CanReach (.call o next, k) G := by
  rcases hRest with ⟨s, hRun, hG⟩
  exact ⟨s, .head (.answer h) hRun, hG⟩

theorem drift {p : Calls ω answer α} (h : w.drifts k k') (hRest : w.CanReach (p, k') G) :
    w.CanReach (p, k) G := by
  rcases hRest with ⟨s, hRun, hG⟩
  exact ⟨s, .head (.drift h) hRun, hG⟩

end CanReach

variable {w : Surroundings κ ω answer} {P : κ → ω → Prop} {Q : α → κ → Prop} {R : β → κ → Prop}
  {p : Calls ω answer α} {k k' : κ}

theorem Stable.reach {I : κ → Prop} (hI : w.Stable I) (h : ReflTransGen w.drifts k k') (hk : I k) :
    I k' := by
  induction h with
  | refl => exact hk
  | tail _ hStep ih => exact hI _ _ hStep ih

namespace Keeps

theorem pure {a : α} (hQ : w.Stable (Q a)) (h : Q a k) :
    w.Keeps P Q (Pure.pure a : Calls ω answer α) k := fun _ hReach => hQ.reach hReach h

/-- A call from where `I` holds. -/
theorem ask {o : ω} {I : κ → Prop} {Q : answer o → κ → Prop} (hI : w.Stable I)
    (hQ : ∀ a, w.Stable (Q a)) (hk : I k)
    (h : ∀ k', I k' → P k' o ∧ ∀ a k'', w.answers k' o a k'' → Q a k'') :
    w.Keeps P Q (Calls.ask answer o) k := by
  intro k' hReach
  have hCall := h k' (hI.reach hReach hk)
  exact ⟨hCall.1, fun a k'' hAnswer k''' hReach' => (hQ a).reach hReach' (hCall.2 a k'' hAnswer)⟩

theorem bind {f : α → Calls ω answer β} (hp : w.Keeps P Q p k)
    (hf : ∀ a k', Q a k' → w.Keeps P R (f a) k') : w.Keeps P R (p >>= f) k := by
  induction p generalizing k with
  | done a => exact hf a k (hp k .refl)
  | call o next ih =>
    intro k' hReach
    have hCall := hp k' hReach
    exact ⟨hCall.1, fun a k'' hAnswer => ih a (hCall.2 a k'' hAnswer)⟩

theorem weaken {Q' : α → κ → Prop} (hp : w.Keeps P Q p k) (h : ∀ a k', Q a k' → Q' a k') :
    w.Keeps P Q' p k := by
  induction p generalizing k with
  | done a => exact fun k' hReach => h a k' (hp k' hReach)
  | call o next ih =>
    intro k' hReach
    have hCall := hp k' hReach
    exact ⟨hCall.1, fun a k'' hAnswer => ih a (hCall.2 a k'' hAnswer)⟩

/-- A loop keeps what each of its turns keeps. -/
theorem loop {turn : σ → Calls ω answer (σ ⊕ β)} {I : σ → κ → Prop} (hI : ∀ s, w.Stable (I s))
    (n : Nat) {s : σ} (hTurn : ∀ s k, I s k → w.Keeps P (Sum.elim I R) (turn s) k)
    (hR : ∀ b, w.Stable (R b)) (h : I s k) :
    w.Keeps P (Sum.elim I R) (Calls.loop turn n s) k := by
  induction n generalizing s k with
  | zero => exact fun k' hReach => (hI s).reach hReach h
  | succ n ih =>
    refine (hTurn s k h).bind fun r k' hr => ?_
    cases r with
    | inl s' => exact ih hr
    | inr b => exact fun k'' hReach => (hR b).reach hReach hr

/-- The surroundings may have changed since. -/
theorem drift (hp : w.Keeps P Q p k) (h : w.drifts k k') : w.Keeps P Q p k' := by
  cases p with
  | done a => exact fun k'' hReach => hp k'' (.head h hReach)
  | call o next => exact fun k'' hReach => hp k'' (.head h hReach)

theorem step {q : Calls ω answer α} (hp : w.Keeps P Q p k) (h : w.Step (p, k) (q, k')) :
    w.Keeps P Q q k' := by
  cases h with
  | drift hDrift => exact hp.drift hDrift
  | answer hAnswer => exact (hp k .refl).2 _ _ hAnswer

/-- What is left of a program keeps what the program keeps. -/
theorem runs {q : Calls ω answer α} (hp : w.Keeps P Q p k) (h : w.Runs (p, k) (q, k')) :
    w.Keeps P Q q k' := by
  generalize hStart : (p, k) = start at h
  generalize hEnd : (q, k') = state at h
  induction h generalizing q k' with
  | refl =>
    cases hStart
    cases hEnd
    exact hp
  | @tail state' _ _ hStep ih =>
    subst hEnd
    exact (ih rfl).step hStep

/-- What holds of the state at a call that is about to be made. -/
theorem at_call (hp : w.Keeps P Q p k) {o : ω} (h : p.next? = some o) : P k o := by
  obtain ⟨next, rfl⟩ := Calls.eq_call_of_next? h
  exact (hp k .refl).1

end Keeps

end Surroundings

end LogSocket.Lib
