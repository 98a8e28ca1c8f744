import Mathlib.Data.Fintype.Pigeonhole
import Mathlib.Logic.Relation
import LogSocket.Lib.Outcome

/-! Loops with no measure of their own. `walk` follows a partial function `next` for a number of
steps. Where the states that have a next one are finitely many, a walk that is longer than their
number goes on for ever, and it does so exactly when it reaches a cycle. `loop` runs a loop body for
a number of turns and is settled, by the same count, once that number is large enough. -/

namespace LogSocket.Lib

variable {σ ε β : Type}

def walk (next : σ → Option σ) : Nat → σ → Option σ
  | 0, s => some s
  | n + 1, s => (next s).bind (walk next n)

section walk

variable {next : σ → Option σ} {s t u : σ} {m n : Nat}

@[simp] theorem walk_zero (next : σ → Option σ) (s : σ) : walk next 0 s = some s := rfl

theorem walk_succ (next : σ → Option σ) (n : Nat) (s : σ) :
    walk next (n + 1) s = (next s).bind (walk next n) := rfl

theorem walk_add (next : σ → Option σ) (m n : Nat) (s : σ) :
    walk next (m + n) s = (walk next m s).bind (walk next n) := by
  induction m generalizing s with
  | zero => rw [Nat.zero_add]; rfl
  | succ m ih =>
    rw [Nat.add_right_comm, walk_succ, walk_succ, Option.bind_assoc]
    exact congrArg _ (funext ih)

theorem walk_isSome_of_le (h : (walk next n s).isSome) (hle : m ≤ n) : (walk next m s).isSome := by
  obtain ⟨k, rfl⟩ := Nat.exists_eq_add_of_le hle
  rw [walk_add] at h
  exact Option.isSome_of_isSome_bind h

/-- A walk that comes back to a state goes on for ever. -/
theorem walk_of_return (hReach : walk next m s = some t) (hPos : 0 < n)
    (hReturn : walk next n t = some t) (k : Nat) : (walk next k s).isSome := by
  induction k using Nat.strongRecOn with
  | ind k ih =>
    by_cases hle : k ≤ m + n
    · refine walk_isSome_of_le ?_ hle
      rw [walk_add, hReach, Option.bind_some, hReturn]
      rfl
    · have hBack : walk next k s = walk next (k - n) s := by
        rw [show k = m + (n + (k - m - n)) by omega, walk_add, hReach, Option.bind_some, walk_add,
          hReturn, show m + (n + (k - m - n)) - n = m + (k - m - n) by omega, walk_add, hReach]
      rw [hBack]
      exact ih (k - n) (by omega)

/-- With fewer than `bound` states that have a next one, a walk of `bound + 1` steps has come back
to a state. -/
theorem exists_return {f : σ → Nat} {bound : Nat} (hInj : Function.Injective f)
    (hLive : ∀ s, (next s).isSome → f s < bound) (h : (walk next (bound + 1) s).isSome) :
    ∃ m n t, walk next m s = some t ∧ 0 < n ∧ walk next n t = some t := by
  have hState : ∀ i : Fin (bound + 1), ∃ t, walk next i s = some t ∧ f t < bound := by
    intro i
    have hNext := walk_isSome_of_le h (show i.val + 1 ≤ bound + 1 by omega)
    rw [walk_add] at hNext
    obtain ⟨t, ht⟩ := Option.isSome_iff_exists.mp (Option.isSome_of_isSome_bind hNext)
    refine ⟨t, ht, hLive t ?_⟩
    rw [ht, Option.bind_some, walk_succ] at hNext
    exact Option.isSome_of_isSome_bind hNext
  choose state hWalk hBound using hState
  obtain ⟨i, j, hne, heq⟩ := Fintype.exists_ne_map_eq_of_card_lt
    (fun i => (⟨f (state i), hBound i⟩ : Fin bound)) (by simp)
  have hSame : state i = state j := hInj (Fin.mk.inj heq)
  have key : ∀ i j : Fin (bound + 1), i < j → state i = state j →
      ∃ m n t, walk next m s = some t ∧ 0 < n ∧ walk next n t = some t := by
    intro i j hlt hSame
    refine ⟨i, j - i, state i, hWalk i, by omega, ?_⟩
    have hAdd := walk_add next i (j - i) s
    rw [show i.val + (j.val - i.val) = j by omega, hWalk, hWalk, Option.bind_some] at hAdd
    rw [← hAdd, hSame]
  rcases Nat.lt_or_gt_of_ne (fun h => hne (Fin.ext h)) with hlt | hlt
  · exact key i j hlt hSame
  · exact key j i hlt hSame.symm

/-- A walk of `bound + 1` steps goes on for ever. -/
theorem walk_forever {f : σ → Nat} {bound : Nat} (hInj : Function.Injective f)
    (hLive : ∀ s, (next s).isSome → f s < bound) (h : (walk next (bound + 1) s).isSome) (k : Nat) :
    (walk next k s).isSome := by
  obtain ⟨m, n, t, hReach, hPos, hReturn⟩ := exists_return hInj hLive h
  exact walk_of_return hReach hPos hReturn k

theorem reflTransGen_of_walk (h : walk next n s = some t) :
    Relation.ReflTransGen (fun a b => next a = some b) s t := by
  induction n generalizing s with
  | zero => rw [Option.some.inj h]
  | succ n ih =>
    rw [walk_succ] at h
    obtain ⟨u, hNext, hRest⟩ := Option.bind_eq_some_iff.mp h
    exact (ih hRest).head hNext

theorem walk_of_reflTransGen (h : Relation.ReflTransGen (fun a b => next a = some b) s t) :
    ∃ n, walk next n s = some t := by
  induction h using Relation.ReflTransGen.head_induction_on with
  | refl => exact ⟨0, rfl⟩
  | head hNext _ ih =>
    obtain ⟨n, hn⟩ := ih
    exact ⟨n + 1, by rw [walk_succ, hNext, Option.bind_some, hn]⟩

/-- With finitely many states that have a next one, a walk goes on for ever exactly when it reaches
a cycle. -/
theorem forever_iff_cycle {f : σ → Nat} {bound : Nat} (hInj : Function.Injective f)
    (hLive : ∀ s, (next s).isSome → f s < bound) :
    (∀ n, (walk next n s).isSome) ↔
      ∃ t, Relation.ReflTransGen (fun a b => next a = some b) s t ∧
        Relation.TransGen (fun a b => next a = some b) t t := by
  constructor
  · intro h
    obtain ⟨m, n, t, hReach, hPos, hReturn⟩ := exists_return hInj hLive (h (bound + 1))
    refine ⟨t, reflTransGen_of_walk hReach, ?_⟩
    obtain ⟨n, rfl⟩ := Nat.exists_eq_succ_of_ne_zero hPos.ne'
    obtain ⟨u, hNext, hRest⟩ := Option.bind_eq_some_iff.mp ((walk_succ next n t).symm.trans hReturn)
    exact .head' hNext (reflTransGen_of_walk hRest)
  · rintro ⟨t, hReach, hCycle⟩ k
    obtain ⟨m, hm⟩ := walk_of_reflTransGen hReach
    obtain ⟨u, hNext, hRest⟩ := Relation.TransGen.head'_iff.mp hCycle
    obtain ⟨n, hn⟩ := walk_of_reflTransGen hRest
    refine walk_of_return hm n.succ_pos ?_ k
    rw [walk_succ, hNext, Option.bind_some, hn]

end walk

/-- A loop whose body, `turn`, goes on with a new state or leaves with a value, for `fuel` turns. -/
def loop (turn : σ → Except ε (σ ⊕ β)) (spent : ε) : Nat → σ → Except ε β
  | 0, _ => throw spent
  | fuel + 1, s => do
    match ← turn s with
    | .inl s' => loop turn spent fuel s'
    | .inr b => pure b

section loop

variable {turn : σ → Except ε (σ ⊕ β)} {spent : ε} {s : σ} {m n : Nat}

/-- The state that a turn goes on with. -/
def goesOn (turn : σ → Except ε (σ ⊕ β)) (s : σ) : Option σ :=
  match turn s with
  | .ok (.inl s') => some s'
  | _ => none

theorem goesOn_eq_some {s' : σ} : goesOn turn s = some s' ↔ turn s = .ok (.inl s') := by
  unfold goesOn
  split
  next s'' h => rw [h]; simp
  next h =>
    constructor
    · intro hNone; cases hNone
    · intro hTurn; exact absurd hTurn (h s')

theorem loop_succ_of_next {s' : σ} (h : turn s = .ok (.inl s')) (n : Nat) :
    loop turn spent (n + 1) s = loop turn spent n s' := by
  rw [loop, h]; rfl

theorem loop_succ_of_done {b : β} (h : turn s = .ok (.inr b)) (n : Nat) :
    loop turn spent (n + 1) s = .ok b := by
  rw [loop, h]; rfl

theorem loop_succ_of_error {e : ε} (h : turn s = .error e) (n : Nat) :
    loop turn spent (n + 1) s = .error e := by
  rw [loop, h]; rfl

/-- A loop that goes on for all of its turns spends them. -/
theorem loop_of_walk (h : (walk (goesOn turn) n s).isSome) :
    loop turn spent n s = .error spent := by
  induction n generalizing s with
  | zero => rfl
  | succ n ih =>
    rw [walk_succ] at h
    obtain ⟨s', hNext⟩ := Option.isSome_iff_exists.mp (Option.isSome_of_isSome_bind h)
    rw [hNext] at h
    rw [loop_succ_of_next (goesOn_eq_some.mp hNext)]
    exact ih h

/-- A loop that leaves does the same with more turns. -/
theorem loop_of_le (h : walk (goesOn turn) m s = none) (hle : m ≤ n) :
    loop turn spent n s = loop turn spent m s := by
  induction m generalizing s n with
  | zero => cases h
  | succ m ih =>
    obtain ⟨n, rfl⟩ := Nat.exists_eq_succ_of_ne_zero (show n ≠ 0 by omega)
    cases hTurn : turn s with
    | error e => rw [loop_succ_of_error hTurn, loop_succ_of_error hTurn]
    | ok r =>
      cases r with
      | inr b => rw [loop_succ_of_done hTurn, loop_succ_of_done hTurn]
      | inl s' =>
        rw [walk_succ, goesOn_eq_some.mpr hTurn] at h
        rw [loop_succ_of_next hTurn, loop_succ_of_next hTurn]
        exact ih h (by omega)

/-- Any two numbers of turns above the number of states give the same result. -/
theorem loop_fuel {f : σ → Nat} {bound : Nat} (hInj : Function.Injective f)
    (hLive : ∀ s, (goesOn turn s).isSome → f s < bound) (hm : bound < m) (hn : bound < n) :
    loop turn spent m s = loop turn spent n s := by
  cases h : walk (goesOn turn) (bound + 1) s with
  | none => rw [loop_of_le h hm, loop_of_le h hn]
  | some t =>
    have hForever := walk_forever hInj hLive (Option.isSome_of_eq_some h)
    rw [loop_of_walk (hForever m), loop_of_walk (hForever n)]

/-- With turns enough, a turn can be taken out of the loop. -/
theorem loop_of_next {f : σ → Nat} {bound : Nat} (hInj : Function.Injective f)
    (hLive : ∀ s, (goesOn turn s).isSome → f s < bound) (hn : bound < n) {s' : σ}
    (h : turn s = .ok (.inl s')) : loop turn spent n s = loop turn spent n s' := by
  rw [← loop_succ_of_next h n]
  exact loop_fuel hInj hLive hn (by omega)

/-- What holds at every turn: the loop spends all of its turns or ends in a state where it holds. -/
theorem loop_ensures {P : σ → Prop} (hNext : ∀ s s', P s → turn s = .ok (.inl s') → P s')
    (hStart : P s) :
    Ensures (fun e => e = spent ∧ (walk (goesOn turn) n s).isSome ∨ ∃ t, P t ∧ turn t = .error e)
      (fun b => ∃ t, P t ∧ turn t = .ok (.inr b)) (loop turn spent n s) := by
  induction n generalizing s with
  | zero => exact .inl ⟨rfl, rfl⟩
  | succ n ih =>
    cases hTurn : turn s with
    | error e =>
      rw [loop_succ_of_error hTurn]
      exact .inr ⟨s, hStart, hTurn⟩
    | ok r =>
      cases r with
      | inr b =>
        rw [loop_succ_of_done hTurn]
        exact ⟨s, hStart, hTurn⟩
      | inl s' =>
        rw [loop_succ_of_next hTurn, walk_succ, goesOn_eq_some.mpr hTurn]
        exact ih (hNext s s' hStart hTurn)

/-- A loop each of whose turns goes on, where `I` holds, to a state where it holds spends them all. -/
theorem loop_never {I : σ → Prop} (hTurn : ∀ s, I s → ∃ s', turn s = .ok (.inl s') ∧ I s')
    (h : I s) (n : Nat) : loop turn spent n s = .error spent := by
  induction n generalizing s with
  | zero => rfl
  | succ n ih =>
    obtain ⟨s', hNext, hI⟩ := hTurn s h
    rw [loop_succ_of_next hNext, ih hI]

/-- Loops whose turns settle settle. -/
theorem loop_settles {more : ε → Prop} {turn' : σ → Except ε (σ ⊕ β)}
    (h : ∀ s, Settles more (turn s) (turn' s)) (n : Nat) (s : σ) :
    Settles more (loop turn spent n s) (loop turn' spent n s) := by
  induction n generalizing s with
  | zero => exact .refl _
  | succ n ih =>
    refine (h s).bind fun r _ => ?_
    cases r with
    | inl s' => exact ih s'
    | inr b => exact .refl _

end loop

end LogSocket.Lib
