import Mathlib.Data.List.Perm.Basic
import Mathlib.Data.Set.Insert
import Mathlib.Logic.Relation
import LogSocket.Lib.Calls

/-! Programs that run at the same time. The threads of a process make their calls one at a time, in any
order, and are answered by surroundings that they share; a call may start another thread, and a fatal
one ends them all. Each thread by itself is a run of its program. What the threads own of a shared
resource is accounted for call by call, whatever the others own. -/

namespace LogSocket.Lib

open Relation

/-- A thread of a role, with the calls that it has made and what is left of its program. -/
structure Thread (ρ ω : Type) (answer : ω → Type) (α : Type) where
  role : ρ
  past : Trace ω answer
  rest : Calls ω answer α

/-- The programs of the roles, what the surroundings answer to the thread of a number, the role of the
thread that a call starts, and the calls that end all threads. -/
structure Process (κ ρ ω : Type) (answer : ω → Type) (α : Type) where
  program : ρ → Calls ω answer α
  answers : Nat → κ → (o : ω) → answer o → κ → Prop
  starts : (o : ω) → answer o → Option ρ
  fatal : ω → Prop

/-- The threads of a process, in the order in which they were started, and its surroundings. -/
structure Pool (κ ρ ω : Type) (answer : ω → Type) (α : Type) where
  threads : List (Thread ρ ω answer α)
  state : κ

variable {κ ρ ω α R : Type} {answer : ω → Type}

namespace Process

variable (p : Process κ ρ ω answer α)

def start (role : ρ) : Thread ρ ω answer α := ⟨role, [], p.program role⟩

/-- The pool after a call of thread `i`. -/
def after (pool : Pool κ ρ ω answer α) (i : Nat) (role : ρ) (past : Trace ω answer) (o : ω)
    (next : answer o → Calls ω answer α) (a : answer o) (state : κ) : Pool κ ρ ω answer α where
  threads := pool.threads.set i ⟨role, past ++ [⟨o, a⟩], next a⟩ ++
    ((p.starts o a).map p.start).toList
  state := state

/-- No thread is at a fatal call. -/
def Alive (pool : Pool κ ρ ω answer α) : Prop :=
  ∀ th ∈ pool.threads, ∀ o, th.rest.next? = some o → ¬p.fatal o

inductive Step : Pool κ ρ ω answer α → Pool κ ρ ω answer α → Prop
  | call {pool : Pool κ ρ ω answer α} {i : Nat} {role : ρ} {past : Trace ω answer} {o : ω}
      {next : answer o → Calls ω answer α} {a : answer o} {state : κ} : p.Alive pool →
      pool.threads[i]? = some ⟨role, past, .call o next⟩ → p.answers i pool.state o a state →
      Step pool (p.after pool i role past o next a state)

/-- A pool that a process comes to from one thread. -/
def Reachable (main : ρ) (state : κ) (pool : Pool κ ρ ω answer α) : Prop :=
  ReflTransGen p.Step ⟨[p.start main], state⟩ pool

end Process

theorem Reaches.append_call {p : Calls ω answer α} {t : Trace ω answer} {o : ω}
    {next : answer o → Calls ω answer α} (h : Reaches p t (.call o next)) (a : answer o) :
    Reaches p (t ++ [⟨o, a⟩]) (next a) := by
  generalize hCall : Calls.call o next = q at h
  induction h with
  | here =>
    subst hCall
    exact .call .here
  | call _ ih => exact .call (ih hCall)

namespace Process

variable {p : Process κ ρ ω answer α} {main : ρ} {state : κ} {pool : Pool κ ρ ω answer α}

/-- The threads after a call. -/
theorem mem_after {i : Nat} {role : ρ} {past : Trace ω answer} {o : ω}
    {next : answer o → Calls ω answer α} {a : answer o} {th : Thread ρ ω answer α}
    (h : th ∈ (p.after pool i role past o next a state).threads) :
    th ∈ pool.threads ∨ th = ⟨role, past ++ [⟨o, a⟩], next a⟩ ∨ ∃ role, th = p.start role := by
  obtain h | h := List.mem_append.mp h
  · obtain h | rfl := List.mem_or_eq_of_mem_set h
    · exact .inl h
    · exact .inr (.inl rfl)
  · rw [Option.mem_toList, Option.map_eq_some_iff] at h
    obtain ⟨role, -, rfl⟩ := h
    exact .inr (.inr ⟨role, rfl⟩)

/-- Each thread by itself is a run of its program. -/
theorem Reachable.reaches (h : p.Reachable main state pool) :
    ∀ th ∈ pool.threads, Reaches (p.program th.role) th.past th.rest := by
  induction h with
  | refl =>
    intro th hMem
    obtain rfl := List.mem_singleton.mp hMem
    exact .here
  | tail _ hStep ih =>
    cases hStep with
    | call hAlive hThread hAnswer =>
      intro th hMem
      obtain hOld | rfl | ⟨role, rfl⟩ := mem_after hMem
      · exact ih th hOld
      · exact (ih _ (List.mem_of_getElem? hThread)).append_call _
      · exact .here

/-- What holds of every answer holds of the calls of each thread. -/
theorem Reachable.answered {P : (Σ o, answer o) → Prop} (h : p.Reachable main state pool)
    (hAnswers : ∀ i k o a k', p.answers i k o a k' → P ⟨o, a⟩) :
    ∀ th ∈ pool.threads, ∀ e ∈ th.past, P e := by
  induction h with
  | refl =>
    intro th hMem
    obtain rfl := List.mem_singleton.mp hMem
    exact fun _ h => absurd h List.not_mem_nil
  | tail _ hStep ih =>
    cases hStep with
    | call hAlive hThread hAnswer =>
      intro th hMem
      obtain hOld | rfl | ⟨role, rfl⟩ := mem_after hMem
      · exact ih th hOld
      · exact List.forall_mem_append.mpr ⟨ih _ (List.mem_of_getElem? hThread),
          List.forall_mem_singleton.mpr (hAnswers _ _ _ _ _ hAnswer)⟩
      · exact fun _ h => absurd h List.not_mem_nil

/-- What each thread finds of its own in the surroundings, where no other thread adds to it. -/
theorem Reachable.view {ε : Type} (view : κ → Nat → List ε) (adds : (Σ o, answer o) → Option ε)
    (h : p.Reachable main state pool) (hStart : ∀ i, view state i = [])
    (hAnswers : ∀ i k o a k', p.answers i k o a k' → ∀ j,
      view k' j = view k j ++ if j = i then (adds ⟨o, a⟩).toList else []) (i : Nat) :
    view pool.state i = (pool.threads[i]?.map fun th => th.past.filterMap adds).getD [] := by
  induction h with
  | refl =>
    rw [hStart]
    cases i <;> rfl
  | @tail pool _ _ hStep ih =>
    cases hStep with
    | @call j role past o next a state' hAlive hThread hAnswer =>
      change view state' i = _
      rw [hAnswers _ _ _ _ _ hAnswer, ih]
      obtain ⟨hj, hGet⟩ := List.getElem?_eq_some_iff.mp hThread
      by_cases hEq : i = j
      · subst hEq
        rw [after, List.getElem?_append_left (by simpa using hj), List.getElem?_set_self hj, hThread,
          if_pos rfl]
        cases hAdds : adds ⟨o, a⟩ <;> simp [hAdds]
      · rw [if_neg hEq, List.append_nil, after]
        by_cases hi : i < pool.threads.length
        · rw [List.getElem?_append_left (by simpa using hi), List.getElem?_set_ne (Ne.symm hEq)]
        · have hNone : pool.threads[i]? = none := List.getElem?_eq_none (Nat.le_of_not_lt hi)
          rw [hNone, List.getElem?_append_right (by simpa using hi)]
          cases p.starts o a with
          | none => rfl
          | some role =>
            generalize i - _ = n
            cases n <;> rfl

/-- The surroundings answer one call of a thread after the other, none of which starts a thread or ends
them all. -/
inductive Serves (p : Process κ ρ ω answer α) (i : Nat) : κ → Trace ω answer → κ → Prop
  | nil {k : κ} : Serves p i k [] k
  | cons {k k' k'' : κ} {o : ω} {a : answer o} {t : Trace ω answer} : ¬p.fatal o →
      p.starts o a = none → p.answers i k o a k' → Serves p i k' t k'' →
      Serves p i k (⟨o, a⟩ :: t) k''

/-- A thread may go on while all others wait. -/
theorem Reachable.goOn {i : Nat} {role : ρ} {past t : Trace ω answer}
    {q r : Calls ω answer α} {k : κ} (h : p.Reachable main state pool)
    (hThread : pool.threads[i]? = some ⟨role, past, q⟩) (hReaches : Reaches q t r)
    (hServes : p.Serves i pool.state t k)
    (hOthers : ∀ j th, j ≠ i → pool.threads[j]? = some th →
      ∀ o, th.rest.next? = some o → ¬p.fatal o) :
    p.Reachable main state ⟨pool.threads.set i ⟨role, past ++ t, r⟩, k⟩ := by
  induction hReaches generalizing pool past with
  | here =>
    cases hServes
    obtain ⟨hi, hGet⟩ := List.getElem?_eq_some_iff.mp hThread
    rw [List.append_nil, ← hGet, List.set_getElem_self]
    exact h
  | @call o next a t q _ ih =>
    cases hServes with
    | @cons _ k' _ _ _ _ hFatal hStarts hAnswer hRest =>
      obtain ⟨hi, -⟩ := List.getElem?_eq_some_iff.mp hThread
      have hAlive : p.Alive pool := by
        intro th hMem o' ho'
        obtain ⟨j, hj⟩ := List.mem_iff_getElem?.mp hMem
        by_cases hEq : j = i
        · subst hEq
          obtain rfl := Option.some.inj (hj.symm.trans hThread)
          obtain rfl := Option.some.inj ho'
          exact hFatal
        · exact hOthers j th hEq hj o' ho'
      have hAfter : p.after pool i role past o next a k' =
          ⟨pool.threads.set i ⟨role, past ++ [⟨o, a⟩], next a⟩, k'⟩ := by
        rw [after, hStarts, Option.map_none, Option.toList_none, List.append_nil]
      have hStep := h.tail (.call hAlive hThread hAnswer)
      rw [hAfter] at hStep
      have hNext := @ih _ (past ++ [⟨o, a⟩]) hStep (List.getElem?_set_self hi) hRest
        fun j th hne hj => hOthers j th hne (by rwa [List.getElem?_set_ne (Ne.symm hne)] at hj)
      rwa [List.set_set, List.append_assoc] at hNext

variable {may : ρ → Trace ω answer → ω → Prop} {Q : ρ → α → Trace ω answer → Prop}
  (hSpec : ∀ role, Spec (may role) (Q role) (p.program role) [])
include hSpec

/-- Each thread meets the specification of its program, whatever the others do. -/
theorem Reachable.spec (h : p.Reachable main state pool) {th : Thread ρ ω answer α}
    (hMem : th ∈ pool.threads) : Spec (may th.role) (Q th.role) th.rest th.past :=
  (hSpec th.role).reaches (h.reaches th hMem)

/-- What every call that a thread may make preserves holds of every pool. -/
theorem Reachable.invariant {I : Pool κ ρ ω answer α → Prop}
    (h : p.Reachable main state pool) (hStart : I ⟨[p.start main], state⟩)
    (hStep : ∀ (pool : Pool κ ρ ω answer α) (i : Nat) (role : ρ) (past : Trace ω answer) (o : ω)
      (next : answer o → Calls ω answer α) (a : answer o) (state : κ), I pool →
      pool.threads[i]? = some ⟨role, past, .call o next⟩ → may role past o →
      p.answers i pool.state o a state → I (p.after pool i role past o next a state)) : I pool := by
  induction h with
  | refl => exact hStart
  | tail hRun hStep' ih =>
    cases hStep' with
    | call hAlive hThread hAnswer =>
      have hThreadSpec := Reachable.spec hSpec hRun (List.mem_of_getElem? hThread)
      exact hStep _ _ _ _ _ _ _ _ ih hThread hThreadSpec.1 hAnswer

end Process

/-- Nothing is owned twice, and what is owned is what there is. -/
structure Balanced (owned : List R) (there : Set R) : Prop where
  nodup : owned.Nodup
  mem (r : R) : r ∈ there ↔ r ∈ owned

theorem Balanced.perm {owned owned' : List R} {there : Set R} (h : Balanced owned there)
    (hPerm : owned.Perm owned') : Balanced owned' there :=
  ⟨hPerm.nodup_iff.mp h.nodup, fun r => (h.mem r).trans hPerm.mem_iff⟩

/-- A step from what one owns, that keeps the balance whatever others own. -/
def Transfers (before : List R) (there : Set R) (after : List R) (there' : Set R) : Prop :=
  ∀ others : List R, Balanced (others ++ before) there → Balanced (others ++ after) there'

namespace Transfers

variable {before : List R} {there : Set R} {r : R}

theorem refl : Transfers before there before there := fun _ h => h

theorem perm {after : List R} (h : before.Perm after) : Transfers before there after there :=
  fun others hAll => hAll.perm (h.append_left others)

/-- Something new -/
theorem acquire (h : r ∉ there) : Transfers before there (before ++ [r]) (insert r there) := by
  intro others hAll
  have hNot : r ∉ others ++ before := fun hMem => h ((hAll.mem r).mpr hMem)
  rw [← List.append_assoc]
  refine ⟨?_, fun r' => ?_⟩
  · rw [List.nodup_append]
    refine ⟨hAll.nodup, by simp, fun a ha b hb => ?_⟩
    obtain rfl := List.mem_singleton.mp hb
    rintro rfl
    exact hNot ha
  · rw [Set.mem_insert_iff, hAll.mem, List.mem_append (t := [r]), List.mem_singleton, or_comm]

theorem release [DecidableEq R] (h : r ∈ before) :
    Transfers before there (before.erase r) (there \ {r}) := by
  intro others hAll
  have hPerm : (others ++ before).Perm (r :: (others ++ before.erase r)) :=
    ((List.perm_cons_erase h).append_left others).trans List.perm_middle
  have hCons := hAll.perm hPerm
  obtain ⟨hNot, hNodup⟩ := List.nodup_cons.mp hCons.nodup
  refine ⟨hNodup, fun r' => ?_⟩
  rw [Set.mem_sdiff, Set.mem_singleton_iff, hCons.mem, List.mem_cons]
  constructor
  · rintro ⟨rfl | hMem, hne⟩
    · exact absurd rfl hne
    · exact hMem
  · intro hMem
    exact ⟨.inr hMem, fun hEq => hNot (hEq ▸ hMem)⟩

end Transfers

namespace Process

variable {p : Process κ ρ ω answer α} {main : ρ} {state : κ} {pool : Pool κ ρ ω answer α}
  {may : ρ → Trace ω answer → ω → Prop} {Q : ρ → α → Trace ω answer → Prop}

/-- What all threads own. -/
def owned (owns : ρ → Trace ω answer → List R) (pool : Pool κ ρ ω answer α) : List R :=
  pool.threads.flatMap fun th => owns th.role th.past

/-- Where every call keeps the balance, whatever other threads own, every pool is in balance. -/
theorem Reachable.balanced {owns : ρ → Trace ω answer → List R} {there : κ → Set R}
    (hSpec : ∀ role, Spec (may role) (Q role) (p.program role) [])
    (h : p.Reachable main state pool) (hStart : Balanced (owns main []) (there state))
    (hStep : ∀ (i : Nat) (k k' : κ) (role : ρ) (past : Trace ω answer) (o : ω) (a : answer o),
      may role past o → p.answers i k o a k' →
      Transfers (owns role past) (there k)
        (owns role (past ++ [⟨o, a⟩]) ++ ((p.starts o a).map fun role => owns role []).getD [])
        (there k')) : Balanced (owned owns pool) (there pool.state) := by
  refine h.invariant hSpec (I := fun pool => Balanced (owned owns pool) (there pool.state)) ?_ ?_
  · simpa [owned, start] using hStart
  · intro pool i role past o next a state hBalanced hThread hMay hAnswer
    obtain ⟨hi, hGet⟩ := List.getElem?_eq_some_iff.mp hThread
    have hBefore : (owned owns pool).Perm
        ((pool.threads.eraseIdx i).flatMap (fun th => owns th.role th.past) ++ owns role past) := by
      have hPerm := (List.getElem_cons_eraseIdx_perm hi).symm.flatMap_right
        fun th => owns th.role th.past
      rw [hGet, List.flatMap_cons] at hPerm
      exact hPerm.trans List.perm_append_comm
    have hAfter : ((pool.threads.eraseIdx i).flatMap (fun th => owns th.role th.past) ++
        (owns role (past ++ [⟨o, a⟩]) ++
          ((p.starts o a).map fun role => owns role []).getD [])).Perm
        (owned owns (p.after pool i role past o next a state)) := by
      have hSet := (List.set_perm_cons_eraseIdx hi
        ⟨role, past ++ [⟨o, a⟩], next a⟩).flatMap_right fun th => owns th.role th.past
      rw [List.flatMap_cons] at hSet
      have hStarted : (((p.starts o a).map p.start).toList).flatMap
          (fun th => owns th.role th.past) =
            ((p.starts o a).map fun role => owns role []).getD [] := by
        cases p.starts o a <;> simp [start]
      rw [owned, after, List.flatMap_append, hStarted, ← List.append_assoc]
      exact ((List.perm_append_comm.trans hSet.symm).append_right _)
    exact (hStep i _ _ _ _ _ _ hMay hAnswer _ (hBalanced.perm hBefore)).perm hAfter

end Process

end LogSocket.Lib
