import LogSocket.Lib.Calls

/-! Specifications of programs whose surroundings keep to something. A `Rely` says which traces
there are, and `SpecOn` is `Spec` on these: what is to be shown of an answer has as a hypothesis
that there is a trace with it. `Always` is about every call of a trace and what came before. -/

namespace LogSocket.Lib

variable {ω : Type} {answer : ω → Type} {α β σ : Type}

/-- `P` holds of every call of a trace, with its answer, after the calls before it. -/
def Always (P : Trace ω answer → (Σ o, answer o) → Prop) (t : Trace ω answer) : Prop :=
  ∀ n, (h : n < t.length) → P (t.take n) t[n]

instance {P : Trace ω answer → (Σ o, answer o) → Prop} [∀ past e, Decidable (P past e)]
    (t : Trace ω answer) : Decidable (Always P t) :=
  inferInstanceAs (Decidable (∀ n, (h : n < t.length) → _))

namespace Always

variable {P P' : Trace ω answer → (Σ o, answer o) → Prop} {past more t : Trace ω answer}
  {e : Σ o, answer o}

theorem before (h : Always P (past ++ more)) : Always P past := by
  intro n hn
  have hP := h n (by rw [List.length_append]; omega)
  rwa [List.take_append_of_le_length (Nat.le_of_lt hn), List.getElem_append_left hn] at hP

theorem last (h : Always P (past ++ [e])) : P past e := by
  have hP := h past.length (by simp)
  rwa [List.take_left, List.getElem_concat_length rfl] at hP

theorem append (h : Always P past) (he : P past e) : Always P (past ++ [e]) := by
  intro n hn
  rcases Nat.lt_or_ge n past.length with hLt | hGe
  · rw [List.take_append_of_le_length (Nat.le_of_lt hLt), List.getElem_append_left hLt]
    exact h n hLt
  · obtain rfl : n = past.length := by simp at hn; omega
    rwa [List.take_left, List.getElem_concat_length rfl]

theorem imp (h : Always P t) (hImp : ∀ past, ∀ e ∈ t, P past e → P' past e) : Always P' t :=
  fun n hn => hImp _ _ (List.getElem_mem hn) (h n hn)

theorem and (h : Always P t) (h' : Always P' t) : Always (fun past e => P past e ∧ P' past e) t :=
  fun n hn => ⟨h n hn, h' n hn⟩

theorem of_mem (h : Always P t) (he : e ∈ t) : ∃ past, P past e := by
  obtain ⟨n, hn, rfl⟩ := List.getElem_of_mem he
  exact ⟨t.take n, h n hn⟩

end Always

/-- What the surroundings keep to. -/
structure Rely (ω : Type) (answer : ω → Type) where
  holds : Trace ω answer → Prop
  before {past more} : holds (past ++ more) → holds past

/-- `Spec` where the surroundings keep to something. -/
def SpecOn (rely : Rely ω answer) (may : Trace ω answer → ω → Prop)
    (Q : α → Trace ω answer → Prop) : Calls ω answer α → Trace ω answer → Prop :=
  Spec (fun past o => rely.holds past → may past o) fun a past => rely.holds past → Q a past

namespace SpecOn

variable {rely : Rely ω answer} {may : Trace ω answer → ω → Prop} {Q : α → Trace ω answer → Prop}
  {R : β → Trace ω answer → Prop} {p q : Calls ω answer α} {past t : Trace ω answer}

theorem of_not (h : ¬rely.holds past) : SpecOn rely may Q p past := by
  induction p generalizing past with
  | done a => exact fun hHolds => absurd hHolds h
  | call o next ih =>
    exact ⟨fun hHolds => absurd hHolds h, fun a => ih a fun hHolds => h (rely.before hHolds)⟩

/-- That the trace so far is one that there is may be assumed. -/
theorem assuming (h : rely.holds past → SpecOn rely may Q p past) : SpecOn rely may Q p past := by
  by_cases hHolds : rely.holds past
  · exact h hHolds
  · exact of_not hHolds

theorem pure {a : α} (h : rely.holds past → Q a past) :
    SpecOn rely may Q (Pure.pure a : Calls ω answer α) past := h

theorem ask {o : ω} {Q : answer o → Trace ω answer → Prop} (hMay : may past o)
    (h : ∀ a, rely.holds (past ++ [⟨o, a⟩]) → Q a (past ++ [⟨o, a⟩])) :
    SpecOn rely may Q (Calls.ask answer o) past := ⟨fun _ => hMay, h⟩

theorem bind {f : α → Calls ω answer β} (hp : SpecOn rely may Q p past)
    (hf : ∀ a past', Q a past' → SpecOn rely may R (f a) past') :
    SpecOn rely may R (p >>= f) past :=
  Spec.bind hp fun a past' h => assuming fun hHolds => hf a past' (h hHolds)

theorem weaken {Q' : α → Trace ω answer → Prop} (hp : SpecOn rely may Q p past)
    (h : ∀ a past', Q a past' → Q' a past') : SpecOn rely may Q' p past :=
  Spec.weaken hp fun a past' hQ hHolds => h a past' (hQ hHolds)

/-- A test of an answer, which leaves or goes on. -/
theorem guard {test : α → Prop} [DecidablePred test] {out rest : Calls ω answer β}
    {Out In : Trace ω answer → Prop}
    (hp : SpecOn rely may (fun a past' => (test a → Out past') ∧ (¬test a → In past')) p past)
    (hOut : ∀ past', Out past' → SpecOn rely may R out past')
    (hIn : ∀ past', In past' → SpecOn rely may R rest past') :
    SpecOn rely may R (p >>= fun a => if test a then out else rest) past := by
  refine hp.bind fun a past' h => ?_
  split
  next hTest => exact hOut past' (h.1 hTest)
  next hTest => exact hIn past' (h.2 hTest)

theorem mono {may' : Trace ω answer → ω → Prop} (hp : SpecOn rely may Q p past)
    (hMay : ∀ past o, may past o → may' past o) : SpecOn rely may' Q p past := by
  induction p generalizing past with
  | done a => exact hp
  | call o next ih =>
    exact ⟨fun hHolds => hMay past o (hp.1 hHolds), fun a => ih a (hp.2 a)⟩

theorem of_spec (hp : Spec may Q p past) : SpecOn rely may Q p past := by
  induction p generalizing past with
  | done a => exact fun _ => hp
  | call o next ih => exact ⟨fun _ => hp.1, fun a => ih a (hp.2 a)⟩

/-- A loop keeps what each of its turns keeps. -/
theorem loop {turn : σ → Calls ω answer (σ ⊕ β)} {I : σ → Trace ω answer → Prop} (n : Nat) {s : σ}
    (hTurn : ∀ s past, I s past → SpecOn rely may (Sum.elim I R) (turn s) past) (h : I s past) :
    SpecOn rely may (Sum.elim I R) (Calls.loop turn n s) past := by
  induction n generalizing s past with
  | zero => exact fun _ => h
  | succ n ih =>
    refine (hTurn s past h).bind fun r past' hr => ?_
    cases r with
    | inl s' => exact ih hr
    | inr b => exact fun _ => hr

/-- What holds at the end of a run. -/
theorem done {a : α} (hp : SpecOn rely may Q p []) (h : Reaches p t (.done a)) (ht : rely.holds t) :
    Q a t := Spec.reaches hp h ht

/-- Every call in the trace of a run is one that it may make. -/
theorem always (hp : SpecOn rely may Q p []) (h : Reaches p t q) (ht : rely.holds t) :
    Always (fun past e => may past e.1) t := by
  intro n hn
  have hSplit : t = t.take n ++ t[n] :: t.drop (n + 1) := by
    rw [List.getElem_cons_drop, List.take_append_drop]
  rw [hSplit] at h ht
  exact Spec.may_of_reaches hp h (rely.before ht)

end SpecOn

end LogSocket.Lib
