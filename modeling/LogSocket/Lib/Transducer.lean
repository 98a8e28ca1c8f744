import Mathlib.Data.List.Basic

/-! Decoders that are fed their input in chunks. A step looks at the input that is there: it waits
for `more`, takes a part of the input and may put out a value, or stops. A step is stable when more
input does not change what it does, apart from waiting. `Drains` runs steps until one waits or
stops; what a stable decoder puts out does not depend on how its input is cut into chunks. -/

namespace LogSocket.Lib

variable {σ ι ο φ : Type}

inductive Step (σ ο φ : Type)
  | more
  | take (n : Nat) (out : Option ο) (s : σ)
  | stop (e : φ)

/-- What is left when a decoder waits, a state and the input not yet taken, or why it stopped. -/
abbrev Rest (σ ι φ : Type) := (σ × List ι) ⊕ φ

/-- More input, up to `cap` in all, changes only a step that waits for it. -/
def Stable (cap : Nat) (step : σ → List ι → Step σ ο φ) : Prop :=
  ∀ s x y, (x ++ y).length ≤ cap → step s x ≠ .more → step s (x ++ y) = step s x

/-- A step takes some of the input, and only what is there. -/
def Productive (step : σ → List ι → Step σ ο φ) : Prop :=
  ∀ s x n out s', step s x = .take n out s' → 0 < n ∧ n ≤ x.length

inductive Drains (step : σ → List ι → Step σ ο φ) :
    σ → List ι → List ο → Rest σ ι φ → Prop
  | wait {s x} : step s x = .more → Drains step s x [] (.inl (s, x))
  | stop {s x e} : step s x = .stop e → Drains step s x [] (.inr e)
  | take {s x n out s' outs rest} : step s x = .take n out s' →
      Drains step s' (x.drop n) outs rest → Drains step s x (out.toList ++ outs) rest

namespace Drains

variable {step : σ → List ι → Step σ ο φ} {s s' : σ} {x x' y : List ι} {outs outs' : List ο}
  {rest rest' : Rest σ ι φ} {cap : Nat}

theorem det (h : Drains step s x outs rest) (h' : Drains step s x outs' rest') :
    outs' = outs ∧ rest' = rest := by
  induction h generalizing outs' rest' with
  | wait hStep =>
    cases h' with
    | wait => exact ⟨rfl, rfl⟩
    | stop hStep' | take hStep' => cases hStep.symm.trans hStep'
  | stop hStep =>
    cases h' with
    | stop hStep' =>
      cases hStep.symm.trans hStep'
      exact ⟨rfl, rfl⟩
    | wait hStep' | take hStep' => cases hStep.symm.trans hStep'
  | take hStep _ ih =>
    cases h' with
    | take hStep' hRest' =>
      cases hStep.symm.trans hStep'
      obtain ⟨rfl, rfl⟩ := ih hRest'
      exact ⟨rfl, rfl⟩
    | wait hStep' | stop hStep' => cases hStep.symm.trans hStep'

/-- A decoder that waits has looked at all that it left. -/
theorem waits (h : Drains step s x outs (.inl (s', x'))) : step s' x' = .more := by
  generalize hRest : (Sum.inl (s', x') : Rest σ ι φ) = rest at h
  induction h with
  | wait hStep =>
    cases hRest
    exact hStep
  | stop => cases hRest
  | take _ _ ih => exact ih hRest

theorem length_le (h : Drains step s x outs (.inl (s', x'))) : x'.length ≤ x.length := by
  generalize hRest : (Sum.inl (s', x') : Rest σ ι φ) = rest at h
  induction h with
  | wait =>
    cases hRest
    exact Nat.le_refl _
  | stop => cases hRest
  | take _ _ ih =>
    have hLe := ih hRest
    rw [List.length_drop] at hLe
    omega

/-- More input after a decoder stopped is not looked at. -/
theorem stop_append {e : φ} (hStable : Stable cap step) (hTakes : Productive step)
    (hCap : (x ++ y).length ≤ cap) (h : Drains step s x outs (.inr e)) :
    Drains step s (x ++ y) outs (.inr e) := by
  generalize hRest : (Sum.inr e : Rest σ ι φ) = rest at h
  induction h with
  | wait => cases hRest
  | stop hStep =>
    cases hRest
    exact .stop ((hStable _ _ _ hCap (by rw [hStep]; intro hMore; cases hMore)).trans hStep)
  | take hStep _ ih =>
    have hLe := (hTakes _ _ _ _ _ hStep).2
    refine .take ((hStable _ _ _ hCap (by rw [hStep]; intro hMore; cases hMore)).trans hStep) ?_
    rw [List.drop_append_of_le_length hLe]
    refine ih ?_ hRest
    rw [List.length_append] at hCap ⊢
    rw [List.length_drop]
    omega

/-- More input after a decoder waited is looked at together with what it left. -/
theorem append (hStable : Stable cap step) (hTakes : Productive step)
    (hCap : (x ++ y).length ≤ cap) (h : Drains step s x outs (.inl (s', x')))
    (h' : Drains step s' (x' ++ y) outs' rest) : Drains step s (x ++ y) (outs ++ outs') rest := by
  generalize hRest : (Sum.inl (s', x') : Rest σ ι φ) = left at h
  induction h with
  | wait =>
    cases hRest
    exact h'
  | stop => cases hRest
  | take hStep _ ih =>
    have hLe := (hTakes _ _ _ _ _ hStep).2
    rw [List.append_assoc]
    refine .take ((hStable _ _ _ hCap (by rw [hStep]; intro hMore; cases hMore)).trans hStep) ?_
    rw [List.drop_append_of_le_length hLe]
    refine ih ?_ hRest
    rw [List.length_append] at hCap ⊢
    rw [List.length_drop]
    omega

end Drains

/-- Feeding chunks to a decoder that drains what it has after each, until it stops. -/
def feedAll (drain : σ → List ι → List ο × Rest σ ι φ) (s : σ) (x : List ι) :
    List (List ι) → List ο × Rest σ ι φ
  | [] => ([], .inl (s, x))
  | chunk :: chunks =>
    match drain s (x ++ chunk) with
    | (outs, .inl (s', x')) =>
      (outs ++ (feedAll drain s' x' chunks).1, (feedAll drain s' x' chunks).2)
    | (outs, .inr e) => (outs, .inr e)

/-- How the input is cut into chunks does not matter. -/
theorem feedAll_drains {step : σ → List ι → Step σ ο φ} {cap : Nat} (hStable : Stable cap step)
    (hTakes : Productive step) {drain : σ → List ι → List ο × Rest σ ι φ}
    (hDrain : ∀ s x, x.length ≤ cap → Drains step s x (drain s x).1 (drain s x).2)
    (chunks : List (List ι)) {s : σ} {x : List ι} (hWait : step s x = .more)
    (hCap : (x ++ chunks.flatten).length ≤ cap) :
    Drains step s (x ++ chunks.flatten) (feedAll drain s x chunks).1
      (feedAll drain s x chunks).2 := by
  induction chunks generalizing s x with
  | nil =>
    rw [List.flatten_nil, List.append_nil]
    exact .wait hWait
  | cons chunk chunks ih =>
    rw [List.flatten_cons, ← List.append_assoc] at hCap ⊢
    have hChunk := hDrain s (x ++ chunk) (by
      rw [List.length_append] at hCap
      omega)
    rw [feedAll]
    split
    next outs s' x' hEq =>
      rw [hEq] at hChunk
      refine hChunk.append hStable hTakes hCap (ih hChunk.waits ?_)
      have hLe := hChunk.length_le
      rw [List.length_append] at hCap ⊢
      omega
    next outs e hEq =>
      rw [hEq] at hChunk
      exact hChunk.stop_append hStable hTakes hCap

end LogSocket.Lib
