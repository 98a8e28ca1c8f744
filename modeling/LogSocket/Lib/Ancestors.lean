import Mathlib.Data.List.Find
import Mathlib.Data.List.TakeWhile

/-! Names with separators, such as `w.x.y`. The ancestors of a name are the names in front of its
separators, `w.x` and `w`, and the nearest one in a set is the longest. Of two ancestors of a name
the shorter is one of the longer, so those in a set form a chain: the nearest, then its own. -/

namespace LogSocket.Lib

variable {α : Type} [DecidableEq α] (sep : α)

/-- The ancestors of a name, the longest one first. -/
def ancestors : List α → List (List α)
  | [] => []
  | c :: cs => (ancestors cs).map (c :: ·) ++ if c = sep then [[]] else []

/-- The longest ancestor of a name for which `there` holds. -/
def closest (there : List α → Bool) (name : List α) : Option (List α) :=
  (ancestors sep name).find? there

variable {sep} {a b c name rest : List α} {there : List α → Bool}

@[simp] theorem ancestors_nil : ancestors sep [] = [] := rfl

theorem ancestors_append (a rest : List α) :
    ancestors sep (a ++ sep :: rest) =
      (ancestors sep rest).map ((a ++ [sep]) ++ ·) ++ a :: ancestors sep a := by
  induction a with
  | nil => simp [ancestors]
  | cons c cs ih =>
    rw [List.cons_append, ancestors, ih, ancestors]
    simp [Function.comp_def]

theorem mem_ancestors : a ∈ ancestors sep name ↔ ∃ rest, name = a ++ sep :: rest := by
  constructor
  · intro h
    induction name generalizing a with
    | nil => simp at h
    | cons c cs ih =>
      rw [ancestors, List.mem_append, List.mem_map] at h
      obtain ⟨b, hb, rfl⟩ | h := h
      · obtain ⟨rest, rfl⟩ := ih hb
        exact ⟨rest, rfl⟩
      · split at h
        next hSep =>
          obtain rfl := List.mem_singleton.mp h
          exact ⟨cs, by rw [hSep, List.nil_append]⟩
        next => cases h
  · rintro ⟨rest, rfl⟩
    simp [ancestors_append]

theorem length_lt_of_mem_ancestors (h : a ∈ ancestors sep name) : a.length < name.length := by
  obtain ⟨rest, rfl⟩ := mem_ancestors.mp h
  simp

theorem not_mem_ancestors_self : name ∉ ancestors sep name := fun h =>
  Nat.lt_irrefl _ (length_lt_of_mem_ancestors h)

theorem mem_ancestors_trans (hab : a ∈ ancestors sep b) (hbc : b ∈ ancestors sep c) :
    a ∈ ancestors sep c := by
  obtain ⟨rest, rfl⟩ := mem_ancestors.mp hab
  obtain ⟨rest', rfl⟩ := mem_ancestors.mp hbc
  exact mem_ancestors.mpr ⟨rest ++ sep :: rest', by simp⟩

/-- Below an ancestor stand those that it is an ancestor of, and above it its own. -/
theorem ancestors_split (h : a ∈ ancestors sep name) :
    ∃ lower, ancestors sep name = lower ++ a :: ancestors sep a ∧
      ∀ b ∈ lower, a ∈ ancestors sep b := by
  obtain ⟨rest, rfl⟩ := mem_ancestors.mp h
  refine ⟨_, ancestors_append a rest, fun b hb => ?_⟩
  obtain ⟨b, -, rfl⟩ := List.mem_map.mp hb
  exact mem_ancestors.mpr ⟨b, by simp⟩

theorem ancestors_sorted (name : List α) :
    (ancestors sep name).Pairwise fun a b => b.length < a.length := by
  induction name with
  | nil => exact .nil
  | cons c cs ih =>
    rw [ancestors, List.pairwise_append, List.pairwise_map]
    refine ⟨ih.imp (by simp), ?_, fun a ha b hb => ?_⟩
    · split <;> simp
    · obtain ⟨a, -, rfl⟩ := List.mem_map.mp ha
      split at hb
      · obtain rfl := List.mem_singleton.mp hb
        simp
      · cases hb

/-- What follows an ancestor in the order of ancestors is its own. -/
theorem ancestors_suffix {names : List (List α)} (h : a :: names <:+ ancestors sep name) :
    names = ancestors sep a := by
  obtain ⟨lower, hSplit, -⟩ := ancestors_split (h.subset List.mem_cons_self)
  have hOwn : a :: ancestors sep a <:+ ancestors sep name := ⟨lower, hSplit.symm⟩
  have hNot : a ∉ names := fun hMem => by
    have hSorted := (ancestors_sorted name).sublist h.sublist
    exact Nat.lt_irrefl _ (List.rel_of_pairwise_cons hSorted hMem)
  obtain h | h := List.suffix_or_suffix_of_suffix h hOwn
  · obtain h | h := List.suffix_cons_iff.mp h
    · exact (List.cons.inj h).2
    · exact absurd (h.subset List.mem_cons_self) not_mem_ancestors_self
  · obtain h | h := List.suffix_cons_iff.mp h
    · exact (List.cons.inj h).2.symm
    · exact absurd (h.subset List.mem_cons_self) hNot

/-- Of two ancestors of a name one is an ancestor of the other. -/
theorem ancestors_total (ha : a ∈ ancestors sep name) (hb : b ∈ ancestors sep name) :
    a = b ∨ a ∈ ancestors sep b ∨ b ∈ ancestors sep a := by
  obtain ⟨lower, hSplit, hLower⟩ := ancestors_split ha
  rw [hSplit, List.mem_append, List.mem_cons] at hb
  obtain hb | rfl | hb := hb
  · exact .inr (.inl (hLower b hb))
  · exact .inl rfl
  · exact .inr (.inr hb)

theorem closest_mem (h : closest sep there name = some a) : a ∈ ancestors sep name :=
  List.mem_of_find?_eq_some h

theorem closest_there (h : closest sep there name = some a) : there a = true :=
  List.find?_some h

theorem closest_eq_none : closest sep there name = none ↔
    ∀ b ∈ ancestors sep name, there b = false := by
  simp [closest]

/-- The nearest ancestor is the one below which there is none. -/
theorem closest_eq_some : closest sep there name = some a ↔
    a ∈ ancestors sep name ∧ there a = true ∧
      ∀ b ∈ ancestors sep name, a ∈ ancestors sep b → there b = false := by
  constructor
  · intro h
    refine ⟨closest_mem h, closest_there h, fun b hb hab => ?_⟩
    by_contra hThere
    obtain ⟨lower, hSplit, hLower⟩ := ancestors_split hb
    rw [closest, hSplit, List.find?_append,
      List.find?_cons_of_pos (Bool.of_not_eq_false hThere)] at h
    have hLt := length_lt_of_mem_ancestors hab
    cases hFind : lower.find? there with
    | none =>
      rw [hFind, Option.none_or] at h
      obtain rfl := Option.some.inj h
      omega
    | some a' =>
      rw [hFind, Option.some_or] at h
      obtain rfl := Option.some.inj h
      have hGt := length_lt_of_mem_ancestors (hLower a' (List.mem_of_find?_eq_some hFind))
      omega
  · rintro ⟨ha, hThere, hBelow⟩
    obtain ⟨lower, hSplit, hLower⟩ := ancestors_split ha
    have hNone : lower.find? there = none := by
      rw [List.find?_eq_none]
      intro b hb
      have hMem : b ∈ ancestors sep name := by simp [hSplit, hb]
      simp [hBelow b hMem (hLower b hb)]
    rw [closest, hSplit, List.find?_append, List.find?_cons_of_pos hThere, hNone, Option.none_or]

/-- In front of the nearest ancestor, in the order in which they are gone through, stand those that
it is an ancestor of. -/
theorem takeWhile_ancestors (ha : a ∈ ancestors sep name) :
    a ∈ (ancestors sep name).takeWhile (!there ·) ∨
      ∃ p, closest sep there name = some p ∧ (a = p ∨ a ∈ ancestors sep p) := by
  cases h : closest sep there name with
  | none =>
    rw [closest_eq_none] at h
    rw [List.takeWhile_eq_self_iff.mpr fun b hb => by simp [h b hb]]
    exact .inl ha
  | some p =>
    obtain ⟨hMem, hThere, hBelow⟩ := closest_eq_some.mp h
    obtain ⟨lower, hSplit, hLower⟩ := ancestors_split hMem
    have hNot : ∀ b ∈ lower, (!there b) = true := fun b hb => by
      simp [hBelow b (by simp [hSplit, hb]) (hLower b hb)]
    rw [hSplit, List.takeWhile_append_of_pos hNot, List.takeWhile_cons_of_neg (by simp [hThere]),
      List.append_nil]
    rw [hSplit, List.mem_append, List.mem_cons] at ha
    obtain ha | ha | ha := ha
    · exact .inl ha
    · exact .inr ⟨p, rfl, .inl ha⟩
    · exact .inr ⟨p, rfl, .inr ha⟩

theorem length_ancestors_le (name : List α) : (ancestors sep name).length ≤ name.length := by
  induction name with
  | nil => simp
  | cons c cs ih =>
    rw [ancestors, List.length_append, List.length_map, List.length_cons]
    split
    · simpa using ih
    · simp only [List.length_nil]
      omega

section congr

variable {there' : List α → Bool} (h : ∀ b ∈ ancestors sep name, there' b = there b)
include h

theorem closest_congr : closest sep there' name = closest sep there name := List.find?_congr h

theorem takeWhile_congr : (ancestors sep name).takeWhile (!there' ·) =
    (ancestors sep name).takeWhile (!there ·) := by
  generalize ancestors sep name = names at h
  induction names with
  | nil => rfl
  | cons b names ih =>
    rw [List.takeWhile_cons, List.takeWhile_cons, h b List.mem_cons_self,
      ih fun b hb => h b (List.mem_cons_of_mem _ hb)]

end congr

/-- What is known only about names that are there is known about the nearest and its ancestors. -/
theorem filterMap_ancestors {β : Type} {f : List α → Option β}
    (hf : ∀ b, (f b).isSome → there b = true) (h : closest sep there name = some a) :
    (ancestors sep name).filterMap f = (a :: ancestors sep a).filterMap f := by
  obtain ⟨lower, hSplit, hLower⟩ := ancestors_split (closest_mem h)
  obtain ⟨-, -, hBelow⟩ := closest_eq_some.mp h
  have hNil : lower.filterMap f = [] := by
    refine List.filterMap_eq_nil_iff.mpr fun b hb => Option.not_isSome_iff_eq_none.mp fun hSome => ?_
    have hNot := hBelow b (by simp [hSplit, hb]) (hLower b hb)
    simp [hf b hSome] at hNot
  rw [hSplit, List.filterMap_append, hNil, List.nil_append]

theorem filterMap_ancestors_of_none {β : Type} {f : List α → Option β}
    (hf : ∀ b, (f b).isSome → there b = true) (h : closest sep there name = none) :
    (ancestors sep name).filterMap f = [] := by
  rw [closest_eq_none] at h
  refine List.filterMap_eq_nil_iff.mpr fun b hb => Option.not_isSome_iff_eq_none.mp fun hSome => ?_
  exact absurd (h b hb) (by simp [hf b hSome])

end LogSocket.Lib
