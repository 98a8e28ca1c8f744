import Mathlib.Data.List.Basic

/-! Finite maps as lists of entries in strictly increasing order of their keys, the order in which
an ordered map is traversed: two maps with the same entries are equal. -/

namespace LogSocket.Lib

variable {κ ν : Type} [LT κ]

@[ext] structure SortedMap (κ ν : Type) [LT κ] where
  entries : List (κ × ν)
  sorted : entries.Pairwise fun a b => a.1 < b.1
  deriving DecidableEq

namespace SortedMap

def empty : SortedMap κ ν := ⟨[], .nil⟩

theorem keys_sorted (map : SortedMap κ ν) : (map.entries.map (·.1)).Pairwise (· < ·) :=
  List.pairwise_map.mpr map.sorted

theorem keys_nodup [Std.Irrefl (α := κ) (· < ·)] (map : SortedMap κ ν) :
    (map.entries.map (·.1)).Nodup := by
  refine map.keys_sorted.imp fun {a b} hlt hEq => ?_
  exact Std.Irrefl.irrefl (r := (· < ·)) a (hEq ▸ hlt)

@[simp] theorem empty_entries : (empty : SortedMap κ ν).entries = [] := rfl

variable [DecidableLT κ]

/-- The entries with `key` mapped to `value`. A key that is there keeps its place. -/
def put (key : κ) (value : ν) : List (κ × ν) → List (κ × ν)
  | [] => [(key, value)]
  | entry :: entries =>
    if key < entry.1 then (key, value) :: entry :: entries
    else if entry.1 < key then entry :: put key value entries
    else (entry.1, value) :: entries

theorem mem_put {key : κ} {value : ν} {entries : List (κ × ν)} {e : κ × ν}
    (h : e ∈ put key value entries) : e.1 = key ∨ ∃ old ∈ entries, e.1 = old.1 := by
  induction entries with
  | nil =>
    rw [put, List.mem_singleton] at h
    exact .inl (by rw [h])
  | cons entry entries ih =>
    rw [put] at h
    split at h
    · obtain rfl | h := List.mem_cons.mp h
      · exact .inl rfl
      · exact .inr ⟨e, h, rfl⟩
    · split at h
      · obtain rfl | h := List.mem_cons.mp h
        · exact .inr ⟨e, List.mem_cons_self, rfl⟩
        · obtain hKey | ⟨old, hOld, hEq⟩ := ih h
          · exact .inl hKey
          · exact .inr ⟨old, List.mem_cons_of_mem _ hOld, hEq⟩
      · obtain rfl | h := List.mem_cons.mp h
        · exact .inr ⟨entry, List.mem_cons_self, rfl⟩
        · exact .inr ⟨e, List.mem_cons_of_mem _ h, rfl⟩

theorem put_sorted [Trans (α := κ) (· < ·) (· < ·) (· < ·)] (key : κ) (value : ν)
    {entries : List (κ × ν)} (h : entries.Pairwise fun a b => a.1 < b.1) :
    (put key value entries).Pairwise fun a b => a.1 < b.1 := by
  induction entries with
  | nil => exact List.pairwise_singleton _ _
  | cons entry entries ih =>
    rw [List.pairwise_cons] at h
    rw [put]
    split
    next hlt =>
      refine List.pairwise_cons.mpr ⟨fun e he => ?_, List.pairwise_cons.mpr h⟩
      obtain rfl | he := List.mem_cons.mp he
      · exact hlt
      · exact Trans.trans (r := (· < ·)) (s := (· < ·)) (t := (· < ·)) hlt (h.1 e he)
    next =>
      split
      next hgt =>
        refine List.pairwise_cons.mpr ⟨fun e he => ?_, ih h.2⟩
        obtain hKey | ⟨old, hOld, hEq⟩ := mem_put he
        · rw [hKey]; exact hgt
        · rw [hEq]; exact h.1 old hOld
      next => exact List.pairwise_cons.mpr h

/-- An entry whose key is greater than every other goes to the end. -/
theorem put_last [Std.Asymm (α := κ) (· < ·)] {key : κ} (value : ν) {entries : List (κ × ν)}
    (h : ∀ e ∈ entries, e.1 < key) : put key value entries = entries ++ [(key, value)] := by
  induction entries with
  | nil => rfl
  | cons entry entries ih =>
    have hgt := h entry List.mem_cons_self
    rw [put, if_neg (Std.Asymm.asymm _ _ hgt), if_pos hgt,
      ih fun e he => h e (List.mem_cons_of_mem _ he), List.cons_append]

variable [Trans (α := κ) (· < ·) (· < ·) (· < ·)]

/-- `map[key] = value` -/
def insert (map : SortedMap κ ν) (key : κ) (value : ν) : SortedMap κ ν :=
  ⟨put key value map.entries, put_sorted key value map.sorted⟩

@[simp] theorem insert_entries (map : SortedMap κ ν) (key : κ) (value : ν) :
    (map.insert key value).entries = put key value map.entries := rfl

/-- Inserting the entries of a map in their order builds the map. -/
theorem foldl_insert [Std.Asymm (α := κ) (· < ·)] (map : SortedMap κ ν) :
    map.entries.foldl (fun m e => m.insert e.1 e.2) empty = map := by
  suffices h : ∀ (rest : List (κ × ν)) (m : SortedMap κ ν), map.entries = m.entries ++ rest →
      rest.foldl (fun m e => m.insert e.1 e.2) m = map from h _ empty rfl
  intro rest
  induction rest with
  | nil =>
    intro m h
    exact SortedMap.ext (by rw [h, List.append_nil, List.foldl_nil])
  | cons entry rest ih =>
    intro m h
    have hSorted := map.sorted
    rw [h, List.pairwise_append] at hSorted
    have hLast := put_last entry.2 fun e he => hSorted.2.2 e he entry List.mem_cons_self
    refine ih (m.insert entry.1 entry.2) ?_
    rw [h, insert_entries, hLast, List.append_assoc, List.singleton_append]

section find

variable {κ ν : Type} [LT κ] [DecidableEq κ] {map : SortedMap κ ν} {key other : κ} {value : ν}

def find? (map : SortedMap κ ν) (key : κ) : Option ν :=
  (map.entries.find? fun e => e.1 = key).map (·.2)

@[simp] theorem find?_empty (key : κ) : (empty : SortedMap κ ν).find? key = none := rfl

theorem find?_isSome : (map.find? key).isSome ↔ key ∈ map.entries.map (·.1) := by
  simp [find?]

/-- `map.erase(key)` -/
def erase (map : SortedMap κ ν) (key : κ) : SortedMap κ ν :=
  ⟨map.entries.filter fun e => e.1 ≠ key, map.sorted.filter _⟩

@[simp] theorem find?_erase_self : (map.erase key).find? key = none := by
  simp [find?, erase]

theorem erase_of_none (h : map.find? key = none) : map.erase key = map := by
  refine SortedMap.ext (List.filter_eq_self.mpr fun e he => ?_)
  simp only [find?, Option.map_eq_none_iff, List.find?_eq_none] at h
  simpa using h e he

theorem find?_erase_of_ne (h : other ≠ key) : (map.erase key).find? other = map.find? other := by
  have hFilter (entries : List (κ × ν)) : (entries.filter fun e => e.1 ≠ key).find? (·.1 = other) =
      entries.find? (·.1 = other) := by
    induction entries with
    | nil => rfl
    | cons entry entries ih =>
      rw [List.filter_cons, List.find?_cons]
      by_cases hEntry : entry.1 = other
      · rw [if_pos (by simpa [hEntry] using h), List.find?_cons]
        simp [hEntry]
      · split
        · rw [List.find?_cons, ih]
        · simpa [hEntry] using ih
  exact congrArg _ (hFilter map.entries)

variable [DecidableLT κ] [Trans (α := κ) (· < ·) (· < ·) (· < ·)]

/-- `map.emplace(key, value)`: an entry that is there stays. -/
def emplace (map : SortedMap κ ν) (key : κ) (value : ν) : SortedMap κ ν :=
  if (map.find? key).isSome then map else map.insert key value

theorem emplace_of_none (h : map.find? key = none) :
    map.emplace key value = map.insert key value := by
  simp [emplace, h]

variable [Std.Trichotomous (α := κ) (· < ·)]

@[simp] theorem find?_insert_self [Std.Irrefl (α := κ) (· < ·)] :
    (map.insert key value).find? key = some value := by
  have hPut (entries : List (κ × ν)) :
      (put key value entries).find? (·.1 = key) = some (key, value) := by
    induction entries with
    | nil => simp [put]
    | cons entry entries ih =>
      rw [put]
      split
      next => simp
      next hLow =>
        split
        next hHigh =>
          have hne : entry.1 ≠ key := fun h => Std.Irrefl.irrefl key (h ▸ hHigh)
          simpa [hne] using ih
        next hHigh =>
          have hEq : entry.1 = key := Std.Trichotomous.trichotomous _ _ hHigh hLow
          simp [hEq]
  simp [find?, hPut]

theorem find?_insert_of_ne (h : other ≠ key) :
    (map.insert key value).find? other = map.find? other := by
  have hPut (entries : List (κ × ν)) :
      ((put key value entries).find? (·.1 = other)).map (·.2) =
        (entries.find? (·.1 = other)).map (·.2) := by
    induction entries with
    | nil => simp [put, h.symm]
    | cons entry entries ih =>
      rw [put]
      split
      next => simp [h.symm]
      next hLow =>
        split
        next =>
          by_cases hEntry : entry.1 = other
          · simp [hEntry]
          · simpa [hEntry] using ih
        next hHigh =>
          have hEq : entry.1 = key := Std.Trichotomous.trichotomous _ _ hHigh hLow
          simp [hEq, h.symm]
  exact hPut map.entries

theorem find?_emplace_of_ne (h : other ≠ key) :
    (map.emplace key value).find? other = map.find? other := by
  unfold emplace
  split
  · rfl
  · exact find?_insert_of_ne h

theorem find?_emplace_isSome [Std.Irrefl (α := κ) (· < ·)] :
    ((map.emplace key value).find? key).isSome := by
  unfold emplace
  split
  next h => exact h
  next => simp

end find

end SortedMap

end LogSocket.Lib
