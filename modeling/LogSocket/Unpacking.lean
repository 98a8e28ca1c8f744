import LogSocket.MsgpackFormat
import LogSocket.Soundness

/-! `msgpack::unpack` returns an object exactly if the data starts with what the format says of it, and
asks for more exactly if there is such an object that the data is the front of. -/

namespace LogSocket.Unpack

open Lib

variable {m : Machine} {limit : UnpackLimit} {frames : List (Frame Object Kind)}

/-! What a turn can come to: it waits, it fails, or an object or a head is in front. -/

/-- Nothing that 32 bits can count is too large. -/
structure Generous (m : Machine) (limit : UnpackLimit) : Prop where
  array : 2 ^ 32 ≤ limit.array + 1
  map : 2 ^ 32 ≤ limit.map + 1
  str : 2 ^ 32 ≤ limit.str + 1
  bin : 2 ^ 32 ≤ limit.bin + 1
  ext : 2 ^ 32 ≤ limit.ext + 1
  room (size : Nat) : size ≤ 2 ^ 32 * (2 * Visitor.sizeofObject) → m.room size = true

theorem Generous.room_of_small (h : Generous m limit) {size : Nat} (hSize : size < 2 ^ 32) :
    m.room size = true := h.room size (by rw [Visitor.sizeofObject]; omega)

/-- More data makes an object or a head of this. -/
def Begins (m : Machine) (limit : UnpackLimit) (depth : Nat) (data : List UInt8) : Prop :=
  ∃ more, (∃ t, Leaf m limit t (data ++ more)) ∨ ∃ kind n, Head m limit depth kind n (data ++ more)

def Waits (m : Machine) (limit : UnpackLimit) (frames : List (Frame Object Kind)) (data : List UInt8) :
    Prop :=
  ∀ width current, ∃ s, Drains (turn m limit) (standing frames width current) data [] (.inl s)

def Fails (m : Machine) (limit : UnpackLimit) (frames : List (Frame Object Kind)) (data : List UInt8) :
    Prop :=
  ∀ width current, ∃ e ≠ .insufficientBytes,
    Drains (turn m limit) (standing frames width current) data [] (.inr (.error e))

/-- Data with neither an object nor a head in front. -/
inductive Stuck (m : Machine) (limit : UnpackLimit) (frames : List (Frame Object Kind))
    (data : List UInt8) : Prop
  | waits : Waits m limit frames data → (Generous m limit → frames.length + data.length ≤ limit.depth →
      Begins m limit frames.length data) → Stuck m limit frames data
  | fails : Fails m limit frames data → Stuck m limit frames data

abbrev Outcome (m : Machine) (limit : UnpackLimit) (frames : List (Frame Object Kind))
    (data : List UInt8) : Prop :=
  (format m limit).Next (Stuck m limit frames data) frames.length data

/-- Bytes that the loop takes as one: an object, a head, or too much of something. -/
inductive Found (m : Machine) (limit : UnpackLimit) (depth : Nat) (data : List UInt8) (fails : Prop) :
    Prop
  | leaf {t : Object} : Leaf m limit t data → Found m limit depth data fails
  | head {kind : Kind} {n : Nat} : Head m limit depth kind n data → Found m limit depth data fails
  | much : ¬ (Generous m limit ∧ depth + 1 ≤ limit.depth) → fails → Found m limit depth data fails

theorem Found.waits {byte : UInt8} {rest more : List UInt8} {fails : Prop}
    (h : Found m limit frames.length (byte :: rest ++ more) fails)
    (hWaits : Waits m limit frames (byte :: rest)) : Outcome m limit frames (byte :: rest) := by
  refine .stuck (.waits hWaits fun hGenerous hDepth => ?_)
  cases h with
  | leaf h => exact ⟨more, .inl ⟨_, h⟩⟩
  | head h => exact ⟨more, .inr ⟨_, _, h⟩⟩
  | much hNot =>
    rw [List.length_cons] at hDepth
    exact absurd ⟨hGenerous, by omega⟩ hNot

theorem Found.imp {depth : Nat} {data : List UInt8} {fails fails' : Prop}
    (h : Found m limit depth data fails) (hFails : fails → fails') : Found m limit depth data fails' := by
  cases h with
  | leaf h => exact .leaf h
  | head h => exact .head h
  | much hNot h => exact .much hNot (hFails h)

theorem Found.outcome {data rest : List UInt8}
    (h : Found m limit frames.length data (Fails m limit frames (data ++ rest))) :
    Outcome m limit frames (data ++ rest) := by
  cases h with
  | leaf h => exact .leaf rfl h
  | head h => exact .head rfl h
  | much _ hFails => exact .stuck (.fails hFails)

theorem beBytes_load (data : List UInt8) : beBytes data.length (load data) = data := by
  have hBytes := leBytes_le data.reverse
  rw [List.length_reverse] at hBytes
  rw [beBytes, load, hBytes, List.reverse_reverse]

theorem load_lt (data : List UInt8) : load data < 256 ^ data.length := by
  have hLt := le_lt data.reverse
  rwa [List.length_reverse] at hLt

/-- A state lacks some of its bytes. -/
theorem waits_state {i : Nat} (hi : i < 28) {rest : List UInt8} (hShort : rest.length < trail.getD i 1) :
    Waits m limit frames (UInt8.ofNat (0xc4 + i) :: rest) := by
  intro width current
  refine ⟨_, .wait ?_⟩
  rw [turn_state rest hi, trailing]
  exact if_pos hShort

/-- The bytes of a state, or what there is of them, with bytes that make them complete. -/
theorem split_data (size : Nat) (data : List UInt8) :
    (data.length < size ∧ (data ++ List.replicate (size - data.length) 0).length = size) ∨
      ∃ n rest, data = n ++ rest ∧ n.length = size := by
  by_cases hShort : data.length < size
  · refine .inl ⟨hShort, ?_⟩
    rw [List.length_append, List.length_replicate]
    omega
  · refine .inr ⟨data.take size, data.drop size, (List.take_append_drop _ _).symm, ?_⟩
    rw [List.length_take]
    omega

/-- A state whose bytes are all that there is of an object or a head. -/
theorem state_outcome {i : Nat} (hi : i < 28)
    (hFound : ∀ data : List UInt8, data.length = trail.getD i 1 →
      Found m limit frames.length (UInt8.ofNat (0xc4 + i) :: data) (∀ current h taken,
        ∃ e ≠ .insufficientBytes, switchCs m limit
          (behind frames (states.getD i .header) (trail.getD i 1) current h) taken data =
            .stop (.error e)))
    (rest : List UInt8) : Outcome m limit frames (UInt8.ofNat (0xc4 + i) :: rest) := by
  obtain ⟨hShort, hPadded⟩ | ⟨n, rest, rfl, hLength⟩ := split_data (trail.getD i 1) rest
  · exact (hFound _ hPadded).waits (waits_state hi hShort)
  · refine Found.outcome ((hFound n hLength).imp ?_)
    intro hFails width current
    obtain ⟨e, he, hSwitch⟩ := hFails current (trail_pos i) (1 + trail.getD i 1)
    refine ⟨e, he, .stop ?_⟩
    rw [List.cons_append, turn_state _ hi, trailing_eq hLength]
    exact hSwitch

section

variable {i add : Nat} {value : Cs} {visit : Visitor → List UInt8 → Except UnpackError Visitor}

theorem turn_short {cs : Cs} {size current : Nat} (hPos : 0 < size) (hCs : cs ≠ .header) (byte : UInt8)
    {rest : List UInt8} (hShort : rest.length < size) :
    turn m limit (behind frames cs size current hPos) (byte :: rest) = .more := by
  rw [turn, if_pos (by simpa [behind] using hCs), trailing]
  exact if_pos hShort

/-- A size of two or four bytes, say, and what it is the size of. -/
theorem sized_outcome (hSizes : Sizes m limit i value add visit)
    (hFound : ∀ size payload : List UInt8, size.length = trail.getD i 1 →
      payload.length = load size + add →
      Found m limit frames.length (UInt8.ofNat (0xc4 + i) :: (size ++ payload))
        (∃ e ≠ .insufficientBytes, visit ⟨.nil, frames.map block⟩ payload = .error e))
    (rest : List UInt8) : Outcome m limit frames (UInt8.ofNat (0xc4 + i) :: rest) := by
  obtain ⟨hShort, hPadded⟩ | ⟨size, rest, rfl, hSize⟩ := split_data (trail.getD i 1) rest
  · have h := hFound _ (List.replicate _ 0) hPadded List.length_replicate
    rw [List.append_assoc] at h
    exact h.waits (waits_state hSizes.index hShort)
  obtain ⟨hShort, hPadded⟩ | ⟨payload, rest, rfl, hPayload⟩ := split_data (load size + add) rest
  · have h := hFound _ _ hSize hPadded
    rw [← List.append_assoc] at h
    refine h.waits fun width current => ?_
    obtain ⟨last, hDrains⟩ := drains_value hSizes hSize (Nat.zero_lt_of_lt hShort) width current rest
    exact ⟨_, hDrains _ (.wait (turn_short _ hSizes.isValue last hShort))⟩
  rw [← List.append_assoc]
  refine Found.outcome ((hFound size payload hSize hPayload).imp ?_)
  rintro ⟨e, he, hError⟩ width current
  rw [List.cons_append, List.append_assoc]
  refine ⟨e, he, ?_⟩
  by_cases hPos : 0 < load size + add
  · obtain ⟨last, hDrains⟩ := drains_value hSizes hSize hPos width current (payload ++ rest)
    refine hDrains _ (.stop ?_)
    rw [turn_value hSizes hPayload hPos, hError]
    rfl
  · have hZero := Nat.eq_zero_of_not_pos hPos
    obtain rfl := List.eq_nil_of_length_eq_zero (hPayload.trans hZero)
    refine .stop ?_
    rw [turn_empty hSizes hSize hZero, hError]
    rfl

end

/-! The families of first bytes. -/

theorem fits_of_small {max size : Nat} (h : Generous m limit) (hMax : 2 ^ 32 ≤ max + 1)
    (hSize : size < 2 ^ 32) : Fits m max size := ⟨by omega, h.room_of_small hSize⟩

/-- What a size of this many bytes can say -/
theorem size_le : ∀ i < 3, 256 ^ 2 ^ i ≤ 2 ^ 32 := by decide

/-- The bytes of a size, as the format writes them. -/
theorem size_eq {i : Nat} {size : List UInt8} (hSize : size.length = 2 ^ i) :
    size = beBytes (2 ^ i) (load size) ∧ load size < 256 ^ 2 ^ i := by
  rw [← hSize, beBytes_load]
  exact ⟨rfl, load_lt size⟩

theorem bin_outcome {i : Nat} (hi : i < 3) (rest : List UInt8) :
    Outcome m limit frames (UInt8.ofNat (0xc4 + i) :: rest) := by
  refine sized_outcome (sizes_bin hi) (fun size payload hSize hPayload => ?_) rest
  obtain ⟨hBytes, hLt⟩ := size_eq (hSize.trans (states_bin i hi).2)
  rw [Nat.add_zero] at hPayload
  rw [← hPayload] at hLt hBytes
  rw [hBytes]
  by_cases hFits : Fits m limit.bin payload.length
  · exact .leaf (.bin hi hLt hFits)
  · refine .much (fun h => hFits ?_) (checked_fails hFits (by decide))
    exact fits_of_small h.1 h.1.bin (Nat.lt_of_lt_of_le hLt (size_le i hi))

theorem str_outcome {i : Nat} (hi : i < 3) (rest : List UInt8) :
    Outcome m limit frames (UInt8.ofNat (0xc4 + (21 + i)) :: rest) := by
  refine sized_outcome (sizes_str hi) (fun size payload hSize hPayload => ?_) rest
  obtain ⟨hBytes, hLt⟩ := size_eq (hSize.trans (states_str i hi).2)
  rw [Nat.add_zero] at hPayload
  rw [← hPayload] at hLt hBytes
  rw [hBytes, ← Nat.add_assoc]
  by_cases hFits : Fits m limit.str payload.length
  · exact .leaf (.str hi hLt hFits)
  · refine .much (fun h => hFits ?_) (checked_fails hFits (by decide))
    exact fits_of_small h.1 h.1.str (Nat.lt_of_lt_of_le hLt (size_le i hi))

theorem ext_outcome {i : Nat} (hi : i < 3) (rest : List UInt8) :
    Outcome m limit frames (UInt8.ofNat (0xc4 + (3 + i)) :: rest) := by
  refine sized_outcome (sizes_ext hi) (fun size payload hSize hPayload => ?_) rest
  obtain ⟨hBytes, hLt⟩ := size_eq (hSize.trans (states_ext i hi).2)
  cases payload with
  | nil => cases hPayload
  | cons type payload =>
    rw [List.length_cons, Nat.add_right_cancel_iff] at hPayload
    rw [← hPayload] at hLt hBytes
    have hMod : (payload.length + 1) % 2 ^ 32 < 2 ^ 32 := Nat.mod_lt _ (by decide)
    by_cases hFits : Fits m limit.ext ((payload.length + 1) % 2 ^ 32)
    · obtain hSmall | hLongest : payload.length + 1 < 2 ^ 32 ∨ payload.length + 1 = 2 ^ 32 := by
        have := size_le i hi
        omega
      · rw [Nat.mod_eq_of_lt hSmall] at hFits
        rw [hBytes, ← Nat.add_assoc]
        exact .leaf (.ext hi hLt hSmall hFits)
      · obtain rfl : i = 2 := by
          obtain rfl | rfl | rfl : i = 0 ∨ i = 1 ∨ i = 2 := by omega
          · omega
          · omega
          · rfl
        rw [hLongest, Nat.mod_self] at hFits
        rw [hBytes]
        exact .leaf (.longestExt hLongest hFits)
    · exact .much (fun h => hFits (fits_of_small h.1 h.1.ext hMod)) (checked_fails hFits (by decide))

theorem fixext_outcome {i : Nat} (hi : i < 5) (rest : List UInt8) :
    Outcome m limit frames (UInt8.ofNat (0xc4 + (16 + i)) :: rest) := by
  obtain ⟨hState, hTrail⟩ := states_fixext i hi
  refine state_outcome (by omega) (fun data hData => ?_) rest
  rw [hTrail] at hData
  cases data with
  | nil => cases hData
  | cons type payload =>
    rw [List.length_cons, Nat.add_right_cancel_iff] at hData
    have hSmall : 2 ^ i ≤ 2 ^ 4 := Nat.pow_le_pow_right (by decide) (Nat.le_of_lt_succ hi)
    have hMod : (payload.length + 1) % 2 ^ 32 = payload.length + 1 := Nat.mod_eq_of_lt (by omega)
    by_cases hFits : Fits m limit.ext (payload.length + 1)
    · rw [← Nat.add_assoc]
      exact .leaf (.fixExt hi hData hFits)
    · refine .much (fun h => hFits (fits_of_small h.1 h.1.ext (by omega)))
        fun current hPos taken => ?_
      obtain ⟨e, he, hError⟩ := checked_fails (e := .extSizeOverflow)
        (v := ⟨Visitor.extObject ((type :: payload).take _), frames.map block⟩) (hMod.symm ▸ hFits) (by decide)
      refine ⟨e, he, ?_⟩
      rw [switchCs]
      simp only [behind, hState]
      exact congrArg (visited _ taken) hError

theorem startAggregate_fails {c : Context} (hVisitor : c.visitor = ⟨.nil, frames.map block⟩)
    {kind : Kind} {size : Nat} (h : ¬ Starts m limit frames.length kind size) (taken : Nat) :
    ∃ e ≠ .insufficientBytes, startAggregate m limit c taken kind size = .stop (.error e) := by
  rw [startAggregate, start_eq, hVisitor, List.length_map]
  obtain ⟨e, he, hError⟩ := startChecked_fails (e := kind.overflow)
    (v := ⟨.nil, ⟨kind, []⟩ :: frames.map block⟩) h (by cases kind <;> decide)
  rw [hError]
  exact ⟨e, he, rfl⟩

theorem starts_of_small {kind : Kind} {depth size : Nat} (hGenerous : Generous m limit)
    (hDepth : depth + 1 ≤ limit.depth) (hSize : size < 2 ^ 32) : Starts m limit depth kind size := by
  have hItem : kind.perItem * Visitor.sizeofObject ≤ 2 * Visitor.sizeofObject :=
    Nat.mul_le_mul_right _ (by cases kind <;> decide)
  refine ⟨?_, hDepth, fun _ => hGenerous.room _ (Nat.mul_le_mul (Nat.le_of_lt hSize) hItem)⟩
  cases kind with
  | array => exact Nat.le_of_lt_succ (Nat.lt_of_lt_of_le hSize hGenerous.array)
  | map => exact Nat.le_of_lt_succ (Nat.lt_of_lt_of_le hSize hGenerous.map)

theorem fix_outcome (kind : Kind) {size : Nat} (hSize : size < 16) (rest : List UInt8) :
    Outcome m limit frames (UInt8.ofNat (kind.fixCode + size) :: rest) := by
  rw [← List.singleton_append]
  refine Found.outcome ?_
  by_cases hStarts : Starts m limit frames.length kind size
  · exact .head (.fix hSize hStarts)
  · refine .much (fun h => hStarts (starts_of_small h.1 h.2 (by omega))) fun width current => ?_
    obtain ⟨e, he, hError⟩ := startAggregate_fails (c := standing frames width current) rfl hStarts 1
    exact ⟨e, he, .stop ((turn_fix hSize rest).trans hError)⟩

theorem long_outcome (kind : Kind) {i : Nat} (hi : i < 2) (rest : List UInt8) :
    Outcome m limit frames (UInt8.ofNat (kind.longCode + i) :: rest) := by
  obtain ⟨j, hj, hCode, hTrail, hSwitch⟩ := @states_long m limit kind i hi
  rw [hCode]
  refine state_outcome hj (fun data hData => ?_) rest
  obtain ⟨hBytes, hLt⟩ := size_eq (hData.trans hTrail)
  by_cases hStarts : Starts m limit frames.length kind (load data)
  · rw [hBytes, ← hCode]
    exact .head (.long hi hLt hStarts)
  · have hSmall := Nat.lt_of_lt_of_le hLt (size_le (i + 1) (by omega))
    refine .much (fun h => hStarts (starts_of_small h.1 h.2 hSmall)) fun current hPos taken => ?_
    obtain ⟨e, he, hError⟩ := startAggregate_fails
      (c := behind frames (states.getD j .header) (trail.getD j 1) current hPos) rfl hStarts taken
    exact ⟨e, he, (hSwitch _ taken data rfl).trans hError⟩

theorem fixStr_outcome {k : Nat} (hk : k < 32) (rest : List UInt8) :
    Outcome m limit frames (UInt8.ofNat (0xa0 + k) :: rest) := by
  have hFound (data : List UInt8) (hData : data.length = k) (more : List UInt8) :
      Found m limit frames.length (UInt8.ofNat (0xa0 + k) :: data)
        (Fails m limit frames (UInt8.ofNat (0xa0 + k) :: (data ++ more))) := by
    by_cases hFits : Fits m limit.str data.length
    · rw [← hData]
      exact .leaf (.fixStr (hData ▸ hk) hFits)
    · refine .much (fun h => hFits (fits_of_small h.1 h.1.str (by omega)))
        fun width current => ?_
      obtain ⟨c, _, _, hTurn⟩ := @turn_fixStr m limit frames k hk data hData width current more
      obtain ⟨e, he, hError⟩ := checked_fails (e := .strSizeOverflow)
        (v := ⟨.str data, frames.map block⟩) hFits (by decide)
      refine ⟨e, he, .stop (hTurn.trans ?_)⟩
      exact congrArg (visited c (1 + k)) hError
  obtain ⟨hShort, hPadded⟩ | ⟨data, rest, rfl, hData⟩ := split_data k rest
  · refine (hFound _ hPadded []).waits fun width current => ?_
    exact ⟨_, .wait (turn_fixStr_short hk hShort width current)⟩
  · exact (hFound data hData rest).outcome

/-- A first byte from `0xc4` to `0xdf` -/
theorem states_outcome {i : Nat} (hi : i < 28) (rest : List UInt8) :
    Outcome m limit frames (UInt8.ofNat (0xc4 + i) :: rest) := by
  by_cases hBin : i < 3
  · exact bin_outcome hBin rest
  by_cases hExt : i < 6
  · obtain ⟨j, rfl⟩ := Nat.exists_eq_add_of_le (Nat.le_of_not_lt hBin)
    exact ext_outcome (by omega) rest
  by_cases hFloat : i = 6
  · subst hFloat
    exact state_outcome (by decide) (fun _ hData => .leaf (.float hData)) rest
  by_cases hDouble : i = 7
  · subst hDouble
    exact state_outcome (by decide) (fun _ hData => .leaf (.double hData)) rest
  by_cases hUint : i < 12
  · obtain ⟨j, rfl⟩ := Nat.exists_eq_add_of_le (show 8 ≤ i by omega)
    refine state_outcome hi (fun _ hData => ?_) rest
    rw [(states_uint j (by omega)).2] at hData
    rw [← Nat.add_assoc]
    exact .leaf (.uint (by omega) hData)
  by_cases hInt : i < 16
  · obtain ⟨j, rfl⟩ := Nat.exists_eq_add_of_le (Nat.le_of_not_lt hUint)
    refine state_outcome hi (fun _ hData => ?_) rest
    rw [(states_int j (by omega)).2] at hData
    rw [← Nat.add_assoc]
    exact .leaf (.int (by omega) hData)
  by_cases hFixext : i < 21
  · obtain ⟨j, rfl⟩ := Nat.exists_eq_add_of_le (Nat.le_of_not_lt hInt)
    exact fixext_outcome (by omega) rest
  by_cases hStr : i < 24
  · obtain ⟨j, rfl⟩ := Nat.exists_eq_add_of_le (Nat.le_of_not_lt hFixext)
    exact str_outcome (by omega) rest
  by_cases hArray : i < 26
  · obtain ⟨j, rfl⟩ := Nat.exists_eq_add_of_le (Nat.le_of_not_lt hStr)
    rw [← Nat.add_assoc]
    exact long_outcome .array (by omega) rest
  · obtain ⟨j, rfl⟩ := Nat.exists_eq_add_of_le (Nat.le_of_not_lt hArray)
    rw [← Nat.add_assoc]
    exact long_outcome .map (by omega) rest

theorem outcome (data : List UInt8) : Outcome m limit frames data := by
  cases data with
  | nil =>
    exact .stuck (.waits (fun width current => ⟨_, .wait rfl⟩) fun _ _ => ⟨[0xc0], .inl ⟨_, .nil⟩⟩)
  | cons selector rest =>
    have hFrom {low : Nat} (hLow : low ≤ selector.toNat) :
        ∃ k, selector.toNat = low + k ∧ selector = UInt8.ofNat (low + k) := by
      obtain ⟨k, hk⟩ := Nat.exists_eq_add_of_le hLow
      exact ⟨k, hk, by rw [← hk, UInt8.ofNat_toNat]⟩
    have hLt := selector.toNat_lt
    by_cases hPositive : selector.toNat < 0x80
    · exact .leaf rfl
        (.positiveFixnum (UInt8.le_iff_toNat_le.mpr (Nat.le_of_lt_succ hPositive)))
    by_cases hMap : selector.toNat < 0x90
    · obtain ⟨k, hk, rfl⟩ := hFrom (Nat.le_of_not_lt hPositive)
      exact fix_outcome .map (by omega) rest
    by_cases hArray : selector.toNat < 0xa0
    · obtain ⟨k, hk, rfl⟩ := hFrom (Nat.le_of_not_lt hMap)
      exact fix_outcome .array (by omega) rest
    by_cases hStr : selector.toNat < 0xc0
    · obtain ⟨k, hk, rfl⟩ := hFrom (Nat.le_of_not_lt hArray)
      exact fixStr_outcome (by omega) rest
    by_cases hState : selector.toNat < 0xc4
    · obtain ⟨k, hk, rfl⟩ := hFrom (Nat.le_of_not_lt hStr)
      have hFour : k = 0 ∨ k = 1 ∨ k = 2 ∨ k = 3 := by omega
      obtain rfl | rfl | rfl | rfl := hFour
      · exact .leaf rfl .nil
      · exact .stuck (.fails fun width current => ⟨.parseError, by decide, .stop rfl⟩)
      · exact .leaf rfl .no
      · exact .leaf rfl .yes
    by_cases hNegative : selector.toNat < 0xe0
    · obtain ⟨k, hk, rfl⟩ := hFrom (Nat.le_of_not_lt hState)
      exact states_outcome (by omega) rest
    · exact .leaf rfl
        (.negativeFixnum (UInt8.le_iff_toNat_le.mpr (Nat.le_of_not_lt hNegative)))

/-! Whole calls. -/

variable {data : List UInt8} {o : Object} {n : Nat}

theorem solid (m : Machine) (limit : UnpackLimit) : (format m limit).Solid where
  leaf h := by cases h <;> exact Nat.succ_pos _
  head h := by cases h <;> exact Nat.succ_pos _

/-- What `unpack` makes of where the loop ends. -/
def thrown : Rest Context UInt8 Result → Result
  | .inl _ => .error .insufficientBytes
  | .inr result => result

theorem unpack_drains (m : Machine) (limit : UnpackLimit) (data : List UInt8) :
    ∃ left, Drains (turn m limit) .new data [] left ∧ unpack m limit data = thrown left := by
  obtain ⟨left, hExecute, hDrains⟩ :=
    execute_drains (m := m) .new (Nat.lt_succ_self data.length)
  refine ⟨left, hDrains, ?_⟩
  rw [unpack, hExecute]
  cases left <;> rfl

/-- What a reader says of the loop holds of the call. -/
theorem unpack_of_reads {ends : Rest Context UInt8 Result → Prop}
    (h : Reads m limit data.length ends [] data) :
    ∃ left, ends left ∧ unpack m limit data = thrown left := by
  obtain ⟨left, hEnds, hDrains⟩ := h (by simp) (Nat.le_refl _) 0
  rw [Nat.sub_self] at hDrains
  obtain ⟨left', hDrains', hUnpack⟩ := unpack_drains m limit data
  obtain ⟨-, hLeft⟩ := hDrains.det hDrains'
  exact ⟨left, hEnds, hLeft ▸ hUnpack⟩

theorem unpack_spells {front : List UInt8} (h : (format m limit).Spells 0 o front)
    (rest : List UInt8) : unpack m limit (front ++ rest) = .ok (o, front.length) := by
  have hReader := reader m limit (front ++ rest).length (· = .inr (.ok (o, front.length)))
  have hDone : Done (front ++ rest).length (· = .inr (.ok (o, front.length))) o rest := by
    rw [Done, List.length_append, Nat.add_sub_cancel]
  have hReads : Reads m limit (front ++ rest).length _ [] (front ++ rest) := h.reads hReader rfl hDone
  obtain ⟨left, rfl, hUnpack⟩ := unpack_of_reads hReads
  exact hUnpack

theorem Fails.reads {total : Nat} {ends : Rest Context UInt8 Result → Prop}
    (h : Fails m limit frames data) (hEnds : ∀ e ≠ .insufficientBytes, ends (.inr (.error e))) :
    Reads m limit total ends frames data := by
  intro _ _ width
  obtain ⟨e, he, hDrains⟩ := h width (total - data.length)
  exact ⟨_, hEnds e he, hDrains⟩

theorem Waits.reads {total : Nat} {ends : Rest Context UInt8 Result → Prop}
    (h : Waits m limit frames data) (hEnds : ∀ s, ends (.inl s)) : Reads m limit total ends frames data := by
  intro _ _ width
  obtain ⟨s, hDrains⟩ := h width (total - data.length)
  exact ⟨_, hEnds s, hDrains⟩

/-- What begins here and the nodes around it can be completed, with `nil` for what is missing. -/
theorem Begins.completes {written : List UInt8} (h : Begins m limit frames.length data)
    (hOpen : (format m limit).Open frames written) :
    ∃ more t, (format m limit).Spells 0 t (written ++ (data ++ more)) := by
  have hNil : (format m limit).Leaf .nil [0xc0] := Leaf.nil
  obtain ⟨more, ⟨t, hLeaf⟩ | ⟨kind, n, hHead⟩⟩ := h
  · obtain ⟨more', t', hSpells⟩ := hOpen.completes hNil (.leaf hLeaf)
    exact ⟨more ++ more', t', by rwa [List.append_assoc] at hSpells⟩
  · have hNode : (format m limit).Spells frames.length (kind.object (List.replicate n .nil))
        (data ++ more ++ (List.replicate n [0xc0]).flatten) :=
      .node (by rwa [List.length_replicate]) (.replicate (.leaf hNil) n)
    obtain ⟨more', t', hSpells⟩ := hOpen.completes hNil hNode
    refine ⟨more ++ ((List.replicate n [0xc0]).flatten ++ more'), t', ?_⟩
    simpa only [List.append_assoc] using hSpells

theorem spells_of_unpack (hUnpack : unpack m limit data = .ok (o, n)) :
    ∃ front rest, data = front ++ rest ∧ front.length = n ∧ (format m limit).Spells 0 o front := by
  have hNext (frames : List (Frame Object Kind)) (rest : List UInt8) : (format m limit).Next
      (Reads m limit data.length (thrown · ≠ .ok (o, n)) frames rest) frames.length rest :=
    (outcome rest).imp fun hStuck => by
      cases hStuck with
      | waits h => exact h.reads fun s hEq => by cases hEq
      | fails h => exact h.reads fun e _ hEq => by cases hEq
  obtain hReads | ⟨t, front, rest, rfl, hSpells⟩ :=
    (reader m limit data.length _).sound (solid m limit) hNext .nil data
  · obtain ⟨left, hNot, hThrown⟩ := unpack_of_reads hReads
    exact absurd (hThrown.symm.trans hUnpack) hNot
  · have hSpelled := unpack_spells hSpells rest
    rw [List.nil_append, hUnpack] at hSpelled
    cases hSpelled
    exact ⟨front, rest, rfl, rfl, hSpells⟩

/-- `unpack` returns an object and a number of bytes exactly if these are at the front of the data, as
the format writes the object. -/
theorem unpack_ok_iff : unpack m limit data = .ok (o, n) ↔
    ∃ front rest, data = front ++ rest ∧ front.length = n ∧ (format m limit).Spells 0 o front := by
  constructor
  · exact spells_of_unpack
  · rintro ⟨front, rest, rfl, rfl, hSpells⟩
    exact unpack_spells hSpells rest

/-- More data after an object or an error is not looked at. -/
theorem unpack_append (more : List UInt8) (h : unpack m limit data ≠ .error .insufficientBytes) :
    unpack m limit (data ++ more) = unpack m limit data := by
  obtain ⟨left, hDrains, hThrown⟩ := unpack_drains m limit data
  obtain ⟨left', hDrains', hThrown'⟩ := unpack_drains m limit (data ++ more)
  cases left with
  | inl => exact absurd hThrown h
  | inr result =>
    have hAppend := hDrains.stop_append (turn_stable _) turn_productive (Nat.le_refl (data ++ more).length)
    obtain ⟨-, rfl⟩ := hDrains'.det hAppend
    rw [hThrown', hThrown]

/-- `unpack` asks for more exactly if there is an object that starts with the data and is not complete
yet. -/
theorem unpack_insufficient_iff (hGenerous : Generous m limit) (hDepth : data.length ≤ limit.depth) :
    unpack m limit data = .error .insufficientBytes ↔
      ∃ more o, more ≠ [] ∧ (format m limit).Spells 0 o (data ++ more) := by
  constructor
  · intro hUnpack
    have hNot (t : Object) (front rest : List UInt8) (hData : data = front ++ rest)
        (hSpells : (format m limit).Spells 0 t front) : False := by
      rw [hData, unpack_spells hSpells rest] at hUnpack
      cases hUnpack
    have hReader := (reader m limit data.length (thrown · ≠ .error .insufficientBytes)).or
      (Grammar.completable_reader (solid m limit) limit.depth)
    have hNext (frames : List (Frame Object Kind)) (rest : List UInt8) : (format m limit).Next
        (Reads m limit data.length (thrown · ≠ .error .insufficientBytes) frames rest ∨
          (format m limit).Completable limit.depth frames rest) frames.length rest := by
      refine (outcome rest).imp fun hStuck => ?_
      cases hStuck with
      | waits _ hBegins =>
        exact .inr fun hBound written hOpen => (hBegins hGenerous hBound).completes hOpen
      | fails h => exact .inl (h.reads fun e he hEq => he (Except.error.inj hEq))
    obtain (hReads | hCompletable) | ⟨t, front, rest, hData, hSpells⟩ :=
      hReader.sound (solid m limit) hNext .nil data
    · obtain ⟨left, hNot, hThrown⟩ := unpack_of_reads hReads
      exact absurd (hThrown.symm.trans hUnpack) hNot
    · obtain ⟨more, t, hSpells⟩ := hCompletable (by simpa using hDepth) [] .nil
      refine ⟨more, t, ?_, hSpells⟩
      rintro rfl
      exact hNot t data [] (List.append_nil data).symm (by simpa using hSpells)
    · exact (hNot t front rest hData hSpells).elim
  · rintro ⟨more, o, hMore, hSpells⟩
    by_contra hUnpack
    have hWhole := unpack_spells hSpells []
    rw [List.append_nil, unpack_append more hUnpack] at hWhole
    obtain ⟨front, rest, rfl, hLength, -⟩ := spells_of_unpack hWhole
    simp only [List.length_append] at hLength
    have := List.length_pos_iff.mpr hMore
    omega

/-- The first half of an array of two elements. -/
theorem unpack_insufficient_iff_sample :
    unpack ⟨fun _ => true, fun _ => 0⟩ {} [0x92, 0xc3] = .error .insufficientBytes ↔
      ∃ more o, more ≠ [] ∧ (format ⟨fun _ => true, fun _ => 0⟩ {}).Spells 0 o ([0x92, 0xc3] ++ more) :=
  unpack_insufficient_iff ⟨by decide, by decide, by decide, by decide, by decide, fun _ _ => rfl⟩
    (by decide)

end LogSocket.Unpack
