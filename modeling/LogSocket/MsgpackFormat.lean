import LogSocket.Lib.Counted
import LogSocket.MsgpackParser

/-! The format that `msgpack::unpack` reads, as a grammar, and that it reads exactly that. The stack of
the parser and that of the visitor are two halves of the frames of a reader. -/

namespace LogSocket.Unpack

open Lib

/-- An integer as an object: there are two types. -/
def integer (value : Int) : Object :=
  if 0 ≤ value then .positiveInteger (UInt64.ofNat value.toNat) else .negativeInteger (Int64.ofInt value)

/-- Data of this size is within a limit, and there is room for it. -/
structure Fits (m : Machine) (max size : Nat) : Prop where
  le : size ≤ max
  room : m.room size = true

/-- The objects that are not containers, and their bytes. -/
inductive Leaf (m : Machine) (limit : UnpackLimit) : Object → List UInt8 → Prop
  | nil : Leaf m limit .nil [0xc0]
  | no : Leaf m limit (.boolean false) [0xc2]
  | yes : Leaf m limit (.boolean true) [0xc3]
  | positiveFixnum {n : UInt8} : n ≤ 0x7f → Leaf m limit (.positiveInteger (UInt64.ofNat n.toNat)) [n]
  | negativeFixnum {n : UInt8} : 0xe0 ≤ n → Leaf m limit (integer (loadSigned [n])) [n]
  | float {data : List UInt8} : data.length = 4 →
    Leaf m limit (.float (m.toDouble (UInt32.ofNat (load data)))) (0xca :: data)
  | double {data : List UInt8} : data.length = 8 →
    Leaf m limit (.float (UInt64.ofNat (load data))) (0xcb :: data)
  | uint {i : Nat} {data : List UInt8} : i < 4 → data.length = 2 ^ i →
    Leaf m limit (.positiveInteger (UInt64.ofNat (load data))) (UInt8.ofNat (0xcc + i) :: data)
  | int {i : Nat} {data : List UInt8} : i < 4 → data.length = 2 ^ i →
    Leaf m limit (integer (loadSigned data)) (UInt8.ofNat (0xd0 + i) :: data)
  | fixStr {data : List UInt8} : data.length < 32 → Fits m limit.str data.length →
    Leaf m limit (.str data) (UInt8.ofNat (0xa0 + data.length) :: data)
  | str {i : Nat} {data : List UInt8} : i < 3 → data.length < 256 ^ 2 ^ i →
    Fits m limit.str data.length →
    Leaf m limit (.str data) (UInt8.ofNat (0xd9 + i) :: (beBytes (2 ^ i) data.length ++ data))
  | bin {i : Nat} {data : List UInt8} : i < 3 → data.length < 256 ^ 2 ^ i →
    Fits m limit.bin data.length →
    Leaf m limit (.bin data) (UInt8.ofNat (0xc4 + i) :: (beBytes (2 ^ i) data.length ++ data))
  | fixExt {i : Nat} {type : UInt8} {data : List UInt8} : i < 5 → data.length = 2 ^ i →
    Fits m limit.ext (data.length + 1) →
    Leaf m limit (.ext type data) (UInt8.ofNat (0xd4 + i) :: type :: data)
  | ext {i : Nat} {type : UInt8} {data : List UInt8} : i < 3 → data.length < 256 ^ 2 ^ i →
    data.length + 1 < 2 ^ 32 → Fits m limit.ext (data.length + 1) →
    Leaf m limit (.ext type data)
      (UInt8.ofNat (0xc7 + i) :: (beBytes (2 ^ i) data.length ++ type :: data))
  /-- The size of the longest `ext` with its type is not one of 32 bits. -/
  | longestExt {type : UInt8} {data : List UInt8} : data.length + 1 = 2 ^ 32 →
    Fits m limit.ext 0 →
    Leaf m limit .unwrittenExt (0xc9 :: (beBytes 4 data.length ++ type :: data))

namespace Kind

/-- The objects that an item takes. -/
def perItem : Kind → Nat
  | array => 1
  | map => 2

def most (limit : UnpackLimit) : Kind → Nat
  | array => limit.array
  | map => limit.map

/-- What too many items throw -/
def overflow : Kind → UnpackError
  | array => .arraySizeOverflow
  | map => .mapSizeOverflow

/-- The first byte of a small container that is empty -/
def fixCode : Kind → Nat
  | array => 0x90
  | map => 0x80

/-- The first byte of a container whose number of items takes two bytes -/
def longCode : Kind → Nat
  | array => 0xdc
  | map => 0xde

end Kind

/-- A container of so many items may start inside `depth` others. -/
structure Starts (m : Machine) (limit : UnpackLimit) (depth : Nat) (kind : Kind) (size : Nat) : Prop where
  le : size ≤ kind.most limit
  depth : depth + 1 ≤ limit.depth
  room : size ≠ 0 → m.room (size * (kind.perItem * Visitor.sizeofObject)) = true

/-- The head of an array or a map, with the number of objects in it. -/
inductive Head (m : Machine) (limit : UnpackLimit) (depth : Nat) : Kind → Nat → List UInt8 → Prop
  | fix {kind : Kind} {size : Nat} : size < 16 → Starts m limit depth kind size →
    Head m limit depth kind (kind.perItem * size) [UInt8.ofNat (kind.fixCode + size)]
  | long {kind : Kind} {size i : Nat} : i < 2 → size < 256 ^ 2 ^ (i + 1) →
    Starts m limit depth kind size →
    Head m limit depth kind (kind.perItem * size)
      (UInt8.ofNat (kind.longCode + i) :: beBytes (2 ^ (i + 1)) size)

def format (m : Machine) (limit : UnpackLimit) : Grammar Object Kind UInt8 where
  Leaf := Leaf m limit
  Head := Head m limit
  node := Kind.object

/-! The stacks as frames. -/

/-- What the parser knows of a container that is open. -/
def elem (frame : Frame Object Kind) : StackElem :=
  match frame.kind with
  | .array => ⟨.arrayItem, frame.missing⟩
  | .map =>
    if frame.missing % 2 = 0 then ⟨.mapKey, frame.missing / 2⟩ else ⟨.mapValue, frame.missing / 2 + 1⟩

/-- What the visitor has of it. -/
def block (frame : Frame Object Kind) : Block := ⟨frame.kind, frame.children⟩

variable {m : Machine} {limit : UnpackLimit} {frames : List (Frame Object Kind)}
  {t : Object} {current width taken : Nat}

/-- Where the loop stands between two objects. `width` is what is left in `m_trail`. -/
def standing (frames : List (Frame Object Kind)) (width current : Nat) : Context where
  cs := .header
  trail := width
  current := current
  stack := frames.map elem
  visitor := ⟨.nil, frames.map block⟩
  trail_pos := .inl rfl

theorem consume_close (hMissing : ∀ frame ∈ frames, 0 < frame.missing) (t : Object) :
    consume (frames.map elem) ⟨t, frames.map block⟩ =
      match (format m limit).close frames t with
      | .inl t => .inl ⟨t, []⟩
      | .inr frames => .inr (frames.map elem, ⟨.nil, frames.map block⟩) := by
  induction frames generalizing t with
  | nil => rfl
  | cons frame frames ih =>
    rw [List.forall_mem_cons] at hMissing
    obtain ⟨kind, missing, children⟩ := frame
    obtain ⟨hPos, hRest⟩ := hMissing
    dsimp only at hPos
    have hEnd : (⟨t, block ⟨kind, missing, children⟩ :: frames.map block⟩ : Visitor).endItem.endContainer =
        ⟨kind.object (children ++ [t]), frames.map block⟩ := rfl
    rw [List.map_cons, List.map_cons, Grammar.close]
    cases kind with
    | array =>
      rw [show elem ⟨.array, missing, children⟩ = ⟨.arrayItem, missing⟩ from rfl]
      simp only [consume]
      by_cases hLast : missing = 1
      · rw [if_pos (by omega), if_pos hLast, hEnd, ih hRest]
        rfl
      · rw [if_neg (by omega), if_neg hLast]
        rfl
    | map =>
      by_cases hEven : missing % 2 = 0
      · have hElem : elem ⟨.map, missing, children⟩ = ⟨.mapKey, missing / 2⟩ := if_pos hEven
        have hNext : elem ⟨.map, missing - 1, children ++ [t]⟩ = ⟨.mapValue, (missing - 1) / 2 + 1⟩ :=
          if_neg (by dsimp only; omega)
        rw [hElem, if_neg (by dsimp only; omega)]
        simp only [consume, List.map_cons, hNext]
        rw [show (missing - 1) / 2 + 1 = missing / 2 by omega]
        rfl
      · have hElem : elem ⟨.map, missing, children⟩ = ⟨.mapValue, missing / 2 + 1⟩ := if_neg hEven
        rw [hElem]
        simp only [consume]
        by_cases hLast : missing = 1
        · rw [if_pos (by omega), if_pos hLast, hEnd, ih hRest]
          rfl
        · have hNext : elem ⟨.map, missing - 1, children ++ [t]⟩ = ⟨.mapKey, (missing - 1) / 2⟩ :=
            if_pos (by dsimp only; omega)
          rw [if_neg (by omega), if_neg hLast]
          simp only [List.map_cons, hNext]
          rw [show (missing - 1) / 2 = missing / 2 + 1 - 1 by omega]
          rfl

/-! What a turn does with the bytes of an object. -/

/-- The loop behind the first byte of an object, which `cs` stands for, or behind a size. -/
def behind (frames : List (Frame Object Kind)) (cs : Cs) (size current : Nat) (h : 0 < size) :
    Context where
  cs := cs
  trail := size
  current := current
  stack := frames.map elem
  visitor := ⟨.nil, frames.map block⟩
  trail_pos := .inr h

theorem trail_pos (i : Nat) : 0 < trail.getD i 1 := by
  rw [List.getD_eq_getElem?_getD]
  cases h : trail[i]? with
  | none => exact Nat.one_pos
  | some n => exact (by decide : ∀ n ∈ trail, 0 < n) n (List.mem_of_getElem? h)

theorem turn_state (rest : List UInt8) {i : Nat} (hi : i < 28) :
    turn m limit (standing frames width current) (UInt8.ofNat (0xc4 + i) :: rest) =
      trailing m limit (behind frames (states.getD i .header) (trail.getD i 1) current (trail_pos i)) 1
        rest := by
  have hByte : ∀ i < 28, ¬ UInt8.ofNat (0xc4 + i) ≤ 0x7f ∧ ¬ 0xe0 ≤ UInt8.ofNat (0xc4 + i) ∧
      0xc4 ≤ UInt8.ofNat (0xc4 + i) ∧ (UInt8.ofNat (0xc4 + i) &&& 0x1f).toNat - 4 = i ∧
      (UInt8.ofNat (0xc4 + i)).toNat - 0xc4 = i := by decide
  obtain ⟨hPositive, hNegative, hTrail, hState, hIndex⟩ := hByte i hi
  rw [turn, if_neg (by simp [standing]), if_neg hPositive, if_neg hNegative, if_pos hTrail]
  simp only [nextCs, trailOf, hState, hIndex]
  rfl

theorem trailing_eq {c : Context} {n : List UInt8} (h : n.length = c.trail) (taken : Nat)
    (rest : List UInt8) :
    trailing m limit c taken (n ++ rest) = switchCs m limit c (taken + c.trail) n := by
  have hEnough : ¬ (n ++ rest).length < c.trail := by
    rw [List.length_append]
    omega
  rw [trailing, if_neg hEnough, ← h, List.take_left]

theorem turn_behind {cs : Cs} {size : Nat} (h : 0 < size) (hCs : cs ≠ .header) (byte : UInt8)
    {n : List UInt8} (hSize : n.length = size) (rest : List UInt8) :
    turn m limit (behind frames cs size current h) (byte :: (n ++ rest)) =
      switchCs m limit (behind frames cs size current h) (1 + size) n := by
  rw [turn, if_pos (by simpa [behind] using hCs)]
  exact trailing_eq hSize 1 rest

theorem afterVisitProc_close (hMissing : ∀ frame ∈ frames, 0 < frame.missing) {c : Context}
    (hStack : c.stack = frames.map elem) (taken : Nat) (t : Object) :
    afterVisitProc c taken ⟨t, frames.map block⟩ =
      match (format m limit).close frames t with
      | .inl t => .stop (.ok (t, c.current + taken))
      | .inr frames => .take taken none (standing frames c.trail (c.current + taken)) := by
  rw [afterVisitProc, hStack, @consume_close m limit frames hMissing]
  split
  next h =>
    split at h
    · cases h
      rfl
    · cases h
  next h =>
    split at h
    · cases h
    · cases h
      rfl

/-- From between two objects, with this data, the loop comes to one of these ends. -/
def Reads (m : Machine) (limit : UnpackLimit) (total : Nat) (ends : Rest Context UInt8 Result → Prop)
    (frames : List (Frame Object Kind)) (data : List UInt8) : Prop :=
  (∀ frame ∈ frames, 0 < frame.missing) → data.length ≤ total → ∀ width, ∃ left, ends left ∧
    Drains (turn m limit) (standing frames width (total - data.length)) data [] left

/-- The object is one of these ends, with all but the rest read. -/
def Done (total : Nat) (ends : Rest Context UInt8 Result → Prop) (t : Object) (rest : List UInt8) :
    Prop :=
  ends (.inr (.ok (t, total - rest.length)))

section

variable {total : Nat} {ends : Rest Context UInt8 Result → Prop} {b rest : List UInt8}

/-- A turn that visits an object leads to what comes after it. -/
theorem drains_visited (hMissing : ∀ frame ∈ frames, 0 < frame.missing) {c c' : Context}
    {data : List UInt8} (hStack : c'.stack = frames.map elem)
    (hTurn : turn m limit c data = afterVisitProc c' taken ⟨t, frames.map block⟩)
    (hRest : data.drop taken = rest) (hCurrent : c'.current + taken = total - rest.length)
    (hTotal : rest.length ≤ total)
    (h : (format m limit).After (Reads m limit total ends) (Done total ends) frames t rest) :
    ∃ left, ends left ∧ Drains (turn m limit) c data [] left := by
  rw [@afterVisitProc_close m limit frames hMissing c' hStack, hCurrent] at hTurn
  rw [Grammar.After] at h
  cases hClose : (format m limit).close frames t with
  | inl t' =>
    rw [hClose] at h hTurn
    exact ⟨_, h, .stop hTurn⟩
  | inr frames' =>
    rw [hClose] at h hTurn
    have hReads : Reads m limit total ends frames' rest := h
    obtain ⟨left, hEnds, hDrains⟩ := hReads (Grammar.close_missing hMissing hClose) hTotal c'.trail
    rw [← hRest] at hDrains hTurn
    exact ⟨left, hEnds, .take hTurn hDrains⟩

/-- An object that one turn reads. -/
theorem reads_visited (hTurn : ∀ width current, ∃ c, c.stack = frames.map elem ∧ c.current = current ∧
      turn m limit (standing frames width current) (b ++ rest) =
        afterVisitProc c b.length ⟨t, frames.map block⟩)
    (h : (format m limit).After (Reads m limit total ends) (Done total ends) frames t rest) :
    Reads m limit total ends frames (b ++ rest) := by
  intro hMissing hTotal width
  obtain ⟨c, hStack, hCurrent, hTurn⟩ := hTurn width (total - (b ++ rest).length)
  rw [List.length_append] at hTotal hCurrent
  exact drains_visited hMissing hStack hTurn List.drop_left (by omega) (by omega) h

/-- In front of the rest is the last byte of the size. -/
theorem drop_size (byte : UInt8) (size rest : List UInt8) :
    ∃ last, (byte :: (size ++ rest)).drop size.length = last :: rest := by
  have hLength : (byte :: size).length = size.length + 1 := rfl
  have hDrop : ((byte :: size) ++ rest).drop size.length = (byte :: size).drop size.length ++ rest :=
    List.drop_append_of_le_length (by omega)
  rw [List.cons_append] at hDrop
  rw [hDrop]
  have hOne : ((byte :: size).drop size.length).length = 1 := by
    rw [List.length_drop]
    omega
  obtain ⟨last, hLast⟩ := List.length_eq_one_iff.mp hOne
  exact ⟨last, by rw [hLast]; rfl⟩

/-- The states of a family and their sizes are next to each other. -/
theorem states_bin : ∀ i < 3, states.getD i .header = .bin (2 ^ i) ∧ trail.getD i 1 = 2 ^ i := by
  decide

theorem states_ext :
    ∀ i < 3, states.getD (3 + i) .header = .ext (2 ^ i) ∧ trail.getD (3 + i) 1 = 2 ^ i := by decide

theorem states_uint :
    ∀ i < 4, states.getD (8 + i) .header = .uint (2 ^ i) ∧ trail.getD (8 + i) 1 = 2 ^ i := by decide

theorem states_int :
    ∀ i < 4, states.getD (12 + i) .header = .int (2 ^ i) ∧ trail.getD (12 + i) 1 = 2 ^ i := by decide

theorem states_fixext :
    ∀ i < 5, states.getD (16 + i) .header = .fixext (2 ^ i) ∧ trail.getD (16 + i) 1 = 2 ^ i + 1 := by
  decide

theorem states_str :
    ∀ i < 3, states.getD (21 + i) .header = .str (2 ^ i) ∧ trail.getD (21 + i) 1 = 2 ^ i := by decide

theorem states_array : ∀ i < 2, states.getD (24 + i) .header = .array (2 ^ (i + 1)) ∧
    trail.getD (24 + i) 1 = 2 ^ (i + 1) := by decide

theorem states_map : ∀ i < 2, states.getD (26 + i) .header = .map (2 ^ (i + 1)) ∧
    trail.getD (26 + i) 1 = 2 ^ (i + 1) := by decide

/-- The state `i` reads a size. What it is the size of, with `add` more bytes, is read in the state
`value`. -/
structure Sizes (m : Machine) (limit : UnpackLimit) (i : Nat) (value : Cs) (add : Nat)
    (visit : Visitor → List UInt8 → Except UnpackError Visitor) : Prop where
  index : i < 28
  isValue : value ≠ .header
  size (c : Context) (taken : Nat) (n : List UInt8) : c.cs = states.getD i .header →
    switchCs m limit c taken n = sized c taken value (load n + add) (visit c.visitor)
  visit (c : Context) (taken : Nat) (n : List UInt8) : c.cs = value →
    switchCs m limit c taken n = visited c taken (visit c.visitor n)

theorem sizes_str {i : Nat} (hi : i < 3) :
    Sizes m limit (21 + i) .strValue 0 fun v => v.visitStr m limit where
  index := by omega
  isValue := by decide
  size c taken n hCs := by
    rw [switchCs, hCs, (states_str i hi).1]
    rfl
  visit c taken n hCs := by rw [switchCs, hCs]

theorem sizes_bin {i : Nat} (hi : i < 3) : Sizes m limit i .binValue 0 fun v => v.visitBin m limit where
  index := by omega
  isValue := by decide
  size c taken n hCs := by
    rw [switchCs, hCs, (states_bin i hi).1]
    rfl
  visit c taken n hCs := by rw [switchCs, hCs]

theorem sizes_ext {i : Nat} (hi : i < 3) :
    Sizes m limit (3 + i) .extValue 1 fun v => v.visitExt m limit where
  index := by omega
  isValue := by decide
  size c taken n hCs := by rw [switchCs, hCs, (states_ext i hi).1]
  visit c taken n hCs := by rw [switchCs, hCs]

section

variable {i add : Nat} {size payload : List UInt8} {value : Cs}
  {visit : Visitor → List UInt8 → Except UnpackError Visitor}

/-- A size has been read where it says that something follows. -/
theorem drains_value (hSizes : Sizes m limit i value add visit) (hSize : size.length = trail.getD i 1)
    (hPos : 0 < load size + add) (width current : Nat) (data : List UInt8) : ∃ last, ∀ left,
      Drains (turn m limit) (behind frames value (load size + add) (current + trail.getD i 1) hPos)
        (last :: data) [] left →
      Drains (turn m limit) (standing frames width current)
        (UInt8.ofNat (0xc4 + i) :: (size ++ data)) [] left := by
  have hTurn := @turn_state m limit frames current width (size ++ data) i hSizes.index
  rw [trailing_eq hSize, hSizes.size _ _ _ rfl, sized, dif_neg (Nat.ne_of_gt hPos)] at hTurn
  obtain ⟨last, hLast⟩ := drop_size (UInt8.ofNat (0xc4 + i)) size data
  have hTaken : 1 + trail.getD i 1 - 1 = trail.getD i 1 := by omega
  refine ⟨last, fun left hDrains => ?_⟩
  rw [← hLast, hSize] at hDrains
  dsimp only [behind] at hTurn
  rw [hTaken] at hTurn
  exact .take hTurn hDrains

/-- What has a size is visited, be it empty or not. -/
theorem turn_value (hSizes : Sizes m limit i value add visit)
    (hPayload : payload.length = load size + add) (hPos : 0 < load size + add) (current : Nat)
    (last : UInt8) (data : List UInt8) :
    turn m limit (behind frames value (load size + add) (current + trail.getD i 1) hPos)
        (last :: (payload ++ data)) =
      visited (behind frames value (load size + add) (current + trail.getD i 1) hPos)
        (1 + payload.length) (visit ⟨.nil, frames.map block⟩ payload) := by
  rw [turn_behind hPos hSizes.isValue last hPayload, hSizes.visit _ _ _ rfl, hPayload]
  rfl

theorem turn_empty (hSizes : Sizes m limit i value add visit) (hSize : size.length = trail.getD i 1)
    (hZero : load size + add = 0) (width current : Nat) (data : List UInt8) :
    turn m limit (standing frames width current) (UInt8.ofNat (0xc4 + i) :: (size ++ data)) =
      visited (behind frames (states.getD i .header) (trail.getD i 1) current (trail_pos i))
        (1 + trail.getD i 1) (visit ⟨.nil, frames.map block⟩ []) := by
  rw [turn_state _ hSizes.index, trailing_eq hSize, hSizes.size _ _ _ rfl, sized, dif_pos hZero]
  rfl

/-- An object behind its size. -/
theorem reads_sized (hSizes : Sizes m limit i value add visit) (hSize : size.length = trail.getD i 1)
    (hPayload : payload.length = load size + add)
    (hVisit : visit ⟨.nil, frames.map block⟩ payload = .ok ⟨t, frames.map block⟩)
    (h : (format m limit).After (Reads m limit total ends) (Done total ends) frames t rest) :
    Reads m limit total ends frames (UInt8.ofNat (0xc4 + i) :: (size ++ payload) ++ rest) := by
  intro hMissing hTotal width
  rw [List.cons_append, List.append_assoc, List.length_cons, List.length_append, List.length_append,
    hSize] at hTotal ⊢
  generalize hCurrent : total - (trail.getD i 1 + (payload.length + rest.length) + 1) = current
  by_cases hZero : load size + add = 0
  · obtain rfl := List.eq_nil_of_length_eq_zero (hPayload.trans hZero)
    have hTurn := @turn_empty _ _ frames _ _ _ _ _ hSizes hSize hZero width current ([] ++ rest)
    rw [hVisit, visited] at hTurn
    rw [List.length_nil] at hTotal hCurrent
    refine drains_visited hMissing rfl hTurn ?_ (by dsimp only [behind]; omega) (by omega) h
    rw [← hSize, Nat.add_comm, List.drop_succ_cons, List.drop_left, List.nil_append]
  · have hPos := Nat.pos_of_ne_zero hZero
    obtain ⟨last, hDrains⟩ := drains_value hSizes hSize hPos width current (payload ++ rest)
    have hTurn := @turn_value _ _ frames _ _ _ _ _ _ hSizes hPayload hPos current last rest
    rw [hVisit, visited] at hTurn
    obtain ⟨left, hEnds, hLeft⟩ := drains_visited hMissing rfl hTurn
      (by rw [Nat.add_comm, List.drop_succ_cons, List.drop_left]) (by dsimp only [behind]; omega)
      (by omega) h
    exact ⟨left, hEnds, hDrains left hLeft⟩

end

/-- An object behind its first byte. -/
theorem reads_state {i : Nat} (hi : i < 28) {data : List UInt8} (hData : data.length = trail.getD i 1)
    (hSwitch : ∀ current h taken, switchCs m limit
      (behind frames (states.getD i .header) (trail.getD i 1) current h) taken data =
        afterVisitProc (behind frames (states.getD i .header) (trail.getD i 1) current h) taken
          ⟨t, frames.map block⟩)
    (h : (format m limit).After (Reads m limit total ends) (Done total ends) frames t rest) :
    Reads m limit total ends frames (UInt8.ofNat (0xc4 + i) :: data ++ rest) := by
  refine reads_visited (fun width current => ?_) h
  have hTurn := @turn_state m limit frames current width (data ++ rest) i hi
  rw [trailing_eq hData, hSwitch] at hTurn
  refine ⟨behind frames (states.getD i .header) (trail.getD i 1) current (trail_pos i), rfl, rfl,
    hTurn.trans ?_⟩
  rw [List.length_cons, hData, Nat.add_comm]
  rfl

/-- The checks of a visitor before it keeps data. -/
def checked (m : Machine) (max size : Nat) (e : UnpackError) (v : Visitor) :
    Except UnpackError Visitor := do
  if max < size then throw e
  allocateAlign m size
  pure v

theorem checked_fits {max size : Nat} {e : UnpackError} {v : Visitor} (h : Fits m max size) :
    checked m max size e v = .ok v := by
  rw [checked, if_neg (Nat.not_lt.mpr h.le), allocateAlign, if_pos h.room]
  rfl

theorem checked_fails {max size : Nat} {e : UnpackError} {v : Visitor} (h : ¬ Fits m max size)
    (he : e ≠ .insufficientBytes) : ∃ e' ≠ .insufficientBytes, checked m max size e v = .error e' := by
  rw [checked]
  by_cases hLe : max < size
  · rw [if_pos hLe]
    exact ⟨_, he, rfl⟩
  · have hRoom : ¬ m.room size = true := fun hRoom => h ⟨Nat.le_of_not_lt hLe, hRoom⟩
    rw [if_neg hLe, allocateAlign, if_neg hRoom]
    exact ⟨.badAlloc, by decide, rfl⟩

theorem visitStr_fits {v : Visitor} {data : List UInt8} (h : Fits m limit.str data.length) :
    v.visitStr m limit data = .ok { v with obj := .str data } := checked_fits h

theorem visitBin_fits {v : Visitor} {data : List UInt8} (h : Fits m limit.bin data.length) :
    v.visitBin m limit data = .ok { v with obj := .bin data } := checked_fits h

theorem visitExt_fits {v : Visitor} {type : UInt8} {data : List UInt8}
    (hSmall : data.length + 1 < 2 ^ 32) (h : Fits m limit.ext (data.length + 1)) :
    v.visitExt m limit (type :: data) = .ok { v with obj := .ext type data } := by
  have hSize : (type :: data).length % 2 ^ 32 = (type :: data).length := Nat.mod_eq_of_lt hSmall
  rw [Visitor.visitExt]
  dsimp only
  rw [hSize, List.take_length]
  exact checked_fits h

theorem visitExt_longest {v : Visitor} {type : UInt8} {data : List UInt8}
    (hLongest : data.length + 1 = 2 ^ 32) (h : Fits m limit.ext 0) :
    v.visitExt m limit (type :: data) = .ok { v with obj := .unwrittenExt } := by
  have hSize : (type :: data).length % 2 ^ 32 = 0 := by
    rw [List.length_cons, hLongest, Nat.mod_self]
  rw [Visitor.visitExt]
  dsimp only
  rw [hSize, List.take_zero]
  exact checked_fits (e := .extSizeOverflow) h

theorem load_beBytes {width size : Nat} (h : size < 256 ^ width) : load (beBytes width size) = size :=
  le_reverse_beBytes h

theorem visitNegativeInteger_eq (v : Visitor) (value : Int) :
    v.visitNegativeInteger value = { v with obj := integer value } := by
  rw [Visitor.visitNegativeInteger, integer]
  split <;> rfl

theorem fixStr_byte : ∀ k < 32, ¬ UInt8.ofNat (0xa0 + k) ≤ 0x7f ∧ ¬ 0xe0 ≤ UInt8.ofNat (0xa0 + k) ∧
    ¬ 0xc4 ≤ UInt8.ofNat (0xa0 + k) ∧
    (0xa0 ≤ UInt8.ofNat (0xa0 + k) ∧ UInt8.ofNat (0xa0 + k) ≤ 0xbf) ∧
    (UInt8.ofNat (0xa0 + k) &&& 0x1f).toNat = k := by decide

theorem turn_fixStr {k : Nat} (hk : k < 32) {data : List UInt8} (hData : data.length = k)
    (width current : Nat) (rest : List UInt8) :
    ∃ c, c.stack = frames.map elem ∧ c.current = current ∧
      turn m limit (standing frames width current) (UInt8.ofNat (0xa0 + k) :: (data ++ rest)) =
        visited c (1 + k) (Visitor.visitStr m limit ⟨.nil, frames.map block⟩ data) := by
  obtain ⟨hPositive, hNegative, hTrail, hStr, hSize⟩ := fixStr_byte k hk
  rw [turn, if_neg (by simp [standing]), if_neg hPositive, if_neg hNegative, if_neg hTrail, if_pos hStr]
  by_cases hEmpty : UInt8.ofNat (0xa0 + k) &&& 0x1f = 0
  · rw [hEmpty] at hSize
    obtain rfl : k = 0 := hSize.symm
    obtain rfl := List.eq_nil_of_length_eq_zero hData
    rw [dif_pos hEmpty]
    exact ⟨_, rfl, rfl, rfl⟩
  · rw [dif_neg hEmpty, trailing_eq (hData.trans hSize.symm)]
    refine ⟨behind frames .strValue (UInt8.ofNat (0xa0 + k) &&& 0x1f).toNat current
      (Nat.pos_of_ne_zero fun hZero => hEmpty (UInt8.toNat_inj.mp hZero)), rfl, rfl, ?_⟩
    exact congrArg (fun n => visited _ (1 + n) _) hSize

theorem turn_fixStr_short {k : Nat} (hk : k < 32) {rest : List UInt8} (hShort : rest.length < k)
    (width current : Nat) :
    turn m limit (standing frames width current) (UInt8.ofNat (0xa0 + k) :: rest) = .more := by
  obtain ⟨hPositive, hNegative, hTrail, hStr, hSize⟩ := fixStr_byte k hk
  have hEmpty : ¬ UInt8.ofNat (0xa0 + k) &&& 0x1f = 0 := by
    intro hZero
    rw [hZero] at hSize
    obtain rfl : k = 0 := hSize.symm
    exact absurd hShort (Nat.not_lt_zero _)
  rw [turn, if_neg (by simp [standing]), if_neg hPositive, if_neg hNegative, if_neg hTrail, if_pos hStr,
    dif_neg hEmpty, trailing]
  exact if_pos (by rwa [← hSize] at hShort)

/-- What is written for an object that is not a container is read as it. -/
theorem reads_leaf (hLeaf : Leaf m limit t b)
    (h : (format m limit).After (Reads m limit total ends) (Done total ends) frames t rest) :
    Reads m limit total ends frames (b ++ rest) := by
  cases hLeaf with
  | nil => exact reads_visited (fun width current => ⟨standing frames width current, rfl, rfl, rfl⟩) h
  | no => exact reads_visited (fun width current => ⟨standing frames width current, rfl, rfl, rfl⟩) h
  | yes => exact reads_visited (fun width current => ⟨standing frames width current, rfl, rfl, rfl⟩) h
  | positiveFixnum hn =>
    refine reads_visited (fun width current => ⟨standing frames width current, rfl, rfl, ?_⟩) h
    rw [List.singleton_append, turn, if_neg (by simp [standing]), if_pos hn]
    rfl
  | @negativeFixnum n hn =>
    have hNot : ¬ n ≤ 0x7f := by
      simp only [UInt8.le_iff_toNat_le] at hn ⊢
      exact fun hLe => absurd (Nat.le_trans hn hLe) (by decide)
    refine reads_visited (fun width current => ⟨standing frames width current, rfl, rfl, ?_⟩) h
    rw [List.singleton_append, turn, if_neg (by simp [standing]), if_neg hNot, if_pos hn,
      visitNegativeInteger_eq]
    rfl
  | float hData => exact @reads_state _ _ _ _ _ _ _ 6 (by decide) _ hData (fun _ _ _ => rfl) h
  | double hData => exact @reads_state _ _ _ _ _ _ _ 7 (by decide) _ hData (fun _ _ _ => rfl) h
  | @uint i data hi hData =>
    obtain ⟨hState, hTrail⟩ := states_uint i hi
    rw [show 0xcc + i = 0xc4 + (8 + i) by omega]
    refine reads_state (by omega) (hData.trans hTrail.symm) (fun current hPos taken => ?_) h
    rw [switchCs]
    simp only [behind, hState]
    rfl
  | @int i data hi hData =>
    obtain ⟨hState, hTrail⟩ := states_int i hi
    rw [show 0xd0 + i = 0xc4 + (12 + i) by omega]
    refine reads_state (by omega) (hData.trans hTrail.symm) (fun current hPos taken => ?_) h
    rw [switchCs]
    simp only [behind, hState, visitNegativeInteger_eq]
  | @fixStr data hLength hFits =>
    refine reads_visited (fun width current => ?_) h
    obtain ⟨c, hStack, hCurrent, hTurn⟩ := turn_fixStr hLength rfl width current rest
    rw [visitStr_fits hFits, visited, Nat.add_comm 1] at hTurn
    exact ⟨c, hStack, hCurrent, hTurn⟩
  | @str i data hi hLength hFits =>
    rw [show 0xd9 + i = 0xc4 + (21 + i) by omega]
    refine reads_sized (sizes_str hi) ?_ ?_ (visitStr_fits hFits) h
    · rw [beBytes_length, (states_str i hi).2]
    · rw [load_beBytes hLength, Nat.add_zero]
  | @bin i data hi hLength hFits =>
    refine reads_sized (sizes_bin hi) ?_ ?_ (visitBin_fits hFits) h
    · rw [beBytes_length, (states_bin i hi).2]
    · rw [load_beBytes hLength, Nat.add_zero]
  | @fixExt i type data hi hLength hFits =>
    obtain ⟨hState, hTrail⟩ := states_fixext i hi
    rw [show 0xd4 + i = 0xc4 + (16 + i) by omega]
    refine reads_state (by omega) (by rw [List.length_cons, hLength, hTrail])
      (fun current hPos taken => ?_) h
    have hSmall : data.length + 1 < 2 ^ 32 := by
      have := Nat.pow_le_pow_right (n := 2) (by decide) (Nat.le_of_lt_succ hi)
      omega
    rw [switchCs]
    simp only [behind, hState]
    rw [visitExt_fits hSmall hFits, visited]
  | @ext i type data hi hLength hSmall hFits =>
    rw [show 0xc7 + i = 0xc4 + (3 + i) by omega]
    refine reads_sized (sizes_ext hi) ?_ ?_ (visitExt_fits hSmall hFits) h
    · rw [beBytes_length, (states_ext i hi).2]
    · rw [load_beBytes hLength, List.length_cons]
  | @longestExt type data hLongest hFits =>
    refine reads_sized (i := 5) (sizes_ext (i := 2) (by decide)) ?_ ?_ (visitExt_longest hLongest hFits) h
    · rw [beBytes_length]
      rfl
    · rw [load_beBytes (show data.length < 256 ^ 4 by omega), List.length_cons]

/-- The checks of a visitor before a container. -/
def startChecked (m : Machine) (limit : UnpackLimit) (most unit size : Nat) (e : UnpackError)
    (depth : Nat) (v : Visitor) : Except UnpackError Visitor := do
  if most < size then throw e
  if limit.depth < depth + 1 then throw .depthSizeOverflow
  if size ≠ 0 then allocateAlign m (size * unit)
  pure v

theorem startChecked_starts {depth : Nat} {kind : Kind} {size : Nat} {e : UnpackError} {v : Visitor}
    (h : Starts m limit depth kind size) :
    startChecked m limit (kind.most limit) (kind.perItem * Visitor.sizeofObject) size e depth v =
      .ok v := by
  rw [startChecked, if_neg (Nat.not_lt.mpr h.le)]
  dsimp only
  rw [if_neg (Nat.not_lt.mpr h.depth)]
  by_cases hZero : size = 0
  · rw [if_neg (not_not_intro hZero)]
    rfl
  · rw [if_pos hZero, allocateAlign, if_pos (h.room hZero)]
    rfl

theorem startChecked_fails {depth : Nat} {kind : Kind} {size : Nat} {e : UnpackError} {v : Visitor}
    (h : ¬ Starts m limit depth kind size) (he : e ≠ .insufficientBytes) :
    ∃ e' ≠ .insufficientBytes, startChecked m limit (kind.most limit)
      (kind.perItem * Visitor.sizeofObject) size e depth v = .error e' := by
  rw [startChecked]
  by_cases hLe : kind.most limit < size
  · rw [if_pos hLe]
    exact ⟨_, he, rfl⟩
  rw [if_neg hLe]
  dsimp only
  by_cases hDepth : limit.depth < depth + 1
  · rw [if_pos hDepth]
    exact ⟨.depthSizeOverflow, by decide, rfl⟩
  rw [if_neg hDepth]
  by_cases hZero : size = 0
  · exact absurd ⟨Nat.le_of_not_lt hLe, Nat.le_of_not_lt hDepth, fun h => absurd hZero h⟩ h
  · have hRoom : ¬ m.room (size * (kind.perItem * Visitor.sizeofObject)) = true := fun hRoom =>
      h ⟨Nat.le_of_not_lt hLe, Nat.le_of_not_lt hDepth, fun _ => hRoom⟩
    rw [if_pos hZero, allocateAlign, if_neg hRoom]
    exact ⟨.badAlloc, by decide, rfl⟩

theorem start_eq (v : Visitor) (kind : Kind) (size : Nat) :
    v.start m limit size kind = startChecked m limit (kind.most limit)
      (kind.perItem * Visitor.sizeofObject) size kind.overflow v.stack.length
      ⟨.nil, ⟨kind, []⟩ :: v.stack⟩ := by
  cases kind with
  | array =>
    rw [Kind.perItem, Nat.one_mul]
    rfl
  | map => rfl

theorem turn_fix {kind : Kind} {size : Nat} (hSize : size < 16) (rest : List UInt8) :
    turn m limit (standing frames width current) (UInt8.ofNat (kind.fixCode + size) :: rest) =
      startAggregate m limit (standing frames width current) 1 kind size := by
  have hArray : ∀ size < 16, let byte := UInt8.ofNat (Kind.array.fixCode + size)
      ¬ byte ≤ 0x7f ∧ ¬ 0xe0 ≤ byte ∧ ¬ 0xc4 ≤ byte ∧ ¬ (0xa0 ≤ byte ∧ byte ≤ 0xbf) ∧
        (0x90 ≤ byte ∧ byte ≤ 0x9f) ∧ (byte &&& 0x0f).toNat = size := by decide
  have hMap : ∀ size < 16, let byte := UInt8.ofNat (Kind.map.fixCode + size)
      ¬ byte ≤ 0x7f ∧ ¬ 0xe0 ≤ byte ∧ ¬ 0xc4 ≤ byte ∧ ¬ (0xa0 ≤ byte ∧ byte ≤ 0xbf) ∧
        ¬ (0x90 ≤ byte ∧ byte ≤ 0x9f) ∧ (0x80 ≤ byte ∧ byte ≤ 0x8f) ∧
        (byte &&& 0x0f).toNat = size := by decide
  rw [turn, if_neg (by simp [standing])]
  cases kind with
  | array =>
    obtain ⟨h1, h2, h3, h4, h5, hValue⟩ := hArray size hSize
    rw [if_neg h1, if_neg h2, if_neg h3, if_neg h4, if_pos h5, hValue]
  | map =>
    obtain ⟨h1, h2, h3, h4, h5, h6, hValue⟩ := hMap size hSize
    rw [if_neg h1, if_neg h2, if_neg h3, if_neg h4, if_neg h5, if_pos h6, hValue]

/-- The index of the state behind `longCode` -/
theorem states_long (kind : Kind) {i : Nat} (hi : i < 2) : ∃ j < 28, kind.longCode + i = 0xc4 + j ∧
    trail.getD j 1 = 2 ^ (i + 1) ∧ ∀ c taken n, c.cs = states.getD j .header →
      switchCs m limit c taken n = startAggregate m limit c taken kind (load n) := by
  cases kind with
  | array =>
    obtain ⟨hState, hTrail⟩ := states_array i hi
    refine ⟨24 + i, by omega, ?_, hTrail, fun c taken n hCs => ?_⟩
    · rw [Kind.longCode]
      omega
    · rw [switchCs, hCs, hState]
  | map =>
    obtain ⟨hState, hTrail⟩ := states_map i hi
    refine ⟨26 + i, by omega, ?_, hTrail, fun c taken n hCs => ?_⟩
    · rw [Kind.longCode]
      omega
    · rw [switchCs, hCs, hState]

/-- The head of a container leads to `start_aggregate`. -/
theorem turn_head {kind : Kind} {n : Nat} {head : List UInt8}
    (hHead : Head m limit frames.length kind n head) : ∃ size, n = kind.perItem * size ∧
      Starts m limit frames.length kind size ∧ ∀ width current rest, ∃ c,
        c.stack = frames.map elem ∧ c.current = current ∧ c.visitor = ⟨.nil, frames.map block⟩ ∧
        turn m limit (standing frames width current) (head ++ rest) =
          startAggregate m limit c head.length kind size := by
  cases hHead with
  | @fix size hSize hStarts =>
    exact ⟨size, rfl, hStarts, fun width current rest =>
      ⟨standing frames width current, rfl, rfl, rfl, turn_fix hSize rest⟩⟩
  | @long size i hi hSize hStarts =>
    obtain ⟨j, hj, hCode, hTrail, hSwitch⟩ := @states_long m limit kind i hi
    refine ⟨size, rfl, hStarts, fun width current rest =>
      ⟨behind frames (states.getD j .header) (trail.getD j 1) current (trail_pos j), rfl, rfl, rfl, ?_⟩⟩
    have hLength : (beBytes (2 ^ (i + 1)) size).length = trail.getD j 1 := by
      rw [beBytes_length, hTrail]
    rw [List.cons_append, hCode, turn_state _ hj, trailing_eq hLength, hSwitch _ _ _ rfl,
      load_beBytes hSize, List.length_cons, hLength, Nat.add_comm]
    rfl

theorem perItem_pos (kind : Kind) : 0 < kind.perItem := by
  cases kind <;> decide

/-- A container without items is read by one turn. -/
theorem reads_empty {kind : Kind} {head : List UInt8} (hHead : Head m limit frames.length kind 0 head)
    (h : (format m limit).After (Reads m limit total ends) (Done total ends) frames
      (kind.object []) rest) : Reads m limit total ends frames (head ++ rest) := by
  obtain ⟨size, hZero, hStarts, hTurn⟩ := turn_head hHead
  obtain rfl : size = 0 := by
    have := Nat.mul_eq_zero.mp hZero.symm
    have := perItem_pos kind
    omega
  refine reads_visited (fun width current => ?_) h
  obtain ⟨c, hStack, hCurrent, hVisitor, hTurn⟩ := hTurn width current rest
  refine ⟨c, hStack, hCurrent, ?_⟩
  rw [hTurn, startAggregate, start_eq, hVisitor, startChecked_starts (by simpa using hStarts)]
  rfl

/-- After the head of any other container the loop stands in it. -/
theorem reads_node {kind : Kind} {missing : Nat} {head : List UInt8}
    (hHead : Head m limit frames.length kind (missing + 1) head)
    (h : Reads m limit total ends (⟨kind, missing + 1, []⟩ :: frames) rest) :
    Reads m limit total ends frames (head ++ rest) := by
  obtain ⟨size, hSize, hStarts, hTurn⟩ := turn_head hHead
  have hPos : size ≠ 0 := by
    rintro rfl
    omega
  intro hMissing hTotal width
  obtain ⟨c, hStack, hCurrent, hVisitor, hTurn⟩ := hTurn width (total - (head ++ rest).length) rest
  rw [List.length_append] at hTotal hCurrent
  rw [startAggregate, start_eq, hVisitor, startChecked_starts (by simpa using hStarts)] at hTurn
  dsimp only at hTurn
  rw [if_neg hPos, hStack] at hTurn
  have hElem : elem ⟨kind, missing + 1, []⟩ = ⟨kind.type, size⟩ := by
    rw [hSize]
    cases kind with
    | array => simp [elem, Kind.perItem, Kind.type]
    | map => simp [elem, Kind.perItem, Kind.type]
  obtain ⟨left, hEnds, hDrains⟩ :=
    h (List.forall_mem_cons.mpr ⟨Nat.succ_pos _, hMissing⟩) (by omega) c.trail
  rw [show total - rest.length = c.current + head.length by omega] at hDrains
  have hStanding : standing (⟨kind, missing + 1, []⟩ :: frames) c.trail (c.current + head.length) =
      ⟨.header, c.trail, c.current + head.length, ⟨kind.type, size⟩ :: frames.map elem,
        ⟨.nil, ⟨kind, []⟩ :: frames.map block⟩, .inl rfl⟩ := by
    rw [← hElem]
    rfl
  rw [hStanding] at hDrains
  have hDrop : (head ++ rest).drop head.length = rest := List.drop_left
  rw [← hDrop] at hDrains
  exact ⟨left, hEnds, .take hTurn hDrains⟩

theorem reader (m : Machine) (limit : UnpackLimit) (total : Nat)
    (ends : Rest Context UInt8 Result → Prop) :
    (format m limit).Reader (Reads m limit total ends) (Done total ends) where
  leaf := reads_leaf
  empty := reads_empty
  node := reads_node

end

end LogSocket.Unpack
