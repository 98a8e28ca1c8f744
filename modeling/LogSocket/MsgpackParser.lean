import LogSocket.Lib.Endian
import LogSocket.Lib.Transducer
import LogSocket.MsgpackLoader

/-! `msgpack::unpack` of the library that comes with the loader. `context::execute` goes over the
data in one loop and keeps the arrays and maps that it is in on a stack. What it finds it tells a
`create_object_visitor`, which builds the object and keeps a stack of its own. -/

namespace LogSocket.Unpack

open Lib

/-- `unpack_limit` -/
structure UnpackLimit where
  array : Nat := 0xffffffff
  map : Nat := 0xffffffff
  str : Nat := 0xffffffff
  bin : Nat := 0xffffffff
  ext : Nat := 0xffffffff
  depth : Nat := 0xffffffff

/-- Whether there is memory for a block of so many bytes, and the bits of the `double` that a `float`
with these bits is. -/
structure Machine where
  room : Nat → Bool
  toDouble : UInt32 → UInt64

/-- What `unpack` throws. A parser that is `hung` does not come back. -/
inductive UnpackError
  | parseError
  | insufficientBytes
  | arraySizeOverflow
  | mapSizeOverflow
  | strSizeOverflow
  | binSizeOverflow
  | extSizeOverflow
  | depthSizeOverflow
  | badAlloc
  | hung
  deriving DecidableEq

inductive Kind
  | array
  | map
  deriving DecidableEq

/-- `msgpack_container_type` -/
inductive ContainerType
  | arrayItem
  | mapKey
  | mapValue
  deriving DecidableEq

/-- `sv.type()` -/
def Kind.type : Kind → ContainerType
  | array => .arrayItem
  | map => .mapKey

/-- `unpack_stack::stack_elem` -/
structure StackElem where
  type : ContainerType
  rest : Nat
  deriving DecidableEq

/-- `msgpack_unpack_state`, with the size of the number or the data in bytes: `MSGPACK_CS_STR_16` is
`str 2`. -/
inductive Cs
  | header
  | bin (width : Nat)
  | ext (width : Nat)
  | float
  | double
  | uint (width : Nat)
  | int (width : Nat)
  | fixext (size : Nat)
  | str (width : Nat)
  | array (width : Nat)
  | map (width : Nat)
  | strValue
  | binValue
  | extValue
  deriving DecidableEq

/-- The memory of a container, up to where the visitor's pointer into it stands. -/
structure Block where
  kind : Kind
  front : List Object

/-- The keys and the values of a map in the order in which they lie in memory. -/
def pairs : List Object → List (Object × Object)
  | key :: val :: rest => (key, val) :: pairs rest
  | _ => []

def Kind.object : Kind → List Object → Object
  | array, items => .array items
  | map, items => .map (pairs items)

/-- `create_object_visitor`: the object that its last pointer points to, and the containers that the
other pointers point into, the innermost first. -/
structure Visitor where
  obj : Object
  stack : List Block

variable (m : Machine) (limit : UnpackLimit)

/-- `allocate_align` -/
def allocateAlign (size : Nat) : Except UnpackError Unit :=
  if m.room size then pure () else throw .badAlloc

namespace Visitor

def visitNil (v : Visitor) : Visitor := { v with obj := .nil }

def visitBoolean (v : Visitor) (value : Bool) : Visitor := { v with obj := .boolean value }

def visitPositiveInteger (v : Visitor) (value : Nat) : Visitor :=
  { v with obj := .positiveInteger (UInt64.ofNat value) }

def visitNegativeInteger (v : Visitor) (value : Int) : Visitor :=
  if 0 ≤ value then { v with obj := .positiveInteger (UInt64.ofNat value.toNat) }
  else { v with obj := .negativeInteger (Int64.ofInt value) }

def visitFloat32 (v : Visitor) (bits : Nat) : Visitor :=
  { v with obj := .float (m.toDouble (UInt32.ofNat bits)) }

def visitFloat64 (v : Visitor) (bits : Nat) : Visitor := { v with obj := .float (UInt64.ofNat bits) }

def visitStr (v : Visitor) (data : List UInt8) : Except UnpackError Visitor := do
  if limit.str < data.length then throw .strSizeOverflow
  allocateAlign m data.length
  pure { v with obj := .str data }

def visitBin (v : Visitor) (data : List UInt8) : Except UnpackError Visitor := do
  if limit.bin < data.length then throw .binSizeOverflow
  allocateAlign m data.length
  pure { v with obj := .bin data }

/-- The copy of an `ext`, whose size becomes `size - 1`. -/
def extObject : List UInt8 → Object
  | [] => .unwrittenExt
  | type :: bytes => .ext type bytes

/-- The data starts with the type. Its size comes as a `uint32_t`, which is 0 for the longest: that one
passes every limit, and nothing of it is copied. -/
def visitExt (v : Visitor) (data : List UInt8) : Except UnpackError Visitor := do
  let size := data.length % 2 ^ 32
  if limit.ext < size then throw .extSizeOverflow
  allocateAlign m size
  pure { v with obj := extObject (data.take size) }

/-- `sizeof(msgpack::object)` -/
def sizeofObject : Nat := 24

def startArray (v : Visitor) (numElements : Nat) : Except UnpackError Visitor := do
  if limit.array < numElements then throw .arraySizeOverflow
  if limit.depth < v.stack.length + 1 then throw .depthSizeOverflow
  if numElements ≠ 0 then allocateAlign m (numElements * sizeofObject)
  pure ⟨.nil, ⟨.array, []⟩ :: v.stack⟩

def startMap (v : Visitor) (numKvPairs : Nat) : Except UnpackError Visitor := do
  if limit.map < numKvPairs then throw .mapSizeOverflow
  if limit.depth < v.stack.length + 1 then throw .depthSizeOverflow
  if numKvPairs ≠ 0 then allocateAlign m (numKvPairs * (2 * sizeofObject))
  pure ⟨.nil, ⟨.map, []⟩ :: v.stack⟩

/-- `sv(size)` -/
def start (v : Visitor) (size : Nat) : Kind → Except UnpackError Visitor
  | .array => v.startArray m limit size
  | .map => v.startMap m limit size

/-- `end_array_item`, `end_map_key` and `end_map_value`: `++m_stack.back()`. The memory behind the
pointer is not initialized. -/
def endItem : Visitor → Visitor
  | ⟨obj, block :: stack⟩ => ⟨.nil, { block with front := block.front ++ [obj] } :: stack⟩
  | v => v

/-- `end_array` and `end_map`: `m_stack.pop_back()`. The last pointer now points to the container. -/
def endContainer : Visitor → Visitor
  | ⟨_, block :: stack⟩ => ⟨block.kind.object block.front, stack⟩
  | v => v

end Visitor

/-- `unpack_stack::consume`, with `PARSE_SUCCESS` on the left and `PARSE_CONTINUE` on the right. The
`start_` functions for items do nothing. -/
def consume : List StackElem → Visitor → Visitor ⊕ (List StackElem × Visitor)
  | [], v => .inl v
  | e :: stack, v =>
    match e.type with
    | .arrayItem =>
      if e.rest - 1 = 0 then consume stack v.endItem.endContainer
      else .inr ({ e with rest := e.rest - 1 } :: stack, v.endItem)
    | .mapKey => .inr ({ e with type := .mapValue } :: stack, v.endItem)
    | .mapValue =>
      if e.rest - 1 = 0 then consume stack v.endItem.endContainer
      else .inr (⟨.mapKey, e.rest - 1⟩ :: stack, v.endItem)

/-- `context`, with `m_current - m_start`. `m_trail` is set before it is looked at. -/
structure Context where
  cs : Cs
  trail : Nat
  current : Nat
  stack : List StackElem
  visitor : Visitor
  trail_pos : cs = .header ∨ 0 < trail

def Context.new : Context := ⟨.header, 0, 0, [], ⟨.nil, []⟩, .inl rfl⟩

abbrev Result := Except UnpackError (Object × Nat)

/-- What a turn of the loop does with the data from `m_current` on. `more` is `PARSE_CONTINUE`. -/
abbrev Turn := Step Context Empty Result

/-- `after_visit_proc`, which leaves `taken` bytes behind. -/
def afterVisitProc (c : Context) (taken : Nat) (v : Visitor) : Turn :=
  match consume c.stack v with
  | .inl v => .stop (.ok (v.obj, c.current + taken))
  | .inr (stack, v) =>
    .take taken none
      { c with cs := .header, current := c.current + taken, stack, visitor := v, trail_pos := .inl rfl }

/-- A call of the visitor that may throw, and `after_visit_proc`. -/
def visited (c : Context) (taken : Nat) : Except UnpackError Visitor → Turn
  | .error e => .stop (.error e)
  | .ok v => afterVisitProc c taken v

/-- `start_aggregate` -/
def startAggregate (c : Context) (taken : Nat) (kind : Kind) (size : Nat) : Turn :=
  match c.visitor.start m limit size kind with
  | .error e => .stop (.error e)
  | .ok v =>
    if size = 0 then afterVisitProc c taken v.endContainer
    else
      .take taken none { c with
        cs := .header, current := c.current + taken, stack := ⟨kind.type, size⟩ :: c.stack, visitor := v
        trail_pos := .inl rfl }

/-- `load`, of an unsigned number. -/
def load (n : List UInt8) : Nat := le n.reverse

/-- `load`, of a signed number. -/
def loadSigned (n : List UInt8) : Int :=
  if 2 * load n < 256 ^ n.length then load n else load n - 256 ^ n.length

/-- The cases of a size: what it is the size of follows, if there is any. `m_current` is left at the
last byte of the size, which the next turn skips. -/
def sized (c : Context) (taken : Nat) (value : Cs) (size : Nat)
    (visit : List UInt8 → Except UnpackError Visitor) : Turn :=
  if h : size = 0 then visited c taken (visit [])
  else
    .take (taken - 1) none { c with
      cs := value, trail := size, current := c.current + (taken - 1)
      trail_pos := .inr (Nat.pos_of_ne_zero h) }

/-- The cases of `m_cs`, with the bytes from `n` on. -/
def switchCs (c : Context) (taken : Nat) (n : List UInt8) : Turn :=
  match c.cs with
  | .float => afterVisitProc c taken (c.visitor.visitFloat32 m (load n))
  | .double => afterVisitProc c taken (c.visitor.visitFloat64 (load n))
  | .uint _ => afterVisitProc c taken (c.visitor.visitPositiveInteger (load n))
  | .int _ => afterVisitProc c taken (c.visitor.visitNegativeInteger (loadSigned n))
  | .fixext _ => visited c taken (c.visitor.visitExt m limit n)
  | .str _ => sized c taken .strValue (load n) (c.visitor.visitStr m limit)
  | .bin _ => sized c taken .binValue (load n) (c.visitor.visitBin m limit)
  | .ext _ => sized c taken .extValue (load n + 1) (c.visitor.visitExt m limit)
  | .strValue => visited c taken (c.visitor.visitStr m limit n)
  | .binValue => visited c taken (c.visitor.visitBin m limit n)
  | .extValue => visited c taken (c.visitor.visitExt m limit n)
  | .array _ => startAggregate m limit c taken .array (load n)
  | .map _ => startAggregate m limit c taken .map (load n)
  | .header => .stop (.error .parseError)

/-- The second part of a turn, `taken` bytes behind where it started. -/
def trailing (c : Context) (taken : Nat) (data : List UInt8) : Turn :=
  if data.length < c.trail then .more
  else switchCs m limit c (taken + c.trail) (data.take c.trail)

/-- The local table `trail`. -/
def trail : List Nat :=
  [1, 2, 4, 1, 2, 4, 4, 8, 1, 2, 4, 8, 1, 2, 4, 8, 2, 3, 5, 9, 17, 1, 2, 4, 2, 4, 2, 4]

/-- The states from `MSGPACK_CS_BIN_8` on, which is 4. -/
def states : List Cs :=
  [.bin 1, .bin 2, .bin 4, .ext 1, .ext 2, .ext 4, .float, .double, .uint 1, .uint 2, .uint 4, .uint 8,
    .int 1, .int 2, .int 4, .int 8, .fixext 1, .fixext 2, .fixext 4, .fixext 8, .fixext 16,
    .str 1, .str 2, .str 4, .array 2, .array 4, .map 2, .map 4]

def nextCs (selector : UInt8) : Cs := states.getD ((selector &&& 0x1f).toNat - 4) .header

def trailOf (selector : UInt8) : Nat := trail.getD (selector.toNat - 0xc4) 1

theorem trailOf_pos (selector : UInt8) : 0 < trailOf selector := by
  rw [trailOf, List.getD_eq_getElem?_getD]
  cases h : trail[selector.toNat - 0xc4]? with
  | none => exact Nat.one_pos
  | some n => exact (by decide : ∀ n ∈ trail, 0 < n) n (List.mem_of_getElem? h)

/-- A turn of the loop. Where `m_cs` is not the header, the turn before has set
`fixed_trail_again`. -/
def turn (c : Context) : List UInt8 → Turn
  | [] => .more
  | selector :: rest =>
    if c.cs ≠ .header then trailing m limit c 1 rest
    else if selector ≤ 0x7f then
      afterVisitProc c 1 (c.visitor.visitPositiveInteger selector.toNat)
    else if 0xe0 ≤ selector then
      afterVisitProc c 1 (c.visitor.visitNegativeInteger (loadSigned [selector]))
    else if 0xc4 ≤ selector then
      trailing m limit { c with
        cs := nextCs selector, trail := trailOf selector, trail_pos := .inr (trailOf_pos selector) } 1 rest
    else if 0xa0 ≤ selector ∧ selector ≤ 0xbf then
      if h : selector &&& 0x1f = 0 then visited c 1 (c.visitor.visitStr m limit [])
      else
        trailing m limit { c with
          cs := .strValue, trail := (selector &&& 0x1f).toNat
          trail_pos := .inr (Nat.pos_of_ne_zero fun hZero => h (UInt8.toNat_inj.mp hZero)) } 1 rest
    else if 0x90 ≤ selector ∧ selector ≤ 0x9f then
      startAggregate m limit c 1 .array (selector &&& 0x0f).toNat
    else if 0x80 ≤ selector ∧ selector ≤ 0x8f then
      startAggregate m limit c 1 .map (selector &&& 0x0f).toNat
    else if selector = 0xc2 then afterVisitProc c 1 (c.visitor.visitBoolean false)
    else if selector = 0xc3 then afterVisitProc c 1 (c.visitor.visitBoolean true)
    else if selector = 0xc0 then afterVisitProc c 1 c.visitor.visitNil
    else .stop (.error .parseError)

/-- `execute`, for at most `fuel` turns: where it waits, or what it ends with. -/
def execute : Nat → Context → List UInt8 → Option (Rest Context UInt8 Result)
  | 0, _, _ => none
  | fuel + 1, c, data =>
    match turn m limit c data with
    | .more => some (.inl (c, data))
    | .take n _ c => execute fuel c (data.drop n)
    | .stop result => some (.inr result)

/-- `unpack(data, len, off)`, where `off` is 0 before: the object and `off`. -/
def unpack (data : List UInt8) : Result :=
  match execute m limit (data.length + 1) .new data with
  | none => .error .hung
  | some (.inl _) => .error .insufficientBytes
  | some (.inr result) => result

/-! The loop as a decoder: what a turn takes, and that more data changes only a turn that waits. -/

variable {m limit} {c : Context} {data more : List UInt8} {taken low high : Nat}

/-- A turn that goes on takes so many bytes. -/
def Within (low high : Nat) (t : Turn) : Prop :=
  ∀ n out c, t = .take n out c → low ≤ n ∧ n ≤ high

theorem Within.stop (result : Result) : Within low high (.stop result) := by
  intro n out c h
  cases h

theorem Within.take (hLow : low ≤ taken) (hHigh : taken ≤ high) (c : Context) :
    Within low high (.take taken none c) := by
  intro n out c' h
  cases h
  exact ⟨hLow, hHigh⟩

theorem Within.weaken {low' high' : Nat} {t : Turn} (h : Within low high t) (hLow : low' ≤ low)
    (hHigh : high ≤ high') : Within low' high' t := by
  intro n out c hTake
  have hBoth := h n out c hTake
  omega

theorem Within.ite {p : Prop} [Decidable p] {t t' : Turn} (h : p → Within low high t)
    (h' : ¬ p → Within low high t') : Within low high (if p then t else t') := by
  by_cases hp : p
  · rw [if_pos hp]
    exact h hp
  · rw [if_neg hp]
    exact h' hp

theorem Within.dite {p : Prop} [Decidable p] {t : p → Turn} {t' : ¬ p → Turn}
    (h : ∀ hp, Within low high (t hp)) (h' : ∀ hp, Within low high (t' hp)) :
    Within low high (if hp : p then t hp else t' hp) := by
  by_cases hp : p
  · rw [dif_pos hp]
    exact h hp
  · rw [dif_neg hp]
    exact h' hp

theorem afterVisitProc_within (c : Context) (taken : Nat) (v : Visitor) :
    Within taken taken (afterVisitProc c taken v) := by
  rw [afterVisitProc]
  split
  · exact .stop _
  · exact .take (Nat.le_refl _) (Nat.le_refl _) _

theorem visited_within (c : Context) (taken : Nat) (v : Except UnpackError Visitor) :
    Within taken taken (visited c taken v) := by
  cases v with
  | error e => exact .stop _
  | ok v => exact afterVisitProc_within c taken v

theorem startAggregate_within (c : Context) (taken : Nat) (kind : Kind) (size : Nat) :
    Within taken taken (startAggregate m limit c taken kind size) := by
  rw [startAggregate]
  split
  · exact .stop _
  · split
    · exact afterVisitProc_within c taken _
    · exact .take (Nat.le_refl _) (Nat.le_refl _) _

theorem sized_within (c : Context) (taken : Nat) (value : Cs) (size : Nat)
    (visit : List UInt8 → Except UnpackError Visitor) :
    Within (taken - 1) taken (sized c taken value size visit) := by
  rw [sized]
  split
  · exact (visited_within c taken _).weaken (Nat.sub_le _ _) (Nat.le_refl _)
  · exact .take (Nat.le_refl _) (Nat.sub_le _ _) _

theorem trailing_within (hTrail : 0 < c.trail) :
    Within 1 (1 + data.length) (trailing m limit c 1 data) := by
  rw [trailing]
  split
  · intro n out c' h
    cases h
  next hEnough =>
    have hExact {t : Turn} (h : Within (1 + c.trail) (1 + c.trail) t) : Within 1 (1 + data.length) t :=
      h.weaken (by omega) (by omega)
    have hSized {t : Turn} (h : Within (1 + c.trail - 1) (1 + c.trail) t) :
        Within 1 (1 + data.length) t := h.weaken (by omega) (by omega)
    rw [switchCs]
    cases c.cs with
    | header => exact .stop _
    | float => exact hExact (afterVisitProc_within _ _ _)
    | double => exact hExact (afterVisitProc_within _ _ _)
    | uint => exact hExact (afterVisitProc_within _ _ _)
    | int => exact hExact (afterVisitProc_within _ _ _)
    | fixext => exact hExact (visited_within _ _ _)
    | str => exact hSized (sized_within _ _ _ _ _)
    | bin => exact hSized (sized_within _ _ _ _ _)
    | ext => exact hSized (sized_within _ _ _ _ _)
    | strValue => exact hExact (visited_within _ _ _)
    | binValue => exact hExact (visited_within _ _ _)
    | extValue => exact hExact (visited_within _ _ _)
    | array => exact hExact (startAggregate_within _ _ _ _)
    | map => exact hExact (startAggregate_within _ _ _ _)

theorem turn_within (c : Context) (selector : UInt8) (rest : List UInt8) :
    Within 1 (1 + rest.length) (turn m limit c (selector :: rest)) := by
  have hOne {t : Turn} (h : Within 1 1 t) : Within 1 (1 + rest.length) t :=
    h.weaken (Nat.le_refl _) (Nat.le_add_right _ _)
  rw [turn]
  refine Within.ite (fun hValue => trailing_within (c.trail_pos.resolve_left hValue)) fun _ => ?_
  refine Within.ite (fun _ => hOne (afterVisitProc_within _ _ _)) fun _ => ?_
  refine Within.ite (fun _ => hOne (afterVisitProc_within _ _ _)) fun _ => ?_
  refine Within.ite (fun _ => trailing_within ?_) fun _ => ?_
  · dsimp only
    exact trailOf_pos selector
  refine Within.ite (fun _ => Within.dite (fun _ => hOne (visited_within _ _ _)) fun hSize => ?_)
    fun _ => ?_
  · exact trailing_within (Nat.pos_of_ne_zero fun h => hSize (UInt8.toNat_inj.mp h))
  refine Within.ite (fun _ => hOne (startAggregate_within _ _ _ _)) fun _ => ?_
  refine Within.ite (fun _ => hOne (startAggregate_within _ _ _ _)) fun _ => ?_
  refine Within.ite (fun _ => hOne (afterVisitProc_within _ _ _)) fun _ => ?_
  refine Within.ite (fun _ => hOne (afterVisitProc_within _ _ _)) fun _ => ?_
  exact Within.ite (fun _ => hOne (afterVisitProc_within _ _ _)) fun _ => .stop _

theorem turn_productive : Productive (turn m limit) := by
  intro c data n out c' h
  cases data with
  | nil => cases h
  | cons selector rest =>
    have hBoth := turn_within c selector rest n out c' h
    rw [List.length_cons]
    omega

theorem trailing_append (h : trailing m limit c taken data ≠ .more) :
    trailing m limit c taken (data ++ more) = trailing m limit c taken data := by
  have hEnough : ¬ data.length < c.trail := by
    intro hShort
    rw [trailing, if_pos hShort] at h
    exact h rfl
  have hMore : ¬ (data ++ more).length < c.trail := by
    rw [List.length_append]
    omega
  rw [trailing, if_neg hMore, trailing, if_neg hEnough,
    List.take_append_of_le_length (Nat.le_of_not_lt hEnough)]

theorem turn_stable (cap : Nat) : Stable cap (turn m limit) := by
  intro c data more _ h
  cases data with
  | nil => exact absurd rfl h
  | cons selector rest =>
    rw [List.cons_append]
    rw [turn] at h ⊢
    rw [turn]
    by_cases hValue : c.cs ≠ .header
    · rw [if_pos hValue] at h ⊢
      rw [if_pos hValue, trailing_append h]
    rw [if_neg hValue] at h ⊢
    rw [if_neg hValue]
    by_cases hFixnum : selector ≤ 0x7f
    · rw [if_pos hFixnum, if_pos hFixnum]
    rw [if_neg hFixnum] at h ⊢
    rw [if_neg hFixnum]
    by_cases hNegative : 0xe0 ≤ selector
    · rw [if_pos hNegative, if_pos hNegative]
    rw [if_neg hNegative] at h ⊢
    rw [if_neg hNegative]
    by_cases hTrail : 0xc4 ≤ selector
    · rw [if_pos hTrail] at h ⊢
      rw [if_pos hTrail, trailing_append h]
    rw [if_neg hTrail] at h ⊢
    rw [if_neg hTrail]
    by_cases hStr : 0xa0 ≤ selector ∧ selector ≤ 0xbf
    · rw [if_pos hStr] at h ⊢
      rw [if_pos hStr]
      by_cases hSize : selector &&& 0x1f = 0
      · rw [dif_pos hSize, dif_pos hSize]
      · rw [dif_neg hSize] at h ⊢
        rw [dif_neg hSize, trailing_append h]
    · rw [if_neg hStr, if_neg hStr]

/-- With more turns than bytes, the loop comes to its end. -/
theorem execute_drains {fuel : Nat} (c : Context) (hFuel : data.length < fuel) :
    ∃ rest, execute m limit fuel c data = some rest ∧ Drains (turn m limit) c data [] rest := by
  induction fuel generalizing c data with
  | zero => exact absurd hFuel (Nat.not_lt_zero _)
  | succ fuel ih =>
    rw [execute]
    cases hTurn : turn m limit c data with
    | more => exact ⟨_, rfl, .wait hTurn⟩
    | stop result => exact ⟨_, rfl, .stop hTurn⟩
    | take n out c' =>
      obtain ⟨hPos, hLe⟩ := turn_productive c data n out c' hTurn
      have hLess : (data.drop n).length < fuel := by
        rw [List.length_drop]
        omega
      obtain ⟨rest, hExecute, hDrains⟩ := ih c' hLess
      have hTake := Drains.take hTurn hDrains
      cases out with
      | none => exact ⟨rest, hExecute, hTake⟩
      | some out => cases out

end LogSocket.Unpack
