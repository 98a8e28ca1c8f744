import LogSocket.Ahead

/-! The class descriptors of Java's grammar, and which of them `readProlog` reads to their end. It
takes the type string of a field for a further field, so the number of fields is used up before all
of them are read, and the loop that looks for the end skips what is left. -/

namespace LogSocket.Default

open Lib ByteBuf

inductive Primitive
  | byte
  | char
  | double
  | float
  | int
  | long
  | short
  | boolean
  deriving DecidableEq

def Primitive.code : Primitive → UInt8
  | .byte => 0x42
  | .char => 0x43
  | .double => 0x44
  | .float => 0x46
  | .int => 0x49
  | .long => 0x4A
  | .short => 0x53
  | .boolean => 0x5A

theorem Primitive.code_ne (primitive : Primitive) :
    primitive.code ≠ tcEndBlockData ∧ primitive.code ≠ tcReference := by
  cases primitive <;> decide

/-- A name of a class, a field or a type. -/
abbrev Name := { text : List UInt8 // text.length < 2 ^ 15 }

/-- The type of an object field, or the handle of a type that was written before. -/
inductive TypeString
  | string (text : Name)
  | reference (handle : { bytes : List UInt8 // bytes.length = 4 })

def TypeString.bytes : TypeString → List UInt8
  | .string text => tcString :: stringBytes text
  | .reference handle => tcReference :: handle

def TypeString.isReference : TypeString → Bool
  | .string _ => false
  | .reference _ => true

inductive ObjectKind
  | object
  | array
  deriving DecidableEq

def ObjectKind.code : ObjectKind → UInt8
  | .object => 0x4C
  | .array => 0x5B

theorem ObjectKind.code_ne (kind : ObjectKind) :
    kind.code ≠ tcEndBlockData ∧ kind.code ≠ tcReference := by
  cases kind <;> decide

structure ObjectField where
  kind : ObjectKind
  name : Name
  type : TypeString

def ObjectField.bytes (field : ObjectField) : List UInt8 :=
  field.kind.code :: (stringBytes field.name ++ field.type.bytes)

/-- A class descriptor without superclass and class annotation. -/
structure JavaDescriptor where
  name : Name
  serialVersion : { bytes : List UInt8 // bytes.length = 8 }
  flags : UInt8
  primitives : List (Primitive × Name)
  objects : List ObjectField
  fits : primitives.length + objects.length < 2 ^ 16

def JavaDescriptor.bytes (desc : JavaDescriptor) : List UInt8 :=
  tcClassDesc :: (stringBytes desc.name ++ (desc.serialVersion ++ desc.flags ::
    (beBytes 2 (desc.primitives.length + desc.objects.length) ++
      (desc.primitives.flatMap (fun field => field.1.code :: stringBytes field.2) ++
        (desc.objects.flatMap ObjectField.bytes ++ [tcEndBlockData, tcNull])))))

/-- What a descriptor has but for its names and handles: of an object field, its kind and whether its
type is a reference. -/
@[ext] structure Shape where
  primitives : List Primitive
  objects : List (ObjectKind × Bool)
  fits : primitives.length + objects.length < 2 ^ 16

def ObjectField.shape (field : ObjectField) : ObjectKind × Bool := (field.kind, field.type.isReference)

def JavaDescriptor.shape (desc : JavaDescriptor) : Shape where
  primitives := desc.primitives.map (·.1)
  objects := desc.objects.map ObjectField.shape
  fits := by simpa using desc.fits

/-- The type strings that are taken for fields are texts. No field at all is read where the number of
fields is negative as a `short`. -/
def Shape.CountsTexts (shape : Shape) : Prop :=
  shape.primitives.length + shape.objects.length < 2 ^ 15 →
    ∀ field ∈ shape.objects.take (shape.objects.length / 2), field.2 = false

/-- The names behind the fields that are read are not those of arrays or of primitive fields. -/
def Shape.LeavesObjects (shape : Shape) : Prop :=
  if shape.primitives.length + shape.objects.length < 2 ^ 15 then
    ∀ field ∈ shape.objects.drop ((shape.objects.length + 1) / 2), field.1 = .object
  else shape.primitives = [] ∧ ∀ field ∈ shape.objects, field.1 = .object

def Shape.Aligned (shape : Shape) : Prop := shape.CountsTexts ∧ shape.LeavesObjects

/-- `readProlog` consumes the descriptor, whatever follows it. -/
def JavaDescriptor.Consumed (desc : JavaDescriptor) : Prop :=
  ∀ (env : Env) (byteBuf : ByteBuf) (pos : UInt64) (rest classDesc : List UInt8) (fuel : Nat),
    byteBuf.Ahead pos (desc.bytes ++ rest) → byteBuf.bytes.length < fuel →
      ∃ value, readProlog env fuel byteBuf pos classDesc =
        .ok (value, UInt64.ofNat desc.bytes.length)

/-- What `readProlog` comes to behind the number of fields. -/
inductive Part
  | item (item : Item)
  | reference (handle : List UInt8)

namespace Part

def bytes : Part → List UInt8
  | .item entry => entry.bytes
  | .reference handle => tcReference :: handle

structure Short (entry : Item) : Prop where
  length : entry.2.length < 2 ^ 15
  code : entry.1 ≠ tcEndBlockData ∧ entry.1 ≠ tcReference

def WellFormed : Part → Prop
  | .item entry => Short entry
  | .reference handle => handle.length = 4

/-- It passes for a field. -/
def Counted : Part → Prop
  | .item _ => True
  | .reference _ => False

/-- The loop that looks for the end skips it. -/
def Skipped : Part → Prop
  | .item entry => entry.1 = 0x4C ∨ entry.1 = tcString
  | .reference _ => True

theorem length_le_flatMap (parts : List Part) : parts.length ≤ (parts.flatMap bytes).length := by
  induction parts with
  | nil => exact Nat.zero_le _
  | cons part parts ih =>
    have hPart : 1 ≤ part.bytes.length := by cases part <;> simp [bytes, Item.bytes]
    rw [List.flatMap_cons, List.length_append, List.length_cons]
    omega

/-- Parts that pass for fields are items. -/
theorem exists_items {parts : List Part} (hParts : ∀ part ∈ parts, part.WellFormed)
    (hCounted : ∀ part ∈ parts, part.Counted) : ∃ items : List Item,
      parts = items.map .item ∧ ∀ item ∈ items, item.2.length < 2 ^ 15 := by
  induction parts with
  | nil => exact ⟨[], rfl, nofun⟩
  | cons part parts ih =>
    rw [List.forall_mem_cons] at hParts hCounted
    obtain ⟨items, rfl, hItems⟩ := ih hParts.2 hCounted.2
    cases part with
    | item entry =>
      exact ⟨entry :: items, rfl, List.forall_mem_cons.mpr ⟨hParts.1.length, hItems⟩⟩
    | reference handle => exact hCounted.1.elim

end Part

section

variable {env : Env} {byteBuf : ByteBuf} {pos readPos : UInt64} {rest : List UInt8} {fuel : Nat}

theorem tagTurn_reference (env : Env) {handle : List UInt8} (hHandle : handle.length = 4)
    (h : byteBuf.Ahead (pos + readPos) (tcReference :: (handle ++ rest))) :
    ∃ readPos', tagTurn env byteBuf pos readPos = .ok (.inl readPos') ∧
      byteBuf.Ahead (pos + readPos') rest := by
  obtain ⟨hByte, h⟩ := readByte_ahead h
  have hFetch : byteBuf.fetch (pos + (readPos + 1)) 4 = .ok handle := by
    rw [← UInt64.add_assoc]
    exact h.fetch hHandle.symm
  refine ⟨readPos + 1 + 4, ?_, ?_⟩
  · rw [tagTurn, hByte, ok_bind]
    dsimp only
    rw [if_neg (by decide), if_pos rfl, readInt, hFetch]
    rfl
  · rw [← UInt64.add_assoc, ← UInt64.add_assoc]
    exact h.skip hHandle.symm

/-- Any other code ends the loop. -/
theorem tagTurn_other (env : Env) {code : UInt8} (hEnd : code ≠ tcEndBlockData ∧ code ≠ tcReference)
    (hCode : ¬(code = 0x4C ∨ code = tcString)) (h : byteBuf.Ahead (pos + readPos) (code :: rest)) :
    ∃ e, tagTurn env byteBuf pos readPos = .error e := by
  rw [tagTurn, (readByte_ahead h).1, ok_bind]
  dsimp only
  rw [if_neg hEnd.1, if_neg hEnd.2, if_neg hCode, Env.assert]
  split <;> exact ⟨_, rfl⟩

theorem tagTurn_part (env : Env) {part : Part} (hPart : part.WellFormed) (hSkipped : part.Skipped)
    (h : byteBuf.Ahead (pos + readPos) (part.bytes ++ rest)) :
    ∃ readPos', tagTurn env byteBuf pos readPos = .ok (.inl readPos') ∧
      byteBuf.Ahead (pos + readPos') rest := by
  cases part with
  | item entry => exact tagTurn_item env hPart.length hSkipped h
  | reference handle => exact tagTurn_reference env hPart h

theorem readTags_parts (env : Env) {parts : List Part} (hParts : ∀ part ∈ parts, part.WellFormed)
    (hSkipped : ∀ part ∈ parts, part.Skipped) (hFuel : parts.length < fuel)
    (h : byteBuf.Ahead (pos + readPos) (parts.flatMap Part.bytes ++ tcEndBlockData :: rest)) :
    ∃ readPos', readTags env fuel byteBuf pos readPos = .ok readPos' ∧
      byteBuf.Ahead (pos + readPos') rest := by
  induction parts generalizing readPos fuel with
  | nil =>
    obtain ⟨fuel, rfl⟩ := Nat.exists_eq_succ_of_ne_zero hFuel.ne'
    exact readTags_end env fuel h
  | cons part parts ih =>
    obtain ⟨fuel, rfl⟩ := Nat.exists_eq_succ_of_ne_zero (Nat.ne_zero_of_lt hFuel)
    rw [List.forall_mem_cons] at hParts hSkipped
    rw [List.flatMap_cons, List.append_assoc] at h
    obtain ⟨readPos', hTurn, hNext⟩ := tagTurn_part env hParts.1 hSkipped.1 h
    rw [readTags, loop_succ_of_next hTurn]
    exact ih hParts.2 hSkipped.2 (by simpa using hFuel) hNext

/-- The loop ends at the first part that it does not skip. -/
theorem readTags_left (env : Env) {parts : List Part} (hParts : ∀ part ∈ parts, part.WellFormed)
    (hLeft : ∃ part ∈ parts, ¬part.Skipped) (hFuel : parts.length < fuel)
    (h : byteBuf.Ahead (pos + readPos) (parts.flatMap Part.bytes ++ rest)) :
    ∃ e, readTags env fuel byteBuf pos readPos = .error e := by
  induction parts generalizing readPos fuel with
  | nil =>
    rcases hLeft with ⟨_, hMem, -⟩
    cases hMem
  | cons part parts ih =>
    obtain ⟨fuel, rfl⟩ := Nat.exists_eq_succ_of_ne_zero (Nat.ne_zero_of_lt hFuel)
    rw [List.forall_mem_cons] at hParts
    rw [List.flatMap_cons, List.append_assoc] at h
    by_cases hSkipped : part.Skipped
    · obtain ⟨readPos', hTurn, hNext⟩ := tagTurn_part env hParts.1 hSkipped h
      rw [readTags, loop_succ_of_next hTurn]
      refine ih hParts.2 ?_ (by simpa using hFuel) hNext
      rcases hLeft with ⟨part', hMem, hNot⟩
      obtain rfl | hMem := List.mem_cons.mp hMem
      · exact absurd hSkipped hNot
      · exact ⟨part', hMem, hNot⟩
    · cases part with
      | item entry =>
        obtain ⟨e, hTurn⟩ := tagTurn_other env hParts.1.code hSkipped h
        exact ⟨e, loop_succ_of_error hTurn fuel⟩
      | reference handle => exact absurd True.intro hSkipped

/-- Fields that are read in the middle of a name: its length leads back to where it is. -/
theorem readFields_stuck (more : Nat)
    (h : byteBuf.Ahead (pos + readPos) (0x00 :: 0xFF :: 0xFD :: rest)) :
    readFields byteBuf pos more readPos = .ok readPos := by
  induction more with
  | zero => rfl
  | succ more ih =>
    have hShort : readShort byteBuf (pos + (readPos + 1)) = .ok (-3, 2) := by
      have hFetch : byteBuf.fetch (pos + readPos + 1) 2 = .ok [0xFF, 0xFD] :=
        ((readByte_ahead h).2 : byteBuf.Ahead _ ([0xFF, 0xFD] ++ rest)).fetch rfl
      rw [readShort, ← UInt64.add_assoc, hFetch]
      rfl
    have hBack : readPos + 1 + 2 + extendShort (-3) = readPos := by
      rw [UInt64.add_assoc, UInt64.add_assoc, show 1 + (2 + extendShort (-3)) = 0 from rfl,
        UInt64.add_zero]
    rw [readFields]
    dsimp only
    rw [hShort, ok_bind]
    dsimp only
    rw [hBack]
    exact ih

end

def TypeString.part : TypeString → Part
  | .string text => .item (tcString, text)
  | .reference handle => .reference handle

def ObjectField.parts (field : ObjectField) : List Part :=
  [.item (field.kind.code, field.name), field.type.part]

/-- The number of fields, read as a `short`. -/
def Shape.counted (shape : Shape) : Nat :=
  if shape.primitives.length + shape.objects.length < 2 ^ 15 then
    shape.primitives.length + shape.objects.length
  else 0

theorem Shape.counted_eq (shape : Shape) :
    (Int16.ofNat ((shape.primitives.length + shape.objects.length) % 2 ^ 16)).toInt.toNat =
      shape.counted := by
  have hFits := shape.fits
  rw [counted]
  split
  next h => rw [shortToInt_ofNat h, Int.toNat_natCast]
  next h =>
    rw [Int16.toInt_ofNat', Int16.size, Int.bmod_def]
    omega

theorem ObjectField.parts_bytes (objects : List ObjectField) :
    (objects.flatMap parts).flatMap Part.bytes = objects.flatMap bytes := by
  rw [List.flatMap_assoc]
  refine List.flatMap_congr fun field _ => ?_
  rcases field with ⟨kind, name, text | handle⟩ <;>
    simp [parts, TypeString.part, Part.bytes, Item.bytes, bytes, TypeString.bytes]

theorem ObjectField.parts_wellFormed (field : ObjectField) :
    ∀ part ∈ field.parts, part.WellFormed := by
  refine List.forall_mem_cons.mpr ⟨⟨field.name.2, field.kind.code_ne⟩,
    List.forall_mem_singleton.mpr ?_⟩
  rcases field with ⟨kind, name, text | handle⟩
  · have hCode : tcString ≠ tcEndBlockData ∧ tcString ≠ tcReference := by decide
    exact ⟨text.2, hCode⟩
  · exact handle.2

theorem ObjectField.parts_length (objects : List ObjectField) :
    (objects.flatMap parts).length = 2 * objects.length := by
  induction objects with
  | nil => rfl
  | cons field objects ih =>
    rw [List.flatMap_cons, List.length_append, ih, parts, List.length_cons, List.length_singleton,
      List.length_cons]
    omega

/-- Names and types alternate, and names pass for fields: of the first `k` parts, every second one is
a type. -/
theorem ObjectField.counted_iff (objects : List ObjectField) (k : Nat) :
    (∀ part ∈ (objects.flatMap parts).take k, part.Counted) ↔
      ∀ field ∈ objects.take (k / 2), field.type.isReference = false := by
  induction objects generalizing k with
  | nil => simp
  | cons field objects ih =>
    have hType : field.type.part.Counted ↔ field.type.isReference = false := by
      rcases field with ⟨kind, name, text | handle⟩ <;>
        simp [TypeString.part, Part.Counted, TypeString.isReference]
    match k with
    | 0 => simp
    | 1 => simp [parts, Part.Counted]
    | k + 2 =>
      rw [show (k + 2) / 2 = k / 2 + 1 by omega, List.take_succ_cons, List.forall_mem_cons, ← ih k,
        ← hType]
      simp [parts, Part.Counted]

/-- Types are skipped: of the parts behind the first `k`, the names of arrays are not. -/
theorem ObjectField.skipped_iff (objects : List ObjectField) (k : Nat) :
    (∀ part ∈ (objects.flatMap parts).drop k, part.Skipped) ↔
      ∀ field ∈ objects.drop ((k + 1) / 2), field.kind = .object := by
  induction objects generalizing k with
  | nil => simp
  | cons field objects ih =>
    have hType : field.type.part.Skipped := by
      rcases field with ⟨kind, name, text | handle⟩
      · exact .inr rfl
      · exact True.intro
    have hName : (Part.item (field.kind.code, field.name)).Skipped ↔ field.kind = .object := by
      rcases field with ⟨_ | _, name, type⟩ <;> simp [Part.Skipped, ObjectKind.code, tcString]
    match k with
    | 0 =>
      have hRest := ih 0
      rw [List.drop_zero, List.drop_zero] at hRest ⊢
      rw [List.forall_mem_cons, ← hRest, ← hName]
      simp [parts, hType]
    | 1 =>
      have hRest := ih 0
      rw [List.drop_zero, List.drop_zero] at hRest
      rw [show (1 + 1) / 2 = 0 + 1 from rfl, List.drop_succ_cons, List.drop_zero, ← hRest]
      simp [parts, hType]
    | k + 2 =>
      rw [show (k + 2 + 1) / 2 = (k + 1) / 2 + 1 by omega, List.drop_succ_cons, ← ih k]
      simp [parts]

namespace JavaDescriptor

variable (desc : JavaDescriptor)

def parts : List Part :=
  desc.primitives.map (fun field => .item (field.1.code, field.2)) ++
    desc.objects.flatMap ObjectField.parts

theorem primitives_length :
    (desc.primitives.map fun field => Part.item (field.1.code, field.2)).length =
      desc.shape.primitives.length := by
  simp [shape]

theorem parts_wellFormed : ∀ part ∈ desc.parts, part.WellFormed := by
  intro part hPart
  obtain hPart | hPart := List.mem_append.mp hPart
  · obtain ⟨⟨primitive, name⟩, -, rfl⟩ := List.mem_map.mp hPart
    exact ⟨name.2, primitive.code_ne⟩
  · obtain ⟨field, -, hPart⟩ := List.mem_flatMap.mp hPart
    exact field.parts_wellFormed part hPart

theorem countsTexts_iff : desc.shape.CountsTexts ↔
    ∀ part ∈ desc.parts.take desc.shape.counted, part.Counted := by
  have hTake : ∀ k, (∀ field ∈ desc.shape.objects.take k, field.2 = false) ↔
      ∀ field ∈ desc.objects.take k, field.type.isReference = false := by
    intro k
    simp [shape, ← List.map_take, ObjectField.shape]
  rw [Shape.CountsTexts, Shape.counted, parts]
  split
  next hFits =>
    rw [imp_iff_right hFits, ← desc.primitives_length, List.take_length_add_append,
      List.forall_mem_append, hTake, ObjectField.counted_iff]
    refine (and_iff_right ?_).symm
    exact List.forall_mem_map.mpr fun _ _ => True.intro
  next hFits => exact iff_of_true (fun h => absurd h hFits) (by simp)

theorem leavesObjects_iff : desc.shape.LeavesObjects ↔
    ∀ part ∈ desc.parts.drop desc.shape.counted, part.Skipped := by
  have hDrop : ∀ k, (∀ field ∈ desc.shape.objects.drop k, field.1 = .object) ↔
      ∀ field ∈ desc.objects.drop k, field.kind = .object := by
    intro k
    simp [shape, ← List.map_drop, ObjectField.shape]
  rw [Shape.LeavesObjects, Shape.counted, parts]
  split
  · rw [← desc.primitives_length, List.drop_length_add_append, hDrop, ObjectField.skipped_iff]
  · have hAll := hDrop 0
    have hSkipped := ObjectField.skipped_iff desc.objects 0
    simp only [List.drop_zero, show (0 + 1) / 2 = 0 from rfl] at hAll hSkipped
    rw [List.drop_zero, List.forall_mem_append, hSkipped, hAll]
    refine and_congr_left' ?_
    cases hFields : desc.primitives with
    | nil => simp [shape, hFields]
    | cons field fields =>
      rcases field with ⟨primitive, name⟩
      cases primitive <;> simp [shape, hFields, Part.Skipped, Primitive.code, tcString]

theorem parts_bytes : desc.parts.flatMap Part.bytes =
    desc.primitives.flatMap (fun field => field.1.code :: stringBytes field.2) ++
      desc.objects.flatMap ObjectField.bytes := by
  rw [parts, List.flatMap_append, ObjectField.parts_bytes, List.flatMap_map]
  rfl

variable {desc} {env : Env} {byteBuf : ByteBuf} {pos : UInt64} {rest : List UInt8} {fuel : Nat}

theorem readProlog_parts (env : Env) (fuel : Nat) (classDesc : List UInt8)
    (h : byteBuf.Ahead pos (desc.bytes ++ rest)) :
    ∃ readPos, byteBuf.Ahead (pos + readPos)
        (desc.parts.flatMap Part.bytes ++ tcEndBlockData :: tcNull :: rest) ∧
      readProlog env fuel byteBuf pos classDesc =
        readBody env fuel byteBuf pos desc.shape.counted readPos := by
  have hCount := desc.shape.counted_eq
  simp only [shape, List.length_map] at hCount
  simp only [bytes, List.cons_append, List.append_assoc, List.nil_append] at h
  obtain ⟨readPos, h, hProlog⟩ :=
    readProlog_header env desc.name.2 desc.serialVersion.2 fuel classDesc h
  rw [hCount] at hProlog
  refine ⟨readPos, ?_, hProlog⟩
  rwa [parts_bytes, List.append_assoc]

/-- The parts that pass for fields are read. -/
theorem readFields_parts (hCounted : ∀ part ∈ desc.parts.take desc.shape.counted, part.Counted)
    {readPos : UInt64} (h : byteBuf.Ahead (pos + readPos) (desc.parts.flatMap Part.bytes ++ rest)) :
    ∃ readPos', readFields byteBuf pos desc.shape.counted readPos = .ok readPos' ∧
      byteBuf.Ahead (pos + readPos')
        ((desc.parts.drop desc.shape.counted).flatMap Part.bytes ++ rest) := by
  have hEnough : desc.shape.counted ≤ desc.parts.length := by
    rw [Shape.counted]
    simp only [shape, parts, List.length_map, List.length_append, ObjectField.parts_length]
    split <;> omega
  obtain ⟨items, hItems, hShort⟩ := Part.exists_items
    (fun part hPart => desc.parts_wellFormed part (List.mem_of_mem_take hPart)) hCounted
  have hLength : items.length = desc.shape.counted := by
    rw [← List.length_map (f := Part.item), ← hItems, List.length_take_of_le hEnough]
  rw [← List.take_append_drop desc.shape.counted desc.parts, hItems, List.flatMap_append,
    List.flatMap_map, List.append_assoc] at h
  have hRead := readFields_ahead hShort h
  rwa [hLength] at hRead

theorem consumed_of_aligned (h : desc.shape.Aligned) : desc.Consumed := by
  intro env byteBuf pos rest classDesc fuel hAhead hFuel
  have hCounted := desc.countsTexts_iff.mp h.1
  have hSkipped := desc.leavesObjects_iff.mp h.2
  obtain ⟨readPos, hParts, hProlog⟩ := readProlog_parts env fuel classDesc hAhead
  obtain ⟨readPos', hFields, hLeft⟩ := readFields_parts hCounted hParts
  have hLength := hLeft.length
  have hLe := Part.length_le_flatMap (desc.parts.drop desc.shape.counted)
  rw [List.length_append] at hLength
  obtain ⟨readPos'', hTags, hNull⟩ := readTags_parts env
    (fun part hPart => desc.parts_wellFormed part (List.mem_of_mem_drop hPart)) hSkipped
    (show (desc.parts.drop desc.shape.counted).length < fuel by omega) hLeft
  obtain ⟨size, hRead, hRest⟩ := readBody_ok hFields hTags hNull
  -- What is ahead before and after says how much was read.
  have hBefore := hAhead.length
  have hAfter := hRest.length
  have hBound := byteBuf.size_le
  unfold maxSize at hBound
  rw [List.length_append] at hBefore
  have hSize : size = UInt64.ofNat desc.bytes.length := by
    have hSum := UInt64.toNat_add pos size
    have hLt := size.toNat_lt
    rw [← UInt64.toNat_inj, UInt64.toNat_ofNat']
    omega
  exact ⟨_, by rw [hProlog, hRead, hSize]⟩

/-- A part that is left ends the loop. -/
theorem readProlog_left (hCounts : desc.shape.CountsTexts) (hLeaves : ¬desc.shape.LeavesObjects)
    (env : Env) (classDesc : List UInt8) (h : byteBuf.Ahead pos (desc.bytes ++ rest))
    (hFuel : byteBuf.bytes.length < fuel) :
    ∃ e, readProlog env fuel byteBuf pos classDesc = .error e := by
  have hLeft : ∃ part ∈ desc.parts.drop desc.shape.counted, ¬part.Skipped := by
    simpa using mt desc.leavesObjects_iff.mpr hLeaves
  obtain ⟨readPos, hParts, hProlog⟩ := readProlog_parts env fuel classDesc h
  obtain ⟨readPos', hFields, hAhead⟩ := readFields_parts (desc.countsTexts_iff.mp hCounts) hParts
  have hLength := hAhead.length
  have hLe := Part.length_le_flatMap (desc.parts.drop desc.shape.counted)
  rw [List.length_append] at hLength
  obtain ⟨e, hTags⟩ := readTags_left env
    (fun part hPart => desc.parts_wellFormed part (List.mem_of_mem_drop hPart)) hLeft
    (show (desc.parts.drop desc.shape.counted).length < fuel by omega) hAhead
  exact ⟨e, by rw [hProlog, readBody, hFields, ok_bind, hTags, error_bind]⟩

theorem bytes_length_le (desc : JavaDescriptor) : desc.bytes.length ≤ maxSize := by
  have hPart (part : Part) (h : part.WellFormed) : part.bytes.length ≤ 2 ^ 16 := by
    cases part with
    | item entry =>
      have hLength := h.length
      simp only [Part.bytes, Item.bytes, stringBytes, List.length_cons, List.length_append,
        beBytes_length]
      omega
    | reference handle =>
      have hLength : handle.length = 4 := h
      simp [Part.bytes, hLength]
  have hAll (parts : List Part) (h : ∀ part ∈ parts, part.WellFormed) :
      (parts.flatMap Part.bytes).length ≤ 2 ^ 16 * parts.length := by
    induction parts with
    | nil => simp
    | cons part parts ih =>
      rw [List.forall_mem_cons] at h
      have hHead := hPart part h.1
      have hTail := ih h.2
      rw [List.flatMap_cons, List.length_append, List.length_cons]
      omega
  have hParts := hAll desc.parts desc.parts_wellFormed
  have hLength : desc.parts.length = desc.primitives.length + 2 * desc.objects.length := by
    rw [parts, List.length_append, List.length_map, ObjectField.parts_length]
  have hFits := desc.fits
  have hName := desc.name.2
  have hSerial := desc.serialVersion.2
  rw [parts_bytes, List.length_append] at hParts
  simp only [bytes, stringBytes, List.length_cons, List.length_append, List.length_nil,
    beBytes_length] at hParts ⊢
  unfold maxSize
  omega

/-- A descriptor and nothing else. -/
def buffer (desc : JavaDescriptor) : ByteBuf := ⟨desc.bytes, desc.bytes_length_le⟩

theorem buffer_ahead (desc : JavaDescriptor) : desc.buffer.Ahead 0 (desc.bytes ++ []) := by
  rw [List.append_nil]
  exact Ahead.start desc.buffer

theorem Consumed.ne_error (h : desc.Consumed) {e : Fail} (hFuel : desc.bytes.length < fuel) :
    readProlog .release fuel desc.buffer 0 [] ≠ .error e := by
  intro hError
  obtain ⟨value, hOk⟩ := h .release desc.buffer 0 [] [] fuel desc.buffer_ahead hFuel
  rw [hOk] at hError
  cases hError

end JavaDescriptor

def Name.empty : Name := ⟨[], by decide⟩

/-- A field without a name. -/
def ObjectField.plain (field : ObjectKind × Bool) : ObjectField where
  kind := field.1
  name := .empty
  type := if field.2 then .reference ⟨[0, 0, 0, 0], rfl⟩ else .string .empty

theorem ObjectField.plain_shape (field : ObjectKind × Bool) : (plain field).shape = field := by
  rcases field with ⟨kind, _ | _⟩ <;> rfl

/-- A reference whose first bytes are a length of five leads into the name of the next field, where
the reader stays. -/
theorem ObjectField.exists_stuck (objects : List (ObjectKind × Bool)) (k : Nat)
    (hk : k ≤ objects.length) (hReference : ∃ field ∈ objects.take (k / 2), field.2 = true) :
    ∃ fields : List ObjectField, fields.map shape = objects ∧
      ∀ {byteBuf : ByteBuf} {pos readPos : UInt64} {rest : List UInt8},
        byteBuf.Ahead (pos + readPos) (fields.flatMap bytes ++ rest) →
          ∃ readPos' rest', readFields byteBuf pos k readPos = .ok readPos' ∧
            byteBuf.Ahead (pos + readPos') (0x00 :: rest') := by
  induction objects generalizing k with
  | nil => simp at hReference
  | cons field objects ih =>
    obtain ⟨k, rfl⟩ : ∃ n, k = n + 2 := by
      refine ⟨k - 2, ?_⟩
      by_contra hne
      rw [show k / 2 = 0 by omega, List.take_zero] at hReference
      simp at hReference
    rw [show (k + 2) / 2 = k / 2 + 1 by omega, List.take_succ_cons] at hReference
    rw [List.length_cons] at hk
    rcases field with ⟨kind, _ | _⟩
    · -- A type that is a text is taken for a field, and nothing is lost.
      obtain ⟨fields, hShape, hStuck⟩ := ih k (by omega) (by simpa using hReference)
      refine ⟨plain (kind, false) :: fields, by rw [List.map_cons, hShape, plain_shape], ?_⟩
      intro byteBuf pos readPos rest h
      have hItems : byteBuf.Ahead (pos + readPos)
          ([(kind.code, []), (tcString, [])].flatMap Item.bytes ++
            (fields.flatMap bytes ++ rest)) := by
        simpa [plain, bytes, TypeString.bytes, Item.bytes, Name.empty] using h
      obtain ⟨readPos', hAhead, hRead⟩ := readFields_items (by simp) hItems
      obtain ⟨readPos'', rest', hFields, hRest⟩ := hStuck hAhead
      refine ⟨readPos'', rest', ?_, hRest⟩
      rw [Nat.add_comm k 2, ← hFields]
      exact hRead k
    · cases objects with
      | nil => simp at hk
      | cons next objects =>
        let stuck : ObjectField :=
          { plain next with name := ⟨[0x00, 0xFF, 0xFD], by decide⟩ }
        refine ⟨{ plain (kind, true) with type := .reference ⟨[0, 5, 0, 0], rfl⟩ } :: stuck ::
          objects.map plain, ?_, ?_⟩
        · have hNext : stuck.shape = next := plain_shape next
          have hPlain : (objects.map plain).map shape = objects := by
            rw [List.map_map]
            exact List.map_id'' plain_shape objects
          rw [List.map_cons, List.map_cons, hNext, hPlain]
          rfl
        · intro byteBuf pos readPos rest h
          have hFive : beBytes 2 5 = [0, 5] := rfl
          have hText : stringBytes [0, 0, next.1.code, 0, 3] = [0, 5, 0, 0, next.1.code, 0, 3] := by
            simp [stringBytes, hFive]
          have hName : stringBytes [0x00, 0xFF, 0xFD] = [0, 3, 0x00, 0xFF, 0xFD] := rfl
          have hItems : byteBuf.Ahead (pos + readPos)
              ([(kind.code, []), (tcReference, [0, 0, next.1.code, 0, 3])].flatMap Item.bytes ++
                0x00 :: 0xFF :: 0xFD ::
                  (stuck.type.bytes ++ ((objects.map plain).flatMap bytes ++ rest))) := by
            simpa [plain, bytes, TypeString.bytes, Item.bytes, Name.empty, stuck, hText, hName]
              using h
          obtain ⟨readPos', hAhead, hRead⟩ := readFields_items (by simp) hItems
          refine ⟨readPos', _, ?_, hAhead⟩
          rw [Nat.add_comm k 2, ← readFields_stuck k hAhead]
          exact hRead k

/-- A descriptor of a shape, with given object fields and without names. -/
def Shape.desc (shape : Shape) (fields : List ObjectField)
    (h : fields.map ObjectField.shape = shape.objects) : JavaDescriptor where
  name := .empty
  serialVersion := ⟨List.replicate 8 0, rfl⟩
  flags := 2
  primitives := shape.primitives.map fun primitive => (primitive, .empty)
  objects := fields
  fits := by
    have hFits := shape.fits
    rw [← h] at hFits
    simpa using hFits

@[simp] theorem Shape.desc_shape (shape : Shape) (fields : List ObjectField)
    (h : fields.map ObjectField.shape = shape.objects) : (shape.desc fields h).shape = shape := by
  have hPrimitives :
      (shape.primitives.map fun primitive => (primitive, Name.empty)).map (·.1) =
        shape.primitives := by
    rw [List.map_map]
    exact List.map_id _
  exact Shape.ext hPrimitives h

/-- Where a reference is taken for a field, some descriptor of the shape is not consumed. -/
theorem Shape.exists_not_consumed (shape : Shape) (h : ¬shape.CountsTexts) :
    ∃ desc : JavaDescriptor, desc.shape = shape ∧ ¬desc.Consumed := by
  simp only [CountsTexts, Classical.not_imp, not_forall, Bool.not_eq_false] at h
  obtain ⟨hFits, hReference⟩ := h
  obtain ⟨fields, hShape, hStuck⟩ :=
    ObjectField.exists_stuck shape.objects shape.objects.length le_rfl hReference
  refine ⟨shape.desc fields hShape, shape.desc_shape fields hShape, fun hConsumed => ?_⟩
  obtain ⟨readPos, hAhead, hProlog⟩ := JavaDescriptor.readProlog_parts .release
    ((shape.desc fields hShape).bytes.length + 1) [] (shape.desc fields hShape).buffer_ahead
  have hPrimitives : (shape.desc fields hShape).primitives.flatMap
      (fun field => field.1.code :: stringBytes field.2) =
        (shape.primitives.map fun primitive => (primitive.code, [])).flatMap Item.bytes := by
    rw [List.flatMap_map, Shape.desc, List.flatMap_map]
    rfl
  rw [JavaDescriptor.parts_bytes, hPrimitives, List.append_assoc] at hAhead
  obtain ⟨readPos', hObjects, hRead⟩ := readFields_items (by simp) hAhead
  obtain ⟨readPos'', rest, hFields, hZero⟩ := hStuck hObjects
  obtain ⟨e, hTurn⟩ := tagTurn_other .release (by decide) (by decide) hZero
  have hTags : readTags .release ((shape.desc fields hShape).bytes.length + 1)
      (shape.desc fields hShape).buffer 0 readPos'' = .error e := loop_succ_of_error hTurn _
  have hCount := hRead shape.objects.length
  rw [List.length_map, hFields] at hCount
  refine hConsumed.ne_error (e := e) (Nat.lt_succ_self _) ?_
  rw [hProlog, Shape.desc_shape, Shape.counted, if_pos hFits, readBody, hCount, ok_bind, hTags,
    error_bind]

/-- The descriptors of a shape are all consumed exactly if no reference is taken for a field and only
names of object fields are left. -/
theorem JavaDescriptor.consumed_iff (shape : Shape) :
    (∀ desc : JavaDescriptor, desc.shape = shape → desc.Consumed) ↔ shape.Aligned := by
  constructor
  · intro hAll
    by_contra hNot
    by_cases hCounts : shape.CountsTexts
    · have hPlain : (shape.objects.map ObjectField.plain).map ObjectField.shape = shape.objects := by
        rw [List.map_map]
        exact List.map_id'' ObjectField.plain_shape shape.objects
      have hShape := shape.desc_shape _ hPlain
      obtain ⟨e, hError⟩ := readProlog_left (by rwa [hShape])
        (by rw [hShape]; exact fun hLeaves => hNot ⟨hCounts, hLeaves⟩) .release []
        (shape.desc _ hPlain).buffer_ahead (Nat.lt_succ_self _)
      exact (hAll _ hShape).ne_error (Nat.lt_succ_self _) hError
    · obtain ⟨desc, hShape, hConsumed⟩ := shape.exists_not_consumed hCounts
      exact hConsumed (hAll desc hShape)
  · rintro hAligned desc rfl
    exact consumed_of_aligned hAligned

/-- A class with two fields of one type, which was written before. -/
def sharedType : JavaDescriptor where
  name := ⟨[0x41], by decide⟩
  serialVersion := ⟨List.replicate 8 0, rfl⟩
  flags := 2
  primitives := []
  objects := [
    ⟨.object, ⟨[0x61], by decide⟩, .reference ⟨[0x00, 0x7E, 0x00, 0x01], rfl⟩⟩,
    ⟨.object, ⟨[0x62], by decide⟩, .reference ⟨[0x00, 0x7E, 0x00, 0x01], rfl⟩⟩]
  fits := by decide

/-- The first handle is taken for the length of a name. -/
theorem JavaDescriptor.not_consumed : ¬∀ desc : JavaDescriptor, desc.Consumed := by
  intro hAll
  refine (hAll sharedType).ne_error (e := .small .small) (Nat.lt_succ_self _) ?_
  decide

end LogSocket.Default
