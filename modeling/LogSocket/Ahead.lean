import LogSocket.Fuel

/-! Reading bytes that are known. `Ahead byteBuf pos bytes` says which bytes the buffer has from `pos`
on; `Reads` that a reader returns a value there and which bytes are then ahead. -/

namespace LogSocket

open Lib

namespace ByteBuf

/-- `bytes` are the bytes of the buffer from `pos` on. -/
def Ahead (byteBuf : ByteBuf) (pos : UInt64) (bytes : List UInt8) : Prop :=
  pos.toNat ≤ byteBuf.bytes.length ∧ byteBuf.bytes.drop pos.toNat = bytes

theorem Ahead.start (byteBuf : ByteBuf) : byteBuf.Ahead 0 byteBuf.bytes :=
  ⟨Nat.zero_le _, rfl⟩

variable {byteBuf : ByteBuf} {pos size : UInt64} {bytes rest : List UInt8}

theorem Ahead.length (h : byteBuf.Ahead pos bytes) :
    pos.toNat + bytes.length = byteBuf.bytes.length := by
  rw [← h.2, List.length_drop]
  have := h.1
  omega

theorem Ahead.add_toNat (h : byteBuf.Ahead pos (bytes ++ rest)) (hSize : size.toNat = bytes.length) :
    (pos + size).toNat = pos.toNat + bytes.length := by
  have hLength := h.length
  have hLe := byteBuf.size_le
  unfold maxSize at hLe
  rw [List.length_append] at hLength
  rw [UInt64.toNat_add]
  omega

/-- The bytes behind those that are skipped are then ahead. -/
theorem Ahead.skip (h : byteBuf.Ahead pos (bytes ++ rest)) (hSize : size.toNat = bytes.length) :
    byteBuf.Ahead (pos + size) rest := by
  have hLength := h.length
  rw [List.length_append] at hLength
  refine ⟨by rw [h.add_toNat hSize]; omega, ?_⟩
  rw [h.add_toNat hSize, ← List.drop_drop, h.2, List.drop_left]

theorem Ahead.fetch (h : byteBuf.Ahead pos (bytes ++ rest)) (hSize : size.toNat = bytes.length) :
    byteBuf.fetch pos size = .ok bytes := by
  have hLength := h.length
  rw [List.length_append] at hLength
  rw [fetch_ok (by omega), h.2, hSize, List.take_left]

end ByteBuf

open ByteBuf

/-- A reader at `pos` returns `value` and leaves `rest` ahead. -/
def Reads {α : Type} (byteBuf : ByteBuf) (pos : UInt64) (x : Except Fail (α × UInt64)) (value : α)
    (rest : List UInt8) : Prop :=
  ∃ size, x = .ok (value, size) ∧ byteBuf.Ahead (pos + size) rest

@[simp] theorem Env.assert_true (env : Env) : env.assert true = .ok () := by
  rw [Env.assert, Bool.not_true, Bool.and_false]
  rfl

theorem Env.alloc_of_le (env : Env) {limit : Nat} (hAlloc : limit ≤ env.allocLimit)
    (hLimit : limit ≤ maxSize) {n : UInt64} (h : n.toNat ≤ limit) : env.alloc n = .ok () :=
  if_neg (by omega)

theorem Env.alloc_ok (env : Env) (hAlloc : 65536 ≤ env.allocLimit) {n : UInt64}
    (h : n.toNat ≤ 65536) : env.alloc n = .ok () :=
  env.alloc_of_le hAlloc (by decide) h

variable {env : Env} {byteBuf : ByteBuf} {pos : UInt64} {rest : List UInt8}

namespace Default

theorem readByte_ahead {value : UInt8} (h : byteBuf.Ahead pos (value :: rest)) :
    readByte byteBuf pos = .ok (value, 1) ∧ byteBuf.Ahead (pos + 1) rest := by
  have hBytes : byteBuf.Ahead pos ([value] ++ rest) := h
  have hFetch : byteBuf.fetch pos 1 = .ok [value] := hBytes.fetch rfl
  refine ⟨?_, hBytes.skip rfl⟩
  rw [readByte, hFetch]
  rfl

theorem readShort_ahead {n : Nat} (h : byteBuf.Ahead pos (beBytes 2 n ++ rest)) :
    readShort byteBuf pos = .ok (Int16.ofNat (n % 2 ^ 16), 2) ∧ byteBuf.Ahead (pos + 2) rest := by
  have hFetch : byteBuf.fetch pos 2 = .ok (beBytes 2 n) := h.fetch (beBytes_length 2 n).symm
  refine ⟨?_, h.skip (beBytes_length 2 n).symm⟩
  rw [readShort, hFetch]
  change Except.ok (loadShort (beBytes 2 n).reverse, (2 : UInt64)) = _
  rw [loadShort, beBytes, List.reverse_reverse, le_leBytes, show 256 ^ 2 = 2 ^ 16 from rfl]

theorem readInt_ahead {value : Int32} (h : byteBuf.Ahead pos (intChars value ++ rest)) :
    readInt byteBuf pos = .ok (value, 4) ∧ byteBuf.Ahead (pos + 4) rest := by
  have hFetch : byteBuf.fetch pos 4 = .ok (intChars value) := h.fetch rfl
  refine ⟨?_, h.skip rfl⟩
  rw [readInt, hFetch]
  change Except.ok (swapInt (loadInt (intChars value)), (4 : UInt64)) = _
  rw [swapInt_loadInt rfl, loadInt_reverse_intChars]

theorem readLong_ahead {value : Int64} (h : byteBuf.Ahead pos (longChars value ++ rest)) :
    readLong byteBuf pos = .ok (value, 8) ∧ byteBuf.Ahead (pos + 8) rest := by
  have hFetch : byteBuf.fetch pos 8 = .ok (longChars value) := h.fetch rfl
  refine ⟨?_, h.skip rfl⟩
  rw [readLong, hFetch]
  change Except.ok (swapLong (loadLong (longChars value)), (8 : UInt64)) = _
  rw [swapLong_loadLong rfl, loadLong_reverse_longChars]

/-- A string on the wire, without its tag. -/
def stringBytes (data : List UInt8) : List UInt8 := beBytes 2 data.length ++ data

theorem readTypeClass_ahead {tag : UInt8} (what : Message) (h : byteBuf.Ahead pos (tag :: rest)) :
    readTypeClass tag what byteBuf pos false = .ok 1 := by
  unfold readTypeClass
  rw [if_neg Bool.false_ne_true, (readByte_ahead h).1]
  dsimp only [ok_bind]
  rw [beq_self_eq_true]
  rfl

/-- Where a tag is read, the string behind it is read. -/
theorem readString_tag (h : byteBuf.Ahead pos (tcString :: rest)) :
    readString env byteBuf pos false =
      readString env byteBuf (pos + 1) true >>= fun r => .ok (r.1, 1 + r.2) := by
  unfold readString
  rw [readTypeClass_ahead _ h, readTypeClass_skip]
  simp only [ok_bind, bind_assoc, UInt64.add_zero, UInt64.zero_add, UInt64.add_assoc]
  rfl

section

variable (hAlloc : 65536 ≤ env.allocLimit) {data : List UInt8} (hData : data.length < 65536)
include hAlloc hData

theorem readString_skip_ahead (h : byteBuf.Ahead pos (stringBytes data ++ rest)) :
    Reads byteBuf pos (readString env byteBuf pos true) data rest := by
  have hLength : (UInt64.ofNat data.length).toNat = data.length := by
    rw [UInt64.toNat_ofNat', Nat.mod_eq_of_lt (by omega)]
  rw [stringBytes, List.append_assoc] at h
  have hHead : byteBuf.fetch pos 2 = .ok (beBytes 2 data.length) :=
    h.fetch (beBytes_length 2 _).symm
  have hRest : byteBuf.Ahead (pos + 2) (data ++ rest) := h.skip (beBytes_length 2 _).symm
  refine ⟨2 + UInt64.ofNat data.length, ?_, ?_⟩
  · have hLe : le (beBytes 2 data.length).reverse = data.length :=
      le_reverse_beBytes (by omega)
    have hRoom := env.alloc_ok hAlloc (show (UInt64.ofNat data.length).toNat ≤ 65536 by omega)
    rw [readString, readTypeClass_skip, ok_bind, UInt64.add_zero, hHead, ok_bind, hLe]
    dsimp only
    rw [hRoom, ok_bind, UInt64.zero_add, hRest.fetch hLength]
    rfl
  · rw [← UInt64.add_assoc]
    exact hRest.skip hLength

theorem readString_ahead (h : byteBuf.Ahead pos (tcString :: (stringBytes data ++ rest))) :
    Reads byteBuf pos (readString env byteBuf pos false) data rest := by
  obtain ⟨size, hRead, hRest⟩ := readString_skip_ahead hAlloc hData (readByte_ahead h).2
  refine ⟨1 + size, ?_, ?_⟩
  · rw [readString_tag h, hRead, ok_bind]
  · rw [← UInt64.add_assoc]
    exact hRest

theorem readLogString_ahead (h : byteBuf.Ahead pos (tcString :: (stringBytes data ++ rest))) :
    Reads byteBuf pos (readLogString env byteBuf pos false) data rest :=
  readString_ahead hAlloc hData h

/-- A text is read up to its first NUL. -/
theorem readUTFString_cString (h : byteBuf.Ahead pos (tcString :: (stringBytes data ++ rest))) :
    Reads byteBuf pos (readUTFString env byteBuf pos false) (cString data) rest := by
  obtain ⟨size, hRead, hRest⟩ := readString_ahead hAlloc hData h
  refine ⟨size, ?_, hRest⟩
  have hRoom := env.alloc_ok hAlloc (show (UInt64.ofNat (data.length + 1)).toNat ≤ 65536 by
    rw [UInt64.toNat_ofNat']
    omega)
  rw [readUTFString, hRead, ok_bind]
  dsimp only
  rw [hRoom]
  rfl

end

/-- A part of a class descriptor: a code, and a name or a type with its length. -/
abbrev Item := UInt8 × List UInt8

def Item.bytes (item : Item) : List UInt8 := item.1 :: stringBytes item.2

/-- A class descriptor without a superclass. The first `count` items pass for fields; the others are
told apart by their codes. -/
structure ClassDesc where
  name : List UInt8
  serialVersion : List UInt8
  flags : UInt8
  count : Nat
  items : List Item
  deriving DecidableEq

def ClassDesc.bytes (desc : ClassDesc) : List UInt8 :=
  tcClassDesc :: (stringBytes desc.name ++ (desc.serialVersion ++ desc.flags ::
    (beBytes 2 desc.count ++ ((desc.items.take desc.count).flatMap Item.bytes ++
      ((desc.items.drop desc.count).flatMap Item.bytes ++ [tcEndBlockData, tcNull])))))

structure ClassDesc.WellFormed (desc : ClassDesc) : Prop where
  name : desc.name.length < 2 ^ 15
  serialVersion : desc.serialVersion.length = 8
  count : desc.count < 2 ^ 15
  enough : desc.count ≤ desc.items.length
  items : ∀ item ∈ desc.items, item.2.length < 2 ^ 15
  codes : ∀ item ∈ desc.items.drop desc.count, item.1 = 0x4C ∨ item.1 = tcString

/-- A text is skipped by its length. -/
theorem skip_ahead {text : List UInt8} (hText : text.length < 2 ^ 15)
    (h : byteBuf.Ahead pos (stringBytes text ++ rest)) :
    readShort byteBuf pos = .ok (Int16.ofNat (text.length % 2 ^ 16), 2) ∧
      byteBuf.Ahead (pos + 2 + extendShort (Int16.ofNat (text.length % 2 ^ 16))) rest := by
  rw [stringBytes, List.append_assoc] at h
  exact ⟨(readShort_ahead h).1, (readShort_ahead h).2.skip (extendShort_ofNat hText)⟩

/-- Items that pass for fields are skipped, and the fields behind them are then read. -/
theorem readFields_items {items : List Item} (hItems : ∀ item ∈ items, item.2.length < 2 ^ 15)
    {readPos : UInt64} (h : byteBuf.Ahead (pos + readPos) (items.flatMap Item.bytes ++ rest)) :
    ∃ readPos', byteBuf.Ahead (pos + readPos') rest ∧
      ∀ more, readFields byteBuf pos (items.length + more) readPos =
        readFields byteBuf pos more readPos' := by
  induction items generalizing readPos with
  | nil => exact ⟨readPos, h, fun more => by rw [List.length_nil, Nat.zero_add]⟩
  | cons item items ih =>
    rw [List.flatMap_cons, Item.bytes, List.append_assoc, List.cons_append] at h
    obtain ⟨hShort, hNext⟩ := skip_ahead (hItems item List.mem_cons_self) (readByte_ahead h).2
    rw [UInt64.add_assoc, UInt64.add_assoc, UInt64.add_assoc] at hNext
    obtain ⟨readPos', hRest, hRead⟩ := ih (fun i hi => hItems i (List.mem_cons_of_mem _ hi)) hNext
    refine ⟨readPos', hRest, fun more => ?_⟩
    rw [List.length_cons, Nat.add_right_comm, readFields]
    dsimp only
    rw [← UInt64.add_assoc, hShort, ok_bind]
    dsimp only
    rw [UInt64.add_assoc, UInt64.add_assoc]
    exact hRead more

theorem readFields_ahead {items : List Item} (hItems : ∀ item ∈ items, item.2.length < 2 ^ 15)
    {readPos : UInt64} (h : byteBuf.Ahead (pos + readPos) (items.flatMap Item.bytes ++ rest)) :
    ∃ readPos', readFields byteBuf pos items.length readPos = .ok readPos' ∧
      byteBuf.Ahead (pos + readPos') rest := by
  obtain ⟨readPos', hRest, hRead⟩ := readFields_items hItems h
  exact ⟨readPos', hRead 0, hRest⟩

/-- A turn of the loop at an item that it skips. -/
theorem tagTurn_item (env : Env) {item : Item} (hItem : item.2.length < 2 ^ 15)
    (hCode : item.1 = 0x4C ∨ item.1 = tcString) {readPos : UInt64}
    (h : byteBuf.Ahead (pos + readPos) (item.bytes ++ rest)) :
    ∃ readPos', tagTurn env byteBuf pos readPos = .ok (.inl readPos') ∧
      byteBuf.Ahead (pos + readPos') rest := by
  rw [Item.bytes, List.cons_append] at h
  obtain ⟨hByte, h⟩ := readByte_ahead h
  obtain ⟨hShort, hNext⟩ := skip_ahead hItem h
  refine ⟨readPos + 1 + 2 + extendShort (Int16.ofNat (item.2.length % 2 ^ 16)), ?_,
    by simpa only [UInt64.add_assoc] using hNext⟩
  rw [tagTurn, hByte, ok_bind]
  dsimp only
  rw [← UInt64.add_assoc, hShort, if_pos hCode]
  obtain hCode | hCode := hCode <;> rw [hCode] <;> rfl

theorem readTags_end (env : Env) (fuel : Nat) {readPos : UInt64}
    (h : byteBuf.Ahead (pos + readPos) (tcEndBlockData :: rest)) :
    ∃ readPos', readTags env (fuel + 1) byteBuf pos readPos = .ok readPos' ∧
      byteBuf.Ahead (pos + readPos') rest := by
  obtain ⟨hByte, hRest⟩ := readByte_ahead h
  refine ⟨readPos + 1, ?_, by rwa [← UInt64.add_assoc]⟩
  refine loop_succ_of_done ?_ fuel
  rw [tagTurn, hByte, ok_bind]
  rfl

theorem readTags_ahead (env : Env) {items : List Item} (hItems : ∀ item ∈ items, item.2.length < 2 ^ 15)
    (hCodes : ∀ item ∈ items, item.1 = 0x4C ∨ item.1 = tcString) {fuel : Nat}
    (hFuel : items.length < fuel) {readPos : UInt64}
    (h : byteBuf.Ahead (pos + readPos) (items.flatMap Item.bytes ++ tcEndBlockData :: rest)) :
    ∃ readPos', readTags env fuel byteBuf pos readPos = .ok readPos' ∧
      byteBuf.Ahead (pos + readPos') rest := by
  induction items generalizing readPos fuel with
  | nil =>
    obtain ⟨fuel, rfl⟩ := Nat.exists_eq_succ_of_ne_zero hFuel.ne'
    exact readTags_end env fuel h
  | cons item items ih =>
    obtain ⟨fuel, rfl⟩ := Nat.exists_eq_succ_of_ne_zero (Nat.ne_zero_of_lt hFuel)
    rw [List.flatMap_cons, List.append_assoc] at h
    obtain ⟨readPos', hTurn, hNext⟩ := tagTurn_item env (hItems item List.mem_cons_self)
      (hCodes item List.mem_cons_self) h
    rw [readTags, loop_succ_of_next hTurn]
    exact ih (fun i hi => hItems i (List.mem_cons_of_mem _ hi))
      (fun i hi => hCodes i (List.mem_cons_of_mem _ hi)) (by simpa using hFuel) hNext

theorem length_le_flatMap (items : List Item) :
    items.length ≤ (items.flatMap Item.bytes).length := by
  induction items with
  | nil => exact Nat.zero_le _
  | cons item items ih =>
    rw [List.flatMap_cons, List.length_append, Item.bytes, List.length_cons, List.length_cons]
    omega

/-- What `readProlog` does behind the number of fields. -/
def readBody (env : Env) (fuel : Nat) (byteBuf : ByteBuf) (pos : UInt64) (count : Nat)
    (readPos : UInt64) : Except Fail ((LogString × UInt32) × UInt64) := do
  let readPos ← readFields byteBuf pos count readPos
  let readPos ← readTags env fuel byteBuf pos readPos
  let (typeClass, size) ← readByte byteBuf (pos + readPos)
  env.assert (typeClass == tcNull)
  require (typeClass == tcNull) (.invalid .classDesc)
  pure (([], 0), readPos + size)

/-- The name, the serial version, the flags and the number of fields are read. -/
theorem readProlog_header (env : Env) {name serialVersion : List UInt8} {flags : UInt8} {count : Nat}
    (hName : name.length < 2 ^ 15) (hSerial : serialVersion.length = 8) (fuel : Nat)
    (classDesc : List UInt8) (h : byteBuf.Ahead pos (tcClassDesc :: (stringBytes name ++
      (serialVersion ++ flags :: (beBytes 2 count ++ rest))))) :
    ∃ readPos, byteBuf.Ahead (pos + readPos) rest ∧
      readProlog env fuel byteBuf pos classDesc =
        readBody env fuel byteBuf pos (Int16.ofNat (count % 2 ^ 16)).toInt.toNat readPos := by
  obtain ⟨hByte, h⟩ := readByte_ahead h
  obtain ⟨hText, h⟩ := skip_ahead hName h
  have h := h.skip (show (8 : UInt64).toNat = _ from hSerial.symm)
  have h := (readByte_ahead h).2
  obtain ⟨hCount, h⟩ := readShort_ahead h
  simp only [UInt64.add_assoc] at hCount h
  refine ⟨_, h, ?_⟩
  rw [readProlog, hByte, ok_bind]
  dsimp only
  rw [if_pos rfl, hText, ok_bind]
  dsimp only
  simp only [UInt64.add_assoc]
  rw [hCount, ok_bind]
  rfl

/-- Behind the tags, a `TC_NULL` ends the descriptor. -/
theorem readBody_ok {fuel count : Nat} {readPos readPos' readPos'' : UInt64}
    (hFields : readFields byteBuf pos count readPos = .ok readPos')
    (hTags : readTags env fuel byteBuf pos readPos' = .ok readPos'')
    (h : byteBuf.Ahead (pos + readPos'') (tcNull :: rest)) :
    Reads byteBuf pos (readBody env fuel byteBuf pos count readPos) ([], 0) rest := by
  obtain ⟨hNull, h⟩ := readByte_ahead h
  refine ⟨readPos'' + 1, ?_, by rwa [← UInt64.add_assoc]⟩
  rw [readBody, hFields, ok_bind, hTags, ok_bind, hNull, ok_bind]
  dsimp only
  rw [beq_self_eq_true, Env.assert_true]
  rfl

/-- A well-formed descriptor is read to its end. -/
theorem readProlog_ahead {desc : ClassDesc} (hDesc : desc.WellFormed) {fuel : Nat}
    (hFuel : byteBuf.bytes.length < fuel) (classDesc : List UInt8)
    (h : byteBuf.Ahead pos (desc.bytes ++ rest)) :
    Reads byteBuf pos (readProlog env fuel byteBuf pos classDesc) ([], 0) rest := by
  simp only [ClassDesc.bytes, List.cons_append, List.append_assoc, List.nil_append] at h
  obtain ⟨readPos, h, hProlog⟩ :=
    readProlog_header env hDesc.name hDesc.serialVersion fuel classDesc h
  have hTake : (desc.items.take desc.count).length = desc.count :=
    List.length_take_of_le hDesc.enough
  obtain ⟨readPos', hFields, h⟩ :=
    readFields_ahead (fun i hi => hDesc.items i (List.mem_of_mem_take hi)) h
  have hLength := h.length
  rw [List.length_append] at hLength
  have hLe := length_le_flatMap (desc.items.drop desc.count)
  obtain ⟨readPos'', hTags, h⟩ :=
    readTags_ahead env (fun i hi => hDesc.items i (List.mem_of_mem_drop hi)) hDesc.codes
      (show (desc.items.drop desc.count).length < fuel by omega) h
  rw [hTake] at hFields
  rw [hProlog, shortToInt_ofNat hDesc.count, Int.toNat_natCast]
  exact readBody_ok hFields hTags h

/-- A handle in place of a descriptor. -/
theorem readProlog_reference_ahead {handle : List UInt8} (hHandle : handle.length = 4) (fuel : Nat)
    (classDesc : List UInt8) (h : byteBuf.Ahead pos (tcReference :: (handle ++ rest))) :
    Reads byteBuf pos (readProlog env fuel byteBuf pos classDesc)
      ([], (loadInt handle.reverse).toUInt32) rest := by
  obtain ⟨hByte, hNext⟩ := readByte_ahead h
  have hFetch : byteBuf.fetch (pos + 1) 4 = .ok handle := hNext.fetch hHandle.symm
  refine ⟨1 + 4, ?_, ?_⟩
  · have hInt : readInt byteBuf (pos + 1) = .ok (loadInt handle.reverse, 4) := by
      rw [readInt, hFetch, ok_bind, swapInt_loadInt hHandle]
      rfl
    rw [readProlog, hByte, ok_bind]
    dsimp only
    rw [hInt]
    rfl
  · rw [← UInt64.add_assoc]
    exact hNext.skip hHandle.symm

/-- The descriptor of a class, or a handle of one that came before. -/
inductive Prolog : List UInt8 → Prop
  | desc (desc : ClassDesc) (h : desc.WellFormed) : Prolog desc.bytes
  | reference (handle : List UInt8) (h : handle.length = 4) : Prolog (tcReference :: handle)

theorem Prolog.ahead (env : Env) {prolog : List UInt8} (hProlog : Prolog prolog) {fuel : Nat}
    (hFuel : byteBuf.bytes.length < fuel) (classDesc : List UInt8)
    (h : byteBuf.Ahead pos (prolog ++ rest)) :
    ∃ value, Reads byteBuf pos (readProlog env fuel byteBuf pos classDesc) value rest := by
  cases hProlog with
  | desc desc hDesc => exact ⟨_, readProlog_ahead hDesc hFuel classDesc h⟩
  | reference handle hHandle => exact ⟨_, readProlog_reference_ahead hHandle fuel classDesc h⟩

end Default

end LogSocket
