import LogSocket.Fuel

/-! How a class descriptor is read: the items that its reader comes to, one after the other, and the
two ways in which the lengths between them lead it astray. A negative length can move the offset to
the last bytes of the address space, where the check of a copy wraps, and it can lead the tag loop
back to an item that it has been at. -/

namespace LogSocket.Default

open Lib ByteBuf

/-- A place in a class descriptor, at an offset from its beginning: the number of fields, a field
with `left` fields from there on, or a tag behind the fields. -/
inductive Cursor
  | count (readPos : UInt64)
  | field (left : Nat) (readPos : UInt64)
  | tag (readPos : UInt64)

section

variable (byteBuf : ByteBuf) (pos : UInt64)

/-- The tag loop goes on from one tag to the next. -/
inductive TagNext : UInt64 → UInt64 → Prop
  | reference {readPos : UInt64} {handle : Int32} :
      readByte byteBuf (pos + readPos) = .ok (tcReference, 1) →
      readInt byteBuf (pos + (readPos + 1)) = .ok (handle, 4) → TagNext readPos (readPos + 1 + 4)
  | text {readPos : UInt64} {typeClass : UInt8} {dataLen : Int16} :
      readByte byteBuf (pos + readPos) = .ok (typeClass, 1) →
      typeClass = 0x4C ∨ typeClass = tcString →
      readShort byteBuf (pos + (readPos + 1)) = .ok (dataLen, 2) →
      TagNext readPos (readPos + 1 + 2 + extendShort dataLen)

/-- The places that the reader of the descriptor at `pos` comes to. -/
inductive Comes : Cursor → Prop
  | count {dataLen : Int16} : readByte byteBuf pos = .ok (tcClassDesc, 1) →
      readShort byteBuf (pos + 1) = .ok (dataLen, 2) →
      Comes (.count (1 + 2 + extendShort dataLen + 8 + 1))
  | fields {readPos : UInt64} {fieldLen : Int16} : Comes (.count readPos) →
      readShort byteBuf (pos + readPos) = .ok (fieldLen, 2) →
      Comes (.field fieldLen.toInt.toNat (readPos + 2))
  | field {left : Nat} {readPos : UInt64} {dataLen : Int16} : Comes (.field (left + 1) readPos) →
      readShort byteBuf (pos + (readPos + 1)) = .ok (dataLen, 2) →
      Comes (.field left (readPos + 1 + 2 + extendShort dataLen))
  | tags {readPos : UInt64} : Comes (.field 0 readPos) → Comes (.tag readPos)
  | tag {readPos readPos' : UInt64} : Comes (.tag readPos) → TagNext byteBuf pos readPos readPos' →
      Comes (.tag readPos')

/-- What is read at a place ends past the end of the address space. -/
def Cursor.Wraps : Cursor → Prop
  | .count readPos => 2 ^ 64 ≤ (pos + readPos).toNat + 2
  | .field 0 _ => False
  | .field (_ + 1) readPos => 2 ^ 64 ≤ (pos + (readPos + 1)).toNat + 2
  | .tag readPos => 2 ^ 64 ≤ (pos + readPos).toNat + 1

/-- A length leads the reader to a place where the check of a copy wraps. -/
def Underrun : Prop := ∃ cursor, Comes byteBuf pos cursor ∧ cursor.Wraps pos

/-- A length leads the tag loop back to a tag. -/
def Cycle : Prop :=
  ∃ readPos, Comes byteBuf pos (.tag readPos) ∧
    Relation.TransGen (TagNext byteBuf pos) readPos readPos

end

variable {env : Env} {byteBuf : ByteBuf} {pos : UInt64} {fuel : Nat}

theorem readShort_size {r : Int16 × UInt64} (h : readShort byteBuf pos = .ok r) : r.2 = 2 := by
  obtain ⟨_, -, hr⟩ := bind_eq_ok.mp h
  rw [← Except.ok.inj hr]

theorem readInt_size {r : Int32 × UInt64} (h : readInt byteBuf pos = .ok r) : r.2 = 4 := by
  obtain ⟨_, -, hr⟩ := bind_eq_ok.mp h
  rw [← Except.ok.inj hr]

theorem readByte_size {r : UInt8 × UInt64} (h : readByte byteBuf pos = .ok r) : r.2 = 1 := by
  obtain ⟨_, -, rfl⟩ := readByte_eq_ok.mp h
  rfl

theorem tagTurn_eq_next {readPos readPos' : UInt64} :
    tagTurn env byteBuf pos readPos = .ok (.inl readPos') ↔
      TagNext byteBuf pos readPos readPos' := by
  constructor
  · intro h
    obtain ⟨⟨typeClass, size⟩, hByte, h⟩ := bind_eq_ok.mp h
    obtain rfl := readByte_size hByte
    dsimp only at h
    split at h
    · cases h
    · split at h
      next hTag =>
        obtain ⟨⟨handle, size⟩, hInt, h⟩ := bind_eq_ok.mp h
        obtain rfl := readInt_size hInt
        obtain rfl := Sum.inl.inj (Except.ok.inj h)
        exact .reference (hTag ▸ hByte) hInt
      next =>
        split at h
        next hTag =>
          obtain ⟨⟨dataLen, size⟩, hShort, h⟩ := bind_eq_ok.mp h
          obtain rfl := readShort_size hShort
          obtain rfl := Sum.inl.inj (Except.ok.inj h)
          exact .text hByte hTag hShort
        next =>
          obtain ⟨_, -, h⟩ := bind_eq_ok.mp h
          cases h
  · intro h
    cases h with
    | reference hByte hInt =>
      rw [tagTurn, hByte, ok_bind]
      dsimp only
      rw [if_neg (by decide), if_pos rfl, hInt]
      rfl
    | text hByte hTag hShort =>
      rw [tagTurn, hByte, ok_bind]
      dsimp only
      rw [hShort, if_pos hTag]
      obtain rfl | rfl := hTag <;> rfl

theorem goesOn_eq_next {readPos readPos' : UInt64} :
    goesOn (tagTurn env byteBuf pos) readPos = some readPos' ↔
      TagNext byteBuf pos readPos readPos' :=
  goesOn_eq_some.trans tagTurn_eq_next

/-- The reader of a descriptor from a place on, to the end of the tags. -/
def resume (env : Env) (fuel : Nat) (byteBuf : ByteBuf) (pos : UInt64) :
    Cursor → Except Fail UInt64
  | .count readPos => do
    let (fieldLen, size) ← readShort byteBuf (pos + readPos)
    let readPos ← readFields byteBuf pos fieldLen.toInt.toNat (readPos + size)
    readTags env fuel byteBuf pos readPos
  | .field left readPos => do
    let readPos ← readFields byteBuf pos left readPos
    readTags env fuel byteBuf pos readPos
  | .tag readPos => readTags env fuel byteBuf pos readPos

/-- The byte behind the tags. -/
def finish (env : Env) (byteBuf : ByteBuf) (pos readPos : UInt64) :
    Except Fail ((LogString × UInt32) × UInt64) := do
  let (typeClass, size) ← readByte byteBuf (pos + readPos)
  env.assert (typeClass == tcNull)
  require (typeClass == tcNull) (.invalid .classDesc)
  pure (([], 0), readPos + size)

/-- What comes of a descriptor is decided at each of its places. -/
theorem Comes.readProlog_eq {cursor : Cursor} (h : Comes byteBuf pos cursor)
    (hFuel : byteBuf.bytes.length < fuel) (classDesc : List UInt8) :
    readProlog env fuel byteBuf pos classDesc =
      resume env fuel byteBuf pos cursor >>= finish env byteBuf pos := by
  induction h with
  | count hByte hShort =>
    rw [readProlog, hByte, ok_bind]
    dsimp only
    rw [if_pos rfl, hShort, ok_bind]
    simp only [resume, bind_assoc]
    rfl
  | fields _ hShort ih =>
    rw [ih, resume, hShort]
    rfl
  | field _ hShort ih =>
    rw [ih, resume, resume, readFields]
    dsimp only
    rw [hShort]
    rfl
  | tags _ ih =>
    rw [ih]
    rfl
  | tag _ hNext ih =>
    rw [ih, resume, resume, readTags, readTags,
      loop_of_next (pos_add_injective pos) tagTurn_live hFuel (tagTurn_eq_next.mpr hNext)]

theorem Comes.length_pos {cursor : Cursor} (h : Comes byteBuf pos cursor) :
    0 < byteBuf.bytes.length := by
  induction h with
  | count hByte _ => exact Nat.zero_lt_of_lt (readByte_lt hByte)
  | fields _ _ ih => exact ih
  | field _ _ ih => exact ih
  | tags _ ih => exact ih
  | tag _ _ ih => exact ih

theorem readShort_wraps (h : 2 ^ 64 ≤ pos.toNat + 2) (hLength : 0 < byteBuf.bytes.length) :
    readShort byteBuf pos = .error .fault := by
  have hLt := pos.toNat_lt
  have hFault : byteBuf.fetch pos 2 = .error .fault :=
    fetch_eq_fault_iff.mpr ⟨h, show pos.toNat + 2 - 2 ^ 64 ≤ _ by omega⟩
  rw [readShort, hFault]
  rfl

theorem readByte_wraps (h : 2 ^ 64 ≤ pos.toNat + 1) : readByte byteBuf pos = .error .fault := by
  have hLt := pos.toNat_lt
  have hFault : byteBuf.fetch pos 1 = .error .fault :=
    fetch_eq_fault_iff.mpr ⟨h, show pos.toNat + 1 - 2 ^ 64 ≤ _ by omega⟩
  rw [readByte, hFault]
  rfl

/-- A place where the check wraps is read outside of the buffer. -/
theorem Underrun.readProlog_eq (h : Underrun byteBuf pos) (hFuel : byteBuf.bytes.length < fuel)
    (classDesc : List UInt8) : readProlog env fuel byteBuf pos classDesc = .error .fault := by
  obtain ⟨cursor, hComes, hWraps⟩ := h
  have hLength := hComes.length_pos
  suffices hFault : resume env fuel byteBuf pos cursor = .error .fault by
    rw [hComes.readProlog_eq hFuel, hFault]
    rfl
  cases cursor with
  | count readPos =>
    rw [resume, readShort_wraps hWraps hLength]
    rfl
  | field left readPos =>
    cases left with
    | zero => exact hWraps.elim
    | succ left =>
      rw [resume, readFields]
      dsimp only
      rw [readShort_wraps hWraps hLength]
      rfl
  | tag readPos =>
    obtain ⟨fuel, rfl⟩ := Nat.exists_eq_succ_of_ne_zero (Nat.ne_zero_of_lt hFuel)
    refine loop_succ_of_error ?_ fuel
    rw [tagTurn, readByte_wraps hWraps]
    rfl

/-- A tag loop that comes back to a tag never ends. -/
theorem Cycle.readProlog_eq (h : Cycle byteBuf pos) (hFuel : byteBuf.bytes.length < fuel)
    (classDesc : List UInt8) : readProlog env fuel byteBuf pos classDesc = .error .hang := by
  obtain ⟨readPos, hComes, hCycle⟩ := h
  have hForever : ∀ n, (walk (goesOn (tagTurn env byteBuf pos)) n readPos).isSome := by
    refine (forever_iff_cycle (pos_add_injective pos) tagTurn_live).mpr ⟨readPos, .refl, ?_⟩
    exact Relation.TransGen.mono (fun _ _ hNext => goesOn_eq_next.mpr hNext) _ _ hCycle
  rw [hComes.readProlog_eq hFuel, resume, readTags, loop_of_walk (hForever fuel)]
  rfl

/-- What a call may end with whatever the bytes are: an exception, a failed assertion in a build with
asserts, and no memory where less than the length of a string can be allocated. -/
def Allowed (env : Env) (e : Fail) : Prop :=
  e.documented ∨ e = .abort ∧ env.asserts = true ∨ e = .badAlloc ∧ env.allocLimit < 65536

theorem assert_allowed (condition : Bool) :
    Ensures (Allowed env) (fun _ => True) (env.assert condition) := by
  unfold Env.assert
  split
  next h =>
    rw [Bool.and_eq_true] at h
    exact .inr (.inl ⟨rfl, h.1⟩)
  next => exact True.intro

theorem require_allowed (condition : Bool) (what : Message) :
    Ensures (Allowed env) (fun _ => condition = true) (require condition (.invalid what)) := by
  cases condition with
  | true => exact rfl
  | false => exact .inl True.intro

theorem alloc_allowed {n : UInt64} (h : n.toNat ≤ 65536) :
    Ensures (Allowed env) (fun _ => True) (env.alloc n) := by
  unfold Env.alloc
  split
  next hLimit =>
    refine .inr (.inr ⟨rfl, ?_⟩)
    unfold maxSize at hLimit
    omega
  next => exact True.intro

/-- A failure that the descriptor at `pos` is to blame for. -/
def Blames (byteBuf : ByteBuf) (pos : UInt64) (e : Fail) : Prop :=
  e = .fault ∧ Underrun byteBuf pos ∨ e = .hang ∧ Cycle byteBuf pos

theorem next_within (h : pos.toNat < byteBuf.bytes.length) :
    (pos + 1).toNat ≤ byteBuf.bytes.length := by
  have hSize := byteBuf.size_le
  unfold maxSize at hSize
  rw [UInt64.toNat_add, UInt64.toNat_one]
  omega

theorem readByte_next {r : UInt8 × UInt64} (h : readByte byteBuf pos = .ok r) :
    (pos + 1).toNat ≤ byteBuf.bytes.length :=
  next_within (readByte_lt h)

/-- A number of fixed width, from wherever it is read. -/
theorem read_touches {α : Type} (pos size : UInt64) (f : List UInt8 → α) :
    Ensures (fun e => Allowed env e ∨ e = .fault ∧ 2 ^ 64 ≤ pos.toNat + size.toNat)
      (fun r => r.2 = size ∧ pos.toNat + size.toNat ≤ byteBuf.bytes.length)
      (byteBuf.fetch pos size >>= fun bytes => pure (f bytes, size)) := by
  refine ((fetch_touches byteBuf pos size).weaken fun e he => ?_).bind
    fun bytes h => ⟨rfl, h.1⟩
  exact he.imp_left .inl

theorem readByte_touches (pos : UInt64) :
    Ensures (fun e => Allowed env e ∨ e = .fault ∧ 2 ^ 64 ≤ pos.toNat + 1)
      (fun r => r.2 = 1 ∧ pos.toNat + 1 ≤ byteBuf.bytes.length) (readByte byteBuf pos) :=
  read_touches pos 1 _

theorem readShort_touches (pos : UInt64) :
    Ensures (fun e => Allowed env e ∨ e = .fault ∧ 2 ^ 64 ≤ pos.toNat + 2)
      (fun r => r.2 = 2 ∧ pos.toNat + 2 ≤ byteBuf.bytes.length) (readShort byteBuf pos) :=
  read_touches pos 2 _

/-- A number of fixed width that is read from inside the buffer. -/
theorem read_within {α : Type} {size : UInt64} (f : List UInt8 → α)
    (hpos : pos.toNat ≤ byteBuf.bytes.length) (hsize : size.toNat < 2 ^ 62) :
    Ensures (Allowed env) (fun r => r.2 = size ∧ (pos + size).toNat ≤ byteBuf.bytes.length)
      (byteBuf.fetch pos size >>= fun bytes => pure (f bytes, size)) := by
  refine ((fetch_ensures hpos hsize).weaken fun _ => .inl).bind fun bytes h => ⟨rfl, ?_⟩
  rw [h.2.2]
  exact h.2.1

theorem readByte_within (hpos : pos.toNat ≤ byteBuf.bytes.length) :
    Ensures (Allowed env) (fun r => r.2 = 1 ∧ (pos + 1).toNat ≤ byteBuf.bytes.length)
      (readByte byteBuf pos) :=
  read_within _ hpos (by decide)

theorem readShort_within (hpos : pos.toNat ≤ byteBuf.bytes.length) :
    Ensures (Allowed env) (fun r => r.2 = 2 ∧ (pos + 2).toNat ≤ byteBuf.bytes.length)
      (readShort byteBuf pos) :=
  read_within _ hpos (by decide)

theorem readInt_within (hpos : pos.toNat ≤ byteBuf.bytes.length) :
    Ensures (Allowed env) (fun r => r.2 = 4 ∧ (pos + 4).toNat ≤ byteBuf.bytes.length)
      (readInt byteBuf pos) :=
  read_within _ hpos (by decide)

theorem readLong_within (hpos : pos.toNat ≤ byteBuf.bytes.length) :
    Ensures (Allowed env) (fun r => r.2 = 8 ∧ (pos + 8).toNat ≤ byteBuf.bytes.length)
      (readLong byteBuf pos) :=
  read_within _ hpos (by decide)

/-- A turn of the tag loop fails, goes on or leaves with an offset in the buffer. -/
theorem tagTurn_touches (readPos : UInt64) :
    Ensures (fun e => Allowed env e ∨ e = .fault ∧ (Cursor.tag readPos).Wraps pos)
      (fun r => ∀ readPos', r = .inr readPos' → (pos + readPos').toNat ≤ byteBuf.bytes.length)
      (tagTurn env byteBuf pos readPos) := by
  refine (readByte_touches _).bind ?_
  rintro ⟨typeClass, size⟩ ⟨rfl, hLt⟩
  have hNext : (pos + (readPos + 1)).toNat ≤ byteBuf.bytes.length := by
    rw [← UInt64.add_assoc]
    exact next_within hLt
  dsimp only
  split
  · rintro _ ⟨⟩
    exact hNext
  split
  · exact ((readInt_within hNext).weaken fun _ => .inl).bind fun _ _ => nofun
  split
  · exact ((readShort_within hNext).weaken fun _ => .inl).bind fun _ _ => nofun
  · exact ((assert_allowed _).weaken fun _ => .inl).bind
      fun _ _ => .inl (.inl True.intro)

theorem Comes.failure {cursor : Cursor} (h : Comes byteBuf pos cursor) {e : Fail}
    (he : Allowed env e ∨ e = .fault ∧ cursor.Wraps pos) :
    Allowed env e ∨ Blames byteBuf pos e := by
  obtain hAllowed | ⟨rfl, hWraps⟩ := he
  · exact .inl hAllowed
  · exact .inr (.inl ⟨rfl, cursor, h, hWraps⟩)

section

variable (hFuel : byteBuf.bytes.length < fuel)
include hFuel

/-- The tags are read up to an offset in the buffer, unless the descriptor is to blame. -/
theorem readTags_outcome {readPos : UInt64} (h : Comes byteBuf pos (.tag readPos)) :
    Ensures (fun e => Allowed env e ∨ Blames byteBuf pos e)
      (fun readPos' => (pos + readPos').toNat ≤ byteBuf.bytes.length)
      (readTags env fuel byteBuf pos readPos) := by
  have hLoop : Ensures _ _ (readTags env fuel byteBuf pos readPos) :=
    loop_ensures (P := fun readPos => Comes byteBuf pos (.tag readPos))
      (fun _ _ hComes hTurn => hComes.tag (tagTurn_eq_next.mp hTurn)) h
  cases hRead : readTags env fuel byteBuf pos readPos with
  | ok readPos' =>
    obtain ⟨t, -, hTurn⟩ := hLoop.value hRead
    exact (tagTurn_touches t).value hTurn _ rfl
  | error e =>
    obtain ⟨rfl, hWalk⟩ | ⟨t, hComes, hTurn⟩ := hLoop.failure hRead
    · have hForever := walk_forever (pos_add_injective pos) tagTurn_live
        (walk_isSome_of_le hWalk hFuel)
      obtain ⟨t, hReach, hCycle⟩ :=
        (forever_iff_cycle (pos_add_injective pos) tagTurn_live).mp hForever
      refine .inr (.inr ⟨rfl, t, ?_, ?_⟩)
      · clear hCycle
        induction hReach with
        | refl => exact h
        | tail _ hNext ih => exact ih.tag (goesOn_eq_next.mp hNext)
      · exact Relation.TransGen.mono (fun _ _ hNext => goesOn_eq_next.mp hNext) _ _ hCycle
    · exact hComes.failure ((tagTurn_touches t).failure hTurn)

theorem readFields_outcome {left : Nat} {readPos : UInt64}
    (h : Comes byteBuf pos (.field left readPos)) :
    Ensures (fun e => Allowed env e ∨ Blames byteBuf pos e)
      (fun readPos' => (pos + readPos').toNat ≤ byteBuf.bytes.length)
      (resume env fuel byteBuf pos (.field left readPos)) := by
  induction left generalizing readPos with
  | zero => exact readTags_outcome hFuel h.tags
  | succ left ih =>
    unfold resume readFields
    dsimp only
    rw [bind_assoc]
    cases hShort : readShort byteBuf (pos + (readPos + 1)) with
    | error e => exact h.failure ((readShort_touches _).failure hShort)
    | ok r =>
      obtain ⟨dataLen, size⟩ := r
      obtain rfl := readShort_size hShort
      exact ih (h.field hShort)

theorem readCount_outcome {readPos : UInt64} (h : Comes byteBuf pos (.count readPos)) :
    Ensures (fun e => Allowed env e ∨ Blames byteBuf pos e)
      (fun readPos' => (pos + readPos').toNat ≤ byteBuf.bytes.length)
      (resume env fuel byteBuf pos (.count readPos)) := by
  rw [resume]
  cases hShort : readShort byteBuf (pos + readPos) with
  | error e => exact h.failure ((readShort_touches _).failure hShort)
  | ok r =>
    obtain ⟨fieldLen, size⟩ := r
    obtain rfl := readShort_size hShort
    exact readFields_outcome hFuel (h.fields hShort)

/-- A descriptor is read up to an offset in the buffer, unless it is itself to blame. -/
theorem readProlog_outcome (hpos : pos.toNat ≤ byteBuf.bytes.length) (classDesc : List UInt8) :
    Ensures (fun e => Allowed env e ∨ Blames byteBuf pos e)
      (fun r => (pos + r.2).toNat ≤ byteBuf.bytes.length)
      (readProlog env fuel byteBuf pos classDesc) := by
  cases hByte : readByte byteBuf pos with
  | error e =>
    rw [show readProlog env fuel byteBuf pos classDesc = .error e by rw [readProlog, hByte]; rfl]
    exact .inl ((readByte_within hpos).failure hByte)
  | ok r =>
    obtain ⟨typeClass, size⟩ := r
    obtain rfl := readByte_size hByte
    have hNext := readByte_next hByte
    by_cases hTag : typeClass = tcClassDesc
    · subst hTag
      cases hShort : readShort byteBuf (pos + 1) with
      | error e =>
        rw [show readProlog env fuel byteBuf pos classDesc = .error e by
          rw [readProlog, hByte, ok_bind]
          dsimp only
          rw [if_pos rfl, hShort]
          rfl]
        exact .inl ((readShort_within hNext).failure hShort)
      | ok r =>
        obtain ⟨dataLen, size⟩ := r
        obtain rfl := readShort_size hShort
        have hComes := Comes.count hByte hShort
        rw [hComes.readProlog_eq hFuel]
        refine (readCount_outcome hFuel hComes).bind fun readPos hPos => ?_
        refine ((readByte_within hPos).weaken fun _ => .inl).bind ?_
        rintro ⟨last, size⟩ ⟨rfl, hLast⟩
        refine ((assert_allowed _).weaken fun _ => .inl).bind fun _ _ => ?_
        refine ((require_allowed _ _).weaken fun _ => .inl).bind fun _ _ => ?_
        rw [Ensures.pure_iff, ← UInt64.add_assoc]
        exact hLast
    · rw [readProlog, hByte, ok_bind]
      dsimp only
      rw [if_neg hTag]
      split
      · refine ((readInt_within hNext).weaken fun _ => .inl).bind ?_
        rintro ⟨val, size⟩ ⟨rfl, hLast⟩
        rw [Ensures.pure_iff, ← UInt64.add_assoc]
        exact hLast
      · exact ((assert_allowed _).weaken fun _ => .inl).bind fun _ _ => .inl (.inl True.intro)

end

end LogSocket.Default
