import LogSocket.Descriptors
import LogSocket.Soundness

/-! What a call of the loader of the Default protocol can end with. Outside of class descriptors
every copy is in the buffer and every loop ends, so a call touches only bytes that it has, and ends
with an event or one of the two exceptions, exactly when the lengths in the descriptors that it comes
to do not lead it astray. -/

namespace LogSocket.Default

open Lib ByteBuf

variable {env : Env} {byteBuf : ByteBuf} {pos : UInt64} {fuel : Nat}

theorem readTypeClass_within (hpos : pos.toNat ≤ byteBuf.bytes.length) (tag : UInt8)
    (what : Message) (skipTypeClass : Bool) :
    Ensures (Allowed env) (fun size => (pos + size).toNat ≤ byteBuf.bytes.length)
      (readTypeClass tag what byteBuf pos skipTypeClass) := by
  unfold readTypeClass
  split
  · rw [Ensures.pure_iff, UInt64.add_zero]
    exact hpos
  · refine (readByte_within hpos).bind ?_
    rintro ⟨typeClass, size⟩ ⟨rfl, hNext⟩
    exact (require_allowed _ _).bind fun _ _ => hNext

theorem readString_within (hpos : pos.toNat ≤ byteBuf.bytes.length) (skipTypeClass : Bool) :
    Ensures (Allowed env)
      (fun r => (pos + r.2).toNat ≤ byteBuf.bytes.length ∧ r.1.length < 65536)
      (readString env byteBuf pos skipTypeClass) := by
  refine (readTypeClass_within hpos _ _ _).bind fun readPos hTag => ?_
  refine ((fetch_ensures hTag (by decide)).weaken fun _ => .inl).bind fun bytes hBytes => ?_
  have hLength : le bytes.reverse < 256 ^ 2 := by
    refine (le_lt _).trans_le (Nat.pow_le_pow_right (by decide) ?_)
    rw [List.length_reverse, hBytes.1]
    exact List.length_take_le _ _
  have hLen : (UInt64.ofNat (le bytes.reverse)).toNat < 65536 := by
    rw [UInt64.toNat_ofNat']
    omega
  have hNext : (pos + (readPos + 2)).toNat ≤ byteBuf.bytes.length := by
    rw [← UInt64.add_assoc, hBytes.2.2]
    exact hBytes.2.1
  refine (alloc_allowed (by omega)).bind fun _ _ => ?_
  refine ((fetch_ensures hNext (by omega)).weaken fun _ => .inl).bind fun data hData => ?_
  refine ⟨?_, ?_⟩
  · rw [← UInt64.add_assoc, hData.2.2]
    exact hData.2.1
  · rw [hData.1]
    exact (List.length_take_le _ _).trans_lt hLen

theorem readUTFString_within (hpos : pos.toNat ≤ byteBuf.bytes.length) (skipTypeClass : Bool) :
    Ensures (Allowed env) (fun r => (pos + r.2).toNat ≤ byteBuf.bytes.length)
      (readUTFString env byteBuf pos skipTypeClass) := by
  refine (readString_within hpos skipTypeClass).bind fun r hr => ?_
  refine (alloc_allowed ?_).bind fun _ _ => hr.1
  rw [UInt64.toNat_ofNat']
  omega

theorem readEntries_within (mapSize : Nat) {readPos : UInt64}
    (hpos : (pos + readPos).toNat ≤ byteBuf.bytes.length) (value : MDC) :
    Ensures (Allowed env) (fun r => (pos + r.2).toNat ≤ byteBuf.bytes.length)
      (readEntries env byteBuf pos mapSize readPos value) := by
  induction mapSize generalizing readPos value with
  | zero => exact hpos
  | succ mapSize ih =>
    refine (readString_within hpos false).bind fun first hFirst => ?_
    dsimp only
    have hNext := hFirst.1
    rw [UInt64.add_assoc] at hNext
    refine (readString_within hNext false).bind fun second hSecond => ?_
    refine ih ?_ _
    rw [← UInt64.add_assoc]
    exact hSecond.1

/-- The two flags in front of an event. -/
theorem readBytes_within (hpos : pos.toNat ≤ byteBuf.bytes.length) {bytes : UInt64}
    (hBytes : bytes.toNat ≤ 65536) :
    Ensures (Allowed env) (fun r => (pos + r.2).toNat ≤ byteBuf.bytes.length)
      (readBytes env byteBuf pos bytes) := by
  have hFetch := fetch_ensures hpos (show bytes.toNat < 2 ^ 62 by omega)
  unfold fetch at hFetch
  unfold readBytes
  cases hCheck : byteBuf.check pos bytes with
  | error e =>
    rw [hCheck] at hFetch
    exact .inl hFetch
  | ok _ =>
    rw [hCheck, ok_bind] at hFetch
    rw [ok_bind]
    refine (alloc_allowed hBytes).bind fun _ _ => ?_
    refine (hFetch.weaken fun _ => .inl).bind fun value hValue => ?_
    rw [Ensures.pure_iff, hValue.2.2]
    exact hValue.2.1

theorem readNDC_within (hpos : pos.toNat ≤ byteBuf.bytes.length) :
    Ensures (Allowed env) (fun r => (pos + r.2).toNat ≤ byteBuf.bytes.length)
      (readNDC env byteBuf pos) := by
  refine (readByte_within hpos).bind ?_
  rintro ⟨typeClass, size⟩ ⟨rfl, hNext⟩
  dsimp only
  split
  · exact hNext
  split
  · refine (readString_within hNext true).bind fun r hr => ?_
    rw [Ensures.pure_iff, ← UInt64.add_assoc]
    exact hr.1
  · refine (assert_allowed _).bind fun _ _ => ?_
    rw [Ensures.pure_iff, UInt64.add_zero]
    exact hpos

theorem readObjectTag_within :
    Ensures (Allowed env) (fun pos => pos.toNat ≤ byteBuf.bytes.length)
      (readObjectTag byteBuf) := by
  refine (readByte_within (Nat.zero_le _)).bind ?_
  rintro ⟨typeClass, size⟩ ⟨rfl, hNext⟩
  refine (require_allowed _ _).bind fun _ _ => ?_
  dsimp only
  rw [UInt64.zero_add] at hNext ⊢
  split
  · refine (readByte_within hNext).bind ?_
    rintro ⟨typeClass, size⟩ ⟨rfl, hNext⟩
    exact (require_allowed _ _).bind fun _ _ => hNext
  · exact hNext

theorem readHeader_within (hpos : pos.toNat ≤ byteBuf.bytes.length) :
    Ensures (Allowed env) (fun r => r.2.toNat ≤ byteBuf.bytes.length)
      (readHeader env byteBuf pos) := by
  refine (readBytes_within hpos (by decide)).bind fun flags hFlags => ?_
  refine (assert_allowed _).bind fun _ _ => ?_
  refine (require_allowed _ _).bind fun _ _ => ?_
  refine (readLong_within hFlags).bind ?_
  rintro ⟨timeStamp, size⟩ ⟨rfl, hNext⟩
  exact (readString_within hNext false).bind fun logger hLogger => hLogger.1

theorem readExpected_within (hpos : pos.toNat ≤ byteBuf.bytes.length) (expected : UInt8)
    (what : Message) :
    Ensures (Allowed env) (fun pos' => pos'.toNat ≤ byteBuf.bytes.length)
      (readExpected expected what byteBuf pos) := by
  refine (readByte_within hpos).bind ?_
  rintro ⟨value, size⟩ ⟨rfl, hNext⟩
  exact (require_allowed _ _).bind fun _ _ => hNext

theorem readTrailer_within (hpos : pos.toNat ≤ byteBuf.bytes.length) :
    Ensures (Allowed env) (fun r => r.2.toNat ≤ byteBuf.bytes.length)
      (readTrailer byteBuf pos) := by
  refine (readExpected_within hpos _ _).bind fun pos hpos => ?_
  refine (readExpected_within hpos _ _).bind fun pos hpos => ?_
  refine (readExpected_within hpos _ _).bind fun pos hpos => ?_
  refine (readInt_within hpos).bind ?_
  rintro ⟨level, size⟩ ⟨rfl, hpos⟩
  refine (readExpected_within hpos _ _).bind fun pos hpos => ?_
  exact (readExpected_within hpos _ _).bind fun pos hpos => hpos

section

variable (hFuel : byteBuf.bytes.length < fuel)
include hFuel

theorem readObject_outcome (hpos : pos.toNat ≤ byteBuf.bytes.length) (value : MDC) :
    Ensures (fun e => Allowed env e ∨ Blames byteBuf pos e)
      (fun r => (pos + r.2).toNat ≤ byteBuf.bytes.length)
      (readObject env fuel byteBuf pos value true) := by
  rw [readObject, readTypeClass_skip, ok_bind]
  refine (readProlog_outcome hFuel hpos _).bind fun r hr => ?_
  dsimp only
  rw [UInt64.zero_add]
  refine ((fetch_ensures hr (by decide)).weaken fun _ he => .inl (.inl he)).bind
    fun data hData => ?_
  refine ((assert_allowed _).weaken fun _ => .inl).bind fun _ _ => ?_
  refine ((require_allowed _ _).weaken fun _ => .inl).bind fun _ _ => ?_
  have hNext : (pos + (r.2 + 14)).toNat ≤ byteBuf.bytes.length := by
    rw [← UInt64.add_assoc, hData.2.2]
    exact hData.2.1
  refine ((readInt_within hNext).weaken fun _ => .inl).bind ?_
  rintro ⟨mapSize, size⟩ ⟨rfl, hInt⟩
  rw [UInt64.add_assoc] at hInt
  refine ((readEntries_within _ hInt value).weaken fun _ => .inl).bind fun entries hEntries => ?_
  refine ((readByte_within hEntries).weaken fun _ => .inl).bind ?_
  rintro ⟨endBlock, size⟩ ⟨rfl, hLast⟩
  refine ((require_allowed _ _).weaken fun _ => .inl).bind fun _ _ => ?_
  rw [Ensures.pure_iff, ← UInt64.add_assoc]
  exact hLast

/-- The failure of an optional part, which a descriptor behind its tag may be to blame for. -/
def PartBlames (env : Env) (byteBuf : ByteBuf) (pos : UInt64) (e : Fail) : Prop :=
  Allowed env e ∨ readByte byteBuf pos = .ok (tcObject, 1) ∧ Blames byteBuf (pos + 1) e

theorem readLocationInfo_outcome (hpos : pos.toNat ≤ byteBuf.bytes.length) :
    Ensures (PartBlames env byteBuf pos) (fun r => (pos + r.2).toNat ≤ byteBuf.bytes.length)
      (readLocationInfo env fuel byteBuf pos) := by
  unfold readLocationInfo
  cases hByte : readByte byteBuf pos with
  | error e => exact .inl ((readByte_within hpos).failure hByte)
  | ok r =>
    obtain ⟨typeClass, size⟩ := r
    obtain rfl := readByte_size hByte
    have hNext := readByte_next hByte
    rw [ok_bind]
    dsimp only
    split
    · exact hNext
    split
    next hTag =>
      refine ((readProlog_outcome hFuel hNext _).weaken fun e he => ?_).bind fun r hr => ?_
      · exact he.imp_right fun hBlames => ⟨hTag ▸ hByte, hBlames⟩
      · rw [UInt64.add_assoc] at hr
        refine ((readUTFString_within hr false).weaken fun _ => .inl).bind fun info hInfo => ?_
        rw [Ensures.pure_iff, ← UInt64.add_assoc]
        exact hInfo
    next => exact ((assert_allowed _).weaken fun _ => .inl).bind fun _ _ => .inl (.inl True.intro)

theorem readMDC_outcome (hpos : pos.toNat ≤ byteBuf.bytes.length) :
    Ensures (PartBlames env byteBuf pos) (fun r => (pos + r.2).toNat ≤ byteBuf.bytes.length)
      (readMDC env fuel byteBuf pos) := by
  unfold readMDC
  cases hByte : readByte byteBuf pos with
  | error e => exact .inl ((readByte_within hpos).failure hByte)
  | ok r =>
    obtain ⟨typeClass, size⟩ := r
    obtain rfl := readByte_size hByte
    have hNext := readByte_next hByte
    rw [ok_bind]
    dsimp only
    split
    · exact hNext
    split
    next hTag =>
      refine ((readObject_outcome hFuel hNext _).weaken fun e he => ?_).bind fun r hr => ?_
      · exact he.imp_right fun hBlames => ⟨hTag ▸ hByte, hBlames⟩
      · rw [Ensures.pure_iff, ← UInt64.add_assoc]
        exact hr
    next => exact ((assert_allowed _).weaken fun _ => .inl).bind fun _ _ => .inl (.inl True.intro)

end

/-- Where the class descriptors of a message begin: that of its event, that of its location and that
of its map, each of the last two if it is come to and there. -/
inductive Descriptor (env : Env) (byteBuf : ByteBuf) : UInt64 → Prop
  | event {pos : UInt64} : readObjectTag byteBuf = .ok pos → Descriptor env byteBuf pos
  | location {header : Int64 × LogString} {pos : UInt64} :
      readBeforeLocation env (byteBuf.bytes.length + 1) byteBuf = .ok (header, pos) →
      readByte byteBuf pos = .ok (tcObject, 1) → Descriptor env byteBuf (pos + 1)
  | mdc {before : (Int64 × LogString) × LogString} {pos : UInt64} :
      readBeforeMDC env (byteBuf.bytes.length + 1) byteBuf = .ok (before, pos) →
      readByte byteBuf pos = .ok (tcObject, 1) → Descriptor env byteBuf (pos + 1)

/-- What a failure is put down to. -/
def Explained (env : Env) (byteBuf : ByteBuf) (e : Fail) : Prop :=
  Allowed env e ∨ ∃ pos, Descriptor env byteBuf pos ∧ Blames byteBuf pos e

theorem readBeforeLocation_outcome :
    Ensures (Explained env byteBuf) (fun r => r.2.toNat ≤ byteBuf.bytes.length)
      (readBeforeLocation env (byteBuf.bytes.length + 1) byteBuf) := by
  unfold readBeforeLocation
  cases hTag : readObjectTag byteBuf with
  | error e => exact .inl (readObjectTag_within.failure hTag)
  | ok pos =>
    have hWithin : Ensures (Allowed env) _ (readObjectTag byteBuf) := readObjectTag_within
    have hpos := hWithin.value hTag
    refine ((readProlog_outcome (Nat.lt_succ_self _) hpos _).weaken fun e he => ?_).bind
      fun r hr => ?_
    · exact he.imp_right fun hBlames => ⟨pos, .event hTag, hBlames⟩
    · exact (readHeader_within hr).weaken fun _ => .inl

theorem readBeforeMDC_outcome :
    Ensures (Explained env byteBuf) (fun r => r.2.toNat ≤ byteBuf.bytes.length)
      (readBeforeMDC env (byteBuf.bytes.length + 1) byteBuf) := by
  unfold readBeforeMDC
  cases hBefore : readBeforeLocation env (byteBuf.bytes.length + 1) byteBuf with
  | error e => exact readBeforeLocation_outcome.failure hBefore
  | ok r =>
    obtain ⟨header, pos⟩ := r
    refine ((readLocationInfo_outcome (Nat.lt_succ_self _)
      (readBeforeLocation_outcome.value hBefore)).weaken fun e he => ?_).bind fun r hr => hr
    exact he.imp_right fun ⟨hByte, hBlames⟩ => ⟨pos + 1, .location hBefore hByte, hBlames⟩

/-- A message is read up to an offset in the buffer, unless one of its descriptors is to blame. -/
theorem readMessage_outcome :
    Ensures (Explained env byteBuf) (fun r => r.2.toNat ≤ byteBuf.bytes.length)
      (readMessage env (byteBuf.bytes.length + 1) byteBuf) := by
  unfold readMessage
  cases hBefore : readBeforeMDC env (byteBuf.bytes.length + 1) byteBuf with
  | error e => exact readBeforeMDC_outcome.failure hBefore
  | ok r =>
    obtain ⟨before, pos⟩ := r
    refine ((readMDC_outcome (Nat.lt_succ_self _)
      (readBeforeMDC_outcome.value hBefore)).weaken fun e he => ?_).bind fun r hr => ?_
    · exact he.imp_right fun ⟨hByte, hBlames⟩ => ⟨pos + 1, .mdc hBefore hByte, hBlames⟩
    · refine ((readNDC_within hr).weaken fun _ => .inl).bind fun r hr => ?_
      refine ((readString_within hr false).weaken fun _ => .inl).bind fun r hr => ?_
      refine ((readString_within hr.1 false).weaken fun _ => .inl).bind fun r hr => ?_
      exact ((readTrailer_within hr.1).weaken fun _ => .inl).bind fun r hr => hr

/-- Where a descriptor cannot be read, the message cannot. -/
theorem Descriptor.readMessage_eq {e : Fail} (h : Descriptor env byteBuf pos)
    (hProlog : ∀ classDesc, readProlog env (byteBuf.bytes.length + 1) byteBuf pos classDesc =
      .error e) : readMessage env (byteBuf.bytes.length + 1) byteBuf = .error e := by
  cases h with
  | event hTag =>
    rw [readMessage, readBeforeMDC, readBeforeLocation, hTag, ok_bind, hProlog]
    rfl
  | location hBefore hByte =>
    rw [readMessage, readBeforeMDC, hBefore, ok_bind]
    dsimp only
    rw [readLocationInfo, hByte, ok_bind]
    dsimp only
    rw [if_neg (by decide), if_pos rfl, hProlog]
    rfl
  | mdc hBefore hByte =>
    rw [readMessage, hBefore, ok_bind]
    dsimp only
    rw [readMDC, hByte, ok_bind]
    dsimp only
    rw [if_neg (by decide), if_pos rfl, readObject, readTypeClass_skip, ok_bind, hProlog]
    rfl

theorem Allowed.ne_fault {e : Fail} (h : Allowed env e) : e ≠ .fault := by
  rintro rfl
  obtain h | ⟨h, -⟩ | ⟨h, -⟩ := h <;> cases h

/-- Every copy and every comparison is in the buffer, and no more is erased than there is. -/
def TouchesOnlyBytes (env : Env) (byteBuf : ByteBuf) : Prop :=
  (createLoggingEvent env byteBuf).1 ≠ .error .fault ∧
    ∀ carried readBytes, readMessage env (byteBuf.bytes.length + 1) byteBuf = .ok (carried, readBytes) →
      readBytes.toNat ≤ byteBuf.bytes.length

theorem createLoggingEvent_eq_error {e : Fail} :
    (createLoggingEvent env byteBuf).1 = .error e ↔
      readMessage env (byteBuf.bytes.length + 1) byteBuf = .error e := by
  cases hRead : readMessage env (byteBuf.bytes.length + 1) byteBuf with
  | error e' =>
    rw [createLoggingEvent, createLoggingEventFuel, load_error hRead, Except.error.injEq,
      Except.error.injEq]
  | ok r =>
    obtain ⟨-, hSize, event, hEvent⟩ := (readMessage_reads _).value hRead
    rw [createLoggingEvent, createLoggingEventFuel, load_ok hRead hSize, hEvent]
    simp

/-- The loader touches only bytes that it has exactly when no length in a descriptor leads it to the
end of the address space. -/
theorem touchesOnlyBytes_iff (env : Env) (byteBuf : ByteBuf) :
    TouchesOnlyBytes env byteBuf ↔ ∀ pos, Descriptor env byteBuf pos → ¬Underrun byteBuf pos := by
  constructor
  · rintro ⟨hFault, -⟩ pos hDescriptor hUnderrun
    refine hFault (createLoggingEvent_eq_error.mpr ?_)
    exact hDescriptor.readMessage_eq fun _ => hUnderrun.readProlog_eq (Nat.lt_succ_self _) _
  · intro hNone
    refine ⟨fun hFault => ?_, fun carried readBytes hRead => readMessage_outcome.value hRead⟩
    obtain hAllowed | ⟨pos, hDescriptor, hBlames⟩ :=
      readMessage_outcome.failure (createLoggingEvent_eq_error.mp hFault)
    · exact hAllowed.ne_fault rfl
    · obtain ⟨-, hUnderrun⟩ | ⟨hHang, -⟩ := hBlames
      · exact hNone pos hDescriptor hUnderrun
      · cases hHang

/-- A descriptor whose name has the length `-15`, which leads to the offset `2 ^ 64 - 2`. -/
def wrapping : ByteBuf := ⟨[0x73, 0x72, 0xFF, 0xF1], by decide⟩

theorem not_touchesOnlyBytes : ¬∀ (env : Env) (byteBuf : ByteBuf), TouchesOnlyBytes env byteBuf := by
  intro hAll
  exact (hAll .release wrapping).1 (by decide)

end LogSocket.Default
