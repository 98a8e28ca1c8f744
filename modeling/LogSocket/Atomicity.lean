import LogSocket.Escapes
import LogSocket.MsgpackEntries

/-! A loader takes a message from the front of the buffer or throws and leaves the buffer alone, so
that the loop of `forceLog` ends. This needs the lengths in the class descriptors of the Default
protocol to be below `0x8000`, and the roots of the Msgpack protocol to be maps with the entries that
are read, which nothing checks. -/

namespace LogSocket

open Lib ByteBuf

/-- An exception of C++. -/
def Fail.Thrown : Fail → Prop
  | .small _ | .invalid _ | .badAlloc | .outOfRange => True
  | .abort | .fault | .hang => False

/-- The call returns an event and takes a part that is not empty from the front of the buffer, or it
throws and leaves the buffer as it was. -/
def Atomic (f : LoggingEventFunc) (byteBuf : ByteBuf) : Prop :=
  (∃ event taken rest, taken ≠ [] ∧ f byteBuf = (.ok event, rest) ∧
    byteBuf.bytes = taken ++ rest.bytes) ∨
  ∃ e : Fail, e.Thrown ∧ f byteBuf = (.error e, byteBuf)

/-- A loader that takes or leaves is atomic exactly when a failure of it is an exception. -/
theorem Takes.atomic_iff_thrown {f : LoggingEventFunc} {byteBuf : ByteBuf} (h : Takes f byteBuf) :
    Atomic f byteBuf ↔ Ensures Fail.Thrown (fun _ => True) (f byteBuf).1 := by
  rcases h with ⟨e, hError⟩ | ⟨event, n, hPos, hLe, hOk⟩
  · rw [hError, Ensures.error_iff]
    constructor
    · intro hAtomic
      rcases hAtomic with ⟨_, _, _, -, hOk, -⟩ | ⟨e', hThrown, hError'⟩
      · cases hError.symm.trans hOk
      · cases hError.symm.trans hError'
        exact hThrown
    · intro hThrown
      exact .inr ⟨e, hThrown, hError⟩
  · rw [hOk]
    refine iff_of_true (.inl ⟨event, byteBuf.bytes.take n, byteBuf.drop n, ?_, hOk, ?_⟩) trivial
    · have hLength : (byteBuf.bytes.take n).length = n := by simp [hLe]
      intro hNil
      simp [hNil] at hLength
      omega
    · simp

/-- A loader fails as its reader does. -/
theorem load_ensures {α : Type} {env : Env} {read : ByteBuf → Except Fail (α × UInt64)}
    {create : α → Except Fail LoggingEvent} {byteBuf : ByteBuf} {ok : Fail → Prop}
    (hReads : ∀ value n, read byteBuf = .ok (value, n) →
      n.toNat ≤ byteBuf.bytes.length ∧ ∃ event, create value = .ok event) :
    Ensures ok (fun _ => True) (load env read create byteBuf).1 ↔
      Ensures ok (fun _ => True) (read byteBuf) := by
  cases hRead : read byteBuf with
  | error e => simp [load_error hRead]
  | ok r =>
    rcases hReads r.1 r.2 hRead with ⟨hLe, event, hCreate⟩
    simp [load_ok hRead hLe, hCreate]

theorem Fail.Thrown.of_documented {e : Fail} (h : e.documented) : e.Thrown := by
  cases e with
  | small _ => trivial
  | invalid _ => trivial
  | _ => exact h.elim

namespace Bytes

variable {env : Env} {byteBuf : ByteBuf} {pos : UInt64}

theorem alloc_thrown (n : UInt64) : Ensures Fail.Thrown (fun _ => True) (env.alloc n) := by
  unfold Env.alloc
  split
  · trivial
  · trivial

/-- A number of fixed width. -/
theorem read_thrown {α : Type} {size : UInt64} (f : List UInt8 → α)
    (hpos : pos.toNat ≤ byteBuf.bytes.length) (hSize : size.toNat < 2 ^ 62) :
    Ensures Fail.Thrown (fun r => r.2 = size ∧ (pos + size).toNat ≤ byteBuf.bytes.length)
      (byteBuf.fetch pos size >>= fun bytes => pure (f bytes, size)) := by
  refine ((fetch_ensures hpos hSize).weaken fun _ => .of_documented).bind fun bytes h => ?_
  exact ⟨rfl, by omega⟩

theorem readString_thrown (hpos : pos.toNat ≤ byteBuf.bytes.length) :
    Ensures Fail.Thrown (fun r => (pos + r.2).toNat ≤ byteBuf.bytes.length)
      (readString env byteBuf pos) := by
  have hLength := byteBuf.size_le
  unfold maxSize at hLength
  refine (read_thrown _ hpos (show (4 : UInt64).toNat < 2 ^ 62 by decide)).bind ?_
  rintro ⟨length, readPos⟩ ⟨rfl, hNext⟩
  refine (alloc_thrown _).bind fun _ _ => ?_
  have hBits := length.toUInt32.toNat_lt
  have hSize : length.toUInt32.toUInt64.toNat < 2 ^ 62 := by
    rw [UInt32.toNat_toUInt64]
    omega
  refine ((fetch_ensures hNext hSize).weaken fun _ => .of_documented).bind fun data h => ?_
  rw [Ensures.pure_iff, ← UInt64.add_assoc]
  omega

theorem readUTFString_thrown (hpos : pos.toNat ≤ byteBuf.bytes.length) :
    Ensures Fail.Thrown (fun r => (pos + r.2).toNat ≤ byteBuf.bytes.length)
      (readUTFString env byteBuf pos) := by
  refine (readString_thrown hpos).bind fun r hNext => ?_
  exact (alloc_thrown _).bind fun _ _ => hNext

theorem readData_thrown (env : Env) (byteBuf : ByteBuf) :
    Ensures Fail.Thrown (fun _ => True) (readData env byteBuf) := by
  refine (readString_thrown (Nat.zero_le _)).bind fun loggerName hpos => ?_
  refine (read_thrown _ hpos (show (4 : UInt64).toNat < 2 ^ 62 by decide)).bind ?_
  rintro ⟨level, size⟩ ⟨rfl, hpos⟩
  refine (readString_thrown hpos).bind fun message hpos => ?_
  refine (read_thrown _ hpos (show (8 : UInt64).toNat < 2 ^ 62 by decide)).bind ?_
  rintro ⟨timestamp, size⟩ ⟨rfl, hpos⟩
  refine (readString_thrown hpos).bind fun threadName hpos => ?_
  refine (readUTFString_thrown hpos).bind fun pathName hpos => ?_
  refine (readUTFString_thrown hpos).bind fun funcName hpos => ?_
  exact (readUTFString_thrown hpos).bind fun lineNumber _ => trivial

theorem createLoggingEvent_atomic (env : Env) (byteBuf : ByteBuf) :
    Atomic (createLoggingEvent env) byteBuf := by
  have hTakes : Takes (createLoggingEvent env) byteBuf := (createLoggingEvent_sound env).takes byteBuf
  have hReads : ∀ data n, readData env byteBuf = .ok (data, n) → n.toNat ≤ byteBuf.bytes.length ∧
      ∃ event, (pure data.createLoggingEvent : Except Fail LoggingEvent) = .ok event :=
    fun _ _ h => ⟨(readData_reads.value h).2, _, rfl⟩
  rw [hTakes.atomic_iff_thrown, createLoggingEvent, load_ensures hReads]
  exact readData_thrown env byteBuf

end Bytes

namespace Msgpack

variable {host : Host} {byteBuf : ByteBuf}

/-- An unpacked root is a map with an entry at each position that is come to. -/
def Safe (host : Host) (byteBuf : ByteBuf) : Prop :=
  ∀ msg readBytes, host.unpack byteBuf.bytes = .object msg readBytes → Readable msg

/-- An exception, or a read outside of the entries. -/
def Stray (e : Fail) : Prop := e.Thrown ∨ e = .fault

theorem asString_stray (value : Object) : Ensures Stray (fun _ => True) (asString value) := by
  cases value <;> simp [asString, Stray, Fail.Thrown]

theorem asInt_stray (value : Object) : Ensures Stray (fun _ => True) (asInt value) := by
  unfold asInt
  split
  · split <;> simp [Stray, Fail.Thrown]
  · split <;> simp [Stray, Fail.Thrown]
  · simp [Stray, Fail.Thrown]

theorem asFloat_stray (value : Object) : Ensures Stray (fun _ => True) (asFloat value) := by
  cases value <;> simp [asFloat, Stray, Fail.Thrown]

theorem value_stray (msgmap : List (Object × Object)) (i : Nat) :
    Ensures Stray (fun _ => True) (value msgmap i) := by
  unfold value
  split <;> simp [Stray]

theorem viaMap_stray (msg : Object) : Ensures Stray (fun _ => True) (viaMap msg) := by
  cases msg <;> simp [viaMap, Stray]

theorem readData_stray (hAsserts : host.env.asserts = false) :
    Ensures Stray (fun _ => True) (readData host byteBuf) := by
  have hAssert : ∀ condition, Ensures Stray (fun _ => True) (host.env.assert condition) := by
    intro condition
    simp [host.env.assert_off hAsserts]
  unfold readData
  split
  · simp [Stray, Fail.Thrown]
  · simp [Stray, Fail.Thrown]
  refine (hAssert _).bind fun _ _ => ?_
  refine (viaMap_stray _).bind fun msgmap _ => ?_
  refine (value_stray _ _).bind fun _ _ => (asString_stray _).bind fun _ _ => ?_
  refine (value_stray _ _).bind fun _ _ => (asInt_stray _).bind fun _ _ => ?_
  refine (value_stray _ _).bind fun _ _ => (asString_stray _).bind fun _ _ => ?_
  refine (value_stray _ _).bind fun _ _ => (asFloat_stray _).bind fun _ _ => ?_
  refine (value_stray _ _).bind fun _ _ => (asString_stray _).bind fun _ _ => ?_
  refine (value_stray _ _).bind fun _ _ => (asString_stray _).bind fun _ _ => ?_
  refine (value_stray _ _).bind fun _ _ => (asString_stray _).bind fun _ _ => ?_
  exact (value_stray _ _).bind fun _ _ => (asInt_stray _).bind fun _ _ => trivial

/-- Where the root is unpacked, a failure is an exception exactly when it is not a fault. -/
theorem readData_thrown_iff (hAsserts : host.env.asserts = false) :
    Ensures Fail.Thrown (fun _ => True) (readData host byteBuf) ↔
      readData host byteBuf ≠ .error .fault := by
  have hStray : Ensures Stray (fun _ => True) (readData host byteBuf) := readData_stray hAsserts
  cases hRead : readData host byteBuf with
  | ok r => simp
  | error e =>
    rw [hRead, Ensures.error_iff] at hStray
    rcases hStray with hThrown | rfl
    · refine iff_of_true hThrown fun hEq => ?_
      cases hEq
      exact hThrown
    · simp [Fail.Thrown]

theorem readData_safe_iff (hAsserts : host.env.asserts = false) :
    Ensures Fail.Thrown (fun _ => True) (readData host byteBuf) ↔ Safe host byteBuf := by
  cases hUnpack : host.unpack byteBuf.bytes with
  | insufficientBytes => simp [readData, Safe, hUnpack, Fail.Thrown]
  | parseError => simp [readData, Safe, hUnpack, Fail.Thrown]
  | object msg readBytes =>
    have hSafe : Safe host byteBuf ↔ Readable msg := by
      constructor
      · exact fun h => h msg readBytes hUnpack
      · intro h msg' readBytes' hUnpack'
        cases hUnpack.symm.trans hUnpack'
        exact h
    rw [readData_thrown_iff hAsserts, hSafe]
    by_cases hMap : isMap msg = false
    · have hOther := readOther hUnpack hMap
      rw [hAsserts] at hOther
      cases msg with
      | map msgmap => cases hMap
      | _ => simp [hOther, Readable]
    · cases msg with
      | map msgmap => exact readMap_ne_fault hUnpack
      | _ => exact absurd rfl hMap

theorem createLoggingEvent_takes (hUnpack : host.UnpackTakes) (byteBuf : ByteBuf) :
    Takes (createLoggingEvent host) byteBuf := by
  rw [createLoggingEvent]
  cases hRead : readData host byteBuf with
  | error e => exact .inl ⟨e, load_error hRead⟩
  | ok r =>
    rcases (readData_reads hUnpack).value hRead with ⟨hPos, hLe⟩
    exact .inr ⟨_, _, hPos, hLe, load_ok hRead hLe⟩

theorem createLoggingEvent_atomic_iff (hAsserts : host.env.asserts = false)
    (hUnpack : host.UnpackTakes) :
    Atomic (createLoggingEvent host) byteBuf ↔ Safe host byteBuf := by
  have hReads : ∀ data n, readData host byteBuf = .ok (data, n) → n.toNat ≤ byteBuf.bytes.length ∧
      ∃ event, (pure data.createLoggingEvent : Except Fail LoggingEvent) = .ok event :=
    fun _ _ h => ⟨((readData_reads hUnpack).value h).2, _, rfl⟩
  rw [(createLoggingEvent_takes hUnpack byteBuf).atomic_iff_thrown, createLoggingEvent,
    load_ensures hReads]
  exact readData_safe_iff hAsserts

end Msgpack

namespace Default

open Blocking (LengthsBelow MessageBelow Length place)

variable {env : Env} {byteBuf : ByteBuf} {pos : UInt64}

theorem readShort_lt {r : Int16 × UInt64} (h : readShort byteBuf pos = .ok r) :
    pos.toNat + 2 ≤ byteBuf.bytes.length := by
  rcases bind_eq_ok.mp h with ⟨_, hFetch, -⟩
  exact (fetch_eq_ok.mp hFetch).1

theorem readInt_lt {r : Int32 × UInt64} (h : readInt byteBuf pos = .ok r) :
    pos.toNat + 4 ≤ byteBuf.bytes.length := by
  rcases bind_eq_ok.mp h with ⟨_, hFetch, -⟩
  exact (fetch_eq_ok.mp hFetch).1

section

variable (hBelow : LengthsBelow byteBuf pos)
include hBelow

/-- From tag to tag the offset grows. -/
theorem TagNext.lt {readPos readPos' : UInt64} (h : TagNext byteBuf pos readPos readPos')
    (hComes : Comes byteBuf pos (.tag readPos)) :
    (pos + readPos).toNat < (pos + readPos').toNat ∧
      (pos + readPos').toNat ≤ byteBuf.bytes.length + 2 ^ 15 := by
  have hSize := byteBuf.size_le
  unfold maxSize at hSize
  have hNext := UInt64.toNat_add (pos + readPos) 1
  rw [UInt64.add_assoc, UInt64.toNat_one] at hNext
  cases h with
  | reference hByte hInt =>
    have hTag := readByte_lt hByte
    have hHandle := readInt_lt hInt
    have hEnd := UInt64.toNat_add (pos + (readPos + 1)) 4
    rw [UInt64.add_assoc, show (4 : UInt64).toNat = 4 from rfl] at hEnd
    omega
  | @text typeClass dataLen hByte hText hShort =>
    have hTag := readByte_lt hByte
    have hName := readShort_lt hShort
    have hLength := extendShort_lt (hBelow dataLen (.text hComes hByte hText hShort))
    have hStart := UInt64.toNat_add (pos + (readPos + 1)) 2
    have hEnd := UInt64.toNat_add (pos + (readPos + 1 + 2)) (extendShort dataLen)
    rw [UInt64.add_assoc, show (2 : UInt64).toNat = 2 from rfl] at hStart
    rw [UInt64.add_assoc] at hEnd
    omega

/-- The places that the reader comes to are not far behind the end of the buffer. -/
theorem Comes.place_le {cursor : Cursor} (h : Comes byteBuf pos cursor) :
    (pos + place cursor).toNat ≤ byteBuf.bytes.length + 2 ^ 15 + 16 := by
  have hSize := byteBuf.size_le
  unfold maxSize at hSize
  induction h with
  | @count dataLen hByte hShort =>
    have hTag := readByte_lt hByte
    have hLength := extendShort_lt (hBelow dataLen (.name hByte hShort))
    have hStart := UInt64.toNat_add pos (1 + 2)
    have hName := UInt64.toNat_add (pos + (1 + 2)) (extendShort dataLen)
    have hSerial := UInt64.toNat_add (pos + (1 + 2 + extendShort dataLen)) 8
    have hFlags := UInt64.toNat_add (pos + (1 + 2 + extendShort dataLen + 8)) 1
    rw [show (1 + 2 : UInt64).toNat = 3 from rfl] at hStart
    rw [UInt64.add_assoc] at hName hSerial hFlags
    rw [show (8 : UInt64).toNat = 8 from rfl] at hSerial
    rw [UInt64.toNat_one] at hFlags
    rw [place]
    omega
  | @fields readPos fieldLen hComes hShort ih =>
    have hCount := readShort_lt hShort
    have hNext := UInt64.toNat_add (pos + readPos) 2
    rw [UInt64.add_assoc, show (2 : UInt64).toNat = 2 from rfl] at hNext
    rw [place]
    omega
  | @field left readPos dataLen hComes hShort ih =>
    have hLength := extendShort_lt (hBelow dataLen (.field hComes hShort))
    have hName := readShort_lt hShort
    have hStart := UInt64.toNat_add (pos + (readPos + 1)) 2
    have hNext := UInt64.toNat_add (pos + (readPos + 1 + 2)) (extendShort dataLen)
    rw [UInt64.add_assoc, show (2 : UInt64).toNat = 2 from rfl] at hStart
    rw [UInt64.add_assoc] at hNext
    rw [place]
    omega
  | tags hComes ih => exact ih
  | @tag readPos readPos' hComes hNext ih =>
    have hGrows := hNext.lt hBelow hComes
    rw [place]
    omega

theorem not_underrun : ¬Underrun byteBuf pos := by
  rintro ⟨cursor, hComes, hWraps⟩
  have hPlace := hComes.place_le hBelow
  have hSize := byteBuf.size_le
  unfold maxSize at hSize
  cases cursor with
  | count readPos =>
    have hWraps : 2 ^ 64 ≤ (pos + readPos).toNat + 2 := hWraps
    rw [place] at hPlace
    omega
  | field left readPos =>
    cases left with
    | zero => exact hWraps
    | succ left =>
      have hWraps : 2 ^ 64 ≤ (pos + (readPos + 1)).toNat + 2 := hWraps
      have hNext := UInt64.toNat_add (pos + readPos) 1
      rw [UInt64.add_assoc, UInt64.toNat_one] at hNext
      rw [place] at hPlace
      omega
  | tag readPos =>
    have hWraps : 2 ^ 64 ≤ (pos + readPos).toNat + 1 := hWraps
    rw [place] at hPlace
    omega

theorem not_cycle : ¬Cycle byteBuf pos := by
  rintro ⟨readPos, hComes, hCycle⟩
  have hGrows : ∀ {readPos' : UInt64}, Relation.TransGen (TagNext byteBuf pos) readPos readPos' →
      Comes byteBuf pos (.tag readPos') ∧ (pos + readPos).toNat < (pos + readPos').toNat := by
    intro readPos' h
    induction h with
    | single hNext => exact ⟨.tag hComes hNext, (hNext.lt hBelow hComes).1⟩
    | tail _ hNext ih => exact ⟨.tag ih.1 hNext, ih.2.trans (hNext.lt hBelow ih.1).1⟩
  exact Nat.lt_irrefl _ (hGrows hCycle).2

end

/-- Lengths below `0x8000` lead straight through the descriptors of a message. -/
theorem straight_of_below (h : MessageBelow env byteBuf) : Straight env byteBuf :=
  fun pos hDescriptor => ⟨not_underrun (h pos hDescriptor), not_cycle (h pos hDescriptor)⟩

theorem createLoggingEvent_atomic (hAsserts : env.asserts = false) (h : MessageBelow env byteBuf) :
    Atomic (createLoggingEvent env) byteBuf := by
  have hTakes : Takes (createLoggingEvent env) byteBuf := (createLoggingEvent_sound env).takes byteBuf
  have hFinishes : Finishes env byteBuf := (finishes_iff_straight env byteBuf).mpr (straight_of_below h)
  rw [hTakes.atomic_iff_thrown]
  refine hFinishes.weaken fun e hAllowed => ?_
  rcases hAllowed with hDocumented | ⟨-, hAbort⟩ | ⟨rfl, -⟩
  · exact .of_documented hDocumented
  · cases hAsserts.symm.trans hAbort
  · trivial

end Default

section forceLog

open Hierarchy (AllFound Linked)

variable {host : Host} {protocol : Protocol}

/-- The loop of `forceLog` over a buffer, with the loggers of `h`, makes so many turns and leaves with
`call`. -/
inductive Protocol.Loops (protocol : Protocol) (host : Host) (appenders : AppenderPtr → Appender) :
    ByteBuf → Hierarchy → Nat → RoutedCall → Prop
  | empty {byteBuf : ByteBuf} {h : Hierarchy} : byteBuf.bytes = [] →
      Loops protocol host appenders byteBuf h 0 ⟨.ok true, ⟨some protocol, byteBuf⟩, h, []⟩
  | event {byteBuf rest : ByteBuf} {h h' : Hierarchy} {event : LoggingEvent}
      {delivery : Option Delivery} {turns : Nat} {call : RoutedCall} :
      byteBuf.bytes ≠ [] → protocol.createLoggingEvent host byteBuf = (.ok event, rest) →
      h.log appenders event = .ok (delivery, h') →
      Loops protocol host appenders rest h' turns call →
      Loops protocol host appenders byteBuf h (turns + 1)
        { call with deliveries := delivery.toList ++ call.deliveries }
  | lost {byteBuf rest : ByteBuf} {h : Hierarchy} {event : LoggingEvent} {e : Fail} :
      byteBuf.bytes ≠ [] → protocol.createLoggingEvent host byteBuf = (.ok event, rest) →
      h.log appenders event = .error e →
      Loops protocol host appenders byteBuf h 1 ⟨e.caughtInLoop, ⟨some protocol, rest⟩, h, []⟩
  | stop {byteBuf rest : ByteBuf} {h : Hierarchy} {e : Fail} :
      byteBuf.bytes ≠ [] → protocol.createLoggingEvent host byteBuf = (.error e, rest) →
      Loops protocol host appenders byteBuf h 1 ⟨e.caughtInLoop, ⟨some protocol, rest⟩, h, []⟩

/-- The loop makes at most a turn for each byte, returns or throws, and leaves a suffix. -/
def Protocol.Leaves (protocol : Protocol) (host : Host) (appenders : AppenderPtr → Appender)
    (h : Hierarchy) (byteBuf : ByteBuf) : Prop :=
  ∃ turns call, protocol.Loops host appenders byteBuf h turns call ∧
    turns ≤ byteBuf.bytes.length ∧
    call = decodeRouted host appenders protocol (byteBuf.bytes.length + 1) byteBuf h ∧
    Ensures Fail.Thrown (fun _ => True) call.verdict ∧
    call.client.byteBuf.bytes <:+ byteBuf.bytes

theorem Fail.caughtInLoop_thrown {e : Fail} :
    Ensures Fail.Thrown (fun _ => True) e.caughtInLoop ↔ e.Thrown := by
  cases e <;> simp [Fail.caughtInLoop, Fail.Thrown]

/-- What the loop does on a buffer, whatever the loader makes of it. -/
theorem loops_of_takes (appenders : AppenderPtr → Appender)
    (hTakes : ∀ byteBuf, Takes (protocol.createLoggingEvent host) byteBuf)
    {byteBuf : ByteBuf} {h : Hierarchy} {fuel : Nat} (hFuel : byteBuf.bytes.length < fuel) :
    ∃ turns ≤ byteBuf.bytes.length,
      protocol.Loops host appenders byteBuf h turns
        (decodeRouted host appenders protocol fuel byteBuf h) ∧
      (decodeRouted host appenders protocol fuel byteBuf h).client.byteBuf.bytes <:+
        byteBuf.bytes := by
  induction fuel generalizing byteBuf h with
  | zero => omega
  | succ fuel ih =>
    rw [decodeRouted]
    by_cases hNil : byteBuf.bytes = []
    · rw [if_pos hNil]
      exact ⟨0, Nat.zero_le _, .empty hNil, List.suffix_refl _⟩
    rw [if_neg hNil]
    have hPos : 0 < byteBuf.bytes.length := List.length_pos_iff.mpr hNil
    rcases hTakes byteBuf with ⟨e, hError⟩ | ⟨event, n, hPos, hLe, hOk⟩
    · rw [hError]
      exact ⟨1, hPos, .stop hNil hError, List.suffix_refl _⟩
    have hSuffix : (byteBuf.drop n).bytes <:+ byteBuf.bytes := List.drop_suffix n byteBuf.bytes
    rw [hOk]
    dsimp only
    cases hLog : h.log appenders event with
    | error e => exact ⟨1, by omega, .lost hNil hOk hLog, hSuffix⟩
    | ok r =>
      have hShorter : (byteBuf.drop n).bytes.length < fuel := by
        rw [drop_bytes, List.length_drop]
        omega
      rcases @ih _ r.2 hShorter with ⟨turns, hTurns, hLoops, hRest⟩
      rw [drop_bytes, List.length_drop] at hTurns
      exact ⟨turns + 1, by omega, .event hNil hOk hLog hLoops, hRest.trans hSuffix⟩

/-- The class descriptors of the Default protocol have no length of `0x8000` or more. -/
def Protocol.Below (protocol : Protocol) (host : Host) (byteBuf : ByteBuf) : Prop :=
  protocol = .default → Default.Blocking.MessageBelow host.env byteBuf

/-- The roots of the Msgpack protocol are maps with the entries that are come to. -/
def Protocol.Safe (protocol : Protocol) (host : Host) (byteBuf : ByteBuf) : Prop :=
  protocol = .msgpack → Msgpack.Safe host byteBuf

theorem Protocol.takes (hUnpack : host.UnpackTakes) (protocol : Protocol) (byteBuf : ByteBuf) :
    Takes (protocol.createLoggingEvent host) byteBuf := by
  cases protocol with
  | default => exact (Default.createLoggingEvent_sound host.env).takes byteBuf
  | bytes => exact (Bytes.createLoggingEvent_sound host.env).takes byteBuf
  | msgpack => exact Msgpack.createLoggingEvent_takes hUnpack byteBuf

theorem Protocol.atomic_iff_safe (hAsserts : host.env.asserts = false) (hUnpack : host.UnpackTakes)
    {byteBuf : ByteBuf} (hBelow : protocol.Below host byteBuf) :
    Atomic (protocol.createLoggingEvent host) byteBuf ↔ protocol.Safe host byteBuf := by
  cases protocol with
  | default =>
    refine iff_of_true ?_ nofun
    exact Default.createLoggingEvent_atomic hAsserts (hBelow rfl)
  | bytes =>
    refine iff_of_true ?_ nofun
    exact Bytes.createLoggingEvent_atomic host.env byteBuf
  | msgpack =>
    have hIff : Atomic (Msgpack.createLoggingEvent host) byteBuf ↔ Msgpack.Safe host byteBuf :=
      Msgpack.createLoggingEvent_atomic_iff hAsserts hUnpack
    exact hIff.trans ⟨fun h _ => h, fun h => h rfl⟩

/-- A call of a loader is atomic exactly when the root that the Msgpack loader comes to is safe to read.
After any calls on the repository of loggers, the loop of `forceLog` is left as it should be exactly
when all roots are that it comes to, and the logger of each event is found. -/
theorem atomic_iff (hAsserts : host.env.asserts = false) (hUnpack : host.UnpackTakes)
    (hStrings : protocol = .msgpack → host.StringsFit) (appenders : AppenderPtr → Appender)
    {ops : List Hierarchy.Op} {h : Hierarchy}
    (hSizes : ∀ n ∈ ops.flatMap Hierarchy.Op.asked, n.length < 2 ^ 32)
    (hRun : Hierarchy.new.run ops = .ok h) {byteBuf : ByteBuf}
    (hBelow : ∀ events rest, protocol.Gives host byteBuf events rest → protocol.Below host rest) :
    (Atomic (protocol.createLoggingEvent host) byteBuf ↔ protocol.Safe host byteBuf) ∧
    (protocol.Leaves host appenders h byteBuf ↔
      ∀ events rest, protocol.Gives host byteBuf events rest →
        AllFound (ops.flatMap Hierarchy.Op.asked) (events.map (·.logger)) ∧
        (rest.bytes ≠ [] → protocol.Safe host rest)) := by
  have hTakes := Protocol.takes hUnpack protocol
  have hLinked := Linked.new.run hSizes hRun
  rw [List.nil_append] at hLinked
  refine ⟨Protocol.atomic_iff_safe hAsserts hUnpack (hBelow _ _ .none), ?_⟩
  have hSafe : (∀ events rest, protocol.Gives host byteBuf events rest →
      AllFound (ops.flatMap Hierarchy.Op.asked) (events.map (·.logger)) ∧ (rest.bytes ≠ [] →
        Ensures Fail.Thrown (fun _ => True) (protocol.createLoggingEvent host rest).1)) ↔
      ∀ events rest, protocol.Gives host byteBuf events rest →
        AllFound (ops.flatMap Hierarchy.Op.asked) (events.map (·.logger)) ∧
        (rest.bytes ≠ [] → protocol.Safe host rest) := by
    refine forall₂_congr fun events rest => forall_congr' fun hGives => and_congr_right fun _ => ?_
    rw [← (hTakes rest).atomic_iff_thrown,
      Protocol.atomic_iff_safe hAsserts hUnpack (hBelow _ _ hGives)]
  rw [← hSafe, ← decodeRouted_ends (fun _ => Fail.caughtInLoop_thrown) id appenders hTakes
    (Protocol.namesFit hStrings) hLinked (Nat.lt_succ_self byteBuf.bytes.length)]
  constructor
  · rintro ⟨_, call, -, -, rfl, hVerdict, -⟩
    exact hVerdict
  · intro hVerdict
    rcases @loops_of_takes host protocol appenders hTakes byteBuf h _ (Nat.lt_succ_self _) with
      ⟨turns, hTurns, hLoops, hSuffix⟩
    exact ⟨turns, _, hLoops, hTurns, rfl, hVerdict, hSuffix⟩

theorem Protocol.Gives.default {byteBuf rest : ByteBuf} {events : List LoggingEvent}
    (h : Protocol.default.Gives host byteBuf events rest) :
    Default.Reached host.env byteBuf rest := by
  induction h with
  | none => exact .refl
  | message hNe hOk _ ih => exact .message hNe hOk ih

/-- A message of the Default protocol, after a configuration, and one of the Bytes protocol whose logger
is `.x`. -/
theorem atomic_iff_namedMessage : ∃ h, Hierarchy.new.run Hierarchy.configOps = .ok h ∧
    Protocol.default.Leaves byteHost (fun _ => ⟨false, .all, []⟩) h SocketServer.namedMessage ∧
    ¬Protocol.bytes.Leaves byteHost (fun _ => ⟨false, .all, []⟩) h
      ⟨errorMessage [0x2E, 0x78], by decide⟩ := by
  obtain ⟨h, hRun⟩ : ∃ h, Hierarchy.new.run Hierarchy.configOps = .ok h := ⟨_, rfl⟩
  refine ⟨h, hRun, ?_, ?_⟩
  · refine (atomic_iff rfl byteHost_laws.unpackTakes (fun _ => byteHost_stringsFit) _
      Hierarchy.configOps_asked hRun fun events rest hGives _ =>
        SocketServer.namedMessage_below rest hGives.default).2.mpr fun events rest hGives => ?_
    refine ⟨?_, fun _ => nofun⟩
    have hOk : Protocol.default.createLoggingEvent byteHost SocketServer.namedMessage = (.ok _, _) :=
      Prod.ext (by rfl) (by rfl)
    obtain ⟨rfl, rfl⟩ | ⟨events', rfl, hRest⟩ := (Protocol.gives_message (by decide) hOk).mp hGives
    · decide
    · obtain ⟨rfl, rfl⟩ := (Protocol.gives_stuck (.inl (by decide))).mp hRest
      decide
  · intro hLeaves
    have hAll := (atomic_iff rfl byteHost_laws.unpackTakes (fun _ => byteHost_stringsFit) _
      Hierarchy.configOps_asked hRun fun events rest hGives hDefault => by cases hDefault).2.mp hLeaves
    have hGives : Protocol.bytes.Gives byteHost ⟨errorMessage [0x2E, 0x78], by decide⟩ _ _ :=
      .message (by decide) (Prod.ext (by rfl) (by rfl)) .none
    exact absurd (hAll _ _ hGives).1 (by decide)

/-- The loader of the Msgpack protocol reads the first entry of an empty map. -/
theorem not_atomic :
    ¬∀ (host : Host) (protocol : Protocol) (appenders : AppenderPtr → Appender)
      (byteBuf : ByteBuf), host.env.asserts = false → host.UnpackTakes → byteBuf.bytes ≠ [] →
      (∀ events rest, protocol.Gives host byteBuf events rest → protocol.Below host rest) →
      Atomic (protocol.createLoggingEvent host) byteBuf ∧
        protocol.Leaves host appenders .new byteBuf := by
  intro hAll
  have hBelow : ∀ events rest, Protocol.msgpack.Gives byteHost Msgpack.emptyMap events rest →
      Protocol.msgpack.Below byteHost rest := fun _ _ _ => nofun
  have hAtomic := (hAll byteHost .msgpack (fun _ => ⟨false, .all, []⟩) Msgpack.emptyMap rfl
    byteHost_laws.unpackTakes (by decide) hBelow).1
  have hFault : Protocol.msgpack.createLoggingEvent byteHost Msgpack.emptyMap =
      (.error .fault, Msgpack.emptyMap) := rfl
  rcases hAtomic with ⟨_, _, _, -, hOk, -⟩ | ⟨e, hThrown, hError⟩
  · cases hFault.symm.trans hOk
  · cases hFault.symm.trans hError
    exact hThrown

end forceLog

end LogSocket
