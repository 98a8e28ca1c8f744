import LogSocket.Fuel
import LogSocket.PrefixStability

/-! The three loaders are sound: each takes a message that is not empty from the front of the buffer,
or leaves the buffer alone. -/

namespace LogSocket

open Lib ByteBuf

variable {byteBuf : ByteBuf} {env : Env} {pos : UInt64}

namespace Default

/-- An offset behind a byte that was read is inside the buffer. -/
theorem readExpected_reads (expected : UInt8) (what : Message) :
    Ensures (fun _ => True) (fun pos' => 0 < pos'.toNat ∧ pos'.toNat ≤ byteBuf.bytes.length)
      (readExpected expected what byteBuf pos) := by
  refine Ensures.bind (Ensures.of_value fun _ h => readByte_eq_ok.mp h) ?_
  rintro _ ⟨byte, hGet, rfl⟩
  refine Ensures.bind (Ensures.trivial _) fun _ _ => ?_
  have hLt := (List.getElem?_eq_some_iff.mp hGet).1
  have hSize := byteBuf.size_le
  unfold maxSize at hSize
  have hAdd : (pos + 1).toNat = pos.toNat + 1 := by
    rw [UInt64.toNat_add, UInt64.toNat_one]
    omega
  rw [Ensures.pure_iff, hAdd]
  omega

theorem readTrailer_reads :
    Ensures (fun _ => True) (fun r => 0 < r.2.toNat ∧ r.2.toNat ≤ byteBuf.bytes.length)
      (readTrailer byteBuf pos) := by
  refine (Ensures.trivial _).bind fun pos _ => ?_
  refine (Ensures.trivial _).bind fun pos _ => ?_
  refine (Ensures.trivial _).bind fun pos _ => ?_
  refine (Ensures.trivial _).bind fun r _ => ?_
  refine (Ensures.trivial _).bind fun pos _ => ?_
  exact (readExpected_reads _ _).bind fun pos hPos => hPos

/-- A message that is read is not empty, and an event can be built from it. -/
theorem readMessage_reads (fuel : Nat) :
    Ensures (fun _ => True) (fun r => 0 < r.2.toNat ∧ r.2.toNat ≤ byteBuf.bytes.length ∧
      ∃ event, r.1.createLoggingEvent = .ok event) (readMessage env fuel byteBuf) := by
  refine (Ensures.trivial _).bind fun _ _ => ?_
  refine (Ensures.trivial _).bind fun _ _ => ?_
  refine (Ensures.trivial _).bind fun _ _ => ?_
  refine (Ensures.trivial _).bind fun _ _ => ?_
  refine (Ensures.trivial _).bind fun _ _ => ?_
  refine readTrailer_reads.bind fun r' hReads => ?_
  exact ⟨hReads.1, hReads.2, createLoggingEvent_ok _ _ _ _ _ _⟩

theorem createLoggingEvent_eq_load (env : Env) :
    createLoggingEvent env =
      load env (fun byteBuf => readMessage env (byteBuf.bytes.length + 1) byteBuf)
        Carried.createLoggingEvent := by
  funext byteBuf
  simp only [createLoggingEvent, createLoggingEventFuel, load]

theorem createLoggingEvent_sound (env : Env) : Sound (createLoggingEvent env) := by
  rw [createLoggingEvent_eq_load]
  refine load_sound (fun byteBuf value n h => (readMessage_reads _).value h)
    fun byteBuf byteBuf' h => ?_
  rw [readMessage_fuel (Nat.lt_succ_self _) (Nat.lt_succ_of_le h.length_le)]
  exact readMessage_settles h env _

end Default

namespace Bytes

/-- The end of a string is inside the buffer, behind the four bytes of its length. -/
theorem readString_reads :
    Ensures (fun _ => True) (fun r => 0 < (pos + r.2).toNat ∧
      (pos + r.2).toNat ≤ byteBuf.bytes.length) (readString env byteBuf pos) := by
  have hSize := byteBuf.size_le
  unfold maxSize at hSize
  refine Ensures.bind (P := fun r => r.2 = 4 ∧ pos.toNat + 4 ≤ byteBuf.bytes.length)
    (Ensures.of_value fun r h => ?_) fun r hr => ?_
  · obtain ⟨bytes, hFetch, hr⟩ := bind_eq_ok.mp h
    rw [← Except.ok.inj hr]
    exact ⟨rfl, (fetch_eq_ok.mp hFetch).1⟩
  · refine (Ensures.trivial _).bind fun _ _ => ?_
    refine (Ensures.of_value fun _ h => (fetch_eq_ok.mp h).1).bind fun data hIn => ?_
    rw [hr.1] at hIn ⊢
    have hFour : (4 : UInt64).toNat = 4 := rfl
    rw [Ensures.pure_iff, ← UInt64.add_assoc, UInt64.toNat_add]
    rw [UInt64.toNat_add, hFour] at hIn ⊢
    omega

theorem readUTFString_reads :
    Ensures (fun _ => True) (fun r => 0 < (pos + r.2).toNat ∧
      (pos + r.2).toNat ≤ byteBuf.bytes.length) (readUTFString env byteBuf pos) := by
  refine readString_reads.bind fun r hReads => ?_
  exact (Ensures.trivial _).bind fun _ _ => hReads

theorem readData_reads :
    Ensures (fun _ => True) (fun r => 0 < r.2.toNat ∧ r.2.toNat ≤ byteBuf.bytes.length)
      (readData env byteBuf) := by
  refine (Ensures.trivial _).bind fun _ _ => ?_
  refine (Ensures.trivial _).bind fun _ _ => ?_
  refine (Ensures.trivial _).bind fun _ _ => ?_
  refine (Ensures.trivial _).bind fun _ _ => ?_
  refine (Ensures.trivial _).bind fun _ _ => ?_
  refine (Ensures.trivial _).bind fun _ _ => ?_
  refine (Ensures.trivial _).bind fun _ _ => ?_
  exact readUTFString_reads.bind fun r hReads => hReads

theorem createLoggingEvent_sound (env : Env) : Sound (createLoggingEvent env) :=
  load_sound
    (fun _ _ _ h => ⟨(readData_reads.value h).1, (readData_reads.value h).2, _, rfl⟩)
    fun _ _ h => readData_settles h env

end Bytes

/-- What the documentation of `msgpack::unpack` says: an object or a parse error at the front of the
data is there whatever follows, and an object takes at least a byte and only bytes of the data. -/
structure Host.UnpackLaws (host : Host) : Prop where
  repeats (bytes more : List UInt8) (h : host.unpack bytes ≠ .insufficientBytes) :
    host.unpack (bytes ++ more) = host.unpack bytes
  takes {bytes : List UInt8} {msg : Object} {readBytes : UInt64}
    (h : host.unpack bytes = .object msg readBytes) :
    0 < readBytes.toNat ∧ readBytes.toNat ≤ bytes.length

/-- An object takes at least a byte and only bytes of the data. -/
def Host.UnpackTakes (host : Host) : Prop :=
  ∀ (bytes : List UInt8) (msg : Object) (readBytes : UInt64),
    host.unpack bytes = .object msg readBytes → 0 < readBytes.toNat ∧ readBytes.toNat ≤ bytes.length

theorem Host.UnpackLaws.unpackTakes {host : Host} (h : host.UnpackLaws) : host.UnpackTakes :=
  fun _ _ _ => h.takes

namespace Msgpack

variable {host : Host}

theorem readData_settles (hUnpack : host.UnpackLaws) {byteBuf' : ByteBuf}
    (h : byteBuf.bytes <+: byteBuf'.bytes) :
    Settles Fail.more (readData host byteBuf) (readData host byteBuf') := by
  obtain ⟨more, hMore⟩ := h
  unfold readData
  rw [← hMore]
  by_cases hSmall : host.unpack byteBuf.bytes = .insufficientBytes
  · rw [hSmall]
    exact .wants True.intro
  · rw [hUnpack.repeats _ _ hSmall]
    exact .refl _

theorem readData_reads (hUnpack : host.UnpackTakes) :
    Ensures (fun _ => True) (fun r => 0 < r.2.toNat ∧ r.2.toNat ≤ byteBuf.bytes.length)
      (readData host byteBuf) := by
  unfold readData
  split
  · exact True.intro
  · exact True.intro
  next msg readBytes h =>
    iterate 18 refine (Ensures.trivial _).bind fun _ _ => ?_
    exact hUnpack _ _ _ h

theorem createLoggingEvent_sound (hUnpack : host.UnpackLaws) : Sound (createLoggingEvent host) :=
  load_sound
    (fun _ _ _ h => ⟨((readData_reads hUnpack.unpackTakes).value h).1,
      ((readData_reads hUnpack.unpackTakes).value h).2, _, rfl⟩)
    fun _ _ h => readData_settles hUnpack h

end Msgpack

theorem Protocol.createLoggingEvent_sound {host : Host} (hUnpack : host.UnpackLaws)
    (protocol : Protocol) : Sound (protocol.createLoggingEvent host) := by
  cases protocol with
  | default => exact Default.createLoggingEvent_sound host.env
  | bytes => exact Bytes.createLoggingEvent_sound host.env
  | msgpack => exact Msgpack.createLoggingEvent_sound hUnpack

end LogSocket
