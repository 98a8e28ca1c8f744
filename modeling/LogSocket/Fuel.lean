import LogSocket.Client

/-! The turns that the tag loop of a class descriptor is given do not matter once there are more of
them than bytes in the buffer, since every turn reads a byte at an offset of its own or comes back to
one. -/

namespace LogSocket.Default

open Lib ByteBuf

variable {byteBuf : ByteBuf} {env : Env} {pos : UInt64} {m n : Nat}

theorem readByte_eq_ok {r : UInt8 × UInt64} :
    readByte byteBuf pos = .ok r ↔ ∃ byte, byteBuf.bytes[pos.toNat]? = some byte ∧ r = (byte, 1) := by
  unfold readByte
  rw [bind_eq_ok]
  constructor
  · rintro ⟨bytes, hFetch, hr⟩
    obtain ⟨hin, rfl⟩ := fetch_eq_ok.mp hFetch
    rw [UInt64.toNat_one] at hin hr
    have hGet := List.getElem?_eq_getElem (show pos.toNat < byteBuf.bytes.length by omega)
    refine ⟨_, hGet, ?_⟩
    rw [← List.head?_drop] at hGet
    rw [← Except.ok.inj hr, List.headD_eq_head?_getD, List.head?_take, if_neg (by decide), hGet]
    rfl
  · rintro ⟨byte, hGet, rfl⟩
    obtain ⟨hin, -⟩ := List.getElem?_eq_some_iff.mp hGet
    refine ⟨_, fetch_eq_ok.mpr ⟨by rw [UInt64.toNat_one]; omega, rfl⟩, ?_⟩
    rw [← List.head?_drop] at hGet
    rw [UInt64.toNat_one, List.headD_eq_head?_getD, List.head?_take, if_neg (by decide), hGet]
    rfl

theorem readByte_lt {r : UInt8 × UInt64} (h : readByte byteBuf pos = .ok r) :
    pos.toNat < byteBuf.bytes.length := by
  obtain ⟨_, hGet, -⟩ := readByte_eq_ok.mp h
  exact (List.getElem?_eq_some_iff.mp hGet).1

/-- A turn that goes on has read a byte of the buffer. -/
theorem tagTurn_live (readPos : UInt64) (h : (goesOn (tagTurn env byteBuf pos) readPos).isSome) :
    (pos + readPos).toNat < byteBuf.bytes.length := by
  obtain ⟨readPos', hNext⟩ := Option.isSome_iff_exists.mp h
  obtain ⟨r, hByte, -⟩ := bind_eq_ok.mp (goesOn_eq_some.mp hNext)
  exact readByte_lt hByte

theorem pos_add_injective (pos : UInt64) :
    Function.Injective fun readPos : UInt64 => (pos + readPos).toNat :=
  fun _ _ h => (UInt64.add_right_inj pos).mp (UInt64.toNat_inj.mp h)

section

variable (hm : byteBuf.bytes.length < m) (hn : byteBuf.bytes.length < n)
include hm hn

theorem readTags_fuel (readPos : UInt64) :
    readTags env m byteBuf pos readPos = readTags env n byteBuf pos readPos :=
  loop_fuel (pos_add_injective pos) tagTurn_live hm hn

theorem readProlog_fuel (classDesc : List UInt8) :
    readProlog env m byteBuf pos classDesc = readProlog env n byteBuf pos classDesc := by
  unfold readProlog
  simp only [readTags_fuel hm hn]

theorem readObject_fuel (value : MDC) (skipTypeClass : Bool) :
    readObject env m byteBuf pos value skipTypeClass =
      readObject env n byteBuf pos value skipTypeClass := by
  unfold readObject
  simp only [readProlog_fuel hm hn]

theorem readLocationInfo_fuel :
    readLocationInfo env m byteBuf pos = readLocationInfo env n byteBuf pos := by
  unfold readLocationInfo
  simp only [readProlog_fuel hm hn]

theorem readMDC_fuel : readMDC env m byteBuf pos = readMDC env n byteBuf pos := by
  unfold readMDC
  simp only [readObject_fuel hm hn]

theorem readBeforeLocation_fuel :
    readBeforeLocation env m byteBuf = readBeforeLocation env n byteBuf := by
  unfold readBeforeLocation
  simp only [readProlog_fuel hm hn]

theorem readBeforeMDC_fuel : readBeforeMDC env m byteBuf = readBeforeMDC env n byteBuf := by
  unfold readBeforeMDC
  simp only [readBeforeLocation_fuel hm hn, readLocationInfo_fuel hm hn]

theorem readMessage_fuel : readMessage env m byteBuf = readMessage env n byteBuf := by
  unfold readMessage
  simp only [readBeforeMDC_fuel hm hn, readMDC_fuel hm hn]

theorem createLoggingEvent_fuel :
    createLoggingEventFuel env m byteBuf = createLoggingEventFuel env n byteBuf := by
  unfold createLoggingEventFuel load
  rw [readMessage_fuel hm hn]

end

theorem createLoggingEvent_eq (h : byteBuf.bytes.length < n) :
    createLoggingEvent env byteBuf = createLoggingEventFuel env n byteBuf :=
  createLoggingEvent_fuel (Nat.lt_succ_self _) h

end LogSocket.Default
