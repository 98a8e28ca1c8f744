import Mathlib.Data.List.Infix
import LogSocket.Event

/-! What the three loaders share: the check of the start flag of a stream, and the frame of
`createLoggingEvent`, which reads from the front of the buffer, erases what it read and builds the
event. -/

namespace LogSocket

/-- `LoggingEventFunc`: the event or the failure, and the buffer afterwards. -/
abbrev LoggingEventFunc := ByteBuf → Except Fail LoggingEvent × ByteBuf

/-- `readStart`, for the start flag of a protocol. -/
def readFlag (start : List UInt8) (env : Env) (byteBuf : ByteBuf) : Except Fail UInt64 := do
  let bytes ← byteBuf.fetch 0 4
  env.assert (bytes == start)
  require (bytes == start) (.invalid .start)
  pure 4

theorem erase_four {byteBuf : ByteBuf} (h : 4 ≤ byteBuf.bytes.length) :
    byteBuf.erase 4 = .ok (byteBuf.drop 4) := by
  refine if_pos ?_
  rw [UInt64.le_iff_toNat_le, ByteBuf.size_toNat]
  exact h

def eraseRead (env : Env) (byteBuf : ByteBuf) (readBytes : UInt64) : Except Fail ByteBuf := do
  env.assert (readBytes ≤ byteBuf.size)
  byteBuf.erase readBytes

/-- Reads a value, erases the bytes that were read and builds the event. The buffer keeps its bytes
when the reading fails. -/
def load {α : Type} (env : Env) (read : ByteBuf → Except Fail (α × UInt64))
    (create : α → Except Fail LoggingEvent) : LoggingEventFunc := fun byteBuf =>
  match read byteBuf with
  | .error e => (.error e, byteBuf)
  | .ok (value, readBytes) =>
    match eraseRead env byteBuf readBytes with
    | .error e => (.error e, byteBuf)
    | .ok rest => (create value, rest)

section load

variable {α : Type} {env : Env} {read : ByteBuf → Except Fail (α × UInt64)}
  {create : α → Except Fail LoggingEvent} {byteBuf : ByteBuf}

theorem load_error {e : Fail} (h : read byteBuf = .error e) :
    load env read create byteBuf = (.error e, byteBuf) := by
  rw [load, h]

theorem eraseRead_ok {readBytes : UInt64} (h : readBytes.toNat ≤ byteBuf.bytes.length) :
    eraseRead env byteBuf readBytes = .ok (byteBuf.drop readBytes.toNat) := by
  have hSize : readBytes ≤ byteBuf.size := by
    rw [UInt64.le_iff_toNat_le, ByteBuf.size_toNat]
    exact h
  have hAssert : env.assert (decide (readBytes ≤ byteBuf.size)) = .ok () := by
    rw [Env.assert, decide_eq_true hSize, Bool.not_true, Bool.and_false]
    rfl
  rw [eraseRead, hAssert, ByteBuf.erase, if_pos hSize]
  rfl

theorem load_ok {value : α} {readBytes : UInt64} (h : read byteBuf = .ok (value, readBytes))
    (hSize : readBytes.toNat ≤ byteBuf.bytes.length) :
    load env read create byteBuf = (create value, byteBuf.drop readBytes.toNat) := by
  simp only [load, h, eraseRead_ok hSize]

end load

/-- What a server relies on: a loader takes a message from the front of the buffer or leaves the
buffer alone, and more bytes behind the buffer change nothing unless it was too small. -/
structure Sound (f : LoggingEventFunc) : Prop where
  takes (byteBuf : ByteBuf) : (∃ e, f byteBuf = (.error e, byteBuf)) ∨
    ∃ event n, 0 < n ∧ n ≤ byteBuf.bytes.length ∧ f byteBuf = (.ok event, byteBuf.drop n)
  repeats {byteBuf byteBuf' : ByteBuf} (h : byteBuf.bytes <+: byteBuf'.bytes) {event : LoggingEvent}
    {n : Nat} (hn : n ≤ byteBuf.bytes.length) (hf : f byteBuf = (.ok event, byteBuf.drop n)) :
    f byteBuf' = (.ok event, byteBuf'.drop n)
  fails {byteBuf byteBuf' : ByteBuf} (h : byteBuf.bytes <+: byteBuf'.bytes) {e : Fail}
    (he : ¬e.more) (hf : f byteBuf = (.error e, byteBuf)) : f byteBuf' = (.error e, byteBuf')

/-- What `Sound` says of one buffer. -/
def Takes (f : LoggingEventFunc) (byteBuf : ByteBuf) : Prop :=
  (∃ e, f byteBuf = (.error e, byteBuf)) ∨
    ∃ event n, 0 < n ∧ n ≤ byteBuf.bytes.length ∧ f byteBuf = (.ok event, byteBuf.drop n)

/-- A message that a loader takes whole is also taken from in front of other bytes. -/
theorem Sound.takes_front {f : LoggingEventFunc} (hSound : Sound f) {message empty : ByteBuf}
    {event : LoggingEvent} (hCall : f message = (.ok event, empty)) (hEmpty : empty.bytes = [])
    {byteBuf : ByteBuf} {rest : List UInt8} (hBytes : byteBuf.bytes = message.bytes ++ rest) :
    ∃ rest' : ByteBuf, f byteBuf = (.ok event, rest') ∧ rest'.bytes = rest := by
  obtain ⟨e, hError⟩ | ⟨event', n, hPos, hLe, hOk⟩ := hSound.takes message
  · rw [hError] at hCall
    cases hCall
  · rw [hOk] at hCall
    cases hCall
    have hLength : n = message.bytes.length := by
      rw [ByteBuf.drop_bytes, List.drop_eq_nil_iff] at hEmpty
      omega
    have hPrefix : message.bytes <+: byteBuf.bytes := ⟨rest, hBytes.symm⟩
    refine ⟨byteBuf.drop n, hSound.repeats hPrefix hLe hOk, ?_⟩
    rw [ByteBuf.drop_bytes, hBytes, hLength, List.drop_left]

/-- From the front of a buffer a loader takes the first message of all of it, or it waits for more. -/
theorem Sound.front {f : LoggingEventFunc} (hSound : Sound f) {whole rest byteBuf : ByteBuf}
    {event : LoggingEvent} (hCall : f whole = (.ok event, rest))
    (hFront : byteBuf.bytes <+: whole.bytes) :
    (∃ e : Fail, e.more ∧ f byteBuf = (.error e, byteBuf) ∧ byteBuf.bytes ≠ whole.bytes) ∨
      ∃ left, f byteBuf = (.ok event, left) ∧ left.bytes.length < byteBuf.bytes.length ∧
        left.bytes <+: rest.bytes ∧ (byteBuf.bytes = whole.bytes → left.bytes = rest.bytes) := by
  obtain ⟨e, hError⟩ | ⟨event', n, hPos, hLe, hOk⟩ := hSound.takes byteBuf
  · refine .inl ⟨e, ?_, hError, fun hAll => ?_⟩
    · by_contra hNot
      cases (hSound.fails hFront hNot hError).symm.trans hCall
    · rw [ByteBuf.ext hAll, hCall] at hError
      cases hError
  · obtain ⟨hSame, rfl⟩ := Prod.mk.inj ((hSound.repeats hFront hLe hOk).symm.trans hCall)
    obtain rfl := Except.ok.inj hSame
    refine .inr ⟨byteBuf.drop n, hOk, ?_, hFront.drop n, fun hAll => ?_⟩
    · rw [ByteBuf.drop_bytes, List.length_drop]
      omega
    · rw [ByteBuf.drop_bytes, ByteBuf.drop_bytes, hAll]

open Lib in
theorem load_sound {α : Type} {env : Env} {read : ByteBuf → Except Fail (α × UInt64)}
    {create : α → Except Fail LoggingEvent}
    (hReads : ∀ byteBuf value n, read byteBuf = .ok (value, n) →
      0 < n.toNat ∧ n.toNat ≤ byteBuf.bytes.length ∧ ∃ event, create value = .ok event)
    (hSettles : ∀ byteBuf byteBuf' : ByteBuf, byteBuf.bytes <+: byteBuf'.bytes →
      Settles Fail.more (read byteBuf) (read byteBuf')) : Sound (load env read create) where
  takes byteBuf := by
    cases hRead : read byteBuf with
    | error e => exact .inl ⟨e, load_error hRead⟩
    | ok r =>
      obtain ⟨hPos, hLe, event, hCreate⟩ := hReads byteBuf r.1 r.2 hRead
      exact .inr ⟨event, r.2.toNat, hPos, hLe, by rw [load_ok hRead hLe, hCreate]⟩
  repeats {byteBuf byteBuf'} h {event n} hn hf := by
    cases hRead : read byteBuf with
    | error e =>
      rw [load_error hRead] at hf
      cases hf
    | ok r =>
      obtain ⟨-, hLe, event', hCreate⟩ := hReads byteBuf r.1 r.2 hRead
      rw [load_ok hRead hLe, Prod.mk.injEq] at hf
      have hLength := congrArg (fun rest => rest.bytes.length) hf.2
      simp only [ByteBuf.drop_bytes, List.length_drop] at hLength
      rw [load_ok ((hSettles _ _ h).value hRead) (hLe.trans h.length_le), hf.1,
        show r.2.toNat = n by omega]
  fails {byteBuf byteBuf'} h {e} he hf := by
    cases hRead : read byteBuf with
    | error e' =>
      rw [load_error hRead, Prod.mk.injEq] at hf
      obtain rfl := Except.error.inj hf.1
      exact load_error ((hSettles _ _ h).failure hRead he)
    | ok r =>
      obtain ⟨-, hLe, event, hCreate⟩ := hReads byteBuf r.1 r.2 hRead
      rw [load_ok hRead hLe, hCreate] at hf
      cases hf

end LogSocket
