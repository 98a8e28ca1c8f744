import LogSocket.Lib.Endian
import LogSocket.Lib.Pieces

/-! The Python server for pickled records, `LogRecordStreamHandler`, on a connection whose peer sends
payloads, each behind its length, and closes it. The body of a payload is read until it is complete,
but the length is read by a single call. -/

namespace LogSocket

open Lib

/-- How a handler stands after some turns of its loops: it may have returned, an exception may have
left it, or it may still be running. -/
inductive Status (ε : Type)
  | returned
  | raised (e : ε)
  | running
  deriving DecidableEq

namespace LogRecordStreamHandler

variable {ε : Type}

/-- `while len(chunk) < slen: chunk = chunk + self.connection.recv(slen - len(chunk))` -/
def bodyTurn (slen : Nat) (chunk : List UInt8) : Reader UInt8 (List UInt8 ⊕ List UInt8) := do
  if chunk.length < slen then
    let more ← Reader.recv (slen - chunk.length)
    pure (.inl (chunk ++ more))
  else pure (.inr chunk)

/-- A turn of `handle`, with the payloads that were passed to `unPickle` before it. `log` is what
`unPickle`, `makeLogRecord` and `handleLogRecord` do with a payload. -/
def turn (log : List UInt8 → Except ε Unit) (fuel : Nat) (passed : List (List UInt8)) :
    Reader UInt8 (List (List UInt8) ⊕ List (List UInt8) × Status ε) := do
  let chunk ← Reader.recv 4
  if chunk.length < 4 then pure (.inr (passed, .returned))
  else
    let slen := le chunk.reverse
    let chunk ← Reader.recv slen
    match ← Calls.loop (bodyTurn slen) fuel chunk with
    | .inl _ => pure (.inr (passed, .running))
    | .inr chunk =>
      match log chunk with
      | .ok () => pure (.inl (passed ++ [chunk]))
      | .error e => pure (.inr (passed ++ [chunk], .raised e))

/-- The payloads that are passed to `unPickle` in at most `fuel` turns of each loop, and how `handle`
stands then. -/
def handle (log : List UInt8 → Except ε Unit) (fuel : Nat) :
    Reader UInt8 (List (List UInt8) × Status ε) := do
  match ← Calls.loop (turn log fuel) fuel [] with
  | .inl passed => pure (passed, .running)
  | .inr result => pure result

/-- The payload behind its length of four bytes. -/
def frame (payload : List UInt8) : List UInt8 := beBytes 4 payload.length ++ payload

/-- What the peer sends before it closes the connection. -/
def stream (payloads : List (List UInt8)) : List UInt8 := payloads.flatMap frame

/-- `handle` passes exactly these payloads to `unPickle` and then returns. -/
def Delivers (log : List UInt8 → Except ε Unit) (pieces : Pieces) (payloads : List (List UInt8)) :
    Prop :=
  ∃ enough, ∀ fuel ≥ enough,
    (pieces.run (handle log fuel) ⟨0, stream payloads⟩).1 = (payloads, .returned)

/-- The call for the length of each payload gives all four bytes. -/
def HeadersWhole (pieces : Pieces) : Nat → List (List UInt8) → Prop
  | _, [] => True
  | place, payload :: payloads =>
    pieces.count place 4 = 4 ∧ HeadersWhole pieces (place + (frame payload).length) payloads

/-- What `handle` comes to with the payloads from a place on. -/
def outcome (log : List UInt8 → Except ε Unit) (pieces : Pieces) :
    Nat → List (List UInt8) → List (List UInt8) × Status ε
  | _, [] => ([], .returned)
  | place, payload :: payloads =>
    if pieces.count place 4 < 4 then ([], .returned)
    else
      match log payload with
      | .ok () =>
        let (passed, status) := outcome log pieces (place + (frame payload).length) payloads
        (payload :: passed, status)
      | .error e => ([payload], .raised e)

variable {log : List UInt8 → Except ε Unit} {pieces : Pieces} {payload : List UInt8}
  {payloads : List (List UInt8)}

theorem frame_length : (frame payload).length = 4 + payload.length := by
  simp [frame]

/-- The loop over the body takes what is missing, however it is split. -/
theorem run_body {slen fuel : Nat} {chunk : List UInt8} (data rest : List UInt8) (place : Nat)
    (hLength : chunk.length + data.length = slen) (hFuel : data.length < fuel) :
    pieces.run (Calls.loop (bodyTurn slen) fuel chunk) ⟨place, data ++ rest⟩ =
      (.inr (chunk ++ data), ⟨place + data.length, rest⟩) := by
  induction fuel generalizing chunk data place with
  | zero => omega
  | succ fuel ih =>
    by_cases hData : data = []
    · subst hData
      refine Pieces.run_loop_stop ?_
      simp at hLength
      simp [bodyTurn, hLength]
    · have hPos : 0 < data.length := List.length_pos_iff.mpr hData
      have hSize : data.length = slen - chunk.length := by omega
      have hCount := pieces.count_le place (slen - chunk.length)
      have hSome := pieces.count_pos place (slen - chunk.length) (by omega)
      have hAnswer := pieces.answer_append _ place data rest hSize
      generalize pieces.count place (slen - chunk.length) = count at hCount hSome hAnswer
      have hTurn : pieces.run (bodyTurn slen chunk) ⟨place, data ++ rest⟩ =
          (.inl (chunk ++ data.take count), ⟨place + count, data.drop count ++ rest⟩) := by
        rw [bodyTurn, if_pos (by omega), Pieces.run_bind, Pieces.run_recv, hAnswer]
        have hLe : count ≤ data.length := by omega
        simp [Unread.skip, hLe, List.drop_append_of_le_length]
      rw [Pieces.run_loop_succ hTurn,
        ih (data.drop count) (place + count) (by simp; omega) (by simp; omega)]
      simp
      omega

/-- A short answer to the call for the length ends the loop, be it that the stream ends there or not. -/
theorem run_turn_short {place : Nat} {rest : List UInt8}
    (h : rest.length < 4 ∨ pieces.count place 4 < 4) (passed : List (List UInt8)) (fuel : Nat) :
    (pieces.run (turn log fuel passed) ⟨place, rest⟩).1 = .inr (passed, .returned) := by
  have hLength : (pieces.answer 4 ⟨place, rest⟩).length < 4 := by
    rw [Pieces.answer, List.length_take]
    dsimp only
    omega
  rw [turn, Pieces.run_bind, Pieces.run_recv]
  simp [hLength]

/-- With the whole length, the payload is passed on. -/
theorem run_turn_whole (log : List UInt8 → Except ε Unit) {place : Nat} (h : ¬ pieces.count place 4 < 4)
    (hSize : payload.length < 2 ^ 32) (passed : List (List UInt8)) {fuel : Nat}
    (hFuel : payload.length < fuel) (rest : List UInt8) :
    pieces.run (turn log fuel passed) ⟨place, frame payload ++ rest⟩ =
      ((match log payload with
        | .ok () => .inl (passed ++ [payload])
        | .error e => .inr (passed ++ [payload], .raised e)),
        ⟨place + (frame payload).length, rest⟩) := by
  have hWhole : pieces.count place 4 = 4 := by
    have := pieces.count_le place 4
    omega
  have hHeader := Pieces.answer_whole (payload ++ rest) (beBytes_length 4 payload.length) hWhole
  have hLen : le (beBytes 4 payload.length).reverse = payload.length :=
    le_reverse_beBytes (by simpa using hSize)
  have hCount := pieces.count_le (place + 4) payload.length
  have hBody := pieces.answer_append payload.length (place + 4) payload rest rfl
  generalize pieces.count (place + 4) payload.length = count at hCount hBody
  have hRest : pieces.run (Calls.loop (bodyTurn payload.length) fuel (payload.take count))
      ⟨place + 4 + count, payload.drop count ++ rest⟩ =
        (.inr (payload.take count ++ payload.drop count),
          ⟨place + 4 + count + (payload.drop count).length, rest⟩) :=
    run_body _ rest _ (by simp; omega) (by simp; omega)
  rw [frame_length, frame, List.append_assoc, turn, Pieces.run_bind, Pieces.run_recv, hHeader]
  simp only [beBytes_length, Nat.lt_irrefl, if_false, hLen]
  rw [Pieces.run_bind, Pieces.run_recv]
  have hSkip : (Unread.mk place (beBytes 4 payload.length ++ (payload ++ rest))).skip 4 =
      ⟨place + 4, payload ++ rest⟩ := by simp [Unread.skip]
  rw [hSkip, hBody]
  have hSkip' : (Unread.mk (place + 4) (payload ++ rest)).skip (payload.take count).length =
      ⟨place + 4 + count, payload.drop count ++ rest⟩ := by
    simp [Unread.skip, hCount, List.drop_append_of_le_length]
  rw [hSkip', Pieces.run_bind, hRest]
  have hEnd : place + 4 + count + (payload.drop count).length = place + (4 + payload.length) := by
    simp
    omega
  rw [hEnd, List.take_append_drop]
  dsimp only
  cases log payload with
  | ok _ => rfl
  | error e => rfl

/-- The turns over the payloads from a place on. -/
theorem run_turns {fuel n : Nat} (place : Nat) (hSize : ∀ payload ∈ payloads, payload.length < 2 ^ 32)
    (hFuel : ∀ payload ∈ payloads, payload.length < fuel) (hTurns : payloads.length < n)
    (passed : List (List UInt8)) :
    (pieces.run (Calls.loop (turn log fuel) n passed) ⟨place, stream payloads⟩).1 =
      .inr (passed ++ (outcome log pieces place payloads).1,
        (outcome log pieces place payloads).2) := by
  induction payloads generalizing n place passed with
  | nil =>
    obtain ⟨n, rfl⟩ := Nat.exists_eq_succ_of_ne_zero (Nat.ne_zero_of_lt hTurns)
    have hTurn : (pieces.run (turn log fuel passed) ⟨place, stream []⟩).1 =
        .inr (passed, .returned) := run_turn_short (.inl (by simp [stream])) passed fuel
    rw [Pieces.run_loop_stop (Prod.ext hTurn rfl)]
    simp [outcome]
  | cons payload payloads ih =>
    obtain ⟨n, rfl⟩ := Nat.exists_eq_succ_of_ne_zero (Nat.ne_zero_of_lt hTurns)
    have hRest := ih (place + (frame payload).length) (fun p hp => hSize p (by simp [hp]))
      (fun p hp => hFuel p (by simp [hp])) (Nat.lt_of_succ_lt_succ hTurns)
    rw [show stream (payload :: payloads) = frame payload ++ stream payloads from rfl]
    by_cases hShort : pieces.count place 4 < 4
    · have hTurn : (pieces.run (turn log fuel passed)
          ⟨place, frame payload ++ stream payloads⟩).1 = .inr (passed, .returned) :=
        run_turn_short (.inr hShort) passed fuel
      rw [Pieces.run_loop_stop (Prod.ext hTurn rfl), outcome, if_pos hShort]
      simp
    · have hTurn := run_turn_whole log hShort (hSize payload (by simp)) passed
        (hFuel payload (by simp)) (stream payloads)
      rw [outcome, if_neg hShort]
      cases hLog : log payload with
      | ok _ =>
        rw [hLog] at hTurn
        rw [Pieces.run_loop_succ hTurn, hRest]
        simp
      | error e =>
        rw [hLog] at hTurn
        rw [Pieces.run_loop_stop hTurn]

theorem length_lt_stream (h : payload ∈ payloads) : payload.length < (stream payloads).length := by
  obtain ⟨before, after, rfl⟩ := List.append_of_mem h
  simp [stream, frame]
  omega

theorem length_le_stream (payloads : List (List UInt8)) :
    payloads.length ≤ (stream payloads).length := by
  induction payloads with
  | nil => simp [stream]
  | cons payload payloads ih =>
    simp [stream, frame] at ih ⊢
    omega

/-- With enough turns, `handle` comes to its outcome. -/
theorem run_handle (hSize : ∀ payload ∈ payloads, payload.length < 2 ^ 32) {fuel : Nat}
    (hFuel : (stream payloads).length < fuel) :
    (pieces.run (handle log fuel) ⟨0, stream payloads⟩).1 = outcome log pieces 0 payloads := by
  have hTurns : (pieces.run (Calls.loop (turn log fuel) fuel []) ⟨0, stream payloads⟩).1 = _ :=
    run_turns 0 hSize (fun p hp => (length_lt_stream hp).trans hFuel)
      ((length_le_stream payloads).trans_lt hFuel) []
  rw [handle, Pieces.run_bind, hTurns]
  simp

/-- All the payloads are passed on exactly if no length is cut and no payload raises. -/
theorem outcome_iff (place : Nat) :
    outcome log pieces place payloads = (payloads, .returned) ↔
      HeadersWhole pieces place payloads ∧ ∀ payload ∈ payloads, log payload = .ok () := by
  induction payloads generalizing place with
  | nil => simp [outcome, HeadersWhole]
  | cons payload payloads ih =>
    have hLe := pieces.count_le place 4
    have hRest := ih (place + (frame payload).length)
    by_cases hShort : pieces.count place 4 < 4
    · have hNe : pieces.count place 4 ≠ 4 := by omega
      simp [outcome, HeadersWhole, hShort, hNe]
    · have hEq : pieces.count place 4 = 4 := by omega
      cases hLog : log payload with
      | ok _ =>
        simp [Prod.ext_iff] at hRest
        simp [outcome, HeadersWhole, hEq, hLog, Prod.ext_iff, hRest]
      | error e => simp [outcome, hEq, hLog]

/-- Whatever is passed on is a first part of the payloads. -/
theorem outcome_prefix (log : List UInt8 → Except ε Unit) (pieces : Pieces) (place : Nat)
    (payloads : List (List UInt8)) :
    (outcome log pieces place payloads).1 <+: payloads ∧
      (outcome log pieces place payloads).2 ≠ .running := by
  induction payloads generalizing place with
  | nil => simp [outcome]
  | cons payload payloads ih =>
    rw [outcome]
    split
    · simp
    · cases log payload with
      | ok _ => simpa using ih _
      | error e => simp

/-- However the stream is split, `handle` ends, and the payloads that it passes to `unPickle` are the
first ones that were sent. -/
theorem handle_prefix (hSize : ∀ payload ∈ payloads, payload.length < 2 ^ 32) {fuel : Nat}
    (hFuel : (stream payloads).length < fuel) {passed : List (List UInt8)} {status : Status ε}
    {rest : List UInt8} (h : Run (handle log fuel) (stream payloads) (passed, status) rest) :
    passed <+: payloads ∧ status ≠ .running := by
  rcases h.exists_pieces 0 with ⟨pieces, place, hRun⟩
  have hOutcome : (pieces.run (handle log fuel) ⟨0, stream payloads⟩).1 = _ :=
    run_handle hSize hFuel
  rw [hRun] at hOutcome
  have hPrefix := outcome_prefix log pieces 0 payloads
  rwa [← hOutcome] at hPrefix

/-- The payloads arrive exactly if no call for a length is answered in part, and none of them makes
`unPickle` or what follows it raise an exception. -/
theorem delivers_all_iff (hSize : ∀ payload ∈ payloads, payload.length < 2 ^ 32) :
    Delivers log pieces payloads ↔
      HeadersWhole pieces 0 payloads ∧ ∀ payload ∈ payloads, log payload = .ok () := by
  rw [← outcome_iff]
  constructor
  · rintro ⟨enough, h⟩
    have hFuel : (stream payloads).length < max enough ((stream payloads).length + 1) := by omega
    rw [← run_handle hSize hFuel]
    exact h _ (Nat.le_max_left _ _)
  · intro h
    refine ⟨(stream payloads).length + 1, fun fuel hFuel => ?_⟩
    rw [run_handle hSize (by omega), h]

/-- Three payloads, of which at most four bytes arrive at once. -/
def samplePayloads : List (List UInt8) :=
  [[0x61, 0x62, 0x63, 0x64, 0x65, 0x66, 0x67, 0x68, 0x69], [], [0x6A, 0x6B, 0x6C, 0x6D, 0x6E]]

theorem delivers_all_iff_parts :
    Delivers (fun _ => (.ok () : Except Empty Unit)) (.atMost 4 (by decide)) samplePayloads ↔
      HeadersWhole (.atMost 4 (by decide)) 0 samplePayloads ∧
        ∀ payload ∈ samplePayloads,
          (fun _ : List UInt8 => (.ok () : Except Empty Unit)) payload = .ok () :=
  delivers_all_iff (by simp [samplePayloads])

/-- A length that arrives in two parts is taken for the end of the stream. -/
theorem not_delivers :
    ¬ ∀ (pieces : Pieces) (payloads : List (List UInt8)),
      (∀ payload ∈ payloads, payload.length < 2 ^ 32) →
        Delivers (fun _ => (.ok () : Except Empty Unit)) pieces payloads := by
  intro h
  have hSize : ∀ payload ∈ [[(0x61 : UInt8)]], payload.length < 2 ^ 32 := by simp
  rcases h (.atMost 2 (by decide)) [[0x61]] hSize with ⟨enough, hRun⟩
  have hFuel : (stream [[0x61]]).length < max enough 6 := by
    simp [stream, frame]
  have hPassed := hRun _ (Nat.le_max_left enough 6)
  rw [run_handle hSize hFuel] at hPassed
  simp [outcome, Pieces.atMost] at hPassed

end LogRecordStreamHandler

end LogSocket
