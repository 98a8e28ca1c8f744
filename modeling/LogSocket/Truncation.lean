import LogSocket.PickleServer

/-! The Python server for pickled records on a stream that may end anywhere. An end inside of a length
or between two payloads is noticed; inside of a body it is not, since the loop over the body asks
again for what no call gives any more. -/

namespace LogSocket

open Lib

namespace LogRecordStreamHandler

variable {ε : Type} {log : List UInt8 → Except ε Unit} {pieces : Pieces} {bytes : List UInt8}
  {payloads : List (List UInt8)}

/-- `handle` ends on the stream: it returns, or an exception leaves it. -/
def Ends (log : List UInt8 → Except ε Unit) (pieces : Pieces) (bytes : List UInt8) : Prop :=
  ∃ enough, ∀ fuel ≥ enough, (pieces.run (handle log fuel) ⟨0, bytes⟩).1.2 ≠ .running

def Returns (log : List UInt8 → Except ε Unit) (pieces : Pieces) (bytes : List UInt8) : Prop :=
  ∃ enough, ∀ fuel ≥ enough, (pieces.run (handle log fuel) ⟨0, bytes⟩).1.2 = .returned

/-- `handle` gets past these payloads: the length of each of them arrives at once, and none of them
raises an exception. -/
structure Passes (log : List UInt8 → Except ε Unit) (pieces : Pieces) (payloads : List (List UInt8)) :
    Prop where
  size : ∀ payload ∈ payloads, payload.length < 2 ^ 32
  headers : HeadersWhole pieces 0 payloads
  logged : ∀ payload ∈ payloads, log payload = .ok ()

/-- Behind payloads that `handle` gets past a length arrives at once, and the stream ends before as
many bytes have come. -/
def CutInBody (log : List UInt8 → Except ε Unit) (pieces : Pieces) (bytes : List UInt8) : Prop :=
  ∃ payloads slen part, Passes log pieces payloads ∧
    bytes = stream payloads ++ (beBytes 4 slen ++ part) ∧
    pieces.count (stream payloads).length 4 = 4 ∧ part.length < slen ∧ slen < 2 ^ 32

/-- Behind payloads that `handle` gets past there is one that raises an exception. -/
def Raises (log : List UInt8 → Except ε Unit) (pieces : Pieces) (bytes : List UInt8) : Prop :=
  ∃ payloads payload rest e, Passes log pieces payloads ∧
    bytes = stream payloads ++ (frame payload ++ rest) ∧
    pieces.count (stream payloads).length 4 = 4 ∧ payload.length < 2 ^ 32 ∧
    log payload = .error e

/-- What ends the loop at a place of the stream, and how `handle` stands then. -/
inductive StopsAt (log : List UInt8 → Except ε Unit) (pieces : Pieces) (place : Nat) :
    List UInt8 → Status ε → Prop
  | short {rest : List UInt8} : rest.length < 4 ∨ pieces.count place 4 < 4 →
      StopsAt log pieces place rest .returned
  | cut {slen : Nat} {part : List UInt8} : pieces.count place 4 = 4 → part.length < slen →
      slen < 2 ^ 32 → StopsAt log pieces place (beBytes 4 slen ++ part) .running
  | raises {payload rest : List UInt8} {e : ε} : pieces.count place 4 = 4 →
      payload.length < 2 ^ 32 → log payload = .error e →
      StopsAt log pieces place (frame payload ++ rest) (.raised e)

/-- Once nothing is left to come, the loop over a body that is not complete never ends. -/
theorem run_body_cut {slen : Nat} {chunk : List UInt8} {u : Unread UInt8}
    (h : chunk.length + u.rest.length < slen) (fuel : Nat) :
    ∃ chunk', (pieces.run (Calls.loop (bodyTurn slen) fuel chunk) u).1 = .inl chunk' := by
  refine Pieces.run_loop_never
    (I := fun chunk (u : Unread UInt8) => chunk.length + u.rest.length < slen) ?_ fuel h
  intro chunk u hCut
  have hAdd := pieces.answer_length_add (slen - chunk.length) u
  have hTurn : pieces.run (bodyTurn slen chunk) u =
      (.inl (chunk ++ pieces.answer (slen - chunk.length) u),
        u.skip (pieces.answer (slen - chunk.length) u).length) := by
    rw [bodyTurn, if_pos (by omega), Pieces.run_bind, Pieces.run_recv]
    rfl
  refine ⟨_, _, hTurn, ?_⟩
  rw [List.length_append]
  omega

theorem run_turn_cut {place slen : Nat} {part : List UInt8} (h : pieces.count place 4 = 4)
    (hLt : slen < 2 ^ 32) (hPart : part.length < slen) (passed : List (List UInt8)) (fuel : Nat) :
    (pieces.run (turn log fuel passed) ⟨place, beBytes 4 slen ++ part⟩).1 =
      .inr (passed, .running) := by
  have hHeader := Pieces.answer_whole part (beBytes_length 4 slen) h
  have hSkip := Unread.skip_append place (beBytes 4 slen) part
  have hLen : le (beBytes 4 slen).reverse = slen := le_reverse_beBytes (by simpa using hLt)
  have hAdd := pieces.answer_length_add slen ⟨place + (beBytes 4 slen).length, part⟩
  rw [turn, Pieces.run_bind, Pieces.run_recv, hHeader, hSkip]
  simp only [beBytes_length, Nat.lt_irrefl, if_false, hLen] at hAdd ⊢
  rw [Pieces.run_bind, Pieces.run_recv]
  have hShort := hAdd.trans_lt hPart
  rcases run_body_cut hShort fuel with ⟨chunk, hChunk⟩
  rw [Pieces.run_bind, hChunk]
  rfl

theorem StopsAt.run_turn {place : Nat} {rest : List UInt8} {status : Status ε}
    (h : StopsAt log pieces place rest status) (passed : List (List UInt8)) {fuel : Nat}
    (hFuel : rest.length < fuel) :
    ∃ passed', (pieces.run (turn log fuel passed) ⟨place, rest⟩).1 = .inr (passed', status) := by
  cases h with
  | short hShort => exact ⟨passed, run_turn_short hShort passed fuel⟩
  | cut hWhole hPart hLt => exact ⟨passed, run_turn_cut hWhole hLt hPart passed fuel⟩
  | @raises payload rest e hWhole hSize hLog =>
    simp [frame] at hFuel
    have hTurn := run_turn_whole log (show ¬ pieces.count place 4 < 4 by omega) hSize passed
      (show payload.length < fuel by omega) rest
    rw [hLog] at hTurn
    rw [hTurn]
    exact ⟨_, rfl⟩

/-- The turns over payloads that `handle` gets past, and what is left behind them. -/
theorem run_turns_through {fuel : Nat} (place : Nat)
    (hSize : ∀ payload ∈ payloads, payload.length < 2 ^ 32)
    (hFuel : ∀ payload ∈ payloads, payload.length < fuel) (hWhole : HeadersWhole pieces place payloads)
    (hLog : ∀ payload ∈ payloads, log payload = .ok ()) (n : Nat) (passed : List (List UInt8))
    (rest : List UInt8) :
    pieces.run (Calls.loop (turn log fuel) (payloads.length + n) passed)
        ⟨place, stream payloads ++ rest⟩ =
      pieces.run (Calls.loop (turn log fuel) n (passed ++ payloads))
        ⟨place + (stream payloads).length, rest⟩ := by
  induction payloads generalizing place passed with
  | nil => simp [stream]
  | cons payload payloads ih =>
    have hTurn := run_turn_whole log (show ¬ pieces.count place 4 < 4 by have := hWhole.1; omega)
      (hSize payload (by simp)) passed (hFuel payload (by simp)) (stream payloads ++ rest)
    rw [hLog payload (by simp)] at hTurn
    rw [show stream (payload :: payloads) = frame payload ++ stream payloads from rfl,
      List.append_assoc, List.length_cons, Nat.succ_add, Pieces.run_loop_succ hTurn,
      ih _ (fun p hp => hSize p (by simp [hp])) (fun p hp => hFuel p (by simp [hp])) hWhole.2
        (fun p hp => hLog p (by simp [hp]))]
    simp [Nat.add_assoc]

/-- How `handle` stands in the end is decided where its loop stops. -/
theorem StopsAt.run_handle {rest : List UInt8} {status : Status ε}
    (h : StopsAt log pieces (stream payloads).length rest status) (hPasses : Passes log pieces payloads)
    {fuel : Nat} (hFuel : (stream payloads ++ rest).length < fuel) :
    (pieces.run (handle log fuel) ⟨0, stream payloads ++ rest⟩).1.2 = status := by
  rw [List.length_append] at hFuel
  have hPayloads := length_le_stream payloads
  obtain ⟨n, hn⟩ : ∃ n, fuel = payloads.length + (n + 1) := ⟨fuel - payloads.length - 1, by omega⟩
  have hThrough := run_turns_through 0 hPasses.size
    (fun p hp => (length_lt_stream hp).trans (show _ < fuel by omega)) hPasses.headers hPasses.logged
    (n + 1) [] rest
  rcases h.run_turn ([] ++ payloads) (show rest.length < fuel by omega) with ⟨passed, hTurn⟩
  rw [Nat.zero_add, Pieces.run_loop_stop (Prod.ext hTurn rfl), ← hn] at hThrough
  rw [handle, Pieces.run_bind, hThrough]
  rfl

/-! Where the loop stops. -/

theorem stream_append (payloads : List (List UInt8)) (payload : List UInt8) :
    stream (payloads ++ [payload]) = stream payloads ++ frame payload := by
  simp [stream]

/-- Any four bytes are a length. -/
theorem exists_header {rest : List UInt8} (h : 4 ≤ rest.length) :
    ∃ slen body, slen < 2 ^ 32 ∧ rest = beBytes 4 slen ++ body := by
  have hLength : (rest.take 4).length = 4 := by simp [h]
  have hLt := le_lt (rest.take 4).reverse
  have hHeader := leBytes_le (rest.take 4).reverse
  rw [List.length_reverse, hLength] at hLt hHeader
  refine ⟨le (rest.take 4).reverse, rest.drop 4, by omega, ?_⟩
  rw [beBytes, hHeader, List.reverse_reverse, List.take_append_drop]

theorem exists_payload {slen : Nat} {body : List UInt8} (h : slen ≤ body.length) :
    ∃ payload rest, beBytes 4 slen ++ body = frame payload ++ rest ∧ payload.length = slen := by
  have hLength : (body.take slen).length = slen := by simp [h]
  refine ⟨body.take slen, body.drop slen, ?_, hLength⟩
  rw [frame, hLength, List.append_assoc, List.take_append_drop]

theorem headersWhole_append {place : Nat} {payload : List UInt8}
    (h : HeadersWhole pieces place payloads)
    (hLast : pieces.count (place + (stream payloads).length) 4 = 4) :
    HeadersWhole pieces place (payloads ++ [payload]) := by
  induction payloads generalizing place with
  | nil => exact ⟨by simpa [stream] using hLast, trivial⟩
  | cons first payloads ih =>
    refine ⟨h.1, ih h.2 ?_⟩
    rw [Nat.add_assoc, ← List.length_append]
    exact hLast

theorem Passes.append {payload : List UInt8} (h : Passes log pieces payloads)
    (hWhole : pieces.count (stream payloads).length 4 = 4) (hSize : payload.length < 2 ^ 32)
    (hLog : log payload = .ok ()) : Passes log pieces (payloads ++ [payload]) where
  size := by simpa [or_imp, forall_and] using ⟨h.size, hSize⟩
  headers := headersWhole_append h.headers (by rwa [Nat.zero_add])
  logged := by simpa [or_imp, forall_and] using ⟨h.logged, hLog⟩

/-- The loop stops somewhere, since each turn that goes on takes a length from what is left. -/
theorem exists_stopsAt (rest : List UInt8) (hPasses : Passes log pieces payloads) :
    ∃ payloads' rest' status, Passes log pieces payloads' ∧
      stream payloads ++ rest = stream payloads' ++ rest' ∧
      StopsAt log pieces (stream payloads').length rest' status := by
  induction hn : rest.length using Nat.strong_induction_on generalizing payloads rest with
  | _ n ih =>
    subst hn
    by_cases hShort : rest.length < 4 ∨ pieces.count (stream payloads).length 4 < 4
    · exact ⟨payloads, rest, _, hPasses, rfl, .short hShort⟩
    have hCount : pieces.count (stream payloads).length 4 = 4 := by
      have := pieces.count_le (stream payloads).length 4
      omega
    rcases exists_header (show 4 ≤ rest.length by omega) with ⟨slen, body, hLt, rfl⟩
    by_cases hBody : body.length < slen
    · exact ⟨payloads, _, _, hPasses, rfl, .cut hCount hBody hLt⟩
    rcases exists_payload (Nat.le_of_not_lt hBody) with ⟨payload, rest, hSplit, hLength⟩
    rw [hSplit]
    cases hLog : log payload with
    | error e => exact ⟨payloads, _, _, hPasses, rfl, .raises hCount (by omega) hLog⟩
    | ok _ =>
      have hNext := ih rest.length (by rw [hSplit]; simp [frame]; omega) rest
        (hPasses.append hCount (by omega) hLog) rfl
      rwa [stream_append, List.append_assoc] at hNext

theorem CutInBody.run_handle (h : CutInBody log pieces bytes) {fuel : Nat}
    (hFuel : bytes.length < fuel) :
    (pieces.run (handle log fuel) ⟨0, bytes⟩).1.2 = .running := by
  rcases h with ⟨payloads, slen, part, hPasses, rfl, hCount, hPart, hLt⟩
  exact (StopsAt.cut hCount hPart hLt).run_handle hPasses hFuel

theorem Raises.run_handle (h : Raises log pieces bytes) :
    ∃ e, ∀ fuel > bytes.length, (pieces.run (handle log fuel) ⟨0, bytes⟩).1.2 = .raised e := by
  rcases h with ⟨payloads, payload, rest, e, hPasses, rfl, hCount, hSize, hLog⟩
  exact ⟨e, fun fuel hFuel => (StopsAt.raises hCount hSize hLog).run_handle hPasses hFuel⟩

/-- If the stream is neither cut in a body nor makes `handle` raise an exception, `handle` returns. -/
theorem handle_cases (log : List UInt8 → Except ε Unit) (pieces : Pieces) (bytes : List UInt8) :
    CutInBody log pieces bytes ∨ Raises log pieces bytes ∨
      ∀ fuel > bytes.length, (pieces.run (handle log fuel) ⟨0, bytes⟩).1.2 = .returned := by
  have hNone : Passes log pieces [] := ⟨by simp, trivial, by simp⟩
  rcases exists_stopsAt bytes hNone with ⟨payloads, rest, status, hPasses, hBytes, hStop⟩
  rw [show stream [] ++ bytes = bytes from rfl] at hBytes
  subst hBytes
  cases hStop with
  | short hShort => exact .inr (.inr fun fuel => (StopsAt.short hShort).run_handle hPasses)
  | cut hCount hPart hLt => exact .inl ⟨payloads, _, _, hPasses, rfl, hCount, hPart, hLt⟩
  | raises hCount hSize hLog =>
    exact .inr (.inl ⟨payloads, _, _, _, hPasses, rfl, hCount, hSize, hLog⟩)

theorem CutInBody.not_ends (h : CutInBody log pieces bytes) : ¬ Ends log pieces bytes := by
  rintro ⟨enough, hEnds⟩
  exact hEnds (max enough (bytes.length + 1)) (by omega) (h.run_handle (by omega))

/-- However the calls split the stream, `handle` ends on it exactly if it is not cut in a body, and it
returns exactly if, besides, no payload makes it raise an exception. -/
theorem returns_iff (log : List UInt8 → Except ε Unit) (pieces : Pieces) (bytes : List UInt8) :
    (Ends log pieces bytes ↔ ¬ CutInBody log pieces bytes) ∧
      (Returns log pieces bytes ↔ ¬ CutInBody log pieces bytes ∧ ¬ Raises log pieces bytes) := by
  refine ⟨⟨fun hEnds hCut => hCut.not_ends hEnds, fun hCut => ?_⟩, ?_, fun ⟨hCut, hRaises⟩ => ?_⟩
  · refine ⟨bytes.length + 1, fun fuel hFuel => ?_⟩
    rcases handle_cases log pieces bytes with h | h | h
    · exact absurd h hCut
    · rcases h.run_handle with ⟨e, hStatus⟩
      rw [hStatus fuel hFuel]
      exact nofun
    · rw [h fuel hFuel]
      exact nofun
  · rintro ⟨enough, hReturns⟩
    have hStatus := hReturns (max enough (bytes.length + 1)) (by omega)
    refine ⟨fun hCut => ?_, fun hRaises => ?_⟩
    · rw [hCut.run_handle (by omega)] at hStatus
      cases hStatus
    · rcases hRaises.run_handle with ⟨e, hRaised⟩
      rw [hRaised _ (by omega)] at hStatus
      cases hStatus
  · rcases handle_cases log pieces bytes with h | h | h
    · exact absurd h hCut
    · exact absurd h hRaises
    · exact ⟨bytes.length + 1, h⟩

/-- The peer announces one byte and closes the connection. -/
theorem not_ends_always :
    ¬ ∀ (pieces : Pieces) (bytes : List UInt8),
      Ends (fun _ => (.ok () : Except Empty Unit)) pieces bytes := by
  intro h
  have hCut : CutInBody (fun _ => (.ok () : Except Empty Unit)) .whole [0, 0, 0, 1] :=
    ⟨[], 1, [], ⟨by simp, trivial, by simp⟩, rfl, rfl, by decide, by decide⟩
  exact hCut.not_ends (h .whole [0, 0, 0, 1])

end LogRecordStreamHandler

end LogSocket
