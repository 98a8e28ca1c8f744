import LogSocket.Senders

/-! Which of two records of a logger pass its level. A level that log4cxx has no name for counts as
`DEBUG` on the server, so a record can be dropped where a less severe one is given to the appenders. -/

namespace LogSocket

/-- The level with which a record of a Python level comes to the filter of `forceLog`. -/
def severity (levelno : Int) : Int := (Level.toLevel (Int32.ofInt (levelno * 1000))).toInt

theorem severity_eq {levelno : Int} (hLow : -2 ^ 31 ≤ levelno * 1000)
    (hHigh : levelno * 1000 < 2 ^ 31) :
    severity levelno =
      if levelno = 5 ∨ levelno = 20 ∨ levelno = 30 ∨ levelno = 40 ∨ levelno = 50 then levelno * 1000
      else 10000 := by
  have hVal : (Int32.ofInt (levelno * 1000)).toInt = levelno * 1000 := by
    rw [Int32.toInt_ofInt, Int32.size, Int.bmod_def]
    omega
  have hAll : (-2147483648 : Int32).toInt = -2147483648 := rfl
  have hNamed : (10000 : Int32).toInt = 10000 ∧ (5000 : Int32).toInt = 5000 ∧
      (20000 : Int32).toInt = 20000 ∧ (30000 : Int32).toInt = 30000 ∧
      (40000 : Int32).toInt = 40000 ∧ (50000 : Int32).toInt = 50000 ∧
      (2147483647 : Int32).toInt = 2147483647 := ⟨rfl, rfl, rfl, rfl, rfl, rfl, rfl⟩
  simp only [severity, Level.toLevel, ← Int32.toInt_inj, hVal, hAll, hNamed]
  split_ifs <;> simp only [Level.toInt] <;> omega

/-- A record of the level `levelno` passes, one of the level `levelno'` does not: the second level has
no name between or above those of log4cxx, or the first has none below `TRACE`. -/
def Demoted (threshold levelno levelno' : Int) : Prop :=
  ((levelno = 20 ∨ levelno = 30 ∨ levelno = 40 ∨ levelno = 50) ∧
      ¬(levelno' = 20 ∨ levelno' = 30 ∨ levelno' = 40 ∨ levelno' = 50) ∧
      10000 < threshold ∧ threshold ≤ levelno * 1000) ∨
    (levelno < 5 ∧ levelno' = 5 ∧ 5000 < threshold ∧ threshold ≤ 10000)

theorem severity_mono_iff {levelno levelno' : Int} (hLe : levelno ≤ levelno')
    (hLow : -2 ^ 31 ≤ levelno * 1000) (hHigh : levelno' * 1000 < 2 ^ 31) (threshold : Int) :
    (threshold ≤ severity levelno → threshold ≤ severity levelno') ↔
      ¬Demoted threshold levelno levelno' := by
  rw [severity_eq hLow (by omega), severity_eq (by omega) hHigh, Demoted]
  split <;> split <;> omega

namespace SocketHandler

variable {α : Type} {host : Host} {packb : List (Object × Object) → List UInt8}
  {handler : SocketHandler} {record record' : ArgRecord α} {event event' : LoggingEvent}

/-- A client that has chosen its loader is given what is sent for a record, and gives an event to the
appenders. -/
def Passes (host : Host) (packb : List (Object × Object) → List UInt8) (handler : SocketHandler)
    (record : ArgRecord α) : Prop :=
  ∃ pickle, handler.makePickle packb record = some pickle ∧
    (Client.forceLog host ⟨some handler.protocol, .empty⟩ pickle).events ≠ []

theorem Delivers.passes_iff (hMemory : 2 ^ 32 ≤ host.env.allocLimit)
    (hUnpacks : handler = .msgpack → Unpacks host packb record)
    (h : Delivers host packb handler record event) :
    Passes host packb handler record ↔
      ∃ level ∈ host.effectiveLevel record.name, level ≤ severity record.levelno := by
  have hArrives := h.arrives hMemory hUnpacks
  obtain ⟨byteBuf, hPickle, hEvent⟩ := h
  obtain ⟨rest, hCall⟩ : ∃ rest, handler.protocol.createLoggingEvent host byteBuf =
    (.ok event, rest) := ⟨_, Prod.ext hEvent rfl⟩
  obtain ⟨hBytes, hRest, -⟩ := createLoggingEvent_pickle hMemory hUnpacks hPickle hCall
  have hInsert : ByteBuf.empty.insert byteBuf.bytes = .ok byteBuf := dif_pos byteBuf.size_le
  obtain ⟨fuel, hFuel⟩ := Nat.exists_eq_succ_of_ne_zero (List.length_pos_iff.mpr hBytes).ne'
  have hSeverity : event.level.toInt = severity record.levelno := by
    rw [hArrives.level]
    rfl
  have hEvents :
      (Client.forceLog host ⟨some handler.protocol, .empty⟩ byteBuf.bytes).events ≠ [] ↔
        ∃ level ∈ host.effectiveLevel record.name, level ≤ severity record.levelno := by
    rw [Client.forceLog, hInsert]
    dsimp only
    rw [hFuel, decode, if_neg hBytes, hCall]
    dsimp only
    rw [callAppenders, hArrives.logger, hSeverity]
    cases host.effectiveLevel record.name with
    | none => simp [throw, throwThe, MonadExceptOf.throw]
    | some level =>
      simp only [pure, Except.pure]
      rw [decode, if_pos hRest]
      by_cases hLevel : level ≤ severity record.levelno <;> simp [hLevel]
  rw [← hEvents]
  constructor
  · rintro ⟨pickle, hSent, hPasses⟩
    obtain rfl := Option.some.inj (hPickle.symm.trans hSent)
    exact hPasses
  · intro hPasses
    exact ⟨byteBuf.bytes, hPickle, hPasses⟩

/-- Of two records, the more severe one passes if the other does, but for a demotion to `DEBUG`. -/
theorem passes_mono_iff (hMemory : 2 ^ 32 ≤ host.env.allocLimit)
    (hUnpacks : handler = .msgpack → Unpacks host packb record)
    (hUnpacks' : handler = .msgpack → Unpacks host packb record')
    (h : Delivers host packb handler record event)
    (h' : Delivers host packb handler record' event') (hName : record.name = record'.name)
    (hLe : record.levelno ≤ record'.levelno) (hLow : -2 ^ 31 ≤ record.levelno * 1000)
    (hHigh : record'.levelno * 1000 < 2 ^ 31) :
    (Passes host packb handler record → Passes host packb handler record') ↔
      ∀ level ∈ host.effectiveLevel record.name,
        ¬Demoted level record.levelno record'.levelno := by
  rw [h.passes_iff hMemory hUnpacks, h'.passes_iff hMemory hUnpacks', ← hName]
  cases host.effectiveLevel record.name with
  | none => simp
  | some level => simpa using severity_mono_iff hLe hLow hHigh level

/-- A server whose loggers have the level `INFO`. -/
def infoHost : Host := { byteHost with effectiveLevel := fun _ => some 20000 }

/-- A record of a Python level that stands between `INFO` and `WARNING`. -/
def noticeRecord : ArgRecord LogString := { sampleArgRecord with levelno := 25 }

theorem sampleArgRecord_infoHost :
    ∃ event, Delivers infoHost (fun _ => []) .byte sampleArgRecord event :=
  delivers_byte _ (by decide)
    ⟨by decide, by decide, by decide, by decide, by decide, by decide, by decide, by decide⟩
    (by decide)

theorem noticeRecord_infoHost :
    ∃ event, Delivers infoHost (fun _ => []) .byte noticeRecord event :=
  delivers_byte _ (by decide)
    ⟨by decide, by decide, by decide, by decide, by decide, by decide, by decide, by decide⟩
    (by decide)

theorem passes_mono_iff_notice :
    (Passes infoHost (fun _ => []) .byte sampleArgRecord →
        Passes infoHost (fun _ => []) .byte noticeRecord) ↔
      ∀ level ∈ infoHost.effectiveLevel sampleArgRecord.name,
        ¬Demoted level sampleArgRecord.levelno noticeRecord.levelno := by
  obtain ⟨event, h⟩ := sampleArgRecord_infoHost
  obtain ⟨event', h'⟩ := noticeRecord_infoHost
  exact passes_mono_iff (by decide) (fun hMsgpack => by cases hMsgpack)
    (fun hMsgpack => by cases hMsgpack) h h' rfl (by decide) (by decide) (by decide)

/-- The record between `INFO` and `WARNING` is dropped where one of `INFO` passes. -/
theorem not_passes_mono : ¬∀ (host : Host) (packb : List (Object × Object) → List UInt8)
    (handler : SocketHandler) (record record' : ArgRecord LogString) (event event' : LoggingEvent),
    2 ^ 32 ≤ host.env.allocLimit → (handler = .msgpack → Unpacks host packb record) →
      (handler = .msgpack → Unpacks host packb record') →
      Delivers host packb handler record event → Delivers host packb handler record' event' →
      record.name = record'.name → record.levelno ≤ record'.levelno →
      -2 ^ 31 ≤ record.levelno * 1000 → record'.levelno * 1000 < 2 ^ 31 →
      Passes host packb handler record → Passes host packb handler record' := by
  intro hAll
  obtain ⟨event, h⟩ := sampleArgRecord_infoHost
  obtain ⟨event', h'⟩ := noticeRecord_infoHost
  have hMsgpack {record : ArgRecord LogString} :
      SocketHandler.byte = .msgpack → Unpacks infoHost (fun _ => []) record := by
    intro hByte
    cases hByte
  have hMemory : 2 ^ 32 ≤ infoHost.env.allocLimit := by decide
  have hMono := hAll infoHost (fun _ => []) .byte _ _ _ _ hMemory hMsgpack hMsgpack h h' rfl
    (by decide) (by decide) (by decide)
  rw [h.passes_iff hMemory hMsgpack, h'.passes_iff hMemory hMsgpack] at hMono
  have hNotice := hMono (by decide)
  revert hNotice
  decide

end SocketHandler

end LogSocket
