import LogSocket.Session
import LogSocket.SocketAppender

/-! What a `SocketAppender` puts on its sockets, whatever the network does: on each socket the front
of a session, and no event twice. The thread that would connect again is never run. -/

namespace LogSocket

open ObjectOutputStream

/-! A stream writes the same whatever it has written before. -/

namespace ObjectOutputStream

/-- A stream that has written more in front. -/
def prepend (bytes : List UInt8) (os : ObjectOutputStream) : ObjectOutputStream :=
  { os with written := bytes ++ os.written }

variable (front : List UInt8) (os : ObjectOutputStream)

@[simp] theorem prepend_prepend (bytes : List UInt8) :
    prepend bytes (prepend front os) = prepend (bytes ++ front) os := by
  simp [prepend]

@[simp] theorem writeBytes_prepend (bytes : List UInt8) :
    (prepend front os).writeBytes bytes = prepend front (os.writeBytes bytes) := by
  simp [prepend, writeBytes]

@[simp] theorem writeByte_prepend (val : UInt8) :
    (prepend front os).writeByte val = prepend front (os.writeByte val) :=
  writeBytes_prepend front os [val]

@[simp] theorem writeNull_prepend : (prepend front os).writeNull = prepend front os.writeNull :=
  writeByte_prepend front os _

@[simp] theorem writeInt_prepend (val : Int32) :
    (prepend front os).writeInt val = prepend front (os.writeInt val) :=
  writeBytes_prepend front os _

@[simp] theorem writeLong_prepend (val : Int64) :
    (prepend front os).writeLong val = prepend front (os.writeLong val) :=
  writeBytes_prepend front os _

@[simp] theorem writeString_prepend (val : LogString) :
    (prepend front os).writeString val = prepend front (os.writeString val) := by
  simp [prepend, writeString, writeBytes, writeByte]

@[simp] theorem writeProlog_prepend (className : String) (increment : UInt32)
    (classDesc : List UInt8) : (prepend front os).writeProlog className increment classDesc =
      prepend front (os.writeProlog className increment classDesc) := by
  have hSame : (prepend front os).classDescriptions = os.classDescriptions := rfl
  rw [writeProlog, writeProlog, hSame]
  cases os.classDescriptions.lookup className <;> simp [prepend, writeBytes, writeByte]

@[simp] theorem writeEntries_prepend (entries : List (LogString × LogString)) :
    entries.foldl (fun os entry => (os.writeString entry.1).writeString entry.2)
        (prepend front os) =
      prepend front
        (entries.foldl (fun os entry => (os.writeString entry.1).writeString entry.2) os) := by
  induction entries generalizing os with
  | nil => rfl
  | cons entry entries ih => simp [ih]

@[simp] theorem writeMap_prepend (val : MDC) :
    (prepend front os).writeMap val = prepend front (os.writeMap val) := by
  simp [writeMap]

end ObjectOutputStream

namespace ClientEvent

variable (front : List UInt8) (os : ObjectOutputStream)

@[simp] theorem writeLocation_prepend (location : Option LocationInfo) :
    writeLocation location (prepend front os) = prepend front (writeLocation location os) := by
  cases location <;> simp [writeLocation]

@[simp] theorem writeMDC_prepend (mdcCopy : Option MDC) :
    writeMDC mdcCopy (prepend front os) = prepend front (writeMDC mdcCopy os) := by
  cases mdcCopy with
  | none => simp [writeMDC]
  | some mdc =>
    rw [writeMDC, writeMDC]
    split <;> simp

@[simp] theorem writeNDC_prepend (ndc : Option LogString) :
    writeNDC ndc (prepend front os) = prepend front (writeNDC ndc os) := by
  cases ndc <;> simp [writeNDC]

theorem write_prepend (event : ClientEvent) :
    event.write (prepend front os) = prepend front (event.write os) := by
  simp [write]

/-- The stream of a session -/
def stream (events : List ClientEvent) : ObjectOutputStream :=
  events.foldl (fun os (event : ClientEvent) => event.write os) ObjectOutputStream.new

theorem stream_append (events : List ClientEvent) (event : ClientEvent) :
    stream (events ++ [event]) = event.write (stream events) := by
  simp [stream]

theorem session_eq (events : List ClientEvent) : session events = (stream events).written := rfl

/-- What has been written stays in front. -/
theorem session_grows (events : List ClientEvent) (event : ClientEvent) :
    session events <+: session (events ++ [event]) := by
  have hFront : stream events = prepend (session events) { stream events with written := [] } := by
    simp [prepend, session_eq]
  rw [session_eq (events ++ [event]), stream_append, hFront, write_prepend]
  exact List.prefix_append _ _

end ClientEvent

theorem socketWrite_front (buf : List UInt8) (sends : List Send) :
    (socketWrite buf sends).1 <+: buf := by
  induction sends generalizing buf with
  | nil => cases buf <;> simp [socketWrite]
  | cons send sends ih =>
    cases buf with
    | nil => simp [socketWrite]
    | cons byte buf =>
      rw [socketWrite]
      split
      · have hRest := (List.prefix_append_right_inj ((byte :: buf).take send.written)).mpr
          (ih ((byte :: buf).drop send.written))
        rwa [List.take_append_drop] at hRest
      · exact List.take_prefix _ _

/-- The loop comes to its end where all has been sent. -/
theorem socketWrite_done {buf : List UInt8} {sends : List Send}
    (h : (socketWrite buf sends).2 = .done) : (socketWrite buf sends).1 = buf := by
  induction sends generalizing buf with
  | nil =>
    cases buf with
    | nil => rfl
    | cons byte buf => cases h
  | cons send sends ih =>
    cases buf with
    | nil => rfl
    | cons byte buf =>
      rw [socketWrite] at h ⊢
      split at h
      next hSuccess => simp [hSuccess, ih h]
      next => cases h

open ClientEvent

/-- What a socket has taken and what waits for it are the session of `events`, unless a send has
failed. -/
structure Carries (wire : Wire) (oos : ObjectOutputStream) (events : List ClientEvent) : Prop where
  front : wire.sent <+: session events
  rest : wire.broken = false → stream events = prepend wire.sent oos

namespace Carries

variable {wire : Wire} {oos : ObjectOutputStream} {events : List ClientEvent}

theorem new : Carries ⟨[], false⟩ .new [] := ⟨List.nil_prefix, fun _ => rfl⟩

theorem write (h : Carries wire oos events) (event : ClientEvent) :
    Carries wire (event.write oos) (events ++ [event]) where
  front := h.front.trans (session_grows events event)
  rest hWhole := by rw [stream_append, h.rest hWhole, write_prepend]

/-- After a flush the socket still carries the front of the session, and all of it where the flush came
to its end. -/
theorem flush (h : Carries wire oos events) (wires : List Wire) (sends : List Send) :
    ∃ wire', (SocketAppender.flush (wire :: wires) oos sends).1 = wire' :: wires ∧
      wire'.sent <+: session events ∧
      ((SocketAppender.flush (wire :: wires) oos sends).2.2 ≠ .waiting →
        Carries wire' (SocketAppender.flush (wire :: wires) oos sends).2.1 events) ∧
      ((SocketAppender.flush (wire :: wires) oos sends).2.2 = .done → wire.broken = false →
        wire' = ⟨session events, false⟩) := by
  rw [SocketAppender.flush, Wire.write]
  cases hBroken : wire.broken with
  | true =>
    refine ⟨wire, rfl, h.front, fun _ => ⟨h.front, fun hWhole => ?_⟩, fun _ hWhole => ?_⟩
    · cases hBroken.symm.trans hWhole
    · cases hWhole
  | false =>
    have hStream := h.rest hBroken
    have hSession : session events = wire.sent ++ oos.written := by
      rw [session_eq, hStream]
      rfl
    have hFront : wire.sent ++ (socketWrite oos.written sends).1 <+: session events := by
      rw [hSession]
      exact (List.prefix_append_right_inj _).mpr (socketWrite_front _ _)
    refine ⟨_, rfl, hFront, fun hReturns => ⟨hFront, fun hWhole => ?_⟩, fun hDone _ => ?_⟩
    · cases hProgress : (socketWrite oos.written sends).2 with
      | done =>
        simp [hProgress, hStream, prepend, socketWrite_done hProgress]
      | thrown => simp [hProgress] at hWhole
      | waiting => exact absurd hProgress hReturns
    · have hDone : (socketWrite oos.written sends).2 = .done := hDone
      simp [hDone, socketWrite_done hDone, hSession]

end Carries

/-- An event without its optional parts. -/
def plainEvent : ClientEvent := ClientEvent.sampleSession.get ⟨1, by decide⟩

namespace SocketAppender

/-- What the sockets of an appender have taken: each the front of a session, of events that were
appended in this order. The thread has not been run. -/
structure Sends (sessions : List (List ClientEvent)) (appender : SocketAppender)
    (appended : List ClientEvent) : Prop where
  thread : appender.thread = .null
  wires : List.Forall₂ (fun wire events => wire.sent <+: session events) appender.wires sessions
  order : sessions.reverse.flatten.Sublist appended
  stream {oos : ObjectOutputStream} : appender.oos = some oos → appender.waits = false →
    ∃ wire wires events rest, appender.wires = wire :: wires ∧ sessions = events :: rest ∧
      Carries wire oos events

theorem fireConnector_eq {self : SocketAppender} (h : self.thread = .null) :
    self.fireConnector = some self := by
  simp [fireConnector, h]

namespace Sends

variable {sessions : List (List ClientEvent)} {self : SocketAppender} {appended : List ClientEvent}

theorem new (address : Bool) (reconnectionDelay : Int32) :
    Sends [] (.new address reconnectionDelay) [] :=
  ⟨rfl, .nil, .slnil, fun h => by cases h⟩

/-- An event that is not written anywhere is lost. -/
theorem lose (h : Sends sessions self appended) (event : ClientEvent) :
    Sends sessions self (appended ++ [event]) :=
  ⟨h.thread, h.wires, h.order.trans (List.sublist_append_left _ _), h.stream⟩

theorem setSocket (h : Sends sessions self appended) : Sends ([] :: sessions) self.setSocket appended where
  thread := h.thread
  wires := .cons List.nil_prefix h.wires
  order := by simpa using h.order
  stream hStream _ := by
    obtain rfl := Option.some.inj hStream
    exact ⟨_, _, _, _, rfl, rfl, .new⟩

theorem cleanUp (h : Sends sessions self appended) (hReturns : self.waits = false)
    (sends : List Send) (closes : Bool) : Sends sessions (self.cleanUp sends closes) appended := by
  rw [SocketAppender.cleanUp]
  cases hStream : self.oos with
  | none => exact h
  | some oos =>
    obtain ⟨wire, wires, events, rest, hWires, rfl, hCarries⟩ := h.stream hStream hReturns
    obtain ⟨wire', hFlush, hFront, hNext, -⟩ := hCarries.flush wires sends
    have hAll := h.wires
    rw [hWires] at hAll ⊢
    dsimp only
    obtain ⟨-, hRest⟩ := List.forall₂_cons.mp hAll
    have hTaken : List.Forall₂ (fun wire events => wire.sent <+: session events)
        (flush (wire :: wires) oos sends).1 (events :: rest) := hFlush ▸ .cons hFront hRest
    cases hProgress : (flush (wire :: wires) oos sends).2.2 with
    | waiting => exact ⟨h.thread, hTaken, h.order, fun _ hWaits => by cases hWaits⟩
    | thrown =>
      refine ⟨h.thread, hTaken, h.order, fun hSome _ => ?_⟩
      obtain rfl := Option.some.inj hSome
      exact ⟨wire', wires, events, rest, hFlush, rfl, hNext (by simp [hProgress])⟩
    | done =>
      refine ⟨h.thread, hTaken, h.order, fun hSome _ => ?_⟩
      cases closes with
      | true => cases hSome
      | false =>
        obtain rfl := Option.some.inj hSome
        exact ⟨wire', wires, events, rest, hFlush, rfl, hNext (by simp [hProgress])⟩

theorem connect (h : Sends sessions self appended) (hReturns : self.waits = false)
    (sends : List Send) (closes connects : Bool) : ∃ sessions' self',
      self.connect sends closes connects = some self' ∧ Sends sessions' self' appended := by
  have hClean := h.cleanUp hReturns sends closes
  rw [SocketAppender.connect]
  split
  · dsimp only
    split
    · exact ⟨_, _, rfl, hClean⟩
    · split
      · exact ⟨_, _, rfl, hClean.setSocket⟩
      · exact ⟨_, _, fireConnector_eq hClean.thread, hClean⟩
  · exact ⟨_, _, rfl, h⟩

theorem append (h : Sends sessions self appended) (hReturns : self.waits = false)
    (event : ClientEvent) (sends : List Send) : ∃ sessions' self',
      self.append event sends = some self' ∧ Sends sessions' self' (appended ++ [event]) := by
  rw [SocketAppender.append]
  split
  · exact ⟨_, _, rfl, h.lose event⟩
  cases hStream : self.oos with
  | none => exact ⟨_, _, rfl, h.lose event⟩
  | some oos =>
    obtain ⟨wire, wires, events, rest, hWires, rfl, hCarries⟩ := h.stream hStream hReturns
    obtain ⟨wire', hFlush, hFront, hNext, -⟩ := (hCarries.write event).flush wires sends
    have hAll := h.wires
    rw [hWires] at hAll ⊢
    dsimp only
    obtain ⟨-, hRest⟩ := List.forall₂_cons.mp hAll
    have hTaken : List.Forall₂ (fun wire events => wire.sent <+: session events)
        (flush (wire :: wires) (event.write oos) sends).1 ((events ++ [event]) :: rest) :=
      hFlush ▸ .cons hFront hRest
    have hOrder : ((events ++ [event]) :: rest).reverse.flatten.Sublist (appended ++ [event]) := by
      have hOld := h.order
      rw [List.reverse_cons, List.flatten_append, List.flatten_singleton] at hOld ⊢
      rw [← List.append_assoc]
      exact hOld.append (List.Sublist.refl _)
    cases hProgress : (flush (wire :: wires) (event.write oos) sends).2.2 with
    | waiting => exact ⟨_, _, rfl, h.thread, hTaken, hOrder, fun _ hWaits => by cases hWaits⟩
    | done =>
      refine ⟨_, _, rfl, h.thread, hTaken, hOrder, fun hSome _ => ?_⟩
      obtain rfl := Option.some.inj hSome
      exact ⟨wire', wires, _, rest, hFlush, rfl, hNext (by simp [hProgress])⟩
    | thrown =>
      have hLost : Sends ((events ++ [event]) :: rest)
          { self with wires := (flush (wire :: wires) (event.write oos) sends).1, oos := none }
          (appended ++ [event]) := ⟨h.thread, hTaken, hOrder, fun hSome _ => by cases hSome⟩
      dsimp only
      split
      · exact ⟨_, _, fireConnector_eq h.thread, hLost⟩
      · exact ⟨_, _, rfl, hLost⟩

/-- No step lets an exception out of the appender. -/
theorem step (h : Sends sessions self appended) (op : Op) : ∃ sessions' self',
    self.step op = some self' ∧ Sends sessions' self' (appended ++ op.events) := by
  unfold SocketAppender.step
  cases hWaits : self.waits with
  | true =>
    refine ⟨sessions, self, rfl, h.thread, h.wires, ?_, fun _ hReturns => ?_⟩
    · exact h.order.trans (List.sublist_append_left _ _)
    · cases hWaits.symm.trans hReturns
  | false =>
    cases op with
    | append event sends => exact h.append hWaits event sends
    | activateOptions sends closes connects =>
      simpa [Op.events] using h.connect hWaits sends closes connects
    | close sends closes =>
      have hClosed : Sends sessions { self with closed := true } appended :=
        ⟨h.thread, h.wires, h.order, h.stream⟩
      refine ⟨sessions, _, rfl, ?_⟩
      rw [Op.events, List.append_nil, SocketAppender.close]
      split
      · exact h
      · exact hClosed.cleanUp hWaits sends closes
    | monitor connects =>
      refine ⟨sessions, self, ?_, ?_⟩
      · simp [h.thread]
      · simpa [Op.events] using h

theorem run (h : Sends sessions self appended) (ops : List Op) : ∃ sessions' self',
    self.run ops = some self' ∧ Sends sessions' self' (appended ++ ops.flatMap Op.events) := by
  induction ops generalizing sessions self appended with
  | nil => exact ⟨sessions, self, rfl, by simpa using h⟩
  | cons op ops ih =>
    obtain ⟨sessions', self', hStep, hNext⟩ := h.step op
    obtain ⟨sessions'', self'', hRun, hLast⟩ := ih hNext
    refine ⟨sessions'', self'', ?_, ?_⟩
    · rw [SocketAppender.run, List.foldlM_cons, hStep]
      exact hRun
    · simpa using hLast

end Sends

/-- An appender without a stream and without a thread to make one. -/
structure Cut (wires : List Wire) (appender : SocketAppender) : Prop where
  thread : appender.thread = .null
  stream : appender.oos = none
  wires : appender.wires = wires

theorem cleanUp_of_none {self : SocketAppender} (h : self.oos = none) (sends : List Send)
    (closes : Bool) : self.cleanUp sends closes = self := by
  rw [cleanUp, h]

/-- Only `activateOptions` makes a connection then. -/
theorem Cut.step {wires : List Wire} {self self' : SocketAppender} (h : Cut wires self) {op : Op}
    (hOp : ∀ sends closes connects, op ≠ .activateOptions sends closes connects)
    (hStep : self.step op = some self') : Cut wires self' := by
  unfold SocketAppender.step at hStep
  split at hStep
  · obtain rfl := Option.some.inj hStep
    exact h
  cases op with
  | activateOptions sends closes connects => exact absurd rfl (hOp sends closes connects)
  | append event sends =>
    obtain rfl : self = self' := by simpa [SocketAppender.append, h.stream] using hStep
    exact h
  | close sends closes =>
    obtain rfl := Option.some.inj hStep
    rw [SocketAppender.close]
    split
    · exact h
    · rw [cleanUp_of_none (by exact h.stream)]
      exact ⟨h.thread, h.stream, h.wires⟩
  | monitor connects =>
    obtain rfl : self = self' := by simpa [h.thread] using hStep
    exact h

/-- An appender that has lost its connection never connects again by itself. -/
theorem run_of_none {address : Bool} {reconnectionDelay : Int32} {ops later : List Op}
    {self self' : SocketAppender} (hRun : (new address reconnectionDelay).run ops = some self)
    (hLost : self.oos = none) (hLater : ∀ op ∈ later, ∀ sends closes connects,
      op ≠ .activateOptions sends closes connects) (hOn : self.run later = some self') :
    self'.oos = none ∧ self'.wires = self.wires := by
  have hCut : Cut self.wires self := by
    obtain ⟨sessions, _, hSame, hSends⟩ := (Sends.new address reconnectionDelay).run ops
    obtain rfl := Option.some.inj (hRun.symm.trans hSame)
    exact ⟨hSends.thread, hLost, rfl⟩
  clear hRun hLost
  generalize self.wires = wires at hCut ⊢
  induction later generalizing self with
  | nil =>
    obtain rfl := Option.some.inj hOn
    exact ⟨hCut.stream, hCut.wires⟩
  | cons op later ih =>
    rw [List.forall_mem_cons] at hLater
    rw [run, List.foldlM_cons] at hOn
    obtain ⟨self1, hStep, hRest⟩ := Option.bind_eq_some_iff.mp hOn
    exact ih hLater.2 hRest (hCut.step hLater.1 hStep)

/-- A server that is there when the appender is made, and goes away in the middle of an event. -/
def cutOps : List Op := [
  .activateOptions [] true true,
  .append plainEvent [⟨20, true⟩, ⟨3, false⟩]]

/-- What comes after it -/
def laterOps : List Op := [
  .append plainEvent [⟨300, true⟩],
  .monitor true]

theorem run_of_none_sample : ∃ self self', (new true 30000).run cutOps = some self ∧
    self.run laterOps = some self' ∧ self'.oos = none ∧ self'.wires = self.wires :=
  ⟨_, _, rfl, rfl, @run_of_none true 30000 cutOps laterOps _ _ rfl rfl (by simp [laterOps]) rfl⟩

/-- The stream that is there, where there is one, has sent `events`. -/
def Current (events : List ClientEvent) (self : SocketAppender) : Prop :=
  ∀ oos, self.oos = some oos → self.waits = false → ∃ wire wires, self.wires = wire :: wires ∧
    Carries wire oos events ∧ wire.broken = false ∧ (events ≠ [] → wire.sent = session events)

theorem Current.append {self self' : SocketAppender} {events : List ClientEvent}
    (h : Current events self) {event : ClientEvent} {sends : List Send}
    (hThread : self.thread = .null) (hClosed : self.closed = false)
    (hStep : self.step (.append event sends) = some self') :
    Current (events ++ [event]) self' ∧ self'.thread = .null ∧ self'.closed = false := by
  unfold step at hStep
  cases hWaits : self.waits with
  | true =>
    obtain rfl := Option.some.inj (by simpa [hWaits] using hStep)
    exact ⟨fun _ _ hReturns => (by cases hWaits.symm.trans hReturns), hThread, hClosed⟩
  | false =>
    simp only [hWaits, Bool.false_eq_true, if_false, SocketAppender.append, hClosed] at hStep
    cases hStream : self.oos with
    | none =>
      obtain rfl := Option.some.inj (by simpa [hStream] using hStep)
      exact ⟨fun _ hSome _ => (by cases hStream.symm.trans hSome), hThread, hClosed⟩
    | some oos =>
      obtain ⟨wire, wires, hWires, hCarries, hWhole, -⟩ := h oos hStream hWaits
      obtain ⟨wire', hFlush, -, hNext, hAll⟩ := (hCarries.write event).flush wires sends
      simp only [hStream, hWires] at hStep
      cases hProgress : (flush (wire :: wires) (event.write oos) sends).2.2 with
      | waiting =>
        simp only [hProgress] at hStep
        obtain rfl := Option.some.inj hStep
        exact ⟨fun _ _ hReturns => (by cases hReturns), hThread, rfl⟩
      | done =>
        simp only [hProgress] at hStep
        obtain rfl := Option.some.inj hStep
        refine ⟨fun _ hSome _ => ?_, hThread, rfl⟩
        obtain rfl := Option.some.inj hSome
        have hSent := hAll hProgress hWhole
        exact ⟨wire', wires, hFlush, hNext (by simp [hProgress]), by rw [hSent],
          fun _ => by rw [hSent]⟩
      | thrown =>
        simp only [hProgress, fireConnector, hThread, ne_eq, not_true_eq_false, if_false,
          ite_self] at hStep
        obtain rfl := Option.some.inj hStep
        exact ⟨fun _ hSome _ => (by cases hSome), rfl, rfl⟩

/-- The appends that follow one another -/
theorem Current.appends {self self' : SocketAppender} {events : List ClientEvent}
    (h : Current events self) {appends : List (ClientEvent × List Send)}
    (hThread : self.thread = .null) (hClosed : self.closed = false)
    (hRun : self.run (appends.map fun a => .append a.1 a.2) = some self') :
    Current (events ++ appends.map Prod.fst) self' := by
  induction appends generalizing self events with
  | nil =>
    obtain rfl := Option.some.inj hRun
    rwa [List.map_nil, List.append_nil]
  | cons a appends ih =>
    rw [List.map_cons, run, List.foldlM_cons] at hRun
    obtain ⟨self1, hStep, hRest⟩ := Option.bind_eq_some_iff.mp hRun
    obtain ⟨hNext, hThread, hClosed⟩ := h.append hThread hClosed hStep
    have hLast := ih hNext hThread hClosed hRest
    rwa [List.append_assoc] at hLast

theorem cleanUp_closed (self : SocketAppender) (sends : List Send) (closes : Bool) :
    (self.cleanUp sends closes).closed = self.closed := by
  unfold cleanUp
  cases self.oos with
  | none => rfl
  | some oos =>
    dsimp only
    cases (flush self.wires oos sends).2.2 <;> rfl

theorem current_connect {sessions : List (List ClientEvent)} {self self' : SocketAppender}
    {appended : List ClientEvent} (h : Sends sessions self appended) (hAddress : self.address = true)
    (hOpen : self.closed = false) {sends : List Send} {closes : Bool}
    (hStep : self.step (.activateOptions sends closes true) = some self') :
    Current [] self' ∧ self'.thread = .null ∧ self'.closed = false := by
  unfold step at hStep
  split at hStep
  next hWaits =>
    obtain rfl := Option.some.inj hStep
    exact ⟨fun _ _ hReturns => (by cases hWaits.symm.trans hReturns), h.thread, hOpen⟩
  next hWaits =>
    have hClean := h.cleanUp (Bool.eq_false_iff.mpr hWaits) sends closes
    have hClosed := (cleanUp_closed self sends closes).trans hOpen
    simp only [connect, hAddress, if_true] at hStep
    split at hStep
    next hBlocked =>
      obtain rfl := Option.some.inj hStep
      exact ⟨fun _ _ hReturns => (by cases hBlocked.symm.trans hReturns), hClean.thread, hClosed⟩
    next =>
      obtain rfl := Option.some.inj hStep
      refine ⟨fun _ hSome _ => ?_, hClean.thread, hClosed⟩
      obtain rfl := Option.some.inj hSome
      exact ⟨_, _, rfl, .new, rfl, fun hNe => absurd rfl hNe⟩

/-- While the stream of a connection is there, everything appended since the connection was made has
been sent. -/
theorem sent_since_connect {address : Bool} {reconnectionDelay : Int32} {ops : List Op}
    {self connected self' : SocketAppender} {sends : List Send} {closes : Bool}
    {appends : List (ClientEvent × List Send)}
    (hRun : (new address reconnectionDelay).run ops = some self) (hAddress : self.address = true)
    (hOpen : self.closed = false)
    (hConnect : self.step (.activateOptions sends closes true) = some connected)
    (hAppends : connected.run (appends.map fun a => .append a.1 a.2) = some self')
    (hStream : self'.oos ≠ none) (hReturns : self'.waits = false) (hSome : appends ≠ []) :
    ∃ wires, self'.wires = ⟨session (appends.map Prod.fst), false⟩ :: wires := by
  obtain ⟨sessions, _, hSame, hSends⟩ := (Sends.new address reconnectionDelay).run ops
  obtain rfl := Option.some.inj (hRun.symm.trans hSame)
  have hNew : Current [] connected ∧ connected.thread = .null ∧ connected.closed = false :=
    current_connect hSends hAddress hOpen hConnect
  have hLast := hNew.1.appends hNew.2.1 hNew.2.2 hAppends
  obtain ⟨oos, hOos⟩ := Option.ne_none_iff_exists'.mp hStream
  obtain ⟨wire, wires, hWires, -, hWhole, hSent⟩ := hLast oos hOos hReturns
  refine ⟨wires, ?_⟩
  rw [List.nil_append] at hSent
  rw [hWires, ← hWhole, ← hSent (by simpa using hSome)]

end SocketAppender

end LogSocket
