import LogSocket.Segmentation
import LogSocket.SocketServer

/-! The diagnostic contexts of an event. The loader reads those of a message and drops them, and the
event looks up those of the thread that it is handled in. -/

namespace LogSocket

open Lib

/-- The contexts of a thread, `ndcStack` from its top on, each with its message and full message. -/
structure ThreadSpecificData where
  ndcStack : List (LogString × LogString)
  mdcMap : MDC

namespace ThreadSpecificData

/-- `data->recycle()`: the thread keeps no data without contents. -/
def recycle (data : ThreadSpecificData) : Option ThreadSpecificData :=
  if data.ndcStack.isEmpty && data.mdcMap.entries.isEmpty then none else some data

/-- `ThreadSpecificData::push`, on the data of the current thread, if it has any. -/
def push (current : Option ThreadSpecificData) (val : LogString) : Option ThreadSpecificData :=
  let data := current.getD ⟨[], .empty⟩
  let fullMessage :=
    match data.ndcStack with
    | [] => val
    | top :: _ => top.2 ++ 0x20 :: val
  some { data with ndcStack := (val, fullMessage) :: data.ndcStack }

end ThreadSpecificData

/-- `NDC::get`, and the data that the thread is left with. -/
def NDC.get : Option ThreadSpecificData → Option LogString × Option ThreadSpecificData
  | none => (none, none)
  | some data =>
    match data.ndcStack with
    | top :: _ => (some top.2, some data)
    | [] => (none, data.recycle)

/-- `MDC::get` -/
def MDC.get (key : LogString) :
    Option ThreadSpecificData → Option LogString × Option ThreadSpecificData
  | none => (none, none)
  | some data =>
    match data.mdcMap.find? key with
    | some value => (some value, some data)
    | none => (none, data.recycle)

/-- The members of `spi::LoggingEvent` that are about contexts. -/
structure Contexts where
  ndc : Option LogString
  mdcCopy : Option MDC
  ndcLookupRequired : Bool
  mdcCopyLookupRequired : Bool

/-- What the constructor of `spi::LoggingEvent` sets them to. -/
def Contexts.new : Contexts := ⟨none, none, true, true⟩

/-- Neither constructor of `LoggingEventEx` touches them. -/
def LoggingEvent.contexts (_ : LoggingEvent) : Contexts := .new

/-- The contexts of an event, and those of the thread that its members are called in. -/
structure ContextState where
  event : Contexts
  thread : Option ThreadSpecificData

namespace ContextState

/-- `getNDC`: the first call looks the context up, and keeps it. -/
def getNDC (state : ContextState) : Option LogString × ContextState :=
  if state.event.ndcLookupRequired then
    let (val, thread) := NDC.get state.thread
    let ndc := val <|> state.event.ndc
    (ndc, { thread, event := { state.event with ndc, ndcLookupRequired := false } })
  else
    (state.event.ndc, state)

/-- `getMDC`: a value of the copy if there is one that is not empty, else that of the thread. -/
def getMDC (key : LogString) (state : ContextState) : Option LogString × ContextState :=
  match (state.event.mdcCopy.bind (·.find? key)).filter (!·.isEmpty) with
  | some value => (some value, state)
  | none =>
    let (value, thread) := MDC.get key state.thread
    (value, { state with thread })

/-- `getMDCCopy` -/
def getMDCCopy (state : ContextState) : ContextState :=
  if state.event.mdcCopyLookupRequired then
    let mdcCopy := (state.thread.map (·.mdcMap)).getD .empty
    { state with
      event := { state.event with mdcCopy := some mdcCopy, mdcCopyLookupRequired := false } }
  else state

end ContextState

/-- A call that an appender may make. -/
inductive Accessor
  | getNDC
  | getMDC (key : LogString)
  | getMDCCopy

def Accessor.call : Accessor → ContextState → ContextState
  | getNDC, state => state.getNDC.2
  | getMDC key, state => (state.getMDC key).2
  | getMDCCopy, state => state.getMDCCopy

/-- The state after some calls. -/
def ContextState.after (state : ContextState) (calls : List Accessor) : ContextState :=
  calls.foldl (fun state accessor => accessor.call state) state

/-- The two members give these contexts. -/
def ContextState.Shows (state : ContextState) (ndc : Option LogString) (mdc : MDC) : Prop :=
  state.getNDC.1 = ndc ∧ ∀ key, (state.getMDC key).1 = mdc.find? key

/-- A thread has just these contexts. -/
def ThreadSpecificData.Has (thread : Option ThreadSpecificData) (ndc : Option LogString)
    (mdc : LogString → Option LogString) : Prop :=
  (NDC.get thread).1 = ndc ∧ ∀ key, (MDC.get key thread).1 = mdc key

section

variable {thread : Option ThreadSpecificData} {ndc : Option LogString}
  {mdc : LogString → Option LogString}

theorem ThreadSpecificData.recycle_has {data : ThreadSpecificData} (h : Has (some data) ndc mdc) :
    Has data.recycle ndc mdc := by
  obtain ⟨ndcStack, mdcMap⟩ := data
  unfold recycle
  split
  next hEmpty =>
    simp only [Bool.and_eq_true, List.isEmpty_iff] at hEmpty
    obtain ⟨rfl, hMap⟩ := hEmpty
    obtain ⟨hNDC, hMDC⟩ := h
    have hNone (key : LogString) : mdcMap.find? key = none := by simp [SortedMap.find?, hMap]
    refine ⟨hNDC, fun key => ?_⟩
    rw [← hMDC key, MDC.get, MDC.get, hNone key]
  next => exact h

theorem NDC.get_has (h : ThreadSpecificData.Has thread ndc mdc) :
    ThreadSpecificData.Has (NDC.get thread).2 ndc mdc := by
  obtain _ | ⟨_ | ⟨top, ndcStack⟩, mdcMap⟩ := thread
  · exact h
  · exact ThreadSpecificData.recycle_has h
  · exact h

theorem MDC.get_has (key : LogString) (h : ThreadSpecificData.Has thread ndc mdc) :
    ThreadSpecificData.Has (MDC.get key thread).2 ndc mdc := by
  obtain _ | data := thread
  · exact h
  · rw [MDC.get]
    split
    · exact h
    · exact ThreadSpecificData.recycle_has h

end

/-- What an event keeps is what the thread has. -/
structure ContextState.Follows (state : ContextState) (ndc : Option LogString)
    (mdc : LogString → Option LogString) : Prop where
  thread : ThreadSpecificData.Has state.thread ndc mdc
  ndc : state.event.ndc = if state.event.ndcLookupRequired then none else ndc
  mdcCopy : ∀ copy ∈ state.event.mdcCopy, ∀ key, copy.find? key = mdc key

namespace ContextState

variable {state : ContextState} {ndc : Option LogString} {mdc : LogString → Option LogString}

theorem Follows.getNDC (h : state.Follows ndc mdc) :
    state.getNDC.1 = ndc ∧ state.getNDC.2.Follows ndc mdc := by
  have hKept := h.ndc
  unfold ContextState.getNDC
  split
  next hRequired =>
    have hVal : ((NDC.get state.thread).1 <|> state.event.ndc) = ndc := by
      rw [hKept, if_pos hRequired, h.thread.1]
      cases ndc <;> rfl
    exact ⟨hVal, NDC.get_has h.thread, by simpa using hVal, h.mdcCopy⟩
  next hRequired => exact ⟨by simpa [hRequired] using hKept, h⟩

theorem Follows.getMDC (key : LogString) (h : state.Follows ndc mdc) :
    (state.getMDC key).1 = mdc key ∧ (state.getMDC key).2.Follows ndc mdc := by
  unfold ContextState.getMDC
  split
  next value hCopy =>
    obtain ⟨hFind, -⟩ := Option.filter_eq_some_iff.mp hCopy
    obtain ⟨copy, hCopy, hFind⟩ := Option.bind_eq_some_iff.mp hFind
    exact ⟨by rw [← h.mdcCopy copy hCopy key, hFind], h⟩
  next => exact ⟨h.thread.2 key, MDC.get_has key h.thread, h.ndc, h.mdcCopy⟩

theorem Follows.getMDCCopy (h : state.Follows ndc mdc) : state.getMDCCopy.Follows ndc mdc := by
  unfold ContextState.getMDCCopy
  split
  · refine ⟨h.thread, h.ndc, fun copy hCopy key => ?_⟩
    obtain rfl := Option.some.inj hCopy
    rw [← h.thread.2 key]
    cases state.thread with
    | none => rfl
    | some data =>
      show data.mdcMap.find? key = _
      rw [MDC.get]
      cases hFind : data.mdcMap.find? key <;> simp
  · exact h

theorem Follows.call (h : state.Follows ndc mdc) : (accessor : Accessor) →
    (accessor.call state).Follows ndc mdc
  | .getNDC => h.getNDC.2
  | .getMDC key => (h.getMDC key).2
  | .getMDCCopy => h.getMDCCopy

theorem Follows.after (h : state.Follows ndc mdc) (calls : List Accessor) :
    (state.after calls).Follows ndc mdc := by
  induction calls generalizing state with
  | nil => exact h
  | cons accessor calls ih => exact ih (h.call accessor)

/-- An event shows contexts exactly if they are those of the thread. -/
theorem Follows.get_eq_iff (h : state.Follows ndc mdc) (ndc' : Option LogString) (mdc' : MDC) :
    state.Shows ndc' mdc' ↔ ndc = ndc' ∧ ∀ key, mdc key = mdc'.find? key := by
  rw [Shows, h.getNDC.1]
  simp only [(h.getMDC _).1]

end ContextState

/-- An event that was built has looked nothing up. -/
theorem LoggingEvent.contexts_follows (event : LoggingEvent) (thread : Option ThreadSpecificData) :
    (⟨event.contexts, thread⟩ : ContextState).Follows (NDC.get thread).1
      fun key => (MDC.get key thread).1 :=
  ⟨⟨rfl, fun _ => rfl⟩, rfl, nofun⟩

end LogSocket

namespace LogSocket.Default

open Lib

/-- The contexts that a message carries, its NDC only if there is a string. -/
def readContexts (env : Env) (fuel : Nat) (byteBuf : ByteBuf) :
    Except Fail (Option LogString × MDC) := do
  let (_, pos) ← readBeforeMDC env fuel byteBuf
  let (mdc, size) ← readMDC env fuel byteBuf pos
  let pos := pos + size
  let (typeClass, _) ← readByte byteBuf pos
  let (ndc, _) ← readNDC env byteBuf pos
  pure (if typeClass = tcString then some ndc else none, mdc)

/-- They are the ones that are dropped. -/
theorem readMessage_contexts {env : Env} {fuel : Nat} {byteBuf : ByteBuf} {carried : Carried}
    {size : UInt64} (h : readMessage env fuel byteBuf = .ok (carried, size)) :
    ∃ ndc, readContexts env fuel byteBuf = .ok (ndc, carried.mdc) ∧ ndc.getD [] = carried.ndc := by
  obtain ⟨⟨⟨⟨timeStamp, logger⟩, fullInfo⟩, pos⟩, hBefore, h⟩ := bind_eq_ok.mp h
  obtain ⟨⟨mdc, mdcSize⟩, hMDC, h⟩ := bind_eq_ok.mp h
  obtain ⟨⟨ndc, ndcSize⟩, hNDC, h⟩ := bind_eq_ok.mp h
  obtain ⟨⟨message, messageSize⟩, -, h⟩ := bind_eq_ok.mp h
  obtain ⟨⟨threadName, threadSize⟩, -, h⟩ := bind_eq_ok.mp h
  obtain ⟨⟨level, pos'⟩, -, h⟩ := bind_eq_ok.mp h
  obtain ⟨rfl, -⟩ := Prod.mk.inj (Except.ok.inj h)
  obtain ⟨⟨typeClass, readPos⟩, hByte, hTag⟩ := bind_eq_ok.mp hNDC
  refine ⟨if typeClass = tcString then some ndc else none, ?_, ?_⟩
  · rw [readContexts, hBefore, ok_bind]
    dsimp only
    rw [hMDC, ok_bind]
    dsimp only
    rw [hByte, ok_bind, hNDC, ok_bind]
    rfl
  · split
    · rfl
    next hString =>
      simp only [if_neg hString] at hTag
      split at hTag
      · exact congrArg Prod.fst (Except.ok.inj hTag)
      · obtain ⟨_, -, hTag⟩ := bind_eq_ok.mp hTag
        exact congrArg Prod.fst (Except.ok.inj hTag)

namespace Blocking

/-- The contexts that a message carries, its NDC only if there is a string. -/
def readContexts (env : Env) (fuel : Nat) (socket : Segments) :
    Except Stop (Option LogString × MDC) := do
  let (_, socket) ← readBeforeMDC env fuel socket
  let (mdc, socket) ← readMDC env fuel socket
  let (typeClass, _) ← readByte socket
  let (ndc, _) ← readNDC env socket
  pure (if typeClass = tcString then some ndc else none, mdc)

theorem readMessage_contexts {env : Env} {fuel : Nat} {socket rest : Segments} {carried : Carried}
    (h : readMessage env fuel socket = .ok (carried, rest)) :
    ∃ ndc, readContexts env fuel socket = .ok (ndc, carried.mdc) ∧ ndc.getD [] = carried.ndc := by
  obtain ⟨⟨⟨⟨timeStamp, logger⟩, fullInfo⟩, socket⟩, hBefore, h⟩ := bind_eq_ok.mp h
  obtain ⟨⟨mdc, socketMDC⟩, hMDC, h⟩ := bind_eq_ok.mp h
  obtain ⟨⟨ndc, socketNDC⟩, hNDC, h⟩ := bind_eq_ok.mp h
  obtain ⟨⟨message, _⟩, -, h⟩ := bind_eq_ok.mp h
  obtain ⟨⟨threadName, _⟩, -, h⟩ := bind_eq_ok.mp h
  obtain ⟨⟨level, _⟩, -, h⟩ := bind_eq_ok.mp h
  obtain ⟨rfl, -⟩ := Prod.mk.inj (Except.ok.inj h)
  obtain ⟨⟨typeClass, _⟩, hByte, hTag⟩ := bind_eq_ok.mp hNDC
  refine ⟨if typeClass = tcString then some ndc else none, ?_, ?_⟩
  · rw [readContexts, hBefore, ok_bind]
    dsimp only
    rw [hMDC, ok_bind]
    dsimp only
    rw [hByte, ok_bind, hNDC, ok_bind]
    rfl
  · split
    · rfl
    next hString =>
      simp only [if_neg hString] at hTag
      split at hTag
      · exact congrArg Prod.fst (Except.ok.inj hTag)
      · obtain ⟨_, -, hTag⟩ := bind_eq_ok.mp hTag
        cases hTag

end Blocking

/-- Where a message is read from. -/
inductive Source
  | buffer (byteBuf : ByteBuf)
  | socket (socket : Blocking.Segments)

namespace Source

/-- The event that is returned, if one is. -/
def createLoggingEvent (env : Env) : Source → Option LoggingEvent
  | buffer byteBuf => (Default.createLoggingEvent env byteBuf).1.toOption
  | socket segments => ((Blocking.createLoggingEvent env segments).toOption.join).map (·.1)

/-- What a message carries, if it can be read to its end. -/
def readMessage (env : Env) : Source → Option Carried
  | buffer byteBuf =>
    (Default.readMessage env (byteBuf.bytes.length + 1) byteBuf).toOption.map (·.1)
  | socket segments =>
    (Blocking.readMessage env (segments.flatten.length + 1) segments).toOption.map (·.1)

def readContexts (env : Env) : Source → Option (Option LogString × MDC)
  | buffer byteBuf => (Default.readContexts env (byteBuf.bytes.length + 1) byteBuf).toOption
  | socket segments =>
    (Blocking.readContexts env (segments.flatten.length + 1) segments).toOption

variable {env : Env} {source : Source} {event : LoggingEvent} {carried : Carried}

/-- An event is built of what the message carries. -/
theorem createLoggingEvent_carried (h : source.createLoggingEvent env = some event) :
    ∃ carried, source.readMessage env = some carried ∧ carried.createLoggingEvent = .ok event := by
  cases source with
  | buffer byteBuf =>
    rw [createLoggingEvent, Default.createLoggingEvent, createLoggingEventFuel, load] at h
    cases hRead : Default.readMessage env (byteBuf.bytes.length + 1) byteBuf with
    | error e =>
      rw [hRead] at h
      cases h
    | ok read =>
      obtain ⟨carried, size⟩ := read
      rw [hRead] at h
      dsimp only at h
      refine ⟨carried, by rw [readMessage, hRead]; rfl, ?_⟩
      split at h
      · cases h
      · exact toOption_eq_some.mp h
  | socket segments =>
    rw [createLoggingEvent, Blocking.createLoggingEvent] at h
    cases hRead : Blocking.readMessage env (segments.flatten.length + 1) segments with
    | error stop =>
      rw [hRead] at h
      cases stop <;> cases h
    | ok read =>
      obtain ⟨carried, rest⟩ := read
      rw [hRead] at h
      dsimp only at h
      refine ⟨carried, by rw [readMessage, hRead]; rfl, ?_⟩
      cases hEvent : carried.createLoggingEvent with
      | ok event' =>
        rw [hEvent] at h
        exact congrArg Except.ok (Option.some.inj h)
      | error e =>
        rw [hEvent] at h
        cases h

theorem readMessage_contexts (h : source.readMessage env = some carried) :
    ∃ ndc, source.readContexts env = some (ndc, carried.mdc) ∧ ndc.getD [] = carried.ndc := by
  cases source with
  | buffer byteBuf =>
    obtain ⟨read, hRead, rfl⟩ := Option.map_eq_some_iff.mp h
    obtain ⟨ndc, hContexts, hNDC⟩ := Default.readMessage_contexts (toOption_eq_some.mp hRead)
    exact ⟨ndc, toOption_eq_some.mpr hContexts, hNDC⟩
  | socket segments =>
    obtain ⟨read, hRead, rfl⟩ := Option.map_eq_some_iff.mp h
    obtain ⟨ndc, hContexts, hNDC⟩ := Blocking.readMessage_contexts (toOption_eq_some.mp hRead)
    exact ⟨ndc, toOption_eq_some.mpr hContexts, hNDC⟩

end Source

/-- The event of a message shows, after any calls, the contexts of the message exactly if they are
those of the thread it is handled in. -/
theorem shows_iff {env : Env} {source : Source} {event : LoggingEvent}
    (h : source.createLoggingEvent env = some event) (thread : Option ThreadSpecificData)
    (calls : List Accessor) :
    ∃ ndc mdc, source.readContexts env = some (ndc, mdc) ∧
      ((ContextState.after ⟨event.contexts, thread⟩ calls).Shows ndc mdc ↔
        (NDC.get thread).1 = ndc ∧ ∀ key, (MDC.get key thread).1 = mdc.find? key) := by
  obtain ⟨carried, hRead, -⟩ := Source.createLoggingEvent_carried h
  obtain ⟨ndc, hContexts, -⟩ := Source.readMessage_contexts hRead
  have hFollows := (event.contexts_follows thread).after calls
  exact ⟨ndc, carried.mdc, hContexts, hFollows.get_eq_iff ndc carried.mdc⟩

/-- A message with the context `n`. -/
def nestedMessage : ByteBuf where
  bytes := (sampleStream.take 26).drop 4 ++ [0x74, 0x00, 0x01, 0x6E] ++ sampleStream.drop 27
  size_le := by decide

/-- A thread that has pushed `n` shows it. -/
theorem shows_iff_nestedMessage :
    let thread := ThreadSpecificData.push none [0x6E]
    ∃ event, (Source.buffer nestedMessage).createLoggingEvent .release = some event ∧
      ∃ ndc mdc, (Source.buffer nestedMessage).readContexts .release = some (ndc, mdc) ∧
        ((ContextState.after ⟨event.contexts, thread⟩ [.getNDC, .getMDCCopy]).Shows ndc mdc ↔
          (NDC.get thread).1 = ndc ∧ ∀ key, (MDC.get key thread).1 = mdc.find? key) := by
  intro thread
  obtain ⟨event, h⟩ : ∃ event,
      (Source.buffer nestedMessage).createLoggingEvent .release = some event :=
    Option.isSome_iff_exists.mp (by decide)
  exact ⟨event, h, shows_iff h thread [.getNDC, .getMDCCopy]⟩

/-- A thread that has pushed something else shows that. -/
theorem not_shows :
    ¬∀ (env : Env) (source : Source) (event : LoggingEvent) (thread : Option ThreadSpecificData)
      (ndc : Option LogString) (mdc : MDC), source.createLoggingEvent env = some event →
      source.readContexts env = some (ndc, mdc) →
      ContextState.Shows ⟨event.contexts, thread⟩ ndc mdc := by
  intro hAll
  obtain ⟨event, h⟩ : ∃ event,
      (Source.buffer nestedMessage).createLoggingEvent .release = some event :=
    Option.isSome_iff_exists.mp (by decide)
  have hContexts : (Source.buffer nestedMessage).readContexts .release =
      some (some [0x6E], .empty) := by decide
  have hShown : (ContextState.getNDC ⟨.new, ThreadSpecificData.push none [0x73]⟩).1 =
      some [0x73] := by decide
  obtain ⟨hNDC, -⟩ := hAll .release (.buffer nestedMessage) event
    (ThreadSpecificData.push none [0x73]) (some [0x6E]) .empty h hContexts
  cases hShown.symm.trans hNDC

end LogSocket.Default
