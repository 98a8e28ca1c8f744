import LogSocket.ClassNames
import LogSocket.ObjectOutputStream
import LogSocket.Segmentation

/-! A session of the log4cxx client: what it writes for a list of events is read back, message by
message, by the loader of the Default protocol, and names the classes that the loader asks for. -/

namespace LogSocket

open Lib ByteBuf Default

namespace ObjectOutputStream

variable (os : ObjectOutputStream)

@[simp] theorem writeBytes_written (bytes : List UInt8) :
    (os.writeBytes bytes).written = os.written ++ bytes := rfl

@[simp] theorem writeByte_written (val : UInt8) :
    (os.writeByte val).written = os.written ++ [val] := rfl

@[simp] theorem writeNull_written : os.writeNull.written = os.written ++ [tcNull] := rfl

@[simp] theorem writeInt_written (val : Int32) :
    (os.writeInt val).written = os.written ++ intChars val := rfl

@[simp] theorem writeLong_written (val : Int64) :
    (os.writeLong val).written = os.written ++ longChars val := rfl

@[simp] theorem writeString_written (val : LogString) :
    (os.writeString val).written = os.written ++ tcString :: stringBytes val := by
  unfold writeString stringBytes
  simp only [writeBytes_written, writeByte_written, List.append_assoc, List.cons_append,
    List.nil_append, lengthChars_eq]

theorem writeProlog_first {os : ObjectOutputStream} {className : String}
    (h : os.classDescriptions.lookup className = none) (classDescIncrement : UInt32)
    (classDesc : List UInt8) : (os.writeProlog className classDescIncrement classDesc).written =
      os.written ++ tcObject :: classDesc := by
  rw [writeProlog, h]
  simp only [writeBytes_written, writeByte_written, List.append_assoc, List.singleton_append]

theorem writeEntries_written (entries : List (LogString × LogString)) :
    (entries.foldl (fun os entry => (os.writeString entry.1).writeString entry.2) os).written =
      os.written ++ entriesBytes entries := by
  induction entries generalizing os with
  | nil => exact (List.append_nil _).symm
  | cons entry entries ih =>
    rw [List.foldl_cons, ih, entriesBytes, entriesBytes, List.flatMap_cons]
    simp only [writeString_written, List.append_assoc, List.cons_append]

end ObjectOutputStream

variable {os : ObjectOutputStream} {handles : Handles}

/-- The classes that the client names, with what it counts for each of them. -/
inductive Requested : String → UInt32 → ClassDesc → Prop
  | event : Requested "org.apache.log4j.spi.LoggingEvent" 8 loggingEventClass
  | location : Requested "org.apache.log4j.spi.LocationInfo" 2 locationInfoClass
  | map : Requested "java.util.Hashtable" 1 hashTableClass

namespace Requested

variable {className : String} {increment : UInt32} {desc : ClassDesc}

theorem wellFormed (h : Requested className increment desc) : desc.WellFormed := by
  cases h with
  | event => exact loggingEventClass_wellFormed
  | location => exact locationInfoClass_wellFormed
  | map => exact hashTableClass_wellFormed

/-- The handles that a descriptor takes, and that of the object. -/
theorem increment_eq (h : Requested className increment desc) :
    increment + 1 = UInt32.ofNat (desc.items.countP (·.1 == tcString) + 2) := by
  cases h <;> decide

theorem desc_eq {increment' : UInt32} {desc' : ClassDesc} (h : Requested className increment desc)
    (h' : Requested className increment' desc') : desc = desc' := by
  have hName : ∀ {increment desc}, Requested className increment desc →
      desc = if className = "org.apache.log4j.spi.LoggingEvent" then loggingEventClass
        else if className = "org.apache.log4j.spi.LocationInfo" then locationInfoClass
        else hashTableClass := by
    intro increment desc h
    cases h <;> simp
  rw [hName h, hName h']

end Requested

namespace ObjectOutputStream

/-- The client counts the handles as they are given, and knows those of the classes it has named. -/
structure Tracks (os : ObjectOutputStream) (handles : Handles) : Prop where
  next : os.objectHandle = handles.next
  given : ∀ {className increment desc handle}, Requested className increment desc →
    os.classDescriptions.lookup className = some handle → (desc.name, handle) ∈ handles.given

theorem Tracks.new : Tracks .new .new := ⟨rfl, fun _ h => by cases h⟩

theorem Tracks.writeBytes (h : Tracks os handles) (bytes : List UInt8) :
    Tracks (os.writeBytes bytes) handles := ⟨h.next, h.given⟩

theorem Tracks.writeString (h : Tracks os handles) (val : LogString) :
    Tracks (os.writeString val) (handles.texts 1) where
  next := congrArg (· + 1) h.next
  given := h.given

/-- A class is described at its first use, which gives it the handle that is written from then on. -/
theorem Tracks.writeProlog {className : String} {increment : UInt32} {desc : ClassDesc}
    (h : Tracks os handles) (hClass : Requested className increment desc) :
    ∃ ref : ClassRef, ref.WellFormed ∧ ref.Names handles desc.name ∧
      (os.writeProlog className increment desc.bytes).written = os.written ++ tcObject :: ref.bytes ∧
      Tracks (os.writeProlog className increment desc.bytes) (handles.object ref) := by
  cases hLookup : os.classDescriptions.lookup className with
  | some handle =>
    refine ⟨.reference handle, True.intro, h.given hClass hLookup, ?_, ?_⟩
    · rw [ObjectOutputStream.writeProlog, hLookup]
      simp [ClassRef.bytes, ← sizeChars_eq]
    · rw [ObjectOutputStream.writeProlog, hLookup]
      exact ⟨congrArg (· + 1) h.next, h.given⟩
  | none =>
    refine ⟨.described desc, hClass.wellFormed, rfl, writeProlog_first hLookup increment _, ?_⟩
    rw [ObjectOutputStream.writeProlog, hLookup]
    refine ⟨?_, fun {name _ desc' handle} hRequested hHandle => ?_⟩
    · change os.objectHandle + (increment + 1) = handles.next + _
      rw [h.next, hClass.increment_eq]
    · change List.lookup name ((className, os.objectHandle) :: os.classDescriptions) = _ at hHandle
      rw [List.lookup_cons] at hHandle
      split at hHandle
      next hName =>
        obtain rfl := eq_of_beq hName
        obtain rfl := Option.some.inj hHandle
        rw [hRequested.desc_eq hClass, h.next]
        exact List.mem_cons_self
      next => exact List.mem_cons_of_mem _ (h.given hRequested hHandle)

theorem Tracks.writeEntries (h : Tracks os handles) (entries : List (LogString × LogString)) :
    Tracks (entries.foldl (fun os entry => (os.writeString entry.1).writeString entry.2) os)
      (handles.texts (2 * entries.length)) := by
  induction entries generalizing os handles with
  | nil => simpa [Handles.texts] using h
  | cons entry entries ih =>
    have hRest := ih ((h.writeString entry.1).writeString entry.2)
    rwa [Handles.texts_texts, Handles.texts_texts,
      show 1 + (1 + 2 * entries.length) = 2 * (entry :: entries).length by simp; omega] at hRest

end ObjectOutputStream

namespace ClientEvent

open ObjectOutputStream (Tracks)

/-- What an event's message carries: the time in whole milliseconds, and empty contexts and an empty
location where there are none. -/
def carried (event : ClientEvent) : Carried where
  logger := event.logger
  level := event.level
  message := event.message
  timeStamp := event.timeStamp / 1000 * 1000
  threadName := event.threadName
  fullInfo := (event.location.map LocationInfo.fullInfo).getD []
  mdc := event.mdcCopy.getD .empty
  ndc := event.ndc.getD []

/-- The texts of an event fit the two bytes of their lengths. -/
structure TextsFit (event : ClientEvent) : Prop where
  logger : event.logger.length ≤ 65535
  message : event.message.length ≤ 65535
  threadName : event.threadName.length ≤ 65535
  location : ∀ info ∈ event.location, info.fullInfo.length ≤ 65535 ∧ 0 ∉ info.fullInfo
  mdc : ∀ mdc ∈ event.mdcCopy, ∀ entry ∈ mdc.entries,
    entry.1.length ≤ 65535 ∧ entry.2.length ≤ 65535
  ndc : ∀ ndc ∈ event.ndc, ndc.length ≤ 65535

variable {event : ClientEvent}

theorem writeLocation_names (hEvent : event.TextsFit) (h : Tracks os handles) :
    ∃ location : Option (ClassRef × LogString),
      location.map Prod.snd = event.location.map LocationInfo.fullInfo ∧
      (∀ l ∈ location, l.1.WellFormed ∧ l.2.length < 65536 ∧ 0 ∉ l.2) ∧
      (∀ l ∈ location, l.1.Names handles locationInfoClass.name) ∧
      (writeLocation event.location os).written = os.written ++ locationBytes location ∧
      Tracks (writeLocation event.location os) (handles.location location) := by
  cases hLocation : event.location with
  | none => exact ⟨none, rfl, nofun, nofun, rfl, h.writeBytes _⟩
  | some info =>
    obtain ⟨hLength, hNul⟩ := hEvent.location info hLocation
    obtain ⟨ref, hRef, hNames, hWritten, hTracks⟩ := h.writeProlog .location
    rw [← locationInfoClass_bytes] at hWritten hTracks
    refine ⟨some (ref, info.fullInfo), rfl, ?_, ?_, ?_, hTracks.writeString _⟩
    · rintro _ ⟨⟩
      exact ⟨hRef, Nat.lt_succ_of_le hLength, hNul⟩
    · rintro _ ⟨⟩
      exact hNames
    · simp [writeLocation, hWritten, locationBytes]

theorem writeMDC_names (hEvent : event.TextsFit)
    (hSize : ∀ mdc ∈ event.mdcCopy, mdc.entries.length < 2 ^ 31) (h : Tracks os handles) :
    ∃ mdc : Option (ClassRef × MDC),
      (mdc.map Prod.snd).getD .empty = event.mdcCopy.getD .empty ∧
      (∀ m ∈ mdc, m.1.WellFormed ∧ m.2.entries.length < 2 ^ 31 ∧
        ∀ entry ∈ m.2.entries, entry.1.length < 65536 ∧ entry.2.length < 65536) ∧
      (∀ m ∈ mdc, m.1.Names handles hashTableClass.name) ∧
      (writeMDC event.mdcCopy os).written = os.written ++ mdcBytes mdc ∧
      Tracks (writeMDC event.mdcCopy os) (handles.map mdc) := by
  cases hMDC : event.mdcCopy with
  | none => exact ⟨none, rfl, nofun, nofun, rfl, h.writeBytes _⟩
  | some mdc =>
    rw [writeMDC]
    split
    next hEmpty =>
      rw [show mdc = .empty from SortedMap.ext hEmpty]
      exact ⟨none, rfl, nofun, nofun, rfl, h.writeBytes _⟩
    next =>
      obtain ⟨ref, hRef, hNames, hWritten, hTracks⟩ := h.writeProlog .map
      rw [← hashTableClass_bytes] at hWritten hTracks
      refine ⟨some (ref, mdc), rfl, ?_, ?_, ?_, ?_⟩
      · rintro _ ⟨⟩
        refine ⟨hRef, hSize mdc hMDC, fun entry hEntry => ?_⟩
        have hFit := hEvent.mdc mdc hMDC entry hEntry
        omega
      · rintro _ ⟨⟩
        exact hNames
      · simp [ObjectOutputStream.writeMap, ObjectOutputStream.writeEntries_written, hWritten,
          mdcBytes, mapBytes, sizeChars_eq]
      · exact (((hTracks.writeBytes _).writeBytes _).writeEntries mdc.entries).writeBytes _

theorem writeNDC_names (ndc : Option LogString) (h : Tracks os handles) :
    (writeNDC ndc os).written = os.written ++ ndcBytes ndc ∧
      Tracks (writeNDC ndc os) (handles.context ndc) := by
  cases ndc with
  | none => exact ⟨rfl, h.writeBytes _⟩
  | some ndc => exact ⟨os.writeString_written ndc, h.writeString ndc⟩

/-- A client's message names the classes that the loader asks for. -/
theorem write_names (hEvent : event.TextsFit)
    (hSize : ∀ mdc ∈ event.mdcCopy, mdc.entries.length < 2 ^ 31) (h : Tracks os handles) :
    ∃ message : WireMessage, message.WellFormed ∧ message.carried = event.carried ∧
      (event.write os).written = os.written ++ message.bytes ∧ message.NamesRequested handles ∧
      Tracks (event.write os) (message.after handles) := by
  obtain ⟨ref, hRef, hNames, hWritten, hTracks⟩ := h.writeProlog .event
  rw [← loggingEventClass_bytes] at hWritten hTracks
  unfold write
  dsimp only
  generalize hHead : (((os.writeProlog "org.apache.log4j.spi.LoggingEvent" 8
    loggingEventDesc).writeBytes [0, 0]).writeLong (event.timeStamp / 1000)).writeString
      event.logger = os1
  have hHeadWritten : os1.written = os.written ++ tcObject :: (ref.bytes ++ ([0, 0] ++
      (longChars (event.timeStamp / 1000) ++ tcString :: stringBytes event.logger))) := by
    simp [← hHead, hWritten]
  have hHeadTracks : Tracks os1 ((handles.object ref).texts 1) :=
    hHead ▸ ((hTracks.writeBytes _).writeBytes _).writeString event.logger
  obtain ⟨location, hInfo, hLocation, hLocationNames, hLocationWritten, hLocationTracks⟩ :=
    writeLocation_names hEvent hHeadTracks
  obtain ⟨mdc, hMap, hMDC, hMDCNames, hMDCWritten, hMDCTracks⟩ :=
    writeMDC_names hEvent hSize hLocationTracks
  obtain ⟨hNDCWritten, hNDCTracks⟩ := writeNDC_names event.ndc hMDCTracks
  refine ⟨⟨false, ref, event.timeStamp / 1000, event.logger, location, mdc, event.ndc,
    event.message, event.threadName, event.level⟩, ?_, ?_, ?_, ⟨hNames, hLocationNames, hMDCNames⟩, ?_⟩
  · exact {
      event := hRef
      logger := Nat.lt_succ_of_le hEvent.logger
      location := hLocation
      mdc := hMDC
      ndc := fun ndc hNDC => Nat.lt_succ_of_le (hEvent.ndc ndc hNDC)
      threadName := Nat.lt_succ_of_le hEvent.threadName
      message := Nat.lt_succ_of_le hEvent.message }
  · simp [WireMessage.carried, carried, hInfo, hMap]
  · simp [hNDCWritten, hMDCWritten, hLocationWritten, hHeadWritten, WireMessage.bytes,
      WireMessage.messageBytes, WireMessage.carried, MessageBytes.bytes, MessageBytes.beforeMDC,
      MessageBytes.afterMDC]
  · exact ((((((hNDCTracks.writeString _).writeString _).writeBytes _).writeBytes _).writeBytes
      _).writeBytes _).writeBytes _ |>.writeBytes _

/-- A connection of the client names the classes that the loader asks for. -/
theorem writeAll_names {events : List ClientEvent} (hTexts : ∀ event ∈ events, event.TextsFit)
    (hSizes : ∀ event ∈ events, ∀ mdc ∈ event.mdcCopy, mdc.entries.length < 2 ^ 31)
    (h : Tracks os handles) :
    ∃ messages : List WireMessage, (∀ message ∈ messages, message.WellFormed) ∧
      messages.map WireMessage.carried = events.map carried ∧
      (events.foldl (fun os (event : ClientEvent) => event.write os) os).written =
        os.written ++ messages.flatMap WireMessage.bytes ∧
      WireMessage.NamesAll handles messages := by
  induction events generalizing os handles with
  | nil => exact ⟨[], nofun, rfl, (List.append_nil _).symm, True.intro⟩
  | cons event events ih =>
    obtain ⟨message, hMessage, hCarried, hWritten, hNames, hTracks⟩ :=
      write_names (hTexts event List.mem_cons_self) (hSizes event List.mem_cons_self) h
    obtain ⟨messages, hMessages, hAllCarried, hAllWritten, hAllNames⟩ :=
      ih (fun e he => hTexts e (List.mem_cons_of_mem _ he))
        (fun e he => hSizes e (List.mem_cons_of_mem _ he)) hTracks
    refine ⟨message :: messages, List.forall_mem_cons.mpr ⟨hMessage, hMessages⟩, ?_, ?_,
      hNames, hAllNames⟩
    · rw [List.map_cons, List.map_cons, hCarried, hAllCarried]
    · rw [List.foldl_cons, hAllWritten, hWritten, List.flatMap_cons, List.append_assoc]

end ClientEvent

theorem createLoggingEventFunc_default (host : Host) {byteBuf : ByteBuf} {rest : List UInt8}
    (hBytes : byteBuf.bytes = Default.start ++ rest) :
    ∃ rest' : ByteBuf, rest'.bytes = rest ∧
      createLoggingEventFunc host byteBuf = (.ok (some .default), rest') := by
  have h : byteBuf.Ahead 0 (Default.start ++ rest) := hBytes ▸ Ahead.start byteBuf
  have hFetch : byteBuf.fetch 0 4 = .ok Default.start := h.fetch rfl
  have hStart : Protocol.default.readStart host byteBuf = .ok 4 := by
    change readFlag Default.start host.env byteBuf = _
    rw [readFlag, hFetch, ok_bind, beq_self_eq_true, Env.assert_true]
    rfl
  have hFour : 4 ≤ byteBuf.bytes.length := by
    rw [hBytes, List.length_append]
    exact Nat.le_add_right 4 _
  refine ⟨byteBuf.drop 4, by rw [drop_bytes, hBytes]; rfl, ?_⟩
  simp only [createLoggingEventFunc, sloggingEventFuncs, tryLoggingEventFuncs, hStart,
    erase_four hFour]

namespace ClientEvent

/-- What a client sends behind the start flag. -/
theorem messages_of_session {env : Env} (hAlloc : 65536 ≤ env.allocLimit)
    {events : List ClientEvent} (hTexts : ∀ event ∈ events, event.TextsFit)
    (hSizes : ∀ event ∈ events, ∀ mdc ∈ event.mdcCopy, mdc.entries.length < 2 ^ 31) :
    ∃ stream, session events = Default.start ++ stream ∧
      ∀ byteBuf : ByteBuf, byteBuf.bytes = stream → Decodes env byteBuf (events.map carried) := by
  obtain ⟨messages, hMessages, hCarried, hWritten, -⟩ := writeAll_names hTexts hSizes .new
  refine ⟨_, hWritten, fun byteBuf hBytes => ?_⟩
  rw [← hCarried]
  exact messages_decode hAlloc hMessages hBytes

/-- The server reads what a client sent. -/
theorem session_decodes (host : Host) (hAlloc : 65536 ≤ host.env.allocLimit)
    (events : List ClientEvent) (hTexts : ∀ event ∈ events, event.TextsFit)
    (hSizes : ∀ event ∈ events, ∀ mdc ∈ event.mdcCopy, mdc.entries.length < 2 ^ 31)
    (byteBuf : ByteBuf) (hBytes : byteBuf.bytes = session events) :
    ∃ rest, createLoggingEventFunc host byteBuf = (.ok (some .default), rest) ∧
      Decodes host.env rest (events.map carried) := by
  obtain ⟨stream, hSession, hDecodes⟩ := messages_of_session hAlloc hTexts hSizes
  obtain ⟨rest, hRest, hFunc⟩ := createLoggingEventFunc_default host (hBytes.trans hSession)
  exact ⟨rest, hFunc, hDecodes rest hRest⟩

/-- A session of two events, the first of which has all the optional parts. -/
def sampleSession : List ClientEvent := [
  { logger := [0x6C]
    level := 20000
    message := [0x6D]
    timeStamp := 1500
    threadName := [0x74]
    location := some ⟨7, [0x66], [0x41, 0x3A, 0x3A, 0x62, 0x28, 0x29]⟩
    mdcCopy := some ⟨[([0x6B], [0x76])], by decide⟩
    ndc := some [0x6E] },
  { logger := [0x6C]
    level := 40000
    message := []
    timeStamp := 2999
    threadName := [0x74]
    location := none
    mdcCopy := none
    ndc := none }]

theorem session_decodes_sample :
    ∃ rest, createLoggingEventFunc byteHost ⟨session sampleSession, by decide +kernel⟩ =
        (.ok (some .default), rest) ∧
      Decodes .release rest (sampleSession.map carried) := by
  refine session_decodes byteHost (by decide) sampleSession ?_ ?_ _ rfl
  · refine List.forall_mem_cons.mpr ⟨?_, List.forall_mem_singleton.mpr ?_⟩
    · exact ⟨by decide, by decide, by decide, by rintro _ ⟨⟩; decide, by rintro _ ⟨⟩; decide,
        by rintro _ ⟨⟩; decide⟩
    · exact ⟨by decide, by decide, by decide, nofun, nofun, nofun⟩
  · refine List.forall_mem_cons.mpr ⟨?_, List.forall_mem_singleton.mpr nofun⟩
    rintro _ ⟨⟩
    decide

/-- The last decimal digits of a number. -/
def lastDigits : Nat → Nat → LogString
  | 0, _ => []
  | width + 1, n => lastDigits width (n / 10) ++ [UInt8.ofNat (0x30 + n % 10)]

theorem lastDigits_length (width n : Nat) : (lastDigits width n).length = width := by
  induction width generalizing n with
  | zero => rfl
  | succ width ih => rw [lastDigits, List.length_append, ih, List.length_singleton]

/-- Numbers are in the order of their digits. -/
theorem lastDigits_lt {width m n : Nat} (h : m < n) (hn : n < 10 ^ width) :
    lastDigits width m < lastDigits width n := by
  induction width generalizing m n with
  | zero => rw [pow_zero] at hn; omega
  | succ width ih =>
    rw [lastDigits, lastDigits]
    rw [pow_succ] at hn
    by_cases hHigh : m / 10 < n / 10
    · exact append_lt_append _ _ (ih hHigh (by omega)) (by rw [lastDigits_length, lastDigits_length])
    · rw [show m / 10 = n / 10 by omega]
      refine List.append_left_lt (.rel ?_)
      rw [UInt8.lt_iff_toNat_lt, UInt8.toNat_ofNat', UInt8.toNat_ofNat']
      omega

/-- A map with `n` entries: the numbers below `n` with ten digits, each with an empty value. -/
def numbered (n : Nat) (h : n ≤ 2 ^ 32) : MDC where
  entries := (List.range n).map fun i => (lastDigits 10 i, [])
  sorted := by
    refine List.pairwise_map.mpr (List.Pairwise.imp_of_mem ?_ List.pairwise_lt_range)
    intro i j _ hj hlt
    have := List.mem_range.mp hj
    exact lastDigits_lt hlt (by omega)

theorem numbered_length (n : Nat) (h : n ≤ 2 ^ 32) : (numbered n h).entries.length = n := by
  rw [numbered, List.length_map, List.length_range]

theorem numbered_bytes_length (n : Nat) (h : n ≤ 2 ^ 32) :
    (entriesBytes (numbered n h).entries).length = 16 * n := by
  suffices hRange : ∀ n : Nat, (entriesBytes ((List.range n).map fun i =>
      (lastDigits 10 i, []))).length = 16 * n from hRange n
  intro n
  induction n with
  | zero => rfl
  | succ n ih =>
    rw [List.range_succ, List.map_append, entriesBytes, List.flatMap_append, List.length_append,
      ← entriesBytes, ih]
    simp only [List.map_cons, List.map_nil, List.flatMap_cons, List.flatMap_nil, List.length_append,
      List.length_cons, stringBytes, beBytes_length, lastDigits_length, List.length_nil]
    omega

/-- An event with a map and nothing else. -/
def withMDC (mdc : MDC) : ClientEvent where
  logger := []
  level := 20000
  message := []
  timeStamp := 0
  threadName := []
  location := none
  mdcCopy := some mdc
  ndc := none

/-- The first message of a session, for an event with a map and nothing else. -/
def mdcMessage (mdc : MDC) : MessageBytes (withMDC mdc).carried :=
  ⟨false, loggingEventDesc, 0, [tcNull], tcObject :: mapBytes hashTableDesc mdc, [tcNull]⟩

theorem session_withMDC {mdc : MDC} (h : mdc.entries ≠ []) :
    session [withMDC mdc] = Default.start ++ (mdcMessage mdc).bytes := by
  simp only [session, withMDC, write, List.foldl_cons, List.foldl_nil, writeLocation, writeMDC,
    writeNDC, if_neg h, ObjectOutputStream.writeMap, ObjectOutputStream.writeByte_written,
    ObjectOutputStream.writeNull_written, ObjectOutputStream.writeInt_written,
    ObjectOutputStream.writeString_written, ObjectOutputStream.writeEntries_written,
    ObjectOutputStream.writeBytes_written, sizeChars_eq]
  rw [ObjectOutputStream.writeProlog_first (by decide)]
  simp only [ObjectOutputStream.writeNull_written, ObjectOutputStream.writeString_written,
    ObjectOutputStream.writeLong_written, ObjectOutputStream.writeBytes_written]
  rw [ObjectOutputStream.writeProlog_first (by decide)]
  simp only [mdcMessage, MessageBytes.bytes, MessageBytes.beforeMDC, MessageBytes.afterMDC, mapBytes,
    List.append_assoc, List.cons_append, List.nil_append]
  rfl

theorem session_withMDC_length {mdc : MDC} (h : mdc.entries ≠ []) :
    (session [withMDC mdc]).length ≤ 600 + (entriesBytes mdc.entries).length := by
  have hEvent : loggingEventDesc.length = 390 := by decide +kernel
  have hTable : hashTableDesc.length = 60 := by decide
  rw [session_withMDC h]
  simp only [mdcMessage, MessageBytes.bytes, MessageBytes.beforeMDC, MessageBytes.afterMDC, mapBytes,
    List.length_append, List.length_cons, beBytes_length, hEvent, hTable, withMDC, carried,
    stringBytes, longChars, intChars, Default.start, hashTableData, List.length_nil,
    Bool.false_eq_true, if_false]
  omega

theorem withMDC_textsFit {mdc : MDC}
    (h : ∀ entry ∈ mdc.entries, entry.1.length ≤ 65535 ∧ entry.2.length ≤ 65535) :
    (withMDC mdc).TextsFit where
  logger := Nat.zero_le _
  message := Nat.zero_le _
  threadName := Nat.zero_le _
  location := nofun
  mdc := by
    rintro _ ⟨⟩
    exact h
  ndc := nofun

theorem numbered_textsFit (n : Nat) (h : n ≤ 2 ^ 32) : (withMDC (numbered n h)).TextsFit := by
  refine withMDC_textsFit fun entry hEntry => ?_
  obtain ⟨i, -, rfl⟩ := List.mem_map.mp hEntry
  exact ⟨by rw [lastDigits_length]; omega, Nat.zero_le _⟩

/-- A message whose map has too many entries is rejected where the first of them is. -/
theorem mdcMessage_invalid {env : Env} (hAlloc : 65536 ≤ env.allocLimit) {mdc : MDC}
    (hMany : 2 ^ 31 ≤ mdc.entries.length) (hBits : mdc.entries.length < 2 ^ 32)
    {byteBuf : ByteBuf} (hBytes : byteBuf.bytes = (mdcMessage mdc).bytes) :
    Default.createLoggingEvent env byteBuf = (.error (.invalid .endBlockData), byteBuf) := by
  have h : byteBuf.Ahead 0 (mdcMessage mdc).bytes := hBytes ▸ Ahead.start byteBuf
  rw [MessageBytes.bytes] at h
  have hProlog : Prolog (mdcMessage mdc).prolog := loggingEventDesc_prolog
  have hTime : (withMDC mdc).carried.timeStamp = (mdcMessage mdc).millis * 1000 :=
    show (0 / 1000 * 1000 : Int64) = 0 * 1000 by decide
  have hLogger : (withMDC mdc).carried.logger.length < 65536 :=
    show 0 < 65536 by decide
  have hLocation : LocationBytes (withMDC mdc).carried.fullInfo (mdcMessage mdc).location := .absent
  obtain ⟨pos, hBefore, h⟩ :=
    readBeforeMDC_ahead hAlloc hProlog hTime hLogger hLocation (Nat.lt_succ_self _) h
  obtain ⟨hByte, h⟩ := readByte_ahead h
  have hObject : readObject env _ byteBuf _ _ _ = _ :=
    readObject_many hashTableDesc_prolog hMany hBits (Nat.lt_succ_self _) h
  have hMDC : readMDC env (byteBuf.bytes.length + 1) byteBuf pos =
      .error (.invalid .endBlockData) := by
    rw [readMDC, hByte, ok_bind]
    dsimp only
    rw [if_neg (by decide), if_pos rfl, hObject]
    rfl
  refine load_error ?_
  rw [readMessage, hBefore, ok_bind]
  dsimp only
  rw [hMDC]
  rfl

/-- With `2 ^ 31` entries in its map the one event of a session is not read. -/
theorem session_oversized :
    ¬∀ (host : Host) (events : List ClientEvent) (byteBuf : ByteBuf),
      65536 ≤ host.env.allocLimit → (∀ event ∈ events, event.TextsFit) →
      byteBuf.bytes = session events →
      ∃ rest, createLoggingEventFunc host byteBuf = (.ok (some .default), rest) ∧
        Decodes host.env rest (events.map carried) := by
  intro hAll
  have hLength := numbered_length (2 ^ 31) (by decide)
  have hBytesLength := numbered_bytes_length (2 ^ 31) (by decide)
  have hTexts := numbered_textsFit (2 ^ 31) (by decide)
  generalize numbered (2 ^ 31) (by decide) = mdc at hLength hBytesLength hTexts
  have hEntries : mdc.entries ≠ [] := by
    intro h
    rw [h] at hLength
    cases hLength
  have hSize := session_withMDC_length hEntries
  rw [hBytesLength] at hSize
  let byteBuf : ByteBuf := ⟨session [withMDC mdc], hSize.trans (by decide)⟩
  obtain ⟨rest, hFunc, hDecodes⟩ := hAll byteHost [withMDC mdc] byteBuf (by decide)
    (List.forall_mem_singleton.mpr hTexts) rfl
  obtain ⟨rest', hRest, hFunc'⟩ :=
    createLoggingEventFunc_default byteHost
      (show byteBuf.bytes = _ from session_withMDC hEntries)
  obtain rfl := (Prod.mk.inj (hFunc.symm.trans hFunc')).2
  have hInvalid := mdcMessage_invalid (show 65536 ≤ Env.release.allocLimit by decide) hLength.ge
    (hLength.trans_lt (by decide)) hRest
  cases hDecodes with
  | message _ _ _ hCall _ =>
    rw [show byteHost.env = Env.release from rfl, hInvalid] at hCall
    cases hCall

end ClientEvent

end LogSocket
