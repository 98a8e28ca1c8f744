import LogSocket.MessageBytes

/-! The classes that the prologs of a connection name: by a descriptor, which is given a handle, or by
a handle that was given to one before. -/

namespace LogSocket.Default

open Lib ByteBuf

/-- A part of a list of bytes. -/
def part (bytes : List UInt8) (start size : Nat) : List UInt8 := (bytes.drop start).take size

def loggingEventClass : ClassDesc where
  name := part loggingEventDesc 3 33
  serialVersion := part loggingEventDesc 36 8
  flags := 0x03
  count := 10
  items := [
    (0x5A, part loggingEventDesc 50 21), (0x5A, part loggingEventDesc 74 17),
    (0x4A, part loggingEventDesc 94 9), (0x4C, part loggingEventDesc 106 12),
    (0x74, part loggingEventDesc 121 18), (0x4C, part loggingEventDesc 142 12),
    (0x74, part loggingEventDesc 157 35), (0x4C, part loggingEventDesc 195 7),
    (0x74, part loggingEventDesc 205 21), (0x4C, part loggingEventDesc 229 3),
    (0x74, part loggingEventDesc 235 18), (0x4C, part loggingEventDesc 256 15),
    (0x74, part loggingEventDesc 274 18), (0x4C, part loggingEventDesc 295 10),
    (0x74, part loggingEventDesc 308 18), (0x4C, part loggingEventDesc 329 13),
    (0x74, part loggingEventDesc 345 43)]

def locationInfoClass : ClassDesc where
  name := part locationInfoDesc 3 33
  serialVersion := part locationInfoDesc 36 8
  flags := 0x02
  count := 1
  items := [(0x4C, part locationInfoDesc 50 8), (0x74, part locationInfoDesc 61 18)]

def hashTableClass : ClassDesc where
  name := part hashTableDesc 3 19
  serialVersion := part hashTableDesc 22 8
  flags := 0x03
  count := 2
  items := [(0x46, part hashTableDesc 36 10), (0x49, part hashTableDesc 49 9)]

theorem loggingEventClass_wellFormed : loggingEventClass.WellFormed :=
  ⟨by decide, by decide, by decide, by decide, by decide, by decide⟩

theorem locationInfoClass_wellFormed : locationInfoClass.WellFormed :=
  ⟨by decide, by decide, by decide, by decide, by decide, by decide⟩

theorem hashTableClass_wellFormed : hashTableClass.WellFormed :=
  ⟨by decide, by decide, by decide, by decide, by decide, by decide⟩

theorem loggingEventClass_bytes : loggingEventDesc = loggingEventClass.bytes := by decide +kernel

theorem locationInfoClass_bytes : locationInfoDesc = locationInfoClass.bytes := by decide

theorem hashTableClass_bytes : hashTableDesc = hashTableClass.bytes := by decide

theorem loggingEventDesc_prolog : Prolog loggingEventDesc := by
  rw [loggingEventClass_bytes]
  exact .desc _ loggingEventClass_wellFormed

theorem locationInfoDesc_prolog : Prolog locationInfoDesc := by
  rw [locationInfoClass_bytes]
  exact .desc _ locationInfoClass_wellFormed

theorem hashTableDesc_prolog : Prolog hashTableDesc := by
  rw [hashTableClass_bytes]
  exact .desc _ hashTableClass_wellFormed

/-- A class on the wire. -/
inductive ClassRef
  | described (desc : ClassDesc)
  | reference (handle : UInt32)

def ClassRef.bytes : ClassRef → List UInt8
  | .described desc => desc.bytes
  | .reference handle => tcReference :: beBytes 4 handle.toNat

def ClassRef.WellFormed : ClassRef → Prop
  | .described desc => desc.WellFormed
  | .reference _ => True

/-- The handles of a connection: the next one, and those of the descriptors so far. -/
structure Handles where
  next : UInt32
  given : List (LogString × UInt32)

namespace Handles

def new : Handles := ⟨0x7E0000, []⟩

/-- Each text is given a handle. -/
def texts (handles : Handles) (n : Nat) : Handles :=
  { handles with next := handles.next + UInt32.ofNat n }

/-- An object is given a handle, and before that its class, if it is described, and the types of the
fields in it. -/
def object (handles : Handles) : ClassRef → Handles
  | .described desc =>
    { next := handles.next + UInt32.ofNat (desc.items.countP (·.1 == tcString) + 2)
      given := (desc.name, handles.next) :: handles.given }
  | .reference _ => handles.texts 1

theorem texts_texts (handles : Handles) (m n : Nat) :
    (handles.texts m).texts n = handles.texts (m + n) := by
  simp [texts, UInt32.ofNat_add, UInt32.add_assoc]

/-- A location is an object with one text. -/
def location (handles : Handles) : Option (ClassRef × LogString) → Handles
  | none => handles
  | some (ref, _) => (handles.object ref).texts 1

/-- A map is an object with two texts for each entry. -/
def map (handles : Handles) : Option (ClassRef × MDC) → Handles
  | none => handles
  | some (ref, mdc) => (handles.object ref).texts (2 * mdc.entries.length)

def context (handles : Handles) : Option LogString → Handles
  | none => handles
  | some _ => handles.texts 1

end Handles

/-- The class is named, or its handle is one that it was given. -/
def ClassRef.Names (handles : Handles) (className : LogString) : ClassRef → Prop
  | .described desc => desc.name = className
  | .reference handle => (className, handle) ∈ handles.given

def locationBytes : Option (ClassRef × LogString) → List UInt8
  | none => [tcNull]
  | some (ref, fullInfo) => tcObject :: (ref.bytes ++ tcString :: stringBytes fullInfo)

def mdcBytes : Option (ClassRef × MDC) → List UInt8
  | none => [tcNull]
  | some (ref, mdc) => tcObject :: mapBytes ref.bytes mdc

def ndcBytes : Option LogString → List UInt8
  | none => [tcNull]
  | some ndc => tcString :: stringBytes ndc

/-- A message, with the classes of its event, its location and its map. -/
structure WireMessage where
  reset : Bool
  event : ClassRef
  millis : Int64
  logger : LogString
  location : Option (ClassRef × LogString)
  mdc : Option (ClassRef × MDC)
  ndc : Option LogString
  message : LogString
  threadName : LogString
  level : Int32

namespace WireMessage

variable (message : WireMessage) (handles : Handles)

def carried : Carried where
  logger := message.logger
  level := message.level
  message := message.message
  timeStamp := message.millis * 1000
  threadName := message.threadName
  fullInfo := (message.location.map Prod.snd).getD []
  mdc := (message.mdc.map Prod.snd).getD .empty
  ndc := message.ndc.getD []

def messageBytes : MessageBytes message.carried where
  reset := message.reset
  prolog := message.event.bytes
  millis := message.millis
  location := locationBytes message.location
  mdc := mdcBytes message.mdc
  ndc := ndcBytes message.ndc

def bytes : List UInt8 := message.messageBytes.bytes

/-- The classes can be read to their ends, and the texts fit their lengths. -/
structure WellFormed : Prop where
  event : message.event.WellFormed
  logger : message.logger.length < 65536
  location : ∀ location ∈ message.location,
    location.1.WellFormed ∧ location.2.length < 65536 ∧ 0 ∉ location.2
  mdc : ∀ mdc ∈ message.mdc, mdc.1.WellFormed ∧ mdc.2.entries.length < 2 ^ 31 ∧
    ∀ entry ∈ mdc.2.entries, entry.1.length < 65536 ∧ entry.2.length < 65536
  ndc : ∀ ndc ∈ message.ndc, ndc.length < 65536
  threadName : message.threadName.length < 65536
  message : message.message.length < 65536

/-- The handles at the prolog of the event. -/
def atEvent : Handles := if message.reset then .new else handles

/-- The handles at the prolog of the location. -/
def atLocation : Handles := ((message.atEvent handles).object message.event).texts 1

/-- The handles at the prolog of the map. -/
def atMDC : Handles := (message.atLocation handles).location message.location

/-- The handles behind the message. -/
def after : Handles :=
  ((((message.atMDC handles).map message.mdc).context message.ndc).texts 1).texts 1

/-- Each prolog names the class that it is read for. -/
structure NamesRequested : Prop where
  event : message.event.Names (message.atEvent handles) loggingEventClass.name
  location : ∀ location ∈ message.location,
    location.1.Names (message.atLocation handles) locationInfoClass.name
  mdc : ∀ mdc ∈ message.mdc, mdc.1.Names (message.atMDC handles) hashTableClass.name

/-- Each prolog of a connection does. -/
def NamesAll : Handles → List WireMessage → Prop
  | _, [] => True
  | handles, message :: messages =>
    message.NamesRequested handles ∧ NamesAll (message.after handles) messages

end WireMessage

variable {env : Env} {byteBuf : ByteBuf} {pos : UInt64} {ref : ClassRef} {message : WireMessage}

theorem ClassRef.WellFormed.prolog (h : ref.WellFormed) : Prolog ref.bytes := by
  cases ref with
  | described desc => exact .desc desc h
  | reference handle => exact .reference _ (beBytes_length 4 _)

theorem WireMessage.WellFormed.messageBytes (h : message.WellFormed) :
    message.messageBytes.WellFormed where
  prolog := h.event.prolog
  timeStamp := rfl
  logger := h.logger
  location := by
    cases hLocation : message.location with
    | none =>
      simp only [WireMessage.carried, WireMessage.messageBytes, hLocation]
      exact .absent
    | some location =>
      obtain ⟨hRef, hLength, hNul⟩ := h.location location hLocation
      simp only [WireMessage.carried, WireMessage.messageBytes, hLocation]
      exact .present hRef.prolog hLength hNul
  mdc := by
    cases hMDC : message.mdc with
    | none =>
      simp only [WireMessage.carried, WireMessage.messageBytes, hMDC]
      exact .absent
    | some mdc =>
      obtain ⟨hRef, hSize, hEntries⟩ := h.mdc mdc hMDC
      simp only [WireMessage.carried, WireMessage.messageBytes, hMDC]
      exact .present hRef.prolog hSize hEntries
  ndc := by
    cases hNDC : message.ndc with
    | none =>
      simp only [WireMessage.carried, WireMessage.messageBytes, hNDC]
      exact .absent
    | some ndc =>
      simp only [WireMessage.carried, WireMessage.messageBytes, hNDC]
      exact .present (h.ndc ndc hNDC)
  message := h.message
  threadName := h.threadName

/-- Messages are read one after the other, whatever classes they name. -/
theorem messages_decode (hAlloc : 65536 ≤ env.allocLimit) {messages : List WireMessage}
    (h : ∀ message ∈ messages, message.WellFormed)
    (hBytes : byteBuf.bytes = messages.flatMap WireMessage.bytes) :
    Decodes env byteBuf (messages.map WireMessage.carried) := by
  induction messages generalizing byteBuf with
  | nil => exact .done hBytes
  | cons message messages ih =>
    rw [List.flatMap_cons] at hBytes
    obtain ⟨pos, event, rest, hRead, hEvent, hCall, hRest⟩ :=
      createLoggingEvent_ahead hAlloc (h message List.mem_cons_self).messageBytes hBytes
    exact .message hRead hEvent (Carried.shown hEvent) hCall
      (ih (fun m hm => h m (List.mem_cons_of_mem _ hm)) hRest)

end LogSocket.Default
