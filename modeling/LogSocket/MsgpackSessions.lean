import LogSocket.Senders
import LogSocket.Unpacking

/-! The Msgpack protocol with the library that comes with the loader. Its `unpack` keeps the laws that
the server relies on, and a connection of `MsgpackSocketHandler` becomes the events of its records. -/

namespace LogSocket

open Lib

namespace Unpack

/-- A machine whose memory does not run out. -/
def Machine.roomy (toDouble : UInt32 → UInt64) : Machine := ⟨fun _ => true, toDouble⟩

/-- `msgpack::unpack(byteBuf.data(), byteBuf.size(), readBytes)`, of a vector, which has no more bytes
than `maxSize`. -/
def unpacked (toDouble : UInt32 → UInt64) (bytes : List UInt8) : Unpacked :=
  match unpack (.roomy toDouble) {} (bytes.take maxSize) with
  | .ok (msg, readBytes) => .object msg (UInt64.ofNat readBytes)
  | .error .insufficientBytes => .insufficientBytes
  | .error _ => .parseError

theorem unpacked_of_insufficient {toDouble : UInt32 → UInt64} {bytes : List UInt8}
    (h : unpack (.roomy toDouble) {} (bytes.take maxSize) = .error .insufficientBytes) :
    unpacked toDouble bytes = .insufficientBytes := by
  rw [unpacked, h]

theorem unpacked_object {toDouble : UInt32 → UInt64} {bytes : List UInt8} {msg : Object}
    {readBytes : UInt64} (h : unpacked toDouble bytes = .object msg readBytes) :
    ∃ n, unpack (.roomy toDouble) {} (bytes.take maxSize) = .ok (msg, n) ∧
      readBytes = UInt64.ofNat n := by
  unfold unpacked at h
  split at h
  next msg' n hUnpack =>
    cases h
    exact ⟨n, hUnpack, rfl⟩
  · cases h
  · cases h

end Unpack

open Unpack

/-- A server that is built with the library. -/
def Host.vendored (host : Host) (toDouble : UInt32 → UInt64) : Host :=
  { host with unpack := unpacked toDouble }

/-- The library does what its documentation says. -/
theorem vendored_laws (host : Host) (toDouble : UInt32 → UInt64) :
    (host.vendored toDouble).UnpackLaws where
  repeats bytes more h := by
    have hEnough : unpack (.roomy toDouble) {} (bytes.take maxSize) ≠ .error .insufficientBytes :=
      fun hShort => h (unpacked_of_insufficient hShort)
    change unpacked toDouble (bytes ++ more) = unpacked toDouble bytes
    rw [unpacked, List.take_append, unpack_append _ hEnough, unpacked]
  takes {bytes msg readBytes} h := by
    obtain ⟨n, hUnpack, rfl⟩ := unpacked_object h
    obtain ⟨front, rest, hFront, rfl, hSpells⟩ := spells_of_unpack hUnpack
    have hPos := (solid _ _).spells hSpells
    have hLength := congrArg List.length hFront
    rw [List.length_take, List.length_append] at hLength
    have hMax : maxSize < 2 ^ 64 := by decide
    have hSmall : front.length < 2 ^ 64 := by omega
    rw [UInt64.toNat_ofNat_of_lt' hSmall]
    omega

/-- With asserts the first probe would have failed. -/
theorem createLoggingEventFunc_msgpack {host : Host} (hAsserts : host.env.asserts = false)
    {byteBuf : ByteBuf} {rest : List UInt8} (hBytes : byteBuf.bytes = Msgpack.start ++ rest) :
    (createLoggingEventFunc host byteBuf).1 = .ok (some .msgpack) := by
  have h : byteBuf.Ahead 0 (Msgpack.start ++ rest) := hBytes ▸ ByteBuf.Ahead.start byteBuf
  have hFetch : byteBuf.fetch 0 4 = .ok Msgpack.start := h.fetch rfl
  have hFour : 4 ≤ byteBuf.bytes.length := by
    rw [hBytes, List.length_append]
    exact Nat.le_add_right 4 _
  have hProbe (start : List UInt8) : readFlag start host.env byteBuf =
      require (Msgpack.start == start) (.invalid .start) >>= fun _ => pure 4 := by
    rw [readFlag, hFetch, ok_bind, Env.assert_off _ hAsserts, ok_bind]
  have hDefault : Protocol.default.readStart host byteBuf = .error (.invalid .start) := hProbe _
  have hBytes : Protocol.bytes.readStart host byteBuf = .error (.invalid .start) := hProbe _
  have hMsgpack : Protocol.msgpack.readStart host byteBuf = .ok 4 := hProbe _
  simp only [createLoggingEventFunc, sloggingEventFuncs, tryLoggingEventFuncs, hDefault, hBytes, hMsgpack,
    erase_four hFour]

namespace MsgpackSocketHandler

open Msgpack

/-- The numbers of a record are in the range of an `int`. -/
structure FitsInt (record : LogRecord) : Prop where
  levelno : -2 ^ 31 ≤ record.levelno ∧ record.levelno < 2 ^ 31
  lineno : -2 ^ 31 ≤ record.lineno ∧ record.lineno < 2 ^ 31

theorem packInt_int {value : Int} (hRange : -2 ^ 31 ≤ value ∧ value < 2 ^ 31) :
    ∃ object, packInt value = some object ∧ asInt object = .ok (Int32.ofInt value) := by
  have hOk {object : Object} (hPack : packInt value = some object)
      (h : ∃ i, asInt object = .ok i) : ∃ object, packInt value = some object ∧
        asInt object = .ok (Int32.ofInt value) := by
    obtain ⟨i, hInt⟩ := h
    exact ⟨object, hPack, asInt_packInt hPack hInt ▸ hInt⟩
  by_cases hSign : 0 ≤ value
  · have hSmall : ¬ (2147483647 : UInt64) < UInt64.ofNat value.toNat := by
      rw [UInt64.lt_iff_toNat_lt, UInt64.toNat_ofNat']
      have : (2147483647 : UInt64).toNat = 2147483647 := rfl
      omega
    exact hOk (if_pos ⟨hSign, by omega⟩) ⟨_, if_neg hSmall⟩
  · have hSmall : ¬ Int64.ofInt value < -2147483648 := by
      rw [Int64.lt_iff_toInt_lt, Int64.toInt_ofInt, Int64.size, Int.bmod_def]
      have : (-2147483648 : Int64).toInt = -2147483648 := rfl
      omega
    exact hOk ((if_neg (by omega)).trans (if_pos ⟨by omega, by omega⟩)) ⟨_, if_neg hSmall⟩

section

variable {α : Type}

/-- What the loader reads of a record. -/
def data (host : Host) (record : ArgRecord α) : LoggingEventData where
  loggerName := record.name
  level := Int32.ofInt record.levelno * 1000
  message := record.msg
  timestamp := host.microseconds (.double record.attributes.created)
  threadName := record.threadName
  pathName := record.pathname
  funcName := record.funcName
  lineNumber := decimal record.lineno

theorem readData_fitsInt {record : ArgRecord α} (h : FitsInt record.toLogRecord) :
    ∃ entries, dict record.toLogRecord record.attributes = some entries ∧
      ∀ (host : Host) (byteBuf : ByteBuf) (readBytes : UInt64),
        host.unpack byteBuf.bytes = .object (.map entries) readBytes →
        readData host byteBuf = .ok (data host record, readBytes) := by
  obtain ⟨levelno, hLevelno, hLevel⟩ := packInt_int h.levelno
  obtain ⟨lineno, hLineno, hLine⟩ := packInt_int h.lineno
  refine ⟨_, by rw [dict, hLevelno, hLineno]; rfl, fun host byteBuf readBytes hUnpack => ?_⟩
  have hDecimal : (Int32.ofInt record.lineno).toInt = record.lineno :=
    Int32.toInt_ofInt_of_le h.lineno.1 h.lineno.2
  rw [readData, hUnpack]
  dsimp only
  rw [assert_isMap, ok_bind, viaMap]
  change (asInt levelno >>= _) = _
  rw [hLevel, ok_bind]
  change (asInt lineno >>= _) = _
  rw [hLine, ok_bind, hDecimal]
  rfl

/-- What the handler sends on a connection: the start flag, and then its records. -/
def session (packb : List (Object × Object) → List UInt8) (records : List (ArgRecord α)) :
    Option (List UInt8) := do
  let pickles ← records.mapM (SocketHandler.makePickle packb · .msgpack)
  pure (Msgpack.start ++ pickles.flatten)

/-- The logger of a record is found. -/
def found (host : Host) (record : ArgRecord α) : Bool := (host.effectiveLevel record.name).isSome

/-- The event of a record, as far as it passes the level of its logger. -/
def loggedOf (host : Host) (record : ArgRecord α) : Option LoggingEvent :=
  (callAppenders host (data host record).createLoggingEvent).toOption.join

/-- The events of records, up to the first whose logger is never found. -/
def logged (host : Host) (records : List (ArgRecord α)) : List LoggingEvent :=
  (records.takeWhile (found host)).filterMap (loggedOf host)

variable {packb : List (Object × Object) → List UInt8} {toDouble : UInt32 → UInt64}

/-- `packb` packs the map of a record in the format. -/
def Packs (packb : List (Object × Object) → List UInt8) (toDouble : UInt32 → UInt64)
    (record : ArgRecord α) : Prop :=
  ∀ entries, dict record.toLogRecord record.attributes = some entries →
    (format (.roomy toDouble) {}).Spells 0 (.map entries) (packb entries)

/-- The loader takes a record from the front of the buffer. -/
theorem createLoggingEvent_packed (host : Host) {record : ArgRecord α}
    (hFits : FitsInt record.toLogRecord) (hPacks : Packs packb toDouble record) :
    ∃ pickle, SocketHandler.makePickle packb record .msgpack = some pickle ∧ 0 < pickle.length ∧
      ∀ (byteBuf : ByteBuf) (rest : List UInt8), byteBuf.bytes = pickle ++ rest →
        Protocol.msgpack.createLoggingEvent (host.vendored toDouble) byteBuf =
          (.ok (data host record).createLoggingEvent, byteBuf.drop pickle.length) := by
  obtain ⟨entries, hDict, hRead⟩ := readData_fitsInt hFits
  have hSpells := hPacks entries hDict
  refine ⟨packb entries, by rw [SocketHandler.makePickle, hDict]; rfl, (solid _ _).spells hSpells,
    fun byteBuf rest hBytes => ?_⟩
  have hSize := byteBuf.size_le
  have hLe : (packb entries).length ≤ byteBuf.bytes.length := by
    rw [hBytes, List.length_append]
    exact Nat.le_add_right _ _
  have hUnpack : (host.vendored toDouble).unpack byteBuf.bytes =
      .object (.map entries) (UInt64.ofNat (packb entries).length) := by
    change unpacked toDouble byteBuf.bytes = _
    rw [unpacked, List.take_of_length_le hSize, hBytes, unpack_spells hSpells]
  have hMax : maxSize < 2 ^ 64 := by decide
  have hLength : (UInt64.ofNat (packb entries).length).toNat = (packb entries).length :=
    UInt64.toNat_ofNat_of_lt' (show (packb entries).length < 2 ^ 64 by omega)
  have hLoad : Msgpack.createLoggingEvent (host.vendored toDouble) byteBuf = _ :=
    load_ok (hRead _ byteBuf _ hUnpack) (hLength.symm ▸ hLe)
  rw [hLength] at hLoad
  exact hLoad

/-- What is left of a client behind records: nothing, or the wait for a logger that is never found. -/
def ending (host : Host) (records : List (ArgRecord α)) :
    Rest (Option Protocol) UInt8 (Except Fail Bool) :=
  if records.all (found host) then .inl (some .msgpack, []) else .inr (.error .hang)

/-- The steps of the server through the records that are left. -/
theorem drains_records (host : Host) {records : List (ArgRecord α)}
    (hFits : ∀ record ∈ records, FitsInt record.toLogRecord)
    (hPacks : ∀ record ∈ records, Packs packb toDouble record) :
    ∃ pickles, records.mapM (SocketHandler.makePickle packb · .msgpack) = some pickles ∧
      (pickles.flatten.length ≤ maxSize →
        Drains (forceLogStep (host.vendored toDouble)) (some .msgpack) pickles.flatten
          (logged host records) (ending host records)) := by
  induction records with
  | nil => exact ⟨[], rfl, fun _ => .wait (forceLogStep_nil _ _)⟩
  | cons record records ih =>
    rw [List.forall_mem_cons] at hFits hPacks
    obtain ⟨pickles, hPickles, hDrains⟩ := ih hFits.2 hPacks.2
    obtain ⟨pickle, hPickle, hPos, hCall⟩ := createLoggingEvent_packed host hFits.1 hPacks.1
    refine ⟨pickle :: pickles, by rw [List.mapM_cons, hPickle, hPickles]; rfl, fun hSize => ?_⟩
    rw [List.flatten_cons] at hSize ⊢
    have hStep := forceLogStep_some (host.vendored toDouble) .msgpack ⟨_, hSize⟩
    have hNe : pickle ++ pickles.flatten ≠ [] := by
      rw [← List.length_pos_iff, List.length_append]
      omega
    rw [hCall ⟨_, hSize⟩ _ rfl, if_neg hNe] at hStep
    have hTaken : (pickle ++ pickles.flatten).length -
        ((⟨_, hSize⟩ : ByteBuf).drop pickle.length).bytes.length = pickle.length := by
      rw [ByteBuf.drop_bytes, List.length_drop, List.length_append]
      omega
    dsimp only at hStep
    rw [hTaken, show callAppenders (host.vendored toDouble) _ = callAppenders host _ from rfl] at hStep
    obtain ⟨level, hLevel, hShown⟩ | ⟨hNone, hHang⟩ :=
      callAppenders_cases host (data host record).createLoggingEvent
    · have hFound : found host record = true := Option.isSome_iff_exists.mpr ⟨level, hLevel⟩
      generalize (if level ≤ _ then _ else none) = shown at hShown
      rw [hShown] at hStep
      have hRest := hDrains (by rw [List.length_append] at hSize; omega)
      have hDrop : (pickle ++ pickles.flatten).drop pickle.length = pickles.flatten := List.drop_left
      rw [← hDrop] at hRest
      have hTake := Drains.take hStep hRest
      have hLogged : loggedOf host record = shown := by
        rw [loggedOf, hShown]
        rfl
      rw [logged, List.takeWhile_cons_of_pos hFound, List.filterMap_cons, hLogged, ending,
        List.all_cons, hFound, Bool.true_and]
      cases shown <;> exact hTake
    · have hFound : found host record = false := Option.isSome_eq_false_iff.mpr (hNone ▸ rfl)
      rw [hHang] at hStep
      rw [logged, List.takeWhile_cons_of_neg (by simp [hFound]), ending, List.all_cons, hFound]
      exact .stop hStep

/-- However what the handler sends is cut into chunks, the server gives the events of the records to
the appenders, in their order, and has used all of it; or it waits for ever at the first record whose
logger is never found. -/
theorem session_logged (host : Host) (hAsserts : host.env.asserts = false)
    {records : List (ArgRecord α)} (hFits : ∀ record ∈ records, FitsInt record.toLogRecord)
    (hPacks : ∀ record ∈ records, Packs packb toDouble record) :
    ∃ bytes, session packb records = some bytes ∧ (bytes.length ≤ maxSize →
      ∀ chunks : List (List UInt8), chunks.flatten = bytes →
        let call := Client.new.forceLogAll (host.vendored toDouble) chunks
        call.events = logged host records ∧
          if records.all (found host) then
            call.verdict = .ok true ∧ call.client = ⟨some .msgpack, .empty⟩
          else call.verdict = .error .hang) := by
  obtain ⟨pickles, hPickles, hDrains⟩ := drains_records host hFits hPacks
  refine ⟨_, by rw [session, hPickles]; rfl, fun hSize chunks hChunks => ?_⟩
  have hFirst := forceLogStep_none (host.vendored toDouble) ⟨_, hSize⟩
  rw [createLoggingEventFunc_msgpack (show (host.vendored toDouble).env.asserts = false from hAsserts) rfl]
    at hFirst
  have hSession : Drains (forceLogStep (host.vendored toDouble)) none (Msgpack.start ++ pickles.flatten)
      (logged host records) (ending host records) :=
    .take hFirst (hDrains (by rw [List.length_append] at hSize; omega))
  rw [← hChunks] at hSize hSession
  have hCall := forceLogAll_drains (vendored_laws host toDouble) none chunks hSize
  obtain ⟨hEvents, hRest⟩ := hSession.det hCall
  refine ⟨hEvents, ?_⟩
  rw [ending] at hRest
  split at hRest
  next hAll =>
    let whole : Call := ⟨.ok true, ⟨some .msgpack, .empty⟩, logged host records⟩
    obtain ⟨hVerdict, hClient⟩ := rest_inj (show _ = whole.rest from hRest)
    rw [if_pos hAll]
    exact ⟨hVerdict, hClient hVerdict⟩
  next hAll =>
    let whole : Call := ⟨.error .hang, ⟨none, .empty⟩, logged host records⟩
    rw [if_neg hAll]
    exact (rest_inj (show _ = whole.rest from hRest)).1

end

/-- `msgpack.packb` of `None`, of a number and of a text of less than 32 bytes. -/
def samplePack : Object → List UInt8
  | .positiveInteger u64 => 0xcf :: beBytes 8 u64.toNat
  | .float f64 => 0xcb :: beBytes 8 f64.toNat
  | .str bytes => UInt8.ofNat (0xa0 + bytes.length) :: bytes
  | _ => [0xc0]

def samplePacks : Object → Bool
  | .nil | .positiveInteger _ | .float _ => true
  | .str bytes => bytes.length < 32
  | _ => false

theorem samplePack_leaf {o : Object} (h : samplePacks o) :
    Leaf (.roomy fun _ => 0) {} o (samplePack o) := by
  have hLoad (u64 : UInt64) : UInt64.ofNat (Unpack.load (beBytes 8 u64.toNat)) = u64 := by
    rw [load_beBytes (show u64.toNat < 256 ^ 8 from u64.toNat_lt), UInt64.ofNat_toNat]
  cases o with
  | nil => exact .nil
  | positiveInteger u64 =>
    have hLeaf := @Leaf.uint (.roomy fun _ => 0) {} 3 _ (by decide) (beBytes_length 8 u64.toNat)
    rwa [hLoad] at hLeaf
  | float f64 =>
    have hLeaf := @Leaf.double (.roomy fun _ => 0) {} _ (beBytes_length 8 f64.toNat)
    rwa [hLoad] at hLeaf
  | str bytes =>
    have hLength : bytes.length < 32 := of_decide_eq_true h
    exact .fixStr hLength ⟨Nat.le_trans (Nat.le_of_lt hLength) (by decide), rfl⟩
  | _ => cases h

/-- `msgpack.packb` of a `dict` of up to 65535 of these. -/
def samplePackb (entries : List (Object × Object)) : List UInt8 :=
  0xde :: beBytes 2 entries.length ++
    (entries.flatMap fun entry => [entry.1, entry.2]).flatMap samplePack

theorem pairs_flatMap (entries : List (Object × Object)) :
    pairs (entries.flatMap fun entry => [entry.1, entry.2]) = entries := by
  induction entries with
  | nil => rfl
  | cons entry entries ih => exact congrArg (entry :: ·) ih

theorem samplePackb_spells {entries : List (Object × Object)} (hSize : entries.length < 2 ^ 16)
    (h : ∀ o ∈ entries.flatMap fun entry => [entry.1, entry.2], samplePacks o) :
    (format (.roomy fun _ => 0) {}).Spells 0 (.map entries) (samplePackb entries) := by
  have hAll (objects : List Object) (h : ∀ o ∈ objects, samplePacks o) :
      (format (.roomy fun _ => 0) {}).SpellsAll 1 objects (objects.flatMap samplePack) := by
    induction objects with
    | nil => exact .nil
    | cons o objects ih =>
      rw [List.forall_mem_cons] at h
      exact .cons (.leaf (samplePack_leaf h.1)) (ih h.2)
  have hHead : Head (.roomy fun _ => 0) {} 0 .map (2 * entries.length)
      (0xde :: beBytes 2 entries.length) :=
    @Head.long (.roomy fun _ => 0) {} 0 .map entries.length 0 (by decide) hSize
      ⟨Nat.le_trans (Nat.le_of_lt hSize) (by decide), by decide, fun _ => rfl⟩
  have hLength : (entries.flatMap fun entry => [entry.1, entry.2]).length = 2 * entries.length := by
    rw [List.length_flatMap]
    simp [Nat.mul_comm]
  have hNode := Grammar.Spells.node (hLength.symm ▸ hHead) (hAll _ h)
  rwa [show (format (.roomy fun _ => 0) {}).node .map _ = _ from congrArg Object.map (pairs_flatMap entries)]
    at hNode

/-- A record whose entries are short. -/
def samplePacked : ArgRecord LogString where
  toLogRecord := ByteSocketHandler.sampleRecord
  args := []
  attributes := ⟨.nil, .nil, .nil, .nil, .nil, .nil, .nil, 0x41D7D78400000000, .nil, .nil, .nil,
    [(key "processName", .str [0x70]), (key "process", .positiveInteger 1)]⟩

theorem samplePacked_packs : Packs samplePackb (fun _ => 0) samplePacked := by
  intro entries hDict
  obtain rfl := Option.some.inj hDict
  exact samplePackb_spells (by decide) (by decide +kernel)

theorem session_logged_sample :
    ∃ bytes, session samplePackb [samplePacked] = some bytes ∧ (bytes.length ≤ maxSize →
      ∀ chunks : List (List UInt8), chunks.flatten = bytes →
        let call := Client.new.forceLogAll (byteHost.vendored fun _ => 0) chunks
        call.events = logged byteHost [samplePacked] ∧
          if [samplePacked].all (found byteHost) then
            call.verdict = .ok true ∧ call.client = ⟨some .msgpack, .empty⟩
          else call.verdict = .error .hang) :=
  session_logged byteHost rfl (List.forall_mem_singleton.mpr ⟨by decide, by decide⟩)
    (List.forall_mem_singleton.mpr samplePacked_packs)

end MsgpackSocketHandler

end LogSocket
