import LogSocket.Segmentation

/-! Which roots and entries the loader of the Msgpack protocol reads. It never checks that the root
is a map or how many entries it has, so only some roots are safe to give to it. -/

namespace LogSocket.Msgpack

open Lib

variable {α β : Type} {msgmap : List (Object × Object)} {i : Nat}

theorem asString_ne_fault (value : Object) : asString value ≠ .error .fault := by
  cases value <;> nofun

theorem asInt_ne_fault (value : Object) : asInt value ≠ .error .fault := by
  unfold asInt
  split
  · split <;> nofun
  · split <;> nofun
  · nofun

theorem asFloat_ne_fault (value : Object) : asFloat value ≠ .error .fault := by
  cases value <;> nofun

/-- The positions that are read, in their order, each with whether a value there is converted. -/
def positions : List (Nat × (Object → Bool)) := [
  (msgIndexName, fun value => (asString value).isOk),
  (msgIndexLevelno, fun value => (asInt value).isOk),
  (msgIndexMsg, fun value => (asString value).isOk),
  (msgIndexCreated, fun value => (asFloat value).isOk),
  (msgIndexThreadName, fun value => (asString value).isOk),
  (msgIndexPathname, fun value => (asString value).isOk),
  (msgIndexFuncName, fun value => (asString value).isOk),
  (msgIndexLineno, fun value => (asInt value).isOk)]

/-- There is an entry at each of the positions, up to the first one with a value of another type. -/
def EntriesAt (msgmap : List (Object × Object)) : List (Nat × (Object → Bool)) → Prop
  | [] => True
  | (i, converts) :: positions =>
    ∃ entry, msgmap[i]? = some entry ∧ (converts entry.2 → EntriesAt msgmap positions)

/-- A root that is safe to read. -/
def Readable : Object → Prop
  | .map msgmap => EntriesAt msgmap positions
  | _ => False

/-- Only entries of a map are read, and every other root is rejected. -/
def ReadsOnlyEntries (host : Host) (byteBuf : ByteBuf) (msg : Object) : Prop :=
  readData host byteBuf ≠ .error .fault ∧
    (isMap msg = false → ∃ what, createLoggingEvent host byteBuf = (.error (.invalid what), byteBuf))

/-- An entry that is read and converted before the others. -/
theorem entry_ne_fault {convert : Object → Except Fail α} {next : α → Except Fail β}
    {rest : List (Nat × (Object → Bool))} (hConvert : ∀ value, convert value ≠ .error .fault)
    (hNext : ∀ a, next a ≠ .error .fault ↔ EntriesAt msgmap rest) :
    (value msgmap i >>= fun v => convert v >>= next) ≠ .error .fault ↔
      EntriesAt msgmap ((i, fun value => (convert value).isOk) :: rest) := by
  unfold value
  cases hEntry : msgmap[i]? with
  | none =>
    refine ⟨fun h => absurd rfl h, ?_⟩
    rintro ⟨entry, hSome, -⟩
    rw [hEntry] at hSome
    cases hSome
  | some entry =>
    change (convert entry.2 >>= next) ≠ _ ↔ _
    have hRest : EntriesAt msgmap ((i, fun value => (convert value).isOk) :: rest) ↔
        ((convert entry.2).isOk → EntriesAt msgmap rest) := by
      rw [EntriesAt, hEntry]
      simp
    rw [hRest]
    cases hValue : convert entry.2 with
    | ok a => simpa [Except.isOk, Except.toBool, ok_bind] using hNext a
    | error e =>
      have hne := hConvert entry.2
      rw [hValue] at hne
      simpa [Except.isOk, Except.toBool, error_bind] using hne

theorem readMap_ne_fault {host : Host} {byteBuf : ByteBuf} {readBytes : UInt64}
    (h : host.unpack byteBuf.bytes = .object (.map msgmap) readBytes) :
    readData host byteBuf ≠ .error .fault ↔ EntriesAt msgmap positions := by
  unfold readData
  rw [h]
  dsimp only
  rw [assert_isMap, ok_bind, viaMap]
  refine entry_ne_fault asString_ne_fault fun _ => ?_
  refine entry_ne_fault asInt_ne_fault fun _ => ?_
  refine entry_ne_fault asString_ne_fault fun _ => ?_
  refine entry_ne_fault asFloat_ne_fault fun _ => ?_
  refine entry_ne_fault asString_ne_fault fun _ => ?_
  refine entry_ne_fault asString_ne_fault fun _ => ?_
  refine entry_ne_fault asString_ne_fault fun _ => ?_
  refine entry_ne_fault asInt_ne_fault fun _ => ?_
  exact ⟨fun _ => True.intro, fun _ => nofun⟩

/-- A root of another type is taken for a map, or stops a build with asserts. -/
theorem readOther {host : Host} {byteBuf : ByteBuf} {msg : Object} {readBytes : UInt64}
    (h : host.unpack byteBuf.bytes = .object msg readBytes) (hMap : isMap msg = false) :
    readData host byteBuf = .error (if host.env.asserts then .abort else .fault) := by
  unfold readData
  rw [h]
  dsimp only
  rw [hMap, Env.assert]
  cases host.env.asserts with
  | true => rfl
  | false => cases msg <;> first | rfl | cases hMap

/-- Only entries that exist are read, and only of maps, exactly when the root is a map with an entry
at each position that is come to. -/
theorem readsOnlyEntries_iff {host : Host} {byteBuf : ByteBuf} {msg : Object} {readBytes : UInt64}
    (h : host.unpack byteBuf.bytes = .object msg readBytes) :
    ReadsOnlyEntries host byteBuf msg ↔ Readable msg := by
  by_cases hMap : isMap msg = false
  · have hRead := readOther h hMap
    constructor
    · rintro ⟨-, hInvalid⟩
      obtain ⟨what, hCall⟩ := hInvalid hMap
      rw [createLoggingEvent, load_error hRead] at hCall
      split at hCall <;> cases hCall
    · intro hReadable
      cases msg with
      | map msgmap => cases hMap
      | _ => exact hReadable.elim
  · cases msg with
    | map msgmap => exact (and_iff_left nofun).trans (readMap_ne_fault h)
    | _ => exact absurd rfl hMap

/-- The empty map, a message of one byte. -/
def emptyMap : ByteBuf := ⟨[0x80], by decide⟩

theorem readsOnlyEntries_emptyMap :
    ReadsOnlyEntries byteHost emptyMap (.map []) ↔ Readable (.map []) :=
  readsOnlyEntries_iff rfl

/-- The first entry of an empty map is read. -/
theorem not_readsOnlyEntries : ¬∀ (host : Host) (byteBuf : ByteBuf) (msg : Object)
    (readBytes : UInt64), host.unpack byteBuf.bytes = .object msg readBytes →
      ReadsOnlyEntries host byteBuf msg := by
  intro hAll
  exact (hAll byteHost emptyMap (.map []) 1 rfl).1 rfl

end LogSocket.Msgpack
