import LogSocket.Ahead
import LogSocket.SocketAgreement

/-! The flag `skipTypeClass` of the readers of strings and objects. Behind its tag, with the flag set,
a string is read as it is at its tag; an object is not, since the reader on a buffer looks for the
descriptor at the tag once more. -/

namespace LogSocket.Default.Blocking

open Lib ByteBuf

/-- On a documented exception of the reader on a buffer the one on a socket returns `false`; any other
failure it shares, and does not survive. -/
def Together (e : Fail) (stop : Stop) : Prop :=
  Refuses e stop ∨ ¬ e.documented ∧ stop = .terminate e

/-- At the tag a reader gives what it gives behind it with `skipTypeClass`, and has consumed a byte
more; the reader on a socket with the bytes from the tag on agrees with both, and so does the one
with `skipTypeClass` on a socket with those behind it. -/
structure SkipsTag {α : Type} (byteBuf : ByteBuf) (pos : UInt64) (socket : Segments)
    (read : UInt64 → Bool → Except Fail (α × UInt64))
    (read' : Segments → Bool → Except Stop (α × Segments)) : Prop where
  skips : read pos false = (read (pos + 1) true).map fun r => (r.1, r.2 + 1)
  agrees : Relates Together (SameAt byteBuf pos) (read pos false) (read' socket false)
  agrees_behind : Relates Together (SameAt byteBuf (pos + 1)) (read (pos + 1) true)
    (read' socket false)
  agrees_flag {rest : Segments} : At byteBuf (pos + 1) rest →
    Relates Together (SameAt byteBuf (pos + 1)) (read (pos + 1) true) (read' rest true)

section

variable {env : Env} {byteBuf : ByteBuf} {pos : UInt64} {socket : Segments} {fuel : Nat}
  {rest : List UInt8}

/-- Agreement behind the tag follows from that at the tag. -/
theorem SkipsTag.of_skips {α : Type} {read : UInt64 → Bool → Except Fail (α × UInt64)}
    {read' : Segments → Bool → Except Stop (α × Segments)}
    (skips : read pos false = (read (pos + 1) true).map fun r => (r.1, r.2 + 1))
    (agrees : Relates Together (SameAt byteBuf pos) (read pos false) (read' socket false))
    (flag : ∀ rest, At byteBuf (pos + 1) rest →
      Relates Together (SameAt byteBuf (pos + 1)) (read (pos + 1) true) (read' rest true)) :
    SkipsTag byteBuf pos socket read read' where
  skips := skips
  agrees := agrees
  agrees_behind := by
    rcases agrees.cases with ⟨_, r', hRead, hRead', hSame⟩ | ⟨e, stop, hRead, hRead', hStop⟩
    · rw [skips] at hRead
      obtain ⟨r, hBehind, rfl⟩ := map_eq_ok.mp hRead
      obtain ⟨hValue, hNext⟩ := hSame
      rw [UInt64.add_comm r.2, ← UInt64.add_assoc] at hNext
      rw [hBehind, hRead']
      exact ⟨hValue, hNext⟩
    · rw [skips] at hRead
      rw [map_eq_error.mp hRead, hRead']
      exact hStop
  agrees_flag := flag _

theorem together_joint (env : Env) : Joint env Together where
  refuses _ _ := .inl
  alloc {n} _ := by
    unfold Env.alloc
    split
    · exact .inr ⟨id, rfl⟩
    · exact trivial

theorem readString_map (h : byteBuf.Ahead pos (tcString :: rest)) :
    Default.readString env byteBuf pos false =
      (Default.readString env byteBuf (pos + 1) true).map fun r => (r.1, r.2 + 1) := by
  rw [readString_tag h]
  cases Default.readString env byteBuf (pos + 1) true with
  | error e => rfl
  | ok r => simp [Except.map, ok_bind, UInt64.add_comm]

theorem readUTFString_map (h : byteBuf.Ahead pos (tcString :: rest)) :
    Default.readUTFString env byteBuf pos false =
      (Default.readUTFString env byteBuf (pos + 1) true).map fun r => (r.1, r.2 + 1) := by
  rw [Default.readUTFString, Default.readUTFString, readString_map h]
  cases Default.readString env byteBuf (pos + 1) true with
  | error e => rfl
  | ok r =>
    dsimp only [Except.map, ok_bind]
    cases env.alloc (UInt64.ofNat (r.1.length + 1)) with
    | error e => rfl
    | ok _ => rfl

theorem readUTFString_skipsTag (hAt : At byteBuf pos socket)
    (h : byteBuf.Ahead pos (tcString :: rest)) :
    SkipsTag byteBuf pos socket (Default.readUTFString env byteBuf) (readUTFString env) :=
  .of_skips (readUTFString_map h) (hAt.readUTFString (together_joint env) false)
    fun _ hRest => hRest.readUTFString (together_joint env) true

theorem readLogString_skipsTag (hAt : At byteBuf pos socket)
    (h : byteBuf.Ahead pos (tcString :: rest)) :
    SkipsTag byteBuf pos socket (Default.readLogString env byteBuf) (readLogString env) :=
  .of_skips (readString_map h) (hAt.readLogString (together_joint env) false)
    fun _ hRest => hRest.readLogString (together_joint env) true

/-! An object. -/

theorem At.readByte_eq {byte : UInt8} (h : At byteBuf pos socket)
    (hByte : Default.readByte byteBuf pos = .ok (byte, 1)) :
    ∃ rest, Blocking.readByte socket = .ok (byte, rest) ∧ At byteBuf (pos + 1) rest := by
  rcases h.readByte_cases with ⟨_, rest, hByte', hRead, hNext⟩ | ⟨e, -, hByte', -⟩
  · rw [hByte] at hByte'
    cases hByte'
    exact ⟨rest, hRead, hNext⟩
  · rw [hByte] at hByte'
    cases hByte'

/-- At the tag the reader on a buffer takes the tag for the descriptor. -/
theorem readObject_tag (h : byteBuf.Ahead pos (tcObject :: rest)) (value : MDC) :
    Default.readObject env fuel byteBuf pos value false =
      env.assert false >>= fun _ => .error (.invalid .type) := by
  rw [Default.readObject, readTypeClass_ahead _ h, ok_bind, Default.readProlog,
    (readByte_ahead h).1, ok_bind]
  dsimp only
  rw [if_neg (by decide), if_neg (by decide)]
  cases env.assert false with
  | ok _ => rfl
  | error e => rfl

/-- Not the exception for a descriptor without a tag. -/
def NotType (e : Fail) : Prop := e ≠ .invalid .type

theorem fetch_notType (byteBuf : ByteBuf) (pos size : UInt64) :
    Ensures NotType (fun _ => True) (byteBuf.fetch pos size) := by
  rw [fetch, check_eq, copy]
  split
  · rw [ok_bind]
    split
    · exact trivial
    · simp [NotType]
  · simp [NotType, error_bind]

theorem assert_notType (env : Env) (condition : Bool) :
    Ensures NotType (fun _ => True) (env.assert condition) := by
  rw [Env.assert]
  split
  · simp [NotType]
  · exact trivial

theorem alloc_notType (env : Env) (n : UInt64) : Ensures NotType (fun _ => True) (env.alloc n) := by
  rw [Env.alloc]
  split
  · simp [NotType]
  · exact trivial

theorem require_notType {what : Message} (h : what ≠ .type) (condition : Bool) :
    Ensures NotType (fun _ => True) (require condition (.invalid what)) := by
  cases condition with
  | true => exact trivial
  | false => exact fun hEq => h (Fail.invalid.inj hEq)

theorem readByte_notType (pos : UInt64) :
    Ensures NotType (fun _ => True) (Default.readByte byteBuf pos) :=
  (fetch_notType _ _ _).bind fun _ _ => trivial

theorem readShort_notType (pos : UInt64) :
    Ensures NotType (fun _ => True) (Default.readShort byteBuf pos) :=
  (fetch_notType _ _ _).bind fun _ _ => trivial

theorem readInt_notType (pos : UInt64) :
    Ensures NotType (fun _ => True) (Default.readInt byteBuf pos) :=
  (fetch_notType _ _ _).bind fun _ _ => trivial

theorem readString_notType (pos : UInt64) :
    Ensures NotType (fun _ => True) (Default.readString env byteBuf pos false) := by
  rw [Default.readString, Default.readTypeClass, if_neg Bool.false_ne_true]
  refine Ensures.bind (P := fun _ => True) ?_ fun _ _ => ?_
  · refine (readByte_notType pos).bind fun _ _ => ?_
    exact (require_notType (by decide) _).bind fun _ _ => trivial
  refine (fetch_notType _ _ _).bind fun _ _ => ?_
  refine (alloc_notType _ _).bind fun _ _ => ?_
  exact (fetch_notType _ _ _).bind fun _ _ => trivial

theorem readFields_notType (count : Nat) (readPos : UInt64) :
    Ensures NotType (fun _ => True) (Default.readFields byteBuf pos count readPos) := by
  induction count generalizing readPos with
  | zero => exact trivial
  | succ count ih => exact (readShort_notType _).bind fun _ _ => ih _

theorem tagTurn_notType (readPos : UInt64) :
    Ensures NotType (fun _ => True) (Default.tagTurn env byteBuf pos readPos) := by
  refine (readByte_notType _).bind fun _ _ => ?_
  dsimp only
  split
  · exact trivial
  split
  · exact (readInt_notType _).bind fun _ _ => trivial
  split
  · exact (readShort_notType _).bind fun _ _ => trivial
  · exact (assert_notType _ _).bind fun _ _ => by simp [NotType]

theorem readTags_notType (readPos : UInt64) :
    Ensures NotType (fun _ => True) (Default.readTags env fuel byteBuf pos readPos) := by
  refine (loop_ensures (P := fun _ => True) (fun _ _ _ _ => trivial) trivial).mono ?_
    fun _ _ => trivial
  rintro e (⟨rfl, -⟩ | ⟨readPos, -, hTurn⟩)
  · simp [NotType]
  · exact (tagTurn_notType readPos).failure hTurn

/-- A descriptor that starts with one of its tags, and what follows it. -/
theorem readProlog_notType {typeClass : UInt8}
    (hByte : Default.readByte byteBuf pos = .ok (typeClass, 1))
    (hTag : typeClass = tcClassDesc ∨ typeClass = tcReference) (classDesc : List UInt8) :
    Ensures NotType (fun _ => True) (Default.readProlog env fuel byteBuf pos classDesc) := by
  rw [Default.readProlog, hByte, ok_bind]
  dsimp only
  split
  · refine (readShort_notType _).bind fun _ _ => ?_
    refine (readShort_notType _).bind fun _ _ => ?_
    refine (readFields_notType _ _).bind fun _ _ => ?_
    refine (readTags_notType _).bind fun _ _ => ?_
    refine (readByte_notType _).bind fun _ _ => ?_
    refine (assert_notType _ _).bind fun _ _ => ?_
    exact (require_notType (by decide) _).bind fun _ _ => trivial
  · rename_i hDesc
    rw [if_pos (hTag.resolve_left hDesc)]
    exact (readInt_notType _).bind fun _ _ => trivial

theorem readEntries_notType (mapSize : Nat) (readPos : UInt64) (value : MDC) :
    Ensures NotType (fun _ => True)
      (Default.readEntries env byteBuf pos mapSize readPos value) := by
  induction mapSize generalizing readPos value with
  | zero => exact trivial
  | succ mapSize ih =>
    refine (readString_notType _).bind fun _ _ => ?_
    exact (readString_notType _).bind fun _ _ => ih _ _

theorem readObject_notType {typeClass : UInt8}
    (hByte : Default.readByte byteBuf pos = .ok (typeClass, 1))
    (hTag : typeClass = tcClassDesc ∨ typeClass = tcReference) (value : MDC) :
    Ensures NotType (fun _ => True) (Default.readObject env fuel byteBuf pos value true) := by
  rw [Default.readObject, Default.readTypeClass_skip, ok_bind]
  refine (readProlog_notType hByte hTag _).bind fun _ _ => ?_
  refine (fetch_notType _ _ _).bind fun _ _ => ?_
  refine (assert_notType _ _).bind fun _ _ => ?_
  refine (require_notType (by decide) _).bind fun _ _ => ?_
  refine (readInt_notType _).bind fun _ _ => ?_
  refine (readEntries_notType _ _ _).bind fun _ _ => ?_
  refine (readByte_notType _).bind fun _ _ => ?_
  exact (require_notType (by decide) _).bind fun _ _ => trivial

theorem behind_toNat {tag : UInt8} (h : byteBuf.Ahead pos (tag :: rest)) :
    (pos + 1).toNat = pos.toNat + 1 := by
  have hTag : byteBuf.Ahead pos ([tag] ++ rest) := h
  exact hTag.add_toNat rfl

/-- Behind the tag of an object there is a byte, and it is not the tag of a descriptor. -/
def Undescribed (byteBuf : ByteBuf) (pos : UInt64) : Prop :=
  ∃ byte, byteBuf.bytes[pos.toNat + 1]? = some byte ∧ byte ≠ tcClassDesc ∧ byte ≠ tcReference

theorem undescribed_of_error (hTag : byteBuf.Ahead pos (tcObject :: rest)) (value : MDC)
    (h : Default.readObject env fuel byteBuf (pos + 1) value true = .error (.invalid .type)) :
    Undescribed byteBuf pos := by
  cases hByte : Default.readByte byteBuf (pos + 1) with
  | error e =>
    have hError : Default.readObject env fuel byteBuf (pos + 1) value true = .error e := by
      rw [Default.readObject, Default.readTypeClass_skip, ok_bind, Default.readProlog, hByte]
      rfl
    rw [hError] at h
    exact absurd (Except.error.inj h) ((readByte_notType (pos + 1)).failure hByte)
  | ok r =>
    obtain ⟨byte, hGet, rfl⟩ := readByte_eq_ok.mp hByte
    rw [behind_toNat hTag] at hGet
    by_cases hDescribed : byte = tcClassDesc ∨ byte = tcReference
    · exact absurd rfl ((readObject_notType hByte hDescribed value).failure h)
    · rw [not_or] at hDescribed
      exact ⟨byte, hGet, hDescribed⟩

section

variable (hAsserts : env.asserts = false)
include hAsserts

/-- Behind the tag both readers refuse what is no descriptor. -/
theorem readObject_undescribed {byte : UInt8}
    (hByte : Default.readByte byteBuf pos = .ok (byte, 1)) (hDesc : byte ≠ tcClassDesc)
    (hReference : byte ≠ tcReference) (value : MDC) :
    Default.readObject env fuel byteBuf pos value true = .error (.invalid .type) := by
  rw [Default.readObject, Default.readTypeClass_skip, ok_bind, Default.readProlog, hByte, ok_bind]
  dsimp only
  rw [if_neg hDesc, if_neg hReference, env.assert_off hAsserts]
  rfl

theorem readProlog_undescribed {byte : UInt8} {socket' : Segments}
    (hByte : Blocking.readByte socket = .ok (byte, socket')) (hDesc : byte ≠ tcClassDesc)
    (hReference : byte ≠ tcReference) (classDesc : List UInt8) :
    Blocking.readProlog env fuel socket classDesc = .error .unread := by
  rw [Blocking.readProlog, hByte, ok_bind]
  dsimp only
  rw [if_neg hDesc, if_neg hReference, refuse_off hAsserts]

theorem Undescribed.skipsTag (h : Undescribed byteBuf pos) (hAt : At byteBuf pos socket)
    (hTag : byteBuf.Ahead pos (tcObject :: rest)) (value : MDC) :
    SkipsTag byteBuf pos socket (fun pos => Default.readObject env fuel byteBuf pos value)
      (fun socket => readObject env fuel socket value) := by
  obtain ⟨byte, hGet, hDesc, hReference⟩ := h
  obtain ⟨hFirst, hNext⟩ := readByte_ahead hTag
  have hSecond : Default.readByte byteBuf (pos + 1) = .ok (byte, 1) :=
    readByte_eq_ok.mpr ⟨byte, by rwa [behind_toNat hTag], rfl⟩
  have hRefused : Default.readObject env fuel byteBuf (pos + 1) value true =
      .error (.invalid .type) :=
    readObject_undescribed hAsserts hSecond hDesc hReference value
  apply SkipsTag.of_skips
  · rw [readObject_tag hTag, env.assert_off hAsserts, hRefused]
    rfl
  · obtain ⟨behind, hByte, hBehind⟩ := hAt.readByte_eq hFirst
    obtain ⟨_, hByte', -⟩ := hBehind.readByte_eq hSecond
    have hAccept : Blocking.readTypeClass tcObject socket false = .ok behind := by
      rw [Blocking.readTypeClass, if_neg Bool.false_ne_true, hByte]
      rfl
    rw [readObject_tag hTag, env.assert_off hAsserts, ok_bind, Blocking.readObject, hAccept, ok_bind,
      readProlog_undescribed hAsserts hByte' hDesc hReference]
    exact .inl ⟨trivial, rfl⟩
  · intro behind hBehind
    obtain ⟨_, hByte', -⟩ := hBehind.readByte_eq hSecond
    rw [hRefused, Blocking.readObject, Blocking.readTypeClass_skip, ok_bind,
      readProlog_undescribed hAsserts hByte' hDesc hReference]
    exact .inl ⟨trivial, rfl⟩

end

theorem ahead_of_getElem? {tag : UInt8} (h : byteBuf.bytes[pos.toNat]? = some tag) :
    byteBuf.Ahead pos (tag :: byteBuf.bytes.drop (pos.toNat + 1)) := by
  obtain ⟨hLt, rfl⟩ := List.getElem?_eq_some_iff.mp h
  exact ⟨hLt.le, List.drop_eq_getElem_cons hLt⟩

/-- The flag only skips the tag of a string. For an object, without asserts, it does so exactly where
both calls throw because what follows the tag is no descriptor; with asserts the call at the tag
never returns. -/
theorem skipsTag_iff (env : Env) (fuel : Nat) (hAt : At byteBuf pos socket) (value : MDC) :
    (byteBuf.bytes[pos.toNat]? = some tcString →
      SkipsTag byteBuf pos socket (Default.readUTFString env byteBuf) (readUTFString env) ∧
      SkipsTag byteBuf pos socket (Default.readLogString env byteBuf) (readLogString env)) ∧
    (byteBuf.bytes[pos.toNat]? = some tcObject →
      (env.asserts = false →
        (SkipsTag byteBuf pos socket (fun pos => Default.readObject env fuel byteBuf pos value)
          (fun socket => readObject env fuel socket value) ↔ Undescribed byteBuf pos)) ∧
      (env.asserts = true →
        Default.readObject env fuel byteBuf pos value false = .error .abort)) := by
  refine ⟨fun hTag => ?_, fun hTag => ⟨fun hAsserts => ⟨fun hSkips => ?_, fun h => ?_⟩,
    fun hAsserts => ?_⟩⟩
  · exact ⟨readUTFString_skipsTag hAt (ahead_of_getElem? hTag),
      readLogString_skipsTag hAt (ahead_of_getElem? hTag)⟩
  · have hBehind := hSkips.skips
    rw [readObject_tag (ahead_of_getElem? hTag), env.assert_off hAsserts] at hBehind
    exact undescribed_of_error (ahead_of_getElem? hTag) value (map_eq_error.mp hBehind.symm)
  · exact h.skipsTag hAsserts hAt (ahead_of_getElem? hTag) value
  · rw [readObject_tag (ahead_of_getElem? hTag), Env.assert, hAsserts]
    rfl

end

/-- An empty map behind its tag, with a handle for its class. -/
def emptyMap : ByteBuf :=
  ⟨tcObject :: tcReference :: 0 :: 0x7E :: 0 :: 5 :: (hashTableData ++ [0, 0, 0, 0, tcEndBlockData]),
    by decide⟩

def oneLetter : ByteBuf := ⟨[tcString, 0, 1, 0x61], by decide⟩

theorem skipsTag_iff_samples :
    SkipsTag oneLetter 0 [[tcString, 0], [1, 0x61]] (Default.readUTFString .release oneLetter)
      (readUTFString .release) ∧
    (SkipsTag emptyMap 0 [emptyMap.bytes]
      (fun pos => Default.readObject .release 1 emptyMap pos .empty)
      (fun socket => readObject .release 1 socket .empty) ↔ Undescribed emptyMap 0) :=
  ⟨((skipsTag_iff .release 0 ⟨by decide, rfl⟩ .empty).1 rfl).1,
    ((skipsTag_iff .release 1 ⟨by decide, rfl⟩ .empty).2 rfl).1 rfl⟩

/-- The map is read behind its tag, but not at it. -/
theorem not_skipsTag :
    ¬ ∀ (byteBuf : ByteBuf) (pos : UInt64) (socket : Segments) (fuel : Nat) (value : MDC),
      At byteBuf pos socket → byteBuf.bytes[pos.toNat]? = some tcObject →
        SkipsTag byteBuf pos socket (fun pos => Default.readObject .release fuel byteBuf pos value)
          (fun socket => readObject .release fuel socket value) := by
  intro h
  have hSkips := (h emptyMap 0 [emptyMap.bytes] 1 .empty ⟨by decide, rfl⟩ rfl).skips
  have hBehind : Default.readObject .release 1 emptyMap (0 + 1) .empty true = .ok (.empty, 24) := by
    decide
  rw [readObject_tag (ahead_of_getElem? rfl), hBehind] at hSkips
  cases hSkips

end LogSocket.Default.Blocking
