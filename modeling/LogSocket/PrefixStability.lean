import LogSocket.Client

/-! More bytes behind a buffer: each reader gives the same value or the same failure on the longer
buffer, unless it failed because the buffer was small. -/

namespace LogSocket

open Lib ByteBuf

section

variable {byteBuf byteBuf' : ByteBuf} (h : byteBuf.bytes <+: byteBuf'.bytes) (env : Env)
  (pos : UInt64)
include h

namespace Default

theorem readByte_settles : Settles Fail.more (readByte byteBuf pos) (readByte byteBuf' pos) :=
  (fetch_settles h _ _).bind fun _ _ => .refl _

theorem readShort_settles : Settles Fail.more (readShort byteBuf pos) (readShort byteBuf' pos) :=
  (fetch_settles h _ _).bind fun _ _ => .refl _

theorem readInt_settles : Settles Fail.more (readInt byteBuf pos) (readInt byteBuf' pos) :=
  (fetch_settles h _ _).bind fun _ _ => .refl _

theorem readLong_settles : Settles Fail.more (readLong byteBuf pos) (readLong byteBuf' pos) :=
  (fetch_settles h _ _).bind fun _ _ => .refl _

/-- The allocation stands between the check and the copy. -/
theorem readBytes_settles (bytes : UInt64) :
    Settles Fail.more (readBytes env byteBuf pos bytes) (readBytes env byteBuf' pos bytes) := by
  cases hAlloc : env.alloc bytes with
  | error e =>
    unfold readBytes
    rw [hAlloc]
    exact (check_settles h pos bytes).bind fun _ _ => .refl _
  | ok _ =>
    have hFetch : Settles Fail.more
        (byteBuf.fetch pos bytes >>= fun value => Except.ok (value, bytes))
        (byteBuf'.fetch pos bytes >>= fun value => Except.ok (value, bytes)) :=
      (fetch_settles h pos bytes).bind fun _ _ => .refl _
    simp only [fetch, bind_assoc] at hFetch
    unfold readBytes
    rw [hAlloc]
    exact hFetch

theorem readTypeClass_settles (tag : UInt8) (what : Message) (skipTypeClass : Bool) :
    Settles Fail.more (readTypeClass tag what byteBuf pos skipTypeClass)
      (readTypeClass tag what byteBuf' pos skipTypeClass) := by
  unfold readTypeClass
  split
  · exact .refl _
  · exact (readByte_settles h pos).bind fun _ _ => .refl _

theorem readString_settles (skipTypeClass : Bool) :
    Settles Fail.more (readString env byteBuf pos skipTypeClass)
      (readString env byteBuf' pos skipTypeClass) := by
  refine (readTypeClass_settles h pos _ _ _).bind fun readPos _ => ?_
  refine (fetch_settles h _ _).bind fun bytes _ => ?_
  refine (Settles.refl _).bind fun _ _ => ?_
  exact (fetch_settles h _ _).bind fun data _ => .refl _

theorem readUTFString_settles (skipTypeClass : Bool) :
    Settles Fail.more (readUTFString env byteBuf pos skipTypeClass)
      (readUTFString env byteBuf' pos skipTypeClass) :=
  (readString_settles h env pos _).bind fun _ _ => .refl _

theorem readLogString_settles (skipTypeClass : Bool) :
    Settles Fail.more (readLogString env byteBuf pos skipTypeClass)
      (readLogString env byteBuf' pos skipTypeClass) :=
  readString_settles h env pos _

theorem readFields_settles (count : Nat) (readPos : UInt64) :
    Settles Fail.more (readFields byteBuf pos count readPos)
      (readFields byteBuf' pos count readPos) := by
  induction count generalizing readPos with
  | zero => exact .refl _
  | succ count ih => exact (readShort_settles h _).bind fun r _ => ih _

theorem tagTurn_settles (readPos : UInt64) :
    Settles Fail.more (tagTurn env byteBuf pos readPos) (tagTurn env byteBuf' pos readPos) := by
  refine (readByte_settles h _).bind fun r _ => ?_
  dsimp only
  split
  · exact .refl _
  · split
    · exact (readInt_settles h _).bind fun _ _ => .refl _
    · split
      · exact (readShort_settles h _).bind fun _ _ => .refl _
      · exact .refl _

theorem readProlog_settles (fuel : Nat) (classDesc : List UInt8) :
    Settles Fail.more (readProlog env fuel byteBuf pos classDesc)
      (readProlog env fuel byteBuf' pos classDesc) := by
  refine (readByte_settles h _).bind fun r _ => ?_
  dsimp only
  split
  · refine (readShort_settles h _).bind fun r _ => ?_
    refine (readShort_settles h _).bind fun r _ => ?_
    refine (readFields_settles h _ _ _).bind fun readPos _ => ?_
    refine (loop_settles (tagTurn_settles h env pos) _ _).bind fun readPos _ => ?_
    exact (readByte_settles h _).bind fun _ _ => .refl _
  · split
    · exact (readInt_settles h _).bind fun _ _ => .refl _
    · exact .refl _

theorem readEntries_settles (mapSize : Nat) (readPos : UInt64) (value : MDC) :
    Settles Fail.more (readEntries env byteBuf pos mapSize readPos value)
      (readEntries env byteBuf' pos mapSize readPos value) := by
  induction mapSize generalizing readPos value with
  | zero => exact .refl _
  | succ mapSize ih =>
    refine (readLogString_settles h env _ _).bind fun r _ => ?_
    exact (readLogString_settles h env _ _).bind fun r _ => ih _ _

theorem readObject_settles (fuel : Nat) (value : MDC) (skipTypeClass : Bool) :
    Settles Fail.more (readObject env fuel byteBuf pos value skipTypeClass)
      (readObject env fuel byteBuf' pos value skipTypeClass) := by
  refine (readTypeClass_settles h pos _ _ _).bind fun readPos _ => ?_
  refine (readProlog_settles h env pos _ _).bind fun r _ => ?_
  refine (fetch_settles h _ _).bind fun data _ => ?_
  refine (Settles.refl _).bind fun _ _ => ?_
  refine (Settles.refl _).bind fun _ _ => ?_
  refine (readInt_settles h _).bind fun r _ => ?_
  refine (readEntries_settles h env _ _ _ _).bind fun r _ => ?_
  exact (readByte_settles h _).bind fun _ _ => .refl _

theorem readLocationInfo_settles (fuel : Nat) :
    Settles Fail.more (readLocationInfo env fuel byteBuf pos)
      (readLocationInfo env fuel byteBuf' pos) := by
  refine (readByte_settles h _).bind fun r _ => ?_
  dsimp only
  split
  · exact .refl _
  · split
    · refine (readProlog_settles h env _ _ _).bind fun r _ => ?_
      exact (readUTFString_settles h env _ _).bind fun _ _ => .refl _
    · exact .refl _

theorem readMDC_settles (fuel : Nat) :
    Settles Fail.more (readMDC env fuel byteBuf pos) (readMDC env fuel byteBuf' pos) := by
  refine (readByte_settles h _).bind fun r _ => ?_
  dsimp only
  split
  · exact .refl _
  · split
    · exact (readObject_settles h env _ _ _ _).bind fun _ _ => .refl _
    · exact .refl _

theorem readNDC_settles :
    Settles Fail.more (readNDC env byteBuf pos) (readNDC env byteBuf' pos) := by
  refine (readByte_settles h _).bind fun r _ => ?_
  dsimp only
  split
  · exact .refl _
  · split
    · exact (readLogString_settles h env _ _).bind fun _ _ => .refl _
    · exact .refl _

theorem readObjectTag_settles :
    Settles Fail.more (readObjectTag byteBuf) (readObjectTag byteBuf') := by
  refine (readByte_settles h _).bind fun r _ => ?_
  refine (Settles.refl _).bind fun _ _ => ?_
  split
  · exact (readByte_settles h _).bind fun _ _ => .refl _
  · exact .refl _

theorem readHeader_settles :
    Settles Fail.more (readHeader env byteBuf pos) (readHeader env byteBuf' pos) := by
  refine (readBytes_settles h env _ _).bind fun r _ => ?_
  refine (Settles.refl _).bind fun _ _ => ?_
  refine (Settles.refl _).bind fun _ _ => ?_
  refine (readLong_settles h _).bind fun r _ => ?_
  exact (readLogString_settles h env _ _).bind fun _ _ => .refl _

theorem readExpected_settles (expected : UInt8) (what : Message) :
    Settles Fail.more (readExpected expected what byteBuf pos)
      (readExpected expected what byteBuf' pos) :=
  (readByte_settles h _).bind fun _ _ => .refl _

theorem readTrailer_settles :
    Settles Fail.more (readTrailer byteBuf pos) (readTrailer byteBuf' pos) := by
  refine (readExpected_settles h _ _ _).bind fun pos _ => ?_
  refine (readExpected_settles h _ _ _).bind fun pos _ => ?_
  refine (readExpected_settles h _ _ _).bind fun pos _ => ?_
  refine (readInt_settles h _).bind fun r _ => ?_
  refine (readExpected_settles h _ _ _).bind fun pos _ => ?_
  exact (readExpected_settles h _ _ _).bind fun pos _ => .refl _

theorem readBeforeLocation_settles (fuel : Nat) :
    Settles Fail.more (readBeforeLocation env fuel byteBuf)
      (readBeforeLocation env fuel byteBuf') := by
  refine (readObjectTag_settles h).bind fun pos _ => ?_
  refine (readProlog_settles h env _ _ _).bind fun r _ => ?_
  exact readHeader_settles h env _

theorem readBeforeMDC_settles (fuel : Nat) :
    Settles Fail.more (readBeforeMDC env fuel byteBuf) (readBeforeMDC env fuel byteBuf') := by
  refine (readBeforeLocation_settles h env _).bind fun r _ => ?_
  exact (readLocationInfo_settles h env _ _).bind fun r _ => .refl _

theorem readMessage_settles (fuel : Nat) :
    Settles Fail.more (readMessage env fuel byteBuf) (readMessage env fuel byteBuf') := by
  refine (readBeforeMDC_settles h env _).bind fun r _ => ?_
  refine (readMDC_settles h env _ _).bind fun r _ => ?_
  refine (readNDC_settles h env _).bind fun r _ => ?_
  refine (readLogString_settles h env _ _).bind fun r _ => ?_
  refine (readLogString_settles h env _ _).bind fun r _ => ?_
  exact (readTrailer_settles h _).bind fun r _ => .refl _

end Default

namespace Bytes

theorem readInt_settles : Settles Fail.more (readInt byteBuf pos) (readInt byteBuf' pos) :=
  (fetch_settles h _ _).bind fun _ _ => .refl _

theorem readLong_settles : Settles Fail.more (readLong byteBuf pos) (readLong byteBuf' pos) :=
  (fetch_settles h _ _).bind fun _ _ => .refl _

theorem readString_settles :
    Settles Fail.more (readString env byteBuf pos) (readString env byteBuf' pos) := by
  refine (readInt_settles h _).bind fun r _ => ?_
  refine (Settles.refl _).bind fun _ _ => ?_
  exact (fetch_settles h _ _).bind fun data _ => .refl _

theorem readUTFString_settles :
    Settles Fail.more (readUTFString env byteBuf pos) (readUTFString env byteBuf' pos) :=
  (readString_settles h env pos).bind fun _ _ => .refl _

theorem readData_settles :
    Settles Fail.more (readData env byteBuf) (readData env byteBuf') := by
  refine (readString_settles h env _).bind fun r _ => ?_
  refine (readInt_settles h _).bind fun r _ => ?_
  refine (readString_settles h env _).bind fun r _ => ?_
  refine (readLong_settles h _).bind fun r _ => ?_
  refine (readString_settles h env _).bind fun r _ => ?_
  refine (readUTFString_settles h env _).bind fun r _ => ?_
  refine (readUTFString_settles h env _).bind fun r _ => ?_
  exact (readUTFString_settles h env _).bind fun r _ => .refl _

end Bytes

theorem readFlag_settles (start : List UInt8) :
    Settles Fail.more (readFlag start env byteBuf) (readFlag start env byteBuf') :=
  (fetch_settles h _ _).bind fun _ _ => .refl _

end

end LogSocket
