import LogSocket.Lib.Journal
import LogSocket.RollingFile

/-! What the log file of a server holds. The files that were renamed and the one that is written to
are the parts of a journal: whatever becomes of the calls of the appender, and however often its
process is started again, nothing that was written is lost or changes its place. -/

namespace LogSocket.Rolling

open Lib

/-- A configuration with a file of its own, to which each process appends, whose names have no suffix
and do not come back once the time has left them. -/
structure Configuration.Daily (c : Configuration) : Prop where
  file : c.file ≠ []
  append : c.append = true
  name (t : Nat) : c.formatFileName t ≠ c.file
  plain (t : Nat) : TimeBasedRollingPolicy.suffixLengthOf (c.formatFileName t) = 0
  periods : Periods c.formatFileName

namespace Disk

variable {disk : Disk} {path other : LogString} {contents : LogString}

@[simp] theorem contents_insert_self : Disk.contents (disk.insert path contents) path = contents := by
  simp [Disk.contents]

theorem contents_insert_ne (h : other ≠ path) :
    Disk.contents (disk.insert path contents) other = Disk.contents disk other := by
  rw [Disk.contents, SortedMap.find?_insert_of_ne h, Disk.contents]

@[simp] theorem contents_erase_self : Disk.contents (disk.erase path) path = [] := by
  simp [Disk.contents]

theorem contents_erase_ne (h : other ≠ path) :
    Disk.contents (disk.erase path) other = Disk.contents disk other := by
  rw [Disk.contents, SortedMap.find?_erase_of_ne h, Disk.contents]

end Disk

/-- The files that an appender has written are the parts of a journal, and no other file is changed. -/
structure Represents (c : Configuration) (start : Disk) (s : Appender)
    (j : Journal LogString LogString) : Prop where
  fileName : s.fileName = c.file
  writer : s.writer = none ∨ s.writer = some c.file
  closed : ∀ part ∈ j.closed, part.1 ≠ c.file ∧ s.disk.contents part.1 = part.2.flatten
  current : s.disk.contents c.file = j.current.flatten
  others : ∀ path, path ∉ j.keys → path ≠ c.file → s.disk.find? path = start.find? path

/-- The policy has looked at the clock for the last time then. -/
structure Checked (c : Configuration) (s : Appender) (j : Journal LogString LogString) (now : Nat) :
    Prop where
  lastFileName : s.policy.lastFileName = j.key
  suffixLength : s.policy.suffixLength = 0
  nextCheck : s.policy.nextCheck = TimeBasedRollingPolicy.checkAfter now
  at_ : j.At c.formatFileName now

section

variable {c : Configuration} {start : Disk} {s : Appender} {j : Journal LogString LogString}
  {m : Moment} {now : Nat}

/-- The footer, where a file is open. -/
def closing (c : Configuration) (s : Appender) (j : Journal LogString LogString) :
    Journal LogString LogString :=
  if s.writer = none then j else j.write c.layout.footer

@[simp] theorem closing_key : (closing c s j).key = j.key := by
  rw [closing]
  split <;> rfl

@[simp] theorem closing_keys : (closing c s j).keys = j.keys := by
  rw [closing]
  split <;> rfl

/-- The header, where a file can be opened. -/
def opening (c : Configuration) (m : Moment) (j : Journal LogString LogString) :
    Journal LogString LogString :=
  if m.hasFile c.file then j.write c.layout.header else j

theorem write_open {path : LogString} (h : s.writer = some path) (text : LogString) :
    s.write text = s.setDisk (s.disk.insert path (s.disk.contents path ++ text)) := by
  cases s
  cases h
  rfl

theorem write_none (h : s.writer = none) (text : LogString) : s.write text = s := by
  cases s
  cases h
  rfl

theorem Represents.write (h : Represents c start s j) (hOpen : s.writer = some c.file)
    (text : LogString) : Represents c start (s.write text) (j.write text) := by
  rw [write_open hOpen]
  refine ⟨h.fileName, .inr hOpen, fun part hMem => ?_, ?_, fun path hNot hne => ?_⟩
  · obtain ⟨hne, hContents⟩ := h.closed part hMem
    exact ⟨hne, (Disk.contents_insert_ne hne).trans hContents⟩
  · rw [Appender.setDisk_disk, Disk.contents_insert_self, h.current, Journal.write,
      List.flatten_append, List.flatten_singleton]
  · exact (SortedMap.find?_insert_of_ne hne).trans (h.others path hNot hne)

theorem Represents.closeWriter (h : Represents c start s j) :
    Represents c start (s.closeWriter c) (closing c s j) ∧ (s.closeWriter c).writer = none := by
  obtain hNone | hOpen := h.writer
  · rw [Appender.closeWriter, closing, if_pos hNone, hNone]
    exact ⟨h, hNone⟩
  · have hWrite := h.write hOpen c.layout.footer
    rw [Appender.closeWriter, closing, hOpen, if_neg (by simp)]
    exact ⟨⟨hWrite.fileName, .inl rfl, hWrite.closed, hWrite.current, hWrite.others⟩, rfl⟩

/-- A file that is opened again keeps what it has, or it has nothing. -/
theorem Represents.setFile (h : Represents c start s j) (hNone : s.writer = none) {append : Bool}
    (hKeeps : append = true ∨ j.current.flatten = []) :
    Represents c start (s.setFile c m c.file append) (opening c m j) ∧
      ((s.setFile c m c.file append).writer = none ↔
        m.hasFile c.file = false) := by
  have hClosed : s.closeWriter c = s := by rw [Appender.closeWriter, hNone]
  rw [Appender.setFile, hClosed, Appender.openStream, opening]
  cases m.hasFile c.file with
  | false => exact ⟨h, by simpa using hNone⟩
  | true =>
    have hContents : (if append then s.disk.contents c.file else []) = j.current.flatten := by
      obtain rfl | hNil := hKeeps
      · rw [if_pos rfl, h.current]
      · rw [h.current, hNil, ite_self]
    refine ⟨?_, by simp [Appender.write]⟩
    refine Represents.write ⟨rfl, .inr rfl, fun part hMem => ?_, ?_, fun path hNot hne => ?_⟩ rfl _
    · obtain ⟨hne, hPart⟩ := h.closed part hMem
      exact ⟨hne, (Disk.contents_insert_ne hne).trans hPart⟩
    · exact Disk.contents_insert_self.trans hContents
    · exact (SortedMap.find?_insert_of_ne hne).trans (h.others path hNot hne)

theorem Represents.rekey (h : Represents c start s j) (key : LogString) :
    Represents c start s (j.rekey key) := ⟨h.fileName, h.writer, h.closed, h.current, h.others⟩

theorem Represents.setPolicy (h : Represents c start s j) (policy : TimeBasedRollingPolicy) :
    Represents c start (s.setPolicy policy) j := ⟨h.fileName, h.writer, h.closed, h.current, h.others⟩

/-- The file that is renamed is closed under the key of the journal. -/
theorem Represents.rename (h : Represents c start s j) (hNone : s.writer = none)
    {contents : LogString} (hThere : s.disk.find? c.file = some contents) (hNew : j.key ∉ j.keys)
    (hKey : j.key ≠ c.file) (key : LogString) :
    Represents c start (s.setDisk ((s.disk.erase c.file).insert j.key contents)) (j.roll key) := by
  have hContents : s.disk.contents c.file = contents := by rw [Disk.contents, hThere]; rfl
  refine ⟨h.fileName, .inl hNone, fun part hMem => ?_, ?_, fun path hNot hne => ?_⟩
  · obtain hMem | hMem := List.mem_append.mp hMem
    · obtain ⟨hne, hPart⟩ := h.closed part hMem
      have hOther : part.1 ≠ j.key := fun hEq => hNew (hEq ▸ List.mem_map_of_mem hMem)
      exact ⟨hne, (Disk.contents_insert_ne hOther).trans ((Disk.contents_erase_ne hne).trans hPart)⟩
    · obtain rfl := List.mem_singleton.mp hMem
      exact ⟨hKey, Disk.contents_insert_self.trans (hContents.symm.trans h.current)⟩
  · exact (Disk.contents_insert_ne hKey.symm).trans Disk.contents_erase_self
  · rw [Journal.keys_roll, List.mem_append, not_or, List.mem_singleton] at hNot
    exact (SortedMap.find?_insert_of_ne hNot.2).trans
      ((SortedMap.find?_erase_of_ne hne).trans (h.others path hNot.1 hne))

/-- What a rollover does to the journal: the part is closed if its file can be renamed, and goes on
under the new key if not. -/
def rolledTo (c : Configuration) (m : Moment) (s : Appender) (j : Journal LogString LogString)
    (key : LogString) : Journal LogString LogString :=
  opening c m
    (if m.renames && ((s.closeWriter c).disk.find? c.file).isSome then (closing c s j).roll key
    else (closing c s j).rekey key)

theorem rolledTo_setPolicy (policy : TimeBasedRollingPolicy) (key : LogString) :
    rolledTo c m (s.setPolicy policy) j key = rolledTo c m s j key := by
  rcases s with ⟨fileName, fileAppend, writer, closed, _, disk⟩
  cases writer <;> rfl

theorem Represents.rolloverSame (h : Represents c start s j) (hNew : j.key ∉ j.keys)
    (hKey : j.key ≠ c.file) (key : LogString) :
    let s' := s.rolloverSame c m ⟨c.file, false, some (.rename c.file j.key), none⟩
    Represents c start s' (rolledTo c m s j key) ∧
      (s'.writer = none ↔ m.hasFile c.file = false) := by
  obtain ⟨hClosed, hNone⟩ := h.closeWriter
  rw [← closing_key (c := c) (s := s)] at hNew hKey ⊢
  rw [← closing_keys (c := c) (s := s)] at hNew
  rw [Appender.rolloverSame, rolledTo]
  generalize closing c s j = j at hClosed hNew hKey
  generalize s.closeWriter c = s at hClosed hNone
  have hSame : s.setDisk s.disk = s := rfl
  simp only [execute, Action.execute]
  cases hThere : s.disk.find? c.file with
  | none => simpa [hSame] using (hClosed.rekey key).setFile hNone (.inl rfl)
  | some contents =>
    cases m.renames with
    | false => simpa [hSame] using (hClosed.rekey key).setFile hNone (.inl rfl)
    | true =>
      simpa using (hClosed.rename hNone hThere hNew hKey key).setFile hNone (.inr rfl)

theorem policy_rollover (hDaily : c.Daily) (hFile : s.fileName = c.file) (h : Checked c s j now)
    (m : Moment) : s.policy.rollover c s.fileName m.later =
      if c.formatFileName m.later = j.key then
        (none, { s.policy with nextCheck := TimeBasedRollingPolicy.checkAfter m.later })
      else (some ⟨c.file, false, some (.rename c.file j.key), none⟩,
        { s.policy with nextCheck := TimeBasedRollingPolicy.checkAfter m.later,
                        lastFileName := c.formatFileName m.later }) := by
  have hKey : c.file ≠ j.key := by
    rw [h.at_.key]
    exact (hDaily.name now).symm
  have hBase (name : LogString) : s.policy.baseName name = name := by
    simp [TimeBasedRollingPolicy.baseName, h.suffixLength]
  simp only [TimeBasedRollingPolicy.rollover, hFile, h.lastFileName, h.suffixLength, hBase, ne_eq,
    hKey, not_false_eq_true, if_true]
  rfl

/-- The journal after a rollover. -/
def rolled (c : Configuration) (m : Moment) (s : Appender) (j : Journal LogString LogString) :
    Journal LogString LogString :=
  if c.formatFileName m.later = j.key then j
  else rolledTo c m s j (c.formatFileName m.later)

theorem Represents.rollover (hDaily : c.Daily) (h : Represents c start s j)
    (hChecked : Checked c s j now) :
    Represents c start (s.rollover c m) (rolled c m s j) ∧
      ((s.rollover c m).writer = none ↔
        if c.formatFileName m.later = j.key then s.writer = none
        else m.hasFile c.file = false) := by
  rw [Appender.rollover, policy_rollover hDaily h.fileName hChecked, rolled]
  by_cases hSame : c.formatFileName m.later = j.key
  · simp only [if_pos hSame]
    exact ⟨h.setPolicy _, Iff.rfl⟩
  simp only [if_neg hSame, if_pos h.fileName.symm]
  have hNew : j.key ∉ j.keys := fun hMem => (hChecked.at_.before _ hMem).1 rfl
  have hKey : j.key ≠ c.file := hChecked.at_.key ▸ hDaily.name now
  have hRolled := (h.setPolicy { s.policy with
    nextCheck := TimeBasedRollingPolicy.checkAfter m.later,
    lastFileName := c.formatFileName m.later }).rolloverSame (m := m) hNew hKey
    (c.formatFileName m.later)
  rwa [rolledTo_setPolicy] at hRolled

/-- What writing leaves as it is. -/
def Appender.kept (s : Appender) : Bool × TimeBasedRollingPolicy := (s.closed, s.policy)

@[simp] theorem kept_write (text : LogString) : (s.write text).kept = s.kept := by
  rw [Appender.write]
  split <;> rfl

@[simp] theorem kept_closeWriter : (s.closeWriter c).kept = s.kept := by
  rw [Appender.closeWriter]
  split
  · rfl
  · exact kept_write c.layout.footer

@[simp] theorem kept_setFile (path : LogString) (append : Bool) :
    (s.setFile c m path append).kept = s.kept := by
  rw [Appender.setFile]
  split
  · exact kept_closeWriter
  · exact (kept_write c.layout.header).trans kept_closeWriter

theorem kept_rolloverSame (d : RolloverDescription) : (s.rolloverSame c m d).kept = s.kept := by
  rw [Appender.rolloverSame]
  split
  · split
    · exact kept_closeWriter
    · exact (kept_setFile _ _).trans kept_closeWriter
  · exact (kept_setFile _ _).trans kept_closeWriter

theorem kept_rollover (hFile : s.fileName = c.file) (hDaily : c.Daily) (h : Checked c s j now) :
    (s.rollover c m).kept = (s.closed, (s.policy.rollover c s.fileName m.later).2) := by
  rw [Appender.rollover, policy_rollover hDaily hFile h]
  by_cases hSame : c.formatFileName m.later = j.key
  · simp only [if_pos hSame]
    rfl
  · simp only [if_neg hSame, if_pos hFile.symm]
    exact kept_rolloverSame _

theorem closing_at (h : j.At c.formatFileName now) : (closing c s j).At c.formatFileName now := by
  rw [closing]
  split
  · exact h
  · exact h.write _

theorem opening_at (h : j.At c.formatFileName now) : (opening c m j).At c.formatFileName now := by
  rw [opening]
  split
  · exact h.write _
  · exact h

theorem rolled_at (hDaily : c.Daily) (h : j.At c.formatFileName now) (hLater : now ≤ m.later) :
    (rolled c m s j).At c.formatFileName m.later := by
  rw [rolled]
  split
  next hSame => exact h.stay hLater hSame
  next hSame =>
    refine opening_at ?_
    split
    · exact (closing_at h).roll hDaily.periods hLater (by rwa [closing_key])
    · exact (closing_at h).rekey hDaily.periods hLater

theorem Checked.rollover (hDaily : c.Daily) (hFile : s.fileName = c.file) (h : Checked c s j now)
    (hLater : now ≤ m.later) : Checked c (s.rollover c m) (rolled c m s j) m.later := by
  have hKept := congrArg Prod.snd (kept_rollover (m := m) hFile hDaily h)
  have hAt := rolled_at (s := s) hDaily h.at_ hLater
  rw [policy_rollover hDaily hFile h] at hKept
  refine ⟨?_, ?_, ?_, hAt⟩
  · rw [hAt.key]
    split at hKept
    next hSame => exact (congrArg (·.lastFileName) hKept).trans (h.lastFileName.trans hSame.symm)
    next => exact congrArg (·.lastFileName) hKept
  · split at hKept
    · exact (congrArg (·.suffixLength) hKept).trans h.suffixLength
    · exact (congrArg (·.suffixLength) hKept).trans h.suffixLength
  · split at hKept
    · exact congrArg (·.nextCheck) hKept
    · exact congrArg (·.nextCheck) hKept

/-- Neither a header nor a footer. -/
def Layout.Bare (l : Layout) : Prop := l.header = [] ∧ l.footer = []

theorem rolled_records (hBare : c.layout.Bare) :
    (rolled c m s j).records.flatten = j.records.flatten := by
  have hClosing : (closing c s j).records.flatten = j.records.flatten := by
    rw [closing]
    split <;> simp [hBare.2]
  have hOpening (j : Journal LogString LogString) :
      (opening c m j).records.flatten = j.records.flatten := by
    rw [opening]
    split <;> simp [hBare.1]
  rw [rolled]
  split
  · rfl
  · rw [rolledTo, hOpening]
    split <;> simp [hClosing]

/-- What was in the file at the start and the texts are in the files, in order. -/
def Holds (c : Configuration) (start : Disk) (s : Appender) (t : Nat) (texts : List LogString) :
    Prop :=
  ∃ j now, now ≤ t ∧ Represents c start s j ∧ Checked c s j now ∧
    j.records.flatten = start.contents c.file ++ texts.flatten

/-- An appender that takes events. -/
def Appender.Ready (s : Appender) : Prop := s.closed = false ∧ s.writer ≠ none

theorem Appender.Ready.rollover (h : s.Ready) (hDaily : c.Daily) (hRep : Represents c start s j)
    (hChecked : Checked c s j now) (hFile : m.hasFile c.file) : (s.rollover c m).Ready := by
  refine ⟨(congrArg Prod.fst (kept_rollover hRep.fileName hDaily hChecked)).trans h.1,
    fun hNone => ?_⟩
  have hCase := (hRep.rollover hDaily hChecked).2.mp hNone
  split at hCase
  · exact h.2 hCase
  · rw [hFile] at hCase
    cases hCase

theorem Holds.rollover {t : Nat} {texts : List LogString} (hDaily : c.Daily)
    (hBare : c.layout.Bare) (h : Holds c start s t texts) (hNow : t ≤ m.later) :
    Holds c start (s.rollover c m) m.later texts ∧
      (s.Ready → m.hasFile c.file → (s.rollover c m).Ready) := by
  obtain ⟨j, now, hBefore, hRep, hChecked, hRecords⟩ := h
  refine ⟨⟨_, m.later, le_rfl, (hRep.rollover hDaily hChecked).1,
    hChecked.rollover hDaily hRep.fileName (hBefore.trans hNow),
    (rolled_records hBare).trans hRecords⟩, fun hReady => hReady.rollover hDaily hRep hChecked⟩

theorem Checked.write (h : Checked c s j now) (text : LogString) :
    Checked c (s.write text) (j.write text) now := by
  have hPolicy := congrArg Prod.snd (kept_write (s := s) text)
  exact ⟨(congrArg (·.lastFileName) hPolicy).trans h.lastFileName,
    (congrArg (·.suffixLength) hPolicy).trans h.suffixLength,
    (congrArg (·.nextCheck) hPolicy).trans h.nextCheck, h.at_.write text⟩

theorem Appender.Ready.write {path : LogString} (h : s.Ready) (hOpen : s.writer = some path)
    (text : LogString) : (s.write text).Ready := by
  refine ⟨(congrArg Prod.fst (kept_write (s := s) text)).trans h.1, ?_⟩
  rw [write_open hOpen, Appender.setDisk_writer]
  exact h.2

theorem Holds.write {t : Nat} {texts : List LogString} (h : Holds c start s t texts)
    (text : LogString) : ∃ kept, (kept = [] ∨ kept = [text]) ∧
      Holds c start (s.write text) t (texts ++ kept) ∧
      (s.Ready → kept = [text] ∧ (s.write text).Ready) := by
  obtain ⟨j, now, hBefore, hRep, hChecked, hRecords⟩ := h
  obtain hNone | hOpen := hRep.writer
  · rw [write_none hNone]
    refine ⟨[], .inl rfl, ⟨j, now, hBefore, hRep, hChecked, ?_⟩, fun h => absurd hNone h.2⟩
    rw [List.append_nil, hRecords]
  · refine ⟨[text], .inr rfl, ⟨j.write text, now, hBefore, hRep.write hOpen text,
      hChecked.write text, ?_⟩, fun h => ⟨rfl, h.write hOpen text⟩⟩
    simp [hRecords]

theorem Holds.mono {t t' : Nat} {texts : List LogString} (h : Holds c start s t texts)
    (hLe : t ≤ t') : Holds c start s t' texts := by
  obtain ⟨j, now, hBefore, hRest⟩ := h
  exact ⟨j, now, hBefore.trans hLe, hRest⟩

theorem Holds.append {t : Nat} {texts : List LogString} (hDaily : c.Daily)
    (hBare : c.layout.Bare) (h : Holds c start s t texts) (hNow : t ≤ m.now)
    (hLater : m.now ≤ m.later) (event : LoggingEvent) :
    ∃ kept, (kept = [] ∨ kept = [c.layout.format event]) ∧
      Holds c start (s.append c event m) m.later (texts ++ kept) ∧
      (s.Ready → m.hasFile c.file →
        kept = [c.layout.format event] ∧ (s.append c event m).Ready) := by
  rw [Appender.append]
  split
  next hRefuses =>
    refine ⟨[], .inl rfl, ?_, fun hReady => ?_⟩
    · rw [List.append_nil]
      exact h.mono (hNow.trans hLater)
    · obtain hClosed | hNone := hRefuses
      · rw [hReady.1] at hClosed
        cases hClosed
      · exact absurd hNone hReady.2
  next =>
    rw [Appender.subAppend]
    split
    · obtain ⟨hRolled, hReady⟩ := h.rollover hDaily hBare (hNow.trans hLater)
      obtain ⟨kept, hKept, hHolds, hAll⟩ := hRolled.write (c.layout.format event)
      exact ⟨kept, hKept, hHolds, fun h hFile => hAll (hReady h hFile)⟩
    · obtain ⟨kept, hKept, hHolds, hAll⟩ := h.write (c.layout.format event)
      exact ⟨kept, hKept, hHolds.mono (hNow.trans hLater), fun h _ => hAll h⟩

theorem Holds.close {t : Nat} {texts : List LogString} (hBare : c.layout.Bare)
    (h : Holds c start s t texts) : Holds c start (s.close c) t texts := by
  obtain ⟨j, now, hBefore, hRep, hChecked, hRecords⟩ := h
  rw [Appender.close]
  split
  · exact ⟨j, now, hBefore, hRep, hChecked, hRecords⟩
  · have hRep : Represents c start { s with closed := true } j :=
      ⟨hRep.fileName, hRep.writer, hRep.closed, hRep.current, hRep.others⟩
    have hPolicy := congrArg Prod.snd
      (kept_closeWriter (c := c) (s := { s with closed := true }))
    refine ⟨_, now, hBefore, hRep.closeWriter.1, ⟨?_, ?_, ?_, closing_at hChecked.at_⟩, ?_⟩
    · exact (congrArg (·.lastFileName) hPolicy).trans (hChecked.lastFileName.trans closing_key.symm)
    · exact (congrArg (·.suffixLength) hPolicy).trans hChecked.suffixLength
    · exact (congrArg (·.nextCheck) hPolicy).trans hChecked.nextCheck
    · rw [← hRecords, closing]
      split <;> simp [hBare.2]

/-- A new appender goes on with the files of the one before. -/
theorem Represents.activateOptions (hDaily : c.Daily) (h : Represents c start s j)
    (hAt : j.At c.formatFileName now) (hLater : now ≤ m.later) :
    let s' := Appender.activateOptions c m s.disk
    let j' := opening c m (j.rekey (c.formatFileName m.later))
    Represents c start s' j' ∧ Checked c s' j' m.later ∧ (m.hasFile c.file → s'.Ready) := by
  intro s' j'
  let fresh : Appender :=
    ⟨c.file, c.append, none, false, TimeBasedRollingPolicy.initializeAt c m, s.disk⟩
  have hActivate : s' = fresh.setFile c m c.file c.append := by
    simp only [s', Appender.activateOptions, if_pos hDaily.file]
    rfl
  have hFresh : Represents c start fresh (j.rekey (c.formatFileName m.later)) :=
    ⟨rfl, .inl rfl, h.closed, h.current, h.others⟩
  obtain ⟨hRep, hWriter⟩ := hFresh.setFile (m := m) rfl (.inl hDaily.append)
  have hKept : s'.kept = (false, TimeBasedRollingPolicy.initializeAt c m) := by
    rw [hActivate]
    exact kept_setFile _ _
  have hPolicy := congrArg Prod.snd hKept
  have hNewAt : j'.At c.formatFileName m.later := opening_at (hAt.rekey hDaily.periods hLater)
  refine ⟨hActivate ▸ hRep, ⟨?_, ?_, ?_, hNewAt⟩, fun hFile => ?_⟩
  · exact (congrArg (·.lastFileName) hPolicy).trans hNewAt.key.symm
  · exact (congrArg (·.suffixLength) hPolicy).trans (hDaily.plain m.now)
  · exact congrArg (·.nextCheck) hPolicy
  · refine ⟨congrArg Prod.fst hKept, fun hNone => ?_⟩
    rw [hActivate, hWriter, hFile] at hNone
    cases hNone

/-- The journal of an appender that goes on with the files of a disk. -/
def startJournal (c : Configuration) (disk : Disk) (m : Moment) : Journal LogString LogString :=
  opening c m (.start (c.formatFileName m.later) [disk.contents c.file])

theorem represents_start (hDaily : c.Daily) (disk : Disk) (m : Moment) :
    let s := Appender.activateOptions c m disk
    Represents c disk s (startJournal c disk m) ∧ Checked c s (startJournal c disk m) m.later ∧
      (m.hasFile c.file → s.Ready) := by
  let empty : Appender :=
    ⟨c.file, c.append, none, false, TimeBasedRollingPolicy.initializeAt c m, disk⟩
  have hEmpty : Represents c disk empty
      (Journal.start (c.formatFileName m.later) [disk.contents c.file]) :=
    ⟨rfl, .inl rfl, fun _ h => absurd h List.not_mem_nil, by simp [empty, Journal.start],
      fun _ _ _ => rfl⟩
  exact hEmpty.activateOptions hDaily (.start c.formatFileName m.later _) le_rfl

theorem Holds.restart {t : Nat} {texts : List LogString} (hDaily : c.Daily) (hBare : c.layout.Bare)
    (h : Holds c start s t texts) (hNow : t ≤ m.later) :
    Holds c start (Appender.activateOptions c m s.disk) m.later texts ∧
      (m.hasFile c.file → (Appender.activateOptions c m s.disk).Ready) := by
  obtain ⟨j, now, hBefore, hRep, hChecked, hRecords⟩ := h
  obtain ⟨hNew, hNewChecked, hReady⟩ :=
    hRep.activateOptions hDaily hChecked.at_ (hBefore.trans hNow)
  refine ⟨⟨_, m.later, le_rfl, hNew, hNewChecked, ?_⟩, hReady⟩
  rw [← hRecords, opening]
  split <;> simp [hBare.1]

/-- What the operations of a run write, behind what was written before. -/
theorem Holds.run {t : Nat} {texts : List LogString} (hDaily : c.Daily) (hBare : c.layout.Bare)
    (h : Holds c start s t texts) {ops : List Op} (hClock : Clock t ops) :
    ∃ kept : List LoggingEvent, ∃ t', kept.Sublist (ops.filterMap Op.event?) ∧
      Holds c start (s.run c ops) t' (texts ++ kept.map c.layout.format) ∧
      (s.Ready → (∀ op ∈ ops, op.Opens c) → kept = ops.filterMap Op.event?) := by
  induction ops generalizing s t texts with
  | nil => exact ⟨[], t, .slnil, by simpa [Appender.run] using h, fun _ _ => rfl⟩
  | cons op ops ih =>
    change ∃ kept : List LoggingEvent, ∃ t', _ ∧ Holds c start ((s.step c op).run c ops) t' _ ∧ _
    cases op with
    | append event m =>
      obtain ⟨hNow, hLater, hClock⟩ := hClock
      obtain ⟨written, hWritten, hHolds, hReady⟩ := h.append hDaily hBare hNow hLater event
      obtain ⟨kept, t', hSub, hRun, hAll⟩ := ih hHolds hClock
      obtain rfl | rfl := hWritten
      · refine ⟨kept, t', hSub.cons event, by simpa [Appender.step] using hRun, fun h hOpens => ?_⟩
        exact absurd (hReady h (hOpens _ List.mem_cons_self)).1 (by simp)
      · refine ⟨event :: kept, t', hSub.cons_cons event, by simpa [Appender.step] using hRun,
          fun h hOpens => ?_⟩
        obtain ⟨hThis, hRest⟩ := List.forall_mem_cons.mp hOpens
        exact congrArg (event :: ·) (hAll (hReady h hThis).2 hRest)
    | close =>
      obtain ⟨kept, t', hSub, hRun, -⟩ := ih (h.close hBare) hClock
      exact ⟨kept, t', hSub, hRun, fun _ hOpens => (hOpens .close List.mem_cons_self).elim⟩
    | restart m =>
      obtain ⟨hNow, hLater, hClock⟩ := hClock
      obtain ⟨hHolds, hReady⟩ := h.restart (m := m) hDaily hBare (hNow.trans hLater)
      obtain ⟨kept, t', hSub, hRun, hAll⟩ := ih hHolds hClock
      refine ⟨kept, t', hSub, hRun, fun _ hOpens => ?_⟩
      obtain ⟨hThis, hRest⟩ := List.forall_mem_cons.mp hOpens
      exact hAll (hReady hThis) hRest

end

/-- However often the process is started again and whatever becomes of renames and opens, what was in
the file and what the appender has written is in the archives and the file, in its order; no other file
is changed. Where the file can always be opened, every event is written. -/
theorem nothing_lost {c : Configuration} (hDaily : c.Daily) (hBare : c.layout.Bare) (disk : Disk)
    (m : Moment) {ops : List Op} (hClock : Clock m.later ops) :
    let s := (Appender.activateOptions c m disk).run c ops
    ∃ (archives : List LogString) (kept : List LoggingEvent),
      archives.Nodup ∧ c.file ∉ archives ∧
      (∀ path, path ∉ archives → path ≠ c.file → s.disk.find? path = disk.find? path) ∧
      ((archives ++ [c.file]).map s.disk.contents).flatten =
        disk.contents c.file ++ (kept.map c.layout.format).flatten ∧
      kept.Sublist (ops.filterMap Op.event?) ∧
      (m.hasFile c.file → (∀ op ∈ ops, op.Opens c) → kept = ops.filterMap Op.event?) := by
  intro s
  obtain ⟨hRep, hChecked, hReady⟩ := represents_start hDaily disk m
  have hStart : Holds c disk (Appender.activateOptions c m disk) m.later [] := by
    refine ⟨_, m.later, le_rfl, hRep, hChecked, ?_⟩
    rw [startJournal, opening]
    split <;> simp [hBare.1]
  obtain ⟨kept, t', hSub, ⟨j, now, -, hRep, hChecked, hRecords⟩, hAll⟩ :=
    hStart.run hDaily hBare hClock
  refine ⟨j.keys, kept, hChecked.at_.nodup, fun hMem => ?_, hRep.others, ?_, hSub,
    fun hFile => hAll (hReady hFile)⟩
  · obtain ⟨-, t, -, hName⟩ := hChecked.at_.before _ hMem
    exact hDaily.name t hName
  · rw [List.nil_append] at hRecords
    have hClosed : j.keys.map s.disk.contents = (j.closed.map Prod.snd).map List.flatten := by
      rw [Journal.keys, List.map_map, List.map_map]
      exact List.map_congr_left fun part hMem => (hRep.closed part hMem).2
    calc ((j.keys ++ [c.file]).map s.disk.contents).flatten
        = (j.keys.map s.disk.contents).flatten ++ s.disk.contents c.file := by simp
      _ = (j.closed.flatMap Prod.snd).flatten ++ j.current.flatten := by
          rw [hClosed, hRep.current, ← List.flatten_flatten, List.flatMap_def]
      _ = j.records.flatten := by rw [Journal.records, List.flatten_append]
      _ = disk.contents c.file ++ (kept.map c.layout.format).flatten := hRecords

/-- A file `l` whose archives are `l.1` for the first day and `l.2` for all later ones. -/
def sampleConfiguration : Configuration where
  file := [0x6C]
  append := true
  layout := ⟨LoggingEvent.message, [], []⟩
  formatFileName t := [0x6C, 0x2E, if t < 86400000000 then 0x31 else 0x32]

theorem sampleConfiguration_daily : sampleConfiguration.Daily where
  file := by decide
  append := rfl
  name t := by
    intro h
    cases h
  plain t := by
    dsimp only [sampleConfiguration]
    split <;> decide
  periods := by
    intro a b t hab hbt h
    by_cases hA : a < 86400000000
    · have hT : t < 86400000000 := by
        by_contra hT
        simp [sampleConfiguration, hA, hT] at h
      simp [sampleConfiguration, hA, show b < 86400000000 by omega]
    · simp [sampleConfiguration, hA, show ¬b < 86400000000 by omega]

def sampleMoment (t : Nat) : Moment := ⟨t, t, true, true, false, none⟩

def sampleEvent (message : LogString) : LoggingEvent :=
  ⟨[], .info, message, 0, ⟨0, [], []⟩, []⟩

/-- The second event comes on the next day, and its rename is not done; the third follows a restart. -/
def sampleOps : List Op :=
  [.append (sampleEvent [0x61]) (sampleMoment 10),
    .append (sampleEvent [0x62]) { sampleMoment 86400000001 with renames := false },
    .restart (sampleMoment 86400000002), .append (sampleEvent [0x63]) (sampleMoment 86405000000)]

theorem nothing_lost_sample :
    let s := (Appender.activateOptions sampleConfiguration (sampleMoment 0) .empty).run
      sampleConfiguration sampleOps
    ∃ (archives : List LogString) (kept : List LoggingEvent),
      ((archives ++ [[0x6C]]).map s.disk.contents).flatten =
        (kept.map LoggingEvent.message).flatten ∧
      kept = [sampleEvent [0x61], sampleEvent [0x62], sampleEvent [0x63]] := by
  intro s
  obtain ⟨archives, kept, -, -, -, hContents, -, hAll⟩ :=
    nothing_lost sampleConfiguration_daily ⟨rfl, rfl⟩ .empty (sampleMoment 0)
      (show Clock 0 sampleOps by simp [Clock, sampleOps, sampleMoment])
  refine ⟨archives, kept, hContents, hAll rfl ?_⟩
  simp [sampleOps, Op.Opens, Moment.hasFile, sampleMoment]

end LogSocket.Rolling
