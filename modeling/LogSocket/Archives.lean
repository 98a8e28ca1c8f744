import LogSocket.Rollovers

/-! Which events an archive has. Where the calls of the appender succeed, the file that was renamed to
a name has the events that were appended while the time gave that name, and no others: the policy
looks at the clock once in a second at most, and a name holds for whole seconds. -/

namespace LogSocket.Rolling

open Lib

/-- An event and what its `append` meets. -/
abbrev Appending := LoggingEvent × Moment

/-- The texts that are due under a name. -/
def texts (c : Configuration) (appends : List Appending) (name : LogString) : List LogString :=
  (appends.filter fun a => c.formatFileName a.2.now = name).map fun a => c.layout.format a.1

/-- What is due under a name up to its footer: the first one also has what was in the file before. -/
def due (c : Configuration) (disk : Disk) (first : LogString) (appends : List Appending)
    (name : LogString) : LogString :=
  (if name = first then disk.contents c.file else []) ++ c.layout.header ++
    (texts c appends name).flatten

/-- The parts of a journal have what is due under their names. -/
structure Filed (c : Configuration) (disk : Disk) (first : LogString) (appends : List Appending)
    (j : Journal LogString LogString) : Prop where
  current : j.current.flatten = due c disk first appends j.key
  closed : ∀ part ∈ j.closed, part.2.flatten = due c disk first appends part.1 ++ c.layout.footer
  first : first ∈ j.key :: j.keys
  names : ∀ a ∈ appends, c.formatFileName a.2.now ∈ j.key :: j.keys

section

variable {c : Configuration} {disk : Disk} {first : LogString} {appends : List Appending}
  {j : Journal LogString LogString} {a : Appending} {name : LogString}

theorem due_append_self (h : c.formatFileName a.2.now = name) :
    due c disk first (appends ++ [a]) name =
      due c disk first appends name ++ c.layout.format a.1 := by
  simp [due, texts, h]

theorem due_append_ne (h : c.formatFileName a.2.now ≠ name) :
    due c disk first (appends ++ [a]) name = due c disk first appends name := by
  simp [due, texts, h]

/-- The event belongs to the current part. -/
theorem Filed.write (h : Filed c disk first appends j) (hKey : c.formatFileName a.2.now = j.key)
    (hNew : j.key ∉ j.keys) :
    Filed c disk first (appends ++ [a]) (j.write (c.layout.format a.1)) where
  current := by
    rw [Journal.write, List.flatten_append, h.current, due_append_self hKey, List.flatten_singleton]
  closed part hMem := by
    rw [due_append_ne, h.closed part hMem]
    intro hEq
    rw [← hEq.symm.trans hKey] at hNew
    exact hNew (List.mem_map_of_mem hMem)
  first := h.first
  names := List.forall_mem_append.mpr
    ⟨h.names, List.forall_mem_singleton.mpr (hKey ▸ List.mem_cons_self)⟩

/-- A new part is begun under a name that no event had. -/
theorem Filed.roll (h : Filed c disk first appends j) (hNew : name ∉ j.key :: j.keys) :
    Filed c disk first appends
      (((j.write c.layout.footer).roll name).write c.layout.header) where
  current := by
    have hNone : texts c appends name = [] := by
      rw [texts, List.filter_eq_nil_iff.mpr, List.map_nil]
      intro a hMem hEq
      exact hNew (of_decide_eq_true hEq ▸ h.names a hMem)
    have hFirst : name ≠ first := fun hEq => hNew (hEq ▸ h.first)
    simp [due, hNone, hFirst, Journal.write, Journal.roll]
  closed part hMem := by
    obtain hMem | hMem := List.mem_append.mp hMem
    · exact h.closed part hMem
    · obtain rfl := List.mem_singleton.mp hMem
      simp [Journal.write, h.current]
  first := by
    have hFirst := h.first
    simp only [Journal.keys_write, Journal.keys_roll, List.mem_cons, List.mem_append] at hFirst ⊢
    tauto
  names a hMem := by
    have hName := h.names a hMem
    simp only [Journal.keys_write, Journal.keys_roll, List.mem_cons, List.mem_append] at hName ⊢
    tauto

/-- Between two looks at the clock the name is that of the look before, but at the end of its second. -/
theorem name_of_unchecked {now t : Nat}
    (hSeconds : ∀ t t', t / 1000000 = t' / 1000000 → c.formatFileName t = c.formatFileName t')
    (hNow : now ≤ t) (hTick : t % 1000000 ≠ 0)
    (hCheck : t ≤ TimeBasedRollingPolicy.checkAfter now) : c.formatFileName t = c.formatFileName now := by
  refine hSeconds t now ?_
  rw [TimeBasedRollingPolicy.checkAfter] at hCheck
  omega

/-- What an append meets whose calls succeed. -/
structure Served (c : Configuration) (a : Appending) : Prop where
  opens : a.2.hasFile c.file = true
  renames : a.2.renames = true
  /-- It does not fall on the end of a second. -/
  tick : a.2.now % 1000000 ≠ 0
  /-- The name is the same while it lasts. -/
  once : c.formatFileName a.2.now = c.formatFileName a.2.later

/-- The name under which the last event was appended. -/
def lastName (c : Configuration) (first : LogString) (appends : List Appending) : LogString :=
  (appends.getLast?.map fun a => c.formatFileName a.2.now).getD first

/-- The appender, whose journal has what is due under its names up to a time. -/
def Files (c : Configuration) (disk : Disk) (first : LogString) (s : Appender) (t : Nat)
    (appends : List Appending) : Prop :=
  s.Ready ∧ ∃ j now, now ≤ t ∧ Represents c disk s j ∧ Checked c s j now ∧
    Filed c disk first appends j ∧ j.key = lastName c first appends

/-- A rollover whose calls succeed. -/
theorem rolledTo_served {s : Appender} (hOpen : s.writer = some c.file) (hServed : Served c a)
    (key : LogString) : rolledTo c a.2 s j key =
      ((j.write c.layout.footer).roll key).write c.layout.header := by
  have hThere : ((s.closeWriter c).disk.find? c.file).isSome = true := by
    rw [Appender.closeWriter, hOpen]
    simp [write_open hOpen]
  rw [rolledTo, opening, closing, if_pos hServed.opens, hServed.renames, hThere, hOpen]
  rfl

theorem Files.append {s : Appender} {t : Nat} (hDaily : c.Daily)
    (hSeconds : ∀ t t', t / 1000000 = t' / 1000000 → c.formatFileName t = c.formatFileName t')
    (h : Files c disk first s t appends) (hServed : Served c a) (hNow : t ≤ a.2.now)
    (hLater : a.2.now ≤ a.2.later) :
    Files c disk first (s.append c a.1 a.2) a.2.later (appends ++ [a]) := by
  obtain ⟨hReady, j, now, hBefore, hRep, hChecked, hFiled, -⟩ := h
  have hLast : lastName c first (appends ++ [a]) = c.formatFileName a.2.now := by simp [lastName]
  have hTakes : ¬(s.closed = true ∨ s.writer = none) := by
    rw [hReady.1]
    simpa using hReady.2
  have hOpen (s : Appender) (hReady : s.Ready) {j : Journal LogString LogString}
      (hRep : Represents c disk s j) : s.writer = some c.file := hRep.writer.resolve_left hReady.2
  have hKeyNew (s : Appender) {j : Journal LogString LogString} {now : Nat}
      (hChecked : Checked c s j now) : j.key ∉ j.keys :=
    fun hMem => (hChecked.at_.before _ hMem).1 rfl
  rw [Appender.append, if_neg hTakes, Appender.subAppend,
    TimeBasedRollingPolicy.isTriggeringEvent, hChecked.nextCheck]
  by_cases hCheck : TimeBasedRollingPolicy.checkAfter now < a.2.now
  · rw [if_pos (decide_eq_true hCheck)]
    have hRolled := (hRep.rollover (m := a.2) hDaily hChecked).1
    have hAgain := hChecked.rollover (m := a.2) hDaily hRep.fileName
      (hBefore.trans (hNow.trans hLater))
    have hStill := hReady.rollover hDaily hRep hChecked hServed.opens
    have hFiledNow : Filed c disk first appends (rolled c a.2 s j) := by
      rw [rolled]
      split
      · exact hFiled
      next hOther =>
        rw [rolledTo_served (hOpen s hReady hRep) hServed]
        refine hFiled.roll fun hMem => ?_
        obtain hEq | hMem := List.mem_cons.mp hMem
        · exact hOther hEq
        · exact hChecked.at_.ne hDaily.periods (hBefore.trans (hNow.trans hLater)) hMem rfl
    have hKey : c.formatFileName a.2.now = (rolled c a.2 s j).key :=
      hServed.once.trans hAgain.at_.key.symm
    exact ⟨hStill.write (hOpen _ hStill hRolled) _, _, a.2.later, le_rfl,
      hRolled.write (hOpen _ hStill hRolled) _, hAgain.write _,
      hFiledNow.write hKey (hKeyNew _ hAgain), hKey.symm.trans hLast.symm⟩
  · rw [if_neg (by simpa using hCheck)]
    have hKey : c.formatFileName a.2.now = j.key :=
      (name_of_unchecked hSeconds (hBefore.trans hNow) hServed.tick (Nat.not_lt.mp hCheck)).trans
        hChecked.at_.key.symm
    exact ⟨hReady.write (hOpen s hReady hRep) _, _, now, hBefore.trans (hNow.trans hLater),
      hRep.write (hOpen s hReady hRep) _, hChecked.write _,
      hFiled.write hKey (hKeyNew s hChecked), hKey.symm.trans hLast.symm⟩

/-- The operation. -/
def Appending.op (a : Appending) : Op := .append a.1 a.2

theorem Files.run {s : Appender} {t : Nat} {done : List Appending} (hDaily : c.Daily)
    (hSeconds : ∀ t t', t / 1000000 = t' / 1000000 → c.formatFileName t = c.formatFileName t')
    (h : Files c disk first s t done) (hServed : ∀ a ∈ appends, Served c a)
    (hClock : Clock t (appends.map Appending.op)) :
    ∃ t', Files c disk first (s.run c (appends.map Appending.op)) t' (done ++ appends) := by
  induction appends generalizing s t done with
  | nil => exact ⟨t, by simpa [Appender.run] using h⟩
  | cons a appends ih =>
    obtain ⟨hThis, hRest⟩ := List.forall_mem_cons.mp hServed
    obtain ⟨hNow, hLater, hClock⟩ := hClock
    obtain ⟨t', hRun⟩ := ih (h.append hDaily hSeconds hThis hNow hLater) hRest hClock
    rw [List.append_assoc, List.singleton_append] at hRun
    exact ⟨t', hRun⟩

end

/-- Where the calls of the appender succeed, what it appended while the time gave a name is in the file
that was renamed to the name, in order and behind what was in the file at the start if the name is the
first one; what it appended under the last name is in its file. -/
theorem archived {c : Configuration} (hDaily : c.Daily)
    (hSeconds : ∀ t t', t / 1000000 = t' / 1000000 → c.formatFileName t = c.formatFileName t')
    (disk : Disk) (m : Moment) (hFile : m.hasFile c.file) {appends : List Appending}
    (hServed : ∀ a ∈ appends, Served c a) (hClock : Clock m.later (appends.map Appending.op)) :
    let s := (Appender.activateOptions c m disk).run c (appends.map Appending.op)
    let first := c.formatFileName m.later
    s.disk.contents c.file = due c disk first appends (lastName c first appends) ∧
      ∀ name ∈ first :: appends.map (fun a => c.formatFileName a.2.now),
        name ≠ lastName c first appends →
          s.disk.contents name = due c disk first appends name ++ c.layout.footer := by
  intro s first
  obtain ⟨hRep, hChecked, hReady⟩ := represents_start hDaily disk m
  have hStart : Files c disk first (Appender.activateOptions c m disk) m.later [] := by
    refine ⟨hReady hFile, _, m.later, le_rfl, hRep, hChecked, ?_, hChecked.at_.key⟩
    rw [startJournal, opening, if_pos hFile]
    exact ⟨by simp [due, texts, Journal.write, Journal.start, first],
      fun _ h => absurd h List.not_mem_nil, List.mem_cons_self, fun _ h => absurd h List.not_mem_nil⟩
  obtain ⟨t', -, j, now, -, hRep, -, hFiled, hLast⟩ := hStart.run hDaily hSeconds hServed hClock
  rw [List.nil_append] at hFiled hLast
  rw [← hLast]
  refine ⟨hRep.current.trans hFiled.current, fun name hMem hne => ?_⟩
  have hNames : ∀ name ∈ first :: appends.map (fun a => c.formatFileName a.2.now),
      name ∈ j.key :: j.keys :=
    List.forall_mem_cons.mpr ⟨hFiled.first, List.forall_mem_map.mpr hFiled.names⟩
  obtain hEq | hKey := List.mem_cons.mp (hNames name hMem)
  · exact absurd hEq hne
  · obtain ⟨part, hPart, rfl⟩ := List.mem_map.mp hKey
    exact (hRep.closed part hPart).2.trans (hFiled.closed part hPart)

/-- Two events on the first day and one on the second. -/
def sampleAppends : List Appending :=
  [(sampleEvent [0x61], sampleMoment 10), (sampleEvent [0x62], sampleMoment 1500000),
    (sampleEvent [0x63], sampleMoment 86400000001)]

theorem sampleAppends_served : ∀ a ∈ sampleAppends, Served sampleConfiguration a := by
  intro a hMem
  obtain rfl | rfl | rfl : a = _ ∨ a = _ ∨ a = _ := by simpa [sampleAppends] using hMem
  · exact ⟨rfl, rfl, by decide, rfl⟩
  · exact ⟨rfl, rfl, by decide, rfl⟩
  · exact ⟨rfl, rfl, by decide, rfl⟩

theorem archived_sample :
    let s := (Appender.activateOptions sampleConfiguration (sampleMoment 0) .empty).run
      sampleConfiguration (sampleAppends.map Appending.op)
    s.disk.contents [0x6C] = [0x63] ∧ s.disk.contents [0x6C, 0x2E, 0x31] = [0x61, 0x62] := by
  intro s
  obtain ⟨hFile, hArchives⟩ := archived sampleConfiguration_daily
    (fun t t' h => by
      have hDay : t < 86400000000 ↔ t' < 86400000000 := by omega
      simp [sampleConfiguration, hDay])
    .empty (sampleMoment 0) rfl sampleAppends_served
    (by simp [Clock, sampleAppends, sampleMoment, Appending.op])
  exact ⟨hFile, hArchives [0x6C, 0x2E, 0x31] (by decide) (by decide)⟩

end LogSocket.Rolling
