import Mathlib.Data.List.Nodup
import Mathlib.Order.Basic

/-! Records that are written in parts. A journal has a current part under a key, and the parts that
were closed before, each under the key that it had. Where the keys belong to times and do not come
back, no part is closed under a key that another part has. -/

namespace LogSocket.Lib

variable {κ τ ι : Type}

structure Journal (κ τ : Type) where
  closed : List (κ × List τ)
  key : κ
  current : List τ

namespace Journal

def start (key : κ) (current : List τ) : Journal κ τ := ⟨[], key, current⟩

def write (j : Journal κ τ) (t : τ) : Journal κ τ := { j with current := j.current ++ [t] }

/-- The current part is closed, and another is begun under the key. -/
def roll (j : Journal κ τ) (key : κ) : Journal κ τ := ⟨j.closed ++ [(j.key, j.current)], key, []⟩

/-- The current part goes on under another key. -/
def rekey (j : Journal κ τ) (key : κ) : Journal κ τ := { j with key }

def keys (j : Journal κ τ) : List κ := j.closed.map Prod.fst

/-- All records, in order. -/
def records (j : Journal κ τ) : List τ := j.closed.flatMap Prod.snd ++ j.current

variable (j : Journal κ τ)

@[simp] theorem records_start (key : κ) (current : List τ) :
    (start key current).records = current := rfl

@[simp] theorem records_write (t : τ) : (j.write t).records = j.records ++ [t] := by
  simp [records, write]

@[simp] theorem records_roll (key : κ) : (j.roll key).records = j.records := by
  simp [records, roll]

@[simp] theorem records_rekey (key : κ) : (j.rekey key).records = j.records := rfl

@[simp] theorem keys_write (t : τ) : (j.write t).keys = j.keys := rfl

@[simp] theorem keys_roll (key : κ) : (j.roll key).keys = j.keys ++ [j.key] := by
  simp [keys, roll]

@[simp] theorem keys_rekey (key : κ) : (j.rekey key).keys = j.keys := rfl

end Journal

/-- A value that is left does not come back. -/
def Periods [Preorder ι] (f : ι → κ) : Prop := ∀ ⦃a b c⦄, a ≤ b → b ≤ c → f a = f c → f b = f a

/-- The journal at a time: its key is that of the time, and those of its closed parts are keys of times
before, all different. -/
structure Journal.At [Preorder ι] (f : ι → κ) (j : Journal κ τ) (now : ι) : Prop where
  key : j.key = f now
  before : ∀ k ∈ j.keys, k ≠ j.key ∧ ∃ t ≤ now, f t = k
  nodup : j.keys.Nodup

namespace Journal.At

variable [Preorder ι] {f : ι → κ} {j : Journal κ τ} {now later : ι}

theorem start (f : ι → κ) (now : ι) (current : List τ) : (Journal.start (f now) current).At f now :=
  ⟨rfl, fun _ h => absurd h List.not_mem_nil, List.nodup_nil⟩

theorem write (h : j.At f now) (t : τ) : (j.write t).At f now := ⟨h.key, h.before, h.nodup⟩

/-- A key of a part is not that of a later time. -/
theorem ne (h : j.At f now) (hPeriods : Periods f) (hLater : now ≤ later) {k : κ}
    (hMem : k ∈ j.keys) : k ≠ f later := by
  obtain ⟨hne, t, hBefore, rfl⟩ := h.before k hMem
  intro hEq
  refine hne ?_
  rw [h.key, hPeriods hBefore hLater hEq]

theorem rekey (h : j.At f now) (hPeriods : Periods f) (hLater : now ≤ later) :
    (j.rekey (f later)).At f later where
  key := rfl
  before k hMem := by
    obtain ⟨-, t, hBefore, hEq⟩ := h.before k hMem
    exact ⟨h.ne hPeriods hLater hMem, t, hBefore.trans hLater, hEq⟩
  nodup := h.nodup

theorem roll (h : j.At f now) (hPeriods : Periods f) (hLater : now ≤ later)
    (hne : f later ≠ j.key) : (j.roll (f later)).At f later where
  key := rfl
  before k hMem := by
    rw [keys_roll, List.mem_append, List.mem_singleton] at hMem
    obtain hMem | rfl := hMem
    · obtain ⟨-, t, hBefore, hEq⟩ := h.before k hMem
      exact ⟨h.ne hPeriods hLater hMem, t, hBefore.trans hLater, hEq⟩
    · exact ⟨hne.symm, now, hLater, h.key.symm⟩
  nodup := by
    rw [keys_roll]
    refine h.nodup.append (List.nodup_singleton _) ?_
    simpa using fun hMem => (h.before _ hMem).1 rfl

/-- The same time reads the same. -/
theorem stay (h : j.At f now) (hLater : now ≤ later) (hEq : f later = j.key) : j.At f later where
  key := hEq.symm
  before k hMem := by
    obtain ⟨hne, t, hBefore, hKey⟩ := h.before k hMem
    exact ⟨hne, t, hBefore.trans hLater, hKey⟩
  nodup := h.nodup

end Journal.At

end LogSocket.Lib
