import Mathlib.Algebra.GroupWithZero.Nat
import LogSocket.Lib.Calls

/-! Programs that read a stream. A call asks for a number of elements and is answered with one or
more of the next ones, up to that number; it is answered with none only where it asks for none or
none is left. `Pieces` is such a way to answer calls, and every run is one that some `Pieces` gives. -/

namespace LogSocket.Lib

abbrev Reader (β α : Type) := Calls Nat (fun _ => List β) α

def Reader.recv {β : Type} (size : Nat) : Reader β (List β) := .ask _ size

/-- How many of the elements at a place a call gives, by the number that it asks for. A call that
gives some moves on, so that no two of them are at one place. -/
structure Pieces where
  count : Nat → Nat → Nat
  count_pos : ∀ place size, 0 < size → 0 < count place size
  count_le : ∀ place size, count place size ≤ size

/-- How much of a stream has been read, and the rest of it. -/
@[ext] structure Unread (β : Type) where
  place : Nat
  rest : List β

variable {β α γ σ τ : Type}

def Unread.skip (s : Unread β) (count : Nat) : Unread β :=
  ⟨s.place + count, s.rest.drop count⟩

@[simp] theorem Unread.skip_append (place : Nat) (data rest : List β) :
    (Unread.mk place (data ++ rest)).skip data.length = ⟨place + data.length, rest⟩ := by
  simp [skip]

/-- An answer to a call that asks for `size` elements of `rest`, with what is left after it. -/
inductive Answer (size : Nat) (rest data rest' : List β) : Prop
  | mk (split : rest = data ++ rest') (le : data.length ≤ size)
      (empty : data = [] → size = 0 ∨ rest = [])

/-- A run of a program to its end, whatever the calls are answered with. -/
inductive Run : Reader β α → List β → α → List β → Prop
  | done {a : α} {rest : List β} : Run (.done a) rest a rest
  | call {size : Nat} {next : List β → Reader β α} {rest data rest' rest'' : List β} {a : α} :
      Answer size rest data rest' → Run (next data) rest' a rest'' →
      Run (.call size next) rest a rest''

namespace Pieces

/-- Every call gives all that it asks for. -/
def whole : Pieces := ⟨fun _ size => size, fun _ _ h => h, fun _ _ => Nat.le_refl _⟩

/-- No call gives more than `limit`. -/
def atMost (limit : Nat) (h : 0 < limit) : Pieces :=
  ⟨fun _ size => min limit size, fun _ _ hSize => by omega, fun _ _ => Nat.min_le_right _ _⟩

variable (pieces : Pieces)

/-- The answer to a call. -/
def answer (size : Nat) (s : Unread β) : List β := s.rest.take (pieces.count s.place size)

def run : Reader β α → Unread β → α × Unread β
  | .done a, s => (a, s)
  | .call size next, s =>
    run (next (pieces.answer size s)) (s.skip (pieces.answer size s).length)

/-- From `place` on, parts of these sizes are each given at once. -/
def Whole : Nat → List Nat → Prop
  | _, [] => True
  | place, size :: sizes => pieces.count place size = size ∧ Whole (place + size) sizes

instance : ∀ place sizes, Decidable (pieces.Whole place sizes)
  | _, [] => .isTrue trivial
  | place, size :: sizes =>
    @instDecidableAnd _ _ _ (instDecidableWhole (place + size) sizes)

variable {pieces}

theorem whole_whole (place : Nat) (sizes : List Nat) : whole.Whole place sizes := by
  induction sizes generalizing place with
  | nil => trivial
  | cons size sizes ih => exact ⟨rfl, ih _⟩

theorem whole_append {place : Nat} {sizes sizes' : List Nat} :
    pieces.Whole place (sizes ++ sizes') ↔
      pieces.Whole place sizes ∧ pieces.Whole (place + sizes.sum) sizes' := by
  induction sizes generalizing place with
  | nil => simp [Whole]
  | cons size sizes ih => simp [Whole, ih, Nat.add_assoc, and_assoc]

@[simp] theorem run_pure (a : α) (s : Unread β) : pieces.run (pure a) s = (a, s) := rfl

theorem run_bind (p : Reader β α) (f : α → Reader β γ) (s : Unread β) :
    pieces.run (p >>= f) s = pieces.run (f (pieces.run p s).1) (pieces.run p s).2 := by
  induction p generalizing s with
  | done a => rfl
  | call size next ih => exact ih _ _

theorem run_recv (size : Nat) (s : Unread β) :
    pieces.run (.recv size) s =
      (pieces.answer size s, s.skip (pieces.answer size s).length) := rfl

/-- Where the elements that are asked for are there, some of them are given. -/
theorem answer_append (pieces : Pieces) (size place : Nat) (data rest : List β)
    (hSize : data.length = size) :
    pieces.answer size ⟨place, data ++ rest⟩ = data.take (pieces.count place size) := by
  have hLe : pieces.count place size ≤ data.length := hSize ▸ pieces.count_le place size
  rw [answer, List.take_append_of_le_length hLe]

theorem answer_append_length (pieces : Pieces) (size place : Nat) (data rest : List β)
    (hSize : data.length = size) :
    (pieces.answer size ⟨place, data ++ rest⟩).length = pieces.count place size := by
  have hLe := pieces.count_le place size
  rw [pieces.answer_append size place data rest hSize, List.length_take]
  omega

theorem answer_whole {size place : Nat} {data : List β} (rest : List β) (hSize : data.length = size)
    (hWhole : pieces.count place size = size) :
    pieces.answer size ⟨place, data ++ rest⟩ = data := by
  rw [pieces.answer_append size place data rest hSize, hWhole, ← hSize, List.take_length]

/-- What is given and what is left are together what was left before. -/
theorem answer_length_add (pieces : Pieces) (size : Nat) (s : Unread β) :
    (pieces.answer size s).length + (s.skip (pieces.answer size s).length).rest.length =
      s.rest.length := by
  simp only [answer, Unread.skip, List.length_take, List.length_drop]
  omega

@[simp] theorem answer_nil (size place : Nat) :
    pieces.answer size (Unread.mk place ([] : List β)) = [] := by
  simp [answer]

/-- A turn that goes on, and the turns after it. -/
theorem run_loop_succ {turn : σ → Reader β (σ ⊕ τ)} {n : Nat} {s s' : σ} {u u' : Unread β}
    (h : pieces.run (turn s) u = (.inl s', u')) :
    pieces.run (Calls.loop turn (n + 1) s) u = pieces.run (Calls.loop turn n s') u' := by
  rw [Calls.loop]
  refine (run_bind (turn s) _ u).trans ?_
  rw [h]

/-- A turn that leaves the loop. -/
theorem run_loop_stop {turn : σ → Reader β (σ ⊕ τ)} {n : Nat} {s : σ} {b : τ} {u u' : Unread β}
    (h : pieces.run (turn s) u = (.inr b, u')) :
    pieces.run (Calls.loop turn (n + 1) s) u = (.inr b, u') := by
  rw [Calls.loop]
  refine (run_bind (turn s) _ u).trans ?_
  rw [h]
  rfl

/-- A loop none of whose turns leaves it still goes on after any number of them. -/
theorem run_loop_never {turn : σ → Reader β (σ ⊕ τ)} {I : σ → Unread β → Prop}
    (hTurn : ∀ s u, I s u → ∃ s' u', pieces.run (turn s) u = (.inl s', u') ∧ I s' u') (n : Nat)
    {s : σ} {u : Unread β} (h : I s u) :
    ∃ s', (pieces.run (Calls.loop turn n s) u).1 = .inl s' := by
  induction n generalizing s u with
  | zero => exact ⟨s, rfl⟩
  | succ n ih =>
    rcases hTurn s u h with ⟨s', u', hGo, hNext⟩
    rw [run_loop_succ hGo]
    exact ih hNext

/-- Only the pieces from where a program starts matter. -/
theorem run_congr {pieces' : Pieces} (p : Reader β α) {s : Unread β}
    (h : ∀ place, s.place ≤ place → pieces.count place = pieces'.count place) :
    pieces.run p s = pieces'.run p s := by
  induction p generalizing s with
  | done a => rfl
  | call size next ih =>
    have hAnswer : pieces.answer size s = pieces'.answer size s := by
      rw [answer, answer, h _ (Nat.le_refl _)]
    rw [run, run, hAnswer]
    exact ih _ fun place hPlace => h place (Nat.le_trans (Nat.le_add_right _ _) hPlace)

/-- The pieces with another one at a place. -/
def change (pieces : Pieces) (place size count : Nat) (hPos : 0 < count) (hLe : count ≤ size) :
    Pieces where
  count place' size' :=
    if place' = place ∧ size' = size then count else pieces.count place' size'
  count_pos place' size' h := by
    split
    · exact hPos
    · exact pieces.count_pos place' size' h
  count_le place' size' := by
    split
    · omega
    · exact pieces.count_le place' size'

end Pieces

/-- In every run the calls are answered as some `Pieces` answers them. -/
theorem Run.exists_pieces {p : Reader β α} {rest rest' : List β} {a : α} (h : Run p rest a rest')
    (place : Nat) :
    ∃ (pieces : Pieces) (place' : Nat), pieces.run p ⟨place, rest⟩ = (a, ⟨place', rest'⟩) := by
  induction h generalizing place with
  | done => exact ⟨.whole, place, rfl⟩
  | @call size next rest data rest' rest'' a hAnswer _ ih =>
    rcases hAnswer with ⟨rfl, hLe, hEmpty⟩
    rcases ih (place + data.length) with ⟨pieces, place', hRun⟩
    cases data with
    | nil =>
      have hNone : pieces.answer size ⟨place, rest'⟩ = [] := by
        rcases hEmpty rfl with rfl | hRest
        · have := pieces.count_le place 0
          simp [Pieces.answer]
          omega
        · simp [Pieces.answer, show rest' = [] from hRest]
      refine ⟨pieces, place', ?_⟩
      rw [List.nil_append, Pieces.run, hNone]
      exact hRun
    | cons b data =>
      have hPos : 0 < (b :: data).length := Nat.succ_pos _
      refine ⟨pieces.change place size (b :: data).length hPos hLe, place', ?_⟩
      have hGiven : (pieces.change place size (b :: data).length hPos hLe).answer size
          ⟨place, b :: data ++ rest'⟩ = b :: data := by
        simp [Pieces.answer, Pieces.change]
      rw [Pieces.run, hGiven, Unread.skip_append, ← hRun]
      refine Pieces.run_congr _ fun place'' hPlace => ?_
      funext size'
      have hNe : place'' ≠ place := by
        rintro rfl
        have hBehind : place'' + (b :: data).length ≤ place'' := hPlace
        omega
      simp [Pieces.change, hNe]

end LogSocket.Lib
