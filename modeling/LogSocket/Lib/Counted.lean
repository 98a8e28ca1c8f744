import Mathlib.Data.List.Basic

/-! Trees written front to back: a node is a head, which says how many children there are, and then
the children. A reader needs no end marks. It keeps the nodes that it is in as frames, and gives each
tree that is complete to the innermost one with `close`. What the frames have been written with is a
front of a tree. -/

namespace LogSocket.Lib

variable {τ κ β : Type}

/-- How trees are written: a leaf, the head of a node of some kind below `depth` others with so many
children, and the node that its children make up. -/
structure Grammar (τ κ β : Type) where
  Leaf : τ → List β → Prop
  Head (depth : Nat) : κ → Nat → List β → Prop
  node : κ → List τ → τ

/-- A node that still lacks some of its children. -/
structure Frame (τ κ : Type) where
  kind : κ
  missing : Nat
  children : List τ

namespace Grammar

mutual

/-- A tree below `depth` nodes and what is written for it. -/
inductive Spells (g : Grammar τ κ β) : Nat → τ → List β → Prop
  | leaf {depth : Nat} {t : τ} {b : List β} : g.Leaf t b → Spells g depth t b
  | node {depth : Nat} {kind : κ} {ts : List τ} {head b : List β} :
      g.Head depth kind ts.length head → SpellsAll g (depth + 1) ts b →
      Spells g depth (g.node kind ts) (head ++ b)

inductive SpellsAll (g : Grammar τ κ β) : Nat → List τ → List β → Prop
  | nil {depth : Nat} : SpellsAll g depth [] []
  | cons {depth : Nat} {t : τ} {ts : List τ} {b bs : List β} :
      Spells g depth t b → SpellsAll g depth ts bs → SpellsAll g depth (t :: ts) (b ++ bs)

end

variable (g : Grammar τ κ β)

/-- What becomes of a tree that is complete: it may complete the node that it is in, and so on, up to
the outermost one. -/
def close : List (Frame τ κ) → τ → τ ⊕ List (Frame τ κ)
  | [], t => .inl t
  | frame :: frames, t =>
    if frame.missing = 1 then close frames (g.node frame.kind (frame.children ++ [t]))
    else .inr ({ frame with missing := frame.missing - 1, children := frame.children ++ [t] } :: frames)

/-- What frames have been written with. -/
inductive Open : List (Frame τ κ) → List β → Prop
  | nil : Open [] []
  | cons {frames : List (Frame τ κ)} {kind : κ} {missing : Nat} {ts : List τ} {before head b : List β} :
      Open frames before → g.Head frames.length kind (ts.length + missing) head →
      g.SpellsAll (frames.length + 1) ts b → 0 < missing →
      Open (⟨kind, missing, ts⟩ :: frames) (before ++ (head ++ b))

variable {g} {t t' : τ} {ts : List τ} {b bs written : List β} {depth : Nat}
  {frames frames' : List (Frame τ κ)}

theorem Spells.empty {kind : κ} (hHead : g.Head depth kind 0 b) : g.Spells depth (g.node kind []) b := by
  have h : g.Spells depth (g.node kind []) (b ++ []) := .node hHead .nil
  rwa [List.append_nil] at h

theorem SpellsAll.append {ts' : List τ} {bs' : List β} (hAll : g.SpellsAll depth ts bs)
    (hAll' : g.SpellsAll depth ts' bs') : g.SpellsAll depth (ts ++ ts') (bs ++ bs') := by
  induction ts generalizing bs with
  | nil =>
    cases hAll
    exact hAll'
  | cons t ts ih =>
    cases hAll with
    | cons hFirst hRest =>
      rw [List.append_assoc]
      exact .cons hFirst (ih hRest)

theorem SpellsAll.concat (hAll : g.SpellsAll depth ts bs) (h : g.Spells depth t b) :
    g.SpellsAll depth (ts ++ [t]) (bs ++ b) := by
  have hOne := SpellsAll.cons h .nil
  rw [List.append_nil] at hOne
  exact hAll.append hOne

/-- The node of a frame that lacks one child, with that child. -/
theorem SpellsAll.complete {kind : κ} {head : List β} (hAll : g.SpellsAll (depth + 1) ts bs)
    (hHead : g.Head depth kind (ts.length + 1) head) (h : g.Spells (depth + 1) t b) :
    g.Spells depth (g.node kind (ts ++ [t])) (head ++ (bs ++ b)) := by
  refine .node ?_ (hAll.concat h)
  rwa [List.length_append, List.length_singleton]

/-- Closing the outermost node completes a tree. -/
theorem close_inl (hOpen : g.Open frames written) (h : g.Spells frames.length t b)
    (hClose : g.close frames t = .inl t') : g.Spells 0 t' (written ++ b) := by
  induction hOpen generalizing t b with
  | nil =>
    cases hClose
    exact h
  | @cons frames kind missing ts before head bs _ hHead hAll _ ih =>
    rw [close] at hClose
    split at hClose
    next hLast =>
      obtain rfl : missing = 1 := hLast
      have hWhole := ih (hAll.complete hHead h) hClose
      simpa [List.append_assoc] using hWhole
    next => cases hClose

/-- After any other tree, frames are still open. -/
theorem close_inr (hOpen : g.Open frames written) (h : g.Spells frames.length t b)
    (hClose : g.close frames t = .inr frames') : g.Open frames' (written ++ b) := by
  induction hOpen generalizing t b with
  | nil => cases hClose
  | @cons frames kind missing ts before head bs hRest hHead hAll hMissing ih =>
    rw [close] at hClose
    split at hClose
    next hLast =>
      obtain rfl : missing = 1 := hLast
      have hOpen := ih (hAll.complete hHead h) hClose
      simpa [List.append_assoc] using hOpen
    next hMore =>
      have hMore : missing ≠ 1 := hMore
      cases hClose
      rw [List.append_assoc, List.append_assoc]
      refine .cons hRest ?_ (hAll.concat h) (by dsimp only; omega)
      rw [List.length_append, List.length_singleton]
      dsimp only
      rwa [show ts.length + 1 + (missing - 1) = ts.length + missing by omega]

/-- The frames that are left lack some children, as those before did. -/
theorem close_missing (hMissing : ∀ frame ∈ frames, 0 < frame.missing)
    (hClose : g.close frames t = .inr frames') : ∀ frame ∈ frames', 0 < frame.missing := by
  induction frames generalizing t with
  | nil => cases hClose
  | cons frame frames ih =>
    rw [List.forall_mem_cons] at hMissing
    rw [close] at hClose
    split at hClose
    · exact ih hMissing.2 hClose
    next hMore =>
      cases hClose
      rw [List.forall_mem_cons]
      refine ⟨?_, hMissing.2⟩
      dsimp only
      omega

section

variable (g)

/-- What a reader goes on with after a tree that is complete. -/
def After (Reads : List (Frame τ κ) → List β → Prop) (Done : τ → List β → Prop)
    (frames : List (Frame τ κ)) (t : τ) (rest : List β) : Prop :=
  match g.close frames t with
  | .inl t => Done t rest
  | .inr frames => Reads frames rest

/-- A reader, backwards: what holds after a leaf or a head holds in front of it. -/
structure Reader (Reads : List (Frame τ κ) → List β → Prop) (Done : τ → List β → Prop) : Prop where
  leaf {frames : List (Frame τ κ)} {t : τ} {b rest : List β} : g.Leaf t b →
    g.After Reads Done frames t rest → Reads frames (b ++ rest)
  empty {frames : List (Frame τ κ)} {kind : κ} {head rest : List β} :
    g.Head frames.length kind 0 head → g.After Reads Done frames (g.node kind []) rest →
    Reads frames (head ++ rest)
  node {frames : List (Frame τ κ)} {kind : κ} {missing : Nat} {head rest : List β} :
    g.Head frames.length kind (missing + 1) head →
    Reads (⟨kind, missing + 1, []⟩ :: frames) rest → Reads frames (head ++ rest)

end

variable {Reads : List (Frame τ κ) → List β → Prop} {Done : τ → List β → Prop} {rest : List β}

mutual

/-- A reader takes what is written for a tree as that tree. -/
theorem Spells.reads (hReader : g.Reader Reads Done) :
    ∀ {depth : Nat} {t : τ} {b : List β}, g.Spells depth t b → ∀ {frames rest},
      frames.length = depth → g.After Reads Done frames t rest → Reads frames (b ++ rest)
  | _, _, _, .leaf h, _, _, _, hAfter => hReader.leaf h hAfter
  | _, _, _, @Spells.node _ _ _ _ _ _ [] _ _ hHead .nil, _, _, hDepth, hAfter => by
    rw [List.append_nil]
    exact hReader.empty (hDepth ▸ hHead) hAfter
  | _, _, _, @Spells.node _ _ _ _ _ _ (_ :: ts) _ _ hHead hAll, _, _, hDepth, hAfter => by
    rw [List.append_assoc]
    refine hReader.node (hDepth ▸ hHead) ?_
    refine hAll.reads hReader (congrArg (· + 1) hDepth) (Nat.succ_pos ts.length) ?_ ?_ (Nat.le_refl _)
    · intro _
      exact hAfter
    · intro hLt
      exact absurd hLt (Nat.lt_irrefl _)

/-- The children that a node still lacks, or the first of them. -/
theorem SpellsAll.reads (hReader : g.Reader Reads Done) :
    ∀ {depth : Nat} {ts : List τ} {b : List β}, g.SpellsAll depth ts b →
      ∀ {frames kind missing front rest}, frames.length + 1 = depth → 0 < missing →
        (ts.length = missing → g.After Reads Done frames (g.node kind (front ++ ts)) rest) →
        (ts.length < missing →
          Reads (⟨kind, missing - ts.length, front ++ ts⟩ :: frames) rest) →
        ts.length ≤ missing → Reads (⟨kind, missing, front⟩ :: frames) (b ++ rest)
  | _, _, _, .nil, _, _, _, _, _, _, hPos, _, hMore, _ => by
    have hReads := hMore hPos
    rwa [List.append_nil] at hReads
  | _, _, _, @SpellsAll.cons _ _ _ _ _ t ts b bs h hAll, frames, kind, missing, front, rest, hDepth,
      hPos, hLast, hMore, hLe => by
    rw [List.length_cons] at hLast hMore hLe
    rw [List.append_assoc]
    refine h.reads hReader hDepth ?_
    rw [After, close]
    by_cases hOne : missing = 1
    · rw [if_pos hOne]
      have hNil : ts = [] := List.eq_nil_of_length_eq_zero (by omega)
      subst hNil
      cases hAll
      exact hLast hOne.symm
    · rw [if_neg hOne]
      refine hAll.reads hReader hDepth (by dsimp only; omega) (fun hEq => ?_) (fun hLt => ?_) ?_
      · have hReads := hLast (by dsimp only at hEq; omega)
        rwa [List.append_cons] at hReads
      · have hReads := hMore (by dsimp only at hLt; omega)
        rwa [List.append_cons, show missing - (ts.length + 1) = missing - 1 - ts.length by omega]
          at hReads
      · dsimp only
        omega

end

/-! The other way: what a reader that comes to no other end has had in front of it. -/

section

variable {Reads' : List (Frame τ κ) → List β → Prop} {Done' : τ → List β → Prop}

/-- Leaves and heads are not empty. -/
structure Solid (g : Grammar τ κ β) : Prop where
  leaf {t : τ} {b : List β} : g.Leaf t b → 0 < b.length
  head {depth : Nat} {kind : κ} {n : Nat} {b : List β} : g.Head depth kind n b → 0 < b.length

theorem Solid.spells (h : g.Solid) (hSpells : g.Spells depth t b) : 0 < b.length := by
  cases hSpells with
  | leaf hLeaf => exact h.leaf hLeaf
  | node hHead =>
    have hPos := h.head hHead
    rw [List.length_append]
    omega

/-- What there is in front of a reader below `depth` nodes. -/
inductive Next (g : Grammar τ κ β) (Stuck : Prop) (depth : Nat) (data : List β) : Prop
  | stuck : Stuck → Next g Stuck depth data
  | leaf {t : τ} {b rest : List β} : data = b ++ rest → g.Leaf t b → Next g Stuck depth data
  | head {kind : κ} {n : Nat} {b rest : List β} : data = b ++ rest → g.Head depth kind n b →
    Next g Stuck depth data

theorem Next.imp {Stuck Stuck' : Prop} {data : List β} (h : g.Next Stuck depth data)
    (hStuck : Stuck → Stuck') : g.Next Stuck' depth data := by
  cases h with
  | stuck h => exact .stuck (hStuck h)
  | leaf hData h => exact .leaf hData h
  | head hData h => exact .head hData h

theorem Open.head {kind : κ} {missing : Nat} (hOpen : g.Open frames written)
    (hHead : g.Head frames.length kind (missing + 1) b) :
    g.Open (⟨kind, missing + 1, []⟩ :: frames) (written ++ b) := by
  have h : g.Open (⟨kind, missing + 1, []⟩ :: frames) (written ++ (b ++ [])) :=
    .cons hOpen (by rwa [List.length_nil, Nat.zero_add]) .nil (Nat.succ_pos missing)
  rwa [List.append_nil] at h

/-- A reader that is not stuck sooner or later has read a tree. -/
theorem Reader.sound (hReader : g.Reader Reads Done) (hSolid : g.Solid)
    (hNext : ∀ frames data, g.Next (Reads frames data) frames.length data)
    (hOpen : g.Open frames written) (data : List β) :
    Reads frames data ∨ ∃ t b rest, data = b ++ rest ∧ g.Spells 0 t (written ++ b) := by
  induction hLength : data.length using Nat.strongRecOn generalizing data frames written with
  | ind length ih =>
    -- a tree of its own, read as `b`: the node around it may be complete now
    have hTree {t : τ} {b rest : List β} (hData : data = b ++ rest) (hPos : 0 < b.length)
        (h : g.Spells frames.length t b)
        (hReads : g.After Reads Done frames t rest → Reads frames (b ++ rest)) :
        Reads frames data ∨ ∃ t b rest, data = b ++ rest ∧ g.Spells 0 t (written ++ b) := by
      subst hData
      rw [List.length_append] at hLength
      cases hClose : g.close frames t with
      | inl t' => exact .inr ⟨t', b, rest, rfl, close_inl hOpen h hClose⟩
      | inr frames' =>
        obtain hRest | ⟨t', b', rest', rfl, hSpells⟩ :=
          ih rest.length (by omega) (close_inr hOpen h hClose) rest rfl
        · refine .inl (hReads ?_)
          rw [After, hClose]
          exact hRest
        · rw [List.append_assoc] at hSpells
          exact .inr ⟨t', b ++ b', rest', (List.append_assoc ..).symm, hSpells⟩
    cases hNext frames data with
    | stuck h => exact .inl h
    | leaf hData h => exact hTree hData (hSolid.leaf h) (.leaf h) (hReader.leaf h)
    | @head kind n b rest hData h =>
      have hPos := hSolid.head h
      cases n with
      | zero =>
        exact hTree hData hPos (.empty h) (hReader.empty h)
      | succ missing =>
        subst hData
        rw [List.length_append] at hLength
        obtain hRest | ⟨t', b', rest', rfl, hSpells⟩ :=
          ih rest.length (by omega) (hOpen.head h) rest rfl
        · exact .inl (hReader.node h hRest)
        · rw [List.append_assoc] at hSpells
          exact .inr ⟨t', b ++ b', rest', (List.append_assoc ..).symm, hSpells⟩

theorem After.or
    (h : g.After (fun frames b => Reads frames b ∨ Reads' frames b) (fun t b => Done t b ∨ Done' t b)
      frames t rest) : g.After Reads Done frames t rest ∨ g.After Reads' Done' frames t rest := by
  unfold After at h ⊢
  cases hClose : g.close frames t with
  | inl t' =>
    rw [hClose] at h
    exact h
  | inr frames' =>
    rw [hClose] at h
    exact h

/-- Two readers as one, which does what one of them does. -/
theorem Reader.or (h : g.Reader Reads Done) (h' : g.Reader Reads' Done') :
    g.Reader (fun frames b => Reads frames b ∨ Reads' frames b) fun t b => Done t b ∨ Done' t b where
  leaf hLeaf hAfter := hAfter.or.imp (h.leaf hLeaf) (h'.leaf hLeaf)
  empty hHead hAfter := hAfter.or.imp (h.empty hHead) (h'.empty hHead)
  node hHead hReads := hReads.imp (h.node hHead) (h'.node hHead)

end

/-! Fronts of what is written for trees. -/

section

variable {leaf : τ} {front : List β}

theorem SpellsAll.replicate (h : g.Spells depth t b) (n : Nat) :
    g.SpellsAll depth (List.replicate n t) (List.replicate n b).flatten := by
  induction n with
  | zero => exact .nil
  | succ n ih => exact .cons h ih

/-- A tree inside of frames: with leaves for what is missing, the outermost node is complete. -/
theorem Open.completes (hLeaf : g.Leaf leaf front) (hOpen : g.Open frames written)
    (h : g.Spells frames.length t b) : ∃ more t', g.Spells 0 t' (written ++ (b ++ more)) := by
  induction hOpen generalizing t b with
  | nil => exact ⟨[], t, by rwa [List.append_nil]⟩
  | @cons frames kind missing ts before head bs _ hHead hAll hMissing ih =>
    have hChildren := (hAll.concat h).append (.replicate (.leaf hLeaf) (missing - 1))
    have hNode := Spells.node (by
      rw [List.length_append, List.length_append, List.length_singleton, List.length_replicate,
        show ts.length + 1 + (missing - 1) = ts.length + missing by omega]
      exact hHead) hChildren
    obtain ⟨more, t', hWhole⟩ := ih hNode
    refine ⟨(List.replicate (missing - 1) front).flatten ++ more, t', ?_⟩
    simpa only [List.append_assoc] using hWhole

theorem close_length (hClose : g.close frames t = .inr frames') : frames'.length ≤ frames.length := by
  induction frames generalizing t with
  | nil => cases hClose
  | cons frame frames ih =>
    rw [close] at hClose
    split at hClose
    · exact Nat.le_succ_of_le (ih hClose)
    · cases hClose
      exact Nat.le_refl _

/-- More data completes the outermost node. `bound` is how deep nodes may lie. -/
def Completable (g : Grammar τ κ β) (bound : Nat) (frames : List (Frame τ κ)) (data : List β) : Prop :=
  frames.length + data.length ≤ bound → ∀ written, g.Open frames written →
    ∃ more t, g.Spells 0 t (written ++ (data ++ more))

theorem completable_tree {bound : Nat} (h : g.Spells frames.length t b)
    (hAfter : g.After (g.Completable bound) (fun _ _ => False) frames t rest) :
    g.Completable bound frames (b ++ rest) := by
  intro hBound written hOpen
  rw [After] at hAfter
  rw [List.length_append] at hBound
  cases hClose : g.close frames t with
  | inl t' =>
    rw [hClose] at hAfter
    exact hAfter.elim
  | inr frames' =>
    rw [hClose] at hAfter
    have hLe := close_length hClose
    obtain ⟨more, t', hSpells⟩ := hAfter (by omega) _ (close_inr hOpen h hClose)
    refine ⟨more, t', ?_⟩
    simpa only [List.append_assoc] using hSpells

/-- What completes the rest completes all of it. -/
theorem completable_reader (hSolid : g.Solid) (bound : Nat) :
    g.Reader (g.Completable bound) fun _ _ => False where
  leaf hLeaf := completable_tree (.leaf hLeaf)
  empty hHead := completable_tree (.empty hHead)
  node {frames kind missing head rest} hHead hRest := by
    intro hBound written hOpen
    have hPos := hSolid.head hHead
    rw [List.length_append] at hBound
    obtain ⟨more, t', hSpells⟩ := hRest (by rw [List.length_cons]; omega) _ (hOpen.head hHead)
    refine ⟨more, t', ?_⟩
    simpa only [List.append_assoc] using hSpells

end

end Grammar

end LogSocket.Lib
