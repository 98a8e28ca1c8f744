import LogSocket.Hierarchy

/-! The links of a repository in every state that it can come to. A logger's parent is the nearest
logger that there is, in whatever order they were asked for, except that a logger whose name the
name of the root starts with is passed over by those that were there before it. -/

namespace LogSocket.Hierarchy

open Lib

/-! The loop of `updateParents`. -/

/-- The ancestors of a name, by the dots in it. -/
abbrev above (name : LogString) : List LogString := ancestors 0x2E name

/-- Where `find_last_of` finds the dot behind an ancestor. -/
def position : Option LogString → UInt64
  | none => npos
  | some a => UInt64.ofNat a.length

theorem lastIndexOf_above (name : LogString) :
    lastIndexOf 0x2E name = (above name).head?.map List.length := by
  induction name with
  | nil => rfl
  | cons c cs ih =>
    have hCons : above (c :: cs) = (above cs).map (c :: ·) ++ if c = 0x2E then [[]] else [] := rfl
    rw [lastIndexOf, ih, hCons, List.head?_append, List.head?_map]
    cases (above cs).head? with
    | some a => rfl
    | none =>
      change (if c = 0x2E then some 0 else none) = _
      split <;> rfl

theorem findLastOf_above (name : LogString) (pos : UInt64) :
    findLastOf name 0x2E pos = position (above (name.take (pos.toNat + 1))).head? := by
  rw [findLastOf, lastIndexOf_above]
  cases (above (name.take (pos.toNat + 1))).head? <;> rfl

theorem lastPos_toNat {name : LogString} (h : name.length < 2 ^ 32) :
    name.length ≤ (lastPos name).toNat + 1 := by
  have hBits (x : Int64) : (x.toUInt64.toNat : Int) = x.toInt % 2 ^ 64 := by
    have hNat : x.toInt = (x.toUInt64.toNat : Int).bmod (2 ^ 64) := BitVec.toInt_eq_toNat_bmod _
    have hLt := x.toUInt64.toNat_lt
    rw [Int.bmod_def] at hNat
    omega
  have hLast : ((lastPos name).toNat : Int) = (Int32.ofNat name.length - 1).toInt % 2 ^ 64 := by
    rw [lastPos, hBits, Int32.toInt_toInt64]
  have hInt : (Int32.ofNat name.length - 1).toInt = ((name.length : Int) - 1).bmod (2 ^ 32) := by
    simp
  rw [hInt, Int.bmod_def] at hLast
  split at hLast <;> omega

/-- The search starts at the last dot of a name. -/
theorem findLastOf_lastPos {name : LogString} (h : name.length < 2 ^ 32) :
    findLastOf name 0x2E (lastPos name) = position (above name).head? := by
  rw [findLastOf_above, List.take_of_length_le (lastPos_toNat h)]

section

variable {name a : LogString} (hSize : name.length < 2 ^ 32) (ha : a ∈ above name)
include hSize ha

theorem position_toNat : (position (some a)).toNat = a.length := by
  have := length_lt_of_mem_ancestors ha
  rw [position, UInt64.toNat_ofNat', Nat.mod_eq_of_lt (by omega)]

theorem position_ne_npos : position (some a) ≠ npos := by
  intro h
  have hNat := position_toNat hSize ha
  have := length_lt_of_mem_ancestors ha
  rw [h, show npos.toNat = 2 ^ 64 - 1 from rfl] at hNat
  omega

theorem substr_position : substr name 0 (position (some a)) = .ok a := by
  obtain ⟨rest, rfl⟩ := mem_ancestors.mp ha
  rw [substr_eq (Nat.zero_le _), position_toNat hSize ha]
  simp

/-- From the dot behind an ancestor the search goes on at the last dot of the ancestor. -/
theorem findLastOf_position (hne : a ≠ []) :
    findLastOf name 0x2E (position (some a) - 1) = position (above a).head? := by
  have hPos := List.length_pos_iff.mpr hne
  have hNat := position_toNat hSize ha
  have hPred : (position (some a) - 1).toNat + 1 = a.length := by
    rw [UInt64.toNat_sub_of_le _ _ (UInt64.le_iff_toNat_le.mpr (by rw [hNat]; exact hPos)), hNat]
    exact Nat.sub_add_cancel hPos
  obtain ⟨rest, rfl⟩ := mem_ancestors.mp ha
  rw [findLastOf_above, hPred, List.take_left]

end

/-- From a dot in front of everything it starts over. -/
theorem findLastOf_zero (name : LogString) (hSize : name.length < 2 ^ 32) :
    findLastOf name 0x2E (position (some []) - 1) = position (above name).head? := by
  rw [findLastOf_above, List.take_of_length_le]
  rw [show (position (some []) - 1).toNat = 2 ^ 64 - 1 from rfl]
  omega

local instance : Std.IsPreorder UInt8 := byteOrder

/-- The lists on which a name waits for each of some ancestors. -/
def provision (name : LogString) (names : List LogString) (nodes : ProvisionNodes) :
    ProvisionNodes :=
  names.foldl (fun nodes a => nodes.insert a ((nodes.find? a).getD [] ++ [name])) nodes

/-- The list of those that wait for a logger. -/
def waiting (nodes : ProvisionNodes) (a : LogString) : List LogString := (nodes.find? a).getD []

theorem mem_waiting_provision {name : LogString} {names : List LogString} {nodes : ProvisionNodes}
    {a n : LogString} : n ∈ waiting (provision name names nodes) a ↔
      n ∈ waiting nodes a ∨ n = name ∧ a ∈ names := by
  induction names generalizing nodes with
  | nil => simp [provision]
  | cons b names ih =>
    rw [provision, List.foldl_cons, ← provision, ih, List.mem_cons]
    by_cases hab : a = b
    · subst hab
      simp [waiting]
      grind
    · rw [waiting, SortedMap.find?_insert_of_ne hab, ← waiting]
      simp [hab]

section

variable {loggers : SortedMap LogString Logger} {name : LogString}

/-- A logger of a name. -/
def there (loggers : SortedMap LogString Logger) (a : LogString) : Bool :=
  (loggers.find? a).isSome

theorem turn_npos (nodes : ProvisionNodes) :
    updateParentsTurn loggers name (npos, nodes) = .ok (.inr (none, nodes)) := rfl

variable {a : LogString} (hSize : name.length < 2 ^ 32) (ha : a ∈ above name)
include hSize ha

theorem turn_there (hThere : there loggers a = true) (nodes : ProvisionNodes) :
    updateParentsTurn loggers name (position (some a), nodes) =
      .ok (.inr (some (.named a), nodes)) := by
  obtain ⟨logger, hLogger⟩ := Option.isSome_iff_exists.mp hThere
  rw [updateParentsTurn, if_neg (position_ne_npos hSize ha), substr_position hSize ha, ok_bind,
    hLogger]
  rfl

theorem turn_waits (hThere : there loggers a = false) (nodes : ProvisionNodes) :
    updateParentsTurn loggers name (position (some a), nodes) =
      .ok (.inl (findLastOf name 0x2E (position (some a) - 1), provision name [a] nodes)) := by
  have hNone : loggers.find? a = none := by simpa [there] using hThere
  rw [updateParentsTurn, if_neg (position_ne_npos hSize ha), substr_position hSize ha, ok_bind,
    hNone]
  rfl

end

section

variable {loggers : SortedMap LogString Logger} {name : LogString} (hSize : name.length < 2 ^ 32)
include hSize

/-- The loop leaves with the nearest logger, if there is one or no dot stands in front of the name;
the name then waits for what it has gone past. -/
theorem loop_leaves {names : List LogString} (hNames : names <:+ above name)
    (hEnds : closest 0x2E (there loggers) name ≠ none ∨ [] ∉ above name)
    (hPast : ∀ a ∈ above name, a ∉ names → there loggers a = false) {fuel : Nat}
    (hFuel : names.length < fuel) (nodes : ProvisionNodes) :
    loop (updateParentsTurn loggers name) .hang fuel (position names.head?, nodes) =
      .ok ((names.find? (there loggers)).map .named,
        provision name (names.takeWhile (!there loggers ·)) nodes) := by
  induction names generalizing fuel nodes with
  | nil =>
    obtain ⟨fuel, rfl⟩ := Nat.exists_eq_succ_of_ne_zero hFuel.ne'
    exact loop_succ_of_done (turn_npos nodes) fuel
  | cons a names ih =>
    obtain ⟨fuel, rfl⟩ := Nat.exists_eq_succ_of_ne_zero (Nat.zero_lt_of_lt hFuel).ne'
    have ha : a ∈ above name := hNames.subset List.mem_cons_self
    obtain rfl : names = above a := ancestors_suffix hNames
    rw [List.head?_cons]
    cases hThere : there loggers a with
    | true =>
      rw [loop_succ_of_done (turn_there hSize ha hThere nodes), List.find?_cons_of_pos hThere,
        List.takeWhile_cons_of_neg (by simp [hThere])]
      rfl
    | false =>
      have hne : a ≠ [] := by
        rintro rfl
        refine hEnds.elim (fun h => h (closest_eq_none.mpr fun b hb => ?_)) fun h => h ha
        by_cases hEmpty : b = []
        · rwa [hEmpty]
        · exact hPast b hb (by simpa using hEmpty)
      rw [loop_succ_of_next (turn_waits hSize ha hThere nodes), findLastOf_position hSize ha hne,
        ih ((List.suffix_cons a _).trans hNames) (fun b hb hNot => ?_)
          (by simpa using hFuel), List.find?_cons_of_neg (by simp [hThere]),
        List.takeWhile_cons_of_pos (by simp [hThere])]
      · rfl
      · by_cases hEq : b = a
        · rwa [hEq]
        · exact hPast b hb (by simp [hEq, hNot])

/-- Where neither is so it never leaves. -/
theorem loop_hangs (hNone : closest 0x2E (there loggers) name = none) (hDot : [] ∈ above name)
    (fuel : Nat) (nodes : ProvisionNodes) :
    loop (updateParentsTurn loggers name) .hang fuel (position (above name).head?, nodes) =
      .error .hang := by
  rw [closest_eq_none] at hNone
  apply loop_never (I := fun s => ∃ a ∈ above name, s.1 = position (some a))
  · rintro ⟨_, nodes⟩ ⟨a, ha, rfl⟩
    have hNext : ∃ b ∈ above name,
        findLastOf name 0x2E (position (some a) - 1) = position (some b) := by
      by_cases hEmpty : a = []
      · rw [hEmpty, findLastOf_zero name hSize]
        cases hHead : (above name).head? with
        | none => simp [List.head?_eq_none_iff.mp hHead] at hDot
        | some b => exact ⟨b, List.mem_of_head? hHead, rfl⟩
      · rw [findLastOf_position hSize ha hEmpty]
        cases hHead : (above a).head? with
        | none =>
          rw [List.head?_eq_none_iff] at hHead
          obtain h | h | h := ancestors_total hDot ha
          · exact absurd h.symm hEmpty
          · simp [hHead] at h
          · simp at h
        | some b => exact ⟨b, mem_ancestors_trans (List.mem_of_head? hHead) ha, rfl⟩
    obtain ⟨b, hb, hNext⟩ := hNext
    exact ⟨_, turn_waits hSize ha (hNone a ha) nodes, b, hb, hNext⟩
  · cases hHead : (above name).head? with
    | none => simp [List.head?_eq_none_iff.mp hHead] at hDot
    | some b => exact ⟨b, List.mem_of_head? hHead, rfl⟩

end

/-! What a call of `getLogger` changes. -/

section modify

variable (h : Hierarchy) (name : LogString) (f : Logger → Logger)

@[simp] theorem modify_root : (h.modify name f).root = h.root := by
  unfold modify
  split <;> rfl

@[simp] theorem modify_provisionNodes :
    (h.modify name f).provisionNodes = h.provisionNodes := by
  unfold modify
  split <;> rfl

@[simp] theorem find?_modify_self :
    (h.modify name f).loggers.find? name = (h.loggers.find? name).map f := by
  unfold modify
  split
  next hNone => simp [hNone]
  next hSome => simp [hSome]

theorem find?_modify_of_ne {n : LogString} (hne : n ≠ name) :
    (h.modify name f).loggers.find? n = h.loggers.find? n := by
  unfold modify
  split
  · rfl
  · exact SortedMap.find?_insert_of_ne hne

end modify

/-- A logger that waited for `name` points to it, unless it points to a lower parent. -/
def relink (name : LogString) (waited : Bool) (logger : Logger) : Logger :=
  if waited && !name.isPrefixOf logger.parent.name then { logger with parent := .named name }
  else logger

@[simp] theorem relink_false (name : LogString) : relink name false = id := rfl

theorem relink_of_lower {name : LogString} {logger : Logger}
    (h : name.isPrefixOf logger.parent.name = true) (waited : Bool) :
    relink name waited logger = logger := by
  simp [relink, h]

theorem relink_of_not_lower {name : LogString} {logger : Logger}
    (h : name.isPrefixOf logger.parent.name = false) :
    relink name true logger = { logger with parent := .named name } := by
  simp [relink, h]

theorem relink_relink (name : LogString) (waited waited' : Bool) (logger : Logger) :
    relink name waited (relink name waited' logger) = relink name (waited' || waited) logger := by
  cases waited' with
  | false => rfl
  | true =>
    rw [Bool.true_or]
    cases hLower : name.isPrefixOf logger.parent.name with
    | true => simp only [relink_of_lower hLower]
    | false =>
      rw [relink_of_not_lower hLower]
      exact relink_of_lower (by simp [LoggerPtr.name]) waited

/-- A repository in which some that waited for `name` have been relinked. -/
structure Relinked (name : LogString) (waited : LogString → Bool) (h h' : Hierarchy) : Prop where
  root : h'.root = h.root
  provisionNodes : h'.provisionNodes = h.provisionNodes
  other {n : LogString} : n ≠ name →
    h'.loggers.find? n = (h.loggers.find? n).map (relink name (waited n))
  self : ∃ parent, h'.loggers.find? name =
    (h.loggers.find? name).map fun logger => { logger with parent }

theorem Relinked.same {h : Hierarchy} {name : LogString} {waited : LogString → Bool}
    (hSame : ∀ n logger, h.loggers.find? n = some logger → relink name (waited n) logger = logger) :
    Relinked name waited h h where
  root := rfl
  provisionNodes := rfl
  other {n} _ := by
    cases hFind : h.loggers.find? n with
    | none => rfl
    | some logger => exact congrArg some (hSame n logger hFind).symm
  self := by
    cases h.loggers.find? name with
    | none => exact ⟨.root, rfl⟩
    | some logger => exact ⟨logger.parent, rfl⟩

theorem updateChild_relinked (h : Hierarchy) {name child : LogString} (hne : child ≠ name) :
    Relinked name (fun n => decide (n = child)) h (h.updateChild name child) := by
  cases hChild : h.loggers.find? child with
  | none =>
    rw [updateChild, hChild]
    refine .same fun n logger hFind => ?_
    have hEq : n ≠ child := by
      rintro rfl
      simp [hChild] at hFind
    simp [hEq]
  | some logger =>
    rw [updateChild, hChild]
    dsimp only
    split
    next hLower =>
      refine .same fun n logger' hFind => ?_
      by_cases hEq : n = child
      · obtain rfl : logger = logger' := by simpa [hEq, hChild] using hFind
        exact relink_of_lower hLower _
      · simp [hEq]
    next hLower =>
      refine ⟨by simp [setParent], by simp [setParent], fun {n} hn => ?_, logger.parent, ?_⟩
      · by_cases hEq : n = child
        · subst hEq
          rw [setParent, find?_modify_self, setParent, find?_modify_of_ne _ _ _ hn, hChild]
          simp [relink, hLower]
        · rw [setParent, find?_modify_of_ne _ _ _ hEq, setParent, find?_modify_of_ne _ _ _ hn]
          simp [hEq]
      · rw [setParent, find?_modify_of_ne _ _ _ hne.symm, setParent, find?_modify_self]

theorem updateChildren_relinked (h : Hierarchy) {name : LogString} {node : List LogString}
    (hNot : name ∉ node) :
    Relinked name (fun n => decide (n ∈ node)) h (h.updateChildren node name) := by
  induction node generalizing h with
  | nil => exact .same fun _ _ _ => by simp
  | cons child node ih =>
    obtain ⟨hne, hNot⟩ := List.ne_and_not_mem_of_not_mem_cons hNot
    have hChild := updateChild_relinked h hne.symm
    have hRest := ih (h.updateChild name child) hNot
    rw [updateChildren, List.foldl_cons, ← updateChildren]
    refine ⟨hRest.root.trans hChild.root, hRest.provisionNodes.trans hChild.provisionNodes,
      fun {n} hn => ?_, ?_⟩
    · rw [hRest.other hn, hChild.other hn, Option.map_map]
      refine congrArg (Option.map · _) (funext fun logger => ?_)
      rw [Function.comp_apply, relink_relink]
      congr 1
      simp
    · obtain ⟨parent, hParent⟩ := hRest.self
      obtain ⟨parent', hParent'⟩ := hChild.self
      refine ⟨parent, ?_⟩
      rw [hParent, hParent', Option.map_map]
      rfl

/-- A repository with a new logger. -/
structure Added (name : LogString) (h h' : Hierarchy) : Prop where
  root : h'.root = h.root
  self : h'.loggers.find? name = some
    ⟨(closest 0x2E (there h.loggers) name).elim .root .named, none, true, []⟩
  other {n : LogString} : n ≠ name → h'.loggers.find? n =
    (h.loggers.find? n).map (relink name (decide (n ∈ waiting h.provisionNodes name)))
  waiting {a n : LogString} : n ∈ waiting h'.provisionNodes a ↔
    a ≠ name ∧ n ∈ waiting h.provisionNodes a ∨
      n = name ∧ a ∈ (above name).takeWhile (!there h.loggers ·)

theorem waiting_erase (nodes : ProvisionNodes) (name a : LogString) :
    waiting (nodes.erase name) a = if a = name then [] else waiting nodes a := by
  split
  next hEq => simp [waiting, hEq]
  next hne => simp [waiting, SortedMap.find?_erase_of_ne hne]

section getLogger

variable {h : Hierarchy} {name : LogString} (hNone : h.loggers.find? name = none)
include hNone

/-- What `updateParents` is given. -/
theorem getLogger_new (hWaits : name ∉ waiting h.provisionNodes name) (turns : Nat) :
    ∃ h' : Hierarchy, h.getLoggerFor turns name = h'.updateParents turns name ∧ h'.root = h.root ∧
      h'.provisionNodes = h.provisionNodes.erase name ∧
      (∃ parent, h'.loggers.find? name = some ⟨parent, none, true, []⟩) ∧
      ∀ n, n ≠ name → h'.loggers.find? n =
        (h.loggers.find? n).map (relink name (decide (n ∈ waiting h.provisionNodes name))) := by
  rw [getLoggerFor, hNone]
  dsimp only
  cases hNode : h.provisionNodes.find? name with
  | none =>
    refine ⟨_, rfl, rfl, (SortedMap.erase_of_none hNode).symm, ⟨.root, by simp⟩, fun n hn => ?_⟩
    rw [SortedMap.find?_insert_of_ne hn]
    simp [waiting, hNode]
  | some node =>
    have hWaiting : waiting h.provisionNodes name = node := by simp [waiting, hNode]
    rw [hWaiting] at hWaits
    have hRelinked := updateChildren_relinked
      { h with loggers := h.loggers.insert name ⟨.root, none, true, []⟩ } hWaits
    refine ⟨_, rfl, hRelinked.root, by rw [hRelinked.provisionNodes], ?_, fun n hn => ?_⟩
    · obtain ⟨parent, hParent⟩ := hRelinked.self
      exact ⟨parent, by simpa using hParent⟩
    · rw [hRelinked.other hn, hWaiting]
      simp only [SortedMap.find?_insert_of_ne hn]

variable (hSize : name.length < 2 ^ 32) (hWaits : name ∉ waiting h.provisionNodes name)
include hSize hWaits

/-- What the loop of `updateParents` sees of the loggers above a new one. -/
theorem getLogger_eq (turns : Nat) : ∃ h' : Hierarchy,
    h.getLoggerFor turns name = h'.updateParents turns name ∧
    h'.root = h.root ∧ h'.provisionNodes = h.provisionNodes.erase name ∧
    (∃ parent, h'.loggers.find? name = some ⟨parent, none, true, []⟩) ∧
    (∀ n, n ≠ name → h'.loggers.find? n =
      (h.loggers.find? n).map (relink name (decide (n ∈ waiting h.provisionNodes name)))) ∧
    ∀ a ∈ above name, there h'.loggers a = there h.loggers a := by
  obtain ⟨h', hEq, hRoot, hNodes, hSelf, hOther⟩ := getLogger_new hNone hWaits turns
  refine ⟨h', hEq, hRoot, hNodes, hSelf, hOther, fun a ha => ?_⟩
  rw [there, hOther a (by rintro rfl; exact not_mem_ancestors_self ha), Option.isSome_map, there]

/-- A call for a new logger returns where it has an ancestor or its name does not start with a dot. -/
theorem getLogger_added
    (hEnds : closest 0x2E (there h.loggers) name ≠ none ∨ [] ∉ above name) :
    ∃ h', h.getLogger name = .ok h' ∧ Added name h h' := by
  obtain ⟨h', hEq, hRoot, hNodes, ⟨parent, hSelf⟩, hOther, hAbove⟩ :=
    getLogger_eq hNone hSize hWaits (name.length + 2)
  have hNearest : closest 0x2E (there h'.loggers) name = closest 0x2E (there h.loggers) name :=
    closest_congr hAbove
  have hLoop := loop_leaves hSize List.suffix_rfl (hNearest ▸ hEnds)
    (fun a ha hNot => absurd ha hNot) (Nat.lt_of_le_of_lt (length_ancestors_le name)
      (show name.length < name.length + 2 by omega)) h'.provisionNodes
  have hVisited : (above name).takeWhile (!there h'.loggers ·) =
      (above name).takeWhile (!there h.loggers ·) := takeWhile_congr hAbove
  rw [← closest, hNearest, hVisited] at hLoop
  rw [getLogger, hEq, updateParents, findLastOf_lastPos hSize, hLoop, ok_bind]
  refine ⟨_, rfl, ?_, ?_, fun {n} hn => ?_, fun {a n} => ?_⟩
  · simp [setParent, hRoot]
  · rw [setParent]
    simp only [find?_modify_self, hSelf]
    cases closest 0x2E (there h.loggers) name <;> rfl
  · rw [setParent]
    dsimp only
    rw [find?_modify_of_ne _ _ _ hn, hOther n hn]
  · rw [mem_waiting_provision, hNodes, waiting_erase]
    split <;> simp_all

/-- Otherwise it does not, however many turns the loop is given. -/
theorem getLogger_hangs (hNearest : closest 0x2E (there h.loggers) name = none)
    (hDot : [] ∈ above name) (turns : Nat) : h.getLoggerFor turns name = .error .hang := by
  obtain ⟨h', hEq, -, -, -, -, hAbove⟩ := getLogger_eq hNone hSize hWaits turns
  rw [hEq, updateParents, findLastOf_lastPos hSize,
    loop_hangs hSize ((closest_congr hAbove).trans hNearest) hDot]
  rfl

end getLogger

/-! The links after any calls. -/

/-- The parent of a logger, where loggers were asked for in the order of `names`: the nearest that
there is, unless the name of the root starts with its name and it came later. -/
def link (names : List LogString) (name : LogString) : LoggerPtr :=
  match closest 0x2E (fun a => decide (a ∈ names)) name with
  | none => .root
  | some p => if p <+: rootName ∧ names.idxOf name < names.idxOf p then .root else .named p

/-- The loggers that have been asked for, their links, and who waits for whom. -/
structure Linked (names : List LogString) (h : Hierarchy) : Prop where
  mem (n : LogString) : there h.loggers n = decide (n ∈ names)
  parent {n : LogString} {logger : Logger} :
    h.loggers.find? n = some logger → logger.parent = link names n
  waits {a n : LogString} : a ∉ names → n ∈ names → a ∈ above n →
    n ∈ waiting h.provisionNodes a ∨ ∃ b ∈ names, b ∈ above n ∧ a ∈ above b
  named {a n : LogString} : n ∈ waiting h.provisionNodes a → n ∈ names ∧ a ∈ above n

theorem Linked.new : Linked [] .new where
  mem n := rfl
  parent h := by cases h
  waits _ h := by cases h
  named h := by cases h

/-- A name with a dot in it is not one that the name of the root starts with. -/
theorem not_prefix_rootName {a p : LogString} (h : a ∈ above p) : ¬p <+: rootName := by
  intro hPrefix
  obtain ⟨rest, rfl⟩ := mem_ancestors.mp h
  have hDot : (0x2E : UInt8) ∈ rootName := hPrefix.subset (by simp)
  exact absurd hDot (by decide)

theorem link_none {names : List LogString} {n : LogString}
    (h : closest 0x2E (fun a => decide (a ∈ names)) n = none) : link names n = .root := by
  rw [link, h]

theorem link_some {names : List LogString} {n p : LogString}
    (h : closest 0x2E (fun a => decide (a ∈ names)) n = some p) : link names n =
      if p <+: rootName ∧ names.idxOf n < names.idxOf p then .root else .named p := by
  rw [link, h]

section

variable {names : List LogString} {x n : LogString}

theorem idxOf_append (hn : n ∈ names) : (names ++ [x]).idxOf n = names.idxOf n :=
  List.idxOf_append_of_mem hn

theorem closest_append (hAbove : x ∉ above n) :
    closest 0x2E (fun a => decide (a ∈ names ++ [x])) n =
      closest 0x2E (fun a => decide (a ∈ names)) n :=
  closest_congr fun b hb => by
    have hne : b ≠ x := by rintro rfl; exact hAbove hb
    simp [hne]

variable (hx : x ∉ names)
include hx

/-- A new logger points to the nearest that there is. -/
theorem link_self :
    link (names ++ [x]) x = (closest 0x2E (fun a => decide (a ∈ names)) x).elim .root .named := by
  have hNearest : closest 0x2E (fun a => decide (a ∈ names ++ [x])) x = _ :=
    closest_append not_mem_ancestors_self
  cases hp : closest 0x2E (fun a => decide (a ∈ names)) x with
  | none => exact link_none (hNearest.trans hp)
  | some p =>
    have hMem : p ∈ names := by simpa using closest_there hp
    have hLt := List.idxOf_lt_length_iff.mpr hMem
    have hLate : (names ++ [x]).idxOf x = names.length := by
      rw [List.idxOf_append_of_notMem hx]
      simp
    rw [link_some (hNearest.trans hp), hLate, idxOf_append hMem, if_neg (by omega)]
    rfl

variable (hn : n ∈ names)
include hn

omit hx in
/-- A logger that is not below the new one keeps its link. -/
theorem link_of_not_above (hAbove : x ∉ above n) : link (names ++ [x]) n = link names n := by
  cases hp : closest 0x2E (fun a => decide (a ∈ names)) n with
  | none => rw [link_none hp, link_none ((closest_append hAbove).trans hp)]
  | some p =>
    have hMem : p ∈ names := by simpa using closest_there hp
    rw [link_some hp, link_some ((closest_append hAbove).trans hp), idxOf_append hn,
      idxOf_append hMem]

/-- One that is below it is relinked where it waits for it, and does so unless there is a logger in
between. -/
theorem link_relink {logger : Logger} {waited : Bool} (hParent : logger.parent = link names n)
    (hAbove : x ∈ above n)
    (hWaits : waited = true ∨ ∃ b ∈ names, b ∈ above n ∧ x ∈ above b) :
    (relink x waited logger).parent = link (names ++ [x]) n := by
  have hLate : (names ++ [x]).idxOf n < (names ++ [x]).idxOf x := by
    have hLt := List.idxOf_lt_length_iff.mpr hn
    rw [idxOf_append hn, List.idxOf_append_of_notMem hx]
    simpa using hLt
  have hNew (hBelow : ∀ b ∈ names, b ∈ above n → x ∉ above b) :
      closest 0x2E (fun a => decide (a ∈ names ++ [x])) n = some x := by
    refine closest_eq_some.mpr ⟨hAbove, by simp, fun b hb hxb => ?_⟩
    have hne : b ≠ x := by rintro rfl; exact not_mem_ancestors_self hxb
    have hNot : b ∉ names := fun hMem => hBelow b hMem hb hxb
    simp [hne, hNot]
  cases hp : closest 0x2E (fun a => decide (a ∈ names)) n with
  | none =>
    have hBelow : ∀ b ∈ names, b ∈ above n → x ∉ above b := fun b hMem hb =>
      absurd (closest_eq_none.mp hp b hb) (by simp [hMem])
    obtain rfl : waited = true := hWaits.resolve_right
      fun ⟨b, hMem, hb, hxb⟩ => hBelow b hMem hb hxb
    rw [link_none hp] at hParent
    rw [link_some (hNew hBelow)]
    cases hRoot : x.isPrefixOf rootName with
    | true =>
      rw [if_pos ⟨List.isPrefixOf_iff_prefix.mp hRoot, hLate⟩,
        relink_of_lower (by rwa [hParent]), hParent]
    | false =>
      have hNot : ¬x <+: rootName := fun h => by
        simp [List.isPrefixOf_iff_prefix.mpr h] at hRoot
      rw [if_neg fun h => hNot h.1, relink_of_not_lower (by rwa [hParent])]
  | some p =>
    obtain ⟨hpAbove, hpThere, hpBelow⟩ := closest_eq_some.mp hp
    have hMem : p ∈ names := by simpa using hpThere
    have hne : p ≠ x := by rintro rfl; exact hx hMem
    obtain hEq | hpx | hxp := ancestors_total hpAbove hAbove
    · exact absurd hEq hne
    · -- the new logger comes between the two
      have hBelow : ∀ b ∈ names, b ∈ above n → x ∉ above b := fun b hb hbn hxb =>
        absurd (hpBelow b hbn (mem_ancestors_trans hpx hxb)) (by simp [hb])
      obtain rfl : waited = true := hWaits.resolve_right
        fun ⟨b, hb, hbn, hxb⟩ => hBelow b hb hbn hxb
      have hNotLower : x.isPrefixOf logger.parent.name = false := by
        rw [hParent, link_some hp]
        refine Bool.eq_false_iff.mpr fun h => ?_
        rw [List.isPrefixOf_iff_prefix] at h
        split at h
        · exact not_prefix_rootName hpx h
        · have hLe := h.length_le
          have hLt := length_lt_of_mem_ancestors hpx
          simp only [LoggerPtr.name] at hLe
          omega
      rw [link_some (hNew hBelow), if_neg fun h => not_prefix_rootName hpx h.1,
        relink_of_not_lower hNotLower]
    · -- it points to a lower parent
      have hNearest : closest 0x2E (fun a => decide (a ∈ names ++ [x])) n = some p := by
        refine closest_eq_some.mpr ⟨hpAbove, by simp [hMem], fun b hb hpb => ?_⟩
        have hne : b ≠ x := by
          rintro rfl
          exact not_mem_ancestors_self (mem_ancestors_trans hxp hpb)
        simpa [hne] using hpBelow b hb hpb
      have hNamed : logger.parent = .named p := by
        rw [hParent, link_some hp, if_neg fun h => not_prefix_rootName hxp h.1]
      have hLower : x.isPrefixOf logger.parent.name = true := by
        rw [hNamed, List.isPrefixOf_iff_prefix]
        obtain ⟨rest, hRest⟩ := mem_ancestors.mp hxp
        exact ⟨0x2E :: rest, hRest.symm⟩
      rw [relink_of_lower hLower, hNamed, link_some hNearest,
        if_neg fun h => not_prefix_rootName hxp h.1]

end

/-- Asking for a logger again changes no link. -/
theorem link_again {names : List LogString} {x n : LogString} (hx : x ∈ names) (hn : n ∈ names) :
    link (names ++ [x]) n = link names n := by
  have hNearest : closest 0x2E (fun a => decide (a ∈ names ++ [x])) n =
      closest 0x2E (fun a => decide (a ∈ names)) n :=
    closest_congr fun b _ => by
      by_cases hEq : b = x <;> simp [hEq, hx]
  cases hp : closest 0x2E (fun a => decide (a ∈ names)) n with
  | none => rw [link_none hp, link_none (hNearest.trans hp)]
  | some p =>
    have hMem : p ∈ names := by simpa using closest_there hp
    rw [link_some hp, link_some (hNearest.trans hp), idxOf_append hn, idxOf_append hMem]

/-- After calls for `names`, `getLogger` returns for a name: its logger is there, or one above it is, or
it does not start with a dot. -/
def Found (names : List LogString) (name : LogString) : Prop :=
  name ∈ names ∨ name.head? ≠ some 0x2E ∨ ∃ a ∈ above name, a ∈ names

instance (names : List LogString) (name : LogString) : Decidable (Found names name) :=
  inferInstanceAs (Decidable (_ ∨ _ ∨ _))

/-- `getLogger` returns for one name after the other. -/
def AllFound : List LogString → List LogString → Prop
  | _, [] => True
  | names, name :: more => Found names name ∧ AllFound (names ++ [name]) more

instance decidableAllFound : (names more : List LogString) → Decidable (AllFound names more)
  | _, [] => .isTrue trivial
  | names, name :: more =>
    let _ := decidableAllFound (names ++ [name]) more
    inferInstanceAs (Decidable (_ ∧ _))

theorem nil_mem_above {name : LogString} : [] ∈ above name ↔ name.head? = some 0x2E := by
  rw [mem_ancestors]
  cases name with
  | nil => simp
  | cons c cs => simp

namespace Linked

variable {names : List LogString} {h h' : Hierarchy} {x : LogString}

theorem find?_eq_none (hLinked : Linked names h) : h.loggers.find? x = none ↔ x ∉ names := by
  have hMem := hLinked.mem x
  rw [there] at hMem
  rw [← Option.not_isSome_iff_eq_none, hMem]
  simp

theorem not_waiting (hLinked : Linked names h) (hx : x ∉ names) (a : LogString) :
    x ∉ waiting h.provisionNodes a := fun hMem => hx (hLinked.named hMem).1

theorem closest_eq (hLinked : Linked names h) (n : LogString) :
    closest 0x2E (there h.loggers) n = closest 0x2E (fun a => decide (a ∈ names)) n :=
  closest_congr fun b _ => hLinked.mem b

/-- The links after a new logger. -/
theorem added (hLinked : Linked names h) (hx : x ∉ names) (hAdded : Added x h h') :
    Linked (names ++ [x]) h' where
  mem n := by
    by_cases hn : n = x
    · simp [there, hn, hAdded.self]
    · have hMem := hLinked.mem n
      rw [there] at hMem
      rw [there, hAdded.other hn, Option.isSome_map, hMem]
      simp [hn]
  parent {n logger} hFind := by
    by_cases hn : n = x
    · subst hn
      rw [hAdded.self] at hFind
      obtain rfl := Option.some.inj hFind
      rw [link_self hx, hLinked.closest_eq]
    · rw [hAdded.other hn] at hFind
      obtain ⟨logger, hOld, rfl⟩ := Option.map_eq_some_iff.mp hFind
      have hMem : n ∈ names := by
        have hThere := hLinked.mem n
        rw [there, hOld] at hThere
        simpa using hThere.symm
      by_cases hAbove : x ∈ above n
      · refine link_relink hx hMem (hLinked.parent hOld) hAbove ?_
        simpa using hLinked.waits hx hMem hAbove
      · have hNot : n ∉ waiting h.provisionNodes x := fun hWaits =>
          hAbove (hLinked.named hWaits).2
        rw [link_of_not_above hMem hAbove, ← hLinked.parent hOld]
        simp [hNot]
  waits {a n} ha hn hAbove := by
    rw [List.mem_append, List.mem_singleton, not_or] at ha
    rw [List.mem_append, List.mem_singleton] at hn
    obtain hn | rfl := hn
    · obtain hWaits | ⟨b, hb, hbn, hab⟩ := hLinked.waits ha.1 hn hAbove
      · exact .inl (hAdded.waiting.mpr (.inl ⟨ha.2, hWaits⟩))
      · exact .inr ⟨b, List.mem_append_left _ hb, hbn, hab⟩
    · have hEither := @takeWhile_ancestors _ _ _ _ _ (there h.loggers) hAbove
      obtain hVisited | ⟨p, hp, rfl | hap⟩ := hEither
      · exact .inl (hAdded.waiting.mpr (.inr ⟨rfl, hVisited⟩))
      · have hMem := closest_there hp
        rw [hLinked.mem] at hMem
        exact absurd (by simpa using hMem) ha.1
      · have hMem := closest_there hp
        rw [hLinked.mem] at hMem
        exact .inr ⟨p, List.mem_append_left _ (by simpa using hMem), closest_mem hp, hap⟩
  named {a n} hWaits := by
    obtain ⟨-, hOld⟩ | ⟨rfl, hVisited⟩ := hAdded.waiting.mp hWaits
    · obtain ⟨hMem, hAbove⟩ := hLinked.named hOld
      exact ⟨List.mem_append_left _ hMem, hAbove⟩
    · exact ⟨by simp, (List.takeWhile_prefix _).subset hVisited⟩

theorem again (hLinked : Linked names h) (hx : x ∈ names) : Linked (names ++ [x]) h where
  mem n := by
    rw [hLinked.mem]
    by_cases hEq : n = x <;> simp [hEq, hx]
  parent {n logger} hFind := by
    have hMem : n ∈ names := by
      have hThere := hLinked.mem n
      rw [there, hFind] at hThere
      simpa using hThere.symm
    rw [link_again hx hMem, hLinked.parent hFind]
  waits {a n} ha hn hAbove := by
    have hn' : n ∈ names := by
      obtain hn | hn := List.mem_append.mp hn
      · exact hn
      · rwa [List.mem_singleton.mp hn]
    obtain hWaits | ⟨b, hb, hbn, hab⟩ :=
      hLinked.waits (fun hMem => ha (List.mem_append_left _ hMem)) hn' hAbove
    · exact .inl hWaits
    · exact .inr ⟨b, List.mem_append_left _ hb, hbn, hab⟩
  named hWaits := ⟨List.mem_append_left _ (hLinked.named hWaits).1, (hLinked.named hWaits).2⟩

/-- A call of `getLogger` finds the logger, or adds it where it can be found, and does not return
otherwise. -/
theorem getLogger_cases (hLinked : Linked names h) (hSize : x.length < 2 ^ 32) :
    Found names x ∧ (∃ h', h.getLogger x = .ok h' ∧ (x ∈ names ∧ h' = h ∨ x ∉ names ∧ Added x h h')) ∨
      ¬Found names x ∧ ∀ turns, h.getLoggerFor turns x = .error .hang := by
  by_cases hx : x ∈ names
  · obtain ⟨logger, hFind⟩ : ∃ logger, h.loggers.find? x = some logger := by
      rw [← Option.isSome_iff_exists, ← there, hLinked.mem]
      simpa using hx
    exact .inl ⟨.inl hx, h, by rw [Hierarchy.getLogger, getLoggerFor, hFind]; rfl, .inl ⟨hx, rfl⟩⟩
  have hNone := hLinked.find?_eq_none.mpr hx
  have hNearest : closest 0x2E (there h.loggers) x = none ↔ ¬∃ a ∈ above x, a ∈ names := by
    rw [hLinked.closest_eq, closest_eq_none]
    simp
  by_cases hEnds : closest 0x2E (there h.loggers) x ≠ none ∨ [] ∉ above x
  · obtain ⟨h', hOk, hAdded⟩ := getLogger_added hNone hSize (hLinked.not_waiting hx x) hEnds
    rw [Ne, hNearest, not_not, nil_mem_above] at hEnds
    exact .inl ⟨.inr hEnds.symm, h', hOk, .inr ⟨hx, hAdded⟩⟩
  · rw [not_or, not_not, not_not] at hEnds
    refine .inr ⟨?_, getLogger_hangs hNone hSize (hLinked.not_waiting hx x) hEnds.1 hEnds.2⟩
    rw [hNearest, nil_mem_above] at hEnds
    rintro (hMem | hDot | hAbove)
    · exact hx hMem
    · exact hDot hEnds.2
    · exact hEnds.1 hAbove

/-- What a call of `getLogger` that returns has done. -/
theorem getLogger_ok (hLinked : Linked names h) (hSize : x.length < 2 ^ 32)
    (hOk : h.getLogger x = .ok h') : x ∈ names ∧ h' = h ∨ x ∉ names ∧ Added x h h' := by
  obtain ⟨-, h1, hCall, hCases⟩ | ⟨-, hHang⟩ := hLinked.getLogger_cases hSize
  · obtain rfl := Except.ok.inj (hOk.symm.trans hCall)
    exact hCases
  · cases hOk.symm.trans (hHang _)

theorem getLogger (hLinked : Linked names h) (hSize : x.length < 2 ^ 32)
    (hOk : h.getLogger x = .ok h') : Linked (names ++ [x]) h' := by
  obtain ⟨hx, rfl⟩ | ⟨hx, hAdded⟩ := hLinked.getLogger_ok hSize hOk
  · exact hLinked.again hx
  · exact hLinked.added hx hAdded

theorem modify (hLinked : Linked names h) {f : Logger → Logger}
    (hf : ∀ logger, (f logger).parent = logger.parent) : Linked names (h.modify x f) where
  mem n := by
    rw [← hLinked.mem, there, there]
    by_cases hn : n = x
    · rw [hn, find?_modify_self, Option.isSome_map]
    · rw [find?_modify_of_ne _ _ _ hn]
  parent {n logger} hFind := by
    by_cases hn : n = x
    · rw [hn, find?_modify_self] at hFind
      obtain ⟨logger, hOld, rfl⟩ := Option.map_eq_some_iff.mp hFind
      rw [hf, hLinked.parent hOld, hn]
    · rw [find?_modify_of_ne _ _ _ hn] at hFind
      exact hLinked.parent hFind
  waits ha hn hAbove := by
    rw [modify_provisionNodes]
    exact hLinked.waits ha hn hAbove
  named hWaits := by
    rw [modify_provisionNodes] at hWaits
    exact hLinked.named hWaits

theorem step (hLinked : Linked names h) {op : Op} (hSizes : ∀ n ∈ op.asked, n.length < 2 ^ 32)
    (hOk : h.step op = .ok h') : Linked (names ++ op.asked) h' := by
  cases op with
  | getLogger name => exact hLinked.getLogger (hSizes name List.mem_cons_self) hOk
  | setLevel logger level =>
    obtain rfl := Except.ok.inj hOk
    rw [Op.asked, List.append_nil]
    cases logger with
    | root => exact ⟨hLinked.mem, hLinked.parent, hLinked.waits, hLinked.named⟩
    | named name => exact hLinked.modify fun _ => rfl
  | setAdditivity logger additive =>
    obtain rfl := Except.ok.inj hOk
    rw [Op.asked, List.append_nil]
    cases logger with
    | root => exact hLinked
    | named name => exact hLinked.modify fun _ => rfl
  | addAppender logger newAppender =>
    obtain rfl := Except.ok.inj hOk
    rw [Op.asked, List.append_nil]
    cases logger with
    | root => exact ⟨hLinked.mem, hLinked.parent, hLinked.waits, hLinked.named⟩
    | named name => exact hLinked.modify fun _ => rfl

theorem run (hLinked : Linked names h) {ops : List Op}
    (hSizes : ∀ n ∈ ops.flatMap Op.asked, n.length < 2 ^ 32) (hOk : h.run ops = .ok h') :
    Linked (names ++ ops.flatMap Op.asked) h' := by
  induction ops generalizing names h with
  | nil =>
    obtain rfl := Except.ok.inj hOk
    simpa using hLinked
  | cons op ops ih =>
    rw [List.flatMap_cons, List.forall_mem_append] at hSizes
    rw [Hierarchy.run, List.foldlM_cons] at hOk
    obtain ⟨h1, hStep, hRest⟩ := bind_eq_ok.mp hOk
    rw [List.flatMap_cons, ← List.append_assoc]
    exact ih (hLinked.step hSizes.1 hStep) hSizes.2 hRest

end Linked

/-- After any calls a name that was asked for has a logger, whose parent `link` gives. -/
theorem parent_run {ops : List Op} {h : Hierarchy}
    (hSizes : ∀ n ∈ ops.flatMap Op.asked, n.length < 2 ^ 32) (hRun : Hierarchy.new.run ops = .ok h)
    (n : LogString) : (h.loggers.find? n).map (·.parent) =
      if n ∈ ops.flatMap Op.asked then some (link (ops.flatMap Op.asked) n) else none := by
  have hLinked := Linked.new.run hSizes hRun
  rw [List.nil_append] at hLinked
  split
  next hMem =>
    obtain ⟨logger, hFind⟩ : ∃ logger, h.loggers.find? n = some logger := by
      rw [← Option.isSome_iff_exists, ← there, hLinked.mem]
      simpa using hMem
    rw [hFind, Option.map_some, hLinked.parent hFind]
  next hMem => rw [hLinked.find?_eq_none.mpr hMem, Option.map_none]

/-- The calls of a configuration and of clients, out of order and with names of the root. -/
def sampleOps : List Op := [
  .getLogger [0x61, 0x2E, 0x62, 0x2E, 0x63],
  .getLogger [0x72, 0x2E, 0x78],
  .getLogger [0x61],
  .setLevel (.named [0x61]) (some .warn),
  .getLogger [0x72],
  .getLogger [0x61, 0x2E, 0x62]]

theorem sampleOps_asked : ∀ n ∈ sampleOps.flatMap Op.asked, n.length < 2 ^ 32 := by decide

theorem parent_run_sample : ∃ h, Hierarchy.new.run sampleOps = .ok h ∧
    (h.loggers.find? [0x61, 0x2E, 0x62, 0x2E, 0x63]).map (·.parent) =
      some (.named [0x61, 0x2E, 0x62]) ∧
    (h.loggers.find? [0x72, 0x2E, 0x78]).map (·.parent) = some .root :=
  ⟨_, rfl, parent_run sampleOps_asked rfl _, parent_run sampleOps_asked rfl _⟩

/-- After any calls, one of `getLogger` returns exactly where the logger can be found; otherwise its
loop never ends. -/
theorem getLogger_returns_iff {ops : List Op} {h : Hierarchy} {x : LogString}
    (hSizes : ∀ n ∈ ops.flatMap Op.asked, n.length < 2 ^ 32) (hRun : Hierarchy.new.run ops = .ok h)
    (hSize : x.length < 2 ^ 32) :
    ((∃ h', h.getLogger x = .ok h') ↔ Found (ops.flatMap Op.asked) x) ∧
      (¬Found (ops.flatMap Op.asked) x → ∀ turns, h.getLoggerFor turns x = .error .hang) := by
  have hLinked := Linked.new.run hSizes hRun
  rw [List.nil_append] at hLinked
  obtain ⟨hFound, h', hCall, -⟩ | ⟨hNot, hHang⟩ := hLinked.getLogger_cases hSize
  · exact ⟨iff_of_true ⟨h', hCall⟩ hFound, fun hNot => absurd hFound hNot⟩
  · refine ⟨iff_of_false (fun ⟨h', hOk⟩ => ?_) hNot, fun _ => hHang⟩
    cases (hHang _).symm.trans hOk

theorem getLogger_returns_iff_sample : ∃ h, Hierarchy.new.run sampleOps = .ok h ∧
    (∃ h', h.getLogger [0x61, 0x2E, 0x64] = .ok h') ∧
    ∀ turns, h.getLoggerFor turns [0x2E, 0x61] = .error .hang :=
  ⟨_, rfl, (getLogger_returns_iff sampleOps_asked rfl (by decide)).1.mpr (by decide),
    (getLogger_returns_iff sampleOps_asked rfl (by decide)).2 (by decide)⟩

end LogSocket.Hierarchy
