import LogSocket.LocationText
import LogSocket.Saver

/-! The location string of `saver::Default`, taken apart again. A signature is cut where its class
separator is, and put together without any escape, so what comes back depends on what stands in the
path and in the parameters. -/

namespace LogSocket.Saver

open Lib

/-- The first word of a signature is dropped where a space ends it in front of the parameters. -/
def dropFirstWord (funcName : LogString) : LogString :=
  match funcName.idxOf? 0x28, funcName.idxOf? 0x20 with
  | some openParen, some space => if space < openParen then funcName.drop (space + 1) else funcName
  | _, _ => funcName

/-- A dot takes the place of the class separator. -/
def replaceSeparator (fullInfo : LogString) : LogString :=
  match fullInfo.idxOf? 0x28 with
  | some openParen =>
    match rfindColons fullInfo openParen with
    | some classSep => fullInfo.take classSep ++ 0x2E :: fullInfo.drop (classSep + 2)
    | none => 0x2E :: fullInfo
  | none => fullInfo

variable {funcName path line front part word rest scope outer name tail : LogString}

theorem getFullInfo_eq : getFullInfo funcName path line =
    locationText (replaceSeparator (dropFirstWord funcName)) path line := by
  have hText : getFullInfo funcName path line = replaceSeparator (dropFirstWord funcName) ++ [0x28] ++
      path ++ [0x3A] ++ line ++ [0x29] := rfl
  simp [hText, locationText]

theorem idxOf?_append {c : UInt8} {left : LogString} (right : LogString) (h : c ∉ left) :
    (left ++ c :: right).idxOf? c = some left.length := by
  induction left with
  | nil => simp [List.idxOf?_cons]
  | cons byte left ih =>
    rw [List.mem_cons, not_or] at h
    simp [List.idxOf?_cons, Ne.symm h.1, ih h.2]

theorem getLast?_filter_range {p : Nat → Bool} {i n : Nat} (hi : i ≤ n) (hp : p i = true)
    (hLater : ∀ j, i < j → j ≤ n → p j = false) :
    ((List.range (n + 1)).filter p).getLast? = some i := by
  induction n with
  | zero =>
    obtain rfl : i = 0 := by omega
    simp [hp]
  | succ n ih =>
    rw [List.range_succ, List.filter_append]
    by_cases hLast : i = n + 1
    · simp [← hLast, hp]
    · have hNext : p (n + 1) = false := hLater (n + 1) (by omega) (Nat.le_refl _)
      simpa [hNext] using ih (by omega) fun j hj hn => hLater j hj (by omega)

/-- What stands in front of the parameters. -/
def head (part : LogString) : LogString := part.takeWhile (· ≠ 0x28)

theorem head_append (h : 0x28 ∉ name) : head (name ++ 0x28 :: tail) = name := by
  have hName : ∀ byte ∈ name, decide (byte ≠ 0x28) = true := fun byte hByte =>
    decide_eq_true fun hEq => h (hEq ▸ hByte)
  rw [head, List.takeWhile_append_of_pos hName]
  simp

/-- The word in front of the rest of a signature. -/
inductive FirstWord : LogString → LogString → Prop
  | none {rest : LogString} (hSpace : 0x20 ∉ head rest) : FirstWord [] rest
  | word {word rest : LogString} (hSpace : 0x20 ∉ word) (hParen : 0x28 ∉ word) :
    FirstWord (word ++ [0x20]) rest

/-- `::` -/
def colons : LogString := [0x3A, 0x3A]

/-- The scope in front of the rest of a signature, which ends in the last separator. -/
inductive Scope : LogString → LogString → Prop
  | none {part : LogString} (hLast : ¬colons <:+: head part) : Scope [] part
  | scope {outer part : LogString} (hParen : 0x28 ∉ outer) (hLast : ¬colons <:+: 0x3A :: head part) :
    Scope (outer ++ colons) part

theorem dropFirstWord_eq (h : FirstWord word rest) (hRest : 0x28 ∈ rest) :
    dropFirstWord (word ++ rest) = rest := by
  obtain ⟨name, tail, rfl, hName⟩ := List.eq_append_cons_of_mem hRest
  cases h with
  | none hSpace =>
    rw [List.nil_append, dropFirstWord, idxOf?_append tail hName]
    rw [head_append hName] at hSpace
    cases hIdx : (name ++ 0x28 :: tail).idxOf? 0x20 with
    | none => rfl
    | some space =>
      refine if_neg fun hLt => hSpace ?_
      obtain ⟨_, hByte, -⟩ := List.idxOf?_eq_some_iff.mp hIdx
      rw [List.getElem_append_left hLt] at hByte
      exact hByte ▸ List.getElem_mem hLt
  | @word word _ hSpace hParen =>
    have hOpen : (word ++ [0x20] ++ (name ++ 0x28 :: tail)).idxOf? 0x28 =
        some (word.length + 1 + name.length) := by
      rw [← List.append_assoc, idxOf?_append tail (by simp [hParen, hName])]
      simp
      omega
    have hFirst : (word ++ [0x20] ++ (name ++ 0x28 :: tail)).idxOf? 0x20 = some word.length := by
      rw [List.append_assoc]
      exact idxOf?_append _ hSpace
    rw [dropFirstWord, hOpen, hFirst]
    dsimp only
    rw [if_pos (by omega)]
    exact List.drop_left' (by simp)

theorem colons_prefix_of_isPrefixOf {j : Nat} (hj : j ≤ name.length)
    (h : colons.isPrefixOf ((name ++ 0x28 :: tail).drop j) = true) : colons <+: name.drop j := by
  rw [List.drop_append_of_le_length hj, List.isPrefixOf_iff_prefix] at h
  match hDrop : name.drop j, h with
  | [], h => simp [colons] at h
  | [_], h => simp [colons] at h
  | byte :: byte' :: _, h => simpa [colons] using h

/-- No separator in front of the parameters. -/
theorem rfindColons_none (hName : ¬colons <:+: name) :
    rfindColons (name ++ 0x28 :: tail) name.length = none := by
  rw [rfindColons, List.getLast?_eq_none_iff, List.filter_eq_nil_iff]
  intro j hj hPrefix
  have hj := List.mem_range.mp hj
  have hHere := colons_prefix_of_isPrefixOf (by omega) hPrefix
  exact hName (hHere.isInfix.trans (List.drop_suffix j name).isInfix)

/-- The last separator in front of the parameters. -/
theorem rfindColons_some (hName : ¬colons <:+: 0x3A :: name) :
    rfindColons (outer ++ colons ++ name ++ 0x28 :: tail) (outer ++ colons ++ name).length =
      some outer.length := by
  refine getLast?_filter_range (by simp) ?_ fun j hj hn => ?_
  · rw [List.append_assoc, List.append_assoc, List.drop_left]
    rfl
  · refine Bool.eq_false_iff.mpr fun hPrefix => hName ?_
    have hHere := colons_prefix_of_isPrefixOf hn hPrefix
    rw [show outer ++ colons ++ name = outer ++ [0x3A] ++ 0x3A :: name by simp [colons],
      show j = (outer ++ [0x3A]).length + (j - outer.length - 1) by simp; omega,
      List.drop_length_add_append] at hHere
    exact hHere.isInfix.trans (List.drop_suffix _ _).isInfix

theorem exists_last_colons (name : LogString) :
    ¬colons <:+: name ∨
      ∃ outer last, name = outer ++ colons ++ last ∧ ¬colons <:+: 0x3A :: last := by
  induction name with
  | nil => simp [colons]
  | cons byte name ih =>
    rcases ih with hNone | ⟨outer, last, rfl, hLast⟩
    · by_cases hHere : colons <+: byte :: name
      · obtain ⟨last, hLast⟩ := hHere
        obtain ⟨rfl, rfl⟩ : 0x3A = byte ∧ 0x3A :: last = name := by simpa [colons] using hLast
        exact .inr ⟨[], last, rfl, hNone⟩
      · exact .inl fun hInfix => (List.infix_cons_iff.mp hInfix).elim hHere hNone
    · exact .inr ⟨byte :: outer, last, rfl, hLast⟩

/-- The class and the method stand on the two sides of the dot. -/
theorem replaceSeparator_eq (h : Scope scope part) (hPart : 0x28 ∈ part) :
    ∃ className, replaceSeparator (scope ++ part) = className ++ 0x2E :: part := by
  obtain ⟨name, tail, rfl, hName⟩ := List.eq_append_cons_of_mem hPart
  cases h with
  | none hLast =>
    rw [head_append hName] at hLast
    refine ⟨[], ?_⟩
    rw [List.nil_append, replaceSeparator, idxOf?_append tail hName]
    dsimp only
    rw [rfindColons_none hLast]
    rfl
  | @scope outer _ hParen hLast =>
    rw [head_append hName] at hLast
    refine ⟨outer, ?_⟩
    rw [← List.append_assoc, replaceSeparator,
      idxOf?_append tail (by simp [colons, hParen, hName])]
    dsimp only
    rw [rfindColons_some hLast]
    dsimp only
    rw [List.append_assoc, List.append_assoc, List.take_left, ← List.append_assoc outer,
      List.drop_left' (by simp [colons])]

theorem exists_firstWord (h : 0x28 ∈ funcName) :
    ∃ word rest, funcName = word ++ rest ∧ FirstWord word rest ∧ 0x28 ∈ rest := by
  obtain ⟨name, tail, rfl, hName⟩ := List.eq_append_cons_of_mem h
  by_cases hSpace : 0x20 ∈ name
  · obtain ⟨word, name, rfl, hWord⟩ := List.eq_append_cons_of_mem hSpace
    refine ⟨word ++ [0x20], name ++ 0x28 :: tail, by simp, .word hWord ?_, by simp⟩
    exact fun hMem => hName (List.mem_append_left _ hMem)
  · exact ⟨[], name ++ 0x28 :: tail, rfl, .none (by rwa [head_append hName]), h⟩

theorem exists_scope (h : 0x28 ∈ rest) :
    ∃ scope part, rest = scope ++ part ∧ Scope scope part ∧ 0x28 ∈ part := by
  obtain ⟨name, tail, rfl, hName⟩ := List.eq_append_cons_of_mem h
  rcases exists_last_colons name with hNone | ⟨outer, last, rfl, hLast⟩
  · exact ⟨[], name ++ 0x28 :: tail, rfl, .none (by rwa [head_append hName]), h⟩
  · simp only [List.mem_append, not_or] at hName
    exact ⟨outer ++ colons, last ++ 0x28 :: tail, by simp,
      .scope hName.1.1 (by rwa [head_append hName.2]), by simp⟩

/-- The method of a signature begins behind its first word, where a space ends one in front of the
parameters, and behind the last `::` from there to the parameters. -/
def MethodBegins (front part : LogString) : Prop :=
  ∃ word scope, front = word ++ scope ∧ FirstWord word (scope ++ part) ∧ Scope scope part

/-- The separator is where the method begins. -/
theorem getFullInfo_methodBegins (h : MethodBegins front part) (hPart : 0x28 ∈ part) :
    ∃ className, ∀ path line,
      getFullInfo (front ++ part) path line = locationText (className ++ 0x2E :: part) path line := by
  rcases h with ⟨word, scope, rfl, hWord, hScope⟩
  obtain ⟨className, hClass⟩ := replaceSeparator_eq hScope hPart
  refine ⟨className, fun path line => ?_⟩
  rw [getFullInfo_eq, List.append_assoc, dropFirstWord_eq hWord (List.mem_append_right _ hPart),
    hClass]

theorem exists_methodBegins (h : 0x28 ∈ funcName) :
    ∃ front part, funcName = front ++ part ∧ MethodBegins front part ∧ 0x28 ∈ part := by
  obtain ⟨word, rest, rfl, hWord, hRest⟩ := exists_firstWord h
  obtain ⟨scope, part, rfl, hScope, hPart⟩ := exists_scope hRest
  exact ⟨word ++ scope, part, (List.append_assoc ..).symm, ⟨word, scope, rfl, hWord, hScope⟩, hPart⟩

/-- The location string is taken apart into what it was put together from. -/
structure TakesApart (funcName path line method : LogString) : Prop where
  fileName : getFileName (getFullInfo funcName path line) = .ok path
  lineNumber : getLineNumber (getFullInfo funcName path line) = .ok line
  methodName : getMethodName (getFullInfo funcName path line) = .ok method

/-- The event is then the one that is built from the three fields. -/
theorem TakesApart.createLoggingEvent {method : LogString} (h : TakesApart funcName path line method)
    (logger : LogString) (level : Level) (message : LogString) (timeStamp : Int64)
    (threadName : LogString) :
    LogSocket.createLoggingEvent logger level message timeStamp threadName
        (getFullInfo funcName path line) =
      .ok (loggingEventEx logger level message timeStamp threadName path method line) := by
  rw [LogSocket.createLoggingEvent, h.fileName, ok_bind, h.methodName, ok_bind, h.lineNumber]
  rfl

theorem notMem_line {c : UInt8} (hLine : ∀ byte ∈ line, isDigit byte = true)
    (hc : isDigit c = false) : c ∉ line :=
  fun hMem => Bool.false_ne_true (hc.symm.trans (hLine c hMem))

/-- A parenthesis in the path is taken for the one in front of it. -/
theorem getFileName_paren (hSize : (locationText name path line).length ≤ maxSize)
    (hLine : 0x3A ∉ line) : getFileName (locationText name path line) = .ok path ↔ 0x28 ∉ path := by
  refine ⟨fun h hPath => ?_, fun hPath => getFileName_locationText hSize hPath hLine⟩
  obtain ⟨back, front, hReverse, hBack⟩ :=
    List.eq_append_cons_of_mem (List.mem_reverse.mpr hPath)
  obtain rfl : path = front.reverse ++ 0x28 :: back.reverse := by
    rw [← List.reverse_reverse path, hReverse]
    simp
  rw [show locationText name (front.reverse ++ 0x28 :: back.reverse) line =
      locationText (name ++ 0x28 :: front.reverse) back.reverse line by simp [locationText]] at h hSize
  rw [getFileName_locationText hSize (by rwa [List.mem_reverse]) hLine] at h
  have hLength := congrArg List.length (Except.ok.inj h)
  simp at hLength
  omega

/-- Behind the separator, the method is what follows the last dot. -/
theorem getMethodName_separated {className method : LogString}
    (hSize : (locationText (className ++ 0x2E :: part) path line).length ≤ maxSize)
    (hPath : 0x28 ∉ path) (hLine : 0x28 ∉ line) :
    getMethodName (locationText (className ++ 0x2E :: part) path line) = .ok method ↔
      0x2E ∉ method ∧ ∃ more, part = more ++ method ∧ (more = [] ∨ ∃ x, more = x ++ [0x2E]) := by
  constructor
  · intro h
    by_cases hDot : 0x2E ∈ part
    · obtain ⟨left, right, rfl, hRight⟩ := exists_last_dot hDot
      rw [getMethodName_of_dot hSize hPath hLine
        (show _ = (className ++ 0x2E :: left) ++ 0x2E :: right by simp) hRight] at h
      obtain rfl := Except.ok.inj h
      exact ⟨hRight, left ++ [0x2E], by simp, .inr ⟨left, rfl⟩⟩
    · rw [getMethodName_of_dot hSize hPath hLine rfl hDot] at h
      obtain rfl := Except.ok.inj h
      exact ⟨hDot, [], rfl, .inl rfl⟩
  · rintro ⟨hDot, more, rfl, rfl | ⟨x, rfl⟩⟩
    · exact getMethodName_of_dot hSize hPath hLine rfl hDot
    · exact getMethodName_of_dot hSize hPath hLine
        (show _ = (className ++ 0x2E :: x) ++ 0x2E :: method by simp) hDot

/-- The name of a function begins where its method does, or behind a dot after that. -/
def NameBegins (front part : LogString) : Prop :=
  ∃ before more, front = before ++ more ∧ (more = [] ∨ ∃ x, more = x ++ [0x2E]) ∧
    MethodBegins before (more ++ part)

/-- A location survives the packing exactly if no parenthesis opens in the path, the part of the
signature from the name on has no dot, and the name is where the packing looks for it. -/
theorem takesApart_iff (hPart : 0x28 ∈ part) (hLine : ∀ byte ∈ line, isDigit byte = true)
    (hSize : (getFullInfo (front ++ part) path line).length ≤ maxSize) :
    TakesApart (front ++ part) path line part ↔
      0x28 ∉ path ∧ 0x2E ∉ part ∧ NameBegins front part := by
  have hColon : 0x3A ∉ line := notMem_line hLine rfl
  have hParen : 0x28 ∉ line := notMem_line hLine rfl
  constructor
  · intro h
    obtain ⟨before, rest, hSplit, hBegins, hRest⟩ :=
      exists_methodBegins (List.mem_append_right front hPart)
    obtain ⟨className, hText⟩ := getFullInfo_methodBegins hBegins hRest
    have hFile := h.fileName
    have hMethod := h.methodName
    rw [hSplit, hText] at hSize hFile hMethod
    have hPath := (getFileName_paren hSize hColon).mp hFile
    obtain ⟨hDot, more, hRest, hMore⟩ := (getMethodName_separated hSize hPath hParen).mp hMethod
    subst hRest
    rw [← List.append_assoc] at hSplit
    exact ⟨hPath, hDot, before, more, List.append_cancel_right hSplit, hMore, hBegins⟩
  · rintro ⟨hPath, hDot, before, more, rfl, hMore, hBegins⟩
    obtain ⟨className, hText⟩ :=
      getFullInfo_methodBegins hBegins (List.mem_append_right more hPart)
    have hAll : getFullInfo (before ++ more ++ part) path line =
        locationText (className ++ 0x2E :: (more ++ part)) path line := by
      rw [List.append_assoc, hText]
    rw [hAll] at hSize
    refine ⟨?_, ?_, ?_⟩
    · rw [hAll, getFileName_paren hSize hColon]
      exact hPath
    · rw [hAll, getLineNumber_locationText hSize hColon]
    · rw [hAll, getMethodName_separated hSize hPath hParen]
      exact ⟨hDot, more, rfl, hMore⟩

/-- The line and the path of a call in `void n::A::f(int)`. -/
theorem takesApart_iff_sample :
    TakesApart ([0x76, 0x6F, 0x69, 0x64, 0x20, 0x6E, 0x3A, 0x3A, 0x41, 0x3A, 0x3A] ++
        [0x66, 0x28, 0x69, 0x6E, 0x74, 0x29]) [0x61, 0x2E, 0x63] [0x37]
        [0x66, 0x28, 0x69, 0x6E, 0x74, 0x29] ↔
      0x28 ∉ ([0x61, 0x2E, 0x63] : LogString) ∧
        0x2E ∉ ([0x66, 0x28, 0x69, 0x6E, 0x74, 0x29] : LogString) ∧
        NameBegins [0x76, 0x6F, 0x69, 0x64, 0x20, 0x6E, 0x3A, 0x3A, 0x41, 0x3A, 0x3A]
          [0x66, 0x28, 0x69, 0x6E, 0x74, 0x29] :=
  takesApart_iff (by decide) (List.forall_mem_singleton.mpr rfl) (by decide)

/-- `C:\Program Files (x86)\a.c` -/
def parenPath : LogString := [0x43, 0x3A, 0x5C, 0x50, 0x72, 0x6F, 0x67, 0x72, 0x61, 0x6D, 0x20, 0x46,
  0x69, 0x6C, 0x65, 0x73, 0x20, 0x28, 0x78, 0x38, 0x36, 0x29, 0x5C, 0x61, 0x2E, 0x63]

/-- The function `int main(void)` in line 7 of a file with a parenthesis in its path. -/
theorem not_takesApart :
    ¬∀ front part path line : LogString, 0x28 ∈ part → MethodBegins front part →
      (∀ byte ∈ line, isDigit byte = true) →
      (getFullInfo (front ++ part) path line).length ≤ maxSize →
      TakesApart (front ++ part) path line part := by
  intro hAll
  have hBegins : MethodBegins [0x69, 0x6E, 0x74, 0x20]
      [0x6D, 0x61, 0x69, 0x6E, 0x28, 0x76, 0x6F, 0x69, 0x64, 0x29] :=
    ⟨[0x69, 0x6E, 0x74] ++ [0x20], [], rfl, .word (by decide) (by decide), .none (by decide)⟩
  have hTakes := hAll _ _ parenPath [0x37] (by decide) hBegins (List.forall_mem_singleton.mpr rfl)
    (by decide)
  exact absurd hTakes.fileName (by decide)

end LogSocket.Saver
