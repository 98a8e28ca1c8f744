import LogSocket.Event

/-! The location string `method(file:line)`, and what the searches for its delimiters take out of
it. -/

namespace LogSocket

open Lib

theorem ofNat_toNat {n : Nat} (h : n ≤ maxSize) : (UInt64.ofNat n).toNat = n := by
  unfold maxSize at h
  rw [UInt64.toNat_ofNat', Nat.mod_eq_of_lt (by omega)]

theorem ofNat_ne_npos {n : Nat} (h : n ≤ maxSize) : UInt64.ofNat n ≠ npos := by
  intro hEq
  rw [← ofNat_toNat h, hEq] at h
  revert h
  decide

/-- A search that starts at a position of the string. -/
theorem findLastOf_eq {value : LogString} (left right : LogString) {c : UInt8} {n : Nat}
    (hn : n ≤ maxSize) (hTake : value.take (n + 1) = left ++ c :: right) (hRight : c ∉ right) :
    findLastOf value c (UInt64.ofNat n) = UInt64.ofNat left.length := by
  rw [findLastOf, ofNat_toNat hn, hTake, lastIndexOf_append left hRight]

theorem findLastOf_eq_npos {value : LogString} {c : UInt8} {n : Nat} (hn : n ≤ maxSize)
    (h : c ∉ value.take (n + 1)) : findLastOf value c (UInt64.ofNat n) = npos := by
  rw [findLastOf, ofNat_toNat hn, lastIndexOf_eq_none h]

/-- A search that starts at the end of the string. -/
theorem findLastOf_npos {value : LogString} (left right : LogString) {c : UInt8}
    (hSize : value.length ≤ maxSize) (hValue : value = left ++ c :: right) (hRight : c ∉ right) :
    findLastOf value c npos = UInt64.ofNat left.length := by
  rw [findLastOf, List.take_of_length_le (hSize.trans (by decide)), hValue,
    lastIndexOf_append left hRight]

/-- The text between two positions. -/
theorem substr_between {value : LogString} (left text right : LogString)
    (hSize : value.length ≤ maxSize) (hValue : value = left ++ (text ++ right)) :
    substr value (UInt64.ofNat left.length) (UInt64.ofNat text.length) = .ok text := by
  have hLength := congrArg List.length hValue
  rw [List.length_append, List.length_append] at hLength
  rw [substr_eq (by rw [ofNat_toNat (by omega)]; omega), ofNat_toNat (by omega),
    ofNat_toNat (by omega), hValue, List.drop_left, List.take_left]

/-- A string at the last of its dots. -/
theorem exists_last_dot {value : LogString} (h : 0x2E ∈ value) :
    ∃ left right, value = left ++ 0x2E :: right ∧ 0x2E ∉ right := by
  obtain ⟨front, back, hReverse, hFront⟩ := List.eq_append_cons_of_mem (List.mem_reverse.mpr h)
  refine ⟨back.reverse, front.reverse, ?_, by rwa [List.mem_reverse]⟩
  rw [← List.reverse_reverse value, hReverse]
  simp

/-- Whatever a location string is, none of the extractors throws `std::out_of_range`: each takes its
text from a start in the string, so the constructor of the event, which is `noexcept`, returns. -/
theorem extractors_return (fullInfo : LogString) :
    Extracted fullInfo (getClassName fullInfo) ∧ Extracted fullInfo (getMethodName fullInfo) ∧
      Extracted fullInfo (getFileName fullInfo) ∧ Extracted fullInfo (getLineNumber fullInfo) ∧
        ∀ (logger : LogString) (level : Level) (message : LogString) (timeStamp : Int64)
          (threadName : LogString), ∃ event,
            createLoggingEvent logger level message timeStamp threadName fullInfo = .ok event :=
  ⟨getClassName_extracted fullInfo, getMethodName_extracted fullInfo,
    getFileName_extracted fullInfo, getLineNumber_extracted fullInfo, createLoggingEvent_ok fullInfo⟩

/-- Every delimiter is missing, stands in front, or comes in the wrong order. -/
example : getFileName [0x29, 0x3A, 0x2E, 0x28] = .ok [0x29] ∧ getMethodName [0x2E] = .ok [] ∧
    getLineNumber [0x3A, 0x29] = .ok [] ∧ getFileName [0x3A] = .ok [] := by
  decide

/-- The string that a client packs a location in. -/
def locationText (method path line : LogString) : LogString :=
  method ++ 0x28 :: (path ++ 0x3A :: (line ++ [0x29]))

variable {method path line : LogString}

theorem locationText_length : (locationText method path line).length =
    method.length + path.length + line.length + 3 := by
  simp only [locationText, List.length_append, List.length_cons, List.length_nil]
  omega

section

variable (hSize : (locationText method path line).length ≤ maxSize)
include hSize

theorem getFileName_locationText (hPath : 0x28 ∉ path) (hLine : 0x3A ∉ line) :
    getFileName (locationText method path line) = .ok path := by
  have hLength := @locationText_length method path line
  have hColon : findLastOf (locationText method path line) 0x3A npos =
      UInt64.ofNat (method.length + (path.length + 1)) := by
    rw [findLastOf_npos (method ++ 0x28 :: path) (line ++ [0x29]) hSize
      (by simp [locationText]) (by simp [hLine]), List.length_append, List.length_cons]
  have hParen : findLastOf (locationText method path line) 0x28
      (UInt64.ofNat (method.length + path.length)) = UInt64.ofNat method.length := by
    refine findLastOf_eq method path (by omega) ?_ hPath
    rw [show locationText method path line =
        (method ++ 0x28 :: path) ++ 0x3A :: (line ++ [0x29]) by simp [locationText]]
    exact List.take_left' (by simp [Nat.add_assoc])
  have hText := substr_between (method ++ [0x28]) path (0x3A :: (line ++ [0x29])) hSize
    (by simp [locationText])
  rw [List.length_append, List.length_singleton] at hText
  unfold getFileName
  dsimp only
  rw [hColon, if_neg (ofNat_ne_npos (by omega)), ← UInt64.ofNat_one, ← UInt64.ofNat_sub (by omega),
    show method.length + (path.length + 1) - 1 = method.length + path.length by omega, hParen,
    ← UInt64.ofNat_add, ← UInt64.ofNat_sub (by omega),
    show method.length + (path.length + 1) - (method.length + 1) = path.length by omega, hText]

theorem getLineNumber_locationText (hLine : 0x3A ∉ line) :
    getLineNumber (locationText method path line) = .ok line := by
  have hLength := @locationText_length method path line
  have hClose : findLastOf (locationText method path line) 0x29 npos =
      UInt64.ofNat (method.length + path.length + line.length + 2) := by
    rw [findLastOf_npos (method ++ 0x28 :: (path ++ 0x3A :: line)) [] hSize
      (by simp [locationText]) List.not_mem_nil]
    congr 1
    simp only [List.length_append, List.length_cons]
    omega
  have hColon : findLastOf (locationText method path line) 0x3A
      (UInt64.ofNat (method.length + path.length + line.length + 1)) =
        UInt64.ofNat (method.length + path.length + 1) := by
    rw [findLastOf_eq (method ++ 0x28 :: path) line (by omega) ?_ hLine, List.length_append,
      List.length_cons, Nat.add_assoc]
    rw [show locationText method path line =
        (method ++ 0x28 :: path ++ 0x3A :: line) ++ [0x29] by simp [locationText]]
    refine List.take_left' ?_
    simp only [List.length_append, List.length_cons]
    omega
  have hText := substr_between (method ++ 0x28 :: (path ++ [0x3A])) line [0x29] hSize
    (by simp [locationText])
  have hLeft : (method ++ 0x28 :: (path ++ [0x3A])).length = method.length + path.length + 2 := by
    simp only [List.length_append, List.length_cons, List.length_nil]
    omega
  rw [hLeft] at hText
  unfold getLineNumber
  dsimp only
  rw [hClose, ← UInt64.ofNat_one, ← UInt64.ofNat_sub (by omega), Nat.add_sub_assoc (by decide),
    hColon, if_neg (ofNat_ne_npos (by omega)), ← UInt64.ofNat_add, ← UInt64.ofNat_sub (by omega),
    show method.length + path.length + line.length + 2 - (method.length + path.length + 1 + 1) =
      line.length by omega, hText]

/-- Where the last parenthesis that opens is. -/
theorem findLastOf_paren (hPath : 0x28 ∉ path) (hLine : 0x28 ∉ line) :
    findLastOf (locationText method path line) 0x28 npos = UInt64.ofNat method.length :=
  findLastOf_npos method (path ++ 0x3A :: (line ++ [0x29])) hSize rfl (by simp [hPath, hLine])

omit hSize in
theorem take_method : (locationText method path line).take (method.length + 1) =
    method ++ [0x28] := by
  rw [show locationText method path line =
      (method ++ [0x28]) ++ (path ++ 0x3A :: (line ++ [0x29])) by simp [locationText]]
  exact List.take_left' (by simp)

/-- Without a class in front of it, the method is not found. -/
theorem getMethodName_of_notMem (hPath : 0x28 ∉ path) (hLine : 0x28 ∉ line)
    (hDot : 0x2E ∉ method) : getMethodName (locationText method path line) = .ok locationNA := by
  have hLength := @locationText_length method path line
  have hNone : findLastOf (locationText method path line) 0x2E (UInt64.ofNat method.length) =
      npos := by
    refine findLastOf_eq_npos (by omega) ?_
    rw [take_method]
    simp [hDot]
  unfold getMethodName
  dsimp only
  rw [findLastOf_paren hSize hPath hLine, hNone, if_pos rfl]
  rfl

/-- The method is what follows the last dot. -/
theorem getMethodName_of_dot {className name : LogString} (hPath : 0x28 ∉ path)
    (hLine : 0x28 ∉ line) (hMethod : method = className ++ 0x2E :: name) (hDot : 0x2E ∉ name) :
    getMethodName (locationText method path line) = .ok name := by
  have hLength := @locationText_length method path line
  have hName := congrArg List.length hMethod
  rw [List.length_append, List.length_cons] at hName
  have hLast : findLastOf (locationText method path line) 0x2E (UInt64.ofNat method.length) =
      UInt64.ofNat className.length := by
    refine findLastOf_eq className (name ++ [0x28]) (by omega) ?_ (by simp [hDot])
    rw [take_method, hMethod]
    simp
  have hText := substr_between (className ++ [0x2E]) name
    (0x28 :: (path ++ 0x3A :: (line ++ [0x29]))) hSize (by simp [locationText, hMethod])
  rw [List.length_append, List.length_singleton] at hText
  unfold getMethodName
  dsimp only
  rw [findLastOf_paren hSize hPath hLine, hLast, if_neg (ofNat_ne_npos (by omega)),
    ← UInt64.ofNat_one, ← UInt64.ofNat_add, ← UInt64.ofNat_sub (by omega),
    show method.length - (className.length + 1) = name.length by omega, hText]

end

end LogSocket
