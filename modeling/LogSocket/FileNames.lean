import LogSocket.PatternParser
import LogSocket.Rollovers

/-! What a `DatePattern` says. Its quotes divide it into formats of the date and texts, and the name of
the file at a time is the configured file with the formatted dates and the texts behind it. -/

namespace LogSocket.Pattern

/-- The name pattern of the segments between quotes, which are formats and texts in turn. -/
def patternOf : Bool → List LogString → LogString
  | _, [] => []
  | true, text :: segments => text ++ patternOf false segments
  | false, segment :: segments =>
    (if segment = [] then [] else [0x25, 0x64, 0x7B] ++ segment ++ [0x7D]) ++ patternOf true segments

/-- What the segments say, where `date` formats a time. -/
def rendered (date : LogString → LogString) : Bool → List LogString → LogString
  | _, [] => []
  | true, text :: segments => text ++ rendered date false segments
  | false, segment :: segments =>
    (if segment = [] then [] else date segment) ++ rendered date true segments

/-- The formats among the segments. -/
def formats : Bool → List LogString → List LogString
  | _, [] => []
  | true, _ :: segments => formats false segments
  | false, segment :: segments =>
    (if segment = [] then [] else [segment]) ++ formats true segments

/-- Segments that `PatternParser` takes for what they are: no text has a `%` or begins with a brace,
and no format has a closing one. -/
def Parsable : Bool → List LogString → Prop
  | _, [] => True
  | true, text :: segments => 0x25 ∉ text ∧ text.head? ≠ some 0x7B ∧ Parsable false segments
  | false, segment :: segments => 0x7D ∉ segment ∧ Parsable true segments

/-- The end of `DailyRollingFileAppender::activateOptions`. -/
def DatePattern.finish (s : DatePattern) : LogString :=
  if s.inPattern then s.pattern ++ [0x7D] else s.pattern

/-- The loop makes the name pattern of the segments, from outside of a text, from inside of a format
and from inside of a text. -/
theorem datePattern_loop (datePattern pattern : LogString) :
    (datePattern.foldl DatePattern.turn ⟨pattern, false, false⟩).finish =
        pattern ++ patternOf false (datePattern.splitOn 0x27) ∧
      (∀ segment segments, datePattern.splitOn 0x27 = segment :: segments →
        (datePattern.foldl DatePattern.turn ⟨pattern, false, true⟩).finish =
          pattern ++ segment ++ [0x7D] ++ patternOf true segments) ∧
      (datePattern.foldl DatePattern.turn ⟨pattern, true, false⟩).finish =
        pattern ++ patternOf true (datePattern.splitOn 0x27) := by
  induction datePattern generalizing pattern with
  | nil =>
    refine ⟨by simp [DatePattern.finish, patternOf], fun segment segments h => ?_,
      by simp [DatePattern.finish, patternOf]⟩
    obtain ⟨rfl, rfl⟩ : segment = [] ∧ segments = [] := by simpa [eq_comm] using h
    simp [DatePattern.finish, patternOf]
  | cons c datePattern ih =>
    obtain ⟨segment, segments, hSplit⟩ :=
      List.exists_cons_of_ne_nil (List.splitOn_ne_nil 0x27 datePattern)
    rw [List.splitOn_cons_eq_if_modifyHead]
    by_cases hQuote : c = 0x27
    · subst hQuote
      refine ⟨(ih pattern).2.2, fun segment segments h => ?_, (ih pattern).1⟩
      obtain ⟨rfl, rfl⟩ := List.cons.inj h
      rw [List.append_nil]
      exact (ih _).2.2
    · rw [hSplit] at ih
      have hTail : (if (c == 0x27) = true then [] :: datePattern.splitOn 0x27
          else (datePattern.splitOn 0x27).modifyHead (List.cons c)) =
            (c :: segment) :: segments := by
        rw [if_neg (by simpa using hQuote), hSplit]
        rfl
      rw [hTail]
      have hTurn (inLiteral inPattern : Bool) : DatePattern.turn ⟨pattern, inLiteral, inPattern⟩ c =
          if !inLiteral && !inPattern then ⟨pattern ++ [0x25, 0x64, 0x7B] ++ [c], inLiteral, true⟩
          else ⟨pattern ++ [c], inLiteral, inPattern⟩ := if_neg hQuote
      refine ⟨?_, fun segment' segments' h => ?_, ?_⟩
      · rw [List.foldl_cons, hTurn]
        exact ((ih _).2.1 segment segments rfl).trans (by simp [patternOf])
      · obtain ⟨rfl, rfl⟩ := List.cons.inj h
        rw [List.foldl_cons, hTurn]
        exact ((ih _).2.1 segment segments rfl).trans (by simp)
      · rw [List.foldl_cons, hTurn]
        exact (ih _).2.2.trans (by simp [patternOf])

theorem fileNamePattern_eq (file datePattern : LogString) :
    fileNamePattern file datePattern = file ++ patternOf false (datePattern.splitOn 0x27) :=
  (datePattern_loop datePattern file).1

section

variable {ρ : Type} {rules : PatternMap ρ} {info : FormattingInfo} {literal rest : LogString}
  {fields : List (Converter ρ × FormattingInfo)}

theorem turn_literal {c : UInt8} (hc : c ≠ 0x25) :
    Parser.turn rules ⟨.literal, literal, info, fields⟩ c rest =
      (⟨.literal, literal ++ [c], info, fields⟩, rest) := by
  unfold Parser.turn
  exact if_neg hc

/-- Text without a `%` is added to the literal. -/
theorem loop_text (fuel : Nat) {text : LogString} (hText : 0x25 ∉ text) :
    Parser.loop rules (text.length + fuel) ⟨.literal, literal, info, fields⟩ (text ++ rest) =
      Parser.loop rules fuel ⟨.literal, literal ++ text, info, fields⟩ rest := by
  induction text generalizing literal with
  | nil => simp
  | cons c text ih =>
    obtain ⟨hc, hText⟩ := List.ne_and_not_mem_of_not_mem_cons hText
    rw [List.length_cons, Nat.add_right_comm, List.cons_append, Parser.loop,
      turn_literal (Ne.symm hc)]
    dsimp only
    rw [ih hText, List.append_assoc, List.singleton_append]

theorem extractOptions_none (fuel : Nat) (hRest : rest.head? ≠ some 0x7B) :
    extractOptions fuel rest = ([], rest) := by
  unfold extractOptions
  split
  next => exact absurd rfl hRest
  next => rfl

theorem extractOptions_one (fuel : Nat) {format : LogString} (hFormat : 0x7D ∉ format)
    (hRest : rest.head? ≠ some 0x7B) :
    extractOptions (fuel + 1) (0x7B :: (format ++ 0x7D :: rest)) = ([format], rest) := by
  have hAll : ∀ c ∈ format, decide (c ≠ 0x7D) = true := by
    intro c hMem
    exact decide_eq_true fun hEq => hFormat (hEq ▸ hMem)
  rw [extractOptions, if_pos (by simp), List.takeWhile_append_of_pos hAll,
    List.dropWhile_append_of_pos hAll]
  simp [extractOptions_none fuel hRest]

/-- A format of the date becomes a converter. -/
theorem loop_date (fuel : Nat) {fields : List (Converter (List LogString) × FormattingInfo)}
    {format : LogString} (hFormat : 0x7D ∉ format) (hRest : rest.head? ≠ some 0x7B) :
    Parser.loop fileSpecifiers (fuel + 2) ⟨.literal, literal, info, fields⟩
        (0x25 :: 0x64 :: 0x7B :: (format ++ 0x7D :: rest)) =
      Parser.loop fileSpecifiers fuel ⟨.literal, [], .getDefault,
        fields ++ flush literal ++ [(.rule [format], .getDefault)]⟩ rest := by
  have hFinalize : finalizeConverter fileSpecifiers 0x64 (0x7B :: (format ++ 0x7D :: rest))
      [0x25, 0x64] .getDefault = ([(.rule [format], .getDefault)], rest) := by
    have hName : (0x7B :: (format ++ 0x7D :: rest)).takeWhile isUnicodeIdentifierPart = [] := rfl
    have hBehind : (0x7B :: (format ++ 0x7D :: rest)).dropWhile isUnicodeIdentifierPart =
      0x7B :: (format ++ 0x7D :: rest) := rfl
    simp only [finalizeConverter, hName, hBehind, List.length_cons,
      extractOptions_one _ hFormat hRest]
    rfl
  have hPercent : Parser.turn fileSpecifiers ⟨.literal, literal, info, fields⟩ 0x25
      (0x64 :: 0x7B :: (format ++ 0x7D :: rest)) =
        (⟨.converter, [0x25], .getDefault, fields ++ flush literal⟩,
          0x64 :: 0x7B :: (format ++ 0x7D :: rest)) := rfl
  have hSpecifier : Parser.turn fileSpecifiers
      ⟨.converter, [0x25], .getDefault, fields ++ flush literal⟩ 0x64
      (0x7B :: (format ++ 0x7D :: rest)) =
        (⟨.literal, [], .getDefault, fields ++ flush literal ++ [(.rule [format], .getDefault)]⟩,
          rest) := by
    simp [Parser.turn, isDigit, Parser.finalize, hFinalize]
  rw [Parser.loop, hPercent]
  dsimp only
  rw [Parser.loop, hSpecifier]

theorem format_append (render : ρ → LogString) (more : List (Converter ρ × FormattingInfo)) :
    format render (fields ++ more) = format render fields ++ format render more :=
  List.flatMap_append

/-- What converters and an unfinished literal give. -/
theorem format_flush {render : ρ → LogString} (hLiteral : literal.length ≤ 2147483647) :
    format render (fields ++ flush literal) = format render fields ++ literal := by
  have hKept : FormattingInfo.getDefault.format literal = literal := by
    simp [FormattingInfo.format, FormattingInfo.getDefault, Nat.not_lt.mpr hLiteral]
  rw [format_append, flush]
  split
  next hNil => simp [hNil, format]
  next => simp [hKept, format]

end

theorem patternOf_head {inText : Bool} {segments : List LogString}
    (h : Parsable inText segments) : (patternOf inText segments).head? ≠ some 0x7B := by
  induction segments generalizing inText with
  | nil => cases inText <;> simp [patternOf]
  | cons segment segments ih =>
    cases inText with
    | true =>
      obtain ⟨-, hHead, hRest⟩ := h
      cases segment with
      | nil => simpa [patternOf] using ih hRest
      | cons c text => simpa [patternOf] using hHead
    | false =>
      obtain ⟨-, hRest⟩ := h
      by_cases hNil : segment = []
      · simpa [patternOf, hNil] using ih hRest
      · simp [patternOf, hNil]

/-- The parser reads the segments of a name pattern. -/
theorem loop_segments {date : List LogString → LogString} {inText : Bool}
    {segments : List LogString} (hParsable : Parsable inText segments)
    (hDate : ∀ format ∈ formats inText segments, (date [format]).length ≤ 2147483647) {fuel : Nat}
    {literal : LogString} {info : FormattingInfo}
    {fields : List (Converter (List LogString) × FormattingInfo)}
    (hFuel : (patternOf inText segments).length ≤ fuel)
    (hSize : literal.length + (patternOf inText segments).length ≤ 2147483647) :
    format date (Parser.loop fileSpecifiers fuel ⟨.literal, literal, info, fields⟩
        (patternOf inText segments)) =
      format date fields ++ literal ++ rendered (fun format => date [format]) inText segments := by
  induction segments generalizing inText fuel literal info fields with
  | nil =>
    have hLoop : Parser.loop fileSpecifiers fuel ⟨.literal, literal, info, fields⟩ [] =
        fields ++ flush literal := by cases fuel <;> rfl
    have hNone : patternOf inText [] = [] := by cases inText <;> rfl
    have hNothing : rendered (fun format => date [format]) inText [] = [] := by
      cases inText <;> rfl
    rw [hNone] at hSize ⊢
    rw [hLoop, format_flush hSize, hNothing, List.append_nil]
  | cons segment segments ih =>
    cases inText with
    | true =>
      obtain ⟨hText, -, hRest⟩ := hParsable
      simp only [patternOf, rendered, List.length_append] at hFuel hSize ⊢
      obtain ⟨left, rfl⟩ := Nat.exists_eq_add_of_le (Nat.le_trans (Nat.le_add_right _ _) hFuel)
      rw [loop_text left hText, ih hRest hDate (by omega) (by rw [List.length_append]; omega)]
      simp only [List.append_assoc]
    | false =>
      obtain ⟨hFormat, hRest⟩ := hParsable
      by_cases hNil : segment = []
      · simp only [patternOf, rendered, formats, if_pos hNil, List.nil_append] at hDate hFuel hSize ⊢
        exact ih hRest hDate hFuel hSize
      · simp only [patternOf, rendered, if_neg hNil, List.length_append, List.length_cons,
          List.length_nil] at hFuel hSize ⊢
        obtain ⟨left, rfl⟩ : ∃ left, fuel = left + 2 := ⟨fuel - 2, by omega⟩
        rw [formats, if_neg hNil, List.forall_mem_append, List.forall_mem_singleton] at hDate
        obtain ⟨hShort, hDate⟩ := hDate
        have hPattern : [0x25, 0x64, 0x7B] ++ segment ++ [0x7D] ++ patternOf true segments =
          0x25 :: 0x64 :: 0x7B :: (segment ++ 0x7D :: patternOf true segments) := by simp
        have hKept : FormattingInfo.getDefault.format (date [segment]) = date [segment] := by
          simp [FormattingInfo.format, FormattingInfo.getDefault, Nat.not_lt.mpr hShort]
        rw [hPattern, loop_date left hFormat (patternOf_head hRest),
          ih hRest hDate (by omega) (by rw [List.length_nil]; omega), format_append,
          format_flush (by omega)]
        simp [format, hKept]

/-- The name of the file at a time, by the segments of its `DatePattern`. -/
theorem formatFileName_of_split {date : List LogString → Nat → LogString}
    {file datePattern : LogString} {segments : List LogString} {t : Nat}
    (hSplit : datePattern.splitOn 0x27 = segments) (hFile : 0x25 ∉ file)
    (hParsable : Parsable false segments)
    (hSize : (fileNamePattern file datePattern).length ≤ 2147483647)
    (hDate : ∀ format ∈ formats false segments, (date [format] t).length ≤ 2147483647) :
    formatFileName date (fileNamePattern file datePattern) t =
      file ++ rendered (fun format => date [format] t) false segments := by
  rw [fileNamePattern_eq, hSplit, List.length_append] at hSize
  rw [formatFileName, parse, fileNamePattern_eq, hSplit, List.length_append, loop_text _ hFile,
    List.nil_append]
  exact loop_segments hParsable hDate le_rfl hSize

/-- The name of the file at a time is what its `DatePattern` says, behind the configured file. -/
theorem formatFileName_eq {date : List LogString → Nat → LogString} {file datePattern : LogString}
    {t : Nat} (hFile : 0x25 ∉ file) (hParsable : Parsable false (datePattern.splitOn 0x27))
    (hSize : (fileNamePattern file datePattern).length ≤ 2147483647)
    (hDate : ∀ format ∈ formats false (datePattern.splitOn 0x27),
      (date [format] t).length ≤ 2147483647) :
    formatFileName date (fileNamePattern file datePattern) t =
      file ++ rendered (fun format => date [format] t) false (datePattern.splitOn 0x27) :=
  formatFileName_of_split rfl hFile hParsable hSize hDate

/-- Dates of two formats: of `yyyy`, the year that is `t` years after 1970, and of others, the month of
which `t` is the digit. -/
def sampleDate (options : List LogString) (t : Nat) : LogString :=
  if options = [[0x79, 0x79, 0x79, 0x79]] then [0x31, 0x39, 0x37, UInt8.ofNat (0x30 + t)]
  else [0x30, UInt8.ofNat (0x30 + t)]

/-- `'.'yyyy'-m'MM` in the year 1974. -/
theorem formatFileName_eq_sample : formatFileName sampleDate (fileNamePattern [0x6C]
    [0x27, 0x2E, 0x27, 0x79, 0x79, 0x79, 0x79, 0x27, 0x2D, 0x6D, 0x27, 0x4D, 0x4D]) 4 =
      [0x6C, 0x2E, 0x31, 0x39, 0x37, 0x34, 0x2D, 0x6D, 0x30, 0x34] := by
  have hSplit : [0x27, 0x2E, 0x27, 0x79, 0x79, 0x79, 0x79, 0x27, 0x2D, 0x6D, 0x27, 0x4D,
      0x4D].splitOn (0x27 : UInt8) =
        [[], [0x2E], [0x79, 0x79, 0x79, 0x79], [0x2D, 0x6D], [0x4D, 0x4D]] := by
    simp [List.splitOn_cons_eq_if_modifyHead]
  have hName := @formatFileName_eq sampleDate [0x6C] [0x27, 0x2E, 0x27, 0x79, 0x79, 0x79, 0x79,
    0x27, 0x2D, 0x6D, 0x27, 0x4D, 0x4D] 4 (by decide) (by rw [hSplit]; simp [Parsable])
    (by decide)
    (by rw [hSplit]; decide)
  rwa [hSplit] at hName

/-- A text with every `%` twice. -/
def escape : LogString → LogString
  | [] => []
  | c :: text => if c = 0x25 then 0x25 :: 0x25 :: escape text else c :: escape text

theorem loop_escape {ρ : Type} (rules : PatternMap ρ) {text literal : LogString}
    {info : FormattingInfo} {fields : List (Converter ρ × FormattingInfo)} {fuel : Nat}
    (hFuel : (escape text).length ≤ fuel) :
    Parser.loop rules fuel ⟨.literal, literal, info, fields⟩ (escape text) =
      fields ++ flush (literal ++ text) := by
  induction text generalizing literal fuel with
  | nil =>
    rw [List.append_nil]
    cases fuel <;> rfl
  | cons c text ih =>
    rw [escape] at hFuel ⊢
    by_cases hc : c = 0x25
    · rw [if_pos hc, List.length_cons, List.length_cons] at hFuel
      obtain ⟨fuel, rfl⟩ : ∃ n, fuel = n + 1 := ⟨fuel - 1, by omega⟩
      have hRest := @ih (literal ++ [c]) fuel (by omega)
      rw [List.append_assoc, List.singleton_append] at hRest
      rw [if_pos hc, Parser.loop, ← hRest, hc]
      rfl
    · rw [if_neg hc, List.length_cons] at hFuel
      obtain ⟨fuel, rfl⟩ : ∃ n, fuel = n + 1 := ⟨fuel - 1, by omega⟩
      have hRest := @ih (literal ++ [c]) fuel (by omega)
      rw [List.append_assoc, List.singleton_append] at hRest
      rw [if_neg hc, Parser.loop, turn_literal hc, ← hRest]

theorem length_le_escape (text : LogString) : text.length ≤ (escape text).length := by
  induction text with
  | nil => exact le_rfl
  | cons c text ih =>
    rw [escape]
    split <;> simp only [List.length_cons] <;> omega

/-- Whatever the specifiers are, a text with every `%` twice is a literal, which gives the text. -/
theorem parse_escape {ρ : Type} (rules : PatternMap ρ) (render : ρ → LogString) {text : LogString}
    (hSize : (escape text).length ≤ 2147483647) :
    parse rules (escape text) = flush text ∧ format render (parse rules (escape text)) = text := by
  have hParse : parse rules (escape text) = flush text := loop_escape rules le_rfl
  have hText := Nat.le_trans (length_le_escape text) hSize
  refine ⟨hParse, hParse ▸ ?_⟩
  exact @format_flush ρ text [] render hText

/-- `50%d`, which is `50%%d` with every `%` twice. -/
theorem parse_escape_sample : parse fileSpecifiers [0x35, 0x30, 0x25, 0x25, 0x64] =
      [(.literal [0x35, 0x30, 0x25, 0x64], .getDefault)] ∧
    format (sampleDate · 4) (parse fileSpecifiers [0x35, 0x30, 0x25, 0x25, 0x64]) =
      [0x35, 0x30, 0x25, 0x64] :=
  @parse_escape _ fileSpecifiers (sampleDate · 4) [0x35, 0x30, 0x25, 0x64] (by decide)

end LogSocket.Pattern

namespace LogSocket.Rolling

open Lib Pattern

/-- `yyyy-MM-dd` -/
def yearMonthDay : LogString := [0x79, 0x79, 0x79, 0x79, 0x2D, 0x4D, 0x4D, 0x2D, 0x64, 0x64]

/-- `'.'yyyy-MM-dd` -/
def datePattern : LogString := [0x27, 0x2E, 0x27] ++ yearMonthDay

theorem datePattern_split : datePattern.splitOn 0x27 = [[], [0x2E], yearMonthDay] := by
  simp [datePattern, yearMonthDay, List.splitOn_cons_eq_if_modifyHead]

/-- The appender that a server is configured with. -/
def rolling (file : LogString) (layout : Layout) (date : List LogString → Nat → LogString) :
    Configuration where
  file := file
  append := true
  layout := layout
  formatFileName := formatFileName date (fileNamePattern file datePattern)

section

variable {file : LogString} (layout : Layout) {date : List LogString → Nat → LogString}
  (hPercent : 0x25 ∉ file) (hSize : file.length < 2147480000)
  (hDate : ∀ t, (date [yearMonthDay] t).length ≤ 2147483647)
include hPercent hSize hDate

theorem rolling_formatFileName (t : Nat) : (rolling file layout date).formatFileName t =
    file ++ [0x2E] ++ date [yearMonthDay] t := by
  have hParsable : Parsable false [[], [0x2E], yearMonthDay] := by simp [Parsable, yearMonthDay]
  have hLength : (fileNamePattern file datePattern).length ≤ 2147483647 := by
    rw [fileNamePattern_eq, datePattern_split]
    simp [patternOf, yearMonthDay]
    omega
  have hRendered : rendered (fun format => date [format] t) false [[], [0x2E], yearMonthDay] =
      [0x2E] ++ date [yearMonthDay] t := by simp [rendered, yearMonthDay]
  have hFormats : formats false [[], [0x2E], yearMonthDay] = [yearMonthDay] := by
    simp [formats, yearMonthDay]
  have hName := formatFileName_of_split datePattern_split hPercent hParsable hLength
    (by rw [hFormats]; exact List.forall_mem_singleton.mpr (hDate t))
  rw [hRendered, ← List.append_assoc] at hName
  simpa only [rolling] using hName

/-- Where days do not come back and end in a digit, its files are those of a daily configuration. -/
theorem rolling_daily (hFile : file ≠ []) (hDays : Periods (date [yearMonthDay]))
    (hDigit : ∀ t, ∃ digit, isDigit digit ∧ (date [yearMonthDay] t).getLast? = some digit) :
    (rolling file layout date).Daily := by
  have hName := rolling_formatFileName layout hPercent hSize hDate
  refine ⟨hFile, rfl, fun t h => ?_, fun t => ?_, fun a b t hab hbt h => ?_⟩
  · rw [hName, List.append_assoc] at h
    have hLength := congrArg List.length h
    simp [rolling] at hLength
  · obtain ⟨digit, hIs, hLast⟩ := hDigit t
    have hNot {suffix : LogString} {c : UInt8} (hSuffix : suffix.getLast? = some c)
        (hc : isDigit c = false) :
        suffix.isSuffixOf (file ++ [0x2E] ++ date [yearMonthDay] t) = false := by
      refine Bool.eq_false_iff.mpr fun h => ?_
      obtain ⟨front, hEq⟩ := List.isSuffixOf_iff_suffix.mp h
      have hEnd := congrArg List.getLast? hEq
      rw [List.getLast?_append, List.getLast?_append, hSuffix, hLast] at hEnd
      cases hEnd
      rw [hIs] at hc
      cases hc
    rw [hName, TimeBasedRollingPolicy.suffixLengthOf, hNot (c := 0x7A) rfl (by decide),
      hNot (c := 0x70) rfl (by decide)]
    rfl
  · rw [hName, hName, List.append_cancel_left_eq] at h
    rw [hName, hName, List.append_cancel_left_eq]
    exact hDays hab hbt h

end

end LogSocket.Rolling
