import LogSocket.Event

/-! `PatternParser`, which makes converters of a conversion pattern, and the name pattern that
`DailyRollingFileAppender` makes of its `DatePattern`. -/

namespace LogSocket.Pattern

structure FormattingInfo where
  leftAlign : Bool
  minLength : Nat
  maxLength : Nat
  deriving DecidableEq

/-- `FormattingInfo::getDefault`, whose maximum is `INT_MAX`. -/
def FormattingInfo.getDefault : FormattingInfo := ⟨false, 0, 2147483647⟩

/-- `FormattingInfo::format`, of what a converter has appended. -/
def FormattingInfo.format (info : FormattingInfo) (field : LogString) : LogString :=
  if info.maxLength < field.length then field.drop (field.length - info.maxLength)
  else
    let blanks := List.replicate (info.minLength - field.length) 0x20
    if info.leftAlign then field ++ blanks else blanks ++ field

/-- A literal, or what a rule makes of the options. -/
inductive Converter (ρ : Type)
  | literal (text : LogString)
  | rule (value : ρ)
  deriving DecidableEq

inductive State
  | literal
  | converter
  | dot
  | min
  | max
  deriving DecidableEq

/-- The locals of `parse`, with the converters and their formatting infos. -/
structure Parser (ρ : Type) where
  state : State
  currentLiteral : LogString
  formattingInfo : FormattingInfo
  fields : List (Converter ρ × FormattingInfo)

/-- A `PatternMap`: what is made of the options of a specifier. -/
abbrev PatternMap (ρ : Type) := LogString → Option (List LogString → ρ)

def isDigit (ch : UInt8) : Bool := 0x30 ≤ ch && ch ≤ 0x39

def isUnicodeIdentifierStart (ch : UInt8) : Bool :=
  (0x41 ≤ ch && ch ≤ 0x5A) || (0x61 ≤ ch && ch ≤ 0x7A) || isDigit ch

def isUnicodeIdentifierPart (ch : UInt8) : Bool := isUnicodeIdentifierStart ch || ch == 0x5F

/-- `extractOptions`: the options in braces, and what is behind them. -/
def extractOptions : Nat → LogString → List LogString × LogString
  | fuel + 1, 0x7B :: rest =>
    if 0x7D ∈ rest then
      let (options, rest') := extractOptions fuel ((rest.dropWhile (· ≠ 0x7D)).drop 1)
      (rest.takeWhile (· ≠ 0x7D) :: options, rest')
    else ([], 0x7B :: rest)
  | _, rest => ([], rest)

/-- The loop of `createConverter` over the front parts of the specifier, longest first: what was found
and how much of the specifier is left. -/
def createConverter {ρ : Type} (rules : PatternMap ρ) (converterId : LogString)
    (options : List LogString) : Nat → Option (ρ × Nat)
  | 0 => none
  | i + 1 =>
    match rules (converterId.take (i + 1)) with
    | some newInstance => some (newInstance options, converterId.length - (i + 1))
    | none => createConverter rules converterId options i

/-- A literal that is not empty becomes a converter. -/
def flush {ρ : Type} (currentLiteral : LogString) : List (Converter ρ × FormattingInfo) :=
  if currentLiteral = [] then [] else [(.literal currentLiteral, .getDefault)]

/-- `finalizeConverter` with `extractConverter`, at the first character of a specifier, which the
literal already has: the new converters and what is left of the pattern. -/
def finalizeConverter {ρ : Type} (rules : PatternMap ρ) (c : UInt8) (rest currentLiteral : LogString)
    (info : FormattingInfo) : List (Converter ρ × FormattingInfo) × LogString :=
  if !isUnicodeIdentifierStart c then ([(.literal currentLiteral, .getDefault)], rest)
  else
    let name := rest.takeWhile isUnicodeIdentifierPart
    let converterId := c :: name
    let currentLiteral := currentLiteral ++ name
    let (options, rest) :=
      extractOptions rest.length (rest.dropWhile isUnicodeIdentifierPart)
    match createConverter rules converterId options converterId.length with
    | none => ([(.literal currentLiteral, .getDefault)], rest)
    | some (value, left) =>
      ((.rule value, info) :: flush (currentLiteral.drop (currentLiteral.length - left)), rest)

namespace Parser

variable {ρ : Type} (rules : PatternMap ρ)

def finalize (s : Parser ρ) (c : UInt8) (rest : LogString) : Parser ρ × LogString :=
  let (fields, rest) := finalizeConverter rules c rest s.currentLiteral s.formattingInfo
  (⟨.literal, [], .getDefault, s.fields ++ fields⟩, rest)

/-- The body of the `while` loop at a character. -/
def turn (s : Parser ρ) (c : UInt8) (rest : LogString) : Parser ρ × LogString :=
  let literal := s.currentLiteral ++ [c]
  match s.state with
  | .literal =>
    if c = 0x25 then
      match rest with
      | [] => ({ s with currentLiteral := literal }, [])
      | 0x25 :: rest => ({ s with currentLiteral := literal }, rest)
      | rest => (⟨.converter, [c], .getDefault, s.fields ++ flush s.currentLiteral⟩, rest)
    else ({ s with currentLiteral := literal }, rest)
  | .converter =>
    let s := { s with currentLiteral := literal }
    if c = 0x2D then ({ s with formattingInfo.leftAlign := true }, rest)
    else if c = 0x2E then ({ s with state := .dot }, rest)
    else if isDigit c then
      ({ s with state := .min, formattingInfo.minLength := (c - 0x30).toNat }, rest)
    else s.finalize rules c rest
  | .min =>
    let s := { s with currentLiteral := literal }
    if isDigit c then
      ({ s with formattingInfo.minLength :=
          s.formattingInfo.minLength * 10 + (c - 0x30).toNat }, rest)
    else if c = 0x2E then ({ s with state := .dot }, rest)
    else s.finalize rules c rest
  | .dot =>
    let s := { s with currentLiteral := literal }
    if isDigit c then
      ({ s with state := .max, formattingInfo.maxLength := (c - 0x30).toNat }, rest)
    else ({ s with state := .literal }, rest)
  | .max =>
    let s := { s with currentLiteral := literal }
    if isDigit c then
      ({ s with formattingInfo.maxLength :=
          s.formattingInfo.maxLength * 10 + (c - 0x30).toNat }, rest)
    else s.finalize rules c rest

/-- The `while` loop for `fuel` turns, and the literal at the end. -/
def loop : Nat → Parser ρ → LogString → List (Converter ρ × FormattingInfo)
  | 0, s, _ => s.fields ++ flush s.currentLiteral
  | _ + 1, s, [] => s.fields ++ flush s.currentLiteral
  | fuel + 1, s, c :: rest =>
    let (s, rest) := s.turn rules c rest
    loop fuel s rest

end Parser

/-- `PatternParser::parse`, of a pattern whose length an `int` holds: every turn takes a character at
least. -/
def parse {ρ : Type} (rules : PatternMap ρ) (pattern : LogString) :
    List (Converter ρ × FormattingInfo) :=
  Parser.loop rules pattern.length ⟨.literal, [], .getDefault, []⟩ pattern

/-- The loop of `formatFileName` over converters, which a layout has as well. -/
def format {ρ : Type} (render : ρ → LogString) (fields : List (Converter ρ × FormattingInfo)) :
    LogString :=
  fields.flatMap fun field => field.2.format
    (match field.1 with
    | .literal text => text
    | .rule value => render value)

/-- `TimeBasedRollingPolicy::getFormatSpecifiers` with `FileDatePatternConverter`: the options of the
date format, `yyyy-MM-dd` if there are none. -/
def fileSpecifiers : PatternMap (List LogString)
  | [0x64] | [0x64, 0x61, 0x74, 0x65] => some fun options =>
    if options = [] then [[0x79, 0x79, 0x79, 0x79, 0x2D, 0x4D, 0x4D, 0x2D, 0x64, 0x64]] else options
  | _ => none

/-- `formatFileName` of a time, where `date` formats it. -/
def formatFileName (date : List LogString → Nat → LogString) (fileNamePattern : LogString) (t : Nat) :
    LogString :=
  format (date · t) (parse fileSpecifiers fileNamePattern)

/-- The locals of `DailyRollingFileAppender::activateOptions`. -/
structure DatePattern where
  pattern : LogString
  inLiteral : Bool
  inPattern : Bool

/-- The body of its loop. -/
def DatePattern.turn (s : DatePattern) (c : UInt8) : DatePattern :=
  if c = 0x27 then
    if !s.inLiteral && s.inPattern then ⟨s.pattern ++ [0x7D], true, false⟩
    else { s with inLiteral := !s.inLiteral }
  else if !s.inLiteral && !s.inPattern then
    ⟨s.pattern ++ [0x25, 0x64, 0x7B] ++ [c], s.inLiteral, true⟩
  else { s with pattern := s.pattern ++ [c] }

/-- The pattern that is given to `setFileNamePattern`. -/
def fileNamePattern (file datePattern : LogString) : LogString :=
  let s := datePattern.foldl DatePattern.turn ⟨file, false, false⟩
  if s.inPattern then s.pattern ++ [0x7D] else s.pattern

end LogSocket.Pattern
