/-!
# Lexemes of JSON

A JSON text is cut into lexemes. Of a number only a value without sign, fraction and
exponent is kept, and of a string its content, unless an escape leaves half of a
surrogate pair alone: such a string is no text, but it is a string.
-/

namespace Concordance.Json

inductive Lexeme where
  | leftBrace
  | rightBrace
  | leftBracket
  | rightBracket
  | colon
  | comma
  | null
  | bool (value : Bool)
  | natural (value : Nat)
  /-- A number with a sign, a fraction or an exponent. -/
  | otherNumber
  | text (content? : Option String)
  deriving DecidableEq, Repr

/-- A character of a string, or an escape that gives its code unit. -/
inductive TextUnit where
  | char (char : Char)
  | code (unit : Nat)
  deriving DecidableEq, Repr

namespace Lexeme

def isBlank (char : Char) : Bool :=
  char = ' ' || char = '\t' || char = '\n' || char = '\r'

def hexDigit? (char : Char) : Option Nat :=
  if '0' ≤ char ∧ char ≤ '9' then some (char.toNat - '0'.toNat)
  else if 'a' ≤ char ∧ char ≤ 'f' then some (char.toNat - 'a'.toNat + 10)
  else if 'A' ≤ char ∧ char ≤ 'F' then some (char.toNat - 'A'.toNat + 10)
  else none

/-- The code unit of four hexadecimal digits. -/
def codeUnit? (a b c d : Char) : Option Nat := do
  return ((← hexDigit? a) * 16 + (← hexDigit? b)) * 256
    + ((← hexDigit? c) * 16 + (← hexDigit? d))

/-- The character that a letter after a backslash stands for. -/
def escaped? : Char → Option Char
  | '"' => some '"'
  | '\\' => some '\\'
  | '/' => some '/'
  | 'b' => some '\x08'
  | 'f' => some '\x0c'
  | 'n' => some '\n'
  | 'r' => some '\r'
  | 't' => some '\t'
  | _ => none

/-- The rest of a string after its opening quote, and what follows the closing one. -/
def scanText : List Char → Option (List TextUnit × List Char)
  | [] => none
  | '"' :: rest => some ([], rest)
  | '\\' :: 'u' :: a :: b :: c :: d :: rest =>
    match codeUnit? a b c d, scanText rest with
    | some unit, some (units, after) => some (.code unit :: units, after)
    | _, _ => none
  | '\\' :: letter :: rest =>
    match escaped? letter, scanText rest with
    | some char, some (units, after) => some (.char char :: units, after)
    | _, _ => none
  | char :: rest =>
    if char.toNat < 0x20 ∨ char = '\\' then none
    else
      match scanText rest with
      | some (units, after) => some (.char char :: units, after)
      | none => none

def isHighSurrogate (unit : Nat) : Bool := 0xd800 ≤ unit && unit < 0xdc00

def isLowSurrogate (unit : Nat) : Bool := 0xdc00 ≤ unit && unit < 0xe000

/-- The characters of a string; none if half of a surrogate pair stands alone. -/
def joinUnits : List TextUnit → Option (List Char)
  | [] => some []
  | .char char :: units => (joinUnits units).map (char :: ·)
  | .code high :: .code low :: units =>
    if isHighSurrogate high then
      if isLowSurrogate low then
        let point := 0x10000 + (high - 0xd800) * 0x400 + (low - 0xdc00)
        (joinUnits units).map (Char.ofNat point :: ·)
      else none
    else if isLowSurrogate high then none
    else (joinUnits (.code low :: units)).map (Char.ofNat high :: ·)
  | .code unit :: units =>
    if isHighSurrogate unit || isLowSurrogate unit then none
    else (joinUnits units).map (Char.ofNat unit :: ·)

/-- The digits at the start of a text, and what follows them. -/
def scanDigits (chars : List Char) : List Char × List Char :=
  (chars.takeWhile Char.isDigit, chars.dropWhile Char.isDigit)

/-- The whole part of a number: zero alone, or digits that do not start with zero. -/
def scanWhole : List Char → Option (List Char × List Char)
  | [] => none
  | '0' :: rest => some (['0'], rest)
  | char :: rest => if char.isDigit then some (scanDigits (char :: rest)) else none

/-- Passes the fraction of a number, if it has one, and says whether it has. -/
def scanFraction : List Char → Option (Bool × List Char)
  | '.' :: rest =>
    match scanDigits rest with
    | ([], _) => none
    | (_ :: _, after) => some (true, after)
  | rest => some (false, rest)

/-- Passes the exponent of a number, if it has one, and says whether it has. -/
def scanExponent : List Char → Option (Bool × List Char)
  | [] => some (false, [])
  | char :: rest =>
    if char = 'e' ∨ char = 'E' then
      let unsigned :=
        match rest with
        | '+' :: digits => digits
        | '-' :: digits => digits
        | digits => digits
      match scanDigits unsigned with
      | ([], _) => none
      | (_ :: _, after) => some (true, after)
    else some (false, char :: rest)

/-- A number without its sign. -/
def scanNumber (negative : Bool) (chars : List Char) : Option (Lexeme × List Char) := do
  let (whole, rest) ← scanWhole chars
  let (fraction, rest) ← scanFraction rest
  let (exponent, rest) ← scanExponent rest
  if negative || fraction || exponent then
    return (.otherNumber, rest)
  return (.natural (Nat.ofDigitChars 10 whole 0), rest)

/-- The lexeme at the start of a text that does not start blank, and what follows it. -/
def scan : List Char → Option (Lexeme × List Char)
  | [] => none
  | '\x7b' :: rest => some (.leftBrace, rest)
  | '\x7d' :: rest => some (.rightBrace, rest)
  | '[' :: rest => some (.leftBracket, rest)
  | ']' :: rest => some (.rightBracket, rest)
  | ':' :: rest => some (.colon, rest)
  | ',' :: rest => some (.comma, rest)
  | '"' :: rest =>
    match scanText rest with
    | some (units, after) => some (.text ((joinUnits units).map String.ofList), after)
    | none => none
  | '-' :: rest => scanNumber true rest
  | 'n' :: 'u' :: 'l' :: 'l' :: rest => some (.null, rest)
  | 't' :: 'r' :: 'u' :: 'e' :: rest => some (.bool true, rest)
  | 'f' :: 'a' :: 'l' :: 's' :: 'e' :: rest => some (.bool false, rest)
  | chars => scanNumber false chars

/-- The lexemes of a text, at most `limit` of them with the blanks between. -/
def scanAll : (limit : Nat) → List Char → Option (List Lexeme)
  | _, [] => some []
  | 0, _ :: _ => none
  | limit + 1, char :: rest =>
    if isBlank char then scanAll limit rest
    else
      match scan (char :: rest) with
      | none => none
      | some (lexeme, after) => (scanAll limit after).map (lexeme :: ·)

/-- The lexemes of a text. Each takes a character at least, so the length of the text is
limit enough. -/
def ofText? (text : String) : Option (List Lexeme) :=
  scanAll text.length text.toList

end Lexeme

/-- An array or object that is open while its content is read. -/
inductive Frame where
  | array
  | object
  deriving DecidableEq, Repr

/-- What may come next inside a value. -/
inductive Expect where
  | value
  /-- A value or the end of an array that has none. -/
  | element
  /-- A key or the end of an object that has none. -/
  | member
  | key
  | colon
  /-- A comma or the end of the array or object. -/
  | separator
  deriving DecidableEq, Repr

namespace Expect

/-- Goes one lexeme on where a value starts. -/
def start (frames : List Frame) : Lexeme → Option (Expect × List Frame)
  | .leftBracket => some (element, .array :: frames)
  | .leftBrace => some (member, .object :: frames)
  | .null => some (separator, frames)
  | .bool _ => some (separator, frames)
  | .natural _ => some (separator, frames)
  | .otherNumber => some (separator, frames)
  | .text _ => some (separator, frames)
  | _ => none

/-- Goes one lexeme on inside a value. -/
def next : Expect → List Frame → Lexeme → Option (Expect × List Frame)
  | value, frames, lexeme => start frames lexeme
  | element, _ :: frames, .rightBracket => some (separator, frames)
  | element, frames, lexeme => start frames lexeme
  | member, _ :: frames, .rightBrace => some (separator, frames)
  | member, frames, .text _ => some (colon, frames)
  | key, frames, .text _ => some (colon, frames)
  | colon, frames, .colon => some (value, frames)
  | separator, .array :: frames, .comma => some (value, .array :: frames)
  | separator, .array :: frames, .rightBracket => some (separator, frames)
  | separator, .object :: frames, .comma => some (key, .object :: frames)
  | separator, .object :: frames, .rightBrace => some (separator, frames)
  | _, _, _ => none

end Expect

/-- Passes lexemes until the value is complete; gives the lexemes after it. -/
def passFrom : Expect → List Frame → List Lexeme → Option (List Lexeme)
  | _, _, [] => none
  | expect, frames, lexeme :: lexemes =>
    match expect.next frames lexeme with
    | none => none
    | some (.separator, []) => some lexemes
    | some (expect', frames') => passFrom expect' frames' lexemes

/-- The lexemes after the value at the start, whatever value it is. -/
def passValue (lexemes : List Lexeme) : Option (List Lexeme) := passFrom .value [] lexemes

theorem length_passFrom {expect : Expect} {frames : List Frame} {lexemes rest : List Lexeme}
    (h : passFrom expect frames lexemes = some rest) : rest.length < lexemes.length := by
  induction lexemes generalizing expect frames with
  | nil => cases h
  | cons lexeme lexemes ih =>
      unfold passFrom at h
      split at h
      · cases h
      · cases h; simp
      · exact Nat.lt_succ_of_lt (ih h)

end Concordance.Json
