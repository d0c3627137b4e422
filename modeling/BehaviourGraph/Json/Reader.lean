import BehaviourGraph.Json.Value

/-!
# Reading JSON

A recursive descent over the characters of a text.  Every step consumes a character or goes one level
deeper, so twice the length of the text bounds the descent.
-/

namespace BehaviourGraph.Json

def isSpace (c : Char) : Bool :=
  c == ' ' || c == '\n' || c == '\t' || c == '\r'

def skipSpace (s : List Char) : List Char := s.dropWhile isSpace

def digitValue (c : Char) : Nat := c.toNat - '0'.toNat

/-- The leading digits of a text and the rest of it. -/
def readDigits (s : List Char) : List Nat × List Char :=
  ((s.takeWhile Char.isDigit).map digitValue, s.dropWhile Char.isDigit)

def readSomeDigits (s : List Char) : Option (List Nat × List Char) :=
  match readDigits s with
  | ([], _) => none
  | found => some found

/-- The whole part: a zero alone, or digits that start with another one. -/
def readWhole (s : List Char) : Option (List Nat × List Char) :=
  match readSomeDigits s with
  | some (0 :: _ :: _, _) => none
  | found => found

def readFraction : List Char → Option (List Nat × List Char)
  | '.' :: s => readSomeDigits s
  | s => some ([], s)

/-- The digits of an exponent behind its optional sign. -/
def readSignedDigits : List Char → Option ((Bool × List Nat) × List Char)
  | '+' :: s => (readSomeDigits s).map fun (digits, rest) => ((false, digits), rest)
  | '-' :: s => (readSomeDigits s).map fun (digits, rest) => ((true, digits), rest)
  | s => (readSomeDigits s).map fun (digits, rest) => ((false, digits), rest)

def readExponent : List Char → Option (Option (Bool × List Nat) × List Char)
  | 'e' :: s | 'E' :: s => (readSignedDigits s).map fun (found, rest) => (some found, rest)
  | s => some (none, s)

def readUnsigned (negative : Bool) (s : List Char) : Option (Number × List Char) := do
  let (whole, s) ← readWhole s
  let (fraction, s) ← readFraction s
  let (exponent, s) ← readExponent s
  some (⟨negative, whole, fraction, exponent⟩, s)

def readNumber : List Char → Option (Number × List Char)
  | '-' :: s => readUnsigned true s
  | s => readUnsigned false s

def hexValue (c : Char) : Option Nat :=
  if c.isDigit then some (digitValue c)
  else if 'a' ≤ c && c ≤ 'f' then some (c.toNat - 'a'.toNat + 10)
  else if 'A' ≤ c && c ≤ 'F' then some (c.toNat - 'A'.toNat + 10)
  else none

/-- The 16-bit unit that four hexadecimal digits give. -/
def readUnit (a b c d : Char) : Option Nat := do
  some ((((← hexValue a) * 16 + (← hexValue b)) * 16 + (← hexValue c)) * 16 + (← hexValue d))

/-- The character behind a backslash, where one character is enough. -/
def escapedChar : Char → Option Char
  | '"' => some '"'
  | '\\' => some '\\'
  | '/' => some '/'
  | 'b' => some '\x08'
  | 'f' => some '\x0c'
  | 'n' => some '\n'
  | 'r' => some '\r'
  | 't' => some '\t'
  | _ => none

/-- The code points of a string up to its closing quote.  Escaped surrogates stay apart. -/
def readString : List Char → Option (List Nat × List Char)
  | '"' :: s => some ([], s)
  | '\\' :: 'u' :: a :: b :: c :: d :: s => do
    let unit ← readUnit a b c d
    let (units, rest) ← readString s
    some (unit :: units, rest)
  | '\\' :: c :: s => do
    let char ← escapedChar c
    let (units, rest) ← readString s
    some (char.toNat :: units, rest)
  | c :: s => do
    guard (c ≠ '\\' ∧ 0x20 ≤ c.toNat)
    let (units, rest) ← readString s
    some (c.toNat :: units, rest)
  | [] => none

def isHighSurrogate (n : Nat) : Bool := 0xd800 ≤ n && n < 0xdc00

def isLowSurrogate (n : Nat) : Bool := 0xdc00 ≤ n && n < 0xe000

/-- The characters of code points: surrogates in pairs, none alone. -/
def charsOf : List Nat → Option (List Char)
  | [] => some []
  | [unit] => if isHighSurrogate unit || isLowSurrogate unit then none else some [.ofNat unit]
  | unit :: next :: rest =>
    if isHighSurrogate unit then
      if isLowSurrogate next then
        (charsOf rest).map (.ofNat (0x10000 + (unit - 0xd800) * 0x400 + (next - 0xdc00)) :: ·)
      else none
    else if isLowSurrogate unit then none
    else (charsOf (next :: rest)).map (.ofNat unit :: ·)

def textOf (units : List Nat) : Option String := (charsOf units).map String.ofList

mutual

/-- A value, with at most `fuel` steps down. -/
def readValue (fuel : Nat) (s : List Char) : Option (Value × List Char) :=
  match fuel with
  | 0 => none
  | fuel + 1 =>
    match skipSpace s with
    | 'n' :: 'u' :: 'l' :: 'l' :: rest => some (.null, rest)
    | 't' :: 'r' :: 'u' :: 'e' :: rest => some (.bool true, rest)
    | 'f' :: 'a' :: 'l' :: 's' :: 'e' :: rest => some (.bool false, rest)
    | '"' :: rest => (readString rest).map fun (units, rest) => (.string (textOf units), rest)
    | '[' :: rest =>
      match skipSpace rest with
      | ']' :: rest => some (.array [], rest)
      | _ => (readElements fuel rest).map fun (elements, rest) => (.array elements, rest)
    | '\x7b' :: rest =>
      match skipSpace rest with
      | '\x7d' :: rest => some (.object [], rest)
      | _ => (readFields fuel rest).map fun (fields, rest) => (.object fields, rest)
    | rest => (readNumber rest).map fun (number, rest) => (.number number, rest)

/-- The elements of an array and its closing bracket. -/
def readElements (fuel : Nat) (s : List Char) : Option (List Value × List Char) :=
  match fuel with
  | 0 => none
  | fuel + 1 => do
    let (value, rest) ← readValue fuel s
    match skipSpace rest with
    | ',' :: rest =>
      let (values, rest) ← readElements fuel rest
      some (value :: values, rest)
    | ']' :: rest => some ([value], rest)
    | _ => none

/-- The fields of an object and its closing brace. -/
def readFields (fuel : Nat) (s : List Char) :
    Option (List (Option String × Value) × List Char) :=
  match fuel with
  | 0 => none
  | fuel + 1 => do
    let '"' :: rest := skipSpace s | none
    let (units, rest) ← readString rest
    let name := textOf units
    let ':' :: rest := skipSpace rest | none
    let (value, rest) ← readValue fuel rest
    match skipSpace rest with
    | ',' :: rest =>
      let (fields, rest) ← readFields fuel rest
      some ((name, value) :: fields, rest)
    | '\x7d' :: rest => some ([(name, value)], rest)
    | _ => none

end

/-- The value that a whole text stands for. -/
def Value.ofText? (text : String) : Option Value :=
  let s := text.toList
  match readValue (2 * s.length + 2) s with
  | some (value, rest) => if (skipSpace rest).isEmpty then some value else none
  | none => none

end BehaviourGraph.Json
