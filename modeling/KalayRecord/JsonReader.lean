import KalayRecord.Json

namespace KalayRecord.Json

def isBlank (c : Char) : Bool := c = ' ' ∨ c = '\n' ∨ c = '\t' ∨ c = '\r'

def skipBlanks (s : List Char) : List Char := s.dropWhile isBlank

def hexValue? (c : Char) : Option Nat :=
  if '0' ≤ c ∧ c ≤ '9' then some (c.toNat - '0'.toNat)
  else if 'a' ≤ c ∧ c ≤ 'f' then some (c.toNat - 'a'.toNat + 10)
  else if 'A' ≤ c ∧ c ≤ 'F' then some (c.toNat - 'A'.toNat + 10)
  else none

def code? (a b c d : Char) : Option Nat := do
  return ((← hexValue? a) * 16 + (← hexValue? b)) * 256 + (← hexValue? c) * 16 + (← hexValue? d)

def unitOfCode (code : Nat) : TextUnit :=
  if 0xD800 ≤ code ∧ code < 0xE000 then .half (.ofNat code) else .char (.ofNat code)

def escaped? : Char → Option Char
  | '"' => some '"'
  | '\\' => some '\\'
  | '/' => some '/'
  | 'b' => some '\x08'
  | 'f' => some '\x0C'
  | 'n' => some '\n'
  | 'r' => some '\r'
  | 't' => some '\t'
  | _ => none

def readUnits : List Char → Option (Text × List Char)
  | [] => none
  | '"' :: s => some ([], s)
  | '\\' :: 'u' :: a :: b :: c :: d :: s => do
    let code ← code? a b c d
    let (units, s) ← readUnits s
    return (unitOfCode code :: units, s)
  | '\\' :: e :: s => do
    let c ← escaped? e
    let (units, s) ← readUnits s
    return (.char c :: units, s)
  | c :: s => do
    if c < ' ' ∨ c = '\\' then none
    let (units, s) ← readUnits s
    return (.char c :: units, s)

def joinHalves? (upper lower : UInt16) : Option Char :=
  if upper < 0xDC00 ∧ 0xDC00 ≤ lower then
    some (.ofNat (0x10000 + (upper.toNat - 0xD800) * 0x400 + (lower.toNat - 0xDC00)))
  else none

/-- Joins each upper half with a lower half right after it. -/
def joinPairs : Text → Text
  | .half upper :: .half lower :: units =>
    match joinHalves? upper lower with
    | some c => .char c :: joinPairs units
    | none => .half upper :: joinPairs (.half lower :: units)
  | u :: units => u :: joinPairs units
  | [] => []

def readText (s : List Char) : Option (Text × List Char) := do
  let (units, s) ← readUnits s
  return (joinPairs units, s)

def readDigits (s : List Char) : Option (List Char × List Char) :=
  match s.takeWhile Char.isDigit with
  | [] => none
  | digits => some (digits, s.dropWhile Char.isDigit)

/-- Takes the digits before the point; only zero itself begins with a zero. -/
def readWhole : List Char → Option (List Char × List Char)
  | '0' :: s => some (['0'], s)
  | s => readDigits s

def readFraction : List Char → Option (List Char × List Char)
  | '.' :: s => do
    let (digits, s) ← readDigits s
    return ('.' :: digits, s)
  | s => some ([], s)

def readExponent : List Char → Option (List Char × List Char)
  | e :: s =>
    if e = 'e' ∨ e = 'E' then do
      let (sign, s) := match s with
        | c :: s => if c = '+' ∨ c = '-' then ([c], s) else ([], c :: s)
        | [] => ([], [])
      let (digits, s) ← readDigits s
      return (e :: sign ++ digits, s)
    else some ([], e :: s)
  | [] => some ([], [])

def readNumber (s : List Char) : Option (List Char × List Char) := do
  let (sign, s) := match s with
    | '-' :: s => (['-'], s)
    | s => ([], s)
  let (whole, s) ← readWhole s
  let (fraction, s) ← readFraction s
  let (exponent, s) ← readExponent s
  return (sign ++ whole ++ fraction ++ exponent, s)

mutual

def readValue : (fuel : Nat) → List Char → Option (Json × List Char)
  | 0, _ => none
  | fuel + 1, s =>
    match skipBlanks s with
    | 'n' :: 'u' :: 'l' :: 'l' :: s => some (.null, s)
    | 't' :: 'r' :: 'u' :: 'e' :: s => some (.bool true, s)
    | 'f' :: 'a' :: 'l' :: 's' :: 'e' :: s => some (.bool false, s)
    | '"' :: s => do
      let (text, s) ← readText s
      return (.string text, s)
    | '[' :: s =>
      match skipBlanks s with
      | ']' :: s => some (.array [], s)
      | s => do
        let (items, s) ← readItems fuel s
        return (.array items, s)
    | '{' :: s =>
      match skipBlanks s with
      | '}' :: s => some (.object [], s)
      | s => do
        let (members, s) ← readMembers fuel s
        return (.object members, s)
    | s => do
      let (literal, s) ← readNumber s
      return (.number literal, s)

def readItems : (fuel : Nat) → List Char → Option (List Json × List Char)
  | 0, _ => none
  | fuel + 1, s => do
    let (item, s) ← readValue fuel s
    match skipBlanks s with
    | ',' :: s => do
      let (items, s) ← readItems fuel s
      return (item :: items, s)
    | ']' :: s => return ([item], s)
    | _ => none

def readMembers : (fuel : Nat) → List Char → Option (List (Text × Json) × List Char)
  | 0, _ => none
  | fuel + 1, s => do
    let '"' :: s := skipBlanks s | none
    let (key, s) ← readText s
    let ':' :: s := skipBlanks s | none
    let (value, s) ← readValue fuel s
    match skipBlanks s with
    | ',' :: s => do
      let (members, s) ← readMembers fuel s
      return ((key, value) :: members, s)
    | '}' :: s => return ([(key, value)], s)
    | _ => none

end

/-- The value that a whole document holds, with blanks around it. Reading an item takes two steps,
of which one takes a character. -/
def ofChars? (s : List Char) : Option Json := do
  let (value, rest) ← readValue (2 * s.length) s
  if skipBlanks rest = [] then some value else none

def ofText? (s : String) : Option Json := ofChars? s.toList

end KalayRecord.Json
