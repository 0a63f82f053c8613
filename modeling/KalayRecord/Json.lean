namespace KalayRecord

namespace Json

inductive TextUnit where
  | char (c : Char)
  /-- One half of a surrogate pair without the other. -/
  | half (code : UInt16)
  deriving DecidableEq, Repr

abbrev Text := List TextUnit

namespace Text

def ofString (s : String) : Text := s.toList.map .char

def toChars? : Text → Option (List Char)
  | [] => some []
  | .char c :: t => (toChars? t).map (c :: ·)
  | .half _ :: _ => none

def toString? (t : Text) : Option String := t.toChars?.map String.ofList

end Text

end Json

inductive Json where
  | null
  | bool (b : Bool)
  | number (literal : List Char)
  | string (text : Json.Text)
  | array (items : List Json)
  | object (members : List (Json.Text × Json))
  deriving Repr

namespace Json

def ofNat (n : Nat) : Json := .number (Nat.toDigits 10 n)

def ofInt (i : Int) : Json :=
  .number (if i < 0 then '-' :: Nat.toDigits 10 i.natAbs else Nat.toDigits 10 i.natAbs)

def ofString (s : String) : Json := .string (Text.ofString s)

def ofOption {α : Type} (f : α → Json) (x : Option α) : Json := x.elim .null f

def ofMembers (members : List (String × Json)) : Json :=
  .object (members.map fun (key, value) => (Text.ofString key, value))

def codeDigits (code : Nat) : List Char :=
  let digits := Nat.toDigits 16 code
  List.replicate (4 - digits.length) '0' ++ digits

/-- Quotes, backslashes and all characters below the blank are escaped, some by a letter. -/
def renderUnit : TextUnit → List Char
  | .char c =>
    if c = '"' ∨ c = '\\' then ['\\', c]
    else if c = '\x08' then ['\\', 'b']
    else if c = '\x0C' then ['\\', 'f']
    else if c = '\n' then ['\\', 'n']
    else if c = '\r' then ['\\', 'r']
    else if c = '\t' then ['\\', 't']
    else if c < ' ' then '\\' :: 'u' :: codeDigits c.toNat
    else [c]
  | .half code => '\\' :: 'u' :: codeDigits code.toNat

def renderText (t : Text) : List Char := '"' :: t.flatMap renderUnit ++ ['"']

mutual

def render : Json → List Char
  | .null => "null".toList
  | .bool true => "true".toList
  | .bool false => "false".toList
  | .number literal => literal
  | .string text => renderText text
  | .array items => '[' :: renderItems items ++ [']']
  | .object members => '{' :: renderMembers members ++ ['}']

def renderItems : List Json → List Char
  | [] => []
  | [item] => render item
  | item :: items => render item ++ ',' :: renderItems items

def renderMembers : List (Text × Json) → List Char
  | [] => []
  | [(key, value)] => renderText key ++ ':' :: render value
  | (key, value) :: members => renderText key ++ ':' :: render value ++ ',' :: renderMembers members

end

def compact (j : Json) : String := String.ofList j.render

end Json

end KalayRecord
