import KalayRecord.JsonReader

namespace KalayRecord.Json

def keyed? : List (Text × Json) → Option (List (String × Json))
  | [] => some []
  | (key, value) :: members => do
    let key ← key.toString?
    let members ← keyed? members
    return (key, value) :: members

/-- The members of an object in the order of `fields`, each if it is there; there are none if a
field is given twice. -/
def select? (fields : List String) (members : List (String × Json)) : Option (List (Option Json)) :=
  fields.mapM fun field =>
    match members.filter (·.1 = field) with
    | [] => some none
    | [(_, value)] => some (some value)
    | _ => none

/-- The values of a record's fields, each if it is given. An array gives the first fields. -/
def fieldValues? (fields : List String) : Json → Option (List (Option Json))
  | .array items =>
    if items.length ≤ fields.length then
      some (items.map some ++ List.replicate (fields.length - items.length) none)
    else none
  | .object members => do select? fields (← keyed? members)
  | _ => none

def toBool? : Json → Option Bool
  | .bool b => some b
  | _ => none

def digitsValue? (literal : List Char) : Option Nat :=
  if literal ≠ [] ∧ literal.all Char.isDigit then
    some (literal.foldl (fun n c => 10 * n + (c.toNat - '0'.toNat)) 0)
  else none

def toNatBelow? (bound : Nat) : Json → Option Nat
  | .number literal => do
    let n ← digitsValue? literal
    if n < bound then some n else none
  | _ => none

def toString? : Json → Option String
  | .string text => text.toString?
  | _ => none

end KalayRecord.Json
