import BuiltinCatalog.Json.Basic
import BuiltinCatalog.Text.Utf8

namespace BuiltinCatalog.Json

/-- Equal up to case; the long s and the Kelvin sign are capital letters here. -/
def foldChar (c : Char) : Char :=
  if c.toNat = 0x17F then 'S' else if c.toNat = 0x212A then 'K' else c.toUpper

def foldName (t : Text) : List Char := (Text.glyphs t).map fun g => foldChar g.seen

def writesTo (name : Text) (members : List (Text × Json)) : List Json :=
  (members.filter fun m => foldName m.1 == foldName name).map (·.2)

def textSlot? (writes : List Json) : Option Text :=
  writes.foldlM (fun old j => match j with
    | .string t => some t
    | .null => some old
    | _ => none) []

def boolSlot? (writes : List Json) : Option Bool :=
  writes.foldlM (fun old j => match j with
    | .bool b => some b
    | .null => some old
    | _ => none) false

def objectSlot? (writes : List Json) : Option (List (Text × Json)) :=
  writes.foldlM (fun old j => match j with
    | .object ms => some (old ++ ms)
    | .null => some old
    | _ => none) []

def writeItems : List (List Json) → List Json → List (List Json)
  | old :: olds, j :: js => (old ++ [j]) :: writeItems olds js
  | [], js => js.map fun j => [j]
  | olds, [] => olds

structure ListSlot where
  room : List (List Json) := []
  length : Option Nat := none

def listSlot? (writes : List Json) : Option (Option (List (List Json))) := do
  let slot : ListSlot ← writes.foldlM (fun old j => match j with
    | .array [] => some ⟨[], some 0⟩
    | .array js => some ⟨writeItems old.room js, some js.length⟩
    | .null => some {}
    | _ => none) {}
  return slot.length.map fun n => slot.room.take n

def listOf? (decode : List Json → Option α) (writes : List Json) : Option (Option (List α)) := do
  match ← listSlot? writes with
  | some items => return some (← items.mapM decode)
  | none => return none

def integer? (literal : Text) : Option Int :=
  let digits := if literal.head? = some '-'.toUInt8 then literal.drop 1 else literal
  if digits.all Text.isDigit then
    let n : Nat := digits.foldl (fun n b => n * 10 + (b.toNat - 48)) 0
    let signed : Int := if literal.head? = some '-'.toUInt8 then -n else n
    if -Int.pow 2 63 ≤ signed ∧ signed < Int.pow 2 63 then some signed else none
  else none

def integerSlot? (writes : List Json) : Option Int :=
  writes.foldlM (fun old j => match j with
    | .number n => integer? n
    | .null => some old
    | _ => none) 0

end BuiltinCatalog.Json
