import BuiltinCatalog.Text.Basic

namespace BuiltinCatalog.Yaml.Timestamp

def value (digits : Text) : Nat := digits.foldl (fun n b => n * 10 + (b.toNat - 48)) 0

def number? (t : Text) : Option (Nat × Text) :=
  let digits := (t.take 2).takeWhile Text.isDigit
  if digits.isEmpty then none else some (value digits, t.drop digits.length)

def mark? (c : Char) (t : Text) : Option Text :=
  if t.head? = some c.toUInt8 then some (t.drop 1) else none

def isLeap (year : Nat) : Bool := year % 4 == 0 && (year % 100 != 0 || year % 400 == 0)

def daysIn (year month : Nat) : Nat :=
  if month = 2 then if isLeap year then 29 else 28
  else if month ∈ [4, 6, 9, 11] then 30
  else 31

def date? (t : Text) : Option Text := do
  let year := t.takeWhile Text.isDigit
  if year.length ≠ 4 then none
  let (month, t) ← number? (← mark? '-' (t.drop 4))
  if month < 1 || 12 < month then none
  let (day, t) ← number? (← mark? '-' t)
  if day < 1 || daysIn (value year) month < day then none
  return t

def afterFraction (t : Text) : Text :=
  match t with
  | b :: d :: _ =>
    if (b == '.'.toUInt8 || b == ','.toUInt8) && Text.isDigit d then
      (t.drop 1).dropWhile Text.isDigit
    else t
  | _ => t

def time? (t : Text) : Option Text := do
  let (hour, t) ← number? t
  if 23 < hour then none
  let (minute, t) ← number? (← mark? ':' t)
  if 59 < minute then none
  let (second, t) ← number? (← mark? ':' t)
  if 59 < second then none
  return afterFraction t

def isZone (t : Text) : Bool :=
  match t with
  | [z] => z == 'Z'.toUInt8
  | [sign, a, b, colon, c, d] =>
    (sign == '+'.toUInt8 || sign == '-'.toUInt8) && colon == ':'.toUInt8 &&
      [a, b, c, d].all Text.isDigit && value [a, b] ≤ 24 && value [c, d] ≤ 60
  | _ => false

def matchesAll (t : Text) : Bool :=
  match date? t with
  | none => false
  | some [] => true
  | some (b :: rest) =>
    if b == 'T'.toUInt8 || b == 't'.toUInt8 then (time? rest).any isZone
    else if b == ' '.toUInt8 then (time? (rest.dropWhile (· == ' '.toUInt8))).any List.isEmpty
    else false

end BuiltinCatalog.Yaml.Timestamp
