import BuiltinCatalog.Text.Hex

namespace BuiltinCatalog.Yaml.Number

def sign : Text → Option Byte × Text
  | b :: rest => if b == '+'.toUInt8 || b == '-'.toUInt8 then (some b, rest) else (none, b :: rest)
  | [] => (none, [])

/-- Whether a value fits into 64 bits: without a sign also where only the sign bit is missing. -/
def fits (sign : Option Byte) (n : Nat) : Bool :=
  match sign with
  | none => n < Nat.pow 2 64
  | some b => if b == '-'.toUInt8 then n ≤ Nat.pow 2 63 else n < Nat.pow 2 63

/-- Splits off the mark of a base: `0x`, `0b`, `0o`, or `0` before further digits. -/
def base : Text → Nat × Text
  | a :: b :: rest =>
    if a == '0'.toUInt8 then
      if b == 'x'.toUInt8 || b == 'X'.toUInt8 then (16, rest)
      else if b == 'b'.toUInt8 || b == 'B'.toUInt8 then (2, rest)
      else if b == 'o'.toUInt8 || b == 'O'.toUInt8 then (8, rest)
      else (8, b :: rest)
    else (10, a :: b :: rest)
  | t => (10, t)

def isSigned (t : Text) : Bool :=
  let (s, rest) := sign t
  let (b, ds) := base rest
  (Text.digits? b ds).any (fits s)

def isMarked (t : Text) : Bool :=
  match t with
  | a :: b :: rest =>
    if a == '0'.toUInt8 && (b == 'b'.toUInt8 || b == 'o'.toUInt8) then
      let (s, ds) := sign rest
      (Text.digits? (if b == 'b'.toUInt8 then 2 else 8) ds).any (fits s)
    else false
  | _ => false

def isInteger (t : Text) : Bool := isSigned t || isMarked t

structure Decimal where
  whole : Text
  fraction : Text
  exponent : Int
  deriving DecidableEq, Repr

namespace Decimal

def exponent? : Text → Option Int
  | [] => some 0
  | e :: rest =>
    if e == 'e'.toUInt8 || e == 'E'.toUInt8 then
      let (s, ds) := sign rest
      (Text.digits? 10 ds).map fun n => if s == some '-'.toUInt8 then -(n : Int) else n
    else none

def read? (t : Text) : Option Decimal := do
  let (_, t) := sign t
  let whole := t.takeWhile Text.isDigit
  let t := t.drop whole.length
  let (fraction, t) :=
    if t.head? = some '.'.toUInt8 then
      ((t.drop 1).takeWhile Text.isDigit, (t.drop 1).dropWhile Text.isDigit)
    else ([], t)
  if whole.isEmpty && fraction.isEmpty then none
  return ⟨whole, fraction, ← exponent? t⟩

/-- The least value that is nearer to the next power of two than to the greatest floating-point
number. -/
def limit : Nat := Nat.pow 2 1024 - Nat.pow 2 970

def overflows (d : Decimal) : Bool :=
  let ds := (d.whole ++ d.fraction).dropWhile (· == '0'.toUInt8)
  let n : Nat := ds.foldl (fun n b => n * 10 + (b.toNat - 48)) 0
  let shift := d.exponent - d.fraction.length
  if n = 0 then false
  else if 400 < shift + ds.length then true
  else if shift + ds.length < 300 then false
  else if 0 ≤ shift then limit ≤ n * Nat.pow 10 shift.toNat
  else limit * Nat.pow 10 (-shift).toNat ≤ n

end Decimal

def isDecimal (t : Text) : Bool := (Decimal.read? t).any fun d => !d.overflows

def underscore : Byte := '_'.toUInt8

def spacedDigits : Option Byte → Text → Bool
  | _, [] => true
  | before, b :: rest =>
    (b != underscore || (before.any Text.isDigit && rest.head?.any Text.isDigit)) &&
      spacedDigits (some b) rest

def withoutUnderscores (t : Text) : Text := t.filter (· != underscore)

end BuiltinCatalog.Yaml.Number
