import BuiltinCatalog.Json.Basic
import BuiltinCatalog.Text.Hex
import BuiltinCatalog.Text.Utf8

namespace BuiltinCatalog.Json

def isGap (b : Byte) : Bool := b == 9 || b == 10 || b == 13 || b == 32

def skipGap (t : Text) : Text := t.dropWhile isGap

def after? (b : Byte) : Text → Option Text
  | [] => none
  | c :: rest => if c = b then some rest else none

/-- A number as far as the grammar allows: sign, integer without leading zeros, fraction, exponent. -/
def nextNumber? (t : Text) : Option (Text × Text) := do
  let sign := if t.head? = some '-'.toUInt8 then t.take 1 else []
  let t := t.drop sign.length
  let whole :=
    if t.head? = some '0'.toUInt8 then t.take 1 else t.takeWhile Text.isDigit
  if whole = [] then none
  let t := t.drop whole.length
  let fraction :=
    if t.head? = some '.'.toUInt8 then t.take 1 ++ (t.drop 1).takeWhile Text.isDigit else []
  if fraction.length = 1 then none
  let t := t.drop fraction.length
  if t.head? = some 'e'.toUInt8 ∨ t.head? = some 'E'.toUInt8 then
    let rest := t.drop 1
    let mark :=
      if rest.head? = some '-'.toUInt8 ∨ rest.head? = some '+'.toUInt8 then rest.take 1 else []
    let digits := (rest.drop mark.length).takeWhile Text.isDigit
    if digits = [] then none
    return (sign ++ whole ++ fraction ++ t.take 1 ++ mark ++ digits,
      (rest.drop mark.length).dropWhile Text.isDigit)
  else return (sign ++ whole ++ fraction, t)

def nextUnit? (t : Text) : Option (Nat × Text) :=
  if t.length < 4 then none else (Text.ofHex? (t.take 4)).map fun n => (n, t.drop 4)

def isHighHalf (n : Nat) : Bool := 0xD800 ≤ n && n < 0xDC00

def isLowHalf (n : Nat) : Bool := 0xDC00 ≤ n && n < 0xE000

def nextEscaped? (t : Text) : Option (Char × Text) := do
  let (n, rest) ← nextUnit? t
  if isHighHalf n then
    let second := do
      let t ← after? 92 rest
      let t ← after? 'u'.toUInt8 t
      let (m, t) ← nextUnit? t
      if isLowHalf m then some (m, t) else none
    match second with
    | some (m, rest) => return (Char.ofNat (0x10000 + (n - 0xD800) * 0x400 + (m - 0xDC00)), rest)
    | none => return (Text.replacement, rest)
  else if isLowHalf n then return (Text.replacement, rest)
  else return (Char.ofNat n, rest)

def letterValue? (b : Byte) : Option Char :=
  if b = 'b'.toUInt8 then some (Char.ofNat 8)
  else if b = 't'.toUInt8 then some (Char.ofNat 9)
  else if b = 'n'.toUInt8 then some (Char.ofNat 10)
  else if b = 'f'.toUInt8 then some (Char.ofNat 12)
  else if b = 'r'.toUInt8 then some (Char.ofNat 13)
  else if b = 34 ∨ b = 92 ∨ b = '/'.toUInt8 then some (Char.ofNat b.toNat)
  else none

def stringRest : Nat → Text → Option (Text × Text)
  | 0, _ => none
  | fuel + 1, t =>
    match t with
    | [] => none
    | b :: rest =>
      if b = 34 then some ([], rest)
      else if b < 32 then none
      else if b = 92 then do
        let (c, rest) ←
          match rest with
          | [] => none
          | e :: rest =>
            if e = 'u'.toUInt8 then nextEscaped? rest else (letterValue? e).map fun c => (c, rest)
        let (tail, rest) ← stringRest fuel rest
        return (Text.encode c ++ tail, rest)
      else do
        let (g, rest) ← Text.nextGlyph t
        let (tail, rest) ← stringRest fuel rest
        return (Text.encode g.seen ++ tail, rest)

def nextString? (t : Text) : Option (Text × Text) := do
  let rest ← after? 34 t
  stringRest t.length rest

mutual

def value : Nat → (room : Nat) → Text → Option (Json × Text)
  | 0, _, _ => none
  | fuel + 1, room, t =>
    let t := skipGap t
    match t with
    | [] => none
    | b :: rest =>
      if b = 34 then (nextString? t).map fun (s, rest) => (.string s, rest)
      else if b = '['.toUInt8 then
        if room = 0 then none
        else
          match after? ']'.toUInt8 (skipGap rest) with
          | some rest => some (.array [], rest)
          | none => (items fuel (room - 1) rest).map fun (js, rest) => (.array js, rest)
      else if b = '{'.toUInt8 then
        if room = 0 then none
        else
          match after? '}'.toUInt8 (skipGap rest) with
          | some rest => some (.object [], rest)
          | none => (members fuel (room - 1) rest).map fun (ms, rest) => (.object ms, rest)
      else if (Text.ofString "null").isPrefixOf t then some (.null, t.drop 4)
      else if (Text.ofString "true").isPrefixOf t then some (.bool true, t.drop 4)
      else if (Text.ofString "false").isPrefixOf t then some (.bool false, t.drop 5)
      else (nextNumber? t).map fun (n, rest) => (.number n, rest)

def items : Nat → (room : Nat) → Text → Option (List Json × Text)
  | 0, _, _ => none
  | fuel + 1, room, t => do
    let (j, rest) ← value fuel room t
    let rest := skipGap rest
    match after? ']'.toUInt8 rest with
    | some rest => some ([j], rest)
    | none => do
      let rest ← after? ','.toUInt8 rest
      let (js, rest) ← items fuel room rest
      return (j :: js, rest)

def members : Nat → (room : Nat) → Text → Option (List (Text × Json) × Text)
  | 0, _, _ => none
  | fuel + 1, room, t => do
    let (key, rest) ← nextString? (skipGap t)
    let rest ← after? ':'.toUInt8 (skipGap rest)
    let (j, rest) ← value fuel room rest
    let rest := skipGap rest
    match after? '}'.toUInt8 rest with
    | some rest => some ([(key, j)], rest)
    | none => do
      let rest ← after? ','.toUInt8 rest
      let (ms, rest) ← members fuel room rest
      return ((key, j) :: ms, rest)

end

def maxNesting : Nat := 10000

def read? (t : Text) : Option Json :=
  match value (2 * t.length + 1) maxNesting t with
  | some (j, rest) => if skipGap rest = [] then some j else none
  | none => none

end BuiltinCatalog.Json
