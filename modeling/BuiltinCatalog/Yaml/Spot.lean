import BuiltinCatalog.Text.Utf8

namespace BuiltinCatalog.Yaml

def isAllowed (c : Char) : Bool :=
  let n := c.toNat
  n == 9 || n == 10 || n == 13 || (0x20 ≤ n && n ≤ 0x7E) || n == 0x85 || (0xA0 ≤ n && n ≤ 0xFFFD) ||
    0x10000 ≤ n

def units? (highFirst : Bool) : Text → Option (List Nat)
  | [] => some []
  | [_] => none
  | a :: b :: rest =>
    let unit := if highFirst then a.toNat * 256 + b.toNat else b.toNat * 256 + a.toNat
    (units? highFirst rest).map (unit :: ·)

def ofUnits? : List Nat → Option (List Char)
  | [] => some []
  | u :: rest =>
    if 0xDC00 ≤ u ∧ u ≤ 0xDFFF then none
    else if 0xD800 ≤ u ∧ u ≤ 0xDBFF then
      match rest with
      | v :: rest =>
        if 0xDC00 ≤ v ∧ v ≤ 0xDFFF then
          (ofUnits? rest).map (Char.ofNat (0x10000 + (u - 0xD800) * 0x400 + (v - 0xDC00)) :: ·)
        else none
      | [] => none
    else (ofUnits? rest).map (Char.ofNat u :: ·)

def ofUtf8? (t : Text) : Option (List Char) :=
  (Text.glyphs t).mapM fun
    | .char c => some c
    | .stray _ => none

def characters? (t : Text) : Option (List Char) := do
  let cs ←
    match t with
    | 0xFF :: 0xFE :: rest => (units? false rest).bind ofUnits?
    | 0xFE :: 0xFF :: rest => (units? true rest).bind ofUnits?
    | 0xEF :: 0xBB :: 0xBF :: rest => ofUtf8? rest
    | _ => ofUtf8? t
  if cs.all isAllowed then some cs else none

/-- A character and where it stands. -/
structure Spot where
  char : Char
  line : Nat
  column : Nat
  index : Nat
  deriving DecidableEq, Repr

def byteOrderMark : Char := Char.ofNat 0xFEFF

def isBlank (c : Char) : Bool := c == ' ' || c == '\t'

def isBreak (c : Char) : Bool := c == '\n' || c.toNat == 0x2028 || c.toNat == 0x2029

/-- A carriage return and the next-line character break a line as a newline does. -/
def foldBreak (c : Char) : Char := if c == '\r' || c.toNat == 0x85 then '\n' else c

def spotsFrom (line column index : Nat) : List Char → List Spot
  | [] => []
  | '\r' :: '\n' :: rest => ⟨'\n', line, column, index⟩ :: spotsFrom (line + 1) 0 (index + 2) rest
  | c :: rest =>
    let spot : Spot := ⟨foldBreak c, line, column, index⟩
    if isBreak spot.char then spot :: spotsFrom (line + 1) 0 (index + 1) rest
    else spot :: spotsFrom line (column + 1) (index + 1) rest

def spots (cs : List Char) : List Spot := spotsFrom 0 0 0 cs

def atGap : List Spot → Bool
  | [] => true
  | s :: _ => isBlank s.char || isBreak s.char

def atLineEnd : List Spot → Bool
  | [] => true
  | s :: _ => isBreak s.char

def dropBlanks (ss : List Spot) : List Spot := ss.dropWhile fun s => isBlank s.char

def dropLine (ss : List Spot) : List Spot := ss.dropWhile fun s => !isBreak s.char

def marksDocument (c : Char) : List Spot → Bool
  | s :: t :: u :: rest =>
    s.column == 0 && s.char == c && t.char == c && u.char == c && atGap rest
  | _ => false

def atDocumentMark (ss : List Spot) : Bool := marksDocument '-' ss || marksDocument '.' ss

end BuiltinCatalog.Yaml
