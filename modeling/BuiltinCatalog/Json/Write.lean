import BuiltinCatalog.Json.Basic
import BuiltinCatalog.Text.Hex
import BuiltinCatalog.Text.Utf8

namespace BuiltinCatalog.Json

def quote : Byte := 34

def backslash : Byte := 92

def letterEscape? (c : Char) : Option Byte :=
  if c.toNat = 8 then some 'b'.toUInt8
  else if c.toNat = 9 then some 't'.toUInt8
  else if c.toNat = 10 then some 'n'.toUInt8
  else if c.toNat = 12 then some 'f'.toUInt8
  else if c.toNat = 13 then some 'r'.toUInt8
  else if c.toNat = 34 ∨ c.toNat = 92 then some c.toUInt8
  else none

/-- Control characters, the markup characters `<`, `>` and `&`, and the two line separators. -/
def isEscaped (c : Char) : Bool :=
  c.toNat < 32 || c == '<' || c == '>' || c == '&' || c.toNat == 0x2028 || c.toNat == 0x2029

def writeChar (c : Char) : Text :=
  match letterEscape? c with
  | some b => [backslash, b]
  | none => if isEscaped c then backslash :: 'u'.toUInt8 :: Text.hexNat c.toNat 4 else Text.encode c

/-- Encoders write a byte of no character as the replacement character or as the escape of it. -/
inductive Dialect where
  | literal
  | escaped
  deriving DecidableEq, Repr

def Dialect.writeStray : Dialect → Text
  | .literal => Text.encode Text.replacement
  | .escaped => backslash :: 'u'.toUInt8 :: Text.hexNat Text.replacement.toNat 4

def writeGlyph (dialect : Dialect) : Text.Glyph → Text
  | .char c => writeChar c
  | .stray _ => dialect.writeStray

def writeString (dialect : Dialect) (t : Text) : Text :=
  quote :: (Text.glyphs t).flatMap (writeGlyph dialect) ++ [quote]

def writeBool (b : Bool) : Text := if b then "true" else "false"

mutual

def compact (dialect : Dialect) : Json → Text
  | .null => "null"
  | .bool b => writeBool b
  | .number n => n
  | .string t => writeString dialect t
  | .array items => "[" ++ compactItems dialect items ++ "]"
  | .object members => "\x7b" ++ compactMembers dialect members ++ "\x7d"

def compactItems (dialect : Dialect) : List Json → Text
  | [] => []
  | [j] => compact dialect j
  | j :: rest => compact dialect j ++ "," ++ compactItems dialect rest

def compactMembers (dialect : Dialect) : List (Text × Json) → Text
  | [] => []
  | [(key, j)] => writeString dialect key ++ ":" ++ compact dialect j
  | (key, j) :: rest => writeString dialect key ++ ":" ++ compact dialect j ++ "," ++ compactMembers dialect rest

end

def newline (level : Nat) : Text := 10 :: List.replicate (2 * level) 32

mutual

def indented (dialect : Dialect) (level : Nat) : Json → Text
  | .null => "null"
  | .bool b => writeBool b
  | .number n => n
  | .string t => writeString dialect t
  | .array [] => "[]"
  | .array (j :: rest) => "[" ++ indentedItems dialect (level + 1) (j :: rest) ++ newline level ++ "]"
  | .object [] => "\x7b\x7d"
  | .object (m :: rest) => "\x7b" ++ indentedMembers dialect (level + 1) (m :: rest) ++ newline level ++ "\x7d"

def indentedItems (dialect : Dialect) (level : Nat) : List Json → Text
  | [] => []
  | [j] => newline level ++ indented dialect level j
  | j :: rest => newline level ++ indented dialect level j ++ "," ++ indentedItems dialect level rest

def indentedMembers (dialect : Dialect) (level : Nat) : List (Text × Json) → Text
  | [] => []
  | [(key, j)] => newline level ++ writeString dialect key ++ ": " ++ indented dialect level j
  | (key, j) :: rest =>
    newline level ++ writeString dialect key ++ ": " ++ indented dialect level j ++ "," ++ indentedMembers dialect level rest

end

end BuiltinCatalog.Json
