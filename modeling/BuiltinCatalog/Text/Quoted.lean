import BuiltinCatalog.Text.Hex
import BuiltinCatalog.Text.Printable
import BuiltinCatalog.Text.Utf8

namespace BuiltinCatalog.Text

def controlLetter? (c : Char) : Option Byte :=
  match c.toNat with
  | 7 => some 'a'.toUInt8
  | 8 => some 'b'.toUInt8
  | 9 => some 't'.toUInt8
  | 10 => some 'n'.toUInt8
  | 11 => some 'v'.toUInt8
  | 12 => some 'f'.toUInt8
  | 13 => some 'r'.toUInt8
  | _ => none

def quotedChar (mark : Byte) (c : Char) : Text :=
  if c.toNat = mark.toNat ∨ c.toNat = 92 then [92, c.toUInt8]
  else if isPrintable c then encode c
  else
    match controlLetter? c with
    | some b => [92, b]
    | none =>
      if c.toNat < 128 then 92 :: 'x'.toUInt8 :: hexNat c.toNat 2
      else if c.toNat < 0x10000 then 92 :: 'u'.toUInt8 :: hexNat c.toNat 4
      else 92 :: 'U'.toUInt8 :: hexNat c.toNat 8

def quotedGlyph : Glyph → Text
  | .char c => quotedChar 34 c
  | .stray b => 92 :: 'x'.toUInt8 :: hexNat b.toNat 2

def quoted (t : Text) : Text := 34 :: (glyphs t).flatMap quotedGlyph ++ [34]

def quotedByte (b : Byte) : Text := 39 :: quotedChar 39 (Char.ofNat b.toNat) ++ [39]

end BuiltinCatalog.Text
