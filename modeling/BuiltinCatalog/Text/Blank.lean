import BuiltinCatalog.Text.Utf8

namespace BuiltinCatalog.Text

def isBlank (c : Char) : Bool :=
  let n := c.toNat
  (9 ≤ n && n ≤ 13) || n == 0x20 || n == 0x85 || n == 0xA0 || n == 0x1680 ||
    (0x2000 ≤ n && n ≤ 0x200A) || n == 0x2028 || n == 0x2029 || n == 0x202F || n == 0x205F ||
    n == 0x3000

def Glyph.isBlank : Glyph → Bool
  | .char c => Text.isBlank c
  | .stray _ => false

def trimRight (t : Text) : Text :=
  ofGlyphs ((glyphs t).reverse.dropWhile Glyph.isBlank).reverse

def trim (t : Text) : Text :=
  ofGlyphs (((glyphs t).dropWhile Glyph.isBlank).reverse.dropWhile Glyph.isBlank).reverse

end BuiltinCatalog.Text
