import BuiltinCatalog.Text.Basic

namespace BuiltinCatalog.Text

/-- A piece of a text: a whole character, or a byte that is part of none. -/
inductive Glyph where
  | char (c : Char)
  | stray (b : Byte)
  deriving DecidableEq, Repr

def isTail (b : Byte) : Bool := 0x80 ≤ b && b ≤ 0xBF

/-- The least second byte that may follow a first byte, so that no shorter encoding exists. -/
def secondLow (a : Byte) : Byte := if a == 0xE0 then 0xA0 else if a == 0xF0 then 0x90 else 0x80

/-- The greatest second byte that may follow a first byte, so that no surrogate and nothing above the
last code point is encoded. -/
def secondHigh (a : Byte) : Byte := if a == 0xED then 0x9F else if a == 0xF4 then 0x8F else 0xBF

def bits (b : Byte) (mask : Nat) : Nat := b.toNat % mask

def nextGlyph : Text → Option (Glyph × Text)
  | [] => none
  | a :: rest =>
    if a < 0x80 then some (.char (Char.ofNat a.toNat), rest)
    else
      match rest with
      | b :: rest₂ =>
        if 0xC2 ≤ a && a ≤ 0xDF && isTail b then
          some (.char (Char.ofNat (bits a 32 * 64 + bits b 64)), rest₂)
        else if 0xE0 ≤ a && a ≤ 0xF4 && secondLow a ≤ b && b ≤ secondHigh a then
          match rest₂ with
          | c :: rest₃ =>
            if a ≤ 0xEF && isTail c then
              some (.char (Char.ofNat (bits a 16 * 4096 + bits b 64 * 64 + bits c 64)), rest₃)
            else
              match rest₃ with
              | d :: rest₄ =>
                if 0xF0 ≤ a && isTail c && isTail d then
                  some (.char (Char.ofNat
                    (bits a 8 * 262144 + bits b 64 * 4096 + bits c 64 * 64 + bits d 64)), rest₄)
                else some (.stray a, rest)
              | [] => some (.stray a, rest)
          | [] => some (.stray a, rest)
        else some (.stray a, rest)
      | [] => some (.stray a, rest)

theorem nextGlyph_shorter {t rest : Text} {u : Glyph} (h : nextGlyph t = some (u, rest)) :
    rest.length < t.length := by
  unfold nextGlyph at h
  repeat' split at h
  all_goals simp only [Option.some.injEq, Prod.mk.injEq, reduceCtorEq] at h
  all_goals obtain ⟨_, rfl⟩ := h
  all_goals simp only [List.length_cons]
  all_goals omega

def glyphs (t : Text) : List Glyph :=
  match _h : nextGlyph t with
  | none => []
  | some (u, rest) => u :: glyphs rest
termination_by t.length
decreasing_by exact nextGlyph_shorter _h

def encode (c : Char) : Text := String.utf8EncodeChar c

def replacement : Char := Char.ofNat 0xFFFD

namespace Glyph

def bytes : Glyph → Text
  | .char c => encode c
  | .stray b => [b]

/-- The character a reader sees; a stray byte reads as the replacement character. -/
def seen : Glyph → Char
  | .char c => c
  | .stray _ => replacement

def isStray : Glyph → Bool
  | .char _ => false
  | .stray _ => true

end Glyph

def ofGlyphs (us : List Glyph) : Text := us.flatMap Glyph.bytes

def isValidUtf8 (t : Text) : Bool := (glyphs t).all fun u => !u.isStray

/-- Replaces each stray byte by the replacement character. -/
def scrub (t : Text) : Text := (glyphs t).flatMap fun u => encode u.seen

def ofChars (cs : List Char) : Text := cs.flatMap encode

end BuiltinCatalog.Text
