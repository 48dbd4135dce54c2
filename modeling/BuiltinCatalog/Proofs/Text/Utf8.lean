import BuiltinCatalog.Text.Utf8
import Mathlib.Tactic.Common

namespace BuiltinCatalog.Text

theorem toNat_ofNat_of_valid {n : Nat} (h : n < 0xD800 ∨ (0xDFFF < n ∧ n < 0x110000)) :
    (Char.ofNat n).val.toNat = n := by
  rw [Char.ofNat, dif_pos h]
  rfl

theorem encode_one {n : Nat} (h : n < 0x80) : encode (Char.ofNat n) = [UInt8.ofNat n] := by
  have hv := toNat_ofNat_of_valid (n := n) (by omega)
  simp only [encode, String.utf8EncodeChar, hv]
  rw [if_pos (by omega)]

theorem encode_two {n : Nat} (h : 0x80 ≤ n) (h' : n < 0x800) :
    encode (Char.ofNat n) = [UInt8.ofNat (n / 64 % 32 + 192), UInt8.ofNat (n % 64 + 128)] := by
  have hv := toNat_ofNat_of_valid (n := n) (by omega)
  simp only [encode, String.utf8EncodeChar, hv]
  rw [if_neg (by omega), if_pos (by omega)]

theorem encode_three {n : Nat} (h : 0x800 ≤ n) (h' : n < 0xD800 ∨ (0xDFFF < n ∧ n < 0x10000)) :
    encode (Char.ofNat n) = [UInt8.ofNat (n / 4096 % 16 + 224), UInt8.ofNat (n / 64 % 64 + 128),
      UInt8.ofNat (n % 64 + 128)] := by
  have hv := toNat_ofNat_of_valid (n := n) (by omega)
  simp only [encode, String.utf8EncodeChar, hv]
  rw [if_neg (by omega), if_neg (by omega), if_pos (by omega)]

theorem encode_four {n : Nat} (h : 0x10000 ≤ n) (h' : n < 0x110000) :
    encode (Char.ofNat n) = [UInt8.ofNat (n / 262144 % 8 + 240), UInt8.ofNat (n / 4096 % 64 + 128),
      UInt8.ofNat (n / 64 % 64 + 128), UInt8.ofNat (n % 64 + 128)] := by
  have hv := toNat_ofNat_of_valid (n := n) (by omega)
  simp only [encode, String.utf8EncodeChar, hv]
  rw [if_neg (by omega), if_neg (by omega), if_neg (by omega)]

theorem ofNat_eq_byte {b : Byte} {n : Nat} (h : b.toNat = n) : UInt8.ofNat n = b := by
  rw [← h, UInt8.ofNat_toNat]

theorem isTail_iff {b : Byte} : isTail b = true ↔ 128 ≤ b.toNat ∧ b.toNat < 192 := by
  simp [isTail, UInt8.le_iff_toNat_le]
  omega

/-- The second byte is a tail byte, within narrower bounds after four of the first bytes. -/
theorem second_bounds {a b : Byte} (hl : (secondLow a).toNat ≤ b.toNat)
    (hh : b.toNat ≤ (secondHigh a).toNat) :
    128 ≤ b.toNat ∧ b.toNat < 192 ∧ (a.toNat = 224 → 160 ≤ b.toNat) ∧
      (a.toNat = 237 → b.toNat < 160) ∧ (a.toNat = 240 → 144 ≤ b.toNat) ∧
      (a.toNat = 244 → b.toNat < 144) := by
  simp only [secondLow, secondHigh, beq_iff_eq, ← UInt8.toNat_inj] at hl hh
  split at hl <;> split at hh <;> (try split at hl) <;> (try split at hh) <;> simp_all <;> omega

theorem encode_pair {a b : Byte} (ha : 194 ≤ a.toNat) (ha' : a.toNat < 224)
    (hb : 128 ≤ b.toNat) (hb' : b.toNat < 192) :
    encode (Char.ofNat (bits a 32 * 64 + bits b 64)) = [a, b] := by
  simp only [bits]
  rw [encode_two (by omega) (by omega), ofNat_eq_byte (b := a) (by omega),
    ofNat_eq_byte (b := b) (by omega)]

theorem encode_triple {a b c : Byte} (ha : 224 ≤ a.toNat) (ha' : a.toNat < 240)
    (hl : (secondLow a).toNat ≤ b.toNat) (hh : b.toNat ≤ (secondHigh a).toNat)
    (hc : 128 ≤ c.toNat) (hc' : c.toNat < 192) :
    encode (Char.ofNat (bits a 16 * 4096 + bits b 64 * 64 + bits c 64)) = [a, b, c] := by
  obtain ⟨hb, hb', h₁, h₂, -, -⟩ := second_bounds hl hh
  simp only [bits]
  rw [encode_three (by omega) (by omega), ofNat_eq_byte (b := a) (by omega),
    ofNat_eq_byte (b := b) (by omega), ofNat_eq_byte (b := c) (by omega)]

theorem encode_quadruple {a b c d : Byte} (ha : 240 ≤ a.toNat) (ha' : a.toNat < 245)
    (hl : (secondLow a).toNat ≤ b.toNat) (hh : b.toNat ≤ (secondHigh a).toNat)
    (hc : 128 ≤ c.toNat) (hc' : c.toNat < 192)
    (hd : 128 ≤ d.toNat) (hd' : d.toNat < 192) :
    encode (Char.ofNat (bits a 8 * 262144 + bits b 64 * 4096 + bits c 64 * 64 + bits d 64)) =
      [a, b, c, d] := by
  obtain ⟨hb, hb', -, -, h₁, h₂⟩ := second_bounds hl hh
  simp only [bits]
  rw [encode_four (by omega) (by omega), ofNat_eq_byte (b := a) (by omega),
    ofNat_eq_byte (b := b) (by omega), ofNat_eq_byte (b := c) (by omega),
    ofNat_eq_byte (b := d) (by omega)]

theorem toNat_le_of_le {a b : Byte} (h : a ≤ b) : a.toNat ≤ b.toNat := UInt8.le_iff_toNat_le.1 h

theorem nextGlyph_append {t rest : Text} {g : Glyph} (h : nextGlyph t = some (g, rest)) :
    t = g.bytes ++ rest := by
  revert h
  fun_cases nextGlyph t with
  | case1 => simp
  | case2 a r ha =>
      rintro ⟨⟩
      rw [Glyph.bytes, encode_one (UInt8.lt_iff_toNat_lt.1 ha), UInt8.ofNat_toNat]
      rfl
  | case3 a ha b r hab =>
      rintro ⟨⟩
      simp only [Bool.and_eq_true, decide_eq_true_eq, isTail_iff] at hab
      obtain ⟨⟨ha₁, ha₂⟩, hb₁, hb₂⟩ := hab
      rw [Glyph.bytes, encode_pair (toNat_le_of_le ha₁) (Nat.lt_succ_of_le (toNat_le_of_le ha₂)) hb₁ hb₂]
      rfl
  | case4 a ha b _ hab c r hc =>
      rintro ⟨⟩
      simp only [Bool.and_eq_true, decide_eq_true_eq, isTail_iff] at hab hc
      obtain ⟨⟨⟨ha₁, _⟩, hl⟩, hh⟩ := hab
      obtain ⟨ha₂, hc₁, hc₂⟩ := hc
      rw [Glyph.bytes, encode_triple (toNat_le_of_le ha₁) (Nat.lt_succ_of_le (toNat_le_of_le ha₂))
        (toNat_le_of_le hl) (toNat_le_of_le hh) hc₁ hc₂]
      rfl
  | case5 a ha b _ hab c _ d r hd =>
      rintro ⟨⟩
      simp only [Bool.and_eq_true, decide_eq_true_eq, isTail_iff] at hab hd
      obtain ⟨⟨⟨_, ha₂⟩, hl⟩, hh⟩ := hab
      obtain ⟨⟨ha₁, hc₁, hc₂⟩, hd₁, hd₂⟩ := hd
      rw [Glyph.bytes, encode_quadruple (toNat_le_of_le ha₁) (Nat.lt_succ_of_le (toNat_le_of_le ha₂))
        (toNat_le_of_le hl) (toNat_le_of_le hh) hc₁ hc₂ hd₁ hd₂]
      rfl
  | case6 | case7 | case8 | case9 | case10 =>
      rintro ⟨⟩
      rfl

theorem nextGlyph_eq_none_iff {t : Text} : nextGlyph t = none ↔ t = [] := by
  fun_cases nextGlyph t <;> simp

@[simp] theorem ofGlyphs_glyphs (t : Text) : ofGlyphs (glyphs t) = t := by
  fun_induction glyphs t with
  | case1 t h => rw [nextGlyph_eq_none_iff.1 h, ofGlyphs, List.flatMap_nil]
  | case2 t g rest h ih => rw [nextGlyph_append h, ofGlyphs, List.flatMap_cons, ← ofGlyphs, ih]

theorem nextGlyph_single {a : Byte} (h : a.toNat < 128) (rest : Text) :
    nextGlyph (a :: rest) = some (.char (Char.ofNat a.toNat), rest) := by
  have ha : a < 0x80 := UInt8.lt_iff_toNat_lt.2 h
  simp [nextGlyph, ha]

theorem not_lt_of_toNat {a : Byte} (h : 128 ≤ a.toNat) : ¬ a < 0x80 :=
  fun ha => absurd (UInt8.lt_iff_toNat_lt.1 ha) (Nat.not_lt.2 h)

theorem nextGlyph_pair {a b : Byte} (ha : 194 ≤ a.toNat) (ha' : a.toNat < 224)
    (hb : isTail b = true) (rest : Text) :
    nextGlyph (a :: b :: rest) = some (.char (Char.ofNat (bits a 32 * 64 + bits b 64)), rest) := by
  have hs := not_lt_of_toNat (a := a) (by omega)
  have hc : 0xC2 ≤ a ∧ a ≤ 0xDF := by
    simp only [UInt8.le_iff_toNat_le, UInt8.reduceToNat]
    omega
  simp [nextGlyph, hs, hc, hb]

theorem nextGlyph_triple {a b c : Byte} (ha : 224 ≤ a.toNat) (ha' : a.toNat < 240)
    (hl : secondLow a ≤ b) (hh : b ≤ secondHigh a) (hc : isTail c = true) (rest : Text) :
    nextGlyph (a :: b :: c :: rest) =
      some (.char (Char.ofNat (bits a 16 * 4096 + bits b 64 * 64 + bits c 64)), rest) := by
  have hs := not_lt_of_toNat (a := a) (by omega)
  have h₂ : ¬ a ≤ 0xDF := by
    simp only [UInt8.le_iff_toNat_le, UInt8.reduceToNat]
    omega
  have h₃ : 0xE0 ≤ a ∧ a ≤ 0xF4 ∧ a ≤ 0xEF := by
    simp only [UInt8.le_iff_toNat_le, UInt8.reduceToNat]
    omega
  simp [nextGlyph, hs, h₂, h₃, hl, hh, hc]

theorem nextGlyph_quadruple {a b c d : Byte} (ha : 240 ≤ a.toNat) (ha' : a.toNat < 245)
    (hl : secondLow a ≤ b) (hh : b ≤ secondHigh a) (hc : isTail c = true) (hd : isTail d = true)
    (rest : Text) :
    nextGlyph (a :: b :: c :: d :: rest) =
      some (.char (Char.ofNat (bits a 8 * 262144 + bits b 64 * 4096 + bits c 64 * 64 + bits d 64)),
        rest) := by
  have hs := not_lt_of_toNat (a := a) (by omega)
  have h₂ : ¬ a ≤ 0xDF ∧ ¬ a ≤ 0xEF := by
    simp only [UInt8.le_iff_toNat_le, UInt8.reduceToNat]
    omega
  have h₃ : 0xE0 ≤ a ∧ a ≤ 0xF4 ∧ 0xF0 ≤ a := by
    simp only [UInt8.le_iff_toNat_le, UInt8.reduceToNat]
    omega
  simp [nextGlyph, hs, h₂, h₃, hl, hh, hc, hd]

theorem toNat_ofNat_byte {n : Nat} (h : n < 256) : (UInt8.ofNat n).toNat = n := by
  simp [Nat.mod_eq_of_lt h]

theorem isTail_ofNat (n : Nat) : isTail (UInt8.ofNat (n % 64 + 128)) = true := by
  rw [isTail_iff, toNat_ofNat_byte (by omega)]
  omega

/-- The bounds on second bytes hold of whatever has no shorter encoding, is no surrogate and is not too
large. -/
theorem second_of_bounds {a b : Byte} (hb : 128 ≤ b.toNat) (hb' : b.toNat < 192)
    (h₁ : a.toNat = 224 → 160 ≤ b.toNat) (h₂ : a.toNat = 237 → b.toNat < 160)
    (h₃ : a.toNat = 240 → 144 ≤ b.toNat) (h₄ : a.toNat = 244 → b.toNat < 144) :
    secondLow a ≤ b ∧ b ≤ secondHigh a := by
  simp only [secondLow, secondHigh, beq_iff_eq, UInt8.le_iff_toNat_le, ← UInt8.toNat_inj]
  constructor
  · split
    · simp_all
    · split <;> simp_all
  · split
    · simp_all
      omega
    · split
      · simp_all
        omega
      · simp
        omega

theorem nextGlyph_encode (c : Char) (rest : Text) :
    nextGlyph (encode c ++ rest) = some (.char c, rest) := by
  have hv : c.toNat < 0xD800 ∨ (0xDFFF < c.toNat ∧ c.toNat < 0x110000) := c.valid
  generalize hn : c.toNat = n at hv
  obtain rfl : Char.ofNat n = c := by rw [← hn, Char.ofNat_toNat]
  by_cases h₁ : n < 0x80
  · have ha := toNat_ofNat_byte (n := n) (by omega)
    rw [encode_one h₁, List.singleton_append, nextGlyph_single (by omega), ha]
  by_cases h₂ : n < 0x800
  · have ha := toNat_ofNat_byte (n := n / 64 % 32 + 192) (by omega)
    have hb := toNat_ofNat_byte (n := n % 64 + 128) (by omega)
    rw [encode_two (by omega) h₂, List.cons_append, List.singleton_append,
      nextGlyph_pair (by omega) (by omega) (isTail_ofNat n), bits, bits, ha, hb,
      show (n / 64 % 32 + 192) % 32 * 64 + (n % 64 + 128) % 64 = n by omega]
  by_cases h₃ : n < 0x10000
  · have ha := toNat_ofNat_byte (n := n / 4096 % 16 + 224) (by omega)
    have hb := toNat_ofNat_byte (n := n / 64 % 64 + 128) (by omega)
    have hc := toNat_ofNat_byte (n := n % 64 + 128) (by omega)
    obtain ⟨hl, hh⟩ := second_of_bounds (a := UInt8.ofNat (n / 4096 % 16 + 224))
      (b := UInt8.ofNat (n / 64 % 64 + 128)) (by omega) (by omega) (by omega) (by omega) (by omega)
      (by omega)
    rw [encode_three (by omega) (by omega)]
    simp only [List.cons_append, List.nil_append]
    rw [nextGlyph_triple (by omega) (by omega) hl hh (isTail_ofNat n), bits, bits, bits, ha, hb, hc,
      show (n / 4096 % 16 + 224) % 16 * 4096 + (n / 64 % 64 + 128) % 64 * 64 + (n % 64 + 128) % 64 = n
        by omega]
  · have ha := toNat_ofNat_byte (n := n / 262144 % 8 + 240) (by omega)
    have hb := toNat_ofNat_byte (n := n / 4096 % 64 + 128) (by omega)
    have hc := toNat_ofNat_byte (n := n / 64 % 64 + 128) (by omega)
    have hd := toNat_ofNat_byte (n := n % 64 + 128) (by omega)
    obtain ⟨hl, hh⟩ := second_of_bounds (a := UInt8.ofNat (n / 262144 % 8 + 240))
      (b := UInt8.ofNat (n / 4096 % 64 + 128)) (by omega) (by omega) (by omega) (by omega) (by omega)
      (by omega)
    rw [encode_four (by omega) (by omega)]
    simp only [List.cons_append, List.nil_append]
    rw [nextGlyph_quadruple (by omega) (by omega) hl hh (isTail_ofNat (n / 64)) (isTail_ofNat n),
      bits, bits, bits, bits, ha, hb, hc, hd,
      show (n / 262144 % 8 + 240) % 8 * 262144 + (n / 4096 % 64 + 128) % 64 * 4096 +
        (n / 64 % 64 + 128) % 64 * 64 + (n % 64 + 128) % 64 = n by omega]

theorem glyphs_of_nextGlyph {t rest : Text} {g : Glyph} (h : nextGlyph t = some (g, rest)) :
    glyphs t = g :: glyphs rest := by
  rw [glyphs]
  split
  next he => simp [he] at h
  next u r he =>
    obtain ⟨rfl, rfl⟩ : u = g ∧ r = rest := by simpa [he] using h
    rfl

@[simp] theorem glyphs_nil : glyphs [] = [] := by
  rw [glyphs]
  simp [nextGlyph]

@[simp] theorem glyphs_encode_append (c : Char) (rest : Text) :
    glyphs (encode c ++ rest) = .char c :: glyphs rest :=
  glyphs_of_nextGlyph (nextGlyph_encode c rest)

theorem ofChars_cons (c : Char) (cs : List Char) : ofChars (c :: cs) = encode c ++ ofChars cs := rfl

theorem ofChars_append (cs ds : List Char) : ofChars (cs ++ ds) = ofChars cs ++ ofChars ds :=
  List.flatMap_append

@[simp] theorem glyphs_ofChars (cs : List Char) : glyphs (ofChars cs) = cs.map .char := by
  induction cs with
  | nil => exact glyphs_nil
  | cons c cs ih => rw [ofChars_cons, glyphs_encode_append, ih, List.map_cons]

theorem isValidUtf8_iff {t : Text} : isValidUtf8 t = true ↔ ∃ cs, t = ofChars cs := by
  constructor
  · intro h
    refine ⟨(glyphs t).map Glyph.seen, ?_⟩
    have hb : ∀ g ∈ glyphs t, g.bytes = encode g.seen := by
      intro g hg
      have hs := List.all_eq_true.1 h g hg
      cases g with
      | char c => rfl
      | stray b => simp [Glyph.isStray] at hs
    calc t = (glyphs t).flatMap Glyph.bytes := (ofGlyphs_glyphs t).symm
      _ = (glyphs t).flatMap (fun g => encode g.seen) := by
        rw [List.flatMap_def, List.map_congr_left hb, ← List.flatMap_def]
      _ = ofChars ((glyphs t).map Glyph.seen) := (List.flatMap_map ..).symm
  · rintro ⟨cs, rfl⟩
    simp [isValidUtf8, Glyph.isStray]

theorem scrub_of_valid {t : Text} (h : isValidUtf8 t = true) : scrub t = t := by
  obtain ⟨cs, rfl⟩ := isValidUtf8_iff.1 h
  rw [scrub, glyphs_ofChars, List.flatMap_map]
  rfl

def IsAscii (b : Byte) : Prop := b.toNat < 128

instance (b : Byte) : Decidable (IsAscii b) := inferInstanceAs (Decidable (b.toNat < 128))

theorem encode_ascii {b : Byte} (h : IsAscii b) : encode (Char.ofNat b.toNat) = [b] := by
  rw [encode_one h, UInt8.ofNat_toNat]

theorem ofChars_ascii {t : Text} (h : ∀ b ∈ t, IsAscii b) : ofChars (t.map fun b => Char.ofNat b.toNat) = t := by
  induction t with
  | nil => rfl
  | cons b t ih =>
      obtain ⟨hb, ht⟩ := List.forall_mem_cons.1 h
      rw [List.map_cons, ofChars_cons, encode_ascii hb, ih ht, List.singleton_append]

theorem encode_eq_of_mem {c : Char} {b : Byte} (h : IsAscii b) (hb : b ∈ encode c) :
    c = Char.ofNat b.toNat := by
  have hv : c.toNat < 0xD800 ∨ (0xDFFF < c.toNat ∧ c.toNat < 0x110000) := c.valid
  generalize hn : c.toNat = n at hv
  obtain rfl : Char.ofNat n = c := by rw [← hn, Char.ofNat_toNat]
  have high_ne (m : Nat) (hm : 128 ≤ m) (hm' : m < 256) : b ≠ UInt8.ofNat m := by
    rintro rfl
    rw [IsAscii, toNat_ofNat_byte hm'] at h
    omega
  by_cases h₁ : n < 0x80
  · rw [encode_one h₁, List.mem_singleton] at hb
    rw [hb, toNat_ofNat_byte (by omega)]
  by_cases h₂ : n < 0x800
  · rw [encode_two (by omega) h₂] at hb
    simp only [List.mem_cons, List.not_mem_nil, or_false] at hb
    rcases hb with hb | hb <;> exact absurd hb (high_ne _ (by omega) (by omega))
  by_cases h₃ : n < 0x10000
  · rw [encode_three (by omega) (by omega)] at hb
    simp only [List.mem_cons, List.not_mem_nil, or_false] at hb
    rcases hb with hb | hb | hb <;> exact absurd hb (high_ne _ (by omega) (by omega))
  · rw [encode_four (by omega) (by omega)] at hb
    simp only [List.mem_cons, List.not_mem_nil, or_false] at hb
    rcases hb with hb | hb | hb | hb <;> exact absurd hb (high_ne _ (by omega) (by omega))

end BuiltinCatalog.Text
