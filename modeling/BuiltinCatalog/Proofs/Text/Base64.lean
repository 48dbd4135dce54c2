import BuiltinCatalog.Text.Base64

namespace BuiltinCatalog.Text

variable {n : Nat}

theorem value64?_digit64 (h : n < 64) : value64? (digit64 n) = some n := by
  revert n
  decide

theorem digit64_ne {b : Byte} (h : n < 64) (hb : value64? b = none) : digit64 n ≠ b := by
  rintro rfl
  rw [value64?_digit64 h] at hb
  cases hb

theorem value64?_pad : value64? 61 = none := by decide

theorem ofDigits64?_one {m n : Nat} (hm : m < 64) (hn : n < 64) :
    ofDigits64? [digit64 m, digit64 n, 61, 61] = some [UInt8.ofNat ((m * 64 + n) / 16)] := by
  simp [ofDigits64?, value64?_digit64 hm, value64?_digit64 hn]

theorem ofDigits64?_two {l m n : Nat} (hl : l < 64) (hm : m < 64) (hn : n < 64) :
    ofDigits64? [digit64 l, digit64 m, digit64 n, 61] =
      some [UInt8.ofNat ((l * 4096 + m * 64 + n) / 4 / 256), UInt8.ofNat ((l * 4096 + m * 64 + n) / 4 % 256)] := by
  simp [ofDigits64?, value64?_digit64 hl, value64?_digit64 hm, value64?_digit64 hn,
    digit64_ne hn value64?_pad]

theorem ofDigits64?_three {k l m n : Nat} (hk : k < 64) (hl : l < 64) (hm : m < 64) (hn : n < 64)
    {rest t : Text} (hrest : ofDigits64? rest = some t) :
    ofDigits64? (digit64 k :: digit64 l :: digit64 m :: digit64 n :: rest) =
      some (UInt8.ofNat ((k * 262144 + l * 4096 + m * 64 + n) / 65536) ::
        UInt8.ofNat ((k * 262144 + l * 4096 + m * 64 + n) / 256 % 256) ::
        UInt8.ofNat ((k * 262144 + l * 4096 + m * 64 + n) % 256) :: t) := by
  simp [ofDigits64?, value64?_digit64 hk, value64?_digit64 hl, value64?_digit64 hm,
    value64?_digit64 hn, digit64_ne hm value64?_pad, digit64_ne hn value64?_pad, hrest]

theorem ofDigits64?_toBase64 (t : Text) : ofDigits64? (toBase64 t) = some t := by
  fun_induction toBase64 t with
  | case1 a b c rest n ih =>
      have ha := a.toNat_lt
      have hb := b.toNat_lt
      have hc := c.toNat_lt
      have hn : n / 262144 * 262144 + n / 4096 % 64 * 4096 + n / 64 % 64 * 64 + n % 64 = n := by omega
      rw [ofDigits64?_three (by omega) (by omega) (by omega) (by omega) ih, hn]
      have h₁ : n / 65536 = a.toNat := by omega
      have h₂ : n / 256 % 256 = b.toNat := by omega
      have h₃ : n % 256 = c.toNat := by omega
      simp only [h₁, h₂, h₃, UInt8.ofNat_toNat]
  | case2 a b n =>
      have ha := a.toNat_lt
      have hb := b.toNat_lt
      have hn : n / 4096 * 4096 + n / 64 % 64 * 64 + n % 64 = n := by omega
      rw [ofDigits64?_two (by omega) (by omega) (by omega), hn]
      have h₁ : n / 4 / 256 = a.toNat := by omega
      have h₂ : n / 4 % 256 = b.toNat := by omega
      simp only [h₁, h₂, UInt8.ofNat_toNat]
  | case3 a n =>
      have ha := a.toNat_lt
      have hn : n / 64 * 64 + n % 64 = n := by omega
      rw [ofDigits64?_one (by omega) (by omega), hn]
      have h₁ : n / 16 = a.toNat := by omega
      simp only [h₁, UInt8.ofNat_toNat]
  | case4 => rfl

theorem not_mem_toBase64 {b : Byte} (hb : value64? b = none) (hpad : b ≠ 61) (t : Text) : b ∉ toBase64 t := by
  have hne {n : Nat} (h : n < 64) : b ≠ digit64 n := (digit64_ne h hb).symm
  fun_induction toBase64 t with
  | case1 a b c rest n ih =>
      have ha := a.toNat_lt
      have hb := b.toNat_lt
      have hc := c.toNat_lt
      simp only [List.mem_cons, not_or]
      exact ⟨hne (by omega), hne (by omega), hne (by omega), hne (by omega), ih⟩
  | case2 a b n =>
      have ha := a.toNat_lt
      have hb := b.toNat_lt
      simp only [List.mem_cons, not_or]
      exact ⟨hne (by omega), hne (by omega), hne (by omega), hpad, List.not_mem_nil⟩
  | case3 a n =>
      have ha := a.toNat_lt
      simp only [List.mem_cons, not_or]
      exact ⟨hne (by omega), hne (by omega), hpad, hpad, List.not_mem_nil⟩
  | case4 => exact List.not_mem_nil

theorem ofBase64?_toBase64 (t : Text) : ofBase64? (toBase64 t) = some t := by
  have hbreaks : (toBase64 t).filter (fun b => b != 10 && b != 13) = toBase64 t := by
    rw [List.filter_eq_self]
    intro b hb
    have hlf : b ≠ 10 := by
      rintro rfl
      exact not_mem_toBase64 (by decide) (by decide) t hb
    have hcr : b ≠ 13 := by
      rintro rfl
      exact not_mem_toBase64 (by decide) (by decide) t hb
    simp [hlf, hcr]
  rw [ofBase64?, hbreaks, ofDigits64?_toBase64]

end BuiltinCatalog.Text
