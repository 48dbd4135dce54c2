import BuiltinCatalog.Proofs.Text.Search
import BuiltinCatalog.Proofs.Text.Trim
import BuiltinCatalog.Text.Hex

namespace BuiltinCatalog.Text

def IsUtf8 (t : Text) : Prop := isValidUtf8 t = true

instance (t : Text) : Decidable (IsUtf8 t) := inferInstanceAs (Decidable (_ = _))

theorem isUtf8_iff {t : Text} : IsUtf8 t ↔ ∃ cs, t = ofChars cs := isValidUtf8_iff

theorem IsUtf8.scrub_eq {t : Text} (h : IsUtf8 t) : scrub t = t := scrub_of_valid h

theorem isUtf8_scrub (t : Text) : IsUtf8 (scrub t) :=
  isUtf8_iff.2 ⟨(glyphs t).map Glyph.seen, (List.flatMap_map ..).symm⟩

theorem isUtf8_nil : IsUtf8 [] := isUtf8_iff.2 ⟨[], rfl⟩

theorem isUtf8_encode (c : Char) : IsUtf8 (encode c) :=
  isUtf8_iff.2 ⟨[c], by simp [ofChars]⟩

theorem IsUtf8.append {u v : Text} (hu : IsUtf8 u) (hv : IsUtf8 v) : IsUtf8 (u ++ v) := by
  obtain ⟨cs, rfl⟩ := isUtf8_iff.1 hu
  obtain ⟨ds, rfl⟩ := isUtf8_iff.1 hv
  exact isUtf8_iff.2 ⟨cs ++ ds, (ofChars_append cs ds).symm⟩

theorem isUtf8_byte {b : Byte} (h : IsAscii b) : IsUtf8 [b] := by
  rw [← encode_ascii h]
  exact isUtf8_encode _

theorem isAscii_of_all {t : Text} (h : t.all (fun b => decide (IsAscii b)) = true) : ∀ b ∈ t, IsAscii b :=
  fun b hb => of_decide_eq_true (List.all_eq_true.1 h b hb)

theorem isUtf8_ascii {t : Text} (h : ∀ b ∈ t, IsAscii b) : IsUtf8 t := by
  induction t with
  | nil => exact isUtf8_nil
  | cons b t ih => exact (isUtf8_byte (h b (by simp))).append (ih fun c hc => h c (by simp [hc]))

/-- An ASCII byte stands for a character of its own, so no character reaches across it. -/
theorem isUtf8_append_cons {u v : Text} {b : Byte} (hb : IsAscii b) :
    IsUtf8 (u ++ b :: v) ↔ IsUtf8 u ∧ IsUtf8 v := by
  constructor
  · intro h
    obtain ⟨cs, hcs⟩ := isUtf8_iff.1 h
    clear h
    induction cs generalizing u with
    | nil => simp [ofChars] at hcs
    | cons c cs ih =>
        rw [ofChars_cons] at hcs
        rcases List.append_eq_append_iff.1 hcs with ⟨w, hc, hv⟩ | ⟨w, hu, hcs⟩
        · cases w with
          | nil =>
              have hc' : encode c = u := by simpa using hc
              obtain ⟨_, hrest⟩ := ih (u := []) hv
              exact ⟨hc' ▸ isUtf8_encode c, hrest⟩
          | cons d w =>
              -- the byte belongs to the first character, which then is nothing but this byte
              obtain ⟨rfl, rfl⟩ : b = d ∧ v = w ++ ofChars cs := by simpa using hv
              have hone : encode c = [b] := by
                have hmem : b ∈ encode c := by simp [hc]
                rw [encode_eq_of_mem hb hmem, encode_ascii hb]
              rw [hone] at hc
              obtain ⟨rfl, rfl⟩ : u = [] ∧ w = [] := by
                have hl := congrArg List.length hc
                simp only [List.length_append, List.length_cons, List.length_nil] at hl
                exact ⟨List.length_eq_zero_iff.1 (by omega), List.length_eq_zero_iff.1 (by omega)⟩
              exact ⟨isUtf8_nil, isUtf8_iff.2 ⟨cs, rfl⟩⟩
        · obtain ⟨hw, hrest⟩ := ih hcs.symm
          exact ⟨by rw [hu]; exact (isUtf8_encode c).append hw, hrest⟩
  · rintro ⟨hu, hv⟩
    exact hu.append ((isUtf8_byte hb).append hv)

theorem isUtf8_cons {b : Byte} (hb : IsAscii b) {v : Text} : IsUtf8 (b :: v) ↔ IsUtf8 v := by
  have h := isUtf8_append_cons (u := []) (v := v) hb
  simpa [isUtf8_nil] using h

theorem isUtf8_ascii_append {u v : Text} (hu : ∀ b ∈ u, IsAscii b) : IsUtf8 (u ++ v) ↔ IsUtf8 v := by
  induction u with
  | nil => rfl
  | cons b u ih => rw [List.cons_append, isUtf8_cons (hu b (by simp)), ih fun c hc => hu c (by simp [hc])]

theorem isUtf8_append_mark {u mark v : Text} (hm : mark ≠ []) (ha : ∀ b ∈ mark, IsAscii b) :
    IsUtf8 (u ++ mark ++ v) ↔ IsUtf8 u ∧ IsUtf8 v := by
  induction mark generalizing u with
  | nil => exact absurd rfl hm
  | cons b mark ih =>
      have hb := ha b (by simp)
      rw [List.append_assoc, List.cons_append, isUtf8_append_cons hb]
      cases mark with
      | nil => rfl
      | cons c mark =>
          have h := ih (u := []) (by simp) fun d hd => ha d (by simp [hd])
          rw [List.nil_append] at h
          rw [h]
          simp [isUtf8_nil]

theorem isUtf8_of_append_ascii {u v : Text} (hv : ∀ b ∈ v, IsAscii b) (h : IsUtf8 (u ++ v)) : IsUtf8 u := by
  by_cases hn : v = []
  · simpa [hn] using h
  · rw [← List.append_nil (u ++ v)] at h
    exact ((isUtf8_append_mark hn hv).1 h).1

theorem isUtf8_of_cut? {mark t u v : Text} (h : cut? mark t = some (u, v)) (hm : mark ≠ [])
    (ha : ∀ b ∈ mark, IsAscii b) (ht : IsUtf8 t) : IsUtf8 u ∧ IsUtf8 v := by
  rw [cut?_append h] at ht
  exact (isUtf8_append_mark hm ha).1 ht

theorem isUtf8_removeAll {mark t : Text} (ha : ∀ b ∈ mark, IsAscii b) (ht : IsUtf8 t) :
    IsUtf8 (removeAll mark t) := by
  fun_induction removeAll mark t with
  | case1 t => exact ht
  | case2 t _ _ => exact ht
  | case3 t hm u v h ih =>
      obtain ⟨hu, hv⟩ := isUtf8_of_cut? h hm ha ht
      exact hu.append (ih hv)

theorem isUtf8_splitOn {b : Byte} (hb : IsAscii b) {t : Text} (ht : IsUtf8 t) :
    ∀ u ∈ t.splitOn b, IsUtf8 u := by
  induction hn : t.length using Nat.strong_induction_on generalizing t with
  | _ n ih =>
      by_cases hm : b ∈ t
      · obtain ⟨u, v, rfl, hu⟩ := List.eq_append_cons_of_mem hm
        obtain ⟨htu, htv⟩ := (isUtf8_append_cons hb).1 ht
        rw [List.splitOn_append_cons_self_of_not_mem hu]
        intro w hw
        rcases List.mem_cons.1 hw with rfl | hw
        · exact htu
        · refine ih v.length ?_ htv rfl w hw
          rw [← hn, List.length_append, List.length_cons]
          omega
      · rw [List.splitOn_eq_singleton hm]
        simpa using ht

theorem isUtf8_intercalate {separator : Text} (hs : IsUtf8 separator) {ts : List Text}
    (h : ∀ t ∈ ts, IsUtf8 t) : IsUtf8 (separator.intercalate ts) := by
  induction ts with
  | nil => exact isUtf8_nil
  | cons t ts ih =>
      have hrest := ih fun u hu => h u (by simp [hu])
      cases ts with
      | nil => simpa using h t (by simp)
      | cons u ts =>
          rw [List.intercalate_cons_cons]
          exact ((h t (by simp)).append hs).append hrest

theorem isUtf8_ofGlyphs {gs : List Glyph} (h : ∀ g ∈ gs, g.isStray = false) : IsUtf8 (ofGlyphs gs) := by
  induction gs with
  | nil => exact isUtf8_nil
  | cons g gs ih =>
      have hrest := ih fun f hf => h f (by simp [hf])
      cases g with
      | char c => exact (isUtf8_encode c).append hrest
      | stray b => simpa [Glyph.isStray] using h (.stray b) (by simp)

theorem isUtf8_trim {t : Text} (h : IsUtf8 t) : IsUtf8 (trim t) := by
  have hg : ∀ g ∈ glyphs t, g.isStray = false := by
    intro g hg
    have := List.all_eq_true.1 h g hg
    simpa using this
  apply isUtf8_ofGlyphs
  intro g hm
  apply hg
  rw [List.mem_reverse] at hm
  have hm' := (List.dropWhile_sublist _).subset hm
  exact (List.dropWhile_sublist _).subset (List.mem_reverse.1 hm')

theorem isUtf8_of_trim {t : Text} (h : IsUtf8 (trim t)) : IsUtf8 t := by
  have hblank (gs : List Glyph) : ∀ g ∈ gs.takeWhile Glyph.isBlank, g.isStray = false := by
    intro g hg
    cases g with
    | char c => rfl
    | stray b => cases List.mem_takeWhile_imp hg
  have hright (gs : List Glyph) (h : IsUtf8 (ofGlyphs (gs.reverse.dropWhile Glyph.isBlank).reverse)) :
      IsUtf8 (ofGlyphs gs) := by
    rw [← List.reverse_reverse gs, ← List.takeWhile_append_dropWhile (p := Glyph.isBlank) (l := gs.reverse),
      List.reverse_append, ofGlyphs_append]
    exact h.append (isUtf8_ofGlyphs fun g hg => hblank _ g (List.mem_reverse.1 hg))
  rw [← ofGlyphs_glyphs t, ← List.takeWhile_append_dropWhile (p := Glyph.isBlank) (l := glyphs t), ofGlyphs_append]
  exact (isUtf8_ofGlyphs (hblank _)).append (hright _ h)

theorem isAscii_of_isWord {b : Byte} (h : isWord b = true) : IsAscii b := (isInk_of_isWord h).1

theorem isAscii_of_isSpace {b : Byte} (h : isSpace b = true) : IsAscii b := (isBlank_of_isSpace h).1

theorem isAscii_hexDigit {n : Nat} (h : n < 16) : IsAscii (hexDigit n) := by
  unfold IsAscii hexDigit
  rw [toNat_ofNat_byte (by split <;> omega)]
  split <;> omega

theorem isAscii_hexNat (n width : Nat) : ∀ b ∈ hexNat n width, IsAscii b := by
  induction width generalizing n with
  | zero => simp [hexNat]
  | succ width ih =>
      intro b hb
      rcases List.mem_append.1 hb with hb | hb
      · exact ih _ b hb
      · obtain rfl : b = hexDigit (n % 16) := by simpa using hb
        exact isAscii_hexDigit (Nat.mod_lt n (by decide))

theorem isUtf8_hex (t : Text) : IsUtf8 (hex t) := by
  apply isUtf8_ascii
  intro b hb
  obtain ⟨c, _, hb⟩ := List.mem_flatMap.1 hb
  exact isAscii_hexNat _ _ b hb

end BuiltinCatalog.Text
