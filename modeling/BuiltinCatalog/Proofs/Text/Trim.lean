import BuiltinCatalog.Proofs.Text.Utf8
import BuiltinCatalog.Text.Blank
import Mathlib.Data.List.Flatten
import Mathlib.Data.List.TakeWhile

namespace BuiltinCatalog.Text

def asciiGlyph (b : Byte) : Glyph := .char (Char.ofNat b.toNat)

theorem glyphs_cons {b : Byte} (h : IsAscii b) (t : Text) : glyphs (b :: t) = asciiGlyph b :: glyphs t :=
  glyphs_of_nextGlyph (nextGlyph_single h t)

theorem glyphs_append {u : Text} (h : ∀ b ∈ u, IsAscii b) (v : Text) :
    glyphs (u ++ v) = u.map asciiGlyph ++ glyphs v := by
  induction u with
  | nil => rfl
  | cons b u ih =>
      rw [List.cons_append, glyphs_cons (h b (by simp)), ih fun c hc => h c (by simp [hc]), List.map_cons,
        List.cons_append]

theorem glyphs_ascii {t : Text} (h : ∀ b ∈ t, IsAscii b) : glyphs t = t.map asciiGlyph := by
  have hglyphs := glyphs_append h []
  rwa [List.append_nil, glyphs_nil, List.append_nil] at hglyphs

theorem ofGlyphs_append (us vs : List Glyph) : ofGlyphs (us ++ vs) = ofGlyphs us ++ ofGlyphs vs :=
  List.flatMap_append

theorem ofGlyphs_ascii {t : Text} (h : ∀ b ∈ t, IsAscii b) : ofGlyphs (t.map asciiGlyph) = t := by
  rw [← glyphs_ascii h, ofGlyphs_glyphs]

theorem bytes_ne_nil (g : Glyph) : g.bytes ≠ [] := by
  cases g with
  | stray b => simp [Glyph.bytes]
  | char c =>
      have h := String.length_utf8EncodeChar c
      have hp := Char.utf8Size_pos c
      intro he
      rw [Glyph.bytes, encode] at he
      simp [he] at h
      omega

def IsInk (b : Byte) : Prop := IsAscii b ∧ isBlank (Char.ofNat b.toNat) = false

instance (b : Byte) : Decidable (IsInk b) := inferInstanceAs (Decidable (_ ∧ _))

theorem isBlank_asciiGlyph {b : Byte} (h : IsInk b) : (asciiGlyph b).isBlank = false := h.2

theorem isBlank_getLast {t : Text} {b : Byte} {g : Glyph} (h : IsInk b) (hb : t.getLast? = some b)
    (hg : (glyphs t).getLast? = some g) : g.isBlank = false := by
  obtain ⟨gs, hgs⟩ := List.getLast?_eq_some_iff.1 hg
  have ht := congrArg List.getLast? (ofGlyphs_glyphs t)
  rw [hgs, ofGlyphs_append, hb] at ht
  cases g with
  | stray c => rfl
  | char c =>
      have hl : (encode c).getLast? = some b := by
        have hn : encode c ≠ [] := bytes_ne_nil (.char c)
        simpa [ofGlyphs, Glyph.bytes, List.getLast?_append, List.getLast?_eq_none_iff, hn] using ht
      rw [encode_eq_of_mem h.1 (List.mem_of_getLast? hl)]
      exact h.2

theorem dropWhile_eq_self {gs : List Glyph} (h : ∀ g, gs.head? = some g → g.isBlank = false) :
    gs.dropWhile Glyph.isBlank = gs := by
  cases gs with
  | nil => rfl
  | cons g gs => simp [h g rfl]

theorem mem_of_mem_trim {t : Text} {b : Byte} (h : b ∈ trim t) : b ∈ t := by
  obtain ⟨g, hg, hb⟩ := List.mem_flatMap.1 h
  have hleft : g ∈ (glyphs t).dropWhile Glyph.isBlank :=
    List.mem_reverse.1 ((List.dropWhile_sublist _).subset (List.mem_reverse.1 hg))
  have hglyphs : g ∈ glyphs t := (List.dropWhile_sublist _).subset hleft
  rw [← ofGlyphs_glyphs t]
  exact List.mem_flatMap.2 ⟨g, hglyphs, hb⟩

theorem eq_of_ofGlyphs {us vs : List Glyph} (h : us.Sublist vs) (he : ofGlyphs us = ofGlyphs vs) : us = vs := by
  induction h with
  | slnil => rfl
  | @cons us vs g h ih =>
      have hle : (ofGlyphs us).length ≤ (ofGlyphs vs).length := (h.flatMap Glyph.bytes).length_le
      have hpos := List.length_pos_iff.2 (bytes_ne_nil g)
      have hlen := congrArg List.length he
      rw [ofGlyphs, ofGlyphs, List.flatMap_cons, List.length_append, ← ofGlyphs, ← ofGlyphs] at hlen
      omega
  | @cons_cons us vs g h ih =>
      rw [ofGlyphs, ofGlyphs, List.flatMap_cons, List.flatMap_cons] at he
      rw [ih (List.append_cancel_left he)]

theorem isBlank_of_dropWhile {gs : List Glyph} (h : gs.dropWhile Glyph.isBlank = gs) {g : Glyph}
    (hg : gs.head? = some g) : g.isBlank = false := by
  have hnot := List.head?_dropWhile_not Glyph.isBlank gs
  rw [h, hg] at hnot
  simpa using hnot

theorem trim_eq_self_iff {t : Text} :
    trim t = t ↔ (∀ g, (glyphs t).head? = some g → g.isBlank = false) ∧
      ∀ g, (glyphs t).getLast? = some g → g.isBlank = false := by
  constructor
  · intro h
    have hleft : ((glyphs t).dropWhile Glyph.isBlank).Sublist (glyphs t) := List.dropWhile_sublist _
    have hright : (((glyphs t).dropWhile Glyph.isBlank).reverse.dropWhile Glyph.isBlank).reverse.Sublist
        ((glyphs t).dropWhile Glyph.isBlank) := by
      rw [← List.reverse_sublist, List.reverse_reverse]
      exact List.dropWhile_sublist _
    have hall := eq_of_ofGlyphs (hright.trans hleft) (h.trans (ofGlyphs_glyphs t).symm)
    have hfirst : (glyphs t).dropWhile Glyph.isBlank = glyphs t := by
      rw [hall] at hright
      exact hleft.eq_of_length_le hright.length_le
    rw [hfirst] at hall
    have hlast : (glyphs t).reverse.dropWhile Glyph.isBlank = (glyphs t).reverse := by
      rw [← List.reverse_inj, hall, List.reverse_reverse]
    refine ⟨fun g hg => isBlank_of_dropWhile hfirst hg, fun g hg => isBlank_of_dropWhile hlast ?_⟩
    rwa [List.head?_reverse]
  · rintro ⟨hfirst, hlast⟩
    have hreverse : ∀ g, (glyphs t).reverse.head? = some g → g.isBlank = false := by
      intro g hg
      rw [List.head?_reverse] at hg
      exact hlast g hg
    rw [trim, dropWhile_eq_self hfirst, dropWhile_eq_self hreverse, List.reverse_reverse, ofGlyphs_glyphs]

theorem nextGlyph_stray_cut {b : Byte} {t v : Text} (h : nextGlyph (b :: (t ++ v)) = some (.stray b, t ++ v)) :
    nextGlyph (b :: t) = some (.stray b, t) := by
  cases hnext : nextGlyph (b :: t) with
  | none => simp [nextGlyph_eq_none_iff] at hnext
  | some pair =>
      obtain ⟨g, rest⟩ := pair
      have happend := nextGlyph_append hnext
      cases g with
      | char c =>
          rw [Glyph.bytes] at happend
          rw [← List.cons_append, happend, List.append_assoc, nextGlyph_encode] at h
          cases h
      | stray c =>
          obtain ⟨rfl, rfl⟩ := List.cons.inj happend
          rfl

theorem nextGlyph_of_glyphs {t : Text} {g : Glyph} {gs : List Glyph} (h : glyphs t = g :: gs) :
    ∃ rest, nextGlyph t = some (g, rest) ∧ glyphs rest = gs := by
  cases hnext : nextGlyph t with
  | none =>
      rw [nextGlyph_eq_none_iff.1 hnext, glyphs_nil] at h
      cases h
  | some pair =>
      obtain ⟨g', rest⟩ := pair
      rw [glyphs_of_nextGlyph hnext] at h
      obtain ⟨rfl, rfl⟩ := List.cons.inj h
      exact ⟨rest, rfl, rfl⟩

theorem glyphs_of_append {t : Text} {us vs : List Glyph} (h : glyphs t = us ++ vs) : glyphs (ofGlyphs vs) = vs := by
  induction us generalizing t with
  | nil =>
      rw [List.nil_append] at h
      rw [← h, ofGlyphs_glyphs]
  | cons g us ih =>
      obtain ⟨rest, -, hrest⟩ := nextGlyph_of_glyphs h
      exact ih hrest

theorem glyphs_ofGlyphs_cut {us : List Glyph} {v : Text} (h : glyphs (ofGlyphs us ++ v) = us ++ glyphs v) :
    glyphs (ofGlyphs us) = us := by
  induction us with
  | nil => exact glyphs_nil
  | cons g us ih =>
      obtain ⟨rest, hnext, hrest⟩ := nextGlyph_of_glyphs h
      have hsplit : ofGlyphs (g :: us) ++ v = g.bytes ++ (ofGlyphs us ++ v) := by
        rw [ofGlyphs, List.flatMap_cons, List.append_assoc, ofGlyphs]
      have hsame := nextGlyph_append hnext
      rw [hsplit, List.append_cancel_left_eq] at hsame
      subst hsame
      rw [hsplit] at hnext
      have hfirst : nextGlyph (g.bytes ++ ofGlyphs us) = some (g, ofGlyphs us) := by
        cases g with
        | char c => exact nextGlyph_encode c _
        | stray b => exact nextGlyph_stray_cut hnext
      have hglyphs := glyphs_of_nextGlyph hfirst
      rw [ih hrest] at hglyphs
      exact hglyphs

theorem glyphs_ofGlyphs_infix {t : Text} {us vs ws : List Glyph} (h : glyphs t = us ++ (vs ++ ws)) :
    glyphs (ofGlyphs vs) = vs := by
  have hrest := glyphs_of_append h
  have hws : glyphs (ofGlyphs ws) = ws := glyphs_of_append hrest
  rw [ofGlyphs_append] at hrest
  exact glyphs_ofGlyphs_cut (by rw [hrest, hws])

theorem trim_trim (t : Text) : trim (trim t) = trim t := by
  generalize hd : (glyphs t).dropWhile Glyph.isBlank = ds
  generalize hm : (ds.reverse.dropWhile Glyph.isBlank).reverse = ms
  have htrim : trim t = ofGlyphs ms := by rw [trim, hd, hm]
  have hleft : glyphs t = (glyphs t).takeWhile Glyph.isBlank ++ ds := by
    rw [← hd, List.takeWhile_append_dropWhile]
  have hright : ds = ms ++ (ds.reverse.takeWhile Glyph.isBlank).reverse := by
    rw [← hm, ← List.reverse_append, List.takeWhile_append_dropWhile, List.reverse_reverse]
  have hglyphs : glyphs (trim t) = ms := by
    rw [hright] at hleft
    rw [htrim]
    exact glyphs_ofGlyphs_infix hleft
  rw [trim_eq_self_iff, hglyphs]
  constructor
  · intro g hg
    have hfirst : ds.head? = some g := by rw [hright, List.head?_append, hg, Option.some_or]
    have hnot := List.head?_dropWhile_not Glyph.isBlank (glyphs t)
    rw [hd, hfirst] at hnot
    simpa using hnot
  · intro g hg
    rw [← hm, List.getLast?_reverse] at hg
    have hnot := List.head?_dropWhile_not Glyph.isBlank ds.reverse
    rw [hg] at hnot
    simpa using hnot

theorem mem_of_mem_trimRight {t : Text} {b : Byte} (h : b ∈ trimRight t) : b ∈ t := by
  obtain ⟨g, hg, hb⟩ := List.mem_flatMap.1 h
  have hglyphs : g ∈ glyphs t :=
    List.mem_reverse.1 ((List.dropWhile_sublist _).subset (List.mem_reverse.1 hg))
  rw [← ofGlyphs_glyphs t]
  exact List.mem_flatMap.2 ⟨g, hglyphs, hb⟩

theorem trimRight_append {u : Text} {b : Byte} (hu : ∀ c ∈ u, IsAscii c) (hb : IsInk b) (v : Text) :
    trimRight (u ++ b :: v) = u ++ b :: trimRight v := by
  have hcons (gs : List Glyph) : ofGlyphs (asciiGlyph b :: gs) = b :: ofGlyphs gs := by
    have hsingle := ofGlyphs_ascii (t := [b]) (by simpa using hb.1)
    rw [← List.singleton_append, ofGlyphs_append]
    exact congrArg (· ++ ofGlyphs gs) hsingle
  -- the ink ends the blank glyphs, wherever they start
  have hkept : ((glyphs v).reverse ++ asciiGlyph b :: (u.map asciiGlyph).reverse).dropWhile Glyph.isBlank =
      (glyphs v).reverse.dropWhile Glyph.isBlank ++ asciiGlyph b :: (u.map asciiGlyph).reverse := by
    rw [List.dropWhile_append]
    split
    next hblank =>
      rw [List.isEmpty_iff.1 hblank, List.dropWhile_cons_of_neg (by simp [isBlank_asciiGlyph hb]), List.nil_append]
    next => rfl
  rw [trimRight, glyphs_append hu, glyphs_cons hb.1, List.reverse_append, List.reverse_cons, List.append_assoc,
    List.singleton_append, hkept, List.reverse_append, List.reverse_cons, List.reverse_reverse, List.append_assoc,
    List.singleton_append, ofGlyphs_append, ofGlyphs_ascii hu, hcons, trimRight]

theorem isBlank_head {t : Text} {a : Byte} {g : Glyph} (h : IsInk a) (ha : t.head? = some a)
    (hg : (glyphs t).head? = some g) : g.isBlank = false := by
  obtain ⟨u, rfl⟩ := List.head?_eq_some_iff.1 ha
  obtain rfl : asciiGlyph a = g := by simpa [glyphs_cons h.1] using hg
  exact isBlank_asciiGlyph h

theorem trim_eq_self {t : Text} {a b : Byte} (ha : IsInk a) (hb : IsInk b) (hh : t.head? = some a)
    (hl : t.getLast? = some b) : trim t = t :=
  trim_eq_self_iff.2 ⟨fun _ hg => isBlank_head ha hh hg, fun _ hg => isBlank_getLast hb hl hg⟩

theorem trim_append_eq_self {u v : Text} {a : Byte} (hu : ∀ b ∈ u, IsAscii b) (ha : IsInk a)
    (hh : u.head? = some a) (hv : trim v = v) (hne : v ≠ []) : trim (u ++ v) = u ++ v := by
  refine trim_eq_self_iff.2 ⟨fun g hg => isBlank_head ha ?_ hg, fun g hg => (trim_eq_self_iff.1 hv).2 g ?_⟩
  · rw [List.head?_append, hh, Option.some_or]
  · rw [glyphs_append hu, List.getLast?_append] at hg
    cases hlast : (glyphs v).getLast? with
    | none =>
        have hbytes := ofGlyphs_glyphs v
        rw [List.getLast?_eq_none_iff.1 hlast] at hbytes
        exact absurd hbytes.symm hne
    | some last => rwa [hlast, Option.some_or] at hg

theorem isBlank_of_isSpace {b : Byte} (h : isSpace b = true) :
    IsAscii b ∧ (asciiGlyph b).isBlank = true := by
  simp only [isSpace, Bool.or_eq_true, beq_iff_eq] at h
  rcases h with (((rfl | rfl) | rfl) | rfl) | rfl <;> decide

theorem trim_cons {b : Byte} (h : isSpace b = true) (t : Text) : trim (b :: t) = trim t := by
  obtain ⟨ha, hb⟩ := isBlank_of_isSpace h
  rw [trim, glyphs_cons ha, List.dropWhile_cons_of_pos hb, trim]

theorem trim_concat {b : Byte} (h : isSpace b = true) {t : Text} (ht : ∀ c ∈ t, IsAscii c) :
    trim (t ++ [b]) = trim t := by
  obtain ⟨ha, hb⟩ := isBlank_of_isSpace h
  rw [trim, glyphs_append ht, glyphs_cons ha, glyphs_nil, ← glyphs_ascii ht, List.dropWhile_append, trim]
  split
  next hblank =>
    rw [List.isEmpty_iff.1 hblank, List.dropWhile_cons_of_pos hb]
    rfl
  next => rw [List.reverse_append, List.reverse_singleton, List.singleton_append, List.dropWhile_cons_of_pos hb]

theorem isInk_of_isWord {b : Byte} (h : isWord b = true) : IsInk b := by
  simp only [isWord, isDigit, isUpper, isLower, Bool.or_eq_true, Bool.and_eq_true, decide_eq_true_eq,
    beq_iff_eq, UInt8.le_iff_toNat_le, ← UInt8.toNat_inj, UInt8.reduceToNat] at h
  have ha : IsAscii b := by
    unfold IsAscii
    omega
  have hn : (Char.ofNat b.toNat).toNat = b.toNat := toNat_ofNat_of_valid (Or.inl (by omega))
  refine ⟨ha, ?_⟩
  simp only [isBlank, hn, Bool.or_eq_false_iff, Bool.and_eq_false_iff, decide_eq_false_iff_not,
    beq_eq_false_iff_ne]
  omega

theorem trim_ne_nil {u : Text} {b : Byte} (hu : ∀ c ∈ u, isSpace c = true) (hb : IsInk b) (v : Text) :
    trim (u ++ b :: v) ≠ [] := by
  have hglyphs : glyphs (u ++ b :: v) = u.map asciiGlyph ++ asciiGlyph b :: glyphs v := by
    rw [glyphs_append fun c hc => (isBlank_of_isSpace (hu c hc)).1, glyphs_cons hb.1]
  have hblank : ∀ g ∈ u.map asciiGlyph, g.isBlank = true := by
    intro g hg
    obtain ⟨c, hc, rfl⟩ := List.mem_map.1 hg
    exact (isBlank_of_isSpace (hu c hc)).2
  have hink := isBlank_asciiGlyph hb
  have hfirst : (asciiGlyph b :: glyphs v).dropWhile Glyph.isBlank = asciiGlyph b :: glyphs v := by
    simp [hink]
  rw [trim, hglyphs, List.dropWhile_append_of_pos hblank, hfirst]
  cases hgs : (asciiGlyph b :: glyphs v).reverse.dropWhile Glyph.isBlank with
  | nil =>
      have hb' := List.dropWhile_eq_nil_iff.1 hgs (asciiGlyph b) (by simp)
      simp [hink] at hb'
  | cons g gs =>
      rw [List.reverse_cons, ofGlyphs_append]
      simp [ofGlyphs, bytes_ne_nil]

theorem trim_padded {u w v : Text} (hu : ∀ b ∈ u, isSpace b = true) (hw : ∀ b ∈ w, isWord b = true)
    (hv : ∀ b ∈ v, isSpace b = true) : trim (u ++ w ++ v) = w := by
  have hblank (x : Text) (hx : ∀ b ∈ x, isSpace b = true) :
      ∀ g ∈ x.map asciiGlyph, g.isBlank = true := by
    intro g hg
    obtain ⟨b, hb, rfl⟩ := List.mem_map.1 hg
    exact (isBlank_of_isSpace (hx b hb)).2
  have hink (x : Text) (hx : ∀ b ∈ x, isWord b = true) :
      ∀ g, (x.map asciiGlyph).head? = some g → g.isBlank = false := by
    intro g hg
    obtain ⟨b, hb, rfl⟩ := List.mem_map.1 (List.mem_of_head? hg)
    exact isBlank_asciiGlyph (isInk_of_isWord (hx b hb))
  have hascii : ∀ b ∈ u ++ w ++ v, IsAscii b := by
    intro b hb
    simp only [List.mem_append] at hb
    rcases hb with (hb | hb) | hb
    · exact (isBlank_of_isSpace (hu b hb)).1
    · exact (isInk_of_isWord (hw b hb)).1
    · exact (isBlank_of_isSpace (hv b hb)).1
  rw [trim, glyphs_ascii hascii, List.map_append, List.map_append, List.append_assoc,
    List.dropWhile_append_of_pos (hblank u hu)]
  cases w with
  | nil =>
      have hd : (v.map asciiGlyph ++ []).dropWhile Glyph.isBlank = [] :=
        List.dropWhile_append_of_pos (hblank v hv)
      rw [List.append_nil] at hd
      simp [hd, ofGlyphs]
  | cons b w =>
      have hs : ((b :: w).map asciiGlyph ++ v.map asciiGlyph).dropWhile Glyph.isBlank =
          (b :: w).map asciiGlyph ++ v.map asciiGlyph :=
        dropWhile_eq_self (fun g hg => hink (b :: w) hw g (by simpa using hg))
      rw [hs, List.reverse_append, ← List.map_reverse, ← List.map_reverse,
        List.dropWhile_append_of_pos (hblank v.reverse (by simpa using hv)),
        dropWhile_eq_self (hink (b :: w).reverse (fun c hc => hw c (List.mem_reverse.1 hc))), ← List.map_reverse,
        List.reverse_reverse, ofGlyphs_ascii (fun c hc => (isInk_of_isWord (hw c hc)).1)]

end BuiltinCatalog.Text
