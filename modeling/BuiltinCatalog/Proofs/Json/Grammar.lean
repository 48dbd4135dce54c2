import BuiltinCatalog.Json.Read
import BuiltinCatalog.Proofs.Text.Utf8

namespace BuiltinCatalog.Json

open Text

variable {room fuel : Nat} {t rest : Text}

def IsGap (t : Text) : Prop := ∀ b ∈ t, isGap b = true

theorem isGap_nil : IsGap [] := by simp [IsGap]

theorem IsGap.append {g h : Text} (hg : IsGap g) (hh : IsGap h) : IsGap (g ++ h) := by
  intro b hb
  rcases List.mem_append.1 hb with hb | hb
  · exact hg b hb
  · exact hh b hb

theorem skipGap_append {g : Text} (hg : IsGap g) (t : Text) : skipGap (g ++ t) = skipGap t := by
  induction g with
  | nil => rfl
  | cons b g ih =>
      rw [List.cons_append, skipGap, List.dropWhile_cons_of_pos (hg b (by simp))]
      exact ih fun c hc => hg c (by simp [hc])

theorem skipGap_cons {b : Byte} (hb : isGap b = false) (t : Text) : skipGap (b :: t) = b :: t :=
  List.dropWhile_cons_of_neg (by simp [hb])

/-- The ways to write a character between quotes. -/
inductive SpellsChar : Char → Text → Prop
  | plain {c : Char} (low : 32 ≤ c.toNat) (unquoted : c.toNat ≠ 34) (unescaped : c.toNat ≠ 92) :
      SpellsChar c (encode c)
  | letter {c : Char} {b : Byte} (means : letterValue? b = some c) : SpellsChar c [92, b]
  | unit {c : Char} {digits : Text} (four : digits.length = 4) (means : ofHex? digits = some c.toNat) :
      SpellsChar c (92 :: 'u'.toUInt8 :: digits)

inductive SpellsChars : List Char → Text → Prop
  | nil : SpellsChars [] []
  | cons {c : Char} {cs : List Char} {t u : Text} (head : SpellsChar c t) (tail : SpellsChars cs u) :
      SpellsChars (c :: cs) (t ++ u)

inductive SpellsString : Text → Text → Prop
  | quoted {cs : List Char} {t : Text} (body : SpellsChars cs t) :
      SpellsString (ofChars cs) (34 :: (t ++ [34]))

theorem exists_encode_cons (c : Char) : ∃ b u, encode c = b :: u := by
  have hglyph := nextGlyph_encode c []
  cases henc : encode c with
  | nil => simp [henc, nextGlyph] at hglyph
  | cons b u => exact ⟨b, u, rfl⟩

theorem SpellsChar.length_pos {c : Char} (h : SpellsChar c t) : 0 < t.length := by
  cases h with
  | plain =>
      obtain ⟨b, u, hbu⟩ := exists_encode_cons c
      simp [hbu]
  | letter | unit => simp

theorem SpellsChars.length_le {cs : List Char} (h : SpellsChars cs t) : cs.length ≤ t.length := by
  induction h with
  | nil => exact Nat.le_refl _
  | cons head tail ih =>
      have hpos := head.length_pos
      simp only [List.length_cons, List.length_append]
      omega

theorem toNat_of_mem_encode {c : Char} {b : Byte} (hb : b ∈ encode c) (h : b.toNat < 128) :
    c.toNat = b.toNat := by
  rw [encode_eq_of_mem h hb]
  exact toNat_ofNat_of_valid (by omega)

theorem nextEscaped?_unit {c : Char} {digits u : Text} (four : digits.length = 4)
    (means : ofHex? digits = some c.toNat) : nextEscaped? (digits ++ u) = some (c, u) := by
  have hunit : nextUnit? (digits ++ u) = some (c.toNat, u) := by
    have hlen : ¬ (digits ++ u).length < 4 := by
      rw [List.length_append]
      omega
    rw [nextUnit?, if_neg hlen, List.take_left' four, List.drop_left' four, means]
    rfl
  have hvalid : c.toNat < 0xD800 ∨ (0xDFFF < c.toNat ∧ c.toNat < 0x110000) := c.valid
  have hhigh : isHighHalf c.toNat = false := by
    simp only [isHighHalf, Bool.and_eq_false_iff, decide_eq_false_iff_not]
    omega
  have hlow : isLowHalf c.toNat = false := by
    simp only [isLowHalf, Bool.and_eq_false_iff, decide_eq_false_iff_not]
    omega
  simp [nextEscaped?, hunit, hhigh, hlow]

theorem stringRest_char {c : Char} {u : Text} (h : SpellsChar c t) (fuel : Nat) :
    stringRest (fuel + 1) (t ++ u) = (stringRest fuel u).map fun r => (encode c ++ r.1, r.2) := by
  cases h with
  | plain low unquoted unescaped =>
      obtain ⟨b, v, hbv⟩ := exists_encode_cons c
      have hb : b ∈ encode c := by simp [hbv]
      have hquote : b ≠ 34 := by
        rintro rfl
        exact unquoted (toNat_of_mem_encode hb (by decide))
      have hslash : b ≠ 92 := by
        rintro rfl
        exact unescaped (toNat_of_mem_encode hb (by decide))
      have hlow : ¬ b < 32 := by
        intro hlt
        have hlt : b.toNat < 32 := UInt8.lt_iff_toNat_lt.1 hlt
        have := toNat_of_mem_encode hb (by omega)
        omega
      have hcons : encode c ++ u = b :: (v ++ u) := by rw [hbv, List.cons_append]
      have hglyph := nextGlyph_encode c u
      rw [hcons] at hglyph ⊢
      simp only [stringRest, hquote, hslash, hlow, hglyph, if_false, Option.bind_eq_bind, Option.bind_some]
      cases stringRest fuel u <;> rfl
  | @letter b means =>
      have hb : b ≠ 'u'.toUInt8 := by
        rintro rfl
        cases means
      have hquote : (92 : Byte) ≠ 34 := by decide
      have hlow : ¬ (92 : Byte) < 32 := by decide
      simp only [List.cons_append, List.nil_append, stringRest, hquote, hlow, hb, means, if_false, if_true,
        Option.map_some, Option.bind_eq_bind, Option.bind_some]
      cases stringRest fuel u <;> rfl
  | @unit digits four means =>
      have hquote : (92 : Byte) ≠ 34 := by decide
      have hlow : ¬ (92 : Byte) < 32 := by decide
      simp only [List.cons_append, stringRest, hquote, hlow, if_false, if_true, nextEscaped?_unit four means,
        Option.bind_eq_bind, Option.bind_some]
      cases stringRest fuel u <;> rfl

theorem stringRest_chars {cs : List Char} (h : SpellsChars cs t) (hfuel : cs.length < fuel) :
    stringRest fuel (t ++ 34 :: rest) = some (ofChars cs, rest) := by
  induction h generalizing fuel with
  | nil =>
      cases fuel with
      | zero => simp at hfuel
      | succ fuel => rfl
  | @cons c cs t u head tail ih =>
      cases fuel with
      | zero => simp at hfuel
      | succ fuel =>
          rw [List.append_assoc, stringRest_char head, ih (Nat.lt_of_succ_lt_succ hfuel)]
          rfl

theorem nextString?_append {s : Text} (h : SpellsString s t) (rest : Text) :
    nextString? (t ++ rest) = some (s, rest) := by
  cases h with
  | @quoted cs t body =>
      have hlen := body.length_le
      have hrest : stringRest (34 :: (t ++ [34]) ++ rest).length (t ++ 34 :: rest) = some (ofChars cs, rest) :=
        stringRest_chars body (by simp; omega)
      simpa [nextString?, after?] using hrest

def commas (ts : List Text) : Text := ("," : Text).intercalate ts

theorem commas_singleton (t : Text) : commas [t] = t := List.intercalate_singleton

theorem commas_cons_cons (t u : Text) (ts : List Text) :
    commas (t :: u :: ts) = t ++ ','.toUInt8 :: commas (u :: ts) := by
  rw [commas, List.intercalate_cons_cons, List.append_assoc]
  rfl

theorem after?_cons (b : Byte) (t : Text) : after? b (b :: t) = some t := if_pos rfl

theorem after?_of_ne {b c : Byte} (h : c ≠ b) (t : Text) : after? b (c :: t) = none := if_neg h

theorem skipGap_gap_cons {g : Text} {b : Byte} (hg : IsGap g) (hb : isGap b = false) (t : Text) :
    skipGap (g ++ b :: t) = b :: t := by
  rw [skipGap_append hg, skipGap_cons hb]

section Lists

variable {α : Type} {close : Byte} {element : Nat → Text → Option (α × Text)}
  {list : Nat → Text → Option (List α × Text)} {a : α} {as : List α} {g rest' : Text}

def Reads (element : Nat → Text → Option (α × Text)) (a : α) (t : Text) : Prop :=
  ∀ fuel rest, t.length ≤ fuel → ∃ gap, IsGap gap ∧ element fuel (t ++ rest) = some (a, gap ++ rest)

def ReadsList (close : Byte) (element : Nat → Text → Option (α × Text))
    (list : Nat → Text → Option (List α × Text)) : Prop :=
  ∀ fuel t, list (fuel + 1) t = (do
    let (a, rest) ← element fuel t
    let rest := skipGap rest
    match after? close rest with
    | some rest => some ([a], rest)
    | none => do
      let rest ← after? ','.toUInt8 rest
      let (as, rest) ← list fuel rest
      return (a :: as, rest))

theorem ReadsList.last (h : ReadsList close element list) (hclose : isGap close = false) (hg : IsGap g)
    (ha : element fuel t = some (a, g ++ close :: rest)) : list (fuel + 1) t = some ([a], rest) := by
  simp only [h fuel t, ha, Option.bind_eq_bind, Option.bind_some, skipGap_gap_cons hg hclose, after?_cons]

theorem ReadsList.more (h : ReadsList close element list) (hclose : ','.toUInt8 ≠ close) (hg : IsGap g)
    (ha : element fuel t = some (a, g ++ ','.toUInt8 :: rest)) (has : list fuel rest = some (as, rest')) :
    list (fuel + 1) t = some (a :: as, rest') := by
  have hskip := skipGap_gap_cons hg (b := ','.toUInt8) (by decide) rest
  simp only [h fuel t, ha, Option.bind_eq_bind, Option.bind_some, hskip, after?_of_ne hclose, after?_cons, has]
  rfl

theorem ReadsList.commas (h : ReadsList close element list) (hclose : isGap close = false)
    (hcomma : ','.toUInt8 ≠ close) {parts : List (α × Text)} (hne : parts ≠ [])
    (hparts : ∀ p ∈ parts, Reads element p.1 p.2) (hg : IsGap g)
    (hfuel : (commas (parts.map (·.2))).length < fuel) :
    list fuel (Json.commas (parts.map (·.2)) ++ (g ++ close :: rest)) = some (parts.map (·.1), rest) := by
  induction parts generalizing fuel with
  | nil => exact absurd rfl hne
  | cons p parts ih =>
      cases fuel with
      | zero => simp at hfuel
      | succ fuel =>
          cases parts with
          | nil =>
              simp only [List.map_cons, List.map_nil, commas_singleton] at hfuel ⊢
              obtain ⟨g', hg', hp⟩ := hparts p (by simp) fuel (g ++ close :: rest) (by omega)
              rw [← List.append_assoc g'] at hp
              exact h.last hclose (hg'.append hg) hp
          | cons q parts =>
              simp only [List.map_cons, commas_cons_cons, List.length_append, List.length_cons,
                List.append_assoc, List.cons_append] at hfuel ⊢
              obtain ⟨g', hg', hp⟩ := hparts p (by simp) fuel _ (by omega)
              refine h.more hcomma hg' hp ?_
              exact ih (by simp) (fun r hr => hparts r (by simp [hr])) (by simp only [List.map_cons]; omega)

end Lists

inductive SpellsKey : Text → Text → Prop
  | padded {key t g h : Text} (string : SpellsString key t) (before : IsGap g) (behind : IsGap h) :
      SpellsKey key (g ++ t ++ h)

/-- A member of an object, with the texts of its two sides. -/
structure Part where
  key : Text
  value : Json
  keyText : Text
  valueText : Text

namespace Part

def member (p : Part) : Text × Json := (p.key, p.value)

def text (p : Part) : Text := p.keyText ++ ":" ++ p.valueText

end Part

/-- The texts of a value, with the gaps around it. Arrays and objects nest at most `room` deep. -/
inductive Spells : (room : Nat) → Json → Text → Prop
  | null {room : Nat} : Spells room .null "null"
  | yes {room : Nat} : Spells room (.bool true) "true"
  | no {room : Nat} : Spells room (.bool false) "false"
  | string {room : Nat} {s t : Text} (string : SpellsString s t) : Spells room (.string s) t
  | noItems {room : Nat} {g : Text} (gap : IsGap g) : Spells (room + 1) (.array []) ("[" ++ g ++ "]")
  | items {room : Nat} {parts : List (Json × Text)} {g : Text} (some : parts ≠ [])
      (each : ∀ p ∈ parts, Spells room p.1 p.2) (gap : IsGap g) :
      Spells (room + 1) (.array (parts.map (·.1))) ("[" ++ commas (parts.map (·.2)) ++ g ++ "]")
  | noMembers {room : Nat} {g : Text} (gap : IsGap g) :
      Spells (room + 1) (.object []) ("\x7b" ++ g ++ "\x7d")
  | members {room : Nat} {parts : List Part} {g : Text} (some : parts ≠ [])
      (keys : ∀ p ∈ parts, SpellsKey p.key p.keyText)
      (values : ∀ p ∈ parts, Spells room p.value p.valueText) (gap : IsGap g) :
      Spells (room + 1) (.object (parts.map Part.member))
        ("\x7b" ++ commas (parts.map Part.text) ++ g ++ "\x7d")
  | padded {room : Nat} {j : Json} {t g h : Text} (value : Spells room j t) (before : IsGap g)
      (behind : IsGap h) : Spells room j (g ++ t ++ h)

theorem readsList_items (room : Nat) :
    ReadsList ']'.toUInt8 (fun fuel => value fuel room) (fun fuel => items fuel room) := by
  intro fuel t
  exact items.eq_2 room t fuel

def nextMember? (room fuel : Nat) (t : Text) : Option ((Text × Json) × Text) := do
  let (key, rest) ← nextString? (skipGap t)
  let rest ← after? ':'.toUInt8 (skipGap rest)
  let (j, rest) ← value fuel room rest
  return ((key, j), rest)

theorem readsList_members (room : Nat) :
    ReadsList '}'.toUInt8 (nextMember? room) (fun fuel => members fuel room) := by
  intro fuel t
  dsimp only
  rw [members, nextMember?]
  simp only [Option.bind_eq_bind, Option.bind_assoc]
  rfl

theorem value_gap {g : Text} (hg : IsGap g) (t : Text) : value fuel room (g ++ t) = value fuel room t := by
  cases fuel with
  | zero => rfl
  | succ fuel => rw [value, value, skipGap_append hg]

theorem value_word {w : Text} {j : Json} (hw : (w, j) ∈ [(Text.ofString "null", Json.null), ("true", .bool true),
    ("false", .bool false)]) (rest : Text) : value (fuel + 1) room (w ++ rest) = some (j, rest) := by
  simp only [List.mem_cons, Prod.mk.injEq, List.not_mem_nil, or_false] at hw
  rcases hw with ⟨rfl, rfl⟩ | ⟨rfl, rfl⟩ | ⟨rfl, rfl⟩ <;> rfl

theorem value_string {s : Text} (h : SpellsString s t) (rest : Text) :
    value (fuel + 1) room (t ++ rest) = some (.string s, rest) := by
  have hnext := nextString?_append h rest
  cases h with
  | quoted body =>
      rw [List.cons_append] at hnext ⊢
      rw [value, skipGap_cons (by decide)]
      simp only [if_true, hnext, Option.map_some]

def StartsWith (p : Byte → Prop) (t : Text) : Prop :=
  ∃ g b u, IsGap g ∧ isGap b = false ∧ p b ∧ t = g ++ b :: u

theorem StartsWith.append {p : Byte → Prop} (h : StartsWith p t) (u : Text) : StartsWith p (t ++ u) := by
  obtain ⟨g, b, v, hg, hb, hp, rfl⟩ := h
  exact ⟨g, b, v ++ u, hg, hb, hp, by simp⟩

theorem StartsWith.commas {p : Byte → Prop} (h : StartsWith p t) (ts : List Text) :
    StartsWith p (commas (t :: ts)) := by
  cases ts with
  | nil =>
      rw [commas_singleton]
      exact h
  | cons u ts =>
      rw [commas_cons_cons]
      exact h.append _

theorem StartsWith.after?_eq_none {close : Byte} (h : StartsWith (· ≠ close) t) :
    after? close (skipGap t) = none := by
  obtain ⟨g, b, u, hg, hb, hne, rfl⟩ := h
  rw [skipGap_gap_cons hg hb, after?_of_ne hne]

theorem SpellsKey.startsWith {key : Text} (h : SpellsKey key t) : StartsWith (· ≠ '}'.toUInt8) t := by
  cases h with
  | @padded t g h string before behind =>
      cases string with
      | @quoted cs t body => exact ⟨g, 34, t ++ [34] ++ h, before, by decide, by decide, by simp⟩

theorem Spells.startsWith {j : Json} (h : Spells room j t) : StartsWith (· ≠ ']'.toUInt8) t := by
  have hfirst {b : Byte} {u : Text} (hb : isGap b = false) (hne : b ≠ ']'.toUInt8) :
      StartsWith (· ≠ ']'.toUInt8) (b :: u) := ⟨[], b, u, isGap_nil, hb, hne, rfl⟩
  induction h with
  | null | yes | no => exact hfirst (by decide) (by decide)
  | string string =>
      cases string with
      | quoted body => exact hfirst (by decide) (by decide)
  | noItems | items | noMembers | members => exact hfirst (by decide) (by decide)
  | @padded room j t g h value before behind ih =>
      obtain ⟨g', b, u, hg', hb, hne, rfl⟩ := ih
      exact ⟨g ++ g', b, u ++ h, before.append hg', hb, hne, by simp⟩

theorem reads_of_succ {α : Type} {element : Nat → Text → Option (α × Text)} {a : α} (hpos : 0 < t.length)
    (h : ∀ fuel rest, t.length ≤ fuel + 1 →
      ∃ gap, IsGap gap ∧ element (fuel + 1) (t ++ rest) = some (a, gap ++ rest)) : Reads element a t := by
  intro fuel rest hfuel
  cases fuel with
  | zero => omega
  | succ fuel => exact h fuel rest hfuel

theorem reads_member {key k v : Text} {j : Json} (hkey : SpellsKey key k)
    (hvalue : Reads (fun fuel => value fuel room) j v) : Reads (nextMember? room) (key, j) (k ++ ":" ++ v) := by
  intro fuel rest hfuel
  simp only [List.length_append] at hfuel
  obtain ⟨gap, hgap, hread⟩ := hvalue fuel rest (by omega)
  refine ⟨gap, hgap, ?_⟩
  cases hkey with
  | @padded t g h string before behind =>
      have htext : g ++ t ++ h ++ ":" ++ v ++ rest = g ++ (t ++ (h ++ ':'.toUInt8 :: (v ++ rest))) := by
        simp only [List.append_assoc]
        rfl
      have hskip : skipGap (t ++ (h ++ ':'.toUInt8 :: (v ++ rest))) = t ++ (h ++ ':'.toUInt8 :: (v ++ rest)) := by
        cases string with
        | quoted body => exact skipGap_cons (by decide) _
      have hcolon := skipGap_gap_cons behind (b := ':'.toUInt8) (by decide) (v ++ rest)
      rw [htext, nextMember?, skipGap_append before, hskip, nextString?_append string]
      simp only [Option.bind_eq_bind, Option.bind_some, hcolon, after?_cons, hread]
      rfl

theorem SpellsString.length_pos {s : Text} (h : SpellsString s t) : 0 < t.length := by
  cases h with
  | quoted body => exact Nat.succ_pos _

section Brackets

variable {α : Type} {opening close : Byte} {wrap : List α → Json} {element : Nat → Text → Option (α × Text)}
  {list : Nat → Text → Option (List α × Text)}

/-- Between two marks stands a list of elements. -/
structure Encloses (room : Nat) (opening close : Byte) (wrap : List α → Json)
    (element : Nat → Text → Option (α × Text)) (list : Nat → Text → Option (List α × Text)) : Prop where
  value_opening : ∀ fuel u, value (fuel + 1) (room + 1) (opening :: u) =
    match after? close (skipGap u) with
    | some rest => some (wrap [], rest)
    | none => (list fuel u).map fun r => (wrap r.1, r.2)
  readsList : ReadsList close element list
  isGap_close : isGap close = false
  comma_ne : ','.toUInt8 ≠ close

theorem Encloses.reads_nil (h : Encloses room opening close wrap element list) {g : Text} (hg : IsGap g) :
    Reads (fun fuel => value fuel (room + 1)) (wrap []) (opening :: (g ++ [close])) := by
  refine reads_of_succ (Nat.succ_pos _) fun fuel rest _ => ⟨[], isGap_nil, ?_⟩
  have hskip := skipGap_gap_cons hg h.isGap_close rest
  rw [List.cons_append, List.append_assoc, List.singleton_append, h.value_opening, hskip, after?_cons]
  rfl

theorem Encloses.reads_commas (h : Encloses room opening close wrap element list) {parts : List (α × Text)}
    (hne : parts ≠ []) (hstart : ∀ p ∈ parts, StartsWith (· ≠ close) p.2)
    (hparts : ∀ p ∈ parts, Reads element p.1 p.2) {g : Text} (hg : IsGap g) :
    Reads (fun fuel => value fuel (room + 1)) (wrap (parts.map (·.1)))
      (opening :: (commas (parts.map (·.2)) ++ g ++ [close])) := by
  refine reads_of_succ (Nat.succ_pos _) fun fuel rest hfuel => ⟨[], isGap_nil, ?_⟩
  have hopen : after? close (skipGap (commas (parts.map (·.2)) ++ (g ++ close :: rest))) = none := by
    cases parts with
    | nil => exact absurd rfl hne
    | cons p parts => exact (((hstart p (by simp)).commas _).append _).after?_eq_none
  have hlist : list fuel (commas (parts.map (·.2)) ++ (g ++ close :: rest)) = some (parts.map (·.1), rest) := by
    apply h.readsList.commas h.isGap_close h.comma_ne hne hparts hg
    simp only [List.length_cons, List.length_append, List.length_nil] at hfuel
    omega
  rw [List.cons_append, List.append_assoc, List.append_assoc, List.singleton_append, h.value_opening, hopen,
    hlist]
  rfl

end Brackets

theorem encloses_array (room : Nat) :
    Encloses room '['.toUInt8 ']'.toUInt8 .array (fun fuel => value fuel room) (fun fuel => items fuel room) where
  value_opening fuel u := by
    rw [value, skipGap_cons (by decide)]
    rfl
  readsList := readsList_items room
  isGap_close := by decide
  comma_ne := by decide

theorem encloses_object (room : Nat) :
    Encloses room '{'.toUInt8 '}'.toUInt8 .object (nextMember? room) (fun fuel => members fuel room) where
  value_opening fuel u := by
    rw [value, skipGap_cons (by decide)]
    rfl
  readsList := readsList_members room
  isGap_close := by decide
  comma_ne := by decide

/-- Every text of the grammar is read as the value that it spells. -/
theorem Spells.reads {j : Json} (h : Spells room j t) : Reads (fun fuel => value fuel room) j t := by
  induction h with
  | null | yes | no =>
      exact reads_of_succ (by decide) fun fuel rest _ => ⟨[], isGap_nil, value_word (by simp) rest⟩
  | string string =>
      exact reads_of_succ string.length_pos fun fuel rest _ => ⟨[], isGap_nil, value_string string rest⟩
  | noItems gap => exact (encloses_array _).reads_nil gap
  | items some each gap ih =>
      exact (encloses_array _).reads_commas some (fun p hp => (each p hp).startsWith) ih gap
  | noMembers gap => exact (encloses_object _).reads_nil gap
  | @members room parts g some keys values gap ih =>
      have hparts : ∀ q ∈ parts.map (fun p => (p.member, p.text)),
          StartsWith (· ≠ '}'.toUInt8) q.2 ∧ Reads (nextMember? room) q.1 q.2 := by
        intro q hq
        obtain ⟨p, hp, rfl⟩ := List.mem_map.1 hq
        refine ⟨?_, reads_member (keys p hp) (ih p hp)⟩
        rw [Part.text, List.append_assoc]
        exact (keys p hp).startsWith.append _
      have hread := (encloses_object room).reads_commas (by simpa using some)
        (fun q hq => (hparts q hq).1) (fun q hq => (hparts q hq).2) gap
      simp only [List.map_map, Function.comp_def] at hread
      exact hread
  | @padded room j t g h value before behind ih =>
      intro fuel rest hfuel
      simp only [List.length_append] at hfuel
      obtain ⟨gap, hgap, hread⟩ := ih fuel (h ++ rest) (by omega)
      refine ⟨gap ++ h, hgap.append behind, ?_⟩
      dsimp only at hread ⊢
      rw [List.append_assoc, List.append_assoc, value_gap before, hread, List.append_assoc]

theorem read?_of_spells {j : Json} (h : Spells maxNesting j t) : read? t = some j := by
  obtain ⟨gap, hgap, hread⟩ := h.reads (2 * t.length + 1) [] (by omega)
  have hskip : skipGap (gap ++ []) = [] := by
    rw [skipGap_append hgap]
    rfl
  rw [List.append_nil] at hread
  simp only [read?, hread, hskip, if_true]

end BuiltinCatalog.Json
