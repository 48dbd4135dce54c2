import BuiltinCatalog.Json.Write
import BuiltinCatalog.Proofs.Json.Grammar
import Mathlib.Algebra.GroupWithZero.Nat

namespace BuiltinCatalog

namespace Text

theorem hexValue?_hexDigit {n : Nat} (h : n < 16) : hexValue? (hexDigit n) = some n := by
  have hall : ∀ n < 16, hexValue? (hexDigit n) = some n := by decide
  exact hall n h

theorem length_hexNat (n width : Nat) : (hexNat n width).length = width := by
  induction width generalizing n with
  | zero => rfl
  | succ width ih => rw [hexNat, List.length_append, ih, List.length_singleton]

theorem ofHex?_concat (t : Text) (b : Byte) :
    ofHex? (t ++ [b]) = do return (← ofHex? t) * 16 + (← hexValue? b) := by
  rw [ofHex?, List.foldl_append]
  rfl

theorem ofHex?_hexNat (n width : Nat) : ofHex? (hexNat n width) = some (n % 16 ^ width) := by
  induction width generalizing n with
  | zero => simp [hexNat, ofHex?, Nat.mod_one]
  | succ width ih =>
      rw [hexNat, ofHex?_concat, ih, hexValue?_hexDigit (by omega)]
      have hmod : n / 16 % 16 ^ width * 16 + n % 16 = n % 16 ^ (width + 1) := by
        rw [Nat.pow_succ, Nat.mul_comm (16 ^ width), Nat.mod_mul]
        omega
      rw [← hmod]
      rfl

end Text

namespace Json

open Text

variable {room : Nat} {j : Json} {js : List Json} {ms : List (Text × Json)}

/-- The value with every stray byte replaced, in texts and keys. -/
def scrub : Json → Json
  | .null => .null
  | .bool b => .bool b
  | .number n => .number n
  | .string t => .string (Text.scrub t)
  | .array items => .array (items.map scrub)
  | .object members => .object (members.map fun m => (Text.scrub m.1, scrub m.2))
decreasing_by
  · have := List.sizeOf_lt_of_mem ‹_ ∈ items›
    simp
    omega
  · have := List.sizeOf_lt_of_mem ‹_ ∈ members›
    obtain ⟨key, j⟩ := m
    simp at this ⊢
    omega

/-- A value without numbers, whose arrays and objects nest at most `room` deep. -/
inductive Fits : (room : Nat) → Json → Prop
  | null {room : Nat} : Fits room .null
  | bool {room : Nat} (b : Bool) : Fits room (.bool b)
  | string {room : Nat} (t : Text) : Fits room (.string t)
  | array {room : Nat} {items : List Json} (each : ∀ j ∈ items, Fits room j) : Fits (room + 1) (.array items)
  | object {room : Nat} {members : List (Text × Json)} (each : ∀ m ∈ members, Fits room m.2) :
      Fits (room + 1) (.object members)

theorem eq_of_toNat {c : Char} {n : Nat} (h : c.toNat = n) : Char.ofNat n = c := by
  rw [← h, Char.ofNat_toNat]

theorem letterValue?_of_letterEscape? {c : Char} {b : Byte} (h : letterEscape? c = some b) :
    letterValue? b = some c := by
  have hletter {n : Nat} {b' : Byte} (hc : c.toNat = n) (hb : some b' = some b)
      (hv : letterValue? b' = some (Char.ofNat n)) : letterValue? b = some c := by
    obtain rfl := Option.some.inj hb
    rw [hv, eq_of_toNat hc]
  unfold letterEscape? at h
  split_ifs at h with h8 h9 h10 h12 h13 hself
  · exact hletter h8 h rfl
  · exact hletter h9 h rfl
  · exact hletter h10 h rfl
  · exact hletter h12 h rfl
  · exact hletter h13 h rfl
  · -- a quote and a backslash stand for themselves
    rcases hself with hself | hself
    · obtain rfl := eq_of_toNat hself
      exact hletter hself h rfl
    · obtain rfl := eq_of_toNat hself
      exact hletter hself h rfl

theorem toNat_lt_of_isEscaped {c : Char} (h : isEscaped c = true) : c.toNat < 16 ^ 4 := by
  simp only [isEscaped, Bool.or_eq_true, decide_eq_true_eq, beq_iff_eq] at h
  rcases h with ((((h | rfl) | rfl) | rfl) | h) | h
  · omega
  · decide
  · decide
  · decide
  · omega
  · omega

theorem spellsChar_writeChar (c : Char) : SpellsChar c (writeChar c) := by
  unfold writeChar
  split
  next b hb => exact .letter (letterValue?_of_letterEscape? hb)
  next hnone =>
    split
    next hescaped =>
      apply SpellsChar.unit (length_hexNat _ _)
      rw [ofHex?_hexNat, Nat.mod_eq_of_lt (toNat_lt_of_isEscaped hescaped)]
    next hplain =>
      have hlow : ¬ c.toNat < 32 := by
        intro hlt
        simp [isEscaped, hlt] at hplain
      have hself : ¬ (c.toNat = 34 ∨ c.toNat = 92) := by
        intro hself
        unfold letterEscape? at hnone
        split_ifs at hnone
      exact .plain (by omega) (by omega) (by omega)

theorem spellsChar_writeGlyph (dialect : Dialect) (g : Glyph) : SpellsChar g.seen (writeGlyph dialect g) := by
  cases g with
  | char c => exact spellsChar_writeChar c
  | stray b =>
      cases dialect with
      | literal => exact spellsChar_writeChar replacement
      | escaped =>
          apply SpellsChar.unit (length_hexNat _ _)
          rw [ofHex?_hexNat]
          rfl

theorem spellsChars_flatMap (dialect : Dialect) (gs : List Glyph) :
    SpellsChars (gs.map Glyph.seen) (gs.flatMap (writeGlyph dialect)) := by
  induction gs with
  | nil => exact .nil
  | cons g gs ih => exact .cons (spellsChar_writeGlyph dialect g) ih

theorem scrub_eq_ofChars (t : Text) : Text.scrub t = ofChars ((glyphs t).map Glyph.seen) :=
  (List.flatMap_map ..).symm

theorem spellsString_writeString (dialect : Dialect) (t : Text) :
    SpellsString (Text.scrub t) (writeString dialect t) := by
  rw [scrub_eq_ofChars]
  exact .quoted (spellsChars_flatMap dialect (glyphs t))

theorem spellsKey_writeString (dialect : Dialect) (key : Text) {g : Text} (hg : IsGap g) :
    SpellsKey (Text.scrub key) (g ++ writeString dialect key) := by
  have h := SpellsKey.padded (spellsString_writeString dialect key) hg isGap_nil
  rwa [List.append_nil] at h

theorem spells_items (write : Json → Text) {g : Text} (hne : js ≠ [])
    (h : ∀ j ∈ js, Spells room j.scrub (write j)) (hg : IsGap g) :
    Spells (room + 1) (.array (js.map scrub)) ("[" ++ commas (js.map write) ++ g ++ "]") := by
  have hparts : ∀ p ∈ js.map (fun j => (j.scrub, write j)), Spells room p.1 p.2 := by
    intro p hp
    obtain ⟨j, hj, rfl⟩ := List.mem_map.1 hp
    exact h j hj
  have hspells := Spells.items (by simpa using hne) hparts hg
  simp only [List.map_map, Function.comp_def] at hspells
  exact hspells

theorem spells_members (writeKey : Text → Text) (write : Json → Text) {g : Text} (hne : ms ≠ [])
    (hkey : ∀ key, SpellsKey (Text.scrub key) (writeKey key))
    (h : ∀ m ∈ ms, Spells room m.2.scrub (write m.2)) (hg : IsGap g) :
    Spells (room + 1) (.object (ms.map fun m => (Text.scrub m.1, m.2.scrub)))
      ("\x7b" ++ commas (ms.map fun m => writeKey m.1 ++ ":" ++ write m.2) ++ g ++ "\x7d") := by
  let part (m : Text × Json) : Part := ⟨Text.scrub m.1, m.2.scrub, writeKey m.1, write m.2⟩
  have hkeys : ∀ p ∈ ms.map part, SpellsKey p.key p.keyText := by
    intro p hp
    obtain ⟨m, hm, rfl⟩ := List.mem_map.1 hp
    exact hkey m.1
  have hvalues : ∀ p ∈ ms.map part, Spells room p.value p.valueText := by
    intro p hp
    obtain ⟨m, hm, rfl⟩ := List.mem_map.1 hp
    exact h m hm
  have hspells := Spells.members (by simpa using hne) hkeys hvalues hg
  simp only [List.map_map, Function.comp_def] at hspells
  exact hspells

theorem eq_commas {α : Type} {f : α → Text} {list : List α → Text} (hnil : list [] = [])
    (hone : ∀ a, list [a] = f a) (hmore : ∀ a b as, list (a :: b :: as) = f a ++ "," ++ list (b :: as))
    (as : List α) : list as = commas (as.map f) := by
  induction as with
  | nil => exact hnil
  | cons a as ih =>
      cases as with
      | nil => exact (hone a).trans (commas_singleton _).symm
      | cons b as =>
          rw [hmore, ih, List.append_assoc]
          exact (commas_cons_cons _ _ _).symm

theorem compactItems_eq (dialect : Dialect) :
    ∀ js, compactItems dialect js = commas (js.map (compact dialect)) :=
  eq_commas rfl (fun _ => rfl) (fun _ _ _ => rfl)

theorem compactMembers_eq (dialect : Dialect) : ∀ ms, compactMembers dialect ms =
    commas (ms.map fun m => writeString dialect m.1 ++ ":" ++ compact dialect m.2) :=
  eq_commas rfl (fun _ => rfl) (fun _ _ _ => rfl)

theorem indentedItems_eq (dialect : Dialect) (level : Nat) : ∀ js, indentedItems dialect level js =
    commas (js.map fun j => newline level ++ indented dialect level j) :=
  eq_commas rfl (fun _ => rfl) (fun _ _ _ => rfl)

theorem indentedMembers_eq (dialect : Dialect) (level : Nat) : ∀ ms, indentedMembers dialect level ms =
    commas (ms.map fun m =>
      newline level ++ writeString dialect m.1 ++ ":" ++ (" " ++ indented dialect level m.2)) := by
  have hcolon (u v : Text) : u ++ ": " ++ v = u ++ ":" ++ (" " ++ v) := by
    rw [List.append_assoc, List.append_assoc]
    rfl
  refine eq_commas rfl (fun m => ?_) (fun m n ms => ?_)
  · exact hcolon _ _
  · rw [← hcolon]
    rfl

theorem isGap_newline (level : Nat) : IsGap (newline level) := by
  intro b hb
  rcases List.mem_cons.1 hb with rfl | hb
  · decide
  · rw [List.eq_of_mem_replicate hb]
    decide

theorem isGap_space : IsGap " " := by
  intro b hb
  obtain rfl : b = 32 := List.mem_singleton.1 hb
  decide

theorem Fits.spells_compact (h : Fits room j) (dialect : Dialect) : Spells room j.scrub (j.compact dialect) := by
  induction h with
  | null =>
      rw [scrub]
      exact .null
  | bool b =>
      rw [scrub]
      cases b with
      | true => exact .yes
      | false => exact .no
  | string t =>
      rw [scrub]
      exact .string (spellsString_writeString dialect t)
  | @array room items each ih =>
      rw [scrub, compact, compactItems_eq]
      by_cases hne : items = []
      · subst hne
        exact .noItems isGap_nil
      · have h := spells_items (compact dialect) hne ih isGap_nil
        rwa [List.append_nil] at h
  | @object room members each ih =>
      rw [scrub, compact, compactMembers_eq]
      by_cases hne : members = []
      · subst hne
        exact .noMembers isGap_nil
      · have h := spells_members (writeString dialect) (compact dialect) hne
          (fun key => spellsKey_writeString dialect key isGap_nil) ih isGap_nil
        rwa [List.append_nil] at h

theorem Fits.spells_indented (h : Fits room j) (dialect : Dialect) (level : Nat) :
    Spells room j.scrub (j.indented dialect level) := by
  induction h generalizing level with
  | null =>
      rw [scrub]
      exact .null
  | bool b =>
      rw [scrub]
      cases b with
      | true => exact .yes
      | false => exact .no
  | string t =>
      rw [scrub]
      exact .string (spellsString_writeString dialect t)
  | @array room items each ih =>
      rw [scrub]
      cases items with
      | nil => exact .noItems isGap_nil
      | cons j items =>
          have hitems : ∀ k ∈ j :: items, Spells room k.scrub (newline (level + 1) ++ k.indented dialect (level + 1)) := by
            intro k hk
            have h := Spells.padded (ih k hk (level + 1)) (isGap_newline (level + 1)) isGap_nil
            rwa [List.append_nil] at h
          rw [indented, indentedItems_eq]
          exact spells_items (fun k => newline (level + 1) ++ k.indented dialect (level + 1)) (by simp) hitems
            (isGap_newline level)
  | @object room members each ih =>
      rw [scrub]
      cases members with
      | nil => exact .noMembers isGap_nil
      | cons m members =>
          have hvalues : ∀ n ∈ m :: members, Spells room n.2.scrub (" " ++ n.2.indented dialect (level + 1)) := by
            intro n hn
            have h := Spells.padded (ih n hn (level + 1)) isGap_space isGap_nil
            rwa [List.append_nil] at h
          rw [indented, indentedMembers_eq]
          exact spells_members (fun key => newline (level + 1) ++ writeString dialect key)
            (fun k => " " ++ k.indented dialect (level + 1)) (by simp)
            (fun key => spellsKey_writeString dialect key (isGap_newline (level + 1))) hvalues (isGap_newline level)

theorem read?_compact (h : Fits maxNesting j) (dialect : Dialect) : read? (j.compact dialect) = some j.scrub :=
  read?_of_spells (h.spells_compact dialect)

end Json

end BuiltinCatalog
