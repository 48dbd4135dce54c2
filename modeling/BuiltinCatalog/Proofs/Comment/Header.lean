import BuiltinCatalog.Copyright
import BuiltinCatalog.Proofs.Comment

namespace BuiltinCatalog

namespace Piece

open Comment (slash star)

variable {p : Piece} {ps : List Piece}

/-- The first block comment of a reading, between the texts before and after it. -/
def firstBlock? : List Piece → Option (Text × Text × Text)
  | [] => none
  | .comment (.block x) :: ps => some ([], x, ps.flatMap text)
  | p :: ps => (firstBlock? ps).map fun (u, x, v) => (p.text ++ u, x, v)

/-- A line comment that is read before any block comment holds `/*`, and `*/` stands somewhere after that. -/
def HidesBlock : List Piece → Prop
  | [] => False
  | .code _ :: ps => HidesBlock ps
  | .comment (.line x) :: ps =>
    (∃ u v, slash :: x = u ++ slash :: star :: v ∧ [star, slash] <:+: v ++ '\n'.toUInt8 :: ps.flatMap text) ∨
      HidesBlock ps
  | .comment (.block _) :: _ => False

/-- An offset lies inside a line comment, after its first byte. -/
def InLine (ps : List Piece) (n : Nat) : Prop :=
  ∃ before x after, ps = before ++ .comment (.line x) :: after ∧ (before.flatMap text).length < n ∧
    n < (before.flatMap text).length + (Comment.line x).text.length

theorem inLine_cons_add {n : Nat} : InLine (p :: ps) (p.text.length + n) ↔ InLine ps n := by
  constructor
  · rintro ⟨before, x, after, hps, hlt, hn⟩
    cases before with
    | nil =>
        obtain ⟨rfl, -⟩ := List.cons.inj hps
        simp only [List.flatMap_nil, List.length_nil, text] at hn
        omega
    | cons q before =>
        obtain ⟨rfl, rfl⟩ := List.cons.inj hps
        rw [List.flatMap_cons, List.length_append] at hlt hn
        exact ⟨before, x, after, rfl, by omega, by omega⟩
  · rintro ⟨before, x, after, rfl, hlt, hn⟩
    refine ⟨p :: before, x, after, rfl, ?_, ?_⟩
    · rw [List.flatMap_cons, List.length_append]
      omega
    · rw [List.flatMap_cons, List.length_append]
      omega

theorem not_inLine_firstBlock? {u x v : Text} (h : firstBlock? ps = some (u, x, v)) : ¬ InLine ps u.length := by
  induction ps generalizing u with
  | nil => cases h
  | cons p ps ih =>
      -- what is before the comment grows by one piece unless the comment is the first
      have hskip (h : (firstBlock? ps).map (fun (u, x, v) => (p.text ++ u, x, v)) = some (u, x, v)) :
          ¬ InLine (p :: ps) u.length := by
        obtain ⟨⟨w, y, z⟩, hw, he⟩ := Option.map_eq_some_iff.1 h
        obtain ⟨rfl, rfl, rfl⟩ : p.text ++ w = u ∧ y = x ∧ z = v := by simpa using he
        rw [List.length_append, inLine_cons_add]
        exact ih hw
      cases p with
      | code b => exact hskip h
      | comment c =>
          cases c with
          | line y => exact hskip h
          | block y =>
              obtain ⟨rfl, -⟩ := Prod.mk.inj (Option.some.inj h)
              rintro ⟨_, _, _, _, hlt, _⟩
              exact absurd hlt (Nat.not_lt_zero _)

end Piece

namespace Comment

variable {t u v rest : Text}

theorem splitBlock?_code (h : ¬ [slash, star] <:+: u) (hend : u.getLast? ≠ some slash) (rest : Text) :
    splitBlock? (u ++ rest) = (splitBlock? rest).map fun (v, x, w) => (u ++ v, x, w) := by
  induction u with
  | nil => simp
  | cons b u ih =>
      have hu := ih (fun hi => h (List.infix_cons hi)) fun hl => hend (by rw [List.getLast?_cons, hl]; rfl)
      rw [List.cons_append, splitBlock?_cons (not_opens h rest hend), hu, Option.map_map]
      rfl

theorem exists_splitBlock? (h : [star, slash] <:+: v) (u : Text) :
    ∃ a x w, splitBlock? (u ++ slash :: star :: v) = some (a, x, w) ∧ a.length ≤ u.length := by
  have hstart {v : Text} (h : [star, slash] <:+: v) : ∃ x w, splitBlock? (slash :: star :: v) = some ([], x, w) := by
    have hopen := splitBlock?_open (u := []) (by simp) v
    cases hclose : Text.cut? [star, slash] v with
    | none => exact absurd h ((Text.cut?_eq_none_iff (by simp)).1 hclose)
    | some found => exact ⟨found.1, found.2, by rwa [hclose] at hopen⟩
  induction u with
  | nil =>
      obtain ⟨x, w, hs⟩ := hstart h
      exact ⟨[], x, w, hs, Nat.le_refl 0⟩
  | cons b u ih =>
      by_cases hp : [slash, star] <+: b :: (u ++ slash :: star :: v)
      · obtain ⟨w, hw⟩ := hp
        obtain ⟨rfl, hu⟩ : slash = b ∧ star :: w = u ++ slash :: star :: v := by simpa using hw
        -- the later marks lie behind this one
        have hclose : [star, slash] <:+: w := by
          cases u with
          | nil => exact absurd (List.cons.inj hu).1 (by decide)
          | cons c u =>
              rw [(List.cons.inj hu).2]
              exact h.trans ⟨u ++ [slash, star], [], by simp⟩
        obtain ⟨x, z, hs⟩ := hstart hclose
        rw [List.cons_append, ← hu]
        exact ⟨[], x, z, hs, Nat.zero_le _⟩
      · obtain ⟨a, x, w, hs, hle⟩ := ih
        rw [List.cons_append, splitBlock?_cons hp, hs]
        exact ⟨b :: a, x, w, rfl, Nat.succ_le_succ hle⟩

theorem line_append {x : Text} (h : slash :: x = u ++ slash :: star :: v) (rest : Text) :
    (line x).text ++ rest = slash :: u ++ slash :: star :: (v ++ '\n'.toUInt8 :: rest) := by
  calc (line x).text ++ rest = slash :: (slash :: x ++ '\n'.toUInt8 :: rest) := by simp [text_line]
    _ = slash :: u ++ slash :: star :: (v ++ '\n'.toUInt8 :: rest) := by rw [h]; simp

theorem not_opens_line {x : Text} (h : ¬ [slash, star] <:+: slash :: x) : ¬ [slash, star] <:+: (line x).text := by
  rw [text_line, ← List.cons_append, List.infix_cons_iff, not_or]
  exact ⟨by simp [slash_ne_star.symm], Text.not_infix_append_cons (by decide) h (by simp)⟩

theorem splitBlock?_line {x : Text} (h : ¬ [slash, star] <:+: slash :: x) (rest : Text) :
    splitBlock? ((line x).text ++ rest) = (splitBlock? rest).map fun (u, y, v) => ((line x).text ++ u, y, v) := by
  refine splitBlock?_code (not_opens_line h) ?_ rest
  rw [text_line, ← List.cons_append, ← List.cons_append, List.getLast?_concat]
  decide

theorem splitBlock?_line_eq_none {x : Text} (hx : [slash, star] <:+: slash :: x)
    (h : ∀ u v, slash :: x = u ++ slash :: star :: v → ¬ [star, slash] <:+: v ++ '\n'.toUInt8 :: rest) :
    splitBlock? ((line x).text ++ rest) = none := by
  cases hcut : Text.cut? [slash, star] (slash :: x) with
  | none => exact absurd hx ((Text.cut?_eq_none_iff (by simp)).1 hcut)
  | some found =>
      obtain ⟨u, v⟩ := found
      have hsplit : slash :: x = u ++ slash :: star :: v := by simpa using Text.cut?_append hcut
      have hbefore : ¬ [slash, star] <:+: slash :: u := by
        rw [List.infix_cons_iff, not_or]
        refine ⟨fun hp => ?_, Text.not_infix_of_cut? (by simp) hcut⟩
        cases u with
        | nil => simp at hp
        | cons b u =>
            obtain rfl : slash = b := (List.cons.inj hsplit).1
            simp [slash_ne_star.symm] at hp
      have hclose : Text.cut? [star, slash] (v ++ '\n'.toUInt8 :: rest) = none :=
        (Text.cut?_eq_none_iff (by simp)).2 (h u v hsplit)
      rw [line_append hsplit, splitBlock?_open hbefore, hclose]
      rfl

theorem splitBlock?_eq_firstBlock? (h : ¬ Piece.HidesBlock (Piece.ofText t)) :
    splitBlock? t = Piece.firstBlock? (Piece.ofText t) := by
  fun_induction Piece.ofText t with
  | case1 => rfl
  | case2 b rest hnext ih =>
      rw [splitBlock?_of_none hnext, ih h]
      rfl
  | case3 b rest c after hnext ih =>
      rw [next?_append hnext]
      cases c with
      | block x =>
          rw [splitBlock?_block (isComplete_of_next? hnext), Piece.firstBlock?, Piece.text_ofText]
      | line x =>
          obtain ⟨hline, hafter⟩ := not_or.1 h
          simp only [Piece.text_ofText, not_exists, not_and] at hline
          have hfirst : Piece.firstBlock? (.comment (.line x) :: Piece.ofText after) =
              (splitBlock? after).map fun (u, y, v) => ((line x).text ++ u, y, v) := by
            rw [ih hafter]
            rfl
          rw [hfirst]
          by_cases hx : [slash, star] <:+: slash :: x
          · -- nothing closes the mark in the line comment, so nothing further on is closed either
            rw [splitBlock?_line_eq_none hx hline, splitBlock?_eq_none]
            · rfl
            · obtain ⟨u, v, hsplit⟩ := hx
              rintro ⟨a, b, hab⟩
              exact hline u v (by simpa using hsplit.symm) ⟨v ++ '\n'.toUInt8 :: a, b, by simp [← hab]⟩
          · exact splitBlock?_line hx after

theorem inLine_of_hidesBlock (h : Piece.HidesBlock (Piece.ofText t)) :
    ∃ u x v, splitBlock? t = some (u, x, v) ∧ Piece.InLine (Piece.ofText t) u.length := by
  fun_induction Piece.ofText t with
  | case1 => exact h.elim
  | case2 b rest hnext ih =>
      obtain ⟨u, x, v, hs, hin⟩ := ih h
      refine ⟨b :: u, x, v, by rw [splitBlock?_of_none hnext, hs]; rfl, ?_⟩
      rw [List.length_cons, Nat.add_comm]
      exact Piece.inLine_cons_add (p := .code b).2 hin
  | case3 b rest c after hnext ih =>
      rw [next?_append hnext]
      cases c with
      | block x => exact h.elim
      | line x =>
          by_cases hline : ∃ u v, slash :: x = u ++ slash :: star :: v ∧
              [star, slash] <:+: v ++ '\n'.toUInt8 :: after
          · obtain ⟨u, v, hsplit, hclose⟩ := hline
            obtain ⟨a, y, w, hs, hle⟩ := exists_splitBlock? hclose (slash :: u)
            rw [← line_append hsplit] at hs
            refine ⟨a, y, w, hs, [], x, Piece.ofText after, rfl, ?_, ?_⟩
            · -- the text starts with two slashes, so it does not start with a block comment
              cases a with
              | nil =>
                  have hstart := splitBlock?_append hs
                  rw [text_line, text_block] at hstart
                  simp [slash_ne_star] at hstart
              | cons c a => simp
            · have hlen := congrArg List.length hsplit
              rw [text_line]
              simp only [List.length_cons, List.length_append, List.flatMap_nil, List.length_nil] at hle hlen ⊢
              omega
          · have hafter : Piece.HidesBlock (Piece.ofText after) := by
              rw [Piece.HidesBlock, Piece.text_ofText] at h
              exact h.resolve_left hline
            obtain ⟨u, y, v, hs, hin⟩ := ih hafter
            have hx : ¬ [slash, star] <:+: slash :: x := by
              rintro ⟨a, d, had⟩
              refine hline ⟨a, d, by simpa using had.symm, ?_⟩
              rw [splitBlock?_append hs, text_block]
              exact ⟨d ++ '\n'.toUInt8 :: (u ++ slash :: star :: y), v, by simp⟩
            refine ⟨(line x).text ++ u, y, v, by rw [splitBlock?_line hx, hs]; rfl, ?_⟩
            rw [List.length_append]
            exact Piece.inLine_cons_add (p := .comment (.line x)).2 hin

/-- The header that is searched for is the first block comment of the reading, or both are missing, unless it
starts inside a line comment. It does so exactly if a line comment before the first block comment hides one. -/
theorem header_eq_iff (t : Text) :
    (splitBlock? t = Piece.firstBlock? (Piece.ofText t) ↔ ¬ Piece.HidesBlock (Piece.ofText t)) ∧
    ((∃ u x v, splitBlock? t = some (u, x, v) ∧ Piece.InLine (Piece.ofText t) u.length) ↔
      Piece.HidesBlock (Piece.ofText t)) ∧
    (¬ Piece.HidesBlock (Piece.ofText t) →
      firstBlock? t = (Piece.firstBlock? (Piece.ofText t)).map fun (_, x, _) => (block x).text) ∧
    (firstBlock? t = none → Piece.firstBlock? (Piece.ofText t) = none) := by
  have hiff : splitBlock? t = Piece.firstBlock? (Piece.ofText t) ↔ ¬ Piece.HidesBlock (Piece.ofText t) := by
    refine ⟨fun heq h => ?_, splitBlock?_eq_firstBlock?⟩
    obtain ⟨u, x, v, hs, hin⟩ := inLine_of_hidesBlock h
    exact Piece.not_inLine_firstBlock? (heq.symm.trans hs) hin
  refine ⟨hiff, ⟨?_, inLine_of_hidesBlock⟩, fun h => ?_, fun h => ?_⟩
  · rintro ⟨u, x, v, hs, hin⟩
    by_contra h
    exact Piece.not_inLine_firstBlock? ((splitBlock?_eq_firstBlock? h).symm.trans hs) hin
  · rw [firstBlock?, hiff.2 h]
  · have hnone : splitBlock? t = none := Option.map_eq_none_iff.1 h
    rw [← hnone, eq_comm, hiff]
    intro hides
    obtain ⟨u, x, v, hs, -⟩ := inLine_of_hidesBlock hides
    cases hnone.symm.trans hs

namespace Sample

theorem header_eq_iff_after_line :
    ∃ t, t = Text.ofString "// a */\n/* b */" ∧ ¬ Piece.HidesBlock (Piece.ofText t) ∧
      splitBlock? t = Piece.firstBlock? (Piece.ofText t) ∧
      firstBlock? t = (Piece.firstBlock? (Piece.ofText t)).map (fun (_, x, _) => (block x).text) ∧
      firstBlock? t = some (Text.ofString "/* b */") := by
  have hread : Piece.ofText (Text.ofString "// a */\n/* b */") =
      [.comment (.line (Text.ofString " a */")), .comment (.block (Text.ofString " b "))] := by decide +kernel
  have hopen : ¬ [slash, star] <:+: slash :: Text.ofString " a */" := by decide
  have hides : ¬ Piece.HidesBlock (Piece.ofText (Text.ofString "// a */\n/* b */")) := by
    rw [hread]
    rintro (⟨u, v, hsplit, -⟩ | h)
    · exact hopen ⟨u, v, by rw [hsplit]; simp⟩
    · exact h
  obtain ⟨hiff, -, heq, -⟩ := header_eq_iff (Text.ofString "// a */\n/* b */")
  exact ⟨_, rfl, hides, hiff.2 hides, heq hides, by decide +kernel⟩

/-- The marks in the line comment make its text the header. -/
theorem header_in_line_comment :
    ∃ t, t = Text.ofString "// /* (C) 1999 A */\n/* (C) 2014 B */" ∧
      firstBlock? t = some (Text.ofString "/* (C) 1999 A */") ∧
      Copyright.lines t = .ok [Text.ofString "1999 A"] ∧
      Piece.firstBlock? (Piece.ofText t) =
        some (Text.ofString "// /* (C) 1999 A */\n", Text.ofString " (C) 2014 B ", []) := by
  refine ⟨_, rfl, ?_, ?_, ?_⟩
  · decide +kernel
  · decide +kernel
  · decide +kernel

end Sample

end Comment

end BuiltinCatalog
