import BuiltinCatalog.Proofs.Comment

namespace BuiltinCatalog

namespace Comment

variable {t : Text}

theorem head?_normalize (t : Text) : (normalize t).head? = t.head? := by
  cases t with
  | nil => rw [normalize_nil]
  | cons b t =>
      cases h : next? (b :: t) with
      | none => rw [normalize_of_none h, List.head?_cons, List.head?_cons]
      | some found =>
          obtain ⟨c, rest⟩ := found
          rw [normalize_of_next? h, next?_append h]
          cases c <;> rfl

theorem newline_mem_of_normalize (h : '\n'.toUInt8 ∈ normalize t) : '\n'.toUInt8 ∈ t := by
  obtain ⟨p, hp, hb⟩ := List.mem_flatMap.1 h
  rw [← Piece.text_ofText t]
  refine List.mem_flatMap.2 ⟨p, hp, ?_⟩
  cases p with
  | code b => exact hb
  | comment c =>
      cases c with
      | block x =>
          rw [Piece.reduced, placeholder_block] at hb
          exact absurd hb (by decide)
      | line x => simp [Piece.text, text_line]

theorem closes_of_normalize (h : [star, slash] <:+: normalize t) : [star, slash] <:+: t := by
  rw [normalize] at h
  fun_induction Piece.ofText t with
  | case1 => exact h
  | case2 b rest hnext ih =>
      have hcons : [star, slash] <:+: b :: normalize rest := h
      rcases List.infix_cons_iff.1 hcons with hp | hi
      · -- both bytes are code, since the first byte of the rest is kept
        obtain ⟨v, hv⟩ := hp
        obtain ⟨rfl, hrest⟩ : star = b ∧ slash :: v = normalize rest := List.cons.inj hv
        have hhead : rest.head? = some slash := by
          rw [← head?_normalize, ← hrest, List.head?_cons]
        obtain ⟨w, rfl⟩ := List.head?_eq_some_iff.1 hhead
        exact ⟨[], w, rfl⟩
      · exact List.infix_cons (ih hi)
  | case3 b rest c after hnext ih =>
      rw [next?_append hnext]
      cases c with
      | block x => exact ⟨slash :: star :: x, after, by simp [text_block]⟩
      | line x =>
          have hline : [star, slash] <:+: slash :: slash :: '\n'.toUInt8 :: normalize after := h
          have hafter : [star, slash] <:+: normalize after := by
            by_contra hnone
            exact Text.not_infix_append_cons (u := [slash, slash]) (by decide) (by decide) hnone hline
          exact (ih hafter).trans (List.suffix_append _ _).isInfix

theorem next?_normalize {b : Byte} (h : next? (b :: t) = none) : next? (b :: normalize t) = none := by
  by_cases hb : b = slash
  · subst hb
    cases t with
    | nil => rw [normalize_nil]; exact h
    | cons c t =>
        obtain ⟨v, hv⟩ : ∃ v, normalize (c :: t) = c :: v :=
          List.head?_eq_some_iff.1 (head?_normalize (c :: t))
        rw [hv]
        by_cases hs : c = star
        · subst hs
          rw [normalize_of_none (next?_of_ne slash_ne_star.symm t)] at hv
          obtain rfl : normalize t = v := (List.cons.inj hv).2
          rw [next?_slash_star, Option.map_eq_none_iff, Text.cut?_eq_none_iff (by simp)] at h ⊢
          exact fun hclose => h (closes_of_normalize hclose)
        · by_cases hl : c = slash
          · subst hl
            -- a line comment is missing only its newline, and no newline stands in all that follows
            rw [next?_slash_slash, Option.map_eq_none_iff, Text.cut?_eq_none_iff (by simp),
              List.singleton_infix_iff] at h ⊢
            intro hmem
            have hold : '\n'.toUInt8 ∈ slash :: t :=
              newline_mem_of_normalize (by rw [hv]; exact List.mem_cons_of_mem slash hmem)
            rcases List.mem_cons.1 hold with he | hold
            · exact absurd he (by decide)
            · exact h hold
          · exact next?_slash hs hl v
  · exact next?_of_ne hb _

def emptied : Comment → Comment
  | .block _ => .block []
  | .line _ => .line []

theorem text_emptied (c : Comment) : c.emptied.text = c.placeholder := by
  cases c <;> rfl

theorem placeholder_emptied (c : Comment) : c.emptied.placeholder = c.placeholder := by
  cases c <;> rfl

theorem isComplete_emptied (c : Comment) : c.emptied.IsComplete := by
  cases c with
  | block x => exact (by decide : (block []).IsComplete)
  | line x => exact (by decide : (line []).IsComplete)

end Comment

namespace Piece

open Comment (slash star)

variable {ps qs : List Piece}

def emptied : Piece → Piece
  | .code b => .code b
  | .comment c => .comment c.emptied

theorem reduced_emptied (p : Piece) : p.emptied.reduced = p.reduced := by
  cases p with
  | code b => rfl
  | comment c => exact c.placeholder_emptied

def isBlock : Piece → Bool
  | .comment (.block _) => true
  | _ => false

/-- Pieces whose code opens no comment before the reduced pieces that follow it. -/
def Settled : List Piece → Prop
  | [] => True
  | .code b :: ps => Comment.next? (b :: ps.flatMap reduced) = none ∧ Settled ps
  | .comment _ :: ps => Settled ps

theorem settled_ofText (t : Text) : Settled (ofText t) := by
  fun_induction ofText t with
  | case1 => trivial
  | case2 b rest hnext ih => exact ⟨Comment.next?_normalize hnext, ih⟩
  | case3 b rest c after hnext ih => exact ih

theorem Settled.right (h : Settled (ps ++ qs)) : Settled qs := by
  induction ps with
  | nil => exact h
  | cons p ps ih =>
      cases p with
      | code b => exact ih h.2
      | comment c => exact ih h

theorem Settled.left (h : Settled (ps ++ qs)) : Settled ps := by
  induction ps with
  | nil => trivial
  | cons p ps ih =>
      cases p with
      | code b =>
          obtain ⟨hnext, h⟩ : Comment.next? (b :: (ps ++ qs).flatMap reduced) = none ∧ Settled (ps ++ qs) := h
          refine ⟨?_, ih h⟩
          -- what follows cannot undo a comment that opens
          cases hopen : Comment.next? (b :: ps.flatMap reduced) with
          | none => rfl
          | some found =>
              have hlong := Comment.next?_append_right hopen (qs.flatMap reduced)
              rw [List.cons_append, ← List.flatMap_append, hnext] at hlong
              cases hlong
      | comment c => exact ih h

/-- Settled pieces are read from their reduced text as they were, with empty comments. -/
theorem ofText_reduced (h : Settled ps) : ofText (ps.flatMap reduced) = ps.map emptied := by
  induction ps with
  | nil => rw [List.flatMap_nil, ofText, List.map_nil]
  | cons p ps ih =>
      cases p with
      | code b =>
          have hread : ofText (b :: ps.flatMap reduced) = .code b :: ofText (ps.flatMap reduced) :=
            ofText_of_none h.1
          rw [ih h.2] at hread
          exact hread
      | comment c =>
          have hread := ofText_of_next? (Comment.next?_text c.isComplete_emptied (ps.flatMap reduced))
          rw [c.text_emptied, ih h] at hread
          exact hread

/-- Stripping settled pieces deletes the placeholders of block comments and nothing else. An open mark that
stands in the code has no end anywhere behind it. -/
theorem stripBlocks_reduced (h : Settled ps) :
    Comment.stripBlocks (ps.flatMap reduced) = (ps.filter fun p => !p.isBlock).flatMap reduced := by
  induction ps with
  | nil => exact Comment.stripBlocks_nil
  | cons p ps ih =>
      cases p with
      | code b =>
          have hkeep := Comment.stripBlocks_of_map (Comment.splitBlock?_of_none h.1)
          rw [ih h.2] at hkeep
          exact hkeep
      | comment c =>
          have hrest := ih h
          cases c with
          | block x =>
              have hdrop := Comment.stripBlocks_block (x := []) (by decide) (ps.flatMap reduced)
              rw [hrest] at hdrop
              exact hdrop
          | line x =>
              have hkeep := Comment.stripBlocks_code (u := [slash, slash, '\n'.toUInt8]) (by decide)
                (ps.flatMap reduced) (by decide)
              rw [hrest] at hkeep
              exact hkeep

theorem exists_code {b : Byte} {u v : Text} (hb : b ∉ [slash, star, '\n'.toUInt8])
    (h : ps.flatMap reduced = u ++ b :: v) :
    ∃ before after, ps = before ++ .code b :: after ∧ before.flatMap reduced = u ∧
      after.flatMap reduced = v := by
  induction ps generalizing u with
  | nil => simp at h
  | cons p ps ih =>
      rw [List.flatMap_cons] at h
      rcases List.append_eq_append_iff.1 h with ⟨w, rfl, hw⟩ | ⟨w, hp, hw⟩
      · obtain ⟨before, after, rfl, rfl, rfl⟩ := ih hw
        exact ⟨p :: before, after, rfl, List.flatMap_cons, rfl⟩
      · cases w with
        | nil =>
            rw [List.append_nil] at hp
            obtain ⟨before, after, rfl, hbefore, rfl⟩ := ih (u := []) hw.symm
            exact ⟨p :: before, after, rfl, by rw [List.flatMap_cons, hbefore, hp, List.append_nil], rfl⟩
        | cons a w =>
            obtain ⟨rfl, rfl⟩ := List.cons.inj hw
            have hmem : b ∈ p.reduced := by simp [hp]
            cases p with
            | code a =>
                obtain ⟨rfl, rfl, rfl⟩ : u = [] ∧ a = b ∧ w = [] := by
                  cases u with
                  | nil => simpa [reduced] using hp
                  | cons c u => simp [reduced] at hp
                exact ⟨[], ps, rfl, rfl, rfl⟩
            | comment c => exact absurd (Comment.mem_placeholder hmem) hb

end Piece

namespace Comment

/-- Normalizing once is enough. -/
theorem normalize_normalize (t : Text) : normalize (normalize t) = normalize t := by
  have hread : Piece.ofText (normalize t) = (Piece.ofText t).map Piece.emptied :=
    Piece.ofText_reduced (Piece.settled_ofText t)
  rw [normalize, hread, List.flatMap_map]
  simp only [Piece.reduced_emptied]
  rfl

end Comment

end BuiltinCatalog
