import BuiltinCatalog.Proofs.Comment
import BuiltinCatalog.Proofs.Declaration.Append

namespace BuiltinCatalog

namespace Comment

variable {t u v w x : Text} {c : Comment}

theorem next?_newline (h : next? t = none) (hl : next? (t ++ ['\n'.toUInt8]) = some (c, v)) :
    ∃ x, t = slash :: slash :: x ∧ c = .line x ∧ v = [] := by
  have hmark {a b : Byte} {z : Text} (hb : b ≠ '\n'.toUInt8) (ht : t ++ ['\n'.toUInt8] = a :: b :: z) :
      ∃ r, t = a :: b :: r ∧ z = r ++ ['\n'.toUInt8] := by
    match t, ht with
    | [], ht => simp at ht
    | [d], ht => exact absurd (List.cons.inj (List.cons.inj ht).2).1.symm hb
    | d :: e :: r, ht =>
        obtain ⟨rfl, rfl, rfl⟩ : d = a ∧ e = b ∧ r ++ ['\n'.toUInt8] = z := by simpa using ht
        exact ⟨r, rfl, rfl⟩
  rcases next?_eq_some hl with ⟨x, z, rfl, ht, hcut⟩ | ⟨x, z, rfl, ht, hcut⟩
  · obtain ⟨r, rfl, rfl⟩ := hmark (by decide) ht
    rw [next?_slash_star, Option.map_eq_none_iff, Text.cut?_eq_none_iff (by simp)] at h
    have hnone : ¬ [star, slash] <:+: r ++ ['\n'.toUInt8] := Text.not_infix_append_cons (by decide) h (by simp)
    rw [← Text.cut?_eq_none_iff (by simp), hcut] at hnone
    cases hnone
  · obtain ⟨r, rfl, rfl⟩ := hmark (by decide) ht
    rw [next?_slash_slash, Option.map_eq_none_iff, Text.cut?_eq_none_iff (by simp)] at h
    have hr : '\n'.toUInt8 ∉ r := by
      intro hm
      obtain ⟨y, z, rfl⟩ := List.append_of_mem hm
      exact h ⟨y, z, by simp⟩
    rw [Text.cut?_byte [] hr] at hcut
    obtain ⟨rfl, rfl⟩ := Prod.mk.inj (Option.some.inj hcut)
    exact ⟨r, rfl, rfl, rfl⟩

end Comment

namespace Piece

variable {t u v w : Text} {c : Comment} {ps : List Piece}

theorem isComplete_of_mem (h : .comment c ∈ ofText t) : c.IsComplete := by
  fun_induction ofText t with
  | case1 => simp at h
  | case2 b rest _ ih => exact ih (by simpa using h)
  | case3 b rest d after hnext ih =>
      rcases List.mem_cons.1 h with heq | h
      · obtain rfl : c = d := by simpa using heq
        exact Comment.isComplete_of_next? hnext
      · exact ih h

theorem ofText_append (h : ofText (u ++ v ++ w) = ofText u ++ ps) : ofText (u ++ v) = ofText u ++ ofText v := by
  fun_induction ofText u with
  | case1 => rfl
  | case2 b rest hnone ih =>
      cases hlong : Comment.next? (b :: (rest ++ v ++ w)) with
      | some found =>
          rw [List.cons_append, List.cons_append, ofText_of_next? hlong] at h
          cases (List.cons.inj h).1
      | none =>
          have hmid : Comment.next? (b :: (rest ++ v)) = none := by
            cases hmid : Comment.next? (b :: (rest ++ v)) with
            | none => rfl
            | some found => cases hlong.symm.trans (Comment.next?_append_right hmid w)
          rw [List.cons_append, List.cons_append, ofText_of_none hlong] at h
          rw [List.cons_append, ofText_of_none hmid, ih (List.cons.inj h).2, List.cons_append]
  | case3 b rest d after hnext ih =>
      rw [List.append_assoc, ofText_of_next? (Comment.next?_append_right hnext (v ++ w)), ← List.append_assoc] at h
      rw [ofText_of_next? (Comment.next?_append_right hnext v), ih (List.cons.inj h).2, List.cons_append]

end Piece

namespace Comment

variable {t u x : Text}

/-- The text ends inside a line comment: with a newline after it, that is its last piece. -/
def EndsInLine (t u x : Text) : Prop :=
  Piece.ofText (t ++ ['\n'.toUInt8]) = Piece.ofText u ++ [.comment (.line x)]

theorem EndsInLine.eq_append (h : EndsInLine t u x) : t = u ++ slash :: slash :: x := by
  have ht := congrArg (List.flatMap Piece.text) h
  rw [Piece.text_ofText, List.flatMap_append, Piece.text_ofText] at ht
  have hline : [Piece.comment (line x)].flatMap Piece.text = slash :: slash :: x ++ ['\n'.toUInt8] := by
    simp [Piece.text, text_line]
  rw [hline, ← List.append_assoc] at ht
  exact List.append_cancel_right ht

theorem EndsInLine.not_mem (h : EndsInLine t u x) : '\n'.toUInt8 ∉ x := by
  have hm : .comment (.line x) ∈ Piece.ofText (t ++ ['\n'.toUInt8]) := by
    rw [h]
    simp
  exact Piece.isComplete_of_mem hm

theorem EndsInLine.normalize_newline (h : EndsInLine t u x) :
    normalize (t ++ ['\n'.toUInt8]) = normalize u ++ [slash, slash, '\n'.toUInt8] := by
  rw [normalize, h, List.flatMap_append, normalize]
  rfl

theorem EndsInLine.normalize_eq (h : EndsInLine t u x) :
    normalize t = normalize u ++ normalize (slash :: slash :: x) := by
  have ht := h.eq_append
  rw [EndsInLine, ht] at h
  rw [ht, normalize, Piece.ofText_append h, List.flatMap_append, normalize, normalize]

theorem ofText_newline (t : Text) :
    Piece.ofText (t ++ ['\n'.toUInt8]) = Piece.ofText t ++ [.code '\n'.toUInt8] ∨ ∃ u x, EndsInLine t u x := by
  fun_induction Piece.ofText t with
  | case1 =>
      have hnone : next? ['\n'.toUInt8] = none := rfl
      refine Or.inl ?_
      rw [List.nil_append, Piece.ofText_of_none hnone, Piece.ofText, List.nil_append]
  | case2 b rest hnone ih =>
      cases hlong : next? (b :: (rest ++ ['\n'.toUInt8])) with
      | some found =>
          obtain ⟨x, -, hc, hv⟩ := next?_newline hnone hlong
          refine Or.inr ⟨[], x, ?_⟩
          rw [EndsInLine, List.cons_append, Piece.ofText_of_next? hlong, hc, hv, Piece.ofText, List.nil_append]
      | none =>
          rcases ih with hcode | ⟨u, x, hline⟩
          · refine Or.inl ?_
            rw [List.cons_append, Piece.ofText_of_none hlong, hcode, List.cons_append]
          · have hshort : next? (b :: u) = none := by
              cases hshort : next? (b :: u) with
              | none => rfl
              | some found =>
                  have hfound := next?_append_right hshort (slash :: slash :: x)
                  rw [List.cons_append, ← hline.eq_append, hnone] at hfound
                  cases hfound
            refine Or.inr ⟨b :: u, x, ?_⟩
            rw [EndsInLine, List.cons_append, Piece.ofText_of_none hlong, Piece.ofText_of_none hshort, hline,
              List.cons_append]
  | case3 b rest c after hnext ih =>
      have hlong := next?_append_right hnext ['\n'.toUInt8]
      rcases ih with hcode | ⟨u, x, hline⟩
      · refine Or.inl ?_
        rw [Piece.ofText_of_next? hlong, hcode, List.cons_append]
      · refine Or.inr ⟨c.text ++ u, x, ?_⟩
        rw [EndsInLine, Piece.ofText_of_next? hlong, Piece.ofText_of_next? (next?_text (isComplete_of_next? hnext) u),
          hline, List.cons_append]

theorem mem_of_mem_normalize {b : Byte} (h : b ∈ normalize t) :
    b ∈ t ∨ b ∈ [slash, star, '\n'.toUInt8] := by
  obtain ⟨p, hp, hb⟩ := List.mem_flatMap.1 h
  cases p with
  | code a =>
      refine Or.inl ?_
      rw [← Piece.text_ofText t]
      exact List.mem_flatMap.2 ⟨.code a, hp, hb⟩
  | comment c => exact Or.inr (mem_placeholder hb)

end Comment

namespace Declaration

open Braces Comment

/-- A newline after a text leaves its fragments as they are unless the text ends inside a line comment. Then
the text with the newline has the fragments of what stands before the comment, and the text without it has
them exactly if the comment, read as code, adds nothing to the scan; in particular if it holds no brace and
no closing parenthesis. -/
theorem fragments_newline (t : Text) :
    ((¬ ∃ u x, EndsInLine t u x) → fragments (t ++ ['\n'.toUInt8]) = fragments t) ∧
      ∀ u x, EndsInLine t u x →
        t = u ++ slash :: slash :: x ∧ '\n'.toUInt8 ∉ x ∧
        fragments (t ++ ['\n'.toUInt8]) = fragments u ∧
        (fragments (t ++ ['\n'.toUInt8]) = fragments t ↔
          AddsNothing (Comment.normalize u) (Comment.normalize (slash :: slash :: x))) ∧
        (left ∉ x → right ∉ x → ')'.toUInt8 ∉ x → fragments (t ++ ['\n'.toUInt8]) = fragments t) := by
  constructor
  · intro hline
    have hread := (ofText_newline t).resolve_right hline
    have hn : Comment.normalize (t ++ ['\n'.toUInt8]) = Comment.normalize t ++ ['\n'.toUInt8] := by
      rw [Comment.normalize, hread, List.flatMap_append, Comment.normalize]
      rfl
    exact (fragments_eq_iff hn).2 (addsNothing_of_plain _ (by decide) (by decide) (by decide))
  · intro u x hline
    have hwith : fragments (t ++ ['\n'.toUInt8]) = fragments u :=
      (fragments_eq_iff hline.normalize_newline).2 (addsNothing_of_plain _ (by decide) (by decide) (by decide))
    have hiff : fragments (t ++ ['\n'.toUInt8]) = fragments t ↔
        AddsNothing (Comment.normalize u) (Comment.normalize (slash :: slash :: x)) := by
      rw [hwith, eq_comm, fragments_eq_iff hline.normalize_eq]
    refine ⟨hline.eq_append, hline.not_mem, hwith, hiff, fun hl hr hp => hiff.2 ?_⟩
    have hfree {b : Byte} (hb : b ∉ x) (hm : b ∉ [slash, star, '\n'.toUInt8]) :
        b ∉ Comment.normalize (slash :: slash :: x) := by
      intro h
      rcases mem_of_mem_normalize h with h | h
      · simp only [List.mem_cons, not_or] at h hm
        tauto
      · exact hm h
    exact addsNothing_of_plain _ (hfree hl (by decide)) (hfree hr (by decide)) (hfree hp (by decide))

namespace Sample

theorem fragments_newline_after_remark :
    ∃ t u x, t = Text.ofString "function f() \x7b\x7d // done" ∧ EndsInLine t u x ∧
      fragments (t ++ ['\n'.toUInt8]) = fragments u ∧ fragments (t ++ ['\n'.toUInt8]) = fragments t ∧
      fragments t = .ok [Text.ofString "function f() \x7b\x7d"] := by
  have hline : EndsInLine "function f() \x7b\x7d // done" "function f() \x7b\x7d " " done" := by
    rw [EndsInLine]
    decide +kernel
  obtain ⟨-, -, hwith, -, hplain⟩ := (fragments_newline "function f() \x7b\x7d // done").2 _ _ hline
  exact ⟨_, _, _, rfl, hline, hwith, hplain (by decide) (by decide) (by decide), by decide +kernel⟩

/-- A declaration in a comment that no newline ends makes the scan fail. -/
theorem commented_declaration :
    ∃ t, t = Text.ofString "function f() \x7b\x7d // function g() \x7b" ∧
      fragments (t ++ ['\n'.toUInt8]) = .ok [Text.ofString "function f() \x7b\x7d"] ∧
      fragments t = .error { fault := .unbalanced 1, offset := some 32 } := by
  refine ⟨_, rfl, ?_, ?_⟩
  · decide +kernel
  · decide +kernel

end Sample

end Declaration

end BuiltinCatalog
