import BuiltinCatalog.Proofs.Comment.Reduced
import BuiltinCatalog.Proofs.Declaration.Scan
import BuiltinCatalog.Signature

namespace BuiltinCatalog

namespace Braces

/-- The braces of a text in their order. -/
def sequence (t : Text) : Text := t.filter fun b => b == left || b == right

theorem sequence_append (t u : Text) : sequence (t ++ u) = sequence t ++ sequence u :=
  List.filter_append t u

end Braces

namespace Piece

variable (ps : List Piece)

theorem sequence_filter :
    Braces.sequence ((ps.filter fun p => !p.isBlock).flatMap reduced) = Braces.sequence (ps.flatMap reduced) := by
  induction ps with
  | nil => rfl
  | cons p ps ih =>
      rw [List.flatMap_cons, Braces.sequence_append, ← ih, List.filter_cons]
      by_cases hp : p.isBlock = true
      · have hmark : Braces.sequence p.reduced = [] := by
          cases p with
          | code b => simp [isBlock] at hp
          | comment c => cases c <;> rfl
        rw [if_neg (by simp [hp]), hmark, List.nil_append]
      · rw [if_pos (by simp [hp]), List.flatMap_cons, Braces.sequence_append]

theorem length_reduced :
    (ps.flatMap reduced).length =
      ((ps.filter fun p => !p.isBlock).flatMap reduced).length + 4 * ps.countP isBlock := by
  induction ps with
  | nil => rfl
  | cons p ps ih =>
      rw [List.flatMap_cons, List.length_append, ih, List.filter_cons, List.countP_cons]
      by_cases hp : p.isBlock = true
      · have hmark : p.reduced.length = 4 := by
          cases p with
          | code b => simp [isBlock] at hp
          | comment c =>
              cases c with
              | block x => rfl
              | line x => simp [isBlock] at hp
        rw [if_neg (by simp [hp]), if_pos hp, hmark]
        omega
      · rw [if_pos (by simp [hp]), if_neg hp, List.flatMap_cons, List.length_append]
        omega

end Piece

/-- A declaration starts and ends with a byte of code, so it cuts no comment in two. -/
theorem Span.Declares.pieces {t : Text} {s : Span} {hd : Head} {gap body : Text}
    (h : s.Declares (Comment.normalize t) hd gap body) :
    ∃ before inside after, Piece.ofText t = before ++ inside ++ after ∧
      (before.flatMap Piece.reduced).length = s.start ∧
      s.slice (Comment.normalize t) = inside.flatMap Piece.reduced := by
  obtain ⟨b, inner, hb, hslice, hsplit⟩ := h.split
  have hmark : b ∉ [Comment.slash, Comment.star, '\n'.toUInt8] := by
    intro hm
    simp only [List.mem_cons, List.not_mem_nil, or_false] at hm
    rcases hm with rfl | rfl | rfl <;> exact absurd hb (by decide)
  obtain ⟨before, rest, hread, hbefore, hrest⟩ := Piece.exists_code hmark hsplit
  obtain ⟨inside, after, rfl, rfl, -⟩ := Piece.exists_code (by decide) hrest
  refine ⟨before, .code b :: inside ++ [.code Braces.right], after, ?_, ?_, ?_⟩
  · rw [hread]
    simp
  · have hle := h.le
    have hlt := h.start_lt_stop
    rw [hbefore, List.length_take]
    omega
  · rw [hslice, List.flatMap_append, List.flatMap_cons]
    rfl

namespace Signature

/-- The span of a declaration holds whole pieces of the text. Stripping deletes the placeholders of the block
comments among them and nothing else. So the source has the braces of the span in their order, and is shorter by
four bytes for each of these comments. -/
theorem source_of_span {t normalized : Text} {spans : List Span}
    (h : Declaration.scan t = .ok (spans, normalized)) :
    Declaration.fragments t = .ok (spans.map fun s => s.slice normalized) ∧
      ∀ s ∈ spans, ∃ before inside after, Piece.ofText t = before ++ inside ++ after ∧
        (before.flatMap Piece.reduced).length = s.start ∧
        s.slice normalized = inside.flatMap Piece.reduced ∧
        Comment.stripBlocks (s.slice normalized) = (inside.filter fun p => !p.isBlock).flatMap Piece.reduced ∧
        ∀ f, parse (s.slice normalized) = .ok f →
          f.source = Comment.stripBlocks (s.slice normalized) ∧
          Braces.sequence f.source = Braces.sequence (s.slice normalized) ∧
          (s.slice normalized).length = f.source.length + 4 * inside.countP Piece.isBlock := by
  refine ⟨Declaration.fragments_of_scan h, fun s hs => ?_⟩
  obtain ⟨hd, gap, body, hdecl⟩ := Declaration.scan_declares h hs
  obtain ⟨rfl, -⟩ := Declaration.scan_eq_ok_iff.1 h
  obtain ⟨before, inside, after, hread, hstart, hslice⟩ := hdecl.pieces
  have hsettled : Piece.Settled inside := by
    have hall := Piece.settled_ofText t
    rw [hread] at hall
    exact hall.left.right
  have hstrip := Piece.stripBlocks_reduced hsettled
  rw [← hslice] at hstrip
  refine ⟨before, inside, after, hread, hstart, hslice, hstrip, fun f hf => ?_⟩
  obtain ⟨_, _, -, -, rfl⟩ := parse_eq_ok hf
  refine ⟨rfl, ?_, ?_⟩
  · rw [hstrip, hslice, Piece.sequence_filter]
  · rw [hstrip, hslice]
    exact Piece.length_reduced inside

/-- A closing mark without an open one, an open mark without an end, and two comments between them. -/
theorem source_of_span_stray_marks :
    ∃ t normalized s f, ∃ inside : List Piece,
      t = Text.ofString "function f(a/*\x7d*/) \x7b */ /**/ x; /* \x7d" ∧
      Declaration.scan t = .ok ([s], normalized) ∧ parse (s.slice normalized) = .ok f ∧
      f.source = Text.ofString "function f(a) \x7b */  x; /* \x7d" ∧
      s.slice normalized = inside.flatMap Piece.reduced ∧
      f.source = (inside.filter fun p => !p.isBlock).flatMap Piece.reduced ∧
      (s.slice normalized).length = f.source.length + 4 * inside.countP Piece.isBlock := by
  have hscan : Declaration.scan "function f(a/*\x7d*/) \x7b */ /**/ x; /* \x7d" =
      .ok ([⟨0, 35⟩], "function f(a/**/) \x7b */ /**/ x; /* \x7d") := by decide +kernel
  have hparse : parse (Span.slice ⟨0, 35⟩ "function f(a/**/) \x7b */ /**/ x; /* \x7d") = .ok
      { name := "f", source := "function f(a) \x7b */  x; /* \x7d", isConstructor := false,
        parameters := some ["a"] } := by decide +kernel
  obtain ⟨-, hspans⟩ := source_of_span hscan
  obtain ⟨_, inside, _, -, -, hslice, hstrip, hsource⟩ := hspans _ (List.mem_singleton.2 rfl)
  obtain ⟨hf, -, hlen⟩ := hsource _ hparse
  exact ⟨_, _, _, _, inside, rfl, hscan, hparse, rfl, hslice, hf.trans hstrip, hlen⟩

end Signature

end BuiltinCatalog
