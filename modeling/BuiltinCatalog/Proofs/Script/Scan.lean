import BuiltinCatalog.Proofs.Declaration.Scan
import BuiltinCatalog.Proofs.Script.Syntax

namespace BuiltinCatalog

open Braces

namespace Script

theorem mem_placeholder {c : Comment} {b : Byte} (h : b ∈ c.placeholder) :
    Text.isSpace b = true ∨ b = Comment.slash ∨ b = Comment.star := by
  have hmark := Comment.mem_placeholder h
  simp only [List.mem_cons, List.not_mem_nil, or_false] at hmark
  rcases hmark with h | h | rfl
  · exact Or.inr (Or.inl h)
  · exact Or.inr (Or.inr h)
  · exact Or.inl rfl

theorem mem_fill_reduced {fs : List Filler} {b : Byte} (h : b ∈ fill .reduced fs) :
    Text.isSpace b = true ∨ b = Comment.slash ∨ b = Comment.star := by
  obtain ⟨f, _, hb⟩ := List.mem_flatMap.1 h
  cases f with
  | blank c hc =>
      obtain rfl : b = c := by simpa [Filler.render] using hb
      exact Or.inl hc
  | comment c _ => exact mem_placeholder hb

theorem not_isWord_of_filler {b : Byte}
    (h : Text.isSpace b = true ∨ b = Comment.slash ∨ b = Comment.star) : Text.isWord b = false := by
  rcases h with h | rfl | rfl
  · exact Opening.not_isWord_of_isSpace h
  · rfl
  · rfl

theorem mem_parameter_reduced {p : Parameter} {b : Byte} (h : b ∈ p.render .reduced) :
    (Text.isSpace b = true ∨ b = Comment.slash ∨ b = Comment.star) ∨ Text.isWord b = true := by
  simp only [Parameter.render, List.mem_append] at h
  rcases h with h | h | h
  · exact Or.inl (mem_fill_reduced h)
  · exact Or.inr (p.name.isWord b h)
  · exact Or.inl (mem_fill_reduced h)

theorem not_mem_parameters_reduced (l : ParameterList) : ')'.toUInt8 ∉ l.render .reduced := by
  cases l with
  | empty fs _ =>
      intro h
      exact absurd (mem_fill_reduced h) (by decide)
  | cons p ps =>
      intro h
      rcases List.mem_append.1 h with h | h
      · exact absurd (mem_parameter_reduced h) (by decide)
      · obtain ⟨q, _, hq⟩ := List.mem_flatMap.1 h
        rcases List.mem_cons.1 hq with hq | hq
        · exact absurd hq (by decide)
        · exact absurd (mem_parameter_reduced hq) (by decide)

theorem count_placeholder {c : Comment} {b : Byte} (hb : b = left ∨ b = right) {u : Text}
    (hu : u <+: c.placeholder) : u.count b = 0 := by
  apply List.count_eq_zero_of_not_mem
  intro hm
  have h := mem_placeholder (hu.subset hm)
  rcases hb with rfl | rfl <;> exact absurd h (by decide)

theorem Part.count_codeText (p : Part) {b : Byte} (hb : b = left ∨ b = right) :
    p.codeText.count b = (p.render .reduced).count b := by
  cases p with
  | code u => rfl
  | comment c =>
      rw [Part.render, Comment.view, count_placeholder hb List.prefix_rfl]
      rfl

/-- The braces up to some point of a body are those of its code up to some point. -/
theorem exists_codeText_prefix (ps : List Part) {u : Text}
    (h : u <+: ps.flatMap (Part.render .reduced)) :
    ∃ w, w <+: ps.flatMap Part.codeText ∧ ∀ b, b = left ∨ b = right → w.count b = u.count b := by
  induction ps generalizing u with
  | nil => exact ⟨u, h, fun _ _ => rfl⟩
  | cons p ps ih =>
      rw [List.flatMap_cons] at h
      rw [List.flatMap_cons]
      rcases List.prefix_or_prefix_of_prefix h (List.prefix_append _ _) with hp | ⟨v, rfl⟩
      · cases p with
        | code c => exact ⟨u, hp.trans (List.prefix_append _ _), fun _ _ => rfl⟩
        | comment c =>
            exact ⟨[], List.nil_prefix, fun b hb => by rw [count_placeholder hb hp, List.count_nil]⟩
      · obtain ⟨w, hw, hc⟩ := ih ((List.prefix_append_right_inj _).1 h)
        refine ⟨p.codeText ++ w, (List.prefix_append_right_inj _).2 hw, fun b hb => ?_⟩
        rw [List.count_append, List.count_append, hc b hb, p.count_codeText hb]

theorem count_codeText (ps : List Part) {b : Byte} (hb : b = left ∨ b = right) :
    (ps.flatMap Part.codeText).count b = (ps.flatMap (Part.render .reduced)).count b := by
  induction ps with
  | nil => rfl
  | cons p ps ih =>
      rw [List.flatMap_cons, List.flatMap_cons, List.count_append, List.count_append, ih,
        p.count_codeText hb]

theorem Body.balanced_reduced (b : Body) : Balanced (b.render .reduced) where
  inside u hu := by
    obtain ⟨w, hw, hc⟩ := exists_codeText_prefix b.parts hu
    rw [← hc left (Or.inl rfl), ← hc right (Or.inr rfl)]
    exact b.balanced.inside w hw
  even := by
    have h := b.balanced.even
    rwa [count_codeText b.parts (Or.inl rfl), count_codeText b.parts (Or.inr rfl)] at h

end Script

theorem Braces.Balanced.closesAfter {u : Text} (h : Balanced u) (rest : Text) :
    ClosesAfter 1 (u ++ right :: rest) (u.length + 1) where
  le := by simp
  closed := by
    have ht : (u ++ right :: rest).take (u.length + 1) = u ++ [right] := by
      rw [List.take_append]
      simp
    rw [ht, List.count_append, List.count_append, h.even]
    have hl : [right].count left = 0 := by decide
    have hr : [right].count right = 1 := by decide
    omega
  open_before m hm := by
    rw [List.take_append_of_le_length (by omega)]
    have hp := h.inside (u.take m) (List.take_prefix m u)
    omega

namespace Script

theorem isWord_placeholder {c : Comment} : ∀ b ∈ c.placeholder, Text.isWord b = false :=
  fun _ hb => not_isWord_of_filler (mem_placeholder hb)

theorem absent_parts {ps : List Part}
    (apart : ps.IsChain fun p q => ¬ (p.isCode = true ∧ q.isCode = true))
    (chunks : ∀ u, .code u ∈ ps → IsChunk u) : Keyword.Absent (ps.flatMap (Part.render .reduced)) := by
  induction ps with
  | nil => exact Keyword.absent_nil
  | cons p ps ih =>
      have hrest := ih apart.of_cons fun u hu => chunks u (by simp [hu])
      rw [List.flatMap_cons]
      cases p with
      | comment c => exact .append_left isWord_placeholder hrest
      | code u =>
          have hu := (chunks u (by simp)).noKeyword
          cases ps with
          | nil => simpa [Part.render] using hu
          | cons q ps =>
              cases q with
              | code w => simp [List.isChain_cons_cons, Part.isCode] at apart
              | comment c =>
                  obtain ⟨v, hv⟩ : ∃ v, c.placeholder = Comment.slash :: v := by
                    cases c <;> exact ⟨_, rfl⟩
                  rw [List.flatMap_cons, Part.render, Comment.view, hv, List.cons_append] at hrest ⊢
                  exact hu.append_cons rfl hrest.tail

theorem Body.absent_reduced (b : Body) : Keyword.Absent (b.render .reduced) :=
  absent_parts b.apart b.chunks

namespace Decl

def head (d : Decl) : Head := ⟨d.opening, d.parameters.render .reduced⟩

def tail (d : Decl) : Text := d.lead ++ left :: (d.body.render .reduced ++ [right])

theorem render_reduced (d : Decl) : d.render .reduced = d.head.text ++ d.tail := by
  have hparen : Text.ofString ")" = [')'.toUInt8] := rfl
  simp [render, Head.text, head, tail, hparen]

theorem next?_reduced (d : Decl) (rest : Text) :
    Head.next? (d.render .reduced ++ rest) = some (d.head, d.tail ++ rest) := by
  refine Head.next?_eq_some_iff.2 ⟨⟨d.wellFormed, not_mem_parameters_reduced d.parameters⟩, ?_⟩
  rw [render_reduced, List.append_assoc]

theorem absent_tail (d : Decl) : Keyword.Absent d.tail := by
  have hbody : Keyword.Absent (d.body.render .reduced ++ [right]) :=
    d.body.absent_reduced.append_cons rfl Keyword.absent_nil
  have hopen : Keyword.Absent (left :: (d.body.render .reduced ++ [right])) :=
    Keyword.absent_nil.append_cons rfl hbody
  exact .append_left (fun b hb => Opening.not_isWord_of_isSpace (d.lead_space b hb)) hopen

theorem getLast?_tail (d : Decl) : d.tail.getLast? = some right := by
  simp [tail, List.getLast?_append, List.getLast?_cons]

theorem all_reduced (d : Decl) (rest : Text) (pos : Nat) :
    FoundHead.all true pos (d.render .reduced ++ rest) =
      ⟨pos, d.head, d.tail ++ rest⟩ ::
        FoundHead.all true (pos + (d.render .reduced).length) rest := by
  rw [FoundHead.all_of_next? (d.next?_reduced rest),
    FoundHead.all_skip d.absent_tail d.getLast?_tail rfl, render_reduced, List.length_append,
    Nat.add_assoc]

theorem bodyStop_reduced (d : Decl) (rest : Text) (pos : Nat) :
    FoundHead.bodyStop ⟨pos, d.head, d.tail ++ rest⟩ = .ok (pos + (d.render .reduced).length) := by
  refine FoundHead.bodyStop_eq_ok_iff.2
    ⟨d.lead, d.body.render .reduced ++ right :: rest, _, ?_, ?_, d.body.balanced_reduced.closesAfter rest, ?_⟩
  · simp [tail]
  · intro h
    exact absurd (d.lead_space _ h) (by decide)
  · rw [render_reduced]
    simp only [FoundHead.stop, tail, List.length_append, List.length_cons, List.length_nil]
    omega

end Decl

def spansFrom (pos : Nat) : List (Decl × List Filler) → List Span
  | [] => []
  | (d, fs) :: rest =>
    let stop := pos + (d.render .reduced).length
    ⟨pos, stop⟩ :: spansFrom (stop + (fill .reduced fs).length) rest

theorem all_fill (fs : List Filler) (rest : Text) (pos : Nat) :
    FoundHead.all true pos (fill .reduced fs ++ rest) =
      FoundHead.all true (pos + (fill .reduced fs).length) rest :=
  FoundHead.all_skip_blank (fun _ hb => not_isWord_of_filler (mem_fill_reduced hb)) rest pos

theorem spans_declText (decls : List (Decl × List Filler)) {reached pos : Nat} (h : reached ≤ pos) :
    FoundHead.spans reached (FoundHead.all true pos (declText .reduced decls)) =
      .ok (spansFrom pos decls) := by
  induction decls generalizing reached pos with
  | nil => simp [declText, FoundHead.all, FoundHead.spans, spansFrom]
  | cons d decls ih =>
      obtain ⟨d, fs⟩ := d
      rw [declText, List.flatMap_cons, List.append_assoc, d.all_reduced, all_fill]
      refine FoundHead.spans_cons_eq_ok_iff.2 (Or.inr ⟨h, _, _, d.bodyStop_reduced _ pos, ?_, rfl⟩)
      exact ih (Nat.le_add_right _ _)

theorem slice_append (u v w : Text) :
    Span.slice ⟨u.length, u.length + v.length⟩ (u ++ (v ++ w)) = v := by
  simp [Span.slice]

theorem slices_declText (decls : List (Decl × List Filler)) (u : Text) :
    ((spansFrom u.length decls).map fun s => s.slice (u ++ declText .reduced decls)) =
      decls.map fun d => d.1.render .reduced := by
  induction decls generalizing u with
  | nil => rfl
  | cons d decls ih =>
      obtain ⟨d, fs⟩ := d
      have hu : declText .reduced ((d, fs) :: decls) =
          d.render .reduced ++ (fill .reduced fs ++ declText .reduced decls) := by
        simp [declText]
      have hrest := ih (u ++ d.render .reduced ++ fill .reduced fs)
      rw [List.length_append, List.length_append, List.append_assoc, List.append_assoc] at hrest
      rw [hu, spansFrom, List.map_cons, List.map_cons, slice_append, hrest]

def preamble (s : Script) : Text := (Comment.block s.license).placeholder ++ fill .reduced s.lead

theorem render_eq_preamble (s : Script) :
    s.render .reduced = s.preamble ++ declText .reduced s.decls := by
  simp [render, preamble, Comment.view]

theorem scan_text (s : Script) :
    Declaration.scan s.text = .ok (spansFrom s.preamble.length s.decls, s.render .reduced) := by
  refine Declaration.scan_eq_ok_iff.2 ⟨s.normalize_text.symm, ?_⟩
  have hpre : ∀ b ∈ s.preamble, Text.isWord b = false := by
    intro b hb
    rcases List.mem_append.1 hb with hb | hb
    · exact isWord_placeholder b hb
    · exact not_isWord_of_filler (mem_fill_reduced hb)
  rw [render_eq_preamble, Declaration.spansIn, FoundHead.all_skip_blank hpre, Nat.zero_add]
  exact spans_declText s.decls (Nat.zero_le _)

theorem fragments_text (s : Script) :
    Declaration.fragments s.text = .ok (s.decls.map fun d => d.1.render .reduced) := by
  rw [Declaration.fragments_of_scan s.scan_text, render_eq_preamble, slices_declText]

end Script

end BuiltinCatalog
