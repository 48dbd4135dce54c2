import BuiltinCatalog.Proofs.Declaration.Spans
import BuiltinCatalog.Proofs.Except

namespace BuiltinCatalog

open Braces

namespace Keyword

theorem head?_text (k : Keyword) : ∃ b, Text.isWord b = true ∧ k.text.head? = some b := by
  cases k with
  | function => exact ⟨'f'.toUInt8, rfl, rfl⟩
  | constructor => exact ⟨'c'.toUInt8, rfl, rfl⟩

end Keyword

theorem Head.head?_text (hd : Head) : ∃ b, Text.isWord b = true ∧ hd.text.head? = some b := by
  obtain ⟨b, hb, hk⟩ := hd.opening.keyword.head?_text
  obtain ⟨u, hu⟩ := List.head?_eq_some_iff.1 hk
  exact ⟨b, hb, by simp [Head.text, Opening.text, hu]⟩

namespace Span

variable {t : Text} {s : Span} {hd : Head} {gap body : Text}

theorem Declares.start_lt_stop (h : s.Declares t hd gap body) : s.start < s.stop := by
  have hlen := h.length
  have hpos := hd.length_text_pos
  rw [List.length_append, List.length_append] at hlen
  omega

/-- A declaration runs from a letter to a brace, and the text is what stands before, in and after it. -/
theorem Declares.split (h : s.Declares t hd gap body) :
    ∃ b inner, Text.isWord b = true ∧ s.slice t = b :: inner ++ [right] ∧
      t = t.take s.start ++ b :: (inner ++ right :: t.drop s.stop) := by
  obtain ⟨b, hb, hh⟩ := hd.head?_text
  obtain ⟨u, hu⟩ := List.head?_eq_some_iff.1 hh
  obtain ⟨v, hv⟩ := List.getLast?_eq_some_iff.1 h.isBody.closes
  have hslice : s.slice t = b :: (u ++ gap ++ v) ++ [right] := by
    rw [h.slice, hu, hv]
    simp
  refine ⟨b, u ++ gap ++ v, hb, hslice, ?_⟩
  have hlen : s.stop - s.start + s.start = s.stop := by
    have := h.start_lt_stop
    omega
  have hdrop : t.drop s.start = s.slice t ++ t.drop s.stop := by
    rw [Span.slice, ← hlen, Nat.add_comm, ← List.drop_drop, Nat.add_comm, hlen, List.take_append_drop]
  conv_lhs => rw [← List.take_append_drop s.start t, hdrop, hslice]
  simp

theorem Declares.trim_slice (h : s.Declares t hd gap body) : Text.trim (s.slice t) = s.slice t := by
  obtain ⟨b, inner, hb, hslice, -⟩ := h.split
  refine Text.trim_eq_self (Text.isInk_of_isWord hb) (by decide : Text.IsInk right) ?_ ?_
  · rw [hslice, List.cons_append, List.head?_cons]
  · rw [hslice, List.getLast?_concat]

end Span

namespace Declaration

theorem scan_eq_ok_iff {t normalized : Text} {spans : List Span} :
    scan t = .ok (spans, normalized) ↔ normalized = Comment.normalize t ∧ spansIn normalized = .ok spans := by
  constructor
  · intro h
    obtain ⟨out, hs, h⟩ := bind_eq_ok.1 h
    obtain ⟨rfl, rfl⟩ := Prod.mk.inj (Except.ok.inj h)
    exact ⟨rfl, hs⟩
  · rintro ⟨rfl, hs⟩
    exact bind_eq_ok.2 ⟨spans, hs, rfl⟩

theorem scan_declares {t normalized : Text} {spans : List Span} (h : scan t = .ok (spans, normalized))
    {s : Span} (hs : s ∈ spans) : ∃ hd gap body, s.Declares normalized hd gap body := by
  obtain ⟨_, h⟩ := scan_eq_ok_iff.1 h
  obtain ⟨f, _, _, gap, body, hd⟩ := FoundHead.spans_declare (FoundHead.all_spec normalized) h hs
  exact ⟨f.head, gap, body, hd⟩

theorem fragments_of_scan {t normalized : Text} {spans : List Span}
    (h : scan t = .ok (spans, normalized)) : fragments t = .ok (spans.map fun s => s.slice normalized) := by
  have hm : (spans.map fun s => Text.trim (s.slice normalized)) = spans.map fun s => s.slice normalized := by
    apply List.map_congr_left
    intro s hs
    obtain ⟨hd, gap, body, hdecl⟩ := scan_declares h hs
    exact hdecl.trim_slice
  simp [fragments, h, bind, Except.bind, pure, Except.pure, hm]

/-- The spans of a scan stand in the normalized text one after the other. Each holds a head and, after a
gap without braces, a body that ends with the brace that closes it; the fragments are these slices. -/
theorem scan_sound {t normalized : Text} {spans : List Span} (h : scan t = .ok (spans, normalized)) :
    normalized = Comment.normalize t ∧
      (∀ s ∈ spans, s.start < s.stop ∧ s.stop ≤ normalized.length ∧
        ∃ hd gap body, s.Declares normalized hd gap body) ∧
      spans.Pairwise (fun s u => s.stop ≤ u.start) ∧
      fragments t = .ok (spans.map fun s => s.slice normalized) := by
  obtain ⟨hn, hs⟩ := scan_eq_ok_iff.1 h
  refine ⟨hn, fun s hs => ?_, FoundHead.spans_pairwise (FoundHead.all_spec normalized) hs,
    fragments_of_scan h⟩
  obtain ⟨hd, gap, body, hdecl⟩ := scan_declares h hs
  exact ⟨hdecl.start_lt_stop, hdecl.le, hd, gap, body, hdecl⟩

/-- A brace in a comment, a nested body and a stray closing brace between two declarations. -/
theorem scan_sound_stray_brace :
    ∃ t normalized spans, scan t = .ok (spans, normalized) ∧ spans = [⟨0, 25⟩, ⟨28, 46⟩] ∧
      spans.Pairwise (fun s u => s.stop ≤ u.start) ∧
      fragments t = .ok (spans.map fun s => s.slice normalized) := by
  have h : scan "function a(b /*)*/) \x7b \x7b\x7d \x7d \x7d constructor B() \x7b\x7d" =
      .ok ([⟨0, 25⟩, ⟨28, 46⟩], "function a(b /**/) \x7b \x7b\x7d \x7d \x7d constructor B() \x7b\x7d") := by decide +kernel
  obtain ⟨_, _, hp, hf⟩ := scan_sound h
  exact ⟨_, _, _, h, rfl, hp, hf⟩

theorem eq_of_mem_spans {spans : List Span} (h : spans.Pairwise fun s u => s.stop ≤ u.start)
    {s u : Span} (hs : s ∈ spans) (hu : u ∈ spans) {p : Nat} (hsp : s.start ≤ p ∧ p < s.stop)
    (hup : u.start ≤ p ∧ p < u.stop) : s = u := by
  induction h with
  | nil => simp at hs
  | cons hv _ ih =>
      rcases List.mem_cons.1 hs with rfl | hs' <;> rcases List.mem_cons.1 hu with rfl | hu'
      · rfl
      · have hle := hv u hu'
        omega
      · have hle := hv s hs'
        omega
      · exact ih hs' hu'

end Declaration

theorem Head.IsWellFormed.not_mem {hd : Head} (h : hd.IsWellFormed) :
    ')'.toUInt8 ∉ hd.opening.text ++ hd.list := by
  obtain ⟨⟨_, hgap, _, hname, hpad⟩, hlist⟩ := h
  simp only [Opening.text, List.mem_append, not_or]
  refine ⟨⟨?_, ?_, ?_, ?_, by decide⟩, hlist⟩
  · cases hd.opening.keyword <;> decide
  · exact fun hm => absurd (hgap _ hm) (by decide)
  · exact fun hm => absurd (hname _ hm) (by decide)
  · exact fun hm => absurd (hpad _ hm) (by decide)

namespace Head.At

variable {t : Text} {p j : Nat} {hd : Head}

theorem drop_eq (h : hd.At t p) :
    ∃ v, t.drop p = (hd.opening.text ++ hd.list) ++ ')'.toUInt8 :: v := by
  obtain ⟨v, hv⟩ := h.isPrefix
  refine ⟨v, ?_⟩
  rw [← hv]
  simp only [Head.text, List.append_assoc]
  rfl

theorem length_text (hd : Head) : hd.text.length = (hd.opening.text ++ hd.list).length + 1 := by
  simp only [Head.text, List.length_append]
  rfl

theorem getElem?_last (h : hd.At t p) : t[p + (hd.opening.text ++ hd.list).length]? = some ')'.toUInt8 := by
  obtain ⟨v, hv⟩ := h.drop_eq
  rw [← List.getElem?_drop, hv, List.getElem?_append_right (Nat.le_refl _), Nat.sub_self]
  rfl

theorem stop_le (h : hd.At t p) (hp : p ≤ j) (hj : t[j]? = some ')'.toUInt8) :
    p + hd.text.length ≤ j + 1 := by
  obtain ⟨v, hv⟩ := h.drop_eq
  have hlen := length_text hd
  by_contra hlt
  have hin : j - p < (hd.opening.text ++ hd.list).length := by omega
  rw [show j = p + (j - p) by omega, ← List.getElem?_drop, hv, List.getElem?_append_left hin] at hj
  exact h.wellFormed.not_mem (List.mem_of_getElem? hj)

end Head.At

namespace Declaration

/-- A head that starts inside a span goes on after its end and over an offset. -/
def RunsOver (t : Text) (spans : List Span) (p : Nat) : Prop :=
  ∃ s ∈ spans, ∃ q hd, Head.At t q hd ∧ s.start ≤ q ∧ q < s.stop ∧ s.stop ≤ p ∧ p < q + hd.text.length

theorem not_covered_iff {t normalized : Text} {spans : List Span}
    (h : scan t = .ok (spans, normalized)) {p : Nat} (hp : StartsHead normalized p) :
    (¬ ∃ s ∈ spans, s.start ≤ p ∧ p < s.stop) ↔ RunsOver normalized spans p := by
  obtain ⟨_, hs⟩ := scan_eq_ok_iff.1 h
  have hl := FoundHead.all_spec normalized
  have hw := FoundHead.spans_pairwise hl hs
  constructor
  · intro hn
    obtain ⟨f, hf, hfp, hpf⟩ := hl.covers (Nat.zero_le p) hp
    obtain ⟨s, hm, hsf, hfs⟩ := FoundHead.exists_span hl hs hf (Nat.zero_le _)
    refine ⟨s, hm, f.start, f.head, (hl.mem hf).2.head, hsf, hfs, ?_, hpf⟩
    rcases Nat.lt_or_ge p s.stop with hlt | hge
    · exact absurd ⟨s, hm, hsf.trans hfp, hlt⟩ hn
    · exact hge
  · rintro ⟨s, hm, q, hd, hat, hsq, hqs, hsp, hpq⟩ ⟨u, hu, hup⟩
    obtain ⟨f, hf, hfq, hqf⟩ := hl.covers (Nat.zero_le q) ⟨hd, hat⟩
    -- the find around `q` ends with a closing parenthesis, so the head at `q` ends no later
    have hpf : p < f.stop := by
      have hlen := Head.At.length_text f.head
      have hend := hat.stop_le (by rw [FoundHead.stop] at hqf; omega) (hl.mem hf).2.head.getElem?_last
      rw [FoundHead.stop]
      omega
    obtain ⟨g, hg, hgs, gap, body, hdecl⟩ := FoundHead.spans_declare hl hs hm
    obtain ⟨e, he, heu, gap', body', hdecl'⟩ := FoundHead.spans_declare hl hs hu
    have hgstop : g.stop ≤ s.stop := by
      rw [FoundHead.stop, hgs, hdecl.length, List.append_assoc, List.length_append]
      omega
    have hgpos : g.start < g.stop := Nat.lt_add_of_pos_right g.head.length_text_pos
    -- it is not the head of `s`, which ends inside `s`, so it starts in the body of `s`
    have hsf : s.start ≤ f.start := by
      rcases hl.disjoint hf hg with rfl | hd | hd <;> omega
    have huf : u.start ≤ f.start := by
      rcases hl.disjoint hf he with rfl | hd | hd
      · omega
      · omega
      · have : e.start < e.stop := Nat.lt_add_of_pos_right e.head.length_text_pos
        omega
    have heq := eq_of_mem_spans hw hm hu (p := f.start) ⟨hsf, by omega⟩ ⟨huf, by omega⟩
    subst heq
    omega

/-- The spans cover every head of the text unless a head that starts inside one of them runs over
another. -/
theorem covers_heads_iff {t normalized : Text} {spans : List Span}
    (h : scan t = .ok (spans, normalized)) :
    (∀ p, StartsHead normalized p → ∃ s ∈ spans, s.start ≤ p ∧ p < s.stop) ↔
      ∀ p, StartsHead normalized p → ¬ RunsOver normalized spans p := by
  constructor
  · intro hc p hp hr
    exact (not_covered_iff h hp).2 hr (hc p hp)
  · intro hr p hp
    by_contra hn
    exact hr p hp ((not_covered_iff h hp).1 hn)

/-- A string that looks like the start of a head takes the next declaration with it. -/
theorem swallowed_declaration :
    ∃ t normalized spans, scan t = .ok (spans, normalized) ∧
      t = Text.ofString "function a() \x7b return \"function b(\"; \x7d function c() \x7b\x7d" ∧
      ∃ p, StartsHead normalized p ∧ ¬ ∃ s ∈ spans, s.start ≤ p ∧ p < s.stop := by
  have h : scan "function a() \x7b return \"function b(\"; \x7d function c() \x7b\x7d" =
      .ok ([⟨0, 38⟩], "function a() \x7b return \"function b(\"; \x7d function c() \x7b\x7d") := by decide +kernel
  refine ⟨_, _, _, h, rfl, 39, ⟨⟨⟨.function, " ", "c", []⟩, []⟩, ?_, ?_, by decide⟩, by decide⟩
  · intro b hb
    have hl : ((Text.ofString "function a() \x7b return \"function b(\"; \x7d function c() \x7b\x7d").take 39).getLast? =
        some ' '.toUInt8 := by decide
    obtain rfl : ' '.toUInt8 = b := by simpa [hl] using hb
    rfl
  · exact ⟨⟨by decide, List.all_eq_true.1 (by decide), by decide, List.all_eq_true.1 (by decide),
      List.all_eq_true.1 (by decide)⟩, by decide⟩

theorem covers_heads_iff_nested :
    ∃ t normalized spans, scan t = .ok (spans, normalized) ∧ spans.length = 2 ∧
      ((∀ p, StartsHead normalized p → ∃ s ∈ spans, s.start ≤ p ∧ p < s.stop) ↔
        ∀ p, StartsHead normalized p → ¬ RunsOver normalized spans p) := by
  have h : scan "function a() \x7b function b() \x7b\x7d \x7d\nfunction c() \x7b\x7d" =
      .ok ([⟨0, 32⟩, ⟨33, 48⟩], "function a() \x7b function b() \x7b\x7d \x7d\nfunction c() \x7b\x7d") := by decide +kernel
  exact ⟨_, _, _, h, rfl, covers_heads_iff h⟩

end Declaration

end BuiltinCatalog
