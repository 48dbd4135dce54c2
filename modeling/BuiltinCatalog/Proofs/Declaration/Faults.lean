import BuiltinCatalog.Proofs.Declaration.Append
import Mathlib.Order.Bounds.Basic

namespace BuiltinCatalog

open Braces

namespace Text

theorem ofString_injective {s s' : String} (h : ofString s = ofString s') : s = s' := by
  have hglyphs : (s.toList.map Glyph.char) = s'.toList.map Glyph.char := by
    rw [← glyphs_ofChars, ← glyphs_ofChars]
    exact congrArg glyphs h
  have hinj : Function.Injective Glyph.char := fun _ _ => Glyph.char.inj
  exact String.ext (hinj.list_map hglyphs)

theorem ofNat_injective {m n : Nat} (h : ofNat m = ofNat n) : m = n := by
  have hrepr := congrArg (fun s => Nat.ofDigitChars 10 s.toList 0) (ofString_injective h)
  simpa only [Nat.toList_repr, Nat.ofDigitChars_ten_toDigits] using hrepr

end Text

namespace Fault

theorem msg_unbalanced_injective {d depth : Nat} (h : msg (.unbalanced d) = msg (.unbalanced depth)) :
    d = depth := by
  rw [msg, msg, List.append_left_inj, List.append_right_inj] at h
  exact Text.ofNat_injective h

end Fault

namespace Braces

variable {t inner : Text} {opening stop n depth : Nat}

/-- As many braces are closed as opened between two offsets. -/
def Evens (t : Text) (opening stop : Nat) : Prop :=
  opening < stop ∧ stop ≤ t.length ∧
    (Span.slice ⟨opening, stop⟩ t).count left = (Span.slice ⟨opening, stop⟩ t).count right

theorem drop_eq_cons (h : t[opening]? = some left) : t.drop opening = left :: t.drop (opening + 1) := by
  obtain ⟨hlt, hget⟩ := List.getElem?_eq_some_iff.1 h
  rw [List.drop_eq_getElem_cons hlt, hget]

theorem slice_eq_cons (h : t[opening]? = some left) (n : Nat) :
    Span.slice ⟨opening, opening + 1 + n⟩ t = left :: (t.drop (opening + 1)).take n := by
  have hlen : opening + 1 + n - opening = n + 1 := by omega
  rw [Span.slice, hlen, drop_eq_cons h, List.take_succ_cons]

theorem evens_iff (h : t[opening]? = some left) :
    Evens t opening stop ↔ ∃ n, stop = opening + 1 + n ∧ n ≤ (t.drop (opening + 1)).length ∧
      1 + ((t.drop (opening + 1)).take n).count left = ((t.drop (opening + 1)).take n).count right := by
  constructor
  · rintro ⟨hlt, hle, heven⟩
    obtain ⟨n, rfl⟩ : ∃ n, stop = opening + 1 + n := ⟨stop - (opening + 1), by omega⟩
    rw [slice_eq_cons h, List.count_cons_self, List.count_cons_of_ne left_ne_right] at heven
    refine ⟨n, rfl, ?_, by omega⟩
    rw [List.length_drop]
    omega
  · rintro ⟨n, rfl, hle, heven⟩
    rw [List.length_drop] at hle
    have hlt := (List.getElem?_eq_some_iff.1 h).1
    refine ⟨by omega, by omega, ?_⟩
    rw [slice_eq_cons h, List.count_cons_self, List.count_cons_of_ne left_ne_right]
    omega

theorem isLeast_of_closesAfter (h : t[opening]? = some left) (hc : ClosesAfter 1 (t.drop (opening + 1)) n) :
    IsLeast {stop | Evens t opening stop} (opening + 1 + n) := by
  refine ⟨(evens_iff h).2 ⟨n, rfl, hc.le, hc.closed⟩, fun stop hstop => ?_⟩
  obtain ⟨m, rfl, -, heven⟩ := (evens_iff h).1 hstop
  by_contra hlt
  have hopen := hc.open_before m (by omega)
  omega

theorem LeavesOpen.not_evens (h : t[opening]? = some left) (ho : LeavesOpen 1 (t.drop (opening + 1)) depth) :
    ¬ Evens t opening stop := by
  intro hstop
  obtain ⟨n, -, -, heven⟩ := (evens_iff h).1 hstop
  have hopen := ho.always _ (List.take_prefix n _)
  omega

/-- The partner of a brace ends the shortest stretch from it on with as many closing braces as opening ones. -/
theorem matchBrace_eq_ok_iff_isLeast (h : t[opening]? = some left) :
    matchBrace opening (t.drop (opening + 1)) = .ok stop ↔ IsLeast {stop | Evens t opening stop} stop := by
  constructor
  · intro hok
    obtain ⟨n, hcloses, rfl⟩ := matchBrace_eq_ok_iff.1 hok
    exact isLeast_of_closesAfter h hcloses
  · intro hstop
    cases hmatch : matchBrace opening (t.drop (opening + 1)) with
    | ok found =>
        obtain ⟨n, hcloses, rfl⟩ := matchBrace_eq_ok_iff.1 hmatch
        exact congrArg Except.ok ((isLeast_of_closesAfter h hcloses).unique hstop)
    | error e =>
        obtain ⟨depth, hopen, -⟩ := matchBrace_eq_error_iff.1 hmatch
        exact absurd hstop.1 (hopen.not_evens h)

/-- Some brace is open from an offset on, and `d` of them are at the end of the text. -/
structure StaysOpen (t : Text) (opening d : Nat) : Prop where
  opens : t[opening]? = some left
  ahead : ∀ u, u <+: t.drop opening → u ≠ [] → u.count right < u.count left
  pos : 1 ≤ d
  atEnd : d + (t.drop opening).count right = (t.drop opening).count left

theorem staysOpen_of_leavesOpen (h : t[opening]? = some left) (ho : LeavesOpen 1 (t.drop (opening + 1)) depth) :
    StaysOpen t opening depth := by
  have hall := ho.always _ List.prefix_rfl
  have hend := ho.atEnd
  refine ⟨h, fun u hu hne => ?_, by omega, ?_⟩
  · obtain ⟨b, v, rfl⟩ := List.exists_cons_of_ne_nil hne
    rw [drop_eq_cons h] at hu
    obtain ⟨rfl, hv⟩ := List.cons_prefix_cons.1 hu
    have hahead := ho.always v hv
    rw [List.count_cons_self, List.count_cons_of_ne left_ne_right]
    omega
  · rw [drop_eq_cons h, List.count_cons_self, List.count_cons_of_ne left_ne_right]
    omega

theorem StaysOpen.lt_length {d : Nat} (h : StaysOpen t opening d) : opening < t.length :=
  (List.getElem?_eq_some_iff.1 h.opens).1

end Braces

namespace FoundHead

variable {t : Text} {f : FoundHead} {e : ParseError}

theorem IsIn.drop_gap (hf : f.IsIn t) {gap inner : Text} (ha : f.after = gap ++ left :: inner) :
    t.drop (f.stop + gap.length) = left :: inner := by
  rw [← List.drop_drop, ← hf.after, ha, List.drop_left]

end FoundHead

namespace Declaration

/-- The head at an offset has no body: no brace follows it. -/
def LacksBody (n : Text) (offset : Nat) : Prop := ∃ hd, Head.At n offset hd ∧ left ∉ n.drop (offset + hd.text.length)

theorem LacksBody.lt_length {n : Text} {offset : Nat} (h : LacksBody n offset) : offset < n.length := by
  obtain ⟨hd, hat, -⟩ := h
  have hle := hat.lt_length
  have hpos := hd.length_text_pos
  omega

theorem spansIn_of_scan_error {t : Text} {e : ParseError} (h : scan t = .error e) :
    spansIn (Comment.normalize t) = .error e := by
  rcases bind_eq_error.1 h with hs | ⟨_, _, hs⟩
  · exact hs
  · cases hs

theorem fault_cases {n : Text} {e : ParseError} (h : spansIn n = .error e) :
    (∃ hd offset, e = { fault := .noBody hd, offset := some offset } ∧ LacksBody n offset) ∨
      ∃ d offset, e = { fault := .unbalanced d, offset := some offset } ∧ StaysOpen n offset d ∧
        matchBrace offset (n.drop (offset + 1)) = .error e := by
  obtain ⟨f, hf, -, hstop⟩ := FoundHead.exists_of_spans_error h
  have hin := ((FoundHead.all_spec n).mem hf).2
  rcases FoundHead.bodyStop_eq_error hstop with ⟨hnone, rfl⟩ | ⟨gap, inner, d, ha, hg, hopen, rfl⟩
  · refine Or.inl ⟨_, _, rfl, f.head, hin.head, ?_⟩
    have hafter := hin.after
    rw [FoundHead.stop] at hafter
    rwa [← hafter]
  · have hdrop := hin.drop_gap ha
    have hget : n[f.stop + gap.length]? = some left := by
      rw [← Nat.add_zero (f.stop + gap.length), ← List.getElem?_drop, hdrop]
      rfl
    have hinner : n.drop (f.stop + gap.length + 1) = inner := by
      rw [← List.drop_drop, hdrop]
      rfl
    rw [← hinner] at hopen
    exact Or.inr ⟨d, _, rfl, staysOpen_of_leavesOpen hget hopen, matchBrace_eq_error_iff.2 ⟨d, hopen, rfl⟩⟩

/-- A failed scan reports an offset in the normalized text and one of two messages. Either the head at this offset
is followed by no brace, or the brace there is never closed and so many are open at the end. A brace of the text has
a partner exactly where the braces from it on first even out. -/
theorem scan_fault (t : Text) :
    let n := Comment.normalize t
    (∀ e, scan t = .error e → e.diagnostic.kind = "braces" ∧ ∃ offset < n.length, e.offset = some offset ∧
      (Text.ofString "no body found for " <+: e.diagnostic.msg ∨
        ∃ d, e.diagnostic.msg = "unbalanced braces: " ++ Text.ofNat d ++ " left open at end of input") ∧
      (Text.ofString "no body found for " <+: e.diagnostic.msg → LacksBody n offset) ∧
      (∀ d, e.diagnostic.msg = "unbalanced braces: " ++ Text.ofNat d ++ " left open at end of input" →
        StaysOpen n offset d ∧ matchBrace offset (n.drop (offset + 1)) = .error e)) ∧
    ∀ opening, n[opening]? = some left → ∀ stop,
      matchBrace opening (n.drop (opening + 1)) = .ok stop ↔ IsLeast {stop | Evens n opening stop} stop := by
  intro n
  refine ⟨fun e he => ?_, fun opening hopen stop => matchBrace_eq_ok_iff_isLeast hopen⟩
  rcases fault_cases (spansIn_of_scan_error he) with ⟨hd, offset, rfl, hlacks⟩ | ⟨d, offset, rfl, hopen, hpartner⟩
  · refine ⟨rfl, offset, hlacks.lt_length, rfl, Or.inl (List.prefix_append _ _), fun _ => hlacks, fun d hd => ?_⟩
    cases (List.cons.inj hd).1
  · refine ⟨rfl, offset, hopen.lt_length, rfl, Or.inr ⟨d, rfl⟩, fun hnone => ?_, fun depth hdepth => ?_⟩
    · cases (List.cons_prefix_cons.1 hnone).1
    · obtain rfl : d = depth := Fault.msg_unbalanced_injective hdepth
      exact ⟨hopen, hpartner⟩

theorem scan_fault_commented :
    ∃ t e, t = Text.ofString "function f() \x7b \x7b \x7d /* \x7d */" ∧ scan t = .error e ∧
      e.diagnostic.msg = Text.ofString "unbalanced braces: 1 left open at end of input" ∧ e.offset = some 13 ∧
      StaysOpen (Comment.normalize t) 13 1 ∧ (Comment.normalize t)[15]? = some left ∧
      IsLeast {stop | Evens (Comment.normalize t) 15 stop} 18 := by
  have hscan : scan "function f() \x7b \x7b \x7d /* \x7d */" =
      .error { fault := .unbalanced 1, offset := some 13 } := by decide +kernel
  have hget : (Comment.normalize "function f() \x7b \x7b \x7d /* \x7d */")[15]? = some left := by decide +kernel
  obtain ⟨hfail, hpartner⟩ := scan_fault "function f() \x7b \x7b \x7d /* \x7d */"
  obtain ⟨-, offset, -, hoffset, -, -, hopen⟩ := hfail _ hscan
  obtain rfl := Option.some.inj hoffset
  exact ⟨_, _, rfl, hscan, by decide, rfl, (hopen 1 rfl).1, hget, (hpartner 15 hget 18).1 (by decide +kernel)⟩

end Declaration

end BuiltinCatalog
