import BuiltinCatalog.Proofs.Declaration.Scan
import BuiltinCatalog.Proofs.Except

namespace BuiltinCatalog

open Braces

namespace Braces

variable {depth d n : Nat} {t : Text}

theorem ClosesAfter.append (h : ClosesAfter depth t n) (w : Text) : ClosesAfter depth (t ++ w) n where
  le := by
    have hle := h.le
    rw [List.length_append]
    omega
  closed := by
    rw [List.take_append_of_le_length h.le]
    exact h.closed
  open_before m hm := by
    rw [List.take_append_of_le_length (Nat.le_of_lt (Nat.lt_of_lt_of_le hm h.le))]
    exact h.open_before m hm

theorem LeavesOpen.append_iff (h : LeavesOpen depth t n) (w : Text) :
    LeavesOpen depth (t ++ w) d ↔ LeavesOpen n w d := by
  have hend := h.atEnd
  constructor
  · rintro ⟨ha, he⟩
    rw [List.count_append, List.count_append] at he
    refine ⟨fun u hu => ?_, by omega⟩
    have htu := ha (t ++ u) ((List.prefix_append_right_inj t).2 hu)
    rw [List.count_append, List.count_append] at htu
    omega
  · rintro ⟨ha, he⟩
    refine ⟨fun u hu => ?_, by rw [List.count_append, List.count_append]; omega⟩
    rcases List.prefix_or_prefix_of_prefix hu (List.prefix_append t w) with hu' | ⟨v, rfl⟩
    · exact h.always u hu'
    · have hv := ha v ((List.prefix_append_right_inj t).1 hu)
      rw [List.count_append, List.count_append]
      omega

end Braces

/-- What follows a faulty text leaves the fault as it is: it opens no body, or it has as many braces left open
at its end as at its start, and some all the way. -/
def Fault.Outlasts (w : Text) : Fault → Prop
  | .noBody _ => left ∉ w
  | .unbalanced depth => LeavesOpen depth w depth
  | _ => True

/-- A head that only a longer text completes leaves no closing parenthesis before its end. -/
theorem Head.not_mem_of_append {t w rest : Text} {hd : Head} (h : next? t = none)
    (hl : next? (t ++ w) = some (hd, rest)) : t.length < hd.text.length ∧ ')'.toUInt8 ∉ t := by
  obtain ⟨hw, ht⟩ := next?_eq_some_iff.1 hl
  have hlong : ¬ hd.text <+: t := by
    rintro ⟨v, hv⟩
    cases h.symm.trans (next?_eq_some_iff.2 ⟨hw, hv.symm⟩)
  have hshort : t <+: hd.text :=
    (List.prefix_or_prefix_of_prefix (List.prefix_append t w) ⟨rest, ht.symm⟩).resolve_right hlong
  have htext : hd.text = (hd.opening.text ++ hd.list) ++ [')'.toUInt8] := by
    simp only [Head.text, List.append_assoc]
    rfl
  have hinside : t <+: hd.opening.text ++ hd.list := by
    rw [htext] at hshort
    refine (List.prefix_concat_iff.1 hshort).resolve_left fun heq => hlong ?_
    rw [heq, htext]
  refine ⟨?_, fun hm => hw.not_mem (hinside.subset hm)⟩
  rw [Head.At.length_text]
  exact Nat.lt_succ_of_le hinside.length_le

namespace FoundHead

variable {f : FoundHead} {fs gs : List FoundHead} {out : List Span} {pos reached : Nat}

def extend (w : Text) (f : FoundHead) : FoundHead := { f with after := f.after ++ w }

theorem stop_extend (w : Text) (f : FoundHead) : (f.extend w).stop = f.stop := rfl

theorem after_extend {gap inner : Text} (h : f.after = gap ++ left :: inner) (w : Text) :
    (f.extend w).after = gap ++ left :: (inner ++ w) := by
  rw [extend, h, List.append_assoc, List.cons_append]

theorem start_of_mem_all {boundary : Bool} {t : Text} (h : f ∈ all boundary pos t) : pos ≤ f.start := by
  fun_induction all boundary pos t with
  | case1 => simp at h
  | case2 boundary pos b rest head after _ ih =>
      rcases List.mem_cons.1 h with rfl | h
      · exact Nat.le_refl _
      · exact Nat.le_of_add_right_le (ih h)
  | case3 boundary pos b rest _ ih => exact Nat.le_of_succ_le (ih h)

theorem all_eq_nil {boundary : Bool} {t : Text} (h : ')'.toUInt8 ∉ t) : all boundary pos t = [] := by
  fun_induction all boundary pos t with
  | case1 => rfl
  | case2 boundary pos b rest head after hnext ih =>
      split at hnext
      next =>
        obtain ⟨u, hu⟩ := head.text_eq_concat
        rw [Head.next?_append hnext, hu] at h
        simp at h
      next => cases hnext
  | case3 boundary pos b rest _ ih => exact ih fun hm => h (List.mem_cons_of_mem b hm)

/-- The finds in a text are found in a longer one, too, and then only such as end further on. -/
theorem all_append (boundary : Bool) (pos : Nat) (t w : Text) :
    ∃ gs, all boundary pos (t ++ w) = (all boundary pos t).map (extend w) ++ gs ∧
      ∀ g ∈ gs, pos + t.length < g.stop := by
  have hstop {g : FoundHead} {boundary : Bool} {pos : Nat} {t : Text} (h : g ∈ all boundary pos t) : pos < g.stop :=
    Nat.lt_of_le_of_lt (start_of_mem_all h) (Nat.lt_add_of_pos_right g.head.length_text_pos)
  fun_induction all boundary pos t with
  | case1 boundary pos => exact ⟨_, rfl, fun g hg => hstop hg⟩
  | case2 boundary pos b rest head after hnext ih =>
      split at hnext
      next hboundary =>
        obtain ⟨hw, ht⟩ := Head.next?_eq_some_iff.1 hnext
        obtain ⟨gs, hgs, hend⟩ := ih
        have hlong : Head.next? (b :: rest ++ w) = some (head, after ++ w) :=
          Head.next?_eq_some_iff.2 ⟨hw, by rw [ht, List.append_assoc]⟩
        subst hboundary
        refine ⟨gs, ?_, fun g hg => ?_⟩
        · rw [all_of_next? hlong, hgs]
          rfl
        · have hg' := hend g hg
          rw [ht, List.length_append]
          omega
      next => cases hnext
  | case3 boundary pos b rest hnext ih =>
      cases hlong : if boundary then Head.next? (b :: rest ++ w) else none with
      | none =>
          obtain ⟨gs, hgs, hend⟩ := ih
          refine ⟨gs, ?_, fun g hg => ?_⟩
          · rw [List.cons_append, all]
            split
            next he => cases hlong.symm.trans he
            next => exact hgs
          · have hg' := hend g hg
            rw [List.length_cons]
            omega
      | some found =>
          obtain ⟨head, after⟩ := found
          split at hlong
          next hboundary =>
            subst hboundary
            obtain ⟨hlen, hparen⟩ := Head.not_mem_of_append hnext hlong
            have hnone : all (!Text.isWord b) (pos + 1) rest = [] :=
              all_eq_nil fun hm => hparen (List.mem_cons_of_mem b hm)
            refine ⟨_, by rw [hnone, List.map_nil, List.nil_append], fun g hg => ?_⟩
            rw [all_of_next? hlong] at hg
            rcases List.mem_cons.1 hg with rfl | hg
            · exact Nat.add_lt_add_left hlen pos
            · have hg' := hstop hg
              omega
          next => cases hlong

theorem start_lt_bodyStop {stop : Nat} (h : f.bodyStop = .ok stop) : f.start < stop := by
  obtain ⟨_, _, n, _, _, _, rfl⟩ := bodyStop_eq_ok_iff.1 h
  have hpos := f.head.length_text_pos
  rw [FoundHead.stop]
  omega

theorem bodyStop_extend_of_ok {stop : Nat} (h : f.bodyStop = .ok stop) (w : Text) :
    (f.extend w).bodyStop = .ok stop := by
  obtain ⟨gap, inner, n, ha, hg, hc, hstop⟩ := bodyStop_eq_ok_iff.1 h
  exact bodyStop_eq_ok_iff.2 ⟨gap, inner ++ w, n, after_extend ha w, hg, hc.append w, hstop⟩

theorem bodyStop_extend_of_error {e : ParseError} (h : f.bodyStop = .error e) (w : Text) :
    (f.extend w).bodyStop = .error e ↔ e.fault.Outlasts w := by
  rcases bodyStop_eq_error h with ⟨hnone, rfl⟩ | ⟨gap, inner, depth, ha, hg, hopen, rfl⟩
  · constructor
    · intro hlong hm
      obtain ⟨g, inner, hw, hg⟩ := List.eq_append_cons_of_mem hm
      have ha : (f.extend w).after = (f.after ++ g) ++ left :: inner := by rw [extend, hw, List.append_assoc]
      have hgap : left ∉ f.after ++ g := fun hm => (List.mem_append.1 hm).elim hnone hg
      rw [bodyStop_of_split ha hgap] at hlong
      obtain ⟨depth, -, hfault⟩ := matchBrace_eq_error_iff.1 hlong
      cases hfault
    · intro hw
      exact bodyStop_of_not_mem (f := f.extend w) fun hm => (List.mem_append.1 hm).elim hnone hw
  · rw [bodyStop_of_split (after_extend ha w) hg, Fault.Outlasts, ← hopen.append_iff w, stop_extend,
      matchBrace_eq_error_iff]
    simp

/-- A fault lies no earlier than its head, and before the body that what follows may complete. -/
theorem offset_of_bodyStop {e : ParseError} (h : f.bodyStop = .error e) (w : Text) :
    ∃ o, e.offset = some o ∧ f.start ≤ o ∧ ∀ stop, (f.extend w).bodyStop = .ok stop → o < stop := by
  have hstop : f.start ≤ f.stop := Nat.le_add_right ..
  rcases bodyStop_eq_error h with ⟨-, rfl⟩ | ⟨gap, inner, depth, ha, hg, -, rfl⟩
  · refine ⟨f.start, rfl, Nat.le_refl _, fun stop hs => ?_⟩
    obtain ⟨_, _, n, _, _, _, rfl⟩ := bodyStop_eq_ok_iff.1 hs
    rw [stop_extend]
    omega
  · refine ⟨f.stop + gap.length, rfl, by omega, fun stop hs => ?_⟩
    rw [bodyStop_of_split (after_extend ha w) hg, stop_extend] at hs
    obtain ⟨n, -, rfl⟩ := matchBrace_eq_ok_iff.1 hs
    omega

theorem spans_eq_nil_iff : spans reached gs = .ok [] ↔ ∀ g ∈ gs, g.start < reached := by
  induction gs with
  | nil => simp [spans]
  | cons g gs ih => simp [spans_cons_eq_ok_iff, ih]

theorem spans_extend_of_ok (h : spans reached fs = .ok out) (w : Text) (gs : List FoundHead) :
    ∃ r, spans reached (fs.map (extend w) ++ gs) = (spans r gs).map (out ++ ·) ∧
      ∀ p, p < r ↔ p < reached ∨ ∃ s ∈ out, p < s.stop := by
  induction fs generalizing reached out with
  | nil =>
      obtain rfl := Except.ok.inj h
      refine ⟨reached, ?_, by simp⟩
      cases hgs : spans reached gs <;> simp [hgs, Except.map]
  | cons f fs ih =>
      rw [List.map_cons, List.cons_append, spans]
      rcases spans_cons_eq_ok_iff.1 h with ⟨hlt, h⟩ | ⟨hle, stop, more, hstop, hmore, rfl⟩
      · rw [if_pos (show (f.extend w).start < reached from hlt)]
        exact ih h
      · obtain ⟨r, hr, hreach⟩ := ih hmore
        refine ⟨r, ?_, fun p => ?_⟩
        · rw [if_neg (show ¬ (f.extend w).start < reached from Nat.not_lt.2 hle), bodyStop_extend_of_ok hstop]
          simp only [bind, Except.bind, hr]
          cases spans r gs <;> simp [Except.map, pure, Except.pure, extend]
        · have hlt := start_lt_bodyStop hstop
          simp only [hreach, List.exists_mem_cons_iff]
          constructor
          · exact Or.inr
          · rintro (hp | hp)
            · exact Or.inl (by omega)
            · exact hp

theorem exists_of_spans_error {e : ParseError} (h : spans reached fs = .error e) :
    ∃ f ∈ fs, reached ≤ f.start ∧ f.bodyStop = .error e := by
  induction fs generalizing reached with
  | nil => cases h
  | cons f fs ih =>
      rw [spans] at h
      split at h
      next =>
        obtain ⟨g, hg, hle, hstop⟩ := ih h
        exact ⟨g, List.mem_cons_of_mem f hg, hle, hstop⟩
      next hle =>
        rcases bind_eq_error.1 h with hstop | ⟨stop, hstop, hmore⟩
        · exact ⟨f, List.mem_cons_self, Nat.not_lt.1 hle, hstop⟩
        · rcases bind_eq_error.1 hmore with hmore | ⟨more, -, hmore⟩
          · obtain ⟨g, hg, hge, hgs⟩ := ih hmore
            have hlt := start_lt_bodyStop hstop
            exact ⟨g, List.mem_cons_of_mem f hg, by omega, hgs⟩
          · cases hmore

/-- A faulty text stays so for the same reason only if what follows leaves the fault as it is. -/
theorem spans_extend_of_error {e : ParseError} (h : spans reached fs = .error e) (w : Text) (gs : List FoundHead) :
    spans reached (fs.map (extend w) ++ gs) = .error e ↔ e.fault.Outlasts w := by
  induction fs generalizing reached with
  | nil => cases h
  | cons f fs ih =>
      rw [spans] at h
      rw [List.map_cons, List.cons_append, spans]
      split at h
      next hlt =>
        rw [if_pos (show (f.extend w).start < reached from hlt)]
        exact ih h
      next hle =>
        rw [if_neg (show ¬ (f.extend w).start < reached from hle)]
        rcases bind_eq_error.1 h with hstop | ⟨stop, hstop, hmore⟩
        · rw [← bodyStop_extend_of_error hstop w, bind_eq_error]
          constructor
          · -- a body that is complete now ends after the fault, and so does every later fault
            rintro (hlong | ⟨stop, hlong, hmore⟩)
            · exact hlong
            · obtain ⟨o, ho, -, hlt⟩ := offset_of_bodyStop hstop w
              have ho' := hlt stop hlong
              rcases bind_eq_error.1 hmore with hmore | ⟨more, -, hmore⟩
              · obtain ⟨g, -, hge, hg⟩ := exists_of_spans_error hmore
                obtain ⟨o', hoff, hgo, -⟩ := offset_of_bodyStop hg []
                obtain rfl := Option.some.inj (ho.symm.trans hoff)
                omega
              · cases hmore
          · exact Or.inl
        · rcases bind_eq_error.1 hmore with hmore | ⟨more, -, hmore⟩
          · rw [bodyStop_extend_of_ok hstop, ← ih hmore]
            simp only [bind, Except.bind]
            cases spans stop (fs.map (extend w) ++ gs) <;> simp [pure, Except.pure]
          · cases hmore

end FoundHead

theorem Span.slice_append {s : Span} {t : Text} (h : s.start ≤ s.stop) (hs : s.stop ≤ t.length) (w : Text) :
    s.slice (t ++ w) = s.slice t := by
  rw [slice, slice, List.drop_append_of_le_length (h.trans hs), List.take_append_of_le_length]
  rw [List.length_drop]
  omega

namespace Declaration

variable {t u w : Text}

theorem fragments_eq_map (t : Text) :
    fragments t = (spansIn (Comment.normalize t)).map fun spans =>
      spans.map fun s => s.slice (Comment.normalize t) := by
  cases hs : spansIn (Comment.normalize t) with
  | ok spans => exact fragments_of_scan (scan_eq_ok_iff.2 ⟨rfl, hs⟩)
  | error e =>
      have hscan : scan t = .error e := by
        simp only [scan, hs, bind, Except.bind]
      simp only [fragments, hscan, bind, Except.bind, Except.map]

/-- What follows a normalized text has no bearing on its scan. Each head that ends there starts before the end
of a body, and a fault stays as it is. -/
def AddsNothing (normalized w : Text) : Prop :=
  match spansIn normalized with
  | .ok spans =>
    ∀ f ∈ FoundHead.all true 0 (normalized ++ w), normalized.length < f.stop → ∃ s ∈ spans, f.start < s.stop
  | .error e => e.fault.Outlasts w

theorem addsNothing_iff_of_error {n : Text} {e : ParseError} (h : spansIn n = .error e) :
    AddsNothing n w ↔ spansIn (n ++ w) = .error e := by
  obtain ⟨gs, hall, -⟩ := FoundHead.all_append true 0 n w
  have hadds : AddsNothing n w ↔ e.fault.Outlasts w := by rw [AddsNothing, h]
  rw [hadds, spansIn, hall, FoundHead.spans_extend_of_error h w gs]

theorem spansIn_append_of_ok {n : Text} {out : List Span} (h : spansIn n = .ok out) (w : Text) :
    ∃ more, spansIn (n ++ w) = Except.map (out ++ ·) more ∧ (AddsNothing n w ↔ more = .ok []) := by
  obtain ⟨gs, hall, hend⟩ := FoundHead.all_append true 0 n w
  obtain ⟨r, hr, hreach⟩ := FoundHead.spans_extend_of_ok h w gs
  refine ⟨_, by rw [spansIn, hall, hr], ?_⟩
  rw [AddsNothing, h, FoundHead.spans_eq_nil_iff, hall]
  have hiff (g : FoundHead) : g.start < r ↔ ∃ s ∈ out, g.start < s.stop := by simp [hreach]
  constructor
  · intro hadds g hg
    exact (hiff g).2 (hadds g (List.mem_append_right _ hg) (by simpa using hend g hg))
  · intro hstart f hf hlt
    rcases List.mem_append.1 hf with hf | hf
    · -- the finds of the shorter text end in it
      obtain ⟨g, hg, rfl⟩ := List.mem_map.1 hf
      have hle := ((FoundHead.all_spec n).mem hg).2.head.lt_length
      rw [FoundHead.stop_extend, FoundHead.stop] at hlt
      omega
    · exact (hiff f).1 (hstart f hf)

/-- The fragments of a text do not change exactly if what follows its normalized form adds nothing. -/
theorem fragments_eq_iff (h : Comment.normalize t = Comment.normalize u ++ w) :
    fragments t = fragments u ↔ AddsNothing (Comment.normalize u) w := by
  rw [fragments_eq_map t, fragments_eq_map u, h]
  cases hs : spansIn (Comment.normalize u) with
  | error e =>
      rw [addsNothing_iff_of_error hs]
      cases spansIn (Comment.normalize u ++ w) <;> simp [Except.map]
  | ok out =>
      obtain ⟨more, hmore, hiff⟩ := spansIn_append_of_ok hs w
      have hslice : out.map (fun s => s.slice (Comment.normalize u ++ w)) =
          out.map fun s => s.slice (Comment.normalize u) := by
        refine List.map_congr_left fun s hm => ?_
        obtain ⟨hd, gap, body, hdecl⟩ := scan_declares (scan_eq_ok_iff.2 ⟨rfl, hs⟩) hm
        exact Span.slice_append (Nat.le_of_lt hdecl.start_lt_stop) hdecl.le w
      rw [hiff, hmore]
      cases more with
      | error e => simp [Except.map]
      | ok more =>
          simp only [Except.map, List.map_append, hslice, Except.ok.injEq]
          simp

theorem addsNothing_of_plain (n : Text) (hl : left ∉ w) (hr : right ∉ w) (hp : ')'.toUInt8 ∉ w) :
    AddsNothing n w := by
  rw [AddsNothing]
  split
  next spans hs =>
    intro f hf hlt
    -- a head ends with a closing parenthesis
    have hlast := ((FoundHead.all_spec (n ++ w)).mem hf).2.head.getElem?_last
    rw [FoundHead.stop, Head.At.length_text] at hlt
    rw [List.getElem?_append_right (by omega)] at hlast
    exact absurd (List.mem_of_getElem? hlast) hp
  next e he =>
    obtain ⟨f, -, -, hf⟩ := FoundHead.exists_of_spans_error he
    rcases FoundHead.bodyStop_eq_error hf with ⟨-, rfl⟩ | ⟨gap, inner, depth, -, -, hopen, rfl⟩
    · exact hl
    · have hall := hopen.always inner List.prefix_rfl
      have hend := hopen.atEnd
      refine ⟨fun u hu => ?_, by rw [List.count_eq_zero.2 hl, List.count_eq_zero.2 hr]⟩
      rw [List.count_eq_zero.2 fun hm => hr (hu.subset hm)]
      omega

end Declaration

end BuiltinCatalog
