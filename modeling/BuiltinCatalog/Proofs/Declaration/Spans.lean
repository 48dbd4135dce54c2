import BuiltinCatalog.Proofs.Declaration.Heads
import BuiltinCatalog.Proofs.Text.Trim

namespace BuiltinCatalog

namespace Braces

def left : Byte := '{'.toUInt8

def right : Byte := '}'.toUInt8

/-- The least number of bytes after which `depth` more braces have been closed than opened. -/
structure ClosesAfter (depth : Nat) (t : Text) (n : Nat) : Prop where
  le : n ≤ t.length
  closed : depth + (t.take n).count left = (t.take n).count right
  open_before : ∀ m < n, (t.take m).count right < depth + (t.take m).count left

theorem map_succ_eq_ok {x : Except Nat Nat} {n : Nat} :
    x.map (· + 1) = .ok n ↔ ∃ k, n = k + 1 ∧ x = .ok k := by
  cases x <;> simp [Except.map, eq_comm]

theorem closesAfter_cons {b : Byte} {t : Text} {depth n : Nat} (depth' : Nat) (hd : 1 ≤ depth)
    (hb : ∀ u : Text, depth + (b :: u).count left + u.count right =
      depth' + u.count left + (b :: u).count right) :
    ClosesAfter depth (b :: t) n ↔ ∃ k, n = k + 1 ∧ ClosesAfter depth' t k := by
  constructor
  · rintro ⟨hl, hc, ho⟩
    cases n with
    | zero => simp at hc; omega
    | succ k =>
        have hk := hb (t.take k)
        refine ⟨k, rfl, by simpa using hl, ?_, fun m hm => ?_⟩
        · rw [List.take_succ_cons] at hc
          omega
        · have hm' := hb (t.take m)
          have h := ho (m + 1) (by omega)
          rw [List.take_succ_cons] at h
          omega
  · rintro ⟨k, rfl, hl, hc, ho⟩
    have hk := hb (t.take k)
    refine ⟨by simpa using hl, ?_, fun m hm => ?_⟩
    · rw [List.take_succ_cons]
      omega
    · cases m with
      | zero =>
          simp only [List.take_zero, List.count_nil, Nat.add_zero]
          exact hd
      | succ m =>
          have hm' := hb (t.take m)
          have h := ho m (by omega)
          rw [List.take_succ_cons]
          omega

theorem left_ne_right : left ≠ right := by decide

theorem closesAfter_one_right {t : Text} {n : Nat} : ClosesAfter 1 (right :: t) n ↔ n = 1 := by
  constructor
  · rintro ⟨hl, hc, ho⟩
    cases n with
    | zero => simp at hc
    | succ k =>
        cases k with
        | zero => rfl
        | succ k =>
            have h := ho 1 (by omega)
            simp [left_ne_right.symm] at h
  · rintro rfl
    refine ⟨by simp, by simp [left_ne_right.symm], fun m hm => ?_⟩
    obtain rfl : m = 0 := by omega
    simp

/-- A byte closes the last open brace, or it moves the depth as it moves the two counts. -/
theorem close_cons (b : Byte) (t : Text) {depth : Nat} (hd : 1 ≤ depth) :
    (b = right ∧ depth = 1 ∧ close depth (b :: t) = .ok 1) ∨
      ∃ depth', 1 ≤ depth' ∧ close depth (b :: t) = (close depth' t).map (· + 1) ∧
        ∀ u : Text, depth + (b :: u).count left + u.count right = depth' + u.count left + (b :: u).count right := by
  rw [close]
  split
  next hb =>
    obtain rfl : b = left := hb
    refine Or.inr ⟨depth + 1, Nat.le_add_left 1 depth, rfl, fun u => ?_⟩
    simp [left_ne_right]
    omega
  next hb =>
    split
    next hr =>
      obtain rfl : b = right := hr
      split
      next h1 => exact Or.inl ⟨rfl, by omega, rfl⟩
      next h1 =>
        refine Or.inr ⟨depth - 1, by omega, rfl, fun u => ?_⟩
        simp [left_ne_right.symm]
        omega
    next hr =>
      refine Or.inr ⟨depth, hd, rfl, fun u => ?_⟩
      rw [List.count_cons_of_ne (show b ≠ left from hb), List.count_cons_of_ne (show b ≠ right from hr)]

/-- The search for the closing brace ends at the first place where all braces are closed. -/
theorem close_eq_ok_iff {depth n : Nat} {t : Text} (hd : 1 ≤ depth) :
    close depth t = .ok n ↔ ClosesAfter depth t n := by
  induction t generalizing depth n with
  | nil =>
      constructor
      · intro h
        cases h
      · rintro ⟨hl, hc, _⟩
        simp at hc
        omega
  | cons b t ih =>
      rcases close_cons b t hd with ⟨rfl, rfl, h⟩ | ⟨depth', hd', h, hb⟩
      · rw [h, closesAfter_one_right]
        simp [eq_comm]
      · rw [h, map_succ_eq_ok, closesAfter_cons depth' hd hb]
        simp only [ih hd']

/-- The text never closes all braces, and so many are open at its end. -/
structure LeavesOpen (depth : Nat) (t : Text) (d : Nat) : Prop where
  always : ∀ u, u <+: t → u.count right < depth + u.count left
  atEnd : d + t.count right = depth + t.count left

theorem leavesOpen_cons {b : Byte} {t : Text} {depth d : Nat} (depth' : Nat) (hd : 1 ≤ depth)
    (hb : ∀ u : Text, depth + (b :: u).count left + u.count right =
      depth' + u.count left + (b :: u).count right) :
    LeavesOpen depth (b :: t) d ↔ LeavesOpen depth' t d := by
  have hend := hb t
  constructor
  · rintro ⟨ha, he⟩
    refine ⟨fun u hu => ?_, by omega⟩
    have h := ha (b :: u) (List.cons_prefix_cons.2 ⟨rfl, hu⟩)
    have hu' := hb u
    omega
  · rintro ⟨ha, he⟩
    refine ⟨fun u hu => ?_, by omega⟩
    rcases List.prefix_cons_iff.1 hu with rfl | ⟨v, rfl, hv⟩
    · simp only [List.count_nil, Nat.add_zero]
      exact hd
    · have h := ha v hv
      have hv' := hb v
      omega

/-- The search fails if the end of the text comes first, with the number of braces that are still open. -/
theorem close_eq_error_iff {depth d : Nat} {t : Text} (hd : 1 ≤ depth) :
    close depth t = .error d ↔ LeavesOpen depth t d := by
  induction t generalizing depth with
  | nil =>
      constructor
      · intro h
        obtain rfl := Except.error.inj h
        refine ⟨fun u hu => ?_, rfl⟩
        rw [List.prefix_nil.1 hu]
        exact hd
      · rintro ⟨-, he⟩
        rw [close, show depth = d from he.symm]
  | cons b t ih =>
      rcases close_cons b t hd with ⟨rfl, rfl, h⟩ | ⟨depth', hd', h, hb⟩
      · constructor
        · intro he
          cases h.symm.trans he
        · rintro ⟨ha, -⟩
          exact absurd (ha [right] (by simp)) (by decide)
      · rw [h, leavesOpen_cons depth' hd hb, ← ih hd']
        cases close depth' t <;> simp [Except.map]

/-- A body opens with a brace, and the brace that closes it is its last byte. -/
structure IsBody (body : Text) : Prop where
  opens : body.head? = some left
  closes : body.getLast? = some right
  balanced : body.count left = body.count right
  inside : ∀ u, u <+: body → u ≠ [] → u ≠ body → u.count right < u.count left

theorem ClosesAfter.getLast? {t : Text} {depth n : Nat} (hd : 1 ≤ depth) (h : ClosesAfter depth t n) :
    (t.take n).getLast? = some right := by
  obtain ⟨hl, hc, ho⟩ := h
  cases n with
  | zero => simp at hc; omega
  | succ k =>
      have hk := ho k (Nat.lt_succ_self k)
      have hget : t.take (k + 1) = t.take k ++ [t[k]] := (List.take_append_getElem hl).symm
      rw [hget, List.getLast?_concat]
      by_contra hne
      have hne' : t[k] ≠ right := fun h => hne (by rw [h])
      rw [hget, List.count_append, List.count_append, List.count_singleton, List.count_singleton] at hc
      simp [hne'] at hc
      omega

theorem isBody_of_closesAfter {t : Text} {n : Nat} (h : ClosesAfter 1 t n) :
    IsBody (left :: t.take n) where
  opens := rfl
  closes := by
    have hlast := h.getLast? (Nat.le_refl 1)
    rw [List.getLast?_cons, hlast]
    rfl
  balanced := by
    have hc := h.closed
    simp [left_ne_right]
    omega
  inside := by
    intro u hu hne hne'
    -- a proper prefix is the first brace and fewer than `n` bytes after it
    obtain ⟨v, rfl⟩ : ∃ v, u = left :: v := by
      cases u with
      | nil => exact absurd rfl hne
      | cons b v => exact ⟨v, by rw [(List.cons_prefix_cons.1 hu).1]⟩
    have hv : v <+: t.take n := (List.cons_prefix_cons.1 hu).2
    have hlt : v.length < n := by
      have hle := hv.length_le
      rw [List.length_take] at hle
      refine Nat.lt_of_le_of_ne (by omega) fun he => hne' ?_
      rw [hv.eq_of_length (by rw [List.length_take]; have := h.le; omega)]
    have htake : v = t.take v.length := List.prefix_iff_eq_take.1 (hv.trans (List.take_prefix n t))
    have ho := h.open_before v.length hlt
    rw [← htake] at ho
    simp [left_ne_right]
    omega

theorem matchBrace_eq_ok_iff {opening stop : Nat} {inner : Text} :
    matchBrace opening inner = .ok stop ↔ ∃ n, ClosesAfter 1 inner n ∧ stop = opening + 1 + n := by
  simp only [← close_eq_ok_iff (Nat.le_refl 1), matchBrace]
  cases close 1 inner <;> simp [eq_comm]

theorem matchBrace_eq_error_iff {opening : Nat} {inner : Text} {e : ParseError} :
    matchBrace opening inner = .error e ↔ ∃ depth, LeavesOpen 1 inner depth ∧
      e = { fault := .unbalanced depth, offset := some opening } := by
  simp only [← close_eq_error_iff (Nat.le_refl 1), matchBrace]
  cases close 1 inner <;> simp [eq_comm]

end Braces

namespace FoundHead

open Braces

theorem bodyStop_of_not_mem {f : FoundHead} (h : left ∉ f.after) :
    f.bodyStop = .error { fault := .noBody f.head.text, offset := some f.start } := by
  have hdrop : f.after.dropWhile (· != '{'.toUInt8) = [] := by
    rw [List.dropWhile_eq_nil_iff]
    exact fun b hb => bne_iff_ne.2 fun he : b = left => h (he ▸ hb)
  simp only [bodyStop, hdrop]

theorem bodyStop_of_split {f : FoundHead} {gap inner : Text} (ha : f.after = gap ++ left :: inner)
    (hg : left ∉ gap) : f.bodyStop = matchBrace (f.stop + gap.length) inner := by
  have hgap : ∀ b ∈ gap, (b != '{'.toUInt8) = true :=
    fun b hb => bne_iff_ne.2 fun he : b = left => hg (he ▸ hb)
  have hstop : ∀ b, (left :: inner).head? = some b → (b != '{'.toUInt8) = false := by
    rintro b ⟨⟩
    rfl
  have hdrop := Text.dropWhile_append_stop hgap hstop
  have htake := Text.takeWhile_append_stop hgap hstop
  simp only [bodyStop, ha, hdrop, htake]

theorem bodyStop_eq_ok_iff {f : FoundHead} {stop : Nat} :
    f.bodyStop = .ok stop ↔ ∃ gap inner n, f.after = gap ++ left :: inner ∧ left ∉ gap ∧
      ClosesAfter 1 inner n ∧ stop = f.stop + gap.length + 1 + n := by
  constructor
  · intro h
    by_cases hm : left ∈ f.after
    · obtain ⟨gap, inner, ha, hg⟩ := List.eq_append_cons_of_mem hm
      rw [bodyStop_of_split ha hg] at h
      obtain ⟨n, hclose, hstop⟩ := matchBrace_eq_ok_iff.1 h
      exact ⟨gap, inner, n, ha, hg, hclose, hstop⟩
    · rw [bodyStop_of_not_mem hm] at h
      cases h
  · rintro ⟨gap, inner, n, ha, hg, hc, rfl⟩
    rw [bodyStop_of_split ha hg]
    exact matchBrace_eq_ok_iff.2 ⟨n, hc, rfl⟩

theorem bodyStop_eq_error {f : FoundHead} {e : ParseError} (h : f.bodyStop = .error e) :
    (left ∉ f.after ∧ e = { fault := .noBody f.head.text, offset := some f.start }) ∨
      ∃ gap inner depth, f.after = gap ++ left :: inner ∧ left ∉ gap ∧ LeavesOpen 1 inner depth ∧
        e = { fault := .unbalanced depth, offset := some (f.stop + gap.length) } := by
  by_cases hm : left ∈ f.after
  · obtain ⟨gap, inner, ha, hg⟩ := List.eq_append_cons_of_mem hm
    rw [bodyStop_of_split ha hg] at h
    obtain ⟨depth, hopen, he⟩ := matchBrace_eq_error_iff.1 h
    exact Or.inr ⟨gap, inner, depth, ha, hg, hopen, he⟩
  · rw [bodyStop_of_not_mem hm] at h
    exact Or.inl ⟨hm, (Except.error.inj h).symm⟩

end FoundHead

namespace Span

open Braces

/-- A span holds a head, a body whose braces match, and between them nothing that opens a body. -/
structure Declares (t : Text) (s : Span) (hd : Head) (gap body : Text) : Prop where
  head : hd.At t s.start
  slice : s.slice t = hd.text ++ gap ++ body
  gap_free : left ∉ gap
  isBody : IsBody body
  length : s.stop = s.start + (hd.text ++ gap ++ body).length
  le : s.stop ≤ t.length

end Span

namespace FoundHead

open Braces

theorem declares {t : Text} {f : FoundHead} {stop : Nat} (hf : f.IsIn t) (h : f.bodyStop = .ok stop) :
    ∃ gap body, Span.Declares t ⟨f.start, stop⟩ f.head gap body := by
  obtain ⟨gap, inner, n, ha, hg, hc, hstop⟩ := bodyStop_eq_ok_iff.1 h
  have hbody : left :: inner = (left :: inner.take n) ++ inner.drop n := by simp
  have hdrop : t.drop f.start = f.head.text ++ gap ++ (left :: inner.take n) ++ inner.drop n := by
    obtain ⟨v, hv⟩ := hf.head.isPrefix
    have hv' : v = f.after := by
      rw [hf.after, FoundHead.stop, ← List.drop_drop, ← hv, List.drop_left]
    rw [← hv, hv', ha, hbody]
    simp
  have hlen : stop = f.start + (f.head.text ++ gap ++ (left :: inner.take n)).length := by
    have hle := hc.le
    rw [hstop, FoundHead.stop]
    simp
    omega
  refine ⟨gap, left :: inner.take n, hf.head, ?_, hg, isBody_of_closesAfter hc, hlen, ?_⟩
  · rw [Span.slice, hdrop, hlen, Nat.add_sub_cancel_left, List.take_left]
  · have hl := congrArg List.length hdrop
    have hpos := f.head.length_text_pos
    rw [List.length_drop, List.length_append] at hl
    rw [List.length_append, List.length_append] at hl hlen
    simp only
    omega

theorem spans_cons_eq_ok_iff {reached : Nat} {f : FoundHead} {fs : List FoundHead} {out : List Span} :
    spans reached (f :: fs) = .ok out ↔
      (f.start < reached ∧ spans reached fs = .ok out) ∨
      (reached ≤ f.start ∧ ∃ stop more, f.bodyStop = .ok stop ∧ spans stop fs = .ok more ∧
        out = ⟨f.start, stop⟩ :: more) := by
  rw [spans]
  split
  next h => simp [h, Nat.not_le.2 h]
  next h =>
    cases hs : f.bodyStop with
    | error e => simp [h, bind, Except.bind]
    | ok stop =>
        cases hm : spans stop fs with
        | error e => simp [h, bind, Except.bind, hm]
        | ok more => simp [h, bind, Except.bind, hm, pure, Except.pure, Nat.not_lt.1 h, eq_comm]

/-- Every span belongs to a find, and starts where the spans before it have stopped. -/
theorem mem_spans {t : Text} {pos reached : Nat} {fs : List FoundHead} {out : List Span}
    (hl : Leftmost t pos fs) (h : spans reached fs = .ok out) {s : Span} (hs : s ∈ out) :
    reached ≤ s.start ∧ ∃ f ∈ fs, f.start = s.start ∧ f.bodyStop = .ok s.stop := by
  induction hl generalizing reached out with
  | nil => cases h; simp at hs
  | @cons pos f fs le isIn first rest ih =>
      rcases spans_cons_eq_ok_iff.1 h with ⟨hlt, h⟩ | ⟨hle, stop, more, hstop, hmore, rfl⟩
      · obtain ⟨hr, g, hg, hd⟩ := ih h hs
        exact ⟨hr, g, by simp [hg], hd⟩
      · rcases List.mem_cons.1 hs with rfl | hs
        · exact ⟨hle, f, by simp, rfl, hstop⟩
        · obtain ⟨hr, g, hg, hd⟩ := ih hmore hs
          obtain ⟨gap, body, hdecl⟩ := declares isIn hstop
          have hlen := hdecl.length
          simp only at hlen
          exact ⟨by omega, g, by simp [hg], hd⟩

theorem spans_declare {t : Text} {pos reached : Nat} {fs : List FoundHead} {out : List Span}
    (hl : Leftmost t pos fs) (h : spans reached fs = .ok out) {s : Span} (hs : s ∈ out) :
    ∃ f ∈ fs, f.start = s.start ∧ ∃ gap body, s.Declares t f.head gap body := by
  obtain ⟨_, f, hf, hstart, hstop⟩ := mem_spans hl h hs
  obtain ⟨gap, body, hd⟩ := declares (hl.mem hf).2 hstop
  rw [hstart] at hd
  exact ⟨f, hf, hstart, gap, body, hd⟩

theorem spans_pairwise {t : Text} {pos reached : Nat} {fs : List FoundHead} {out : List Span}
    (hl : Leftmost t pos fs) (h : spans reached fs = .ok out) :
    out.Pairwise fun s u => s.stop ≤ u.start := by
  induction hl generalizing reached out with
  | nil => cases h; exact .nil
  | @cons pos f fs le isIn first rest ih =>
      rcases spans_cons_eq_ok_iff.1 h with ⟨hlt, h⟩ | ⟨hle, stop, more, hstop, hmore, rfl⟩
      · exact ih h
      · exact .cons (fun s hs => (mem_spans rest hmore hs).1) (ih hmore)

theorem exists_span {t : Text} {pos reached : Nat} {fs : List FoundHead} {out : List Span}
    (hl : Leftmost t pos fs) (h : spans reached fs = .ok out) {f : FoundHead} (hf : f ∈ fs)
    (hr : reached ≤ f.start) : ∃ s ∈ out, s.start ≤ f.start ∧ f.start < s.stop := by
  induction hl generalizing reached out with
  | nil => simp at hf
  | @cons pos g fs le isIn first rest ih =>
      rcases spans_cons_eq_ok_iff.1 h with ⟨hlt, h⟩ | ⟨hle, stop, more, hstop, hmore, rfl⟩
      · rcases List.mem_cons.1 hf with rfl | hf
        · omega
        · exact ih h hf hr
      · obtain ⟨gap, body, hdecl⟩ := declares isIn hstop
        have hlen := hdecl.length
        have hpos := g.head.length_text_pos
        rw [List.length_append, List.length_append] at hlen
        simp only at hlen
        rcases List.mem_cons.1 hf with rfl | hf
        · exact ⟨⟨f.start, stop⟩, by simp, Nat.le_refl _, by simp only; omega⟩
        · rcases Nat.lt_or_ge f.start stop with hlt | hge
          · have hgf := (rest.mem hf).1
            rw [FoundHead.stop] at hgf
            exact ⟨⟨g.start, stop⟩, by simp, by simp only; omega, hlt⟩
          · obtain ⟨s, hs, hc⟩ := ih hmore hf hge
            exact ⟨s, by simp [hs], hc⟩

end FoundHead

end BuiltinCatalog
