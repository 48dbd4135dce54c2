import BuiltinCatalog.Comment
import BuiltinCatalog.Proofs.Text.Search

namespace BuiltinCatalog.Comment

def slash : Byte := '/'.toUInt8

def star : Byte := '*'.toUInt8

theorem slash_ne_star : slash ≠ star := by decide

def IsComplete : Comment → Prop
  | .block x => ¬ [star, slash] <:+: x
  | .line x => '\n'.toUInt8 ∉ x

instance (c : Comment) : Decidable c.IsComplete := by
  cases c <;> unfold IsComplete <;> infer_instance

theorem text_block (x : Text) : (block x).text = slash :: star :: (x ++ [star, slash]) := rfl

theorem text_line (x : Text) : (line x).text = slash :: slash :: (x ++ ['\n'.toUInt8]) := rfl

theorem placeholder_block (x : Text) : (block x).placeholder = [slash, star, star, slash] := rfl

theorem placeholder_line (x : Text) : (line x).placeholder = [slash, slash, '\n'.toUInt8] := rfl

theorem mem_placeholder {c : Comment} {b : Byte} (h : b ∈ c.placeholder) : b ∈ [slash, star, '\n'.toUInt8] := by
  cases c with
  | block x =>
      rw [placeholder_block] at h
      simp only [List.mem_cons, List.not_mem_nil, or_false] at h ⊢
      tauto
  | line x =>
      rw [placeholder_line] at h
      simp only [List.mem_cons, List.not_mem_nil, or_false] at h ⊢
      tauto

theorem next?_text {c : Comment} (h : c.IsComplete) (rest : Text) :
    next? (c.text ++ rest) = some (c, rest) := by
  cases c with
  | block x =>
      have hc : Text.cut? (Text.ofString "*/") (x ++ star :: slash :: rest) = some (x, rest) :=
        Text.cut?_pair rest (by decide) h
      rw [text_block]
      simp only [List.cons_append, List.append_assoc, List.nil_append, next?]
      rw [if_pos ⟨rfl, rfl⟩, hc]
      rfl
  | line x =>
      have hc : Text.cut? (Text.ofString "\n") (x ++ '\n'.toUInt8 :: rest) = some (x, rest) :=
        Text.cut?_byte rest h
      rw [text_line]
      simp only [List.cons_append, List.append_assoc, List.nil_append, next?]
      rw [if_neg (by decide), if_pos ⟨rfl, rfl⟩, hc]
      rfl

theorem next?_of_ne {b : Byte} (h : b ≠ slash) (rest : Text) : next? (b :: rest) = none := by
  cases rest with
  | nil => rfl
  | cons c rest =>
      have hb : ¬ b = '/'.toUInt8 := h
      simp [next?, hb]

theorem next?_slash {c : Byte} (hs : c ≠ star) (hl : c ≠ slash) (rest : Text) :
    next? (slash :: c :: rest) = none := by
  have hs' : ¬ c = '*'.toUInt8 := hs
  have hl' : ¬ c = '/'.toUInt8 := hl
  simp [next?, hs', hl']

theorem next?_slash_star (v : Text) :
    next? (slash :: star :: v) = (Text.cut? [star, slash] v).map fun (x, rest) => (.block x, rest) := rfl

theorem next?_slash_slash (v : Text) :
    next? (slash :: slash :: v) = (Text.cut? ['\n'.toUInt8] v).map fun (x, rest) => (.line x, rest) := rfl

theorem next?_eq_some {t rest : Text} {c : Comment} (h : next? t = some (c, rest)) :
    (∃ x v, c = .block x ∧ t = slash :: star :: v ∧ Text.cut? [star, slash] v = some (x, rest)) ∨
      ∃ x v, c = .line x ∧ t = slash :: slash :: v ∧ Text.cut? ['\n'.toUInt8] v = some (x, rest) := by
  unfold next? at h
  split at h
  next a b v =>
    split at h
    next hab =>
      obtain ⟨⟨x, after⟩, hx, heq⟩ := Option.map_eq_some_iff.1 h
      obtain ⟨rfl, rfl⟩ := Prod.mk.inj heq
      obtain ⟨rfl, rfl⟩ := hab
      exact Or.inl ⟨x, v, rfl, rfl, hx⟩
    next =>
      split at h
      next hab =>
        obtain ⟨⟨x, after⟩, hx, heq⟩ := Option.map_eq_some_iff.1 h
        obtain ⟨rfl, rfl⟩ := Prod.mk.inj heq
        obtain ⟨rfl, rfl⟩ := hab
        exact Or.inr ⟨x, v, rfl, rfl, hx⟩
      next => cases h
  next => cases h

theorem isComplete_of_next? {t rest : Text} {c : Comment} (h : next? t = some (c, rest)) : c.IsComplete := by
  rcases next?_eq_some h with ⟨x, v, rfl, -, hx⟩ | ⟨x, v, rfl, -, hx⟩
  · exact Text.not_infix_of_cut? (by simp) hx
  · exact Text.not_mem_of_cut?_byte hx

theorem next?_append_right {t rest : Text} {c : Comment} (h : next? t = some (c, rest)) (w : Text) :
    next? (t ++ w) = some (c, rest ++ w) := by
  rw [next?_append h, List.append_assoc, next?_text (isComplete_of_next? h)]

end BuiltinCatalog.Comment

namespace BuiltinCatalog.Piece

theorem ofText_of_next? {t rest : Text} {c : Comment} (h : Comment.next? t = some (c, rest)) :
    ofText t = .comment c :: ofText rest := by
  cases t with
  | nil => simp [Comment.next?] at h
  | cons b t =>
      rw [ofText]
      split
      next he => simp [he] at h
      next d after he =>
        obtain ⟨rfl, rfl⟩ : d = c ∧ after = rest := by simpa [he] using h
        rfl

theorem ofText_of_none {b : Byte} {t : Text} (h : Comment.next? (b :: t) = none) :
    ofText (b :: t) = .code b :: ofText t := by
  rw [ofText]
  split
  next => rfl
  next he => simp [he] at h

theorem text_ofText (t : Text) : (ofText t).flatMap text = t := by
  fun_induction ofText t with
  | case1 => rfl
  | case2 b rest h ih => rw [List.flatMap_cons, ih, text, List.singleton_append]
  | case3 b rest c after h ih => rw [List.flatMap_cons, ih, text, Comment.next?_append h]

end BuiltinCatalog.Piece

namespace BuiltinCatalog.Comment

@[simp] theorem normalize_nil : normalize [] = [] := by simp [normalize, Piece.ofText]

theorem normalize_of_none {b : Byte} {t : Text} (h : next? (b :: t) = none) :
    normalize (b :: t) = b :: normalize t := by
  rw [normalize, Piece.ofText_of_none h]
  rfl

theorem normalize_of_next? {t rest : Text} {c : Comment} (h : next? t = some (c, rest)) :
    normalize t = c.placeholder ++ normalize rest := by
  rw [normalize, Piece.ofText_of_next? h]
  rfl

theorem normalize_comment {c : Comment} (h : c.IsComplete) (rest : Text) :
    normalize (c.text ++ rest) = c.placeholder ++ normalize rest :=
  normalize_of_next? (next?_text h rest)

structure IsCode (u : Text) : Prop where
  no_line : ¬ [slash, slash] <:+: u
  no_block : ¬ [slash, star] <:+: u

theorem IsCode.of_not_mem {u : Text} (h : slash ∉ u) : IsCode u where
  no_line hi := h (hi.subset (by simp))
  no_block hi := h (hi.subset (by simp))

theorem IsCode.tail {b : Byte} {u : Text} (h : IsCode (b :: u)) : IsCode u where
  no_line hi := h.no_line (List.infix_cons hi)
  no_block hi := h.no_block (List.infix_cons hi)

theorem normalize_code {u : Text} (h : IsCode u) (rest : Text)
    (hend : u.getLast? = some slash → rest = []) : normalize (u ++ rest) = u ++ normalize rest := by
  induction u with
  | nil => rfl
  | cons b u ih =>
      have hnext : next? (b :: (u ++ rest)) = none := by
        by_cases hb : b = slash
        · subst hb
          cases u with
          | nil =>
              rw [hend rfl]
              rfl
          | cons c u =>
              refine next?_slash ?_ ?_ _
              · rintro rfl
                exact h.no_block ⟨[], u, rfl⟩
              · rintro rfl
                exact h.no_line ⟨[], u, rfl⟩
        · exact next?_of_ne hb _
      rw [List.cons_append, normalize_of_none hnext, List.cons_append]
      congr 1
      apply ih h.tail
      intro hl
      exact hend (by rw [List.getLast?_cons, hl]; rfl)

theorem splitBlock?_open {u : Text} (h : ¬ [slash, star] <:+: u) (v : Text) :
    splitBlock? (u ++ slash :: star :: v) = (Text.cut? [star, slash] v).map fun (x, w) => (u, x, w) := by
  have hopen : Text.cut? (Text.ofString "/*") (u ++ slash :: star :: v) = some (u, v) :=
    Text.cut?_pair v (by decide) h
  have hmark : Text.ofString "*/" = [star, slash] := rfl
  cases hclose : Text.cut? [star, slash] v with
  | none => simp [splitBlock?, hopen, hmark, hclose]
  | some found => simp [splitBlock?, hopen, hmark, hclose]

theorem splitBlock?_block {x : Text} (h : (block x).IsComplete) (rest : Text) :
    splitBlock? ((block x).text ++ rest) = some ([], x, rest) := by
  have hclose : Text.cut? [star, slash] (x ++ star :: slash :: rest) = some (x, rest) :=
    Text.cut?_pair rest (by decide) h
  have hopen := splitBlock?_open (u := []) (by simp) (x ++ star :: slash :: rest)
  rw [hclose] at hopen
  rw [text_block, List.cons_append, List.cons_append, List.append_assoc]
  exact hopen

theorem splitBlock?_cons {b : Byte} {t : Text} (h : ¬ [slash, star] <+: b :: t) :
    splitBlock? (b :: t) = (splitBlock? t).map fun (u, x, v) => (b :: u, x, v) := by
  have hp : ¬ (Text.ofString "/*").isPrefixOf (b :: t) = true :=
    fun hp => h (List.isPrefixOf_iff_prefix.1 hp)
  rw [splitBlock?, Text.cut?, if_neg hp, splitBlock?]
  cases Text.cut? (Text.ofString "/*") t with
  | none => rfl
  | some uv =>
      obtain ⟨u, v⟩ := uv
      cases hv : Text.cut? (Text.ofString "*/") v <;> simp [hv]

theorem splitBlock?_eq_none {t : Text} (h : ¬ [star, slash] <:+: t) : splitBlock? t = none := by
  rw [Option.eq_none_iff_forall_ne_some]
  rintro ⟨u, x, v⟩ hs
  refine h ⟨u ++ slash :: star :: x, v, ?_⟩
  rw [splitBlock?_append hs, text_block]
  simp

theorem splitBlock?_of_none {b : Byte} {t : Text} (h : next? (b :: t) = none) :
    splitBlock? (b :: t) = (splitBlock? t).map fun (u, x, v) => (b :: u, x, v) := by
  by_cases hp : [slash, star] <+: b :: t
  · obtain ⟨w, hw⟩ := hp
    obtain ⟨rfl, rfl⟩ : slash = b ∧ star :: w = t := by simpa using hw
    rw [next?_slash_star, Option.map_eq_none_iff] at h
    have hclose : ¬ [star, slash] <:+: w := (Text.cut?_eq_none_iff (by simp)).1 h
    have htail : splitBlock? (star :: w) = none := by
      rw [splitBlock?_cons (by simp [slash_ne_star]), splitBlock?_eq_none hclose]
      rfl
    have hopen := splitBlock?_open (u := []) (by simp) w
    rw [List.nil_append, h] at hopen
    rw [htail, hopen]
    rfl
  · exact splitBlock?_cons hp

theorem stripBlocks_of_none {t : Text} (h : splitBlock? t = none) : stripBlocks t = t := by
  rw [stripBlocks]
  split
  next => rfl
  next he => simp [he] at h

theorem stripBlocks_of_some {t u x v : Text} (h : splitBlock? t = some (u, x, v)) :
    stripBlocks t = u ++ stripBlocks v := by
  rw [stripBlocks]
  split
  next he => simp [he] at h
  next before interior after he =>
    obtain ⟨rfl, -, rfl⟩ : before = u ∧ interior = x ∧ after = v := by simpa [he] using h
    rfl

@[simp] theorem stripBlocks_nil : stripBlocks [] = [] := stripBlocks_of_none rfl

theorem stripBlocks_block {x : Text} (h : (block x).IsComplete) (rest : Text) :
    stripBlocks ((block x).text ++ rest) = stripBlocks rest :=
  stripBlocks_of_some (splitBlock?_block h rest)

theorem stripBlocks_of_map {b : Byte} {t : Text}
    (h : splitBlock? (b :: t) = (splitBlock? t).map fun (u, x, v) => (b :: u, x, v)) :
    stripBlocks (b :: t) = b :: stripBlocks t := by
  cases ht : splitBlock? t with
  | none =>
      rw [ht] at h
      rw [stripBlocks_of_none ht, stripBlocks_of_none h]
  | some uxv =>
      obtain ⟨u, x, v⟩ := uxv
      rw [ht] at h
      rw [stripBlocks_of_some ht, stripBlocks_of_some h, List.cons_append]

theorem stripBlocks_cons {b : Byte} {t : Text} (h : ¬ [slash, star] <+: b :: t) :
    stripBlocks (b :: t) = b :: stripBlocks t :=
  stripBlocks_of_map (splitBlock?_cons h)

theorem not_opens {b : Byte} {u : Text} (h : ¬ [slash, star] <:+: b :: u) (rest : Text)
    (hend : (b :: u).getLast? ≠ some slash) : ¬ [slash, star] <+: b :: (u ++ rest) := by
  intro hp
  cases u with
  | nil =>
      obtain rfl : slash = b := (List.cons_prefix_cons.1 hp).1
      exact hend rfl
  | cons c u =>
      obtain ⟨rfl, rfl⟩ : slash = b ∧ star = c := by simpa [List.cons_prefix_cons] using hp
      exact h ⟨[], u, rfl⟩

theorem stripBlocks_code {u : Text} (h : ¬ [slash, star] <:+: u) (rest : Text)
    (hend : u.getLast? ≠ some slash) : stripBlocks (u ++ rest) = u ++ stripBlocks rest := by
  induction u with
  | nil => rfl
  | cons b u ih =>
      rw [List.cons_append, stripBlocks_cons (not_opens h rest hend), List.cons_append]
      congr 1
      refine ih (fun hi => h (List.infix_cons hi)) fun hl => hend ?_
      rw [List.getLast?_cons, hl]
      rfl

/-- The forms a text goes through: as it is written, with its comments reduced, and then without its
block comments. -/
inductive View where
  | written
  | reduced
  | bare

def view (c : Comment) : View → Text
  | .written => c.text
  | .reduced => c.placeholder
  | .bare =>
    match c with
    | .block _ => []
    | .line _ => c.placeholder

/-- Text that takes its forms on its own, whatever follows it. -/
structure IsStretch (f : View → Text) : Prop where
  normalize : ∀ rest, normalize (f .written ++ rest) = f .reduced ++ Comment.normalize rest
  stripBlocks : ∀ rest, stripBlocks (f .reduced ++ rest) = f .bare ++ Comment.stripBlocks rest

namespace IsStretch

theorem code {u : Text} (h : IsCode u) (hend : u.getLast? ≠ some slash) : IsStretch fun _ => u where
  normalize rest := normalize_code h rest fun hl => absurd hl hend
  stripBlocks rest := stripBlocks_code h.no_block rest hend

theorem of_not_mem {u : Text} (h : slash ∉ u) : IsStretch fun _ => u :=
  code (.of_not_mem h) fun hl => h (List.mem_of_getLast? hl)

theorem comment {c : Comment} (h : c.IsComplete) : IsStretch c.view where
  normalize rest := normalize_comment h rest
  stripBlocks rest := by
    cases c with
    | block x => exact stripBlocks_block (x := []) (by decide) rest
    | line x => exact stripBlocks_code (u := [slash, slash, '\n'.toUInt8]) (by decide) rest (by decide)

theorem append {f g : View → Text} (hf : IsStretch f) (hg : IsStretch g) :
    IsStretch fun v => f v ++ g v where
  normalize rest := by rw [List.append_assoc, hf.normalize, hg.normalize, List.append_assoc]
  stripBlocks rest := by rw [List.append_assoc, hf.stripBlocks, hg.stripBlocks, List.append_assoc]

theorem flatMap {α : Type} {f : View → α → Text} {xs : List α}
    (h : ∀ x ∈ xs, IsStretch fun v => f v x) : IsStretch fun v => xs.flatMap (f v) := by
  induction xs with
  | nil => exact of_not_mem (u := []) (by simp)
  | cons x xs ih =>
      simp only [List.flatMap_cons]
      exact (h x (by simp)).append (ih fun y hy => h y (by simp [hy]))

end IsStretch

end BuiltinCatalog.Comment
