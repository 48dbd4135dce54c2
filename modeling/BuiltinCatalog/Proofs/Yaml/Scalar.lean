import BuiltinCatalog.Proofs.Yaml.Spot
import Mathlib.Data.List.Basic

namespace BuiltinCatalog.Yaml

variable {l n i indent : Nat} {c p : Char} {cs text rest : List Char} {gap : Gap}

namespace Gap

theorem text_blank (h : gap.isFolded = false) (c : Char) : (gap.blank c).text = gap.text ++ [c] := by
  cases gap with
  | none => rfl
  | blanks cs => rfl
  | folded first more => cases h

theorem isFolded_blank (h : gap.isFolded = false) (c : Char) : (gap.blank c).isFolded = false := by
  cases gap with
  | none => rfl
  | blanks cs => rfl
  | folded first more => cases h

theorem isNone_blank (c : Char) (gap : Gap) : (gap.blank c).isNone = false := by cases gap <;> rfl

end Gap

theorem hasPair_cons_cons (related : Char → Char → Bool) (p c : Char) (cs : List Char) :
    Style.hasPair related (p :: c :: cs) = (related p c || Style.hasPair related (c :: cs)) := by
  simp [Style.hasPair]

structure ContinuesPlain (p : Char) (cs : List Char) : Prop where
  isInline : ∀ c ∈ p :: cs, IsInline c
  noKey : Style.hasPair (fun a b => a == ':' && isBlank b) (p :: cs) = false
  noComment : Style.hasPair (fun a b => (isBlank a || Style.isAnyBreak a) && b == '#') (p :: cs) = false
  last_ne_space : (p :: cs).getLast? ≠ some ' '
  last_ne_colon : (p :: cs).getLast? ≠ some ':'

namespace ContinuesPlain

theorem isInline_head (h : ContinuesPlain p cs) : IsInline p := (List.forall_mem_cons.1 h.isInline).1

theorem tail (h : ContinuesPlain p (c :: cs)) : ContinuesPlain c cs where
  isInline := (List.forall_mem_cons.1 h.isInline).2
  noKey := by
    have hkey := h.noKey
    rw [hasPair_cons_cons, Bool.or_eq_false_iff] at hkey
    exact hkey.2
  noComment := by
    have hcomment := h.noComment
    rw [hasPair_cons_cons, Bool.or_eq_false_iff] at hcomment
    exact hcomment.2
  last_ne_space := by simpa using h.last_ne_space
  last_ne_colon := by simpa using h.last_ne_colon

theorem endsPlain_eq (h : ContinuesPlain c cs) (l n i : Nat) (more : List Char) :
    endsPlain false c (spotsFrom l n i (cs ++ more)) = false := by
  rw [endsPlain, Bool.false_and, Bool.or_false, Bool.and_eq_false_iff]
  by_cases hc : c = ':'
  · subst hc
    right
    cases cs with
    | nil => exact absurd rfl h.last_ne_colon
    | cons d ds =>
        have hd := h.tail.isInline_head
        have hkey := h.noKey
        rw [hasPair_cons_cons, Bool.or_eq_false_iff] at hkey
        rw [List.cons_append, atGap_cons hd, ← hd.isBlank_eq]
        simpa using hkey.1
  · exact .inl (by simpa using hc)

theorem ne_hash (h : ContinuesPlain p (c :: cs)) (hp : isBlank p = true) : c ≠ '#' := by
  have hcomment := h.noComment
  rw [hasPair_cons_cons, Bool.or_eq_false_iff] at hcomment
  simpa [hp] using hcomment.1

theorem isBlank_eq (h : ContinuesPlain p []) : isBlank p = false := by
  rw [h.isInline_head.isBlank_eq]
  simpa using h.last_ne_space

end ContinuesPlain

/-- The characters of a plain scalar are read one by one, and the blanks between them with the next one. The gap is
open exactly after a blank. -/
theorem plain_continue (h : ContinuesPlain p cs) (hfolded : gap.isFolded = false) (hgap : gap.isNone = !isBlank p)
    (hcolumn : 0 < n) (hindent : indent ≤ n) (more : List Char) :
    plain false indent text gap (spotsFrom l n i (cs ++ more)) =
      plain false indent (text ++ gap.text ++ cs) .none (spotsFrom l (n + cs.length) (i + cs.length) more) := by
  induction cs generalizing p text gap n i with
  | nil =>
      rw [h.isBlank_eq] at hgap
      cases gap with
      | none => simp [Gap.text]
      | blanks cs => cases hgap
      | folded first more => cases hgap
  | cons c cs ih =>
      have hc := h.tail.isInline_head
      rw [List.cons_append, spotsFrom_cons hc, plain]
      by_cases hblank : isBlank c = true
      · rw [if_pos hblank, hfolded, Bool.false_and, Bool.false_and, if_neg Bool.false_ne_true,
          ih h.tail (Gap.isFolded_blank hfolded c) (by rw [Gap.isNone_blank, hblank, Bool.not_true])
            (by omega) (by omega), Gap.text_blank hfolded]
        simp [Nat.add_assoc, Nat.add_comm 1]
      · have hgoesOn : (!gap.isNone &&
            endsAfterGap false indent ⟨c, l, n, i⟩ (spotsFrom l (n + 1) (i + 1) (cs ++ more))) = false := by
          rw [hgap, Bool.not_not]
          by_cases hp : isBlank p = true
          · have hmark (d : Char) :
                marksDocument d (⟨c, l, n, i⟩ :: spotsFrom l (n + 1) (i + 1) (cs ++ more)) = false :=
              marksDocument_eq_false (.inl (Nat.ne_of_gt hcolumn))
            simp [endsAfterGap, atDocumentMark, hmark, h.ne_hash hp, Nat.not_lt.2 hindent]
          · simp [hp]
        rw [if_neg hblank, hc.isBreak_eq, if_neg Bool.false_ne_true, hgoesOn, h.tail.endsPlain_eq, Bool.false_or,
          if_neg Bool.false_ne_true, ih h.tail rfl (by simp [Gap.isNone, hblank]) (by omega) (by omega)]
        simp [Gap.text, Nat.add_assoc, Nat.add_comm 1]

/-- A text that can be written as it is. -/
structure IsPlain (cs : List Char) : Prop where
  ne_nil : cs ≠ []
  isInline : ∀ c ∈ cs, IsInline c
  allowed : Style.allowsPlain cs = true

instance (cs : List Char) : Decidable (IsPlain cs) :=
  decidable_of_iff (cs ≠ [] ∧ cs.all (fun c => IsInline c) = true ∧ Style.allowsPlain cs = true)
    ⟨fun ⟨h, h', h''⟩ => ⟨h, by simpa using h', h''⟩, fun ⟨h, h', h''⟩ => ⟨h, by simpa using h', h''⟩⟩

namespace IsPlain

theorem ends (h : IsPlain cs) : cs.head? ≠ some ' ' ∧ cs.getLast? ≠ some ' ' ∧ Style.hasMarks cs = false := by
  have hallowed := h.allowed
  simp only [Style.allowsPlain, Bool.and_eq_true, bne_iff_ne, Bool.not_eq_true'] at hallowed
  exact ⟨hallowed.1.1.2, hallowed.1.2, hallowed.2⟩

theorem continues (h : IsPlain (c :: cs)) : ContinuesPlain c cs := by
  obtain ⟨-, hspace, hmarks⟩ := h.ends
  simp only [Style.hasMarks, Bool.or_eq_false_iff, beq_eq_false_iff_ne] at hmarks
  exact ⟨h.isInline, hmarks.1.2, hmarks.2, hspace, hmarks.1.1.2⟩

theorem isInk (h : IsPlain (c :: cs)) : IsInk c ∧ c ∉ Style.startMarks := by
  obtain ⟨hspace, -, hmarks⟩ := h.ends
  simp only [Style.hasMarks, Bool.or_eq_false_iff] at hmarks
  have hstart : c ∉ Style.startMarks := by simpa using hmarks.1.1.1.1.2
  refine ⟨⟨h.continues.isInline_head, by simpa using hspace, ?_⟩, hstart⟩
  rintro rfl
  exact hstart (by decide)

theorem atGap_eq (h : IsPlain (c :: cs)) (hc : c = '-' ∨ c = '?' ∨ c = ':') (l n i : Nat) (more : List Char) :
    atGap (spotsFrom l n i (cs ++ more)) = false := by
  obtain ⟨-, -, hmarks⟩ := h.ends
  have hword (hc : c = '-' ∨ c = '?') : atGap (spotsFrom l n i (cs ++ more)) = false := by
    simp only [Style.hasMarks, Bool.or_eq_false_iff] at hmarks
    have hblank : cs.head?.all isBlank = false := by
      have hmark := hmarks.1.1.1.2
      rcases hc with rfl | rfl <;> simpa using hmark
    cases cs with
    | nil => cases hblank
    | cons d ds =>
        have hd := h.continues.tail.isInline_head
        rw [List.cons_append, atGap_cons hd, ← hd.isBlank_eq]
        exact hblank
  rcases hc with rfl | rfl | rfl
  · exact hword (.inl rfl)
  · exact hword (.inr rfl)
  · simpa [endsPlain] using h.continues.endsPlain_eq l n i more

theorem plain_eq (h : IsPlain cs) (hindent : indent ≤ n + 1) (more : List Char) :
    plain false indent [] .none (spotsFrom l n i (cs ++ more)) =
      plain false indent cs .none (spotsFrom l (n + cs.length) (i + cs.length) more) := by
  cases cs with
  | nil => exact absurd rfl h.ne_nil
  | cons c cs =>
      have hc := h.isInk.1
      rw [List.cons_append, spotsFrom_cons hc.isInline, plain, hc.isBlank_eq, if_neg Bool.false_ne_true,
        hc.isInline.isBreak_eq, if_neg Bool.false_ne_true, h.continues.endsPlain_eq, Gap.isNone, Bool.not_true,
        Bool.false_and, Bool.false_or, if_neg Bool.false_ne_true,
        plain_continue h.continues rfl (by simp [Gap.isNone, hc.isBlank_eq]) (by omega) hindent]
      simp [Gap.text, Nat.add_assoc, Nat.add_comm 1]

end IsPlain

/-- The gap after a plain scalar ends it at the next row, if that row is not deep enough to continue it. -/
theorem plain_row {first : Option Char} {breaks : List Char} (h : StartsRow cs)
    (hindent : ∀ k ∈ margin cs, n + k < indent) :
    plain false indent text (.folded first breaks) (spotsFrom l n i cs) =
      some (text, true, spotsFrom l (n + (margin cs).getD 0) (i + (margin cs).getD 0) (content cs)) := by
  cases h with
  | nil => rfl
  | row k cs hc =>
      rw [margin_spaces k hc.ne_space] at hindent
      rw [margin_spaces k hc.ne_space, content_spaces k hc.ne_space, Option.getD_some]
      replace hindent := hindent k rfl
      induction k generalizing n i with
      | zero =>
          rw [Write.spaces, List.replicate_zero, List.nil_append, Nat.add_zero, Nat.add_zero,
            spotsFrom_cons hc.isInline, plain, hc.isBlank_eq, if_neg Bool.false_ne_true, hc.isInline.isBreak_eq,
            if_neg Bool.false_ne_true]
          simp [Gap.isNone, Gap.isFolded, endsAfterGap, show n < indent from hindent]
      | succ k ih =>
          rw [Write.spaces, List.replicate_succ, List.cons_append, spotsFrom_cons isInline_space, plain,
            if_pos (show isBlank ' ' = true from rfl), ← Write.spaces]
          simp only [show (' ' == '\t') = false from rfl, Bool.and_false, Bool.false_eq_true, if_false, Gap.blank]
          rw [ih (by omega), Nat.add_right_comm n, Nat.add_right_comm i, Nat.add_assoc n, Nat.add_assoc i]

theorem plain_newline (h : StartsRow cs) (hindent : ∀ k ∈ margin cs, k < indent) :
    plain false indent text .none (spotsFrom l n i ('\n' :: cs)) =
      some (text, true, spotsFrom (l + 1) ((margin cs).getD 0) (i + 1 + (margin cs).getD 0) (content cs)) := by
  have hfold : plain false indent text .none (spotsFrom l n i ('\n' :: cs)) =
      plain false indent text (.folded (some '\n') []) (spotsFrom (l + 1) 0 (i + 1) cs) := by
    rw [spotsFrom_newline, plain]
    rfl
  rw [hfold, plain_row h (by simpa using hindent), Nat.zero_add]

theorem plain_colon (h : atGap (spotsFrom l (n + 1) (i + 1) cs) = true) :
    plain false indent text .none (spotsFrom l n i (':' :: cs)) = some (text, false, spotsFrom l n i (':' :: cs)) := by
  have hcolon : IsInk ':' := by decide
  rw [spotsFrom_cons hcolon.isInline, plain, hcolon.isBlank_eq, if_neg Bool.false_ne_true, hcolon.isInline.isBreak_eq,
    if_neg Bool.false_ne_true, endsPlain, h]
  rfl

theorem atDocumentMark_eq_false {s : Spot} {ss : List Spot} (h : s.column ≠ 0) : atDocumentMark (s :: ss) = false := by
  rw [atDocumentMark, marksDocument_eq_false (.inl h), marksDocument_eq_false (.inl h), Bool.or_false]

/-- How a reader of quoted scalars takes what is written for one character: as the next one after its text and the gap
so far. -/
def TakesChar (read : List Char → Gap → List Spot → Option (List Char × List Spot)) (c : Char) (w : List Char) : Prop :=
  ∀ text gap l n i more, gap.isFolded = false → 0 < n →
    ∃ text' gap', gap'.isFolded = false ∧ text' ++ gap'.text = text ++ gap.text ++ [c] ∧
      read text gap (spotsFrom l n i (w ++ more)) =
        read text' gap' (spotsFrom l (n + w.length) (i + w.length) more)

theorem read_flatMap {read : List Char → Gap → List Spot → Option (List Char × List Spot)} {write : Char → List Char}
    (h : ∀ c ∈ cs, TakesChar read c (write c)) (text : List Char) (hfolded : gap.isFolded = false) (l i : Nat)
    (hcolumn : 0 < n) (more : List Char) :
    ∃ text' gap', gap'.isFolded = false ∧ text' ++ gap'.text = text ++ gap.text ++ cs ∧
      read text gap (spotsFrom l n i (cs.flatMap write ++ more)) =
        read text' gap' (spotsFrom l (n + (cs.flatMap write).length) (i + (cs.flatMap write).length) more) := by
  induction cs generalizing text gap n i with
  | nil => exact ⟨text, gap, hfolded, by simp, by simp⟩
  | cons c cs ih =>
      obtain ⟨hc, hcs⟩ := List.forall_mem_cons.1 h
      obtain ⟨text₁, gap₁, hfolded₁, htext₁, hread₁⟩ := hc text gap l n i (cs.flatMap write ++ more) hfolded hcolumn
      obtain ⟨text₂, gap₂, hfolded₂, htext₂, hread₂⟩ := ih hcs text₁ hfolded₁ (i + (write c).length)
        (n := n + (write c).length) (by omega)
      refine ⟨text₂, gap₂, hfolded₂, ?_, ?_⟩
      · rw [htext₂, htext₁, List.append_assoc, List.singleton_append]
      · rw [List.flatMap_cons, List.append_assoc, hread₁, hread₂, List.length_append, Nat.add_assoc, Nat.add_assoc]

def singleForm (c : Char) : List Char := if c == singleMark then [c, c] else [c]

theorem single_eq (h : ∀ c ∈ cs, IsInline c) (indent : Nat) :
    Write.single indent false cs = cs.flatMap singleForm ++ [singleMark] := by
  induction cs with
  | nil => rfl
  | cons c cs ih =>
      obtain ⟨hc, hcs⟩ := List.forall_mem_cons.1 h
      rw [Write.single, hc.2, if_neg Bool.false_ne_true, if_neg Bool.false_ne_true, List.nil_append, ih hcs,
        List.flatMap_cons, List.append_assoc, singleForm]

theorem isInk_singleMark : IsInk singleMark := by decide

theorem isInk_doubleMark : IsInk doubleMark := by decide

theorem isInk_escapeMark : IsInk escapeMark := by decide

theorem singleQuoted_blank {s : Spot} {ss : List Spot} (h : isBlank s.char = true) :
    singleQuoted text gap (s :: ss) = singleQuoted text (gap.blank s.char) ss := by
  rw [singleQuoted.eq_def]
  exact if_pos h

theorem singleQuoted_char {s : Spot} {ss : List Spot} (h : IsInline s.char) (hblank : isBlank s.char = false)
    (hcolumn : 0 < s.column) (hmark : s.char ≠ singleMark) :
    singleQuoted text gap (s :: ss) = singleQuoted (text ++ gap.text ++ [s.char]) .none ss := by
  rw [singleQuoted.eq_def]
  simp only [hblank, h.isBreak_eq, atDocumentMark_eq_false (Nat.ne_of_gt hcolumn), beq_eq_false_iff_ne.2 hmark,
    Bool.false_eq_true, if_false]

theorem takesChar_singleForm (hc : IsInline c) : TakesChar singleQuoted c (singleForm c) := by
  intro text gap l n i more hfolded hcolumn
  by_cases hmark : c = singleMark
  · subst hmark
    refine ⟨_, .none, rfl, List.append_nil _, ?_⟩
    rw [singleForm, if_pos (by decide), List.cons_append, List.singleton_append, spotsFrom_cons hc, spotsFrom_cons hc,
      singleQuoted, isInk_singleMark.isBlank_eq, if_neg Bool.false_ne_true, hc.isBreak_eq, if_neg Bool.false_ne_true,
      atDocumentMark_eq_false (Nat.ne_of_gt hcolumn), if_neg Bool.false_ne_true]
    rfl
  · rw [singleForm, if_neg (by simpa using hmark), List.singleton_append, spotsFrom_cons hc]
    by_cases hblank : isBlank c = true
    · exact ⟨text, gap.blank c, Gap.isFolded_blank hfolded c, by rw [Gap.text_blank hfolded, List.append_assoc],
        singleQuoted_blank hblank⟩
    · exact ⟨_, .none, rfl, List.append_nil _, singleQuoted_char hc (by simpa using hblank) hcolumn hmark⟩

theorem singleQuoted_eq (h : ∀ c ∈ cs, IsInline c) (hcolumn : 0 < n) (more : List Char) :
    singleQuoted [] .none (spotsFrom l n i (cs.flatMap singleForm ++ singleMark :: '\n' :: more)) =
      some (cs, spotsFrom l (n + (cs.flatMap singleForm).length + 1) (i + (cs.flatMap singleForm).length + 1)
        ('\n' :: more)) := by
  have hmark := isInk_singleMark
  have hchars : ∀ c ∈ cs, TakesChar singleQuoted c (singleForm c) := fun c hc => takesChar_singleForm (h c hc)
  obtain ⟨text, gap, -, htext, hread⟩ := read_flatMap hchars [] (show Gap.none.isFolded = false from rfl) l i hcolumn
    (singleMark :: '\n' :: more)
  rw [hread, spotsFrom_cons hmark.isInline, spotsFrom_newline, singleQuoted, hmark.isBlank_eq,
    if_neg Bool.false_ne_true, hmark.isInline.isBreak_eq, if_neg Bool.false_ne_true,
    atDocumentMark_eq_false (by dsimp only; omega), if_neg Bool.false_ne_true, htext]
  rfl

def doubleForm (c : Char) : List Char := if c == doubleMark || c == escapeMark then [escapeMark, c] else [c]

theorem double_eq (h : ∀ c ∈ cs, IsInline c) : Write.double cs = cs.flatMap doubleForm := by
  refine List.flatMap_congr fun c hc => ?_
  obtain ⟨hprintable, hbreak⟩ := h c hc
  rw [hprintable, hbreak, Bool.not_true, Bool.false_or, Bool.false_or, doubleForm]
  split
  next hmark =>
    rcases Bool.or_eq_true_iff.1 hmark with hmark | hmark
    · obtain rfl := beq_iff_eq.1 hmark
      rfl
    · obtain rfl := beq_iff_eq.1 hmark
      rfl
  next => rfl

def readDouble (text : List Char) (gap : Gap) (ss : List Spot) : Option (List Char × List Spot) :=
  doubleQuoted text gap .text ss

theorem takesChar_doubleForm (hc : IsInline c) : TakesChar readDouble c (doubleForm c) := by
  intro text gap l n i more hfolded hcolumn
  have hescape := isInk_escapeMark
  by_cases hmark : (c == doubleMark || c == escapeMark) = true
  · refine ⟨text ++ gap.text ++ [c], .none, rfl, List.append_nil _, ?_⟩
    rw [doubleForm, if_pos hmark, List.cons_append, List.singleton_append, spotsFrom_cons hescape.isInline,
      spotsFrom_cons hc, readDouble, doubleQuoted]
    dsimp only
    rw [hescape.isBlank_eq, if_neg Bool.false_ne_true, hescape.isInline.isBreak_eq, if_neg Bool.false_ne_true,
      atDocumentMark_eq_false (Nat.ne_of_gt hcolumn), if_neg Bool.false_ne_true, if_neg (by decide),
      if_pos (by decide), doubleQuoted]
    dsimp only
    rw [hc.isBreak_eq, if_neg Bool.false_ne_true]
    rcases Bool.or_eq_true_iff.1 hmark with hmark | hmark
    · obtain rfl := beq_iff_eq.1 hmark
      rfl
    · obtain rfl := beq_iff_eq.1 hmark
      rfl
  · obtain ⟨hquote, hback⟩ := Bool.or_eq_false_iff.1 (Bool.not_eq_true _ ▸ hmark)
    rw [doubleForm, if_neg hmark, List.singleton_append, spotsFrom_cons hc, readDouble, doubleQuoted]
    dsimp only
    by_cases hblank : isBlank c = true
    · exact ⟨text, gap.blank c, Gap.isFolded_blank hfolded c, by rw [Gap.text_blank hfolded, List.append_assoc],
        if_pos hblank⟩
    · refine ⟨_, .none, rfl, List.append_nil _, ?_⟩
      rw [if_neg hblank, hc.isBreak_eq, if_neg Bool.false_ne_true, atDocumentMark_eq_false (Nat.ne_of_gt hcolumn),
        if_neg Bool.false_ne_true, hquote, if_neg Bool.false_ne_true, hback, if_neg Bool.false_ne_true]
      rfl

theorem doubleQuoted_eq (h : ∀ c ∈ cs, IsInline c) (hcolumn : 0 < n) (more : List Char) :
    doubleQuoted [] .none .text (spotsFrom l n i (cs.flatMap doubleForm ++ doubleMark :: '\n' :: more)) =
      some (cs, spotsFrom l (n + (cs.flatMap doubleForm).length + 1) (i + (cs.flatMap doubleForm).length + 1)
        ('\n' :: more)) := by
  have hmark := isInk_doubleMark
  have hchars : ∀ c ∈ cs, TakesChar readDouble c (doubleForm c) := fun c hc => takesChar_doubleForm (h c hc)
  obtain ⟨text, gap, -, htext, hread⟩ := read_flatMap hchars [] (show Gap.none.isFolded = false from rfl) l i hcolumn
    (doubleMark :: '\n' :: more)
  rw [← readDouble, hread, spotsFrom_cons hmark.isInline, readDouble, doubleQuoted]
  dsimp only
  rw [hmark.isBlank_eq, if_neg Bool.false_ne_true, hmark.isInline.isBreak_eq, if_neg Bool.false_ne_true,
    atDocumentMark_eq_false (by dsimp only; omega), if_neg Bool.false_ne_true, if_pos (by decide), htext]
  rfl

/-- The ways to write a text within a row, and whether they use quotes. -/
inductive Spells : List Char → Bool → List Char → Prop
  | plain {cs : List Char} (h : IsPlain cs) : Spells cs false cs
  | single {cs : List Char} (h : ∀ c ∈ cs, IsInline c) :
      Spells (singleMark :: (cs.flatMap singleForm ++ [singleMark])) true cs
  | double {cs : List Char} (h : ∀ c ∈ cs, IsInline c) :
      Spells (doubleMark :: (cs.flatMap doubleForm ++ [doubleMark])) true cs

namespace Spells

variable {w : List Char} {quoted wanted : Bool}

theorem isInline (h : Spells w quoted cs) : ∀ c ∈ w, IsInline c := by
  have hquoted {mark : Char} {write : Char → List Char} (hmark : IsInline mark)
      (hcs : ∀ c ∈ cs, ∀ d ∈ write c, IsInline d) : ∀ d ∈ mark :: (cs.flatMap write ++ [mark]), IsInline d := by
    intro d hd
    rcases List.mem_cons.1 hd with rfl | hd
    · exact hmark
    rcases List.mem_append.1 hd with hd | hd
    · obtain ⟨c, hc, hd⟩ := List.mem_flatMap.1 hd
      exact hcs c hc d hd
    · rwa [List.mem_singleton.1 hd]
  cases h with
  | plain h => exact h.isInline
  | single h =>
      refine hquoted isInk_singleMark.isInline fun c hc d hd => ?_
      rw [singleForm] at hd
      split at hd <;> simp_all
  | double h =>
      refine hquoted isInk_doubleMark.isInline fun c hc d hd => ?_
      rw [doubleForm] at hd
      split at hd
      · rcases List.mem_cons.1 hd with rfl | hd
        · exact isInk_escapeMark.isInline
        · rw [List.mem_singleton.1 hd]
          exact h c hc
      · rw [List.mem_singleton.1 hd]
        exact h c hc

theorem exists_head (h : Spells w quoted cs) : ∃ c ds, w = c :: ds ∧ IsInk c := by
  cases h with
  | plain h =>
      cases cs with
      | nil => exact absurd rfl h.ne_nil
      | cons c ds => exact ⟨c, ds, rfl, h.isInk.1⟩
  | single h => exact ⟨_, _, rfl, isInk_singleMark⟩
  | double h => exact ⟨_, _, rfl, isInk_doubleMark⟩

theorem choose_cases (h : ∀ c ∈ cs, IsInline c) (wanted : Bool) :
    (wanted = true ∧ Style.allowsPlain cs = true ∧ Style.choose wanted cs = .plain) ∨
      Style.choose wanted cs = .single ∨ Style.choose wanted cs = .double := by
  have hnewline : cs.contains '\n' = false := by
    rw [← Bool.not_eq_true, List.contains_iff_mem]
    exact fun hmem => (h _ hmem).ne_newline rfl
  rw [Style.choose, hnewline, if_neg Bool.false_ne_true]
  split_ifs <;> simp_all

/-- Whatever style the writer chooses for a text without line breaks, it is one of these. -/
theorem exists_styled (h : ∀ c ∈ cs, IsInline c) (hwanted : wanted = true → cs ≠ []) :
    ∃ w quoted, Spells w quoted cs ∧ (quoted = false → wanted = true) ∧
      ∀ indent, Write.styled indent wanted cs = w ++ ['\n'] := by
  obtain ⟨hw, hplain, hstyle⟩ | hstyle | hstyle := choose_cases h wanted
  · exact ⟨cs, false, .plain ⟨hwanted hw, h, hplain⟩, fun _ => hw, fun indent => by simp [Write.styled, hstyle]⟩
  · exact ⟨_, true, .single h, nofun, fun indent => by simp [Write.styled, hstyle, single_eq h]⟩
  · exact ⟨_, true, .double h, nofun, fun indent => by simp [Write.styled, hstyle, double_eq h]⟩

end Spells

structure Word where
  written : List Char
  quoted : Bool
  text : List Char
  spells : Spells written quoted text

namespace Word

def value (w : Word) : Text := Text.ofChars w.text

def token (w : Word) : Token := .scalar w.quoted w.value

end Word

end BuiltinCatalog.Yaml
