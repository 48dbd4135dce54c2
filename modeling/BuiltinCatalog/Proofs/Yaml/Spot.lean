import BuiltinCatalog.Proofs.Text.Utf8
import BuiltinCatalog.Yaml.Token.Scan
import BuiltinCatalog.Yaml.Write

namespace BuiltinCatalog.Yaml

open Scanner

/-- A printable character that breaks no line. -/
def IsInline (c : Char) : Prop := Style.isPrintable c = true ∧ Style.isAnyBreak c = false

instance (c : Char) : Decidable (IsInline c) := inferInstanceAs (Decidable (_ ∧ _))

structure IsInk (c : Char) : Prop where
  isInline : IsInline c
  ne_space : c ≠ ' '
  ne_hash : c ≠ '#'

instance (c : Char) : Decidable (IsInk c) :=
  decidable_of_iff (IsInline c ∧ c ≠ ' ' ∧ c ≠ '#') ⟨fun ⟨h, h', h''⟩ => ⟨h, h', h''⟩, fun ⟨h, h', h''⟩ => ⟨h, h', h''⟩⟩

namespace IsInline

variable {c : Char}

theorem toNat_ne (h : IsInline c) {n : Nat} (hn : n ∈ [9, 10, 13, 0x85, 0x2028, 0x2029, 0xFEFF]) : c.toNat ≠ n := by
  obtain ⟨hprintable, hbreak⟩ := h
  rintro rfl
  simp only [Style.isPrintable, Bool.or_eq_true, Bool.and_eq_true, beq_iff_eq, bne_iff_ne, decide_eq_true_eq]
    at hprintable
  simp only [List.mem_cons, List.not_mem_nil, or_false] at hn
  have hnewline : c.toNat ≠ 10 := by
    intro hc
    obtain rfl : c = '\n' := Char.toNat_inj.1 hc
    revert hbreak
    decide
  have hseparators : c.toNat ≠ 0x2028 ∧ c.toNat ≠ 0x2029 := by
    constructor <;>
    · intro hc
      simp [Style.isAnyBreak, foldBreak, isBreak, hc, ← Char.toNat_inj] at hbreak
  omega

theorem ne_tab (h : IsInline c) : c ≠ '\t' := fun hc => h.toNat_ne (n := 9) (by decide) (congrArg Char.toNat hc)

theorem ne_newline (h : IsInline c) : c ≠ '\n' := fun hc => h.toNat_ne (n := 10) (by decide) (congrArg Char.toNat hc)

theorem ne_return (h : IsInline c) : c ≠ '\r' := fun hc => h.toNat_ne (n := 13) (by decide) (congrArg Char.toNat hc)

theorem ne_byteOrderMark (h : IsInline c) : c ≠ byteOrderMark :=
  fun hc => h.toNat_ne (n := 0xFEFF) (by decide) (congrArg Char.toNat hc)

theorem isBreak_eq (h : IsInline c) : isBreak c = false := by
  simp [isBreak, h.ne_newline, h.toNat_ne (n := 0x2028) (by decide), h.toNat_ne (n := 0x2029) (by decide)]

theorem foldBreak_eq (h : IsInline c) : foldBreak c = c := by
  simp [foldBreak, h.ne_return, h.toNat_ne (n := 0x85) (by decide)]

theorem isBlank_eq (h : IsInline c) : isBlank c = (c == ' ') := by simp [isBlank, h.ne_tab]

theorem isAllowed (h : IsInline c) : isAllowed c = true := by
  have hprintable := h.1
  simp only [Style.isPrintable, Bool.or_eq_true, Bool.and_eq_true, beq_iff_eq, bne_iff_ne, decide_eq_true_eq]
    at hprintable
  simp only [Yaml.isAllowed, Bool.or_eq_true, Bool.and_eq_true, beq_iff_eq, decide_eq_true_eq]
  omega

end IsInline

theorem IsInk.isBlank_eq {c : Char} (h : IsInk c) : isBlank c = false := by
  simp [h.isInline.isBlank_eq, h.ne_space]

theorem ofUtf8?_ofChars (cs : List Char) : ofUtf8? (Text.ofChars cs) = some cs := by
  rw [ofUtf8?, Text.glyphs_ofChars]
  induction cs with
  | nil => rfl
  | cons c cs ih => simp_all

/-- A document that starts with an ASCII character has no byte order mark and is read as UTF-8. -/
theorem characters?_ofChars {c : Char} {cs : List Char} (hc : c.toNat < 128) (h : ∀ d ∈ c :: cs, isAllowed d = true) :
    characters? (Text.ofChars (c :: cs)) = some (c :: cs) := by
  have hhead : Text.ofChars (c :: cs) = UInt8.ofNat c.toNat :: Text.ofChars cs := by
    have hencode := Text.encode_one hc
    rw [Char.ofNat_toNat] at hencode
    rw [Text.ofChars_cons, hencode, List.singleton_append]
  have hchars : characters? (Text.ofChars (c :: cs)) =
      (ofUtf8? (Text.ofChars (c :: cs))).bind fun cs => if cs.all isAllowed then some cs else none := by
    have hbyte (b : Byte) (hb : 128 ≤ b.toNat) : UInt8.ofNat c.toNat ≠ b := by
      rintro rfl
      rw [UInt8.toNat_ofNat'] at hb
      omega
    rw [hhead, characters?]
    · rfl
    · exact fun rest heq => hbyte 0xFF (by decide) (List.cons.inj heq).1
    · exact fun rest heq => hbyte 0xFE (by decide) (List.cons.inj heq).1
    · exact fun rest heq => hbyte 0xEF (by decide) (List.cons.inj heq).1
  rw [hchars, ofUtf8?_ofChars, Option.bind_some, if_pos (List.all_eq_true.2 h)]

variable {l n i : Nat} {c : Char} {cs ds : List Char}

theorem spotsFrom_cons (h : IsInline c) :
    spotsFrom l n i (c :: cs) = ⟨c, l, n, i⟩ :: spotsFrom l (n + 1) (i + 1) cs := by
  have hreturn := h.ne_return
  rw [spotsFrom]
  · simp [h.foldBreak_eq, h.isBreak_eq]
  · rintro rest rfl
    exact absurd rfl hreturn

theorem spotsFrom_newline : spotsFrom l n i ('\n' :: cs) = ⟨'\n', l, n, i⟩ :: spotsFrom (l + 1) 0 (i + 1) cs := by
  rw [spotsFrom]
  · rfl
  · rintro rest h
    cases h

def size (cs : List Char) : Nat := (spotsFrom 0 0 0 cs).length

theorem length_spotsFrom (l n i : Nat) (cs : List Char) : (spotsFrom l n i cs).length = size cs := by
  have hplace (l n i l' n' i' : Nat) : (spotsFrom l n i cs).length = (spotsFrom l' n' i' cs).length := by
    fun_induction spotsFrom l n i cs generalizing l' n' i' with
    | case1 => rfl
    | case2 l n i rest ih => rw [spotsFrom, List.length_cons, List.length_cons, ih]
    | case3 l n i c rest hpair spot hbreak ih =>
        rw [spotsFrom, if_pos hbreak, List.length_cons, List.length_cons, ih (l' + 1) 0 (i' + 1)]
        exact hpair
    | case4 l n i c rest hpair spot hbreak ih =>
        rw [spotsFrom, if_neg hbreak, List.length_cons, List.length_cons, ih l' (n' + 1) (i' + 1)]
        exact hpair
  exact hplace ..

theorem size_cons (h : IsInline c) : size (c :: cs) = size cs + 1 := by
  rw [size, spotsFrom_cons h, List.length_cons, length_spotsFrom]

theorem size_newline : size ('\n' :: cs) = size cs + 1 := by
  rw [size, spotsFrom_newline, List.length_cons, length_spotsFrom]

theorem size_append (h : ∀ c ∈ cs, IsInline c) : size (cs ++ ds) = cs.length + size ds := by
  induction cs with
  | nil => simp
  | cons c cs ih =>
      obtain ⟨hc, hcs⟩ := List.forall_mem_cons.1 h
      rw [List.cons_append, size_cons hc, ih hcs, List.length_cons]
      omega

theorem atGap_cons (h : IsInline c) : atGap (spotsFrom l n i (c :: cs)) = (c == ' ') := by
  rw [spotsFrom_cons h, atGap, h.isBlank_eq, h.isBreak_eq, Bool.or_false]

theorem marksDocument_eq_false {s : Spot} {ss : List Spot} (h : s.column ≠ 0 ∨ s.char ≠ c) :
    marksDocument c (s :: ss) = false := by
  unfold marksDocument
  split
  · next heq =>
    obtain ⟨rfl, rfl⟩ := List.cons.inj heq
    rcases h with h | h <;> simp [h]
  · rfl

def margin : List Char → Option Nat
  | [] => none
  | c :: cs => if c = ' ' then (margin cs).map (· + 1) else some 0

/-- What follows these spaces. -/
def content (cs : List Char) : List Char := cs.dropWhile (· == ' ')

inductive StartsRow : List Char → Prop
  | nil : StartsRow []
  | row (k : Nat) {c : Char} (cs : List Char) (h : IsInk c) : StartsRow (Write.spaces k ++ c :: cs)

theorem isInline_space : IsInline ' ' := by decide

theorem margin_spaces (k : Nat) (h : c ≠ ' ') : margin (Write.spaces k ++ c :: cs) = some k := by
  induction k with
  | zero => simp [Write.spaces, margin, h]
  | succ k ih =>
      rw [Write.spaces, List.replicate_succ, List.cons_append, margin, if_pos rfl, ← Write.spaces, ih]
      rfl

theorem content_spaces (k : Nat) (h : c ≠ ' ') : content (Write.spaces k ++ c :: cs) = c :: cs := by
  induction k with
  | zero => simp [Write.spaces, content, h]
  | succ k ih =>
      rw [Write.spaces, List.replicate_succ, List.cons_append, content, List.dropWhile_cons_of_pos rfl, ← Write.spaces]
      exact ih

theorem StartsRow.size_content_le (h : StartsRow cs) : size (content cs) ≤ size cs := by
  cases h with
  | nil => exact Nat.le_refl _
  | row k cs hc =>
      have hspaces : ∀ d ∈ Write.spaces k, IsInline d := fun d hd => List.eq_of_mem_replicate hd ▸ isInline_space
      rw [content_spaces k hc.ne_space, size_append hspaces]
      omega

theorem skipGap_space (flow allowed : Bool) :
    skipGap flow allowed .space (spotsFrom l n i (' ' :: cs)) =
      skipGap flow allowed .space (spotsFrom l (n + 1) (i + 1) cs) := by
  have hmark : (' ' == byteOrderMark) = false := by decide
  simp [spotsFrom_cons isInline_space, skipGap, hmark]

theorem skipGap_ink (h : IsInk c) (flow allowed : Bool) :
    skipGap flow allowed .space (spotsFrom l n i (c :: cs)) = (allowed, spotsFrom l n i (c :: cs)) := by
  simp [spotsFrom_cons h.isInline, skipGap, h.isInline.ne_byteOrderMark, h.ne_space, h.isInline.ne_tab, h.ne_hash,
    h.isInline.isBreak_eq]

theorem skipGap_row (h : StartsRow cs) (flow allowed : Bool) :
    skipGap flow allowed .space (spotsFrom l n i cs) =
      (allowed, spotsFrom l (n + (margin cs).getD 0) (i + (margin cs).getD 0) (content cs)) := by
  cases h with
  | nil => rfl
  | row k cs hc =>
      rw [margin_spaces k hc.ne_space, content_spaces k hc.ne_space, Option.getD_some]
      induction k generalizing n i with
      | zero => exact skipGap_ink hc flow allowed
      | succ k ih =>
          rw [Write.spaces, List.replicate_succ, List.cons_append, skipGap_space, ← Write.spaces, ih,
            Nat.add_right_comm n, Nat.add_right_comm i, Nat.add_assoc n, Nat.add_assoc i]

theorem skipGap_newline (h : StartsRow cs) (allowed : Bool) :
    skipGap false allowed .space (spotsFrom l n i ('\n' :: cs)) =
      (true, spotsFrom (l + 1) ((margin cs).getD 0) (i + 1 + (margin cs).getD 0) (content cs)) := by
  have hmark : ('\n' == byteOrderMark) = false := by decide
  have hskip : skipGap false allowed .space (spotsFrom l n i ('\n' :: cs)) =
      skipGap false true .space (spotsFrom (l + 1) 0 (i + 1) cs) := by
    simp [spotsFrom_newline, skipGap, hmark, isBreak]
  rw [hskip, skipGap_row h, Nat.zero_add]

theorem length_skipGap_le (flow allowed : Bool) (mode : Skipping) (ss : List Spot) :
    (skipGap flow allowed mode ss).2.length ≤ ss.length := by
  induction ss generalizing allowed mode with
  | nil => simp [skipGap]
  | cons s ss ih =>
      have hss (a : Bool) (m : Skipping) : (skipGap flow a m ss).2.length ≤ (s :: ss).length :=
        Nat.le_succ_of_le (ih a m)
      unfold skipGap
      split
      · split
        · split <;> exact hss _ _
        · exact hss _ _
      · split <;> exact hss _ _
      · split
        · exact hss _ _
        · split
          · exact hss _ _
          · split
            · exact hss _ _
            · split
              · exact hss _ _
              · exact Nat.le_refl _

end BuiltinCatalog.Yaml
