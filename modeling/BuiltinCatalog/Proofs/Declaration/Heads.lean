import BuiltinCatalog.Declaration.Span
import BuiltinCatalog.Proofs.Text.Search
import Mathlib.Data.List.TakeWhile

namespace BuiltinCatalog

theorem Keyword.next?_text (k : Keyword) (rest : Text) : Keyword.next? (k.text ++ rest) = some (k, rest) := by
  cases k <;> rfl

namespace Opening

structure IsWellFormed (o : Opening) : Prop where
  gap_ne : o.gap ≠ []
  gap_space : ∀ b ∈ o.gap, Text.isSpace b = true
  name_ne : o.name ≠ []
  name_word : ∀ b ∈ o.name, Text.isWord b = true
  pad_space : ∀ b ∈ o.pad, Text.isSpace b = true

theorem not_isWord_of_isSpace {b : Byte} (h : Text.isSpace b = true) : Text.isWord b = false := by
  simp only [Text.isSpace, Bool.or_eq_true, beq_iff_eq] at h
  rcases h with (((rfl | rfl) | rfl) | rfl) | rfl <;> rfl

theorem not_isSpace_of_isWord {b : Byte} (h : Text.isWord b = true) : Text.isSpace b = false := by
  cases hs : Text.isSpace b with
  | false => rfl
  | true => simp [not_isWord_of_isSpace hs] at h

theorem wellFormed_of_next? {t rest : Text} {o : Opening} (h : next? t = some (o, rest)) :
    o.IsWellFormed := by
  simp only [next?, Option.bind_eq_bind, Option.bind_eq_some_iff, Prod.exists] at h
  obtain ⟨k, u, hk, h⟩ := h
  split at h
  next b tail hb =>
    split at h
    case isTrue hp =>
      obtain ⟨rfl, rfl⟩ := by simpa using h
      exact ⟨hp.2.1, fun b hb => List.mem_takeWhile_imp hb, hp.2.2,
        fun b hb => List.mem_takeWhile_imp hb, fun b hb => List.mem_takeWhile_imp hb⟩
    case isFalse => simp at h
  next => simp at h

theorem next?_text {o : Opening} (h : o.IsWellFormed) (rest : Text) :
    next? (o.text ++ rest) = some (o, rest) := by
  obtain ⟨k, gap, name, pad⟩ := o
  obtain ⟨hg, hgs, hn, hnw, hps⟩ := h
  -- every stretch ends where the next one starts, since no byte is of two classes
  have hparen : ∀ b, ('('.toUInt8 :: rest).head? = some b → Text.isSpace b = false := by
    rintro b ⟨⟩
    rfl
  have hpad : ∀ b, (pad ++ '('.toUInt8 :: rest).head? = some b → Text.isWord b = false := by
    intro b hb
    cases pad with
    | nil =>
        cases hb
        rfl
    | cons c pad =>
        cases hb
        exact not_isWord_of_isSpace (hps b (by simp))
  have hname : ∀ b, (name ++ (pad ++ '('.toUInt8 :: rest)).head? = some b →
      Text.isSpace b = false := by
    intro b hb
    cases name with
    | nil => exact absurd rfl hn
    | cons c name =>
        cases hb
        exact not_isSpace_of_isWord (hnw b (by simp))
  have ht : text ⟨k, gap, name, pad⟩ ++ rest =
      k.text ++ (gap ++ (name ++ (pad ++ '('.toUInt8 :: rest))) := by
    simp only [text, List.append_assoc]
    rfl
  rw [ht]
  simp only [next?, Keyword.next?_text, Option.bind_eq_bind, Option.bind_some,
    Text.dropWhile_append_stop hgs hname, Text.takeWhile_append_stop hgs hname,
    Text.dropWhile_append_stop hnw hpad, Text.takeWhile_append_stop hnw hpad,
    Text.dropWhile_append_stop hps hparen, Text.takeWhile_append_stop hps hparen]
  simp [hg, hn]

theorem next?_eq_some_iff {t rest : Text} {o : Opening} :
    next? t = some (o, rest) ↔ o.IsWellFormed ∧ t = o.text ++ rest := by
  constructor
  · intro h
    exact ⟨wellFormed_of_next? h, next?_append h⟩
  · rintro ⟨h, rfl⟩
    exact next?_text h rest

end Opening

namespace Head

structure IsWellFormed (hd : Head) : Prop where
  opening : hd.opening.IsWellFormed
  first_close : ')'.toUInt8 ∉ hd.list

theorem next?_eq_some_iff {t rest : Text} {hd : Head} :
    next? t = some (hd, rest) ↔ hd.IsWellFormed ∧ t = hd.text ++ rest := by
  constructor
  · intro h
    refine ⟨?_, next?_append h⟩
    simp only [next?, Option.bind_eq_bind, Option.pure_def, Option.bind_eq_some_iff,
      Option.some.injEq, Prod.mk.injEq, Prod.exists] at h
    obtain ⟨o, u, ho, l, v, hl, rfl, rfl⟩ := h
    exact ⟨Opening.wellFormed_of_next? ho, Text.not_mem_of_cut?_byte hl⟩
  · rintro ⟨h, rfl⟩
    have ht : hd.text ++ rest = hd.opening.text ++ (hd.list ++ ')'.toUInt8 :: rest) := by
      simp only [text, List.append_assoc]
      rfl
    have hc : Text.cut? (Text.ofString ")") (hd.list ++ ')'.toUInt8 :: rest) = some (hd.list, rest) :=
      Text.cut?_byte rest h.first_close
    rw [ht, next?, Opening.next?_text h.opening]
    simp [hc]

theorem text_eq_concat (hd : Head) : ∃ u, hd.text = u ++ [')'.toUInt8] :=
  ⟨hd.opening.text ++ hd.list, by simp [text]; rfl⟩

/-- A head stands in a text at an offset, where a word may start. -/
structure At (t : Text) (p : Nat) (hd : Head) : Prop where
  wordStart : ∀ b, (t.take p).getLast? = some b → Text.isWord b = false
  wellFormed : hd.IsWellFormed
  isPrefix : hd.text <+: t.drop p

end Head

def StartsHead (t : Text) (p : Nat) : Prop := ∃ hd, Head.At t p hd

theorem Head.At.lt_length {t : Text} {p : Nat} {hd : Head} (h : hd.At t p) :
    p + hd.text.length ≤ t.length := by
  have hl := h.isPrefix.length_le
  have hp := hd.length_text_pos
  rw [List.length_drop] at hl
  omega

namespace FoundHead

structure IsIn (t : Text) (f : FoundHead) : Prop where
  head : f.head.At t f.start
  after : f.after = t.drop f.stop

/-- From an offset on, each find is the first head that starts no earlier than the one before it ends. -/
inductive Leftmost (t : Text) : Nat → List FoundHead → Prop
  | nil {pos : Nat} (none : ∀ p, pos ≤ p → ¬ StartsHead t p) : Leftmost t pos []
  | cons {pos : Nat} {f : FoundHead} {fs : List FoundHead} (le : pos ≤ f.start) (isIn : f.IsIn t)
      (first : ∀ p, pos ≤ p → p < f.start → ¬ StartsHead t p) (rest : Leftmost t f.stop fs) :
      Leftmost t pos (f :: fs)

theorem Leftmost.skip {t : Text} {pos : Nat} {fs : List FoundHead} (h : Leftmost t (pos + 1) fs)
    (hn : ¬ StartsHead t pos) : Leftmost t pos fs := by
  cases h with
  | nil none =>
      refine .nil fun p hp => ?_
      rcases Nat.eq_or_lt_of_le hp with rfl | hp
      · exact hn
      · exact none p hp
  | cons le isIn first rest =>
      refine .cons (Nat.le_of_succ_le le) isIn (fun p hp hlt => ?_) rest
      rcases Nat.eq_or_lt_of_le hp with rfl | hp
      · exact hn
      · exact first p hp hlt

theorem wordStart_append (u t : Text) :
    (∀ b, ((u ++ t).take u.length).getLast? = some b → Text.isWord b = false) ↔
      ∀ b, u.getLast? = some b → Text.isWord b = false := by
  rw [List.take_left']
  rfl

theorem all_leftmost (boundary : Bool) (u t : Text)
    (hb : boundary = true ↔ ∀ b, u.getLast? = some b → Text.isWord b = false) :
    Leftmost (u ++ t) u.length (all boundary u.length t) := by
  generalize hpos : u.length = pos
  fun_induction all boundary pos t generalizing u with
  | case1 boundary pos =>
      refine .nil fun p hp => ?_
      rintro ⟨hd, hat⟩
      have hl := hat.lt_length
      have hd' := hd.length_text_pos
      simp at hl
      omega
  | case2 boundary pos b rest head after h ih =>
      subst hpos
      split at h
      next hboundary =>
        obtain ⟨hw, ht⟩ := Head.next?_eq_some_iff.1 h
        have hat : head.At (u ++ b :: rest) u.length :=
          ⟨(wordStart_append u _).2 (hb.1 hboundary), hw, by rw [List.drop_left, ht]; simp⟩
        have hstop : (u ++ b :: rest).drop (u.length + head.text.length) = after := by
          rw [ht, ← List.append_assoc, ← List.length_append, List.drop_left]
        -- the search goes on after the closing parenthesis, where a word may start
        have hnext := ih (u ++ head.text)
          (by obtain ⟨v, hv⟩ := head.text_eq_concat; simp [hv]; rfl) (by simp)
        rw [List.append_assoc, ← ht] at hnext
        exact .cons (Nat.le_refl _) ⟨hat, hstop.symm⟩ (fun p hp hlt => absurd hp (by simpa using hlt))
          hnext
      next => simp at h
  | case3 boundary pos b rest h ih =>
      subst hpos
      have hnext := ih (u ++ [b]) (by simp) (by simp)
      rw [List.append_assoc, List.singleton_append] at hnext
      refine hnext.skip ?_
      rintro ⟨hd, hat⟩
      have hboundary : boundary = true := hb.2 ((wordStart_append u _).1 hat.wordStart)
      obtain ⟨v, hv⟩ := hat.isPrefix
      rw [List.drop_left] at hv
      rw [dif_pos hboundary, Head.next?_eq_some_iff.2 ⟨hat.wellFormed, hv.symm⟩] at h
      cases h

theorem all_spec (t : Text) : Leftmost t 0 (all true 0 t) := all_leftmost true [] t (by simp)

theorem Leftmost.mem {t : Text} {pos : Nat} {fs : List FoundHead} (h : Leftmost t pos fs)
    {f : FoundHead} (hf : f ∈ fs) : pos ≤ f.start ∧ f.IsIn t := by
  induction h with
  | nil => simp at hf
  | @cons pos g fs le isIn first rest ih =>
      rcases List.mem_cons.1 hf with rfl | hf
      · exact ⟨le, isIn⟩
      · have hstop : g.start ≤ g.stop := Nat.le_add_right ..
        exact ⟨(le.trans hstop).trans (ih hf).1, (ih hf).2⟩

theorem Leftmost.covers {t : Text} {pos p : Nat} {fs : List FoundHead} (h : Leftmost t pos fs)
    (hp : pos ≤ p) (hs : StartsHead t p) : ∃ f ∈ fs, f.start ≤ p ∧ p < f.stop := by
  induction h with
  | nil none => exact absurd hs (none p hp)
  | @cons pos g fs le isIn first rest ih =>
      rcases Nat.lt_or_ge p g.start with hlt | hge
      · exact absurd hs (first p hp hlt)
      · rcases Nat.lt_or_ge p g.stop with hlt | hge'
        · exact ⟨g, by simp, hge, hlt⟩
        · obtain ⟨f, hf, hc⟩ := ih hge'
          exact ⟨f, by simp [hf], hc⟩

theorem Leftmost.disjoint {t : Text} {pos : Nat} {fs : List FoundHead} (h : Leftmost t pos fs)
    {f g : FoundHead} (hf : f ∈ fs) (hg : g ∈ fs) : f = g ∨ f.stop ≤ g.start ∨ g.stop ≤ f.start := by
  induction h with
  | nil => simp at hf
  | @cons pos e fs le isIn first rest ih =>
      rcases List.mem_cons.1 hf with rfl | hf' <;> rcases List.mem_cons.1 hg with rfl | hg'
      · exact Or.inl rfl
      · exact Or.inr (Or.inl (rest.mem hg').1)
      · exact Or.inr (Or.inr (rest.mem hf').1)
      · exact ih hf' hg'

end FoundHead

namespace Keyword

def Absent (u : Text) : Prop := ∀ k : Keyword, ¬ k.text <:+: u

theorem isWord_of_mem {k : Keyword} {b : Byte} (h : b ∈ k.text) : Text.isWord b = true := by
  cases k with
  | function => exact List.all_eq_true.1 (by decide : Keyword.function.text.all Text.isWord = true) b h
  | constructor => exact List.all_eq_true.1 (by decide : Keyword.constructor.text.all Text.isWord = true) b h

theorem not_mem_text {b : Byte} (h : Text.isWord b = false) (k : Keyword) : b ∉ k.text := by
  intro hm
  simp [isWord_of_mem hm] at h

theorem absent_nil : Absent [] := by
  intro k
  cases k <;> decide

theorem Absent.tail {b : Byte} {u : Text} (h : Absent (b :: u)) : Absent u :=
  fun k hk => h k (List.infix_cons hk)

theorem Absent.append_cons {u v : Text} {b : Byte} (hu : Absent u) (hb : Text.isWord b = false)
    (hv : Absent v) : Absent (u ++ b :: v) :=
  fun k => Text.not_infix_append_cons (not_mem_text hb k) (hu k) (hv k)

theorem Absent.append_left {u v : Text} (hu : ∀ b ∈ u, Text.isWord b = false) (hv : Absent v) :
    Absent (u ++ v) := by
  induction u with
  | nil => exact hv
  | cons b u ih =>
      exact absent_nil.append_cons (hu b (by simp)) (ih fun c hc => hu c (by simp [hc]))

theorem isPrefix_of_next? {t rest : Text} {hd : Head} (h : Head.next? t = some (hd, rest)) :
    hd.opening.keyword.text <+: t := by
  rw [Head.next?_append h]
  simp [Head.text, Opening.text]

end Keyword

namespace FoundHead

theorem all_of_none {b : Byte} {t : Text} (h : Head.next? (b :: t) = none) (boundary : Bool) (pos : Nat) :
    all boundary pos (b :: t) = all (!Text.isWord b) (pos + 1) t := by
  rw [all]
  split
  next he => cases boundary <;> simp [h] at he
  next => rfl

theorem all_of_next? {t rest : Text} {hd : Head} (h : Head.next? t = some (hd, rest)) (pos : Nat) :
    all true pos t = ⟨pos, hd, rest⟩ :: all true (pos + hd.text.length) rest := by
  cases t with
  | nil =>
      have hn : Head.next? [] = none := rfl
      simp [hn] at h
  | cons b t =>
      rw [all]
      split
      next hd' rest' he =>
        obtain ⟨rfl, rfl⟩ : hd' = hd ∧ rest' = rest := by simpa [h, eq_comm] using he
        rfl
      next he => simp [h] at he

/-- A text without keywords is passed over, up to a byte after which a word may start. -/
theorem all_skip {u : Text} {e : Byte} (hu : Keyword.Absent u) (he : u.getLast? = some e)
    (hw : Text.isWord e = false) (rest : Text) (boundary : Bool) (pos : Nat) :
    all boundary pos (u ++ rest) = all true (pos + u.length) rest := by
  induction u generalizing boundary pos with
  | nil => simp at he
  | cons b u ih =>
      have hnone : Head.next? (b :: (u ++ rest)) = none := by
        rw [Option.eq_none_iff_forall_ne_some]
        rintro ⟨hd, after⟩ h
        have hp := Text.isPrefix_of_append (Keyword.isPrefix_of_next? h) (List.mem_of_getLast? he)
          (Keyword.not_mem_text hw _)
        exact hu _ hp.isInfix
      rw [List.cons_append, all_of_none hnone]
      cases u with
      | nil =>
          obtain rfl : b = e := by simpa using he
          simp [hw]
      | cons c u =>
          rw [ih hu.tail (by simpa using he), List.length_cons (a := b)]
          congr 1
          omega

theorem all_skip_blank {u : Text} (hu : ∀ b ∈ u, Text.isWord b = false) (rest : Text) (pos : Nat) :
    all true pos (u ++ rest) = all true (pos + u.length) rest := by
  cases he : u.getLast? with
  | none => simp [List.getLast?_eq_none_iff.1 he]
  | some e =>
      have ha : Keyword.Absent u := by
        simpa using Keyword.Absent.append_left hu Keyword.absent_nil
      exact all_skip ha he (hu e (List.mem_of_getLast? he)) rest true pos

end FoundHead

end BuiltinCatalog
