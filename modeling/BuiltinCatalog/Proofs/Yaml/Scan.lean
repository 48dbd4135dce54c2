import BuiltinCatalog.Proofs.Yaml.Scalar

namespace BuiltinCatalog.Yaml

namespace Scanner

variable {s s' s'' : Scanner} {ts : List Token} {is : List Nat} {l n i : Nat} {c : Char} {cs : List Char}
  {allowed : Bool}

/-- A scanner gets to another one by tokens of which each takes up a character. -/
def Leads (s s' : Scanner) : Prop :=
  ∃ k, s'.rest.length + k ≤ s.rest.length ∧ ∀ fuel, run (fuel + k) s = run fuel s'

theorem Leads.refl (s : Scanner) : Leads s s := ⟨0, Nat.le_refl _, fun _ => rfl⟩

theorem Leads.trans (h : Leads s s') (h' : Leads s' s'') : Leads s s'' := by
  obtain ⟨k, hlen, hrun⟩ := h
  obtain ⟨k', hlen', hrun'⟩ := h'
  refine ⟨k' + k, by omega, fun fuel => ?_⟩
  rw [← Nat.add_assoc, hrun, hrun']

theorem Leads.next {place : Spot} {after : List Spot}
    (hgap : skipGap s.inFlow s.allowed .space s.rest = (allowed, place :: after))
    (htoken : (unroll { s with allowed := allowed, rest := place :: after } (some place.column)).token place after =
      some s')
    (hlast : s'.tokens.getLast? ≠ some .streamEnd) (hlen : s'.rest.length ≤ after.length) : Leads s s' := by
  have hnext : s.next? = some s' := by rw [next?, hgap, ← htoken]
  have hskip := length_skipGap_le s.inFlow s.allowed .space s.rest
  rw [hgap, List.length_cons] at hskip
  refine ⟨1, by omega, fun fuel => ?_⟩
  rw [run, hnext]
  exact if_neg (by simpa using hlast)

/-- A scanner stands before a row: its tokens and blocks agree with the given ones once the blocks that are deeper
than the row are closed. -/
structure Ready (s : Scanner) (ts : List Token) (is : List Nat) (limit : Option Nat) (ss : List Spot) : Prop where
  gap : skipGap false s.allowed .space s.rest = (true, ss)
  indents : (closeBlocks limit s.indents).1 = (closeBlocks limit is).1
  tokens : s.tokens ++ (closeBlocks limit s.indents).2 = ts ++ (closeBlocks limit is).2
  candidate : s.candidate.any (·.required) = false
  outer : s.outer = []

/-- A scanner gets to the row that a text starts with, or to the end if it has none. -/
def Arrives (s : Scanner) (ts : List Token) (is : List Nat) (cs : List Char) : Prop :=
  ∃ s' l i, Leads s s' ∧ Ready s' ts is (margin cs) (spotsFrom l ((margin cs).getD 0) i (content cs))

def standing (l n i : Nat) (allowed : Bool) (ts : List Token) (is : List Nat) (cs : List Char) : Scanner where
  rest := spotsFrom l n i cs
  tokens := ts
  allowed := allowed
  indents := is

/-- A scanner gets to a place within a row, which is deeper than the open blocks. -/
def Inside (s : Scanner) (allowed : Bool) (ts : List Token) (is : List Nat) (cs : List Char) : Prop :=
  ∃ l n i, (∀ k ∈ is.head?, k < n) ∧ Leads s (standing l n i allowed ts is cs)

theorem closeBlocks_cons {limit : Option Nat} {k : Nat} (h : ∀ m ∈ limit, m < k) :
    closeBlocks limit (k :: is) = ((closeBlocks limit is).1, .blockEnd :: (closeBlocks limit is).2) := by
  rw [closeBlocks, if_pos]
  cases limit with
  | none => rfl
  | some m => simpa using h m rfl

theorem closeBlocks_of_le (h : ∀ k ∈ is.head?, k ≤ n) : closeBlocks (some n) is = (is, []) := by
  cases is with
  | nil => rfl
  | cons k is =>
      rw [closeBlocks, if_neg]
      simpa using h k rfl

theorem unroll_eq (h : ∀ k ∈ s.indents.head?, k ≤ n) : s.unroll (some n) = s := by
  rw [unroll, closeBlocks_of_le h]
  simp

theorem unroll_of_inFlow {limit : Option Nat} (h : s.inFlow = true) : s.unroll limit = s := if_pos h

theorem Arrives.close {k : Nat} (h : Arrives s ts (k :: is) cs) (hk : ∀ m ∈ margin cs, m < k) :
    Arrives s (ts ++ [.blockEnd]) is cs := by
  obtain ⟨s', l, i, hleads, hready⟩ := h
  refine ⟨s', l, i, hleads, hready.gap, ?_, ?_, hready.candidate, hready.outer⟩
  · rw [hready.indents, closeBlocks_cons hk]
  · rw [hready.tokens, closeBlocks_cons hk, List.append_assoc, List.singleton_append]

theorem Arrives.next (h : Arrives s ts is (Write.spaces n ++ c :: cs)) (hc : IsInk c) (hdeep : ∀ k ∈ is.head?, k ≤ n) :
    ∃ l i candidate, candidate.any Candidate.required = false ∧ ∀ s',
      token { standing l n i true ts is (c :: cs) with candidate := candidate } ⟨c, l, n, i⟩
        (spotsFrom l (n + 1) (i + 1) cs) = some s' →
      s'.tokens.getLast? ≠ some .streamEnd → s'.rest.length ≤ size cs → Leads s s' := by
  obtain ⟨s₀, l, i, hleads, hready⟩ := h
  rw [margin_spaces n hc.ne_space, content_spaces n hc.ne_space] at hready
  obtain ⟨hgap, hindents, htokens, hcandidate, houter⟩ := hready
  refine ⟨l, i, s₀.candidate, hcandidate, fun s' htoken hlast hlen => hleads.trans ?_⟩
  have hflow : s₀.inFlow = false := by simp [inFlow, houter]
  rw [closeBlocks_of_le hdeep] at hindents htokens
  rw [List.append_nil] at htokens
  rw [Option.getD_some, spotsFrom_cons hc.isInline] at hgap
  refine Leads.next (hflow ▸ hgap) ?_ hlast (by rwa [length_spotsFrom])
  rw [← htoken, standing, spotsFrom_cons hc.isInline]
  simp [unroll, inFlow, houter, hindents, htokens]

theorem Inside.next (h : Inside s allowed ts is (' ' :: c :: cs)) (hc : IsInk c) :
    ∃ l n i, (∀ k ∈ is.head?, k + 1 < n) ∧ ∀ s',
      (standing l n i allowed ts is (c :: cs)).token ⟨c, l, n, i⟩ (spotsFrom l (n + 1) (i + 1) cs) = some s' →
      s'.tokens.getLast? ≠ some .streamEnd → s'.rest.length ≤ size cs → Leads s s' := by
  obtain ⟨l, n, i, hdeep, hleads⟩ := h
  refine ⟨l, n + 1, i + 1, fun k hk => Nat.succ_lt_succ (hdeep k hk), fun s' htoken hlast hlen => hleads.trans ?_⟩
  have hgap : skipGap false allowed .space (spotsFrom l (n + 1) (i + 1) (c :: cs)) = _ := skipGap_ink hc false allowed
  rw [← skipGap_space, spotsFrom_cons hc.isInline] at hgap
  refine Leads.next hgap ?_ hlast (by rwa [length_spotsFrom])
  rw [unroll_eq fun k hk => Nat.le_succ_of_le (Nat.le_of_lt (hdeep k hk)), ← htoken, standing, standing,
    spotsFrom_cons hc.isInline]

/-- A colon ends a key before a line break, or before a space and what the key stands for. -/
inductive EndsKey : List Char → Prop
  | newline (cs : List Char) : EndsKey ('\n' :: cs)
  | space {c : Char} (cs : List Char) (h : IsInk c) : EndsKey (' ' :: c :: cs)

theorem EndsKey.atGap_eq (h : EndsKey cs) (l n i : Nat) : atGap (spotsFrom l n i cs) = true := by
  cases h with
  | newline cs =>
      rw [spotsFrom_newline]
      rfl
  | space cs h => rw [atGap_cons isInline_space, beq_self_eq_true]

theorem skipLineComment_eq {ss : List Spot} (h : Token.isHead '#' (dropBlanks ss) = false) :
    skipLineComment ss = ss := by
  have hdrop : ss.drop (ss.takeWhile fun s => isBlank s.char).length = dropBlanks ss :=
    calc ss.drop (ss.takeWhile fun s => isBlank s.char).length
      _ = ((ss.takeWhile fun s => isBlank s.char) ++ dropBlanks ss).drop
            (ss.takeWhile fun s => isBlank s.char).length := by rw [dropBlanks, List.takeWhile_append_dropWhile]
      _ = dropBlanks ss := List.drop_left
  simp only [skipLineComment, hdrop, h, Bool.and_false, Bool.false_eq_true, if_false]

theorem skipLineComment_ink (h : IsInk c) :
    skipLineComment (spotsFrom l n i (c :: cs)) = spotsFrom l n i (c :: cs) := by
  refine skipLineComment_eq ?_
  rw [spotsFrom_cons h.isInline, dropBlanks, List.dropWhile_cons_of_neg (by simp [h.isBlank_eq])]
  simp [Token.isHead, h.ne_hash]

theorem skipLineComment_newline : skipLineComment (spotsFrom l n i ('\n' :: cs)) = spotsFrom l n i ('\n' :: cs) := by
  refine skipLineComment_eq ?_
  rw [spotsFrom_newline]
  rfl

theorem EndsKey.skipLineComment_eq (h : EndsKey cs) : skipLineComment (spotsFrom l n i cs) = spotsFrom l n i cs := by
  cases h with
  | newline cs => exact skipLineComment_newline
  | space cs h =>
      refine Scanner.skipLineComment_eq ?_
      rw [spotsFrom_cons isInline_space, dropBlanks, List.dropWhile_cons_of_pos rfl, spotsFrom_cons h.isInline,
        List.dropWhile_cons_of_neg (by simp [h.isBlank_eq])]
      simp [Token.isHead, h.ne_hash]

theorem token_plain (h : IsPlain (c :: cs)) (houter : s.outer = []) (hmark : n ≠ 0 ∨ c ≠ '-' ∧ c ≠ '.')
    (more : List Char) :
    s.token ⟨c, l, n, i⟩ (spotsFrom l (n + 1) (i + 1) (cs ++ more)) =
      s.plainScalar ⟨c, l, n, i⟩ (spotsFrom l n i (c :: cs ++ more)) := by
  obtain ⟨hink, hstart⟩ := h.isInk
  have hne (d : Char) (hd : d ∈ Style.startMarks) : (c == d) = false := by
    rw [beq_eq_false_iff_ne]
    rintro rfl
    exact hstart hd
  have hflow : s.inFlow = false := by simp [inFlow, houter]
  have hdash : marksDocument '-' (⟨c, l, n, i⟩ :: spotsFrom l (n + 1) (i + 1) (cs ++ more)) = false :=
    marksDocument_eq_false (hmark.imp id And.left)
  have hdots : marksDocument '.' (⟨c, l, n, i⟩ :: spotsFrom l (n + 1) (i + 1) (cs ++ more)) = false :=
    marksDocument_eq_false (hmark.imp id And.right)
  have hword (d : Char) (hd : d = '-' ∨ d = '?' ∨ d = ':') :
      (c == d && atGap (spotsFrom l (n + 1) (i + 1) (cs ++ more))) = false := by
    by_cases hc : c = d
    · rw [h.atGap_eq (hc ▸ hd), Bool.and_false]
    · rw [beq_eq_false_iff_ne.2 hc, Bool.false_and]
  have hstarts : startsPlain false c (spotsFrom l (n + 1) (i + 1) (cs ++ more)) = true := by
    rw [startsPlain]
    by_cases hc : c = '-' ∨ c = '?' ∨ c = ':'
    · rw [h.atGap_eq hc]
      rcases hc with rfl | rfl | rfl <;> rfl
    · have hother : indicators.contains c = false := by
        rw [← Bool.not_eq_true, List.contains_iff_mem]
        intro hmem
        simp [indicators, Style.startMarks] at hmem hstart hc
        tauto
      rw [hink.isBlank_eq, hother]
      rfl
  simp only [token, hflow, hdash, hdots, hne '%' (by decide), hne '[' (by decide), hne '{' (by decide),
    hne ']' (by decide), hne '}' (by decide), hne ',' (by decide), hne '*' (by decide), hne '&' (by decide),
    hne '!' (by decide), hne '|' (by decide), hne '>' (by decide), hne singleMark (by decide),
    hne doubleMark (by decide), hword '-' (by decide), hword '?' (by decide), hword ':' (by decide), hstarts,
    Bool.false_or, Bool.and_false, Bool.false_and, Bool.false_eq_true, if_false, if_true, List.cons_append,
    spotsFrom_cons hink.isInline]

/-- A text that can be a key of a block mapping. At the start of a line or a document it is taken for no mark. -/
structure IsKey (cs : List Char) : Prop where
  isPlain : IsPlain cs
  unmarked : ∀ c ∈ cs.head?, c.toNat < 128 ∧ c ≠ '-' ∧ c ≠ '.'
  isShort : cs.length ≤ 1024

instance (cs : List Char) : Decidable (IsKey cs) :=
  decidable_of_iff (IsPlain cs ∧ cs.head?.all (fun c => c.toNat < 128 ∧ c ≠ '-' ∧ c ≠ '.') = true ∧ cs.length ≤ 1024)
    ⟨fun ⟨h, h', h''⟩ => ⟨h, by simpa [Option.all_eq_true] using h', h''⟩,
      fun ⟨h, h', h''⟩ => ⟨h, by simpa [Option.all_eq_true] using h', h''⟩⟩

structure Key where
  text : List Char
  isKey : IsKey text

namespace Key

def value (k : Key) : Text := Text.ofChars k.text

def tokens (k : Key) : List Token := [.key, .scalar false k.value, .value]

end Key

theorem insertIdx_length (ts us : List Token) (t : Token) : (ts ++ us).insertIdx ts.length t = ts ++ t :: us := by
  induction ts with
  | nil => rfl
  | cons u ts ih => rw [List.cons_append, List.length_cons, List.insertIdx_succ_cons, ih, List.cons_append]

theorem dropCandidate_eq (h : s.candidate.any Candidate.required = false) :
    s.dropCandidate = some { s with candidate := none } := if_neg (by rw [h]; exact Bool.false_ne_true)

theorem noteCandidate_eq {place : Spot} (hallowed : s.allowed = true) (houter : s.outer = [])
    (h : s.candidate.any Candidate.required = false) :
    s.noteCandidate place =
      some { s with candidate := some ⟨s.indents.head? == some place.column, s.tokens.length, place⟩ } := by
  simp [noteCandidate, hallowed, dropCandidate_eq h, inFlow, houter]

theorem noteCandidate_of_not_allowed {place : Spot} (h : s.allowed = false) : s.noteCandidate place = some s := by
  simp [noteCandidate, h]

theorem plainScalar_key (hplain : IsPlain (c :: cs)) {more : List Char} (hmore : EndsKey more) (houter : s.outer = [])
    (hallowed : s.allowed = true) (hcandidate : s.candidate.any Candidate.required = false)
    (hdeep : ∀ k ∈ s.indents.head?, k ≤ n) :
    s.plainScalar ⟨c, l, n, i⟩ (spotsFrom l n i (c :: cs ++ ':' :: more)) =
      some { s with
        rest := spotsFrom l (n + (cs.length + 1)) (i + (cs.length + 1)) (':' :: more)
        tokens := s.tokens ++ [.scalar false (Text.ofChars (c :: cs))]
        allowed := false
        candidate := some ⟨s.indents.head? == some n, s.tokens.length, ⟨c, l, n, i⟩⟩ } := by
  have hindent : s.indents.head?.elim 0 (· + 1) ≤ n + 1 := by
    cases hhead : s.indents.head? with
    | none => exact Nat.zero_le _
    | some k => exact Nat.succ_le_succ (hdeep k hhead)
  rw [plainScalar, noteCandidate_eq hallowed houter hcandidate]
  simp only [Option.bind_eq_bind, Option.bind_some, inFlow, houter, List.isEmpty_nil, Bool.not_true]
  rw [hplain.plain_eq hindent, plain_colon (hmore.atGap_eq _ _ _)]
  simp [emit, leave, skipLineComment_ink (show IsInk ':' by decide)]

def openAt (n : Nat) (is : List Nat) : List Nat := if is.head?.any (n ≤ ·) then is else n :: is

def opening (t : Token) (n : Nat) (is : List Nat) : List Token := if is.head?.any (n ≤ ·) then [] else [t]

theorem roll_eq {us : List Token} {t : Token} (houter : s.outer = []) (htokens : s.tokens = ts ++ us) :
    s.roll n ts.length t = { s with tokens := ts ++ opening t n s.indents ++ us, indents := openAt n s.indents } := by
  have hflow : s.inFlow = false := by simp [inFlow, houter]
  rw [roll, openAt, opening, hflow, Bool.false_or]
  split
  next => simp [← htokens]
  next => simp [htokens, insertIdx_length]

/-- The colon after a key marks it as one, and opens a block mapping unless the key belongs to an open one. -/
theorem token_colon {t : Token} {required : Bool} {place : Spot} (hcs : EndsKey cs) (houter : s.outer = [])
    (htokens : s.tokens = ts ++ [t]) (hcandidate : s.candidate = some ⟨required, ts.length, place⟩)
    (hline : place.line = l) (hnear : i ≤ place.index + 1024) :
    s.token ⟨':', l, n, i⟩ (spotsFrom l (n + 1) (i + 1) cs) =
      some { s with
        rest := spotsFrom l (n + 1) (i + 1) cs
        tokens := ts ++ opening .mappingStart place.column s.indents ++ [.key, t, .value]
        allowed := false
        indents := openAt place.column s.indents
        candidate := none } := by
  have hdash : marksDocument '-' (⟨':', l, n, i⟩ :: spotsFrom l (n + 1) (i + 1) cs) = false :=
    marksDocument_eq_false (.inr (show ':' ≠ '-' by decide))
  have hdots : marksDocument '.' (⟨':', l, n, i⟩ :: spotsFrom l (n + 1) (i + 1) cs) = false :=
    marksDocument_eq_false (.inr (show ':' ≠ '.' by decide))
  have hisNear : isNear ⟨required, ts.length, place⟩ ⟨':', l, n, i⟩ = true := by simp [isNear, hnear, hline]
  have htoken : s.token ⟨':', l, n, i⟩ (spotsFrom l (n + 1) (i + 1) cs) =
      some (s.simpleValue ⟨required, ts.length, place⟩ (spotsFrom l (n + 1) (i + 1) cs)) := by
    simp [token, hdash, hdots, hcs.atGap_eq, value, hcandidate, hisNear]
  simp only [htoken, simpleValue, htokens, insertIdx_length]
  rw [roll_eq (by exact houter) rfl]
  simp [emit, leave, hcs.skipLineComment_eq]

theorem head?_openAt (h : ∀ k ∈ is.head?, k ≤ n) : (openAt n is).head? = some n := by
  rw [openAt]
  split
  next hopen =>
    cases is with
    | nil => cases hopen
    | cons k is =>
        have hle := h k rfl
        have hge : n ≤ k := by simpa using hopen
        rw [List.head?_cons, Nat.le_antisymm hle hge]
  next => rfl

theorem Arrives.keyText (k : Key) (h : Arrives s ts is (Write.spaces n ++ (k.text ++ ':' :: cs)))
    (hdeep : ∀ m ∈ is.head?, m ≤ n) (hcs : EndsKey cs) :
    ∃ n' i' required place, n < n' ∧ place.column = n ∧ i' ≤ place.index + 1024 ∧
      Leads s { standing place.line n' i' false (ts ++ [.scalar false k.value]) is (':' :: cs) with
        candidate := some ⟨required, ts.length, place⟩ } := by
  obtain ⟨c, text, htext⟩ := List.exists_cons_of_ne_nil k.isKey.isPlain.ne_nil
  have hplain := htext ▸ k.isKey.isPlain
  have hmark := (k.isKey.unmarked c (by rw [htext]; rfl)).2
  have hshort := k.isKey.isShort
  have hinline := (List.forall_mem_cons.1 hplain.isInline).2
  rw [htext, List.cons_append] at h
  rw [htext, List.length_cons] at hshort
  obtain ⟨l, i, candidate, hcandidate, hnext⟩ := h.next hplain.isInk.1 hdeep
  refine ⟨n + (text.length + 1), i + (text.length + 1), is.head? == some n, ⟨c, l, n, i⟩, by omega, rfl,
    Nat.add_le_add_left hshort i, hnext _ ?_ (by simp [standing]) ?_⟩
  · rw [token_plain hplain rfl (.inr hmark), plainScalar_key hplain hcs rfl rfl hcandidate hdeep, Key.value, htext]
    rfl
  · rw [standing, length_spotsFrom, size_append hinline]
    omega

theorem Arrives.key (k : Key) (h : Arrives s ts is (Write.spaces n ++ (k.text ++ ':' :: cs)))
    (hdeep : ∀ m ∈ is.head?, m ≤ n) (hcs : EndsKey cs) :
    Inside s false (ts ++ opening .mappingStart n is ++ k.tokens) (openAt n is) cs := by
  obtain ⟨n', i', required, place, hn', rfl, hnear, hleads⟩ := h.keyText k hdeep hcs
  have hcolon : IsInk ':' := by decide
  have hgap : skipGap false false .space (spotsFrom place.line n' i' (':' :: cs)) = _ := skipGap_ink hcolon false false
  rw [spotsFrom_cons hcolon.isInline] at hgap
  rw [standing, spotsFrom_cons hcolon.isInline] at hleads
  refine ⟨place.line, n' + 1, i' + 1, ?_, hleads.trans (Leads.next hgap ?_ ?_ ?_)⟩
  · rw [head?_openAt hdeep]
    rintro m ⟨⟩
    omega
  · have hbeyond : ∀ m ∈ is.head?, m ≤ n' := fun m hm => Nat.le_trans (hdeep m hm) (Nat.le_of_lt hn')
    rw [unroll_eq (by exact hbeyond)]
    exact token_colon hcs rfl rfl rfl rfl hnear
  · simp [standing, Key.tokens]
  · exact Nat.le_refl _

theorem skipGap_content (h : StartsRow cs) (allowed : Bool) :
    skipGap false allowed .space (spotsFrom l n i (content cs)) = (allowed, spotsFrom l n i (content cs)) := by
  cases h with
  | nil => rfl
  | row k cs hc => rw [content_spaces k hc.ne_space, skipGap_ink hc]

theorem exists_noteCandidate (allowed : Bool) (ts : List Token) (cs : List Char) {place : Spot}
    (hplace : is.head? ≠ some place.column) :
    ∃ candidate, candidate.any Candidate.required = false ∧
      (standing l n i allowed ts is cs).noteCandidate place =
        some { standing l n i allowed ts is cs with candidate := candidate } := by
  cases allowed with
  | true =>
      refine ⟨_, ?_, noteCandidate_eq rfl rfl rfl⟩
      simpa [standing] using hplace
  | false => exact ⟨none, rfl, noteCandidate_of_not_allowed rfl⟩

theorem token_single (ss : List Spot) :
    s.token ⟨singleMark, l, n, i⟩ ss =
      s.node ⟨singleMark, l, n, i⟩
        ((singleQuoted [] .none ss).map fun (t, r) => (.scalar true (Text.ofChars t), r)) := by
  simp +decide [token, marksDocument_eq_false]

theorem token_double (ss : List Spot) :
    s.token ⟨doubleMark, l, n, i⟩ ss =
      s.node ⟨doubleMark, l, n, i⟩
        ((doubleQuoted [] .none .text ss).map fun (t, r) => (.scalar true (Text.ofChars t), r)) := by
  simp +decide [token, marksDocument_eq_false]

theorem Inside.quoted {mark : Char} {w : List Char} {t : Token}
    (h : Inside s allowed ts (n :: is) (' ' :: mark :: (w ++ '\n' :: cs))) (hmark : IsInk mark)
    (hw : ∀ c ∈ w, IsInline c) (ht : t ≠ .streamEnd) (hcs : StartsRow cs)
    (hread : ∀ (s : Scanner) l n i, 0 < n → ∃ n' i',
      s.token ⟨mark, l, n, i⟩ (spotsFrom l (n + 1) (i + 1) (w ++ '\n' :: cs)) =
        s.node ⟨mark, l, n, i⟩ (some (t, spotsFrom l n' i' ('\n' :: cs)))) :
    Arrives s (ts ++ [t]) (n :: is) cs := by
  obtain ⟨l, m, i, hdeep, hnext⟩ := h.next hmark
  have hm := hdeep n rfl
  obtain ⟨n', i', htoken⟩ := hread (standing l m i allowed ts (n :: is) (mark :: (w ++ '\n' :: cs))) l m i (by omega)
  obtain ⟨candidate, hcandidate, hnote⟩ := exists_noteCandidate (l := l) (n := m) (i := i) allowed ts
    (mark :: (w ++ '\n' :: cs)) (show (n :: is).head? ≠ some (⟨mark, l, m, i⟩ : Spot).column by simp; omega)
  refine ⟨_, l + 1, i' + 1 + (margin cs).getD 0, hnext _ (htoken.trans (by rw [node, hnote]; rfl)) ?_ ?_, ?_⟩
  · simp [emit, leave, ht]
  · simp [emit, leave, skipLineComment_newline, length_spotsFrom, size_append hw]
  · refine ⟨?_, rfl, rfl, hcandidate, rfl⟩
    simp [emit, leave, skipLineComment_newline, skipGap_newline hcs]

theorem Inside.plain {w : List Char} (h : Inside s allowed ts (n :: is) (' ' :: (w ++ '\n' :: cs))) (hw : IsPlain w)
    (hcs : StartsRow cs) (hmargin : ∀ k ∈ margin cs, k ≤ n) :
    Arrives s (ts ++ [.scalar false (Text.ofChars w)]) (n :: is) cs := by
  obtain ⟨c, text, rfl⟩ := List.exists_cons_of_ne_nil hw.ne_nil
  rw [List.cons_append] at h
  obtain ⟨l, m, i, hdeep, hnext⟩ := h.next hw.isInk.1
  have hm := hdeep n rfl
  obtain ⟨candidate, hcandidate, hnote⟩ := exists_noteCandidate (l := l) (n := m) (i := i) allowed ts
    (c :: (text ++ '\n' :: cs)) (show (n :: is).head? ≠ some (⟨c, l, m, i⟩ : Spot).column by simp; omega)
  have hplain : Yaml.plain false (n + 1) [] .none (spotsFrom l m i (c :: text ++ '\n' :: cs)) = _ :=
    (hw.plain_eq (by omega) ('\n' :: cs)).trans (plain_newline hcs fun k hk => Nat.lt_succ_of_le (hmargin k hk))
  have hscalar : (standing l m i allowed ts (n :: is) (c :: (text ++ '\n' :: cs))).plainScalar ⟨c, l, m, i⟩
      (spotsFrom l m i (c :: text ++ '\n' :: cs)) =
        some { standing (l + 1) ((margin cs).getD 0) (i + (c :: text).length + 1 + (margin cs).getD 0) true
          (ts ++ [.scalar false (Text.ofChars (c :: text))]) (n :: is) (content cs) with candidate := candidate } := by
    rw [plainScalar, hnote, Option.bind_eq_bind, Option.bind_some]
    exact (congrArg (Option.bind · _) hplain).trans rfl
  refine ⟨_, l + 1, _, hnext _ ((token_plain hw rfl (.inl (by omega)) _).trans hscalar) (by simp [standing]) ?_,
    skipGap_content hcs true, rfl, rfl, hcandidate, rfl⟩
  have hle := hcs.size_content_le
  rw [standing, length_spotsFrom, size_append fun d hd => hw.isInline d (List.mem_cons_of_mem c hd), size_newline]
  omega

theorem Inside.word (w : Word) (h : Inside s allowed ts (n :: is) (' ' :: (w.written ++ '\n' :: cs)))
    (hcs : StartsRow cs) (hmargin : ∀ k ∈ margin cs, k ≤ n) : Arrives s (ts ++ [w.token]) (n :: is) cs := by
  obtain ⟨written, quoted, text, hspells⟩ := w
  have hinline := hspells.isInline
  cases hspells with
  | plain hplain => exact h.plain hplain hcs hmargin
  | single htext =>
      rw [List.cons_append] at h
      refine h.quoted isInk_singleMark (List.forall_mem_cons.1 hinline).2 nofun hcs fun s l m i hm => ?_
      rw [token_single, List.append_assoc, List.singleton_append, singleQuoted_eq htext (by omega)]
      exact ⟨_, _, rfl⟩
  | double htext =>
      rw [List.cons_append] at h
      refine h.quoted isInk_doubleMark (List.forall_mem_cons.1 hinline).2 nofun hcs fun s l m i hm => ?_
      rw [token_double, List.append_assoc, List.singleton_append, doubleQuoted_eq htext (by omega)]
      exact ⟨_, _, rfl⟩

/-- What is written after a key at column `n` reads as the given tokens. -/
structure ReadsValue (n : Nat) (w : List Char) (us : List Token) : Prop where
  ends : ∀ cs, EndsKey (w ++ cs)
  arrives : ∀ {s ts is cs}, StartsRow cs → (∀ k ∈ margin cs, k ≤ n) → Inside s false ts (n :: is) (w ++ cs) →
    Arrives s (ts ++ us) (n :: is) cs

/-- A row at column `n`, with the deeper rows that belong to it, reads as the given tokens. If it is the first of its
block, a mark of this comes before them. -/
structure ReadsRow (start : Token) (n : Nat) (w : List Char) (us : List Token) : Prop where
  starts : ∃ c ds, w = Write.spaces n ++ c :: ds ∧ IsInk c
  arrives : ∀ {s ts is cs}, (∀ k ∈ is.head?, k ≤ n) → StartsRow cs → (∀ k ∈ margin cs, k ≤ n) →
    Arrives s ts is (w ++ cs) → Arrives s (ts ++ opening start n is ++ us) (openAt n is) cs

theorem readsValue_word (n : Nat) (w : Word) : ReadsValue n (' ' :: (w.written ++ ['\n'])) [w.token] where
  ends cs := by
    obtain ⟨c, ds, hw, hc⟩ := w.spells.exists_head
    rw [hw]
    exact .space _ hc
  arrives hcs hmargin h := by
    rw [List.cons_append, List.append_assoc, List.singleton_append] at h
    exact h.word w hcs hmargin

theorem Inside.newline (h : Inside s allowed ts is ('\n' :: cs)) (hcs : StartsRow cs) : Arrives s ts is cs := by
  obtain ⟨l, n, i, -, hleads⟩ := h
  exact ⟨_, l + 1, _, hleads, skipGap_newline hcs allowed, rfl, rfl, rfl, rfl⟩

theorem token_openBracket (ss : List Spot) : s.token ⟨'[', l, n, i⟩ ss = s.openFlow ⟨'[', l, n, i⟩ ss .openBracket := by
  simp +decide [token, marksDocument_eq_false]

theorem token_closeBracket (ss : List Spot) : s.token ⟨']', l, n, i⟩ ss = s.closeFlow ss .closeBracket := by
  simp +decide [token, marksDocument_eq_false]

theorem closeFlow_eq {ss : List Spot} {t : Token} (hcandidate : s.candidate = none) (houter : s.outer = [none]) :
    s.closeFlow ss t =
      some { s with rest := skipLineComment ss, tokens := s.tokens ++ [t], allowed := false, outer := [] } := by
  simp [closeFlow, dropCandidate, hcandidate, houter, emit, leave]

theorem Inside.openBracket (h : Inside s false ts is (' ' :: '[' :: ']' :: cs)) :
    ∃ l n i, Leads s { standing l n i true (ts ++ [.openBracket]) is (']' :: cs) with outer := [none] } := by
  have hclose : IsInk ']' := by decide
  obtain ⟨l, n, i, -, hnext⟩ := h.next (by decide)
  refine ⟨l, n + 1, i + 1, hnext _ ?_ (by simp [standing]) (Nat.le_of_eq (length_spotsFrom ..))⟩
  rw [token_openBracket, openFlow, noteCandidate_of_not_allowed rfl]
  simp [standing, emit, leave, skipLineComment_ink hclose]

theorem readsValue_empty (n : Nat) : ReadsValue n [' ', '[', ']', '\n'] [.openBracket, .closeBracket] where
  ends cs := .space _ (by decide)
  arrives {s ts is cs} hcs hmargin h := by
    have hclose : IsInk ']' := by decide
    obtain ⟨l, m, i, hleads⟩ := Inside.openBracket h
    have hgap : skipGap true true .space (spotsFrom l m i (']' :: '\n' :: cs)) = _ := skipGap_ink hclose true true
    rw [spotsFrom_cons hclose.isInline] at hgap
    refine ⟨standing l (m + 1) (i + 1) false (ts ++ [.openBracket, .closeBracket]) (n :: is) ('\n' :: cs), l + 1, _,
      hleads.trans (Leads.next hgap ?_ (by simp [standing]) (Nat.le_refl _)),
      skipGap_newline hcs false, rfl, rfl, rfl, rfl⟩
    rw [unroll_of_inFlow rfl, token_closeBracket, closeFlow_eq rfl rfl, skipLineComment_newline]
    simp [standing]

theorem token_dash (hcolumn : n ≠ 0) (hcs : atGap (spotsFrom l (n + 1) (i + 1) cs) = true) :
    s.token ⟨'-', l, n, i⟩ (spotsFrom l (n + 1) (i + 1) cs) =
      s.entry ⟨'-', l, n, i⟩ (spotsFrom l (n + 1) (i + 1) cs) := by
  simp +decide [token, marksDocument_eq_false, hcolumn, hcs]

theorem entry_eq {place : Spot} {ss : List Spot} (houter : s.outer = []) (hallowed : s.allowed = true)
    (hcandidate : s.candidate.any Candidate.required = false) :
    s.entry place ss =
      some { s with
        rest := ss
        tokens := s.tokens ++ opening .sequenceStart place.column s.indents ++ [.entry]
        indents := openAt place.column s.indents
        candidate := none } := by
  have hflow : s.inFlow = false := by simp [inFlow, houter]
  rw [Scanner.entry, hflow, hallowed, roll_eq houter (List.append_nil _).symm, dropCandidate_eq (by exact hcandidate)]
  simp [emit, hallowed]

theorem Arrives.entry (h : Arrives s ts is (Write.spaces n ++ '-' :: ' ' :: cs)) (hdeep : ∀ k ∈ is.head?, k ≤ n)
    (hn : 0 < n) : Inside s true (ts ++ opening .sequenceStart n is ++ [.entry]) (openAt n is) (' ' :: cs) := by
  obtain ⟨l, i, candidate, hcandidate, hnext⟩ := h.next (by decide) hdeep
  refine ⟨l, n + 1, i + 1, ?_, hnext _ ?_ (by simp [standing]) (Nat.le_of_eq (length_spotsFrom ..))⟩
  · rw [head?_openAt hdeep]
    rintro k ⟨⟩
    omega
  · rw [token_dash (by omega) (by rw [atGap_cons isInline_space, beq_self_eq_true])]
    exact entry_eq rfl rfl hcandidate

theorem exists_openAt (h : ∀ k ∈ is.head?, k ≤ n) : ∃ js, openAt n is = n :: js := by
  have hhead := head?_openAt h
  cases hopen : openAt n is with
  | nil =>
      rw [hopen] at hhead
      cases hhead
  | cons m js =>
      rw [hopen] at hhead
      exact ⟨js, by rw [Option.some.inj hhead]⟩

theorem readsRow_entry (hn : 0 < n) (w : Word) :
    ReadsRow .sequenceStart n (Write.spaces n ++ '-' :: ' ' :: (w.written ++ ['\n'])) [.entry, w.token] where
  starts := ⟨'-', _, rfl, by decide⟩
  arrives {s ts is cs} hdeep hcs hmargin h := by
    obtain ⟨js, hjs⟩ := exists_openAt hdeep
    rw [List.append_assoc, List.cons_append, List.cons_append, List.append_assoc] at h
    have hword := h.entry hdeep hn
    rw [hjs] at hword ⊢
    have harrives := hword.word w hcs hmargin
    rwa [List.append_assoc _ [.entry] [w.token]] at harrives

theorem readsRow_pair (k : Key) {w : List Char} {us : List Token} (hvalue : ReadsValue n w us) :
    ReadsRow .mappingStart n (Write.spaces n ++ (k.text ++ ':' :: w)) (k.tokens ++ us) where
  starts := by
    obtain ⟨c, text, htext⟩ := List.exists_cons_of_ne_nil k.isKey.isPlain.ne_nil
    exact ⟨c, text ++ ':' :: w, by rw [htext, List.cons_append], (htext ▸ k.isKey.isPlain).isInk.1⟩
  arrives {s ts is cs} hdeep hcs hmargin h := by
    obtain ⟨js, hjs⟩ := exists_openAt hdeep
    rw [List.append_assoc, List.append_assoc, List.cons_append] at h
    have hkey := h.key k hdeep (hvalue.ends cs)
    rw [hjs] at hkey ⊢
    have harrives := hvalue.arrives hcs hmargin hkey
    rwa [List.append_assoc _ k.tokens us] at harrives

variable {start : Token} {rows : List (List Char × List Token)}

def blockText (rows : List (List Char × List Token)) : List Char := rows.flatMap Prod.fst

def blockTokens (rows : List (List Char × List Token)) : List Token := rows.flatMap Prod.snd

theorem startsRow_blockText (h : ∀ r ∈ rows, ReadsRow start n r.1 r.2) (hcs : StartsRow cs) :
    StartsRow (blockText rows ++ cs) := by
  cases rows with
  | nil => exact hcs
  | cons r rows =>
      obtain ⟨c, ds, hr, hc⟩ := (List.forall_mem_cons.1 h).1.starts
      rw [blockText, List.flatMap_cons, hr, List.append_assoc, List.append_assoc, List.cons_append]
      exact .row n _ hc

theorem margin_blockText (h : ∀ r ∈ rows, ReadsRow start n r.1 r.2) (hcs : ∀ k ∈ margin cs, k ≤ n) :
    ∀ k ∈ margin (blockText rows ++ cs), k ≤ n := by
  cases rows with
  | nil => exact hcs
  | cons r rows =>
      obtain ⟨c, ds, hr, hc⟩ := (List.forall_mem_cons.1 h).1.starts
      rw [blockText, List.flatMap_cons, hr, List.append_assoc, List.append_assoc, List.cons_append,
        margin_spaces n hc.ne_space]
      rintro k ⟨⟩
      exact Nat.le_refl _

theorem openAt_of_head (start : Token) (n : Nat) (is : List Nat) :
    openAt n (n :: is) = n :: is ∧ opening start n (n :: is) = [] := by
  simp [openAt, opening]

theorem openAt_of_lt (start : Token) (h : ∀ k ∈ is.head?, k < n) :
    openAt n is = n :: is ∧ opening start n is = [start] := by
  have hdeep : is.head?.any (n ≤ ·) = false := by
    cases is with
    | nil => rfl
    | cons k is => simpa using h k rfl
  rw [openAt, opening, hdeep]
  exact ⟨rfl, rfl⟩

theorem Arrives.moreRows (h : Arrives s ts (n :: is) (blockText rows ++ cs))
    (hrows : ∀ r ∈ rows, ReadsRow start n r.1 r.2) (hcs : StartsRow cs) (hmargin : ∀ k ∈ margin cs, k ≤ n) :
    Arrives s (ts ++ blockTokens rows) (n :: is) cs := by
  induction rows generalizing ts with
  | nil => rwa [blockTokens, List.flatMap_nil, List.append_nil]
  | cons r rows ih =>
      obtain ⟨hr, hrows⟩ := List.forall_mem_cons.1 hrows
      obtain ⟨hopenAt, hopening⟩ := openAt_of_head start n is
      rw [blockText, List.flatMap_cons, List.append_assoc, ← blockText] at h
      have hfirst := hr.arrives (by rintro k ⟨⟩; exact Nat.le_refl _) (startsRow_blockText hrows hcs)
        (margin_blockText hrows hmargin) h
      rw [hopenAt, hopening, List.append_nil] at hfirst
      have hrest := ih hfirst hrows
      rwa [List.append_assoc, blockTokens, ← List.flatMap_cons, ← blockTokens] at hrest

theorem Arrives.block (h : Arrives s ts is (blockText rows ++ cs))
    (hrows : ∀ r ∈ rows, ReadsRow start n r.1 r.2) (hne : rows ≠ []) (hdeep : ∀ k ∈ is.head?, k < n)
    (hcs : StartsRow cs) (hmargin : ∀ k ∈ margin cs, k < n) :
    Arrives s (ts ++ (start :: blockTokens rows ++ [.blockEnd])) is cs := by
  obtain ⟨r, rows, rfl⟩ := List.exists_cons_of_ne_nil hne
  obtain ⟨hr, hrows⟩ := List.forall_mem_cons.1 hrows
  obtain ⟨hopenAt, hopening⟩ := openAt_of_lt start hdeep
  have hle : ∀ k ∈ margin cs, k ≤ n := fun k hk => Nat.le_of_lt (hmargin k hk)
  rw [blockText, List.flatMap_cons, List.append_assoc, ← blockText] at h
  have hfirst := hr.arrives (fun k hk => Nat.le_of_lt (hdeep k hk)) (startsRow_blockText hrows hcs)
    (margin_blockText hrows hle) h
  rw [hopenAt, hopening] at hfirst
  have hend := (hfirst.moreRows hrows hcs hle).close hmargin
  rw [blockTokens, List.flatMap_cons, ← blockTokens]
  simpa using hend

theorem readsValue_block {m : Nat} (hrows : ∀ r ∈ rows, ReadsRow start m r.1 r.2) (hne : rows ≠ []) (hm : n < m) :
    ReadsValue n ('\n' :: blockText rows) (start :: blockTokens rows ++ [.blockEnd]) where
  ends cs := .newline _
  arrives {s ts is cs} hcs hmargin h := by
    rw [List.cons_append] at h
    refine (h.newline (startsRow_blockText hrows hcs)).block hrows hne ?_ hcs
      fun k hk => Nat.lt_of_le_of_lt (hmargin k hk) hm
    rintro k ⟨⟩
    exact hm

theorem Arrives.run_eq (h : Arrives s ts [] []) {fuel : Nat} (hfuel : s.rest.length < fuel) :
    run fuel s = ts ++ [.streamEnd] := by
  obtain ⟨s', l, i, ⟨k, hlen, hrun⟩, hgap, hindents, htokens, hcandidate, houter⟩ := h
  obtain ⟨fuel', rfl⟩ : ∃ fuel', fuel = fuel' + 1 + k := ⟨fuel - 1 - k, by omega⟩
  have hflow : s'.inFlow = false := by simp [inFlow, houter]
  have hfinish : s'.next?.map Scanner.tokens = some (ts ++ [.streamEnd]) := by
    have htokens : s'.tokens ++ (closeBlocks none s'.indents).2 = ts ++ [] := htokens
    rw [List.append_nil] at htokens
    rw [← hflow] at hgap
    rw [next?, hgap]
    simp [content, spotsFrom, finish, unroll, inFlow, houter, dropCandidate, hcandidate, emit, htokens]
  obtain ⟨s'', hnext, htokens''⟩ := Option.map_eq_some_iff.1 hfinish
  rw [hrun, run, hnext]
  simp [htokens'']

theorem tokens_block (hrows : ∀ r ∈ rows, ReadsRow start 0 r.1 r.2)
    (hne : rows ≠ []) :
    Yaml.tokens (spots (blockText rows)) = start :: blockTokens rows ++ [.blockEnd, .streamEnd] := by
  have hstart : Arrives { rest := spots (blockText rows) } [] [] (blockText rows ++ []) := by
    have hgap : skipGap false true .space (spotsFrom 0 0 0 (blockText rows ++ [])) = _ :=
      skipGap_row (startsRow_blockText hrows .nil) false true
    rw [List.append_nil, Nat.zero_add] at hgap
    rw [List.append_nil]
    exact ⟨_, 0, _, .refl _, hgap, rfl, rfl, rfl, rfl⟩
  have hblock := hstart.block hrows hne nofun .nil nofun
  rw [Yaml.tokens, hblock.run_eq (Nat.lt_succ_self _)]
  simp

end Scanner

end BuiltinCatalog.Yaml
