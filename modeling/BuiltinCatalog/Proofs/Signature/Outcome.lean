import BuiltinCatalog.Proofs.Signature.OwnHead

namespace BuiltinCatalog.Signature

open Script

variable {t list : Text}

/-- A word that is not empty. -/
def IsIdentifier (w : Text) : Prop := w ≠ [] ∧ ∀ b ∈ w, Text.isWord b = true

instance (w : Text) : Decidable (IsIdentifier w) := inferInstanceAs (Decidable (_ ∧ _))

/-- A list that starts with a comma: a name is missing before it. -/
def LacksFirst (list : Text) : Prop := ∃ u v, list = u ++ ','.toUInt8 :: v ∧ ∀ b ∈ u, Text.isSpace b = true

theorem isIdentifier_of_mem {ps : List Parameter} {w : Text} (h : w ∈ ps.map (·.name.text)) : IsIdentifier w := by
  obtain ⟨p, -, rfl⟩ := List.mem_map.1 h
  exact ⟨p.name.ne_nil, p.name.isWord⟩

theorem trim_blank {u : Text} (h : ∀ b ∈ u, Text.isSpace b = true) : Text.trim u = [] := by
  simpa using Text.trim_padded (w := []) (v := []) h (by simp) (by simp)

theorem splitParameters_render (p : Parameter) (ps : List Parameter) :
    splitParameters (p.render .bare ++ commaText ps) = (p :: ps).map (·.name.text) := by
  rw [← splitParameters_taken (Or.inr ⟨p, rfl⟩), Parameter.render_bare, ← List.append_assoc p.leading]
  exact splitParameters_listed (.cons p ps)

theorem splitParameters_blank {u : Text} (h : ∀ b ∈ u, Text.isSpace b = true) (p : Parameter) (ps : List Parameter) :
    splitParameters (u ++ commaText (p :: ps)) = [] :: (p :: ps).map (·.name.text) := by
  have hcomma : commaText (p :: ps) = ','.toUInt8 :: (p.render .bare ++ commaText ps) := by simp [commaText]
  rw [hcomma, IsFirst.splitParameters_comma (Or.inl h), trim_blank h, splitOn_commaText]

theorem not_lacksFirst_render (p : Parameter) (v : Text) : ¬ LacksFirst (p.render .bare ++ v) := by
  rintro ⟨u, w, h, hu⟩
  -- the first byte that is no white space would be a comma and part of a word
  have hdrop := congrArg (List.dropWhile Text.isSpace) h
  obtain ⟨b, name, hname⟩ := List.exists_cons_of_ne_nil p.name.ne_nil
  have hb : Text.isWord b = true := p.name.isWord b (by simp [hname])
  rw [Parameter.render_bare, hname, List.append_assoc, Text.dropWhile_append_stop hu (by rintro c ⟨⟩; rfl),
    Text.dropWhile_append_stop p.leading_space] at hdrop
  · obtain ⟨rfl, -⟩ := List.cons.inj hdrop
    exact absurd hb (by decide)
  · rintro c ⟨⟩
    exact Opening.not_isSpace_of_isWord hb

/-- The parts of a plain list are words, and only the first can be empty: it is so if the list starts with a
comma. -/
theorem splitParameters_plain (h : IsPlainList list) :
    (∀ w ∈ splitParameters list, ∀ b ∈ w, Text.isWord b = true) ∧
      (∀ w ∈ (splitParameters list).tail, IsIdentifier w) ∧
      ((∀ w ∈ splitParameters list, IsIdentifier w) ↔ ¬ LacksFirst list) := by
  obtain ⟨first, ps, hblank | ⟨p, rfl⟩, rfl⟩ := h
  · cases ps with
    | nil =>
        have hnone : splitParameters (first ++ commaText []) = [] := by
          simp [splitParameters, commaText, trim_blank hblank]
        have hcomma : ¬ LacksFirst (first ++ commaText []) := by
          rintro ⟨u, v, huv, -⟩
          rw [commaText, List.flatMap_nil, List.append_nil] at huv
          exact absurd (hblank ','.toUInt8 (by simp [huv])) (by decide)
        simp [hnone, hcomma]
    | cons p ps =>
        have hlacks : LacksFirst (first ++ commaText (p :: ps)) := ⟨first, _, by rw [commaText_cons], hblank⟩
        have hwords {w : Text} (hw : w ∈ (p :: ps).map (·.name.text)) := isIdentifier_of_mem hw
        rw [splitParameters_blank hblank]
        refine ⟨fun w hw => ?_, fun w hw => hwords hw, ?_⟩
        · rcases List.mem_cons.1 hw with rfl | hw
          · simp
          · exact (hwords hw).2
        · exact iff_of_false (fun hall => (hall [] (by simp)).1 rfl) (fun hnot => hnot hlacks)
  · rw [splitParameters_render]
    have hwords {w : Text} (hw : w ∈ (p :: ps).map (·.name.text)) := isIdentifier_of_mem hw
    exact ⟨fun w hw => (hwords hw).2, fun w hw => hwords (List.mem_of_mem_tail hw),
      iff_of_true (fun w hw => hwords hw) (not_lacksFirst_render p _)⟩

/-- The parameters of a parsed text are the parts of the first plain list after a head at the start of a line.
They are words, and all are identifiers unless that list starts with a comma; then the first is empty. -/
theorem parse_parameters {fragment : Text} {f : Builtin} (h : parse fragment = .ok f) :
    ∃ p list ps, LineHead f.source p list ∧ (∀ q < p, ∀ other, ¬ LineHead f.source q other) ∧
      f.parameters = some ps ∧ ps = splitParameters list ∧
      (∀ w ∈ ps, ∀ b ∈ w, Text.isWord b = true) ∧ (∀ w ∈ ps.tail, IsIdentifier w) ∧
      ((∀ w ∈ ps, IsIdentifier w) ↔ ¬ LacksFirst list) := by
  obtain ⟨_, found, -, hfound, rfl⟩ := parse_eq_ok h
  obtain ⟨p, list, hhead, hsplit, -, hbefore⟩ := firstList?_eq_some (u := []) (by simp) hfound
  rw [List.nil_append] at hhead hbefore
  obtain ⟨hwords, htail, hiff⟩ := splitParameters_plain hhead.plain
  exact ⟨p, list, _, hhead, fun q hq => hbefore q (Nat.zero_le q) hq, by rw [hsplit], rfl, hwords, htail, hiff⟩

theorem parse_parameters_spaced :
    ∃ f p list, parse (Text.ofString "function f( a ,b ) \x7b\x7d") = .ok f ∧ LineHead f.source p list ∧
      splitParameters list = [Text.ofString "a", Text.ofString "b"] ∧ ¬ LacksFirst list := by
  have h : parse "function f( a ,b ) \x7b\x7d" = .ok
      { name := "f", source := "function f( a ,b ) \x7b\x7d", isConstructor := false,
        parameters := some ["a", "b"] } := by decide +kernel
  have hwords : ∀ w ∈ [Text.ofString "a", Text.ofString "b"], IsIdentifier w := by decide +kernel
  obtain ⟨p, list, ps, hhead, -, hps, hsplit, -, -, hiff⟩ := parse_parameters h
  obtain rfl := Option.some.inj hps
  exact ⟨_, p, list, h, hhead, hsplit.symm, hiff.1 hwords⟩

/-- Nothing stands before the comma, and so the first parameter is empty. -/
theorem nameless_parameter :
    ∃ f, parse (Text.ofString "function f(, a) \x7b\x7d") = .ok f ∧
      f.parameters = some [[], Text.ofString "a"] ∧ ¬ ∀ w ∈ f.parameterList, IsIdentifier w := by
  have h : parse "function f(, a) \x7b\x7d" = .ok
      { name := "f", source := "function f(, a) \x7b\x7d", isConstructor := false,
        parameters := some [[], Text.ofString "a"] } := by decide +kernel
  exact ⟨_, h, rfl, fun hall => (hall [] (by simp [Builtin.parameterList])).1 rfl⟩

theorem exists_firstList? {lineStart : Bool} {u : Text} {p : Nat}
    (hline : lineStart = true ↔ ∀ b, u.getLast? = some b → b = 10) (h : LineHead (u ++ t) p list)
    (hp : u.length ≤ p) : ∃ found, firstList? lineStart t = some found := by
  induction t generalizing u lineStart with
  | nil =>
      obtain ⟨-, -, o, rest, -, hdrop⟩ := h
      rw [List.append_nil, List.drop_eq_nil_of_le hp] at hdrop
      simp at hdrop
  | cons b t ih =>
      rw [firstList?]
      split
      next found _ => exact ⟨found, rfl⟩
      next hnone =>
        rcases Nat.eq_or_lt_of_le hp with rfl | hp
        · obtain ⟨hstart, found, hfound⟩ := h.exists_listHere?
          rw [if_pos (hline.2 hstart)] at hnone
          cases hfound.symm.trans hnone
        · refine ih (u := u ++ [b]) (by simp) ?_ ?_
          · rwa [List.append_assoc, List.singleton_append]
          · rw [List.length_append, List.length_singleton]
            exact hp

/-- A fragment starts with a head, which gives the name in every case. It is parsed if some line of it, without
its block comments, starts with a head whose list is plain. Otherwise it fails for its parameters. -/
theorem parse_outcome {fs : List Text} {fragment : Text} (hfs : Declaration.fragments t = .ok fs)
    (hmem : fragment ∈ fs) :
    ∃ o rest, Opening.IsWellFormed o ∧ fragment = o.text ++ rest ∧
      ((∃ f p list, parse fragment = .ok f ∧ f.name = o.name ∧
          (f.isConstructor = true ↔ o.keyword = .constructor) ∧ LineHead (Comment.stripBlocks fragment) p list) ∨
        (∃ e, parse fragment = .error e ∧ e.fault = .badParameters o.name ∧
          e.diagnostic = ⟨"signature", [], none, "malformed parameter list for " ++ o.name⟩ ∧
          ∀ p list, ¬ LineHead (Comment.stripBlocks fragment) p list)) := by
  obtain ⟨o, rest, ho, rfl⟩ := fragment_opens hfs hmem
  refine ⟨o, rest, ho, rfl, ?_⟩
  rw [stripBlocks_opening ho, parse_text ho]
  cases hlist : firstList? true (o.text ++ Comment.stripBlocks rest) with
  | none =>
      refine Or.inr ⟨_, rfl, rfl, rfl, fun p list hhead => ?_⟩
      have hfound : ∃ found, firstList? true (o.text ++ Comment.stripBlocks rest) = some found :=
        exists_firstList? (u := []) (by simp) hhead (Nat.zero_le p)
      obtain ⟨found, hfound⟩ := hfound
      cases hlist.symm.trans hfound
  | some found =>
      obtain ⟨p, list, hhead, -⟩ := firstList?_eq_some (u := []) (by simp) hlist
      exact Or.inl ⟨_, p, list, rfl, rfl, decide_eq_true_iff, hhead⟩

theorem parse_outcome_pair :
    ∃ t fs, t = Text.ofString "constructor F(a /* function g( */) \x7b\x7d function h(b = 1) \x7b\x7d" ∧
      Declaration.fragments t = .ok fs ∧ fs.length = 2 ∧
      ∀ fragment ∈ fs, ∃ o rest, Opening.IsWellFormed o ∧ fragment = o.text ++ rest ∧
        ((∃ f, parse fragment = .ok f ∧ f.name = o.name ∧ (f.isConstructor = true ↔ o.keyword = .constructor)) ∨
          ∃ e, parse fragment = .error e ∧ e.fault = .badParameters o.name) := by
  have hfs : Declaration.fragments "constructor F(a /* function g( */) \x7b\x7d function h(b = 1) \x7b\x7d" =
      .ok [Text.ofString "constructor F(a /**/) \x7b\x7d", Text.ofString "function h(b = 1) \x7b\x7d"] := by
    decide +kernel
  refine ⟨_, _, rfl, hfs, rfl, fun fragment hmem => ?_⟩
  obtain ⟨o, rest, ho, ht, ⟨f, _, _, hf, hname, hflag, -⟩ | ⟨e, he, hfault, -⟩⟩ := parse_outcome hfs hmem
  · exact ⟨o, rest, ho, ht, Or.inl ⟨f, hf, hname, hflag⟩⟩
  · exact ⟨o, rest, ho, ht, Or.inr ⟨e, he, hfault⟩⟩

end BuiltinCatalog.Signature
