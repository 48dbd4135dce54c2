import BuiltinCatalog.Proofs.Declaration.Scan
import BuiltinCatalog.Proofs.Except
import BuiltinCatalog.Proofs.Script.Parse

namespace BuiltinCatalog

open Comment (View)

namespace Script

theorem exists_fill {u : Text} (h : ∀ b ∈ u, Text.isSpace b = true) :
    ∃ fs : List Filler, (∀ f ∈ fs, f.isInline = true) ∧ fill .bare fs = u := by
  induction u with
  | nil => exact ⟨[], by simp, rfl⟩
  | cons b u ih =>
      obtain ⟨hb, hu⟩ := List.forall_mem_cons.1 h
      obtain ⟨fs, hfs, rfl⟩ := ih hu
      exact ⟨.blank b hb :: fs, List.forall_mem_cons.2 ⟨rfl, hfs⟩, rfl⟩

theorem exists_parameter {u w v : Text} (hu : ∀ b ∈ u, Text.isSpace b = true) (hn : w ≠ [])
    (hw : ∀ b ∈ w, Text.isWord b = true) (hv : ∀ b ∈ v, Text.isSpace b = true) :
    ∃ p : Parameter, p.leading = u ∧ p.name.text = w ∧ p.trailing = v := by
  obtain ⟨fs, hfs, rfl⟩ := exists_fill hu
  obtain ⟨gs, hgs, rfl⟩ := exists_fill hv
  exact ⟨⟨fs, ⟨w, hn, hw⟩, gs, List.forall_mem_append.2 ⟨hfs, hgs⟩⟩, rfl, rfl, rfl⟩

theorem not_paren_parameter (p : Parameter) : ')'.toUInt8 ∉ p.render .bare := by
  rw [Parameter.render_bare]
  intro h
  rcases List.mem_append.1 h with h | h
  · exact absurd (p.leading_space _ h) (by decide)
  · rcases List.mem_append.1 h with h | h
    · exact absurd (p.name.isWord _ h) (by decide)
    · exact absurd (p.trailing_space _ h) (by decide)

theorem not_paren_commaText (ps : List Parameter) : ')'.toUInt8 ∉ commaText ps := by
  intro h
  obtain ⟨p, _, hp⟩ := List.mem_flatMap.1 h
  rcases List.mem_cons.1 hp with hp | hp
  · exact absurd hp (by decide)
  · exact not_paren_parameter p hp

theorem splitOn_commaText (p : Parameter) (ps : List Parameter) :
    ((p.render .bare ++ commaText ps).splitOn ','.toUInt8).map Text.trim = (p :: ps).map (·.name.text) := by
  induction ps generalizing p with
  | nil =>
      rw [commaText, List.flatMap_nil, List.append_nil, Parameter.render_bare, ← List.append_assoc,
        List.splitOn_eq_singleton (not_comma_padded p), List.map_singleton, trim_parameter, List.map_singleton]
  | cons q ps ih =>
      have ht : p.render .bare ++ commaText (q :: ps) =
          p.leading ++ p.name.text ++ p.trailing ++ ','.toUInt8 :: (q.render .bare ++ commaText ps) := by
        simp [commaText, Parameter.render_bare]
      rw [ht, List.splitOn_append_cons_self_of_not_mem (not_comma_padded p), List.map_cons, ih, trim_parameter,
        List.map_cons (a := p)]

end Script

namespace Signature

open Script

variable {t list rest : Text}

def IsFirst (u : Text) : Prop := (∀ b ∈ u, Text.isSpace b = true) ∨ ∃ p : Parameter, u = p.render .bare

/-- Words with commas between them and white space around them; the first word may be missing. -/
def IsPlainList (list : Text) : Prop := ∃ first ps, IsFirst first ∧ list = first ++ commaText ps

theorem IsFirst.not_comma {u : Text} (h : IsFirst u) : ','.toUInt8 ∉ u := by
  rcases h with hu | ⟨p, rfl⟩
  · exact fun h => absurd (hu _ h) (by decide)
  · rw [Parameter.render_bare, ← List.append_assoc]
    exact not_comma_padded p

theorem IsFirst.not_paren {u : Text} (h : IsFirst u) : ')'.toUInt8 ∉ u := by
  rcases h with hu | ⟨p, rfl⟩
  · exact fun h => absurd (hu _ h) (by decide)
  · exact not_paren_parameter p

theorem IsPlainList.not_paren (h : IsPlainList list) : ')'.toUInt8 ∉ list := by
  obtain ⟨first, ps, hfirst, rfl⟩ := h
  intro hm
  rcases List.mem_append.1 hm with hm | hm
  · exact hfirst.not_paren hm
  · exact not_paren_commaText ps hm

theorem IsFirst.trim_ne_nil {u : Text} (h : IsFirst u) (v : Text) : Text.trim (u ++ ','.toUInt8 :: v) ≠ [] := by
  rcases h with hu | ⟨p, rfl⟩
  · exact Text.trim_ne_nil hu (by decide) v
  · obtain ⟨b, w, hw⟩ := List.exists_cons_of_ne_nil p.name.ne_nil
    have hb : Text.isWord b = true := p.name.isWord b (by simp [hw])
    simpa [Parameter.render_bare, hw] using Text.trim_ne_nil p.leading_space (Text.isInk_of_isWord hb)
      (w ++ (p.trailing ++ ','.toUInt8 :: v))

theorem IsFirst.splitParameters_comma {u : Text} (h : IsFirst u) (v : Text) :
    splitParameters (u ++ ','.toUInt8 :: v) = Text.trim u :: (v.splitOn ','.toUInt8).map Text.trim := by
  rw [splitParameters, if_neg (h.trim_ne_nil v), List.splitOn_append_cons_self_of_not_mem h.not_comma,
    List.map_cons]

/-- The white space at the end of a list, which is not read with it, makes no difference to its parts. -/
theorem splitParameters_taken {first : Text} (h : IsFirst first) (ps : List Parameter) :
    splitParameters (first ++ taken [] ps) = splitParameters (first ++ commaText ps) := by
  cases ps with
  | nil => rfl
  | cons p ps =>
      have htaken : taken [] (p :: ps) = ','.toUInt8 :: (p.leading ++ p.name.text ++ taken p.trailing ps) := by
        simp [taken]
      have hcomma : commaText (p :: ps) = ','.toUInt8 :: (p.render .bare ++ commaText ps) := by simp [commaText]
      rw [htaken, h.splitParameters_comma, splitOn_taken, hcomma, h.splitParameters_comma, splitOn_commaText]

theorem nextWord?_eq_some {w : Text} (h : nextWord? t = some (w, rest)) :
    ∃ u word, w = u ++ word ∧ t = u ++ (word ++ rest) ∧ (∀ b ∈ u, Text.isSpace b = true) ∧ word ≠ [] ∧
      ∀ b ∈ word, Text.isWord b = true := by
  simp only [nextWord?] at h
  split at h
  next => cases h
  next hne =>
    obtain ⟨rfl, rfl⟩ := Prod.mk.inj (Option.some.inj h)
    refine ⟨_, _, rfl, ?_, fun b hb => List.mem_takeWhile_imp hb, hne, fun b hb => List.mem_takeWhile_imp hb⟩
    rw [List.takeWhile_append_dropWhile, List.takeWhile_append_dropWhile]

theorem head?_dropWhile_space (t : Text) :
    ∀ b, (t.dropWhile Text.isSpace).head? = some b → Text.isSpace b = false := by
  intro b hb
  have hstop := List.head?_dropWhile_not Text.isSpace t
  rw [hb] at hstop
  simpa using hstop

/-- Each word that is read after a comma is a parameter. White space stands before the first comma and after
every word, and what is left starts with that of the last one. -/
def IsRead (t more rest : Text) : Prop :=
  ∃ u ps v, (∀ b ∈ u, Text.isSpace b = true) ∧ (∀ b, v.head? = some b → Text.isSpace b = false) ∧
    t = u ++ (commaText ps ++ v) ∧ more = taken u ps ∧ rest = leftOver u ps ++ v

theorem isRead_nil (t : Text) : IsRead t [] t := by
  have ht := (List.takeWhile_append_dropWhile (p := Text.isSpace) (l := t)).symm
  exact ⟨_, [], _, fun b hb => List.mem_takeWhile_imp hb, head?_dropWhile_space t, ht, rfl, ht⟩

theorem IsRead.cons {u lead name more : Text} (h : IsRead t more rest) (hu : ∀ b ∈ u, Text.isSpace b = true)
    (hlead : ∀ b ∈ lead, Text.isSpace b = true) (hne : name ≠ []) (hname : ∀ b ∈ name, Text.isWord b = true) :
    IsRead (u ++ ','.toUInt8 :: (lead ++ (name ++ t))) (u ++ ','.toUInt8 :: (lead ++ name) ++ more) rest := by
  obtain ⟨trail, ps, v, htrail, hv, rfl, rfl, rfl⟩ := h
  obtain ⟨p, rfl, rfl, rfl⟩ := exists_parameter hlead hne hname htrail
  exact ⟨u, p :: ps, v, hu, hv, by simp [commaText_cons], by simp [taken], rfl⟩

theorem isRead_commaWords (n : Nat) (t : Text) : IsRead t (commaWords n t).1 (commaWords n t).2 := by
  induction n generalizing t with
  | zero => exact isRead_nil t
  | succ n ih =>
      rw [commaWords]
      split
      next b after hb =>
        split
        next hcomma =>
          split
          next word rest hword =>
            obtain ⟨lead, name, rfl, rfl, hlead, hne, hname⟩ := nextWord?_eq_some hword
            have ht := List.takeWhile_append_dropWhile (p := Text.isSpace) (l := t)
            have hread := (ih rest).cons (u := t.takeWhile Text.isSpace) (fun b hb => List.mem_takeWhile_imp hb)
              hlead hne hname
            rw [← hcomma, ← hb, ht] at hread
            exact hread
          next => exact isRead_nil t
        next => exact isRead_nil t
      next => exact isRead_nil t

theorem isFirst_nextWord (t : Text) :
    t = ((nextWord? t).getD ([], t)).1 ++ ((nextWord? t).getD ([], t)).2 ∧
      IsFirst (((nextWord? t).getD ([], t)).1 ++ ((nextWord? t).getD ([], t)).2.takeWhile Text.isSpace) := by
  have hspace (u : Text) : ∀ b ∈ u.takeWhile Text.isSpace, Text.isSpace b = true :=
    fun b hb => List.mem_takeWhile_imp hb
  cases h : nextWord? t with
  | none => exact ⟨rfl, Or.inl (hspace t)⟩
  | some found =>
      obtain ⟨w, rest⟩ := found
      obtain ⟨u, word, rfl, rfl, hu, hne, hword⟩ := nextWord?_eq_some h
      obtain ⟨p, rfl, rfl, hp⟩ := exists_parameter hu hne hword (hspace rest)
      refine ⟨by simp, Or.inr ⟨p, ?_⟩⟩
      rw [Parameter.render_bare, hp]
      simp

theorem parameterText?_eq_some_iff :
    parameterText? t = some list ↔ ∃ first ps rest, IsFirst first ∧
      t = first ++ (commaText ps ++ ')'.toUInt8 :: rest) ∧ list = first ++ taken [] ps := by
  constructor
  · intro h
    obtain ⟨ht, hfirst⟩ := isFirst_nextWord t
    simp only [parameterText?] at h
    generalize (nextWord? t).getD ([], t) = found at h ht hfirst
    obtain ⟨word, rest⟩ := found
    dsimp only at h ht hfirst
    obtain ⟨u, ps, v, hu, hv, hafter, hmore, hleft⟩ :=
      isRead_commaWords (rest.dropWhile Text.isSpace).length (rest.dropWhile Text.isSpace)
    -- the white space was read before
    obtain rfl : u = [] := by
      cases u with
      | nil => rfl
      | cons b u =>
          have hb := head?_dropWhile_space rest b (by rw [hafter]; rfl)
          exact absurd (hu b List.mem_cons_self) (by simp [hb])
    rw [hmore, hleft, Text.dropWhile_append_stop (leftOver_space ps (by simp)) hv] at h
    split at h
    next b after =>
      split at h
      next hb =>
        subst hb
        refine ⟨_, ps, after, hfirst, ?_, (Option.some.inj h).symm⟩
        rw [ht, List.append_assoc, ← List.nil_append (commaText ps ++ _), ← hafter,
          List.takeWhile_append_dropWhile]
      next => cases h
    next => cases h
  · rintro ⟨first, ps, rest, hfirst | ⟨p, rfl⟩, rfl, rfl⟩
    · have hnone : nextWord? (first ++ (commaText ps ++ ')'.toUInt8 :: rest)) = none := by
        obtain ⟨b, v, hb⟩ : ∃ b v, commaText ps ++ ')'.toUInt8 :: rest = b :: v :=
          List.exists_cons_of_ne_nil (by simp)
        have hmark : b = ','.toUInt8 ∨ b = ')'.toUInt8 := head?_commaText ps rest (by rw [hb]; rfl)
        rw [hb]
        rcases hmark with rfl | rfl <;> exact nextWord?_eq_none hfirst rfl rfl
      exact parameterText?_of_first ps rest (by rw [hnone]; rfl) hfirst
    · rw [Parameter.render_bare, List.append_assoc, List.append_assoc]
      have hword := nextWord?_append p.leading_space p.name.ne_nil p.name.isWord
        (head?_trailing p.trailing_space ps rest)
      rw [parameterText?_of_first ps rest (by rw [hword]; rfl) p.trailing_space]
      simp

/-- A line starts at an offset, and with a head whose list is plain. -/
structure LineHead (t : Text) (p : Nat) (list : Text) : Prop where
  lineStart : ∀ b, (t.take p).getLast? = some b → b = 10
  plain : IsPlainList list
  head : ∃ o rest, Opening.IsWellFormed o ∧ t.drop p = o.text ++ (list ++ ')'.toUInt8 :: rest)

theorem listHere?_eq_some (h : listHere? t = some list) :
    ∃ own, IsPlainList own ∧ splitParameters list = splitParameters own ∧
      ∃ o rest, Opening.IsWellFormed o ∧ t = o.text ++ (own ++ ')'.toUInt8 :: rest) := by
  simp only [listHere?, Option.bind_eq_bind, Option.bind_eq_some_iff, Prod.exists] at h
  obtain ⟨o, after, ho, h⟩ := h
  obtain ⟨hw, rfl⟩ := Opening.next?_eq_some_iff.1 ho
  obtain ⟨first, ps, rest, hfirst, rfl, rfl⟩ := parameterText?_eq_some_iff.1 h
  exact ⟨_, ⟨first, ps, hfirst, rfl⟩, splitParameters_taken hfirst ps, o, rest, hw, by simp⟩

theorem exists_listHere? {o : Opening} (ho : o.IsWellFormed) (h : IsPlainList list) (rest : Text) :
    ∃ found, listHere? (o.text ++ (list ++ ')'.toUInt8 :: rest)) = some found := by
  obtain ⟨first, ps, hfirst, rfl⟩ := h
  refine ⟨first ++ taken [] ps, ?_⟩
  rw [listHere?, Opening.next?_text ho]
  exact parameterText?_eq_some_iff.2 ⟨first, ps, rest, hfirst, by simp, rfl⟩

theorem LineHead.exists_listHere? {u : Text} (h : LineHead (u ++ t) u.length list) :
    (∀ b, u.getLast? = some b → b = 10) ∧ ∃ found, listHere? t = some found := by
  obtain ⟨hstart, hplain, o, rest, ho, ht⟩ := h
  rw [List.take_left] at hstart
  rw [List.drop_left] at ht
  rw [ht]
  exact ⟨hstart, Signature.exists_listHere? ho hplain rest⟩

/-- Where the search for a list stands: `u` was passed over, and `lineStart` tells whether a line starts. -/
theorem firstList?_eq_some {lineStart : Bool} {u : Text}
    (hline : lineStart = true ↔ ∀ b, u.getLast? = some b → b = 10) (h : firstList? lineStart t = some list) :
    ∃ p own, LineHead (u ++ t) p own ∧ splitParameters list = splitParameters own ∧ u.length ≤ p ∧
      ∀ q, u.length ≤ q → q < p → ∀ other, ¬ LineHead (u ++ t) q other := by
  induction t generalizing u lineStart with
  | nil => cases h
  | cons b t ih =>
      rw [firstList?] at h
      split at h
      next found hfound =>
        obtain rfl := Option.some.inj h
        split at hfound
        next hl =>
          obtain ⟨own, hplain, hsplit, o, rest, ho, ht⟩ := listHere?_eq_some hfound
          refine ⟨u.length, own, ⟨?_, hplain, o, rest, ho, ?_⟩, hsplit, Nat.le_refl _, ?_⟩
          · rw [List.take_left]
            exact hline.1 hl
          · rw [List.drop_left, ht]
          · intro q hq hlt
            omega
        next => cases hfound
      next hnone =>
        have hnext : (b == 10) = true ↔ ∀ c, (u ++ [b]).getLast? = some c → c = 10 := by simp
        obtain ⟨p, own, hhead, hsplit, hle, hbefore⟩ := ih hnext h
        rw [List.append_assoc, List.singleton_append] at hhead hbefore
        rw [List.length_append, List.length_singleton] at hle hbefore
        refine ⟨p, own, hhead, hsplit, Nat.le_of_succ_le hle, fun q hq hlt other hother => ?_⟩
        rcases Nat.eq_or_lt_of_le hq with rfl | hq
        · -- a head that stood here would have been read
          obtain ⟨hstart, found, hfound⟩ := hother.exists_listHere?
          rw [if_pos (hline.2 hstart)] at hnone
          cases hfound.symm.trans hnone
        · exact hbefore q hq hlt other hother

theorem opening_list_inj {o o' : Opening} {list' rest' : Text} (ho : o.IsWellFormed) (ho' : o'.IsWellFormed)
    (hl : ')'.toUInt8 ∉ list) (hl' : ')'.toUInt8 ∉ list')
    (h : o.text ++ (list ++ ')'.toUInt8 :: rest) = o'.text ++ (list' ++ ')'.toUInt8 :: rest')) :
    o = o' ∧ list = list' := by
  have hopen := Opening.next?_text ho (list ++ ')'.toUInt8 :: rest)
  rw [h, Opening.next?_text ho'] at hopen
  obtain ⟨rfl, hafter⟩ := Prod.mk.inj (Option.some.inj hopen)
  have hcut := Text.cut?_byte rest hl
  rw [← hafter, Text.cut?_byte rest' hl'] at hcut
  exact ⟨rfl, (Prod.mk.inj (Option.some.inj hcut)).1.symm⟩

theorem fragment_opens {fs : List Text} {fragment : Text} (h : Declaration.fragments t = .ok fs)
    (hmem : fragment ∈ fs) : ∃ o rest, Opening.IsWellFormed o ∧ fragment = o.text ++ rest := by
  obtain ⟨⟨spans, normalized⟩, hscan, -⟩ := bind_eq_ok.1 h
  obtain rfl := Except.ok.inj ((Declaration.fragments_of_scan hscan).symm.trans h)
  obtain ⟨s, hs, rfl⟩ := List.mem_map.1 hmem
  obtain ⟨hd, gap, body, hdecl⟩ := Declaration.scan_declares hscan hs
  refine ⟨hd.opening, hd.list ++ ")" ++ gap ++ body, hdecl.head.wellFormed.opening, ?_⟩
  rw [hdecl.slice, Head.text]
  simp

theorem stripBlocks_opening {o : Opening} (ho : o.IsWellFormed) (rest : Text) :
    Comment.stripBlocks (o.text ++ rest) = o.text ++ Comment.stripBlocks rest :=
  (Comment.IsStretch.of_not_mem (not_slash_opening ho)).stripBlocks rest

/-- The head that a text starts with gives the name and tells constructors; all else hangs on the list. -/
theorem parse_text {o : Opening} (ho : o.IsWellFormed) (rest : Text) :
    parse (o.text ++ rest) = match firstList? true (o.text ++ Comment.stripBlocks rest) with
      | none => .error { fault := .badParameters o.name }
      | some list => .ok {
          name := o.name
          source := o.text ++ Comment.stripBlocks rest
          isConstructor := decide (o.keyword = .constructor)
          parameters := some (splitParameters list) } := by
  cases hlist : firstList? true (o.text ++ Comment.stripBlocks rest) with
  | none => simp only [parse, stripBlocks_opening ho, firstOpening?_text ho, hlist]
  | some list => simp only [parse, stripBlocks_opening ho, firstOpening?_text ho, isPrefixOf_opening, hlist]

theorem parse_opening {o : Opening} {f : Builtin} (ho : o.IsWellFormed) (h : parse (o.text ++ rest) = .ok f) :
    f.name = o.name ∧ f.source = o.text ++ Comment.stripBlocks rest ∧
      ∃ list, firstList? true f.source = some list ∧ f.parameters = some (splitParameters list) := by
  rw [parse_text ho] at h
  split at h
  next => cases h
  next list hlist =>
    obtain rfl := Except.ok.inj h
    exact ⟨rfl, rfl, list, hlist, rfl⟩

/-- The source of a parsed fragment starts with a head, which gives the name. It gives the parameters, too, if
its list is plain. If it is not, they are those of the first line further on that starts with a head whose
list is plain. -/
theorem parse_fragment {fs : List Text} {fragment : Text} {f : Builtin}
    (hfs : Declaration.fragments t = .ok fs) (hmem : fragment ∈ fs) (hparse : parse fragment = .ok f) :
    ∃ o own rest, Opening.IsWellFormed o ∧ f.name = o.name ∧
      f.source = o.text ++ (own ++ ')'.toUInt8 :: rest) ∧ ')'.toUInt8 ∉ own ∧
      (IsPlainList own → f.parameters = some (splitParameters own)) ∧
      (¬ IsPlainList own → ∃ p list, 0 < p ∧ LineHead f.source p list ∧
        (∀ q < p, ∀ other, ¬ LineHead f.source q other) ∧ f.parameters = some (splitParameters list)) := by
  obtain ⟨o, after, ho, rfl⟩ := fragment_opens hfs hmem
  obtain ⟨hname, hsource, found, hfound, hparameters⟩ := parse_opening ho hparse
  obtain ⟨p, list, hhead, hsplit, -, hbefore⟩ := firstList?_eq_some (u := []) (by simp) hfound
  rw [List.nil_append] at hhead hbefore
  rw [hsplit] at hparameters
  -- the head that gives the parameters ends in a parenthesis, so the first head has one
  have hparen : ')'.toUInt8 ∈ Comment.stripBlocks after := by
    obtain ⟨-, -, o', rest', -, hdrop⟩ := hhead
    have hmem : ')'.toUInt8 ∈ f.source := List.mem_of_mem_drop (i := p) (by rw [hdrop]; simp)
    have hempty : Head.IsWellFormed ⟨o, []⟩ := ⟨ho, List.not_mem_nil⟩
    have hopen : ')'.toUInt8 ∉ o.text := by simpa using hempty.not_mem
    rw [hsource] at hmem
    exact (List.mem_append.1 hmem).resolve_left hopen
  obtain ⟨own, rest, hafter, hown⟩ := List.eq_append_cons_of_mem hparen
  rw [hafter] at hsource
  have hzero (hp : p = 0) : list = own := by
    subst hp
    obtain ⟨-, hplain, o', rest', ho', hdrop⟩ := hhead
    rw [List.drop_zero, hsource] at hdrop
    exact (opening_list_inj ho ho' hown hplain.not_paren hdrop).2.symm
  refine ⟨o, own, rest, ho, hname, hsource, hown, fun hplain => ?_, fun hplain => ?_⟩
  · have hfirst : LineHead f.source 0 own := ⟨by simp, hplain, o, rest, ho, by rw [List.drop_zero, hsource]⟩
    have hp : p = 0 := by
      by_contra hp
      exact hbefore 0 (Nat.zero_le 0) (Nat.pos_of_ne_zero hp) own hfirst
    rw [hparameters, hzero hp]
  · refine ⟨p, list, Nat.pos_of_ne_zero fun hp => hplain ?_, hhead, fun q => hbefore q (Nat.zero_le q),
      hparameters⟩
    rw [← hzero hp]
    exact hhead.plain

theorem parse_fragment_nested_head :
    ∃ t fragment f, Declaration.fragments t = .ok [fragment] ∧ parse fragment = .ok f ∧
      f.parameters = some [Text.ofString "a", Text.ofString "b"] ∧
      ∃ o own rest, Opening.IsWellFormed o ∧ f.name = o.name ∧
        f.source = o.text ++ (own ++ ')'.toUInt8 :: rest) ∧
        (IsPlainList own → f.parameters = some (splitParameters own)) := by
  have hfs : Declaration.fragments "function f(a, b) \x7b\nfunction g(x) \x7b\x7d\n\x7d" =
      .ok [Text.ofString "function f(a, b) \x7b\nfunction g(x) \x7b\x7d\n\x7d"] := by decide +kernel
  have hparse : parse "function f(a, b) \x7b\nfunction g(x) \x7b\x7d\n\x7d" = .ok
      { name := "f", source := "function f(a, b) \x7b\nfunction g(x) \x7b\x7d\n\x7d", isConstructor := false,
        parameters := some ["a", "b"] } := by decide +kernel
  obtain ⟨o, own, rest, ho, hname, hsource, -, hplain, -⟩ := parse_fragment hfs (by simp) hparse
  exact ⟨_, _, _, hfs, hparse, rfl, o, own, rest, ho, hname, hsource, hplain⟩

def HasOwnParameters (f : Builtin) : Prop :=
  ∃ o own rest, Opening.IsWellFormed o ∧ f.name = o.name ∧ f.source = o.text ++ (own ++ ')'.toUInt8 :: rest) ∧
    ')'.toUInt8 ∉ own ∧ f.parameters = some (splitParameters own)

/-- A default value makes the list of a function one that is not plain, so it takes the parameters of the
function inside it. -/
theorem foreign_parameters :
    ∃ t fragment f, Declaration.fragments t = .ok [fragment] ∧ parse fragment = .ok f ∧
      t = Text.ofString "function outer(a = 1) \x7b\nfunction inner(x) \x7b \x7d\n\x7d" ∧
      f.name = Text.ofString "outer" ∧ f.parameters = some [Text.ofString "x"] ∧ ¬ HasOwnParameters f := by
  have hfs : Declaration.fragments "function outer(a = 1) \x7b\nfunction inner(x) \x7b \x7d\n\x7d" =
      .ok [Text.ofString "function outer(a = 1) \x7b\nfunction inner(x) \x7b \x7d\n\x7d"] := by decide +kernel
  have hparse : parse "function outer(a = 1) \x7b\nfunction inner(x) \x7b \x7d\n\x7d" = .ok
      { name := "outer", source := "function outer(a = 1) \x7b\nfunction inner(x) \x7b \x7d\n\x7d",
        isConstructor := false, parameters := some ["x"] } := by decide +kernel
  refine ⟨_, _, _, hfs, hparse, rfl, rfl, rfl, ?_⟩
  rintro ⟨o, own, rest, ho, -, hsource, hown, hparameters⟩
  have hhead : Opening.IsWellFormed ⟨.function, " ", "outer", []⟩ :=
    ⟨by decide, List.all_eq_true.1 (by decide), by decide, List.all_eq_true.1 (by decide),
      List.all_eq_true.1 (by decide)⟩
  have hsame : Opening.text ⟨.function, " ", "outer", []⟩ ++
      ("a = 1" ++ ')'.toUInt8 :: (" \x7b\nfunction inner(x) \x7b \x7d\n\x7d" : Text)) =
        o.text ++ (own ++ ')'.toUInt8 :: rest) := hsource
  obtain ⟨-, rfl⟩ := opening_list_inj hhead ho (by decide) hown hsame
  exact absurd hparameters (by decide +kernel)

end Signature

end BuiltinCatalog
