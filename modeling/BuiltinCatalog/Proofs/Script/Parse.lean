import BuiltinCatalog.Collection
import BuiltinCatalog.Proofs.Script.Scan

namespace BuiltinCatalog

open Comment (View)

namespace Signature

theorem nextWord?_append {u w v : Text} (hu : ∀ b ∈ u, Text.isSpace b = true) (hn : w ≠ [])
    (hw : ∀ b ∈ w, Text.isWord b = true) (hv : ∀ b, v.head? = some b → Text.isWord b = false) :
    nextWord? (u ++ (w ++ v)) = some (u ++ w, v) := by
  have hstop : ∀ b, (w ++ v).head? = some b → Text.isSpace b = false := by
    intro b hb
    obtain ⟨c, w', rfl⟩ := List.exists_cons_of_ne_nil hn
    obtain rfl : c = b := by simpa using hb
    exact Opening.not_isSpace_of_isWord (hw c (by simp))
  simp only [nextWord?]
  rw [Text.dropWhile_append_stop hu hstop, Text.takeWhile_append_stop hu hstop,
    Text.takeWhile_append_stop hw hv, Text.dropWhile_append_stop hw hv, if_neg hn]

theorem nextWord?_eq_none {u v : Text} {b : Byte} (hu : ∀ c ∈ u, Text.isSpace c = true)
    (hs : Text.isSpace b = false) (hw : Text.isWord b = false) : nextWord? (u ++ b :: v) = none := by
  have hstop : ∀ c, (b :: v).head? = some c → Text.isSpace c = false := by
    rintro c ⟨⟩
    exact hs
  simp only [nextWord?]
  rw [Text.dropWhile_append_stop hu hstop]
  simp [hw]

end Signature

namespace Script

open Signature

theorem mem_fill_bare {fs : List Filler} (hf : ∀ f ∈ fs, f.isInline = true) :
    ∀ b ∈ fill .bare fs, Text.isSpace b = true := by
  intro b h
  obtain ⟨f, hm, hb⟩ := List.mem_flatMap.1 h
  cases f with
  | blank c hc =>
      obtain rfl : b = c := by simpa [Filler.render] using hb
      exact hc
  | comment c _ =>
      cases c with
      | block x => simp [Filler.render, Comment.view] at hb
      | line x => simpa [Filler.isInline] using hf _ hm

namespace Parameter

variable (p : Parameter)

def leading : Text := fill .bare p.before

def trailing : Text := fill .bare p.after

theorem leading_space : ∀ b ∈ p.leading, Text.isSpace b = true :=
  mem_fill_bare fun f hf => p.inline f (List.mem_append_left _ hf)

theorem trailing_space : ∀ b ∈ p.trailing, Text.isSpace b = true :=
  mem_fill_bare fun f hf => p.inline f (List.mem_append_right _ hf)

theorem render_bare : p.render .bare = p.leading ++ (p.name.text ++ p.trailing) := rfl

end Parameter

def commaText (ps : List Parameter) : Text := ps.flatMap fun q => ','.toUInt8 :: q.render .bare

theorem commaText_cons (p : Parameter) (ps : List Parameter) :
    commaText (p :: ps) =
      ','.toUInt8 :: (p.leading ++ (p.name.text ++ (p.trailing ++ commaText ps))) := by
  simp [commaText, Parameter.render_bare]

theorem length_le_commaText (ps : List Parameter) : ps.length ≤ (commaText ps).length := by
  induction ps with
  | nil => simp
  | cons p ps ih =>
      rw [commaText_cons]
      simp only [List.length_cons, List.length_append]
      omega

/-- After a parameter and its white space stands a comma or the closing parenthesis. -/
theorem head?_commaText (ps : List Parameter) (rest : Text) {b : Byte}
    (h : (commaText ps ++ ')'.toUInt8 :: rest).head? = some b) : b = ','.toUInt8 ∨ b = ')'.toUInt8 := by
  cases ps with
  | nil => exact Or.inr (by simpa [commaText, eq_comm] using h)
  | cons p ps => exact Or.inl (by simpa [commaText_cons, eq_comm] using h)

theorem head?_commaText_isSpace (ps : List Parameter) (rest : Text) :
    ∀ b, (commaText ps ++ ')'.toUInt8 :: rest).head? = some b → Text.isSpace b = false := by
  intro b h
  rcases head?_commaText ps rest h with rfl | rfl <;> rfl

theorem head?_trailing {u : Text} (hu : ∀ b ∈ u, Text.isSpace b = true) (ps : List Parameter) (rest : Text) :
    ∀ b, (u ++ (commaText ps ++ ')'.toUInt8 :: rest)).head? = some b → Text.isWord b = false := by
  intro b h
  cases u with
  | nil => rcases head?_commaText ps rest h with rfl | rfl <;> rfl
  | cons c u =>
      obtain rfl : c = b := by simpa using h
      exact Opening.not_isWord_of_isSpace (hu c (by simp))

/-- What is read of the parameters after the first when the white space `u` stands before them: the white
space after the last one is left. -/
def taken (u : Text) : List Parameter → Text
  | [] => []
  | p :: ps => u ++ ','.toUInt8 :: (p.leading ++ p.name.text) ++ taken p.trailing ps

def leftOver (u : Text) : List Parameter → Text
  | [] => u
  | p :: ps => leftOver p.trailing ps

theorem leftOver_space (ps : List Parameter) {u : Text} (hu : ∀ b ∈ u, Text.isSpace b = true) :
    ∀ b ∈ leftOver u ps, Text.isSpace b = true := by
  induction ps generalizing u with
  | nil => exact hu
  | cons p ps ih => exact ih p.trailing_space

theorem commaWords_eq {n : Nat} {ps : List Parameter} (hn : ps.length ≤ n) {u : Text}
    (hu : ∀ b ∈ u, Text.isSpace b = true) (rest : Text) :
    commaWords n (u ++ (commaText ps ++ ')'.toUInt8 :: rest)) =
      (taken u ps, leftOver u ps ++ ')'.toUInt8 :: rest) := by
  induction ps generalizing n u with
  | nil =>
      have hd := Text.dropWhile_append_stop hu (head?_commaText_isSpace [] rest)
      have hparen : ¬ ')'.toUInt8 = ','.toUInt8 := by decide
      cases n with
      | zero => rfl
      | succ n => simp_all [commaWords, commaText, taken, leftOver]
  | cons p ps ih =>
      obtain ⟨n, rfl⟩ : ∃ k, n = k + 1 := ⟨n - 1, by simp at hn; omega⟩
      have hstop := head?_commaText_isSpace (p :: ps) rest
      have hw := nextWord?_append p.leading_space p.name.ne_nil p.name.isWord
        (head?_trailing p.trailing_space ps rest)
      have hmore := ih (Nat.le_of_succ_le_succ hn) p.trailing_space
      rw [commaWords, Text.dropWhile_append_stop hu hstop, Text.takeWhile_append_stop hu hstop]
      simp only [commaText_cons, List.cons_append, List.append_assoc]
      rw [if_pos trivial, hw]
      simp only [hmore, taken, leftOver, List.append_assoc, List.cons_append]

def ParameterList.listed : ParameterList → Text
  | .empty fs _ => fill .bare fs
  | .cons p ps => p.leading ++ p.name.text ++ p.trailing ++ taken [] ps

/-- After the first word, or after nothing, only words with commas stand before the parenthesis. -/
theorem parameterText?_of_first {t first gap : Text} (ps : List Parameter) (rest : Text)
    (hf : (nextWord? t).getD ([], t) = (first, gap ++ (commaText ps ++ ')'.toUInt8 :: rest)))
    (hg : ∀ b ∈ gap, Text.isSpace b = true) :
    parameterText? t = some (first ++ gap ++ taken [] ps) := by
  have hstop := head?_commaText_isSpace ps rest
  have hlen : ps.length ≤ (commaText ps ++ ')'.toUInt8 :: rest).length := by
    have := length_le_commaText ps
    rw [List.length_append]
    omega
  have hcomma : commaWords (commaText ps ++ ')'.toUInt8 :: rest).length (commaText ps ++ ')'.toUInt8 :: rest) =
      (taken [] ps, leftOver [] ps ++ ')'.toUInt8 :: rest) :=
    commaWords_eq hlen (u := []) (by simp) rest
  have hend : (leftOver [] ps ++ ')'.toUInt8 :: rest).dropWhile Text.isSpace = ')'.toUInt8 :: rest :=
    Text.dropWhile_append_stop (leftOver_space ps (by simp)) (head?_commaText_isSpace [] rest)
  simp only [parameterText?, hf, Text.takeWhile_append_stop hg hstop,
    Text.dropWhile_append_stop hg hstop, hcomma, hend, if_true]

theorem parameterText?_bare (l : ParameterList) (rest : Text) :
    parameterText? (l.render .bare ++ ')'.toUInt8 :: rest) = some l.listed := by
  cases l with
  | empty fs hf =>
      have hs := mem_fill_bare hf
      have hw : nextWord? (fill .bare fs ++ ')'.toUInt8 :: rest) = none := nextWord?_eq_none hs rfl rfl
      have hp := parameterText?_of_first (t := fill .bare fs ++ ')'.toUInt8 :: rest) [] rest
        (by rw [hw]; rfl) hs
      simpa [ParameterList.render, ParameterList.listed, taken] using hp
  | cons p ps =>
      have ht : ParameterList.render .bare (.cons p ps) ++ ')'.toUInt8 :: rest =
          p.leading ++ (p.name.text ++ (p.trailing ++ (commaText ps ++ ')'.toUInt8 :: rest))) := by
        simp [ParameterList.render, Parameter.render_bare, commaText]
      rw [ht]
      refine parameterText?_of_first ps rest ?_ p.trailing_space
      rw [nextWord?_append p.leading_space p.name.ne_nil p.name.isWord
        (head?_trailing p.trailing_space ps rest)]
      rfl

theorem not_comma {u w : Text} (hu : ∀ b ∈ u, Text.isSpace b = true) (hw : ∀ b ∈ w, Text.isWord b = true) :
    ','.toUInt8 ∉ u ++ w := by
  intro h
  rcases List.mem_append.1 h with h | h
  · exact absurd (hu _ h) (by decide)
  · exact absurd (hw _ h) (by decide)

theorem not_comma_padded (p : Parameter) : ','.toUInt8 ∉ p.leading ++ p.name.text ++ p.trailing := by
  intro h
  rcases List.mem_append.1 h with h | h
  · exact not_comma p.leading_space p.name.isWord h
  · exact absurd (p.trailing_space _ h) (by decide)

theorem trim_unpadded (p : Parameter) : Text.trim (p.leading ++ p.name.text) = p.name.text := by
  simpa using Text.trim_padded (v := []) p.leading_space p.name.isWord (by simp)

theorem trim_parameter (p : Parameter) : Text.trim (p.leading ++ p.name.text ++ p.trailing) = p.name.text :=
  Text.trim_padded p.leading_space p.name.isWord p.trailing_space

theorem splitOn_taken (p : Parameter) (ps : List Parameter) :
    ((p.leading ++ p.name.text ++ taken p.trailing ps).splitOn ','.toUInt8).map Text.trim =
      (p :: ps).map (·.name.text) := by
  induction ps generalizing p with
  | nil =>
      rw [taken, List.append_nil, List.splitOn_eq_singleton (not_comma p.leading_space p.name.isWord)]
      simp [trim_unpadded]
  | cons q ps ih =>
      have ht : p.leading ++ p.name.text ++ taken p.trailing (q :: ps) =
          p.leading ++ p.name.text ++ p.trailing ++
            ','.toUInt8 :: (q.leading ++ q.name.text ++ taken q.trailing ps) := by
        simp [taken]
      rw [ht, List.splitOn_append_cons_self_of_not_mem (not_comma_padded p), List.map_cons, ih,
        trim_parameter, List.map_cons (a := p)]

theorem splitParameters_listed (l : ParameterList) : splitParameters l.listed = l.names := by
  cases l with
  | empty fs hf =>
      have ht := Text.trim_padded (u := fill .bare fs) (w := []) (v := []) (mem_fill_bare hf) (by simp) (by simp)
      simp only [List.append_nil] at ht
      simp [splitParameters, ParameterList.listed, ParameterList.names, ht]
  | cons p ps =>
      have hne : Text.trim (p.leading ++ p.name.text ++ p.trailing ++ taken [] ps) ≠ [] := by
        obtain ⟨b, w, hw⟩ := List.exists_cons_of_ne_nil p.name.ne_nil
        have hb : Text.isWord b = true := p.name.isWord b (by simp [hw])
        simpa [hw] using Text.trim_ne_nil p.leading_space (Text.isInk_of_isWord hb)
          (w ++ (p.trailing ++ taken [] ps))
      rw [splitParameters, ParameterList.listed, if_neg hne, ParameterList.names]
      cases ps with
      | nil =>
          rw [taken, List.append_nil, List.splitOn_eq_singleton (not_comma_padded p), List.map_singleton,
            trim_parameter, List.map_singleton]
      | cons q ps =>
          have ht := splitOn_taken p (q :: ps)
          simpa [taken] using ht

theorem opening_cons (o : Opening) (rest : Text) : ∃ b t, o.text ++ rest = b :: t := by
  obtain ⟨b, _, hb⟩ := o.keyword.head?_text
  obtain ⟨u, hu⟩ := List.head?_eq_some_iff.1 hb
  exact ⟨b, _, by simp [Opening.text, hu]; rfl⟩

theorem firstOpening?_text {o : Opening} (h : o.IsWellFormed) (rest : Text) :
    firstOpening? (o.text ++ rest) = some o := by
  have hnext := Opening.next?_text h rest
  obtain ⟨b, t, ht⟩ := opening_cons o rest
  rw [ht] at hnext ⊢
  rw [firstOpening?, hnext]

theorem firstList?_text {o : Opening} (h : o.IsWellFormed) {rest list : Text}
    (hl : parameterText? rest = some list) : firstList? true (o.text ++ rest) = some list := by
  have hnext := Opening.next?_text h rest
  obtain ⟨b, t, ht⟩ := opening_cons o rest
  rw [ht] at hnext ⊢
  simp [firstList?, listHere?, hnext, hl]

theorem isPrefixOf_opening (o : Opening) (rest : Text) :
    Keyword.constructor.text.isPrefixOf (o.text ++ rest) = decide (o.keyword = .constructor) := by
  obtain ⟨k, gap, name, pad⟩ := o
  cases k with
  | function => rfl
  | constructor => 
      have hp : Keyword.constructor.text <+: Opening.text ⟨.constructor, gap, name, pad⟩ ++ rest := by
        simp [Opening.text]
      simpa using List.isPrefixOf_iff_prefix.2 hp

/-- A declaration is read back from its form with reduced comments; no object owns it yet. -/
theorem parse_reduced (d : Decl) : Signature.parse (d.render .reduced) = .ok (d.builtin []) := by
  obtain ⟨rest, hd⟩ : ∃ rest, d.render .bare =
      d.opening.text ++ (d.parameters.render .bare ++ ')'.toUInt8 :: rest) :=
    ⟨_, by simp [Decl.render]; rfl⟩
  have hlist := firstList?_text d.wellFormed (parameterText?_bare d.parameters rest)
  have hopen := firstOpening?_text d.wellFormed (d.parameters.render .bare ++ ')'.toUInt8 :: rest)
  have hkey := isPrefixOf_opening d.opening (d.parameters.render .bare ++ ')'.toUInt8 :: rest)
  rw [← hd] at hlist hopen hkey
  simp only [Signature.parse, d.stripBlocks_reduced, hlist, hopen, hkey, splitParameters_listed,
    Decl.builtin]

theorem mapM_parse_reduced (decls : List (Decl × List Filler)) :
    (decls.map fun d => d.1.render .reduced).mapM Signature.parse =
      .ok (decls.map fun d => d.1.builtin []) := by
  induction decls with
  | nil => rfl
  | cons d decls ih =>
      rw [List.map_cons, List.mapM_cons, parse_reduced, ih]
      rfl

theorem functionsOf_text (s : Script) :
    Collection.functionsOf s.text = .ok (s.decls.map fun d => d.1.builtin []) := by
  rw [Collection.functionsOf, s.fragments_text]
  exact mapM_parse_reduced s.decls

/-- The license comment is the first block comment, so it alone gives the copyright lines. -/
theorem copyright_lines_text (s : Script) :
    ∃ lines, Copyright.lines (Comment.block s.license).text = .ok lines ∧
      Copyright.lines s.text = .ok lines := by
  have hs : Comment.firstBlock? s.text = some (Comment.block s.license).text := by
    rw [text, render, Comment.view, Comment.firstBlock?, Comment.splitBlock?_block s.complete]
    rfl
  have hl : Comment.firstBlock? (Comment.block s.license).text = some (Comment.block s.license).text := by
    have h := Comment.splitBlock?_block s.complete []
    rw [List.append_nil] at h
    rw [Comment.firstBlock?, h]
    rfl
  exact ⟨_, by rw [Copyright.lines, hl], by rw [Copyright.lines, hs]⟩

/-- Reading a script adds one object, named after its file, that owns the declared functions in their
order, and the copyright lines of the license. -/
theorem parse_script (c : Collection) (path : Text) (s : Script) :
    ∃ lines, Copyright.lines (Comment.block s.license).text = .ok lines ∧
      c.parse path s.text = .ok { c with
        objects := c.objects ++ [⟨Collection.objectName path,
          some (s.decls.map fun d => d.1.builtin (Collection.objectName path))⟩]
        lines := lines.foldl Collection.addLine c.lines } := by
  obtain ⟨lines, hlicense, hlines⟩ := s.copyright_lines_text
  refine ⟨lines, hlicense, ?_⟩
  simp only [Collection.parse, Collection.readFile, hlines, s.functionsOf_text, bind, Except.bind, pure,
    Except.pure, Except.mapError, Collection.add, BuiltinObject.owning, BuiltinObject.functionList,
    Option.getD_some, List.map_map]
  rfl

/-- A parenthesis and a brace inside comments, and a body with braces of its own. -/
example : ∃ s : Script,
    s.text = "/* (c) */ function f(a /*)*/, b) \x7b g(\x7b\x7d) /*\x7d*/ \x7d" :=
  ⟨{ license := " (c) "
     lead := [.blank 32 rfl]
     decls := [({
       opening := ⟨.function, " ", "f", []⟩
       parameters := .cons
         ⟨[], ⟨"a", by decide, List.all_eq_true.1 (by decide)⟩, [.blank 32 rfl, .comment (.block ")") (by decide)],
           by simp [Filler.isInline]⟩
         [⟨[.blank 32 rfl], ⟨"b", by decide, List.all_eq_true.1 (by decide)⟩, [], by simp [Filler.isInline]⟩]
       lead := " "
       body := {
         parts := [.code " g(\x7b\x7d) ", .comment (.block "\x7d"), .code " "]
         apart := by decide
         chunks := by
           intro u hu
           have hu' : u = " g(\x7b\x7d) " ∨ u = " " := by simpa using hu
           rcases hu' with rfl | rfl
           · exact ⟨⟨by decide, by decide⟩, by decide, fun k => by cases k <;> decide⟩
           · exact ⟨⟨by decide, by decide⟩, by decide, fun k => by cases k <;> decide⟩
         complete := by
           intro c hc
           obtain rfl : c = .block "\x7d" := by simpa using hc
           decide
         balanced := by
           refine ⟨fun u hu => ?_, by decide⟩
           exact (by decide : ∀ v ∈ (Text.ofString " g(\x7b\x7d)  ").inits,
             v.count Braces.right ≤ v.count Braces.left) u ((List.mem_inits u _).2 hu) }
       wellFormed := ⟨by decide, List.all_eq_true.1 (by decide), by decide, List.all_eq_true.1 (by decide),
         List.all_eq_true.1 (by decide)⟩
       lead_space := List.all_eq_true.1 (by decide) }, [])]
     complete := by decide }, by decide⟩

end Script

end BuiltinCatalog
