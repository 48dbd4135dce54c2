import BuiltinCatalog.Cache.Entry
import BuiltinCatalog.Collection
import BuiltinCatalog.Proofs.Comment
import BuiltinCatalog.Proofs.Declaration.Scan
import BuiltinCatalog.Proofs.Except
import BuiltinCatalog.Proofs.Text.Valid

namespace BuiltinCatalog

open Text

namespace Comment

theorem isUtf8_placeholder (c : Comment) : IsUtf8 c.placeholder := by
  apply isUtf8_ascii
  cases c with
  | block x => exact isAscii_of_all (t := [slash, star, star, slash]) (by decide)
  | line x => exact isAscii_of_all (t := [slash, slash, '\n'.toUInt8]) (by decide)

theorem isUtf8_after {c : Comment} {rest : Text} (h : IsUtf8 (c.text ++ rest)) : IsUtf8 rest := by
  obtain ⟨u, b, hu, hb⟩ : ∃ u b, c.text = u ++ [b] ∧ IsAscii b := by
    cases c with
    | block x => exact ⟨slash :: star :: (x ++ [star]), slash, by simp [text_block], by decide⟩
    | line x => exact ⟨slash :: slash :: x, '\n'.toUInt8, by simp [text_line], by decide⟩
  rw [hu] at h
  exact ((isUtf8_append_mark (by simp) (by simpa using hb)).1 h).2

theorem isUtf8_normalize {t : Text} (h : IsUtf8 t) : IsUtf8 (normalize t) := by
  induction hn : t.length using Nat.strong_induction_on generalizing t with
  | _ n ih =>
      obtain ⟨cs, rfl⟩ := isUtf8_iff.1 h
      cases cs with
      | nil => simpa [ofChars] using isUtf8_nil
      | cons c cs =>
          have hcs : IsUtf8 (ofChars cs) := isUtf8_iff.2 ⟨cs, rfl⟩
          have hpos : 0 < (encode c).length := List.length_pos_iff.2 (bytes_ne_nil (.char c))
          rw [ofChars_cons] at h hn ⊢
          have hlt : (ofChars cs).length < n := by
            rw [← hn, List.length_append]
            omega
          by_cases hslash : slash ∈ encode c
          · have hone : encode c = [slash] := by
              rw [encode_eq_of_mem (by decide) hslash]
              exact encode_ascii (by decide)
            rw [hone, List.singleton_append] at h hn ⊢
            cases hnext : next? (slash :: ofChars cs) with
            | none =>
                rw [normalize_of_none hnext]
                exact (isUtf8_cons (by decide)).2 (ih _ hlt hcs rfl)
            | some cr =>
                obtain ⟨d, rest⟩ := cr
                rw [next?_append hnext] at h hn
                rw [normalize_of_next? hnext]
                refine (isUtf8_placeholder d).append (ih rest.length ?_ (isUtf8_after h) rfl)
                have : 0 < d.text.length := by cases d <;> simp [text_block, text_line]
                rw [← hn, List.length_append]
                omega
          · -- a character without a slash is passed over as a whole
            rw [normalize_code (.of_not_mem hslash) _ fun hl => absurd (List.mem_of_getLast? hl) hslash]
            exact (isUtf8_encode c).append (ih _ hlt hcs rfl)

theorem isUtf8_of_splitBlock? {t u x v : Text} (h : splitBlock? t = some (u, x, v)) (ht : IsUtf8 t) :
    IsUtf8 u ∧ IsUtf8 x ∧ IsUtf8 v := by
  have hsplit : t = u ++ [slash, star] ++ (x ++ [star, slash] ++ v) := by
    rw [splitBlock?_append h]
    simp [text_block]
  rw [hsplit] at ht
  obtain ⟨hu, hxv⟩ := (isUtf8_append_mark (by simp) (isAscii_of_all (by decide))).1 ht
  exact ⟨hu, (isUtf8_append_mark (by simp) (isAscii_of_all (by decide))).1 hxv⟩

theorem isUtf8_stripBlocks {t : Text} (h : IsUtf8 t) : IsUtf8 (stripBlocks t) := by
  fun_induction stripBlocks t with
  | case1 t hs => exact h
  | case2 t u x v hs ih =>
      obtain ⟨hu, _, hv⟩ := isUtf8_of_splitBlock? hs h
      exact hu.append (ih hv)

theorem isUtf8_firstBlock? {t block : Text} (h : firstBlock? t = some block) (ht : IsUtf8 t) :
    IsUtf8 block := by
  obtain ⟨⟨u, x, v⟩, hs, rfl⟩ := Option.map_eq_some_iff.1 h
  obtain ⟨_, hx, _⟩ := isUtf8_of_splitBlock? hs ht
  have hb : (Comment.block x).text = [] ++ [slash, star] ++ (x ++ [star, slash] ++ []) := by
    simp [text_block]
  change IsUtf8 (Comment.block x).text
  rw [hb]
  exact (isUtf8_append_mark (by simp) (isAscii_of_all (by decide))).2
    ⟨isUtf8_nil, (isUtf8_append_mark (by simp) (isAscii_of_all (by decide))).2 ⟨hx, isUtf8_nil⟩⟩

end Comment

namespace Copyright

theorem isAscii_markers : ∀ mark ∈ markers, ∀ b ∈ mark, IsAscii b := by
  have h : markers.all (fun mark => mark.all fun b => decide (IsAscii b)) = true := by decide
  exact fun mark hm => isAscii_of_all (List.all_eq_true.1 h mark hm)

theorem isUtf8_strip {line : Text} (h : IsUtf8 line) : IsUtf8 (strip line) := by
  have hfold : ∀ marks : List Text, (∀ mark ∈ marks, ∀ b ∈ mark, IsAscii b) → ∀ t, IsUtf8 t →
      IsUtf8 (marks.foldl (fun t mark => removeAll mark t) t) := by
    intro marks
    induction marks with
    | nil => exact fun _ t ht => ht
    | cons mark marks ih =>
        intro ha t ht
        exact ih (fun m hm => ha m (by simp [hm])) _ (isUtf8_removeAll (ha mark (by simp)) ht)
  exact hfold markers isAscii_markers line h

theorem isUtf8_lines {t : Text} {ls : List Text} (h : lines t = .ok ls) (ht : IsUtf8 t) :
    ∀ l ∈ ls, IsUtf8 l := by
  unfold lines at h
  split at h
  next => cases h
  next block hblock =>
    have hb := Comment.isUtf8_firstBlock? hblock ht
    have hline (header : Text) (hh : IsUtf8 header) :
        ∀ l ∈ ((header.splitOn 10).map fun line => trim (strip line)).filter (· ≠ []), IsUtf8 l := by
      intro l hl
      obtain ⟨line, hline, rfl⟩ := List.mem_map.1 (List.mem_filter.1 hl).1
      exact isUtf8_trim (isUtf8_strip (isUtf8_splitOn (by decide) hh line hline))
    cases hc : cut? termsMark block with
    | none =>
        obtain rfl := Except.ok.inj (by simpa only [hc] using h)
        exact hline block hb
    | some uv =>
        obtain ⟨u, v⟩ := uv
        obtain rfl := Except.ok.inj (by simpa only [hc] using h)
        exact hline u (isUtf8_of_cut? hc (by decide) (isAscii_of_all (by decide)) hb).1

end Copyright

namespace Path

theorem isUtf8_lastPart {p : Text} (h : IsUtf8 p) : IsUtf8 (lastPart p) := by
  have hsplit := List.takeWhile_append_dropWhile (p := (· != slash)) (l := p.reverse)
  cases hd : p.reverse.dropWhile (· != slash) with
  | nil =>
      rw [hd, List.append_nil] at hsplit
      rw [lastPart, hsplit, List.reverse_reverse]
      exact h
  | cons b u =>
      obtain rfl : b = slash := by
        have := List.head_dropWhile_not (· != slash) (l := p.reverse) (by simp [hd])
        simpa [hd] using this
      have hp : p = u.reverse ++ slash :: lastPart p := by
        rw [hd] at hsplit
        have := congrArg List.reverse hsplit
        simpa [lastPart] using this.symm
      rw [hp] at h
      exact ((isUtf8_append_cons (by decide)).1 h).2

theorem isUtf8_withoutSlashes {p : Text} (h : IsUtf8 p) :
    IsUtf8 (p.reverse.dropWhile (· == slash)).reverse := by
  have hsplit : p = (p.reverse.dropWhile (· == slash)).reverse ++ (p.reverse.takeWhile (· == slash)).reverse := by
    rw [← List.reverse_append, List.takeWhile_append_dropWhile, List.reverse_reverse]
  have hslashes : ∀ b ∈ (p.reverse.takeWhile (· == slash)).reverse, IsAscii b := by
    intro b hb
    obtain rfl : b = slash := by simpa using List.mem_takeWhile_imp (List.mem_reverse.1 hb)
    decide
  rw [hsplit] at h
  exact isUtf8_of_append_ascii hslashes h

theorem isUtf8_base {p : Text} (h : IsUtf8 p) : IsUtf8 (base p) := by
  unfold base
  split
  next => exact isUtf8_ascii (isAscii_of_all (by decide))
  next =>
    dsimp only
    split
    next => exact isUtf8_byte (by decide)
    next => exact isUtf8_lastPart (isUtf8_withoutSlashes h)

theorem isUtf8_withoutSuffix {e t : Text} (he : ∀ b, e.head? = some b → IsAscii b) (h : IsUtf8 t) :
    IsUtf8 (withoutSuffix e t) := by
  unfold withoutSuffix
  split
  next hs =>
    obtain ⟨u, rfl⟩ := List.isSuffixOf_iff_suffix.1 hs
    have htake : (u ++ e).take ((u ++ e).length - e.length) = u := by simp
    rw [htake]
    cases e with
    | nil => simpa using h
    | cons b e => exact ((isUtf8_append_cons (he b rfl)).1 h).1
  next => exact h

theorem isUtf8_stem {p : Text} (h : IsUtf8 p) : IsUtf8 (stem p) := by
  refine isUtf8_withoutSuffix (fun b hb => ?_) (isUtf8_base h)
  -- an extension starts with its dot
  obtain rfl : '.'.toUInt8 = b := by
    unfold extension at hb
    dsimp only at hb
    split at hb <;> simp_all
  decide

end Path

namespace Signature

theorem isAscii_nextWord? {t u v : Text} (h : nextWord? t = some (u, v)) : ∀ b ∈ u, IsAscii b := by
  simp only [nextWord?] at h
  split at h
  next => simp at h
  next =>
    obtain ⟨rfl, -⟩ := by simpa using h
    intro b hb
    rcases List.mem_append.1 hb with hb | hb
    · exact isAscii_of_isSpace (List.mem_takeWhile_imp hb)
    · exact isAscii_of_isWord (List.mem_takeWhile_imp hb)

theorem isAscii_commaWords (n : Nat) (t : Text) : ∀ b ∈ (commaWords n t).1, IsAscii b := by
  fun_induction commaWords n t with
  | case1 | case3 | case4 | case5 => simp
  | case2 n t rest word after hw more last hmore hd ih =>
      rw [hmore] at ih
      intro b hb
      simp only [List.mem_append, List.mem_cons] at hb
      rcases hb with (hb | rfl | hb) | hb
      · exact isAscii_of_isSpace (List.mem_takeWhile_imp hb)
      · decide
      · exact isAscii_nextWord? hw b hb
      · exact ih b hb

theorem isAscii_parameterText? {t u : Text} (h : parameterText? t = some u) : ∀ b ∈ u, IsAscii b := by
  have hfirst : ∀ b ∈ ((nextWord? t).getD ([], t)).1, IsAscii b := by
    cases hw : nextWord? t with
    | none => simp
    | some w => exact isAscii_nextWord? hw
  simp only [parameterText?] at h
  split at h
  next c rest hc =>
    split at h
    next =>
      obtain rfl := Option.some.inj h
      intro b hb
      simp only [List.mem_append] at hb
      rcases hb with (hb | hb) | hb
      · exact hfirst b hb
      · exact isAscii_of_isSpace (List.mem_takeWhile_imp hb)
      · exact isAscii_commaWords _ _ b hb
    next => simp at h
  next => simp at h

theorem isAscii_firstList? {lineStart : Bool} {t u : Text} (h : firstList? lineStart t = some u) :
    ∀ b ∈ u, IsAscii b := by
  fun_induction firstList? lineStart t with
  | case1 => simp at h
  | case2 lineStart b rest list hl =>
      obtain rfl : list = u := by simpa using h
      cases lineStart with
      | false => cases hl
      | true =>
          obtain ⟨⟨o, after⟩, ho, hp⟩ := Option.bind_eq_some_iff.1 hl
          exact isAscii_parameterText? hp
  | case3 lineStart b rest hn ih => exact ih h

theorem isWord_firstOpening? {t : Text} {o : Opening} (h : firstOpening? t = some o) :
    ∀ b ∈ o.name, isWord b = true := by
  fun_induction firstOpening? t with
  | case1 => simp at h
  | case2 b rest o' after ho =>
      obtain rfl : o' = o := by simpa using h
      exact (Opening.wellFormed_of_next? ho).name_word
  | case3 b rest hn ih => exact ih h

end Signature

structure Builtin.IsUtf8 (f : Builtin) : Prop where
  name : Text.IsUtf8 f.name
  source : Text.IsUtf8 f.source
  parameters : ∀ p ∈ f.parameterList, Text.IsUtf8 p
  object : Text.IsUtf8 f.object

theorem map_scrub_eq {ts : List Text} (h : ∀ t ∈ ts, Text.IsUtf8 t) : ts.map scrub = ts := by
  induction ts with
  | nil => rfl
  | cons t ts ih =>
      rw [List.map_cons, (h t (by simp)).scrub_eq, ih fun u hu => h u (by simp [hu])]

theorem Builtin.IsUtf8.scrub_eq {f : Builtin} (h : f.IsUtf8) : f.scrub = f := by
  obtain ⟨name, source, isConstructor, parameters, object⟩ := f
  obtain ⟨hn, hs, hp, ho⟩ := h
  have hp' : parameters.map (·.map Text.scrub) = parameters := by
    cases parameters with
    | none => rfl
    | some ps => exact congrArg some (map_scrub_eq hp)
  simp only [Builtin.scrub, hn.scrub_eq, hs.scrub_eq, ho.scrub_eq, hp']

theorem Signature.isUtf8_parse {fragment : Text} {f : Builtin} (h : Signature.parse fragment = .ok f)
    (hf : Text.IsUtf8 fragment) : f.IsUtf8 := by
  have hsource := Comment.isUtf8_stripBlocks hf
  obtain ⟨o, list, ho, hl, rfl⟩ := Signature.parse_eq_ok h
  refine ⟨?_, hsource, ?_, isUtf8_nil⟩
  · exact isUtf8_ascii fun b hb => isAscii_of_isWord (isWord_firstOpening? ho b hb)
  · intro p hp
    simp only [Builtin.parameterList, Option.getD_some, Signature.splitParameters] at hp
    split at hp
    next => simp at hp
    next =>
      obtain ⟨u, hu, rfl⟩ := List.mem_map.1 hp
      have hlist := isUtf8_ascii (isAscii_firstList? hl)
      exact isUtf8_trim (isUtf8_splitOn (by decide) hlist u hu)

/-- A declaration starts and ends in ASCII, so it can be cut out of a valid text. -/
theorem Span.Declares.isUtf8_slice {t : Text} {s : Span} {hd : Head} {gap body : Text}
    (h : s.Declares t hd gap body) (ht : Text.IsUtf8 t) : Text.IsUtf8 (s.slice t) := by
  obtain ⟨b, inner, hb, hslice, hsplit⟩ := h.split
  have hascii := isAscii_of_isWord hb
  rw [hsplit] at ht
  have hrest := ((isUtf8_append_cons hascii).1 ht).2
  have hinner := ((isUtf8_append_cons (by decide)).1 hrest).1
  rw [hslice, List.cons_append, isUtf8_cons hascii]
  exact hinner.append (isUtf8_byte (by decide))

theorem Declaration.isUtf8_fragments {t : Text} {fs : List Text} (h : Declaration.fragments t = .ok fs)
    (ht : Text.IsUtf8 t) : ∀ f ∈ fs, Text.IsUtf8 f := by
  cases hs : Declaration.scan t with
  | error e => simp [Declaration.fragments, hs, bind, Except.bind] at h
  | ok out =>
      obtain ⟨spans, normalized⟩ := out
      rw [Declaration.fragments_of_scan hs] at h
      obtain rfl := Except.ok.inj h
      obtain ⟨hn, _⟩ := Declaration.scan_eq_ok_iff.1 hs
      intro f hf
      obtain ⟨s, hs', rfl⟩ := List.mem_map.1 hf
      obtain ⟨hd, gap, body, hdecl⟩ := Declaration.scan_declares hs hs'
      exact hdecl.isUtf8_slice (hn ▸ Comment.isUtf8_normalize ht)

namespace Collection

theorem isUtf8_functionsOf {t : Text} {fs : List Builtin} (h : functionsOf t = .ok fs)
    (ht : Text.IsUtf8 t) : ∀ f ∈ fs, f.IsUtf8 := by
  cases hfr : Declaration.fragments t with
  | error e => simp [functionsOf, hfr, bind, Except.bind] at h
  | ok frs =>
      have hm : frs.mapM Signature.parse = .ok fs := by simpa [functionsOf, hfr, bind, Except.bind] using h
      intro f hf
      obtain ⟨u, hu, hp⟩ := mem_mapM_ok hm hf
      exact Signature.isUtf8_parse hp (Declaration.isUtf8_fragments hfr ht u hu)

theorem readFile_eq_ok_iff {path t : Text} {o : BuiltinObject} {ls : List Text} :
    readFile path t = .ok (o, ls) ↔ Copyright.lines t = .ok ls ∧
      ∃ fs, functionsOf t = .ok fs ∧ o = BuiltinObject.owning (objectName path) fs := by
  cases hl : Copyright.lines t with
  | error e => simp [readFile, hl, bind, Except.bind, Except.mapError]
  | ok ms =>
      cases hf : functionsOf t with
      | error e => simp [readFile, hl, hf, bind, Except.bind, Except.mapError]
      | ok fs =>
          simp [readFile, hl, hf, bind, Except.bind, pure, Except.pure, Except.mapError, and_comm, eq_comm]

theorem owning_of_readFile {path t : Text} {o : BuiltinObject} {ls : List Text}
    (h : readFile path t = .ok (o, ls)) : BuiltinObject.owning o.name o.functionList = o := by
  obtain ⟨_, fs, _, rfl⟩ := readFile_eq_ok_iff.1 h
  simp [BuiltinObject.owning, BuiltinObject.functionList]

theorem scrub_of_readFile {path t : Text} {o : BuiltinObject} {ls : List Text}
    (h : readFile path t = .ok (o, ls)) (hp : Text.IsUtf8 path) (ht : Text.IsUtf8 t) :
    o.scrub = o ∧ ∀ l ∈ ls, Text.IsUtf8 l := by
  obtain ⟨hl, fs, hf, rfl⟩ := readFile_eq_ok_iff.1 h
  refine ⟨?_, Copyright.isUtf8_lines hl ht⟩
  have hname : Text.IsUtf8 (objectName path) := Path.isUtf8_stem hp
  have hmap : (fs.map fun f => { f with object := objectName path }).map Builtin.scrub =
      fs.map fun f => { f with object := objectName path } := by
    rw [List.map_map]
    refine List.map_congr_left fun f hm => ?_
    have hv := isUtf8_functionsOf hf ht f hm
    exact Builtin.IsUtf8.scrub_eq ⟨hv.name, hv.source, hv.parameters, hname⟩
  simp only [BuiltinObject.scrub, BuiltinObject.owning, Option.map_some, hname.scrub_eq, hmap]

end Collection

end BuiltinCatalog
