import BuiltinCatalog.Proofs.Collection.Merge
import BuiltinCatalog.Proofs.Signature.Parameters

namespace BuiltinCatalog.Collection

variable {f : Framework} {files files' : List (Text × Text)} {c c' : Collection}

/-- Collections built from files, by parsing them into collections and merging these. -/
inductive Built (f : Framework) : List (Text × Text) → Collection → Prop
  | empty : Built f [] { framework := f }
  | parse {files : List (Text × Text)} {c c' : Collection} {file text : Text} (built : Built f files c)
      (parsed : c.parse file text = .ok c') : Built f (files ++ [(file, text)]) c'
  | merge {files files' : List (Text × Text)} {c other m : Collection} (built : Built f files c)
      (other_built : Built f files' other) (merged : c.merge other = .ok m) : Built f (files ++ files') m

def parseAll (f : Framework) (files : List (Text × Text)) : Except ParseError Collection :=
  files.foldlM (fun c file => c.parse file.1 file.2) { framework := f }

structure SortedAlike (c c' : Collection) : Prop where
  allFunctions : c.allFunctions = c'.allFunctions
  copyrightLines : c.copyrightLines = c'.copyrightLines
  copyrights : c.copyrights = c'.copyrights

def result? (file : Text × Text) : Option (BuiltinObject × List Text) :=
  (readFile file.1 file.2).toOption

theorem readFile_of_result? {file : Text × Text} {r : BuiltinObject × List Text} (h : result? file = some r) :
    readFile file.1 file.2 = .ok r := by
  unfold result? at h
  cases hr : readFile file.1 file.2 with
  | error e => simp [hr, Except.toOption] at h
  | ok r' => simpa [hr, Except.toOption] using h

/-- The objects and the lines of a collection are those of the given results. -/
structure Holds (c : Collection) (rs : List (BuiltinObject × List Text)) : Prop where
  objects : c.objects = rs.map (·.1)
  lines : ∀ l, l ∈ c.lines ↔ ∃ r ∈ rs, l ∈ r.2

theorem Holds.add {rs : List (BuiltinObject × List Text)} {o : BuiltinObject} {ls : List Text} (h : c.Holds rs)
    (ho : BuiltinObject.owning o.name o.functionList = o) : (c.add o ls).Holds (rs ++ [(o, ls)]) := by
  have hadds : Adds c (c.add o ls) o ls := adds_add c ho fun _ => Iff.rfl
  constructor
  · rw [hadds.objects, h.objects]
    simp
  · intro l
    rw [hadds.lines, h.lines]
    simp [or_and_right, exists_or]

theorem Holds.append {rs rs' : List (BuiltinObject × List Text)} (h : c.Holds rs) (h' : c'.Holds rs') :
    (c.append c').Holds (rs ++ rs') := by
  constructor
  · rw [Collection.append, h.objects, h'.objects, List.map_append]
  · intro l
    rw [Collection.append, mem_foldl_addLine, h.lines, h'.lines]
    simp [or_and_right, exists_or]

theorem Built.holds (h : Built f files c) : c.Holds (files.filterMap result?) := by
  induction h with
  | empty => exact ⟨rfl, by simp⟩
  | @parse files c c' file text _ parsed ih =>
      obtain ⟨o, ls, hread, rfl⟩ := parse_eq_ok_iff.1 parsed
      have hr : result? (file, text) = some (o, ls) := by simp [result?, hread, Except.toOption]
      rw [List.filterMap_append, List.filterMap_cons_some hr, List.filterMap_nil]
      exact ih.add (owning_of_readFile hread)
  | merge _ _ merged ih ih' =>
      obtain ⟨_, rfl⟩ := merge_eq_ok_iff.1 merged
      rw [List.filterMap_append]
      exact ih.append ih'

theorem Built.framework_eq (h : Built f files c) : c.framework = f := by
  induction h with
  | empty => rfl
  | parse _ parsed ih =>
      obtain ⟨o, ls, _, rfl⟩ := parse_eq_ok_iff.1 parsed
      exact ih
  | merge _ _ merged ih _ =>
      obtain ⟨_, rfl⟩ := merge_eq_ok_iff.1 merged
      exact ih

theorem Built.isParsed (h : Built f files c) : ∀ g ∈ c.functions, g.IsParsed := by
  intro g hg
  obtain ⟨o, ho, hg⟩ := List.mem_flatMap.1 hg
  rw [h.holds.objects] at ho
  obtain ⟨r, hr, rfl⟩ := List.mem_map.1 ho
  obtain ⟨file, _, hfile⟩ := List.mem_filterMap.1 hr
  exact isParsed_of_readFile (readFile_of_result? hfile) g hg

theorem Holds.functions_perm {rs rs' : List (BuiltinObject × List Text)} (h : c.Holds rs) (h' : c'.Holds rs')
    (hp : rs.Perm rs') : c.functions.Perm c'.functions := by
  rw [functions, functions, h.objects, h'.objects]
  exact (hp.map _).flatMap_right _

theorem Holds.copyrightLines_eq {rs rs' : List (BuiltinObject × List Text)} (h : c.Holds rs) (h' : c'.Holds rs')
    (hp : rs.Perm rs') : c.copyrightLines = c'.copyrightLines := by
  refine Text.distinct_congr fun l => ?_
  rw [h.lines, h'.lines]
  constructor
  · rintro ⟨r, hr, hl⟩
    exact ⟨r, hp.mem_iff.1 hr, hl⟩
  · rintro ⟨r, hr, hl⟩
    exact ⟨r, hp.mem_iff.2 hr, hl⟩

theorem Built.sortedAlike (h : Built f files c) (h' : Built f files' c') (hp : files.Perm files') :
    SortedAlike c c' := by
  have hresults := hp.filterMap result?
  have hlines := h.holds.copyrightLines_eq h'.holds hresults
  refine ⟨?_, hlines, ?_⟩
  · refine Builtin.sort_eq_of_perm (h.holds.functions_perm h'.holds hresults) fun g hg k hk => ?_
    exact (h.isParsed g hg).eq_of_not_less (h.isParsed k hk)
  · rw [copyrights, copyrightEntries, hlines, copyrights, copyrightEntries]

theorem Built.foldlM_parse (h : Built f files c)
    (hparse : ∀ file ∈ files', ∃ r, readFile file.1 file.2 = .ok r) :
    ∃ c', files'.foldlM (fun c file => c.parse file.1 file.2) c = .ok c' ∧ Built f (files ++ files') c' := by
  induction files' generalizing files c with
  | nil => exact ⟨c, rfl, by simpa using h⟩
  | cons file files' ih =>
      obtain ⟨⟨o, ls⟩, hr⟩ := hparse file (by simp)
      have hc : c.parse file.1 file.2 = .ok (c.add o ls) := parse_eq_ok_iff.2 ⟨o, ls, hr, rfl⟩
      obtain ⟨c', hc', hb⟩ := ih (h.parse hc) fun g hg => hparse g (by simp [hg])
      refine ⟨c', ?_, by simpa using hb⟩
      rw [List.foldlM_cons, hc]
      exact hc'

theorem parseAll_built (f : Framework) (hparse : ∀ file ∈ files, ∃ r, readFile file.1 file.2 = .ok r) :
    ∃ c, parseAll f files = .ok c ∧ Built f files c :=
  Built.empty.foldlM_parse hparse

theorem Built.foldlM_merge (h : Built f files c) {parts : List Collection} {blocks : List (List (Text × Text))}
    (hparts : List.Forall₂ (Built f) blocks parts) :
    ∃ m, parts.foldlM Collection.merge c = .ok m ∧ Built f (files ++ blocks.flatten) m := by
  induction hparts generalizing files c with
  | nil => exact ⟨c, rfl, by simpa using h⟩
  | @cons block part blocks parts hb _ ih =>
      have hm : c.merge part = .ok (c.append part) := merge_of_eq (hb.framework_eq.trans h.framework_eq.symm)
      obtain ⟨m, hfold, hbuilt⟩ := ih (h.merge hb hm)
      refine ⟨m, ?_, by simpa using hbuilt⟩
      rw [List.foldlM_cons, hm]
      exact hfold

theorem mapM_parseAll_built (f : Framework) {blocks : List (List (Text × Text))}
    (hparse : ∀ file ∈ blocks.flatten, ∃ r, readFile file.1 file.2 = .ok r) :
    ∃ parts, blocks.mapM (parseAll f) = .ok parts ∧ List.Forall₂ (Built f) blocks parts := by
  induction blocks with
  | nil => exact ⟨[], rfl, .nil⟩
  | cons block blocks ih =>
      obtain ⟨c, hc, hb⟩ := parseAll_built f fun file hf => hparse file (List.mem_append_left _ hf)
      obtain ⟨parts, hp, hbs⟩ := ih fun file hf => hparse file (List.mem_append_right _ hf)
      refine ⟨c :: parts, ?_, .cons hb hbs⟩
      rw [List.mapM_cons, hc, hp]
      rfl

/-- Files that can all be parsed give the same sorted results in any order, parsed in turn, or parsed in
blocks that are merged afterwards, or built in any other way; for functions that were parsed are told apart
unless they are equal. -/
theorem sortedAlike_of_perm (f : Framework) {files files' : List (Text × Text)} (hperm : files.Perm files')
    (hparse : ∀ file ∈ files, ∃ c, Collection.parse { framework := f } file.1 file.2 = .ok c) :
    (∃ c c', parseAll f files = .ok c ∧ parseAll f files' = .ok c' ∧ SortedAlike c c') ∧
    (∀ blocks : List (List (Text × Text)), blocks.flatten = files' →
      ∃ c parts m, parseAll f files = .ok c ∧ blocks.mapM (parseAll f) = .ok parts ∧
        mergeAll f parts = .ok m ∧ SortedAlike c m) ∧
    (∀ c c', Built f files c → Built f files' c' → SortedAlike c c') ∧
    ∀ (f₁ f₂ : Framework) (files₁ files₂ : List (Text × Text)) (c₁ c₂ : Collection),
      Built f₁ files₁ c₁ → Built f₂ files₂ c₂ → ∀ g ∈ c₁.functions, ∀ k ∈ c₂.functions,
        g.less k = false → k.less g = false → g = k := by
  have hread : ∀ file ∈ files, ∃ r, readFile file.1 file.2 = .ok r := by
    intro file hf
    obtain ⟨c, hc⟩ := hparse file hf
    obtain ⟨o, ls, hr, _⟩ := parse_eq_ok_iff.1 hc
    exact ⟨(o, ls), hr⟩
  have hread' : ∀ file ∈ files', ∃ r, readFile file.1 file.2 = .ok r := fun file hf =>
    hread file (hperm.mem_iff.2 hf)
  obtain ⟨c, hc, hb⟩ := parseAll_built f hread
  refine ⟨?_, ?_, ?_, ?_⟩
  · obtain ⟨c', hc', hb'⟩ := parseAll_built f hread'
    exact ⟨c, c', hc, hc', hb.sortedAlike hb' hperm⟩
  · rintro blocks rfl
    obtain ⟨parts, hparts, hbs⟩ := mapM_parseAll_built f hread'
    obtain ⟨m, hm, hb'⟩ := Built.empty.foldlM_merge hbs
    exact ⟨c, parts, m, hc, hparts, hm, hb.sortedAlike hb' hperm⟩
  · exact fun c c' hb hb' => hb.sortedAlike hb' hperm
  · intro f₁ f₂ files₁ files₂ c₁ c₂ h₁ h₂ g hg k hk
    exact (h₁.isParsed g hg).eq_of_not_less (h₂.isParsed k hk)

namespace Sample

def namesakes : List (Text × Text) := [
  ("x/a.js", "/* 2016 B */ function g(y, z) \x7b\x7d function f() \x7b\x7d"),
  ("y/a.js", "/* 2015 A */ function f() \x7b\x7d function g(x) \x7b\x7d")]

theorem namesakes_parsed :
    ∀ file ∈ namesakes, ∃ c, Collection.parse { framework := .webCore } file.1 file.2 = .ok c := by
  have h : ∀ file ∈ namesakes,
      (Collection.parse { framework := .webCore } file.1 file.2).toBool = true := by decide +kernel
  intro file hf
  cases hc : Collection.parse { framework := .webCore } file.1 file.2 with
  | error e => simpa [hc, Except.toBool] using h file hf
  | ok c => exact ⟨c, rfl⟩

theorem sortedAlike_of_perm_reversed :
    (∃ c c', parseAll .webCore namesakes = .ok c ∧ parseAll .webCore namesakes.reverse = .ok c' ∧
      SortedAlike c c') ∧
    (parseAll .webCore namesakes).toOption.map (·.functions.map (·.name)) =
      some [Text.ofString "g", "f", "f", "g"] ∧
    (parseAll .webCore namesakes).toOption.map functions ≠
      (parseAll .webCore namesakes.reverse).toOption.map functions :=
  ⟨(sortedAlike_of_perm .webCore (List.reverse_perm namesakes).symm namesakes_parsed).1,
    by decide +kernel, by decide +kernel⟩

end Sample

end BuiltinCatalog.Collection
