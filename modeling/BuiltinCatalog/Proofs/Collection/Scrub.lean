import BuiltinCatalog.Proofs.Collection.Agree
import BuiltinCatalog.Proofs.Collection.Valid
import BuiltinCatalog.Proofs.Copyright

namespace BuiltinCatalog

open Text

theorem Builtin.isUtf8_scrub (f : Builtin) : f.scrub.IsUtf8 := by
  refine ⟨Text.isUtf8_scrub _, Text.isUtf8_scrub _, ?_, Text.isUtf8_scrub _⟩
  intro p hp
  cases hps : f.parameters with
  | none => simp [Builtin.parameterList, Builtin.scrub, hps] at hp
  | some ps =>
      simp only [Builtin.parameterList, Builtin.scrub, hps, Option.map_some, Option.getD_some] at hp
      obtain ⟨q, _, rfl⟩ := List.mem_map.1 hp
      exact Text.isUtf8_scrub q

namespace BuiltinObject

structure IsUtf8 (o : BuiltinObject) : Prop where
  name : Text.IsUtf8 o.name
  functions : ∀ f ∈ o.functionList, f.IsUtf8

theorem functionList_scrub (o : BuiltinObject) : o.scrub.functionList = o.functionList.map Builtin.scrub := by
  unfold functionList scrub
  cases o.functions <;> rfl

theorem length_owning (name : Text) (fs : List Builtin) : (owning name fs).functionList.length = fs.length :=
  List.length_map ..

theorem isUtf8_scrub (o : BuiltinObject) : o.scrub.IsUtf8 := by
  refine ⟨Text.isUtf8_scrub o.name, fun f hf => ?_⟩
  rw [functionList_scrub] at hf
  obtain ⟨g, _, rfl⟩ := List.mem_map.1 hf
  exact g.isUtf8_scrub

theorem IsUtf8.scrub_eq {o : BuiltinObject} (h : o.IsUtf8) : o.scrub = o := by
  obtain ⟨name, functions⟩ := o
  have hfunctions : functions.map (·.map Builtin.scrub) = functions := by
    cases functions with
    | none => rfl
    | some fs =>
        have hfs : fs.map Builtin.scrub = fs.map id :=
          List.map_congr_left fun f hf => (h.functions f hf).scrub_eq
        rw [Option.map_some, hfs, List.map_id]
  rw [scrub, h.name.scrub_eq, hfunctions]

theorem owning_scrub {o : BuiltinObject} (h : owning o.name o.functionList = o) :
    owning o.scrub.name o.scrub.functionList = o.scrub := by
  rw [functionList_scrub]
  conv_rhs => rw [← h]
  simp only [owning, scrub, List.map_map, Option.map_some]
  rfl

end BuiltinObject

namespace Copyright

theorem isUtf8_owner_iff {line : Text} : Text.IsUtf8 (owner line) ↔ Text.IsUtf8 line := by
  obtain ⟨lead, hline, hlead, -⟩ := hasOwner_owner line
  conv_rhs => rw [hline]
  exact (isUtf8_ascii_append fun b hb => isAscii_of_isLead (hlead b hb)).symm

theorem isUtf8_text_iff {e : Entry} (hyears : ∀ y ∈ e.years, Text.IsUtf8 y) :
    Text.IsUtf8 e.text ↔ Text.IsUtf8 e.owner := by
  have hjoin : Text.IsUtf8 ((", " : Text).intercalate e.years) := isUtf8_intercalate (by decide +kernel) hyears
  have hcut : Text.IsUtf8 ((", " : Text).intercalate e.years ++ " " ++ e.owner) ↔ Text.IsUtf8 e.owner := by
    rw [isUtf8_append_mark (by decide) (isAscii_of_all (by decide))]
    exact and_iff_right hjoin
  exact ⟨fun h => hcut.1 (isUtf8_of_trim h), fun h => isUtf8_trim (hcut.2 h)⟩

/-- The merged lines are valid exactly if all lines are, since the owners keep all that is not ASCII. -/
theorem isUtf8_merge_iff {lines : List Text} :
    (∀ e ∈ merge lines, Text.IsUtf8 e.text) ↔ ∀ l ∈ lines, Text.IsUtf8 l := by
  have hentry (o : Text) : Text.IsUtf8
      (Entry.text ⟨o, Text.distinct ((lines.filter fun line => owner line == o).flatMap years)⟩) ↔
        Text.IsUtf8 o := by
    refine isUtf8_text_iff fun y hy => isUtf8_ascii fun b hb => ?_
    obtain ⟨l, _, hy⟩ := List.mem_flatMap.1 (mem_distinct.1 hy)
    exact isAscii_of_isLead (isLead_of_isDigit ((isYear_of_mem hy).digits b hb))
  simp only [merge, List.forall_mem_map, hentry, mem_distinct, isUtf8_owner_iff]

end Copyright

structure Manifest.IsUtf8 (m : Manifest) : Prop where
  framework : Text.IsUtf8 m.framework
  scope : Text.IsUtf8 m.scope
  macroPrefix : Text.IsUtf8 m.macroPrefix
  copyrights : ∀ l ∈ m.copyrightList, Text.IsUtf8 l
  objects : ∀ o ∈ m.objectList, o.IsUtf8
  functions : ∀ f ∈ m.functionList, f.IsUtf8

namespace Collection

theorem mem_copyrightLines {c : Collection} {l : Text} : l ∈ c.copyrightLines ↔ l ∈ c.lines := mem_distinct

theorem isUtf8_manifest_iff {c : Collection} :
    c.manifest.IsUtf8 ↔ (∀ o ∈ c.objects, o.IsUtf8) ∧ ∀ l ∈ c.lines, Text.IsUtf8 l := by
  have hlines : (∀ l ∈ c.manifest.copyrightList, Text.IsUtf8 l) ↔ ∀ l ∈ c.lines, Text.IsUtf8 l := by
    have hmerge : (∀ e ∈ c.copyrightEntries, Text.IsUtf8 e.text) ↔ ∀ l ∈ c.copyrightLines, Text.IsUtf8 l :=
      Copyright.isUtf8_merge_iff
    simp only [mem_copyrightLines] at hmerge
    rw [← hmerge]
    exact List.forall_mem_map
  constructor
  · exact fun h => ⟨h.objects, hlines.1 h.copyrights⟩
  · rintro ⟨hobjects, h⟩
    have hframework (f : Framework) :
        Text.IsUtf8 f.name ∧ Text.IsUtf8 f.scope ∧ Text.IsUtf8 f.macroPrefix := by
      cases f <;> decide +kernel
    obtain ⟨hname, hscope, hmacro⟩ := hframework c.framework
    refine ⟨hname, hscope, hmacro, hlines.2 h, hobjects, fun f hf => ?_⟩
    obtain ⟨o, ho, hf⟩ := List.mem_flatMap.1 (List.mem_mergeSort.1 hf)
    exact (hobjects o ho).functions f hf

structure Scrubs (c c' : Collection) : Prop where
  framework : c'.framework = c.framework
  objects : c'.objects = c.objects.map BuiltinObject.scrub
  lines : ∀ l, l ∈ c'.lines ↔ ∃ l₀ ∈ c.lines, scrub l₀ = l

variable {c c' : Collection}

theorem Scrubs.adds {b b' : Collection} {o : BuiltinObject} {ls : List Text} (h : Scrubs c c')
    (hb : Adds c b o ls) (hb' : Adds c' b' o.scrub ((Text.distinct ls).map scrub)) : Scrubs b b' where
  framework := by rw [hb'.framework, hb.framework, h.framework]
  objects := by rw [hb'.objects, hb.objects, h.objects, List.map_append, List.map_singleton]
  lines l := by
    simp only [hb'.lines, hb.lines, h.lines, List.mem_map, mem_distinct]
    constructor
    · rintro (⟨l₀, hl₀, rfl⟩ | ⟨l₀, hl₀, rfl⟩)
      · exact ⟨l₀, Or.inl hl₀, rfl⟩
      · exact ⟨l₀, Or.inr hl₀, rfl⟩
    · rintro ⟨l₀, hl₀ | hl₀, rfl⟩
      · exact Or.inl ⟨l₀, hl₀, rfl⟩
      · exact Or.inr ⟨l₀, hl₀, rfl⟩

theorem Scrubs.copyrightLines (h : Scrubs c c') :
    c'.copyrightLines = Text.distinct (c.copyrightLines.map scrub) := by
  refine distinct_congr fun l => ?_
  simp only [h.lines, List.mem_map, mem_copyrightLines]

theorem Scrubs.isUtf8_manifest (h : Scrubs c c') : c'.manifest.IsUtf8 := by
  refine isUtf8_manifest_iff.2 ⟨fun o ho => ?_, fun l hl => ?_⟩
  · rw [h.objects] at ho
    obtain ⟨o₀, _, rfl⟩ := List.mem_map.1 ho
    exact o₀.isUtf8_scrub
  · obtain ⟨l₀, _, rfl⟩ := (h.lines l).1 hl
    exact Text.isUtf8_scrub l₀

theorem Scrubs.agree (h : Scrubs c c') (hvalid : c.manifest.IsUtf8) : Agree c' c := by
  obtain ⟨hobjects, hlines⟩ := isUtf8_manifest_iff.1 hvalid
  refine ⟨h.framework, ?_, fun l => ?_⟩
  · have hid : c.objects.map BuiltinObject.scrub = c.objects.map id :=
      List.map_congr_left fun o ho => (hobjects o ho).scrub_eq
    rw [h.objects, hid, List.map_id]
  · rw [h.lines]
    constructor
    · rintro ⟨l₀, hl₀, rfl⟩
      rwa [(hlines l₀ hl₀).scrub_eq]
    · exact fun hl => ⟨l, hl, (hlines l hl).scrub_eq⟩

theorem Scrubs.manifest_eq_iff (h : Scrubs c c') : c'.manifest = c.manifest ↔ c.manifest.IsUtf8 :=
  ⟨fun heq => heq ▸ h.isUtf8_manifest, fun hvalid => (h.agree hvalid).manifest⟩

end Collection

end BuiltinCatalog
