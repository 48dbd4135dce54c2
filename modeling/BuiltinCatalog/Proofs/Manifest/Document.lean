import BuiltinCatalog.Cache.Entry
import BuiltinCatalog.Proofs.Json.Slot

namespace BuiltinCatalog

open Json

variable {room : Nat}

namespace Builtin

theorem ofWrites?_toJson (f : Builtin) : ofWrites? [f.toJson] = some f := by
  have hkeys : NamesApart (f.toJson.fields.map (·.1)) :=
    (by decide +kernel : NamesApart ["name", "source", "is_constructor", "parameters", "object"])
  have hwrites (m) (hm : m ∈ f.toJson.fields) := writesTo_of_mem hkeys hm
  simp only [toJson, fields, List.forall_mem_cons] at hwrites
  obtain ⟨hname, hsource, hconstructor, hparameters, hobject, -⟩ := hwrites
  have hfields : objectSlot? [f.toJson] = some f.toJson.fields := rfl
  rw [ofWrites?, hfields]
  simp only [toJson, fields, hname, hsource, hconstructor, hparameters, hobject, Option.bind_eq_bind,
    Option.bind_some, listOf?_ofOption textSlot?_string]
  rfl

theorem scrub_toJson (f : Builtin) : f.toJson.scrub = f.scrub.toJson := by
  simp [toJson, Builtin.scrub, scrub_object, scrub_string, scrub_bool, scrub_ofOption scrub_string,
    Text.scrub_ofString]

theorem fits_toJson (f : Builtin) : Fits (room + 2) f.toJson := by
  refine .object ?_
  simp only [List.forall_mem_cons]
  exact ⟨.string _, .string _, .bool _, fits_ofOption .string _, .string _, by simp⟩

end Builtin

namespace BuiltinObject

theorem ofWrites?_toJson (o : BuiltinObject) : ofWrites? [o.toJson] = some o := by
  have hkeys : NamesApart (o.toJson.fields.map (·.1)) := (by decide +kernel : NamesApart ["name", "functions"])
  have hwrites (m) (hm : m ∈ o.toJson.fields) := writesTo_of_mem hkeys hm
  simp only [toJson, fields, List.forall_mem_cons] at hwrites
  obtain ⟨hname, hfunctions, -⟩ := hwrites
  have hfields : objectSlot? [o.toJson] = some o.toJson.fields := rfl
  rw [ofWrites?, hfields]
  simp only [toJson, fields, hname, hfunctions, Option.bind_eq_bind, Option.bind_some,
    listOf?_ofOption Builtin.ofWrites?_toJson]
  rfl

theorem scrub_toJson (o : BuiltinObject) : o.toJson.scrub = o.scrub.toJson := by
  simp [toJson, BuiltinObject.scrub, scrub_object, scrub_string, scrub_ofOption Builtin.scrub_toJson,
    Text.scrub_ofString]

theorem fits_toJson (o : BuiltinObject) : Fits (room + 4) o.toJson := by
  refine .object ?_
  simp only [List.forall_mem_cons]
  exact ⟨.string _, fits_ofOption Builtin.fits_toJson _, by simp⟩

end BuiltinObject

namespace Manifest

def scrub (m : Manifest) : Manifest where
  framework := Text.scrub m.framework
  scope := Text.scrub m.scope
  macroPrefix := Text.scrub m.macroPrefix
  copyrights := m.copyrights.map (·.map Text.scrub)
  objects := m.objects.map (·.map BuiltinObject.scrub)
  functions := m.functions.map (·.map Builtin.scrub)

def ofJson? (j : Json) : Option Manifest := do
  let members ← objectSlot? [j]
  return {
    framework := ← textSlot? (writesTo "framework" members)
    scope := ← textSlot? (writesTo "namespace" members)
    macroPrefix := ← textSlot? (writesTo "macro_prefix" members)
    copyrights := ← listOf? textSlot? (writesTo "copyrights" members)
    objects := ← listOf? BuiltinObject.ofWrites? (writesTo "objects" members)
    functions := none }

def read? (t : Text) : Option Manifest := do ofJson? (← Json.read? t)

theorem ofJson?_toJson (m : Manifest) : ofJson? m.toJson = some { m with functions := none } := by
  have hkeys : NamesApart (m.toJson.fields.map (·.1)) :=
    (by decide +kernel : NamesApart ["framework", "namespace", "macro_prefix", "copyrights", "objects"])
  have hwrites (n) (hn : n ∈ m.toJson.fields) := writesTo_of_mem hkeys hn
  simp only [toJson, fields, List.forall_mem_cons] at hwrites
  obtain ⟨hframework, hscope, hprefix, hcopyrights, hobjects, -⟩ := hwrites
  have hfields : objectSlot? [m.toJson] = some m.toJson.fields := rfl
  rw [ofJson?, hfields]
  simp only [toJson, fields, hframework, hscope, hprefix, hcopyrights, hobjects, Option.bind_eq_bind,
    Option.bind_some, listOf?_ofOption textSlot?_string, listOf?_ofOption BuiltinObject.ofWrites?_toJson]
  rfl

theorem scrub_toJson (m : Manifest) : m.toJson.scrub = m.scrub.toJson := by
  simp [toJson, Manifest.scrub, scrub_object, scrub_string, scrub_ofOption scrub_string,
    scrub_ofOption BuiltinObject.scrub_toJson, Text.scrub_ofString]

theorem fits_toJson (m : Manifest) : Fits (room + 6) m.toJson := by
  refine .object ?_
  simp only [List.forall_mem_cons]
  exact ⟨.string _, .string _, .string _, fits_ofOption .string _,
    fits_ofOption BuiltinObject.fits_toJson _, by simp⟩

theorem spells_document (dialect : Dialect) (m : Manifest) :
    Spells maxNesting m.scrub.toJson (m.document dialect) := by
  have hfits : Fits (9994 + 6) m.toJson := m.fits_toJson
  rw [← m.scrub_toJson]
  exact (hfits.spells_indented dialect 0).padded isGap_nil (isGap_newline 0)

/-- Whichever way an encoder writes stray bytes, the document is one JSON text, and decoding it gives back all
that it holds. -/
theorem read?_document (dialect : Dialect) (m : Manifest) :
    Spells maxNesting m.scrub.toJson (m.document dialect) ∧
      read? (m.document dialect) = some { m.scrub with functions := none } := by
  have hspells := m.spells_document dialect
  refine ⟨hspells, ?_⟩
  rw [read?, read?_of_spells hspells]
  exact m.scrub.ofJson?_toJson

end Manifest

end BuiltinCatalog
