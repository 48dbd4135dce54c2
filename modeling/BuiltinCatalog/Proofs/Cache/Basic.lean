import BuiltinCatalog.Cache.Migration
import BuiltinCatalog.Proofs.Except
import BuiltinCatalog.Proofs.Manifest.Document
import BuiltinCatalog.Proofs.Text.Order

namespace BuiltinCatalog

namespace CacheEntry

open Json

variable {room : Nat}

theorem ofJson?_toJson (e : CacheEntry) : ofJson? e.toJson = some e := by
  have hkeys : NamesApart (e.toJson.fields.map (·.1)) :=
    (by decide +kernel : NamesApart ["content_hash", "framework", "object", "copyright_lines"])
  have hwrites (m) (hm : m ∈ e.toJson.fields) := writesTo_of_mem hkeys hm
  simp only [toJson, fields, List.forall_mem_cons] at hwrites
  obtain ⟨hhash, hframework, hobject, hlines, -⟩ := hwrites
  have hfields : objectSlot? [e.toJson] = some e.toJson.fields := rfl
  rw [ofJson?, hfields]
  simp only [toJson, fields, hhash, hframework, hobject, hlines, Option.bind_eq_bind, Option.bind_some,
    BuiltinObject.ofWrites?_toJson, listOf?_ofOption textSlot?_string]
  rfl

theorem scrub_toJson (e : CacheEntry) : e.toJson.scrub = e.scrub.toJson := by
  simp [toJson, CacheEntry.scrub, scrub_object, scrub_string, BuiltinObject.scrub_toJson,
    scrub_ofOption scrub_string, Text.scrub_ofString]

theorem fits_toJson (e : CacheEntry) : Fits (room + 5) e.toJson := by
  refine .object ?_
  simp only [List.forall_mem_cons]
  exact ⟨.string _, .string _, e.object.fits_toJson, fits_ofOption .string _, by simp⟩

/-- The bytes of an entry decode to the entry with its stray bytes replaced, whichever way they were written. -/
theorem read?_text (dialect : Dialect) (e : CacheEntry) : read? (e.text dialect) = some e.scrub := by
  have hfits : Fits (9995 + 5) e.toJson := e.fits_toJson
  rw [read?, text, Json.read?_compact hfits dialect, scrub_toJson]
  exact e.scrub.ofJson?_toJson

end CacheEntry

namespace Cache

variable {dialect : Json.Dialect} {c c' : Cache} {path : Text} {e : CacheEntry}

/-- The paths of a cache are strictly increasing in byte order. -/
def Ordered (c : Cache) : Prop := c.paths.Pairwise (· < ·)

instance (c : Cache) : Decidable c.Ordered := inferInstanceAs (Decidable (List.Pairwise _ _))

theorem get?_eq_ok_some_iff :
    c.get? path = .ok (some e) ↔ ∃ text, c.objects.lookup path = some text ∧ CacheEntry.read? text = some e := by
  unfold get?
  cases hl : c.objects.lookup path with
  | none => simp
  | some text => cases hr : CacheEntry.read? text <;> simp [hr]

theorem get?_congr (h : c'.objects.lookup path = c.objects.lookup path) : c'.get? path = c.get? path := by
  rw [get?, get?, h]

theorem checkValue_eq_error_iff {value : Text} {err : CacheError} :
    checkValue value = .error err ↔ maxValueLength < value.length ∧ err = .valueTooLarge := by
  unfold checkValue
  split_ifs with hlong <;> simp [hlong, eq_comm]

theorem put_eq_ok (h : c.put dialect path e = .ok c') :
    c' = { c with objects := Keyed.insert path (e.text dialect) c.objects } := by
  obtain ⟨_, _, h⟩ := bind_eq_ok.1 h
  obtain ⟨_, _, h⟩ := bind_eq_ok.1 h
  exact (Except.ok.inj h).symm

/-- What is put at a path is refused for its key or for its size, and not for what the cache holds. -/
theorem put_eq_error_iff {err : CacheError} : c.put dialect path e = .error err ↔
    checkKey path = .error err ∨ checkKey path = .ok () ∧ checkValue (e.text dialect) = .error err := by
  unfold put putText
  cases checkKey path with
  | error => simp [bind, Except.bind]
  | ok => cases checkValue (e.text dialect) <;> simp [bind, Except.bind, pure, Except.pure]

theorem schema_setSchema (c : Cache) (hash : Text) :
    (c.setSchema currentVersion hash).schema = .ok (currentVersion, hash) := by
  have hread : readVersion? (Text.ofInt currentVersion) = some currentVersion := by decide +kernel
  simp [schema, setSchema, hread]

/-- Every entry can be decoded and has the property, which may depend on its path. -/
def Holds (P : Text → CacheEntry → Prop) (c : Cache) : Prop :=
  ∀ path bytes, c.objects.lookup path = some bytes → ∃ e, CacheEntry.read? bytes = some e ∧ P path e

section Holds

variable {P : Text → CacheEntry → Prop}

theorem holds_empty : Holds P {} := by
  intro path bytes h
  cases h

theorem Holds.put (h : c.Holds P) (he : P path e.scrub) (hput : c.put dialect path e = .ok c') : c'.Holds P := by
  obtain rfl := put_eq_ok hput
  intro q bytes hq
  rw [Keyed.lookup_insert] at hq
  split at hq
  next heq =>
    obtain rfl := heq
    obtain rfl := Option.some.inj hq
    exact ⟨_, e.read?_text dialect, he⟩
  next => exact h q bytes hq

theorem Holds.erase (h : c.Holds P) (path : Text) : (c.erase path).Holds P := by
  intro q bytes hq
  rw [Cache.erase, Keyed.lookup_erase] at hq
  split at hq
  next => cases hq
  next => exact h q bytes hq

theorem Holds.of_get? (h : c.Holds P) (hget : c.get? path = .ok (some e)) : P path e := by
  obtain ⟨bytes, hbytes, hread⟩ := get?_eq_ok_some_iff.1 hget
  obtain ⟨e', hread', he'⟩ := h path bytes hbytes
  obtain rfl := Option.some.inj (hread'.symm.trans hread)
  exact he'

theorem Holds.get?_isOk (h : c.Holds P) (path : Text) : ∃ found, c.get? path = .ok found := by
  unfold get?
  split
  next => exact ⟨none, rfl⟩
  next bytes hbytes =>
    obtain ⟨e, hread, -⟩ := h path bytes hbytes
    exact ⟨some e, by rw [hread]⟩

end Holds

theorem ordered_put (hc : c.Ordered) (h : c.put dialect path e = .ok c') : c'.Ordered := by
  obtain rfl := put_eq_ok h
  rw [Ordered, paths, Keyed.keys_insert]
  exact Text.pairwise_insertInto hc

theorem ordered_erase (hc : c.Ordered) (path : Text) : (c.erase path).Ordered := by
  rw [Ordered, paths, erase, Keyed.keys_erase]
  exact hc.filter _

end Cache

end BuiltinCatalog
