import BuiltinCatalog.Proofs.Builtin.Order
import BuiltinCatalog.Proofs.Collection.Valid
import BuiltinCatalog.Proofs.Text.Search
import BuiltinCatalog.Proofs.Text.Trim

namespace BuiltinCatalog

def comma : Byte := ','.toUInt8

namespace Signature

structure IsPlain (ps : List Text) : Prop where
  no_comma : ∀ p ∈ ps, comma ∉ p
  ne_blank : ps ≠ [[]]

theorem isPlain_splitParameters (list : Text) : IsPlain (splitParameters list) := by
  unfold splitParameters
  split
  next => exact ⟨by simp, by simp⟩
  next hne =>
    constructor
    · intro p hp hc
      obtain ⟨u, hu, rfl⟩ := List.mem_map.1 hp
      exact Text.not_mem_of_mem_splitOn hu (Text.mem_of_mem_trim hc)
    · intro h
      -- a single part is the whole list, which is not blank
      obtain ⟨u, hu, hblank⟩ := List.map_eq_singleton_iff.1 h
      have hlist : list = u := by
        have hjoin : [comma].intercalate (list.splitOn comma) = list := List.intercalate_splitOn comma
        rwa [comma, hu, List.intercalate_singleton, eq_comm] at hjoin
      exact hne (hlist ▸ hblank)

theorem IsPlain.eq_of_intercalate {ps qs : List Text} (hp : IsPlain ps) (hq : IsPlain qs)
    (h : [comma].intercalate ps = [comma].intercalate qs) : ps = qs := by
  have hsplit (xs : List Text) (hx : IsPlain xs) (hne : xs ≠ []) :
      ([comma].intercalate xs).splitOn comma = xs :=
    List.splitOn_intercalate comma hx.no_comma hne
  have hempty (xs : List Text) (hx : IsPlain xs) (hj : [comma].intercalate xs = []) : xs = [] := by
    by_contra hne
    have := hsplit xs hx hne
    rw [hj, List.splitOn_nil] at this
    exact hx.ne_blank this.symm
  by_cases hps : ps = []
  · subst hps
    exact (hempty qs hq (h.symm.trans List.intercalate_nil)).symm
  · by_cases hqs : qs = []
    · subst hqs
      exact hempty ps hp (h.trans List.intercalate_nil)
    · rw [← hsplit ps hp hps, h, hsplit qs hq hqs]

end Signature

namespace Builtin

def IsParsed (f : Builtin) : Prop := ∃ ps, f.parameters = some ps ∧ Signature.IsPlain ps

theorem IsParsed.eq_of_not_less {f g : Builtin} (hf : f.IsParsed) (hg : g.IsParsed) (hfg : f.less g = false)
    (hgf : g.less f = false) : f = g := by
  obtain ⟨hname, hobject, hconstructor, hjoined, hsource⟩ := not_less_iff.1 ⟨hfg, hgf⟩
  obtain ⟨ps, hps, hp⟩ := hf
  obtain ⟨qs, hqs, hq⟩ := hg
  have hparameters : f.parameters = g.parameters := by
    simp only [joinedParameters, parameterList, hps, hqs, Option.getD_some] at hjoined
    rw [hps, hqs, hp.eq_of_intercalate hq hjoined]
  obtain ⟨name, source, isConstructor, parameters, object⟩ := f
  obtain ⟨name', source', isConstructor', parameters', object'⟩ := g
  simp_all

theorem isParsed_of_parse {fragment : Text} {f : Builtin} (h : Signature.parse fragment = .ok f) :
    f.IsParsed := by
  obtain ⟨_, list, _, _, rfl⟩ := Signature.parse_eq_ok h
  exact ⟨_, rfl, Signature.isPlain_splitParameters list⟩

end Builtin

namespace Collection

theorem isParsed_of_readFile {path t : Text} {o : BuiltinObject} {ls : List Text}
    (h : readFile path t = .ok (o, ls)) : ∀ f ∈ o.functionList, f.IsParsed := by
  obtain ⟨_, fs, hfs, rfl⟩ := readFile_eq_ok_iff.1 h
  obtain ⟨fragments, _, hm⟩ := bind_eq_ok.1 hfs
  intro f hf
  obtain ⟨g, hg, rfl⟩ := List.mem_map.1 (by simpa [BuiltinObject.owning, BuiltinObject.functionList] using hf)
  obtain ⟨fragment, _, hparse⟩ := mem_mapM_ok hm hg
  -- owning a function leaves its parameters as they are
  have hg' : g.IsParsed := Builtin.isParsed_of_parse hparse
  exact hg'

end Collection

end BuiltinCatalog
