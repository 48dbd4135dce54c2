import BuiltinCatalog.Collection
import BuiltinCatalog.Proofs.Text.Order

namespace BuiltinCatalog.Collection

theorem mem_addLine {l line : Text} {ls : List Text} : l ∈ addLine ls line ↔ l ∈ ls ∨ l = line := by
  unfold addLine
  split
  next h =>
    refine ⟨Or.inl, fun hl => ?_⟩
    rcases hl with hl | rfl
    · exact hl
    · exact h
  next => simp

theorem mem_foldl_addLine {l : Text} {ls ms : List Text} :
    l ∈ ms.foldl addLine ls ↔ l ∈ ls ∨ l ∈ ms := by
  induction ms generalizing ls with
  | nil => simp
  | cons m ms ih =>
      rw [List.foldl_cons, ih, mem_addLine, List.mem_cons]
      tauto

structure Adds (c c' : Collection) (o : BuiltinObject) (ls : List Text) : Prop where
  framework : c'.framework = c.framework
  objects : c'.objects = c.objects ++ [o]
  lines : ∀ l, l ∈ c'.lines ↔ l ∈ c.lines ∨ l ∈ ls

theorem adds_owning (c : Collection) (o : BuiltinObject) (ls : List Text) :
    Adds c (c.add o ls) (BuiltinObject.owning o.name o.functionList) ls :=
  ⟨rfl, rfl, fun _ => mem_foldl_addLine⟩

theorem adds_add (c : Collection) {o : BuiltinObject} {ls ms : List Text}
    (ho : BuiltinObject.owning o.name o.functionList = o) (hl : ∀ l, l ∈ ms ↔ l ∈ ls) :
    Adds c (c.add o ms) o ls where
  framework := rfl
  objects := by rw [add, ho]
  lines l := by rw [add, mem_foldl_addLine, hl]

theorem adds_append (c : Collection) {f : Framework} {o : BuiltinObject} {ls : List Text}
    (ho : BuiltinObject.owning o.name o.functionList = o) :
    Adds c (c.append (({ framework := f } : Collection).add o ls)) o ls where
  framework := rfl
  objects := by simp [append, add, ho]
  lines l := by simp [append, add, mem_foldl_addLine]

theorem Adds.length_functions {c c' : Collection} {o : BuiltinObject} {ls : List Text} (h : Adds c c' o ls) :
    c'.functions.length = c.functions.length + o.functionList.length := by
  rw [functions, h.objects, List.flatMap_append, List.flatMap_singleton, List.length_append, functions]

structure Agree (c c' : Collection) : Prop where
  framework : c.framework = c'.framework
  objects : c.objects = c'.objects
  lines : ∀ l, l ∈ c.lines ↔ l ∈ c'.lines

theorem Agree.refl (c : Collection) : Agree c c := ⟨rfl, rfl, fun _ => Iff.rfl⟩

theorem Agree.adds {c c' b b' : Collection} {o : BuiltinObject} {ls : List Text} (h : Agree c c')
    (hb : Adds c b o ls) (hb' : Adds c' b' o ls) : Agree b b' where
  framework := by rw [hb.framework, hb'.framework, h.framework]
  objects := by rw [hb.objects, hb'.objects, h.objects]
  lines l := by rw [hb.lines, hb'.lines, h.lines]

theorem Agree.copyrightLines {c c' : Collection} (h : Agree c c') : c.copyrightLines = c'.copyrightLines :=
  Text.distinct_congr h.lines

theorem Agree.functions {c c' : Collection} (h : Agree c c') : c.functions = c'.functions := by
  rw [Collection.functions, h.objects, Collection.functions]

theorem Agree.manifest {c c' : Collection} (h : Agree c c') : c.manifest = c'.manifest := by
  simp only [Collection.manifest, allFunctions, copyrights, copyrightEntries, h.framework, h.objects,
    h.copyrightLines, h.functions]

end BuiltinCatalog.Collection
