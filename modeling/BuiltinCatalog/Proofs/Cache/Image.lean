import BuiltinCatalog.Cache.Image
import BuiltinCatalog.Proofs.Cache.Basic
import BuiltinCatalog.Proofs.Text.Base64

namespace BuiltinCatalog

namespace Cache

def cellText : Option Text → Text
  | none => "-"
  | some t => "=" ++ Text.toBase64 t

theorem cellLine_eq (x : Option Text) : cellLine x = cellText x ++ [10] := by
  cases x <;> rfl

theorem newline_not_mem_cellText (x : Option Text) : 10 ∉ cellText x := by
  cases x with
  | none => decide
  | some t => exact List.not_mem_append (by decide) (Text.not_mem_toBase64 (by decide) (by decide) t)

theorem ofCellLine?_cellText (x : Option Text) : ofCellLine? (cellText x) = some x := by
  cases x with
  | none => rfl
  | some t =>
      have hread : ofCellLine? (cellText (some t)) = (Text.ofBase64? (Text.toBase64 t)).map some := rfl
      rw [hread, Text.ofBase64?_toBase64]
      rfl

def objectLines (o : Text × Text) : List Text := [cellText (some o.1), cellText (some o.2)]

def imageLines (c : Cache) : List Text :=
  imageMark :: cellText c.version :: cellText c.configHash :: c.objects.flatMap objectLines

theorem image_eq (c : Cache) : c.image = c.imageLines.flatMap fun l => l ++ [10] := by
  have hobjects : (c.objects.flatMap fun o => cellLine (some o.1) ++ cellLine (some o.2)) =
      (c.objects.flatMap objectLines).flatMap fun l => l ++ [10] := by
    rw [List.flatMap_assoc]
    congr 1
    funext o
    simp [objectLines, cellLine_eq]
  rw [image, hobjects, cellLine_eq, cellLine_eq, imageLines, List.flatMap_cons, List.flatMap_cons,
    List.flatMap_cons]
  simp only [List.append_assoc]
  rfl

theorem newline_not_mem_imageLines (c : Cache) : ∀ l ∈ c.imageLines, 10 ∉ l := by
  have hobjects : ∀ l ∈ c.objects.flatMap objectLines, 10 ∉ l := by
    intro l hl
    obtain ⟨o, -, hl⟩ := List.mem_flatMap.1 hl
    simp only [objectLines, List.mem_cons, List.not_mem_nil, or_false] at hl
    rcases hl with rfl | rfl
    · exact newline_not_mem_cellText _
    · exact newline_not_mem_cellText _
  simp only [imageLines, List.forall_mem_cons]
  exact ⟨by decide, newline_not_mem_cellText _, newline_not_mem_cellText _, hobjects⟩

theorem splitOn_image (c : Cache) : c.image.splitOn 10 = c.imageLines ++ [[]] := by
  have h := Text.splitOn_lines c.newline_not_mem_imageLines []
  rwa [List.append_nil, ← image_eq, List.splitOn_nil] at h

theorem ofObjectLines?_objectLines (objects : List (Text × Text)) :
    ofObjectLines? (objects.flatMap objectLines ++ [[]]) = some objects := by
  induction objects with
  | nil => rfl
  | cons o objects ih =>
      have hlines : (o :: objects).flatMap objectLines ++ [[]] =
          cellText (some o.1) :: cellText (some o.2) :: (objects.flatMap objectLines ++ [[]]) := rfl
      rw [hlines, ofObjectLines?, ofCellLine?_cellText, ofCellLine?_cellText, ih]
      rfl

theorem ofImage?_image {c : Cache} (h : c.Ordered) : ofImage? c.image = some c := by
  have hobjects : c.objects.foldl (fun es o => Keyed.insert o.1 o.2 es) [] = c.objects := Keyed.foldl_insert h
  rw [ofImage?, splitOn_image, imageLines]
  simp only [List.cons_append, ofCellLine?_cellText, ofObjectLines?_objectLines, Option.bind_eq_bind,
    Option.bind_some]
  rw [if_neg (by simp), hobjects]
  rfl

end Cache

end BuiltinCatalog
