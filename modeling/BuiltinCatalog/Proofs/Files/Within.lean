import BuiltinCatalog.Proofs.Files.Path

namespace BuiltinCatalog.Path

variable {p q root : Text}

/-- The components of a path as they are written. Before the slash of `/` stands an empty one, and after it
none. -/
def parts (p : Text) : List Text := if p = [slash] then [[]] else p.splitOn slash

def IsWithin (p root : Text) : Prop := parts root <+: parts p ∧ parts root ≠ parts p

instance (p root : Text) : Decidable (IsWithin p root) := inferInstanceAs (Decidable (_ ∧ _))

theorem parts_of_ne (h : p ≠ [slash]) : parts p = p.splitOn slash := if_neg h

theorem splitOn_slash_inj (h : p.splitOn slash = q.splitOn slash) : p = q := by
  have hp : [slash].intercalate (p.splitOn slash) = p := List.intercalate_splitOn slash
  rw [← hp, h, List.intercalate_splitOn]

theorem isWithin_append (hne : root ≠ []) (hroot : root ≠ [slash]) (v : Text) :
    IsWithin (root ++ slash :: v) root := by
  have hp : root ++ slash :: v ≠ [slash] := by
    intro h
    have hlen := congrArg List.length h
    have := List.length_pos_iff.2 hne
    simp only [List.length_append, List.length_cons, List.length_nil] at hlen
    omega
  rw [IsWithin, parts_of_ne hp, parts_of_ne hroot, List.splitOn_append_cons_self]
  exact ⟨List.prefix_append _ _, fun h => List.splitOn_ne_nil slash v (List.self_eq_append_right.1 h)⟩

/-- Below a directory are the paths that go on after it with a slash, so that a name which only starts
like that of the directory is beside it. -/
theorem isWithin_iff (hne : root ≠ []) (hroot : root ≠ [slash]) :
    IsWithin p root ↔ ∃ v, p = root ++ slash :: v := by
  constructor
  · rintro ⟨⟨more, hmore⟩, hproper⟩
    rw [parts_of_ne hroot] at hmore hproper
    have hmore_ne : more ≠ [] := by
      rintro rfl
      exact hproper (by rw [← hmore, List.append_nil])
    have hp : p ≠ [slash] := by
      rintro rfl
      have hlen := congrArg List.length hmore
      have := List.length_pos_iff.2 hmore_ne
      have := List.length_pos_iff.2 (List.splitOn_ne_nil slash root)
      simp only [List.length_append, parts, if_true, List.length_cons, List.length_nil] at hlen
      omega
    rw [parts_of_ne hp] at hmore
    have hsplit : ([slash].intercalate more).splitOn slash = more :=
      List.splitOn_intercalate slash
        (fun c hc => no_slash_of_mem_splitOn p c (hmore ▸ List.mem_append_right _ hc)) hmore_ne
    refine ⟨[slash].intercalate more, splitOn_slash_inj ?_⟩
    rw [List.splitOn_append_cons_self, hsplit, hmore]
  · rintro ⟨v, rfl⟩
    exact isWithin_append hne hroot v

end BuiltinCatalog.Path
