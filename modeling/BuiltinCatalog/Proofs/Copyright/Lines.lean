import BuiltinCatalog.Proofs.Copyright.Merge
import BuiltinCatalog.Proofs.Text.Search

namespace BuiltinCatalog.Copyright

open Text

variable {t line : Text} {ls : List Text} {e : Entry} {b : Byte}

def star : Byte := '*'.toUInt8

/-- A text that stays on its line and within its comment. -/
structure IsInline (t : Text) : Prop where
  no_newline : 10 ∉ t
  no_star : star ∉ t

structure IsLine (line : Text) : Prop where
  ne_nil : line ≠ []
  trimmed : trim line = line
  inline : IsInline line

theorem foldl_removeAll_sublist (marks : List Text) (t : Text) :
    (marks.foldl (fun t mark => removeAll mark t) t).Sublist t := by
  induction marks generalizing t with
  | nil => exact List.Sublist.refl t
  | cons mark marks ih => exact (ih (removeAll mark t)).trans (removeAll_sublist mark t)

theorem strip_sublist (line : Text) : (strip line).Sublist line := foldl_removeAll_sublist markers line

/-- Deleting a marker can join two parts to another one, but stars that are gone do not come back. -/
theorem star_not_mem_strip (line : Text) : star ∉ strip line := by
  have hmarker : [star] ∈ markers := by decide
  obtain ⟨before, after, hmarkers⟩ := List.append_of_mem hmarker
  rw [strip, hmarkers, List.foldl_append, List.foldl_cons]
  intro hstar
  exact not_mem_removeAll star _ ((foldl_removeAll_sublist after _).subset hstar)

theorem isLine_of_lines (h : lines t = .ok ls) : ∀ line ∈ ls, IsLine line := by
  unfold lines at h
  split at h
  next => cases h
  next block hblock =>
    obtain rfl := Except.ok.inj h
    intro line hline
    obtain ⟨hline, hne⟩ := List.mem_filter.1 hline
    obtain ⟨part, hpart, rfl⟩ := List.mem_map.1 hline
    refine ⟨of_decide_eq_true hne, trim_trim _, fun hnewline => ?_, fun hstar => ?_⟩
    · exact not_mem_of_mem_splitOn hpart ((strip_sublist part).subset (mem_of_mem_trim hnewline))
    · exact star_not_mem_strip part (mem_of_mem_trim hstar)

theorem isLead_of_mem_years (hyears : ∀ y ∈ e.years, IsYear y) (h : b ∈ (", " : Text).intercalate e.years) :
    isLead b = true := by
  by_cases hnone : e.years = []
  · rw [hnone] at h
    cases h
  · exact (lists_intercalate hnone hyears).lead b h

theorem mem_of_mem_text (hyears : ∀ y ∈ e.years, IsYear y) (h : b ∈ e.text) : isLead b = true ∨ b ∈ e.owner := by
  have hspace : (Text.ofString " ").all isLead = true := by decide
  rcases List.mem_append.1 (mem_of_mem_trim h) with h | h
  · rcases List.mem_append.1 h with h | h
    · exact Or.inl (isLead_of_mem_years hyears h)
    · exact Or.inl (List.all_eq_true.1 hspace b h)
  · exact Or.inr h

theorem owner_sublist (line : Text) : (owner line).Sublist line := List.dropWhile_sublist _

theorem isInline_text (h : ∀ line ∈ ls, IsInline line) (he : e ∈ merge ls) : IsInline e.text := by
  have hmerged := isMerged_merge ls
  obtain ⟨line, hline, howner⟩ := (hmerged.owners e.owner).1 (List.mem_map_of_mem he)
  have hsublist : e.owner.Sublist line := hasOwner_iff.1 howner ▸ owner_sublist line
  have habsent {b : Byte} (hb : isLead b = false) (hnot : b ∉ line) : b ∉ e.text := by
    intro hmem
    rcases mem_of_mem_text (fun y hy => hmerged.isYear he hy) hmem with hlead | howner
    · rw [hb] at hlead
      cases hlead
    · exact hnot (hsublist.subset howner)
  exact ⟨habsent (by decide) (h line hline).no_newline, habsent (by decide) (h line hline).no_star⟩

end BuiltinCatalog.Copyright
