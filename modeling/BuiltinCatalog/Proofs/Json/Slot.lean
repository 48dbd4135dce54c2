import BuiltinCatalog.Json.Slot
import BuiltinCatalog.Proofs.Json.Written
import BuiltinCatalog.Proofs.Text.Valid

namespace BuiltinCatalog

theorem Text.scrub_ofString (s : String) : Text.scrub (Text.ofString s) = Text.ofString s :=
  (Text.isUtf8_iff.2 ⟨s.toList, rfl⟩).scrub_eq

namespace Json

variable {α β : Type} {room : Nat} {members : List (Text × Json)}

def fields : Json → List (Text × Json)
  | .object members => members
  | _ => []

/-- No two names are equal up to case. -/
def NamesApart (names : List Text) : Prop := (names.map foldName).Nodup

instance (names : List Text) : Decidable (NamesApart names) := inferInstanceAs (Decidable (List.Nodup _))

theorem writesTo_of_mem {m : Text × Json} (hnames : NamesApart (members.map (·.1))) (h : m ∈ members) :
    writesTo m.1 members = [m.2] := by
  induction members with
  | nil => cases h
  | cons n members ih =>
      obtain ⟨hn, hnames⟩ := List.nodup_cons.1 hnames
      rw [List.map_map] at hn
      rcases List.mem_cons.1 h with rfl | h
      · have hrest : members.filter (fun n => foldName n.1 == foldName m.1) = [] := by
          rw [List.filter_eq_nil_iff]
          intro n hmem heq
          exact hn (List.mem_map.2 ⟨n, hmem, beq_iff_eq.1 heq⟩)
        rw [writesTo, List.filter_cons_of_pos (by simp), hrest]
        rfl
      · have hne : foldName n.1 ≠ foldName m.1 := by
          intro heq
          exact hn (List.mem_map.2 ⟨m, h, heq.symm⟩)
        rw [writesTo, List.filter_cons_of_neg (by simpa using hne)]
        exact ih hnames h

theorem textSlot?_string (t : Text) : textSlot? [.string t] = some t := rfl

theorem mapM_eq_some {decode : List Json → Option α} {f : α → Json} (h : ∀ a, decode [f a] = some a)
    (as : List α) : ((as.map f).map fun j => [j]).mapM decode = some as := by
  induction as with
  | nil => rfl
  | cons a as ih =>
      simp only [List.map_cons, List.mapM_cons, h, ih, Option.bind_eq_bind, Option.bind_some]
      rfl

theorem listSlot?_array (js : List Json) : listSlot? [.array js] = some (some (js.map fun j => [j])) := by
  cases js with
  | nil => rfl
  | cons j js => simp [listSlot?, writeItems]

theorem listOf?_ofOption {decode : List Json → Option α} {f : α → Json} (h : ∀ a, decode [f a] = some a)
    (as : Option (List α)) : listOf? decode [ofOption f as] = some as := by
  cases as with
  | none => rfl
  | some as =>
      rw [ofOption, listOf?, listSlot?_array]
      simp only [Option.bind_eq_bind, Option.bind_some, mapM_eq_some h]
      rfl

theorem scrub_string (t : Text) : (Json.string t).scrub = .string (Text.scrub t) := by rw [scrub]

theorem scrub_bool (b : Bool) : (Json.bool b).scrub = .bool b := by rw [scrub]

theorem scrub_object (members : List (Text × Json)) :
    (Json.object members).scrub = .object (members.map fun m => (Text.scrub m.1, m.2.scrub)) := by rw [scrub]

theorem scrub_ofOption {f : α → Json} {g : β → Json} {h : α → β} (hf : ∀ a, (f a).scrub = g (h a))
    (as : Option (List α)) : (ofOption f as).scrub = ofOption g (as.map (·.map h)) := by
  cases as with
  | none =>
      rw [ofOption, scrub]
      rfl
  | some as =>
      rw [ofOption, scrub, List.map_map]
      simp [ofOption, hf]

theorem fits_ofOption {f : α → Json} (h : ∀ a, Fits room (f a)) (as : Option (List α)) :
    Fits (room + 1) (ofOption f as) := by
  cases as with
  | none => exact .null
  | some as =>
      refine .array fun j hj => ?_
      obtain ⟨a, -, rfl⟩ := List.mem_map.1 hj
      exact h a

end Json

end BuiltinCatalog
