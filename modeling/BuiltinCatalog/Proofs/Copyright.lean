import BuiltinCatalog.Copyright
import BuiltinCatalog.Proofs.Text.Search
import BuiltinCatalog.Proofs.Text.Valid
import Mathlib.Data.List.TakeWhile

namespace BuiltinCatalog.Copyright

open Text

variable {line o y u v : Text} {b : Byte}

def isLead (b : Byte) : Bool := isDigit b || b == ','.toUInt8 || b == ' '.toUInt8

/-- The line is its lead and then the owner, which goes on to the end of the line. -/
def HasOwner (line o : Text) : Prop :=
  ∃ lead, line = lead ++ o ∧ (∀ b ∈ lead, isLead b = true) ∧ ∀ b, o.head? = some b → isLead b = false

theorem hasOwner_iff : HasOwner line o ↔ owner line = o := by
  constructor
  · rintro ⟨lead, rfl, hlead, ho⟩
    exact dropWhile_append_stop hlead ho
  · rintro rfl
    refine ⟨line.takeWhile isLead, List.takeWhile_append_dropWhile.symm, fun b hb => List.mem_takeWhile_imp hb, ?_⟩
    intro b hb
    have hnot := List.head?_dropWhile_not isLead line
    have hhead : (line.dropWhile isLead).head? = some b := hb
    rw [hhead] at hnot
    exact hnot

theorem hasOwner_owner (line : Text) : HasOwner line (owner line) := hasOwner_iff.2 rfl

theorem isLead_of_isDigit (h : isDigit b = true) : isLead b = true := by simp [isLead, h]

theorem isDigit_of_not_isLead (h : isLead b = false) : isDigit b = false := by
  simp only [isLead, Bool.or_eq_false_iff] at h
  exact h.1.1

theorem isAscii_of_isLead (h : isLead b = true) : IsAscii b := by
  simp only [isLead, Bool.or_eq_true, beq_iff_eq] at h
  rcases h with (h | rfl) | rfl
  · exact isAscii_of_isWord (by simp [isWord, h])
  · decide
  · decide

structure IsRun (line run : Text) : Prop where
  digits : ∀ b ∈ run, isDigit b = true
  longest : ∃ u v, line = u ++ run ++ v ∧ (∀ b, u.getLast? = some b → isDigit b = false) ∧
    ∀ b, v.head? = some b → isDigit b = false

/-- A group of four digits, counted from the left of a run. -/
def HasYear (line y : Text) : Prop :=
  ∃ run k, IsRun line run ∧ 4 * k + 4 ≤ run.length ∧ y = (run.drop (4 * k)).take 4

structure IsYear (y : Text) : Prop where
  length : y.length = 4
  digits : ∀ b ∈ y, isDigit b = true

theorem length_lt_four (h : ∀ a b c d rest, u = a :: b :: c :: d :: rest → False) : u.length < 4 := by
  match u with
  | [] => simp
  | [_] => simp
  | [_, _] => simp
  | [_, _, _] => simp
  | a :: b :: c :: d :: rest => exact (h a b c d rest rfl).elim

theorem years_cons (h : ∃ c ∈ (b :: v).take 4, isDigit c = false) : years (b :: v) = years v := by
  match v, h with
  | [], _ => rfl
  | [_], _ => rfl
  | [_, _], _ => rfl
  | c :: d :: e :: v, ⟨x, hx, hdigit⟩ =>
      have hnot : ¬ [b, c, d, e].all isDigit = true := by
        intro hall
        rw [List.all_eq_true.1 hall x hx] at hdigit
        cases hdigit
      rw [years, if_neg hnot]

theorem years_break (hb : isDigit b = false) (u v : Text) : years (u ++ b :: v) = years u ++ years v := by
  have hshort (w : Text) (hw : w.length < 4) : years (w ++ b :: v) = years v := by
    induction w with
    | nil => exact years_cons ⟨b, by simp, hb⟩
    | cons a w ih =>
        rw [List.length_cons] at hw
        have hmem : b ∈ (a :: (w ++ b :: v)).take 4 := by
          obtain ⟨n, hn⟩ : ∃ n, 4 - (w.length + 1) = n + 1 := ⟨2 - w.length, by omega⟩
          rw [← List.cons_append, List.take_append, List.length_cons, hn, List.take_succ_cons]
          simp
        exact (years_cons ⟨b, hmem, hb⟩).trans (ih (by omega))
  fun_induction years u with
  | case1 a c d e rest hall ih =>
      simp only [List.cons_append]
      rw [years, if_pos hall, ih]
  | case2 a c d e rest hall ih =>
      simp only [List.cons_append] at ih ⊢
      rw [years, if_neg hall, ih]
  | case3 u hlong => exact hshort u (length_lt_four hlong)

theorem years_append_of_head (h : ∀ b, v.head? = some b → isDigit b = false) (u : Text) :
    years (u ++ v) = years u ++ years v := by
  cases v with
  | nil => simp [years]
  | cons b v =>
      have hb := h b rfl
      rw [years_break hb u v, years_cons ⟨b, by simp, hb⟩]

theorem years_append_of_last (h : ∀ b, u.getLast? = some b → isDigit b = false) (v : Text) :
    years (u ++ v) = years u ++ years v := by
  rcases List.eq_nil_or_concat u with rfl | ⟨w, b, rfl⟩
  · simp [years]
  · rw [List.concat_eq_append] at h ⊢
    have hb := h b List.getLast?_concat
    rw [List.append_assoc, List.singleton_append, years_break hb w v, years_break hb w []]
    simp [years]

theorem mem_years_run {run : Text} (h : ∀ b ∈ run, isDigit b = true) :
    y ∈ years run ↔ ∃ k, 4 * k + 4 ≤ run.length ∧ y = (run.drop (4 * k)).take 4 := by
  fun_induction years run with
  | case1 a b c d rest hall ih =>
      have hrest : ∀ b ∈ rest, isDigit b = true := fun e he => h e (by simp [he])
      rw [List.mem_cons, ih hrest]
      constructor
      · rintro (rfl | ⟨k, hk, rfl⟩)
        · exact ⟨0, by simp, rfl⟩
        · exact ⟨k + 1, by simp only [List.length_cons]; omega, rfl⟩
      · rintro ⟨k, hk, rfl⟩
        cases k with
        | zero => exact Or.inl rfl
        | succ k => exact Or.inr ⟨k, by simp only [List.length_cons] at hk; omega, rfl⟩
  | case2 a b c d rest hall ih =>
      refine absurd (List.all_eq_true.2 fun e he => h e ?_) hall
      simp only [List.mem_cons, List.not_mem_nil, or_false] at he ⊢
      tauto
  | case3 run hlong =>
      refine iff_of_false (by simp) ?_
      rintro ⟨k, hk, -⟩
      have hlt := length_lt_four hlong
      omega

theorem HasYear.behind (h : HasYear v y) (hb : isDigit b = false) (u : Text) : HasYear (u ++ b :: v) y := by
  obtain ⟨run, k, ⟨hdigits, w, x, rfl, hw, hx⟩, hk, hy⟩ := h
  refine ⟨run, k, ⟨hdigits, u ++ b :: w, x, by simp, fun c hc => ?_, hx⟩, hk, hy⟩
  rw [List.getLast?_append, List.getLast?_cons, Option.some_or] at hc
  cases hlast : w.getLast? with
  | none =>
      obtain rfl : b = c := by simpa [hlast] using hc
      exact hb
  | some d =>
      obtain rfl : d = c := by simpa [hlast] using hc
      exact hw d hlast

theorem mem_years_iff : y ∈ years line ↔ HasYear line y := by
  constructor
  · -- the line is its first run of digits, perhaps an empty one, and what follows the byte that ends it
    intro h
    induction hn : line.length using Nat.strong_induction_on generalizing line with
    | _ n ih =>
        have hrun : ∀ b ∈ line.takeWhile isDigit, isDigit b = true := fun b hb => List.mem_takeWhile_imp hb
        have hsplit : line.takeWhile isDigit ++ line.dropWhile isDigit = line := List.takeWhile_append_dropWhile
        have hstop := List.head?_dropWhile_not isDigit line
        have hfirst (hy : y ∈ years (line.takeWhile isDigit)) : HasYear line y := by
          obtain ⟨k, hk, rfl⟩ := (mem_years_run hrun).1 hy
          refine ⟨_, k, ⟨hrun, [], line.dropWhile isDigit, hsplit.symm, by simp, fun b hb => ?_⟩, hk, rfl⟩
          rw [hb] at hstop
          exact hstop
        cases hrest : line.dropWhile isDigit with
        | nil =>
            rw [hrest, List.append_nil] at hsplit
            exact hfirst (by rwa [hsplit])
        | cons b v =>
            rw [hrest] at hsplit hstop
            have hb : isDigit b = false := hstop
            rw [← hsplit, years_break hb, List.mem_append] at h
            rcases h with hy | hy
            · exact hfirst hy
            · have hlen := congrArg List.length hsplit
              rw [List.length_append, List.length_cons] at hlen
              rw [← hsplit]
              exact (ih v.length (by omega) hy rfl).behind hb _
  · rintro ⟨run, k, ⟨hdigits, u, v, rfl, hu, hv⟩, hk, hy⟩
    have hmem : y ∈ years run := (mem_years_run hdigits).2 ⟨k, hk, hy⟩
    rw [years_append_of_head hv, years_append_of_last hu]
    simp [hmem]

theorem isYear_of_mem (h : y ∈ years line) : IsYear y := by
  obtain ⟨run, k, ⟨hdigits, -⟩, hk, rfl⟩ := mem_years_iff.1 h
  refine ⟨?_, fun b hb => hdigits b (List.mem_of_mem_drop (List.mem_of_mem_take hb))⟩
  rw [List.length_take, List.length_drop]
  omega

theorem IsYear.years_eq (h : IsYear y) : years y = [y] := by
  obtain ⟨hlen, hdigits⟩ := h
  match y, hlen with
  | [a, b, c, d], _ => rw [years, if_pos (List.all_eq_true.2 hdigits)]; rfl

theorem HasOwner.years_append (h : HasOwner line o) (u : Text) : years (u ++ o) = years u ++ years o := by
  obtain ⟨_, -, -, ho⟩ := h
  exact years_append_of_head (fun b hb => isDigit_of_not_isLead (ho b hb)) u

theorem HasOwner.mem_years (h : HasOwner line o) (hy : y ∈ years o) : y ∈ years line := by
  have hyears := h.years_append
  obtain ⟨lead, rfl, -, -⟩ := h
  rw [hyears lead]
  exact List.mem_append_right _ hy

end BuiltinCatalog.Copyright
