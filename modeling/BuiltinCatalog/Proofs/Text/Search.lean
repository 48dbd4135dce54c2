import BuiltinCatalog.Text.Basic
import Mathlib.Data.List.Infix
import Mathlib.Tactic.Common

namespace BuiltinCatalog.Text

theorem takeWhile_append_stop {p : Byte → Bool} {u v : Text} (hu : ∀ b ∈ u, p b = true)
    (hv : ∀ b, v.head? = some b → p b = false) : (u ++ v).takeWhile p = u := by
  rw [List.takeWhile_append_of_pos hu]
  cases v with
  | nil => simp
  | cons b v => simp [hv b rfl]

theorem dropWhile_append_stop {p : Byte → Bool} {u v : Text} (hu : ∀ b ∈ u, p b = true)
    (hv : ∀ b, v.head? = some b → p b = false) : (u ++ v).dropWhile p = v := by
  rw [List.dropWhile_append_of_pos hu]
  cases v with
  | nil => simp
  | cons b v => simp [hv b rfl]

theorem not_mem_of_mem_splitOn {sep : Byte} {t part : Text} (h : part ∈ t.splitOn sep) : sep ∉ part := by
  induction t generalizing part with
  | nil =>
      obtain rfl : part = [] := by simpa [List.splitOn_nil] using h
      simp
  | cons b t ih =>
      rw [List.splitOn_cons_eq_if_modifyHead] at h
      split at h
      next =>
        rcases List.mem_cons.1 h with rfl | h
        · simp
        · exact ih h
      next hb =>
        cases hs : t.splitOn sep with
        | nil => simp [hs] at h
        | cons first rest =>
            rw [hs] at ih h
            rcases List.mem_cons.1 h with rfl | h
            · rw [List.mem_cons, not_or]
              exact ⟨fun he => hb (by simp [he]), ih (by simp)⟩
            · exact ih (by simp [h])

theorem splitOn_lines {ls : List Text} (h : ∀ l ∈ ls, 10 ∉ l) (rest : Text) :
    ((ls.flatMap fun l => l ++ [10]) ++ rest).splitOn 10 = ls ++ rest.splitOn 10 := by
  induction ls with
  | nil => rfl
  | cons l ls ih =>
      obtain ⟨hl, hls⟩ := List.forall_mem_cons.1 h
      rw [List.flatMap_cons, List.append_assoc, List.append_assoc, List.singleton_append,
        List.splitOn_append_cons_self_of_not_mem hl, ih hls, List.cons_append]

theorem cut?_byte {m : Byte} {u : Text} (v : Text) (h : m ∉ u) :
    cut? [m] (u ++ m :: v) = some (u, v) := by
  induction u with
  | nil => simp [cut?, List.isPrefixOf]
  | cons b u ih =>
      obtain ⟨hb, hu⟩ : m ≠ b ∧ m ∉ u := by simpa using h
      simp [cut?, List.isPrefixOf, hb, ih hu]

theorem not_mem_of_cut?_byte {m : Byte} {t u v : Text} (h : cut? [m] t = some (u, v)) : m ∉ u := by
  induction t generalizing u with
  | nil => simp [cut?] at h
  | cons b t ih =>
      rw [cut?] at h
      split at h
      next => simp_all
      next hp =>
        obtain ⟨⟨w, x⟩, hw, he⟩ := Option.map_eq_some_iff.1 h
        obtain ⟨rfl, rfl⟩ : b :: w = u ∧ x = v := by simpa using he
        have hb : m ≠ b := by
          rintro rfl
          simp [List.isPrefixOf] at hp
        simp [hb, ih hw]

/-- Two different bytes cannot overlap their next occurrence, so a mark of two is found right after a
text without it. -/
theorem cut?_pair {a b : Byte} {u : Text} (v : Text) (hab : a ≠ b) (h : ¬ [a, b] <:+: u) :
    cut? [a, b] (u ++ a :: b :: v) = some (u, v) := by
  induction u with
  | nil => simp [cut?, List.isPrefixOf]
  | cons c u ih =>
      rw [List.infix_cons_iff, not_or] at h
      have hp : ¬ [a, b].isPrefixOf (c :: (u ++ a :: b :: v)) = true := by
        intro hp
        apply h.1
        cases u with
        | nil => simp_all [List.isPrefixOf]
        | cons d u => simpa [List.isPrefixOf] using hp
      rw [List.cons_append, cut?, if_neg hp, ih h.2]
      rfl

theorem not_infix_of_cut? {mark t u v : Text} (hm : mark ≠ []) (h : cut? mark t = some (u, v)) :
    ¬ mark <:+: u := by
  induction t generalizing u with
  | nil => simp [cut?, hm] at h
  | cons b t ih =>
      have ht := cut?_append h
      rw [cut?] at h
      split at h
      next =>
        obtain ⟨rfl, -⟩ := Prod.mk.inj (Option.some.inj h)
        simpa using hm
      next hp =>
        obtain ⟨⟨w, x⟩, hw, he⟩ := Option.map_eq_some_iff.1 h
        obtain ⟨rfl, rfl⟩ : b :: w = u ∧ x = v := by simpa using he
        rw [List.infix_cons_iff, not_or]
        refine ⟨fun hmark => hp ?_, ih hw⟩
        rw [List.isPrefixOf_iff_prefix, ht, List.append_assoc]
        exact hmark.trans (List.prefix_append _ _)

theorem cut?_eq_none_iff {mark t : Text} (hm : mark ≠ []) : cut? mark t = none ↔ ¬ mark <:+: t := by
  induction t with
  | nil => simp [cut?, hm]
  | cons b t ih =>
      rw [cut?, List.infix_cons_iff, ← List.isPrefixOf_iff_prefix]
      by_cases hp : mark.isPrefixOf (b :: t) = true
      · simp [hp]
      · simp [hp, ih]

theorem removeAll_sublist (mark t : Text) : (removeAll mark t).Sublist t := by
  fun_induction removeAll mark t with
  | case1 t => exact List.Sublist.refl t
  | case2 t hmark hcut => exact List.Sublist.refl t
  | case3 t hmark before after hcut ih =>
      rw [cut?_append hcut, List.append_assoc]
      exact (ih.trans (List.sublist_append_right mark after)).append_left before

theorem not_mem_removeAll (m : Byte) (t : Text) : m ∉ removeAll [m] t := by
  fun_induction removeAll [m] t with
  | case1 t hnil => cases hnil
  | case2 t hmark hcut =>
      have hnot := (cut?_eq_none_iff hmark).1 hcut
      rwa [List.singleton_infix_iff] at hnot
  | case3 t hmark before after hcut ih =>
      rw [List.mem_append, not_or]
      exact ⟨not_mem_of_cut?_byte hcut, ih⟩

theorem isPrefix_of_append {mark u v : Text} {e : Byte} (h : mark <+: u ++ v) (he : e ∈ u)
    (hm : e ∉ mark) : mark <+: u := by
  rcases List.prefix_or_prefix_of_prefix h (List.prefix_append u v) with h | h
  · exact h
  · exact absurd (h.subset he) hm

theorem not_infix_append_cons {mark u v : Text} {e : Byte} (hm : e ∉ mark) (hu : ¬ mark <:+: u)
    (hv : ¬ mark <:+: v) : ¬ mark <:+: u ++ e :: v := by
  induction u with
  | nil =>
      rw [List.nil_append, List.infix_cons_iff, not_or]
      refine ⟨fun hp => ?_, hv⟩
      -- only the empty mark is a prefix that leaves the byte out, and `v` holds that one
      cases mark with
      | nil => exact hv (List.nil_infix)
      | cons a mark => exact hm (by simp [(List.cons_prefix_cons.1 hp).1])
  | cons b u ih =>
      rw [List.infix_cons_iff, not_or] at hu
      rw [List.cons_append, List.infix_cons_iff, not_or]
      refine ⟨fun hp => ?_, ih hu.2⟩
      have hp' : mark <+: (b :: u) ++ [e] ++ v := by simpa using hp
      rcases List.prefix_concat_iff.1 (isPrefix_of_append hp' (by simp) hm) with h | h
      · exact hm (by simp [h])
      · exact hu.1 h

end BuiltinCatalog.Text
