import BuiltinCatalog.Text.Keyed
import BuiltinCatalog.Text.Order
import Mathlib.Data.List.Perm.Basic
import Mathlib.Tactic.Common

namespace BuiltinCatalog

namespace Text

theorem mem_insertInto {t u : Text} {us : List Text} : u ∈ insertInto t us ↔ u = t ∨ u ∈ us := by
  fun_induction insertInto t us with
  | case1 => simp
  | case2 => simp
  | case3 us _ => simp
  | case4 v us _ _ ih =>
      rw [List.mem_cons, ih, List.mem_cons]
      tauto

theorem pairwise_insertInto {t : Text} {us : List Text} (h : us.Pairwise (· < ·)) :
    (insertInto t us).Pairwise (· < ·) := by
  fun_induction insertInto t us with
  | case1 => simp
  | case2 u us hlt =>
      refine List.pairwise_cons.2 ⟨fun v hv => ?_, h⟩
      rcases List.mem_cons.1 hv with rfl | hv
      · exact hlt
      · exact List.lt_trans hlt ((List.pairwise_cons.1 h).1 v hv)
  | case3 us hlt => exact h
  | case4 u us hlt hne ih =>
      obtain ⟨hu, hus⟩ := List.pairwise_cons.1 h
      refine List.pairwise_cons.2 ⟨fun v hv => ?_, ih hus⟩
      rcases mem_insertInto.1 hv with rfl | hv
      · exact Std.lt_of_le_of_ne hlt fun he => hne he.symm
      · exact hu v hv

@[simp] theorem mem_distinct {u : Text} {ts : List Text} : u ∈ distinct ts ↔ u ∈ ts := by
  induction ts with
  | nil => simp [distinct]
  | cons t ts ih =>
      rw [distinct, List.foldr_cons, mem_insertInto, ← distinct, ih, List.mem_cons]

theorem pairwise_distinct (ts : List Text) : (distinct ts).Pairwise (· < ·) := by
  induction ts with
  | nil => simp [distinct]
  | cons t ts ih => exact pairwise_insertInto ih

theorem eq_of_pairwise {ts us : List Text} (ht : ts.Pairwise (· < ·)) (hu : us.Pairwise (· < ·))
    (h : ∀ u, u ∈ ts ↔ u ∈ us) : ts = us := by
  have hnodup {xs : List Text} (hx : xs.Pairwise (· < ·)) : xs.Nodup := by
    refine hx.imp ?_
    rintro a _ hlt rfl
    exact List.lt_irrefl a hlt
  have hperm : ts.Perm us := (List.perm_ext_iff_of_nodup (hnodup ht) (hnodup hu)).2 h
  refine hperm.eq_of_pairwise (fun a b _ _ hab hba => ?_) ht hu
  exact absurd (List.lt_trans hab hba) (List.lt_irrefl a)

theorem distinct_congr {ts us : List Text} (h : ∀ u, u ∈ ts ↔ u ∈ us) : distinct ts = distinct us :=
  eq_of_pairwise (pairwise_distinct ts) (pairwise_distinct us) (by simpa using h)

end Text

namespace Keyed

variable {α : Type}

theorem lookup_cons (j : Text) (b : α) (entries : List (Text × α)) (k : Text) :
    ((j, b) :: entries).lookup k = if k = j then some b else entries.lookup k := by
  rw [List.lookup_cons]
  by_cases h : k = j
  · simp [h]
  · rw [if_neg h, beq_false_of_ne h]

theorem mem_keys_iff {k : Text} {entries : List (Text × α)} :
    k ∈ keys entries ↔ ∃ a, entries.lookup k = some a := by
  induction entries with
  | nil => simp [keys]
  | cons e entries ih =>
      obtain ⟨j, b⟩ := e
      rw [keys, List.map_cons, List.mem_cons, ← keys, ih, lookup_cons]
      by_cases h : k = j <;> simp [h]

theorem lookup_insert (key : Text) (a : α) (entries : List (Text × α)) (k : Text) :
    (insert key a entries).lookup k = if k = key then some a else entries.lookup k := by
  fun_induction insert key a entries with
  | case1 => rw [lookup_cons]
  | case2 j b rest hlt => rw [lookup_cons]
  | case3 b rest hlt =>
      rw [lookup_cons, lookup_cons]
      split <;> rfl
  | case4 j b rest hlt hne ih =>
      rw [lookup_cons, lookup_cons, ih]
      by_cases hj : k = j
      · have hk : ¬ k = key := fun he => hne (he.symm.trans hj)
        rw [if_pos hj, if_neg hk, if_pos hj]
      · rw [if_neg hj, if_neg hj]

theorem lookup_erase (key : Text) (entries : List (Text × α)) (k : Text) :
    (erase key entries).lookup k = if k = key then none else entries.lookup k := by
  induction entries with
  | nil => simp [erase]
  | cons e entries ih =>
      obtain ⟨j, b⟩ := e
      rw [erase, List.filter_cons]
      by_cases hj : j = key
      · have hd : ((j, b).1 != key) = false := by simpa using hj
        rw [hd, if_neg (by simp), ← erase, ih, lookup_cons, hj]
        split <;> rfl
      · have hd : ((j, b).1 != key) = true := by simpa using hj
        rw [if_pos hd, lookup_cons, ← erase, ih, lookup_cons]
        by_cases hk : k = j
        · have hne : ¬ k = key := fun he => hj (hk.symm.trans he)
          rw [if_pos hk, if_neg hne, if_pos hk]
        · rw [if_neg hk, if_neg hk]

theorem keys_insert (key : Text) (a : α) (entries : List (Text × α)) :
    keys (insert key a entries) = Text.insertInto key (keys entries) := by
  fun_induction insert key a entries with
  | case1 => rfl
  | case2 j b rest hlt => simp [keys, Text.insertInto, hlt]
  | case3 b rest hlt => simp [keys, Text.insertInto]
  | case4 j b rest hlt hne ih =>
      rw [keys, List.map_cons, ← keys, ih]
      simp [keys, Text.insertInto, hlt, hne]

theorem keys_erase (key : Text) (entries : List (Text × α)) :
    keys (erase key entries) = (keys entries).filter (· != key) := by
  rw [keys, erase, keys, List.filter_map]
  rfl

theorem insert_of_lt {key : Text} {entries : List (Text × α)} (h : ∀ k ∈ keys entries, k < key) (a : α) :
    insert key a entries = entries ++ [(key, a)] := by
  induction entries with
  | nil => rfl
  | cons e entries ih =>
      obtain ⟨j, b⟩ := e
      obtain ⟨hj, h⟩ := List.forall_mem_cons.1 h
      have hne : key ≠ j := by
        rintro rfl
        exact List.lt_irrefl _ hj
      rw [insert, if_neg (List.lt_asymm hj), if_neg hne, ih h, List.cons_append]

theorem foldl_insert {before entries : List (Text × α)} (h : (keys (before ++ entries)).Pairwise (· < ·)) :
    entries.foldl (fun es e => insert e.1 e.2 es) before = before ++ entries := by
  induction entries generalizing before with
  | nil => rw [List.foldl_nil, List.append_nil]
  | cons e entries ih =>
      have hlt : ∀ k ∈ keys before, k < e.1 := by
        rw [keys, List.map_append, List.pairwise_append] at h
        exact fun k hk => h.2.2 k hk e.1 (by simp)
      rw [List.append_cons] at h
      rw [List.foldl_cons, insert_of_lt hlt, ih h, List.append_assoc, List.singleton_append]

theorem filter_keys_insert {keep : Text → Bool} {key : Text} (hkey : keep key = false) (a : α)
    (entries : List (Text × α)) :
    (keys (insert key a entries)).filter keep = (keys entries).filter keep := by
  fun_induction insert key a entries with
  | case1 => simp [keys, hkey]
  | case2 j b rest hlt => simp [keys, hkey]
  | case3 b rest hlt => simp [keys, hkey]
  | case4 j b rest hlt hne ih =>
      simp only [keys, List.map_cons, List.filter_cons] at ih ⊢
      rw [ih]

end Keyed

end BuiltinCatalog
