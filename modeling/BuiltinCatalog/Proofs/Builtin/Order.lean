import BuiltinCatalog.Collection
import Mathlib.Algebra.GroupWithZero.Nat
import Mathlib.Data.List.Perm.Basic
import Mathlib.Order.Basic
import Mathlib.Order.BooleanAlgebra.Basic
import Mathlib.Tactic.Common

namespace BuiltinCatalog

section

variable {α K : Type} {key : α → K} {next : α → α → Prop}

/-- A strict order in which not being told apart is transitive. -/
structure StrictWeak (r : α → α → Prop) : Prop where
  asymm {x y : α} : r x y → ¬ r y x
  cotrans {x z : α} (y : α) : r x z → r x y ∨ r y z

theorem StrictWeak.isStrictWeakOrder {r : α → α → Prop} (h : StrictWeak r) : IsStrictWeakOrder α r where
  irrefl x hx := h.asymm hx hx
  trans x y z hxy hyz := (h.cotrans z hxy).resolve_right fun hzy => h.asymm hyz hzy
  incomp_trans x y z hxy hyz := by
    constructor
    · intro hxz
      rcases h.cotrans y hxz with hr | hr
      · exact hxy.1 hr
      · exact hyz.1 hr
    · intro hzx
      rcases h.cotrans y hzx with hr | hr
      · exact hyz.2 hr
      · exact hxy.2 hr

def byKey [LT K] (key : α → K) (next : α → α → Prop) (x y : α) : Prop :=
  key x < key y ∨ key x = key y ∧ next x y

theorem strictWeak_false : StrictWeak fun _ _ : α => False := ⟨False.elim, fun _ => False.elim⟩

theorem byKey_of_ne [LT K] {x y : α} (h : key x ≠ key y) : byKey key next x y ↔ key x < key y := by
  simp [byKey, h]

variable [LE K] [LT K] [Std.LawfulOrderLT K] [Std.IsLinearOrder K]

omit [Std.IsLinearOrder K] in
theorem byKey_of_eq {x y : α} (h : key x = key y) : byKey key next x y ↔ next x y := by
  simp [byKey, h, Std.lt_irrefl]

theorem StrictWeak.byKey (h : StrictWeak next) : StrictWeak (byKey key next) where
  asymm := by
    rintro x y (hxy | ⟨hxy, hnext⟩) (hyx | ⟨hyx, hnext'⟩)
    · exact Std.lt_irrefl (Std.lt_trans hxy hyx)
    · exact Std.lt_irrefl (hyx ▸ hxy)
    · exact Std.lt_irrefl (hxy ▸ hyx)
    · exact h.asymm hnext hnext'
  cotrans := by
    intro x z y hxz
    rcases Std.lt_trichotomy (key x) (key y) with hxy | hxy | hxy
    · exact Or.inl (Or.inl hxy)
    · rcases hxz with hxz | ⟨hxz, hnext⟩
      · exact Or.inr (Or.inl (hxy ▸ hxz))
      · rcases h.cotrans y hnext with hn | hn
        · exact Or.inl (Or.inr ⟨hxy, hn⟩)
        · exact Or.inr (Or.inr ⟨hxy.symm.trans hxz, hn⟩)
    · rcases hxz with hxz | ⟨hxz, _⟩
      · exact Or.inr (Or.inl (Std.lt_trans hxy hxz))
      · exact Or.inr (Or.inl (hxz ▸ hxy))

theorem not_byKey_iff {x y : α} :
    ¬ byKey key next x y ∧ ¬ byKey key next y x ↔ key x = key y ∧ ¬ next x y ∧ ¬ next y x := by
  by_cases h : key x = key y
  · rw [byKey_of_eq h, byKey_of_eq h.symm]
    simp [h]
  · rw [byKey_of_ne h, byKey_of_ne (Ne.symm h)]
    rcases Std.lt_trichotomy (key x) (key y) with hlt | heq | hlt
    · simp [h, hlt]
    · exact absurd heq h
    · simp [h, hlt]

end

namespace Builtin

variable {f g : Builtin} {fs gs : List Builtin}

theorem less_iff (f g : Builtin) :
    f.less g = true ↔
      byKey name (byKey object (byKey isConstructor (byKey joinedParameters (byKey source fun _ _ => False))))
        f g := by
  unfold less
  split
  next h => simp [byKey_of_ne h]
  next h =>
    rw [byKey_of_eq (not_not.1 h)]
    split
    next h => simp [byKey_of_ne h]
    next h =>
      rw [byKey_of_eq (not_not.1 h)]
      split
      next h =>
        rw [byKey_of_ne h]
        cases hf : f.isConstructor <;> cases hg : g.isConstructor <;> simp_all
      next h =>
        rw [byKey_of_eq (not_not.1 h)]
        split
        next h => simp [byKey_of_ne h]
        next h =>
          rw [byKey_of_eq (not_not.1 h)]
          simp [byKey]

theorem strictWeak_less : StrictWeak fun f g : Builtin => f.less g = true := by
  have h : StrictWeak (byKey name (byKey object (byKey isConstructor (byKey joinedParameters
      (byKey source fun _ _ => False))))) :=
    strictWeak_false.byKey.byKey.byKey.byKey.byKey
  refine ⟨fun {f g} hfg hgf => ?_, fun {f k} g hfk => ?_⟩
  · exact h.asymm ((less_iff f g).1 hfg) ((less_iff g f).1 hgf)
  · rcases h.cotrans g ((less_iff f k).1 hfk) with hl | hl
    · exact Or.inl ((less_iff f g).2 hl)
    · exact Or.inr ((less_iff g k).2 hl)

theorem not_less_iff :
    f.less g = false ∧ g.less f = false ↔
      f.name = g.name ∧ f.object = g.object ∧ f.isConstructor = g.isConstructor ∧
        f.joinedParameters = g.joinedParameters ∧ f.source = g.source := by
  rw [← Bool.not_eq_true, ← Bool.not_eq_true, less_iff, less_iff, not_byKey_iff, not_byKey_iff, not_byKey_iff,
    not_byKey_iff, not_byKey_iff]
  simp

theorem sort_perm (fs : List Builtin) : (sort fs).Perm fs := List.mergeSort_perm _ _

theorem not_less_trans (f g k : Builtin) (hfg : (!g.less f) = true) (hgk : (!k.less g) = true) :
    (!k.less f) = true := by
  rw [Bool.not_eq_true'] at hfg hgk ⊢
  by_contra hkf
  rcases strictWeak_less.cotrans g (Bool.of_not_eq_false hkf) with h | h
  · simp [hgk] at h
  · simp [hfg] at h

theorem not_less_total (f g : Builtin) : (!g.less f || !f.less g) = true := by
  cases hgf : g.less f with
  | false => rfl
  | true => simpa using strictWeak_less.asymm hgf

theorem pairwise_sort (fs : List Builtin) : (sort fs).Pairwise fun f g => g.less f = false :=
  (List.pairwise_mergeSort not_less_trans not_less_total fs).imp fun h => by simpa using h

/-- Sorting forgets the order of a list in which only equal functions are not told apart. -/
theorem sort_eq_of_perm (h : fs.Perm gs)
    (hfs : ∀ f ∈ fs, ∀ g ∈ fs, f.less g = false → g.less f = false → f = g) : sort fs = sort gs := by
  have hperm : (sort fs).Perm (sort gs) := (sort_perm fs).trans (h.trans (sort_perm gs).symm)
  refine hperm.eq_of_pairwise ?_ (pairwise_sort fs) (pairwise_sort gs)
  intro f g hf hg hgf hfg
  have hf' : f ∈ fs := (sort_perm fs).mem_iff.1 hf
  have hg' : g ∈ fs := h.mem_iff.2 ((sort_perm gs).mem_iff.1 hg)
  exact hfs f hf' g hg' hfg hgf

def tied (f g : Builtin) : Bool := !f.less g && !g.less f

theorem tied_iff : f.tied g = true ↔ f.less g = false ∧ g.less f = false := by
  rw [tied, Bool.and_eq_true, Bool.not_eq_true', Bool.not_eq_true']

theorem tied_of_tied {k : Builtin} (hg : f.tied g = true) (hk : f.tied k = true) : g.tied k = true := by
  rw [tied_iff, not_less_iff] at *
  obtain ⟨hname, hobject, hconstructor, hparameters, hsource⟩ := hg
  rw [← hname, ← hobject, ← hconstructor, ← hparameters, ← hsource]
  exact hk

theorem filter_sort (fs : List Builtin) (f : Builtin) : (sort fs).filter f.tied = fs.filter f.tied := by
  have hties : (fs.filter f.tied).Pairwise fun g k => (!k.less g) = true := by
    apply List.pairwise_of_forall_mem_list
    intro g hg k hk
    have htied := tied_of_tied (List.mem_filter.1 hg).2 (List.mem_filter.1 hk).2
    simp [(tied_iff.1 htied).2]
  have hsublist : (fs.filter f.tied).Sublist (sort fs) :=
    List.sublist_mergeSort not_less_trans not_less_total hties List.filter_sublist
  have hfilter := hsublist.filter f.tied
  rw [List.filter_filter, List.filter_congr fun g _ => Bool.and_self (f.tied g)] at hfilter
  exact (hfilter.eq_of_length ((sort_perm fs).filter f.tied).length_eq.symm).symm

/-- A list in increasing order, with functions that are not told apart as they were in the first list. -/
structure IsStableSort (fs gs : List Builtin) : Prop where
  perm : gs.Perm fs
  increases : gs.Pairwise fun f g => g.less f = false
  keeps_ties : ∀ f : Builtin, gs.filter f.tied = fs.filter f.tied

theorem isStableSort_sort (fs : List Builtin) : IsStableSort fs (sort fs) :=
  ⟨sort_perm fs, pairwise_sort fs, filter_sort fs⟩

end Builtin

namespace Collection

theorem length_allFunctions (c : Collection) :
    c.allFunctions.length = (c.objects.map fun o => o.functionList.length).sum := by
  rw [allFunctions, (Builtin.sort_perm c.functions).length_eq, functions, List.length_flatMap]

/-- Functions are weakly ordered by their keys, and the functions of all objects of a collection, one object
after the other, are sorted by this order without changing the order of ties. -/
theorem allFunctions_isStableSort :
    IsStrictWeakOrder Builtin (fun f g => f.less g = true) ∧
    (∀ f g : Builtin, f.less g = false ∧ g.less f = false ↔
      f.name = g.name ∧ f.object = g.object ∧ f.isConstructor = g.isConstructor ∧
        ("," : Text).intercalate f.parameterList = ("," : Text).intercalate g.parameterList ∧
          f.source = g.source) ∧
    ∀ c : Collection,
      Builtin.IsStableSort (c.objects.flatMap BuiltinObject.functionList) c.allFunctions ∧
        c.allFunctions.length = (c.objects.map fun o => o.functionList.length).sum := by
  refine ⟨Builtin.strictWeak_less.isStrictWeakOrder, fun f g => Builtin.not_less_iff, fun c => ⟨?_, ?_⟩⟩
  · exact Builtin.isStableSort_sort c.functions
  · exact c.length_allFunctions

end Collection

end BuiltinCatalog
