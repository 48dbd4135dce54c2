import BuiltinCatalog.Proofs.Files.Frame

namespace BuiltinCatalog

namespace Tree

variable {α : Type} {t new u : Tree α} {place q parent : List Text} {name : Text}

def file? (t : Tree α) (q : List Text) : Option α :=
  match t.get? q with
  | some (.file content) => some content
  | _ => none

theorem file?_congr {t' : Tree α} (h : t'.get? q = t.get? q) : t'.file? q = t.file? q := by
  rw [file?, file?, h]

theorem file?_of_directory {es : List (Text × Tree α)} (h : t.get? q = some (.directory es)) :
    t.file? q = none := by
  rw [file?, h]

theorem file?_of_none (h : t.get? q = none) : t.file? q = none := by
  rw [file?, h]

theorem file?_above {rest : List Text} (h : t.get? (q ++ rest) = some u) (hrest : rest ≠ []) :
    t.file? q = none := by
  rw [get?_append] at h
  obtain ⟨w, hw, h⟩ := Option.bind_eq_some_iff.1 h
  cases rest with
  | nil => exact absurd rfl hrest
  | cons n rest =>
      obtain ⟨es, _, rfl, _, _⟩ := get?_cons h
      exact file?_of_directory hw

theorem get?_put_above (t new : Tree α) (q : List Text) {rest : List Text} (hrest : rest ≠ []) :
    ∃ es, (t.put new (q ++ rest)).get? q = some (.directory es) := by
  induction q generalizing t with
  | nil =>
      cases rest with
      | nil => exact absurd rfl hrest
      | cons n rest => exact ⟨_, rfl⟩
  | cons n q ih =>
      rw [List.cons_append, put, get?, entries, Keyed.lookup_insert, if_pos rfl]
      exact ih _

/-- A place where a leaf can be put: no file is above, and nothing below. -/
structure IsSpot (t : Tree α) (place : List Text) : Prop where
  above : ∀ p rest, place = p ++ rest → rest ≠ [] → t.file? p = none
  below : ∀ u, t.get? place = some u → u.entries = []

theorem isSpot_of_get? (h : t.get? place = some u) (hu : u.entries = []) : t.IsSpot place := by
  constructor
  · rintro p rest rfl hrest
    exact file?_above h hrest
  · intro v hv
    obtain rfl := Option.some.inj (h.symm.trans hv)
    exact hu

theorem isSpot_of_parent {es : List (Text × Tree α)} (hparent : t.get? parent = some (.directory es))
    (hold : ∀ u, t.get? (parent ++ [name]) = some u → u.entries = []) : t.IsSpot (parent ++ [name]) := by
  refine ⟨fun p rest hplace hrest => ?_, hold⟩
  rcases List.eq_nil_or_concat rest with rfl | ⟨rest, last, rfl⟩
  · exact absurd rfl hrest
  · rw [List.concat_eq_append, ← List.append_assoc] at hplace
    obtain ⟨rfl, -⟩ := List.append_inj' hplace rfl
    by_cases hnil : rest = []
    · rw [hnil, List.append_nil] at hparent
      exact file?_of_directory hparent
    · exact file?_above hparent hnil

theorem file?_put (h : t.IsSpot place) (hnew : new.entries = []) (hne : q ≠ place) :
    (t.put new place).file? q = t.file? q := by
  by_cases hbelow : place <+: q
  · obtain ⟨rest, rfl⟩ := hbelow
    have hrest : rest ≠ [] := by
      rintro rfl
      exact hne (List.append_nil _)
    rw [file?_of_none, file?_of_none]
    · rw [get?_append]
      cases hget : t.get? place with
      | none => rfl
      | some u => exact get?_eq_none_of_entries (h.below u hget) hrest
    · rw [get?_append, get?_put_self]
      exact get?_eq_none_of_entries hnew hrest
  · by_cases habove : q <+: place
    · obtain ⟨rest, hrest⟩ := habove
      have hnil : rest ≠ [] := by
        rintro rfl
        exact hne (by simpa using hrest)
      rw [h.above q rest hrest.symm hnil, ← hrest]
      obtain ⟨es, hes⟩ := get?_put_above t new q hnil
      exact file?_of_directory hes
    · exact file?_congr (get?_put_apart hbelow habove)

theorem file?_put_directory (h : t.IsSpot place) (hnone : t.get? place = none) :
    (t.put (.directory []) place).file? q = t.file? q := by
  by_cases hq : q = place
  · rw [hq, file?_of_none hnone, file?_of_directory (get?_put_self t _ place)]
  · exact file?_put h rfl hq

end Tree

namespace Disk

open BuiltinCatalog.Path

variable {d d' : Disk} {p : Text} {place q : List Text} {content : Content} {c : Cache}

structure KeepsFile (q : List Text) (d d' : Disk) : Prop where
  file : d'.tree.file? q = d.tree.file? q
  current : d'.current = d.current

theorem KeepsFile.refl (q : List Text) (d : Disk) : KeepsFile q d d := ⟨rfl, rfl⟩

theorem KeepsFile.trans {d'' : Disk} (h : KeepsFile q d d') (h' : KeepsFile q d' d'') : KeepsFile q d d'' :=
  ⟨h'.file.trans h.file, h'.current.trans h.current⟩

theorem makeDirectory_keepsFile (hcur : isAbsolute d.current = true) (h : d.makeDirectory p = .ok d') :
    KeepsFile q d d' := by
  unfold makeDirectory at h
  obtain ⟨⟨parent, name⟩, hparent, h⟩ := bind_eq_ok.1 h
  dsimp only at h
  split at h
  next => cases h
  next hnew =>
    obtain rfl := Except.ok.inj h
    obtain ⟨_, _, es, hdir⟩ := locateParent_eq_ok hcur hparent
    have hnone : d.tree.get? (parent ++ [name]) = none := by simpa using hnew
    have hspot : d.tree.IsSpot (parent ++ [name]) :=
      Tree.isSpot_of_parent hdir fun u hu => absurd (hnone.symm.trans hu) (by simp)
    exact ⟨Tree.file?_put_directory hspot hnone, rfl⟩

theorem ensureDirectory_keepsFile (hcur : isAbsolute d.current = true) (h : d.ensureDirectory p = .ok d') :
    KeepsFile q d d' := by
  unfold ensureDirectory at h
  split at h
  next =>
    obtain rfl := Except.ok.inj h
    exact .refl q d
  next => cases h
  next => exact makeDirectory_keepsFile hcur (mapError_eq_ok.1 h)

theorem madeInTurn_keepsFile (hcur : isAbsolute d.current = true) (ps : List Text) :
    KeepsFile q d (d.madeInTurn ps) := by
  induction ps generalizing d with
  | nil => exact .refl q d
  | cons p ps ih =>
      rw [madeInTurn]
      split
      next d₁ hd₁ =>
        have hstep : KeepsFile q d d₁ := ensureDirectory_keepsFile hcur hd₁
        rw [← hstep.current] at hcur
        exact hstep.trans (ih hcur)
      next => exact .refl q d

theorem target_isSpot {old : Option Content} (hcur : isAbsolute d.current = true)
    (h : d.target p = .ok (place, old)) : d.tree.IsSpot place := by
  obtain ⟨-, hold, parent, name, es, rfl, hparent⟩ := target_eq_ok hcur h
  refine Tree.isSpot_of_parent hparent fun u hu => ?_
  rw [hold] at hu
  obtain ⟨content, _, rfl⟩ := Option.map_eq_some_iff.1 hu
  rfl

theorem fill_keepsFile (content : Content) (hspot : d.tree.IsSpot place) (hne : q ≠ place) :
    KeepsFile q d (d.fill place content) :=
  ⟨Tree.file?_put hspot rfl hne, rfl⟩

theorem file?_fill (d : Disk) (place : List Text) (content : Content) :
    (d.fill place content).tree.file? place = some content := by
  rw [Tree.file?, get?_fill]

theorem fill_isSpot (d : Disk) (place : List Text) (content : Content) :
    (d.fill place content).tree.IsSpot place :=
  Tree.isSpot_of_get? (get?_fill d place content) rfl

theorem openCache_isSpot (hcur : isAbsolute d.current = true) (h : d.openCache p = .ok (d', place, c)) :
    d.tree.IsSpot place := by
  unfold openCache at h
  split at h
  next => cases h
  next place' old htarget =>
    have hspot := target_isSpot hcur htarget
    dsimp only at h
    split at h <;> cases h <;> exact hspot

end Disk

end BuiltinCatalog
