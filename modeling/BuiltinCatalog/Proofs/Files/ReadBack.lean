import BuiltinCatalog.Proofs.Files.Frame

namespace BuiltinCatalog

namespace Tree

variable {α : Type} {t : Tree α} {place q : List Text} {es : List (Text × Tree α)}

theorem get?_put_of_directory (new : Tree α) (hplace : ∀ es, t.get? place ≠ some (.directory es))
    (h : t.get? q = some (.directory es)) :
    ∃ es', (t.put new place).get? q = some (.directory es') ∧
      ∀ name, (es.lookup name).isSome → (es'.lookup name).isSome := by
  induction place generalizing t q with
  | nil =>
      cases q with
      | nil => exact absurd h (hplace es)
      | cons n q =>
          obtain ⟨es', _, rfl, _⟩ := get?_cons h
          exact absurd rfl (hplace es')
  | cons name rest ih =>
      cases q with
      | nil =>
          obtain rfl : t = .directory es := by simpa [get?] using h
          refine ⟨_, rfl, fun n hn => ?_⟩
          rw [entries, Keyed.lookup_insert]
          split
          next => rfl
          next => exact hn
      | cons n q =>
          rw [put, get?, entries, Keyed.lookup_insert]
          rw [get?] at h
          by_cases hn : n = name
          · subst hn
            cases hlookup : t.entries.lookup n with
            | none => simp [hlookup] at h
            | some c =>
                rw [hlookup] at h
                rw [if_pos rfl]
                refine ih (fun es' hes' => hplace es' ?_) h
                rw [get?, hlookup]
                exact hes'
          · rw [if_neg hn]
            exact ⟨es, h, fun _ => id⟩

end Tree

namespace Disk

open BuiltinCatalog.Path

variable {d d' : Disk} {t new : Tree Content} {p c name : Text} {place place' spot parent : List Text}

theorem enter_eq_ok_iff :
    enter t place c = .ok place' ↔ ∃ es, t.get? place.reverse = some (.directory es) ∧
      (if c = [] ∨ c = Text.ofString "." then place = place'
      else if c = Text.ofString ".." then place.drop 1 = place'
      else ¬ maxName < c.length ∧ (es.lookup c).isSome ∧ c :: place = place') := by
  unfold enter
  split
  next es hes =>
    simp only [hes, Option.some.injEq, Tree.directory.injEq, exists_eq_left']
    split_ifs <;> simp_all
  next hnone => simp_all

theorem enter_put (hspot : ∀ es, t.get? spot ≠ some (.directory es)) (h : enter t place c = .ok place') :
    enter (t.put new spot) place c = .ok place' := by
  obtain ⟨es, hes, h⟩ := enter_eq_ok_iff.1 h
  obtain ⟨es', hes', hkeeps⟩ := Tree.get?_put_of_directory new hspot hes
  refine enter_eq_ok_iff.2 ⟨es', hes', ?_⟩
  split_ifs at h ⊢
  · exact h
  · exact h
  · exact ⟨h.1, hkeeps c h.2.1, h.2.2⟩

theorem foldlM_enter_put (hspot : ∀ es, t.get? spot ≠ some (.directory es)) {cs : List Text}
    (h : cs.foldlM (enter t) place = .ok place') : cs.foldlM (enter (t.put new spot)) place = .ok place' := by
  induction cs generalizing place with
  | nil => exact h
  | cons c cs ih =>
      rw [List.foldlM_cons] at h ⊢
      obtain ⟨next, hnext, h⟩ := bind_eq_ok.1 h
      exact bind_eq_ok.2 ⟨next, enter_put hspot hnext, ih h⟩

theorem IsParentOf.foldlM_enter (h : d.IsParentOf parent p) :
    ∃ cs, p.splitOn slash = cs ++ [lastPart p] ∧
      cs.foldlM (enter d.tree) (if isAbsolute p then [] else components d.current).reverse = .ok parent.reverse := by
  have hlast := List.splitOn_eq_singleton (slash_not_mem_lastPart p)
  rcases leadingPart_cases p with ⟨hp, hleading⟩ | ⟨u, hp, hleading⟩
  · have hslash := slash_not_mem_lastPart p
    rw [← hp] at hlast hslash ⊢
    refine ⟨[], hlast, ?_⟩
    rw [isAbsolute_of_no_slash hslash, if_neg Bool.false_ne_true]
    obtain ⟨_, rfl⟩ | hfound := h.found
    · rfl
    · exact absurd hleading (locate_eq_ok hfound).1
  · have habs : isAbsolute p = isAbsolute (u ++ [slash]) := by
      rw [hp]
      cases u <;> rfl
    have hsplit : p.splitOn slash = u.splitOn slash ++ [lastPart p] := by
      rw [← hlast, ← List.splitOn_append_cons_self, ← hp]
    refine ⟨u.splitOn slash, hsplit, ?_⟩
    have hfound : d.locate (u ++ [slash]) = .ok parent := by
      rw [← hleading]
      exact h.found.resolve_left fun hnil => by simp [hleading] at hnil
    obtain ⟨_, _, hfold⟩ := locate_eq_ok hfound
    -- the part before ends in a slash, and the empty component after it leads nowhere else
    rw [List.splitOn_append_cons_self, List.splitOn_nil, List.foldlM_append, ← habs] at hfold
    obtain ⟨place, hplace, hfold⟩ := bind_eq_ok.1 hfold
    rw [List.foldlM_cons] at hfold
    obtain ⟨place', hblank, hfold⟩ := bind_eq_ok.1 hfold
    obtain rfl := Except.ok.inj hfold
    obtain ⟨_, _, hblank⟩ := enter_eq_ok_iff.1 hblank
    rw [if_pos (Or.inl rfl)] at hblank
    rwa [← hblank]

theorem locate_put (hp : p ≠ []) (hname : IsName (lastPart p)) (hparent : d.IsParentOf parent p)
    (hspot : ∀ es, d.tree.get? (parent ++ [lastPart p]) ≠ some (.directory es)) :
    locate { d with tree := d.tree.put new (parent ++ [lastPart p]) } p = .ok (parent ++ [lastPart p]) := by
  obtain ⟨cs, hsplit, hfold⟩ := hparent.foldlM_enter
  obtain ⟨es, hes⟩ := hparent.isDirectory
  obtain ⟨es', hes', -⟩ := Tree.get?_put_of_directory new hspot hes
  have hentry : (es'.lookup (lastPart p)).isSome := by
    rw [← Tree.get?_concat hes', Tree.get?_put_self]
    rfl
  have henter : enter (d.tree.put new (parent ++ [lastPart p])) parent.reverse (lastPart p) =
      .ok (lastPart p :: parent.reverse) := by
    refine enter_eq_ok_iff.2 ⟨es', by rwa [List.reverse_reverse], ?_⟩
    rw [if_neg (not_or.2 ⟨hname.ne_nil, hname.ne_dot⟩), if_neg hname.ne_dots]
    exact ⟨Nat.not_lt.2 hparent.length_last_le, hentry, rfl⟩
  have hpath : (p.splitOn slash).foldlM (enter (d.tree.put new (parent ++ [lastPart p])))
      (if isAbsolute p then [] else components d.current).reverse = .ok (lastPart p :: parent.reverse) := by
    rw [hsplit, List.foldlM_append]
    exact bind_eq_ok.2 ⟨_, foldlM_enter_put hspot hfold, bind_eq_ok.2 ⟨_, henter, rfl⟩⟩
  rw [locate, if_neg hp, if_neg hparent.no_zero, if_neg (Nat.not_lt.2 hparent.length_le)]
  dsimp only
  rw [hpath, Except.map, List.reverse_cons, List.reverse_reverse]

theorem read_write {content : Content} (h : d.write p content = .ok d') : d'.read p = .ok content.bytes := by
  unfold write at h
  split at h
  next place old htarget =>
    obtain rfl := Except.ok.inj h
    obtain ⟨hp, hname, hold, parent, rfl, hparent⟩ := target_cases htarget
    obtain ⟨-, hparent⟩ := isParentOf_of_locateParent hparent
    refine read_eq_ok_iff.2 ⟨_, content, locate_put hp hname hparent fun es hes => ?_, Tree.get?_put_self _ _ _, rfl⟩
    rw [hold] at hes
    cases old <;> simp at hes
  next => cases h

end Disk

end BuiltinCatalog
