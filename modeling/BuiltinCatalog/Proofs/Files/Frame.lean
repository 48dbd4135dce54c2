import BuiltinCatalog.Proofs.Except
import BuiltinCatalog.Proofs.Files.Disk
import BuiltinCatalog.Proofs.Files.Path
import BuiltinCatalog.Proofs.Text.Order

namespace BuiltinCatalog

namespace Tree

variable {α : Type} {t new : Tree α} {place q parent : List Text} {name : Text}

theorem get?_append (t : Tree α) (us vs : List Text) : t.get? (us ++ vs) = (t.get? us).bind (·.get? vs) := by
  induction us generalizing t with
  | nil => rfl
  | cons u us ih =>
      rw [List.cons_append, get?, get?]
      cases t.entries.lookup u with
      | none => rfl
      | some c => exact ih c

theorem get?_eq_none_of_entries (h : t.entries = []) (hq : q ≠ []) : t.get? q = none := by
  cases q with
  | nil => exact absurd rfl hq
  | cons name rest =>
      rw [get?, h]
      rfl

theorem get?_put_self (t new : Tree α) (place : List Text) : (t.put new place).get? place = some new := by
  induction place generalizing t with
  | nil => rfl
  | cons name rest ih =>
      rw [put, get?, entries, Keyed.lookup_insert, if_pos rfl]
      exact ih _

theorem get?_put_apart (hq : ¬ place <+: q) (hplace : ¬ q <+: place) : (t.put new place).get? q = t.get? q := by
  induction place generalizing t q with
  | nil => exact absurd List.nil_prefix hq
  | cons name rest ih =>
      cases q with
      | nil => exact absurd List.nil_prefix hplace
      | cons n q =>
          rw [put, get?, get?, entries, Keyed.lookup_insert]
          by_cases hn : n = name
          · subst hn
            rw [if_pos rfl]
            have hq' : ¬ rest <+: q := fun h => hq ((List.prefix_cons_inj n).2 h)
            have hplace' : ¬ q <+: rest := fun h => hplace ((List.prefix_cons_inj n).2 h)
            dsimp only
            rw [ih hq' hplace']
            cases t.entries.lookup n with
            | some c => rfl
            | none =>
                refine get?_eq_none_of_entries rfl ?_
                rintro rfl
                exact hplace' List.nil_prefix
          · rw [if_neg hn]

/-- A leaf that is put into a directory changes nothing but its own place, and the directories above. -/
theorem get?_put_leaf {es : List (Text × Tree α)} (hparent : t.get? parent = some (.directory es))
    (hold : ∀ u, t.get? (parent ++ [name]) = some u → u.entries = []) (hnew : new.entries = [])
    (hq : ∀ es, t.get? q ≠ some (.directory es)) (hne : q ≠ parent ++ [name]) :
    (t.put new (parent ++ [name])).get? q = t.get? q := by
  by_cases hbelow : parent ++ [name] <+: q
  · obtain ⟨rest, rfl⟩ := hbelow
    have hrest : rest ≠ [] := by
      rintro rfl
      exact hne (List.append_nil _)
    rw [get?_append, get?_put_self, get?_append, Option.bind_some, get?_eq_none_of_entries hnew hrest]
    cases hget : t.get? (parent ++ [name]) with
    | none => rfl
    | some u => rw [Option.bind_some, get?_eq_none_of_entries (hold u hget) hrest]
  · refine get?_put_apart hbelow fun habove => ?_
    -- what is above the place is a directory
    obtain ⟨rest, hrest⟩ := habove
    rcases List.eq_nil_or_concat rest with rfl | ⟨rest, last, rfl⟩
    · exact hne (by simpa using hrest)
    · rw [List.concat_eq_append, ← List.append_assoc] at hrest
      obtain ⟨rfl, -⟩ := List.append_inj' hrest rfl
      rw [get?_append] at hparent
      cases hget : t.get? q with
      | none => simp [hget] at hparent
      | some u =>
          rw [hget, Option.bind_some] at hparent
          cases rest with
          | nil =>
              obtain rfl : u = .directory es := by simpa [get?] using hparent
              exact hq es hget
          | cons n rest =>
              obtain ⟨es', _, rfl, _, _⟩ := get?_cons hparent
              exact hq es' hget

end Tree

namespace Disk

open BuiltinCatalog.Path

variable {d d' : Disk} {p : Text} {place q : List Text} {content : Content} {c : Cache}

theorem enter_eq_ok {t : Tree Content} {place place' : List Text} {c : Text}
    (hplace : ∀ n ∈ place, IsName n) (hc : slash ∉ c) (h : enter t place c = .ok place') :
    place' = push true place c := by
  unfold enter at h
  split at h
  next es hes =>
    split at h
    next hblank =>
      rw [push_blank hblank]
      exact (Except.ok.inj h).symm
    next hblank =>
      split at h
      next hdots =>
        subst hdots
        obtain rfl := Except.ok.inj h
        cases place with
        | nil => rfl
        | cons last rest => rw [push_dots_name (hplace last (by simp)), List.drop_one, List.tail_cons]
      next hdots =>
        split at h
        next => cases h
        next =>
          split at h
          next =>
            obtain ⟨hnil, hdot⟩ := not_or.1 hblank
            rw [push_name ⟨hnil, hdot, hdots, hc⟩]
            exact (Except.ok.inj h).symm
          next => cases h
  next => cases h

theorem foldlM_enter_eq_ok {t : Tree Content} {cs place place' : List Text} (hcs : ∀ c ∈ cs, slash ∉ c)
    (hplace : ∀ n ∈ place, IsName n) (h : cs.foldlM (enter t) place = .ok place') :
    place' = cs.foldl (push true) place := by
  induction cs generalizing place with
  | nil => exact (Except.ok.inj h).symm
  | cons c cs ih =>
      obtain ⟨hc, hcs⟩ := List.forall_mem_cons.1 hcs
      rw [List.foldlM_cons] at h
      obtain ⟨next, henter, h⟩ := bind_eq_ok.1 h
      obtain rfl := enter_eq_ok hplace hc henter
      exact ih hcs (isName_push hc hplace) h

theorem eq_resolve_of_locate (hcur : isAbsolute d.current = true) (h : d.locate p = .ok place) :
    place = resolve d.current p := by
  obtain ⟨_, _, hf⟩ := locate_eq_ok h
  have hstart : ∀ n ∈ (if isAbsolute p then [] else components d.current).reverse, IsName n := by
    intro n hn
    split at hn
    next => simp at hn
    next => exact isName_of_mem_components hcur (List.mem_reverse.1 hn)
  have hplace := foldlM_enter_eq_ok (no_slash_of_mem_splitOn p) hstart hf
  rw [resolve_eq_follow hcur, follow, ← hplace, List.reverse_reverse]

/-- The directory at a place holds the last part of a path, or can. -/
structure IsParentOf (d : Disk) (place : List Text) (p : Text) : Prop where
  no_zero : ¬ p.contains 0
  length_le : p.length ≤ maxPath
  length_last_le : (lastPart p).length ≤ maxName
  isDirectory : ∃ es, d.tree.get? place = some (.directory es)
  found : (leadingPart p = [] ∧ place = components d.current) ∨ d.locate (leadingPart p) = .ok place

theorem isParentOf_of_locateParent {name : Text} (h : d.locateParent p = .ok (place, name)) :
    name = lastPart p ∧ d.IsParentOf place p := by
  -- what is done with the place of the parent, however it was found
  have hlast (found : Except FileFault (List Text))
      (h : (found >>= fun place =>
        if (d.tree.get? place).any (·.isDirectory) then
          if maxName < (lastPart p).length then .error .nameTooLong else .ok (place, lastPart p)
        else .error .notDirectory) = .ok (place, name)) :
      name = lastPart p ∧ found = .ok place ∧ (lastPart p).length ≤ maxName ∧
        ∃ es, d.tree.get? place = some (.directory es) := by
    obtain ⟨parent, hparent, h⟩ := bind_eq_ok.1 h
    split at h
    next hdir =>
      split at h
      next => cases h
      next hlen =>
        obtain ⟨rfl, rfl⟩ := Prod.mk.inj (Except.ok.inj h)
        refine ⟨rfl, hparent, Nat.le_of_not_lt hlen, ?_⟩
        cases hget : d.tree.get? parent with
        | none => simp [hget] at hdir
        | some u =>
            cases u with
            | file content => simp [hget, Tree.isDirectory] at hdir
            | directory es => exact ⟨es, rfl⟩
    next => cases h
  unfold locateParent at h
  dsimp only at h
  split at h
  next => cases h
  next hzero =>
    split at h
    next => cases h
    next hlen =>
      split at h
      next hnil =>
        obtain ⟨hname, hfound, hlast, hdir⟩ := hlast _ h
        exact ⟨hname, hzero, Nat.le_of_not_lt hlen, hlast, hdir, Or.inl ⟨hnil, (Except.ok.inj hfound).symm⟩⟩
      next =>
        obtain ⟨hname, hfound, hlast, hdir⟩ := hlast _ h
        exact ⟨hname, hzero, Nat.le_of_not_lt hlen, hlast, hdir, Or.inr hfound⟩

theorem locateParent_eq_ok {name : Text} (hcur : isAbsolute d.current = true)
    (h : d.locateParent p = .ok (place, name)) :
    name = lastPart p ∧ place = resolve d.current (leadingPart p) ∧
      ∃ es, d.tree.get? place = some (.directory es) := by
  obtain ⟨hname, hparent⟩ := isParentOf_of_locateParent h
  refine ⟨hname, ?_, hparent.isDirectory⟩
  obtain ⟨hnil, rfl⟩ | hfound := hparent.found
  · rw [hnil, resolve_eq_follow hcur]
    exact (follow_nil _).symm
  · exact eq_resolve_of_locate hcur hfound

theorem eq_resolve_of_locateParent {name : Text} (hcur : isAbsolute d.current = true)
    (h : d.locateParent p = .ok (place, name)) (hname : IsName name) :
    place ++ [name] = resolve d.current p := by
  obtain ⟨rfl, rfl, _⟩ := locateParent_eq_ok hcur h
  rw [resolve_eq_follow_lastPart hcur p, follow_name hname]

theorem withoutSlashes_cases (p : Text) :
    p = withoutSlashes p ∨ ∃ v, p = withoutSlashes p ++ slash :: v := by
  have hsplit := List.takeWhile_append_dropWhile (p := (· == slash)) (l := p.reverse)
  have hp : p = withoutSlashes p ++ (p.reverse.takeWhile (· == slash)).reverse := by
    rw [withoutSlashes, ← List.reverse_append, hsplit, List.reverse_reverse]
  cases hs : (p.reverse.takeWhile (· == slash)).reverse with
  | nil =>
      rw [hs, List.append_nil] at hp
      exact Or.inl hp
  | cons b v =>
      have hb : b ∈ p.reverse.takeWhile (· == slash) := by
        rw [← List.mem_reverse, hs]
        exact List.mem_cons_self
      obtain rfl : b = slash := by simpa using List.mem_takeWhile_imp hb
      exact Or.inr ⟨v, hs ▸ hp⟩

theorem lastPart_ne_nil (hp : p ≠ []) (h : withoutSlashes p = p) : lastPart p ≠ [] := by
  intro hnil
  rcases lastPart_cases p with hlast | ⟨u, hlast⟩
  · exact hp (hlast.trans hnil)
  · rw [hnil] at hlast
    rw [hlast, withoutSlashes, List.reverse_append] at h
    have hlen := congrArg List.length h
    simp only [List.reverse_cons, List.reverse_nil, List.nil_append, List.cons_append, List.length_reverse,
      List.length_append, List.length_cons, List.length_nil] at hlen
    rw [List.dropWhile_cons_of_pos (by simp)] at hlen
    have hle := (List.dropWhile_suffix (· == slash) (l := u.reverse)).length_le
    rw [List.length_reverse] at hle
    omega

theorem target_cases {content : Option Content} (h : d.target p = .ok (place, content)) :
    p ≠ [] ∧ IsName (lastPart p) ∧ d.tree.get? place = content.map .file ∧
      ∃ parent, place = parent ++ [lastPart p] ∧ d.locateParent p = .ok (parent, lastPart p) := by
  unfold target at h
  split at h
  next => cases h
  next hne =>
    split at h
    next =>
      obtain ⟨_, _, h⟩ := bind_eq_ok.1 h
      cases h
    next hslashes =>
      obtain ⟨⟨parent, name⟩, hparent, h⟩ := bind_eq_ok.1 h
      dsimp only at h
      split at h
      next => cases h
      next hdots =>
        obtain ⟨rfl, _⟩ := isParentOf_of_locateParent hparent
        obtain ⟨hdot, hdots⟩ := not_or.1 hdots
        have hname : IsName (lastPart p) :=
          ⟨lastPart_ne_nil hne (not_not.1 hslashes), hdot, hdots, slash_not_mem_lastPart p⟩
        refine ⟨hne, hname, ?_⟩
        split at h
        next => cases h
        next content hget =>
          obtain ⟨rfl, rfl⟩ := Prod.mk.inj (Except.ok.inj h)
          exact ⟨hget, parent, rfl, hparent⟩
        next hget =>
          obtain ⟨rfl, rfl⟩ := Prod.mk.inj (Except.ok.inj h)
          exact ⟨hget, parent, rfl, hparent⟩

theorem target_eq_ok {content : Option Content} (hcur : isAbsolute d.current = true)
    (h : d.target p = .ok (place, content)) :
    place = resolve d.current p ∧ d.tree.get? place = content.map .file ∧
      ∃ parent name es, place = parent ++ [name] ∧ d.tree.get? parent = some (.directory es) := by
  obtain ⟨_, hname, hget, parent, rfl, hparent⟩ := target_cases h
  obtain ⟨_, _, es, hdir⟩ := locateParent_eq_ok hcur hparent
  exact ⟨eq_resolve_of_locateParent hcur hparent hname, hget, parent, _, es, rfl, hdir⟩

/-- A place with a file or with nothing. -/
def IsLeaf (d : Disk) (q : List Text) : Prop := ∀ es, d.tree.get? q ≠ some (.directory es)

structure Untouched (q : List Text) (d d' : Disk) : Prop where
  get : d'.tree.get? q = d.tree.get? q
  current : d'.current = d.current

theorem Untouched.refl (q : List Text) (d : Disk) : Untouched q d d := ⟨rfl, rfl⟩

theorem Untouched.trans {d'' : Disk} (h : Untouched q d d') (h' : Untouched q d' d'') : Untouched q d d'' :=
  ⟨h'.get.trans h.get, h'.current.trans h.current⟩

theorem Untouched.isLeaf (h : Untouched q d d') (hq : d.IsLeaf q) : d'.IsLeaf q := by
  intro es
  rw [h.get]
  exact hq es

theorem fill_untouched {old : Option Content} (hcur : isAbsolute d.current = true) (hq : d.IsLeaf q)
    (hne : q ≠ resolve d.current p) (h : d.target p = .ok (place, old)) : Untouched q d (d.fill place content) := by
  obtain ⟨rfl, hold, parent, name, es, hplace, hparent⟩ := target_eq_ok hcur h
  refine ⟨?_, rfl⟩
  rw [fill]
  rw [hplace] at hold hne ⊢
  refine Tree.get?_put_leaf hparent (fun u hu => ?_) rfl hq hne
  rw [hold] at hu
  obtain ⟨c, _, rfl⟩ := Option.map_eq_some_iff.1 hu
  rfl

theorem makeDirectory_untouched (hcur : isAbsolute d.current = true) (hq : d.IsLeaf q)
    (hnames : ∀ n ∈ q, IsName n)
    (hne : IsName (lastPart (withoutSlashes p)) → q ≠ resolve d.current (withoutSlashes p))
    (h : d.makeDirectory p = .ok d') : Untouched q d d' := by
  unfold makeDirectory at h
  obtain ⟨⟨parent, name⟩, hparent, h⟩ := bind_eq_ok.1 h
  dsimp only at h
  split at h
  next => cases h
  next hnone =>
    obtain rfl := Except.ok.inj h
    obtain ⟨rfl, _, es, hdir⟩ := locateParent_eq_ok hcur hparent
    refine ⟨Tree.get?_put_leaf hdir (fun u hu => ?_) rfl hq fun heq => ?_, rfl⟩
    · simp [hu] at hnone
    · have hname : IsName (lastPart (withoutSlashes p)) := hnames _ (by simp [heq])
      exact hne hname (heq.trans (eq_resolve_of_locateParent hcur hparent hname))

theorem ensureDirectory_untouched (hcur : isAbsolute d.current = true) (hq : d.IsLeaf q)
    (hnames : ∀ n ∈ q, IsName n)
    (hne : IsName (lastPart (withoutSlashes p)) → q ≠ resolve d.current (withoutSlashes p))
    (h : d.ensureDirectory p = .ok d') : Untouched q d d' := by
  unfold ensureDirectory at h
  split at h
  next =>
    obtain rfl := Except.ok.inj h
    exact .refl q d
  next => cases h
  next => exact makeDirectory_untouched hcur hq hnames hne (mapError_eq_ok.1 h)

theorem parentText_cases (p : Text) :
    parentText p = [] ∨ ∃ u v, parentText p = u ++ [slash] ∧ p = u ++ slash :: v := by
  have hfirst := List.takeWhile_append_dropWhile (p := (· == slash)) (l := p.reverse)
  have hsecond := List.takeWhile_append_dropWhile (p := (· != slash)) (l := p.reverse.dropWhile (· == slash))
  rw [parentText]
  rcases dropWhile_slash_cases (p.reverse.dropWhile (· == slash)) with hrest | ⟨u, hrest⟩
  · rw [hrest]
    exact Or.inl rfl
  · rw [hrest] at hsecond ⊢
    rw [← hsecond] at hfirst
    have hp := congrArg List.reverse hfirst
    rw [List.reverse_reverse, List.reverse_append, List.reverse_append, List.reverse_cons, List.append_assoc,
      List.append_assoc, List.singleton_append] at hp
    exact Or.inr ⟨u.reverse, _, List.reverse_cons, hp.symm⟩

theorem lineage_cases {fuel : Nat} {u : Text} (h : u ∈ lineage fuel p) :
    u = p ∨ ∃ v w, u = v ++ [slash] ∧ p = v ++ slash :: w := by
  induction fuel generalizing p with
  | zero => simp [lineage] at h
  | succ fuel ih =>
      rw [lineage] at h
      split at h
      next => simp at h
      next =>
        rcases List.mem_append.1 h with h | h
        · right
          rcases parentText_cases p with hnil | ⟨v, w, hparent, hp⟩
          · cases fuel <;> simp [hnil, lineage] at h
          · rcases ih h with rfl | ⟨v', w', rfl, hv'⟩
            · exact ⟨v, w, hparent, hp⟩
            · refine ⟨v', w' ++ w, rfl, ?_⟩
              have hparent' : p = parentText p ++ w := by rw [hparent, List.append_assoc]; exact hp
              rw [hv'] at hparent'
              simpa using hparent'
        · exact Or.inl (List.mem_singleton.1 h)

theorem withoutSlashes_of_mem_lineage {fuel : Nat} {u : Text} (h : u ∈ lineage fuel p) :
    p = withoutSlashes u ∨ ∃ v, p = withoutSlashes u ++ slash :: v := by
  rcases lineage_cases h with rfl | ⟨v, w, rfl, rfl⟩
  · exact withoutSlashes_cases u
  · have hv : withoutSlashes (v ++ [slash]) = withoutSlashes v := by
      rw [withoutSlashes, List.reverse_append, withoutSlashes]
      rfl
    rw [hv]
    rcases withoutSlashes_cases v with hw | ⟨x, hw⟩
    · exact Or.inr ⟨w, by rw [← hw]⟩
    · refine Or.inr ⟨x ++ slash :: w, ?_⟩
      nth_rewrite 1 [hw]
      simp

theorem foldlM_ensureDirectory_eq_ok {ps : List Text} (h : ps.foldlM ensureDirectory d = .ok d') :
    d' = d.madeInTurn ps := by
  induction ps generalizing d with
  | nil => exact (Except.ok.inj h).symm
  | cons p ps ih =>
      rw [List.foldlM_cons] at h
      obtain ⟨d₁, hd₁, h⟩ := bind_eq_ok.1 h
      rw [madeInTurn, hd₁]
      exact ih h

/-- Where all the directories can be made, they are those that an attempt leaves. -/
theorem makeDirectories_eq_ok (h : d.makeDirectories p = .ok d') : d' = d.leftDirectories p :=
  foldlM_ensureDirectory_eq_ok h

theorem madeInTurn_untouched {ps : List Text} (hcur : isAbsolute d.current = true)
    (hq : d.IsLeaf q) (hnames : ∀ n ∈ q, IsName n)
    (hps : ∀ p ∈ ps, IsName (lastPart (withoutSlashes p)) → q ≠ resolve d.current (withoutSlashes p)) :
    Untouched q d (d.madeInTurn ps) := by
  induction ps generalizing d with
  | nil => exact .refl q d
  | cons p ps ih =>
      obtain ⟨hp, hps⟩ := List.forall_mem_cons.1 hps
      rw [madeInTurn]
      split
      next d₁ hd₁ =>
        have hstep := ensureDirectory_untouched hcur hq hnames hp hd₁
        rw [← hstep.current] at hcur hps
        exact hstep.trans (ih hcur (hstep.isLeaf hq) hps)
      next => exact .refl q d

/-- A directory that a clean path passes is not at a place that the path does not pass. -/
theorem ne_resolve_of_mem_lineage {fuel : Nat} {u : Text} (hcur : isAbsolute d.current = true)
    (hway : ¬ q <+: resolve d.current p) (hu : u ∈ lineage fuel (clean p))
    (hname : IsName (lastPart (withoutSlashes u))) : q ≠ resolve d.current (withoutSlashes u) := by
  rintro rfl
  apply hway
  rw [← resolve_clean hcur p]
  rcases withoutSlashes_of_mem_lineage hu with hp | ⟨v, hp⟩
  · rw [← hp]
  · exact prefix_resolve_clean hcur hp (lastPart_mem_splitOn _) hname

/-- Making the directories of a clean path changes no file that is not on the way to its place, however
far it gets. -/
theorem madeInTurn_untouched_of_way {ps : List Text} (hcur : isAbsolute d.current = true) (hq : d.IsLeaf q)
    (hnames : ∀ n ∈ q, IsName n) (hway : ¬ q <+: resolve d.current p) (hps : ps ⊆ ancestry (clean p)) :
    Untouched q d (d.madeInTurn ps) :=
  madeInTurn_untouched hcur hq hnames fun _ hu hname => ne_resolve_of_mem_lineage hcur hway (hps hu) hname

theorem get?_fill (d : Disk) (place : List Text) (content : Content) :
    (d.fill place content).tree.get? place = some (.file content) :=
  Tree.get?_put_self _ _ _

theorem openCache_eq_ok (hcur : isAbsolute d.current = true) (h : d.openCache p = .ok (d', place, c)) :
    place = resolve d.current p ∧ d' = d.saveCache place c ∧
      (c = {} ∨ d.tree.get? place = some (.file (.cache c))) := by
  unfold openCache at h
  split at h
  next => cases h
  next place' content htarget =>
    obtain ⟨hplace, hold, _⟩ := target_eq_ok hcur htarget
    dsimp only at h
    split at h
    next =>
      cases h
      exact ⟨hplace, rfl, Or.inl rfl⟩
    next =>
      cases h
      exact ⟨hplace, rfl, Or.inl rfl⟩
    next =>
      cases h
      exact ⟨hplace, rfl, Or.inr hold⟩
    next => cases h

end Disk

end BuiltinCatalog
