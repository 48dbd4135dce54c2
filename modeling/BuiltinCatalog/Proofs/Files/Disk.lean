import BuiltinCatalog.Files.Disk
import BuiltinCatalog.Proofs.Text.Valid

namespace BuiltinCatalog

namespace Tree

variable {α : Type}

theorem mem_of_lookup {es : List (Text × Tree α)} {name : Text} {t : Tree α}
    (h : es.lookup name = some t) : (name, t) ∈ es := by
  obtain ⟨us, vs, rfl, _⟩ := List.lookup_eq_some_iff.1 h
  simp

theorem visitOf_eq_flatMap (skip : Text → Bool) (path : Text) (es : List (Text × Tree α)) :
    visitOf skip path es = es.flatMap fun e => visitIn skip (child path e.1) e.2 := by
  induction es with
  | nil => rfl
  | cons e es ih => rw [visitOf, ih, List.flatMap_cons]

/-- A walk that skips nothing comes upon all that is in the entries of a directory. -/
theorem visitIn_subset {path name : Text} {t : Tree α} {es : List (Text × Tree α)} (h : (name, t) ∈ es) :
    visitIn (fun _ => false) (child path name) t ⊆ visitIn (fun _ => false) path (.directory es) := by
  intro e he
  rw [visitIn, if_neg Bool.false_ne_true, visitOf_eq_flatMap]
  exact List.mem_cons_of_mem _ (List.mem_flatMap.2 ⟨(name, t), h, he⟩)

theorem get?_cons {t u : Tree α} {name : Text} {rest : List Text} (h : t.get? (name :: rest) = some u) :
    ∃ es c, t = .directory es ∧ (name, c) ∈ es ∧ c.get? rest = some u := by
  rw [get?] at h
  split at h
  next c hc =>
    cases t with
    | file content => simp [entries] at hc
    | directory es => exact ⟨es, c, rfl, mem_of_lookup hc, h⟩
  next => simp at h

theorem get?_concat {t : Tree α} {place : List Text} {es : List (Text × Tree α)} {name : Text}
    (h : t.get? place = some (.directory es)) : t.get? (place ++ [name]) = es.lookup name := by
  induction place generalizing t with
  | nil =>
      obtain rfl : t = .directory es := by simpa [get?] using h
      rw [List.nil_append, get?, entries]
      cases es.lookup name <;> rfl
  | cons n rest ih =>
      rw [get?] at h
      rw [List.cons_append, get?]
      cases hl : t.entries.lookup n with
      | none => simp [hl] at h
      | some c =>
          rw [hl] at h
          exact ih h

theorem mem_visitIn_self (skip : Text → Bool) (path : Text) (t : Tree α) : (path, t) ∈ visitIn skip path t := by
  cases t <;> simp [visitIn]

theorem mem_visitIn_of_get? {t u : Tree α} {place : List Text} (path : Text) (h : t.get? place = some u) :
    ∃ p, (p, u) ∈ visitIn (fun _ => false) path t := by
  induction place generalizing t path with
  | nil =>
      obtain rfl : t = u := by simpa [get?] using h
      exact ⟨path, mem_visitIn_self _ path t⟩
  | cons name rest ih =>
      obtain ⟨es, c, rfl, hc, hget⟩ := get?_cons h
      obtain ⟨p, hp⟩ := ih (child path name) hget
      exact ⟨p, visitIn_subset hc hp⟩

theorem fileAt?_eq_some_iff {e : Text × Tree α} {p : Text} {a : α} :
    fileAt? e = some (p, a) ↔ e = (p, .file a) := by
  obtain ⟨q, t⟩ := e
  cases t <;> simp [fileAt?]

theorem mem_filterMap_fileAt? {es : List (Text × Tree α)} {p : Text} {a : α} :
    (p, a) ∈ es.filterMap fileAt? ↔ (p, .file a) ∈ es := by
  simp [List.mem_filterMap, fileAt?_eq_some_iff]

theorem isUtf8_child {path name s : Text} (h : Text.IsUtf8 (child path name ++ s))
    (hr : ∀ b ∈ s, Text.IsAscii b) : Text.IsUtf8 name := by
  have hc := Text.isUtf8_of_append_ascii hr h
  unfold child at hc
  split at hc
  next => exact hc
  next => exact ((Text.isUtf8_append_cons (by decide)).1 hc).2

theorem isUtf8_of_get? {t u : Tree α} {place : List Text} (path : Text)
    (ht : ∀ p ∈ pathsIn path t, Text.IsUtf8 p) (h : t.get? place = some u) :
    ∀ name ∈ place, Text.IsUtf8 name := by
  induction place generalizing t path with
  | nil => simp
  | cons name rest ih =>
      obtain ⟨es, c, rfl, hc, hget⟩ := get?_cons h
      have hbelow : ∀ p ∈ pathsIn (child path name) c, Text.IsUtf8 p := by
        intro p hp
        exact ht p (List.map_subset pathOf (visitIn_subset hc) hp)
      have hself := hbelow _ (List.mem_map_of_mem (mem_visitIn_self _ (child path name) c))
      have hname : Text.IsUtf8 name := by
        cases c with
        | file a => exact isUtf8_child (s := []) (by simpa [pathOf, isDirectory] using hself) (by simp)
        | directory cs => exact isUtf8_child hself (Text.isAscii_of_all (by decide))
      intro n hn
      rcases List.mem_cons.1 hn with rfl | hn
      · exact hname
      · exact ih (child path name) hbelow hget n hn

end Tree

namespace Disk

def contents (d : Disk) : List Text := (Tree.filesIn (fun _ => false) [] d.tree).map (·.2.bytes)

structure IsUtf8 (d : Disk) : Prop where
  paths : ∀ p ∈ Tree.pathsIn [] d.tree, Text.IsUtf8 p
  contents : ∀ t ∈ d.contents, Text.IsUtf8 t

theorem read_eq_ok_iff {d : Disk} {p t : Text} :
    d.read p = .ok t ↔ ∃ place content, d.locate p = .ok place ∧
      d.tree.get? place = some (.file content) ∧ t = content.bytes := by
  unfold read look
  cases hl : d.locate p with
  | error e => simp
  | ok place =>
      cases hg : d.tree.get? place with
      | none => simp [hg]
      | some u => cases u <;> simp [hg, eq_comm]

theorem mem_contents_of_read {d : Disk} {p t : Text} (h : d.read p = .ok t) : t ∈ d.contents := by
  obtain ⟨place, content, _, hg, rfl⟩ := read_eq_ok_iff.1 h
  obtain ⟨q, hq⟩ := Tree.mem_visitIn_of_get? [] hg
  exact List.mem_map.2 ⟨(q, content), Tree.mem_filterMap_fileAt?.2 hq, rfl⟩

/-- A component that can be entered is a name in the tree, or one of the few with a meaning of its own. -/
theorem isUtf8_of_enter {t : Tree Content} {place place' : List Text} {c : Text}
    (ht : ∀ p ∈ Tree.pathsIn [] t, Text.IsUtf8 p) (h : enter t place c = .ok place') : Text.IsUtf8 c := by
  unfold enter at h
  split at h
  next es hes =>
    split at h
    next hc =>
      rcases hc with rfl | rfl
      · exact Text.isUtf8_nil
      · exact Text.isUtf8_ascii (Text.isAscii_of_all (by decide))
    next =>
      split at h
      next hc => exact hc ▸ Text.isUtf8_ascii (Text.isAscii_of_all (by decide))
      next =>
        split at h
        next => cases h
        next =>
          split at h
          next hl =>
            obtain ⟨u, hu⟩ := Option.isSome_iff_exists.1 hl
            have hget : t.get? (place.reverse ++ [c]) = some u := (Tree.get?_concat hes).trans hu
            exact Tree.isUtf8_of_get? [] ht hget c (by simp)
          next => cases h
  next => cases h

theorem isUtf8_of_foldlM_enter {t : Tree Content} (ht : ∀ p ∈ Tree.pathsIn [] t, Text.IsUtf8 p)
    {cs place place' : List Text} (h : cs.foldlM (enter t) place = .ok place') :
    ∀ c ∈ cs, Text.IsUtf8 c := by
  induction cs generalizing place with
  | nil => simp
  | cons c cs ih =>
      rw [List.foldlM_cons] at h
      cases he : enter t place c with
      | error e => simp [he, bind, Except.bind] at h
      | ok next =>
          rw [he] at h
          intro d hd
          rcases List.mem_cons.1 hd with rfl | hd
          · exact isUtf8_of_enter ht he
          · exact ih h d hd

theorem locate_eq_ok {d : Disk} {p : Text} {place : List Text} (h : d.locate p = .ok place) :
    p ≠ [] ∧ p.length ≤ maxPath ∧
      (p.splitOn Path.slash).foldlM (enter d.tree)
        (if Path.isAbsolute p then [] else Path.components d.current).reverse = .ok place.reverse := by
  unfold locate at h
  split at h
  next => cases h
  next hne =>
    split at h
    next => cases h
    next =>
      split at h
      next => cases h
      next hlen =>
        dsimp only at h
        generalize (if Path.isAbsolute p then [] else Path.components d.current).reverse = start at h ⊢
        refine ⟨hne, Nat.le_of_not_lt hlen, ?_⟩
        cases hf : (p.splitOn Path.slash).foldlM (enter d.tree) start with
        | error e => simp [hf, Except.map] at h
        | ok stop =>
            rw [hf] at h
            obtain rfl := Except.ok.inj h
            rw [List.reverse_reverse]

theorem length_of_read {d : Disk} {p t : Text} (h : d.read p = .ok t) : p ≠ [] ∧ p.length ≤ maxPath := by
  obtain ⟨place, content, hl, _, _⟩ := read_eq_ok_iff.1 h
  obtain ⟨hne, hlen, _⟩ := locate_eq_ok hl
  exact ⟨hne, hlen⟩

theorem IsUtf8.of_read {d : Disk} {p t : Text} (hd : d.IsUtf8) (h : d.read p = .ok t) :
    Text.IsUtf8 p ∧ Text.IsUtf8 t := by
  refine ⟨?_, hd.contents t (mem_contents_of_read h)⟩
  obtain ⟨place, content, hl, _, _⟩ := read_eq_ok_iff.1 h
  obtain ⟨_, _, hf⟩ := locate_eq_ok hl
  have hp := Text.isUtf8_intercalate (Text.isUtf8_byte (b := Path.slash) (by decide)) (isUtf8_of_foldlM_enter hd.paths hf)
  rwa [List.intercalate_splitOn] at hp

end Disk

end BuiltinCatalog
