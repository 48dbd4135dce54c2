import BuiltinCatalog.Proofs.Extraction.Keeps
import Mathlib.Data.List.Nodup

namespace BuiltinCatalog.Extraction

variable {d : Disk} {r : Request} {s s' : State} {c c' : Cache} {path : Text} {total : Nat} {files : List Text}
  {x x' : Expansion}

theorem nodup_addFiles (h : x.files.Nodup) (paths : List Text) : (x.addFiles paths).files.Nodup := by
  rw [Expansion.addFiles]
  generalize x.files = fs at h
  induction paths generalizing fs with
  | nil => exact h
  | cons p paths ih =>
      rw [List.foldl_cons]
      split
      next => exact ih fs h
      next hp =>
        refine ih (fs ++ [p]) (List.nodup_append.2 ⟨h, List.nodup_singleton p, ?_⟩)
        rintro a ha b hb rfl
        obtain rfl := List.mem_singleton.1 hb
        exact hp (by simpa using ha)

theorem expandPath_eq_ok (h : expandPath d r x path = .ok x') :
    ∃ roots found, x' = Expansion.addFiles ⟨x.files, x.roots ++ roots⟩ found ∧ ∀ root ∈ roots, root ≠ [] := by
  simp only [expandPath] at h
  split at h
  next => cases h
  next => exact ⟨[], [Path.absolute d.current path], by simpa using (Except.ok.inj h).symm, by simp⟩
  next es hlook =>
    obtain ⟨found, _, h⟩ := bind_eq_ok.1 h
    refine ⟨[Path.absolute d.current path], found.map FoundFile.path, (Except.ok.inj h).symm, ?_⟩
    rintro root hroot rfl
    rw [← List.mem_singleton.1 hroot] at hlook
    cases hlook

structure Expansion.IsProper (x : Expansion) : Prop where
  nodup : x.files.Nodup
  roots : ∀ root ∈ x.roots, root ≠ []

theorem isProper_expandPath (hx : x.IsProper) (h : expandPath d r x path = .ok x') : x'.IsProper := by
  obtain ⟨roots, found, rfl, hroots⟩ := expandPath_eq_ok h
  refine ⟨nodup_addFiles (x := ⟨x.files, _⟩) hx.nodup found, fun root hroot => ?_⟩
  rcases List.mem_append.1 hroot with hroot | hroot
  · exact hx.roots root hroot
  · exact hroots root hroot

theorem isProper_expand (h : expand d r = .ok x) : x.IsProper := by
  have hfold : ∀ (paths : List Text) (y : Expansion), y.IsProper → paths.foldlM (expandPath d r) y = .ok x →
      x.IsProper := by
    intro paths
    induction paths with
    | nil =>
        intro y hy h
        exact Except.ok.inj h ▸ hy
    | cons p paths ih =>
        intro y hy h
        obtain ⟨z, hz, h⟩ := bind_eq_ok.1 h
        exact ih z (isProper_expandPath hy hz) h
  exact hfold r.paths {} ⟨List.nodup_nil, by simp⟩ h

theorem extractFiles_cons_eq_none (h : extractFiles d r total s (path :: files) = (s', none)) :
    ∃ s₁, extractFile d r s path = (s₁, none) ∧ extractFiles d r total (s₁.report total path) files = (s', none) := by
  rw [extractFiles] at h
  split at h
  next => cases h
  next s₁ hstep => exact ⟨s₁, hstep, h⟩

theorem extractFiles_eq_some {e : Failure} (h : extractFiles d r total s files = (s', some e)) :
    ∃ done path rest s₁, files = done ++ path :: rest ∧ extractFiles d r total s done = (s₁, none) ∧
      extractFile d r s₁ path = (s', some e) := by
  induction files generalizing s with
  | nil => cases h
  | cons path files ih =>
      rw [extractFiles] at h
      split at h
      next s₁ e' hstep =>
        obtain ⟨rfl, he⟩ := Prod.mk.inj h
        obtain rfl := Option.some.inj he
        exact ⟨[], path, files, s, rfl, rfl, hstep⟩
      next s₁ hstep =>
        obtain ⟨done, p, rest, s₂, rfl, hdone, hp⟩ := ih h
        refine ⟨path :: done, p, rest, s₂, rfl, ?_, hp⟩
        rw [extractFiles, hstep]
        exact hdone

theorem FileStep.progress_eq {o : Option Failure} (h : FileStep d r s path s' o) : s'.progress = s.progress := by
  cases h with
  | failed cache progress stops => exact progress
  | hit | miss => rfl

def reports (total : Nat) (files : List Text) : List Progress :=
  files.mapIdx fun i path => ⟨i + 1, total, path⟩

theorem progress_of_files (h : extractFiles d r total s files = (s', none)) :
    s'.progress = s.progress ++ files.mapIdx fun i path => ⟨s.progress.length + i + 1, total, path⟩ := by
  induction files generalizing s with
  | nil =>
      obtain ⟨rfl, -⟩ := Prod.mk.inj h
      simp
  | cons path files ih =>
      obtain ⟨s₁, hstep, h⟩ := extractFiles_cons_eq_none h
      have hshift : (fun i p => (⟨s.progress.length + 1 + i + 1, total, p⟩ : Progress)) =
          fun i p => ⟨s.progress.length + (i + 1) + 1, total, p⟩ := by
        funext i p
        rw [Nat.add_assoc s.progress.length, Nat.add_comm 1 i]
      rw [ih h, State.report, (step_of_eq hstep).progress_eq, List.length_append, List.length_singleton, hshift,
        List.mapIdx_cons, List.append_assoc, List.singleton_append, Nat.add_zero]

theorem count_of_files (h : extractFiles d r total s files = (s', none)) :
    s'.parsed + s'.cached = s.parsed + s.cached + files.length := by
  induction files generalizing s with
  | nil =>
      obtain ⟨rfl, -⟩ := Prod.mk.inj h
      rfl
  | cons path files ih =>
      obtain ⟨s₁, hstep, h⟩ := extractFiles_cons_eq_none h
      have hone : s₁.parsed + s₁.cached = s.parsed + s.cached + 1 := by
        cases step_of_eq hstep with
        | hit => rw [reuse, Nat.add_assoc]
        | miss => exact Nat.add_right_comm ..
      have hrest := ih h
      rw [State.report] at hrest
      rw [hrest, hone, List.length_cons]
      omega

theorem isCurrent_congr (h : c'.objects.lookup path = c.objects.lookup path) :
    IsCurrent d r c' path ↔ IsCurrent d r c path := by
  rw [IsCurrent, IsCurrent, Cache.get?_congr h]

/-- What stands in the cache for a file once a run has passed it: the entry from before if it is current,
and else a fresh one for what the file parses to. -/
inductive EntryAfter (d : Disk) (r : Request) (c : Cache) (path : Text) : Option Text → Prop
  | reused (current : IsCurrent d r c path) : EntryAfter d r c path (c.objects.lookup path)
  | stored {text : Text} {o : BuiltinObject} {ls : List Text} (outdated : ¬ IsCurrent d r c path)
      (read : d.read path = .ok text) (parsed : Collection.readFile path text = .ok (o, ls)) :
      EntryAfter d r c path (some ((freshEntry r text o ls).text r.dialect))

/-- What a run leaves in a cache once it has passed some files and erased some of the other entries. -/
structure Left (d : Disk) (r : Request) (files : List Text) (out : Text → Prop) (c c' : Cache) : Prop where
  version : c'.version = c.version
  configHash : c'.configHash = c.configHash
  file : ∀ p ∈ files, EntryAfter d r c p (c'.objects.lookup p)
  erased : ∀ p ∉ files, out p → c'.objects.lookup p = none
  kept : ∀ p ∉ files, ¬ out p → c'.objects.lookup p = c.objects.lookup p

def NoPath : Text → Prop := fun _ => False

theorem EntryAfter.congr {cell : Option Text} (h : c'.objects.lookup path = c.objects.lookup path)
    (he : EntryAfter d r c' path cell) : EntryAfter d r c path cell := by
  cases he with
  | reused current =>
      rw [h]
      exact .reused ((isCurrent_congr h).1 current)
  | stored outdated read parsed => exact .stored (mt (isCurrent_congr h).2 outdated) read parsed

theorem left_nil (c : Cache) : Left d r [] NoPath c c where
  version := rfl
  configHash := rfl
  file := by simp
  erased _ _ h := h.elim
  kept _ _ _ := rfl

theorem Left.kept_of_ne {q : Text} (h : Left d r [path] NoPath c c') (hne : q ≠ path) :
    c'.objects.lookup q = c.objects.lookup q :=
  h.kept q (by simpa using hne) not_false

theorem Left.cons {c₁ : Cache} (h₁ : Left d r [path] NoPath c c₁) (h : Left d r files NoPath c₁ c')
    (hpath : path ∉ files) : Left d r (path :: files) NoPath c c' where
  version := h.version.trans h₁.version
  configHash := h.configHash.trans h₁.configHash
  file p hp := by
    by_cases hne : p = path
    · subst hne
      rw [h.kept p hpath not_false]
      exact h₁.file p (by simp)
    · exact (h.file p ((List.mem_cons.1 hp).resolve_left hne)).congr (h₁.kept_of_ne hne)
  erased _ _ h := h.elim
  kept p hp _ := by
    obtain ⟨hne, hp⟩ := not_or.1 (mt List.mem_cons.2 hp)
    exact (h.kept p hp not_false).trans (h₁.kept_of_ne hne)

theorem FileStep.left (hc : s.cache = some c) (h : FileStep d r s path s' none) :
    ∃ c', s'.cache = some c' ∧ Left d r [path] NoPath c c' ∧
      ∀ keep : Text → Bool, keep path = false → c'.paths.filter keep = c.paths.filter keep := by
  cases h with
  | hit read found hash framework =>
      have hcurrent : IsCurrent d r c path :=
        ⟨_, _, read_of_readText read, ((lookup_eq_ok_iff hc).1 found).2, hash, framework⟩
      refine ⟨c, hc, ⟨rfl, rfl, ?_, fun _ _ h => h.elim, fun _ _ _ => rfl⟩, fun _ _ => rfl⟩
      intro p hp
      obtain rfl := List.mem_singleton.1 hp
      exact .reused hcurrent
  | miss read parsed stored found unusable =>
      have houtdated := not_isCurrent_of_reusable? read found unusable hc
      obtain ⟨c', rfl, hput⟩ := put_of_store hc stored
      obtain rfl := Cache.put_eq_ok hput
      refine ⟨_, rfl, ⟨rfl, rfl, ?_, fun _ _ h => h.elim, ?_⟩, fun keep hkeep => ?_⟩
      · intro p hp
        obtain rfl := List.mem_singleton.1 hp
        rw [Keyed.lookup_insert, if_pos rfl]
        exact .stored houtdated (read_of_readText read) parsed
      · intro p hp _
        rw [Keyed.lookup_insert, if_neg (by simpa using hp)]
      · exact Keyed.filter_keys_insert hkeep _ _

theorem files_left (hc : s.cache = some c) (hnodup : files.Nodup)
    (h : extractFiles d r total s files = (s', none)) :
    ∃ c', s'.cache = some c' ∧ Left d r files NoPath c c' ∧
      ∀ keep : Text → Bool, (∀ p ∈ files, keep p = false) → c'.paths.filter keep = c.paths.filter keep := by
  induction files generalizing s c with
  | nil =>
      obtain ⟨rfl, -⟩ := Prod.mk.inj h
      exact ⟨c, hc, left_nil c, fun _ _ => rfl⟩
  | cons path files ih =>
      obtain ⟨hpath, hnodup⟩ := List.nodup_cons.1 hnodup
      obtain ⟨s₁, hstep, h⟩ := extractFiles_cons_eq_none h
      obtain ⟨c₁, hc₁, hleft₁, hkeys₁⟩ := (step_of_eq hstep).left hc
      obtain ⟨c', hc', hleft, hkeys⟩ := ih (s := s₁.report total path) hc₁ hnodup h
      refine ⟨c', hc', hleft₁.cons hleft hpath, fun keep hkeep => ?_⟩
      rw [hkeys keep fun p hp => hkeep p (by simp [hp]), hkeys₁ keep (hkeep path (by simp))]

end BuiltinCatalog.Extraction
