import BuiltinCatalog.Files.Walk
import BuiltinCatalog.Proofs.Files.Disk
import BuiltinCatalog.Proofs.Files.Path
import BuiltinCatalog.Proofs.Text.Order
import Mathlib.Data.List.Nodup

namespace BuiltinCatalog

open BuiltinCatalog.Path

namespace Tree

variable {α : Type} {t u : Tree α} {es : List (Text × Tree α)} {skip : Text → Bool} {place base : List Text}
  {p n : Text} {a : α}

/-- The entries of every directory have names, and no two the same. -/
inductive Regular : Tree α → Prop
  | file (a : α) : Regular (.file a)
  | directory (es : List (Text × Tree α)) (names : ∀ e ∈ es, IsName e.1) (nodup : (es.map (·.1)).Nodup)
      (below : ∀ e ∈ es, Regular e.2) : Regular (.directory es)

theorem Regular.isName (h : t.Regular) (hget : t.get? place = some u) : ∀ n ∈ place, IsName n := by
  induction place generalizing t with
  | nil => simp
  | cons n place ih =>
      obtain ⟨es, c, rfl, hc, hget⟩ := get?_cons hget
      cases h with
      | directory es names nodup below =>
          exact List.forall_mem_cons.2 ⟨names _ hc, ih (below _ hc) hget⟩

theorem lookup_of_mem (hnodup : (es.map (·.1)).Nodup) (h : (n, t) ∈ es) : es.lookup n = some t := by
  induction es with
  | nil => simp at h
  | cons e es ih =>
      obtain ⟨m, v⟩ := e
      obtain ⟨hm, hnodup⟩ := List.nodup_cons.1 hnodup
      rw [Keyed.lookup_cons]
      rcases List.mem_cons.1 h with heq | hmem
      · obtain ⟨rfl, rfl⟩ := Prod.mk.inj heq
        rw [if_pos rfl]
      · have hne : n ≠ m := fun heq => hm (heq ▸ List.mem_map.2 ⟨_, hmem, rfl⟩)
        rw [if_neg hne, ih hnodup hmem]

/-- The path of a place, from where its first component is an entry. -/
def relative (place : List Text) : Text := place.foldl child []

theorem relative_concat (place : List Text) (n : Text) : relative (place ++ [n]) = child (relative place) n := by
  rw [relative, List.foldl_append]
  rfl

theorem follow_relative (start : List Text) (h : ∀ n ∈ place, IsName n) :
    follow start (relative place) = start ++ place := by
  induction place using List.reverseRecOn with
  | nil => exact (follow_nil start).trans (List.append_nil start).symm
  | append_singleton place n ih =>
      obtain ⟨hplace, hn⟩ := List.forall_mem_append.1 h
      have hname : IsName n := hn n (List.mem_singleton_self n)
      have hbefore := ih hplace
      rw [relative_concat, child]
      split
      next hempty =>
        rw [List.isEmpty_iff.1 hempty, follow_nil] at hbefore
        obtain rfl : place = [] := List.self_eq_append_right.1 hbefore
        exact follow_name hname
      next => rw [follow_append, hbefore, follow_name hname, List.append_assoc]

theorem relative_inj {place' : List Text} (h : ∀ n ∈ place, IsName n) (h' : ∀ n ∈ place', IsName n)
    (heq : relative place = relative place') : place = place' := by
  have hplace := follow_relative [] h
  rw [heq, follow_relative [] h'] at hplace
  exact hplace.symm

/-- No directory on the way to a place is skipped; the way starts with the directory at `base`. -/
def IsOpen (skip : Text → Bool) (base place : List Text) : Prop :=
  ∀ above, above <+: place → above ≠ place → skip (relative (base ++ above) ++ [slash]) = false

theorem isOpen_nil (skip : Text → Bool) (base : List Text) : IsOpen skip base [] :=
  fun _ hprefix hne => absurd (List.prefix_nil.1 hprefix) hne

theorem isOpen_cons :
    IsOpen skip base (n :: place) ↔
      skip (relative base ++ [slash]) = false ∧ IsOpen skip (base ++ [n]) place := by
  constructor
  · intro h
    refine ⟨by simpa using h [] List.nil_prefix (by simp), fun above hprefix hne => ?_⟩
    have hcons := h (n :: above) ((List.prefix_cons_inj n).2 hprefix) (by simpa using hne)
    simpa using hcons
  · rintro ⟨hbase, h⟩ above hprefix hne
    cases above with
    | nil => simpa using hbase
    | cons m above =>
        obtain ⟨rfl, hbelow⟩ := List.cons_prefix_cons.1 hprefix
        simpa using h above hbelow (by simpa using hne)

theorem mem_visitOf (nodup : (es.map (·.1)).Nodup)
    (h : ∀ e ∈ es, (p, u) ∈ visitIn skip (relative (base ++ [e.1])) e.2 ↔ ∃ place,
      e.2.get? place = some u ∧ p = relative (base ++ [e.1] ++ place) ∧ IsOpen skip (base ++ [e.1]) place) :
    (p, u) ∈ visitOf skip (relative base) es ↔ ∃ n place, (directory es).get? (n :: place) = some u ∧
      p = relative (base ++ n :: place) ∧ IsOpen skip (base ++ [n]) place := by
  rw [visitOf_eq_flatMap, List.mem_flatMap]
  constructor
  · rintro ⟨⟨n, c⟩, hc, hmem⟩
    rw [← relative_concat, h _ hc] at hmem
    obtain ⟨place, hget, rfl, hopen⟩ := hmem
    refine ⟨n, place, ?_, by simp, hopen⟩
    rw [get?, entries, lookup_of_mem nodup hc]
    exact hget
  · rintro ⟨n, place, hget, rfl, hopen⟩
    obtain ⟨es', c, hdir, hc, hget⟩ := get?_cons hget
    cases hdir
    refine ⟨(n, c), hc, ?_⟩
    rw [← relative_concat, h _ hc]
    exact ⟨place, hget, by simp, hopen⟩

theorem mem_visitIn_iff (h : t.Regular) :
    (p, u) ∈ visitIn skip (relative base) t ↔ ∃ place, t.get? place = some u ∧
      p = relative (base ++ place) ∧ IsOpen skip base place := by
  induction h generalizing base with
  | file b =>
      rw [visitIn, List.mem_singleton, Prod.mk.injEq]
      constructor
      · rintro ⟨rfl, rfl⟩
        exact ⟨[], rfl, by rw [List.append_nil], isOpen_nil skip base⟩
      · rintro ⟨place, hget, rfl, -⟩
        cases place with
        | nil => exact ⟨by rw [List.append_nil], (Option.some.inj hget).symm⟩
        | cons n place =>
            obtain ⟨es, c, hdir, -, -⟩ := get?_cons hget
            cases hdir
  | directory es names nodup below ih =>
      have hbelow : (p, u) ∈ visitOf skip (relative base) es ↔ _ := mem_visitOf nodup fun e he => ih e he
      rw [visitIn, List.mem_cons, Prod.mk.injEq]
      constructor
      · rintro (⟨rfl, rfl⟩ | hmem)
        · exact ⟨[], rfl, by rw [List.append_nil], isOpen_nil skip base⟩
        · split at hmem
          next => cases hmem
          next hskip =>
            obtain ⟨n, place, hget, rfl, hopen⟩ := hbelow.1 hmem
            exact ⟨n :: place, hget, rfl, isOpen_cons.2 ⟨by simpa using hskip, hopen⟩⟩
      · rintro ⟨place, hget, rfl, hopen⟩
        cases place with
        | nil => exact Or.inl ⟨by rw [List.append_nil], (Option.some.inj hget).symm⟩
        | cons n place =>
            obtain ⟨hskip, hopen⟩ := isOpen_cons.1 hopen
            rw [if_neg (by simpa using hskip)]
            exact Or.inr (hbelow.2 ⟨n, place, hget, rfl, hopen⟩)

theorem exists_place_of_mem {f : Text × Tree α} (h : t.Regular) (hbase : ∀ m ∈ base, IsName m) (hn : IsName n)
    (hf : f ∈ visitIn skip (child (relative base) n) t) :
    ∃ place, f.1 = relative (base ++ n :: place) ∧ ∀ m ∈ base ++ n :: place, IsName m := by
  obtain ⟨q, b⟩ := f
  rw [← relative_concat, mem_visitIn_iff h] at hf
  obtain ⟨place, hget, rfl, -⟩ := hf
  rw [List.append_assoc, List.singleton_append]
  exact ⟨place, rfl, List.forall_mem_append.2 ⟨hbase, List.forall_mem_cons.2 ⟨hn, h.isName hget⟩⟩⟩

theorem nodup_visitOf (hbase : ∀ n ∈ base, IsName n) (names : ∀ e ∈ es, IsName e.1)
    (nodup : (es.map (·.1)).Nodup) (below : ∀ e ∈ es, e.2.Regular)
    (h : ∀ e ∈ es, ((visitIn skip (relative (base ++ [e.1])) e.2).map (·.1)).Nodup) :
    ((visitOf skip (relative base) es).map (·.1)).Nodup := by
  rw [visitOf_eq_flatMap, List.map_flatMap, List.nodup_flatMap]
  constructor
  · intro e he
    rw [← relative_concat]
    exact h e he
  · rw [List.Nodup, List.pairwise_map] at nodup
    refine nodup.imp_of_mem fun {e e'} he he' hne => ?_
    intro q hq hq'
    obtain ⟨f, hf, rfl⟩ := List.mem_map.1 hq
    obtain ⟨f', hf', heq⟩ := List.mem_map.1 hq'
    obtain ⟨place, hplace, hnames⟩ := exists_place_of_mem (below e he) hbase (names e he) hf
    obtain ⟨place', hplace', hnames'⟩ := exists_place_of_mem (below e' he') hbase (names e' he') hf'
    rw [hplace, hplace'] at heq
    have hsame := relative_inj hnames' hnames heq
    rw [List.append_cancel_left_eq] at hsame
    exact hne (List.cons.inj hsame).1.symm

theorem nodup_visitIn (h : t.Regular) (hbase : ∀ n ∈ base, IsName n) :
    ((visitIn skip (relative base) t).map (·.1)).Nodup := by
  induction h generalizing base with
  | file b => simp [visitIn]
  | directory es names nodup below ih =>
      rw [visitIn, List.map_cons, List.nodup_cons]
      split
      next => exact ⟨List.not_mem_nil, List.nodup_nil⟩
      next =>
        constructor
        · intro hmem
          obtain ⟨f, hf, heq⟩ := List.mem_map.1 hmem
          rw [visitOf_eq_flatMap] at hf
          obtain ⟨e, he, hf⟩ := List.mem_flatMap.1 hf
          obtain ⟨place, hplace, hnames⟩ := exists_place_of_mem (below e he) hbase (names e he) hf
          rw [hplace] at heq
          have hsame := relative_inj hnames hbase heq
          simp at hsame
        · refine nodup_visitOf hbase names nodup below fun e he => ih e he ?_
          exact List.forall_mem_append.2 ⟨hbase, List.forall_mem_singleton.2 (names e he)⟩

theorem map_fst_fileAt?_sublist (entries : List (Text × Tree α)) :
    ((entries.filterMap fileAt?).map (·.1)).Sublist (entries.map (·.1)) := by
  induction entries with
  | nil => exact List.Sublist.refl _
  | cons e entries ih =>
      obtain ⟨p, t⟩ := e
      cases t with
      | file a => exact ih.cons_cons p
      | directory es => exact ih.cons p

end Tree

namespace Selection

open BuiltinCatalog.Tree (relative)

variable {s : Selection} {place : List Text}

/-- Some directory on the way to a place is excluded, as its path with a slash after it matches. -/
def Shuts (s : Selection) (place : List Text) : Prop :=
  ∃ above, above ≠ [] ∧ above <+: place ∧ above ≠ place ∧ s.excluded (relative above ++ [slash]) = true

theorem isOpen_iff_not_shuts {n : Text} : Tree.IsOpen s.excluded [n] place ↔ ¬ s.Shuts (n :: place) := by
  constructor
  · rintro hopen ⟨above, hne, hprefix, hproper, hexcluded⟩
    obtain ⟨m, above, rfl⟩ := List.exists_cons_of_ne_nil hne
    obtain ⟨rfl, hbelow⟩ := List.cons_prefix_cons.1 hprefix
    have hclear := hopen above hbelow (by simpa using hproper)
    exact absurd hexcluded (by simpa using hclear)
  · intro hopen above hprefix hproper
    by_contra hexcluded
    exact hopen ⟨n :: above, by simp, (List.prefix_cons_inj n).2 hprefix, by simpa using hproper,
      by simpa using hexcluded⟩

end Selection

namespace Tree

variable {s : Selection} {es : List (Text × Tree Content)} {p : Text} {content : Content}

theorem mem_visited_iff {u : Tree Content} (h : (directory es).Regular) :
    (p, u) ∈ visited s (.directory es) ↔ ∃ place, place ≠ [] ∧ (directory es).get? place = some u ∧
      p = relative place ∧ ¬ s.Shuts place := by
  cases h with
  | directory es names nodup below =>
      have hmem : (p, u) ∈ visitOf s.excluded (relative []) es ↔ _ :=
        mem_visitOf nodup fun e he => mem_visitIn_iff (below e he)
      rw [visited, show visitOf s.excluded [] es = visitOf s.excluded (relative []) es from rfl, hmem]
      constructor
      · rintro ⟨n, place, hget, hp, hopen⟩
        exact ⟨n :: place, by simp, hget, hp, Selection.isOpen_iff_not_shuts.1 hopen⟩
      · rintro ⟨place, hne, hget, hp, hopen⟩
        obtain ⟨n, place, rfl⟩ := List.exists_cons_of_ne_nil hne
        exact ⟨n, place, hget, hp, Selection.isOpen_iff_not_shuts.2 hopen⟩

theorem mem_select_iff (h : (directory es).Regular) :
    (p, content) ∈ select s (.directory es) ↔ ∃ place, (directory es).get? place = some (.file content) ∧
      p = relative place ∧ s.wants p = true ∧ ¬ s.Shuts place := by
  rw [select, List.mem_filter, mem_filterMap_fileAt?, mem_visited_iff h]
  constructor
  · rintro ⟨⟨place, -, hget, hp, hopen⟩, hwants⟩
    exact ⟨place, hget, hp, hwants, hopen⟩
  · rintro ⟨place, hget, hp, hwants, hopen⟩
    refine ⟨⟨place, ?_, hget, hp, hopen⟩, hwants⟩
    rintro rfl
    simp [get?] at hget

theorem nodup_select (h : (directory es).Regular) : ((select s (.directory es)).map (·.1)).Nodup := by
  cases h with
  | directory es names nodup below =>
      have hvisited : ((visitOf s.excluded (relative []) es).map (·.1)).Nodup :=
        nodup_visitOf (by simp) names nodup below fun e he =>
          nodup_visitIn (below e he) (List.forall_mem_singleton.2 (names e he))
      exact hvisited.sublist ((List.filter_sublist.map _).trans (map_fst_fileAt?_sublist _))

end Tree

namespace FoundFile

theorem sorted_sort (files : List FoundFile) : (sort files).Pairwise fun f g => f.path ≤ g.path := by
  have hsorted : (sort files).Pairwise fun f g => (!decide (g.path < f.path)) = true := by
    refine List.pairwise_mergeSort (fun f g k hfg hgk => ?_) (fun f g => ?_) files
    · rw [Bool.not_eq_true', decide_eq_false_iff_not] at hfg hgk ⊢
      exact List.le_trans hfg hgk
    · rw [Bool.or_eq_true, Bool.not_eq_true', Bool.not_eq_true', decide_eq_false_iff_not, decide_eq_false_iff_not]
      exact List.le_total f.path g.path
  refine hsorted.imp fun hle => ?_
  rwa [Bool.not_eq_true', decide_eq_false_iff_not] at hle

theorem pairwise_sort {files : List FoundFile} (h : files.Pairwise fun f g => f.path ≠ g.path) :
    (sort files).Pairwise fun f g => f.path < g.path := by
  have hdistinct : (sort files).Pairwise fun f g => f.path ≠ g.path :=
    ((List.mergeSort_perm files _).pairwise_iff fun hne => hne.symm).2 h
  exact (sorted_sort files).imp₂ (fun f g hle hne => Std.lt_of_le_of_ne hle hne) hdistinct

end FoundFile

namespace Disk

open BuiltinCatalog.Tree (relative)

theorem join_relative_inj {root : Text} {place place' : List Text} (hroot : isAbsolute root = true)
    (h : ∀ n ∈ place, IsName n) (h' : ∀ n ∈ place', IsName n)
    (heq : join [root, relative place] = join [root, relative place']) : place = place' := by
  have hne := ne_nil_of_isAbsolute hroot
  have hcomponents (place : List Text) (h : ∀ n ∈ place, IsName n) :
      components (join [root, relative place]) = components root ++ place := by
    have habs : isAbsolute (root ++ slash :: relative place) = true := by rw [isAbsolute_append hne, hroot]
    rw [join_pair hne, components_eq_follow (by rw [isAbsolute_clean, habs]), follow_clean fun _ => rfl,
      follow_append, Tree.follow_relative _ h, components_eq_follow hroot]
  have hsame := hcomponents place h
  rw [heq, hcomponents place' h', List.append_cancel_left_eq] at hsame
  exact hsame.symm

variable {d : Disk} {s : Selection} {root : Text} {es : List (Text × Tree Content)}

/-- No path that a walk comes upon is too long to be looked at. -/
def WithinReach (s : Selection) (root : Text) (t : Tree Content) : Prop :=
  ∀ place u, place ≠ [] → t.get? place = some u → ¬ s.Shuts place → (join [root, relative place]).length ≤ maxPath

theorem walk_of_reach (hregular : (Tree.directory es).Regular)
    (hroot : d.look "lstat" (absolute d.current root) = .ok (.directory es))
    (hreach : WithinReach s (absolute d.current root) (.directory es)) :
    d.walk s root =
      .ok (FoundFile.sort ((Tree.select s (.directory es)).map (FoundFile.below (absolute d.current root)))) := by
  have hshort : ((Tree.visited s (.directory es)).map fun e => join [absolute d.current root, e.1]).find?
      (fun p => maxPath < p.length) = none := by
    rw [List.find?_eq_none]
    intro p hp
    obtain ⟨⟨q, u⟩, hmem, rfl⟩ := List.mem_map.1 hp
    obtain ⟨place, hne, hget, rfl, hopen⟩ := (Tree.mem_visited_iff hregular).1 hmem
    simpa using hreach place u hne hget hopen
  simp only [walk, hroot, bind, Except.bind, hshort]
  rfl

theorem walk_beyond_reach (hregular : (Tree.directory es).Regular)
    (hroot : d.look "lstat" (absolute d.current root) = .ok (.directory es))
    (hreach : ¬ WithinReach s (absolute d.current root) (.directory es)) :
    ∃ place u, (Tree.directory es).get? place = some u ∧ ¬ s.Shuts place ∧
      maxPath < (join [absolute d.current root, relative place]).length ∧
      d.walk s root = .error ⟨"lstat", join [absolute d.current root, relative place], .nameTooLong⟩ := by
  cases hfind : ((Tree.visited s (.directory es)).map fun e => join [absolute d.current root, e.1]).find?
      (fun p => maxPath < p.length) with
  | none =>
      refine absurd (fun place u hne hget hopen => ?_) hreach
      have hmem := (Tree.mem_visited_iff hregular).2 ⟨place, hne, hget, rfl, hopen⟩
      have hshort := List.find?_eq_none.1 hfind _ (List.mem_map_of_mem hmem)
      simpa using hshort
  | some path =>
      obtain ⟨⟨q, u⟩, hmem, rfl⟩ := List.mem_map.1 (List.mem_of_find?_eq_some hfind)
      obtain ⟨place, hne, hget, rfl, hopen⟩ := (Tree.mem_visited_iff hregular).1 hmem
      refine ⟨place, u, hget, hopen, by simpa using List.find?_some hfind, ?_⟩
      simp only [walk, hroot, bind, Except.bind, hfind]

/-- A walk within reach lists the wanted files that are in no excluded directory, by strictly increasing
paths. -/
theorem walk_within_reach (hcur : isAbsolute d.current = true) (hregular : (Tree.directory es).Regular)
    (hroot : d.look "lstat" (absolute d.current root) = .ok (.directory es))
    (hreach : WithinReach s (absolute d.current root) (.directory es)) :
    ∃ files, d.walk s root = .ok files ∧ files.Pairwise (fun f g => f.path < g.path) ∧
      files.Perm ((Tree.select s (.directory es)).map (FoundFile.below (absolute d.current root))) ∧
      ∀ f, f ∈ files ↔ ∃ place content, (Tree.directory es).get? place = some (.file content) ∧
        f = FoundFile.below (absolute d.current root) (relative place, content) ∧
        s.wants (relative place) = true ∧ ¬ s.Shuts place := by
  have habs := isAbsolute_absolute hcur root
  refine ⟨_, walk_of_reach hregular hroot hreach, FoundFile.pairwise_sort ?_, List.mergeSort_perm _ _, fun f => ?_⟩
  · rw [List.pairwise_map]
    have hnodup := Tree.nodup_select (s := s) hregular
    rw [List.Nodup, List.pairwise_map] at hnodup
    refine hnodup.imp_of_mem fun {x y} hx hy hne heq => hne ?_
    obtain ⟨p, content⟩ := x
    obtain ⟨q, content'⟩ := y
    obtain ⟨place, hget, rfl, -, -⟩ := (Tree.mem_select_iff hregular).1 hx
    obtain ⟨place', hget', rfl, -, -⟩ := (Tree.mem_select_iff hregular).1 hy
    exact congrArg relative (join_relative_inj habs (hregular.isName hget) (hregular.isName hget') heq)
  · rw [FoundFile.sort, List.mem_mergeSort, List.mem_map]
    constructor
    · rintro ⟨⟨p, content⟩, hmem, rfl⟩
      obtain ⟨place, hget, rfl, hwants⟩ := (Tree.mem_select_iff hregular).1 hmem
      exact ⟨place, content, hget, rfl, hwants⟩
    · rintro ⟨place, content, hget, rfl, hwants⟩
      exact ⟨(relative place, content), (Tree.mem_select_iff hregular).2 ⟨place, hget, rfl, hwants⟩, rfl⟩

/-- Walking a directory lists, in strictly increasing order of their paths, the files below it that match some
include and no exclude and lie in no directory that an exclude matches. It fails only at a path that is too
long to be looked at. -/
theorem walk_directory (d : Disk) (s : Selection) (root : Text) {es : List (Text × Tree Content)}
    (hcur : isAbsolute d.current = true)
    (hroot : d.look "lstat" (absolute d.current root) = .ok (.directory es))
    (hregular : (Tree.directory es).Regular) :
    (WithinReach s (absolute d.current root) (.directory es) →
      ∃ files, d.walk s root = .ok files ∧ files.Pairwise (fun f g => f.path < g.path) ∧
        ∀ f, f ∈ files ↔ ∃ place content, (Tree.directory es).get? place = some (.file content) ∧
          f = ⟨join [absolute d.current root, relative place], content.bytes.length⟩ ∧
          s.included (relative place) = true ∧ s.excluded (relative place) = false ∧ ¬ s.Shuts place) ∧
    (¬ WithinReach s (absolute d.current root) (.directory es) →
      ∃ place u, (Tree.directory es).get? place = some u ∧ ¬ s.Shuts place ∧
        maxPath < (join [absolute d.current root, relative place]).length ∧
        d.walk s root = .error ⟨"lstat", join [absolute d.current root, relative place], .nameTooLong⟩) := by
  refine ⟨fun hreach => ?_, walk_beyond_reach hregular hroot⟩
  obtain ⟨files, hwalk, hincrease, -, hmem⟩ := walk_within_reach hcur hregular hroot hreach
  refine ⟨files, hwalk, hincrease, fun f => (hmem f).trans ?_⟩
  simp only [Selection.wants, Bool.and_eq_true, Bool.not_eq_true', and_assoc, FoundFile.below]

namespace Sample

def entries : List (Text × Tree Content) :=
  [("lib", .directory [("a.js", .file (.text [])), ("gen", .directory [("b.js", .file (.text []))])])]

def library : Disk := ⟨.directory [("p", .directory entries)], "/p"⟩

theorem regular_entries : (Tree.directory entries).Regular := by
  refine .directory _ ?_ (by decide) (List.forall_mem_singleton.2 (.directory _ ?_ (by decide) ?_))
  · exact List.forall_mem_singleton.2 (by decide)
  · exact List.forall_mem_cons.2 ⟨by decide, List.forall_mem_singleton.2 (by decide)⟩
  · refine List.forall_mem_cons.2 ⟨.file _, List.forall_mem_singleton.2 (.directory _ ?_ (by decide) ?_)⟩
    · exact List.forall_mem_singleton.2 (by decide)
    · exact List.forall_mem_singleton.2 (.file _)

/-- One of two directories is excluded, and only what is in the other one is found. -/
theorem walk_directory_beside_excluded :
    library.look "lstat" (absolute library.current "/p") = .ok (.directory entries) ∧
    library.walk ⟨[], [Text.ofString "**/gen/**"]⟩ "/p" = .ok [⟨"/p/lib/a.js", 0⟩] ∧
    ∃ files, library.walk ⟨[], [Text.ofString "**/gen/**"]⟩ "/p" = .ok files ∧
      files.Pairwise (fun f g => f.path < g.path) := by
  have hwalk : library.walk ⟨[], [Text.ofString "**/gen/**"]⟩ "/p" = .ok [⟨"/p/lib/a.js", 0⟩] := by decide +kernel
  obtain ⟨hfinds, hfails⟩ :=
    walk_directory library ⟨[], [Text.ofString "**/gen/**"]⟩ "/p" rfl rfl regular_entries
  have hreach : WithinReach ⟨[], [Text.ofString "**/gen/**"]⟩ (absolute library.current "/p") (.directory entries) := by
    by_contra hnot
    obtain ⟨_, _, -, -, -, herror⟩ := hfails hnot
    cases hwalk.symm.trans herror
  obtain ⟨files, hfiles, hincrease, -⟩ := hfinds hreach
  exact ⟨rfl, hwalk, files, hfiles, hincrease⟩

/-- An exclude that matches a directory takes away the files in it, though it matches none of them. -/
theorem excluded_directory_hides :
    library.look "lstat" (absolute library.current "/p") = .ok (.directory entries) ∧
    (Tree.directory entries).Regular ∧
    (Tree.directory entries).get? [Text.ofString "lib", "a.js"] = some (.file (.text [])) ∧
    Selection.included ⟨[], [Text.ofString "lib/"]⟩ (relative [Text.ofString "lib", "a.js"]) = true ∧
    Selection.excluded ⟨[], [Text.ofString "lib/"]⟩ (relative [Text.ofString "lib", "a.js"]) = false ∧
    library.walk ⟨[], [Text.ofString "lib/"]⟩ "/p" = .ok [] :=
  ⟨rfl, regular_entries, rfl, by decide +kernel, by decide +kernel, by decide +kernel⟩

end Sample

end Disk

end BuiltinCatalog
