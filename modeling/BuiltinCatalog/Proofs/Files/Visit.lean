import BuiltinCatalog.Proofs.Files.Walk

namespace BuiltinCatalog

open BuiltinCatalog.Path

namespace Tree

variable {α : Type} {t : Tree α} {es : List (Text × Tree α)} {skip : Text → Bool} {base place place' : List Text}
  {n n' : Text}

/-- Every directory has its entries by increasing names. -/
inductive Sorted : Tree α → Prop
  | file (a : α) : Sorted (.file a)
  | directory (es : List (Text × Tree α)) (increase : (es.map (·.1)).Pairwise (· < ·))
      (below : ∀ e ∈ es, Sorted e.2) : Sorted (.directory es)

theorem relative_ne_nil (h : ∀ n ∈ place, IsName n) (hne : place ≠ []) : relative place ≠ [] := by
  intro hnil
  have hfollow := follow_relative [] h
  rw [hnil, follow_nil] at hfollow
  exact hne hfollow.symm

theorem splitOn_relative (h : ∀ n ∈ place, IsName n) (hne : place ≠ []) : (relative place).splitOn slash = place := by
  induction place using List.reverseRecOn with
  | nil => exact absurd rfl hne
  | append_singleton place n ih =>
      obtain ⟨hplace, hn⟩ := List.forall_mem_append.1 h
      have hname := List.splitOn_eq_singleton (hn n (List.mem_singleton_self n)).no_slash
      rw [relative_concat, child]
      by_cases hnil : place = []
      · subst hnil
        exact hname
      · have hempty : ¬ (relative place).isEmpty = true := by
          simpa using relative_ne_nil hplace hnil
        rw [if_neg hempty, List.splitOn_append_cons_self, ih hplace hnil, hname]

theorem relative_eq_intercalate (h : ∀ n ∈ place, IsName n) : relative place = [slash].intercalate place := by
  by_cases hne : place = []
  · subst hne
    rfl
  · have hjoin : [slash].intercalate ((relative place).splitOn slash) = relative place := List.intercalate_splitOn slash
    rw [splitOn_relative h hne] at hjoin
    exact hjoin.symm

theorem lt_of_name_lt (h : n < n') : base ++ n :: place < base ++ n' :: place' := by
  induction base with
  | nil => exact List.cons_lt_cons_iff.2 (Or.inl h)
  | cons m base ih => exact List.cons_lt_cons_iff.2 (Or.inr ⟨rfl, ih⟩)

theorem lt_append (hne : place ≠ []) : base < base ++ place := by
  obtain ⟨n, place, rfl⟩ := List.exists_cons_of_ne_nil hne
  induction base with
  | nil => exact List.nil_lt_cons n place
  | cons m base ih => exact List.cons_lt_cons_iff.2 (Or.inr ⟨rfl, ih⟩)

theorem pairwise_visitOf (hbase : ∀ n ∈ base, IsName n) (names : ∀ e ∈ es, IsName e.1)
    (increase : (es.map (·.1)).Pairwise (· < ·)) (below : ∀ e ∈ es, e.2.Regular)
    (h : ∀ e ∈ es, (visitIn skip (relative (base ++ [e.1])) e.2).Pairwise fun f g =>
      f.1.splitOn slash < g.1.splitOn slash) :
    (visitOf skip (relative base) es).Pairwise fun f g => f.1.splitOn slash < g.1.splitOn slash := by
  rw [visitOf_eq_flatMap, List.pairwise_flatMap]
  constructor
  · intro e he
    rw [← relative_concat]
    exact h e he
  · apply (List.pairwise_map.1 increase).imp_of_mem
    intro e e' he he' hlt f hf g hg
    obtain ⟨place, hf, hnames⟩ := exists_place_of_mem (below e he) hbase (names e he) hf
    obtain ⟨place', hg, hnames'⟩ := exists_place_of_mem (below e' he') hbase (names e' he') hg
    rw [hf, hg, splitOn_relative hnames (by simp), splitOn_relative hnames' (by simp)]
    exact lt_of_name_lt hlt

theorem pairwise_visitIn (h : t.Regular) (hsorted : t.Sorted) (hbase : ∀ n ∈ base, IsName n) (hne : base ≠ []) :
    (visitIn skip (relative base) t).Pairwise fun f g => f.1.splitOn slash < g.1.splitOn slash := by
  induction h generalizing base with
  | file a => exact List.pairwise_singleton _ _
  | directory es names nodup below ih =>
      cases hsorted with
      | directory _ increase hbelow =>
          rw [visitIn, List.pairwise_cons]
          split
          next => exact ⟨by simp, List.Pairwise.nil⟩
          next =>
            constructor
            · intro f hf
              rw [visitOf_eq_flatMap] at hf
              obtain ⟨e, he, hf⟩ := List.mem_flatMap.1 hf
              obtain ⟨place, hplace, hnames⟩ := exists_place_of_mem (below e he) hbase (names e he) hf
              rw [hplace, splitOn_relative hbase hne, splitOn_relative hnames (by simp)]
              exact lt_append (by simp)
            · apply pairwise_visitOf hbase names increase below
              intro e he
              apply ih e he (hbelow e he)
              · exact List.forall_mem_append.2 ⟨hbase, List.forall_mem_singleton.2 (names e he)⟩
              · simp

theorem pairwise_select {s : Selection} {es : List (Text × Tree Content)} (h : (directory es).Regular)
    (hsorted : (directory es).Sorted) :
    (select s (.directory es)).Pairwise fun f g => f.1.splitOn slash < g.1.splitOn slash := by
  cases h with
  | directory es names nodup below =>
      cases hsorted with
      | directory _ increase hbelow =>
          have hvisited : (visited s (.directory es)).Pairwise fun f g =>
              f.1.splitOn slash < g.1.splitOn slash := by
            have hbase : ∀ n ∈ ([] : List Text), IsName n := List.forall_mem_nil _
            apply pairwise_visitOf hbase names increase below
            intro e he
            exact pairwise_visitIn (below e he) (hbelow e he) (List.forall_mem_singleton.2 (names e he)) (by simp)
          apply List.Pairwise.filter
          apply hvisited.filterMap
          rintro e e' hlt ⟨p, content⟩ hfile ⟨p', content'⟩ hfile'
          rw [fileAt?_eq_some_iff.1 hfile, fileAt?_eq_some_iff.1 hfile'] at hlt
          exact hlt

end Tree

namespace Selection

variable {s : Selection} {place : List Text}

/-- A file is wanted at a place if its path matches some include and no exclude, and no exclude matches the path
of a directory on the way to it with a slash behind it. -/
structure Admits (s : Selection) (place : List Text) : Prop where
  included : ∃ g ∈ if s.includes = [] then [Text.ofString "**/*.js"] else s.includes,
    Glob.isMatch g ([slash].intercalate place) = true
  not_excluded : ∀ g ∈ s.excludes, Glob.isMatch g ([slash].intercalate place) = false
  not_within : ∀ above below, place = above ++ below → above ≠ [] → below ≠ [] →
    ∀ g ∈ s.excludes, Glob.isMatch g ([slash].intercalate above ++ [slash]) = false

theorem included_iff {p : Text} :
    s.included p = true ↔
      ∃ g ∈ if s.includes = [] then [Text.ofString "**/*.js"] else s.includes, Glob.isMatch g p = true := by
  simp [included, patterns]

theorem excluded_eq_false_iff {p : Text} : s.excluded p = false ↔ ∀ g ∈ s.excludes, Glob.isMatch g p = false := by
  simp [excluded]

theorem not_shuts_iff (h : ∀ n ∈ place, IsName n) :
    ¬ s.Shuts place ↔ ∀ above below, place = above ++ below → above ≠ [] → below ≠ [] →
      ∀ g ∈ s.excludes, Glob.isMatch g ([slash].intercalate above ++ [slash]) = false := by
  constructor
  · rintro hopen above below rfl habove hbelow
    rw [← excluded_eq_false_iff, ← Bool.not_eq_true]
    intro hexcluded
    refine hopen ⟨above, habove, List.prefix_append above below, by simpa using hbelow, ?_⟩
    rwa [Tree.relative_eq_intercalate (List.forall_mem_append.1 h).1]
  · rintro hclear ⟨above, habove, ⟨below, rfl⟩, hproper, hexcluded⟩
    have hbelow : below ≠ [] := by simpa using hproper
    rw [Tree.relative_eq_intercalate (List.forall_mem_append.1 h).1] at hexcluded
    have hmatch := excluded_eq_false_iff.2 (hclear above below rfl habove hbelow)
    simp [hmatch] at hexcluded

theorem admits_iff (h : ∀ n ∈ place, IsName n) :
    s.Admits place ↔ s.wants (Tree.relative place) = true ∧ ¬ s.Shuts place := by
  rw [wants, Bool.and_eq_true, Bool.not_eq_true', included_iff, excluded_eq_false_iff, not_shuts_iff h,
    Tree.relative_eq_intercalate h]
  constructor
  · intro hadmits
    exact ⟨⟨hadmits.included, hadmits.not_excluded⟩, hadmits.not_within⟩
  · rintro ⟨⟨hincluded, hexcluded⟩, hclear⟩
    exact ⟨hincluded, hexcluded, hclear⟩

end Selection

namespace FoundFile

theorem filter_path_eq {files : List FoundFile} {f : FoundFile} (h : files.Pairwise fun f g => f.path < g.path)
    (hf : f ∈ files) : files.filter (fun g => g.path = f.path) = [f] := by
  induction files with
  | nil => cases hf
  | cons g files ih =>
      obtain ⟨hg, hfiles⟩ := List.pairwise_cons.1 h
      by_cases hpath : g.path = f.path
      · have hnot : f ∉ files := fun hmem => List.lt_irrefl f.path (hpath ▸ hg f hmem)
        obtain rfl : f = g := (List.mem_cons.1 hf).resolve_right hnot
        have hrest : files.filter (fun k => k.path = f.path) = [] := by
          apply List.filter_eq_nil_iff.2
          intro k hk hsame
          exact List.lt_irrefl f.path (of_decide_eq_true hsame ▸ hg k hk)
        rw [List.filter_cons_of_pos (by simp), hrest]
      · have hmem : f ∈ files := (List.mem_cons.1 hf).resolve_left fun heq => hpath (heq ▸ rfl)
        rw [List.filter_cons_of_neg (by simpa using hpath)]
        exact ih hfiles hmem

theorem sort_eq {files sorted : List FoundFile} (hperm : sorted.Perm files)
    (h : sorted.Pairwise fun f g => f.path < g.path) : sort files = sorted := by
  have hsort : (sort files).Perm sorted := (List.mergeSort_perm files _).trans hperm.symm
  apply hsort.eq_of_pairwise ?_ (sorted_sort files) (h.imp List.le_of_lt)
  intro f g hf hg hfg hgf
  have hmem : g ∈ sorted.filter (fun k => k.path = f.path) :=
    List.mem_filter.2 ⟨hg, decide_eq_true (List.le_antisymm hgf hfg)⟩
  rw [filter_path_eq h (hsort.mem_iff.1 hf)] at hmem
  exact (List.mem_singleton.1 hmem).symm

end FoundFile

namespace Disk

open BuiltinCatalog.Tree (relative)

/-- A walk finds a file below its root exactly if the selection admits it, once and with its size. It lists the
files by strictly increasing paths, though it comes upon them in the order of their places. It fails only at a
path that is too long to be looked at. -/
theorem walk_admitted (d : Disk) (s : Selection) (root : Text) {es : List (Text × Tree Content)}
    (hcur : isAbsolute d.current = true)
    (hroot : d.look "lstat" (absolute d.current root) = .ok (.directory es))
    (hregular : (Tree.directory es).Regular) :
    (WithinReach s (absolute d.current root) (.directory es) → ∃ files, d.walk s root = .ok files ∧
      (∀ f ∈ files, ∃ place content, (Tree.directory es).get? place = some (.file content) ∧
        f = FoundFile.below (absolute d.current root) ([slash].intercalate place, content)) ∧
      (∀ place content, (Tree.directory es).get? place = some (.file content) →
        let file := FoundFile.below (absolute d.current root) ([slash].intercalate place, content)
        ((∃ f ∈ files, f.path = file.path) ↔ s.Admits place) ∧
          (s.Admits place → files.filter (fun f => f.path = file.path) = [file])) ∧
      files.Pairwise (fun f g => f.path < g.path) ∧
      files.Perm ((Tree.select s (.directory es)).map (FoundFile.below (absolute d.current root))) ∧
      ((Tree.directory es).Sorted →
        (Tree.select s (.directory es)).Pairwise fun f g => f.1.splitOn slash < g.1.splitOn slash)) ∧
    (¬ WithinReach s (absolute d.current root) (.directory es) →
      ∃ place u, (Tree.directory es).get? place = some u ∧ ¬ s.Shuts place ∧
        maxPath < (join [absolute d.current root, relative place]).length ∧
        d.walk s root = .error ⟨"lstat", join [absolute d.current root, relative place], .nameTooLong⟩) := by
  refine ⟨fun hreach => ?_, walk_beyond_reach hregular hroot⟩
  obtain ⟨files, hwalk, hpairwise, hperm, hmem⟩ := walk_within_reach hcur hregular hroot hreach
  refine ⟨files, hwalk, ?_, ?_, hpairwise, hperm, Tree.pairwise_select hregular⟩
  · intro f hf
    obtain ⟨place, content, hget, rfl, -⟩ := (hmem f).1 hf
    refine ⟨place, content, hget, ?_⟩
    rw [Tree.relative_eq_intercalate (hregular.isName hget)]
  · intro place content hget file
    have hnames := hregular.isName hget
    have hfile : file = FoundFile.below (absolute d.current root) (relative place, content) := by
      rw [Tree.relative_eq_intercalate hnames]
    have hfound (hadmits : s.Admits place) : file ∈ files :=
      (hmem file).2 ⟨place, content, hget, hfile, (Selection.admits_iff hnames).1 hadmits⟩
    refine ⟨⟨?_, fun hadmits => ⟨file, hfound hadmits, rfl⟩⟩,
      fun hadmits => FoundFile.filter_path_eq hpairwise (hfound hadmits)⟩
    rintro ⟨f, hf, hpath⟩
    obtain ⟨place', content', hget', rfl, hwants, hopen⟩ := (hmem f).1 hf
    -- paths tell places apart, so it is the same file
    rw [hfile] at hpath
    obtain rfl := join_relative_inj (isAbsolute_absolute hcur root) (hregular.isName hget') hnames hpath
    exact (Selection.admits_iff hnames).2 ⟨hwants, hopen⟩

namespace Sample

def nested : List (Text × Tree Content) :=
  [("a", .directory [("b.js", .file (.text "b()"))]), ("a.js", .file (.text [])),
    ("gen", .directory [("c.js", .file (.text []))])]

theorem regular_nested : (Tree.directory nested).Regular := by
  have hsingle (n : Text) (h : IsName n) (text : Text) :
      (Tree.directory [(n, .file (.text text))] : Tree Content).Regular :=
    .directory _ (List.forall_mem_singleton.2 h) (List.nodup_singleton n) (List.forall_mem_singleton.2 (.file _))
  refine .directory _ ?_ (by decide) ?_
  · simp only [nested, List.forall_mem_cons]
    exact ⟨by decide, by decide, by decide, List.forall_mem_nil _⟩
  · simp only [nested, List.forall_mem_cons]
    exact ⟨hsingle _ (by decide) _, .file _, hsingle _ (by decide) _, List.forall_mem_nil _⟩

theorem sorted_nested : (Tree.directory nested).Sorted := by
  have hsingle (n text : Text) : (Tree.directory [(n, .file (.text text))] : Tree Content).Sorted :=
    .directory _ (List.pairwise_singleton _ n) (List.forall_mem_singleton.2 (.file _))
  refine .directory _ (by decide) ?_
  simp only [nested, List.forall_mem_cons]
  exact ⟨hsingle _ _, .file _, hsingle _ _, List.forall_mem_nil _⟩

/-- The walk comes upon a file in a directory before the one beside it that its list has first. -/
theorem walk_admitted_dot_before_slash :
    let d : Disk := ⟨.directory [("p", .directory nested)], "/p"⟩
    let s : Selection := ⟨[], [Text.ofString "gen/"]⟩
    d.look "lstat" (absolute d.current ".") = .ok (.directory nested) ∧
    (Tree.directory nested).Regular ∧ (Tree.directory nested).Sorted ∧
    (Tree.select s (.directory nested)).map (·.1) = [Text.ofString "a/b.js", Text.ofString "a.js"] ∧
    d.walk s "." = .ok [⟨"/p/a.js", 0⟩, ⟨"/p/a/b.js", 3⟩] ∧
    ∃ files, d.walk s "." = .ok files ∧ files.Pairwise (fun f g => f.path < g.path) := by
  intro d s
  obtain ⟨hfinds, hfails⟩ := walk_admitted d s "." rfl rfl regular_nested
  have hreach : WithinReach s (absolute d.current ".") (.directory nested) := by
    by_contra hnot
    obtain ⟨_, _, -, -, -, herror⟩ := hfails hnot
    have hok : (d.walk s ".").isOk = true := by decide +kernel
    rw [herror] at hok
    cases hok
  have hselect : Tree.select s (.directory nested) =
      [(Text.ofString "a/b.js", .text "b()"), (Text.ofString "a.js", .text [])] := by decide +kernel
  obtain ⟨files, hfiles, -, -, hincrease, -⟩ := hfinds hreach
  refine ⟨rfl, regular_nested, sorted_nested, by rw [hselect]; rfl, ?_, files, hfiles, hincrease⟩
  rw [walk_of_reach regular_nested rfl hreach, hselect]
  exact congrArg Except.ok (FoundFile.sort_eq (List.Perm.swap _ _ _) (by decide))

end Sample

end Disk

end BuiltinCatalog
