import BuiltinCatalog.Proofs.Builtin.Order
import BuiltinCatalog.Proofs.Collection.Scrub
import BuiltinCatalog.Proofs.Extraction.Remains
import BuiltinCatalog.Proofs.Files.Frame
import BuiltinCatalog.Proofs.Files.Walk

namespace BuiltinCatalog

open BuiltinCatalog.Path (absolute components IsClean)

namespace Disk

variable {d : Disk} {s : Selection} {root : Text} {found : List FoundFile} {f : FoundFile}

theorem walk_eq_ok (h : d.walk s root = .ok found) :
    ∃ t, found = FoundFile.sort ((Tree.select s t).map (FoundFile.below (absolute d.current root))) := by
  obtain ⟨t, -, h⟩ := bind_eq_ok.1 h
  split at h
  next => cases h
  next => exact ⟨t, (Except.ok.inj h).symm⟩

theorem sorted_walk (h : d.walk s root = .ok found) : (found.map FoundFile.path).Pairwise (· ≤ ·) := by
  obtain ⟨t, rfl⟩ := walk_eq_ok h
  exact List.pairwise_map.2 (FoundFile.sorted_sort _)

theorem isClean_of_mem_walk (hcur : Path.isAbsolute d.current = true) (h : d.walk s root = .ok found)
    (hf : f ∈ found) : IsClean f.path := by
  obtain ⟨t, rfl⟩ := walk_eq_ok h
  obtain ⟨file, -, rfl⟩ := List.mem_map.1 (List.mem_mergeSort.1 hf)
  exact Path.isClean_join (Path.isAbsolute_absolute hcur root) file.1

theorem locate_of_read {p text : Text} (hcur : Path.isAbsolute d.current = true) (hp : IsClean p)
    (h : d.read p = .ok text) : d.locate p = .ok (components p) := by
  obtain ⟨place, -, hlocate, -⟩ := read_eq_ok_iff.1 h
  rw [hlocate, eq_resolve_of_locate hcur hlocate, hp.resolve_eq]

end Disk

namespace Extraction

variable {d : Disk} {r : Request} {s s' : State} {c c' : Cache} {x x' : Expansion} {path arg : Text}
  {files ps : List Text} {o : BuiltinObject} {result : Result}

/-- A path of a file stands for the file, and one of a directory for what a search finds in it. -/
inductive StandsFor (d : Disk) (r : Request) (arg : Text) : List Text → Prop
  | file {content : Content} (look : d.look "stat" (absolute d.current arg) = .ok (.file content)) :
      StandsFor d r arg [absolute d.current arg]
  | directory {es : List (Text × Tree Content)} {found : List FoundFile}
      (look : d.look "stat" (absolute d.current arg) = .ok (.directory es))
      (walk : d.walk r.selection (absolute d.current arg) = .ok found)
      (sorted : (found.map FoundFile.path).Pairwise (· ≤ ·)) : StandsFor d r arg (found.map FoundFile.path)

theorem StandsFor.isClean (hcur : Path.isAbsolute d.current = true) (h : StandsFor d r arg ps) :
    ∀ p ∈ ps, IsClean p := by
  cases h with
  | file look => exact List.forall_mem_singleton.2 (Path.isClean_absolute hcur arg)
  | directory look walk sorted =>
      intro p hp
      obtain ⟨f, hf, rfl⟩ := List.mem_map.1 hp
      exact Disk.isClean_of_mem_walk hcur walk hf

theorem eraseDups_concat (ps : List Text) (p : Text) :
    (ps ++ [p]).eraseDups = if ps.eraseDups.contains p then ps.eraseDups else ps.eraseDups ++ [p] := by
  rw [List.eraseDups_append]
  by_cases hp : p ∈ ps
  · simp [List.removeAll, hp]
  · simp [List.removeAll, hp, List.eraseDups_cons]

theorem files_addFiles (h : x.files = ps.eraseDups) (qs : List Text) :
    (x.addFiles qs).files = (ps ++ qs).eraseDups := by
  rw [Expansion.addFiles]
  dsimp only
  generalize x.files = fs at h
  induction qs generalizing fs ps with
  | nil => rw [List.append_nil, h, List.foldl_nil]
  | cons q qs ih =>
      rw [List.foldl_cons, List.append_cons ps]
      apply ih
      rw [h, eraseDups_concat]

theorem expandPath_standsFor (h : expandPath d r x arg = .ok x') :
    ∃ roots ps, StandsFor d r arg ps ∧ x' = Expansion.addFiles ⟨x.files, roots⟩ ps := by
  simp only [expandPath] at h
  split at h
  next => cases h
  next look => exact ⟨x.roots, _, .file look, (Except.ok.inj h).symm⟩
  next look =>
    obtain ⟨found, hfound, h⟩ := bind_eq_ok.1 h
    have hwalk := mapError_eq_ok.1 (attempt_eq_ok.1 (mapError_eq_ok.1 hfound)).2
    exact ⟨_, _, .directory look hwalk (Disk.sorted_walk hwalk), (Except.ok.inj h).symm⟩

theorem foldlM_standsFor {args : List Text} (hx : x.files = ps.eraseDups)
    (h : args.foldlM (expandPath d r) x = .ok x') :
    ∃ lists, List.Forall₂ (StandsFor d r) args lists ∧ x'.files = (ps ++ lists.flatten).eraseDups := by
  induction args generalizing x ps with
  | nil =>
      obtain rfl := Except.ok.inj h
      refine ⟨[], .nil, ?_⟩
      rw [List.flatten_nil, List.append_nil, hx]
  | cons arg args ih =>
      obtain ⟨y, hy, h⟩ := bind_eq_ok.1 h
      obtain ⟨roots, qs, hstands, rfl⟩ := expandPath_standsFor hy
      obtain ⟨lists, hlists, hfiles⟩ := ih (files_addFiles (x := ⟨x.files, roots⟩) hx qs) h
      refine ⟨qs :: lists, .cons hstands hlists, ?_⟩
      rw [hfiles, List.flatten_cons, List.append_assoc]

/-- Paths stand for their files one after the other, and each file counts where it comes first. -/
theorem expand_standsFor (h : expand d r = .ok x) :
    ∃ lists, List.Forall₂ (StandsFor d r) r.paths lists ∧ x.files = lists.flatten.eraseDups := by
  have hempty : ({} : Expansion).files = ([] : List Text).eraseDups := rfl
  exact foldlM_standsFor hempty h

theorem isClean_of_standsFor {args : List Text} {lists : List (List Text)}
    (hcur : Path.isAbsolute d.current = true) (h : List.Forall₂ (StandsFor d r) args lists) :
    ∀ p ∈ lists.flatten, IsClean p := by
  induction h with
  | nil => exact List.forall_mem_nil _
  | cons hstands _ ih =>
      rw [List.flatten_cons]
      exact List.forall_mem_append.2 ⟨hstands.isClean hcur, ih⟩

/-- An entry has the hash of some text and what this text parses to, without stray bytes. -/
def IsEarlier (path : Text) (e : CacheEntry) : Prop :=
  ∃ text o ls, e.contentHash = contentHash text ∧ Collection.readFile path text = .ok (o, ls) ∧ e.object = o.scrub

def HoldsEarlier : Cache → Prop := Cache.Holds IsEarlier

theorem keeps_holdsEarlier (d : Disk) (r : Request) : Keeps d r HoldsEarlier where
  put {_ _ path text o ls} h _ hparse hput := by
    have hearlier : IsEarlier path (freshEntry r text o ls).scrub :=
      ⟨text, o, ls, (Text.isUtf8_hex _).scrub_eq, hparse, rfl⟩
    exact Cache.Holds.put h hearlier hput
  erase path h := Cache.Holds.erase h path

theorem World.after_keeps {P : Cache → Prop} (hP : ∀ d r, Keeps d r P) (acts : List Act) {w : World} (h : P w.cache) :
    P (w.after acts).cache := by
  induction acts generalizing w with
  | nil => exact h
  | cons act acts ih =>
      rw [after, List.foldl_cons, ← after]
      apply ih
      cases act with
      | edit e => exact h
      | extract r =>
          obtain ⟨c, hc, hkept⟩ := run_keeps (hP w.disk r) h
          rw [next, hc]
          exact hkept

/-- The object of a file is what the file parses to. If it was in the cache, it is what a text with the same hash
parsed to, without its stray bytes. -/
inductive Extracts (d : Disk) (path : Text) : BuiltinObject → Prop
  | parsed {text : Text} {o : BuiltinObject} {ls : List Text} (read : d.read path = .ok text)
      (parsed : Collection.readFile path text = .ok (o, ls)) : Extracts d path o
  | reused {text earlier : Text} {o : BuiltinObject} {ls : List Text} (read : d.read path = .ok text)
      (hash : contentHash earlier = contentHash text)
      (parsed : Collection.readFile path earlier = .ok (o, ls)) : Extracts d path o.scrub

theorem Extracts.exists_read (h : Extracts d path o) : ∃ text, d.read path = .ok text := by
  cases h with
  | parsed read => exact ⟨_, read⟩
  | reused read => exact ⟨_, read⟩

theorem Extracts.name_eq (h : Extracts d path o) (hpath : Text.IsUtf8 path) : o.name = Collection.objectName path := by
  cases h with
  | parsed read parsed =>
      obtain ⟨-, fs, -, rfl⟩ := Collection.readFile_eq_ok_iff.1 parsed
      rfl
  | reused read hash parsed =>
      obtain ⟨-, fs, -, rfl⟩ := Collection.readFile_eq_ok_iff.1 parsed
      exact (Path.isUtf8_stem hpath).scrub_eq

theorem FileStep.extracts (hc : ∀ c, s.cache = some c → HoldsEarlier c) (h : FileStep d r s path s' none) :
    ∃ o, s'.collection.objects = s.collection.objects ++ [o] ∧ Extracts d path o := by
  cases h with
  | @hit text e read found hash framework =>
      cases hcache : s.cache with
      | none => simp [lookup, hcache] at found
      | some c =>
          obtain ⟨-, hget⟩ := (lookup_eq_ok_iff hcache).1 found
          obtain ⟨earlier, o, ls, hash', hparse, hobject⟩ := Cache.Holds.of_get? (hc c hcache) hget
          refine ⟨o.scrub, ?_, .reused (read_of_readText read) (hash'.symm.trans hash) hparse⟩
          rw [reuse, hobject]
          have howning := BuiltinObject.owning_scrub (Collection.owning_of_readFile hparse)
          exact (Collection.adds_add s.collection howning fun _ => Iff.rfl).objects
  | @miss text o ls cache events read parsed stored =>
      refine ⟨o, ?_, .parsed (read_of_readText read) parsed⟩
      exact (Collection.adds_append s.collection (Collection.owning_of_readFile parsed)).objects

theorem FileStep.holdsEarlier (hc : ∀ c, s.cache = some c → HoldsEarlier c) (h : FileStep d r s path s' none) :
    ∀ c, s'.cache = some c → HoldsEarlier c := by
  cases hcache : s.cache with
  | none =>
      obtain ⟨_, _, _, _, _, _, hnone, _⟩ := h.adds_plain hcache
      intro c hc'
      rw [hnone] at hc'
      cases hc'
  | some c =>
      obtain ⟨c', hc', hkept⟩ := h.keeps (keeps_holdsEarlier d r) ⟨c, hcache, hc c hcache⟩
      intro c₁ hc₁
      obtain rfl := Option.some.inj (hc'.symm.trans hc₁)
      exact hkept

theorem files_extract {total : Nat} (hc : ∀ c, s.cache = some c → HoldsEarlier c)
    (h : extractFiles d r total s files = (s', none)) :
    ∃ os, s'.collection.objects = s.collection.objects ++ os ∧ List.Forall₂ (Extracts d) files os := by
  induction files generalizing s with
  | nil =>
      obtain ⟨rfl, -⟩ := Prod.mk.inj h
      exact ⟨[], (List.append_nil _).symm, .nil⟩
  | cons path files ih =>
      obtain ⟨s₁, hstep, h⟩ := extractFiles_cons_eq_none h
      obtain ⟨o, hobject, hextracts⟩ := (step_of_eq hstep).extracts hc
      have hnext := (step_of_eq hstep).holdsEarlier hc
      obtain ⟨os, hobjects, hrest⟩ := ih (s := s₁.report total path) (by exact hnext) h
      refine ⟨o :: os, ?_, .cons hextracts hrest⟩
      rw [hobjects, State.report, hobject, List.append_assoc, List.singleton_append]

theorem nodup_places {os : List BuiltinObject} (hcur : Path.isAbsolute d.current = true)
    (hclean : ∀ p ∈ files, IsClean p) (hnodup : files.Nodup) (h : List.Forall₂ (Extracts d) files os) :
    ∃ places : List (List Text), files.map d.locate = places.map .ok ∧ places.Nodup := by
  have hreads : ∀ p ∈ files, ∃ text, d.read p = .ok text :=
    ((List.forall₂_and_left files os).1 (h.imp fun p o ho => ⟨ho.exists_read, ho⟩)).1
  refine ⟨files.map components, ?_, ?_⟩
  · rw [List.map_map]
    apply List.map_congr_left
    intro p hp
    obtain ⟨text, hread⟩ := hreads p hp
    exact Disk.locate_of_read hcur (hclean p hp) hread
  · apply hnodup.map_on
    intro p hp q hq hsame
    exact (hclean p hp).inj (hclean q hq) hsame

theorem finish_counts (h : (finish r x s).outcome = .ok result) :
    (finish r x s).progress = s.progress ∧ result.collection = s.collection ∧
      result.parsed = s.parsed ∧ result.cached = s.cached := by
  cases hc : s.cache with
  | none =>
      rw [finish_plain x hc] at h
      obtain rfl := Except.ok.inj h
      refine ⟨?_, rfl, rfl, rfl⟩
      simp only [finish, hc]
  | some c =>
      obtain ⟨_, _, rfl⟩ := finish_eq_ok hc h
      obtain ⟨c', gone, o, -, -, hprogress, -⟩ := finish_pruned (r := r) x hc
      exact ⟨hprogress, rfl, rfl, rfl⟩

/-- A run that succeeds extracts the files for which its paths stand, each one where it comes first. It has one
object for each file, named after it, counts it as parsed or cached, and reports it. -/
theorem run_accounts (d : Disk) (r : Request) (cache : Option Cache) (result : Result)
    (hcur : Path.isAbsolute d.current = true)
    (hcache : cache = none ∨
      ∃ (w : World) (acts : List Act), w.cache.objects = [] ∧ cache = some (w.after acts).cache)
    (h : (run d r cache).outcome = .ok result) :
    ∃ (lists : List (List Text)) (files : List Text), List.Forall₂ (StandsFor d r) r.paths lists ∧
      files = lists.flatten.eraseDups ∧
      (∃ places : List (List Text), files.map d.locate = places.map .ok ∧ places.Nodup) ∧
      List.Forall₂ (fun p o => Extracts d p o ∧ (Text.IsUtf8 p → o.name = Collection.objectName p)) files
        result.collection.objects ∧
      result.parsed + result.cached = files.length ∧
      (run d r cache).progress = files.mapIdx (fun i p => ⟨i + 1, files.length, p⟩) ∧
      result.functionCount = result.collection.allFunctions.length := by
  obtain ⟨f, x, s, hf, hx, hs, hfinish⟩ := run_eq_ok h
  obtain ⟨hprogress, hcollection, hparsed, hcached⟩ := finish_counts hfinish
  have hearlier : ∀ c, (start f cache).cache = some c → HoldsEarlier c := by
    rcases hcache with rfl | ⟨w, acts, hempty, rfl⟩
    · intro c hc
      cases hc
    · intro c hc
      obtain rfl := Option.some.inj hc
      apply World.after_keeps keeps_holdsEarlier
      intro path cell hcell
      rw [hempty] at hcell
      cases hcell
  obtain ⟨lists, hlists, hfiles⟩ := expand_standsFor hx
  obtain ⟨os, hobjects, hextracts⟩ := files_extract hearlier hs
  obtain rfl : os = result.collection.objects := by rw [hcollection, hobjects, start, List.nil_append]
  have hclean : ∀ p ∈ x.files, IsClean p := by
    intro p hp
    rw [hfiles, List.mem_eraseDups] at hp
    exact isClean_of_standsFor hcur hlists p hp
  refine ⟨lists, x.files, hlists, hfiles, ?_, ?_, ?_, ?_, ?_⟩
  · exact nodup_places hcur hclean (isProper_expand hx).nodup hextracts
  · exact hextracts.imp fun p o ho => ⟨ho, ho.name_eq⟩
  · rw [hparsed, hcached]
    simpa [start] using count_of_files hs
  · rw [run_of_files hf hx hs, hprogress, reports_of_files hs, reports]
  · exact (Builtin.sort_perm result.collection.functions).length_eq.symm

namespace Sample

def rounds : Request :=
  { framework := "WebCore", selection := ⟨[], []⟩, paths := ["a.js", "./d/../a.js", "d/", "/d/b.js", "d/../d2"] }

theorem run_accounts_overlapping :
    let w := World.after ⟨shelf, {}⟩ [.extract (search fun _ _ => none)]
    w.cache.paths = [Text.ofString "/a.js", "/d/b.js"] ∧
    ∃ result, (run shelf rounds (some w.cache)).outcome = .ok result ∧ result.parsed = 1 ∧ result.cached = 2 ∧
      result.collection.objects.map BuiltinObject.name = [Text.ofString "a", "b", "x"] ∧
      (run shelf rounds (some w.cache)).progress = [⟨1, 3, "/a.js"⟩, ⟨2, 3, "/d/b.js"⟩, ⟨3, 3, "/d2/x.js"⟩] ∧
      ∃ lists : List (List Text), List.Forall₂ (StandsFor shelf rounds) rounds.paths lists ∧
        lists.flatten.eraseDups.length = 3 := by
  intro w
  have hcounts : (run shelf rounds (some w.cache)).outcome.toOption.map
      (fun result => (result.parsed, result.cached, result.collection.objects.map BuiltinObject.name)) =
        some (1, 2, [Text.ofString "a", "b", "x"]) := by decide +kernel
  obtain ⟨result, hrun, hcounts⟩ := toOption_map_eq_some.1 hcounts
  obtain ⟨hparsed, hcached, hnames⟩ : result.parsed = 1 ∧ result.cached = 2 ∧
      result.collection.objects.map BuiltinObject.name = [Text.ofString "a", "b", "x"] := by simpa using hcounts
  obtain ⟨lists, files, hlists, rfl, -, -, hcount, -⟩ :=
    run_accounts shelf rounds (some w.cache) result rfl (Or.inr ⟨⟨shelf, {}⟩, _, rfl, rfl⟩) hrun
  rw [hparsed, hcached] at hcount
  exact ⟨by decide +kernel, result, hrun, hparsed, hcached, hnames, by decide +kernel, lists, hlists, hcount.symm⟩

end Sample

end Extraction

end BuiltinCatalog
