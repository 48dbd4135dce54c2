import BuiltinCatalog.Proofs.Cache.Purity
import BuiltinCatalog.Proofs.Extraction.Attempts
import BuiltinCatalog.Proofs.Extraction.Transparency

namespace BuiltinCatalog.Extraction

variable {d : Disk} {r : Request} {s : State} {c c' : Cache} {p : Text} {x : Expansion} {e : Failure}
  {files : List Text} {result : Result}

theorem finish_pruned (x : Expansion) (hc : s.cache = some c) :
    ∃ c' gone o, Pruned r x c c' gone o ∧ (finish r x s).cache = some c' ∧
      (finish r x s).progress = s.progress ∧
      (finish r x s).outcome =
        match o with
        | some e => .error e
        | none => .ok ⟨s.collection, s.parsed, s.cached, gone.length⟩ := by
  refine ⟨_, _, _, prune_pruned r x c, ?_, ?_, finish_cached x hc⟩
  · simp only [finish, hc]
    split <;> rfl
  · simp only [finish, hc]
    split <;> rfl

theorem finish_eq_ok (hc : s.cache = some c) (h : (finish r x s).outcome = .ok result) :
    (x.roots = [] ∨ r.outage .list [] = none) ∧
      (finish r x s).cache = some (eraseAll c (stalePaths x c.paths)) ∧
      result = ⟨s.collection, s.parsed, s.cached, (stalePaths x c.paths).length⟩ := by
  obtain ⟨c', gone, o, hpruned, hcache, _, houtcome⟩ := finish_pruned (r := r) x hc
  rw [houtcome] at h
  cases hpruned with
  | all listed => exact ⟨listed, hcache, (Except.ok.inj h).symm⟩
  | unlisted | stopped => cases h

theorem run_left (h : (run d r (some c)).outcome = .ok result) :
    ∃ f x s c', Framework.ofName? r.framework = some f ∧ expand d r = .ok x ∧
      extractFiles d r x.files.length (start f (some c)) x.files = (s, none) ∧
      (x.roots = [] ∨ r.outage .list [] = none) ∧
      (run d r (some c)).cache = some c' ∧ Left d r x.files x.IsStale c c' ∧
      result = ⟨s.collection, s.parsed, s.cached, (stalePaths x c.paths).length⟩ := by
  obtain ⟨f, x, s, hf, hx, hs, hfinish⟩ := run_eq_ok h
  obtain ⟨c₁, hc₁, hleft, hkeys⟩ := files_left rfl (isProper_expand hx).nodup hs
  obtain ⟨hlisted, hcache, hresult⟩ := finish_eq_ok hc₁ hfinish
  rw [stalePaths_congr hkeys] at hresult
  refine ⟨f, x, s, _, hf, hx, hs, hlisted, ?_, hleft.all, hresult⟩
  rw [run_of_files hf hx hs]
  exact hcache

/-- A fresh entry is current: neither its hash nor its framework has a byte that the cache replaces. -/
theorem EntryAfter.isCurrent {f : Framework} (hf : Framework.ofName? r.framework = some f)
    (h : EntryAfter d r c p (c'.objects.lookup p)) : IsCurrent d r c' p := by
  generalize hcell : c'.objects.lookup p = cell at h
  cases h with
  | reused current => exact (isCurrent_congr hcell).2 current
  | @stored text o ls outdated read parsed =>
      refine ⟨text, (freshEntry r text o ls).scrub, read, ?_, ?_, ?_⟩
      · exact Cache.get?_eq_ok_some_iff.2 ⟨_, hcell, (freshEntry r text o ls).read?_text r.dialect⟩
      · exact (Text.isUtf8_hex _).scrub_eq
      · have hname := Framework.name_of_ofName? hf
        have hscrub := f.scrub_name
        rwa [hname] at hscrub

theorem EntryAfter.lookup_eq {cell : Option Text} (h : EntryAfter d r c p cell)
    (hcurrent : IsCurrent d r c p) : cell = c.objects.lookup p := by
  cases h with
  | reused => rfl
  | stored outdated => exact absurd hcurrent outdated

theorem EntryAfter.ne_none {cell : Option Text} (h : EntryAfter d r c p cell) : cell ≠ none := by
  cases h with
  | reused current =>
      obtain ⟨_, _, _, hget, _⟩ := current
      obtain ⟨cell, hcell, _⟩ := Cache.get?_eq_ok_some_iff.1 hget
      simp [hcell]
  | stored => simp

theorem not_mem_paths_iff : p ∉ c.paths ↔ c.objects.lookup p = none := by
  rw [Cache.paths, Keyed.mem_keys_iff]
  cases c.objects.lookup p <;> simp

theorem Left.filter_paths (h : Left d r x.files x.IsStale c c') :
    c.paths.filter (· ∉ c'.paths) = stalePaths x c.paths := by
  refine List.filter_congr fun p hp => Bool.eq_iff_iff.2 ?_
  rw [decide_eq_true_iff, not_mem_paths_iff, isStale_iff]
  constructor
  · intro hnone
    by_contra hstale
    by_cases hfile : p ∈ x.files
    · exact (h.file p hfile).ne_none hnone
    · exact not_mem_paths_iff.2 ((h.kept p hfile hstale).symm.trans hnone) hp
  · exact fun hstale => h.erased p hstale.1 hstale

/-- After a run that succeeds, the entries of its files are current, there is no other entry below the
searched directories, and what is left of the cache is as before. An entry that was current is not even
stored anew: where this alone would fail, the run is the same. -/
theorem run_entries (d : Disk) (r : Request) (c : Cache) (x : Expansion) (result : Result)
    (hx : expand d r = .ok x) (hroots : [Path.slash] ∉ x.roots)
    (hrun : (run d r (some c)).outcome = .ok result) :
    ∃ c', (run d r (some c)).cache = some c' ∧ c'.version = c.version ∧ c'.configHash = c.configHash ∧
      (∀ p ∈ x.files, IsCurrent d r c' p) ∧
      (∀ p ∉ x.files, (∃ root ∈ x.roots, Path.IsWithin p root) → p ∉ c'.paths) ∧
      (∀ p ∉ x.files, (¬ ∃ root ∈ x.roots, Path.IsWithin p root) →
        c'.objects.lookup p = c.objects.lookup p) ∧
      result.pruned = (c.paths.filter (· ∉ c'.paths)).length ∧
      (∀ p ∈ x.files, IsCurrent d r c p → c'.objects.lookup p = c.objects.lookup p) ∧
      ∀ o : Outage, (∀ op p, (op = .put → ¬ IsCurrent d r c p) → o op p = r.outage op p) →
        run d { r with outage := o } (some c) = run d r (some c) := by
  obtain ⟨f, x', s, c', hf, hx', _, _, hcache, hleft, rfl⟩ := run_left hrun
  obtain rfl := Except.ok.inj (hx.symm.trans hx')
  have hstale (p : Text) := isStale_iff_isWithin (p := p) (isProper_expand hx) hroots
  refine ⟨c', hcache, hleft.version, hleft.configHash, ?_, ?_, ?_, ?_, ?_, ?_⟩
  · exact fun p hp => (hleft.file p hp).isCurrent hf
  · exact fun p hp hwithin => not_mem_paths_iff.2 (hleft.erased p hp ((hstale p).2 ⟨hp, hwithin⟩))
  · exact fun p hp hbeside => hleft.kept p hp fun h => hbeside ((hstale p).1 h).2
  · rw [hleft.filter_paths]
  · exact fun p hp hcurrent => (hleft.file p hp).lookup_eq hcurrent
  · intro o ho
    refine run_congr fun op p htries => ho op p ?_
    rintro rfl
    cases htries with
    | put expanded file outdated => exact outdated

namespace Sample

/-- A script, one in a directory, and one in a directory whose name only starts alike. -/
def shelf : Disk :=
  ⟨.directory [
    ("a.js", .file (.text plainScript)), ("d", .directory [("b.js", .file (.text editedScript))]),
    ("d2", .directory [("x.js", .file (.text plainScript))])], "/"⟩

def search (outage : Outage) : Request :=
  { framework := "WebCore", selection := ⟨[], []⟩, paths := ["/a.js", "/d"], outage }

def entryFor (text : Text) : Text :=
  CacheEntry.text .literal
    { contentHash := contentHash text, framework := "WebCore", object := ⟨"a", none⟩, copyrightLines := none }

/-- The first script is cached, the second has been edited since, three more were deleted, and the last
entry is for the other directory. -/
def stock : Cache :=
  { objects := [
      ("/a.js", entryFor plainScript), ("/d/b.js", entryFor plainScript), ("/d/x.js", entryFor plainScript),
      ("/d/y.js", "?"), ("/d/z.js", entryFor editedScript), ("/d2/x.js", entryFor editedScript)] }

theorem outcome_shelf :
    ∃ result, (run shelf (search fun _ _ => none) (some stock)).outcome = .ok result ∧
      result.parsed = 1 ∧ result.cached = 1 ∧ result.pruned = 3 := by
  have hcounts : (run shelf (search fun _ _ => none) (some stock)).outcome.toOption.map
      (fun result => (result.parsed, result.cached, result.pruned)) = some (1, 1, 3) := by decide +kernel
  obtain ⟨result, hrun, hcounts⟩ := toOption_map_eq_some.1 hcounts
  exact ⟨result, hrun, by simpa using hcounts⟩

theorem run_entries_beside :
    expand shelf (search fun _ _ => none) = .ok ⟨["/a.js", "/d/b.js"], ["/d"]⟩ ∧
    ∃ result c', (run shelf (search fun _ _ => none) (some stock)).outcome = .ok result ∧
      result.parsed = 1 ∧ result.cached = 1 ∧ result.pruned = 3 ∧
      (run shelf (search fun _ _ => none) (some stock)).cache = some c' ∧
      IsCurrent shelf (search fun _ _ => none) c' "/d/b.js" ∧ Text.ofString "/d/y.js" ∉ c'.paths ∧
      c'.objects.lookup (Text.ofString "/d2/x.js") = some (entryFor editedScript) := by
  have hx : expand shelf (search fun _ _ => none) = .ok ⟨["/a.js", "/d/b.js"], ["/d"]⟩ := by decide +kernel
  obtain ⟨result, hrun, hparsed, hcached, hpruned⟩ := outcome_shelf
  obtain ⟨c', hc', _, _, hfiles, hgone, hkept, _⟩ := run_entries _ _ _ _ _ hx (by decide) hrun
  refine ⟨hx, result, c', hrun, hparsed, hcached, hpruned, hc', hfiles _ (by decide), ?_, ?_⟩
  · exact hgone "/d/y.js" (by decide) ⟨"/d", by decide, by decide⟩
  · rw [hkept "/d2/x.js" (by decide) (by decide)]
    decide +kernel

end Sample

theorem expand_eq_error (h : expand d r = .error e) : (∃ cause, e = .noSuchPath cause) ∨ ∃ cause, e = .walk cause := by
  have hpath {x : Expansion} {p : Text} (h : expandPath d r x p = .error e) :
      (∃ cause, e = .noSuchPath cause) ∨ ∃ cause, e = .walk cause := by
    simp only [expandPath] at h
    split at h
    next cause _ => exact Or.inl ⟨cause, (Except.error.inj h).symm⟩
    next => cases h
    next =>
      rcases bind_eq_error.1 h with h | ⟨_, _, h⟩
      · obtain ⟨cause, _, rfl⟩ := mapError_eq_error.1 h
        exact Or.inr ⟨cause, rfl⟩
      · cases h
  have hfold (paths : List Text) : ∀ x, paths.foldlM (expandPath d r) x = .error e →
      (∃ cause, e = .noSuchPath cause) ∨ ∃ cause, e = .walk cause := by
    induction paths with
    | nil =>
        intro x h
        cases h
    | cons p paths ih =>
        intro x h
        rcases bind_eq_error.1 h with h | ⟨y, _, h⟩
        · exact hpath h
        · exact ih y h
  exact hfold r.paths {} h

/-- Whether a file stops the run depends on nothing in the cache but its own entry. -/
theorem Stops.congr (hlookup : c'.objects.lookup p = c.objects.lookup p) (h : Stops d r (some c') p e) :
    Stops d r (some c) p e := by
  have hget : c'.get? p = c.get? p := Cache.get?_congr hlookup
  have houtdated : ¬ IsCurrent d r c' p → ¬ IsCurrent d r c p := mt (isCurrent_congr hlookup).2
  cases h with
  | read read => exact .read read
  | lookup read cached get =>
      obtain rfl := Option.some.inj cached
      exact .lookup read rfl (hget ▸ get)
  | parse read outdated parsed =>
      refine .parse read (fun c₁ hc₁ => ?_) parsed
      obtain rfl := Option.some.inj hc₁
      exact houtdated (outdated c' rfl)
  | store read cached outdated parsed put =>
      obtain rfl := Option.some.inj cached
      refine .store read rfl (houtdated outdated) parsed ?_
      unfold attempt at put ⊢
      split at put
      next message hm => exact put
      next =>
        -- whether something can be put does not depend on what the cache holds
        obtain ⟨err, herr, rfl⟩ := mapError_eq_error.1 put
        exact mapError_eq_error.2 ⟨err, Cache.put_eq_error_iff.2 (Cache.put_eq_error_iff.1 herr), rfl⟩

/-- What a run that ends in a failure leaves behind. Before the first file nothing happens. A file that
stops the run leaves the entries of the files before it, and a failure of the pruning those of all files,
without the stale ones before the path that could not be deleted. -/
def Aborted (d : Disk) (r : Request) (c : Cache) (left : Run) (e : Failure) : Prop :=
  match e with
  | .unknownFramework _ | .noSuchPath _ | .walk _ => left.progress = [] ∧ left.cache = some c
  | .read _ _ | .lookup _ | .parse _ | .store _ _ =>
    ∃ x before path after c', expand d r = .ok x ∧ x.files = before ++ path :: after ∧
      Stops d r (some c) path e ∧ left.progress = reports x.files.length before ∧ left.cache = some c' ∧
      Left d r before NoPath c c'
  | .list _ =>
    ∃ x c', expand d r = .ok x ∧ left.progress = reports x.files.length x.files ∧ left.cache = some c' ∧
      Left d r x.files NoPath c c'
  | .delete path _ =>
    ∃ x c', expand d r = .ok x ∧ left.progress = reports x.files.length x.files ∧ left.cache = some c' ∧
      path ∈ c.paths ∧ x.IsStale path ∧ Left d r x.files (fun p => x.IsStale p ∧ p < path) c c'

theorem reports_of_files {f : Framework} {total : Nat} {cache : Option Cache}
    (h : extractFiles d r total (start f cache) files = (s, none)) : s.progress = reports total files := by
  simpa [start, reports] using progress_of_files h

theorem aborted_of_stop {f : Framework} (hf : Framework.ofName? r.framework = some f) (hx : expand d r = .ok x)
    (h : extractFiles d r x.files.length (start f (some c)) x.files = (s, some e)) :
    Aborted d r c (run d r (some c)) e := by
  obtain ⟨before, path, after, s₁, hsplit, hbefore, hpath⟩ := extractFiles_eq_some h
  have hnodup := (isProper_expand hx).nodup
  rw [hsplit] at hnodup
  obtain ⟨hnodup₁, _, hapart⟩ := List.nodup_append.1 hnodup
  obtain ⟨c₁, hc₁, hleft, _⟩ := files_left rfl hnodup₁ hbefore
  have hnew : path ∉ before := fun hmem => hapart path hmem path (by simp) rfl
  cases step_of_eq hpath with
  | failed cache progress stops =>
      rw [hc₁] at stops cache
      have hstops := stops.congr (hleft.kept path hnew not_false)
      have hreports := progress.trans (reports_of_files hbefore)
      rw [run_of_files hf hx h]
      have hfile := And.intro hstops (And.intro hreports (And.intro cache hleft))
      cases hstops with
      | read | lookup | parse | store => exact ⟨x, before, path, after, c₁, hx, hsplit, hfile⟩

theorem aborted_of_prune {f : Framework} (hc : c.Ordered) (hx : expand d r = .ok x)
    (hs : extractFiles d r x.files.length (start f (some c)) x.files = (s, none))
    (h : (finish r x s).outcome = .error e) : Aborted d r c (finish r x s) e := by
  obtain ⟨c₁, hc₁, hleft, hkeys⟩ := files_left rfl (isProper_expand hx).nodup hs
  obtain ⟨c', gone, o, hpruned, hcache, hprogress, houtcome⟩ := finish_pruned (r := r) x hc₁
  have hreports := hprogress.trans (reports_of_files hs)
  have hstale := stalePaths_congr hkeys
  rw [houtcome] at h
  cases hpruned with
  | all => cases h
  | unlisted roots list =>
      obtain rfl := Except.error.inj h
      exact ⟨x, c₁, hx, hreports, hcache, hleft⟩
  | @stopped before after p message split delete =>
      obtain rfl := Except.error.inj h
      have hordered : (stalePaths x c₁.paths).Pairwise (· < ·) := by
        rw [hstale]
        exact hc.filter _
      have hp : p ∈ stalePaths x c.paths := by
        rw [← hstale, split]
        simp
      obtain ⟨hmem, hp⟩ := mem_stalePaths.1 hp
      exact ⟨x, _, hx, hreports, hcache, hmem, hp, hleft.stopped hordered split⟩

/-- A run that fails keeps the order of the cache, and what it leaves is known from its failure. -/
theorem run_aborted (d : Disk) (r : Request) (c : Cache) (e : Failure) (hc : c.Ordered)
    (h : (run d r (some c)).outcome = .error e) :
    (∃ c', (run d r (some c)).cache = some c' ∧ c'.Ordered) ∧ Aborted d r c (run d r (some c)) e := by
  refine ⟨run_keeps keeps_ordered hc, ?_⟩
  cases hf : Framework.ofName? r.framework with
  | none =>
      have hrun : run d r (some c) = { cache := some c, outcome := .error (.unknownFramework r.framework) } := by
        simp only [run, hf]
      rw [hrun] at h ⊢
      obtain rfl := Except.error.inj h
      exact ⟨rfl, rfl⟩
  | some f =>
      cases hx : expand d r with
      | error e' =>
          have hrun : run d r (some c) =
              { cache := some c, events := (start f (some c)).events, outcome := .error e' } := by
            simp only [run, hf, hx]
          rw [hrun] at h ⊢
          obtain rfl := Except.error.inj h
          rcases expand_eq_error hx with ⟨cause, rfl⟩ | ⟨cause, rfl⟩
          · exact ⟨rfl, rfl⟩
          · exact ⟨rfl, rfl⟩
      | ok x =>
          cases hs : extractFiles d r x.files.length (start f (some c)) x.files with
          | mk s o =>
              have hrun := run_of_files hf hx hs
              cases o with
              | some e' =>
                  rw [hrun] at h
                  obtain rfl := Except.error.inj h
                  exact aborted_of_stop hf hx hs
              | none =>
                  dsimp only at hrun
                  rw [hrun] at h ⊢
                  exact aborted_of_prune hc hx hs h

namespace Sample

def locked : Request :=
  search fun op p => if op = .delete ∧ p = Text.ofString "/d/y.js" then some "locked" else none

theorem run_aborted_locked :
    stock.Ordered ∧
    (run shelf locked (some stock)).outcome = .error (.delete "/d/y.js" (.outage "locked")) ∧
    ∃ c', (run shelf locked (some stock)).cache = some c' ∧
      c'.paths = ["/a.js", "/d/b.js", "/d/y.js", "/d/z.js", "/d2/x.js"] ∧
      (run shelf locked (some stock)).progress = [⟨1, 2, "/a.js"⟩, ⟨2, 2, "/d/b.js"⟩] ∧
      Aborted shelf locked stock (run shelf locked (some stock)) (.delete "/d/y.js" (.outage "locked")) := by
  have hordered : stock.Ordered := by decide
  have hrun : (run shelf locked (some stock)).outcome = .error (.delete "/d/y.js" (.outage "locked")) := by
    decide +kernel
  have hpaths : (run shelf locked (some stock)).cache.map Cache.paths =
      some [Text.ofString "/a.js", "/d/b.js", "/d/y.js", "/d/z.js", "/d2/x.js"] := by decide +kernel
  obtain ⟨c', hcache, hpaths⟩ := Option.map_eq_some_iff.1 hpaths
  exact ⟨hordered, hrun, c', hcache, hpaths, by decide +kernel,
    (run_aborted shelf locked stock _ hordered hrun).2⟩

end Sample

end BuiltinCatalog.Extraction
