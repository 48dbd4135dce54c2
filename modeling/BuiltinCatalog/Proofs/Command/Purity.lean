import BuiltinCatalog.Proofs.Cache.Purity
import BuiltinCatalog.Proofs.Command.Effects

namespace BuiltinCatalog

namespace Project

open BuiltinCatalog.Path

variable {current root : Text}

theorem isName_builtins : IsName (Text.ofString ".builtins") :=
  ⟨by decide, by decide, by decide, by decide⟩

theorem isName_cache : IsName (Text.ofString "cache.db") :=
  ⟨by decide, by decide, by decide, by decide⟩

theorem resolve_ownDirectory (hcur : isAbsolute current = true) (hroot : root ≠ []) :
    resolve current (root ++ slash :: Text.ofString ".builtins") =
      resolve current root ++ [Text.ofString ".builtins"] := by
  rw [resolve_append hcur hroot, follow_name isName_builtins]

theorem resolve_cacheFile (hcur : isAbsolute current = true) (hroot : root ≠ []) :
    resolve current (cacheFile root) =
      resolve current root ++ [Text.ofString ".builtins", Text.ofString "cache.db"] := by
  have hjoin : cacheFile root =
      clean (root ++ slash :: (Text.ofString ".builtins" ++ slash :: Text.ofString "cache.db")) := by
    rw [cacheFile, join, List.dropWhile_cons_of_neg (by simpa using hroot)]
    simp [List.intercalate_cons_cons, List.intercalate_singleton]
  rw [hjoin, resolve_clean hcur, resolve_append hcur hroot, follow_append, follow_name isName_builtins,
    follow_name isName_cache, List.append_assoc]
  rfl

end Project

namespace Command

open BuiltinCatalog.Path Disk

variable {root : List Text} {d d' : Disk} {s s' : State} {c : Context} {o : Options} {x : Conditions}

def ownPlace (root : List Text) : List Text := root ++ [Text.ofString ".builtins"]

def cachePlace (root : List Text) : List Text := root ++ [Text.ofString ".builtins", Text.ofString "cache.db"]

theorem cachePlace_eq (root : List Text) : cachePlace root = ownPlace root ++ [Text.ofString "cache.db"] := by
  simp [cachePlace, ownPlace]

/-- The project has no cache, or a pure one. -/
structure Tidy (root : List Text) (d : Disk) : Prop where
  current : isAbsolute d.current = true
  cache : d.tree.get? (cachePlace root) = none ∨
    ∃ c, d.tree.get? (cachePlace root) = some (.file (.cache c)) ∧ c.IsPure

theorem Tidy.isLeaf (h : Tidy root d) : d.IsLeaf (cachePlace root) := by
  intro es hes
  rcases h.cache with hnone | ⟨c, hc, _⟩
  · simp [hes] at hnone
  · simp [hes] at hc

theorem Tidy.of_untouched (h : Tidy root d) (hu : Untouched (cachePlace root) d d') : Tidy root d' := by
  constructor
  · rw [hu.current]
    exact h.current
  · rw [hu.get]
    exact h.cache

theorem Tidy.save {cache : Cache} (h : Tidy root d) (hc : cache.IsPure) :
    Tidy root (d.saveCache (cachePlace root) cache) :=
  ⟨h.current, Or.inr ⟨cache, get?_fill d _ _, hc⟩⟩

structure IsRoot (root : List Text) (d : Disk) (c : Context) : Prop where
  ne_nil : c.root ≠ []
  place : resolve d.current c.root = root

theorem IsRoot.of_current (h : IsRoot root d c) (hcur : d'.current = d.current) : IsRoot root d' c :=
  ⟨h.ne_nil, by rw [hcur, h.place]⟩

theorem IsRoot.isName (h : IsRoot root d c) (hcur : isAbsolute d.current = true) :
    ∀ n ∈ cachePlace root, IsName n := by
  intro n hn
  rcases List.mem_append.1 hn with hn | hn
  · rw [← h.place] at hn
    exact isName_of_mem_resolve hcur hn
  · rcases List.mem_pair.1 hn with rfl | rfl
    · exact Project.isName_builtins
    · exact Project.isName_cache

theorem ownDirectory_untouched {e : Option MakeError} (h : Tidy root d) (hroot : IsRoot root d c)
    (hmade : makeWay x (Project.ownDirectory c.root) d = (d', e)) : Untouched (cachePlace root) d d' := by
  rw [Project.ownDirectory, join_pair hroot.ne_nil] at hmade
  obtain ⟨ps, hps, rfl⟩ := makeWay_eq hmade
  refine madeInTurn_untouched_of_way h.current h.isLeaf (hroot.isName h.current) (fun hway => ?_) hps
  rw [Project.resolve_ownDirectory h.current hroot.ne_nil, hroot.place] at hway
  have hlen := hway.length_le
  simp [cachePlace] at hlen

theorem opened_isPure {place : List Text} {cache : Cache} (h : Tidy root d) (hroot : IsRoot root d c)
    (hopen : d.openCache (Project.cacheFile c.root) = .ok (d', place, cache)) :
    place = cachePlace root ∧ d' = d.saveCache place cache ∧ cache.IsPure := by
  obtain ⟨hplace, hd, hcache⟩ := openCache_eq_ok h.current hopen
  rw [Project.resolve_cacheFile h.current hroot.ne_nil, hroot.place] at hplace
  refine ⟨hplace, hd, ?_⟩
  rcases hcache with rfl | hget
  · exact Or.inl Cache.isFresh_empty
  · rw [hplace] at hget
    rcases h.cache with hnone | ⟨old, hold, hpure⟩
    · exact absurd (hnone.symm.trans hget) (by simp)
    · cases hold.symm.trans hget
      exact hpure

/-- Opening leaves the disk tidy wherever it ends, and where it succeeds the cache serves the framework. -/
theorem openCache_tidy {f : Framework} {opened : Except Failure (List Text × Cache)} (h : Tidy root s.disk)
    (hroot : IsRoot root s.disk c) (hf : Framework.ofName? c.settings.extract.framework = some f)
    (hopen : openCache c x s = (s', opened)) :
    Tidy root s'.disk ∧ s'.disk.current = s.disk.current ∧
      ∀ place cache, opened = .ok (place, cache) → place = cachePlace root ∧ cache.IsFor f ∧
        s'.disk.tree.get? (cachePlace root) = some (.file (.cache cache)) := by
  have hopened {d₁ d₂ : Disk} {place : List Text} {cache : Cache}
      (hmade : makeWay x (Project.ownDirectory c.root) s.disk = (d₁, none))
      (hd : d₁.openCache (Project.cacheFile c.root) = .ok (d₂, place, cache)) :
      place = cachePlace root ∧ Tidy root d₂ ∧ d₂.current = s.disk.current ∧ cache.IsPure := by
    have hown := ownDirectory_untouched h hroot hmade
    have h₁ := h.of_untouched hown
    obtain ⟨rfl, rfl, hpure⟩ := opened_isPure h₁ (hroot.of_current hown.current) hd
    exact ⟨rfl, h₁.save hpure, hown.current, hpure⟩
  have hprepare {cache cache' : Cache} {outcome : Except CacheError Text} (hpure : cache.IsPure)
      (hp : cache.prepare x.dialect c.settings.extract.framework x.preparing = (cache', outcome)) :
      cache'.IsPure ∧ ∀ reason, outcome = .ok reason → cache'.IsFor f := by
    have hprepared := Cache.prepare_prepared x.dialect cache c.settings.extract.framework x.preparing
    rw [hp, ← Framework.name_of_ofName? hf] at hprepared
    exact hpure.prepared hprepared
  have hopens := opens_openCache hopen
  generalize s'.disk = d' at hopens ⊢
  cases hopens with
  | blocked hmade =>
      have hown := ownDirectory_untouched h hroot hmade
      exact ⟨h.of_untouched hown, hown.current, by simp⟩
  | refused e hmade =>
      have hown := ownDirectory_untouched h hroot hmade
      exact ⟨h.of_untouched hown, hown.current, by simp⟩
  | interrupted message hmade hd =>
      obtain ⟨-, h₂, hcur, -⟩ := hopened hmade hd
      exact ⟨h₂, hcur, by simp⟩
  | unprepared e hmade hd hp =>
      obtain ⟨rfl, h₂, hcur, hpure⟩ := hopened hmade hd
      exact ⟨h₂.save (hprepare hpure hp).1, hcur, by simp⟩
  | ready reason hmade hd hp =>
      obtain ⟨rfl, h₂, hcur, hpure⟩ := hopened hmade hd
      obtain ⟨hpure', hfor⟩ := hprepare hpure hp
      refine ⟨h₂.save hpure', hcur, fun place cache he => ?_⟩
      obtain ⟨rfl, rfl⟩ := Prod.mk.inj (Except.ok.inj he)
      exact ⟨rfl, hfor reason rfl, get?_fill _ _ _⟩

theorem extract_tidy {f : Framework} {useCache : Bool} {result : Except Failure Extraction.Result}
    (h : Tidy root s.disk) (hroot : IsRoot root s.disk c)
    (hf : Framework.ofName? c.settings.extract.framework = some f)
    (hextract : extract c o x useCache s = (s', result)) :
    Tidy root s'.disk ∧ s'.disk.current = s.disk.current := by
  have hextracts := extracts_extract hextract
  cases hextracts with
  | refused => exact ⟨h, rfl⟩
  | unopened uses opened =>
      obtain ⟨h₁, hcur, _⟩ := openCache_tidy h hroot hf opened
      exact ⟨h₁, hcur⟩
  | @cached s₁ place cache run uses opened runs =>
      obtain ⟨h₁, hcur, hcache⟩ := openCache_tidy h hroot hf opened
      obtain ⟨rfl, hfor, _⟩ := hcache place cache rfl
      -- the run keeps the entries to the framework, whether it succeeds or not
      have hkeeps : Extraction.Keeps s₁.disk (request c o x) (Cache.IsFor f) :=
        Cache.keeps_isFor (Framework.name_of_ofName? hf).symm
      obtain ⟨cache', hrun, hfor'⟩ := Extraction.run_keeps hkeeps hfor
      rw [← runs, hrun]
      exact ⟨h₁.save (Or.inr ⟨f, hfor'⟩), hcur⟩
  | plain runs => exact ⟨h, rfl⟩

theorem disk_runFunctions : (runFunctions c o x s).1.disk = (extract c o x true s).1.disk := by
  unfold runFunctions
  split
  next hextract => rw [hextract]
  next hextract =>
    rw [hextract]
    rfl

theorem disk_runCopyrights : (runCopyrights c o x s).1.disk = (extract c o x true s).1.disk := by
  unfold runCopyrights
  split
  next hextract => rw [hextract]
  next hextract =>
    rw [hextract]
    rfl

theorem Writes.untouched {format : Format} {package path : Text} {m : Manifest} {e : Option Failure}
    (h : Tidy root d) (hnames : ∀ n ∈ cachePlace root, IsName n)
    (hpath : ¬ ownPlace root <+: resolve d.current path) (hwrites : Writes x format package path m d d' e) :
    Untouched (cachePlace root) d d' := by
  have hway : ¬ cachePlace root <+: resolve d.current (leadingPart path) := by
    rw [cachePlace_eq]
    intro hway
    apply hpath
    rw [resolve_eq_follow_lastPart h.current path]
    exact prefix_follow_component (fun n hn => isName_of_mem_resolve h.current hn)
      (slash_not_mem_lastPart path) hway
  have hne : cachePlace root ≠ resolve d.current path := by
    intro heq
    apply hpath
    rw [← heq, cachePlace_eq]
    exact List.prefix_append _ _
  have hmakes {d₁ : Disk} {e : Option MakeError} (hmade : makeWay x (Path.parent path) d = (d₁, e)) :
      Untouched (cachePlace root) d d₁ := by
    obtain ⟨ps, hps, rfl⟩ := makeWay_eq hmade
    exact madeInTurn_untouched_of_way h.current h.isLeaf hnames hway hps
  have hfills {d₁ : Disk} {place : List Text} {old : Option Content} {content : Content}
      (hmade : makeWay x (Path.parent path) d = (d₁, none)) (htarget : d₁.target path = .ok (place, old)) :
      Untouched (cachePlace root) d (d₁.fill place content) := by
    have hdirs := hmakes hmade
    have h₁ := h.of_untouched hdirs
    rw [← hdirs.current] at hne
    exact hdirs.trans (fill_untouched h₁.current h₁.isLeaf hne htarget)
  cases hwrites with
  | blocked hmade => exact hmakes hmade
  | refused e hmade => exact hmakes hmade
  | cut hmade htarget _ => exact hfills hmade htarget
  | written hmade htarget _ => exact hfills hmade htarget

theorem prepare_eq_ok (h : prepare d o = .ok c) :
    c.root = rootOf d o ∧ ∃ f, Framework.ofName? c.settings.extract.framework = some f := by
  unfold prepare at h
  obtain ⟨settings, _, h⟩ := bind_eq_ok.1 h
  dsimp only at h
  split at h
  next => cases h
  next hf =>
    obtain ⟨level, _, h⟩ := bind_eq_ok.1 h
    obtain rfl := Except.ok.inj h
    exact ⟨rfl, Option.ne_none_iff_exists'.1 (by simpa using hf)⟩

/-- A command works in the project, and its output is not among the project's own files. -/
structure Allowed (root : List Text) (d : Disk) (job : Job) (o : Options) (c : Context) : Prop where
  place : resolve d.current c.root = root
  output : job = .extract → outputPath c o ≠ [] → ¬ ownPlace root <+: resolve d.current (outputPath c o)

theorem runExtract_tidy {f : Framework} {e : Option Failure} (h : Tidy root s.disk)
    (hroot : IsRoot root s.disk c) (hf : Framework.ofName? c.settings.extract.framework = some f)
    (hpath : outputPath c o ≠ [] → ¬ ownPlace root <+: resolve s.disk.current (outputPath c o))
    (hrun : runExtract c o x s = (s', e)) : Tidy root s'.disk := by
  have hemits := emits_runExtract hrun
  generalize s'.disk = d' at hemits ⊢
  cases hemits with
  | unsupported => exact h
  | unextracted known extracted => exact (extract_tidy h hroot hf extracted).1
  | printed known extracted => exact (extract_tidy h hroot hf extracted).1
  | written known extracted path writes =>
      obtain ⟨h₁, hcur⟩ := extract_tidy h hroot hf extracted
      rw [← hcur] at hpath
      exact h₁.of_untouched (writes.untouched h₁ (hroot.isName h.current) (hpath path))

theorem runJob_tidy {f : Framework} {job : Job} (h : Tidy root s.disk)
    (hc : c.root ≠ []) (hf : Framework.ofName? c.settings.extract.framework = some f)
    (hallowed : Allowed root s.disk job o c) : Tidy root (runJob job c o x s).1.disk := by
  have hroot : IsRoot root s.disk c := ⟨hc, hallowed.place⟩
  cases job with
  | help => exact h
  | extract => exact runExtract_tidy h hroot hf (hallowed.output rfl) rfl
  | functions =>
      rw [runJob, disk_runFunctions]
      exact (extract_tidy h hroot hf rfl).1
  | copyrights =>
      rw [runJob, disk_runCopyrights]
      exact (extract_tidy h hroot hf rfl).1

theorem run_tidy {args : List Text} (h : Tidy root d)
    (hallowed : ∀ job o c, parse args = .ok (job, o) → prepare d o = .ok c → Allowed root d job o c) :
    Tidy root (run d args x).disk := by
  unfold run
  split
  next => exact h
  next => exact h
  next job o _ hparse =>
    split
    next => exact h
    next c hprepare =>
      obtain ⟨hroot, f, hf⟩ := prepare_eq_ok hprepare
      have hne : c.root ≠ [] := by
        rw [hroot, rootOf, chosen]
        split
        next => exact ne_nil_of_isAbsolute h.current
        next hdir => exact hdir
      exact runJob_tidy (s := { disk := d }) h hne hf (hallowed job o c hparse hprepare)

/-- Files are edited in any way, or a command line is run. -/
inductive Act where
  | edit (d : Disk)
  | command (args : List Text) (x : Conditions)

def next (d : Disk) : Act → Disk
  | .edit e => e
  | .command args x => (run d args x).disk

def after (d : Disk) (acts : List Act) : Disk := acts.foldl next d

/-- Edits do not touch the cache, and commands are allowed. -/
def Confined (root : List Text) (d : Disk) : List Act → Prop
  | [] => True
  | .edit e :: acts =>
    isAbsolute e.current = true ∧ e.tree.get? (cachePlace root) = d.tree.get? (cachePlace root) ∧
      Confined root e acts
  | .command args x :: acts =>
    (∀ job o c, parse args = .ok (job, o) → prepare d o = .ok c → Allowed root d job o c) ∧
      Confined root (run d args x).disk acts

theorem Tidy.after (h : Tidy root d) {acts : List Act} (hacts : Confined root d acts) :
    Tidy root (after d acts) := by
  induction acts generalizing d with
  | nil => exact h
  | cons a acts ih =>
      cases a with
      | edit e =>
          obtain ⟨hcur, hget, hacts⟩ := hacts
          have hedit : Tidy root e := ⟨hcur, by rw [hget]; exact h.cache⟩
          exact ih hedit hacts
      | command args x =>
          obtain ⟨hallowed, hacts⟩ := hacts
          exact ih (run_tidy h hallowed) hacts

/-- A project that starts without a cache has a pure one after any history of commands and edits. So a
command that has opened the cache finds there only entries of its own framework. -/
theorem cache_isPure (root : List Text) (d : Disk) (acts : List Act) (hcur : isAbsolute d.current = true)
    (hnone : d.tree.get? (cachePlace root) = none) (hacts : Confined root d acts) :
    ((after d acts).tree.get? (cachePlace root) = none ∨
      ∃ c, (after d acts).tree.get? (cachePlace root) = some (.file (.cache c)) ∧ c.IsPure) ∧
    ∀ (c : Context) (f : Framework) (x : Conditions) (s s' : State) (place : List Text) (cache : Cache),
      s.disk = after d acts → c.root ≠ [] → resolve s.disk.current c.root = root →
      Framework.ofName? c.settings.extract.framework = some f →
      openCache c x s = (s', .ok (place, cache)) →
        s'.disk.tree.get? (cachePlace root) = some (.file (.cache cache)) ∧ cache.IsFor f := by
  have htidy : Tidy root (after d acts) := Tidy.after ⟨hcur, Or.inl hnone⟩ hacts
  refine ⟨htidy.cache, ?_⟩
  intro c f x s s' place cache hs hne hroot hf hopen
  rw [← hs] at htidy
  obtain ⟨_, _, hcache⟩ := openCache_tidy htidy ⟨hne, hroot⟩ hf hopen
  obtain ⟨_, hfor, hget⟩ := hcache place cache rfl
  exact ⟨hget, hfor⟩

namespace Sample

def project : Disk :=
  ⟨.directory [("p", .directory [("a.js", .file (.text "/**/function f() \x7b\x7d"))])], "/p"⟩

def switch : List Act := [
  .command ["functions"] {},
  .command ["functions", "--framework", "WebCore"]
    { preparing := fun stage => if stage = .record then some "full" else none }]

def edited : Disk :=
  ⟨(after project switch).tree.put (.file (.text "/**/function g() \x7b\x7d")) [Text.ofString "p", "a.js"], "/p"⟩

def history : List Act := switch ++ [
  .edit edited,
  .command ["extract", "--framework", "WebCore", "-o", "out/m.json"] {}]

def context (framework : Text) : Context := ⟨"/p", { extract := { framework } }, 0⟩

theorem allowed_of_eq {args : List Text} (job : Job) (o : Options) (c : Context)
    (hparse : parse args = .ok (job, o)) (hprepare : prepare d o = .ok c) (h : Allowed root d job o c) :
    ∀ job o c, parse args = .ok (job, o) → prepare d o = .ok c → Allowed root d job o c := by
  intro job' o' c' hparse' hprepare'
  obtain ⟨rfl, rfl⟩ := Prod.mk.inj (Except.ok.inj (hparse.symm.trans hparse'))
  obtain rfl := Except.ok.inj (hprepare.symm.trans hprepare')
  exact h

theorem confined_history : Confined [Text.ofString "p"] project history := by
  refine ⟨?_, ?_, rfl, ?_, ?_, trivial⟩
  · exact allowed_of_eq .functions {} (context "JavaScriptCore") (by decide +kernel) (by decide +kernel)
      ⟨by decide +kernel, by decide⟩
  · exact allowed_of_eq .functions { framework := "WebCore" } (context "WebCore") (by decide +kernel)
      (by decide +kernel) ⟨by decide +kernel, by decide⟩
  · exact Tree.get?_put_apart (by decide) (by decide)
  · exact allowed_of_eq .extract { framework := "WebCore", output := "out/m.json" } (context "WebCore")
      (by decide +kernel) (by decide +kernel) ⟨by decide +kernel, by decide +kernel⟩

/-- The schema and the paths of the cache. -/
def cached (d : Disk) : Option (Option (Int × Text) × List Text) :=
  match d.tree.get? (cachePlace [Text.ofString "p"]) with
  | some (.file (.cache c)) => some (c.schema.toOption, c.paths)
  | _ => none

/-- The switch that fails leaves a cache without entries, which the next one takes over. -/
theorem cache_isPure_after_switches :
    Confined [Text.ofString "p"] project history ∧
    cached (after project switch) =
      some (some (Cache.currentVersion, Cache.settingsHash .literal "JavaScriptCore"), []) ∧
    cached (after project history) =
      some (some (Cache.currentVersion, Cache.settingsHash .literal "WebCore"), [Text.ofString "/p/a.js"]) ∧
    ((after project history).tree.get? (cachePlace [Text.ofString "p"]) = none ∨
      ∃ c, (after project history).tree.get? (cachePlace [Text.ofString "p"]) = some (.file (.cache c)) ∧
        c.IsPure) :=
  ⟨confined_history, by decide +kernel, by decide +kernel,
    (cache_isPure [Text.ofString "p"] project history rfl rfl confined_history).1⟩

end Sample

end Command

end BuiltinCatalog
