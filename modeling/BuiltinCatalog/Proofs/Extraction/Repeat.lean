import BuiltinCatalog.Proofs.Collection.Scrub
import BuiltinCatalog.Proofs.Extraction.Remains

namespace BuiltinCatalog.Extraction

open Collection (Scrubs)

variable {d : Disk} {r : Request} {s s' p : State} {c c' : Cache} {path text : Text} {x : Expansion}
  {f : Framework}

theorem extractFile_of_get? {e : CacheEntry} (hc : s.cache = some c) (hread : readText d r path = .ok text)
    (hget : r.outage .get path = none) (hfound : c.get? path = .ok (some e))
    (hash : e.contentHash = contentHash text) (hframework : e.framework = r.framework) :
    extractFile d r s path = (reuse s path e, none) := by
  have hlookup : lookup r s path = .ok (some e) := (lookup_eq_ok_iff hc).2 ⟨hget, hfound⟩
  have hreusable : reusable? r (contentHash text) (some e) = some e :=
    reusable?_eq_some_iff.2 ⟨rfl, hash, hframework⟩
  simp only [extractFile, hread, hlookup, hreusable]

theorem EntryAfter.lookup_eq_stored {o : BuiltinObject} {ls : List Text} {bytes : Option Text}
    (h : EntryAfter d r c path bytes) (houtdated : ¬ IsCurrent d r c path) (hread : d.read path = .ok text)
    (hparse : Collection.readFile path text = .ok (o, ls)) :
    bytes = some ((freshEntry r text o ls).text r.dialect) := by
  cases h with
  | reused current => exact absurd current houtdated
  | stored outdated read parsed =>
      obtain rfl := Except.ok.inj (hread.symm.trans read)
      obtain ⟨rfl, rfl⟩ := Prod.mk.inj (Except.ok.inj (hparse.symm.trans parsed))
      rfl

/-- The state of a second run beside that of the first one, which will leave the given cache. -/
structure Echo (c' : Cache) (s p : State) : Prop where
  cache : p.cache = some c'
  parsed : p.parsed = 0
  cached : p.cached = s.parsed + s.cached
  functions : p.collection.functions.length = s.collection.functions.length

/-- A file that the second run takes from the cache, whether or not the first one did. -/
theorem Echo.reuse {e : CacheEntry} {o : BuiltinObject} {ls : List Text} (h : Echo c' s p)
    (hadds : Collection.Adds s.collection s'.collection o ls)
    (hcount : s'.parsed + s'.cached = s.parsed + s.cached + 1)
    (hlength : e.object.functionList.length = o.functionList.length) :
    Echo c' s' (Extraction.reuse p path e) where
  cache := h.cache
  parsed := h.parsed
  cached := by rw [Extraction.reuse, h.cached, hcount]
  functions := by
    have hadds' := Collection.adds_owning p.collection e.object (e.copyrightLines.getD [])
    rw [hadds.length_functions, ← h.functions, ← hlength]
    exact hadds'.length_functions.trans (congrArg _ (BuiltinObject.length_owning ..))

theorem Echo.file (h : Echo c' s p) (hf : Framework.ofName? r.framework = some f) (hc : s.cache = some c)
    (hstep : FileStep d r s path s' none) (hafter : EntryAfter d r c path (c'.objects.lookup path)) :
    ∃ p', extractFile d r p path = (p', none) ∧ Echo c' s' p' ∧
      (¬ IsCurrent d r c path → Scrubs s.collection p.collection → Scrubs s'.collection p'.collection) := by
  obtain ⟨text', e', hread', hfound', hash', hframework'⟩ := hafter.isCurrent hf
  cases hstep with
  | @hit text e read found hash framework =>
      obtain ⟨hget, hfound⟩ := (lookup_eq_ok_iff hc).1 found
      have hcurrent : IsCurrent d r c path := ⟨_, _, read_of_readText read, hfound, hash, framework⟩
      -- the run has left an entry that it could use as it was
      have hsame : c'.get? path = c.get? path := Cache.get?_congr (hafter.lookup_eq hcurrent)
      rw [← hsame] at hfound
      refine ⟨_, extractFile_of_get? h.cache read hget hfound hash framework, ?_, fun h => absurd hcurrent h⟩
      exact h.reuse (Collection.adds_owning s.collection e.object _) (Nat.add_assoc ..).symm
        (BuiltinObject.length_owning ..).symm
  | @miss text o ls cache events read parsed stored entry found unusable =>
      have houtdated := not_isCurrent_of_reusable? read found unusable hc
      -- now the entry is the scrubbed result of the file
      have hbytes := hafter.lookup_eq_stored houtdated (read_of_readText read) parsed
      have hfound : c'.get? path = .ok (some (freshEntry r text o ls).scrub) :=
        Cache.get?_eq_ok_some_iff.2 ⟨_, hbytes, (freshEntry r text o ls).read?_text r.dialect⟩
      obtain rfl := Option.some.inj (Except.ok.inj (hfound.symm.trans hfound'))
      obtain rfl := Except.ok.inj ((read_of_readText read).symm.trans hread')
      have howning := Collection.owning_of_readFile parsed
      have hadds : Collection.Adds s.collection _ o ls :=
        Collection.adds_append (f := s.collection.framework) s.collection howning
      have hadds' : Collection.Adds p.collection _ o.scrub ((Text.distinct ls).map Text.scrub) :=
        Collection.adds_add p.collection (BuiltinObject.owning_scrub howning) fun _ => Iff.rfl
      refine ⟨_, extractFile_of_get? h.cache read ((lookup_eq_ok_iff hc).1 found).1 hfound hash' hframework', ?_,
        fun _ hscrubs => hscrubs.adds hadds hadds'⟩
      refine h.reuse hadds (Nat.add_right_comm ..) ?_
      exact (congrArg List.length o.functionList_scrub).trans (List.length_map ..)

theorem Echo.files {files : List Text} {total : Nat} (h : Echo c' s p)
    (hf : Framework.ofName? r.framework = some f) (hc : s.cache = some c) (hnodup : files.Nodup)
    (hs : extractFiles d r total s files = (s', none))
    (hafter : ∀ q ∈ files, EntryAfter d r c q (c'.objects.lookup q)) :
    ∃ p', extractFiles d r total p files = (p', none) ∧ Echo c' s' p' ∧
      ((∀ q ∈ files, ¬ IsCurrent d r c q) → Scrubs s.collection p.collection →
        Scrubs s'.collection p'.collection) := by
  induction files generalizing s p c with
  | nil =>
      obtain ⟨rfl, -⟩ := Prod.mk.inj hs
      exact ⟨p, rfl, h, fun _ hscrubs => hscrubs⟩
  | cons path files ih =>
      obtain ⟨hpath, hnodup⟩ := List.nodup_cons.1 hnodup
      obtain ⟨s₁, hstep, hs⟩ := extractFiles_cons_eq_none hs
      obtain ⟨p₁, hp₁, hecho, hscrubs₁⟩ := h.file hf hc (step_of_eq hstep) (hafter path (by simp))
      obtain ⟨c₁, hc₁, hleft, _⟩ := (step_of_eq hstep).left hc
      -- the entries of the files to come are still those from the start of the run
      have hkept {q : Text} (hq : q ∈ files) : c₁.objects.lookup q = c.objects.lookup q :=
        hleft.kept_of_ne (ne_of_mem_of_not_mem hq hpath)
      obtain ⟨p', hp', hecho', hscrubs⟩ := ih (s := s₁.report total path) (p := p₁.report total path)
        ⟨hecho.cache, hecho.parsed, hecho.cached, hecho.functions⟩ hc₁ hnodup hs
        fun q hq => (hafter q (by simp [hq])).congr (hkept hq).symm
      refine ⟨p', ?_, hecho', fun houtdated h₀ => hscrubs ?_ ?_⟩
      · rw [extractFiles, hp₁]
        exact hp'
      · exact fun q hq => mt (isCurrent_congr (hkept hq)).1 (houtdated q (by simp [hq]))
      · exact hscrubs₁ (houtdated path (by simp)) h₀

theorem Left.stalePaths_eq_nil (h : Left d r x.files x.IsStale c c') : stalePaths x c'.paths = [] := by
  refine List.eq_nil_iff_forall_not_mem.2 fun q hq => ?_
  obtain ⟨hmem, hstale⟩ := mem_stalePaths.1 hq
  exact not_mem_paths_iff.2 (h.erased q hstale.1 hstale) hmem

theorem finish_idle (hc : s.cache = some c) (hlisted : x.roots = [] ∨ r.outage .list [] = none)
    (hstale : stalePaths x c.paths = []) :
    (finish r x s).cache = some c ∧ (finish r x s).outcome = .ok ⟨s.collection, s.parsed, s.cached, 0⟩ := by
  obtain ⟨c', gone, o, hpruned, hcache, _, houtcome⟩ := finish_pruned (r := r) x hc
  cases hpruned with
  | all listed =>
      rw [hstale] at hcache houtcome
      exact ⟨hcache, houtcome⟩
  | unlisted roots list =>
      rw [list] at hlisted
      exact absurd hlisted (by simp [roots])
  | stopped split delete =>
      rw [hstale] at split
      simp at split

theorem run_of_current {o : Outage} (ho : ∀ op q, op ≠ .put → op ≠ .delete → o op q = r.outage op q)
    (hx : expand d r = .ok x) (hcurrent : ∀ q ∈ x.files, IsCurrent d r c q)
    (hstale : stalePaths x c.paths = []) : run d { r with outage := o } (some c) = run d r (some c) := by
  refine run_congr fun op q htries => ?_
  cases htries with
  | put expanded file outdated =>
      obtain rfl := Except.ok.inj (hx.symm.trans expanded)
      exact absurd (hcurrent q file) outdated
  | delete expanded stale =>
      obtain rfl := Except.ok.inj (hx.symm.trans expanded)
      rw [hstale] at stale
      cases stale
  | walk | read | get | list => exact ho _ _ (by decide) (by decide)

theorem run_echo {result : Result} {o : Outage}
    (ho : ∀ op q, op ≠ .put → op ≠ .delete → o op q = r.outage op q)
    (h : (run d r (some c)).outcome = .ok result) :
    ∃ x s c' p, expand d r = .ok x ∧ result.collection = s.collection ∧ result.parsed = s.parsed ∧
      result.cached = s.cached ∧ s.parsed + s.cached = x.files.length ∧
      (run d r (some c)).cache = some c' ∧ (run d { r with outage := o } (some c')).cache = some c' ∧
      (run d { r with outage := o } (some c')).outcome = .ok ⟨p.collection, p.parsed, p.cached, 0⟩ ∧
      Echo c' s p ∧ ((∀ q ∈ x.files, ¬ IsCurrent d r c q) → Scrubs s.collection p.collection) := by
  obtain ⟨f, x, s, c', hf, hx, hs, hlisted, hcache, hleft, rfl⟩ := run_left h
  have hstart : Echo c' (start f (some c)) (start f (some c')) := ⟨rfl, rfl, rfl, rfl⟩
  obtain ⟨p, hp, hecho, hscrubs⟩ := hstart.files hf rfl (isProper_expand hx).nodup hs hleft.file
  obtain ⟨hcache', houtcome⟩ := finish_idle hecho.cache hlisted hleft.stalePaths_eq_nil
  have hcount : s.parsed + s.cached = x.files.length := by simpa [start] using count_of_files hs
  have hrun : run d { r with outage := o } (some c') = finish r x p := by
    rw [run_of_current ho hx (fun q hq => (hleft.file q hq).isCurrent hf) hleft.stalePaths_eq_nil]
    exact run_of_files hf hx hp
  rw [← hrun] at hcache' houtcome
  exact ⟨x, s, c', p, hx, rfl, rfl, rfl, hcount, hcache, hcache', houtcome, hecho,
    fun houtdated => hscrubs houtdated ⟨rfl, rfl, by simp [start]⟩⟩

/-- A run that is repeated finds every file in the cache and leaves the cache alone, so that it passes even
if nothing can be stored or deleted any more. -/
theorem run_again (d : Disk) (r : Request) (c : Cache) (result : Result) (o : Outage)
    (ho : ∀ op q, op ≠ .put → op ≠ .delete → o op q = r.outage op q)
    (h : (run d r (some c)).outcome = .ok result) :
    ∃ x c' again, expand d r = .ok x ∧ result.parsed + result.cached = x.files.length ∧
      (run d r (some c)).cache = some c' ∧
      (run d { r with outage := o } (some c')).cache = some c' ∧
      (run d { r with outage := o } (some c')).outcome = .ok again ∧
      again.parsed = 0 ∧ again.cached = x.files.length ∧ again.pruned = 0 ∧
      again.functionCount = result.functionCount := by
  obtain ⟨x, s, c', p, hx, hcollection, hparsed, hcached, hcount, hcache, hcache', houtcome, hecho, _⟩ :=
    run_echo ho h
  refine ⟨x, c', _, hx, ?_, hcache, hcache', houtcome, hecho.parsed, hecho.cached.trans hcount, rfl, ?_⟩
  · rw [hparsed, hcached, hcount]
  · rw [Result.functionCount, Result.functionCount, hcollection]
    exact hecho.functions

namespace Sample

def readOnly : Outage := fun op _ => if op = .put ∨ op = .delete then some "read-only" else none

theorem run_again_read_only :
    (∀ op q, op ≠ .put → op ≠ .delete → readOnly op q = (search fun _ _ => none).outage op q) ∧
    ∃ result c' again, (run shelf (search fun _ _ => none) (some stock)).outcome = .ok result ∧
      result.parsed = 1 ∧ result.cached = 1 ∧ result.pruned = 3 ∧
      (run shelf (search fun _ _ => none) (some stock)).cache = some c' ∧
      (run shelf (search readOnly) (some c')).cache = some c' ∧
      (run shelf (search readOnly) (some c')).outcome = .ok again ∧
      again.parsed = 0 ∧ again.cached = 2 ∧ again.pruned = 0 ∧
      again.functionCount = result.functionCount := by
  have ho : ∀ op q, op ≠ .put → op ≠ .delete → readOnly op q = (search fun _ _ => none).outage op q := by
    intro op q hput hdelete
    simp [readOnly, search, hput, hdelete]
  obtain ⟨result, hrun, hparsed, hcached, hpruned⟩ := outcome_shelf
  obtain ⟨x, c', again, _, hcount, hcache, hsecond⟩ :=
    run_again shelf (search fun _ _ => none) stock result readOnly ho hrun
  rw [← hcount, hparsed, hcached] at hsecond
  exact ⟨ho, result, c', again, hrun, hparsed, hcached, hpruned, hcache, hsecond⟩

end Sample

theorem not_isCurrent_of_empty (hempty : c.objects = []) : ¬ IsCurrent d r c path := by
  rintro ⟨_, e, _, hget, _⟩
  simp [Cache.get?, hempty] at hget

/-- A run that starts from an empty cache and is repeated returns the same with all stray bytes replaced.
The manifest is the same exactly if it had none. -/
theorem run_again_manifest (d : Disk) (r : Request) (c : Cache) (result : Result) (o : Outage)
    (hempty : c.objects = []) (ho : ∀ op q, op ≠ .put → op ≠ .delete → o op q = r.outage op q)
    (h : (run d r (some c)).outcome = .ok result) :
    ∃ c' again, (run d r (some c)).cache = some c' ∧
      (run d { r with outage := o } (some c')).outcome = .ok again ∧
      again.collection.objects = result.collection.objects.map BuiltinObject.scrub ∧
      again.collection.copyrightLines = Text.distinct (result.collection.copyrightLines.map Text.scrub) ∧
      (again.collection.manifest = result.collection.manifest ↔ result.collection.manifest.IsUtf8) := by
  obtain ⟨x, s, c', p, _, hcollection, _, _, _, hcache, _, houtcome, _, hscrubs⟩ := run_echo ho h
  have hscrubs := hscrubs fun _ _ => not_isCurrent_of_empty hempty
  rw [← hcollection] at hscrubs
  exact ⟨c', _, hcache, houtcome, hscrubs.objects, hscrubs.copyrightLines, hscrubs.manifest_eq_iff⟩

namespace Sample

def stray : Disk := disk (Text.ofString "/**/function f() \x7b" ++ [0xFF] ++ Text.ofString "\x7d")

def single : Request := { request (fun _ _ => none) with paths := ["/a.js"] }

theorem run_again_manifest_stray :
    ({} : Cache).objects = [] ∧
    ∃ result c' again, (run stray single (some {})).outcome = .ok result ∧
      (run stray single (some {})).cache = some c' ∧ (run stray single (some c')).outcome = .ok again ∧
      again.collection.objects = result.collection.objects.map BuiltinObject.scrub ∧
      (again.collection.manifest = result.collection.manifest ↔ result.collection.manifest.IsUtf8) := by
  have hparsed : (run stray single (some {})).outcome.toOption.map Result.parsed = some 1 := by decide +kernel
  obtain ⟨result, hrun, _⟩ := toOption_map_eq_some.1 hparsed
  obtain ⟨c', again, hcache, houtcome, hobjects, _, hmanifest⟩ :=
    run_again_manifest stray single {} result single.outage rfl (fun _ _ _ _ => rfl) hrun
  exact ⟨rfl, result, c', again, hrun, hcache, houtcome, hobjects, hmanifest⟩

def manifest? (run : Run) : Option Manifest := run.outcome.toOption.map fun result => result.collection.manifest

def sources? (run : Run) : Option (List Text) := (manifest? run).map fun m => m.functionList.map Builtin.source

def cold : Run := run stray single (some {})

def warm : Run := run stray single cold.cache

/-- The byte comes back from the cache as the replacement character. -/
theorem stray_byte_replaced :
    sources? cold = some [Text.ofString "function f() \x7b" ++ [0xFF] ++ Text.ofString "\x7d"] ∧
    sources? warm = some [Text.ofString "function f() \x7b" ++ [0xEF, 0xBF, 0xBD] ++ Text.ofString "\x7d"] ∧
    manifest? warm ≠ manifest? cold := by
  decide +kernel

end Sample

end BuiltinCatalog.Extraction
