import BuiltinCatalog.Command.Run
import BuiltinCatalog.Proofs.Files.Frame

namespace BuiltinCatalog.Command

open Disk

variable {d d' : Disk} {s s' : State} {c : Context} {o : Options} {x : Conditions}

theorem makeWay_eq {p : Text} {e : Option MakeError} (h : makeWay x p d = (d', e)) :
    ∃ ps, ps ⊆ ancestry p ∧ d' = d.madeInTurn ps := by
  unfold makeWay at h
  split at h
  next cut _ =>
    obtain ⟨rfl, -⟩ := Prod.mk.inj h
    exact ⟨_, List.take_subset _ _, rfl⟩
  next =>
    split at h
    next d₁ hd₁ =>
      obtain ⟨rfl, -⟩ := Prod.mk.inj h
      exact ⟨_, List.Subset.refl _, makeDirectories_eq_ok hd₁⟩
    next =>
      obtain ⟨rfl, -⟩ := Prod.mk.inj h
      exact ⟨_, List.Subset.refl _, rfl⟩

/-- The ways in which opening the cache of a project can end. -/
inductive Opens (c : Context) (x : Conditions) (d : Disk) : Disk → Except Failure (List Text × Cache) → Prop
  | blocked {d' : Disk} {e : MakeError} (made : makeWay x (Project.ownDirectory c.root) d = (d', some e)) :
      Opens c x d d' (.error (.ownDirectory e))
  | refused {d' : Disk} (e : OpenError) (made : makeWay x (Project.ownDirectory c.root) d = (d', none)) :
      Opens c x d d' (.error (.openCache e))
  | interrupted {d₁ d' : Disk} {place : List Text} {cache : Cache} (message : Text)
      (made : makeWay x (Project.ownDirectory c.root) d = (d₁, none))
      (opened : d₁.openCache (Project.cacheFile c.root) = .ok (d', place, cache)) :
      Opens c x d d' (.error (.openCache (.outage message)))
  | unprepared {d₁ d' : Disk} {place : List Text} {cache cache' : Cache} (e : CacheError)
      (made : makeWay x (Project.ownDirectory c.root) d = (d₁, none))
      (opened : d₁.openCache (Project.cacheFile c.root) = .ok (d', place, cache))
      (prepared : cache.prepare x.dialect c.settings.extract.framework x.preparing = (cache', .error e)) :
      Opens c x d (d'.saveCache place cache') (.error (.prepareCache e))
  | ready {d₁ d' : Disk} {place : List Text} {cache cache' : Cache} (reason : Text)
      (made : makeWay x (Project.ownDirectory c.root) d = (d₁, none))
      (opened : d₁.openCache (Project.cacheFile c.root) = .ok (d', place, cache))
      (prepared : cache.prepare x.dialect c.settings.extract.framework x.preparing = (cache', .ok reason)) :
      Opens c x d (d'.saveCache place cache') (.ok (place, cache'))

theorem opens_openCache {opened : Except Failure (List Text × Cache)}
    (h : openCache c x s = (s', opened)) : Opens c x s.disk s'.disk opened := by
  unfold openCache at h
  split at h
  next d₁ e hd₁ =>
    obtain ⟨rfl, rfl⟩ := Prod.mk.inj h
    exact .blocked hd₁
  next d₁ hd₁ =>
    split at h
    next e _ =>
      obtain ⟨rfl, rfl⟩ := Prod.mk.inj h
      exact .refused e hd₁
    next d₂ place cache hd₂ =>
      split at h
      next message _ =>
        obtain ⟨rfl, rfl⟩ := Prod.mk.inj h
        exact .interrupted message hd₁ hd₂
      next =>
        cases hprepared : cache.prepare x.dialect c.settings.extract.framework x.preparing with
        | mk cache' outcome =>
            rw [hprepared] at h
            dsimp only at h
            split at h
            next e =>
              obtain ⟨rfl, rfl⟩ := Prod.mk.inj h
              exact .unprepared e hd₁ hd₂ hprepared
            next reason =>
              obtain ⟨rfl, rfl⟩ := Prod.mk.inj h
              -- what is reported does not touch the disk
              have hdisk (s : State) :
                  (if reason = [] then s else s.report [.cacheUpdated reason]).disk = s.disk := by
                split <;> rfl
              rw [hdisk]
              exact .ready reason hd₁ hd₂ hprepared

/-- The ways in which an extraction can end. -/
inductive Extracts (c : Context) (o : Options) (x : Conditions) (useCache : Bool) (s : State) :
    State → Except Failure Extraction.Result → Prop
  | refused (unknown : Framework.ofName? c.settings.extract.framework = none) :
      Extracts c o x useCache s s (.error (.unknownFramework c.settings.extract.framework))
  | unopened {s' : State} {e : Failure} (uses : (useCache && c.settings.cache.enabled) = true)
      (opened : openCache c x s = (s', .error e)) : Extracts c o x useCache s s' (.error e)
  | cached {s' : State} {place : List Text} {cache : Cache} {run : Extraction.Run}
      (uses : (useCache && c.settings.cache.enabled) = true)
      (opened : openCache c x s = (s', .ok (place, cache)))
      (runs : Extraction.run s'.disk (request c o x) (some cache) = run) :
      Extracts c o x useCache s
        ({ s' with disk := s'.disk.saveCache place (run.cache.getD cache) }.report run.events)
        (run.outcome.mapError .extraction)
  | plain {run : Extraction.Run} (runs : Extraction.run s.disk (request c o x) none = run) :
      Extracts c o x useCache s (s.report run.events) (run.outcome.mapError .extraction)

theorem extracts_extract {useCache : Bool} {result : Except Failure Extraction.Result}
    (h : extract c o x useCache s = (s', result)) : Extracts c o x useCache s s' result := by
  unfold extract at h
  dsimp only at h
  split at h
  next hunknown =>
    obtain ⟨rfl, rfl⟩ := Prod.mk.inj h
    exact .refused (by simpa using hunknown)
  next =>
    split at h
    next huse =>
      split at h
      next s₁ e hopen =>
        obtain ⟨rfl, rfl⟩ := Prod.mk.inj h
        exact .unopened huse hopen
      next s₁ place cache hopen =>
        obtain ⟨rfl, rfl⟩ := Prod.mk.inj h
        exact .cached huse hopen rfl
    next =>
      obtain ⟨rfl, rfl⟩ := Prod.mk.inj h
      exact .plain rfl

/-- What is left in the file for a manifest that is not written to its end: nothing where the manifest cannot
be rendered, and else as much as was written before the failure. -/
inductive Remainder (x : Conditions) (format : Format) (rendered : Option Text) : Failure → Text → Prop
  | unrendered (failed : rendered = none) : Remainder x format rendered (.render (some format)) []
  | unwritten {text : Text} {cut : Cut} (succeeded : rendered = some text) (outage : x.writing = some cut) :
      Remainder x format rendered (.write (some format) cut.message) (text.take cut.kept)
  | unclosed {text : Text} {cut : Cut} (succeeded : rendered = some text) (written : x.writing = none)
      (outage : x.closing = some cut) : Remainder x format rendered (.close cut.message) (text.take cut.kept)

/-- The ways in which writing a manifest to a file can end. -/
inductive Writes (x : Conditions) (format : Format) (package path : Text) (m : Manifest) (d : Disk) :
    Disk → Option Failure → Prop
  | blocked {d' : Disk} {e : MakeError} (made : makeWay x (Path.parent path) d = (d', some e)) :
      Writes x format package path m d d' (some (.outputDirectory e))
  | refused {d' : Disk} (e : MakeError) (made : makeWay x (Path.parent path) d = (d', none)) :
      Writes x format package path m d d' (some (.outputFile e))
  | cut {d₁ : Disk} {place : List Text} {old : Option Content} {e : Failure} {kept : Text}
      (made : makeWay x (Path.parent path) d = (d₁, none)) (target : d₁.target path = .ok (place, old))
      (left : Remainder x format (format.write? x.dialect x.formatter package m) e kept) :
      Writes x format package path m d (d₁.fill place (.text kept)) (some e)
  | written {d₁ : Disk} {place : List Text} {old : Option Content} {text : Text}
      (made : makeWay x (Path.parent path) d = (d₁, none)) (target : d₁.target path = .ok (place, old))
      (rendered : format.write? x.dialect x.formatter package m = some text) :
      Writes x format package path m d (d₁.fill place (.text text)) none

theorem writes_writeFile {format : Format} {package path : Text} {m : Manifest} {e : Option Failure}
    (h : writeFile x format package path m s = (s', e)) : Writes x format package path m s.disk s'.disk e := by
  unfold writeFile at h
  split at h
  next d₁ e hd₁ =>
    obtain ⟨rfl, rfl⟩ := Prod.mk.inj h
    exact .blocked hd₁
  next d₁ hd₁ =>
    split at h
    next fault _ =>
      obtain ⟨rfl, rfl⟩ := Prod.mk.inj h
      exact .refused _ hd₁
    next place old htarget =>
      split at h
      next message _ =>
        obtain ⟨rfl, rfl⟩ := Prod.mk.inj h
        exact .refused _ hd₁
      next =>
        dsimp only at h
        split at h
        next hrender =>
          obtain ⟨rfl, rfl⟩ := Prod.mk.inj h
          exact .cut hd₁ htarget (.unrendered hrender)
        next text hrender =>
          split at h
          next cut _ hwriting =>
            obtain ⟨rfl, rfl⟩ := Prod.mk.inj h
            exact .cut hd₁ htarget (.unwritten hrender hwriting)
          next cut hwriting hclosing =>
            obtain ⟨rfl, rfl⟩ := Prod.mk.inj h
            exact .cut hd₁ htarget (.unclosed hrender hwriting hclosing)
          next =>
            obtain ⟨rfl, rfl⟩ := Prod.mk.inj h
            exact .written hd₁ htarget hrender

inductive Prints : Option Failure → Prop
  | unrendered : Prints (some (.render none))
  | unwritten (message : Text) : Prints (some (.write none message))
  | printed : Prints none

theorem prints_printManifest {format : Format} {package : Text} {m : Manifest} {e : Option Failure}
    (h : printManifest x format package m s = (s', e)) : s'.disk = s.disk ∧ Prints e := by
  unfold printManifest at h
  split at h
  next =>
    obtain ⟨rfl, rfl⟩ := Prod.mk.inj h
    exact ⟨rfl, .unrendered⟩
  next =>
    split at h
    next cut _ =>
      obtain ⟨rfl, rfl⟩ := Prod.mk.inj h
      exact ⟨rfl, .unwritten cut.message⟩
    next =>
      obtain ⟨rfl, rfl⟩ := Prod.mk.inj h
      exact ⟨rfl, .printed⟩

/-- The ways in which the command that writes a manifest can end. -/
inductive Emits (c : Context) (o : Options) (x : Conditions) (s : State) : Disk → Option Failure → Prop
  | unsupported (unknown : Format.ofName? (chosen o.format c.settings.output.format) = none) :
      Emits c o x s s.disk (some (.format (chosen o.format c.settings.output.format)))
  | unextracted {s' : State} {e : Failure} {format : Format}
      (known : Format.ofName? (chosen o.format c.settings.output.format) = some format)
      (extracted : extract c o x (!o.noCache) s = (s', .error e)) : Emits c o x s s'.disk (some e)
  | printed {s' : State} {r : Extraction.Result} {format : Format} {e : Option Failure}
      (known : Format.ofName? (chosen o.format c.settings.output.format) = some format)
      (extracted : extract c o x (!o.noCache) s = (s', .ok r)) (path : outputPath c o = [])
      (prints : Prints e) : Emits c o x s s'.disk e
  | written {s' : State} {d' : Disk} {r : Extraction.Result} {format : Format} {e : Option Failure}
      (known : Format.ofName? (chosen o.format c.settings.output.format) = some format)
      (extracted : extract c o x (!o.noCache) s = (s', .ok r)) (path : outputPath c o ≠ [])
      (writes : Writes x format (chosen o.package c.settings.output.packageName) (outputPath c o)
        r.collection.manifest s'.disk d' e) : Emits c o x s d' e

theorem emits_runExtract {e : Option Failure} (h : runExtract c o x s = (s', e)) : Emits c o x s s'.disk e := by
  unfold runExtract at h
  dsimp only at h
  split at h
  next hunknown =>
    obtain ⟨rfl, rfl⟩ := Prod.mk.inj h
    exact .unsupported hunknown
  next format hknown =>
    split at h
    next s₁ e₁ hextract =>
      obtain ⟨rfl, rfl⟩ := Prod.mk.inj h
      exact .unextracted hknown hextract
    next s₁ r hextract =>
      split at h
      next hpath =>
        obtain ⟨hdisk, hprints⟩ := prints_printManifest h
        have hemits : Emits c o x s s₁.disk e := .printed hknown hextract hpath hprints
        rwa [hdisk]
      next hpath =>
        have hwrites := writes_writeFile h
        refine .written hknown hextract hpath ?_
        exact hwrites

/-- A command that can start is left to its job; one that cannot has changed nothing. -/
theorem run_of_parse (d : Disk) (x : Conditions) {args : List Text} {job : Job}
    (hparse : parse args = .ok (job, o)) (hjob : job ≠ .help) :
    (∀ e, prepare d o = .error e → run d args x = { disk := d, failure := some e }) ∧
    ∀ c, prepare d o = .ok c → run d args x =
      { disk := (runJob job c o x { disk := d }).1.disk
        output := (runJob job c o x { disk := d }).1.output
        log := ((runJob job c o x { disk := d }).1.events.filter (Level.shows c.level)).map Event.logLine
        failure := (runJob job c o x { disk := d }).2 } := by
  unfold run
  rw [hparse]
  constructor
  · intro e he
    cases job with
    | help => exact absurd rfl hjob
    | extract | functions | copyrights => simp only [he]
  · intro c hc
    cases job with
    | help => exact absurd rfl hjob
    | extract | functions | copyrights => simp only [hc]

theorem emits_run {args : List Text} (hparse : parse args = .ok (.extract, o)) (hprepare : prepare d o = .ok c) :
    Emits c o x { disk := d } (run d args x).disk (run d args x).failure := by
  rw [(run_of_parse d x hparse (by simp)).2 c hprepare]
  exact emits_runExtract rfl

end BuiltinCatalog.Command
