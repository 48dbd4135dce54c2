import BuiltinCatalog.Proofs.Command.Purity

namespace BuiltinCatalog.Command

open Disk

variable {d : Disk} {s s' : State} {job : Job} {o : Options} {c : Context} {x : Conditions} {e : Failure}

/-- What can be said against a command before its extraction, whatever else is wrong with it. -/
inductive Objection (d : Disk) (job : Job) (o : Options) : Failure → Prop
  | settings {e : LoadError} (loaded : loadSettings d o = .error e) : Objection d job o e.failure
  | framework {settings : Settings} (loaded : loadSettings d o = .ok settings)
      (unknown : Framework.ofName? (chosen o.framework settings.extract.framework) = none) :
      Objection d job o (.unknownFramework (chosen o.framework settings.extract.framework))
  | level {settings : Settings} {e : LevelError} (loaded : loadSettings d o = .ok settings)
      (invalid : Level.parse (chosen o.logLevel settings.logging.level) = .error e) :
      Objection d job o (.level (chosen o.logLevel settings.logging.level) e)
  | format {settings : Settings} (loaded : loadSettings d o = .ok settings) (extracts : job = .extract)
      (unsupported : Format.ofName? (chosen o.format settings.output.format) = none) :
      Objection d job o (.format (chosen o.format settings.output.format))

def Failure.isRejection : Failure → Bool
  | .settingsFile _ | .settingsSyntax | .unknownFramework _ | .level _ _ | .format _ => true
  | _ => false

structure Ready (d : Disk) (o : Options) (c : Context) (settings : Settings) : Prop where
  loaded : loadSettings d o = .ok settings
  framework : c.settings.extract.framework = chosen o.framework settings.extract.framework
  known : Framework.ofName? (chosen o.framework settings.extract.framework) ≠ none
  level : ∃ threshold, Level.parse (chosen o.logLevel settings.logging.level) = .ok threshold
  output : c.settings.output = settings.output

theorem prepare_cases (d : Disk) (o : Options) :
    (∃ e, prepare d o = .error e ∧ ∀ job, Objection d job o e) ∨
      ∃ c settings, prepare d o = .ok c ∧ Ready d o c settings := by
  unfold prepare
  cases hload : loadSettings d o with
  | error e => exact Or.inl ⟨e.failure, rfl, fun job => .settings hload⟩
  | ok settings =>
      simp only [Except.mapError, bind, Except.bind]
      cases hframework : Framework.ofName? (chosen o.framework settings.extract.framework) with
      | none => exact Or.inl ⟨_, rfl, fun job => .framework hload hframework⟩
      | some f =>
          cases hlevel : Level.parse (chosen o.logLevel settings.logging.level) with
          | error e => exact Or.inl ⟨_, rfl, fun job => .level hload hlevel⟩
          | ok threshold =>
              refine Or.inr ⟨_, settings, rfl, hload, rfl, ?_, ⟨threshold, hlevel⟩, rfl⟩
              rw [hframework]
              exact Option.some_ne_none f

theorem runExtract_unsupported (h : Format.ofName? (chosen o.format c.settings.output.format) = none) :
    runExtract c o x s = (s, some (.format (chosen o.format c.settings.output.format))) := by
  simp only [runExtract, h]

theorem openCache_not_rejection (h : openCache c x s = (s', .error e)) : e.isRejection = false := by
  have hopens := opens_openCache h
  generalize s'.disk = d' at hopens
  cases hopens with
  | blocked | refused | interrupted | unprepared => rfl

theorem extract_not_rejection {useCache : Bool} (hf : Framework.ofName? c.settings.extract.framework ≠ none)
    (h : extract c o x useCache s = (s', .error e)) : e.isRejection = false := by
  generalize hresult : Except.error e = result at h
  have hfailure {x : Except Extraction.Failure Extraction.Result}
      (hx : Except.error e = x.mapError Failure.extraction) : e.isRejection = false := by
    obtain ⟨e₀, -, rfl⟩ := mapError_eq_error.1 hx.symm
    rfl
  have hextracts := extracts_extract h
  cases hextracts with
  | refused unknown => exact absurd unknown hf
  | unopened uses opened =>
      obtain rfl := Except.error.inj hresult
      exact openCache_not_rejection opened
  | cached => exact hfailure hresult
  | plain => exact hfailure hresult

theorem Writes.not_rejection {d' : Disk} {format : Format} {package path : Text} {m : Manifest}
    (h : Writes x format package path m d d' (some e)) : e.isRejection = false := by
  cases h with
  | blocked | refused => rfl
  | cut _ _ left => cases left <;> rfl

theorem runExtract_not_rejection (hf : Framework.ofName? c.settings.extract.framework ≠ none)
    (hformat : Format.ofName? (chosen o.format c.settings.output.format) ≠ none)
    (h : runExtract c o x s = (s', some e)) : e.isRejection = false := by
  have hemits := emits_runExtract h
  generalize s'.disk = d' at hemits
  cases hemits with
  | unsupported unknown => exact absurd unknown hformat
  | unextracted known extracted => exact extract_not_rejection hf extracted
  | printed known extracted path prints => cases prints <;> rfl
  | written known extracted path writes => exact writes.not_rejection

theorem runJob_not_rejection (hf : Framework.ofName? c.settings.extract.framework ≠ none)
    (hformat : job = .extract → Format.ofName? (chosen o.format c.settings.output.format) ≠ none)
    (h : runJob job c o x s = (s', some e)) : e.isRejection = false := by
  cases job with
  | help => cases (Prod.mk.inj h).2
  | extract => exact runExtract_not_rejection hf (hformat rfl) h
  | functions | copyrights =>
      simp only [runJob, runFunctions, runCopyrights] at h
      split at h
      next s₁ e₁ hextract =>
        obtain ⟨-, ⟨⟩⟩ := Prod.mk.inj h
        exact extract_not_rejection hf hextract
      next => cases (Prod.mk.inj h).2

/-- A command with an objection to it is rejected for one of them, and its whole outcome is that failure. -/
theorem run_of_objection (d : Disk) (x : Conditions) {args : List Text}
    (hparse : parse args = .ok (job, o)) (hjob : job ≠ .help) (h : Objection d job o e) :
    ∃ e', Objection d job o e' ∧ run d args x = { disk := d, failure := some e' } := by
  obtain ⟨hstop, hstart⟩ := run_of_parse d x hparse hjob
  rcases prepare_cases d o with ⟨e', he', hobjection⟩ | ⟨c, settings, hc, hready⟩
  · exact ⟨e', hobjection job, hstop e' he'⟩
  · -- the settings that were loaded are those of the objection, so it is the one to the format
    have heq {settings' : Settings} (hload : loadSettings d o = .ok settings') : settings' = settings :=
      Except.ok.inj (hload.symm.trans hready.loaded)
    cases h with
    | settings loaded => cases loaded.symm.trans hready.loaded
    | framework loaded unknown =>
        obtain rfl := heq loaded
        exact absurd unknown hready.known
    | level loaded invalid =>
        obtain rfl := heq loaded
        obtain ⟨threshold, hlevel⟩ := hready.level
        cases invalid.symm.trans hlevel
    | format loaded extracts unsupported =>
        obtain rfl := heq loaded
        subst extracts
        refine ⟨_, .format loaded rfl unsupported, ?_⟩
        rw [← hready.output] at unsupported ⊢
        rw [hstart c hc, runJob, runExtract_unsupported unsupported]
        rfl

theorem Objection.isRejection (h : Objection d job o e) : e.isRejection = true := by
  cases h with
  | @settings e loaded => cases e <;> rfl
  | framework | level | format => rfl

theorem objection_of_run {args : List Text} (hparse : parse args = .ok (job, o)) (hjob : job ≠ .help)
    (hfail : (run d args x).failure = some e) (hrejection : e.isRejection = true) :
    ∃ e', Objection d job o e' := by
  by_contra hnone
  rcases prepare_cases d o with ⟨e', he', hobjection⟩ | ⟨c, settings, hc, hready⟩
  · exact hnone ⟨e', hobjection job⟩
  · rw [(run_of_parse d x hparse hjob).2 c hc] at hfail
    have hknown : Framework.ofName? c.settings.extract.framework ≠ none := by
      rw [hready.framework]
      exact hready.known
    have hformat : job = .extract → Format.ofName? (chosen o.format c.settings.output.format) ≠ none := by
      intro hextract hunsupported
      rw [hready.output] at hunsupported
      exact hnone ⟨_, .format hready.loaded hextract hunsupported⟩
    have hfalse := runJob_not_rejection hknown hformat (Prod.ext rfl hfail)
    rw [hfalse] at hrejection
    cases hrejection

/-- A command is rejected exactly if there is something to say against it before its extraction, and for a
reason that applies. Its whole outcome is that failure: the disk with all its files and caches is as it was,
and nothing is printed or logged. So every later command, after any history, does what it would have done
without the one that was rejected. -/
theorem rejected_leaves_no_trace (d : Disk) (args : List Text) (x : Conditions) (job : Job) (o : Options)
    (hparse : parse args = .ok (job, o)) (hjob : job ≠ .help) :
    ((∃ e, Objection d job o e) ↔ ∃ e, (run d args x).failure = some e ∧ e.isRejection = true) ∧
    ∀ e, (run d args x).failure = some e → e.isRejection = true →
      Objection d job o e ∧ run d args x = { disk := d, failure := some e } ∧
      ∀ acts later y, run (after (run d args x).disk acts) later y =
        run (after d acts) later y := by
  constructor
  · constructor
    · rintro ⟨e, he⟩
      obtain ⟨e', he', hrun⟩ := run_of_objection d x hparse hjob he
      exact ⟨e', by rw [hrun], he'.isRejection⟩
    · rintro ⟨e, hfail, hrejection⟩
      exact objection_of_run hparse hjob hfail hrejection
  · intro e hfail hrejection
    obtain ⟨e', he'⟩ := objection_of_run hparse hjob hfail hrejection
    obtain ⟨e'', he'', hrun⟩ := run_of_objection d x hparse hjob he'
    rw [hrun] at hfail ⊢
    obtain rfl : e'' = e := Option.some.inj hfail
    exact ⟨he'', rfl, fun acts later y => rfl⟩

namespace Sample

/-- The project has a cache for one framework; the flags name a format that nobody knows, and a place for the
output among the project's own files. -/
def misdirected : List Text := ["extract", "-f", "WebCore", "--format", "xml", "-o", ".builtins/cache.db"]

def misdirection : Options := { framework := "WebCore", format := "xml", output := ".builtins/cache.db" }

theorem rejected_leaves_no_trace_misdirected :
    run (after project [.command ["functions"] {}]) misdirected {} =
      { disk := after project [.command ["functions"] {}], failure := some (.format "xml") } := by
  have hparse : parse misdirected = .ok (.extract, misdirection) := by decide +kernel
  have hfail : (run (after project [.command ["functions"] {}]) misdirected {}).failure =
      some (.format "xml") := by
    decide +kernel
  exact ((rejected_leaves_no_trace _ misdirected {} .extract misdirection hparse (by decide)).2 _ hfail rfl).2.1

end Sample

end BuiltinCatalog.Command
