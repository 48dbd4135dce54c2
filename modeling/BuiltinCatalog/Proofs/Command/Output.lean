import BuiltinCatalog.Proofs.Command.Purity
import BuiltinCatalog.Proofs.Files.Content

namespace BuiltinCatalog

namespace Disk

variable {q place : List Text} {d d' d'' : Disk} {p p' : Prop}

/-- The file at a place is as it was or, where that is allowed, holds a cache now. -/
structure Spares (allowed : Prop) (q : List Text) (d d' : Disk) : Prop where
  file : d'.tree.file? q = d.tree.file? q ∨ allowed ∧ ∃ c, d'.tree.file? q = some (.cache c)
  current : d'.current = d.current

theorem KeepsFile.spares (h : KeepsFile q d d') : Spares p q d d' := ⟨Or.inl h.file, h.current⟩

theorem Spares.trans (h : Spares p q d d') (h' : Spares p q d' d'') : Spares p q d d'' := by
  refine ⟨?_, h'.current.trans h.current⟩
  rcases h'.file with hsame | hcache
  · rw [hsame]
    exact h.file
  · exact Or.inr hcache

theorem Spares.mono (h : Spares p q d d') (hp : p → p') : Spares p' q d d' :=
  ⟨h.file.imp_right fun hcache => ⟨hp hcache.1, hcache.2⟩, h.current⟩

theorem saveCache_spares (c : Cache) (hspot : d.tree.IsSpot place) : Spares (q = place) q d (d.saveCache place c) := by
  by_cases hq : q = place
  · subst hq
    exact ⟨Or.inr ⟨rfl, c, file?_fill d q _⟩, rfl⟩
  · exact (fill_keepsFile _ hspot hq).spares

end Disk

namespace Command

open BuiltinCatalog.Path Disk

variable {q : List Text} {d d' : Disk} {s s' : State} {c : Context} {o : Options} {x : Conditions} {e : Failure}

/-- The failures that come up once the file for the manifest was emptied. -/
def Failure.cutsOutput : Failure → Bool
  | .render (some _) | .write (some _) _ | .close _ => true
  | _ => false

theorem makeWay_keepsFile {p : Text} {e : Option MakeError} (hcur : isAbsolute d.current = true)
    (h : makeWay x p d = (d', e)) : KeepsFile q d d' := by
  obtain ⟨ps, -, rfl⟩ := makeWay_eq h
  exact madeInTurn_keepsFile hcur ps

/-- Opening the cache changes no file but that of the cache, wherever it ends. -/
theorem openCache_spares {opened : Except Failure (List Text × Cache)} (hcur : isAbsolute s.disk.current = true)
    (hopen : openCache c x s = (s', opened)) :
    Spares (q = resolve s.disk.current (Project.cacheFile c.root)) q s.disk s'.disk ∧
      (∀ e, opened = .error e → e.cutsOutput = false) ∧
      ∀ place cache, opened = .ok (place, cache) →
        place = resolve s.disk.current (Project.cacheFile c.root) ∧ s'.disk.tree.IsSpot place := by
  have hopened {d₁ d₂ : Disk} {place : List Text} {cache : Cache}
      (hmade : makeWay x (Project.ownDirectory c.root) s.disk = (d₁, none))
      (hd : d₁.openCache (Project.cacheFile c.root) = .ok (d₂, place, cache)) :
      place = resolve s.disk.current (Project.cacheFile c.root) ∧ Spares (q = place) q s.disk d₂ ∧
        d₂.tree.IsSpot place := by
    have hkeeps : KeepsFile q s.disk d₁ := makeWay_keepsFile hcur hmade
    rw [← hkeeps.current] at hcur ⊢
    have hspot := openCache_isSpot hcur hd
    obtain ⟨hplace, rfl, -⟩ := openCache_eq_ok hcur hd
    exact ⟨hplace, hkeeps.spares.trans (saveCache_spares cache hspot), fill_isSpot _ _ _⟩
  have hopens := opens_openCache hopen
  generalize s'.disk = d' at hopens ⊢
  cases hopens with
  | blocked hmade => exact ⟨(makeWay_keepsFile hcur hmade).spares, by simp [Failure.cutsOutput], by simp⟩
  | refused e hmade => exact ⟨(makeWay_keepsFile hcur hmade).spares, by simp [Failure.cutsOutput], by simp⟩
  | interrupted message hmade hd =>
      obtain ⟨rfl, hspares, -⟩ := hopened hmade hd
      exact ⟨hspares, by simp [Failure.cutsOutput], by simp⟩
  | unprepared e hmade hd _ =>
      obtain ⟨rfl, hspares, hspot⟩ := hopened hmade hd
      exact ⟨hspares.trans (saveCache_spares _ hspot), by simp [Failure.cutsOutput], by simp⟩
  | ready reason hmade hd _ =>
      obtain ⟨rfl, hspares, hspot⟩ := hopened hmade hd
      refine ⟨hspares.trans (saveCache_spares _ hspot), by simp, fun place cache he => ?_⟩
      obtain ⟨rfl, rfl⟩ := Prod.mk.inj (Except.ok.inj he)
      exact ⟨rfl, fill_isSpot _ _ _⟩

theorem extract_spares {useCache : Bool} {result : Except Failure Extraction.Result}
    (hcur : isAbsolute s.disk.current = true) (hextract : extract c o x useCache s = (s', result)) :
    Spares ((useCache && c.settings.cache.enabled) = true ∧ q = resolve s.disk.current (Project.cacheFile c.root))
      q s.disk s'.disk ∧ ∀ e, result = .error e → e.cutsOutput = false := by
  have hfailure (run : Except Extraction.Failure Extraction.Result) (e : Failure)
      (he : run.mapError Failure.extraction = .error e) : e.cutsOutput = false := by
    obtain ⟨e₀, -, rfl⟩ := mapError_eq_error.1 he
    rfl
  have hextracts := extracts_extract hextract
  cases hextracts with
  | refused => exact ⟨(KeepsFile.refl q _).spares, by simp [Failure.cutsOutput]⟩
  | unopened uses opened =>
      obtain ⟨hspares, herror, _⟩ := openCache_spares hcur opened
      exact ⟨hspares.mono fun hq => ⟨uses, hq⟩, by simpa using herror⟩
  | @cached s₁ place cache run uses opened runs =>
      obtain ⟨hspares, _, hplace⟩ := openCache_spares hcur opened
      obtain ⟨rfl, hspot⟩ := hplace place cache rfl
      exact ⟨(hspares.trans (saveCache_spares _ hspot)).mono fun hq => ⟨uses, hq⟩, hfailure _⟩
  | plain runs => exact ⟨(KeepsFile.refl q _).spares, hfailure _⟩

/-- A manifest that cannot be written leaves all files but its own as they were, and that one too where it
could not be made. -/
theorem Writes.file? {format : Format} {package path : Text} {m : Manifest}
    (hcur : isAbsolute d.current = true) (h : Writes x format package path m d d' (some e)) :
    (e.cutsOutput = false ∨ q ≠ resolve d.current path → KeepsFile q d d') ∧
      (e.cutsOutput = true → ∃ kept, Remainder x format (format.write? x.dialect x.formatter package m) e kept ∧
        d'.tree.file? (resolve d.current path) = some (.text kept)) := by
  cases h with
  | blocked hmade => exact ⟨fun _ => makeWay_keepsFile hcur hmade, by simp [Failure.cutsOutput]⟩
  | refused e hmade => exact ⟨fun _ => makeWay_keepsFile hcur hmade, by simp [Failure.cutsOutput]⟩
  | cut hmade htarget left =>
      have hkeeps : KeepsFile q d _ := makeWay_keepsFile hcur hmade
      rw [← hkeeps.current] at hcur ⊢
      have hspot := target_isSpot hcur htarget
      obtain ⟨rfl, -⟩ := target_eq_ok hcur htarget
      have hcuts : e.cutsOutput = true := by cases left <;> rfl
      rw [hcuts]
      refine ⟨fun hq => ?_, fun _ => ⟨_, left, file?_fill _ _ _⟩⟩
      exact hkeeps.trans (fill_keepsFile _ hspot (by simpa using hq))

def usesCache (c : Context) (o : Options) : Bool := !o.noCache && c.settings.cache.enabled

theorem Emits.spares (hcur : isAbsolute s.disk.current = true) (h : Emits c o x s d' (some e))
    (hq : e.cutsOutput = false ∨ q ≠ resolve s.disk.current (outputPath c o)) :
    Spares (usesCache c o = true ∧ q = resolve s.disk.current (Project.cacheFile c.root)) q s.disk d' := by
  cases h with
  | unsupported => exact (KeepsFile.refl q _).spares
  | unextracted known extracted => exact (extract_spares hcur extracted).1
  | printed known extracted => exact (extract_spares hcur extracted).1
  | written known extracted path writes =>
      have hspares := (extract_spares (q := q) hcur extracted).1
      rw [← hspares.current] at hcur hq
      exact hspares.trans ((writes.file? hcur).1 hq).spares

theorem Emits.remainder (hcur : isAbsolute s.disk.current = true) (h : Emits c o x s d' (some e))
    (hcuts : e.cutsOutput = true) :
    outputPath c o ≠ [] ∧ ∃ format r kept,
      Format.ofName? (chosen o.format c.settings.output.format) = some format ∧
      (extract c o x (!o.noCache) s).2 = .ok r ∧
      Remainder x format (format.write? x.dialect x.formatter (chosen o.package c.settings.output.packageName)
        r.collection.manifest) e kept ∧
      d'.tree.file? (resolve s.disk.current (outputPath c o)) = some (.text kept) := by
  cases h with
  | unsupported => cases hcuts
  | unextracted known extracted =>
      rw [(extract_spares (q := []) hcur extracted).2 e rfl] at hcuts
      cases hcuts
  | printed known extracted path prints => cases prints <;> cases hcuts
  | written known extracted path writes =>
      have hcurrent := (extract_spares (q := []) hcur extracted).1.current
      rw [← hcurrent] at hcur ⊢
      obtain ⟨kept, hleft, hfile⟩ := (writes.file? (q := []) hcur).2 hcuts
      exact ⟨path, _, _, kept, known, by rw [extracted], hleft, hfile⟩

/-- A failed command line changes nothing if it fails before its work starts. A failed extraction changes no
file but the output and the cache. The output is changed by the failures that come up once it was emptied: it
keeps what was written of the manifest by then. Where the output is the file of the cache that is used, it
may hold a cache after any other failure. -/
theorem failed_extract (d : Disk) (args : List Text) (x : Conditions) (e : Failure)
    (hcur : isAbsolute d.current = true) (hfail : (run d args x).failure = some e) :
    ((∀ job o c, parse args = .ok (job, o) → prepare d o ≠ .ok c) → (run d args x).disk = d) ∧
    ∀ o c q, parse args = .ok (.extract, o) → prepare d o = .ok c →
      (e.cutsOutput = true → outputPath c o ≠ [] ∧ ∃ format r kept,
        Format.ofName? (chosen o.format c.settings.output.format) = some format ∧
        (extract c o x (!o.noCache) { disk := d }).2 = .ok r ∧
        Remainder x format (format.write? x.dialect x.formatter (chosen o.package c.settings.output.packageName)
          r.collection.manifest) e kept ∧
        (run d args x).disk.tree.file? (resolve d.current (outputPath c o)) = some (.text kept)) ∧
      (e.cutsOutput = false ∨ q ≠ resolve d.current (outputPath c o) →
        (run d args x).disk.tree.file? q = d.tree.file? q ∨
          (usesCache c o = true ∧ q = resolve d.current (Project.cacheFile c.root)) ∧
            ∃ cache, (run d args x).disk.tree.file? q = some (.cache cache)) := by
  constructor
  · intro hstart
    unfold run
    split
    next => rfl
    next => rfl
    next job o _ hparse =>
      split
      next => rfl
      next c hprepare => exact absurd hprepare (hstart job o c hparse)
  · intro o c q hparse hprepare
    have hemits := emits_run (x := x) hparse hprepare
    rw [hfail] at hemits
    exact ⟨hemits.remainder hcur, fun hq => (hemits.spares hcur hq).file⟩

namespace Sample

def stocked : Disk :=
  ⟨.directory [("p", .directory [
    ("a.js", .file (.text "/* */ function f() \x7b\x7d")), ("m.go", .file (.text "old"))])], "/p"⟩

def manifestPlace : List Text := ["p", "m.go"]

def damaged : Disk :=
  { stocked with tree := stocked.tree.put (.file (.text "?")) (cachePlace [Text.ofString "p"]) }

theorem failed_extract_damaged_cache :
    (run damaged ["extract", "-o", "m.go"] {}).failure = some (.openCache (.notCache 1)) ∧
    (run damaged ["extract", "-o", "m.go"] {}).disk.tree.file? manifestPlace = some (.text "old") := by
  have hfail : (run damaged ["extract", "-o", "m.go"] {}).failure = some (.openCache (.notCache 1)) := by
    decide +kernel
  have hfile := ((failed_extract damaged ["extract", "-o", "m.go"] {} _ rfl hfail).2 { output := "m.go" }
    (context "JavaScriptCore") manifestPlace (by decide +kernel) (by decide +kernel)).2 (Or.inl rfl)
  refine ⟨hfail, (hfile.resolve_right ?_).trans rfl⟩
  rintro ⟨⟨-, hplace⟩, -⟩
  revert hplace
  decide +kernel

def unrenderable : List Text := ["extract", "--format", "go", "--package", "1a", "-o", "m.go", "a.js"]

/-- The old manifest is lost when the new one cannot be rendered: a package name starts with no digit. -/
theorem emptied_output :
    (run stocked unrenderable {}).failure = some (.render (some .source)) ∧
    stocked.tree.file? manifestPlace = some (.text "old") ∧
    (run stocked unrenderable {}).disk.tree.file? manifestPlace = some (.text []) := by
  decide +kernel

end Sample

end Command

end BuiltinCatalog
