import BuiltinCatalog.Proofs.Extraction.Sound

namespace BuiltinCatalog.Extraction

variable {contents : List Text} {d : Disk} {r : Request} {s s' p p' : State} {c : Cache} {path : Text}

/-- A failure of the cache itself: one of its operations is out of order, or the result of a file is too large
for it. -/
inductive Failure.OfCache (d : Disk) (r : Request) : Failure → Prop
  | get {path message : Text} (h : r.outage .get path = some message) :
      OfCache d r (.lookup (.outage message))
  | put {path message : Text} (h : r.outage .put path = some message) :
      OfCache d r (.store path (.outage message))
  | oversized {path text : Text} {o : BuiltinObject} {ls : List Text} (read : d.read path = .ok text)
      (parsed : Collection.readFile path text = .ok (o, ls))
      (large : Cache.maxValueLength < ((freshEntry r text o ls).text r.dialect).length) :
      OfCache d r (.store path (.cache .valueTooLarge))
  | list {message : Text} (h : r.outage .list [] = some message) : OfCache d r (.list (.outage message))
  | delete {path message : Text} (h : r.outage .delete path = some message) :
      OfCache d r (.delete path (.outage message))

theorem lookup_cases (hc : s.cache = some c) (hs : Sound contents c) (path : Text) :
    (∃ found, lookup r s path = .ok found) ∨ ∃ e, lookup r s path = .error e ∧ e.OfCache d r := by
  rw [lookup_eq hc]
  unfold attempt
  cases hm : r.outage .get path with
  | some message => exact Or.inr ⟨_, rfl, .get hm⟩
  | none =>
      obtain ⟨found, hget⟩ := Cache.Holds.get?_isOk hs path
      exact Or.inl ⟨found, by rw [hget]; rfl⟩

theorem checkKey_of_read {text : Text} (h : d.read path = .ok text) : Cache.checkKey path = .ok () := by
  obtain ⟨hne, hlen⟩ := Disk.length_of_read h
  have hmax : ¬ Cache.maxKeyLength < path.length := by
    unfold Disk.maxPath at hlen
    unfold Cache.maxKeyLength
    omega
  rw [Cache.checkKey, if_neg hne, if_neg hmax]

theorem store_cases {text : Text} {o : BuiltinObject} {ls : List Text} (hc : s.cache = some c)
    (hread : d.read path = .ok text) (hparse : Collection.readFile path text = .ok (o, ls)) :
    (∃ cache, store r s path (freshEntry r text o ls) = .ok cache) ∨
      ∃ f, store r s path (freshEntry r text o ls) = .error f ∧ f.OfCache d r := by
  simp only [store, hc, attempt]
  cases hm : r.outage .put path with
  | some message => exact Or.inr ⟨_, rfl, .put hm⟩
  | none =>
      cases hput : c.put r.dialect path (freshEntry r text o ls) with
      | ok c' => exact Or.inl ⟨_, rfl⟩
      | error err =>
          rcases Cache.put_eq_error_iff.1 hput with hkey | ⟨-, hvalue⟩
          · cases hkey.symm.trans (checkKey_of_read hread)
          · obtain ⟨hlarge, rfl⟩ := Cache.checkValue_eq_error_iff.1 hvalue
            exact Or.inr ⟨_, rfl, .oversized hread hparse hlarge⟩

/-- A run with a cache and one without, at the same file. -/
structure Sim (contents : List Text) (s p : State) : Prop where
  cache : ∃ c, s.cache = some c ∧ Sound contents c
  plain : p.cache = none
  agree : Collection.Agree s.collection p.collection
  parsed : p.parsed = s.parsed + s.cached

theorem Sim.file (h : Sim contents s p) (hd : Reads contents d) (hn : NoCollision contents)
    (hs : extractFile d r s path = (s', none)) (hp : extractFile d r p path = (p', none)) :
    Sim contents s' p' := by
  obtain ⟨c, hc, hsound⟩ := h.cache
  obtain ⟨text, o, ls, hread, hparse, hadds, hcount⟩ := (step_of_eq hs).adds hd hn hc hsound
  obtain ⟨text', o', ls', hread', hparse', hadds', hplain, hcount'⟩ := (step_of_eq hp).adds_plain h.plain
  obtain rfl := Except.ok.inj (hread.symm.trans hread')
  obtain ⟨rfl, rfl⟩ := Prod.mk.inj (Except.ok.inj (hparse.symm.trans hparse'))
  refine ⟨(step_of_eq hs).keeps (keeps_sound hd) h.cache, hplain, h.agree.adds hadds hadds', ?_⟩
  have := h.parsed
  omega

theorem Sim.plain_passes (h : Sim contents s p) (hd : Reads contents d) (hn : NoCollision contents)
    (hs : extractFile d r s path = (s', none)) : ∃ p', extractFile d r p path = (p', none) := by
  obtain ⟨c, hc, hsound⟩ := h.cache
  -- a reused entry holds what the file parses to, so the file does parse
  obtain ⟨text, o, ls, hread, hparse, _, _⟩ := (step_of_eq hs).adds hd hn hc hsound
  refine ⟨_, Prod.ext rfl ?_⟩
  rw [extractFile_snd hread hparse]
  simp [lookup, store, h.plain, reusable?]

theorem Sim.passes (h : Sim contents s p) (hp : extractFile d r p path = (p', none)) :
    (extractFile d r s path).2 = none ∨ ∃ e, (extractFile d r s path).2 = some e ∧ e.OfCache d r := by
  obtain ⟨c, hc, hsound⟩ := h.cache
  obtain ⟨text, o, ls, hread, hparse, _, _⟩ := (step_of_eq hp).adds_plain h.plain
  rw [extractFile_snd hread hparse]
  rcases lookup_cases hc hsound path with ⟨found, hl⟩ | ⟨e, hl, he⟩
  · rw [hl]
    dsimp only
    cases reusable? r (contentHash text) found with
    | some _ => exact Or.inl rfl
    | none =>
        rcases store_cases (r := r) hc (read_of_readText hread) hparse with ⟨_, hst⟩ | ⟨e, hst, he⟩
        · rw [hst]
          exact Or.inl rfl
        · rw [hst]
          exact Or.inr ⟨e, rfl, he⟩
  · rw [hl]
    exact Or.inr ⟨e, rfl, he⟩

theorem Sim.progress (h : Sim contents s p) (ps qs : List Progress) :
    Sim contents { s with progress := ps } { p with progress := qs } :=
  ⟨h.cache, h.plain, h.agree, h.parsed⟩

theorem Sim.files {total : Nat} {files : List Text} (h : Sim contents s p) (hd : Reads contents d)
    (hn : NoCollision contents) (hs : extractFiles d r total s files = (s', none)) :
    ∃ p', extractFiles d r total p files = (p', none) ∧ Sim contents s' p' := by
  induction files generalizing s p with
  | nil =>
      obtain ⟨rfl, -⟩ := Prod.mk.inj hs
      exact ⟨p, rfl, h⟩
  | cons path files ih =>
      rw [extractFiles] at hs
      split at hs
      next => simp at hs
      next s₁ hstep =>
        obtain ⟨p₁, hplain⟩ := h.plain_passes hd hn hstep
        rw [extractFiles, hplain]
        exact ih ((h.file hd hn hstep hplain).progress _ _) hs

theorem Sim.files_pass {total : Nat} {files : List Text} (h : Sim contents s p) (hd : Reads contents d)
    (hn : NoCollision contents) (hp : extractFiles d r total p files = (p', none)) :
    (∃ s', extractFiles d r total s files = (s', none)) ∨
      ∃ s' e, extractFiles d r total s files = (s', some e) ∧ e.OfCache d r := by
  induction files generalizing s p with
  | nil => exact Or.inl ⟨s, rfl⟩
  | cons path files ih =>
      rw [extractFiles] at hp
      split at hp
      next => simp at hp
      next p₁ hplain =>
        rcases h.passes hplain with hs | ⟨e, hs, he⟩
        · have hstep : extractFile d r s path = ((extractFile d r s path).1, none) := Prod.ext rfl hs
          rw [extractFiles, hstep]
          exact ih ((h.file hd hn hstep hplain).progress _ _) hp
        · have hstep : extractFile d r s path = ((extractFile d r s path).1, some e) := Prod.ext rfl hs
          rw [extractFiles, hstep]
          exact Or.inr ⟨_, e, rfl, he⟩

theorem deletePaths_passes {gone paths : List Text} :
    (deletePaths r c gone paths).2.2 = none ∨
      ∃ e, (deletePaths r c gone paths).2.2 = some e ∧ e.OfCache d r := by
  induction paths generalizing c gone with
  | nil => exact Or.inl rfl
  | cons path paths ih =>
      rw [deletePaths]
      split
      next message hm => exact Or.inr ⟨_, rfl, .delete hm⟩
      next => exact ih

theorem prune_passes (x : Expansion) :
    (prune r x c).2.2 = none ∨ ∃ e, (prune r x c).2.2 = some e ∧ e.OfCache d r := by
  unfold prune
  split
  next => exact Or.inl rfl
  next =>
    split
    next message hm => exact Or.inr ⟨_, rfl, .list hm⟩
    next => exact deletePaths_passes

theorem finish_plain (x : Expansion) (hp : p.cache = none) :
    (finish r x p).outcome = .ok ⟨p.collection, p.parsed, p.cached, 0⟩ := by
  simp only [finish, hp]

theorem finish_cached (x : Expansion) (hc : s.cache = some c) :
    (finish r x s).outcome =
      match (prune r x c).2.2 with
      | some e => .error e
      | none => .ok ⟨s.collection, s.parsed, s.cached, (prune r x c).2.1.length⟩ := by
  simp only [finish, hc]
  split <;> simp_all

theorem start_sim (f : Framework) (h : Sound contents c) : Sim contents (start f (some c)) (start f none) :=
  ⟨⟨c, rfl, h⟩, rfl, .refl _, rfl⟩

theorem run_of_files {f : Framework} {x : Expansion} {cache : Option Cache} {o : Option Failure}
    (hf : Framework.ofName? r.framework = some f) (hx : expand d r = .ok x)
    (hs : extractFiles d r x.files.length (start f cache) x.files = (s, o)) :
    run d r cache =
      match o with
      | some e => ⟨s.cache, s.progress, s.events, .error e⟩
      | none => finish r x s := by
  simp only [run, hf, hx, hs]
  cases o <;> rfl

theorem run_eq_ok {cache : Option Cache} {result : Result} (h : (run d r cache).outcome = .ok result) :
    ∃ f x s, Framework.ofName? r.framework = some f ∧ expand d r = .ok x ∧
      extractFiles d r x.files.length (start f cache) x.files = (s, none) ∧
      (finish r x s).outcome = .ok result := by
  cases hf : Framework.ofName? r.framework with
  | none => simp [run, hf] at h
  | some f =>
      cases hx : expand d r with
      | error e => simp [run, hf, hx] at h
      | ok x =>
          cases hs : extractFiles d r x.files.length (start f cache) x.files with
          | mk s o =>
              rw [run_of_files hf hx hs] at h
              cases o with
              | some e => simp at h
              | none => exact ⟨f, x, s, rfl, rfl, hs, h⟩

/-- What a run with a sound cache returns is returned without the cache, where every file is parsed. -/
theorem run_sim {result : Result} (hd : Reads contents d) (hn : NoCollision contents)
    (h : Sound contents c) (hrun : (run d r (some c)).outcome = .ok result) :
    ∃ plain, (run d r none).outcome = .ok plain ∧
      Collection.Agree plain.collection result.collection ∧
      plain.parsed = result.parsed + result.cached := by
  obtain ⟨f, x, s, hf, hx, hs, hfinish⟩ := run_eq_ok hrun
  obtain ⟨p, hp, hsim⟩ := (start_sim f h).files hd hn hs
  obtain ⟨c', hc', _⟩ := hsim.cache
  refine ⟨_, by rw [run_of_files hf hx hp]; exact finish_plain x hsim.plain, ?_⟩
  rw [finish_cached x hc'] at hfinish
  cases hprune : (prune r x c').2.2 with
  | some e => simp [hprune] at hfinish
  | none =>
      rw [hprune] at hfinish
      obtain rfl := Except.ok.inj hfinish
      exact ⟨⟨hsim.agree.framework.symm, hsim.agree.objects.symm, fun l => (hsim.agree.lines l).symm⟩,
        hsim.parsed⟩

/-- Where a run without a cache succeeds, one with a sound cache can fail only by the cache. -/
theorem run_passes {plain : Result} (hd : Reads contents d) (hn : NoCollision contents)
    (h : Sound contents c) (hrun : (run d r none).outcome = .ok plain) :
    (∃ result, (run d r (some c)).outcome = .ok result) ∨
      ∃ e, (run d r (some c)).outcome = .error e ∧ e.OfCache d r := by
  obtain ⟨f, x, p, hf, hx, hp, _⟩ := run_eq_ok hrun
  rcases (start_sim f h).files_pass hd hn hp with ⟨s, hs⟩ | ⟨s, e, hs, he⟩
  · obtain ⟨c', hc', _⟩ := files_keep (keeps_sound hd) ⟨c, rfl, h⟩ hs
    rw [run_of_files hf hx hs]
    dsimp only
    rw [finish_cached x hc']
    rcases prune_passes (r := r) (c := c') x with hprune | ⟨e, hprune, he⟩
    · rw [hprune]
      exact Or.inl ⟨_, rfl⟩
    · rw [hprune]
      exact Or.inr ⟨e, rfl, he⟩
  · rw [run_of_files hf hx hs]
    exact Or.inr ⟨e, rfl, he⟩

/-- The files are edited in any way, or a run is made with the cache. -/
inductive Act where
  | edit (d : Disk)
  | extract (r : Request)

structure World where
  disk : Disk
  cache : Cache := {}

namespace World

def next (w : World) : Act → World
  | .edit d => { w with disk := d }
  | .extract r => { w with cache := (run w.disk r (some w.cache)).cache.getD w.cache }

def after (w : World) (acts : List Act) : World := acts.foldl next w

end World

def disks (d : Disk) (acts : List Act) : List Disk :=
  d :: acts.filterMap fun
    | .edit e => some e
    | .extract _ => none

theorem after_sound (acts : List Act) {w : World} (h : Sound contents w.cache)
    (hd : ∀ e ∈ disks w.disk acts, Reads contents e) :
    Sound contents (w.after acts).cache ∧ Reads contents (w.after acts).disk := by
  induction acts generalizing w with
  | nil => exact ⟨h, hd w.disk (by simp [disks])⟩
  | cons a acts ih =>
      rw [World.after, List.foldl_cons, ← World.after]
      cases a with
      | edit e =>
          refine ih h fun e' he' => hd e' ?_
          simp only [World.next, disks, List.filterMap_cons] at he' ⊢
          exact List.mem_cons_of_mem _ he'
      | extract r =>
          -- the outcome does not matter: a run that fails leaves a sound cache as well
          obtain ⟨c, hc, hs⟩ := run_keeps (r := r) (keeps_sound (hd w.disk (by simp [disks]))) h
          refine ih ?_ fun e' he' => hd e' ?_
          · simpa [World.next, hc] using hs
          · simpa [World.next, disks] using he'

/-- Runs are transparent to the cache that any history of edits and runs has left behind, runs that
failed included. -/
theorem run_transparent (d : Disk) (acts : List Act) (r : Request)
    (hutf8 : ∀ e ∈ disks d acts, e.IsUtf8)
    (hhash : NoCollision ((disks d acts).flatMap Disk.contents)) :
    let w := World.after ⟨d, {}⟩ acts
    (∀ result, (run w.disk r (some w.cache)).outcome = .ok result →
      ∃ plain, (run w.disk r none).outcome = .ok plain ∧
        plain.collection.objects = result.collection.objects ∧
        plain.collection.copyrightLines = result.collection.copyrightLines ∧
        plain.collection.manifest = result.collection.manifest ∧
        plain.functionCount = result.functionCount ∧
        plain.parsed = result.parsed + result.cached) ∧
      ∀ plain, (run w.disk r none).outcome = .ok plain →
        (∃ result, (run w.disk r (some w.cache)).outcome = .ok result) ∨
          ∃ e, (run w.disk r (some w.cache)).outcome = .error e ∧ e.OfCache w.disk r := by
  intro w
  have hreads : ∀ e ∈ disks d acts, Reads ((disks d acts).flatMap Disk.contents) e := fun e he =>
    ⟨hutf8 e he, fun t ht => List.mem_flatMap.2 ⟨e, he, ht⟩⟩
  obtain ⟨hsound, hd⟩ := after_sound acts (w := ⟨d, {}⟩) Cache.holds_empty hreads
  constructor
  · intro result hrun
    obtain ⟨plain, hplain, hagree, hparsed⟩ := run_sim hd hhash hsound hrun
    exact ⟨plain, hplain, hagree.objects, hagree.copyrightLines, hagree.manifest,
      congrArg List.length hagree.functions, hparsed⟩
  · intro plain hplain
    exact run_passes hd hhash hsound hplain

namespace Sample

def plainScript : Text := "/**/function f() \x7b\x7d"

def editedScript : Text := "/**/constructor g(x) \x7b\x7d"

/-- Two scripts, of which only the first changes. -/
def disk (t : Text) : Disk :=
  ⟨.directory [("a.js", .file (.text t)), ("b.js", .file (.text plainScript))], "/"⟩

def request (outage : Outage) : Request :=
  { framework := "WebCore", selection := ⟨[], []⟩, paths := ["/a.js", "/b.js"], outage }

/-- A run that cannot store its second file, an edit, a run that succeeds, and the edit taken back. -/
def history : List Act := [
  .extract (request fun op p => if op = .put ∧ p = Text.ofString "/b.js" then some "full" else none),
  .edit (disk editedScript),
  .extract (request fun _ _ => none),
  .edit (disk plainScript)]

def world : World := World.after ⟨disk plainScript, {}⟩ history

theorem isUtf8_disks : ∀ e ∈ disks (disk plainScript) history, e.IsUtf8 := by
  have hplain : (disk plainScript).IsUtf8 := ⟨by decide +kernel, by decide +kernel⟩
  have hedited : (disk editedScript).IsUtf8 := ⟨by decide +kernel, by decide +kernel⟩
  intro e he
  simp only [disks, history, List.filterMap_cons, List.filterMap_nil, List.mem_cons, List.not_mem_nil,
    or_false] at he
  rcases he with rfl | rfl | rfl
  · exact hplain
  · exact hedited
  · exact hplain

theorem noCollision_contents : NoCollision ((disks (disk plainScript) history).flatMap Disk.contents) := by
  have hne : contentHash plainScript ≠ contentHash editedScript := by decide +kernel
  have hmem : ∀ t ∈ (disks (disk plainScript) history).flatMap Disk.contents,
      t = plainScript ∨ t = editedScript := by decide +kernel
  intro t ht u hu h
  rcases hmem t ht with rfl | rfl <;> rcases hmem u hu with rfl | rfl
  · rfl
  · exact absurd h hne
  · exact absurd h.symm hne
  · rfl

theorem run_transparent_after_edits :
    (∀ e ∈ disks (disk plainScript) history, e.IsUtf8) ∧
      NoCollision ((disks (disk plainScript) history).flatMap Disk.contents) ∧
    ∃ result plain, (run world.disk (request fun _ _ => none) (some world.cache)).outcome = .ok result ∧
      result.parsed = 1 ∧ result.cached = 1 ∧
      (run world.disk (request fun _ _ => none) none).outcome = .ok plain ∧
      plain.collection.manifest = result.collection.manifest ∧ plain.parsed = 2 := by
  have hcounts : (run world.disk (request fun _ _ => none) (some world.cache)).outcome.toOption.map
      (fun result => (result.parsed, result.cached)) = some (1, 1) := by decide +kernel
  cases hrun : (run world.disk (request fun _ _ => none) (some world.cache)).outcome with
  | error e => simp [hrun, Except.toOption] at hcounts
  | ok result =>
      obtain ⟨hp, hc⟩ : result.parsed = 1 ∧ result.cached = 1 := by
        simpa [hrun, Except.toOption] using hcounts
      obtain ⟨plain, hplain, _, _, hmanifest, _, hparsed⟩ :=
        (run_transparent (disk plainScript) history (request fun _ _ => none) isUtf8_disks
          noCollision_contents).1 result hrun
      exact ⟨isUtf8_disks, noCollision_contents, result, plain, rfl, hp, hc, hplain, hmanifest, by omega⟩

end Sample

end BuiltinCatalog.Extraction
