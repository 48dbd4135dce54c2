import BuiltinCatalog.Extraction
import BuiltinCatalog.Proofs.Collection.Agree
import BuiltinCatalog.Proofs.Collection.Valid
import BuiltinCatalog.Proofs.Files.Disk

namespace BuiltinCatalog.Extraction

/-- The cache has a result for the content of a file and the framework of the run. -/
def IsCurrent (d : Disk) (r : Request) (c : Cache) (path : Text) : Prop :=
  ∃ text e, d.read path = .ok text ∧ c.get? path = .ok (some e) ∧
    e.contentHash = contentHash text ∧ e.framework = r.framework

/-- Why a file ends the run: it cannot be read, its entry cannot be looked up, or it has no entry that is
current and cannot be parsed or stored. -/
inductive Stops (d : Disk) (r : Request) (cache : Option Cache) (path : Text) : Failure → Prop
  | read {cause : Cause} (read : readText d r path = .error cause) : Stops d r cache path (.read path cause)
  | lookup {text : Text} {c : Cache} {cause : Cause} (read : readText d r path = .ok text)
      (cached : cache = some c)
      (get : attempt r.outage .get path ((c.get? path).mapError .cache) = .error cause) :
      Stops d r cache path (.lookup cause)
  | parse {text : Text} {e : ParseError} (read : readText d r path = .ok text)
      (outdated : ∀ c, cache = some c → ¬ IsCurrent d r c path)
      (parsed : Collection.readFile path text = .error e) : Stops d r cache path (.parse e)
  | store {text : Text} {c : Cache} {o : BuiltinObject} {ls : List Text} {cause : Cause}
      (read : readText d r path = .ok text) (cached : cache = some c) (outdated : ¬ IsCurrent d r c path)
      (parsed : Collection.readFile path text = .ok (o, ls))
      (put : attempt r.outage .put path ((c.put r.dialect path (freshEntry r text o ls)).mapError .cache) =
        .error cause) : Stops d r cache path (.store path cause)

/-- A file is read, or its result is reused, or the run ends and the cache is as before. -/
inductive FileStep (d : Disk) (r : Request) (s : State) (path : Text) : State → Option Failure → Prop
  | failed {s' : State} {e : Failure} (cache : s'.cache = s.cache) (progress : s'.progress = s.progress)
      (stops : Stops d r s.cache path e) : FileStep d r s path s' (some e)
  | hit {text : Text} {e : CacheEntry} (read : readText d r path = .ok text)
      (found : lookup r s path = .ok (some e)) (hash : e.contentHash = contentHash text)
      (framework : e.framework = r.framework) : FileStep d r s path (reuse s path e) none
  | miss {text : Text} {o : BuiltinObject} {ls : List Text} {cache : Option Cache} {events : List Event}
      (read : readText d r path = .ok text) (parsed : Collection.readFile path text = .ok (o, ls))
      (stored : store r s path (freshEntry r text o ls) = .ok cache) {entry : Option CacheEntry}
      (found : lookup r s path = .ok entry) (unusable : reusable? r (contentHash text) entry = none) :
      FileStep d r s path
        { s with
          collection :=
            s.collection.append (({ framework := s.collection.framework } : Collection).add o ls)
          cache := cache
          parsed := s.parsed + 1
          events := events } none

theorem attempt_eq_ok {α : Type} {outage : Outage} {op : Operation} {path : Text} {action : Except Cause α}
    {a : α} : attempt outage op path action = .ok a ↔ outage op path = none ∧ action = .ok a := by
  unfold attempt
  cases outage op path <;> simp

theorem read_of_readText {d : Disk} {r : Request} {path text : Text} (h : readText d r path = .ok text) :
    d.read path = .ok text :=
  mapError_eq_ok.1 (attempt_eq_ok.1 h).2

theorem lookup_eq {r : Request} {s : State} {c : Cache} {path : Text} (hc : s.cache = some c) :
    lookup r s path = (attempt r.outage .get path ((c.get? path).mapError .cache)).mapError .lookup := by
  simp only [lookup, hc]

theorem lookup_eq_ok_iff {r : Request} {s : State} {c : Cache} {path : Text} {found : Option CacheEntry}
    (hc : s.cache = some c) :
    lookup r s path = .ok found ↔ r.outage .get path = none ∧ c.get? path = .ok found := by
  rw [lookup_eq hc, mapError_eq_ok, attempt_eq_ok, mapError_eq_ok]

theorem lookup_eq_error {r : Request} {s : State} {path : Text} {e : Failure} (h : lookup r s path = .error e) :
    ∃ c cause, s.cache = some c ∧
      attempt r.outage .get path ((c.get? path).mapError .cache) = .error cause ∧ e = .lookup cause := by
  cases hc : s.cache with
  | none => simp [lookup, hc] at h
  | some c =>
      rw [lookup_eq hc] at h
      obtain ⟨cause, hcause, rfl⟩ := mapError_eq_error.1 h
      exact ⟨c, cause, rfl, hcause, rfl⟩

theorem store_eq_error {r : Request} {s : State} {path : Text} {entry : CacheEntry} {e : Failure}
    (h : store r s path entry = .error e) :
    ∃ c cause, s.cache = some c ∧
      attempt r.outage .put path ((c.put r.dialect path entry).mapError .cache) = .error cause ∧
      e = .store path cause := by
  unfold store at h
  split at h
  next => cases h
  next c hc =>
    split at h
    next => cases h
    next cause hput => exact ⟨c, cause, hc, hput, (Except.error.inj h).symm⟩

theorem reusable?_eq_some_iff {r : Request} {hash : Text} {found : Option CacheEntry} {e : CacheEntry} :
    reusable? r hash found = some e ↔
      found = some e ∧ e.contentHash = hash ∧ e.framework = r.framework := by
  simp [reusable?, Option.filter_eq_some_iff]

theorem not_isCurrent_of_reusable? {d : Disk} {r : Request} {s : State} {c : Cache} {path text : Text}
    {found : Option CacheEntry} (hread : readText d r path = .ok text) (hfound : lookup r s path = .ok found)
    (h : reusable? r (contentHash text) found = none) (hc : s.cache = some c) : ¬ IsCurrent d r c path := by
  rintro ⟨text', e, hread', hget, hash, hframework⟩
  obtain rfl := Except.ok.inj ((read_of_readText hread).symm.trans hread')
  obtain rfl := Except.ok.inj (((lookup_eq_ok_iff hc).1 hfound).2.symm.trans hget)
  rw [reusable?_eq_some_iff.2 ⟨rfl, hash, hframework⟩] at h
  cases h

theorem parseFile_step {d : Disk} {r : Request} {s : State} {path text : Text} {found : Option CacheEntry}
    (hread : readText d r path = .ok text) (hfound : lookup r s path = .ok found)
    (hnone : reusable? r (contentHash text) found = none) :
    FileStep d r s path (parseFile r s path text).1 (parseFile r s path text).2 := by
  have houtdated : ∀ c, s.cache = some c → ¬ IsCurrent d r c path := fun c hc =>
    not_isCurrent_of_reusable? hread hfound hnone hc
  unfold parseFile
  dsimp only
  split
  next e hparse => exact .failed rfl rfl (.parse hread houtdated hparse)
  next o ls hparse =>
    split
    next e hstore =>
      obtain ⟨c, cause, hc, hput, rfl⟩ := store_eq_error hstore
      exact .failed rfl rfl (.store hread hc (houtdated c hc) hparse hput)
    next cache hstore => exact .miss hread hparse hstore hfound hnone

theorem extractFile_step (d : Disk) (r : Request) (s : State) (path : Text) :
    FileStep d r s path (extractFile d r s path).1 (extractFile d r s path).2 := by
  unfold extractFile
  split
  next cause hread => exact .failed rfl rfl (.read hread)
  next text hread =>
    split
    next e hlookup =>
      obtain ⟨c, cause, hc, hget, rfl⟩ := lookup_eq_error hlookup
      exact .failed rfl rfl (.lookup hread hc hget)
    next found hfound =>
      split
      next e he =>
        obtain ⟨rfl, hash, hframework⟩ := reusable?_eq_some_iff.1 he
        exact .hit hread hfound hash hframework
      next hnone => exact parseFile_step hread hfound hnone

theorem parseFile_snd {r : Request} {s : State} {path text : Text} {o : BuiltinObject} {ls : List Text}
    (hparse : Collection.readFile path text = .ok (o, ls)) :
    (parseFile r s path text).2 =
      match store r s path (freshEntry r text o ls) with
      | .error e => some e
      | .ok _ => none := by
  unfold parseFile
  rw [hparse]
  dsimp only
  cases hs : store r s path (freshEntry r text o ls) with
  | error e =>
      split
      next e' he => exact congrArg some (Except.error.inj (he.symm.trans hs))
      next c hc => exact absurd (hs.symm.trans hc) (by simp)
  | ok cache =>
      split
      next e he => exact absurd (hs.symm.trans he) (by simp)
      next => rfl

theorem extractFile_snd {d : Disk} {r : Request} {s : State} {path text : Text} {o : BuiltinObject}
    {ls : List Text} (hread : readText d r path = .ok text)
    (hparse : Collection.readFile path text = .ok (o, ls)) :
    (extractFile d r s path).2 =
      match lookup r s path with
      | .error e => some e
      | .ok found =>
        match reusable? r (contentHash text) found, store r s path (freshEntry r text o ls) with
        | none, .error e => some e
        | _, _ => none := by
  unfold extractFile
  rw [hread]
  dsimp only
  cases lookup r s path with
  | error e => rfl
  | ok found =>
      dsimp only
      cases reusable? r (contentHash text) found with
      | some e => rfl
      | none =>
          dsimp only
          rw [parseFile_snd hparse]
          cases store r s path (freshEntry r text o ls) <;> rfl

end BuiltinCatalog.Extraction
