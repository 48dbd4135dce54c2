import BuiltinCatalog.Proofs.Extraction.Keeps

namespace BuiltinCatalog.Extraction

variable {contents : List Text} {d : Disk} {r : Request} {s s' : State} {c c' : Cache} {path : Text}

structure IsResult (contents : List Text) (path : Text) (e : CacheEntry) (text : Text)
    (ls : List Text) : Prop where
  occurs : text ∈ contents
  hash : e.contentHash = contentHash text
  parsed : Collection.readFile path text = .ok (e.object, ls)
  lines : e.copyrightLines = some (Text.distinct ls)

def Sound (contents : List Text) : Cache → Prop :=
  Cache.Holds fun path e => ∃ text ls, IsResult contents path e text ls

/-- What can be read from the disk is valid and among the contents that occur. -/
structure Reads (contents : List Text) (d : Disk) : Prop where
  isUtf8 : d.IsUtf8
  occurs : d.contents ⊆ contents

def NoCollision (contents : List Text) : Prop :=
  ∀ t ∈ contents, ∀ u ∈ contents, contentHash t = contentHash u → t = u

/-- A cache keeps only valid text, and the result of a valid file is valid throughout. -/
theorem isResult_scrub {text : Text} {o : BuiltinObject} {ls : List Text} (hd : Reads contents d)
    (hread : d.read path = .ok text) (hparse : Collection.readFile path text = .ok (o, ls)) :
    IsResult contents path (freshEntry r text o ls).scrub text ls := by
  obtain ⟨hpath, htext⟩ := hd.isUtf8.of_read hread
  obtain ⟨ho, hl⟩ := Collection.scrub_of_readFile hparse hpath htext
  refine ⟨hd.occurs (Disk.mem_contents_of_read hread), ?_, ?_, ?_⟩
  · exact (Text.isUtf8_hex _).scrub_eq
  · rw [hparse]
    exact congrArg (fun o => Except.ok (o, ls)) ho.symm
  · exact congrArg some (map_scrub_eq fun l h => hl l (Text.mem_distinct.1 h))

theorem keeps_sound (hd : Reads contents d) : Keeps d r (Sound contents) where
  put h hread hparse hput := Cache.Holds.put h ⟨_, _, isResult_scrub hd hread hparse⟩ hput
  erase path h := Cache.Holds.erase h path

theorem FileStep.adds (hd : Reads contents d) (hn : NoCollision contents) (hc : s.cache = some c)
    (hs : Sound contents c) (h : FileStep d r s path s' none) :
    ∃ text o ls, readText d r path = .ok text ∧ Collection.readFile path text = .ok (o, ls) ∧
      Collection.Adds s.collection s'.collection o ls ∧
      s'.parsed + s'.cached = s.parsed + s.cached + 1 := by
  cases h with
  | @hit text e read found hash framework =>
      -- the entry is the result of some content with this hash, hence of this one
      obtain ⟨u, ls, he⟩ := Cache.Holds.of_get? hs ((lookup_eq_ok_iff hc).1 found).2
      have hu : u = text := hn u he.occurs text
        (hd.occurs (Disk.mem_contents_of_read (read_of_readText read))) (he.hash.symm.trans hash)
      subst hu
      refine ⟨u, e.object, ls, read, he.parsed, ?_, ?_⟩
      · refine Collection.adds_add s.collection (Collection.owning_of_readFile he.parsed) fun l => ?_
        simp [he.lines]
      · simp only [reuse]
        omega
  | @miss text o ls cache events read parsed stored =>
      refine ⟨text, o, ls, read, parsed, ?_, ?_⟩
      · exact Collection.adds_append s.collection (Collection.owning_of_readFile parsed)
      · dsimp only
        omega

theorem FileStep.adds_plain (hc : s.cache = none) (h : FileStep d r s path s' none) :
    ∃ text o ls, readText d r path = .ok text ∧ Collection.readFile path text = .ok (o, ls) ∧
      Collection.Adds s.collection s'.collection o ls ∧ s'.cache = none ∧ s'.parsed = s.parsed + 1 := by
  cases h with
  | hit read found hash framework => simp [lookup, hc] at found
  | @miss text o ls cache events read parsed stored =>
      obtain rfl : none = cache := by simpa [store, hc] using stored
      exact ⟨text, o, ls, read, parsed,
        Collection.adds_append s.collection (Collection.owning_of_readFile parsed), rfl, rfl⟩

end BuiltinCatalog.Extraction
