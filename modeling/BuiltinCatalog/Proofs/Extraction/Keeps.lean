import BuiltinCatalog.Proofs.Cache.Basic
import BuiltinCatalog.Proofs.Extraction.Step

namespace BuiltinCatalog.Extraction

variable {d : Disk} {r : Request} {P : Cache → Prop} {s s' : State} {c : Cache} {path : Text}

/-- A property of caches that the writes of a run keep. -/
structure Keeps (d : Disk) (r : Request) (P : Cache → Prop) : Prop where
  put : ∀ {c c' : Cache} {path text : Text} {o : BuiltinObject} {ls : List Text}, P c →
    d.read path = .ok text → Collection.readFile path text = .ok (o, ls) →
      c.put r.dialect path (freshEntry r text o ls) = .ok c' → P c'
  erase : ∀ {c : Cache} (path : Text), P c → P (c.erase path)

theorem put_of_store {e : CacheEntry} {cache : Option Cache} (hc : s.cache = some c)
    (h : store r s path e = .ok cache) : ∃ c', cache = some c' ∧ c.put r.dialect path e = .ok c' := by
  unfold store at h
  rw [hc] at h
  dsimp only at h
  split at h
  next c' hput =>
    obtain rfl := Except.ok.inj h
    exact ⟨c', rfl, mapError_eq_ok.1 (attempt_eq_ok.1 hput).2⟩
  next => cases h

theorem step_of_eq {o : Option Failure} (h : extractFile d r s path = (s', o)) : FileStep d r s path s' o := by
  have := extractFile_step d r s path
  rwa [h] at this

theorem FileStep.keeps {o : Option Failure} (hP : Keeps d r P) (hc : ∃ c, s.cache = some c ∧ P c)
    (h : FileStep d r s path s' o) : ∃ c, s'.cache = some c ∧ P c := by
  obtain ⟨c, hc, hPc⟩ := hc
  cases h with
  | failed cache => exact ⟨c, cache.trans hc, hPc⟩
  | hit read found hash framework => exact ⟨c, hc, hPc⟩
  | miss read parsed stored =>
      obtain ⟨c', rfl, hput⟩ := put_of_store hc stored
      exact ⟨c', rfl, hP.put hPc (read_of_readText read) parsed hput⟩

theorem files_keep {o : Option Failure} {total : Nat} {files : List Text} (hP : Keeps d r P)
    (hc : ∃ c, s.cache = some c ∧ P c) (h : extractFiles d r total s files = (s', o)) :
    ∃ c, s'.cache = some c ∧ P c := by
  induction files generalizing s with
  | nil =>
      obtain ⟨rfl, -⟩ := Prod.mk.inj h
      exact hc
  | cons path files ih =>
      rw [extractFiles] at h
      split at h
      next s₁ e hstep =>
        obtain ⟨rfl, -⟩ := Prod.mk.inj h
        exact (step_of_eq hstep).keeps hP hc
      next s₁ hstep =>
        have hnext := (step_of_eq hstep).keeps hP hc
        exact ih (by exact hnext) h

theorem deletePaths_keep {gone paths : List Text} (hP : Keeps d r P) (h : P c) :
    P (deletePaths r c gone paths).1 := by
  induction paths generalizing c gone with
  | nil => exact h
  | cons path paths ih =>
      rw [deletePaths]
      split
      next => exact h
      next => exact ih (hP.erase path h)

theorem prune_keeps (hP : Keeps d r P) (x : Expansion) (h : P c) : P (prune r x c).1 := by
  unfold prune
  split
  next => exact h
  next =>
    split
    next => exact h
    next => exact deletePaths_keep hP h

theorem finish_keeps (hP : Keeps d r P) (x : Expansion) (hc : ∃ c, s.cache = some c ∧ P c) :
    ∃ c, (finish r x s).cache = some c ∧ P c := by
  obtain ⟨c, hc, h⟩ := hc
  refine ⟨(prune r x c).1, ?_, prune_keeps hP x h⟩
  simp only [finish, hc]
  split <;> rfl

theorem run_keeps (hP : Keeps d r P) (h : P c) : ∃ c', (run d r (some c)).cache = some c' ∧ P c' := by
  unfold run
  split
  next => exact ⟨c, rfl, h⟩
  next f hf =>
    split
    next => exact ⟨c, rfl, h⟩
    next x hx =>
      split
      next s e hs => exact files_keep hP ⟨c, rfl, h⟩ hs
      next s hs => exact finish_keeps hP x (files_keep hP ⟨c, rfl, h⟩ hs)

end BuiltinCatalog.Extraction
