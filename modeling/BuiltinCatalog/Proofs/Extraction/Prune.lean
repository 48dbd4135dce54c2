import BuiltinCatalog.Proofs.Extraction.Files
import BuiltinCatalog.Proofs.Files.Within

namespace BuiltinCatalog

namespace Extraction

variable {d : Disk} {r : Request} {c c' : Cache} {p : Text} {x : Expansion} {files paths : List Text}

theorem keeps_ordered : Keeps d r Cache.Ordered where
  put hc _ _ hput := Cache.ordered_put hc hput
  erase path hc := Cache.ordered_erase hc path

/-- A path below a searched directory that is not among the files. -/
def Expansion.IsStale (x : Expansion) (p : Text) : Prop :=
  p ∉ x.files ∧ ∃ root ∈ x.roots, isBelow p root = true

theorem isStale_iff : (!x.files.contains p && x.roots.any (isBelow p)) = true ↔ x.IsStale p := by
  simp [Expansion.IsStale]

theorem mem_stalePaths : p ∈ stalePaths x paths ↔ p ∈ paths ∧ x.IsStale p := by
  rw [stalePaths, List.mem_filter, isStale_iff]

theorem stalePaths_congr
    (h : ∀ keep : Text → Bool, (∀ p ∈ x.files, keep p = false) → c'.paths.filter keep = c.paths.filter keep) :
    stalePaths x c'.paths = stalePaths x c.paths :=
  h _ fun q hq => by simp [hq]

theorem isBelow_iff {root : Text} : isBelow p root = true ↔ ∃ v, p = root ++ Path.slash :: v := by
  rw [isBelow, List.isPrefixOf_iff_prefix]
  constructor
  · rintro ⟨v, rfl⟩
    exact ⟨v, by simp⟩
  · rintro ⟨v, rfl⟩
    exact ⟨v, by simp⟩

theorem isStale_iff_isWithin (hx : x.IsProper) (hroots : [Path.slash] ∉ x.roots) :
    x.IsStale p ↔ p ∉ x.files ∧ ∃ root ∈ x.roots, Path.IsWithin p root := by
  refine and_congr_right fun _ => exists_congr fun root => and_congr_right fun hroot => ?_
  have hne : root ≠ [Path.slash] := fun h => hroots (h ▸ hroot)
  rw [isBelow_iff, Path.isWithin_iff (hx.roots root hroot) hne]

def eraseAll (c : Cache) (paths : List Text) : Cache := paths.foldl Cache.erase c

theorem lookup_eraseAll (c : Cache) (paths : List Text) (p : Text) :
    (eraseAll c paths).objects.lookup p = if p ∈ paths then none else c.objects.lookup p := by
  induction paths generalizing c with
  | nil => simp [eraseAll]
  | cons q paths ih =>
      rw [eraseAll, List.foldl_cons, ← eraseAll, ih, Cache.erase, Keyed.lookup_erase]
      by_cases hp : p ∈ paths
      · rw [if_pos hp, if_pos (List.mem_cons_of_mem q hp)]
      · simp [hp]

theorem schema_eraseAll (c : Cache) (paths : List Text) :
    (eraseAll c paths).version = c.version ∧ (eraseAll c paths).configHash = c.configHash := by
  induction paths generalizing c with
  | nil => exact ⟨rfl, rfl⟩
  | cons q paths ih => exact ih (c.erase q)

theorem Left.eraseAll {out : Text → Prop} (h : Left d r files NoPath c c')
    (hpaths : ∀ p, p ∈ paths ↔ p ∈ c'.paths ∧ p ∉ files ∧ out p) :
    Left d r files out c (eraseAll c' paths) where
  version := (schema_eraseAll c' paths).1.trans h.version
  configHash := (schema_eraseAll c' paths).2.trans h.configHash
  file p hp := by
    rw [lookup_eraseAll, if_neg fun hmem => ((hpaths p).1 hmem).2.1 hp]
    exact h.file p hp
  erased p hp hout := by
    rw [lookup_eraseAll]
    split
    next => rfl
    next hmem =>
      -- what is to be erased and is not among the paths has no entry to begin with
      have hnone : p ∉ c'.paths := fun hkey => hmem ((hpaths p).2 ⟨hkey, hp, hout⟩)
      cases hl : c'.objects.lookup p with
      | none => rfl
      | some cell => exact absurd (Keyed.mem_keys_iff.2 ⟨cell, hl⟩) hnone
  kept p hp hout := by
    rw [lookup_eraseAll, if_neg fun hmem => hout ((hpaths p).1 hmem).2.2]
    exact h.kept p hp not_false

/-- All stale paths are erased, or they cannot be listed, or those before the first that cannot be deleted
are erased. -/
inductive Pruned (r : Request) (x : Expansion) (c : Cache) : Cache → List Text → Option Failure → Prop
  | all (listed : x.roots = [] ∨ r.outage .list [] = none) :
      Pruned r x c (eraseAll c (stalePaths x c.paths)) (stalePaths x c.paths) none
  | unlisted {message : Text} (roots : x.roots ≠ []) (list : r.outage .list [] = some message) :
      Pruned r x c c [] (some (.list (.outage message)))
  | stopped {before after : List Text} {p message : Text} (split : stalePaths x c.paths = before ++ p :: after)
      (delete : r.outage .delete p = some message) :
      Pruned r x c (eraseAll c before) before (some (.delete p (.outage message)))

theorem deletePaths_cases (gone paths : List Text) :
    deletePaths r c gone paths = (eraseAll c paths, gone ++ paths, none) ∨
      ∃ before p after message, paths = before ++ p :: after ∧ r.outage .delete p = some message ∧
        deletePaths r c gone paths = (eraseAll c before, gone ++ before, some (.delete p (.outage message))) := by
  induction paths generalizing c gone with
  | nil => exact Or.inl (by rw [deletePaths, List.append_nil]; rfl)
  | cons q paths ih =>
      rw [deletePaths]
      split
      next message hm => exact Or.inr ⟨[], q, paths, message, rfl, hm, by rw [List.append_nil]; rfl⟩
      next =>
        rcases ih (c := c.erase q) (gone ++ [q]) with h | ⟨before, p, after, message, rfl, hm, h⟩
        · exact Or.inl (by rw [h, List.append_assoc]; rfl)
        · exact Or.inr ⟨q :: before, p, after, message, rfl, hm, by rw [h, List.append_assoc]; rfl⟩

theorem prune_pruned (r : Request) (x : Expansion) (c : Cache) :
    Pruned r x c (prune r x c).1 (prune r x c).2.1 (prune r x c).2.2 := by
  unfold prune
  split
  next hroots =>
    rw [List.isEmpty_iff] at hroots
    have hnone : stalePaths x c.paths = [] := by simp [stalePaths, hroots]
    have hall := Pruned.all (r := r) (c := c) (Or.inl hroots)
    rwa [hnone] at hall
  next hroots =>
    split
    next message hm => exact .unlisted (mt List.isEmpty_iff.2 hroots) hm
    next hlist =>
      rcases deletePaths_cases (r := r) (c := c) [] (stalePaths x c.paths) with
        h | ⟨before, p, after, message, hsplit, hm, h⟩
      · rw [h]
        exact .all (Or.inr hlist)
      · rw [h]
        exact .stopped hsplit hm

theorem Left.all (h : Left d r x.files NoPath c c') :
    Left d r x.files x.IsStale c (Extraction.eraseAll c' (stalePaths x c'.paths)) :=
  h.eraseAll fun p => by
    rw [mem_stalePaths]
    exact and_congr_right fun _ => ⟨fun hp => ⟨hp.1, hp⟩, fun hp => hp.2⟩

theorem mem_before_iff {before after : List Text} {q : Text} (h : (before ++ q :: after).Pairwise (· < ·)) :
    p ∈ before ↔ p ∈ before ++ q :: after ∧ p < q := by
  obtain ⟨-, hafter, hbefore⟩ := List.pairwise_append.1 h
  constructor
  · exact fun hp => ⟨List.mem_append_left _ hp, hbefore p hp q (by simp)⟩
  · rintro ⟨hp, hlt⟩
    rcases List.mem_append.1 hp with hp | hp
    · exact hp
    · rcases List.mem_cons.1 hp with rfl | hp
      · exact absurd hlt (List.lt_irrefl p)
      · exact absurd (List.lt_trans hlt ((List.pairwise_cons.1 hafter).1 p hp)) (List.lt_irrefl p)

theorem Left.stopped {before after : List Text} {q : Text} (h : Left d r x.files NoPath c c')
    (hordered : (stalePaths x c'.paths).Pairwise (· < ·)) (hsplit : stalePaths x c'.paths = before ++ q :: after) :
    Left d r x.files (fun p => x.IsStale p ∧ p < q) c (Extraction.eraseAll c' before) :=
  h.eraseAll fun p => by
    rw [hsplit] at hordered
    rw [mem_before_iff hordered, ← hsplit, mem_stalePaths, and_assoc]
    exact and_congr_right fun _ => ⟨fun hp => ⟨hp.1.1, hp⟩, fun hp => hp.2⟩

end Extraction

end BuiltinCatalog
