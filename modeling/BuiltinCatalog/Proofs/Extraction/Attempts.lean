import BuiltinCatalog.Proofs.Extraction.Prune

namespace BuiltinCatalog.Extraction

variable {d : Disk} {r : Request} {s : State} {c : Cache} {path : Text} {total : Nat} {files : List Text}
  {x : Expansion} {o : Outage}

theorem attempt_congr {α : Type} {o o' : Outage} {op : Operation} (h : o op path = o' op path)
    (action : Except Cause α) : attempt o op path action = attempt o' op path action := by
  rw [attempt, attempt, h]

theorem expand_congr (h : ∀ p, o .walk p = r.outage .walk p) : expand d { r with outage := o } = expand d r := by
  have hpath : expandPath d { r with outage := o } = expandPath d r := by
    funext x p
    simp only [expandPath, attempt_congr (h _)]
  rw [expand, expand, hpath]

theorem parseFile_congr (h : o .put path = r.outage .put path) (text : Text) :
    parseFile { r with outage := o } s path text = parseFile r s path text := by
  have hstore (s : State) (e : CacheEntry) : store { r with outage := o } s path e = store r s path e := by
    simp only [store, attempt_congr h]
  have hfresh (object : BuiltinObject) (lines : List Text) :
      freshEntry { r with outage := o } text object lines = freshEntry r text object lines := rfl
  simp only [parseFile, hstore, hfresh]

theorem extractFile_congr (hread : o .read path = r.outage .read path) (hget : o .get path = r.outage .get path)
    (hput : (∀ c, s.cache = some c → ¬ IsCurrent d r c path) → o .put path = r.outage .put path) :
    extractFile d { r with outage := o } s path = extractFile d r s path := by
  have hlookup : lookup { r with outage := o } s path = lookup r s path := by
    simp only [lookup, attempt_congr hget]
  have hreusable (hash : Text) (found : Option CacheEntry) :
      reusable? { r with outage := o } hash found = reusable? r hash found := rfl
  have htext : readText d { r with outage := o } path = readText d r path := attempt_congr hread _
  simp only [extractFile, htext, hlookup, hreusable]
  cases htext : readText d r path with
  | error cause => rfl
  | ok text =>
      cases hfound : lookup r s path with
      | error e => rfl
      | ok found =>
          dsimp only
          cases hreuse : reusable? r (contentHash text) found with
          | some e => rfl
          | none =>
              have houtdated : ∀ c, s.cache = some c → ¬ IsCurrent d r c path := fun c hc =>
                not_isCurrent_of_reusable? htext hfound hreuse hc
              exact parseFile_congr (hput houtdated) text

theorem extractFiles_congr (hc : s.cache = some c) (hnodup : files.Nodup)
    (hread : ∀ p ∈ files, o .read p = r.outage .read p) (hget : ∀ p ∈ files, o .get p = r.outage .get p)
    (hput : ∀ p ∈ files, ¬ IsCurrent d r c p → o .put p = r.outage .put p) :
    extractFiles d { r with outage := o } total s files = extractFiles d r total s files := by
  induction files generalizing s c with
  | nil => rfl
  | cons path files ih =>
      obtain ⟨hpath, hnodup⟩ := List.nodup_cons.1 hnodup
      have hfile : extractFile d { r with outage := o } s path = extractFile d r s path :=
        extractFile_congr (hread path (by simp)) (hget path (by simp)) fun houtdated =>
          hput path (by simp) (houtdated c hc)
      rw [extractFiles, extractFiles, hfile]
      split
      next => rfl
      next s₁ hstep =>
        obtain ⟨c₁, hc₁, hleft, _⟩ := (step_of_eq hstep).left hc
        refine ih (by exact hc₁) hnodup (fun p hp => hread p (by simp [hp])) (fun p hp => hget p (by simp [hp]))
          fun p hp houtdated => ?_
        have hkept := hleft.kept_of_ne (ne_of_mem_of_not_mem hp hpath)
        exact hput p (by simp [hp]) (mt (isCurrent_congr hkept).2 houtdated)

theorem deletePaths_congr {gone paths : List Text} (h : ∀ p ∈ paths, o .delete p = r.outage .delete p) :
    deletePaths { r with outage := o } c gone paths = deletePaths r c gone paths := by
  induction paths generalizing c gone with
  | nil => rfl
  | cons p paths ih =>
      simp only [deletePaths, h p (by simp)]
      split
      next => rfl
      next => exact ih fun q hq => h q (by simp [hq])

theorem finish_congr (hlist : o .list [] = r.outage .list [])
    (hdelete : ∀ c, s.cache = some c → ∀ p ∈ stalePaths x c.paths, o .delete p = r.outage .delete p) :
    finish { r with outage := o } x s = finish r x s := by
  cases hc : s.cache with
  | none => simp only [finish, hc]
  | some c =>
      have hprune : prune { r with outage := o } x c = prune r x c := by
        simp only [prune, hlist, deletePaths_congr (hdelete c hc)]
      simp only [finish, hc, hprune]

/-- The operations that a run with a cache may try. -/
inductive Tries (d : Disk) (r : Request) (c : Cache) : Operation → Text → Prop
  | walk (p : Text) : Tries d r c .walk p
  | read {x : Expansion} {p : Text} (expanded : expand d r = .ok x) (file : p ∈ x.files) : Tries d r c .read p
  | get {x : Expansion} {p : Text} (expanded : expand d r = .ok x) (file : p ∈ x.files) : Tries d r c .get p
  | put {x : Expansion} {p : Text} (expanded : expand d r = .ok x) (file : p ∈ x.files)
      (outdated : ¬ IsCurrent d r c p) : Tries d r c .put p
  | list : Tries d r c .list []
  | delete {x : Expansion} {p : Text} (expanded : expand d r = .ok x) (stale : p ∈ stalePaths x c.paths) :
      Tries d r c .delete p

theorem run_congr (h : ∀ op p, Tries d r c op p → o op p = r.outage op p) :
    run d { r with outage := o } (some c) = run d r (some c) := by
  simp only [run, expand_congr fun p => h .walk p (.walk p)]
  cases Framework.ofName? r.framework with
  | none => rfl
  | some f =>
      dsimp only
      cases hx : expand d r with
      | error e => rfl
      | ok x =>
          have hnodup := (isProper_expand hx).nodup
          dsimp only
          rw [extractFiles_congr rfl hnodup (fun p hp => h .read p (.read hx hp))
            (fun p hp => h .get p (.get hx hp)) fun p hp houtdated => h .put p (.put hx hp houtdated)]
          split
          next => rfl
          next s hs =>
            refine finish_congr (h .list [] .list) fun c' hc' p hp => h .delete p (.delete hx ?_)
            obtain ⟨c₁, hc₁, _, hkeys⟩ := files_left rfl hnodup hs
            obtain rfl := Option.some.inj (hc'.symm.trans hc₁)
            rwa [stalePaths_congr hkeys] at hp

end BuiltinCatalog.Extraction
