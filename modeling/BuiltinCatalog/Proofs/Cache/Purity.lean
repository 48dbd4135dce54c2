import BuiltinCatalog.Proofs.Extraction.Keeps

namespace BuiltinCatalog

theorem Framework.name_of_ofName? {name : Text} {f : Framework} (h : Framework.ofName? name = some f) :
    f.name = name := by
  simpa using List.find?_some h

theorem Framework.scrub_name (f : Framework) : Text.scrub f.name = f.name := by
  cases f <;> decide +kernel

namespace Cache

variable {dialect : Json.Dialect} {f : Framework} {c c' : Cache} {path : Text}

structure IsFresh (c : Cache) : Prop where
  schema : c.schema = .ok (0, [])
  paths : c.paths = []

/-- The hash that is recorded is that of the framework, however it is computed, and so is every entry. -/
structure IsFor (f : Framework) (c : Cache) : Prop where
  schema : ∀ dialect, c.schema = .ok (currentVersion, settingsHash dialect f.name)
  entries : ∀ path ∈ c.paths, ∃ e, c.get? path = .ok (some e) ∧ e.framework = f.name

def IsPure (c : Cache) : Prop := c.IsFresh ∨ ∃ f, c.IsFor f

theorem isFresh_empty : IsFresh {} := ⟨rfl, rfl⟩

theorem settingsHash_eq (dialect dialect' : Json.Dialect) (f : Framework) :
    settingsHash dialect f.name = settingsHash dialect' f.name := by
  have hdocument : (Json.object [("framework", .string f.name)]).compact dialect =
      (Json.object [("framework", .string f.name)]).compact dialect' := by
    cases f <;> cases dialect <;> cases dialect' <;> decide +kernel
  rw [settingsHash, settingsHash, hdocument]

theorem settingsHash_ne_nil (dialect : Json.Dialect) (f : Framework) : settingsHash dialect f.name ≠ [] := by
  rw [settingsHash_eq dialect .literal]
  cases f <;> decide +kernel

theorem eq_of_settingsHash {f g : Framework} (h : settingsHash dialect f.name = settingsHash dialect g.name) :
    f = g := by
  have hne : settingsHash .literal Framework.javaScriptCore.name ≠
      settingsHash .literal Framework.webCore.name := by
    decide +kernel
  rw [settingsHash_eq dialect .literal, settingsHash_eq dialect .literal] at h
  cases f <;> cases g
  · rfl
  · exact absurd h hne
  · exact absurd h.symm hne
  · rfl

theorem IsFor.put {e : CacheEntry} (h : c.IsFor f) (he : e.framework = f.name)
    (hput : c.put dialect path e = .ok c') : c'.IsFor f := by
  obtain rfl := put_eq_ok hput
  refine ⟨h.schema, fun q hq => ?_⟩
  by_cases hp : q = path
  · refine ⟨e.scrub, get?_eq_ok_some_iff.2 ⟨e.text dialect, ?_, e.read?_text dialect⟩, ?_⟩
    · rw [Keyed.lookup_insert, if_pos hp]
    · exact (congrArg Text.scrub he).trans f.scrub_name
  · obtain ⟨cell, hcell⟩ := Keyed.mem_keys_iff.1 hq
    rw [Keyed.lookup_insert, if_neg hp] at hcell
    obtain ⟨e', hget, he'⟩ := h.entries q (Keyed.mem_keys_iff.2 ⟨cell, hcell⟩)
    refine ⟨e', ?_, he'⟩
    rw [get?_eq_ok_some_iff, Keyed.lookup_insert, if_neg hp]
    exact get?_eq_ok_some_iff.1 hget

theorem IsFor.erase (h : c.IsFor f) (path : Text) : (c.erase path).IsFor f := by
  refine ⟨h.schema, fun q hq => ?_⟩
  obtain ⟨cell, hcell⟩ := Keyed.mem_keys_iff.1 hq
  rw [Cache.erase, Keyed.lookup_erase] at hcell
  split at hcell
  next => cases hcell
  next hp =>
    obtain ⟨e, hget, he⟩ := h.entries q (Keyed.mem_keys_iff.2 ⟨cell, hcell⟩)
    refine ⟨e, ?_, he⟩
    rw [get?_eq_ok_some_iff, Cache.erase, Keyed.lookup_erase, if_neg hp]
    exact get?_eq_ok_some_iff.1 hget

theorem isFor_of_paths (hschema : c.schema = .ok (currentVersion, settingsHash dialect f.name))
    (hpaths : c.paths = []) : c.IsFor f := by
  refine ⟨fun dialect' => by rw [hschema, settingsHash_eq dialect dialect'], fun path hpath => ?_⟩
  rw [hpaths] at hpath
  cases hpath

theorem IsPure.clear (h : c.IsPure) : c.clear.IsPure := by
  rcases h with h | ⟨f, h⟩
  · exact Or.inl ⟨h.schema, rfl⟩
  · exact Or.inr ⟨f, isFor_of_paths (h.schema .literal) rfl⟩

theorem keeps_isFor {d : Disk} {r : Extraction.Request} (hr : r.framework = f.name) :
    Extraction.Keeps d r (IsFor f) where
  put h _ _ hput := h.put hr hput
  erase path h := h.erase path

theorem attempt_eq_ok {α : Type} {outage : Outage} {stage : Stage} {action : Except CacheError α} {a : α} :
    attempt outage stage action = .ok a ↔ outage stage = none ∧ action = .ok a := by
  unfold attempt
  cases outage stage <;> simp

/-- What preparation can leave behind: the cache as it was, the cache without its entries, or a cache with
the current schema. -/
inductive Prepared (dialect : Json.Dialect) (c : Cache) (framework : Text) : Cache → Except CacheError Text → Prop
  | failed (e : CacheError) : Prepared dialect c framework c (.error e)
  | cleared (e : CacheError) : Prepared dialect c framework c.clear (.error e)
  | kept {version : Int} {stored : Text} (schema : c.schema = .ok (version, stored))
      (rebuild : (compareSchema version stored (settingsHash dialect framework)).needsRebuild = false)
      (migration : (compareSchema version stored (settingsHash dialect framework)).needsMigration = false) :
      Prepared dialect c framework c (.ok (compareSchema version stored (settingsHash dialect framework)).reason)
  | rebuilt {version : Int} {stored : Text} (schema : c.schema = .ok (version, stored))
      (rebuild : (compareSchema version stored (settingsHash dialect framework)).needsRebuild = true) :
      Prepared dialect c framework (c.clear.setSchema currentVersion (settingsHash dialect framework))
        (.ok (compareSchema version stored (settingsHash dialect framework)).reason)
  | migrated {version : Int} {stored : Text} (schema : c.schema = .ok (version, stored))
      (rebuild : (compareSchema version stored (settingsHash dialect framework)).needsRebuild = false)
      (migration : (compareSchema version stored (settingsHash dialect framework)).needsMigration = true) :
      Prepared dialect c framework (c.setSchema currentVersion (settingsHash dialect framework))
        (.ok (compareSchema version stored (settingsHash dialect framework)).reason)

theorem checkMigration_eq_ok {framework : Text} {outage : Outage} {m : Migration}
    (h : c.checkMigration dialect framework outage = .ok m) :
    ∃ version stored, c.schema = .ok (version, stored) ∧
      m = compareSchema version stored (settingsHash dialect framework) := by
  unfold checkMigration at h
  split at h
  next version stored hschema =>
    exact ⟨version, stored, (attempt_eq_ok.1 hschema).2, (Except.ok.inj h).symm⟩
  next => cases h

theorem migrate_eq_ok {framework : Text} {outage : Outage} (h : c.migrate dialect framework outage = .ok c') :
    c' = c.setSchema currentVersion (settingsHash dialect framework) := by
  unfold migrate at h
  obtain ⟨⟨version, stored⟩, _, h⟩ := bind_eq_ok.1 h
  obtain ⟨_, _, h⟩ := bind_eq_ok.1 h
  exact (Except.ok.inj (attempt_eq_ok.1 h).2).symm

theorem prepare_prepared (dialect : Json.Dialect) (c : Cache) (framework : Text) (outage : Outage) :
    Prepared dialect c framework (c.prepare dialect framework outage).1 (c.prepare dialect framework outage).2 := by
  unfold prepare
  split
  next e he => exact .failed e
  next m hm =>
    obtain ⟨version, stored, hschema, rfl⟩ := checkMigration_eq_ok hm
    cases hrebuild : (compareSchema version stored (settingsHash dialect framework)).needsRebuild with
    | true =>
        rw [if_pos rfl]
        split
        next e he => exact .failed _
        next c₁ hc₁ =>
          obtain rfl := Except.ok.inj (attempt_eq_ok.1 hc₁).2
          rw [Bool.true_or, if_pos rfl]
          split
          next e he => exact .cleared e
          next c₂ hc₂ =>
            obtain rfl := migrate_eq_ok hc₂
            exact .rebuilt hschema hrebuild
    | false =>
        rw [if_neg (by simp)]
        dsimp only
        cases hmigration : (compareSchema version stored (settingsHash dialect framework)).needsMigration with
        | true =>
            rw [Bool.or_true, if_pos rfl]
            split
            next e he => exact .failed e
            next c₂ hc₂ =>
              obtain rfl := migrate_eq_ok hc₂
              exact .migrated hschema hrebuild hmigration
        | false =>
            rw [Bool.or_false, if_neg (by simp)]
            exact .kept hschema hrebuild hmigration

theorem needsMigration_zero (stored hash : Text) : (compareSchema 0 stored hash).needsMigration = true := by
  unfold compareSchema
  by_cases h : stored ≠ [] ∧ stored ≠ hash <;> simp [currentVersion, h]

theorem needsMigration_current (stored hash : Text) :
    (compareSchema currentVersion stored hash).needsMigration = false := by
  unfold compareSchema
  by_cases h : stored ≠ [] ∧ stored ≠ hash <;> simp [currentVersion, h]

theorem needsRebuild_current {stored hash : Text} (h : (compareSchema currentVersion stored hash).needsRebuild = false)
    (hne : stored ≠ []) : stored = hash := by
  by_contra hhash
  simp [compareSchema, currentVersion, hne, hhash] at h

/-- Preparation keeps a cache pure wherever it ends, and where it succeeds the cache serves the framework. -/
theorem IsPure.prepared {outcome : Except CacheError Text} (h : c.IsPure)
    (hp : Prepared dialect c f.name c' outcome) : c'.IsPure ∧ ∀ reason, outcome = .ok reason → c'.IsFor f := by
  have hdone {x : Cache} {outcome : Except CacheError Text} (hx : x.IsFor f) :
      x.IsPure ∧ ∀ reason, outcome = .ok reason → x.IsFor f := ⟨Or.inr ⟨f, hx⟩, fun _ _ => hx⟩
  cases hp with
  | failed e => exact ⟨h, by simp⟩
  | cleared e => exact ⟨h.clear, by simp⟩
  | rebuilt schema rebuild => exact hdone (isFor_of_paths (schema_setSchema _ _) rfl)
  | @kept version stored schema rebuild migration =>
      rcases h with h | ⟨g, h⟩
      · obtain ⟨rfl, rfl⟩ := Prod.mk.inj (Except.ok.inj (schema.symm.trans h.schema))
        simp [needsMigration_zero] at migration
      · obtain ⟨rfl, rfl⟩ := Prod.mk.inj (Except.ok.inj (schema.symm.trans (h.schema dialect)))
        obtain rfl := eq_of_settingsHash (needsRebuild_current rebuild (settingsHash_ne_nil dialect g))
        exact hdone h
  | @migrated version stored schema rebuild migration =>
      rcases h with h | ⟨g, h⟩
      · exact hdone (isFor_of_paths (schema_setSchema _ _) h.paths)
      · obtain ⟨rfl, rfl⟩ := Prod.mk.inj (Except.ok.inj (schema.symm.trans (h.schema dialect)))
        simp [needsMigration_current] at migration

end Cache

end BuiltinCatalog
