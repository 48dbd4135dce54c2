import BuiltinCatalog.Proofs.Cache.Purity

namespace BuiltinCatalog.Cache

variable {dialect : Json.Dialect} {c c' : Cache} {framework stored hash reason : Text} {version : Int}
  {outage : Outage}

def IsObsolete (version : Int) (stored hash : Text) : Prop :=
  currentVersion < version ∨ (stored ≠ [] ∧ stored ≠ hash)

def IsDue (version : Int) (stored hash : Text) : Prop :=
  version < currentVersion ∨ IsObsolete version stored hash

/-- The flags of a comparison say what is due, and a reason is given exactly if something is. -/
structure Reports (version : Int) (stored hash : Text) (m : Migration) : Prop where
  migration : m.needsMigration = true ↔ version < currentVersion
  rebuild : m.needsRebuild = true ↔ IsObsolete version stored hash
  reason : m.reason ≠ [] ↔ IsDue version stored hash

theorem reports_compareSchema (version : Int) (stored hash : Text) :
    Reports version stored hash (compareSchema version stored hash) := by
  by_cases hnew : currentVersion < version
  · have hold : ¬ version < currentVersion := by omega
    rw [compareSchema, if_pos hnew]
    exact ⟨by simp [hold], by simp [IsObsolete, hnew], by simp [IsDue, IsObsolete, hnew, Text.ofString]⟩
  · rw [compareSchema, if_neg hnew]
    dsimp only
    -- a changed hash replaces the reason that the version gave
    split
    next hhash =>
      refine ⟨?_, by simp [IsObsolete, hhash], by simp [IsDue, IsObsolete, hhash, Text.ofString]⟩
      split
      next hzero => simp [hzero, currentVersion]
      next => split <;> simp_all
    next hhash =>
      split
      next hzero =>
        exact ⟨by simp [hzero, currentVersion], by simp [IsObsolete, hnew, hhash],
          by simp [IsDue, hzero, currentVersion, Text.ofString]⟩
      next =>
        split
        next hold =>
          exact ⟨by simp [hold], by simp [IsObsolete, hnew, hhash], by simp [IsDue, hold, Text.ofString]⟩
        next hold =>
          exact ⟨by simp [hold], by simp [IsObsolete, hnew, hhash],
            by simp [IsDue, IsObsolete, hold, hnew, hhash]⟩

/-- Nothing is due for a framework. -/
def IsSettled (dialect : Json.Dialect) (framework : Text) (c : Cache) : Prop :=
  ∃ version stored, c.schema = .ok (version, stored) ∧ ¬ IsDue version stored (settingsHash dialect framework)

theorem isSettled_setSchema (dialect : Json.Dialect) (c : Cache) (framework : Text) :
    (c.setSchema currentVersion (settingsHash dialect framework)).IsSettled dialect framework :=
  ⟨currentVersion, settingsHash dialect framework, schema_setSchema _ _, by simp [IsDue, IsObsolete]⟩

theorem checkMigration_of_schema (h : c.schema = .ok (version, stored)) (hcheck : outage .check = none) :
    c.checkMigration dialect framework outage = .ok (compareSchema version stored (settingsHash dialect framework)) := by
  rw [checkMigration, attempt, hcheck, h]

theorem IsSettled.checkMigration_eq_ok (h : c.IsSettled dialect framework) (hcheck : outage .check = none) :
    ∃ m, c.checkMigration dialect framework outage = .ok m ∧ m.needsMigration = false ∧ m.needsRebuild = false ∧
      m.reason = [] := by
  obtain ⟨version, stored, hschema, hdue⟩ := h
  have hreports := reports_compareSchema version stored (settingsHash dialect framework)
  refine ⟨_, checkMigration_of_schema hschema hcheck, ?_, ?_, ?_⟩
  · exact Bool.eq_false_iff.2 fun hm => hdue (Or.inl (hreports.migration.1 hm))
  · exact Bool.eq_false_iff.2 fun hr => hdue (Or.inr (hreports.rebuild.1 hr))
  · exact not_not.1 fun hreason => hdue (hreports.reason.1 hreason)

theorem IsSettled.prepare_eq (h : c.IsSettled dialect framework) (hcheck : outage .check = none) :
    c.prepare dialect framework outage = (c, .ok []) := by
  obtain ⟨m, hm, hmigration, hrebuild, hreason⟩ := h.checkMigration_eq_ok hcheck
  simp [prepare, hm, hmigration, hrebuild, hreason]

theorem upgradeInTurn_noOutage (behind : Nat) : upgradeInTurn noOutage behind = .ok () := by
  have hupgrade (version : Int) : upgrade noOutage version = .ok () := by
    unfold upgrade
    split <;> rfl
  induction behind with
  | zero => rfl
  | succ behind ih =>
      rw [upgradeInTurn, hupgrade]
      exact ih

theorem migrate_noOutage (h : c.schema = .ok (version, stored)) :
    c.migrate dialect framework noOutage = .ok (c.setSchema currentVersion (settingsHash dialect framework)) := by
  rw [migrate, h]
  change (upgradeInTurn noOutage (currentVersion - version).toNat >>= fun _ => _) = _
  rw [upgradeInTurn_noOutage]
  rfl

theorem prepare_noOutage (h : c.schema = .ok (version, stored)) :
    ∃ reason, (c.prepare dialect framework noOutage).2 = .ok reason := by
  refine ⟨(compareSchema version stored (settingsHash dialect framework)).reason, ?_⟩
  rw [prepare, checkMigration_of_schema h rfl]
  dsimp only
  cases (compareSchema version stored (settingsHash dialect framework)).needsRebuild with
  | true =>
      have hclear : c.clear.schema = .ok (version, stored) := h
      simp [attempt, noOutage, migrate_noOutage hclear]
  | false =>
      cases (compareSchema version stored (settingsHash dialect framework)).needsMigration with
      | true => simp [migrate_noOutage h]
      | false => simp

/-- What a preparation that succeeds leaves. -/
structure Settles (dialect : Json.Dialect) (c : Cache) (framework : Text) (c' : Cache) (reason : Text) (version : Int)
    (stored : Text) : Prop where
  cleared : IsObsolete version stored (settingsHash dialect framework) → c'.objects = []
  kept : ¬ IsObsolete version stored (settingsHash dialect framework) → c'.objects = c.objects
  recorded : IsDue version stored (settingsHash dialect framework) →
    c'.version = some (Text.ofInt currentVersion) ∧ c'.configHash = some (settingsHash dialect framework) ∧ reason ≠ []
  unchanged : ¬ IsDue version stored (settingsHash dialect framework) → c' = c ∧ reason = []

theorem Prepared.settles (h : Prepared dialect c framework c' (.ok reason)) :
    (∃ version stored, c.schema = .ok (version, stored) ∧ Settles dialect c framework c' reason version stored) ∧
      c'.IsSettled dialect framework := by
  cases h with
  | @kept version stored schema rebuild migration =>
      have hreports := reports_compareSchema version stored (settingsHash dialect framework)
      have hdue : ¬ IsDue version stored (settingsHash dialect framework) := by
        rintro (hold | hobsolete)
        · simp [hreports.migration.2 hold] at migration
        · simp [hreports.rebuild.2 hobsolete] at rebuild
      refine ⟨⟨version, stored, schema, ?_⟩, version, stored, schema, hdue⟩
      exact {
        cleared := fun hobsolete => absurd (Or.inr hobsolete) hdue
        kept := fun _ => rfl
        recorded := fun h => absurd h hdue
        unchanged := fun _ => ⟨rfl, not_not.1 fun hreason => hdue (hreports.reason.1 hreason)⟩ }
  | @rebuilt version stored schema rebuild =>
      have hreports := reports_compareSchema version stored (settingsHash dialect framework)
      have hobsolete := hreports.rebuild.1 rebuild
      refine ⟨⟨version, stored, schema, ?_⟩, isSettled_setSchema _ _ _⟩
      exact {
        cleared := fun _ => rfl
        kept := fun h => absurd hobsolete h
        recorded := fun hdue => ⟨rfl, rfl, hreports.reason.2 hdue⟩
        unchanged := fun h => absurd (Or.inr hobsolete) h }
  | @migrated version stored schema rebuild migration =>
      have hreports := reports_compareSchema version stored (settingsHash dialect framework)
      refine ⟨⟨version, stored, schema, ?_⟩, isSettled_setSchema _ _ _⟩
      exact {
        cleared := fun h => by simp [hreports.rebuild.2 h] at rebuild
        kept := fun _ => rfl
        recorded := fun hdue => ⟨rfl, rfl, hreports.reason.2 hdue⟩
        unchanged := fun h => absurd (Or.inl (hreports.migration.1 migration)) h }

/-- Preparation succeeds wherever the schema can be read. Where it succeeds, it has dropped the entries
exactly if they no longer apply and recorded the schema exactly if something was due, which is when it gives
a reason. A second preparation finds nothing to do. -/
theorem prepare_settles (dialect : Json.Dialect) (c : Cache) (framework : Text) :
    (∀ version stored, c.schema = .ok (version, stored) →
      ∃ reason, (c.prepare dialect framework noOutage).2 = .ok reason) ∧
    ∀ (outage : Outage) (c' : Cache) (reason : Text), c.prepare dialect framework outage = (c', .ok reason) →
      (∃ version stored, c.schema = .ok (version, stored) ∧ Settles dialect c framework c' reason version stored) ∧
      (∃ m, c'.checkMigration dialect framework noOutage = .ok m ∧ m.needsMigration = false ∧
        m.needsRebuild = false) ∧
      ∀ again : Outage, again .check = none → c'.prepare dialect framework again = (c', .ok []) := by
  refine ⟨fun version stored hschema => prepare_noOutage hschema, fun outage c' reason h => ?_⟩
  have hprepared := prepare_prepared dialect c framework outage
  rw [h] at hprepared
  obtain ⟨hsettles, hsettled⟩ := hprepared.settles
  obtain ⟨m, hm, hmigration, hrebuild, _⟩ := hsettled.checkMigration_eq_ok (show noOutage .check = none from rfl)
  exact ⟨hsettles, ⟨m, hm, hmigration, hrebuild⟩, fun again hcheck => hsettled.prepare_eq hcheck⟩

namespace Sample

def outdated : Cache :=
  { objects := [("/a.js", "?")], version := some "-3", configHash := some "old" }

def renewed : Cache :=
  { version := some "1", configHash := some (settingsHash .literal "WebCore") }

theorem prepare_settles_outdated :
    outdated.prepare .literal "WebCore" noOutage = (renewed, .ok "extraction configuration changed") ∧
    renewed.prepare .literal "WebCore" noOutage = (renewed, .ok []) := by
  have h : outdated.prepare .literal "WebCore" noOutage = (renewed, .ok "extraction configuration changed") := by
    decide +kernel
  exact ⟨h, ((prepare_settles .literal outdated "WebCore").2 noOutage renewed _ h).2.2 noOutage rfl⟩

end Sample

end BuiltinCatalog.Cache
