import BuiltinCatalog.Cache.Basic
import BuiltinCatalog.Digest.Sha256
import BuiltinCatalog.Json.Write
import BuiltinCatalog.Text.Hex

namespace BuiltinCatalog

structure Migration where
  needsMigration : Bool := false
  needsRebuild : Bool := false
  oldVersion : Int
  newVersion : Int
  reason : Text := []
  deriving DecidableEq, Repr

namespace Cache

inductive Stage where
  | check
  | clear
  | recheck
  | upgrade
  | record
  deriving DecidableEq, Repr

abbrev Outage := Stage → Option Text

def noOutage : Outage := fun _ => none

def attempt (outage : Outage) (stage : Stage) (action : Except CacheError α) : Except CacheError α :=
  match outage stage with
  | some message => .error (.outage message)
  | none => action

def currentVersion : Int := 1

def settingsHash (dialect : Json.Dialect) (framework : Text) : Text :=
  let document := (Json.object [("framework", .string framework)]).compact dialect
  Text.hex ((Sha256.digest document).take 8)

def compareSchema (version : Int) (stored hash : Text) : Migration :=
  let result : Migration := { oldVersion := version, newVersion := currentVersion }
  if currentVersion < version then
    { result with
      needsRebuild := true
      reason := "cache created by newer version (v" ++ Text.ofInt version ++ " > v" ++
        Text.ofInt currentVersion ++ ")" }
  else
    let result :=
      if version = 0 then
        { result with needsMigration := true, reason := "initializing schema version" }
      else if version < currentVersion then
        { result with
          needsMigration := true
          reason := "schema upgrade from v" ++ Text.ofInt version ++ " to v" ++
            Text.ofInt currentVersion }
      else result
    if stored ≠ [] ∧ stored ≠ hash then
      { result with needsRebuild := true, reason := "extraction configuration changed" }
    else result

def checkMigration (dialect : Json.Dialect) (c : Cache) (framework : Text) (outage : Outage) :
    Except CacheError Migration :=
  match attempt outage .check c.schema with
  | .ok (version, stored) => .ok (compareSchema version stored (settingsHash dialect framework))
  | .error e => .error (.schemaUnread e)

/-- Upgrades a schema to the next version. Only that of version 0 writes anything, so only it can fail. -/
def upgrade (outage : Outage) (version : Int) : Except CacheError Unit :=
  if version = 0 then attempt outage .upgrade (.ok ()) else .ok ()

/-- Upgrades a schema that is some versions behind, one version at a time. -/
def upgradeInTurn (outage : Outage) : (behind : Nat) → Except CacheError Unit
  | 0 => .ok ()
  | behind + 1 => do
    let version := currentVersion - (behind + 1)
    (upgrade outage version).mapError (.notUpgraded version)
    upgradeInTurn outage behind

def migrate (dialect : Json.Dialect) (c : Cache) (framework : Text) (outage : Outage) : Except CacheError Cache := do
  let (version, _) ← attempt outage .recheck c.schema
  upgradeInTurn outage (currentVersion - version).toNat
  attempt outage .record (.ok (c.setSchema currentVersion (settingsHash dialect framework)))

/-- Makes a cache usable for a framework, dropping its entries if they no longer apply, and says why.
Returns the cache as it is left, also where this fails. -/
def prepare (dialect : Json.Dialect) (c : Cache) (framework : Text) (outage : Outage) :
    Cache × Except CacheError Text :=
  match c.checkMigration dialect framework outage with
  | .error e => (c, .error e)
  | .ok m =>
    match if m.needsRebuild then attempt outage .clear (.ok c.clear) else .ok c with
    | .error e => (c, .error (.notCleared e))
    | .ok c =>
      match if m.needsRebuild || m.needsMigration then c.migrate dialect framework outage else .ok c with
      | .error e => (c, .error e)
      | .ok c => (c, .ok m.reason)

end Cache

end BuiltinCatalog
