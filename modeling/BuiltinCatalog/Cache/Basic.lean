import BuiltinCatalog.Cache.Entry
import BuiltinCatalog.Text.Keyed

namespace BuiltinCatalog

inductive CacheError where
  | closed
  | keyRequired
  | keyTooLarge
  | valueTooLarge
  | corruptEntry (path : Text)
  | corruptVersion
  | schemaUnread (cause : CacheError)
  | notCleared (cause : CacheError)
  | notUpgraded (version : Int) (cause : CacheError)
  | outage (message : Text)
  deriving DecidableEq, Repr

namespace CacheError

def message : CacheError → Text
  | .closed => "database not open"
  | .keyRequired => "key required"
  | .keyTooLarge => "key too large"
  | .valueTooLarge => "value too large"
  | .corruptEntry path => "corrupt cache entry for " ++ path ++ ": "
  | .corruptVersion => "corrupt schema version: "
  | .schemaUnread cause => "failed to get schema info: " ++ cause.message
  | .notCleared cause => "failed to clear cache: " ++ cause.message
  | .notUpgraded version cause =>
    "migration from v" ++ Text.ofInt version ++ " to v" ++ Text.ofInt (version + 1) ++ " failed: " ++ cause.message
  | .outage message => message

def isCorruption : CacheError → Bool
  | .corruptEntry _ | .corruptVersion => true
  | .schemaUnread cause | .notCleared cause | .notUpgraded _ cause => cause.isCorruption
  | _ => false

end CacheError

/-- A cache holds bytes only; what they say is decoded when it is asked for. -/
structure Cache where
  objects : List (Text × Text) := []
  version : Option Text := none
  configHash : Option Text := none
  deriving DecidableEq, Repr

namespace Cache

def maxKeyLength : Nat := 32768

def maxValueLength : Nat := 2147483646

def checkKey (key : Text) : Except CacheError Unit :=
  if key = [] then .error .keyRequired
  else if maxKeyLength < key.length then .error .keyTooLarge
  else .ok ()

def checkValue (value : Text) : Except CacheError Unit :=
  if maxValueLength < value.length then .error .valueTooLarge else .ok ()

def get? (c : Cache) (path : Text) : Except CacheError (Option CacheEntry) :=
  match c.objects.lookup path with
  | none => .ok none
  | some text =>
    match CacheEntry.read? text with
    | some e => .ok (some e)
    | none => .error (.corruptEntry path)

def putText (c : Cache) (path text : Text) : Except CacheError Cache := do
  checkKey path
  checkValue text
  return { c with objects := Keyed.insert path text c.objects }

def put (dialect : Json.Dialect) (c : Cache) (path : Text) (e : CacheEntry) : Except CacheError Cache :=
  c.putText path (e.text dialect)

def erase (c : Cache) (path : Text) : Cache :=
  { c with objects := Keyed.erase path c.objects }

def paths (c : Cache) : List Text := Keyed.keys c.objects

def clear (c : Cache) : Cache := { c with objects := [] }

def readVersion? (t : Text) : Option Int := do Json.integerSlot? [← Json.read? t]

/-- The version, 0 if none was set, and the settings hash, empty if none was set. -/
def schema (c : Cache) : Except CacheError (Int × Text) :=
  match c.version with
  | none => .ok (0, c.configHash.getD [])
  | some text =>
    match readVersion? text with
    | some n => .ok (n, c.configHash.getD [])
    | none => .error .corruptVersion

def setSchema (c : Cache) (version : Int) (hash : Text) : Cache :=
  { c with version := some (Text.ofInt version), configHash := some hash }

end Cache

end BuiltinCatalog
