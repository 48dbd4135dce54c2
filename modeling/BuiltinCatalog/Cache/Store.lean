import BuiltinCatalog.Cache.Migration

namespace BuiltinCatalog

structure Store where
  cache : Cache := {}
  isOpen : Bool := true
  deriving DecidableEq, Repr

namespace Store

def ask (s : Store) (query : Cache → Except CacheError α) : Except CacheError α :=
  if s.isOpen then query s.cache else .error .closed

def get? (s : Store) (path : Text) : Except CacheError (Option CacheEntry) := s.ask (·.get? path)

def paths (s : Store) : Except CacheError (List Text) := s.ask fun c => .ok c.paths

def schema (s : Store) : Except CacheError (Int × Text) := s.ask Cache.schema

def checkMigration (dialect : Json.Dialect) (s : Store) (framework : Text) : Except CacheError Migration :=
  if s.isOpen then s.cache.checkMigration dialect framework Cache.noOutage else .error (.schemaUnread .closed)

def update (s : Store) (change : Cache → Except CacheError Cache) : Except CacheError Store := do
  return { s with cache := ← s.ask change }

def put (dialect : Json.Dialect) (s : Store) (path : Text) (e : CacheEntry) : Except CacheError Store :=
  s.update (·.put dialect path e)

def erase (s : Store) (path : Text) : Except CacheError Store := s.update fun c => .ok (c.erase path)

def clear (s : Store) : Except CacheError Store := s.update fun c => .ok c.clear

def setSchema (s : Store) (version : Int) (hash : Text) : Except CacheError Store :=
  s.update fun c => do
    Cache.checkValue hash
    return c.setSchema version hash

def migrate (dialect : Json.Dialect) (s : Store) (framework : Text) : Except CacheError Store :=
  s.update (·.migrate dialect framework Cache.noOutage)

def prepare (dialect : Json.Dialect) (s : Store) (framework : Text) : Except CacheError (Store × Text) :=
  if s.isOpen then
    let (c, outcome) := s.cache.prepare dialect framework Cache.noOutage
    outcome.map fun reason => ({ s with cache := c }, reason)
  else .error (.schemaUnread .closed)

def close (s : Store) : Store := { s with isOpen := false }

def reopen (s : Store) : Store := { s with isOpen := true }

end Store

end BuiltinCatalog
