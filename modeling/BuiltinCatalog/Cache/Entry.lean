import BuiltinCatalog.Builtin
import BuiltinCatalog.Json.Read
import BuiltinCatalog.Json.Slot
import BuiltinCatalog.Manifest.Document

namespace BuiltinCatalog

structure CacheEntry where
  contentHash : Text := []
  framework : Text := []
  object : BuiltinObject := { name := [] }
  copyrightLines : Option (List Text) := none
  deriving DecidableEq, Repr

def Builtin.scrub (f : Builtin) : Builtin where
  name := Text.scrub f.name
  source := Text.scrub f.source
  isConstructor := f.isConstructor
  parameters := f.parameters.map (·.map Text.scrub)
  object := Text.scrub f.object

def BuiltinObject.scrub (o : BuiltinObject) : BuiltinObject :=
  ⟨Text.scrub o.name, o.functions.map (·.map Builtin.scrub)⟩

def Builtin.ofWrites? (writes : List Json) : Option Builtin := do
  let members ← Json.objectSlot? writes
  return {
    name := ← Json.textSlot? (Json.writesTo "name" members)
    source := ← Json.textSlot? (Json.writesTo "source" members)
    isConstructor := ← Json.boolSlot? (Json.writesTo "is_constructor" members)
    parameters := ← Json.listOf? Json.textSlot? (Json.writesTo "parameters" members)
    object := ← Json.textSlot? (Json.writesTo "object" members) }

def BuiltinObject.ofWrites? (writes : List Json) : Option BuiltinObject := do
  let members ← Json.objectSlot? writes
  return {
    name := ← Json.textSlot? (Json.writesTo "name" members)
    functions := ← Json.listOf? Builtin.ofWrites? (Json.writesTo "functions" members) }

namespace CacheEntry

/-- The entry with every stray byte replaced, as a cache keeps only valid text. -/
def scrub (e : CacheEntry) : CacheEntry where
  contentHash := Text.scrub e.contentHash
  framework := Text.scrub e.framework
  object := e.object.scrub
  copyrightLines := e.copyrightLines.map (·.map Text.scrub)

def toJson (e : CacheEntry) : Json := .object [
  ("content_hash", .string e.contentHash),
  ("framework", .string e.framework),
  ("object", e.object.toJson),
  ("copyright_lines", Json.ofOption .string e.copyrightLines)]

def text (dialect : Json.Dialect) (e : CacheEntry) : Text := e.toJson.compact dialect

def ofJson? (j : Json) : Option CacheEntry := do
  let members ← Json.objectSlot? [j]
  return {
    contentHash := ← Json.textSlot? (Json.writesTo "content_hash" members)
    framework := ← Json.textSlot? (Json.writesTo "framework" members)
    object := ← BuiltinObject.ofWrites? (Json.writesTo "object" members)
    copyrightLines := ← Json.listOf? Json.textSlot? (Json.writesTo "copyright_lines" members) }

def read? (t : Text) : Option CacheEntry := do ofJson? (← Json.read? t)

end CacheEntry

end BuiltinCatalog
