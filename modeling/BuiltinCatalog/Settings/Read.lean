import BuiltinCatalog.Settings.Basic
import BuiltinCatalog.Yaml.Record

namespace BuiltinCatalog.Settings

open Yaml

def extractFields : List (RecordField ExtractSettings) := [
  ⟨"framework", fun d n s => do return { s with framework := ← d.readText n s.framework }⟩,
  ⟨"includes", fun d n s => do return { s with includes := ← d.readTexts n }⟩,
  ⟨"excludes", fun d n s => do return { s with excludes := ← d.readTexts n }⟩]

def outputFields : List (RecordField OutputSettings) := [
  ⟨"format", fun d n s => do return { s with format := ← d.readText n s.format }⟩,
  ⟨"path", fun d n s => do return { s with path := ← d.readText n s.path }⟩,
  ⟨"package_name", fun d n s => do return { s with packageName := ← d.readText n s.packageName }⟩]

def cacheFields : List (RecordField CacheSettings) := [
  ⟨"enabled", fun d n s => do return { s with enabled := ← d.readBool n s.enabled }⟩]

def logFields : List (RecordField LogSettings) := [
  ⟨"level", fun d n s => do return { s with level := ← d.readText n s.level }⟩]

def fields : List (RecordField Settings) := [
  ⟨"extract", fun d n s => do return { s with extract := ← Record.read extractFields d n s.extract }⟩,
  ⟨"output", fun d n s => do return { s with output := ← Record.read outputFields d n s.output }⟩,
  ⟨"cache", fun d n s => do return { s with cache := ← Record.read cacheFields d n s.cache }⟩,
  ⟨"logging", fun d n s => do return { s with logging := ← Record.read logFields d n s.logging }⟩]

/-- The settings that a text gives; `none` if it is no YAML or a value is of the wrong kind. -/
def read? (t : Text) : Option Settings := do
  let d ← Document.read? t
  match d.root with
  | none => return {}
  | some root => Record.read fields d root {}

end BuiltinCatalog.Settings
