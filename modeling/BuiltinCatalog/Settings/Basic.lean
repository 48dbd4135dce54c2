import BuiltinCatalog.Text.Basic

namespace BuiltinCatalog

structure ExtractSettings where
  framework : Text := "JavaScriptCore"
  includes : List Text := ["**/*.js"]
  excludes : List Text := ["**/node_modules/**", "**/.git/**", "**/*.min.js"]
  deriving DecidableEq, Repr

structure OutputSettings where
  format : Text := "json"
  path : Text := []
  packageName : Text := "builtins"
  deriving DecidableEq, Repr

structure CacheSettings where
  enabled : Bool := true
  deriving DecidableEq, Repr

structure LogSettings where
  level : Text := "info"
  deriving DecidableEq, Repr

structure Settings where
  extract : ExtractSettings := {}
  output : OutputSettings := {}
  cache : CacheSettings := {}
  logging : LogSettings := {}
  deriving DecidableEq, Repr

end BuiltinCatalog
