import BuiltinCatalog.Files.Path

namespace BuiltinCatalog.Project

def ownDirectory (root : Text) : Text := Path.join [root, ".builtins"]

def cacheFile (root : Text) : Text := Path.join [root, ".builtins", "cache.db"]

def settingsFiles (root : Text) : List Text :=
  [Path.join [root, "builtins.yaml"], Path.join [root, ".builtins", "config.yaml"]]

end BuiltinCatalog.Project
