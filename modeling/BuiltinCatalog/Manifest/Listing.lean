import BuiltinCatalog.Manifest.Basic

namespace BuiltinCatalog

namespace BuiltinObject

def listingLine (f : Builtin) : Text := "  " ++ f.signature ++ "\n"

def listing (o : BuiltinObject) : Text := o.name ++ ":\n" ++ o.functionList.flatMap listingLine

end BuiltinObject

namespace Manifest

def copyrightLine (owner : Text) : Text := notice owner ++ "\n"

def title (m : Manifest) : Text :=
  "Framework: " ++ m.framework ++ " (namespace " ++ m.scope ++ ", macro prefix " ++ m.macroPrefix ++ ")"

def sections (m : Manifest) : Text := m.objectList.flatMap fun o => 10 :: o.listing

def listing (m : Manifest) : Text :=
  m.title ++ "\n" ++ m.copyrightList.flatMap copyrightLine ++ m.sections

end Manifest

end BuiltinCatalog
