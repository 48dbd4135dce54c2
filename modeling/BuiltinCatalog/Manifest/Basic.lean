import BuiltinCatalog.Builtin

namespace BuiltinCatalog

structure Manifest where
  framework : Text
  scope : Text
  macroPrefix : Text
  copyrights : Option (List Text)
  objects : Option (List BuiltinObject)
  functions : Option (List Builtin)
  deriving DecidableEq, Repr

namespace Manifest

def copyrightList (m : Manifest) : List Text := m.copyrights.getD []

def objectList (m : Manifest) : List BuiltinObject := m.objects.getD []

def functionList (m : Manifest) : List Builtin := m.functions.getD []

def notice (owner : Text) : Text := "Copyright (C) " ++ owner

end Manifest

end BuiltinCatalog
