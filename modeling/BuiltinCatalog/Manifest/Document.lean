import BuiltinCatalog.Json.Write
import BuiltinCatalog.Manifest.Basic

namespace BuiltinCatalog

def Builtin.toJson (f : Builtin) : Json := .object [
  ("name", .string f.name),
  ("source", .string f.source),
  ("is_constructor", .bool f.isConstructor),
  ("parameters", Json.ofOption .string f.parameters),
  ("object", .string f.object)]

def BuiltinObject.toJson (o : BuiltinObject) : Json := .object [
  ("name", .string o.name),
  ("functions", Json.ofOption Builtin.toJson o.functions)]

namespace Manifest

def toJson (m : Manifest) : Json := .object [
  ("framework", .string m.framework),
  ("namespace", .string m.scope),
  ("macro_prefix", .string m.macroPrefix),
  ("copyrights", Json.ofOption .string m.copyrights),
  ("objects", Json.ofOption BuiltinObject.toJson m.objects)]

/-- The sorted functions are left out, as the objects hold them already. -/
def document (dialect : Json.Dialect) (m : Manifest) : Text := m.toJson.indented dialect 0 ++ "\n"

end Manifest

end BuiltinCatalog
