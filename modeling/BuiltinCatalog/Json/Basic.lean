import BuiltinCatalog.Text.Basic

namespace BuiltinCatalog

inductive Json where
  | null
  | bool (b : Bool)
  | number (literal : Text)
  | string (t : Text)
  | array (items : List Json)
  | object (members : List (Text × Json))
  deriving Repr

namespace Json

def ofOption (f : α → Json) : Option (List α) → Json
  | some as => .array (as.map f)
  | none => .null

end Json

end BuiltinCatalog
