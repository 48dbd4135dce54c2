import BuiltinCatalog.Text.Basic

namespace BuiltinCatalog.Text

def insertInto (t : Text) : List Text → List Text
  | [] => [t]
  | u :: us => if t < u then t :: u :: us else if t = u then u :: us else u :: insertInto t us

def distinct (ts : List Text) : List Text := ts.foldr insertInto []

end BuiltinCatalog.Text
