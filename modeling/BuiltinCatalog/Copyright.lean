import BuiltinCatalog.Comment
import BuiltinCatalog.ParseError
import BuiltinCatalog.Text.Order

namespace BuiltinCatalog.Copyright

def termsMark : Text := "Redistribution"

def markers : List Text := ["/*", "*/", "*", "Copyright", "copyright", "(C)", "(c)"]

def strip (line : Text) : Text := markers.foldl (fun t mark => Text.removeAll mark t) line

def lines (t : Text) : Except ParseError (List Text) :=
  match Comment.firstBlock? t with
  | none => .error { fault := .noLicense }
  | some block =>
    let header :=
      match Text.cut? termsMark block with
      | some (before, _) => before
      | none => block
    .ok (((header.splitOn 10).map fun line => Text.trim (strip line)).filter (· ≠ []))

/-- A line's owner starts at the first byte that is no digit, comma or space. -/
def owner (line : Text) : Text :=
  line.dropWhile fun b => Text.isDigit b || b == ','.toUInt8 || b == ' '.toUInt8

/-- The groups of four digits, counted from the left of each run of digits. -/
def years : Text → List Text
  | a :: b :: c :: d :: rest =>
    if [a, b, c, d].all Text.isDigit then [a, b, c, d] :: years rest else years (b :: c :: d :: rest)
  | _ => []

structure Entry where
  owner : Text
  years : List Text
  deriving DecidableEq, Repr

namespace Entry

def text (e : Entry) : Text := Text.trim ((", " : Text).intercalate e.years ++ " " ++ e.owner)

end Entry

/-- One entry for each owner, in increasing order, with the years of its lines in increasing order. -/
def merge (lines : List Text) : List Entry :=
  (Text.distinct (lines.map owner)).map fun o =>
    ⟨o, Text.distinct ((lines.filter fun line => owner line == o).flatMap years)⟩

end BuiltinCatalog.Copyright
