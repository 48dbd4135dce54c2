import BuiltinCatalog.Text.Basic

namespace BuiltinCatalog.Text

/-- The distances from the beginnings of `s` to a text, given those to the text without its last byte
`b`. `corner` and `left` are the distances before the first and the next place. -/
def nextRow (b : Byte) (corner left : Nat) : Text → List Nat → List Nat
  | c :: s, above :: row =>
    let d := if c = b then corner else min (min left above) corner + 1
    d :: nextRow b above d s row
  | _, _ => []

def distance (s t : Text) : Nat :=
  let start := (List.range s.length).map (· + 1)
  let (row, rows) := t.foldl
    (fun (row, n) b => (nextRow b n (n + 1) s row, n + 1)) (start, 0)
  row.getLast?.getD rows

end BuiltinCatalog.Text
