import BuiltinCatalog.Command.Run

namespace BuiltinCatalog.Command

/-- The absolute paths of the places. Where the output goes is known only once the settings are. -/
def places (d : Disk) (args : List Text) : List Text :=
  match parse args with
  | .error _ | .ok (.help, _) => []
  | .ok (_, o) =>
    let output :=
      if o.output ≠ [] then [o.output]
      else
        match prepare d o with
        | .ok c => if c.settings.output.path = [] then [] else [c.settings.output.path]
        | .error _ => []
    let config := if o.config = [] then [] else [o.config]
    (rootOf d o :: o.paths ++ config ++ output).map (Path.absolute d.current)

end BuiltinCatalog.Command
