import BuiltinCatalog.Cache.Basic
import BuiltinCatalog.Text.Base64

namespace BuiltinCatalog.Cache

def imageMark : Text := "builtins cache 1"

def cellLine : Option Text → Text
  | none => "-\n"
  | some t => "=" ++ Text.toBase64 t ++ "\n"

def image (c : Cache) : Text :=
  imageMark ++ "\n" ++ cellLine c.version ++ cellLine c.configHash ++
    c.objects.flatMap fun o => cellLine (some o.1) ++ cellLine (some o.2)

def ofCellLine? : Text → Option (Option Text)
  | [] => none
  | b :: rest =>
    if b == '-'.toUInt8 && rest.isEmpty then some none
    else if b == '='.toUInt8 then (Text.ofBase64? rest).map some
    else none

def ofObjectLines? : List Text → Option (List (Text × Text))
  | [] | [[]] => some []
  | path :: entry :: rest => do
    let path ← (← ofCellLine? path)
    let entry ← (← ofCellLine? entry)
    return (path, entry) :: (← ofObjectLines? rest)
  | _ => none

def ofImage? (t : Text) : Option Cache := do
  match t.splitOn 10 with
  | mark :: version :: hash :: objects =>
    if mark ≠ imageMark then none
    return {
      objects := (← ofObjectLines? objects).foldl (fun es o => Keyed.insert o.1 o.2 es) []
      version := ← ofCellLine? version
      configHash := ← ofCellLine? hash }
  | _ => none

end BuiltinCatalog.Cache
