import BuiltinCatalog.Files.Disk

namespace BuiltinCatalog

inductive Change where
  | makeDirectory (path : Text)
  | write (path bytes : Text)
  deriving DecidableEq, Repr

namespace Change

def below (root : Tree Content) (path : Text) : Option (Tree Content) :=
  root.get? (Path.components (Path.slash :: path))

def ofDirectory? (old : Tree Content) (path : Text) : Option Change :=
  if path.getLast? = some Path.slash ∧ (below old path).isNone then
    some (.makeDirectory (Path.slash :: path))
  else none

def ofFile? (old : Tree Content) (file : Text × Content) : Option Change :=
  match below old file.1 with
  | some (.file content) =>
    if content = file.2 then none else some (.write (Path.slash :: file.1) file.2.bytes)
  | _ => some (.write (Path.slash :: file.1) file.2.bytes)

/-- The directories to be made, outermost first, and then the files to be written. -/
def between (old new : Tree Content) : List Change :=
  let entries := Tree.visitOf (fun _ => false) [] new.entries
  (entries.map Tree.pathOf).filterMap (ofDirectory? old) ++
    (entries.filterMap Tree.fileAt?).filterMap (ofFile? old)

end Change

end BuiltinCatalog
