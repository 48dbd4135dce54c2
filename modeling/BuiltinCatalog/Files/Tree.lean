import BuiltinCatalog.Files.Path
import BuiltinCatalog.Text.Keyed

namespace BuiltinCatalog

inductive Tree (α : Type) where
  | file (content : α)
  | directory (entries : List (Text × Tree α))
  deriving Repr

namespace Tree

def isDirectory : Tree α → Bool
  | .file _ => false
  | .directory _ => true

def entries : Tree α → List (Text × Tree α)
  | .file _ => []
  | .directory es => es

def get? (t : Tree α) : List Text → Option (Tree α)
  | [] => some t
  | name :: rest =>
    match t.entries.lookup name with
    | some child => child.get? rest
    | none => none

/-- Puts a tree at a path. Directories on the way are made, and files on the way are replaced. -/
def put (t : Tree α) (new : Tree α) : List Text → Tree α
  | [] => new
  | name :: rest =>
    let child := (t.entries.lookup name).getD (.directory [])
    .directory (Keyed.insert name (child.put new rest) t.entries)

def remove (t : Tree α) : List Text → Tree α
  | [] => .directory []
  | [name] =>
    match t with
    | .file c => .file c
    | .directory es => .directory (Keyed.erase name es)
  | name :: rest =>
    match t with
    | .file c => .file c
    | .directory es =>
      match es.lookup name with
      | some child => .directory (Keyed.insert name (child.remove rest) es)
      | none => .directory es

def child (path name : Text) : Text := if path.isEmpty then name else path ++ Path.slash :: name

mutual

/-- What a walk through a tree comes upon, with the paths. A directory is skipped by its path and a slash;
the walk comes upon it, but not upon what is in it. -/
def visitIn (skip : Text → Bool) (path : Text) : Tree α → List (Text × Tree α)
  | .file content => [(path, .file content)]
  | .directory es =>
    (path, .directory es) :: if skip (path ++ [Path.slash]) then [] else visitOf skip path es

def visitOf (skip : Text → Bool) (path : Text) : List (Text × Tree α) → List (Text × Tree α)
  | [] => []
  | (name, t) :: rest => visitIn skip (child path name) t ++ visitOf skip path rest

end

def fileAt? (entry : Text × Tree α) : Option (Text × α) :=
  match entry.2 with
  | .file content => some (entry.1, content)
  | .directory _ => none

def filesIn (skip : Text → Bool) (path : Text) (t : Tree α) : List (Text × α) :=
  (visitIn skip path t).filterMap fileAt?

def pathOf (entry : Text × Tree α) : Text :=
  if entry.2.isDirectory then entry.1 ++ [Path.slash] else entry.1

def pathsIn (path : Text) (t : Tree α) : List Text := (visitIn (fun _ => false) path t).map pathOf

end Tree

end BuiltinCatalog
