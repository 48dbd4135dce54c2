import BuiltinCatalog.Files.Disk
import BuiltinCatalog.Files.Glob

namespace BuiltinCatalog

/-- Which files are wanted: those that match some include and no exclude. -/
structure Selection where
  includes : List Text
  excludes : List Text
  deriving DecidableEq, Repr

namespace Selection

def patterns (s : Selection) : List Text := if s.includes.isEmpty then ["**/*.js"] else s.includes

def included (s : Selection) (path : Text) : Bool := s.patterns.any fun p => Glob.isMatch p path

def excluded (s : Selection) (path : Text) : Bool := s.excludes.any fun p => Glob.isMatch p path

def wants (s : Selection) (path : Text) : Bool := s.included path && !s.excluded path

end Selection

structure FoundFile where
  path : Text
  size : Nat
  deriving DecidableEq, Repr

namespace FoundFile

def sort (files : List FoundFile) : List FoundFile := files.mergeSort fun f g => !(g.path < f.path)

end FoundFile

namespace Tree

/-- What a walk comes upon below its root, with the paths relative to it. A directory that is excluded is not
entered, but the root always is. -/
def visited (s : Selection) (t : Tree Content) : List (Text × Tree Content) :=
  match t with
  | .file content => [(".", .file content)]
  | .directory es => visitOf s.excluded [] es

def select (s : Selection) (t : Tree Content) : List (Text × Content) :=
  ((t.visited s).filterMap fileAt?).filter fun f => s.wants f.1

end Tree

namespace FoundFile

def below (root : Text) (file : Text × Content) : FoundFile :=
  ⟨Path.join [root, file.1], file.2.bytes.length⟩

end FoundFile

namespace Disk

/-- The wanted files below a root, in increasing order. A path that is too long ends the walk. -/
def walk (d : Disk) (s : Selection) (root : Text) : Except FileError (List FoundFile) := do
  let root := Path.absolute d.current root
  let t ← d.look "lstat" root
  match ((t.visited s).map fun e => Path.join [root, e.1]).find? fun p => maxPath < p.length with
  | some path => .error ⟨"lstat", path, .nameTooLong⟩
  | none => return FoundFile.sort ((t.select s).map (FoundFile.below root))

end Disk

end BuiltinCatalog
