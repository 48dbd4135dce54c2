import BuiltinCatalog.Cache.Image
import BuiltinCatalog.Files.Tree

namespace BuiltinCatalog

inductive Content where
  | text (t : Text)
  | cache (c : Cache)
  deriving DecidableEq, Repr

namespace Content

def bytes : Content → Text
  | .text t => t
  | .cache c => c.image

def ofBytes (t : Text) : Content :=
  if Cache.imageMark.isPrefixOf t then
    match Cache.ofImage? t with
    | some c => .cache c
    | none => .text t
  else .text t

end Content

inductive FileFault where
  | notFound
  | notDirectory
  | isDirectory
  | alreadyThere
  | nameTooLong
  | invalidName
  deriving DecidableEq, Repr

def FileFault.text : FileFault → Text
  | .notFound => "no such file or directory"
  | .notDirectory => "not a directory"
  | .isDirectory => "is a directory"
  | .alreadyThere => "file exists"
  | .nameTooLong => "file name too long"
  | .invalidName => "invalid argument"

structure FileError where
  operation : Text
  path : Text
  fault : FileFault
  deriving DecidableEq, Repr

def FileError.message (e : FileError) : Text := e.operation ++ " " ++ e.path ++ ": " ++ e.fault.text

structure Disk where
  tree : Tree Content
  current : Text
  deriving Repr

namespace Disk

def maxName : Nat := 255

def maxPath : Nat := 4095

/-- Follows one component of a path from a place, whose components are given last first. -/
def enter (t : Tree Content) (place : List Text) (component : Text) :
    Except FileFault (List Text) :=
  match t.get? place.reverse with
  | some (.directory es) =>
    if component = [] ∨ component = Text.ofString "." then .ok place
    else if component = Text.ofString ".." then .ok (place.drop 1)
    else if maxName < component.length then .error .nameTooLong
    else if (es.lookup component).isSome then .ok (component :: place)
    else .error .notFound
  | _ => .error .notDirectory

def locate (d : Disk) (p : Text) : Except FileFault (List Text) :=
  if p = [] then .error .notFound
  else if p.contains 0 then .error .invalidName
  else if maxPath < p.length then .error .nameTooLong
  else
    let start := if Path.isAbsolute p then [] else Path.components d.current
    ((p.splitOn Path.slash).foldlM (enter d.tree) start.reverse).map List.reverse

def look (d : Disk) (operation p : Text) : Except FileError (Tree Content) :=
  match d.locate p with
  | .ok place =>
    match d.tree.get? place with
    | some t => .ok t
    | none => .error ⟨operation, p, .notFound⟩
  | .error fault => .error ⟨operation, p, fault⟩

def read (d : Disk) (p : Text) : Except FileError Text :=
  match d.look "open" p with
  | .ok (.file content) => .ok content.bytes
  | .ok (.directory _) => .error ⟨"read", p, .isDirectory⟩
  | .error e => .error e

def withoutSlashes (p : Text) : Text := (p.reverse.dropWhile (· == Path.slash)).reverse

/-- The place of the directory that holds the last component of a path, and that component. -/
def locateParent (d : Disk) (p : Text) : Except FileFault (List Text × Text) := do
  let name := Path.lastPart p
  let parent := Path.leadingPart p
  if p.contains 0 then .error .invalidName
  else if maxPath < p.length then .error .nameTooLong
  else
    let place ← if parent = [] then .ok (Path.components d.current) else d.locate parent
    if (d.tree.get? place).any (·.isDirectory) then
      if maxName < name.length then .error .nameTooLong else .ok (place, name)
    else .error .notDirectory

def target (d : Disk) (p : Text) : Except FileFault (List Text × Option Content) := do
  if p = [] then .error .notFound
  else if withoutSlashes p ≠ p then
    let _ ← d.locateParent (withoutSlashes p)
    .error .isDirectory
  else
    let (place, name) ← d.locateParent p
    if name = Text.ofString "." ∨ name = Text.ofString ".." then .error .isDirectory
    else
      match d.tree.get? (place ++ [name]) with
      | some (.directory _) => .error .isDirectory
      | some (.file content) => .ok (place ++ [name], some content)
      | none => .ok (place ++ [name], none)

def fill (d : Disk) (place : List Text) (content : Content) : Disk :=
  { d with tree := d.tree.put (.file content) place }

def write (d : Disk) (p : Text) (content : Content) : Except FileError Disk :=
  match d.target p with
  | .ok (place, _) => .ok (d.fill place content)
  | .error fault => .error ⟨"open", p, fault⟩

def makeDirectory (d : Disk) (p : Text) : Except FileFault Disk := do
  let (place, name) ← d.locateParent (withoutSlashes p)
  if (d.tree.get? (place ++ [name])).isSome then .error .alreadyThere
  else return { d with tree := d.tree.put (.directory []) (place ++ [name]) }

def parentText (p : Text) : Text :=
  ((p.reverse.dropWhile (· == Path.slash)).dropWhile (· != Path.slash)).reverse

/-- A path and its ancestors, longest last. -/
def lineage : Nat → Text → List Text
  | 0, _ => []
  | fuel + 1, p => if p = [] then [] else lineage fuel (parentText p) ++ [p]

def ensureDirectory (d : Disk) (p : Text) : Except FileError Disk :=
  match d.look "stat" p with
  | .ok (.directory _) => .ok d
  | .ok (.file _) => .error ⟨"mkdir", p, .notDirectory⟩
  | .error _ => (d.makeDirectory p).mapError fun fault => ⟨"mkdir", p, fault⟩

def ancestry (p : Text) : List Text := lineage (p.length + 1) p

def makeDirectories (d : Disk) (p : Text) : Except FileError Disk := (ancestry p).foldlM ensureDirectory d

/-- The disk once directories were made in turn, up to the first that cannot be. -/
def madeInTurn (d : Disk) : List Text → Disk
  | [] => d
  | p :: ps =>
    match d.ensureDirectory p with
    | .ok d => d.madeInTurn ps
    | .error _ => d

/-- What an attempt to make a directory leaves: if it fails, the ancestors that were made before stay. -/
def leftDirectories (d : Disk) (p : Text) : Disk := d.madeInTurn (ancestry p)

inductive OpenError where
  | file (e : FileError)
  | notCache (size : Nat)
  | outage (message : Text)
  deriving DecidableEq, Repr

def pageSize : Nat := 4096

/-- A damaged file is too small for the pages of a cache, or its first pages make no sense. -/
def OpenError.message : OpenError → Text
  | .file e => "failed to open bolt db: " ++ e.message
  | .notCache size =>
    "failed to open bolt db: " ++
      (if pageSize / 2 < size ∧ size < 2 * pageSize then ("file size too small" : Text)
      else "invalid database")
  | .outage message => message

def saveCache (d : Disk) (place : List Text) (c : Cache) : Disk := d.fill place (.cache c)

/-- Opens the cache in a file, which is made if it is missing or empty. Returns the place of the file. -/
def openCache (d : Disk) (p : Text) : Except OpenError (Disk × List Text × Cache) :=
  match d.target p with
  | .error fault => .error (.file ⟨"open", p, fault⟩)
  | .ok (place, content) =>
    let opened (c : Cache) := (d.saveCache place c, place, c)
    match content with
    | none | some (.text []) => .ok (opened {})
    | some (.cache c) => .ok (opened c)
    | some (.text t) => .error (.notCache t.length)

end Disk

end BuiltinCatalog
