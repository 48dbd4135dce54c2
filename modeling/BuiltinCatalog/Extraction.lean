import BuiltinCatalog.Cache.Migration
import BuiltinCatalog.Collection
import BuiltinCatalog.Files.Walk

namespace BuiltinCatalog

namespace Extraction

inductive Operation where
  | walk
  | read
  | get
  | put
  | delete
  | list
  deriving DecidableEq, Repr

/-- Operations that fail for reasons of their own, by the path they are for, and what they report. -/
abbrev Outage := Operation → Text → Option Text

structure Request where
  framework : Text
  selection : Selection
  paths : List Text
  dialect : Json.Dialect := .literal
  outage : Outage := fun _ _ => none

inductive Cause where
  | file (e : FileError)
  | cache (e : CacheError)
  | outage (message : Text)
  deriving DecidableEq, Repr

def Cause.message : Cause → Text
  | .file e => e.message
  | .cache e => e.message
  | .outage message => message

inductive Failure where
  | unknownFramework (name : Text)
  | noSuchPath (e : FileError)
  | walk (cause : Cause)
  | read (path : Text) (cause : Cause)
  | lookup (cause : Cause)
  | parse (e : ParseError)
  | store (path : Text) (cause : Cause)
  | list (cause : Cause)
  | delete (path : Text) (cause : Cause)
  deriving DecidableEq, Repr

def Failure.message : Failure → Text
  | .unknownFramework name => Framework.unknownMessage name
  | .noSuchPath e => "path does not exist: " ++ e.message
  | .walk cause => "failed to walk directory: " ++ cause.message
  | .read path cause => "failed to read " ++ path ++ ": " ++ cause.message
  | .lookup cause => cause.message
  | .parse e => e.message
  | .store path cause => "failed to cache " ++ path ++ ": " ++ cause.message
  | .list cause => "failed to list cache: " ++ cause.message
  | .delete path cause => "failed to delete " ++ path ++ " from cache: " ++ cause.message

def attempt (outage : Outage) (op : Operation) (path : Text) (action : Except Cause α) :
    Except Cause α :=
  match outage op path with
  | some message => .error (.outage message)
  | none => action

structure Expansion where
  files : List Text := []
  roots : List Text := []
  deriving DecidableEq, Repr

def Expansion.addFiles (x : Expansion) (paths : List Text) : Expansion :=
  { x with files := paths.foldl (fun fs p => if fs.contains p then fs else fs ++ [p]) x.files }

def expandPath (d : Disk) (r : Request) (x : Expansion) (path : Text) : Except Failure Expansion := do
  let path := Path.absolute d.current path
  match d.look "stat" path with
  | .error e => .error (.noSuchPath e)
  | .ok (.file _) => return x.addFiles [path]
  | .ok (.directory _) =>
    let search := (d.walk r.selection path).mapError .file
    let found ← (attempt r.outage .walk path search).mapError .walk
    return { x with roots := x.roots ++ [path] }.addFiles (found.map FoundFile.path)

/-- Paths of files stand for themselves, and directories for the wanted files in them. Each file counts
once, where it is named first. -/
def expand (d : Disk) (r : Request) : Except Failure Expansion := r.paths.foldlM (expandPath d r) {}

structure Progress where
  processed : Nat
  total : Nat
  file : Text
  deriving DecidableEq, Repr

structure State where
  collection : Collection
  cache : Option Cache
  parsed : Nat := 0
  cached : Nat := 0
  progress : List Progress := []
  events : List Event := []
  deriving DecidableEq, Repr

def start (framework : Framework) (cache : Option Cache) : State :=
  { collection := { framework }, cache, events := [.created framework.name] }

def State.report (s : State) (total : Nat) (path : Text) : State :=
  { s with progress := s.progress ++ [⟨s.progress.length + 1, total, path⟩] }

def contentHash (text : Text) : Text := Text.hex (Sha256.digest text)

def readText (d : Disk) (r : Request) (path : Text) : Except Cause Text :=
  attempt r.outage .read path ((d.read path).mapError .file)

def freshEntry (r : Request) (text : Text) (object : BuiltinObject) (lines : List Text) : CacheEntry where
  contentHash := contentHash text
  framework := r.framework
  object := object
  copyrightLines := some (Text.distinct lines)

def reusable? (r : Request) (hash : Text) (found : Option CacheEntry) : Option CacheEntry :=
  found.filter fun e => e.contentHash = hash ∧ e.framework = r.framework

def lookup (r : Request) (s : State) (path : Text) : Except Failure (Option CacheEntry) :=
  match s.cache with
  | none => .ok none
  | some c => (attempt r.outage .get path ((c.get? path).mapError .cache)).mapError .lookup

def store (r : Request) (s : State) (path : Text) (e : CacheEntry) : Except Failure (Option Cache) :=
  match s.cache with
  | none => .ok none
  | some c =>
    match attempt r.outage .put path ((c.put r.dialect path e).mapError .cache) with
    | .ok c => .ok (some c)
    | .error cause => .error (.store path cause)

def reuse (s : State) (path : Text) (e : CacheEntry) : State :=
  let lines := e.copyrightLines.getD []
  { s with
    collection := s.collection.add e.object lines
    cached := s.cached + 1
    events := s.events ++ .reused path :: s.collection.addEvents lines }

/-- Reads a file afresh and caches the result. What is reported on the way stays reported. -/
def parseFile (r : Request) (s : State) (path text : Text) : State × Option Failure :=
  let scratch : Collection := { framework := s.collection.framework }
  let s := { s with
    events := s.events ++ .created scratch.framework.name :: scratch.parseEvents path text }
  match Collection.readFile path text with
  | .error e => (s, some (.parse e))
  | .ok (object, lines) =>
    match store r s path (freshEntry r text object lines) with
    | .error e => (s, some e)
    | .ok cache =>
      let collection := s.collection.append (scratch.add object lines)
      ({ s with collection := collection, cache := cache, parsed := s.parsed + 1 }, none)

def extractFile (d : Disk) (r : Request) (s : State) (path : Text) : State × Option Failure :=
  match readText d r path with
  | .error cause => (s, some (.read path cause))
  | .ok text =>
    match lookup r s path with
    | .error e => (s, some e)
    | .ok found =>
      match reusable? r (contentHash text) found with
      | some e => (reuse s path e, none)
      | none => parseFile r s path text

/-- Reads files in turn, up to the first that fails. `total` is the number of all files of the run. -/
def extractFiles (d : Disk) (r : Request) (total : Nat) (s : State) :
    List Text → State × Option Failure
  | [] => (s, none)
  | path :: rest =>
    match extractFile d r s path with
    | (s, some e) => (s, some e)
    | (s, none) => extractFiles d r total (s.report total path) rest

def isBelow (path root : Text) : Bool := (root ++ [Path.slash]).isPrefixOf path

/-- Cached paths below the searched directories that were not among the files. -/
def stalePaths (x : Expansion) (paths : List Text) : List Text :=
  paths.filter fun p => !x.files.contains p && x.roots.any (isBelow p)

def deletePaths (r : Request) (cache : Cache) (gone : List Text) :
    List Text → Cache × List Text × Option Failure
  | [] => (cache, gone, none)
  | path :: rest =>
    match r.outage .delete path with
    | some message => (cache, gone, some (.delete path (.outage message)))
    | none => deletePaths r (cache.erase path) (gone ++ [path]) rest

def prune (r : Request) (x : Expansion) (cache : Cache) : Cache × List Text × Option Failure :=
  if x.roots.isEmpty then (cache, [], none)
  else
    match r.outage .list [] with
    | some message => (cache, [], some (.list (.outage message)))
    | none => deletePaths r cache [] (stalePaths x cache.paths)

structure Result where
  collection : Collection
  parsed : Nat
  cached : Nat
  pruned : Nat
  deriving DecidableEq, Repr

def Result.functionCount (r : Result) : Nat := r.collection.functions.length

structure Run where
  cache : Option Cache
  progress : List Progress := []
  events : List Event := []
  outcome : Except Failure Result

def finish (r : Request) (x : Expansion) (s : State) : Run :=
  let result (pruned : Nat) : Result := ⟨s.collection, s.parsed, s.cached, pruned⟩
  match s.cache with
  | none => ⟨none, s.progress, s.events, .ok (result 0)⟩
  | some cache =>
    let (cache, gone, failure) := prune r x cache
    let events := s.events ++ gone.map .pruned
    match failure with
    | some e => ⟨some cache, s.progress, events, .error e⟩
    | none => ⟨some cache, s.progress, events, .ok (result gone.length)⟩

def run (d : Disk) (r : Request) (cache : Option Cache) : Run :=
  match Framework.ofName? r.framework with
  | none => { cache, outcome := .error (.unknownFramework r.framework) }
  | some framework =>
    match expand d r with
    | .error e => { cache, events := (start framework cache).events, outcome := .error e }
    | .ok x =>
      match extractFiles d r x.files.length (start framework cache) x.files with
      | (s, some e) => ⟨s.cache, s.progress, s.events, .error e⟩
      | (s, none) => finish r x s

end Extraction

end BuiltinCatalog
