import BuiltinCatalog.Command.Line
import BuiltinCatalog.Extraction
import BuiltinCatalog.Log.Level
import BuiltinCatalog.Manifest.Format
import BuiltinCatalog.Project
import BuiltinCatalog.Settings.Read

namespace BuiltinCatalog.Command

inductive MakeError where
  | file (e : FileError)
  | outage (message : Text)
  deriving DecidableEq, Repr

def MakeError.message : MakeError → Text
  | .file e => e.message
  | .outage message => message

/-- Why a command fails. A manifest that cannot be rendered or written has its format named where the output
is a file. -/
inductive Failure where
  | usage (e : UsageError)
  | settingsFile (e : FileError)
  | settingsSyntax
  | unknownFramework (name : Text)
  | level (text : Text) (e : LevelError)
  | format (name : Text)
  | ownDirectory (e : MakeError)
  | openCache (e : Disk.OpenError)
  | prepareCache (e : CacheError)
  | extraction (e : Extraction.Failure)
  | outputDirectory (e : MakeError)
  | outputFile (e : MakeError)
  | render (format : Option Format)
  | write (format : Option Format) (message : Text)
  | close (message : Text)
  deriving DecidableEq, Repr

namespace Failure

/-- The message; where a settings file or a manifest is malformed, details may follow it. -/
def message : Failure → Text
  | .usage e => e.message
  | .settingsFile e => "failed to load config: " ++ e.message
  | .settingsSyntax => "failed to load config: "
  | .unknownFramework name => Framework.unknownMessage name
  | .level text e => e.message text
  | .format name => Format.unsupportedMessage name
  | .ownDirectory e => "failed to create .builtins directory: " ++ e.message
  | .openCache e => "failed to open extraction cache: " ++ e.message
  | .prepareCache e => "failed to prepare extraction cache: " ++ e.message
  | .extraction e => "extraction failed: " ++ e.message
  | .outputDirectory e => "failed to create output directory: " ++ e.message
  | .outputFile e => "failed to create output file: " ++ e.message
  | .render none => []
  | .render (some f) => "failed to write " ++ f.name ++ " manifest: "
  | .write none message => message
  | .write (some f) message => "failed to write " ++ f.name ++ " manifest: " ++ message
  | .close message => message

end Failure

inductive LoadError where
  | file (e : FileError)
  | malformed
  deriving DecidableEq, Repr

def loadFile (d : Disk) (path : Text) : Except LoadError Settings :=
  match d.read path with
  | .ok text =>
    match Settings.read? text with
    | some s => .ok s
    | none => .error .malformed
  | .error e => if e.fault = .notFound then .ok {} else .error (.file e)

def loadDirectory (d : Disk) (root : Text) : Except LoadError Settings :=
  match (Project.settingsFiles root).find? fun p => (d.look "stat" p).isOk with
  | some path => loadFile d path
  | none => .ok {}

structure Context where
  root : Text
  settings : Settings
  level : Level
  deriving DecidableEq, Repr

def LoadError.failure : LoadError → Failure
  | .file e => .settingsFile e
  | .malformed => .settingsSyntax

/-- What a flag says, or what the settings say where there is no flag. -/
def chosen (flag setting : Text) : Text := if flag = [] then setting else flag

def rootOf (d : Disk) (o : Options) : Text := chosen o.directory d.current

def loadSettings (d : Disk) (o : Options) : Except LoadError Settings :=
  if o.config = [] then loadDirectory d (rootOf d o) else loadFile d o.config

def prepare (d : Disk) (o : Options) : Except Failure Context := do
  let settings ← (loadSettings d o).mapError LoadError.failure
  let framework := chosen o.framework settings.extract.framework
  if (Framework.ofName? framework).isNone then .error (.unknownFramework framework)
  let level := chosen o.logLevel settings.logging.level
  let threshold ← (Level.parse level).mapError (.level level)
  let settings := { settings with
    extract := { settings.extract with framework }
    logging := { settings.logging with level } }
  return ⟨rootOf d o, settings, threshold⟩

structure State where
  disk : Disk
  output : Text := []
  events : List Event := []
  deriving Repr

def State.report (s : State) (events : List Event) : State := { s with events := s.events ++ events }

def State.print (s : State) (text : Text) : State := { s with output := s.output ++ text }

/-- An operation that is cut off: how much of it was done, and why. -/
structure Cut where
  kept : Nat
  message : Text
  deriving DecidableEq, Repr

/-- What a command depends on besides the disk: the spelling of stray bytes, the formatter of sources, and
what fails for reasons of its own. The directories to make are named; opening fails once the file of the
cache is there. -/
structure Conditions where
  dialect : Json.Dialect := .literal
  formatter : Manifest.Formatter := fun _ _ => none
  making : Text → Option Cut := fun _ => none
  opening : Option Text := none
  preparing : Cache.Outage := Cache.noOutage
  extracting : Extraction.Outage := fun _ _ => none
  creating : Option Text := none
  writing : Option Cut := none
  closing : Option Cut := none

/-- Makes a directory and its ancestors. Those that were made before a failure stay. -/
def makeWay (x : Conditions) (p : Text) (d : Disk) : Disk × Option MakeError :=
  match x.making p with
  | some cut => (d.madeInTurn ((Disk.ancestry p).take cut.kept), some (.outage cut.message))
  | none =>
    match d.makeDirectories p with
    | .ok d => (d, none)
    | .error e => (d.leftDirectories p, some (.file e))

/-- Opens the cache of a project and makes it usable for its framework. What was changed before a failure
stays changed. -/
def openCache (c : Context) (x : Conditions) (s : State) :
    State × Except Failure (List Text × Cache) :=
  match makeWay x (Project.ownDirectory c.root) s.disk with
  | (d, some e) => ({ s with disk := d }, .error (.ownDirectory e))
  | (d, none) =>
    match d.openCache (Project.cacheFile c.root) with
    | .error e => ({ s with disk := d }, .error (.openCache e))
    | .ok (d, place, cache) =>
      match x.opening with
      | some message => ({ s with disk := d }, .error (.openCache (.outage message)))
      | none =>
        let (cache, outcome) := cache.prepare x.dialect c.settings.extract.framework x.preparing
        let s := { s with disk := d.saveCache place cache }
        match outcome with
        | .error e => (s, .error (.prepareCache e))
        | .ok reason =>
          (if reason = [] then s else s.report [.cacheUpdated reason], .ok (place, cache))

def request (c : Context) (o : Options) (x : Conditions) : Extraction.Request where
  framework := c.settings.extract.framework
  selection := ⟨c.settings.extract.includes, c.settings.extract.excludes⟩
  paths := if o.paths = [] then [c.root] else o.paths
  outage := x.extracting
  dialect := x.dialect

/-- Runs the extraction that a command asks for, and keeps its cache. An unknown framework is refused before
the cache is opened, which would drop the entries of another one. -/
def extract (c : Context) (o : Options) (x : Conditions) (useCache : Bool) (s : State) :
    State × Except Failure Extraction.Result :=
  let finish (s : State) (run : Extraction.Run) : State × Except Failure Extraction.Result :=
    (s.report run.events, run.outcome.mapError .extraction)
  let framework := c.settings.extract.framework
  if (Framework.ofName? framework).isNone then (s, .error (.unknownFramework framework))
  else if useCache && c.settings.cache.enabled then
    match openCache c x s with
    | (s, .error e) => (s, .error e)
    | (s, .ok (place, cache)) =>
      let run := Extraction.run s.disk (request c o x) (some cache)
      let disk := s.disk.saveCache place (run.cache.getD cache)
      finish { s with disk } run
  else finish s (Extraction.run s.disk (request c o x) none)

/-- Writes a manifest to a file. The file is empty from when it is made to when the manifest is rendered,
and keeps what was written before a failure. -/
def writeFile (x : Conditions) (format : Format) (package path : Text) (m : Manifest) (s : State) :
    State × Option Failure :=
  match makeWay x (Path.parent path) s.disk with
  | (d, some e) => ({ s with disk := d }, some (.outputDirectory e))
  | (d, none) =>
    match d.target path with
    | .error fault => ({ s with disk := d }, some (.outputFile (.file ⟨"open", path, fault⟩)))
    | .ok (place, _) =>
      match x.creating with
      | some message => ({ s with disk := d }, some (.outputFile (.outage message)))
      | none =>
        let left (kept : Text) : State := { s with disk := d.fill place (.text kept) }
        match format.write? x.dialect x.formatter package m with
        | none => (left [], some (.render (some format)))
        | some text =>
          match x.writing, x.closing with
          | some cut, _ => (left (text.take cut.kept), some (.write (some format) cut.message))
          | none, some cut => (left (text.take cut.kept), some (.close cut.message))
          | none, none => ((left text).report [.written path format.name], none)

/-- The path of the file that a manifest is written to; none means that it is printed. -/
def outputPath (c : Context) (o : Options) : Text := chosen o.output c.settings.output.path

def printManifest (x : Conditions) (format : Format) (package : Text) (m : Manifest) (s : State) :
    State × Option Failure :=
  match format.write? x.dialect x.formatter package m with
  | none => (s, some (.render none))
  | some text =>
    match x.writing with
    | some cut => (s.print (text.take cut.kept), some (.write none cut.message))
    | none => (s.print text, none)

def runExtract (c : Context) (o : Options) (x : Conditions) (s : State) : State × Option Failure :=
  let name := chosen o.format c.settings.output.format
  let package := chosen o.package c.settings.output.packageName
  let path := outputPath c o
  match Format.ofName? name with
  | none => (s, some (.format name))
  | some format =>
    match extract c o x (!o.noCache) s with
    | (s, .error e) => (s, some e)
    | (s, .ok r) =>
      let s := s.report (.extracted r.parsed r.cached r.pruned r.functionCount ::
        r.collection.copyrightEvents)
      let m := r.collection.manifest
      if path = [] then printManifest x format package m s else writeFile x format package path m s

def functionLine (f : Builtin) : Text := f.object ++ "." ++ f.signature ++ "\n"

def memberLine (f : Builtin) : Text := "  " ++ f.signature ++ "\n"

def objectLines (o : BuiltinObject) : Text := o.name ++ ":\n" ++ o.functionList.flatMap memberLine

def functionListing (dialect : Json.Dialect) (o : Options) (c : Collection) : Text :=
  if o.json then (Json.array (c.allFunctions.map Builtin.toJson)).indented dialect 0 ++ "\n"
  else if o.byObject then c.objects.flatMap objectLines
  else if c.allFunctions.isEmpty then "No builtin functions found.\n"
  else c.allFunctions.flatMap functionLine

def copyrightLine (line : Text) : Text := "Copyright (C) " ++ line ++ "\n"

def copyrightListing (o : Options) (c : Collection) : Text :=
  (if o.raw then c.copyrightLines else c.copyrights).flatMap copyrightLine

def runFunctions (c : Context) (o : Options) (x : Conditions) (s : State) :
    State × Option Failure :=
  match extract c o x true s with
  | (s, .error e) => (s, some e)
  | (s, .ok r) => (s.print (functionListing x.dialect o r.collection), none)

def runCopyrights (c : Context) (o : Options) (x : Conditions) (s : State) :
    State × Option Failure :=
  match extract c o x true s with
  | (s, .error e) => (s, some e)
  | (s, .ok r) =>
    ((s.report r.collection.copyrightEvents).print (copyrightListing o r.collection), none)

structure Outcome where
  disk : Disk
  output : Text := []
  log : List Text := []
  failure : Option Failure := none
  deriving Repr

def runJob (job : Job) (c : Context) (o : Options) (x : Conditions) (s : State) :
    State × Option Failure :=
  match job with
  | .help => (s, none)
  | .extract => runExtract c o x s
  | .functions => runFunctions c o x s
  | .copyrights => runCopyrights c o x s

def run (d : Disk) (args : List Text) (x : Conditions) : Outcome :=
  match parse args with
  | .error e => { disk := d, failure := some (.usage e) }
  | .ok (.help, _) => { disk := d }
  | .ok (job, o) =>
    match prepare d o with
    | .error e => { disk := d, failure := some e }
    | .ok c =>
      let (s, failure) := runJob job c o x { disk := d }
      let shown := s.events.filter (Level.shows c.level)
      { disk := s.disk, output := s.output, log := shown.map Event.logLine, failure }

end BuiltinCatalog.Command
