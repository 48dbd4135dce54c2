import BuiltinCatalog.Copyright
import BuiltinCatalog.Declaration.Span
import BuiltinCatalog.Files.Path
import BuiltinCatalog.Framework
import BuiltinCatalog.Log.Event
import BuiltinCatalog.Manifest.Basic
import BuiltinCatalog.Signature

namespace BuiltinCatalog

structure Collection where
  framework : Framework
  objects : List BuiltinObject := []
  lines : List Text := []
  deriving DecidableEq, Repr

structure MergeError where
  source : Framework
  target : Framework
  deriving DecidableEq, Repr

namespace MergeError

def message (e : MergeError) : Text :=
  "cannot merge " ++ e.source.name ++ " builtins into " ++ e.target.name ++ " collection"

end MergeError

namespace Collection

def addLine (lines : List Text) (line : Text) : List Text :=
  if line ∈ lines then lines else lines ++ [line]

def add (c : Collection) (o : BuiltinObject) (lines : List Text) : Collection :=
  { c with
    objects := c.objects ++ [BuiltinObject.owning o.name o.functionList]
    lines := lines.foldl addLine c.lines }

def objectName (file : Text) : Text := Path.stem file

def functionsOf (text : Text) : Except ParseError (List Builtin) := do
  (← Declaration.fragments text).mapM Signature.parse

def readFile (file text : Text) : Except ParseError (BuiltinObject × List Text) :=
  Except.mapError (ParseError.inFile file) do
    let lines ← Copyright.lines text
    let functions ← functionsOf text
    return (BuiltinObject.owning (objectName file) functions, lines)

def parse (c : Collection) (file text : Text) : Except ParseError Collection := do
  let (object, lines) ← readFile file text
  return c.add object lines

def append (c other : Collection) : Collection :=
  { c with
    objects := c.objects ++ other.objects
    lines := other.lines.foldl addLine c.lines }

def merge (c other : Collection) : Except MergeError Collection :=
  if other.framework = c.framework then .ok (c.append other)
  else .error ⟨other.framework, c.framework⟩

def copyrightLines (c : Collection) : List Text := Text.distinct c.lines

def copyrightEntries (c : Collection) : List Copyright.Entry := Copyright.merge c.copyrightLines

def copyrights (c : Collection) : List Text := c.copyrightEntries.map Copyright.Entry.text

def functions (c : Collection) : List Builtin := c.objects.flatMap BuiltinObject.functionList

def allFunctions (c : Collection) : List Builtin := Builtin.sort c.functions

def manifest (c : Collection) : Manifest where
  framework := c.framework.name
  scope := c.framework.scope
  macroPrefix := c.framework.macroPrefix
  copyrights := some c.copyrights
  objects := some c.objects
  functions := some c.allFunctions

def newLines (known : List Text) : List Text → List Text
  | [] => []
  | line :: rest =>
    if line ∈ known then newLines known rest else line :: newLines (known ++ [line]) rest

def addEvents (c : Collection) (lines : List Text) : List Event :=
  (newLines c.lines lines).map .copyrightFound

def parseEvents (c : Collection) (file text : Text) : List Event :=
  .parsing file ::
    match readFile file text with
    | .ok (object, lines) =>
      c.addEvents lines ++ object.functionList.map fun f => .parsed object.name f.signature
    | .error _ => []

def copyrightEvents (c : Collection) : List Event :=
  c.copyrightEntries.map fun e => .copyrightMerged e.owner e.years

end Collection

end BuiltinCatalog
