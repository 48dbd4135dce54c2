import BuiltinCatalog.Command.Places
import BuiltinCatalog.Files.Changes

namespace BuiltinCatalog.Program

def textOf (b : ByteArray) : Text := b.toList

def bytesOf (t : Text) : ByteArray := ⟨t.toArray⟩

def nameOf (t : Text) : String := (String.fromUTF8? (bytesOf t)).getD ""

def names (path : String) : IO (List String) := do
  let directory := (← IO.currentDir) / path
  return (← directory.readDir).toList.map (·.fileName)

partial def load (path : String) : IO (Option (Tree Content)) := do
  try
    let children ← (← names path).filterMapM fun name => do
      return (← load (path ++ "/" ++ name)).map fun t => (Text.ofString name, t)
    return some (.directory (children.foldl (fun es (name, t) => Keyed.insert name t es) []))
  catch _ =>
    try
      return some (.file (Content.ofBytes (textOf (← IO.FS.readBinFile path))))
    catch _ => return none

def isDirectory (path : String) : IO Bool := do
  try
    let _ ← names path
    return true
  catch _ => return false

partial def visit (d : Disk) (done todo : List Text) : IO Disk := do
  let path := nameOf (Path.slash :: [Path.slash].intercalate done)
  match todo with
  | [] =>
    match ← load path with
    | some t => return { d with tree := d.tree.put t done }
    | none => return d
  | name :: rest =>
    if ← isDirectory path then
      let d := if (d.tree.get? done).isSome then d else { d with tree := d.tree.put (.directory []) done }
      visit d (done ++ [name]) rest
    else visit d done []

def visitAll (d : Disk) (places : List Text) : IO Disk :=
  places.foldlM (fun d p => visit d [] (Path.components p)) d

def apply : Change → IO Unit
  | .makeDirectory path => IO.FS.createDirAll (nameOf path)
  | .write path bytes => IO.FS.writeBinFile (nameOf path) (bytesOf bytes)

end BuiltinCatalog.Program

open BuiltinCatalog in
def main (arguments : List String) : IO UInt32 := do
  let args := arguments.map Text.ofString
  let start : Disk := ⟨.directory [], Text.ofString (← IO.currentDir).toString⟩
  let known ← Program.visitAll start (Command.places start args)
  let d ← Program.visitAll known (Command.places known args)
  let outcome := Command.run d args {}
  (Change.between d.tree outcome.disk.tree).forM Program.apply
  let output := if Command.asksHelp args then Command.usage else outcome.output
  (← IO.getStdout).write (Program.bytesOf output)
  let stderr ← IO.getStderr
  outcome.log.forM fun line => stderr.write (Program.bytesOf (line ++ [10]))
  match outcome.failure with
  | none => return 0
  | some e =>
    stderr.write (Program.bytesOf (Text.ofString "Error: " ++ e.message ++ [10]))
    return 1
