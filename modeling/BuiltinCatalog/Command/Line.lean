import BuiltinCatalog.Text.Distance
import BuiltinCatalog.Text.Quoted

namespace BuiltinCatalog.Command

inductive Verb where
  | copyrights
  | extract
  | functions
  | completion
  | help
  deriving DecidableEq, Repr

namespace Verb

def all : List Verb := [copyrights, extract, functions, completion, help]

def name : Verb → Text
  | .copyrights => "copyrights"
  | .extract => "extract"
  | .functions => "functions"
  | .completion => "completion"
  | .help => "help"

def ofName? (t : Text) : Option Verb := all.find? fun v => v.name == t

end Verb

structure Flag where
  name : Text
  short : Option Byte := none
  isSwitch : Bool := false
  deriving DecidableEq, Repr

def commonFlags : List Flag := [
  { name := "config" },
  { name := "dir", short := some 'd'.toUInt8 },
  { name := "framework", short := some 'f'.toUInt8 },
  { name := "log-level" }]

def helpFlag : Flag := { name := "help", short := some 'h'.toUInt8, isSwitch := true }

def Verb.ownFlags : Verb → List Flag
  | .extract => [
      { name := "format" }, { name := "output", short := some 'o'.toUInt8 }, { name := "package" },
      { name := "no-cache", isSwitch := true }]
  | .functions => [{ name := "json", isSwitch := true }, { name := "by-object", isSwitch := true }]
  | .copyrights => [{ name := "raw", isSwitch := true }]
  | .completion | .help => []

inductive UsageError where
  | unknownCommand (name : Text)
  | badSyntax (argument : Text)
  | unknownFlag (name : Text)
  | unknownShort (letter : Byte) (group : Text)
  | missingValue (argument : Text)
  | missingShortValue (letter : Byte) (group : Text)
  | badSwitch (value : Text) (flag : Flag)
  deriving DecidableEq, Repr

def suggestions (name : Text) : List Text :=
  let isSimilar (v : Verb) : Bool :=
    v ≠ .help && (Text.distance (Text.toLower name) v.name ≤ 2 ||
      (Text.toLower name).isPrefixOf v.name)
  (Verb.all.filter isSimilar).map Verb.name

def suggestionLine (name : Text) : Text := "\t" ++ name ++ "\n"

def suggestionText (name : Text) : Text :=
  match suggestions name with
  | [] => []
  | names => "\n\nDid you mean this?\n" ++ names.flatMap suggestionLine

def Flag.title (f : Flag) : Text :=
  match f.short with
  | some b => "-" ++ b :: (", --" : Text) ++ f.name
  | none => "--" ++ f.name

namespace UsageError

def message : UsageError → Text
  | .unknownCommand name =>
    "unknown command " ++ Text.quoted name ++ " for \"builtins\"" ++ suggestionText name
  | .badSyntax argument => "bad flag syntax: " ++ argument
  | .unknownFlag name => "unknown flag: --" ++ name
  | .unknownShort letter group =>
    "unknown shorthand flag: " ++ Text.quotedByte letter ++ " in -" ++ group
  | .missingValue argument => "flag needs an argument: " ++ argument
  | .missingShortValue letter group =>
    "flag needs an argument: " ++ Text.quotedByte letter ++ " in -" ++ group
  | .badSwitch value flag =>
    "invalid argument " ++ Text.quoted value ++ " for " ++ Text.quoted flag.title ++
      " flag: strconv.ParseBool: parsing " ++ Text.quoted value ++ ": invalid syntax"

end UsageError

def dash : Byte := '-'.toUInt8

def equalsSign : Byte := '='.toUInt8

def isFlagLike (s : Text) : Bool := s.head? == some dash

def isLong (s : Text) : Bool := [dash, dash].isPrefixOf s

def longSwitch (flags : List Flag) (name : Text) : Bool :=
  (flags.find? (·.name == name)).any (·.isSwitch)

def shortSwitch (flags : List Flag) (letter : Byte) : Bool :=
  (flags.find? (·.short == some letter)).any (·.isSwitch)

def takesNext (flags : List Flag) (s : Text) : Bool :=
  !s.contains equalsSign &&
    ((isLong s && !longSwitch flags (s.drop 2)) ||
      match s with
      | [d, letter] => d == dash && !shortSwitch flags letter
      | _ => false)

def words (flags : List Flag) : List Text → List Text
  | [] => []
  | s :: rest =>
    if s = [dash, dash] then []
    else if takesNext flags s then
      match rest with
      | _ :: next :: rest => words flags (next :: rest)
      | _ => []
    else if s ≠ [] ∧ !isFlagLike s then s :: words flags rest
    else words flags rest

/-- The arguments without the first that is the given word and not a flag's value. -/
def withoutWord (flags : List Flag) (word : Text) : List Text → List Text
  | [] => []
  | s :: rest =>
    if s = [dash, dash] then s :: rest
    else if takesNext flags s then
      match rest with
      | value :: rest => s :: value :: withoutWord flags word rest
      | [] => [s]
    else if s = word then rest
    else s :: withoutWord flags word rest

def findVerb (args : List Text) : Except UsageError (Option Verb × List Text) :=
  match words commonFlags args with
  | [] => .ok (none, args)
  | word :: _ =>
    match Verb.ofName? word with
    | some v => .ok (some v, withoutWord commonFlags word args)
    | none => .error (.unknownCommand word)

def trueWords : List Text := ["1", "t", "T", "TRUE", "true", "True"]

def falseWords : List Text := ["0", "f", "F", "FALSE", "false", "False"]

def assign (f : Flag) (value : Text) : Except UsageError (Flag × Text) :=
  if f.isSwitch && !(trueWords.contains value || falseWords.contains value) then
    .error (.badSwitch value f)
  else .ok (f, value)

structure Long where
  name : Text
  value : Option Text
  deriving DecidableEq, Repr

def splitLong (s : Text) : Long :=
  let body := s.drop 2
  let name := body.takeWhile (· != equalsSign)
  ⟨name, if body.contains equalsSign then some (body.drop (name.length + 1)) else none⟩

/-- The flag of a long argument, its value, and whether that is the next argument. -/
def readLong (flags : List Flag) (s : Text) (next : Option Text) :
    Except UsageError ((Flag × Text) × Bool) := do
  let ⟨name, value⟩ := splitLong s
  if name = [] ∨ name.head? = some dash then .error (.badSyntax s)
  else
    match flags.find? (·.name == name), value with
    | none, _ => .error (.unknownFlag name)
    | some f, some value => return (← assign f value, false)
    | some f, none =>
      if f.isSwitch then return (← assign f "true", false)
      else
        match next with
        | some value => return (← assign f value, true)
        | none => .error (.missingValue s)

/-- The flags of a group of letters, and whether the last takes the next argument. -/
def readShort (flags : List Flag) (next : Option Text) :
    Text → Except UsageError (List (Flag × Text) × Bool)
  | [] => .ok ([], false)
  | letter :: rest =>
    if (Text.ofString "test.").isPrefixOf (letter :: rest) then .ok ([], false)
    else
      match flags.find? (·.short == some letter) with
      | none => .error (.unknownShort letter (letter :: rest))
      | some f =>
        if rest.head? = some equalsSign ∧ 1 < rest.length then do
          return ([← assign f (rest.drop 1)], false)
        else if f.isSwitch then do
          let first ← assign f "true"
          let (others, used) ← readShort flags next rest
          return (first :: others, used)
        else if rest ≠ [] then do return ([← assign f rest], false)
        else
          match next with
          | some value => do return ([← assign f value], true)
          | none => .error (.missingShortValue letter [letter])

structure Parsed where
  flags : List (Flag × Text) := []
  words : List Text := []
  deriving DecidableEq, Repr

def readArguments (flags : List Flag) (p : Parsed) : List Text → Except UsageError Parsed
  | [] => .ok p
  | s :: rest =>
    if s = [dash, dash] then .ok { p with words := p.words ++ rest }
    else if !isFlagLike s || s = [dash] then
      readArguments flags { p with words := p.words ++ [s] } rest
    else do
      let (found, used) ←
        if isLong s then (readLong flags s rest.head?).map fun (f, used) => ([f], used)
        else readShort flags rest.head? (s.drop 1)
      let p := { p with flags := p.flags ++ found }
      if used then
        match rest with
        | _ :: rest => readArguments flags p rest
        | [] => .ok p
      else readArguments flags p rest

structure Options where
  config : Text := []
  directory : Text := []
  framework : Text := []
  logLevel : Text := []
  format : Text := []
  output : Text := []
  package : Text := []
  noCache : Bool := false
  json : Bool := false
  byObject : Bool := false
  raw : Bool := false
  help : Bool := false
  paths : List Text := []
  deriving DecidableEq, Repr

def Options.set (o : Options) (f : Flag × Text) : Options :=
  let (⟨name, _, _⟩, value) := f
  let isOn := trueWords.contains value
  if name = Text.ofString "config" then { o with config := value }
  else if name = Text.ofString "dir" then { o with directory := value }
  else if name = Text.ofString "framework" then { o with framework := value }
  else if name = Text.ofString "log-level" then { o with logLevel := value }
  else if name = Text.ofString "format" then { o with format := value }
  else if name = Text.ofString "output" then { o with output := value }
  else if name = Text.ofString "package" then { o with package := value }
  else if name = Text.ofString "no-cache" then { o with noCache := isOn }
  else if name = Text.ofString "json" then { o with json := isOn }
  else if name = Text.ofString "by-object" then { o with byObject := isOn }
  else if name = Text.ofString "raw" then { o with raw := isOn }
  else if name = Text.ofString "help" then { o with help := isOn }
  else o

inductive Job where
  | help
  | extract
  | functions
  | copyrights
  deriving DecidableEq, Repr

def Verb.job : Verb → Job
  | .copyrights => .copyrights
  | .extract => .extract
  | .functions => .functions
  | .completion | .help => .help

def parse (args : List Text) : Except UsageError (Job × Options) := do
  let (verb, args) ← findVerb args
  let flags := (verb.map Verb.ownFlags).getD [] ++ commonFlags ++ [helpFlag]
  let p ← readArguments flags {} args
  let options := p.flags.foldl Options.set { paths := p.words }
  let job := (verb.map Verb.job).getD .help
  return (if options.help then .help else job, options)

def asksHelp (args : List Text) : Bool :=
  match parse args with
  | .ok (.help, _) => true
  | _ => false

def usage : Text :=
  Text.ofString "Usage:\n  builtins extract [paths...]\n  builtins functions [paths...]\n" ++
    "  builtins copyrights [paths...]\n\nFlags of every command:\n" ++
    "  --config file, -d, --dir directory, -f, --framework name, --log-level level\n" ++
    "Flags of extract:\n  --format json|go|text, -o, --output file, --package name, --no-cache\n" ++
    "Flags of functions:\n  --json, --by-object\nFlags of copyrights:\n  --raw\n"

end BuiltinCatalog.Command
