import BuiltinCatalog.Manifest.Basic
import BuiltinCatalog.Text.Blank
import BuiltinCatalog.Text.Letter
import BuiltinCatalog.Text.Quoted

namespace BuiltinCatalog.Manifest

def reservedWords : List Text := [
  "break", "case", "chan", "const", "continue", "default", "defer", "else", "fallthrough", "for",
  "func", "go", "goto", "if", "import", "interface", "map", "package", "range", "return", "select",
  "struct", "switch", "type", "var"]

def isNameStart (c : Char) : Bool := c == '_' || Text.isLetter c

def isNamePart (c : Char) : Bool := isNameStart c || Text.isDecimalDigit c

/-- A name is a letter or underscore, then letters, digits and underscores, and no reserved word. -/
def isName (t : Text) : Bool :=
  match Text.glyphs t with
  | .char c :: rest =>
    isNameStart c && (rest.all fun | .char d => isNamePart d | .stray _ => false) &&
      !reservedWords.contains t
  | _ => false

def isLayout (b : Byte) : Bool := b == 9 || b == 10 || b == 13 || b == 32

def isLineSpace (b : Byte) : Bool := b == 9 || b == 13 || b == 32

def isCommentText (t : Text) : Bool :=
  (Text.glyphs t).all fun
    | .char c => c.toNat != 0 && c.toNat != 0xFEFF
    | .stray _ => false

def tidyComment (t : Text) : Text := Text.trimRight (t.filter (· != 13))

def commentLine (t : Text) : Text := tidyComment ("// " ++ t)

/-- Without carriage returns, except for one that keeps a star apart from a slash. -/
def dropReturns (last : Byte) : Text → Text
  | [] => []
  | b :: rest =>
    if b == 13 && !(last == '*'.toUInt8 && rest.head? == some '/'.toUInt8) then dropReturns last rest
    else b :: dropReturns b rest

def blockComment (t : Text) : Text :=
  let body := if t.getLast? = some 10 then t.dropLast else t
  let lines := ((dropReturns 10 body).splitOn 10).map Text.trimRight
  let text : Text := lines.flatMap fun line => line ++ [10]
  "/*\n" ++ text ++ "*/\n"

def closesAtEnd (star : Bool) : List Text.Glyph → Bool
  | [] => false
  | .char c :: rest => if star && c == '/' then rest.isEmpty else closesAtEnd (c == '*') rest
  | .stray _ :: rest => closesAtEnd false rest

def isBlockComment (t : Text) : Bool :=
  match Text.glyphs t with
  | .char a :: .char b :: rest => a == '/' && b == '*' && closesAtEnd false rest
  | _ => false

/-- Line comments that choose when a file is built move to its top. -/
def isConstraint (t : Text) : Bool :=
  (Text.ofString "//go:build").isPrefixOf t || (Text.ofString "+build").isPrefixOf (Text.trim (t.drop 2))

/-- A comment that ends a line, unless it has a meaning for tools. -/
def remark? (t : Text) : Option Text :=
  let t := (t.reverse.dropWhile isLayout).reverse
  if t.contains 10 || !isCommentText t then none
  else if (Text.ofString "//").isPrefixOf t then if isConstraint t then none else some (tidyComment t)
  else if isBlockComment t && !t.contains 13 && !(Text.ofString "/*line ").isPrefixOf t then some t
  else none

def clause? (name rest : Text) : Option Text :=
  if !isName name then none
  else if rest.all isLayout then some name
  else (remark? rest).map fun remark => name ++ " " ++ remark

/-- A package clause, in which white space around the name and one semicolon after it do not count. -/
def packageClause? (t : Text) : Option Text :=
  let body := t.dropWhile isLayout
  let name := body.takeWhile fun b => !isLayout b && b != ';'.toUInt8 && b != '/'.toUInt8
  let rest := (body.drop name.length).dropWhile isLineSpace
  clause? name (if rest.head? = some ';'.toUInt8 then (rest.drop 1).dropWhile isLineSpace else rest)

def headerComment? (owner : Text) : Option Text :=
  let t := notice owner
  if !isCommentText t then none
  else if !t.any (· == 10) then some (commentLine t ++ "\n")
  else if Text.has "*/" t then none
  else some (blockComment t)

def constants (m : Manifest) : Text :=
  "const (\n\tFramework   = " ++ Text.quoted m.framework ++ "\n\tNamespace   = " ++
    Text.quoted m.scope ++ "\n\tMacroPrefix = " ++ Text.quoted m.macroPrefix ++ "\n)\n"

def rowType : Text :=
  Text.ofString "// Builtin describes one function declared in a builtins source file.\n" ++
    "type Builtin struct \x7b\n" ++
    "\tObject      string\n" ++
    "\tName        string\n" ++
    "\tParameters  []string\n" ++
    "\tConstructor bool\n" ++
    "\tSource      string\n" ++
    "\x7d\n"

inductive Column where
  | constructor
  | name
  | object
  | parameters
  | source
  deriving DecidableEq, Repr

namespace Column

def all : List Column := [.constructor, .name, .object, .parameters, .source]

def label : Column → String
  | .constructor => "Constructor"
  | .name => "Name"
  | .object => "Object"
  | .parameters => "Parameters"
  | .source => "Source"

def value (f : Builtin) : Column → Text
  | .constructor => if f.isConstructor then "true" else "false"
  | .name => Text.quoted f.name
  | .object => Text.quoted f.object
  | .parameters => "[]string\x7b" ++ (", " : Text).intercalate (f.parameterList.map Text.quoted) ++ "\x7d"
  | .source => Text.quoted f.source

def maxAligned : Nat := 1000000

def isAligned (f : Builtin) (c : Column) : Bool := c.label.length + 2 + (c.value f).length ≤ maxAligned

def line (f : Builtin) (width : Nat) (c : Column) : Text :=
  let padding : Text := List.replicate (width - c.label.length) 32
  Text.ofString "\t" ++ Text.ofString c.label ++ ":" ++ padding ++ c.value f ++ ",\n"

def width (cs : List Column) : Nat := (cs.map fun c => c.label.length).foldl max 0 + 1

end Column

def row (f : Builtin) : Text :=
  let groups := Column.all.splitBy fun c c' => c.isAligned f && c'.isAligned f
  "\x7b\n" ++ groups.flatMap (fun cs => cs.flatMap (Column.line f (Column.width cs))) ++ "\x7d"

def table (m : Manifest) : Text :=
  Text.ofString "// Builtins lists every builtin function, sorted by name.\n" ++
    "var Builtins = []Builtin\x7b" ++ (", " : Text).intercalate (m.functionList.map row) ++ "\x7d\n"

def defaultPackage : Text := "builtins"

def note : Text := "// Code generated by builtins; DO NOT EDIT."

/-- The source file, unless the package clause or a copyright line cannot be written in one. -/
def sourceTable? (package : Text) (m : Manifest) : Option Text := do
  let headers ← m.copyrightList.mapM headerComment?
  let clause ← packageClause? (if package = [] then defaultPackage else package)
  return headers.flatten ++ note ++ "\n\npackage " ++ clause ++
    "\n\n" ++ m.constants ++ "\n" ++ rowType ++ "\n" ++ m.table

/-- A package text goes into the file as it is, and may hold declarations of its own. What becomes of a file whose
package text is more than a clause is left to the formatter. -/
abbrev Formatter := Text → Manifest → Option Text

def source? (formatter : Formatter) (package : Text) (m : Manifest) : Option Text :=
  if package = [] ∨ (packageClause? package).isSome then m.sourceTable? package else formatter package m

end BuiltinCatalog.Manifest
