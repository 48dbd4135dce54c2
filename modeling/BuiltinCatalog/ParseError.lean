import BuiltinCatalog.Text.Blank

namespace BuiltinCatalog

structure Diagnostic where
  kind : Text
  file : Text
  offset : Option Nat
  msg : Text
  deriving DecidableEq, Repr

namespace Diagnostic

def message (d : Diagnostic) : Text :=
  let file := if d.file.isEmpty then ([] : Text) else d.file ++ Text.ofString ": "
  let place : Text :=
    match d.offset with
    | some n => Text.ofString " at offset " ++ Text.ofNat n
    | none => []
  file ++ "parse error (" ++ d.kind ++ ")" ++ place ++ ": " ++ d.msg

end Diagnostic

def abbreviate (t : Text) : Text :=
  let line := (Text.trim t).takeWhile (· != 10)
  let shown := if 60 < line.length then line.take 60 ++ Text.ofString "..." else line
  "\"" ++ shown ++ "\""

inductive Fault where
  | noLicense
  | noBody (head : Text)
  | unbalanced (depth : Nat)
  | noName (source : Text)
  | badParameters (name : Text)
  deriving DecidableEq, Repr

namespace Fault

def kind : Fault → Text
  | .noLicense => "copyright"
  | .noBody _ | .unbalanced _ => "braces"
  | .noName _ | .badParameters _ => "signature"

def msg : Fault → Text
  | .noLicense => "no license block comment found"
  | .noBody head => "no body found for " ++ abbreviate head
  | .unbalanced depth =>
    "unbalanced braces: " ++ Text.ofNat depth ++ " left open at end of input"
  | .noName source => "no function or constructor name in " ++ abbreviate source
  | .badParameters name => "malformed parameter list for " ++ name

end Fault

structure ParseError where
  fault : Fault
  offset : Option Nat := none
  file : Text := []
  deriving DecidableEq, Repr

namespace ParseError

def diagnostic (e : ParseError) : Diagnostic := ⟨e.fault.kind, e.file, e.offset, e.fault.msg⟩

def message (e : ParseError) : Text := e.diagnostic.message

def inFile (file : Text) (e : ParseError) : ParseError := { e with file }

end ParseError

end BuiltinCatalog
