import BuiltinCatalog.Manifest.Document
import BuiltinCatalog.Manifest.Listing
import BuiltinCatalog.Manifest.SourceTable

namespace BuiltinCatalog

inductive Format where
  | json
  | source
  | text
  deriving DecidableEq, Repr

namespace Format

def name : Format → Text
  | .json => "json"
  | .source => "go"
  | .text => "text"

def ofName? (t : Text) : Option Format :=
  if t = [] then some json else [json, source, text].find? fun f => f.name == t

def unsupportedMessage (t : Text) : Text := "unsupported output format: " ++ t

def write? (dialect : Json.Dialect) (formatter : Manifest.Formatter) (f : Format) (package : Text) (m : Manifest) :
    Option Text :=
  match f with
  | .json => some (m.document dialect)
  | .source => m.source? formatter package
  | .text => some m.listing

end Format

end BuiltinCatalog
