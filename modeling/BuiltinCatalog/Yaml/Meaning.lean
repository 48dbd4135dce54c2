import BuiltinCatalog.Text.Base64
import BuiltinCatalog.Yaml.Number
import BuiltinCatalog.Yaml.Timestamp

namespace BuiltinCatalog.Yaml

inductive Kind where
  | null
  | bool (b : Bool)
  | integer
  | float
  | timestamp
  | text
  deriving DecidableEq, Repr

namespace Kind

def words : List (Text × Kind) := [
  ("", .null), ("~", .null), ("null", .null), ("Null", .null), ("NULL", .null),
  ("true", .bool true), ("True", .bool true), ("TRUE", .bool true),
  ("false", .bool false), ("False", .bool false), ("FALSE", .bool false),
  (".nan", .float), (".NaN", .float), (".NAN", .float),
  (".inf", .float), (".Inf", .float), (".INF", .float),
  ("+.inf", .float), ("+.Inf", .float), ("+.INF", .float),
  ("-.inf", .float), ("-.Inf", .float), ("-.INF", .float)]

def ofNumber (t : Text) : Kind :=
  let t := Number.withoutUnderscores t
  if Number.isInteger t then .integer
  else if Number.isDecimal t then .float
  else .text

def ofText (dates : Bool) (t : Text) : Kind :=
  match words.lookup t with
  | some kind => kind
  | none =>
    match t.head? with
    | none => .text
    | some b =>
      if b == '.'.toUInt8 then
        if Number.spacedDigits none t && Number.isDecimal (Number.withoutUnderscores t) then .float
        else .text
      else if Text.isDigit b || b == '+'.toUInt8 || b == '-'.toUInt8 then
        if dates && Timestamp.matchesAll t then .timestamp else ofNumber t
      else .text

end Kind

inductive Meaning where
  | null
  | bool (b : Bool) (written : Text)
  | other (written : Text)
  | text (t : Text)
  deriving DecidableEq, Repr

namespace Meaning

def ofKind (t : Text) : Kind → Meaning
  | .null => .null
  | .bool b => .bool b t
  | .integer | .float | .timestamp => .other t
  | .text => .text t

def demands (tag : Text) (kind : Kind) : Option Bool :=
  [(Text.ofString "!!null", kind == .null), ("!!bool", kind == .bool true || kind == .bool false),
    ("!!int", kind == .integer), ("!!float", kind == .integer || kind == .float),
    ("!!timestamp", kind == .timestamp)].lookup tag

/-- The meaning of a scalar. It has none if its text does not suit its tag; tags that ask for nothing
leave the text as it is. -/
def ofScalar? (tag : Text) (quoted : Bool) (t : Text) : Option Meaning :=
  if tag = Text.ofString "!!str" ∨ (tag = [] ∧ quoted) then some (.text t)
  else if tag = [] then some (ofKind t (Kind.ofText true t))
  else if tag = Text.ofString "!!binary" then (Text.ofBase64? t).map .text
  else
    let kind := Kind.ofText (tag == Text.ofString "!!timestamp") t
    match demands tag kind with
    | some true => some (ofKind t kind)
    | some false => none
    | none => some (.text t)

end Meaning

end BuiltinCatalog.Yaml
