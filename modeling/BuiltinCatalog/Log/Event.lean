import BuiltinCatalog.Text.Blank
import BuiltinCatalog.Text.Quoted

namespace BuiltinCatalog

inductive Event where
  | created (framework : Text)
  | parsing (file : Text)
  | parsed (object signature : Text)
  | copyrightFound (line : Text)
  | copyrightMerged (owner : Text) (years : List Text)
  | reused (file : Text)
  | pruned (file : Text)
  | cacheUpdated (reason : Text)
  | extracted (fresh hits gone total : Nat)
  | written (path format : Text)
  deriving DecidableEq, Repr

namespace Event

def isDetail : Event → Bool
  | .extracted .. | .written .. => false
  | _ => true

def message : Event → Text
  | .created _ => "created builtins collection"
  | .parsing _ => "parsing builtins file"
  | .parsed .. => "parsed function"
  | .copyrightFound _ => "found copyright line"
  | .copyrightMerged .. => "merged copyright"
  | .reused _ => "using cached extraction"
  | .pruned _ => "pruned cache entry"
  | .cacheUpdated _ => "extraction cache updated"
  | .extracted .. => "extraction complete"
  | .written .. => "manifest written"

def attributes : Event → List (Text × Text)
  | .created framework => [("framework", framework)]
  | .parsing file => [("file", file)]
  | .parsed object signature => [("object", object), ("function", signature)]
  | .copyrightFound line => [("line", line)]
  | .copyrightMerged owner years =>
    [("owner", owner), ("years", "[" ++ (" " : Text).intercalate years ++ "]")]
  | .reused file => [("file", file)]
  | .pruned file => [("file", file)]
  | .cacheUpdated reason => [("reason", reason)]
  | .extracted fresh hits gone total =>
    [("parsed", Text.ofNat fresh), ("cached", Text.ofNat hits), ("pruned", Text.ofNat gone),
      ("functions", Text.ofNat total)]
  | .written path format => [("path", path), ("format", format)]

def isPlain : Text.Glyph → Bool
  | .char c =>
    if c.toNat < 128 then 32 < c.toNat && c != '=' && c.toNat != 34
    else c != Text.replacement && !Text.isBlank c && Text.isPrintable c
  | .stray _ => false

def logValue (t : Text) : Text :=
  if t ≠ [] ∧ (Text.glyphs t).all isPlain then t else Text.quoted t

def levelName (e : Event) : Text := if e.isDetail then "DEBUG" else "INFO"

def logPair (p : Text × Text) : Text := " " ++ logValue p.1 ++ "=" ++ logValue p.2

def logLine (e : Event) : Text :=
  "level=" ++ e.levelName ++ " msg=" ++ logValue e.message ++ e.attributes.flatMap logPair

end Event

end BuiltinCatalog
