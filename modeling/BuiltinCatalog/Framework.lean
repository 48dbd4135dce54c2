import BuiltinCatalog.Text.Order

namespace BuiltinCatalog

inductive Framework where
  | javaScriptCore
  | webCore
  deriving DecidableEq, Repr

namespace Framework

def all : List Framework := [javaScriptCore, webCore]

def name : Framework → Text
  | .javaScriptCore => "JavaScriptCore"
  | .webCore => "WebCore"

def ofName? (name : Text) : Option Framework := all.find? fun f => f.name == name

def settings : Framework → List (Text × Text)
  | .javaScriptCore => [("macro_prefix", "JSC"), ("namespace", "JSC")]
  | .webCore => [("macro_prefix", "WEBCORE"), ("namespace", "WebCore")]

def setting (f : Framework) (key fallback : Text) : Text := (f.settings.lookup key).getD fallback

def scope (f : Framework) : Text := f.setting "namespace" []

def macroPrefix (f : Framework) : Text := f.setting "macro_prefix" []

def names : List Text := Text.distinct (all.map name)

def unknownMessage (name : Text) : Text := "unknown framework: " ++ name

end Framework

end BuiltinCatalog
