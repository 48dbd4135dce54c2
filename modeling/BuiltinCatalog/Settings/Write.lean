import BuiltinCatalog.Settings.Basic
import BuiltinCatalog.Yaml.Write

namespace BuiltinCatalog.Settings

def writeText (key value : Text) : Text := "    " ++ key ++ ": " ++ Yaml.Write.scalar 8 value

def writeBool (key : Text) (value : Bool) : Text :=
  "    " ++ key ++ (if value then (": true\n" : Text) else ": false\n")

def writeItem (value : Text) : Text := "        - " ++ Yaml.Write.scalar 10 value

def writeTexts (key : Text) (values : List Text) : Text :=
  if values.isEmpty then "    " ++ key ++ ": []\n"
  else "    " ++ key ++ ":\n" ++ values.flatMap writeItem

def write (s : Settings) : Text :=
  "extract:\n" ++ writeText "framework" s.extract.framework ++
    writeTexts "includes" s.extract.includes ++ writeTexts "excludes" s.extract.excludes ++
  "output:\n" ++ writeText "format" s.output.format ++ writeText "path" s.output.path ++
    writeText "package_name" s.output.packageName ++
  "cache:\n" ++ writeBool "enabled" s.cache.enabled ++
  "logging:\n" ++ writeText "level" s.logging.level

end BuiltinCatalog.Settings
