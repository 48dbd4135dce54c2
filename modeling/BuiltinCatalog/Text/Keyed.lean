import BuiltinCatalog.Text.Basic

namespace BuiltinCatalog.Keyed

def insert (key : Text) (a : α) : List (Text × α) → List (Text × α)
  | [] => [(key, a)]
  | (k, b) :: rest =>
    if key < k then (key, a) :: (k, b) :: rest
    else if key = k then (key, a) :: rest
    else (k, b) :: insert key a rest

def erase (key : Text) (entries : List (Text × α)) : List (Text × α) :=
  entries.filter fun e => e.1 != key

def keys (entries : List (Text × α)) : List Text := entries.map (·.1)

end BuiltinCatalog.Keyed
