import BuiltinCatalog.Text.Basic

namespace BuiltinCatalog

structure Builtin where
  name : Text
  source : Text
  isConstructor : Bool := false
  parameters : Option (List Text) := none
  object : Text := []
  deriving DecidableEq, Repr

namespace Builtin

def parameterList (f : Builtin) : List Text := f.parameters.getD []

/-- The interface of a function, such as `every(callback, thisArg)`. -/
def signature (f : Builtin) : Text :=
  f.name ++ "(" ++ (", " : Text).intercalate f.parameterList ++ ")" ++
    (if f.isConstructor then Text.ofString " [Constructor]" else [])

def joinedParameters (f : Builtin) : Text := ("," : Text).intercalate f.parameterList

/-- By name, then owner, then functions before constructors, then parameters, then source. -/
def less (f g : Builtin) : Bool :=
  if f.name ≠ g.name then f.name < g.name
  else if f.object ≠ g.object then f.object < g.object
  else if f.isConstructor ≠ g.isConstructor then !f.isConstructor
  else if f.joinedParameters ≠ g.joinedParameters then f.joinedParameters < g.joinedParameters
  else f.source < g.source

def sort (fs : List Builtin) : List Builtin := fs.mergeSort fun f g => !g.less f

end Builtin

structure BuiltinObject where
  name : Text
  functions : Option (List Builtin) := none
  deriving DecidableEq, Repr

namespace BuiltinObject

def functionList (o : BuiltinObject) : List Builtin := o.functions.getD []

def owning (name : Text) (functions : List Builtin) : BuiltinObject :=
  ⟨name, some (functions.map fun f => { f with object := name })⟩

end BuiltinObject

end BuiltinCatalog
