import BuiltinCatalog.Collection

namespace BuiltinCatalog

abbrev Pool := List Collection

namespace Pool

inductive Step where
  | create (framework : Text)
  | parse (target : Nat) (file text : Text)
  | add (target : Nat) (object : BuiltinObject) (lines : List Text)
  | merge (target source : Nat)
  deriving DecidableEq, Repr

inductive Failure where
  | unknownFramework (name : Text)
  | missing (number : Nat)
  | parse (e : ParseError)
  | merge (e : MergeError)
  deriving DecidableEq, Repr

def change (p : Pool) (target : Nat) (f : Collection → Except Failure Collection) :
    Pool × Option Failure :=
  match p[target]? with
  | none => (p, some (.missing target))
  | some c =>
    match f c with
    | .ok c => (p.set target c, none)
    | .error e => (p, some e)

def step (p : Pool) : Step → Pool × Option Failure
  | .create name =>
    match Framework.ofName? name with
    | some framework => (p ++ [{ framework }], none)
    | none => (p, some (.unknownFramework name))
  | .parse target file text => p.change target fun c => (c.parse file text).mapError .parse
  | .add target object lines => p.change target fun c => .ok (c.add object lines)
  | .merge target source =>
    match p[source]? with
    | none => (p, some (.missing source))
    | some other => p.change target fun c => (c.merge other).mapError .merge

def after (p : Pool) (steps : List Step) : Pool := steps.foldl (fun p s => (p.step s).1) p

end Pool

end BuiltinCatalog
