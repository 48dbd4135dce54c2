import BuiltinCatalog.Yaml.Meaning
import BuiltinCatalog.Yaml.Node

namespace BuiltinCatalog.Yaml

namespace Document

def follow? (d : Document) : Node → Option Node
  | .alias _ target => d.anchored.lookup target
  | n => some n

def meaning? (d : Document) (n : Node) : Option Meaning :=
  match d.follow? n with
  | some (.scalar tag quoted t) => Meaning.ofScalar? tag quoted t
  | _ => none

def text? (d : Document) (n : Node) : Option (Option Text) :=
  (d.meaning? n).map fun
    | .null => none
    | .bool _ t | .other t | .text t => some t

def yesWords : List Text := ["y", "Y", "yes", "Yes", "YES", "on", "On", "ON"]

def noWords : List Text := ["n", "N", "no", "No", "NO", "off", "Off", "OFF"]

def readText (d : Document) (n : Node) (old : Text) : Option Text := (d.text? n).map (·.getD old)

def readBool (d : Document) (n : Node) (old : Bool) : Option Bool := do
  match ← d.meaning? n with
  | .null => some old
  | .bool b _ => some b
  | .other _ => none
  | .text t => if yesWords.contains t then some true else if noWords.contains t then some false else none

def readTexts (d : Document) (n : Node) : Option (List Text) := do
  match ← d.follow? n with
  | .sequence items => return (← items.mapM d.text?).reduceOption
  | n =>
    match ← d.meaning? n with
    | .null => return []
    | _ => none

end Document

structure RecordField (σ : Type) where
  name : Text
  read : Document → Node → σ → Option σ

namespace Node

/-- Keys that count as the same: scalars of equal text, aliases of equal name, lists, and mappings. -/
def label : Node → Nat × Text
  | .scalar _ _ t => (0, t)
  | .sequence _ => (1, [])
  | .mapping _ => (2, [])
  | .alias name _ => (3, name)

def isMergeKey : Node → Bool
  | .scalar tag quoted t =>
    t == Text.ofString "<<" && ((tag == [] && !quoted) || tag == Text.ofString "!!merge")
  | _ => false

end Node

namespace Record

structure Progress (σ : Type) where
  record : σ
  seen : List Text
  done : List Text := []

/-- Reads one pair. In a mapping that is merged into another only new keys count. -/
def readPair (d : Document) (fields : List (RecordField σ)) (merged : Bool) (p : Progress σ)
    (pair : Node × Node) : Option (Progress σ) := do
  if pair.1.isMergeKey then return p
  match ← d.text? pair.1 with
  | none => return p
  | some name =>
    if merged && p.seen.contains name then return p
    let p := { p with seen := if merged then name :: p.seen else p.seen }
    match fields.find? (·.name == name) with
    | none => return p
    | some field =>
      if p.done.contains name then none
      return { p with record := ← field.read d pair.2 p.record, done := name :: p.done }

def keyTexts (d : Document) (pairs : List (Node × Node)) : List Text :=
  pairs.filterMap fun p => (d.text? p.1).join

def mergeSources? (d : Document) (n : Node) : Option (List (List (Node × Node))) := do
  let source? (n : Node) : Option (List (Node × Node)) :=
    match d.follow? n with
    | some (.mapping pairs) => some pairs
    | _ => none
  match n with
  | .sequence items => items.mapM source?
  | n => return [← source? n]

/-- Reads a mapping into a record. `seen` holds the keys that no longer count if the mapping is merged
into another; the result holds those that have counted. -/
def readMapping (d : Document) (fields : List (RecordField σ)) :
    Nat → Option (List Text) → List (Node × Node) → σ → Option (σ × List Text)
  | 0, _, _, _ => none
  | fuel + 1, seen, pairs, record => do
    if ¬ (pairs.map fun p => p.1.label).Nodup then none
    let p ← pairs.foldlM (readPair d fields seen.isSome) ⟨record, seen.getD [], []⟩
    match pairs.findRev? fun p => p.1.isMergeKey with
    | none => return (p.record, p.seen)
    | some (_, source) =>
      let known := if seen.isSome then p.seen else keyTexts d pairs
      (← mergeSources? d source).foldlM
        (fun (record, known) pairs => readMapping d fields fuel (some known) pairs record)
        (p.record, known)

def read (fields : List (RecordField σ)) (d : Document) (n : Node) (record : σ) : Option σ := do
  match ← d.follow? n with
  | .mapping pairs => return (← readMapping d fields d.depth none pairs record).1
  | n =>
    match ← d.meaning? n with
    | .null => return record
    | _ => none

end Record

end BuiltinCatalog.Yaml
