import BuiltinCatalog.Builtin
import BuiltinCatalog.Comment
import BuiltinCatalog.Declaration.Head
import BuiltinCatalog.ParseError

namespace BuiltinCatalog.Signature

def firstOpening? : Text → Option Opening
  | [] => none
  | b :: rest =>
    match Opening.next? (b :: rest) with
    | some (o, _) => some o
    | none => firstOpening? rest

def nextWord? (t : Text) : Option (Text × Text) :=
  let rest := t.dropWhile Text.isSpace
  let word := rest.takeWhile Text.isWord
  if word = [] then none
  else some (t.takeWhile Text.isSpace ++ word, rest.dropWhile Text.isWord)

def commaWords : Nat → Text → Text × Text
  | 0, t => ([], t)
  | fuel + 1, t =>
    match t.dropWhile Text.isSpace with
    | b :: rest =>
      if b = ','.toUInt8 then
        match nextWord? rest with
        | some (word, rest) =>
          let (more, rest) := commaWords fuel rest
          (t.takeWhile Text.isSpace ++ b :: word ++ more, rest)
        | none => ([], t)
      else ([], t)
    | [] => ([], t)

/-- The list after an opening parenthesis, if nothing but words and commas stand before the closing one. -/
def parameterText? (t : Text) : Option Text :=
  let (first, rest) := (nextWord? t).getD ([], t)
  let gap := rest.takeWhile Text.isSpace
  let rest := rest.dropWhile Text.isSpace
  let (more, rest) := commaWords rest.length rest
  match rest.dropWhile Text.isSpace with
  | b :: _ => if b = ')'.toUInt8 then some (first ++ gap ++ more) else none
  | [] => none

def listHere? (t : Text) : Option Text := do
  let (_, list) ← Opening.next? t
  parameterText? list

def firstList? (lineStart : Bool) : Text → Option Text
  | [] => none
  | b :: rest =>
    match if lineStart then listHere? (b :: rest) else none with
    | some list => some list
    | none => firstList? (b == 10) rest

/-- The parts between commas; a blank list has none. -/
def splitParameters (list : Text) : List Text :=
  if Text.trim list = [] then [] else (list.splitOn ','.toUInt8).map Text.trim

/-- The function that a declaration fragment declares. Its source is the fragment without block comments. -/
def parse (fragment : Text) : Except ParseError Builtin :=
  let source := Comment.stripBlocks fragment
  match firstOpening? source with
  | none => .error { fault := .noName source }
  | some opening =>
    match firstList? true source with
    | none => .error { fault := .badParameters opening.name }
    | some list => .ok {
        name := opening.name
        source
        isConstructor := Keyword.constructor.text.isPrefixOf source
        parameters := some (splitParameters list) }

theorem parse_eq_ok {fragment : Text} {f : Builtin} (h : parse fragment = .ok f) :
    ∃ opening list, firstOpening? (Comment.stripBlocks fragment) = some opening ∧
      firstList? true (Comment.stripBlocks fragment) = some list ∧
      f = {
        name := opening.name
        source := Comment.stripBlocks fragment
        isConstructor := Keyword.constructor.text.isPrefixOf (Comment.stripBlocks fragment)
        parameters := some (splitParameters list) } := by
  simp only [parse] at h
  split at h
  next => cases h
  next opening hopening =>
    split at h
    next => cases h
    next list hlist => exact ⟨opening, list, hopening, hlist, (Except.ok.inj h).symm⟩

end BuiltinCatalog.Signature
