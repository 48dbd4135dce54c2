import BuiltinCatalog.Yaml.Token.Scan

namespace BuiltinCatalog.Yaml

inductive Node where
  | scalar (tag : Text) (quoted : Bool) (text : Text)
  | sequence (items : List Node)
  | mapping (pairs : List (Node × Node))
  | alias (name : Text) (target : Nat)
  deriving Repr

namespace Node

def empty : Node := .scalar [] false []

end Node

structure Document where
  root : Option Node
  anchored : List (Nat × Node)
  depth : Nat

structure Reading where
  tokens : List Token
  handles : List (Text × Text) := []
  anchors : List (Text × Nat) := []
  anchored : List (Nat × Node) := []

abbrev Reader := StateT Reading Option

namespace Reader

def peek : Reader Token := do
  match (← get).tokens with
  | t :: _ => return t
  | [] => failure

def skip : Reader Unit := modify fun r => { r with tokens := r.tokens.drop 1 }

def accept (t : Token) : Reader Bool := do
  if (← peek) = t then skip; return true
  else return false

def expect (t : Token) : Reader Unit := do
  if !(← accept t) then failure

def canonicalScheme : Text := "tag:yaml.org,2002:"

/-- Tags of the common scheme are written with two marks; the lone mark says nothing. -/
def shorten (tag : Text) : Text :=
  if tag = Text.ofString "!" then []
  else if canonicalScheme.isPrefixOf tag then "!!" ++ tag.drop canonicalScheme.length
  else tag

def resolveTag (handle suffix : Text) : Reader Text := do
  if handle.isEmpty then return shorten suffix
  match (← get).handles.lookup handle with
  | some expansion => return shorten (expansion ++ suffix)
  | none => failure

def properties : Reader (Option Text × Option Text) := do
  match ← peek with
  | .anchor name =>
    skip
    match ← peek with
    | .tag handle suffix => skip; return (some name, some (← resolveTag handle suffix))
    | _ => return (some name, none)
  | .tag handle suffix =>
    skip
    match ← peek with
    | .anchor name => skip; return (some name, some (← resolveTag handle suffix))
    | _ => return (none, some (← resolveTag handle suffix))
  | _ => return (none, none)

def register (name : Text) : Reader Nat := do
  let r ← get
  let n := r.anchors.length
  set { r with anchors := (name, n) :: r.anchors }
  return n

def record (n : Nat) (node : Node) : Reader Unit :=
  modify fun r => { r with anchored := (n, node) :: r.anchored }

def aliasTo (name : Text) : Reader Node := do
  match (← get).anchors.lookup name with
  | some n => return .alias name n
  | none => failure

mutual

/-- Reads a node. Blocks are allowed outside brackets, and a list may stand as deep as the key before
it if `flat`. -/
def node (block flat : Bool) : Nat → Reader Node
  | 0 => failure
  | fuel + 1 => do
    if let .alias name ← peek then
      skip
      aliasTo name
    else
      let (anchor, tag) ← properties
      let number ← anchor.mapM register
      let n ← content block flat (anchor.isSome || tag.isSome) (tag.getD []) fuel
      number.forM (record · n)
      return n

def content (block flat hasProperties : Bool) (tag : Text) : Nat → Reader Node
  | 0 => failure
  | fuel + 1 => do
    match ← peek, block, flat with
    | .entry, _, true => return .sequence (← flatItems fuel)
    | .scalar quoted text, _, _ => skip; return .scalar tag quoted text
    | .openBracket, _, _ => skip; return .sequence (← flowItems true fuel)
    | .openBrace, _, _ => skip; return .mapping (← flowPairs true fuel)
    | .sequenceStart, true, _ => skip; return .sequence (← items fuel)
    | .mappingStart, true, _ => skip; return .mapping (← pairs fuel)
    | _, _, _ => if hasProperties then return .scalar tag false [] else failure

def items : Nat → Reader (List Node)
  | 0 => failure
  | fuel + 1 => do
    if ← accept .entry then
      let item ←
        match ← peek with
        | .entry | .blockEnd => pure Node.empty
        | _ => node true false fuel
      return item :: (← items fuel)
    else
      expect .blockEnd
      return []

def flatItems : Nat → Reader (List Node)
  | 0 => failure
  | fuel + 1 => do
    if ← accept .entry then
      let item ←
        match ← peek with
        | .entry | .key | .value | .blockEnd => pure Node.empty
        | _ => node true false fuel
      return item :: (← flatItems fuel)
    else return []

def pairs : Nat → Reader (List (Node × Node))
  | 0 => failure
  | fuel + 1 => do
    if ← accept .key then
      let key ← part fuel
      let value ← if ← accept .value then part fuel else pure Node.empty
      return (key, value) :: (← pairs fuel)
    else
      expect .blockEnd
      return []

def part : Nat → Reader Node
  | 0 => failure
  | fuel + 1 => do
    match ← peek with
    | .key | .value | .blockEnd => return Node.empty
    | _ => node true true fuel

def flowItems (first : Bool) : Nat → Reader (List Node)
  | 0 => failure
  | fuel + 1 => do
    if ← accept .closeBracket then return []
    else
      if !first then expect .comma
      if ← accept .closeBracket then return []
      else
        let item ← if ← accept .key then singlePair fuel else node false false fuel
        return item :: (← flowItems false fuel)

/-- A mapping of one pair between brackets. Where the key is missing, the token in its place is
skipped. -/
def singlePair : Nat → Reader Node
  | 0 => failure
  | fuel + 1 => do
    let key ←
      match ← peek with
      | .value | .comma | .closeBracket => skip; pure Node.empty
      | _ => node false false fuel
    let value ← if ← accept .value then flowPart .closeBracket fuel else pure Node.empty
    return .mapping [(key, value)]

def flowPart (close : Token) : Nat → Reader Node
  | 0 => failure
  | fuel + 1 => do
    let t ← peek
    if t = .comma || t = close then return Node.empty
    else node false false fuel

def flowPairs (first : Bool) : Nat → Reader (List (Node × Node))
  | 0 => failure
  | fuel + 1 => do
    if ← accept .closeBrace then return []
    else
      if !first then expect .comma
      if ← accept .closeBrace then return []
      else
        let pair ← flowPair fuel
        return pair :: (← flowPairs false fuel)

def flowPair : Nat → Reader (Node × Node)
  | 0 => failure
  | fuel + 1 => do
    if ← accept .key then
      let key ←
        if (← peek) = .value then pure Node.empty else flowPart .closeBrace fuel
      let value ← if ← accept .value then flowPart .closeBrace fuel else pure Node.empty
      return (key, value)
    else return (← node false false fuel, Node.empty)

end

/-- Reads directives; a version may be given once, and a handle may be given once. -/
def directives (versioned : Bool) : Nat → Reader Unit
  | 0 => failure
  | fuel + 1 => do
    match ← peek with
    | .version major minor =>
      if versioned || major ≠ 1 || minor ≠ 1 then failure
      skip
      directives true fuel
    | .tagHandle handle expansion =>
      if ((← get).handles.lookup handle).isSome then failure
      skip
      modify fun r => { r with handles := (handle, expansion) :: r.handles }
      directives versioned fuel
    | _ => return

def commonHandles : List (Text × Text) := [("!", "!"), ("!!", canonicalScheme)]

/-- Reads the first document. What stands after it is not read, but must not be broken at once. -/
def document (fuel : Nat) : Reader (Option Node) := do
  match ← peek with
  | .streamEnd => return none
  | .version .. | .tagHandle .. | .documentStart =>
    directives false fuel
    expect .documentStart
    modify fun r => { r with handles := r.handles ++ commonHandles }
    let root ←
      match ← peek with
      | .version .. | .tagHandle .. | .documentStart | .documentEnd | .streamEnd => pure Node.empty
      | _ => node true false fuel
    if (← peek) = .broken then failure
    return some root
  | _ =>
    modify fun r => { r with handles := commonHandles }
    let root ← node true false fuel
    if (← peek) = .broken then failure
    return some root

end Reader

def Document.read? (t : Text) : Option Document := do
  let ts := tokens (spots (← characters? t))
  let fuel := 4 * ts.length + 8
  let (root, r) ← (Reader.document fuel).run { tokens := ts }
  return ⟨root, r.anchored, fuel⟩

end BuiltinCatalog.Yaml
