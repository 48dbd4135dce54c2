import BuiltinCatalog.Yaml.Spot

namespace BuiltinCatalog.Yaml

/-- White space inside a scalar. A single line break reads as a space, and of several the first is
dropped. -/
inductive Gap where
  | none
  | blanks (cs : List Char)
  | folded (first : Option Char) (more : List Char)
  deriving DecidableEq, Repr

namespace Gap

def isNone : Gap → Bool
  | .none => true
  | _ => false

def isFolded : Gap → Bool
  | .folded .. => true
  | _ => false

def blank (c : Char) : Gap → Gap
  | .none => .blanks [c]
  | .blanks cs => .blanks (cs ++ [c])
  | .folded first more => .folded first more

def newline (c : Char) : Gap → Gap
  | .folded first more => .folded first (more ++ [c])
  | _ => .folded (some c) []

def text : Gap → List Char
  | .none => []
  | .blanks cs => cs
  | .folded Option.none more => more
  | .folded (some c) more => if c != '\n' then c :: more else if more.isEmpty then [' '] else more

end Gap

def singleMark : Char := Char.ofNat 39

def doubleMark : Char := Char.ofNat 34

def escapeMark : Char := Char.ofNat 92

def flowMarks : List Char := [',', '?', '[', ']', '{', '}']

def endsPlain (inFlow : Bool) (c : Char) (rest : List Spot) : Bool :=
  (c == ':' && atGap rest) || (inFlow && flowMarks.contains c)

def endsAfterGap (inFlow : Bool) (indent : Nat) (s : Spot) (rest : List Spot) : Bool :=
  (!inFlow && s.column < indent) || atDocumentMark (s :: rest) || s.char == '#'

/-- Reads on in a plain scalar whose further lines start at column `indent` or later. Returns its text,
whether a line break was passed after it, and what follows. -/
def plain (inFlow : Bool) (indent : Nat) (text : List Char) (gap : Gap) :
    List Spot → Option (List Char × Bool × List Spot)
  | [] => some (text, gap.isFolded, [])
  | s :: rest =>
    if isBlank s.char then
      if gap.isFolded && s.column < indent && s.char == '\t' then none
      else plain inFlow indent text (gap.blank s.char) rest
    else if isBreak s.char then plain inFlow indent text (gap.newline s.char) rest
    else if (!gap.isNone && endsAfterGap inFlow indent s rest) || endsPlain inFlow s.char rest then
      some (text, gap.isFolded, s :: rest)
    else plain inFlow indent (text ++ gap.text ++ [s.char]) .none rest

def singleQuoted (text : List Char) (gap : Gap) : List Spot → Option (List Char × List Spot)
  | [] => none
  | s :: rest =>
    if isBlank s.char then singleQuoted text (gap.blank s.char) rest
    else if isBreak s.char then singleQuoted text (gap.newline s.char) rest
    else if atDocumentMark (s :: rest) then none
    else if s.char == singleMark then
      match rest with
      | t :: rest' =>
        if t.char == singleMark then singleQuoted (text ++ gap.text ++ [singleMark]) .none rest'
        else some (text ++ gap.text, rest)
      | [] => some (text ++ gap.text, rest)
    else singleQuoted (text ++ gap.text ++ [s.char]) .none rest

/-- What an escape stands for: a character, or one given by so many hexadecimal digits. -/
inductive Escape where
  | char (c : Char)
  | code (digits : Nat)
  deriving DecidableEq, Repr

def escapes : List (Char × Escape) := [
  ('0', .char (Char.ofNat 0)), ('a', .char (Char.ofNat 7)), ('b', .char (Char.ofNat 8)),
  ('t', .char '\t'), ('\t', .char '\t'), ('n', .char '\n'), ('v', .char (Char.ofNat 0xB)),
  ('f', .char (Char.ofNat 0xC)), ('r', .char '\r'), ('e', .char (Char.ofNat 0x1B)), (' ', .char ' '),
  (doubleMark, .char doubleMark), (singleMark, .char singleMark), (escapeMark, .char escapeMark),
  ('N', .char (Char.ofNat 0x85)), ('_', .char (Char.ofNat 0xA0)), ('L', .char (Char.ofNat 0x2028)),
  ('P', .char (Char.ofNat 0x2029)), ('x', .code 2), ('u', .code 4), ('U', .code 8)]

def hexDigit? (c : Char) : Option Nat :=
  if c.isDigit then some (c.toNat - 48)
  else if 'a' ≤ c && c ≤ 'f' then some (c.toNat - 87)
  else if 'A' ≤ c && c ≤ 'F' then some (c.toNat - 55)
  else none

def isScalarValue (n : Nat) : Bool := n < 0xD800 || (0xDFFF < n && n ≤ 0x10FFFF)

inductive Mode where
  | text
  | escape
  | code (missing value : Nat)
  deriving DecidableEq, Repr

def doubleQuoted (text : List Char) (gap : Gap) (mode : Mode) :
    List Spot → Option (List Char × List Spot)
  | [] => none
  | s :: rest =>
    match mode with
    | .code missing value =>
      match hexDigit? s.char with
      | none => none
      | some d =>
        let value := value * 16 + d
        if 1 < missing then doubleQuoted text .none (.code (missing - 1) value) rest
        else if isScalarValue value then doubleQuoted (text ++ [Char.ofNat value]) .none .text rest
        else none
    | .escape =>
      if isBreak s.char then doubleQuoted text (.folded none []) .text rest
      else
        match escapes.lookup s.char with
        | some (.char c) => doubleQuoted (text ++ [c]) .none .text rest
        | some (.code digits) => doubleQuoted text .none (.code digits 0) rest
        | none => none
    | .text =>
      if isBlank s.char then doubleQuoted text (gap.blank s.char) .text rest
      else if isBreak s.char then doubleQuoted text (gap.newline s.char) .text rest
      else if atDocumentMark (s :: rest) then none
      else if s.char == doubleMark then some (text ++ gap.text, rest)
      else if s.char == escapeMark then doubleQuoted (text ++ gap.text) .none .escape rest
      else doubleQuoted (text ++ gap.text ++ [s.char]) .none .text rest

inductive Chomp where
  | clip
  | strip
  | keep
  deriving DecidableEq, Repr

structure Line where
  spots : List Spot
  stop : Option Spot
  deriving DecidableEq, Repr

def linesOf : List Spot → List Line
  | [] => []
  | s :: rest =>
    if isBreak s.char then ⟨[], some s⟩ :: linesOf rest
    else
      match linesOf rest with
      | [] => [⟨[s], none⟩]
      | l :: ls => ⟨s :: l.spots, l.stop⟩ :: ls

def Line.all (l : Line) : List Spot := l.spots ++ l.stop.toList

def Line.breakChars (l : Line) : List Char := l.stop.toList.map (·.char)

def Line.afterSpaces (l : Line) (limit : Option Nat) : List Spot :=
  l.spots.dropWhile fun s => s.char == ' ' && limit.all (s.column < ·)

/-- The greatest number of spaces in the empty lines at the start and in the line after them. A tab
cannot indent. -/
def leadingSpaces? : List Line → Option Nat
  | [] => some 0
  | l :: ls =>
    let inner := l.afterSpaces none
    let width := l.spots.length - inner.length
    match inner with
    | s :: _ => if s.char == '\t' then none else some width
    | [] => if l.stop.isNone then some width else (leadingSpaces? ls).map (max width)

structure Block where
  text : List Char := []
  lastBreak : List Char := []
  emptyBreaks : List Char := []
  startsBlank : Bool := false
  deriving DecidableEq, Repr

namespace Block

/-- Adds a line that is not empty. In a folded block a line break between two lines that start with
no blank becomes a space. -/
def addLine (literal : Bool) (b : Block) (content : List Char) (stop : List Char) : Block :=
  let blank := content.head?.any isBlank
  let folds := !literal && !b.startsBlank && !blank && b.lastBreak.head? == some '\n'
  let joint :=
    if folds then if b.emptyBreaks.isEmpty then [' '] else []
    else b.lastBreak
  { text := b.text ++ joint ++ b.emptyBreaks ++ content
    lastBreak := stop
    startsBlank := blank }

def addEmpty (b : Block) (stop : List Char) : Block :=
  { b with emptyBreaks := b.emptyBreaks ++ stop }

def finish (chomp : Chomp) (b : Block) : List Char :=
  match chomp with
  | .strip => b.text
  | .clip => b.text ++ b.lastBreak
  | .keep => b.text ++ b.lastBreak ++ b.emptyBreaks

def read (literal : Bool) (indent : Nat) (b : Block) : List Line → Option (Block × List Spot)
  | [] => some (b, [])
  | l :: ls =>
    match l.afterSpaces (some indent) with
    | [] =>
      if l.stop.isNone then some (b, [])
      else read literal indent (b.addEmpty l.breakChars) ls
    | s :: inner =>
      if s.column < indent then
        if s.char == '\t' then none
        else some (b, s :: inner ++ l.stop.toList ++ ls.flatMap Line.all)
      else
        read literal indent (b.addLine literal ((s :: inner).map (·.char)) l.breakChars) ls

end Block

structure BlockHeader where
  chomp : Chomp := .clip
  increment : Option Nat := none
  deriving DecidableEq, Repr

def chompOf? : List Spot → Option (Chomp × List Spot)
  | s :: rest => if s.char == '+' then some (.keep, rest) else if s.char == '-' then some (.strip, rest)
    else none
  | [] => none

def incrementOf? : List Spot → Option (Nat × List Spot)
  | s :: rest => if s.char.isDigit then some (s.char.toNat - 48, rest) else none
  | [] => none

def blockHeader (ss : List Spot) : BlockHeader × List Spot :=
  match chompOf? ss with
  | some (chomp, rest) =>
    match incrementOf? rest with
    | some (n, rest) => (⟨chomp, some n⟩, rest)
    | none => (⟨chomp, none⟩, rest)
  | none =>
    match incrementOf? ss with
    | some (n, rest) =>
      match chompOf? rest with
      | some (chomp, rest) => (⟨chomp, some n⟩, rest)
      | none => (⟨.clip, some n⟩, rest)
    | none => ({}, ss)

/-- Reads on after the mark of a block, in surroundings indented by `outer` columns, if at all. -/
def block (literal : Bool) (outer : Option Nat) (ss : List Spot) : Option (List Char × List Spot) := do
  let (header, rest) := blockHeader ss
  if header.increment = some 0 then none
  let rest := dropBlanks rest
  let rest := if rest.head?.any (·.char == '#') then dropLine rest else rest
  if !atLineEnd rest then none
  let lines := linesOf (rest.drop 1)
  let indent ←
    match header.increment with
    | some n => some (outer.getD 0 + n)
    | none => (leadingSpaces? lines).map fun n => max n (outer.elim 1 (· + 1))
  let (b, rest) ← Block.read literal indent {} lines
  return (b.finish header.chomp, rest)

end BuiltinCatalog.Yaml
