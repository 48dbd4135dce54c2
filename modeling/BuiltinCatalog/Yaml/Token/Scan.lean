import BuiltinCatalog.Yaml.Token

namespace BuiltinCatalog.Yaml

/-- A token that is a key if a colon follows. -/
structure Candidate where
  required : Bool
  token : Nat
  place : Spot
  deriving DecidableEq, Repr

structure Scanner where
  rest : List Spot
  tokens : List Token := []
  allowed : Bool := true
  indents : List Nat := []
  candidate : Option Candidate := none
  outer : List (Option Candidate) := []
  deriving DecidableEq, Repr

namespace Scanner

def inFlow (s : Scanner) : Bool := !s.outer.isEmpty

def emit (s : Scanner) (t : Token) : Scanner := { s with tokens := s.tokens ++ [t] }

/-- Whether a candidate can still be a key at a place: a key is at most 1024 characters long and stands
on one line. -/
def isNear (c : Candidate) (place : Spot) : Bool :=
  c.place.line == place.line && place.index ≤ c.place.index + 1024

def dropCandidate (s : Scanner) : Option Scanner :=
  if s.candidate.any (·.required) then none else some { s with candidate := none }

def noteCandidate (s : Scanner) (place : Spot) : Option Scanner := do
  if !s.allowed then return s
  let s ← s.dropCandidate
  let required := !s.inFlow && s.indents.head? == some place.column
  return { s with candidate := some ⟨required, s.tokens.length, place⟩ }

def closeBlocks (limit : Option Nat) : List Nat → List Nat × List Token
  | [] => ([], [])
  | i :: rest =>
    if limit.all (· < i) then
      let (left, tokens) := closeBlocks limit rest
      (left, .blockEnd :: tokens)
    else (i :: rest, [])

def unroll (s : Scanner) (limit : Option Nat) : Scanner :=
  if s.inFlow then s
  else
    let (indents, tokens) := closeBlocks limit s.indents
    { s with indents := indents, tokens := s.tokens ++ tokens }

/-- Opens a block at a column, unless one as deep is open. Its first token has the given number. -/
def roll (s : Scanner) (column number : Nat) (start : Token) : Scanner :=
  if s.inFlow || s.indents.head?.any (column ≤ ·) then s
  else
    { s with
      indents := column :: s.indents
      tokens := s.tokens.insertIdx number start }

def leadsToComment (ss : List Spot) : Bool :=
  let gap := ss.takeWhile fun s => isBlank s.char || s.char == '\n'
  gap.length < 511 && Token.isHead '#' (ss.drop gap.length)

inductive Skipping where
  | space
  | comment
  | between
  deriving DecidableEq, Repr

/-- Skips blanks, comments and line breaks. Tabs do not count as blanks where a key may start. -/
def skipGap (flow allowed : Bool) (mode : Skipping) : List Spot → Bool × List Spot
  | [] => (allowed, [])
  | s :: rest =>
    match mode with
    | .comment =>
      if isBreak s.char then
        if s.char == '\n' && leadsToComment rest then skipGap flow allowed .between rest
        else skipGap flow (allowed || !flow) .space rest
      else skipGap flow allowed .comment rest
    | .between =>
      if s.char == '#' then skipGap flow allowed .comment rest
      else skipGap flow allowed .between rest
    | .space =>
      if s.column == 0 && s.char == byteOrderMark then skipGap flow allowed .space rest
      else if s.char == ' ' || (s.char == '\t' && (flow || !allowed)) then
        skipGap flow allowed .space rest
      else if s.char == '#' then skipGap flow allowed .comment rest
      else if isBreak s.char then skipGap flow (allowed || !flow) .space rest
      else (allowed, s :: rest)

def skipLineComment (ss : List Spot) : List Spot :=
  let gap := ss.takeWhile fun s => isBlank s.char
  if gap.length < 512 && Token.isHead '#' (ss.drop gap.length) then dropLine (ss.drop gap.length)
  else ss

def leave (s : Scanner) (rest : List Spot) : Scanner := { s with rest := skipLineComment rest }

def openFlow (s : Scanner) (place : Spot) (rest : List Spot) (t : Token) : Option Scanner := do
  let s ← s.noteCandidate place
  if 10000 ≤ s.outer.length then none
  let s := { s with outer := s.candidate :: s.outer, candidate := none, allowed := true }
  return (s.emit t).leave rest

def closeFlow (s : Scanner) (rest : List Spot) (t : Token) : Option Scanner := do
  let s ← s.dropCandidate
  let s :=
    match s.outer with
    | c :: outer => { s with candidate := c, outer := outer }
    | [] => s
  return ({ s with allowed := false }.emit t).leave rest

def comma (s : Scanner) (rest : List Spot) : Option Scanner := do
  let s ← s.dropCandidate
  return ({ s with allowed := true }.emit .comma).leave rest

def entry (s : Scanner) (place : Spot) (rest : List Spot) : Option Scanner := do
  if !s.inFlow && !s.allowed then none
  let s ← (s.roll place.column s.tokens.length .sequenceStart).dropCandidate
  return { s.emit .entry with allowed := true, rest := rest }

def key (s : Scanner) (place : Spot) (rest : List Spot) : Option Scanner := do
  if !s.inFlow && !s.allowed then none
  let s ← (s.roll place.column s.tokens.length .mappingStart).dropCandidate
  return ({ s with allowed := !s.inFlow }.emit .key).leave rest

def simpleValue (s : Scanner) (c : Candidate) (rest : List Spot) : Scanner :=
  let s := { s with tokens := s.tokens.insertIdx c.token .key, candidate := none, allowed := false }
  ((s.roll c.place.column c.token .mappingStart).emit .value).leave rest

def loneValue (s : Scanner) (place : Spot) (rest : List Spot) : Option Scanner :=
  if !s.inFlow && !s.allowed then none
  else
    let s := { s with candidate := none }.roll place.column s.tokens.length .mappingStart
    some (({ s with allowed := !s.inFlow }.emit .value).leave rest)

def value (s : Scanner) (place : Spot) (rest : List Spot) : Option Scanner :=
  match s.candidate with
  | some c =>
    if isNear c place then some (s.simpleValue c rest)
    else if c.required then none
    else s.loneValue place rest
  | none => s.loneValue place rest

/-- An anchor, an alias, a tag or a quoted scalar: it may be a key, and no key can follow it at once. -/
def node (s : Scanner) (place : Spot) (found : Option (Token × List Spot)) : Option Scanner := do
  let s ← s.noteCandidate place
  let (t, rest) ← found
  return ({ s with allowed := false }.emit t).leave rest

def plainScalar (s : Scanner) (place : Spot) (ss : List Spot) : Option Scanner := do
  let s ← s.noteCandidate place
  let (text, passedLine, rest) ← plain s.inFlow (s.indents.head?.elim 0 (· + 1)) [] .none ss
  let s := { s with allowed := passedLine }.emit (.scalar false (Text.ofChars text))
  return if passedLine then { s with rest := rest } else s.leave rest

def blockScalar (s : Scanner) (literal : Bool) (rest : List Spot) : Option Scanner := do
  let s ← s.dropCandidate
  let (text, rest) ← block literal s.indents.head? rest
  return { s.emit (.scalar true (Text.ofChars text)) with allowed := true, rest := rest }

def directive (s : Scanner) (rest : List Spot) : Option Scanner := do
  let s ← (s.unroll none).dropCandidate
  let (t, rest) ← Token.directive? rest
  return { s.emit t with allowed := false, rest := rest }

def documentMark (s : Scanner) (rest : List Spot) (t : Token) : Option Scanner := do
  let s ← (s.unroll none).dropCandidate
  return { s.emit t with allowed := false, rest := rest.drop 2 }

def finish (s : Scanner) : Option Scanner := do
  let s ← (s.unroll none).dropCandidate
  return { s.emit .streamEnd with allowed := false }

def indicators : List Char := ['-', '?', ':', ',', '[', ']', '{', '}', '#', '&', '*', '!', '|', '>',
  singleMark, doubleMark, '%', '@', Char.ofNat 96]

def startsPlain (flow : Bool) (c : Char) (rest : List Spot) : Bool :=
  !(isBlank c || indicators.contains c) || (c == '-' && !atGap rest) ||
    (!flow && (c == '?' || c == ':') && !atGap rest)

def token (s : Scanner) (place : Spot) (rest : List Spot) : Option Scanner :=
  let c := place.char
  if place.column == 0 && c == '%' then s.directive rest
  else if marksDocument '-' (place :: rest) then s.documentMark rest .documentStart
  else if marksDocument '.' (place :: rest) then s.documentMark rest .documentEnd
  else if c == '[' then s.openFlow place rest .openBracket
  else if c == '{' then s.openFlow place rest .openBrace
  else if c == ']' then s.closeFlow rest .closeBracket
  else if c == '}' then s.closeFlow rest .closeBrace
  else if c == ',' then s.comma rest
  else if c == '-' && atGap rest then s.entry place rest
  else if c == '?' && (s.inFlow || atGap rest) then s.key place rest
  else if c == ':' && (s.inFlow || atGap rest) then s.value place rest
  else if c == '*' then s.node place ((Token.name? rest).map fun (n, r) => (.alias n, r))
  else if c == '&' then s.node place ((Token.name? rest).map fun (n, r) => (.anchor n, r))
  else if c == '!' then s.node place (Token.tag? (place :: rest))
  else if c == '|' && !s.inFlow then s.blockScalar true rest
  else if c == '>' && !s.inFlow then s.blockScalar false rest
  else if c == singleMark then
    s.node place ((singleQuoted [] .none rest).map fun (t, r) => (.scalar true (Text.ofChars t), r))
  else if c == doubleMark then
    s.node place
      ((doubleQuoted [] .none .text rest).map fun (t, r) => (.scalar true (Text.ofChars t), r))
  else if startsPlain s.inFlow c rest then s.plainScalar place (place :: rest)
  else none

def next? (s : Scanner) : Option Scanner :=
  let (allowed, rest) := skipGap s.inFlow s.allowed .space s.rest
  let s := { s with allowed := allowed, rest := rest }
  match rest with
  | [] => s.finish
  | place :: after => (s.unroll (some place.column)).token place after

/-- The tokens that are certain where reading fails. The last two and those after an open candidate
are not. -/
def certain (s : Scanner) : List Token :=
  let isOpen (c : Candidate) := s.rest.head?.any (isNear c)
  let pending := (s.candidate :: s.outer).filterMap fun c => (c.filter isOpen).map (·.token)
  s.tokens.take (pending.foldl min (s.tokens.length - 2))

def run : Nat → Scanner → List Token
  | 0, s => s.certain ++ [.broken]
  | fuel + 1, s =>
    match s.next? with
    | none => s.certain ++ [.broken]
    | some s' => if s'.tokens.getLast? == some .streamEnd then s'.tokens else run fuel s'

end Scanner

def tokens (ss : List Spot) : List Token := Scanner.run (ss.length + 1) { rest := ss }

end BuiltinCatalog.Yaml
