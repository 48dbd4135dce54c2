import BuiltinCatalog.Yaml.Scalar

namespace BuiltinCatalog.Yaml

inductive Token where
  | version (major minor : Nat)
  | tagHandle (handle expansion : Text)
  | documentStart
  | documentEnd
  | streamEnd
  | sequenceStart
  | mappingStart
  | blockEnd
  | openBracket
  | closeBracket
  | openBrace
  | closeBrace
  | entry
  | comma
  | key
  | value
  | alias (name : Text)
  | anchor (name : Text)
  | tag (handle suffix : Text)
  | scalar (quoted : Bool) (text : Text)
  | broken
  deriving DecidableEq, Repr

namespace Token

def isWord (c : Char) : Bool := c.isAlphanum || c == '_' || c == '-'

def isHead (c : Char) (ss : List Spot) : Bool := ss.head?.any (·.char == c)

def takeWord (ss : List Spot) : List Char × List Spot :=
  ((ss.takeWhile fun s => isWord s.char).map (·.char), ss.dropWhile fun s => isWord s.char)

def nameEnds : List Char := ['?', ':', ',', ']', '}', '%', '@', Char.ofNat 96]

def name? (ss : List Spot) : Option (Text × List Spot) :=
  let (word, rest) := takeWord ss
  if word.isEmpty || !(atGap rest || rest.head?.any fun s => nameEnds.contains s.char) then none
  else some (Text.ofChars word, rest)

def uriMarks : List Char := [';', '/', '?', ':', '@', '&', '=', '+', '$', ',', '.', '!', '~', '*',
  singleMark, '(', ')', '[', ']', '%']

def isUriChar (c : Char) : Bool := isWord c || uriMarks.contains c

def announced (b : Byte) : Nat :=
  if b < 0x80 then 1 else if b < 0xC0 then 0 else if b < 0xE0 then 2 else if b < 0xF0 then 3
  else if b < 0xF8 then 4 else 0

/-- The text of a list of URI characters. A percent sign starts an escaped byte; `missing` bytes of an
escaped character are still to come. -/
def uriText? (missing : Nat) : List Char → Option Text
  | [] => if missing = 0 then some [] else none
  | '%' :: a :: b :: rest => do
    let octet := UInt8.ofNat ((← hexDigit? a) * 16 + (← hexDigit? b))
    if missing = 0 then
      if announced octet = 0 then none else (uriText? (announced octet - 1) rest).map (octet :: ·)
    else if 0x80 ≤ octet && octet < 0xC0 then (uriText? (missing - 1) rest).map (octet :: ·)
    else none
  | c :: rest =>
    if missing ≠ 0 ∨ c = '%' then none else (uriText? 0 rest).map (Text.encode c ++ ·)

def uri? (ss : List Spot) : Option (Text × List Spot) := do
  let cs := (ss.takeWhile fun s => isUriChar s.char).map (·.char)
  return (← uriText? 0 cs, ss.dropWhile fun s => isUriChar s.char)

/-- A handle: an exclamation mark, a word, and another exclamation mark if there is one. -/
def handle? (ss : List Spot) : Option (List Char × List Spot) :=
  if isHead '!' ss then
    let (word, rest) := takeWord (ss.drop 1)
    if isHead '!' rest then some ('!' :: word ++ ['!'], rest.drop 1) else some ('!' :: word, rest)
  else none

def fullTag? (ss : List Spot) : Option (Token × List Spot) := do
  let (uri, rest) ← uri? (ss.drop 2)
  if uri.isEmpty || !isHead '>' rest then none
  else return (.tag [] uri, rest.drop 1)

/-- A tag with a handle such as `!!name` or `!name`; a lone mark is a tag of its own. -/
def shortTag? (ss : List Spot) : Option (Token × List Spot) := do
  let (handle, rest) ← handle? ss
  if 1 < handle.length && handle.getLast? == some '!' then
    let (uri, rest) ← uri? rest
    if uri.isEmpty then none else return (.tag (Text.ofChars handle) uri, rest)
  else
    let (uri, rest) ← uri? rest
    let suffix := Text.ofChars (handle.drop 1) ++ uri
    if suffix.isEmpty then return (.tag [] "!", rest) else return (.tag "!" suffix, rest)

def tag? (ss : List Spot) : Option (Token × List Spot) := do
  let (token, rest) ← if isHead '<' (ss.drop 1) then fullTag? ss else shortTag? ss
  if atGap rest then return (token, rest) else none

def versionNumber? (ss : List Spot) : Option (Nat × List Spot) :=
  let digits := (ss.takeWhile fun s => s.char.isDigit).map (·.char)
  if digits.isEmpty || 2 < digits.length then none
  else some (digits.foldl (fun n c => n * 10 + (c.toNat - 48)) 0, ss.drop digits.length)

def version? (ss : List Spot) : Option (Token × List Spot) := do
  let (major, rest) ← versionNumber? (dropBlanks ss)
  if !isHead '.' rest then none
  let (minor, rest) ← versionNumber? (rest.drop 1)
  return (.version major minor, rest)

def tagHandle? (ss : List Spot) : Option (Token × List Spot) := do
  let (handle, rest) ← handle? (dropBlanks ss)
  if handle ≠ ['!'] ∧ (handle.length = 1 ∨ handle.getLast? ≠ some '!') then none
  if !rest.head?.any fun s => isBlank s.char then none
  let (uri, rest) ← uri? (dropBlanks rest)
  if uri.isEmpty || !atGap rest then none
  return (.tagHandle (Text.ofChars handle) uri, rest)

def directive? (ss : List Spot) : Option (Token × List Spot) := do
  let (word, rest) := takeWord ss
  if !atGap rest then none
  let (token, rest) ←
    if word = ['Y', 'A', 'M', 'L'] then version? rest
    else if word = ['T', 'A', 'G'] then tagHandle? rest
    else none
  let rest := dropBlanks rest
  let rest := if isHead '#' rest then dropLine rest else rest
  if atLineEnd rest then return (token, rest.drop 1) else none

end Token

end BuiltinCatalog.Yaml
