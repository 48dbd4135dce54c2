import BuiltinCatalog.Yaml.Meaning
import BuiltinCatalog.Yaml.Scalar

namespace BuiltinCatalog.Yaml

inductive Style where
  | plain
  | single
  | double
  | literal
  deriving DecidableEq, Repr

namespace Style

def isPrintable (c : Char) : Bool :=
  let n := c.toNat
  n == 10 || (0x20 ≤ n && n ≤ 0x7E) || (0xA0 ≤ n && n < 0xFFFE && n != 0xFEFF)

def isAnyBreak (c : Char) : Bool := isBreak (foldBreak c)

def hasPair (related : Char → Char → Bool) (cs : List Char) : Bool :=
  (cs.zip (cs.drop 1)).any fun (a, b) => related a b

def startMarks : List Char := ['#', ',', '[', ']', '{', '}', '&', '*', '!', '|', '>', singleMark,
  doubleMark, '%', '@', Char.ofNat 96]

def hasMarks (cs : List Char) : Bool :=
  ['-', '-', '-'].isPrefixOf cs || ['.', '.', '.'].isPrefixOf cs ||
    cs.head?.any startMarks.contains ||
    (cs.head?.any (fun c => c == '?' || c == '-') && (cs.drop 1).head?.all isBlank) ||
    cs.getLast? == some ':' || hasPair (fun a b => a == ':' && isBlank b) cs ||
    hasPair (fun a b => (isBlank a || isAnyBreak a) && b == '#') cs

def hasSpecial (cs : List Char) : Bool := cs.any fun c => c != '\t' && !isPrintable c

def allowsSingle (cs : List Char) : Bool :=
  !cs.contains '\t' && !hasSpecial cs && !hasPair (fun a b => isAnyBreak a && b == ' ') cs &&
    !hasPair (fun a b => a == ' ' && isAnyBreak b) cs

def allowsPlain (cs : List Char) : Bool :=
  allowsSingle cs && !cs.any isAnyBreak && cs.head? != some ' ' && cs.getLast? != some ' ' &&
    !hasMarks cs

def allowsLiteral (cs : List Char) : Bool :=
  cs.getLast? != some ' ' && !hasSpecial cs && !hasPair (fun a b => a == ' ' && isAnyBreak b) cs

/-- Numbers in base 60, such as `12:30:45`: a first number and further ones below 60, divided by
colons, and perhaps a fraction. -/
def isSexagesimal (t : Text) : Bool :=
  let (_, t) := Number.sign t
  match t.splitOn ':'.toUInt8 with
  | first :: rest =>
    let isPart (p : Text) : Bool :=
      match p with
      | [a] => Text.isDigit a
      | [a, b] => Text.isDigit a && a < '6'.toUInt8 && Text.isDigit b
      | _ => false
    let isFraction (b : Byte) : Bool := Text.isDigit b || b == Number.underscore
    let isLast (p : Text) : Bool :=
      isPart p ||
        (isPart (p.takeWhile (· != '.'.toUInt8)) && p.contains '.'.toUInt8 &&
          ((p.dropWhile (· != '.'.toUInt8)).drop 1).all isFraction)
    first.head?.any Text.isDigit && first.all isFraction && !rest.isEmpty &&
      rest.dropLast.all isPart && rest.getLast?.any isLast
  | [] => false

def oldBools : List Text := ["y", "Y", "yes", "Yes", "YES", "on", "On", "ON", "n", "N", "no", "No", "NO",
  "off", "Off", "OFF"]

def readsAsText (t : Text) : Bool :=
  Kind.ofText true t == .text && !isSexagesimal t && !oldBools.contains t

/-- The style of a text; `plainWanted` says whether it may be plain as far as its meaning goes. -/
def choose (plainWanted : Bool) (cs : List Char) : Style :=
  if cs.contains '\n' then if allowsLiteral cs then .literal else .double
  else if plainWanted then
    if allowsPlain cs then .plain else if allowsSingle cs then .single else .double
  else .double

end Style

namespace Write

def spaces (n : Nat) : List Char := List.replicate n ' '

/-- In single quotes a quote is written twice, and a line that follows a line break is indented. -/
def single (indent : Nat) (afterBreak : Bool) : List Char → List Char
  | [] => [singleMark]
  | c :: rest =>
    if Style.isAnyBreak c then c :: single indent true rest
    else
      (if afterBreak then spaces indent else []) ++ (if c == singleMark then [c, c] else [c]) ++
        single indent false rest

def shortEscapes : List (Nat × Char) := [(0, '0'), (7, 'a'), (8, 'b'), (9, 't'), (10, 'n'), (0xB, 'v'),
  (0xC, 'f'), (0xD, 'r'), (0x1B, 'e'), (34, doubleMark), (92, escapeMark), (0x85, 'N'), (0x2028, 'L'),
  (0x2029, 'P')]

def hexDigits (n : Nat) : Nat → List Char
  | 0 => []
  | width + 1 => hexDigits (n / 16) width ++ [(Nat.digitChar (n % 16)).toUpper]

def escape (c : Char) : List Char :=
  match shortEscapes.lookup c.toNat with
  | some letter => [escapeMark, letter]
  | none =>
    if c.toNat ≤ 0xFF then escapeMark :: 'x' :: hexDigits c.toNat 2
    else if c.toNat ≤ 0xFFFF then escapeMark :: 'u' :: hexDigits c.toNat 4
    else escapeMark :: 'U' :: hexDigits c.toNat 8

def double (cs : List Char) : List Char :=
  cs.flatMap fun c =>
    if !Style.isPrintable c || Style.isAnyBreak c || c == doubleMark || c == escapeMark then escape c
    else [c]

/-- The indicators of a block: its indentation where the text starts with white space, and what
happens to its last line breaks. -/
def literalHints (cs : List Char) : List Char :=
  let isOpen := cs.head?.any fun c => c == ' ' || Style.isAnyBreak c
  let tail := cs.reverse.takeWhile Style.isAnyBreak
  (if isOpen then ['4'] else []) ++
    (if tail.isEmpty then ['-'] else if tail.length = 1 && tail.length < cs.length then [] else ['+'])

def literalLines (indent : Nat) (started afterBreak : Bool) : List Char → List Char
  | [] => []
  | c :: rest =>
    if Style.isAnyBreak c then c :: literalLines indent true true rest
    else
      (if started then [] else ['\n']) ++ (if afterBreak then spaces indent else []) ++
        c :: literalLines indent true false rest

def literal (indent : Nat) (cs : List Char) : List Char :=
  '|' :: literalHints cs ++ literalLines indent false true cs

/-- A text in its style, with the line break after it. A block that ends in a line break has one. -/
def styled (indent : Nat) (plainWanted : Bool) (cs : List Char) : List Char :=
  match Style.choose plainWanted cs with
  | .plain => cs ++ ['\n']
  | .single => singleMark :: single indent false cs ++ ['\n']
  | .double => doubleMark :: double cs ++ [doubleMark, '\n']
  | .literal => literal indent cs ++ (if cs.getLast?.any Style.isAnyBreak then [] else ['\n'])

def base64Lines (t : Text) : Nat → Text
  | 0 => []
  | fuel + 1 => if t.isEmpty then [] else t.take 70 ++ "\n" ++ base64Lines (t.drop 70) fuel

def base64 (t : Text) : Text :=
  let encoded := Text.toBase64 t
  if encoded.length < 70 then encoded else base64Lines encoded encoded.length

/-- A text as a scalar and the line break after it. The lines of a block are indented. -/
def scalar (indent : Nat) (t : Text) : Text :=
  match (Text.glyphs t).mapM fun | .char c => some c | .stray _ => none with
  | some cs => Text.ofChars (styled indent (Style.readsAsText t) cs)
  | none =>
    let cs := (base64 t).map fun b => Char.ofNat b.toNat
    "!!binary " ++ Text.ofChars (styled indent true cs)

end Write

end BuiltinCatalog.Yaml
