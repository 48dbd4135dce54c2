import BuiltinCatalog.Text.Basic

namespace BuiltinCatalog.Path

def slash : Byte := '/'.toUInt8

def isAbsolute (p : Text) : Bool := p.head? == some slash

/-- One component of a path, after the components before it (last first). Empty components and `.` add
nothing, `..` takes one back, and above the root there is only the root. -/
def push (rooted : Bool) (done : List Text) (component : Text) : List Text :=
  if component = [] ∨ component = Text.ofString "." then done
  else if component = Text.ofString ".." then
    match done with
    | [] => if rooted then [] else [component]
    | last :: rest => if last = Text.ofString ".." then component :: done else rest
  else component :: done

def components (p : Text) : List Text :=
  ((p.splitOn slash).foldl (push (isAbsolute p)) []).reverse

/-- The shortest path of the same meaning. -/
def clean (p : Text) : Text :=
  let joined := [slash].intercalate (components p)
  if isAbsolute p then slash :: joined
  else if joined = [] then "." else joined

def join (parts : List Text) : Text :=
  match parts.dropWhile (· = []) with
  | [] => []
  | parts => clean ([slash].intercalate parts)

def absolute (directory p : Text) : Text := if isAbsolute p then clean p else join [directory, p]

def lastPart (p : Text) : Text := (p.reverse.takeWhile (· != slash)).reverse

def leadingPart (p : Text) : Text := p.take (p.length - (lastPart p).length)

def base (p : Text) : Text :=
  if p = [] then "."
  else
    let trimmed := (p.reverse.dropWhile (· == slash)).reverse
    if trimmed = [] then [slash] else lastPart trimmed

def extension (p : Text) : Text :=
  let name := lastPart p
  if name.any (· == '.'.toUInt8) then
    '.'.toUInt8 :: (name.reverse.takeWhile (· != '.'.toUInt8)).reverse
  else []

def parent (p : Text) : Text := clean (leadingPart p)

def stem (p : Text) : Text := Text.withoutSuffix (extension (base p)) (base p)

end BuiltinCatalog.Path
