import BuiltinCatalog.Log.Event

namespace BuiltinCatalog

inductive LevelError where
  | unknownName
  | badOffset (offset : Text)
  | offsetRange (offset : Text)
  deriving DecidableEq, Repr

namespace LevelError

def cause : LevelError → Text
  | .unknownName => "unknown name"
  | .badOffset offset => "strconv.Atoi: parsing " ++ Text.quoted offset ++ ": invalid syntax"
  | .offsetRange offset => "strconv.Atoi: parsing " ++ Text.quoted offset ++ ": value out of range"

def message (level : Text) (e : LevelError) : Text :=
  "invalid log level " ++ Text.quoted level ++ ": slog: level string " ++ Text.quoted level ++ ": " ++
    e.cause

end LevelError

/-- A threshold; details have level -4 and summaries level 0. -/
abbrev Level := Int

namespace Level

def named? (name : Text) : Option Level :=
  [(Text.ofString "DEBUG", -4), ("INFO", 0), ("WARN", 4), ("ERROR", 8)].lookup name

def upper (c : Char) : Char := if c.toNat = 0x131 then 'I' else c.toUpper

def offset? (t : Text) : Except LevelError Int :=
  let digits := t.drop 1
  if digits = [] ∨ ¬ digits.all Text.isDigit then .error (.badOffset t)
  else
    let n : Nat := digits.foldl (fun n b => n * 10 + (b.toNat - 48)) 0
    let signed : Int := if t.head? = some '-'.toUInt8 then -n else n
    if signed < -Int.pow 2 63 ∨ Int.pow 2 63 ≤ signed then .error (.offsetRange t) else .ok signed

def isSign (b : Byte) : Bool := b == '+'.toUInt8 || b == '-'.toUInt8

def parse (t : Text) : Except LevelError Level := do
  let name := t.takeWhile fun b => !isSign b
  let suffix := t.drop name.length
  let offset ← if suffix = [] then .ok 0 else offset? suffix
  let folded := Text.ofGlyphs ((Text.glyphs name).map fun
    | .char c => .char (upper c)
    | .stray b => .stray b)
  match named? (if t = [] then Text.ofString "INFO" else folded) with
  | some level => .ok ((level + offset).bmod (Nat.pow 2 64))
  | none => .error .unknownName

def shows (threshold : Level) (e : Event) : Bool := threshold ≤ if e.isDetail then -4 else 0

end Level

end BuiltinCatalog
