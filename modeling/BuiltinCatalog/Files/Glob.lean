import BuiltinCatalog.Text.Utf8

namespace BuiltinCatalog.Glob

inductive Verdict where
  | yes
  | no
  | malformed
  deriving DecidableEq, Repr

def slash : Char := '/'

def escapeMark : Char := Char.ofNat 92

inductive Place where
  | plain
  | opened
  | negated
  | inClass
  deriving DecidableEq, Repr

def isWellFormed (depth : Nat) (place : Place) : List Char → Bool
  | [] => place = .plain && depth = 0
  | c :: rest =>
    match place with
    | .plain =>
      if c = escapeMark then
        match rest with
        | [] => false
        | _ :: rest => isWellFormed depth .plain rest
      else if c = '[' then isWellFormed depth .opened rest
      else if c = '{' then isWellFormed (depth + 1) .plain rest
      else if c = '}' then depth ≠ 0 && isWellFormed (depth - 1) .plain rest
      else isWellFormed depth .plain rest
    | .inClass =>
      if c = ']' then isWellFormed depth .plain rest
      else if c = escapeMark then
        match rest with
        | [] => false
        | _ :: rest => isWellFormed depth .inClass rest
      else isWellFormed depth .inClass rest
    | .opened | .negated =>
      if c = ']' then false
      else if place = .opened && (c = '^' || c = '!') then isWellFormed depth .negated rest
      else if c = escapeMark then
        match rest with
        | [] => false
        | _ :: rest => isWellFormed depth .inClass rest
      else isWellFormed depth .inClass rest

/-- The verdict where nothing matches and the given part of the pattern was not looked at. -/
def refuse (rest : List Char) : Verdict := if isWellFormed 0 .plain rest then .no else .malformed

def alternatives? (depth : Nat) (current : List Char) :
    List Char → Option (List (List Char) × List Char)
  | [] => none
  | c :: rest =>
    if c = escapeMark then
      match rest with
      | [] => none
      | d :: rest => alternatives? depth (current ++ [c, d]) rest
    else if c = '{' then alternatives? (depth + 1) (current ++ [c]) rest
    else if c = '}' then
      if depth = 0 then some ([current], rest)
      else alternatives? (depth - 1) (current ++ [c]) rest
    else if c = ',' && depth = 0 then
      (alternatives? 0 [] rest).map fun (others, after) => (current :: others, after)
    else alternatives? depth (current ++ [c]) rest

def firstVerdict (judge : α → Verdict) (options : List α) : Verdict :=
  options.foldl (fun v o => if v = .no then judge o else v) .no

/-- Whether what is left of a pattern matches the empty text. The end of a pattern that stands for the
contents of a directory matches the directory. -/
def matchesEmpty : Nat → List Char → Verdict
  | 0, _ => .malformed
  | fuel + 1, pattern =>
    if pattern ∈ [[], ['*'], ['*', '*'], ['/', '*', '*'], ['*', '*', '/'], ['/', '*', '*', '/']] then .yes
    else
      match pattern with
      | '{' :: rest =>
        match alternatives? 0 [] rest with
        | none => .malformed
        | some (options, after) =>
          firstVerdict (fun o => matchesEmpty fuel (o ++ after)) options
      | _ => refuse pattern

def lowerEnd (c : Char) : Option Char := if c.toNat = 0x10FFFF then none else some c

/-- Looks for a character among those of a class. Returns whether it was found, and the pattern from
there on. -/
def scanClass (n : Char) (low : Option Char) : List Char → Bool × List Char
  | [] => (false, [])
  | ']' :: rest => (false, ']' :: rest)
  | [_] => (false, [])
  | c :: d :: rest =>
    match low with
    | some l =>
      if c = '-' && d ≠ ']' then
        if d = escapeMark then
          match rest with
          | [] => (false, [])
          | e :: rest => if l ≤ n && n ≤ e then (true, rest) else scanClass n none rest
        else if l ≤ n && n ≤ d then (true, rest)
        else scanClass n none rest
      else if c = escapeMark then
        if d = n then (true, rest) else scanClass n (lowerEnd d) rest
      else if c = n then (true, d :: rest)
      else scanClass n (lowerEnd c) (d :: rest)
    | none =>
      if c = escapeMark then
        if d = n then (true, rest) else scanClass n (lowerEnd d) rest
      else if c = n then (true, d :: rest)
      else scanClass n (lowerEnd c) (d :: rest)

def afterClass? : List Char → Option (List Char)
  | [] => none
  | c :: rest =>
    if c = ']' then some rest
    else if c = escapeMark then
      match rest with
      | [] => none
      | _ :: rest => afterClass? rest
    else afterClass? rest

inductive ClassMatch where
  | malformed
  | miss (rest : List Char)
  | hit (rest : List Char)
  deriving DecidableEq, Repr

def matchClass (n : Char) (pattern : List Char) : ClassMatch :=
  match pattern with
  | [] => .malformed
  | c :: rest =>
    let negate := c = '!' || c = '^'
    let body := if negate then rest else pattern
    if body = [] ∨ body.head? = some ']' then .malformed
    else
      let (found, left) := scanClass n none body
      if found = negate then if left = [] then .malformed else .miss left
      else
        match afterClass? left with
        | some after => .hit after
        | none => .malformed

structure Resume where
  pattern : List Char
  name : List Char
  deriving DecidableEq, Repr

structure State where
  pattern : List Char
  name : List Char
  afterEscape : Bool := false
  atStart : Bool := true
  star : Option Resume := none
  doubleStar : Option Resume := none
  deriving DecidableEq, Repr

inductive Step where
  | done (v : Verdict)
  | go (s : State)
  | miss (rest : List Char)
  | choose (options : List (List Char))
  deriving DecidableEq, Repr

namespace State

def atStar (s : State) (rest : List Char) : Step :=
  .go { s with
    pattern := rest, afterEscape := false, atStart := false, star := some ⟨rest, s.name⟩ }

def atDoubleStar (s : State) (rest : List Char) : Step :=
  if s.atStart then
    match rest with
    | [] => .done .yes
    | c :: after =>
      if c = slash then
        .go { s with
          pattern := after, afterEscape := false, star := none, doubleStar := some ⟨after, s.name⟩ }
      else s.atStar rest
  else s.atStar rest

def literal (s : State) (n : Char) (name : List Char) (c : Char) (rest : List Char) (escaped : Bool) :
    Step :=
  if c = n then
    .go { s with pattern := rest, name := name, afterEscape := c = escapeMark, atStart := c = slash }
  else .miss (if escaped then escapeMark :: c :: rest else c :: rest)

def step (s : State) (n : Char) (name : List Char) : Step :=
  match s.pattern with
  | [] => .miss []
  | '*' :: '*' :: rest => s.atDoubleStar rest
  | '*' :: rest => s.atStar rest
  | '?' :: rest =>
    if n = slash then .miss s.pattern
    else .go { s with pattern := rest, name := name, afterEscape := false, atStart := false }
  | '[' :: rest =>
    match matchClass n rest with
    | .malformed => .done .malformed
    | .miss left => .miss left
    | .hit after =>
      .go { s with pattern := after, name := name, afterEscape := false, atStart := false }
  | '{' :: rest =>
    match alternatives? 0 [] rest with
    | none => .done .malformed
    | some (options, after) => .choose (options.map (· ++ after))
  | c :: rest =>
    if c = escapeMark then
      match rest with
      | [] => .done .malformed
      | d :: rest => s.literal n name d rest true
    else s.literal n name c rest s.afterEscape

def afterSlash? (name : List Char) : Option (List Char) :=
  match name.dropWhile (· ≠ slash) with
  | [] => none
  | _ :: rest => some rest

def resumeDoubleStar? (s : State) : Option State := do
  let r ← s.doubleStar
  let name ← afterSlash? r.name
  return { s with
    pattern := r.pattern, name := name, afterEscape := false, atStart := true
    doubleStar := some ⟨r.pattern, name⟩ }

def resume? (s : State) : Option State :=
  match s.star with
  | some ⟨pattern, n :: name⟩ =>
    if n ≠ slash then
      some { s with
        pattern := pattern, name := name, afterEscape := false, atStart := false
        star := some ⟨pattern, name⟩ }
    else s.resumeDoubleStar?
  | _ => s.resumeDoubleStar?

def withPattern (s : State) (pattern : List Char) : State :=
  let replace (r : Resume) : Resume :=
    { r with pattern := r.pattern.take (r.pattern.length - s.pattern.length) ++ pattern }
  { s with
    pattern := pattern, atStart := true
    star := s.star.map replace, doubleStar := s.doubleStar.map replace }

def run : Nat → State → Verdict
  | 0, _ => .malformed
  | fuel + 1, s =>
    match s.name with
    | [] => matchesEmpty (s.pattern.length + 1) s.pattern
    | n :: name =>
      match s.step n name with
      | .done v => v
      | .go s => run fuel s
      | .miss rest =>
        match s.resume? with
        | some s => run fuel s
        | none => refuse rest
      | .choose options => firstVerdict (fun o => run fuel (s.withPattern o)) options

end State

def characters (t : Text) : List Char := (Text.glyphs t).map (·.seen)

/-- More steps than a match can take: going back moves one of two places in the name forwards. -/
def stepBound (pattern name : List Char) : Nat := Nat.pow (pattern.length + name.length + 2) 4

/-- Whether a pattern matches a whole path. A malformed pattern matches nothing. -/
def isMatch (pattern path : Text) : Bool :=
  let p := characters pattern
  let n := characters path
  State.run (stepBound p n) { pattern := p, name := n } = .yes

end BuiltinCatalog.Glob
