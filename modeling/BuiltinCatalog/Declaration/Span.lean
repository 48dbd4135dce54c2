import BuiltinCatalog.Comment
import BuiltinCatalog.Declaration.Head
import BuiltinCatalog.ParseError

namespace BuiltinCatalog

structure Span where
  start : Nat
  stop : Nat
  deriving DecidableEq, Repr

namespace Span

def slice (s : Span) (t : Text) : Text := (t.drop s.start).take (s.stop - s.start)

end Span

structure FoundHead where
  start : Nat
  head : Head
  after : Text
  deriving DecidableEq, Repr

namespace FoundHead

def stop (f : FoundHead) : Nat := f.start + f.head.text.length

/-- The heads of a text whose first byte stands at offset `pos`. A head starts at a word boundary and
after the end of the head before it. -/
def all (boundary : Bool) (pos : Nat) : Text → List FoundHead
  | [] => []
  | b :: rest =>
    match h : if boundary then Head.next? (b :: rest) else none with
    | some (head, after) => ⟨pos, head, after⟩ :: all true (pos + head.text.length) after
    | none => all (!Text.isWord b) (pos + 1) rest
termination_by t => t.length
decreasing_by
  · split at h
    · have := congrArg List.length (Head.next?_append h)
      have := head.length_text_pos
      simp only [List.length_append] at *
      omega
    · simp at h
  · simp

end FoundHead

namespace Braces

/-- How many bytes it takes to close `depth` open braces, or how many stay open. -/
def close (depth : Nat) : Text → Except Nat Nat
  | [] => .error depth
  | b :: rest =>
    if b = '{'.toUInt8 then (close (depth + 1) rest).map (· + 1)
    else if b = '}'.toUInt8 then
      if depth ≤ 1 then .ok 1 else (close (depth - 1) rest).map (· + 1)
    else (close depth rest).map (· + 1)

/-- The offset just past the brace that closes the one at `opening`, given what follows that one. -/
def matchBrace (opening : Nat) (inner : Text) : Except ParseError Nat :=
  match close 1 inner with
  | .ok n => .ok (opening + 1 + n)
  | .error depth => .error { fault := .unbalanced depth, offset := some opening }

end Braces

namespace FoundHead

def bodyStop (f : FoundHead) : Except ParseError Nat :=
  let gap := f.after.takeWhile (· != '{'.toUInt8)
  match f.after.dropWhile (· != '{'.toUInt8) with
  | [] => .error { fault := .noBody f.head.text, offset := some f.start }
  | _ :: inner => Braces.matchBrace (f.stop + gap.length) inner

/-- The spans of the heads that start at `reached` or later and outside one another's bodies. -/
def spans (reached : Nat) : List FoundHead → Except ParseError (List Span)
  | [] => .ok []
  | f :: rest =>
    if f.start < reached then spans reached rest
    else do
      let stop ← f.bodyStop
      let more ← spans stop rest
      return ⟨f.start, stop⟩ :: more

end FoundHead

namespace Declaration

def spansIn (normalized : Text) : Except ParseError (List Span) :=
  FoundHead.spans 0 (FoundHead.all true 0 normalized)

def scan (t : Text) : Except ParseError (List Span × Text) := do
  let normalized := Comment.normalize t
  let spans ← spansIn normalized
  return (spans, normalized)

def fragments (t : Text) : Except ParseError (List Text) := do
  let (spans, normalized) ← scan t
  return spans.map fun s => Text.trim (s.slice normalized)

end Declaration

end BuiltinCatalog
