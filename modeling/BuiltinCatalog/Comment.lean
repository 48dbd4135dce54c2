import BuiltinCatalog.Text.Basic

namespace BuiltinCatalog

inductive Comment where
  | block (interior : Text)
  | line (interior : Text)
  deriving DecidableEq, Repr

namespace Comment

def text : Comment → Text
  | .block x => "/*" ++ (x ++ "*/")
  | .line x => "//" ++ (x ++ "\n")

def placeholder : Comment → Text
  | .block _ => "/**/"
  | .line _ => "//\n"

def next? : Text → Option (Comment × Text)
  | a :: b :: rest =>
    if a = '/'.toUInt8 ∧ b = '*'.toUInt8 then
      (Text.cut? "*/" rest).map fun (x, after) => (.block x, after)
    else if a = '/'.toUInt8 ∧ b = '/'.toUInt8 then
      (Text.cut? "\n" rest).map fun (x, after) => (.line x, after)
    else none
  | _ => none

theorem next?_append {t rest : Text} {c : Comment} (h : next? t = some (c, rest)) :
    t = c.text ++ rest := by
  unfold next? at h
  split at h
  next a b tail =>
    split at h
    case isTrue hab =>
      obtain ⟨⟨x, after⟩, hx, heq⟩ := Option.map_eq_some_iff.1 h
      obtain ⟨rfl, rfl⟩ : Comment.block x = c ∧ after = rest := by simpa using heq
      obtain ⟨rfl, rfl⟩ := hab
      rw [Text.cut?_append hx]
      simp only [text, List.append_assoc]
      rfl
    case isFalse =>
      split at h
      case isTrue hab =>
        obtain ⟨⟨x, after⟩, hx, heq⟩ := Option.map_eq_some_iff.1 h
        obtain ⟨rfl, rfl⟩ : Comment.line x = c ∧ after = rest := by simpa using heq
        obtain ⟨rfl, rfl⟩ := hab
        rw [Text.cut?_append hx]
        simp only [text, List.append_assoc]
        rfl
      case isFalse => simp at h
  next => simp at h

end Comment

inductive Piece where
  | code (b : Byte)
  | comment (c : Comment)
  deriving DecidableEq, Repr

namespace Piece

def text : Piece → Text
  | .code b => [b]
  | .comment c => c.text

def reduced : Piece → Text
  | .code b => [b]
  | .comment c => c.placeholder

/-- Reads a text from left to right; whichever comment opens first wins. -/
def ofText : Text → List Piece
  | [] => []
  | b :: rest =>
    match _h : Comment.next? (b :: rest) with
    | none => .code b :: ofText rest
    | some (c, after) => .comment c :: ofText after
termination_by t => t.length
decreasing_by
  · simp
  · have hl := congrArg List.length (Comment.next?_append _h)
    have : 0 < c.text.length := by cases c <;> simp [Comment.text, Text.ofString, String.utf8EncodeChar]
    simp only [List.length_append] at hl
    omega

end Piece

namespace Comment

def normalize (t : Text) : Text := (Piece.ofText t).flatMap Piece.reduced

/-- The text before the first block comment, the comment's interior, and the text after it. -/
def splitBlock? (t : Text) : Option (Text × Text × Text) := do
  let (before, rest) ← Text.cut? "/*" t
  let (interior, after) ← Text.cut? "*/" rest
  return (before, interior, after)

theorem splitBlock?_append {t before interior after : Text}
    (h : splitBlock? t = some (before, interior, after)) :
    t = before ++ (block interior).text ++ after := by
  simp only [splitBlock?, Option.bind_eq_bind, Option.pure_def, Option.bind_eq_some_iff,
    Option.some.injEq, Prod.mk.injEq, Prod.exists] at h
  obtain ⟨u, v, huv, x, y, hxy, rfl, rfl, rfl⟩ := h
  rw [Text.cut?_append huv, Text.cut?_append hxy]
  simp [text]

/-- Deletes the block comments, without regard to line comments. -/
def stripBlocks (t : Text) : Text :=
  match _h : splitBlock? t with
  | none => t
  | some (before, _, after) => before ++ stripBlocks after
termination_by t.length
decreasing_by
  have hl := congrArg List.length (splitBlock?_append _h)
  simp only [List.length_append, text, Text.ofString] at hl
  simp [String.utf8EncodeChar] at hl
  omega

def firstBlock? (t : Text) : Option Text :=
  (splitBlock? t).map fun (_, interior, _) => (block interior).text

end Comment

end BuiltinCatalog
