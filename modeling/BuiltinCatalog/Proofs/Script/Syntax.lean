import BuiltinCatalog.Builtin
import BuiltinCatalog.Proofs.Comment
import BuiltinCatalog.Proofs.Declaration.Spans

namespace BuiltinCatalog

open Comment (View IsStretch)

/-- At no point more braces are closed than opened, and at the end none is open. -/
structure Braces.Balanced (t : Text) : Prop where
  inside : ∀ u, u <+: t → u.count right ≤ u.count left
  even : t.count left = t.count right

namespace Script

inductive Filler where
  | blank (b : Byte) (space : Text.isSpace b = true)
  | comment (c : Comment) (complete : c.IsComplete)

namespace Filler

def render (v : View) : Filler → Text
  | .blank b _ => [b]
  | .comment c _ => c.view v

/-- A line comment would hide what follows it on its line. -/
def isInline : Filler → Bool
  | .comment (.line _) _ => false
  | _ => true

end Filler

def fill (v : View) (fs : List Filler) : Text := fs.flatMap (Filler.render v)

structure Word where
  text : Text
  ne_nil : text ≠ []
  isWord : ∀ b ∈ text, Text.isWord b = true

structure Parameter where
  before : List Filler
  name : Word
  after : List Filler
  inline : ∀ f ∈ before ++ after, f.isInline = true

namespace Parameter

def render (v : View) (p : Parameter) : Text := fill v p.before ++ (p.name.text ++ fill v p.after)

end Parameter

inductive ParameterList where
  | empty (fs : List Filler) (inline : ∀ f ∈ fs, f.isInline = true)
  | cons (first : Parameter) (rest : List Parameter)

namespace ParameterList

def render (v : View) : ParameterList → Text
  | .empty fs _ => fill v fs
  | .cons p ps => p.render v ++ ps.flatMap fun q => ','.toUInt8 :: q.render v

def names : ParameterList → List Text
  | .empty .. => []
  | .cons p ps => (p :: ps).map (·.name.text)

end ParameterList

inductive Part where
  | code (chunk : Text)
  | comment (c : Comment)

namespace Part

def render (v : View) : Part → Text
  | .code u => u
  | .comment c => c.view v

def codeText : Part → Text
  | .code u => u
  | .comment _ => []

def isCode : Part → Bool
  | .code _ => true
  | .comment _ => false

end Part

/-- A chunk of code opens no comment and holds no keyword. -/
structure IsChunk (u : Text) : Prop where
  isCode : Comment.IsCode u
  ends : u.getLast? ≠ some Comment.slash
  noKeyword : Keyword.Absent u

/-- What stands between the outer braces of a declaration. Only the braces of the code count. -/
structure Body where
  parts : List Part
  apart : parts.IsChain fun p q => ¬ (p.isCode = true ∧ q.isCode = true)
  chunks : ∀ u, .code u ∈ parts → IsChunk u
  complete : ∀ c, .comment c ∈ parts → c.IsComplete
  balanced : Braces.Balanced (parts.flatMap Part.codeText)

namespace Body

def render (v : View) (b : Body) : Text := b.parts.flatMap (Part.render v)

end Body

structure Decl where
  opening : Opening
  parameters : ParameterList
  lead : Text
  body : Body
  wellFormed : opening.IsWellFormed
  lead_space : ∀ b ∈ lead, Text.isSpace b = true

namespace Decl

def render (v : View) (d : Decl) : Text :=
  d.opening.text ++ (d.parameters.render v ++ (')'.toUInt8 :: d.lead ++
    (Braces.left :: (d.body.render v ++ [Braces.right]))))

def builtin (object : Text) (d : Decl) : Builtin where
  name := d.opening.name
  source := d.render .bare
  isConstructor := d.opening.keyword = .constructor
  parameters := some d.parameters.names
  object := object

end Decl

end Script

/-- A license comment, then declarations, each with what stands after it. -/
structure Script where
  license : Text
  lead : List Script.Filler
  decls : List (Script.Decl × List Script.Filler)
  complete : (Comment.block license).IsComplete

namespace Script

def declText (v : View) (decls : List (Decl × List Filler)) : Text :=
  decls.flatMap fun d => d.1.render v ++ fill v d.2

def render (v : View) (s : Script) : Text :=
  (Comment.block s.license).view v ++ (fill v s.lead ++ declText v s.decls)

def text (s : Script) : Text := s.render .written

theorem not_slash_of_isSpace {b : Byte} (h : Text.isSpace b = true) : b ≠ Comment.slash := by
  rintro rfl
  exact absurd h (by decide)

theorem not_slash_of_isWord {b : Byte} (h : Text.isWord b = true) : b ≠ Comment.slash := by
  rintro rfl
  exact absurd h (by decide)

theorem Filler.isStretch (f : Filler) : IsStretch fun v => f.render v := by
  cases f with
  | blank b h =>
      exact .of_not_mem (u := [b]) (by simpa using (not_slash_of_isSpace h).symm)
  | comment c h => exact .comment h

theorem isStretch_fill (fs : List Filler) : IsStretch fun v => fill v fs :=
  .flatMap fun f _ => f.isStretch

theorem Word.isStretch (w : Word) : IsStretch fun _ => w.text :=
  .of_not_mem fun h => not_slash_of_isWord (w.isWord _ h) rfl

theorem Parameter.isStretch (p : Parameter) : IsStretch fun v => p.render v :=
  (isStretch_fill p.before).append (p.name.isStretch.append (isStretch_fill p.after))

theorem ParameterList.isStretch (l : ParameterList) : IsStretch fun v => l.render v := by
  cases l with
  | empty fs _ => exact isStretch_fill fs
  | cons p ps =>
      have hcomma : IsStretch fun _ => [','.toUInt8] := .of_not_mem (by decide)
      exact p.isStretch.append (.flatMap fun q _ => hcomma.append q.isStretch)

theorem Body.isStretch (b : Body) : IsStretch fun v => b.render v := by
  refine .flatMap fun p hp => ?_
  cases p with
  | code u => exact .code (b.chunks u hp).isCode (b.chunks u hp).ends
  | comment c => exact .comment (b.complete c hp)

theorem not_slash_opening {o : Opening} (h : o.IsWellFormed) : Comment.slash ∉ o.text := by
  intro hm
  simp only [Opening.text, List.mem_append] at hm
  rcases hm with hm | hm | hm | hm | hm
  · revert hm
    cases o.keyword <;> decide
  · exact not_slash_of_isSpace (h.gap_space _ hm) rfl
  · exact not_slash_of_isWord (h.name_word _ hm) rfl
  · exact not_slash_of_isSpace (h.pad_space _ hm) rfl
  · exact absurd hm (by decide)

theorem Decl.isStretch (d : Decl) : IsStretch fun v => d.render v := by
  have hopening : IsStretch fun _ => d.opening.text := .of_not_mem (not_slash_opening d.wellFormed)
  have hlead : IsStretch fun _ => ')'.toUInt8 :: d.lead := by
    refine .of_not_mem fun h => ?_
    rcases List.mem_cons.1 h with h | h
    · exact absurd h (by decide)
    · exact not_slash_of_isSpace (d.lead_space _ h) rfl
  have hleft : IsStretch fun _ => [Braces.left] := .of_not_mem (by decide)
  have hright : IsStretch fun _ => [Braces.right] := .of_not_mem (by decide)
  exact hopening.append (d.parameters.isStretch.append
    (hlead.append (hleft.append (d.body.isStretch.append hright))))

theorem isStretch (s : Script) : IsStretch fun v => s.render v :=
  (IsStretch.comment s.complete).append ((isStretch_fill s.lead).append
    (.flatMap fun d _ => d.1.isStretch.append (isStretch_fill d.2)))

theorem normalize_text (s : Script) : Comment.normalize s.text = s.render .reduced := by
  have h := s.isStretch.normalize []
  simpa [text] using h

theorem Decl.stripBlocks_reduced (d : Decl) :
    Comment.stripBlocks (d.render .reduced) = d.render .bare := by
  have h := d.isStretch.stripBlocks []
  simpa using h

end Script

end BuiltinCatalog
