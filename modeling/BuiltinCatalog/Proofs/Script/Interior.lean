import BuiltinCatalog.Collection
import BuiltinCatalog.Proofs.Script.Syntax

namespace BuiltinCatalog

open Comment (View)

namespace Script

variable {p q : Part} {ps qs : List Part}

namespace Part

def IsSound : Part → Prop
  | .code u => Comment.IsCode u
  | .comment c => c.IsComplete

/-- Code ends where a comment opens, and with no byte that could open it earlier. -/
def Meets : Part → Part → Prop
  | .code _, .code _ => False
  | .code u, .comment _ => u.getLast? ≠ some Comment.slash
  | .comment _, _ => True

/-- The same code, or comments of one kind. -/
inductive Alike : Part → Part → Prop
  | code (u : Text) : Alike (.code u) (.code u)
  | block (x y : Text) : Alike (.comment (.block x)) (.comment (.block y))
  | line (x y : Text) : Alike (.comment (.line x)) (.comment (.line y))

theorem Alike.render_reduced (h : Alike p q) : p.render .reduced = q.render .reduced := by
  cases h with
  | code u => rfl
  | block x y => rfl
  | line x y => rfl

end Part

def passage (v : View) (ps : List Part) : Text := ps.flatMap (Part.render v)

structure IsPassage (ps : List Part) : Prop where
  sound : ∀ p ∈ ps, p.IsSound
  meets : ps.IsChain Part.Meets

theorem IsPassage.tail (h : IsPassage (p :: ps)) : IsPassage ps :=
  ⟨fun q hq => h.sound q (List.mem_cons_of_mem p hq), List.IsChain.of_cons h.meets⟩

theorem IsPassage.ends {u : Text} (h : IsPassage (.code u :: ps)) (hu : u.getLast? = some Comment.slash) :
    ps = [] := by
  cases ps with
  | nil => rfl
  | cons q ps =>
      have hmeets : Part.Meets (.code u) q := (List.isChain_cons_cons.1 h.meets).1
      cases q with
      | code v => exact hmeets.elim
      | comment c => exact absurd hu hmeets

/-- Reading finds the comments that were written, whatever stands in them. -/
theorem normalize_passage (h : IsPassage ps) : Comment.normalize (passage .written ps) = passage .reduced ps := by
  induction ps with
  | nil => exact Comment.normalize_nil
  | cons p ps ih =>
      have hsound : p.IsSound := h.sound p List.mem_cons_self
      rw [passage, List.flatMap_cons, passage, List.flatMap_cons]
      cases p with
      | code u =>
          rw [Part.render, Comment.normalize_code hsound]
          · exact congrArg (u ++ ·) (ih h.tail)
          · intro hu
            rw [h.ends hu]
            rfl
      | comment c =>
          rw [Part.render, Comment.view, Comment.normalize_comment hsound]
          exact congrArg (c.placeholder ++ ·) (ih h.tail)

theorem passage_reduced (h : List.Forall₂ Part.Alike ps qs) : passage .reduced ps = passage .reduced qs := by
  induction h with
  | nil => rfl
  | cons hpq _ ih =>
      rw [passage, List.flatMap_cons, passage, List.flatMap_cons, hpq.render_reduced]
      exact congrArg _ ih

end Script

namespace Declaration

variable {t u : Text}

theorem scan_congr (h : Comment.normalize t = Comment.normalize u) : scan t = scan u := by
  rw [scan, scan, h]

theorem fragments_congr (h : Comment.normalize t = Comment.normalize u) : fragments t = fragments u := by
  rw [fragments, fragments, scan_congr h]

end Declaration

namespace Script

variable {ps qs : List Part}

/-- Texts that differ in the interiors of their comments alone are normalized alike. So the same spans are
found in them, or the same error, and the same functions are read from them. -/
theorem extraction_eq_of_alike (hp : IsPassage ps) (hq : IsPassage qs) (h : List.Forall₂ Part.Alike ps qs) :
    Comment.normalize (passage .written ps) = Comment.normalize (passage .written qs) ∧
    Declaration.scan (passage .written ps) = Declaration.scan (passage .written qs) ∧
    Declaration.fragments (passage .written ps) = Declaration.fragments (passage .written qs) ∧
    Collection.functionsOf (passage .written ps) = Collection.functionsOf (passage .written qs) := by
  have hn : Comment.normalize (passage .written ps) = Comment.normalize (passage .written qs) := by
    rw [normalize_passage hp, normalize_passage hq, passage_reduced h]
  have hf := Declaration.fragments_congr hn
  refine ⟨hn, Declaration.scan_congr hn, hf, ?_⟩
  rw [Collection.functionsOf, Collection.functionsOf, hf]

namespace Sample

/-- A function with a line comment and a block comment in its body, and a slash at the end of the text. -/
def commented (x y : Text) : List Part :=
  [.code "function f(a) \x7b", .comment (.line x), .comment (.block y), .code "\x7d /"]

theorem isPassage_commented {x y : Text} (hx : (Comment.line x).IsComplete) (hy : (Comment.block y).IsComplete) :
    IsPassage (commented x y) where
  sound := by
    simp only [commented, List.forall_mem_cons]
    exact ⟨⟨by decide, by decide⟩, hx, hy, ⟨by decide, by decide⟩, by simp⟩
  meets := by
    simp only [commented, List.isChain_cons_cons]
    have hend : (Text.ofString "function f(a) \x7b").getLast? ≠ some Comment.slash := by decide
    exact ⟨hend, trivial, trivial, .singleton _⟩

theorem extraction_eq_of_alike_hidden_head :
    passage .written (commented "\x7d function g() \x7b /*" "//*\x7d") =
      Text.ofString "function f(a) \x7b//\x7d function g() \x7b /*\n/*//*\x7d*/\x7d /" ∧
    Declaration.scan (passage .written (commented "\x7d function g() \x7b /*" "//*\x7d")) =
      Declaration.scan (passage .written (commented [] [])) :=
  ⟨by decide, (extraction_eq_of_alike (isPassage_commented (by decide) (by decide))
    (isPassage_commented (by decide) (by decide))
    (.cons (.code _) (.cons (.line _ _) (.cons (.block _ _) (.cons (.code _) .nil))))).2.1⟩

end Sample

end Script

end BuiltinCatalog
