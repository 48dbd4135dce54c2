import BuiltinCatalog.Text.Basic

namespace BuiltinCatalog

inductive Keyword where
  | function
  | constructor
  deriving DecidableEq, Repr

namespace Keyword

def text : Keyword → Text
  | .function => "function"
  | .constructor => "constructor"

def next? (t : Text) : Option (Keyword × Text) :=
  [function, constructor].findSome? fun k =>
    if k.text.isPrefixOf t then some (k, t.drop k.text.length) else none

theorem next?_append {t rest : Text} {k : Keyword} (h : next? t = some (k, rest)) :
    t = k.text ++ rest := by
  obtain ⟨j, _, hj⟩ := List.exists_of_findSome?_eq_some h
  split at hj
  case isTrue hp =>
    obtain ⟨rfl, rfl⟩ : j = k ∧ t.drop j.text.length = rest := by simpa using hj
    obtain ⟨u, hu⟩ := List.isPrefixOf_iff_prefix.1 hp
    simp [← hu]
  case isFalse => simp at hj

end Keyword

/-- A head up to its opening parenthesis. -/
structure Opening where
  keyword : Keyword
  gap : Text
  name : Text
  pad : Text
  deriving DecidableEq, Repr

namespace Opening

def text (o : Opening) : Text := o.keyword.text ++ (o.gap ++ (o.name ++ (o.pad ++ "(")))

/-- The opening that a text starts with: keyword, white space, a word and a parenthesis. -/
def next? (t : Text) : Option (Opening × Text) := do
  let (keyword, rest) ← Keyword.next? t
  let named := rest.dropWhile Text.isSpace
  let padded := named.dropWhile Text.isWord
  let gap := rest.takeWhile Text.isSpace
  let name := named.takeWhile Text.isWord
  match padded.dropWhile Text.isSpace with
  | b :: rest =>
    if b = '('.toUInt8 ∧ gap ≠ [] ∧ name ≠ [] then
      some (⟨keyword, gap, name, padded.takeWhile Text.isSpace⟩, rest)
    else none
  | [] => none

theorem next?_append {t rest : Text} {o : Opening} (h : next? t = some (o, rest)) :
    t = o.text ++ rest := by
  simp only [next?, Option.bind_eq_bind, Option.bind_eq_some_iff, Prod.exists] at h
  obtain ⟨k, u, hk, h⟩ := h
  split at h
  next b tail hb =>
    split at h
    case isTrue hp =>
      obtain ⟨rfl, rfl⟩ := by simpa using h
      rw [Keyword.next?_append hk]
      simp only [text, List.append_assoc, List.append_cancel_left_eq]
      have hparen : Text.ofString "(" ++ tail = b :: tail := by rw [hp.1]; rfl
      rw [hparen, ← hb, List.takeWhile_append_dropWhile, List.takeWhile_append_dropWhile,
        List.takeWhile_append_dropWhile]
    case isFalse => simp at h
  next => simp at h

end Opening

structure Head where
  opening : Opening
  list : Text
  deriving DecidableEq, Repr

namespace Head

def text (h : Head) : Text := h.opening.text ++ (h.list ++ ")")

def next? (t : Text) : Option (Head × Text) := do
  let (opening, rest) ← Opening.next? t
  let (list, rest) ← Text.cut? ")" rest
  return (⟨opening, list⟩, rest)

theorem next?_append {t rest : Text} {hd : Head} (h : next? t = some (hd, rest)) :
    t = hd.text ++ rest := by
  simp only [next?, Option.bind_eq_bind, Option.pure_def, Option.bind_eq_some_iff,
    Option.some.injEq, Prod.mk.injEq, Prod.exists] at h
  obtain ⟨o, u, ho, l, v, hl, rfl, rfl⟩ := h
  rw [Opening.next?_append ho, Text.cut?_append hl]
  simp [text]

theorem length_text_pos (hd : Head) : 0 < hd.text.length := by
  simp only [text, List.length_append]
  have : 0 < (Text.ofString ")").length := by decide
  omega

end Head

end BuiltinCatalog
