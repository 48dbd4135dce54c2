namespace BuiltinCatalog

abbrev Byte := UInt8

abbrev Text := List Byte

namespace Text

def ofString (s : String) : Text := s.toList.flatMap String.utf8EncodeChar

instance : Coe String Text := ⟨ofString⟩

def ofNat (n : Nat) : Text := ofString n.repr

def ofInt (n : Int) : Text := ofString n.repr

def cut? (mark : Text) : Text → Option (Text × Text)
  | [] => if mark.isEmpty then some ([], []) else none
  | b :: rest =>
    if mark.isPrefixOf (b :: rest) then some ([], (b :: rest).drop mark.length)
    else (cut? mark rest).map fun (before, after) => (b :: before, after)

def has (mark text : Text) : Bool := (cut? mark text).isSome

def withoutSuffix (tail text : Text) : Text :=
  if tail.isSuffixOf text then text.take (text.length - tail.length) else text

theorem cut?_append {mark text before after : Text} (h : cut? mark text = some (before, after)) :
    text = before ++ mark ++ after := by
  induction text generalizing before with
  | nil =>
    simp only [cut?, List.isEmpty_iff] at h
    split at h <;> simp_all
  | cons b rest ih =>
    simp only [cut?] at h
    split at h
    case isTrue hp =>
      obtain ⟨rfl, rfl⟩ : before = [] ∧ after = (b :: rest).drop mark.length := by simp_all
      obtain ⟨t, ht⟩ := List.isPrefixOf_iff_prefix.1 hp
      simp [← ht]
    case isFalse =>
      obtain ⟨⟨u, v⟩, hu, hv⟩ := Option.map_eq_some_iff.1 h
      obtain ⟨rfl, rfl⟩ : b :: u = before ∧ v = after := by simpa using hv
      simp [ih hu]

def removeAll (mark : Text) (text : Text) : Text :=
  if _hm : mark = [] then text
  else
    match _h : cut? mark text with
    | none => text
    | some (before, after) => before ++ removeAll mark after
termination_by text.length
decreasing_by
  have := congrArg List.length (cut?_append _h)
  have := List.length_pos_iff.2 _hm
  simp at *
  omega

/-- The ASCII space characters: tab, newline, form feed, carriage return and space. -/
def isSpace (b : Byte) : Bool := b == 9 || b == 10 || b == 12 || b == 13 || b == 32

def isDigit (b : Byte) : Bool := 48 ≤ b && b ≤ 57

def isLower (b : Byte) : Bool := 97 ≤ b && b ≤ 122

def isUpper (b : Byte) : Bool := 65 ≤ b && b ≤ 90

def isWord (b : Byte) : Bool := isDigit b || isUpper b || isLower b || b == 95

def toLower (t : Text) : Text := t.map fun b => if isUpper b then b + 32 else b

def toUpper (t : Text) : Text := t.map fun b => if isLower b then b - 32 else b

end Text

end BuiltinCatalog
