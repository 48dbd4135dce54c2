import BuiltinCatalog.Manifest.SourceTable
import BuiltinCatalog.Proofs.Json.Written
import BuiltinCatalog.Proofs.Text.Valid

namespace BuiltinCatalog

open Text
open BuiltinCatalog.Manifest (isNameStart isNamePart)

inductive Lexeme where
  | name (cs : List Char)
  | number (cs : List Char)
  | text (value : Text)
  | raw (value : Text)
  | rune
  | mark (c : Char)
  deriving DecidableEq, Repr

namespace Lexeme

/-- The escapes that give a number: a byte in two hexadecimal or three octal digits, or a character. -/
inductive Code where
  | byte
  | octal
  | short
  | long
  deriving DecidableEq, Repr

namespace Code

def width : Code → Nat
  | .byte => 2
  | .octal => 3
  | .short => 4
  | .long => 8

def character? (n : Nat) : Option Text := if n.isValidChar then some (encode (Char.ofNat n)) else none

def meaning? (digits : Text) : Code → Option Text
  | .byte => (ofHex? digits).map fun n => [UInt8.ofNat n]
  | .octal => (digits? 8 digits).bind fun n => if n < 256 then some [UInt8.ofNat n] else none
  | .short | .long => (ofHex? digits).bind character?

def start? (c : Char) : Option (Code × Text) :=
  if c = 'x' then some (.byte, [])
  else if c = 'u' then some (.short, [])
  else if c = 'U' then some (.long, [])
  else if '0' ≤ c ∧ c ≤ '7' then some (.octal, encode c)
  else none

end Code

def letterValue? (c : Char) : Option Byte :=
  [('a', (7 : Byte)), ('b', 8), ('t', 9), ('n', 10), ('v', 11), ('f', 12), ('r', 13), (Char.ofNat 34, 34),
    (Char.ofNat 92, 92)].lookup c

/-- Where in a source file the reading stands. -/
inductive State where
  | gap
  | slash
  | line
  | block (star : Bool)
  | name (cs : List Char)
  | number (cs : List Char)
  | quoted (value : Text)
  | escape (value : Text)
  | code (value : Text) (code : Code) (digits : Text)
  | raw (value : Text)
  | rune (escaped : Bool)
  deriving DecidableEq, Repr

def isLayout (c : Char) : Bool := c == '\t' || c == '\n' || c == '\r' || c == ' '

def enter (c : Char) : List Lexeme × State :=
  if isNameStart c then ([], .name [c])
  else if c.isDigit then ([], .number [c])
  else if isLayout c then ([], .gap)
  else if c = '/' then ([], .slash)
  else if c.toNat = 34 then ([], .quoted [])
  else if c.toNat = 39 then ([], .rune false)
  else if c.toNat = 96 then ([], .raw [])
  else ([.mark c], .gap)

def enterAfter (l : Lexeme) (c : Char) : List Lexeme × State := (l :: (enter c).1, (enter c).2)

/-- The lexemes that a character completes, and where it leads. Literals in quotes stand on one line, and an escape
in them must be a known one. -/
def step : State → Char → Option (List Lexeme × State)
  | .gap, c => some (enter c)
  | .slash, c =>
    some (if c = '/' then ([], .line) else if c = '*' then ([], .block false) else enterAfter (.mark '/') c)
  | .line, c => some ([], if c = '\n' then .gap else .line)
  | .block star, c => some ([], if star ∧ c = '/' then .gap else .block (c == '*'))
  | .name cs, c => some (if isNamePart c then ([], .name (cs ++ [c])) else enterAfter (.name cs) c)
  | .number cs, c =>
    some (if isNamePart c || c == '.' then ([], .number (cs ++ [c])) else enterAfter (.number cs) c)
  | .quoted value, c =>
    if c = '\n' then none
    else if c.toNat = 34 then some ([.text value], .gap)
    else if c.toNat = 92 then some ([], .escape value)
    else some ([], .quoted (value ++ encode c))
  | .escape value, c =>
    match letterValue? c, Code.start? c with
    | some b, _ => some ([], .quoted (value ++ [b]))
    | none, some (code, digits) => some ([], .code value code digits)
    | none, none => none
  | .code value code digits, c =>
    let digits := digits ++ encode c
    if digits.length < code.width then some ([], .code value code digits)
    else (code.meaning? digits).map fun u => ([], .quoted (value ++ u))
  | .raw value, c =>
    some (if c.toNat = 96 then ([.raw value], .gap) else ([], .raw (if c = '\r' then value else value ++ encode c)))
  | .rune escaped, c =>
    if c = '\n' then none
    else if escaped then some ([], .rune false)
    else if c.toNat = 39 then some ([.rune], .gap)
    else some ([], .rune (c.toNat == 92))

def finish? : State → Option (List Lexeme)
  | .gap | .line => some []
  | .slash => some [.mark '/']
  | .name cs => some [.name cs]
  | .number cs => some [.number cs]
  | _ => none

def run (s : State) : List Glyph → Option (List Lexeme × State)
  | [] => some ([], s)
  | .stray _ :: _ => none
  | .char c :: gs => do
    let (ls, s) ← step s c
    let (more, s) ← run s gs
    return (ls ++ more, s)

/-- The lexemes of a source file, which must be valid UTF-8. -/
def read? (t : Text) : Option (List Lexeme) := do
  let (ls, s) ← run .gap (glyphs t)
  return ls ++ (← finish? s)

/-- The values of the text literals. -/
def texts (ls : List Lexeme) : List Text :=
  ls.filterMap fun
    | .text value => some value
    | _ => none

/-- What stands after a name and a colon. -/
def fieldValues (name : List Char) : List Lexeme → List Lexeme
  | [] => []
  | l :: ls =>
    match l, ls with
    | .name cs, .mark c :: value :: _ =>
      if cs = name ∧ c = ':' then value :: fieldValues name ls else fieldValues name ls
    | _, _ => fieldValues name ls

/-- Reading a valid text leads from one state to another and completes the given lexemes. -/
def Reads (t : Text) (s : State) (ls : List Lexeme) (s' : State) : Prop :=
  ∃ cs, t = ofChars cs ∧ run s (cs.map .char) = some (ls, s')

variable {t u value : Text} {s s' s'' : State} {ls ms : List Lexeme} {c : Char}

theorem run_append {gs hs : List Glyph} (h : run s gs = some (ls, s')) (h' : run s' hs = some (ms, s'')) :
    run s (gs ++ hs) = some (ls ++ ms, s'') := by
  induction gs generalizing s ls with
  | nil =>
      obtain ⟨rfl, rfl⟩ := Prod.mk.inj (Option.some.inj h)
      exact h'
  | cons g gs ih =>
      cases g with
      | stray b => cases h
      | char c =>
          obtain ⟨⟨l, s₁⟩, hstep, h⟩ := Option.bind_eq_some_iff.1 h
          obtain ⟨⟨more, s₂⟩, hrun, h⟩ := Option.bind_eq_some_iff.1 h
          obtain ⟨rfl, rfl⟩ := Prod.mk.inj (Option.some.inj h)
          rw [List.cons_append, run, hstep]
          simp only [Option.bind_eq_bind, Option.bind_some, ih hrun, List.append_assoc]
          rfl

theorem Reads.append (h : Reads t s ls s') (h' : Reads u s' ms s'') : Reads (t ++ u) s (ls ++ ms) s'' := by
  obtain ⟨cs, rfl, hcs⟩ := h
  obtain ⟨ds, rfl, hds⟩ := h'
  exact ⟨cs ++ ds, (ofChars_append cs ds).symm, by rw [List.map_append, run_append hcs hds]⟩

theorem reads_nil (s : State) : Reads [] s [] s := ⟨[], rfl, rfl⟩

theorem reads_string {w : String} (h : run s (w.toList.map .char) = some (ls, s')) : Reads w s ls s' :=
  ⟨w.toList, rfl, h⟩

theorem reads_char (h : step s c = some (ls, s')) : Reads (encode c) s ls s' := by
  refine ⟨[c], by simp [ofChars], ?_⟩
  simp [run, h]

theorem reads_cons (h : step s c = some (ls, s')) (h' : Reads t s' ms s'') :
    Reads (encode c ++ t) s (ls ++ ms) s'' := (reads_char h).append h'

theorem read?_eq_some (h : Reads t .gap ls s) (hs : finish? s = some ms) : read? t = some (ls ++ ms) := by
  obtain ⟨cs, rfl, hcs⟩ := h
  simp [read?, hcs, hs]

theorem run_line {cs : List Char} (h : '\n' ∉ cs) : run .line (cs.map .char) = some ([], .line) := by
  induction cs with
  | nil => rfl
  | cons c cs ih =>
      obtain ⟨hc, hcs⟩ : '\n' ≠ c ∧ '\n' ∉ cs := by simpa using h
      simp [run, step, hc.symm, ih hcs]

theorem newline_not_mem {cs : List Char} (h : 10 ∉ ofChars cs) : '\n' ∉ cs := by
  intro hmem
  exact h (List.mem_flatMap.2 ⟨'\n', hmem, by decide⟩)

theorem reads_line (hvalid : IsUtf8 t) (hline : 10 ∉ t) : Reads t .line [] .line := by
  obtain ⟨cs, rfl⟩ := isUtf8_iff.1 hvalid
  exact ⟨cs, rfl, run_line (newline_not_mem hline)⟩

theorem run_name {cs : List Char} (h : ∀ c ∈ cs, isNamePart c = true) (before : List Char) :
    run (.name before) (cs.map .char) = some ([], .name (before ++ cs)) := by
  induction cs generalizing before with
  | nil => simp [run]
  | cons c cs ih =>
      obtain ⟨hc, hcs⟩ := List.forall_mem_cons.1 h
      simp [run, step, hc, ih hcs]

theorem reads_name (h : Manifest.isName t = true) : ∃ cs, Reads t .gap [] (.name cs) := by
  rw [← ofGlyphs_glyphs t]
  unfold Manifest.isName at h
  split at h
  next c rest hglyphs =>
    simp only [Bool.and_eq_true, List.all_eq_true] at h
    obtain ⟨⟨hc, hrest⟩, -⟩ := h
    obtain ⟨cs, rfl⟩ : ∃ cs : List Char, rest = cs.map .char := by
      refine ⟨rest.map Glyph.seen, ?_⟩
      rw [List.map_map]
      refine (List.map_id rest).symm.trans (List.map_congr_left fun g hg => ?_)
      cases g with
      | char d => rfl
      | stray b => cases hrest _ hg
    have hcs : ∀ d ∈ cs, isNamePart d = true := fun d hd => hrest _ (List.mem_map_of_mem hd)
    refine ⟨c :: cs, c :: cs, ?_, ?_⟩
    · rw [hglyphs, ← List.map_cons, ofGlyphs, List.flatMap_map]
      rfl
    · have henter : enter c = ([], .name [c]) := by rw [enter, if_pos hc]
      simp [run, step, henter, run_name hcs]
  next => cases h

theorem run_code {code : Code} {digits : Text} {ds : List Char} (hds : ds ≠ [])
    (hascii : ∀ d ∈ ds, (encode d).length = 1) (hlen : digits.length + ds.length = code.width)
    (hmeaning : code.meaning? (digits ++ ofChars ds) = some u) :
    run (.code value code digits) (ds.map .char) = some ([], .quoted (value ++ u)) := by
  induction ds generalizing digits with
  | nil => exact absurd rfl hds
  | cons d ds ih =>
      obtain ⟨hd, hascii⟩ := List.forall_mem_cons.1 hascii
      rw [ofChars_cons, ← List.append_assoc] at hmeaning
      rw [List.length_cons] at hlen
      cases ds with
      | nil =>
          have hfull : ¬ (digits ++ encode d).length < code.width := by
            rw [List.length_append, hd]
            simp only [List.length_nil] at hlen
            omega
          rw [ofChars, List.flatMap_nil, List.append_nil] at hmeaning
          rw [List.map_cons, run]
          simp only [step, hfull, if_false, hmeaning, Option.map_some, Option.bind_eq_bind, Option.bind_some]
          rfl
      | cons e ds =>
          have hmore : (digits ++ encode d).length < code.width := by
            rw [List.length_append, hd]
            simp only [List.length_cons] at hlen
            omega
          have hrest : run (.code value code (digits ++ encode d)) ((e :: ds).map .char) =
              some ([], .quoted (value ++ u)) :=
            ih (by simp) hascii (by rw [List.length_append, hd]; omega) hmeaning
          rw [List.map_cons, run]
          simp only [step, hmore, if_true, Option.bind_eq_bind, Option.bind_some, hrest]
          rfl

theorem reads_hexNat {code : Code} {n : Nat} (hmeaning : code.meaning? (hexNat n code.width) = some u) :
    Reads (hexNat n code.width) (.code value code []) [] (.quoted (value ++ u)) := by
  have hascii := isAscii_hexNat n code.width
  have hchars := ofChars_ascii hascii
  refine ⟨(hexNat n code.width).map fun b => Char.ofNat b.toNat, hchars.symm, run_code ?_ ?_ ?_ ?_⟩
  · intro hnil
    have hlen := length_hexNat n code.width
    rw [List.map_eq_nil_iff.1 hnil] at hlen
    cases code <;> cases hlen
  · intro d hd
    obtain ⟨b, hb, rfl⟩ := List.mem_map.1 hd
    rw [encode_ascii (hascii b hb)]
    rfl
  · rw [List.length_map, length_hexNat, List.length_nil, Nat.zero_add]
  · rw [hchars, List.nil_append]
    exact hmeaning

theorem reads_escape (letter : Char) {code : Code} {n : Nat} (hletter : letterValue? letter = none)
    (hstart : Code.start? letter = some (code, [])) (hmeaning : code.meaning? (hexNat n code.width) = some u) :
    Reads (92 :: (encode letter ++ hexNat n code.width)) (.quoted value) [] (.quoted (value ++ u)) := by
  have hslash : step (.quoted value) (Char.ofNat 92) = some ([], .escape value) := rfl
  have hcode : step (.escape value) letter = some ([], .code value code []) := by
    simp only [step, hletter, hstart]
  exact reads_cons hslash (reads_cons hcode (reads_hexNat hmeaning))

theorem reads_letter (letter : Char) {b : Byte} (h : letterValue? letter = some b) :
    Reads (92 :: encode letter) (.quoted value) [] (.quoted (value ++ [b])) := by
  have hslash : step (.quoted value) (Char.ofNat 92) = some ([], .escape value) := rfl
  have hletter : step (.escape value) letter = some ([], .quoted (value ++ [b])) := by simp only [step, h]
  exact reads_cons hslash (reads_char hletter)

theorem eq_ofNat {n : Nat} (h : c.toNat = n) : c = Char.ofNat n := by rw [← h, Char.ofNat_toNat]

theorem encode_toNat (h : c.toNat < 128) : encode c = [UInt8.ofNat c.toNat] := by
  rw [← encode_one h, Char.ofNat_toNat]

theorem character?_toNat (c : Char) : Code.character? c.toNat = some (encode c) := by
  have hvalid : c.toNat.isValidChar := c.valid
  rw [Code.character?, if_pos hvalid, Char.ofNat_toNat]

theorem reads_controlLetter {b : Byte} (h : controlLetter? c = some b) :
    Reads [92, b] (.quoted value) [] (.quoted (value ++ encode c)) := by
  have hcontrol {letter : Char} {n : Nat} (hc : c.toNat = n) (hb : some (letter.toUInt8) = some b)
      (hletter : encode letter = [letter.toUInt8]) (hvalue : letterValue? letter = some (UInt8.ofNat n)) (hn : n < 128) :
      Reads [92, b] (.quoted value) [] (.quoted (value ++ encode c)) := by
    obtain rfl := Option.some.inj hb
    rw [eq_ofNat hc, encode_one hn, ← hletter]
    exact reads_letter letter hvalue
  unfold controlLetter? at h
  split at h
  next hc => exact hcontrol hc h (by decide) (by decide) (by decide)
  next hc => exact hcontrol hc h (by decide) (by decide) (by decide)
  next hc => exact hcontrol hc h (by decide) (by decide) (by decide)
  next hc => exact hcontrol hc h (by decide) (by decide) (by decide)
  next hc => exact hcontrol hc h (by decide) (by decide) (by decide)
  next hc => exact hcontrol hc h (by decide) (by decide) (by decide)
  next hc => exact hcontrol hc h (by decide) (by decide) (by decide)
  next => cases h

theorem reads_quotedChar (c : Char) (value : Text) :
    Reads (quotedChar 34 c) (.quoted value) [] (.quoted (value ++ encode c)) := by
  have hvalid : c.toNat < 0xD800 ∨ (0xDFFF < c.toNat ∧ c.toNat < 0x110000) := c.valid
  unfold quotedChar
  split
  next hself =>
    -- the quote and the backslash stand for themselves after a backslash
    rcases hself with hself | hself
    · obtain rfl := eq_ofNat hself
      exact reads_letter (Char.ofNat 34) rfl
    · obtain rfl := eq_ofNat hself
      exact reads_letter (Char.ofNat 92) rfl
  next hself =>
    obtain ⟨hquote, hslash⟩ : c.toNat ≠ 34 ∧ c.toNat ≠ 92 := not_or.1 hself
    split
    next hprint =>
      have hnewline : c ≠ '\n' := by
        rintro rfl
        exact absurd hprint (by decide)
      apply reads_char
      rw [step, if_neg hnewline, if_neg hquote, if_neg hslash]
    next =>
      split
      next b hb => exact reads_controlLetter hb
      next =>
        split
        next hlow =>
          have hmeaning : Code.byte.meaning? (hexNat c.toNat 2) = some (encode c) := by
            rw [Code.meaning?, ofHex?_hexNat, Nat.mod_eq_of_lt (by omega), encode_toNat hlow]
            rfl
          exact reads_escape 'x' rfl rfl hmeaning
        next =>
          split
          next hshort =>
            have hmeaning : Code.short.meaning? (hexNat c.toNat 4) = some (encode c) := by
              rw [Code.meaning?, ofHex?_hexNat, Nat.mod_eq_of_lt (by omega)]
              exact character?_toNat c
            exact reads_escape 'u' rfl rfl hmeaning
          next =>
            have hmeaning : Code.long.meaning? (hexNat c.toNat 8) = some (encode c) := by
              rw [Code.meaning?, ofHex?_hexNat, Nat.mod_eq_of_lt (by omega)]
              exact character?_toNat c
            exact reads_escape 'U' rfl rfl hmeaning

theorem reads_quotedGlyph (g : Glyph) (value : Text) :
    Reads (quotedGlyph g) (.quoted value) [] (.quoted (value ++ g.bytes)) := by
  cases g with
  | char c => exact reads_quotedChar c value
  | stray b =>
      have hmeaning : Code.byte.meaning? (hexNat b.toNat 2) = some [b] := by
        have hlt := b.toNat_lt
        rw [Code.meaning?, ofHex?_hexNat, Nat.mod_eq_of_lt (by omega), Option.map_some, UInt8.ofNat_toNat]
      exact reads_escape 'x' rfl rfl hmeaning

theorem reads_flatMap_quotedGlyph (gs : List Glyph) (value : Text) :
    Reads (gs.flatMap quotedGlyph) (.quoted value) [] (.quoted (value ++ ofGlyphs gs)) := by
  induction gs generalizing value with
  | nil =>
      rw [ofGlyphs, List.flatMap_nil, List.flatMap_nil, List.append_nil]
      exact reads_nil _
  | cons g gs ih =>
      have hrest := ih (value ++ g.bytes)
      rw [List.append_assoc] at hrest
      rw [ofGlyphs, List.flatMap_cons, List.flatMap_cons]
      exact (reads_quotedGlyph g value).append hrest

theorem reads_quoted (t : Text) : Reads (quoted t) .gap [.text t] .gap := by
  have hopen : Reads [34] .gap [] (.quoted []) := reads_char (c := Char.ofNat 34) (by decide)
  have hclose : Reads [34] (.quoted t) [.text t] .gap := reads_char (c := Char.ofNat 34) rfl
  have hbody := reads_flatMap_quotedGlyph (glyphs t) []
  rw [ofGlyphs_glyphs, List.nil_append] at hbody
  exact (hopen.append hbody).append hclose

end Lexeme

end BuiltinCatalog
