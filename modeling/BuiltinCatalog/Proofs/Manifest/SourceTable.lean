import BuiltinCatalog.Proofs.Manifest.Header
import BuiltinCatalog.Proofs.Manifest.Lexeme
import Mathlib.Data.List.SplitBy

namespace BuiltinCatalog

open Text

namespace Text

variable {t : Text}

theorem filter_ofChars {b : Byte} (hb : IsAscii b) (cs : List Char) :
    (ofChars cs).filter (· != b) = ofChars (cs.filter (· != Char.ofNat b.toNat)) := by
  induction cs with
  | nil => rfl
  | cons c cs ih =>
      rw [ofChars_cons, List.filter_append, ih]
      by_cases hc : c = Char.ofNat b.toNat
      · have hnone : (encode c).filter (· != b) = [] := by
          rw [hc, encode_ascii hb]
          simp
        rw [hnone, List.nil_append, List.filter_cons_of_neg (by simp [hc])]
      · have hall : (encode c).filter (· != b) = encode c := by
          refine List.filter_eq_self.2 fun d hd => bne_iff_ne.2 ?_
          rintro rfl
          exact hc (encode_eq_of_mem hb hd)
        rw [hall, List.filter_cons_of_pos (by simp [hc]), ofChars_cons]

theorem isUtf8_filter {b : Byte} (hb : IsAscii b) (h : IsUtf8 t) : IsUtf8 (t.filter (· != b)) := by
  obtain ⟨cs, rfl⟩ := isUtf8_iff.1 h
  exact isUtf8_iff.2 ⟨_, filter_ofChars hb cs⟩

theorem isUtf8_trimRight (h : IsUtf8 t) : IsUtf8 (trimRight t) := by
  refine isUtf8_ofGlyphs fun g hg => ?_
  have hglyphs := (List.dropWhile_sublist _).subset (List.mem_reverse.1 hg)
  simpa using List.all_eq_true.1 h g (List.mem_reverse.1 hglyphs)

end Text

namespace Manifest

open Lexeme

variable {m : Manifest} {package name out o t : Text} {s : Lexeme.State}

theorem isUtf8_of_isCommentText (h : isCommentText t = true) : Text.IsUtf8 t := by
  rw [isCommentText, List.all_eq_true] at h
  refine List.all_eq_true.2 fun g hg => ?_
  cases g with
  | char c => rfl
  | stray b => cases h _ hg

theorem isUtf8_of_headerComment? (h : headerComment? o = some t) : Text.IsUtf8 (notice o) := by
  simp only [headerComment?] at h
  split at h
  next => cases h
  next hcomment => exact isUtf8_of_isCommentText (by simpa using hcomment)

theorem reads_tidyComment (hmark : Text.ofString "//" <+: t) (hvalid : Text.IsUtf8 t) (hline : 10 ∉ t) :
    Reads (tidyComment t) .gap [] .line := by
  obtain ⟨v, rfl⟩ := hmark
  have hascii : ∀ b ∈ Text.ofString "/", IsAscii b := isAscii_of_all (by decide)
  have hsplit : (Text.ofString "//" ++ v).filter (· != 13) =
      Text.ofString "/" ++ '/'.toUInt8 :: v.filter (· != 13) := by
    rw [List.filter_append]
    rfl
  have hv : Text.IsUtf8 v := (isUtf8_ascii_append (isAscii_of_all (by decide))).1 hvalid
  have htext : Text.IsUtf8 (trimRight (v.filter (· != 13))) := isUtf8_trimRight (isUtf8_filter (by decide) hv)
  have hnewline : 10 ∉ trimRight (v.filter (· != 13)) := fun hmem =>
    hline (List.mem_append_right _ (List.mem_filter.1 (mem_of_mem_trimRight hmem)).1)
  have hopen : Reads "//" .gap [] .line := reads_string (by decide)
  rw [tidyComment, hsplit, trimRight_append hascii (by decide)]
  exact hopen.append (reads_line htext hnewline)

theorem reads_commentLine (hvalid : Text.IsUtf8 (notice o)) (hline : 10 ∉ o) :
    Reads (commentLine (notice o) ++ [10]) .gap [] .gap := by
  have hascii : ∀ b ∈ Text.ofString "// ", IsAscii b := isAscii_of_all (by decide)
  have hmark : 10 ∉ Text.ofString "// " := by decide
  have hcomment := reads_tidyComment (t := "// " ++ notice o) ⟨32 :: notice o, rfl⟩
    ((isUtf8_ascii_append hascii).2 hvalid) (List.not_mem_append hmark (newline_not_mem_notice hline))
  have hend : Reads [10] .line [] .gap := reads_char (c := '\n') rfl
  exact hcomment.append hend

theorem reads_headers {os headers : List Text} (h : ∀ o ∈ os, 10 ∉ o) (hheaders : os.mapM headerComment? = some headers) :
    Reads headers.flatten .gap [] .gap := by
  induction os generalizing headers with
  | nil =>
      obtain rfl := Option.some.inj hheaders
      exact reads_nil _
  | cons o os ih =>
      obtain ⟨ho, hos⟩ := List.forall_mem_cons.1 h
      rw [List.mapM_cons] at hheaders
      obtain ⟨t, ht, hheaders⟩ := Option.bind_eq_some_iff.1 hheaders
      obtain ⟨ts, hts, hheaders⟩ := Option.bind_eq_some_iff.1 hheaders
      obtain rfl := Option.some.inj hheaders
      have hline := reads_commentLine (isUtf8_of_headerComment? ht) ho
      rw [← headerComment?_eq_some ho ht] at hline
      rw [List.flatten_cons]
      exact hline.append (ih hos hts)

theorem run_block {cs : List Char} {star : Bool} (h : closesAtEnd star (cs.map .char) = true) :
    Lexeme.run (.block star) (cs.map .char) = some ([], .gap) := by
  induction cs generalizing star with
  | nil => cases h
  | cons c cs ih =>
      rw [List.map_cons, closesAtEnd] at h
      split at h
      next hend =>
        obtain rfl : cs = [] := by simpa using h
        have hend : star = true ∧ c = '/' := by simpa using hend
        simp [Lexeme.run, step, hend]
      next hinside =>
        have hinside : ¬ (star = true ∧ c = '/') := by simpa using hinside
        simp [Lexeme.run, step, hinside, ih h]

theorem reads_blockComment (hvalid : Text.IsUtf8 t) (h : isBlockComment t = true) : Reads t .gap [] .gap := by
  obtain ⟨cs, rfl⟩ := isUtf8_iff.1 hvalid
  rw [isBlockComment, glyphs_ofChars] at h
  rcases cs with - | ⟨a, - | ⟨b, cs⟩⟩
  · cases h
  · cases h
  · simp only [List.map_cons, Bool.and_eq_true, beq_iff_eq] at h
    obtain ⟨⟨rfl, rfl⟩, hclose⟩ := h
    refine ⟨'/' :: '*' :: cs, rfl, ?_⟩
    have hslash : step .gap '/' = some ([], .slash) := by decide
    have hstar : step .slash '*' = some ([], .block false) := by decide
    simp [Lexeme.run, hslash, hstar, run_block hclose]

theorem reads_remark {remark : Text} (h : remark? t = some remark) : Reads (remark ++ "\n\n") .gap [] .gap := by
  simp only [remark?] at h
  generalize (t.reverse.dropWhile isLayout).reverse = u at h
  split at h
  next => cases h
  next hcomment =>
    have hline : 10 ∉ u := fun hmem => hcomment (by simp [hmem])
    have hvalid : Text.IsUtf8 u := isUtf8_of_isCommentText (by
      rw [Bool.or_eq_true, not_or] at hcomment
      simpa using hcomment.2)
    split at h
    next hmark =>
      split at h
      next => cases h
      next =>
        obtain rfl := Option.some.inj h
        have hend : Reads "\n\n" .line [] .gap := reads_string (by rfl)
        exact (reads_tidyComment (List.isPrefixOf_iff_prefix.1 hmark) hvalid hline).append hend
    next =>
      split at h
      next hblock =>
        obtain rfl := Option.some.inj h
        have hend : Reads "\n\n" .gap [] .gap := reads_string (by rfl)
        simp only [Bool.and_eq_true] at hblock
        exact (reads_blockComment hvalid hblock.1.1).append hend
      next => cases h

theorem reads_clause {rest clause : Text} (h : clause? name rest = some clause) :
    ∃ cs, Reads (clause ++ "\n\n") .gap [.name cs] .gap := by
  unfold clause? at h
  split at h
  next => cases h
  next hname =>
    obtain ⟨cs, hcs⟩ := reads_name (t := name) (by simpa using hname)
    refine ⟨cs, ?_⟩
    split at h
    next =>
      obtain rfl := Option.some.inj h
      have hend : Reads "\n\n" (.name cs) [.name cs] .gap := reads_string (by rfl)
      exact hcs.append hend
    next =>
      obtain ⟨remark, hremark, rfl⟩ := Option.map_eq_some_iff.1 h
      have hspace : Reads " " (.name cs) [.name cs] .gap := reads_string (by rfl)
      rw [List.append_assoc]
      exact (hcs.append hspace).append (reads_remark hremark)

def word (w : String) : Lexeme := .name w.toList

def constantLexemes (m : Manifest) : List Lexeme :=
  [word "const", .mark '(', word "Framework", .mark '='] ++ [.text m.framework] ++
    [word "Namespace", .mark '='] ++ [.text m.scope] ++ [word "MacroPrefix", .mark '='] ++ [.text m.macroPrefix] ++
    [.mark ')']

def rowTypeLexemes : List Lexeme := [
  word "type", word "Builtin", word "struct", .mark '{', word "Object", word "string", word "Name", word "string",
  word "Parameters", .mark '[', .mark ']', word "string", word "Constructor", word "bool", word "Source",
  word "string", .mark '}']

def listed (parts : List (List Lexeme)) : List Lexeme := [Lexeme.mark ','].intercalate parts

def flag (b : Bool) : Lexeme := word (if b then "true" else "false")

namespace Column

def valueLexemes (f : Builtin) : Column → List Lexeme
  | .constructor => [flag f.isConstructor]
  | .name => [.text f.name]
  | .object => [.text f.object]
  | .parameters =>
    [.mark '[', .mark ']', word "string", .mark '{'] ++ listed (f.parameterList.map fun p => [.text p]) ++ [.mark '}']
  | .source => [.text f.source]

def lexemes (f : Builtin) (c : Column) : List Lexeme :=
  [word c.label, .mark ':'] ++ c.valueLexemes f ++ [.mark ',']

end Column

def rowLexemes (f : Builtin) : List Lexeme := [.mark '{'] ++ Column.all.flatMap (Column.lexemes f) ++ [.mark '}']

def tableLexemes (m : Manifest) : List Lexeme :=
  [word "var", word "Builtins", .mark '=', .mark '[', .mark ']', word "Builtin", .mark '{'] ++
    listed (m.functionList.map rowLexemes) ++ [.mark '}']

theorem reads_constants (m : Manifest) : Reads m.constants .gap m.constantLexemes .gap := by
  have hframework : Reads "const (\n\tFramework   = " .gap _ .gap := reads_string (by rfl)
  have hscope : Reads "\n\tNamespace   = " .gap _ .gap := reads_string (by rfl)
  have hprefix : Reads "\n\tMacroPrefix = " .gap _ .gap := reads_string (by rfl)
  have hend : Reads "\n)\n" .gap _ .gap := reads_string (by rfl)
  exact (((((hframework.append (reads_quoted m.framework)).append hscope).append (reads_quoted m.scope)).append
    hprefix).append (reads_quoted m.macroPrefix)).append hend

set_option maxRecDepth 1024 in
theorem reads_rowType : Reads rowType .gap rowTypeLexemes .gap := by
  have hnote : Reads "// Builtin describes one function declared in a builtins source file.\n" .gap _ .gap :=
    reads_string (by rfl)
  have hopen : Reads "type Builtin struct \x7b\n" .gap _ .gap := reads_string (by rfl)
  have hobject : Reads "\tObject      string\n" .gap _ .gap := reads_string (by rfl)
  have hname : Reads "\tName        string\n" .gap _ .gap := reads_string (by rfl)
  have hparameters : Reads "\tParameters  []string\n" .gap _ .gap := reads_string (by rfl)
  have hconstructor : Reads "\tConstructor bool\n" .gap _ .gap := reads_string (by rfl)
  have hsource : Reads "\tSource      string\n" .gap _ .gap := reads_string (by rfl)
  have hclose : Reads "\x7d\n" .gap _ .gap := reads_string (by rfl)
  exact ((((((hnote.append hopen).append hobject).append hname).append hparameters).append hconstructor).append
    hsource).append hclose

theorem reads_listed {α : Type} {write : α → Text} {lexemes : α → List Lexeme}
    (h : ∀ a, Reads (write a) .gap (lexemes a) .gap) (as : List α) :
    Reads ((", " : Text).intercalate (as.map write)) .gap (listed (as.map lexemes)) .gap := by
  have hcomma : Reads ", " .gap [.mark ','] .gap := reads_string (by rfl)
  induction as with
  | nil => exact reads_nil _
  | cons a as ih =>
      cases as with
      | nil =>
          rw [List.map_singleton, List.map_singleton, listed, List.intercalate_singleton, List.intercalate_singleton]
          exact h a
      | cons b as =>
          rw [List.map_cons, List.map_cons] at ih
          rw [List.map_cons, List.map_cons, List.map_cons, List.map_cons, listed, List.intercalate_cons_cons,
            List.intercalate_cons_cons, ← listed]
          exact ((h a).append hcomma).append ih

theorem reads_flatMap {α : Type} {write : α → Text} {lexemes : α → List Lexeme}
    (h : ∀ a, Reads (write a) .gap (lexemes a) .gap) (as : List α) :
    Reads (as.flatMap write) .gap (as.flatMap lexemes) .gap := by
  induction as with
  | nil => exact reads_nil _
  | cons a as ih =>
      rw [List.flatMap_cons, List.flatMap_cons]
      exact (h a).append ih

theorem reads_padding (n : Nat) : Reads (List.replicate n 32) .gap [] .gap := by
  induction n with
  | zero => exact reads_nil _
  | succ n ih =>
      have hspace : Reads [32] .gap [] .gap := reads_char (c := ' ') rfl
      exact hspace.append ih

namespace Column

theorem reads_label (c : Column) :
    Reads (Text.ofString "\t" ++ Text.ofString c.label ++ ":") .gap [word c.label, .mark ':'] .gap := by
  cases c with
  | constructor => exact reads_string (w := "\tConstructor:") (by rfl)
  | name => exact reads_string (w := "\tName:") (by rfl)
  | object => exact reads_string (w := "\tObject:") (by rfl)
  | parameters => exact reads_string (w := "\tParameters:") (by rfl)
  | source => exact reads_string (w := "\tSource:") (by rfl)

theorem reads_value (f : Builtin) (c : Column) :
    Reads (c.value f ++ ",\n") .gap (c.valueLexemes f ++ [.mark ',']) .gap := by
  have hend : Reads ",\n" .gap [.mark ','] .gap := reads_string (by rfl)
  cases c with
  | constructor =>
      rw [value, valueLexemes]
      cases f.isConstructor with
      | true => exact reads_string (w := "true,\n") (by rfl)
      | false => exact reads_string (w := "false,\n") (by rfl)
  | name => exact (reads_quoted f.name).append hend
  | object => exact (reads_quoted f.object).append hend
  | parameters =>
      have hopen : Reads "[]string\x7b" .gap _ .gap := reads_string (by rfl)
      have hclose : Reads "\x7d" .gap [.mark '}'] .gap := reads_string (by rfl)
      exact ((hopen.append (reads_listed reads_quoted f.parameterList)).append hclose).append hend
  | source => exact (reads_quoted f.source).append hend

theorem reads_line (f : Builtin) (width : Nat) (c : Column) : Reads (c.line f width) .gap (c.lexemes f) .gap := by
  have hline := (c.reads_label.append (reads_padding (width - c.label.length))).append (c.reads_value f)
  rw [← List.append_assoc, ← List.append_assoc, List.append_nil] at hline
  exact hline

end Column

theorem reads_row (f : Builtin) : Reads (row f) .gap (rowLexemes f) .gap := by
  have hopen : Reads "\x7b\n" .gap [.mark '{'] .gap := reads_string (by rfl)
  have hclose : Reads "\x7d" .gap [.mark '}'] .gap := reads_string (by rfl)
  have hgroups := reads_flatMap (fun cs => reads_flatMap (Column.reads_line f (Column.width cs)) cs)
    (Column.all.splitBy fun c c' => c.isAligned f && c'.isAligned f)
  have hall (groups : List (List Column)) :
      groups.flatMap (List.flatMap (Column.lexemes f)) = groups.flatten.flatMap (Column.lexemes f) := by
    rw [← List.flatMap_id, List.flatMap_assoc]
    rfl
  rw [hall, List.flatten_splitBy] at hgroups
  exact (hopen.append hgroups).append hclose

set_option maxRecDepth 1024 in
theorem reads_table (m : Manifest) : Reads m.table .gap m.tableLexemes .gap := by
  have hnote : Reads "// Builtins lists every builtin function, sorted by name.\n" .gap _ .gap :=
    reads_string (by rfl)
  have hopen : Reads "var Builtins = []Builtin\x7b" .gap _ .gap := reads_string (by rfl)
  have hclose : Reads "\x7d\n" .gap _ .gap := reads_string (by rfl)
  exact ((hnote.append hopen).append (reads_listed reads_row m.functionList)).append hclose

set_option maxRecDepth 1024 in
/-- The lexemes of a source table are those of its declarations, whatever its header and its literals hold. -/
theorem read?_sourceTable (h : ∀ o ∈ m.copyrightList, 10 ∉ o) (hout : m.sourceTable? package = some out) :
    ∃ cs, Lexeme.read? out =
      some ([word "package"] ++ [.name cs] ++ m.constantLexemes ++ rowTypeLexemes ++ m.tableLexemes) := by
  obtain ⟨headers, hheaders, hout⟩ := Option.bind_eq_some_iff.1 hout
  obtain ⟨clause, hclause, hout⟩ := Option.bind_eq_some_iff.1 hout
  obtain rfl := Option.some.inj hout
  obtain ⟨cs, hcs⟩ := reads_clause hclause
  have hnote : Reads (note ++ "\n\npackage ") .gap [word "package"] .gap :=
    reads_string (w := "// Code generated by builtins; DO NOT EDIT.\n\npackage ") (by rfl)
  have hgap : Reads "\n" .gap [] .gap := reads_string (by rfl)
  have hall := (((((((reads_headers h hheaders).append hnote).append hcs).append
    (reads_constants m)).append hgap).append reads_rowType).append hgap).append (reads_table m)
  simp only [List.append_nil, List.nil_append, ← List.append_assoc] at hall
  exact ⟨cs, by rw [read?_eq_some hall rfl, List.append_nil]⟩

theorem texts_append (ls ms : List Lexeme) : texts (ls ++ ms) = texts ls ++ texts ms := List.filterMap_append

theorem texts_listed {α : Type} (lexemes : α → List Lexeme) (as : List α) :
    texts (listed (as.map lexemes)) = as.flatMap fun a => texts (lexemes a) := by
  induction as with
  | nil => rfl
  | cons a as ih =>
      cases as with
      | nil => simp [listed]
      | cons b as =>
          rw [List.map_cons, List.map_cons, listed, List.intercalate_cons_cons, ← listed, ← List.map_cons,
            texts_append, texts_append, ih, List.flatMap_cons, List.append_assoc]
          rfl

def rowTexts (f : Builtin) : List Text := f.name :: f.object :: (f.parameterList ++ [f.source])

theorem texts_rowLexemes (f : Builtin) : texts (rowLexemes f) = rowTexts f := by
  have hparameters : texts (listed (f.parameterList.map fun p => [.text p])) = f.parameterList := by
    rw [texts_listed]
    exact List.flatMap_singleton' _
  simp only [rowLexemes, Column.all, List.flatMap_cons, List.flatMap_nil, Column.lexemes, Column.valueLexemes,
    texts_append, hparameters]
  simp [texts, word, flag, rowTexts]

theorem texts_tableLexemes (m : Manifest) : texts m.tableLexemes = m.functionList.flatMap rowTexts := by
  simp only [tableLexemes, texts_append, texts_listed, texts_rowLexemes]
  simp [texts, word]

section Fields

variable {label cs ds : List Char} {ls : List Lexeme} {c : Char}

theorem fieldValues_mark : fieldValues label (.mark c :: ls) = fieldValues label ls := by simp [fieldValues]

theorem fieldValues_text : fieldValues label (.text t :: ls) = fieldValues label ls := by simp [fieldValues]

theorem fieldValues_name (h : cs ≠ label) : fieldValues label (.name cs :: ls) = fieldValues label ls := by
  rcases ls with - | ⟨l, - | ⟨l', ls⟩⟩
  · simp [fieldValues]
  · simp [fieldValues]
  · cases l <;> simp [fieldValues, h]

theorem fieldValues_name_name :
    fieldValues label (.name cs :: .name ds :: ls) = fieldValues label (.name ds :: ls) := by
  rw [fieldValues]
  simp

theorem fieldValues_field {l : Lexeme} :
    fieldValues label (.name label :: .mark ':' :: l :: ls) = l :: fieldValues label (l :: ls) := by
  rw [fieldValues, if_pos ⟨rfl, rfl⟩, fieldValues_mark]

/-- Where each part adds its own fields, a list of parts adds them in order. -/
theorem fieldValues_listed {α : Type} {lexemes : α → List Lexeme} (values : α → List Lexeme)
    (h : ∀ a rest, fieldValues label (lexemes a ++ rest) = values a ++ fieldValues label rest) (as : List α)
    (rest : List Lexeme) :
    fieldValues label (listed (as.map lexemes) ++ rest) = as.flatMap values ++ fieldValues label rest := by
  induction as with
  | nil => rfl
  | cons a as ih =>
      cases as with
      | nil => simp [listed, h]
      | cons b as =>
          rw [List.map_cons, List.map_cons, listed, List.intercalate_cons_cons, ← listed, ← List.map_cons,
            List.append_assoc, List.append_assoc, h, List.singleton_append, fieldValues_mark, ih,
            List.flatMap_cons (x := a), List.append_assoc]

end Fields

theorem fieldValues_rowLexemes (f : Builtin) (rest : List Lexeme) :
    fieldValues "Constructor".toList (rowLexemes f ++ rest) =
      [flag f.isConstructor] ++ fieldValues "Constructor".toList rest := by
  have hflag : (if f.isConstructor then "true" else "false").toList ≠ "Constructor".toList := by
    cases f.isConstructor <;> decide
  have hparameters (rest : List Lexeme) :
      fieldValues "Constructor".toList (listed (f.parameterList.map fun p => [.text p]) ++ rest) =
        fieldValues "Constructor".toList rest := by
    rw [fieldValues_listed (fun _ => []) fun p rest => fieldValues_text]
    simp
  simp only [rowLexemes, Column.all, List.flatMap_cons, List.flatMap_nil, Column.lexemes, Column.valueLexemes,
    Column.label, word, flag, List.append_assoc, List.cons_append, List.nil_append, fieldValues_mark,
    fieldValues_text, fieldValues_field, fieldValues_name hflag, hparameters,
    fieldValues_name (show "Name".toList ≠ "Constructor".toList by decide),
    fieldValues_name (show "Object".toList ≠ "Constructor".toList by decide),
    fieldValues_name (show "Parameters".toList ≠ "Constructor".toList by decide),
    fieldValues_name (show "string".toList ≠ "Constructor".toList by decide),
    fieldValues_name (show "Source".toList ≠ "Constructor".toList by decide)]

theorem fieldValues_tableLexemes (m : Manifest) :
    fieldValues "Constructor".toList m.tableLexemes = m.functionList.map fun f => flag f.isConstructor := by
  have hrows := fieldValues_listed _ fieldValues_rowLexemes m.functionList [.mark '}']
  rw [tableLexemes, List.append_assoc]
  simp only [word, List.cons_append, List.nil_append, fieldValues_name_name, fieldValues_mark, hrows,
    fieldValues_name (show "Builtins".toList ≠ "Constructor".toList by decide),
    fieldValues_name (show "Builtin".toList ≠ "Constructor".toList by decide)]
  rw [fieldValues, List.append_nil, List.map_eq_flatMap]

/-- A source table holds its manifest's texts and flags. Read as a source file, its literals are the framework, the
namespace and the macro prefix, and then each function's name, object, parameters and source; each of them stands for
the manifest's own bytes. The flags of the rows are those of the functions. -/
theorem sourceTable_texts (h : ∀ o ∈ m.copyrightList, 10 ∉ o) (hout : m.sourceTable? package = some out) :
    ∃ ls, Lexeme.read? out = some ls ∧
      Lexeme.texts ls = m.framework :: m.scope :: m.macroPrefix ::
        m.functionList.flatMap (fun f => f.name :: f.object :: (f.parameterList ++ [f.source])) ∧
      Lexeme.fieldValues "Constructor".toList ls =
        m.functionList.map fun f => .name (if f.isConstructor then "true" else "false").toList := by
  obtain ⟨cs, hread⟩ := read?_sourceTable h hout
  refine ⟨_, hread, ?_, ?_⟩
  · simp only [texts_append, texts_tableLexemes]
    simp only [texts, constantLexemes, rowTypeLexemes, word]
    rfl
  · simp only [constantLexemes, rowTypeLexemes, word, List.cons_append, List.nil_append,
      fieldValues_name_name, fieldValues_mark, fieldValues_text, fieldValues_tableLexemes,
      fieldValues_name (show "const".toList ≠ "Constructor".toList by decide),
      fieldValues_name (show "Framework".toList ≠ "Constructor".toList by decide),
      fieldValues_name (show "Namespace".toList ≠ "Constructor".toList by decide),
      fieldValues_name (show "MacroPrefix".toList ≠ "Constructor".toList by decide),
      fieldValues_name (show "struct".toList ≠ "Constructor".toList by decide),
      fieldValues_name (show "Parameters".toList ≠ "Constructor".toList by decide),
      fieldValues_name (show "string".toList ≠ "Constructor".toList by decide)]
    rfl

namespace Sample

/-- Bytes that end literals, comments and lines elsewhere: quotes, a backslash, line ends, a NUL and stray bytes. -/
def awkward : Text := [34, 92, 10, 13, 0, 47, 47, 255, 96, 0xC3]

def manifest : Manifest where
  framework := "\"A\""
  scope := awkward
  macroPrefix := []
  copyrights := some ["\"quoted\" // */"]
  objects := none
  functions := some [
    { name := "Constructor: true", source := awkward, isConstructor := true, parameters := some [awkward, ", "] },
    { name := awkward, source := "\\\"", object := "o" }]

theorem manifest_texts : (∀ o ∈ manifest.copyrightList, 10 ∉ o) ∧
    ∃ out ls, manifest.sourceTable? "Constructor" = some out ∧ Lexeme.read? out = some ls ∧
      Lexeme.texts ls = [Text.ofString "\"A\"", awkward, [], "Constructor: true", [], awkward, ", ", awkward, awkward, "o",
        "\\\""] ∧
      Lexeme.fieldValues "Constructor".toList ls = [.name "true".toList, .name "false".toList] := by
  have hlines : ∀ o ∈ manifest.copyrightList, 10 ∉ o := by decide
  have hsome : (manifest.sourceTable? "Constructor").isSome = true := by decide +kernel
  obtain ⟨out, hout⟩ := Option.isSome_iff_exists.1 hsome
  obtain ⟨ls, hread, htexts, hflags⟩ := sourceTable_texts hlines hout
  exact ⟨hlines, out, ls, hout, hread, htexts, hflags⟩

end Sample

end Manifest

end BuiltinCatalog
