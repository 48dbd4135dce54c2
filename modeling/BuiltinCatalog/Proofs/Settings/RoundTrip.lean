import BuiltinCatalog.Command.Run
import BuiltinCatalog.Proofs.Files.ReadBack
import BuiltinCatalog.Proofs.Yaml.Outline
import BuiltinCatalog.Proofs.Yaml.Record
import BuiltinCatalog.Settings.Read
import BuiltinCatalog.Settings.Write
import Mathlib.Data.Set.List

namespace BuiltinCatalog

/-- Whether a text has only printable ASCII characters. -/
def Text.IsPrintable (t : Text) : Prop := ∀ b ∈ t, 0x20 ≤ b ∧ b ≤ 0x7E

instance (t : Text) : Decidable t.IsPrintable :=
  decidable_of_iff (t.all (fun b => 0x20 ≤ b ∧ b ≤ 0x7E) = true) (by simp [Text.IsPrintable])

namespace Yaml

theorem isInline_of_toNat {c : Char} (h : 0x20 ≤ c.toNat) (h' : c.toNat ≤ 0x7E) : IsInline c := by
  have hne (n : Nat) (hn : n < 0x20 ∨ 0x7E < n) : c.toNat ≠ n := by omega
  constructor
  · simp [Style.isPrintable, h, h']
  · simp [Style.isAnyBreak, foldBreak, isBreak, ← Char.toNat_inj, hne]

theorem scalar_ofChars (indent : Nat) (cs : List Char) :
    Write.scalar indent (Text.ofChars cs) =
      Text.ofChars (Write.styled indent (Style.readsAsText (Text.ofChars cs)) cs) := by
  unfold Write.scalar
  split
  next cs' h =>
    obtain rfl := Option.some.inj (h.symm.trans (ofUtf8?_ofChars cs))
    rfl
  next h => cases h.symm.trans (ofUtf8?_ofChars cs)

/-- A text as a word. It is written like this, and read as the text. -/
structure TextWord extends Word where
  written_eq : ∀ indent, Write.scalar indent toWord.value = Text.ofChars (written ++ ['\n'])
  means : Meaning.ofScalar? [] quoted toWord.value = some (.text toWord.value)

namespace TextWord

def value (w : TextWord) : Text := w.toWord.value

theorem exists_of_isInline {cs : List Char} (h : ∀ c ∈ cs, IsInline c) : ∃ w : TextWord, w.value = Text.ofChars cs := by
  have hwanted : Style.readsAsText (Text.ofChars cs) = true → cs ≠ [] := by
    rintro hwanted rfl
    exact absurd hwanted (by decide)
  obtain ⟨w, quoted, hspells, hquoted, hstyled⟩ := Spells.exists_styled h hwanted
  refine ⟨⟨⟨w, quoted, cs, hspells⟩, fun indent => ?_, ?_⟩, rfl⟩
  · rw [Word.value, scalar_ofChars, hstyled]
  · cases quoted with
    | true => rfl
    | false =>
        -- a plain text is none that would be read as something else
        have hkind : Kind.ofText true (Text.ofChars cs) = .text := by
          have hwanted := hquoted rfl
          simp only [Style.readsAsText, Bool.and_eq_true, beq_iff_eq] at hwanted
          exact hwanted.1.1
        simp [Meaning.ofScalar?, Word.value, hkind, Meaning.ofKind]

instance : CanLift Text TextWord value Text.IsPrintable where
  prf t ht := by
    have hrange : ∀ b ∈ t, 0x20 ≤ b.toNat ∧ b.toNat ≤ 0x7E := by
      intro b hb
      exact ⟨UInt8.le_iff_toNat_le.1 (ht b hb).1, UInt8.le_iff_toNat_le.1 (ht b hb).2⟩
    rw [← Text.ofChars_ascii fun b hb => Nat.lt_of_le_of_lt (hrange b hb).2 (by decide)]
    refine exists_of_isInline fun c hc => ?_
    obtain ⟨b, hb, rfl⟩ := List.mem_map.1 hc
    obtain ⟨hlower, hupper⟩ := hrange b hb
    have hnat : (Char.ofNat b.toNat).toNat = b.toNat := Text.toNat_ofNat_of_valid (Or.inl (by omega))
    exact isInline_of_toNat (by omega) (by omega)

variable {d : Document}

theorem text?_node (w : TextWord) : d.text? w.node = some (some w.value) := Document.text?_scalar w.means

theorem readText_node (w : TextWord) (old : Text) : d.readText w.node old = some w.value := by
  rw [Document.readText, text?_node]
  rfl

theorem readTexts_ofWords (n : Nat) (ws : List TextWord) :
    d.readTexts (Value.ofWords n (ws.map toWord)).node = some (ws.map value) := by
  have hread (items : List Node) :
      d.readTexts (.sequence items) = (items.mapM d.text?).bind fun ts => some ts.reduceOption := rfl
  have htexts : ((ws.map toWord).map Word.node).mapM d.text? = some ((ws.map value).map some) := by
    induction ws with
    | nil => rfl
    | cons w ws ih =>
        simp only [List.map_cons, List.mapM_cons, text?_node, ih]
        rfl
  have hsome : ((ws.map value).map some).reduceOption = ws.map value := List.filterMap_map.trans List.filterMap_some
  rw [Value.node_ofWords, hread, htexts, Option.bind_some, hsome]

end TextWord

def flag (b : Bool) : Word :=
  if b then ⟨"true".toList, false, "true".toList, .plain (by decide)⟩
  else ⟨"false".toList, false, "false".toList, .plain (by decide)⟩

theorem readBool_flag (d : Document) (b old : Bool) : d.readBool (flag b).node old = some b := by
  cases b <;> rfl

end Yaml

namespace Settings

open Yaml Scanner

section Write

variable {name : String} (h : IsKey name.toList)

theorem writeText_eq (w : TextWord) :
    writeText name w.value = Text.ofChars (Outline.row (⟨name.toList, h⟩, Value.ofWord 4 w.toWord)).1 := by
  have hwritten : writeText name w.value = Text.ofChars "    ".toList ++ Text.ofChars name.toList ++
      Text.ofChars ": ".toList ++ Write.scalar 8 w.value := rfl
  rw [hwritten, TextWord.value, w.written_eq, ← Text.ofChars_append, ← Text.ofChars_append, ← Text.ofChars_append]
  simp [Outline.row, Value.ofWord, Write.spaces]

theorem writeBool_eq (b : Bool) :
    writeBool name b = Text.ofChars (Outline.row (⟨name.toList, h⟩, Value.ofWord 4 (flag b))).1 := by
  have hwritten : writeBool name b = Text.ofChars "    ".toList ++ Text.ofChars name.toList ++
      Text.ofChars (if b then ": true\n" else ": false\n").toList := by cases b <;> rfl
  rw [hwritten, ← Text.ofChars_append, ← Text.ofChars_append]
  cases b <;> simp [Outline.row, Value.ofWord, Write.spaces, flag]

theorem writeItem_eq (w : TextWord) : writeItem w.value = Text.ofChars (Word.row 8 w.toWord).1 := by
  have hwritten : writeItem w.value = Text.ofChars "        - ".toList ++ Write.scalar 10 w.value := rfl
  rw [hwritten, TextWord.value, w.written_eq, ← Text.ofChars_append]
  simp [Word.row, Write.spaces]

theorem flatMap_writeItem (ws : List TextWord) :
    (ws.map TextWord.value).flatMap writeItem =
      Text.ofChars (blockText ((ws.map TextWord.toWord).map (Word.row 8))) := by
  induction ws with
  | nil => rfl
  | cons w ws ih =>
      rw [List.map_cons, List.flatMap_cons, ih, writeItem_eq, ← Text.ofChars_append]
      rfl

theorem writeTexts_eq (ws : List TextWord) :
    writeTexts name (ws.map TextWord.value) =
      Text.ofChars (Outline.row (⟨name.toList, h⟩, Value.ofWords 4 (ws.map TextWord.toWord))).1 := by
  cases ws with
  | nil =>
      have hwritten : writeTexts name [] =
          Text.ofChars "    ".toList ++ Text.ofChars name.toList ++ Text.ofChars ": []\n".toList := rfl
      rw [List.map_nil, hwritten, ← Text.ofChars_append, ← Text.ofChars_append]
      simp [Outline.row, Value.ofWords, Write.spaces]
  | cons w ws =>
      have hwritten : writeTexts name ((w :: ws).map TextWord.value) =
          Text.ofChars "    ".toList ++ Text.ofChars name.toList ++ Text.ofChars ":\n".toList ++
            ((w :: ws).map TextWord.value).flatMap writeItem := rfl
      rw [hwritten, flatMap_writeItem, ← Text.ofChars_append, ← Text.ofChars_append, ← Text.ofChars_append]
      simp [Outline.row, Value.ofWords, Write.spaces]

theorem ofChars_row_value {n : Nat} {o : Outline (n + 4)} (ho : o ≠ []) :
    Text.ofChars (Outline.row (⟨name.toList, h⟩, o.value ho)).1 =
      Text.ofChars (Write.spaces n ++ name.toList ++ [':', '\n']) ++ Text.ofChars o.written := by
  rw [← Text.ofChars_append]
  simp [Outline.row, Outline.value]

end Write

structure Sheet where
  framework : TextWord
  includes : List TextWord
  excludes : List TextWord
  format : TextWord
  path : TextWord
  packageName : TextWord
  enabled : Bool
  level : TextWord

namespace Sheet

def settings (s : Sheet) : Settings where
  extract := ⟨s.framework.value, s.includes.map TextWord.value, s.excludes.map TextWord.value⟩
  output := ⟨s.format.value, s.path.value, s.packageName.value⟩
  cache := ⟨s.enabled⟩
  logging := ⟨s.level.value⟩

def extract (s : Sheet) : Outline 4 := [
  (⟨"framework".toList, by decide⟩, .ofWord 4 s.framework.toWord),
  (⟨"includes".toList, by decide⟩, .ofWords 4 (s.includes.map TextWord.toWord)),
  (⟨"excludes".toList, by decide⟩, .ofWords 4 (s.excludes.map TextWord.toWord))]

def output (s : Sheet) : Outline 4 := [
  (⟨"format".toList, by decide⟩, .ofWord 4 s.format.toWord),
  (⟨"path".toList, by decide⟩, .ofWord 4 s.path.toWord),
  (⟨"package_name".toList, by decide⟩, .ofWord 4 s.packageName.toWord)]

def cache (s : Sheet) : Outline 4 := [(⟨"enabled".toList, by decide⟩, .ofWord 4 (flag s.enabled))]

def logging (s : Sheet) : Outline 4 := [(⟨"level".toList, by decide⟩, .ofWord 4 s.level.toWord)]

theorem extract_ne_nil (s : Sheet) : s.extract ≠ [] := List.cons_ne_nil _ _

theorem output_ne_nil (s : Sheet) : s.output ≠ [] := List.cons_ne_nil _ _

theorem cache_ne_nil (s : Sheet) : s.cache ≠ [] := List.cons_ne_nil _ _

theorem logging_ne_nil (s : Sheet) : s.logging ≠ [] := List.cons_ne_nil _ _

def outline (s : Sheet) : Outline 0 := [
  (⟨"extract".toList, by decide⟩, s.extract.value s.extract_ne_nil),
  (⟨"output".toList, by decide⟩, s.output.value s.output_ne_nil),
  (⟨"cache".toList, by decide⟩, s.cache.value s.cache_ne_nil),
  (⟨"logging".toList, by decide⟩, s.logging.value s.logging_ne_nil)]

theorem outline_ne_nil (s : Sheet) : s.outline ≠ [] := List.cons_ne_nil _ _

theorem write_settings (s : Sheet) : s.settings.write = Text.ofChars s.outline.written := by
  have hextract : Text.ofChars s.extract.written = writeText "framework" s.framework.value ++
      (writeTexts "includes" (s.includes.map TextWord.value) ++
        writeTexts "excludes" (s.excludes.map TextWord.value)) := by
    simp only [extract, Outline.written_cons, Outline.written_nil, List.append_nil, Text.ofChars_append, ← writeText_eq,
      ← writeTexts_eq]
  have houtput : Text.ofChars s.output.written = writeText "format" s.format.value ++
      (writeText "path" s.path.value ++ writeText "package_name" s.packageName.value) := by
    simp only [output, Outline.written_cons, Outline.written_nil, List.append_nil, Text.ofChars_append, ← writeText_eq]
  have hcache : Text.ofChars s.cache.written = writeBool "enabled" s.enabled := by
    simp only [cache, Outline.written_cons, Outline.written_nil, List.append_nil, ← writeBool_eq]
  have hlogging : Text.ofChars s.logging.written = writeText "level" s.level.value := by
    simp only [logging, Outline.written_cons, Outline.written_nil, List.append_nil, ← writeText_eq]
  simp only [outline, Outline.written_cons, Outline.written_nil, List.append_nil, Text.ofChars_append,
    ofChars_row_value, hextract, houtput, hcache, hlogging, write, List.append_assoc]
  rfl

variable {d : Document}

theorem read_extract (s : Sheet) (hdepth : 0 < d.depth) (old : ExtractSettings) :
    Record.read extractFields d s.extract.node old = some s.settings.extract := by
  rw [Record.read_outline ⟨by decide, by decide⟩ rfl hdepth]
  simp [Record.readInTurn, extractFields, extract, Value.ofWord, TextWord.readText_node, TextWord.readTexts_ofWords,
    settings]

theorem read_output (s : Sheet) (hdepth : 0 < d.depth) (old : OutputSettings) :
    Record.read outputFields d s.output.node old = some s.settings.output := by
  rw [Record.read_outline ⟨by decide, by decide⟩ rfl hdepth]
  simp [Record.readInTurn, outputFields, output, Value.ofWord, TextWord.readText_node, settings]

theorem read_cache (s : Sheet) (hdepth : 0 < d.depth) (old : CacheSettings) :
    Record.read cacheFields d s.cache.node old = some s.settings.cache := by
  rw [Record.read_outline ⟨by decide, by decide⟩ rfl hdepth]
  simp [Record.readInTurn, cacheFields, cache, Value.ofWord, readBool_flag, settings]

theorem read_logging (s : Sheet) (hdepth : 0 < d.depth) (old : LogSettings) :
    Record.read logFields d s.logging.node old = some s.settings.logging := by
  rw [Record.read_outline ⟨by decide, by decide⟩ rfl hdepth]
  simp [Record.readInTurn, logFields, logging, Value.ofWord, TextWord.readText_node, settings]

theorem read_outline (s : Sheet) (hdepth : 0 < d.depth) (old : Settings) :
    Record.read fields d s.outline.node old = some s.settings := by
  rw [Record.read_outline ⟨by decide, by decide⟩ rfl hdepth]
  simp [Record.readInTurn, fields, outline, Outline.value, read_extract s hdepth, read_output s hdepth,
    read_cache s hdepth, read_logging s hdepth]

theorem read?_write (s : Sheet) : read? s.settings.write = some s.settings := by
  obtain ⟨depth, hread⟩ := Outline.read?_written s.outline_ne_nil
  rw [read?, write_settings, hread]
  exact s.read_outline (Nat.succ_pos depth) {}

end Sheet

/-- The texts of settings. -/
def texts (s : Settings) : List Text :=
  s.extract.framework :: s.extract.includes ++ s.extract.excludes ++
    [s.output.format, s.output.path, s.output.packageName, s.logging.level]

theorem exists_sheet {s : Settings} (h : ∀ t ∈ s.texts, t.IsPrintable) : ∃ sheet : Sheet, sheet.settings = s := by
  obtain ⟨⟨framework, includes, excludes⟩, ⟨format, path, packageName⟩, ⟨enabled⟩, ⟨level⟩⟩ := s
  simp only [texts, List.cons_append, List.append_assoc, List.forall_mem_cons, List.forall_mem_append] at h
  obtain ⟨hframework, hincludes, hexcludes, hformat, hpath, hpackage, hlevel, -⟩ := h
  lift framework to TextWord using hframework
  lift includes to List TextWord using hincludes
  lift excludes to List TextWord using hexcludes
  lift format to TextWord using hformat
  lift path to TextWord using hpath
  lift packageName to TextWord using hpackage
  lift level to TextWord using hlevel
  exact ⟨⟨framework, includes, excludes, format, path, packageName, enabled, level⟩, rfl⟩

/-- Settings whose texts are printable are read from what was written, and loaded from every file that it was written
to. Nothing of the defaults is left in them. -/
theorem loadFile_write {s : Settings} (h : ∀ t ∈ s.texts, t.IsPrintable) :
    read? s.write = some s ∧ ∀ (d d' : Disk) (path : Text),
      d.write path (.text s.write) = .ok d' → Command.loadFile d' path = .ok s := by
  obtain ⟨sheet, rfl⟩ := exists_sheet h
  have hread := sheet.read?_write
  refine ⟨hread, fun d d' path hwrite => ?_⟩
  simp only [Command.loadFile, Disk.read_write hwrite, Content.bytes, hread]

/-- Texts that would be read as something else if they were written plainly, and none of the defaults. -/
def lookalikes : Settings where
  extract := ⟨"", [], ["", "- a", "# b", "*.js", "a: b", "it's", "\"d\"", "~", "null", "0x1F", " e ", "[f]", "\\n"]⟩
  output := ⟨"true", "", "1e3"⟩
  cache := ⟨false⟩
  logging := ⟨"2001-12-14"⟩

def shelf : Disk := ⟨.directory [("work", .directory [("builtins.yml", .file (.text "["))])], "/work"⟩

theorem loadFile_write_lookalikes :
    (∀ t ∈ lookalikes.texts, t.IsPrintable) ∧ read? lookalikes.write = some lookalikes ∧
      ∃ d, shelf.write "builtins.yml" (.text lookalikes.write) = .ok d ∧
        Command.loadFile d "builtins.yml" = .ok lookalikes := by
  have hprintable : ∀ t ∈ lookalikes.texts, t.IsPrintable := by decide
  obtain ⟨hread, hload⟩ := loadFile_write hprintable
  have htarget : shelf.target "builtins.yml" = .ok (["work", "builtins.yml"], some (.text "[")) := rfl
  have hwrite : shelf.write "builtins.yml" (.text lookalikes.write) =
      .ok (shelf.fill ["work", "builtins.yml"] (.text lookalikes.write)) := by
    rw [Disk.write, htarget]
  exact ⟨hprintable, hread, _, hwrite, hload _ _ _ hwrite⟩

end Settings

end BuiltinCatalog
