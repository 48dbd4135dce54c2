import BuiltinCatalog.Proofs.Yaml.Node

namespace BuiltinCatalog.Yaml

open Scanner

structure Value (n : Nat) where
  written : List Char
  tokens : List Token
  node : Node
  allowed : ∀ c ∈ written, isAllowed c = true
  reads : ReadsValue n written tokens
  parses : Reader.Parses tokens node

theorem isAllowed_of_mem_spaces {c : Char} {n : Nat} (h : c ∈ Write.spaces n) : isAllowed c = true := by
  rw [List.eq_of_mem_replicate h]
  rfl

namespace Word

def node (w : Word) : Node := .scalar [] w.quoted w.value

def row (n : Nat) (w : Word) : List Char × List Token :=
  (Write.spaces n ++ '-' :: ' ' :: (w.written ++ ['\n']), [.entry, w.token])

theorem allowed_line (w : Word) : ∀ c ∈ w.written ++ ['\n'], isAllowed c = true := by
  intro c hc
  rcases List.mem_append.1 hc with hc | hc
  · exact (w.spells.isInline c hc).isAllowed
  · rw [List.mem_singleton.1 hc]
    rfl

theorem allowed_rows (n : Nat) (ws : List Word) : ∀ c ∈ blockText (ws.map (row n)), isAllowed c = true := by
  intro c hc
  rw [blockText, List.flatMap_map] at hc
  obtain ⟨w, -, hc⟩ := List.mem_flatMap.1 hc
  rcases List.mem_append.1 hc with hc | hc
  · exact isAllowed_of_mem_spaces hc
  · rcases hc with - | ⟨_, - | ⟨_, hc⟩⟩
    · rfl
    · rfl
    · exact w.allowed_line c hc

theorem readsRow_row {n : Nat} (hn : 0 < n) {ws : List Word} :
    ∀ r ∈ ws.map (row n), ReadsRow .sequenceStart n r.1 r.2 := by
  intro r hr
  obtain ⟨w, -, rfl⟩ := List.mem_map.1 hr
  exact readsRow_entry hn w

theorem parses_rows (n : Nat) (ws : List Word) :
    Reader.Parses (.sequenceStart :: blockTokens (ws.map (row n)) ++ [.blockEnd]) (.sequence (ws.map node)) := by
  have hitems : ∀ x ∈ ws.map fun w => ([w.token], w.node), Reader.Parses x.1 x.2 := by
    intro x hx
    obtain ⟨w, -, rfl⟩ := List.mem_map.1 hx
    exact .scalar w.quoted w.value
  have hparses := Reader.Parses.sequence hitems
  rw [Reader.itemTokens, List.flatMap_map, List.map_map] at hparses
  rw [blockTokens, List.flatMap_map]
  exact hparses

end Word

namespace Value

def ofWord (n : Nat) (w : Word) : Value n where
  written := ' ' :: (w.written ++ ['\n'])
  tokens := [w.token]
  node := w.node
  allowed := List.forall_mem_cons.2 ⟨rfl, w.allowed_line⟩
  reads := readsValue_word n w
  parses := .scalar w.quoted w.value

/-- A list of words. Its items are indented, and if there are none, it is written in brackets. -/
def ofWords (n : Nat) : List Word → Value n
  | [] => {
      written := [' ', '[', ']', '\n']
      tokens := [.openBracket, .closeBracket]
      node := .sequence []
      allowed := List.all_eq_true.1 rfl
      reads := readsValue_empty n
      parses := .empty }
  | w :: ws => {
      written := '\n' :: blockText ((w :: ws).map (Word.row (n + 4)))
      tokens := .sequenceStart :: blockTokens ((w :: ws).map (Word.row (n + 4))) ++ [.blockEnd]
      node := .sequence ((w :: ws).map Word.node)
      allowed := List.forall_mem_cons.2 ⟨rfl, Word.allowed_rows (n + 4) (w :: ws)⟩
      reads := readsValue_block (Word.readsRow_row (by omega)) (by simp) (by omega)
      parses := Word.parses_rows (n + 4) (w :: ws) }

theorem node_ofWords (n : Nat) (ws : List Word) : (ofWords n ws).node = .sequence (ws.map Word.node) := by
  cases ws <;> rfl

end Value

abbrev Outline (n : Nat) := List (Key × Value n)

namespace Outline

variable {n : Nat}

def row (p : Key × Value n) : List Char × List Token :=
  (Write.spaces n ++ (p.1.text ++ ':' :: p.2.written), p.1.tokens ++ p.2.tokens)

def written (o : Outline n) : List Char := blockText (o.map row)

theorem written_nil : written ([] : Outline n) = [] := rfl

theorem written_cons (p : Key × Value n) (o : Outline n) : written (p :: o) = (row p).1 ++ written o := rfl

def tokens (o : Outline n) : List Token := .mappingStart :: blockTokens (o.map row) ++ [.blockEnd]

def node (o : Outline n) : Node := .mapping (o.map fun p => (.scalar [] false p.1.value, p.2.node))

theorem readsRow_row (o : Outline n) : ∀ r ∈ o.map row, ReadsRow .mappingStart n r.1 r.2 := by
  intro r hr
  obtain ⟨p, -, rfl⟩ := List.mem_map.1 hr
  exact readsRow_pair p.1 p.2.reads

theorem parses (o : Outline n) : Reader.Parses o.tokens o.node := by
  have hpairs : ∀ q ∈ o.map fun p => (([.scalar false p.1.value], .scalar [] false p.1.value), (p.2.tokens, p.2.node)),
      Reader.Parses q.1.1 q.1.2 ∧ Reader.Parses q.2.1 q.2.2 := by
    intro q hq
    obtain ⟨p, -, rfl⟩ := List.mem_map.1 hq
    exact ⟨.scalar false p.1.value, p.2.parses⟩
  have hparses := Reader.Parses.mapping hpairs
  rw [Reader.pairTokens, List.flatMap_map, List.map_map] at hparses
  rw [tokens, blockTokens, List.flatMap_map]
  exact hparses

theorem allowed (o : Outline n) : ∀ c ∈ o.written, isAllowed c = true := by
  intro c hc
  rw [written, blockText, List.flatMap_map] at hc
  obtain ⟨p, -, hc⟩ := List.mem_flatMap.1 hc
  rcases List.mem_append.1 hc with hc | hc
  · exact isAllowed_of_mem_spaces hc
  rcases List.mem_append.1 hc with hc | hc
  · exact (p.1.isKey.isPlain.isInline c hc).isAllowed
  · rcases List.mem_cons.1 hc with rfl | hc
    · rfl
    · exact p.2.allowed c hc

def value (o : Outline (n + 4)) (h : o ≠ []) : Value n where
  written := '\n' :: o.written
  tokens := o.tokens
  node := o.node
  allowed := List.forall_mem_cons.2 ⟨rfl, o.allowed⟩
  reads := readsValue_block o.readsRow_row (by simpa using h) (by omega)
  parses := o.parses

theorem characters?_written {o : Outline 0} (h : o ≠ []) : characters? (Text.ofChars o.written) = some o.written := by
  obtain ⟨p, o, rfl⟩ := List.exists_cons_of_ne_nil h
  obtain ⟨c, text, htext⟩ := List.exists_cons_of_ne_nil p.1.isKey.isPlain.ne_nil
  have hascii := (p.1.isKey.unmarked c (by rw [htext]; rfl)).1
  have hallowed := allowed (p :: o)
  have hwritten : written (p :: o) = c :: (text ++ ':' :: p.2.written ++ blockText (o.map row)) := by
    rw [written_cons, row, htext]
    rfl
  rw [hwritten] at hallowed ⊢
  exact characters?_ofChars hascii hallowed

theorem read?_written {o : Outline 0} (h : o ≠ []) :
    ∃ depth, Document.read? (Text.ofChars o.written) = some ⟨some o.node, [], depth + 1⟩ := by
  refine Document.read?_eq_some (characters?_written h) ?_ o.parses
  rw [written, tokens_block o.readsRow_row (by simpa using h), tokens]
  simp

end Outline

end BuiltinCatalog.Yaml
