import BuiltinCatalog.Proofs.Yaml.Outline
import BuiltinCatalog.Yaml.Record
import Mathlib.Data.List.Nodup

namespace BuiltinCatalog.Yaml

variable {σ : Type} {d : Document} {fields : List (RecordField σ)}

theorem Document.text?_scalar {tag t u : Text} {quoted : Bool} (h : Meaning.ofScalar? tag quoted t = some (.text u)) :
    d.text? (.scalar tag quoted t) = some (some u) := by
  simp [Document.text?, Document.meaning?, Document.follow?, h]

structure IsFieldName (name : Text) : Prop where
  means : Meaning.ofScalar? [] false name = some (.text name)
  ne_merge : name ≠ Text.ofString "<<"

instance (name : Text) : Decidable (IsFieldName name) :=
  decidable_of_iff (Meaning.ofScalar? [] false name = some (.text name) ∧ name ≠ Text.ofString "<<")
    ⟨fun ⟨h, h'⟩ => ⟨h, h'⟩, fun ⟨h, h'⟩ => ⟨h, h'⟩⟩

namespace Record

def pair (p : RecordField σ × Node) : Node × Node := (.scalar [] false p.1.name, p.2)

def readInTurn (d : Document) (ps : List (RecordField σ × Node)) (record : σ) : Option σ :=
  ps.foldlM (fun record p => p.1.read d p.2 record) record

theorem isMergeKey_pair {p : RecordField σ × Node} (h : IsFieldName p.1.name) : (pair p).1.isMergeKey = false := by
  simp [pair, Node.isMergeKey, h.ne_merge]

theorem readPair_pair {p : RecordField σ × Node} (hname : IsFieldName p.1.name)
    (hfield : fields.find? (·.name == p.1.name) = some p.1) {record : σ} {seen done : List Text}
    (hdone : p.1.name ∉ done) :
    readPair d fields false ⟨record, seen, done⟩ (pair p) =
      (p.1.read d p.2 record).map fun record => ⟨record, seen, p.1.name :: done⟩ := by
  have htext : d.text? (pair p).1 = some (some p.1.name) := Document.text?_scalar hname.means
  simp only [readPair, isMergeKey_pair hname, htext, hfield, Bool.false_eq_true, Bool.false_and, if_false,
    Option.bind_eq_bind, Option.bind_some, List.contains_iff_mem, hdone, Option.map_eq_bind]
  rfl

theorem foldlM_readPair {ps : List (RecordField σ × Node)} (hnames : ∀ p ∈ ps, IsFieldName p.1.name)
    (hfields : ∀ p ∈ ps, fields.find? (·.name == p.1.name) = some p.1) (hnodup : (ps.map (·.1.name)).Nodup)
    (record : σ) (seen : List Text) {done : List Text} (hdone : ∀ p ∈ ps, p.1.name ∉ done) :
    ∃ more, (ps.map pair).foldlM (readPair d fields false) ⟨record, seen, done⟩ =
      (readInTurn d ps record).map fun record => ⟨record, seen, more⟩ := by
  induction ps generalizing record done with
  | nil => exact ⟨done, rfl⟩
  | cons p ps ih =>
      obtain ⟨hname, hnames⟩ := List.forall_mem_cons.1 hnames
      obtain ⟨hfield, hfields⟩ := List.forall_mem_cons.1 hfields
      obtain ⟨hfirst, hdone⟩ := List.forall_mem_cons.1 hdone
      obtain ⟨hnew, hnodup⟩ := List.nodup_cons.1 hnodup
      have hmore : ∀ q ∈ ps, q.1.name ∉ p.1.name :: done := by
        intro q hq hmem
        rcases List.mem_cons.1 hmem with heq | hmem
        · exact hnew (List.mem_map.2 ⟨q, hq, heq⟩)
        · exact hdone q hq hmem
      rw [readInTurn, List.map_cons, List.foldlM_cons, List.foldlM_cons, readPair_pair hname hfield hfirst]
      cases hread : p.1.read d p.2 record with
      | none => exact ⟨done, rfl⟩
      | some record' => exact ih hnames hfields hnodup record' hmore

structure IsNamed (fields : List (RecordField σ)) : Prop where
  isFieldName : ∀ name ∈ fields.map (·.name), IsFieldName name
  nodup : (fields.map (·.name)).Nodup

theorem find?_name (hnodup : (fields.map (·.name)).Nodup) {f : RecordField σ} (hf : f ∈ fields) :
    fields.find? (·.name == f.name) = some f := by
  induction fields with
  | nil => cases hf
  | cons g fields ih =>
      obtain ⟨hnew, hnodup⟩ := List.nodup_cons.1 hnodup
      rcases List.mem_cons.1 hf with rfl | hf
      · exact List.find?_cons_of_pos (beq_self_eq_true _)
      · rw [List.find?_cons_of_neg, ih hnodup hf]
        intro heq
        exact hnew (List.mem_map.2 ⟨f, hf, (eq_of_beq heq).symm⟩)

theorem read_mapping (h : IsNamed fields) {ps : List (RecordField σ × Node)} (hps : ps.map (·.1) = fields)
    (hdepth : 0 < d.depth) (record : σ) :
    read fields d (.mapping (ps.map pair)) record = readInTurn d ps record := by
  obtain ⟨hnames, hnodup⟩ := h
  have hmem : ∀ p ∈ ps, p.1 ∈ fields := fun p hp => hps ▸ List.mem_map_of_mem hp
  have hfind : ∀ p ∈ ps, fields.find? (·.name == p.1.name) = some p.1 := fun p hp => find?_name hnodup (hmem p hp)
  replace hnames : ∀ p ∈ ps, IsFieldName p.1.name := fun p hp => hnames _ (List.mem_map_of_mem (hmem p hp))
  replace hnodup : (ps.map (·.1.name)).Nodup := by
    rw [← hps, List.map_map] at hnodup
    exact hnodup
  obtain ⟨depth, hdepth⟩ := Nat.exists_eq_add_of_le' hdepth
  have hlabels : ((ps.map pair).map fun p => p.1.label).Nodup := by
    have hlabel : (ps.map pair).map (fun p => p.1.label) = (ps.map (·.1.name)).map fun name => (0, name) := by
      rw [List.map_map, List.map_map]
      rfl
    rw [hlabel]
    exact hnodup.map fun a b h => (Prod.mk.inj h).2
  have hmerge : (ps.map pair).findRev? (fun p => p.1.isMergeKey) = none := by
    rw [List.findRev?_eq_findRev?TR, List.findRev?TR, List.find?_eq_none]
    intro q hq
    obtain ⟨p, hp, rfl⟩ := List.mem_map.1 (List.mem_reverse.1 hq)
    rw [isMergeKey_pair (hnames p hp)]
    exact Bool.false_ne_true
  obtain ⟨more, hfold⟩ := foldlM_readPair (d := d) hnames hfind hnodup record []
    fun p _ => List.not_mem_nil (a := p.1.name)
  have hmapping : readMapping d fields d.depth none (ps.map pair) record =
      (readInTurn d ps record).map fun record => (record, []) := by
    rw [hdepth, readMapping]
    simp only [hlabels, not_true, if_false, Option.isSome_none, Option.getD_none, hfold, hmerge]
    cases readInTurn d ps record <;> rfl
  have hread : read fields d (.mapping (ps.map pair)) record =
      (readMapping d fields d.depth none (ps.map pair) record).bind fun result => some result.1 := rfl
  rw [hread, hmapping]
  cases readInTurn d ps record <;> rfl

theorem read_outline (h : IsNamed fields) {n : Nat} {o : Outline n}
    (ho : o.map (·.1.value) = fields.map (·.name)) (hdepth : 0 < d.depth) (record : σ) :
    read fields d o.node record = readInTurn d (fields.zip (o.map fun p => p.2.node)) record := by
  have hlength : fields.length ≤ (o.map fun p => p.2.node).length := by
    simpa using Nat.le_of_eq (congrArg List.length ho).symm
  have hpairs : (fields.zip (o.map fun p => p.2.node)).map pair =
      o.map fun p => (.scalar [] false p.1.value, p.2.node) := by
    calc (fields.zip (o.map fun p => p.2.node)).map pair
      _ = ((fields.map (·.name)).map (Node.scalar [] false)).zip (o.map fun p => p.2.node) := by
        rw [List.map_map, List.zip_map_left]
        rfl
      _ = ((o.map (·.1.value)).map (Node.scalar [] false)).zip (o.map fun p => p.2.node) := by rw [ho]
      _ = o.map fun p => (.scalar [] false p.1.value, p.2.node) := by
        rw [List.map_map, List.zip_map']
        rfl
  rw [Outline.node, ← hpairs]
  exact read_mapping h (List.map_fst_zip hlength) hdepth record

end Record

end BuiltinCatalog.Yaml
