import BuiltinCatalog.Proofs.Copyright
import BuiltinCatalog.Proofs.Text.Order
import BuiltinCatalog.Proofs.Text.Trim

namespace BuiltinCatalog.Copyright

open Text

variable {lines : List Text} {es : List Entry} {e : Entry}

/-- One entry for each owner of the lines, by increasing owners, with all years of the owner's lines in increasing
order. -/
structure IsMerged (lines : List Text) (es : List Entry) : Prop where
  owners : ∀ o, o ∈ es.map Entry.owner ↔ ∃ line ∈ lines, HasOwner line o
  owners_increase : (es.map Entry.owner).Pairwise (· < ·)
  years : ∀ e ∈ es, ∀ y, y ∈ e.years ↔ ∃ line ∈ lines, HasOwner line e.owner ∧ HasYear line y
  years_increase : ∀ e ∈ es, e.years.Pairwise (· < ·)

theorem map_owner_merge (lines : List Text) : (merge lines).map Entry.owner = distinct (lines.map owner) := by
  rw [merge, List.map_map]
  exact List.map_id _

theorem years_of_mem_merge (h : e ∈ merge lines) :
    e.years = distinct ((lines.filter fun line => owner line == e.owner).flatMap years) := by
  obtain ⟨o, -, rfl⟩ := List.mem_map.1 h
  rfl

theorem mem_years_of_owner_eq {o y : Text} :
    y ∈ (lines.filter fun line => owner line == o).flatMap years ↔
      ∃ line ∈ lines, HasOwner line o ∧ HasYear line y := by
  simp only [List.mem_flatMap, List.mem_filter, beq_iff_eq, hasOwner_iff, ← mem_years_iff, and_assoc]

theorem isMerged_merge (lines : List Text) : IsMerged lines (merge lines) where
  owners o := by
    rw [map_owner_merge, mem_distinct, List.mem_map]
    simp only [hasOwner_iff]
  owners_increase := by
    rw [map_owner_merge]
    exact pairwise_distinct _
  years e he y := by rw [years_of_mem_merge he, mem_distinct, mem_years_of_owner_eq]
  years_increase e he := by
    rw [years_of_mem_merge he]
    exact pairwise_distinct _

namespace IsMerged

theorem eq_merge (h : IsMerged lines es) : es = merge lines := by
  have howners : es.map Entry.owner = (merge lines).map Entry.owner := by
    apply eq_of_pairwise h.owners_increase (isMerged_merge lines).owners_increase
    intro o
    rw [h.owners, (isMerged_merge lines).owners]
  have hyears (e : Entry) (he : e ∈ es) :
      e.years = distinct ((lines.filter fun line => owner line == e.owner).flatMap Copyright.years) := by
    apply eq_of_pairwise (h.years_increase e he) (pairwise_distinct _)
    intro y
    rw [h.years e he, mem_distinct, mem_years_of_owner_eq]
  rw [merge, ← map_owner_merge, ← howners, List.map_map]
  refine (List.map_id es).symm.trans (List.map_congr_left fun e he => ?_)
  simp only [Function.comp_apply, ← hyears e he, id]

theorem eq_of_owner (h : IsMerged lines es) {f : Entry} (he : e ∈ es) (hf : f ∈ es) (heq : e.owner = f.owner) :
    e = f := by
  have hyears : e.years = f.years := by
    apply eq_of_pairwise (h.years_increase e he) (h.years_increase f hf)
    intro y
    rw [h.years e he, h.years f hf, heq]
  cases e
  cases f
  simp_all

theorem isYear (h : IsMerged lines es) (he : e ∈ es) {y : Text} (hy : y ∈ e.years) : IsYear y := by
  obtain ⟨line, -, -, hyear⟩ := (h.years e he y).1 hy
  exact isYear_of_mem (mem_years_iff.2 hyear)

end IsMerged

/-- Merging gives the one list of entries that the owners and years of the lines determine. So neither the order of
the lines nor how often one occurs makes a difference. -/
theorem eq_merge_iff (lines : List Text) :
    (∀ es, es = merge lines ↔ IsMerged lines es) ∧
      ∀ others : List Text, (∀ line, line ∈ others ↔ line ∈ lines) → merge others = merge lines := by
  refine ⟨fun es => ⟨?_, IsMerged.eq_merge⟩, fun others h => IsMerged.eq_merge ?_⟩
  · rintro rfl
    exact isMerged_merge lines
  · have hmerged := isMerged_merge others
    refine ⟨fun o => ?_, hmerged.owners_increase, fun e he y => ?_, hmerged.years_increase⟩
    · simp only [hmerged.owners, h]
    · simp only [hmerged.years e he, h]

/-- Years inside an owner, a run of more than four digits, and lines in another order and repeated. -/
theorem eq_merge_iff_reordered :
    ∃ lines others : List Text, lines = [Text.ofString "2014, 2015 A", "1999 B 20012002x", "20161 A"] ∧
      others = [Text.ofString "20161 A", "1999 B 20012002x", "2014, 2015 A", "20161 A"] ∧
      IsMerged lines [⟨"A", ["2014", "2015", "2016"]⟩, ⟨"B 20012002x", ["1999", "2001", "2002"]⟩] ∧
      merge others = merge lines := by
  have hmem (a b c line : Text) : line ∈ [c, b, a, c] ↔ line ∈ [a, b, c] := by
    simp only [List.mem_cons, List.not_mem_nil, or_false]
    tauto
  obtain ⟨hiff, hsame⟩ := eq_merge_iff ["2014, 2015 A", "1999 B 20012002x", "20161 A"]
  exact ⟨_, _, rfl, rfl, (hiff _).1 (by decide +kernel), hsame _ (hmem _ _ _)⟩

/-- A text that holds some years and between them only what may stand before an owner. -/
structure Lists (ys : List Text) (t : Text) : Prop where
  lead : ∀ b ∈ t, isLead b = true
  years : years t = ys
  first : ∃ b, isDigit b = true ∧ t.head? = some b
  last : ∃ b, isDigit b = true ∧ t.getLast? = some b

theorem IsYear.lists {y : Text} (h : IsYear y) : Lists [y] y := by
  have hyears := h.years_eq
  obtain ⟨hlen, hdigits⟩ := h
  match y, hlen with
  | [a, b, c, d], _ =>
      exact ⟨fun e he => isLead_of_isDigit (hdigits e he), hyears, ⟨a, hdigits a (by simp), rfl⟩,
        ⟨d, hdigits d (by simp), rfl⟩⟩

theorem Lists.cons {y t : Text} {ys : List Text} (hy : IsYear y) (h : Lists ys t) :
    Lists (y :: ys) (y ++ (", " : Text) ++ t) := by
  have hfirst := hy.lists
  refine ⟨fun b hb => ?_, ?_, ?_, ?_⟩
  · simp only [List.mem_append] at hb
    rcases hb with (hb | hb) | hb
    · exact hfirst.lead b hb
    · exact List.all_eq_true.1 (by decide : (", " : Text).all isLead = true) b hb
    · exact h.lead b hb
  · rw [List.append_assoc, years_append_of_head (by rintro b ⟨⟩; rfl), hfirst.years,
      years_append_of_last (by rintro b ⟨⟩; rfl), h.years]
    rfl
  · obtain ⟨b, hb, hhead⟩ := hfirst.first
    exact ⟨b, hb, by rw [List.append_assoc, List.head?_append, hhead, Option.some_or]⟩
  · obtain ⟨b, hb, hlast⟩ := h.last
    exact ⟨b, hb, by rw [List.getLast?_append, hlast, Option.some_or]⟩

theorem lists_intercalate {ys : List Text} (hne : ys ≠ []) (h : ∀ y ∈ ys, IsYear y) :
    Lists ys ((", " : Text).intercalate ys) := by
  induction ys with
  | nil => exact absurd rfl hne
  | cons y ys ih =>
      have hy := h y (by simp)
      cases ys with
      | nil =>
          rw [List.intercalate_singleton]
          exact hy.lists
      | cons z zs =>
          rw [List.intercalate_cons_cons]
          exact .cons hy (ih (by simp) fun x hx => h x (List.mem_cons_of_mem y hx))

namespace Entry

/-- The line of an entry is its owner behind a lead that holds its years. A space is left out where the owner or
the years are missing. -/
theorem exists_lead (hyears : ∀ y ∈ e.years, IsYear y) (howner : trim e.owner = e.owner) :
    ∃ lead, e.text = lead ++ e.owner ∧ (∀ b ∈ lead, isLead b = true) ∧ Copyright.years lead = e.years := by
  by_cases hnone : e.years = []
  · refine ⟨[], ?_, by simp, by rw [hnone]; rfl⟩
    have htext : e.text = trim (' '.toUInt8 :: e.owner) := by rw [text, hnone]; rfl
    rw [htext, trim_cons (by decide), howner, List.nil_append]
  · have hlists := lists_intercalate hnone hyears
    obtain ⟨a, ha, hhead⟩ := hlists.first
    obtain ⟨b, hb, hlast⟩ := hlists.last
    have hink {c : Byte} (hc : isDigit c = true) : IsInk c := isInk_of_isWord (by simp [isWord, hc])
    by_cases hempty : e.owner = []
    · refine ⟨_, ?_, hlists.lead, hlists.years⟩
      have htext : e.text = trim ((", " : Text).intercalate e.years ++ [' '.toUInt8]) := by
        rw [text, hempty, List.append_nil]
        rfl
      rw [htext, trim_concat (by decide) fun c hc => isAscii_of_isLead (hlists.lead c hc),
        trim_eq_self (hink ha) (hink hb) hhead hlast, hempty, List.append_nil]
    · have hlead : ∀ c ∈ (", " : Text).intercalate e.years ++ (" " : Text), isLead c = true := by
        intro c hc
        rcases List.mem_append.1 hc with hc | hc
        · exact hlists.lead c hc
        · exact List.all_eq_true.1 (by decide : (" " : Text).all isLead = true) c hc
      refine ⟨_, ?_, hlead, ?_⟩
      · have hfirst : ((", " : Text).intercalate e.years ++ (" " : Text)).head? = some a := by
          rw [List.head?_append, hhead, Option.some_or]
        exact trim_append_eq_self (fun c hc => isAscii_of_isLead (hlead c hc)) (hink ha) hfirst howner hempty
      · rw [years_append_of_head (by rintro c ⟨⟩; rfl), hlists.years]
        exact List.append_nil _

end Entry

theorem IsMerged.reads_back (h : IsMerged lines es) (htrim : ∀ line ∈ lines, trim (owner line) = owner line)
    (he : e ∈ es) : owner e.text = e.owner ∧ ∀ y, y ∈ Copyright.years e.text ↔ y ∈ e.years := by
  obtain ⟨line, hline, howner⟩ := (h.owners e.owner).1 (List.mem_map_of_mem he)
  have htrimmed : trim e.owner = e.owner := by rw [← hasOwner_iff.1 howner, htrim line hline]
  obtain ⟨lead, htext, hlead, hyears⟩ := Entry.exists_lead (fun y hy => h.isYear he hy) htrimmed
  constructor
  · obtain ⟨_, -, -, hhead⟩ := howner
    exact hasOwner_iff.1 ⟨lead, htext, hlead, hhead⟩
  · intro y
    rw [htext, howner.years_append, hyears, List.mem_append]
    -- the years that stand in the owner are years of its lines too
    refine or_iff_left_of_imp fun hy => (h.years e he y).2 ⟨line, hline, howner, ?_⟩
    exact mem_years_iff.1 (howner.mem_years hy)

/-- Merging the lines of merged entries gives these entries again, if no owner starts or ends with blanks. -/
theorem merge_map_text (h : ∀ line ∈ lines, trim (owner line) = owner line) :
    merge ((merge lines).map Entry.text) = merge lines := by
  have hmerged := isMerged_merge lines
  refine (IsMerged.eq_merge ⟨fun o => ?_, hmerged.owners_increase, fun e he y => ?_, hmerged.years_increase⟩).symm
  · constructor
    · intro ho
      obtain ⟨e, he, rfl⟩ := List.mem_map.1 ho
      exact ⟨e.text, List.mem_map_of_mem he, hasOwner_iff.2 (hmerged.reads_back h he).1⟩
    · rintro ⟨line, hline, howner⟩
      obtain ⟨e, he, rfl⟩ := List.mem_map.1 hline
      rw [hasOwner_iff, (hmerged.reads_back h he).1] at howner
      exact List.mem_map.2 ⟨e, he, howner⟩
  · constructor
    · intro hy
      obtain ⟨howner, hyears⟩ := hmerged.reads_back h he
      exact ⟨e.text, List.mem_map_of_mem he, hasOwner_iff.2 howner, mem_years_iff.1 ((hyears y).2 hy)⟩
    · rintro ⟨line, hline, howner, hy⟩
      obtain ⟨f, hf, rfl⟩ := List.mem_map.1 hline
      rw [hasOwner_iff, (hmerged.reads_back h hf).1] at howner
      obtain rfl : f = e := hmerged.eq_of_owner hf he howner
      exact ((hmerged.reads_back h hf).2 y).1 (mem_years_iff.2 hy)

/-- An owner that holds a year, years without an owner, and an owner without years. -/
theorem merge_map_text_missing_parts :
    ∃ lines texts : List Text, lines = [Text.ofString "2015, 2014 A 1999", "2013 ", "B"] ∧
      texts = [Text.ofString "2013", "1999, 2014, 2015 A 1999", "B"] ∧
      (∀ line ∈ lines, trim (owner line) = owner line) ∧ (merge lines).map Entry.text = texts ∧
      merge texts = merge lines := by
  have htrim : ∀ line ∈ [Text.ofString "2015, 2014 A 1999", "2013 ", "B"], trim (owner line) = owner line := by
    decide +kernel
  have htexts : (merge [Text.ofString "2015, 2014 A 1999", "2013 ", "B"]).map Entry.text =
      [Text.ofString "2013", "1999, 2014, 2015 A 1999", "B"] := by decide +kernel
  have hmerge := merge_map_text htrim
  rw [htexts] at hmerge
  exact ⟨_, _, rfl, rfl, htrim, htexts, hmerge⟩

end BuiltinCatalog.Copyright
