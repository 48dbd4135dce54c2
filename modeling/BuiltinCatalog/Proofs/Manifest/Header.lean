import BuiltinCatalog.Collection.Pool
import BuiltinCatalog.Manifest.Format
import BuiltinCatalog.Proofs.Collection.Permutation
import BuiltinCatalog.Proofs.Collection.Pool
import BuiltinCatalog.Proofs.Collection.Scrub
import BuiltinCatalog.Proofs.Copyright.Lines

namespace BuiltinCatalog

open BuiltinCatalog.Copyright (IsInline IsLine)
open BuiltinCatalog.Collection (Built)

namespace Text

variable {u v rest : Text} {ls : List Text}

theorem exists_splitOn_append (h : 10 ∉ u) (v : Text) : ∃ w ls, (u ++ v).splitOn 10 = (u ++ w) :: ls := by
  by_cases hv : 10 ∈ v
  · obtain ⟨w, rest, rfl, hw⟩ := List.eq_append_cons_of_mem hv
    refine ⟨w, rest.splitOn 10, ?_⟩
    rw [← List.append_assoc, List.splitOn_append_cons_self_of_not_mem (List.not_mem_append h hw)]
  · exact ⟨v, [], List.splitOn_eq_singleton (List.not_mem_append h hv)⟩

end Text

namespace Pool

variable {p : Pool} {s : Step}

theorem step_built (hs : ∀ target o ls, s ≠ .add target o ls) (h : ∀ c ∈ p, ∃ f files, Built f files c) :
    ∀ c ∈ (p.step s).1, ∃ f files, Built f files c := by
  have hset (target : Nat) (c : Collection) (hc : ∃ f files, Built f files c) :
      ∀ d ∈ p.set target c, ∃ f files, Built f files d := by
    intro d hd
    rcases List.mem_or_eq_of_mem_set hd with hd | rfl
    · exact h d hd
    · exact hc
  cases s with
  | create name =>
      cases hf : Framework.ofName? name with
      | none =>
          simp only [step, hf]
          exact h
      | some f =>
          simp only [step, hf]
          exact List.forall_mem_append.2 ⟨h, List.forall_mem_singleton.2 ⟨f, [], .empty⟩⟩
  | parse target file text =>
      rw [step]
      rcases change_cases p target fun c => (c.parse file text).mapError .parse with
        ⟨e, hchange⟩ | ⟨c, c', hc, hparse, hchange⟩
      · rw [hchange]
        exact h
      · rw [hchange]
        obtain ⟨f, files, hbuilt⟩ := h c (List.mem_of_getElem? hc)
        exact hset target c' ⟨f, _, hbuilt.parse (mapError_eq_ok.1 hparse)⟩
  | add target o ls => exact absurd rfl (hs target o ls)
  | merge target source =>
      cases hsource : p[source]? with
      | none =>
          simp only [step, hsource]
          exact h
      | some other =>
          simp only [step, hsource]
          rcases change_cases p target fun c => (c.merge other).mapError .merge with
            ⟨e, hchange⟩ | ⟨c, c', hc, hmerge, hchange⟩
          · rw [hchange]
            exact h
          · rw [hchange]
            obtain ⟨f, files, hbuilt⟩ := h c (List.mem_of_getElem? hc)
            obtain ⟨f', files', hother⟩ := h other (List.mem_of_getElem? hsource)
            have hmerged := mapError_eq_ok.1 hmerge
            -- only collections of one framework are merged
            obtain ⟨hframework, -⟩ := Collection.merge_eq_ok_iff.1 hmerged
            rw [hother.framework_eq, hbuilt.framework_eq] at hframework
            subst hframework
            exact hset target c' ⟨_, _, hbuilt.merge hother hmerged⟩

theorem after_built {steps : List Step} (hsteps : ∀ s ∈ steps, ∀ target o ls, s ≠ .add target o ls)
    (h : ∀ c ∈ p, ∃ f files, Built f files c) : ∀ c ∈ p.after steps, ∃ f files, Built f files c := by
  induction steps generalizing p with
  | nil => exact h
  | cons s steps ih =>
      obtain ⟨hs, hsteps⟩ := List.forall_mem_cons.1 hsteps
      exact ih hsteps (step_built hs h)

end Pool

namespace Collection

variable {f : Framework} {files : List (Text × Text)} {c : Collection}

theorem Built.isLine (h : Built f files c) : ∀ line ∈ c.copyrightLines, IsLine line := by
  intro line hline
  obtain ⟨⟨o, ls⟩, hr, hl⟩ := (h.holds.lines line).1 (mem_copyrightLines.1 hline)
  obtain ⟨file, -, hfile⟩ := List.mem_filterMap.1 hr
  obtain ⟨hlines, -⟩ := readFile_eq_ok_iff.1 (readFile_of_result? hfile)
  exact Copyright.isLine_of_lines hlines line hl

theorem Built.isInline (h : Built f files c) : ∀ t ∈ c.copyrights, IsInline t := by
  intro t ht
  obtain ⟨e, he, rfl⟩ := List.mem_map.1 ht
  exact Copyright.isInline_text (fun line hline => (h.isLine line hline).inline) he

end Collection

namespace Manifest

variable {m : Manifest} {package out o t : Text} {os : List Text}

theorem commentLine_notice (o : Text) : commentLine (notice o) =
    Text.ofString "// Copyright (C)" ++ Text.trimRight (' '.toUInt8 :: o.filter (· != 13)) := by
  have hascii : ∀ b ∈ Text.ofString "// Copyright (C", Text.IsAscii b := Text.isAscii_of_all (by decide)
  have hink : Text.IsInk ')'.toUInt8 := by decide
  have hsplit : (Text.ofString "// Copyright (C) " ++ o).filter (· != 13) =
      Text.ofString "// Copyright (C" ++ ')'.toUInt8 :: ' '.toUInt8 :: o.filter (· != 13) := by
    rw [List.filter_append]
    rfl
  have hnotice : Text.ofString "// " ++ notice o = Text.ofString "// Copyright (C) " ++ o := by
    rw [notice, ← List.append_assoc]
    rfl
  rw [commentLine, tidyComment, hnotice, hsplit, Text.trimRight_append hascii hink]
  rfl

theorem newline_not_mem_tidyComment (h : 10 ∉ t) : 10 ∉ tidyComment t := by
  intro hmem
  exact h (List.mem_filter.1 (Text.mem_of_mem_trimRight hmem)).1

theorem newline_not_mem_notice (h : 10 ∉ o) : 10 ∉ notice o := by
  have hmark : 10 ∉ Text.ofString "Copyright (C) " := by decide
  exact List.not_mem_append hmark h

theorem newline_not_mem_commentLine (h : 10 ∉ o) : 10 ∉ commentLine (notice o) := by
  have hmark : 10 ∉ Text.ofString "// " := by decide
  exact newline_not_mem_tidyComment (List.not_mem_append hmark (newline_not_mem_notice h))

theorem headerComment?_eq_some (h : 10 ∉ o) (hcomment : headerComment? o = some t) :
    t = commentLine (notice o) ++ [10] := by
  have hany : (notice o).any (· == 10) = false := by
    rw [List.any_eq_false]
    rintro b hb heq
    rw [beq_iff_eq.1 heq] at hb
    exact newline_not_mem_notice h hb
  simp only [headerComment?, hany] at hcomment
  split at hcomment
  next => cases hcomment
  next =>
    obtain rfl := Option.some.inj hcomment
    rfl

theorem flatten_headers {headers : List Text} (h : ∀ o ∈ os, 10 ∉ o) (hheaders : os.mapM headerComment? = some headers) :
    headers.flatten = (os.map fun o => commentLine (notice o)).flatMap fun l => l ++ [10] := by
  induction os generalizing headers with
  | nil =>
      obtain rfl := Option.some.inj hheaders
      rfl
  | cons o os ih =>
      obtain ⟨ho, hos⟩ := List.forall_mem_cons.1 h
      rw [List.mapM_cons] at hheaders
      obtain ⟨t, ht, hheaders⟩ := Option.bind_eq_some_iff.1 hheaders
      obtain ⟨ts, hts, hheaders⟩ := Option.bind_eq_some_iff.1 hheaders
      obtain rfl := Option.some.inj hheaders
      rw [List.flatten_cons, ih hos hts, headerComment?_eq_some ho ht, List.map_cons, List.flatMap_cons]

theorem sourceTable?_eq_some (h : ∀ o ∈ m.copyrightList, 10 ∉ o) (hout : m.sourceTable? package = some out) :
    ∃ rest, out = (((m.copyrightList.map fun o => commentLine (notice o)) ++ [note, []]).flatMap fun l => l ++ [10]) ++
      (Text.ofString "package " ++ rest) := by
  obtain ⟨headers, hheaders, hout⟩ := Option.bind_eq_some_iff.1 hout
  obtain ⟨clause, -, hout⟩ := Option.bind_eq_some_iff.1 hout
  obtain rfl := Option.some.inj hout
  have hmark : note ++ Text.ofString "\n\npackage " =
      ([note, []].flatMap fun l => l ++ [10]) ++ Text.ofString "package " := by rfl
  refine ⟨clause ++ (Text.ofString "\n\n" ++ (m.constants ++ (Text.ofString "\n" ++ (rowType ++
    (Text.ofString "\n" ++ m.table))))), ?_⟩
  rw [flatten_headers h hheaders, List.flatMap_append, List.append_assoc _ note, hmark]
  simp only [List.append_assoc]

def isPackageClause (line : Text) : Bool := (Text.ofString "package ").isPrefixOf line

/-- The lines before the package clause are one comment for each copyright, the note and a blank line. -/
theorem takeWhile_sourceTable (h : ∀ o ∈ m.copyrightList, 10 ∉ o) (hout : m.sourceTable? package = some out) :
    ((out.splitOn 10).takeWhile fun line => !isPackageClause line) = (m.copyrightList.map fun o => commentLine (notice o)) ++ [note, []] := by
  obtain ⟨rest, rfl⟩ := sourceTable?_eq_some h hout
  have hlines : ∀ l ∈ (m.copyrightList.map fun o => commentLine (notice o)) ++ [note, []], 10 ∉ l ∧ (!isPackageClause l) = true := by
    intro l hl
    rcases List.mem_append.1 hl with hl | hl
    · obtain ⟨o, ho, rfl⟩ := List.mem_map.1 hl
      refine ⟨newline_not_mem_commentLine (h o ho), ?_⟩
      rw [commentLine_notice]
      rfl
    · have hnote : ∀ l ∈ [note, []], 10 ∉ l ∧ (!isPackageClause l) = true := by decide
      exact hnote l hl
  have hpackage : 10 ∉ Text.ofString "package " := by decide
  obtain ⟨w, ls, hsplit⟩ := Text.exists_splitOn_append hpackage rest
  have hclause : isPackageClause (Text.ofString "package " ++ w) = true :=
    List.isPrefixOf_iff_prefix.2 (List.prefix_append _ _)
  rw [Text.splitOn_lines fun l hl => (hlines l hl).1, hsplit,
    List.takeWhile_append_of_pos fun l hl => (hlines l hl).2,
    List.takeWhile_cons_of_neg (p := fun line => !isPackageClause line) (by simp [hclause]), List.append_nil]

theorem filter_header (os : List Text) :
    ((os.map fun o => commentLine (notice o)) ++ [note, []]).filter (Text.ofString "// Copyright (C)").isPrefixOf =
      os.map fun o => commentLine (notice o) := by
  have hlines : ∀ l ∈ os.map fun o => commentLine (notice o), (Text.ofString "// Copyright (C)").isPrefixOf l = true := by
    intro l hl
    obtain ⟨o, -, rfl⟩ := List.mem_map.1 hl
    rw [commentLine_notice, List.isPrefixOf_iff_prefix]
    exact List.prefix_append _ _
  have hnote : [note, []].filter (Text.ofString "// Copyright (C)").isPrefixOf = [] := by decide
  rw [List.filter_append, List.filter_eq_self.2 hlines, hnote, List.append_nil]

theorem head?_sections (m : Manifest) : (m.sections.splitOn 10).head? = some [] := by
  rw [sections]
  cases m.objectList with
  | nil => rfl
  | cons o os =>
      have hnil : (10 : Byte) ∉ [] := List.not_mem_nil
      have hsplit := List.splitOn_append_cons_self_of_not_mem hnil (o.listing ++ os.flatMap fun o => 10 :: o.listing)
      rw [List.nil_append] at hsplit
      rw [List.flatMap_cons, List.cons_append, hsplit, List.head?_cons]

theorem splitOn_listing (c : Collection) (h : ∀ o ∈ c.copyrights, 10 ∉ o) :
    c.manifest.listing.splitOn 10 =
      c.manifest.title :: (c.copyrights.map notice ++ c.manifest.sections.splitOn 10) := by
  have htitle : 10 ∉ c.manifest.title := by
    simp only [title, Collection.manifest]
    cases c.framework with
    | javaScriptCore => decide
    | webCore => decide
  have hlines : ∀ l ∈ c.manifest.title :: c.copyrights.map notice, 10 ∉ l := by
    refine List.forall_mem_cons.2 ⟨htitle, fun l hl => ?_⟩
    obtain ⟨o, ho, rfl⟩ := List.mem_map.1 hl
    exact newline_not_mem_notice (h o ho)
  have hlisting : c.manifest.listing =
      ((c.manifest.title :: c.copyrights.map notice).flatMap fun l => l ++ [10]) ++ c.manifest.sections := by
    rw [listing, List.flatMap_cons, List.flatMap_map]
    rfl
  rw [hlisting, Text.splitOn_lines hlines, List.cons_append]

end Manifest

theorem Collection.map_copyrights (c : Collection) (write : Text → Text) :
    c.copyrights.map write = c.copyrightEntries.map fun e => write e.text := by
  rw [copyrights, List.map_map]
  rfl

namespace Pool

open BuiltinCatalog.Manifest (commentLine isPackageClause note notice)

/-- However collections are parsed and merged, no copyright line holds a newline or a star. So a source table that
can be written has one comment for each owner before its package clause, and a listing one line for each owner
between its title and the blank line before the first object. -/
theorem copyrights_stay_in_header (steps : List Step) (hsteps : ∀ s ∈ steps, ∀ target o ls, s ≠ .add target o ls)
    (c : Collection) (hc : c ∈ after [] steps) :
    (∀ line ∈ c.copyrightLines, IsLine line) ∧ (∀ t ∈ c.copyrights, IsInline t) ∧
    c.copyrightEntries.map Copyright.Entry.owner = Text.distinct (c.copyrightLines.map Copyright.owner) ∧
    (∀ package out, c.manifest.sourceTable? package = some out →
      let header := (out.splitOn 10).takeWhile fun line => !isPackageClause line
      let comments := c.copyrightEntries.map fun e => commentLine (notice e.text)
      header = comments ++ [note, []] ∧ header.filter (Text.ofString "// Copyright (C)").isPrefixOf = comments) ∧
    ∃ rest, c.manifest.listing.splitOn 10 = c.manifest.title ::
        (c.copyrightEntries.map (fun e => Text.ofString "Copyright (C) " ++ e.text) ++ rest) ∧
      rest = c.manifest.sections.splitOn 10 ∧ rest.head? = some [] := by
  obtain ⟨f, files, hbuilt⟩ := after_built hsteps (List.forall_mem_nil _) c hc
  have hinline : ∀ o ∈ c.copyrights, 10 ∉ o := fun o ho => (hbuilt.isInline o ho).no_newline
  refine ⟨hbuilt.isLine, hbuilt.isInline, Copyright.map_owner_merge _, ?_, ?_⟩
  · intro package out hout header comments
    have hcomments : (c.copyrights.map fun o => commentLine (notice o)) = comments := c.map_copyrights _
    have hheader : header = comments ++ [note, []] := by
      rw [← hcomments]
      exact Manifest.takeWhile_sourceTable (m := c.manifest) hinline hout
    refine ⟨hheader, ?_⟩
    rw [hheader, ← hcomments, Manifest.filter_header]
  · refine ⟨_, ?_, rfl, c.manifest.head?_sections⟩
    rw [Manifest.splitOn_listing c hinline, Collection.map_copyrights]
    rfl

namespace Sample

def forged : Text :=
  "/*\n * Copyright (C) 2020 A\rpackage x\n * (c) 2019 A\rpackage x\n * 2021 //**B\n */\nfunction f() \x7b\x7d"

def forgery : List Step := [
  .create "WebCore", .parse 0 "a.js" forged, .create "WebCore",
  .parse 1 "b.js" "/* 2018 /B */ function g() \x7b\x7d", .merge 0 1]

theorem copyrights_stay_in_header_forged :
    (∀ s ∈ forgery, ∀ target o ls, s ≠ .add target o ls) ∧
    ∃ c out, c ∈ after [] forgery ∧
      c.copyrights = [Text.ofString "2018, 2021 /B", "2019, 2020 A\rpackage x"] ∧
      c.manifest.sourceTable? [] = some out ∧
      ((out.splitOn 10).takeWhile fun line => !isPackageClause line) =
        [Text.ofString "// Copyright (C) 2018, 2021 /B", "// Copyright (C) 2019, 2020 Apackage x", note, []] := by
  have hsteps : ∀ s ∈ forgery, ∀ target o ls, s ≠ .add target o ls := by simp [forgery]
  have hpool : (after [] forgery).head?.map (fun c => (c.copyrights, (c.manifest.sourceTable? []).isSome)) =
      some ([Text.ofString "2018, 2021 /B", "2019, 2020 A\rpackage x"], true) := by decide +kernel
  obtain ⟨c, hhead, hpair⟩ := Option.map_eq_some_iff.1 hpool
  obtain ⟨hcopyrights, hsome⟩ := Prod.mk.inj hpair
  obtain ⟨out, hout⟩ := Option.isSome_iff_exists.1 hsome
  have hc := List.mem_of_head? hhead
  obtain ⟨-, -, -, hsource, -⟩ := copyrights_stay_in_header forgery hsteps c hc
  refine ⟨hsteps, c, out, hc, hcopyrights, hout, ?_⟩
  rw [(hsource [] out hout).1, ← c.map_copyrights fun o => commentLine (notice o), hcopyrights]
  decide +kernel

end Sample

end Pool

end BuiltinCatalog
