import BuiltinCatalog.Collection.Pool
import BuiltinCatalog.Proofs.Collection.Agree
import BuiltinCatalog.Proofs.Except

namespace BuiltinCatalog.Collection

theorem foldl_addLine_addLine (ks ls : List Text) (m : Text) :
    (addLine ls m).foldl addLine ks = addLine (ls.foldl addLine ks) m := by
  by_cases hm : m ∈ ls
  · have hk : m ∈ ls.foldl addLine ks := mem_foldl_addLine.2 (Or.inr hm)
    rw [addLine, if_pos hm, addLine, if_pos hk]
  · have hl : addLine ls m = ls ++ [m] := if_neg hm
    rw [hl, List.foldl_append]
    rfl

theorem foldl_addLine_foldl (ks ls ms : List Text) :
    (ms.foldl addLine ls).foldl addLine ks = ms.foldl addLine (ls.foldl addLine ks) := by
  induction ms generalizing ls with
  | nil => rfl
  | cons m ms ih => rw [List.foldl_cons, ih, foldl_addLine_addLine, List.foldl_cons]

theorem append_assoc (a b c : Collection) : (a.append b).append c = a.append (b.append c) := by
  simp only [append, List.append_assoc, foldl_addLine_foldl]

theorem append_empty (c : Collection) (f : Framework) : c.append { framework := f } = c := by
  simp [append]

/-- Adding an object comes to the same as merging a collection that holds nothing else. -/
theorem append_add (c : Collection) (f : Framework) (o : BuiltinObject) (ls : List Text) :
    c.append (({ framework := f } : Collection).add o ls) = c.add o ls := by
  simp [append, add, foldl_addLine_foldl]

theorem merge_of_eq {a b : Collection} (h : b.framework = a.framework) : a.merge b = .ok (a.append b) :=
  if_pos h

theorem merge_of_ne {a b : Collection} (h : a.framework ≠ b.framework) :
    a.merge b = .error ⟨b.framework, a.framework⟩ :=
  if_neg fun he => h he.symm

theorem merge_eq_ok_iff {a b m : Collection} :
    a.merge b = .ok m ↔ b.framework = a.framework ∧ m = a.append b := by
  by_cases h : b.framework = a.framework
  · simp [merge_of_eq h, h, eq_comm]
  · simp [merge_of_ne (Ne.symm h), h]

theorem agree_empty_append (c : Collection) : Agree (append { framework := c.framework } c) c where
  framework := rfl
  objects := by simp [append]
  lines l := by simp [append, mem_foldl_addLine]

/-- What is seen of two collections is the same. -/
structure Same (c c' : Collection) : Prop where
  objects : c.objects = c'.objects
  copyrightLines : c.copyrightLines = c'.copyrightLines
  copyrights : c.copyrights = c'.copyrights
  allFunctions : c.allFunctions = c'.allFunctions
  manifest : c.manifest = c'.manifest

theorem Agree.same {c c' : Collection} (h : Agree c c') : Same c c' where
  objects := h.objects
  copyrightLines := h.copyrightLines
  copyrights := by rw [copyrights, copyrightEntries, h.copyrightLines, copyrights, copyrightEntries]
  allFunctions := by rw [allFunctions, h.functions, allFunctions]
  manifest := h.manifest

theorem merge_assoc {a b c : Collection} (hb : b.framework = a.framework) (hc : c.framework = a.framework) :
    ∃ m, (a.merge b >>= fun x => x.merge c) = .ok m ∧ (b.merge c >>= fun y => a.merge y) = .ok m := by
  have hcb : c.framework = b.framework := hc.trans hb.symm
  refine ⟨(a.append b).append c, ?_, ?_⟩
  · rw [merge_of_eq hb]
    exact merge_of_eq hc
  · rw [merge_of_eq hcb, append_assoc]
    exact merge_of_eq hb

/-- What becomes of files: the collection of those that can be parsed, and for each file its error. -/
structure Gathered where
  collection : Collection
  errors : List (Option ParseError) := []

def Gathered.next (g : Gathered) (file : Text × Text) : Gathered :=
  match g.collection.parse file.1 file.2 with
  | .ok c => ⟨c, g.errors ++ [none]⟩
  | .error e => ⟨g.collection, g.errors ++ [some e]⟩

/-- Parses files in turn into one collection. -/
def gather (f : Framework) (files : List (Text × Text)) : Gathered :=
  files.foldl Gathered.next { collection := { framework := f } }

/-- Merges collections in turn into an empty one. -/
def mergeAll (f : Framework) (cs : List Collection) : Except MergeError Collection :=
  cs.foldlM merge { framework := f }

theorem parse_eq_ok_iff {c c' : Collection} {file text : Text} :
    c.parse file text = .ok c' ↔ ∃ o ls, readFile file text = .ok (o, ls) ∧ c' = c.add o ls := by
  constructor
  · intro h
    obtain ⟨r, hr, hc⟩ := bind_eq_ok.1 h
    exact ⟨r.1, r.2, hr, (Except.ok.inj hc).symm⟩
  · rintro ⟨o, ls, hr, rfl⟩
    exact bind_eq_ok.2 ⟨(o, ls), hr, rfl⟩

theorem parse_of_error {c : Collection} {file text : Text} {e : ParseError}
    (h : readFile file text = .error e) : c.parse file text = .error e := by
  rw [parse, h]
  rfl

/-- A file adds the same to any collection, and fails for all of them or for none. -/
theorem Gathered.next_eq (g : Gathered) (f : Framework) (file : Text × Text) :
    g.next file =
      ⟨g.collection.append (next ⟨{ framework := f }, []⟩ file).collection,
        g.errors ++ (next ⟨{ framework := f }, []⟩ file).errors⟩ := by
  cases h : readFile file.1 file.2 with
  | error e => simp [next, parse_of_error h, append_empty]
  | ok r =>
      obtain ⟨o, ls⟩ := r
      simp [next, parse_eq_ok_iff.2 ⟨o, ls, h, rfl⟩, append_add]

theorem foldl_next (g : Gathered) (f : Framework) (files : List (Text × Text)) :
    files.foldl Gathered.next g =
      ⟨g.collection.append (gather f files).collection, g.errors ++ (gather f files).errors⟩ := by
  induction files generalizing g with
  | nil => simp [gather, append_empty]
  | cons file files ih =>
      -- both runs take the first file, and from there on both are what the hypothesis says
      rw [gather, List.foldl_cons, List.foldl_cons, ih, ih (Gathered.next _ file), g.next_eq f file]
      simp only [append_assoc, List.append_assoc]

theorem gather_append (f : Framework) (xs ys : List (Text × Text)) :
    gather f (xs ++ ys) =
      ⟨(gather f xs).collection.append (gather f ys).collection,
        (gather f xs).errors ++ (gather f ys).errors⟩ := by
  rw [gather, List.foldl_append, foldl_next _ f ys, ← gather]

theorem framework_gather (f : Framework) (files : List (Text × Text)) :
    (gather f files).collection.framework = f := by
  rw [gather, foldl_next _ f files]
  rfl

theorem foldlM_merge_gather {f : Framework} {c : Collection} (hc : c.framework = f)
    (blocks : List (List (Text × Text))) :
    (blocks.map fun b => (gather f b).collection).foldlM merge c =
      .ok (c.append (gather f blocks.flatten).collection) := by
  induction blocks generalizing c with
  | nil => simp [gather, append_empty, pure, Except.pure]
  | cons b blocks ih =>
      have hb : (gather f b).collection.framework = c.framework := (framework_gather f b).trans hc.symm
      rw [List.map_cons, List.foldlM_cons, merge_of_eq hb, List.flatten_cons, gather_append, ← append_assoc]
      exact ih (c := c.append (gather f b).collection) hc

theorem errors_gather_flatten (f : Framework) (blocks : List (List (Text × Text))) :
    (gather f blocks.flatten).errors = blocks.flatMap fun b => (gather f b).errors := by
  induction blocks with
  | nil => rfl
  | cons b blocks ih => rw [List.flatten_cons, gather_append, ih, List.flatMap_cons]

/-- Files may be parsed in any blocks: the collections of the blocks, merged in their order, are the
collection of all files, and the same files fail. Merging is associative, an empty collection changes
nothing, and collections of different frameworks stay as they are. -/
theorem mergeAll_gather (f : Framework) (blocks : List (List (Text × Text))) :
    mergeAll f (blocks.map fun b => (gather f b).collection) = .ok (gather f blocks.flatten).collection ∧
    (blocks.flatMap fun b => (gather f b).errors) = (gather f blocks.flatten).errors ∧
    (∀ a b c : Collection, a.framework = f → b.framework = f → c.framework = f →
      ∃ m, (a.merge b >>= fun x => x.merge c) = .ok m ∧ (b.merge c >>= fun y => a.merge y) = .ok m) ∧
    (∀ c : Collection, c.framework = f → c.merge { framework := f } = .ok c ∧
      ∃ c', merge { framework := f } c = .ok c' ∧ Same c' c) ∧
    ∀ (p : Pool) (i j : Nat) (c other : Collection), p[i]? = some c → p[j]? = some other →
      c.framework ≠ other.framework →
        p.step (.merge i j) = (p, some (.merge ⟨other.framework, c.framework⟩)) := by
  refine ⟨?_, (errors_gather_flatten f blocks).symm, ?_, ?_, ?_⟩
  · rw [mergeAll, foldlM_merge_gather rfl]
    -- files that are parsed into an empty collection are those merged into it
    have hg := foldl_next ⟨{ framework := f }, []⟩ f blocks.flatten
    exact congrArg (Except.ok ∘ Gathered.collection) hg.symm
  · intro a b c ha hb hc
    exact merge_assoc (hb.trans ha.symm) (hc.trans ha.symm)
  · rintro c rfl
    have hright : c.merge { framework := c.framework } = .ok (c.append { framework := c.framework }) :=
      merge_of_eq rfl
    rw [append_empty] at hright
    exact ⟨hright, _, merge_of_eq rfl, (agree_empty_append c).same⟩
  · intro p i j c other hi hj hne
    simp [Pool.step, Pool.change, hi, hj, merge_of_ne hne, Except.mapError]

namespace Sample

/-- Two blocks, with a file in the first that lacks a license. -/
def blocks : List (List (Text × Text)) := [
  [("a.js", "/* 2015 A */ function f(x) \x7b\x7d"), ("b.js", "function g() \x7b\x7d")],
  [("c.js", "/* 2016 B */ constructor h() \x7b\x7d")]]

theorem mergeAll_gather_skipping :
    mergeAll .webCore (blocks.map fun b => (gather .webCore b).collection) =
      .ok (gather .webCore blocks.flatten).collection ∧
    (gather .webCore blocks.flatten).collection.objects.map (·.name) =
      [Text.ofString "a", Text.ofString "c"] ∧
    (gather .webCore blocks.flatten).errors.map Option.isSome = [false, true, false] ∧
    Pool.step [{ framework := .webCore }, { framework := .javaScriptCore }] (.merge 0 1) =
      ([{ framework := .webCore }, { framework := .javaScriptCore }],
        some (.merge ⟨.javaScriptCore, .webCore⟩)) :=
  ⟨(mergeAll_gather .webCore blocks).1, by decide +kernel, by decide +kernel,
    (mergeAll_gather .webCore blocks).2.2.2.2 _ 0 1 { framework := .webCore }
      { framework := .javaScriptCore } rfl rfl (by decide)⟩

end Sample

end BuiltinCatalog.Collection
