import BuiltinCatalog.Proofs.Collection.Merge

namespace BuiltinCatalog

namespace Collection

/-- Every object has a list of functions, and they name it as their owner. -/
def Owned (c : Collection) : Prop :=
  ∀ o ∈ c.objects, o.functions ≠ none ∧ ∀ f ∈ o.functionList, f.object = o.name

theorem owned_empty (f : Framework) : Owned { framework := f } := by
  intro o ho
  simp at ho

theorem Owned.add {c : Collection} (h : c.Owned) (o : BuiltinObject) (ls : List Text) : (c.add o ls).Owned := by
  intro o' ho
  rcases List.mem_append.1 ho with ho | ho
  · exact h o' ho
  · obtain rfl := List.mem_singleton.1 ho
    refine ⟨by simp [BuiltinObject.owning], fun f hf => ?_⟩
    obtain ⟨g, _, rfl⟩ := List.mem_map.1 (by simpa [BuiltinObject.owning, BuiltinObject.functionList] using hf)
    rfl

/-- Objects are taken over as they are, so the other collection has to own its functions too. -/
theorem Owned.append {c other : Collection} (h : c.Owned) (ho : other.Owned) : (c.append other).Owned := by
  intro o hm
  rcases List.mem_append.1 hm with hm | hm
  · exact h o hm
  · exact ho o hm

structure Grows (c c' : Collection) : Prop where
  objects : c.objects <+: c'.objects
  lines : c.copyrightLines ⊆ c'.copyrightLines

theorem Grows.refl (c : Collection) : Grows c c := ⟨List.prefix_rfl, List.Subset.refl _⟩

theorem copyrightLines_subset {c c' : Collection} (h : ∀ l ∈ c.lines, l ∈ c'.lines) :
    c.copyrightLines ⊆ c'.copyrightLines := by
  intro l hl
  exact Text.mem_distinct.2 (h l (Text.mem_distinct.1 hl))

theorem grows_add (c : Collection) (o : BuiltinObject) (ls : List Text) : Grows c (c.add o ls) where
  objects := List.prefix_append _ _
  lines := copyrightLines_subset fun _ hl => mem_foldl_addLine.2 (Or.inl hl)

theorem grows_append (c other : Collection) : Grows c (c.append other) where
  objects := List.prefix_append _ _
  lines := copyrightLines_subset fun _ hl => mem_foldl_addLine.2 (Or.inl hl)

end Collection

namespace Pool

variable {p p' : Pool} {s : Step} {e : Option Failure} {c c' : Collection}

/-- What a step can do: nothing, if it fails, or create a collection, or change one. -/
inductive Taken (p : Pool) : Step → Pool → Option Failure → Prop
  | failed {s : Step} {e : Failure} : Taken p s p (some e)
  | created {name : Text} {f : Framework} : Taken p (.create name) (p ++ [{ framework := f }]) none
  | parsed {target : Nat} {file text : Text} {c : Collection} {o : BuiltinObject} {ls : List Text}
      (found : p[target]? = some c) : Taken p (.parse target file text) (p.set target (c.add o ls)) none
  | added {target : Nat} {o : BuiltinObject} {ls : List Text} {c : Collection}
      (found : p[target]? = some c) : Taken p (.add target o ls) (p.set target (c.add o ls)) none
  | merged {target source : Nat} {c other : Collection} (found : p[target]? = some c)
      (other_found : p[source]? = some other) :
      Taken p (.merge target source) (p.set target (c.append other)) none

theorem change_cases (p : Pool) (target : Nat) (f : Collection → Except Failure Collection) :
    (∃ e, p.change target f = (p, some e)) ∨
      ∃ c c', p[target]? = some c ∧ f c = .ok c' ∧ p.change target f = (p.set target c', none) := by
  cases hc : p[target]? with
  | none => exact Or.inl ⟨.missing target, by simp [change, hc]⟩
  | some c =>
      cases hf : f c with
      | error e => exact Or.inl ⟨e, by simp [change, hc, hf]⟩
      | ok c' => exact Or.inr ⟨c, c', rfl, hf, by simp [change, hc, hf]⟩

theorem step_taken (p : Pool) (s : Step) : Taken p s (p.step s).1 (p.step s).2 := by
  cases s with
  | create name =>
      cases hf : Framework.ofName? name with
      | none =>
          simp only [step, hf]
          exact .failed
      | some f =>
          simp only [step, hf]
          exact .created
  | parse target file text =>
      rcases change_cases p target fun c => (c.parse file text).mapError .parse with
        ⟨e, h⟩ | ⟨c, c', hc, hf, h⟩
      · rw [step, h]
        exact .failed
      · obtain ⟨o, ls, _, rfl⟩ := Collection.parse_eq_ok_iff.1 (mapError_eq_ok.1 hf)
        rw [step, h]
        exact .parsed hc
  | add target o ls =>
      rcases change_cases p target fun c => .ok (c.add o ls) with ⟨e, h⟩ | ⟨c, c', hc, hf, h⟩
      · rw [step, h]
        exact .failed
      · obtain rfl := Except.ok.inj hf
        rw [step, h]
        exact .added hc
  | merge target source =>
      cases hs : p[source]? with
      | none =>
          simp only [step, hs]
          exact .failed
      | some other =>
          simp only [step, hs]
          rcases change_cases p target fun c => (c.merge other).mapError .merge with
            ⟨e, h⟩ | ⟨c, c', hc, hf, h⟩
          · rw [h]
            exact .failed
          · obtain ⟨_, rfl⟩ := Collection.merge_eq_ok_iff.1 (mapError_eq_ok.1 hf)
            rw [h]
            exact .merged hc hs

theorem owned_set (h : ∀ c ∈ p, c.Owned) (hc : c.Owned) (target : Nat) : ∀ d ∈ p.set target c, d.Owned := by
  intro d hd
  rcases List.mem_or_eq_of_mem_set hd with hd | rfl
  · exact h d hd
  · exact hc

theorem Taken.owned (ht : Taken p s p' e) (h : ∀ c ∈ p, c.Owned) : ∀ c ∈ p', c.Owned := by
  cases ht with
  | failed => exact h
  | created =>
      intro c hc
      rcases List.mem_append.1 hc with hc | hc
      · exact h c hc
      · obtain rfl := List.mem_singleton.1 hc
        exact Collection.owned_empty _
  | parsed found | added found => exact owned_set h ((h _ (List.mem_of_getElem? found)).add _ _) _
  | merged found other_found =>
      exact owned_set h ((h _ (List.mem_of_getElem? found)).append (h _ (List.mem_of_getElem? other_found))) _

def Grows (p p' : Pool) : Prop := ∀ (i : Nat) (c : Collection), p[i]? = some c → ∃ c', p'[i]? = some c' ∧ c.Grows c'

theorem grows_set {target : Nat} (hc : p[target]? = some c) (hg : c.Grows c') : Grows p (p.set target c') := by
  intro i d hd
  by_cases hi : target = i
  · subst hi
    obtain rfl := Option.some.inj (hc.symm.trans hd)
    have hlt : target < p.length := (List.getElem?_eq_some_iff.1 hc).1
    exact ⟨c', by simp [hlt], hg⟩
  · exact ⟨d, by rw [List.getElem?_set_ne hi, hd], .refl d⟩

theorem Taken.grows (ht : Taken p s p' e) : Grows p p' := by
  cases ht with
  | failed => exact fun i c hc => ⟨c, hc, .refl c⟩
  | created =>
      intro i c hc
      have hlt : i < p.length := (List.getElem?_eq_some_iff.1 hc).1
      exact ⟨c, by rw [List.getElem?_append_left hlt, hc], .refl c⟩
  | parsed found | added found => exact grows_set found (Collection.grows_add _ _ _)
  | merged found _ => exact grows_set found (Collection.grows_append _ _)

theorem Taken.eq_of_failed {f : Failure} (ht : Taken p s p' (some f)) : p' = p := by
  cases ht
  rfl

theorem Taken.source {target source : Nat} (ht : Taken p (.merge target source) p' e) (hne : source ≠ target) :
    p'[source]? = p[source]? := by
  cases ht with
  | failed => rfl
  | merged => exact List.getElem?_set_ne hne.symm

theorem owned_after (steps : List Step) (h : ∀ c ∈ p, c.Owned) : ∀ c ∈ p.after steps, c.Owned := by
  induction steps generalizing p with
  | nil => exact h
  | cons s steps ih => exact ih ((step_taken p s).owned h)

/-- After any steps, one more keeps what every collection holds: its objects own their functions, and its
objects and lines are those from before with more behind them or among them. A step that fails changes
nothing, and merging changes the target only. -/
theorem step_keeps (steps : List Step) (s : Step) :
    let p : Pool := after [] steps
    let q := (p.step s).1
    (∀ c ∈ q, c.Owned ∧ c.copyrightLines.Pairwise (· < ·)) ∧
    (∀ (i : Nat) (c : Collection), p[i]? = some c →
      ∃ c', q[i]? = some c' ∧ c.objects <+: c'.objects ∧ c.copyrightLines ⊆ c'.copyrightLines) ∧
    ((p.step s).2 ≠ none → q = p) ∧
    ∀ target source, s = .merge target source → source ≠ target → q[source]? = p[source]? := by
  intro p q
  have htaken : Taken p s q (p.step s).2 := step_taken p s
  refine ⟨?_, ?_, ?_, ?_⟩
  · intro c hc
    exact ⟨htaken.owned (owned_after steps (by simp)) c hc, Text.pairwise_distinct _⟩
  · intro i c hc
    obtain ⟨c', hc', hg⟩ := htaken.grows i c hc
    exact ⟨c', hc', hg.objects, hg.lines⟩
  · intro hfail
    obtain ⟨f, hf⟩ := Option.ne_none_iff_exists'.1 hfail
    rw [hf] at htaken
    exact htaken.eq_of_failed
  · rintro target source rfl hne
    exact htaken.source hne

namespace Sample

/-- An object whose function names another owner, one without a list, and a collection of another
framework. -/
def steps : List Step := [
  .create "WebCore",
  .add 0 ⟨"a", some [{ name := "f", source := [], object := "b" }]⟩ ["2016 A", "2015 A"],
  .add 0 ⟨"c", none⟩ ["2015 A"],
  .create "JavaScriptCore"]

theorem step_keeps_self_merge :
    (step (after [] steps) (.merge 0 0)).2 = none ∧
    (step (after [] steps) (.merge 0 0)).1.map (fun c => c.objects.length) = [4, 0] ∧
    (∀ c ∈ (step (after [] steps) (.merge 0 0)).1, c.Owned ∧ c.copyrightLines.Pairwise (· < ·)) ∧
    (step (after [] steps) (.merge 0 1)).2 ≠ none ∧
    (step (after [] steps) (.merge 0 1)).1 = after [] steps := by
  have hfail : (step (after [] steps) (.merge 0 1)).2 ≠ none := by decide
  exact ⟨by decide, by decide, (step_keeps steps (.merge 0 0)).1, hfail,
    (step_keeps steps (.merge 0 1)).2.2.1 hfail⟩

end Sample

end Pool

end BuiltinCatalog
