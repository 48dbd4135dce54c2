import BuiltinCatalog.Files.Path
import BuiltinCatalog.Proofs.Text.Search
import Mathlib.Data.List.TakeWhile

namespace BuiltinCatalog.Path

variable {current p q c : Text} {place done cs : List Text} {rooted : Bool}

/-- A component that names an entry of a directory. -/
structure IsName (c : Text) : Prop where
  ne_nil : c ≠ []
  ne_dot : c ≠ Text.ofString "."
  ne_dots : c ≠ Text.ofString ".."
  no_slash : slash ∉ c

theorem isName_iff : IsName c ↔ c ≠ [] ∧ c ≠ Text.ofString "." ∧ c ≠ Text.ofString ".." ∧ slash ∉ c := by
  constructor
  · intro h
    exact ⟨h.1, h.2, h.3, h.4⟩
  · rintro ⟨hnil, hdot, hdots, hslash⟩
    exact ⟨hnil, hdot, hdots, hslash⟩

instance (c : Text) : Decidable (IsName c) := decidable_of_iff _ isName_iff.symm

def IsBlank (c : Text) : Prop := c = [] ∨ c = Text.ofString "."

def Stays (c : Text) : Prop := c = Text.ofString ".." ∨ IsName c

theorem component_cases (h : slash ∉ c) : IsBlank c ∨ c = Text.ofString ".." ∨ IsName c := by
  by_cases hblank : IsBlank c
  · exact Or.inl hblank
  · obtain ⟨hnil, hdot⟩ := not_or.1 hblank
    by_cases hdots : c = Text.ofString ".."
    · exact Or.inr (Or.inl hdots)
    · exact Or.inr (Or.inr ⟨hnil, hdot, hdots, h⟩)

theorem Stays.no_slash (h : Stays c) : slash ∉ c := by
  rcases h with rfl | h
  · decide
  · exact h.no_slash

theorem Stays.ne_nil (h : Stays c) : c ≠ [] := by
  rcases h with rfl | h
  · decide
  · exact h.ne_nil

theorem push_blank (h : IsBlank c) : push rooted done c = done := if_pos h

theorem push_name (h : IsName c) : push rooted done c = c :: done := by
  unfold push
  rw [if_neg (not_or.2 ⟨h.ne_nil, h.ne_dot⟩), if_neg h.ne_dots]

theorem push_dots_name (h : IsName c) : push rooted (c :: done) (Text.ofString "..") = done := by
  unfold push
  rw [if_neg (by decide), if_pos rfl]
  exact if_neg h.ne_dots

theorem push_dots_dots :
    push rooted (Text.ofString ".." :: done) (Text.ofString "..") =
      Text.ofString ".." :: Text.ofString ".." :: done := by
  unfold push
  rw [if_neg (by decide), if_pos rfl]
  exact if_pos rfl

theorem foldl_push_keeps {P : List Text → Prop}
    (hpush : ∀ {done : List Text} {c : Text}, slash ∉ c → P done → P (push rooted done c))
    (hcs : ∀ c ∈ cs, slash ∉ c) (h : P done) : P (cs.foldl (push rooted) done) := by
  induction cs generalizing done with
  | nil => exact h
  | cons c cs ih =>
      obtain ⟨hc, hcs⟩ := List.forall_mem_cons.1 hcs
      exact ih hcs (hpush hc h)

theorem no_slash_of_mem_splitOn (p : Text) : ∀ c ∈ p.splitOn slash, slash ∉ c :=
  fun _ hc => Text.not_mem_of_mem_splitOn hc

theorem stays_push (hc : slash ∉ c) (h : ∀ n ∈ done, Stays n) : ∀ n ∈ push rooted done c, Stays n := by
  rcases component_cases hc with hc | rfl | hc
  · rwa [push_blank hc]
  · cases done with
    | nil =>
        intro n hn
        cases rooted with
        | true => exact absurd hn (by simp [push])
        | false => exact Or.inl (List.mem_singleton.1 hn)
    | cons last rest =>
        rcases h last (by simp) with rfl | hlast
        · rw [push_dots_dots]
          exact List.forall_mem_cons.2 ⟨Or.inl rfl, h⟩
        · rw [push_dots_name hlast]
          exact (List.forall_mem_cons.1 h).2
  · rw [push_name hc]
    exact List.forall_mem_cons.2 ⟨Or.inr hc, h⟩

theorem stays_of_mem_components (h : c ∈ components p) : Stays c :=
  foldl_push_keeps (P := fun done => ∀ n ∈ done, Stays n) stays_push (no_slash_of_mem_splitOn p) (by simp) c
    (List.mem_reverse.1 h)

theorem isName_push (hc : slash ∉ c) (h : ∀ n ∈ done, IsName n) : ∀ n ∈ push true done c, IsName n := by
  rcases component_cases hc with hc | rfl | hc
  · rwa [push_blank hc]
  · cases done with
    | nil => simp [push]
    | cons last rest =>
        obtain ⟨hlast, hrest⟩ := List.forall_mem_cons.1 h
        rwa [push_dots_name hlast]
  · rw [push_name hc]
    exact List.forall_mem_cons.2 ⟨hc, h⟩

theorem isName_of_mem_components (hp : isAbsolute p = true) (h : c ∈ components p) : IsName c := by
  rw [components, hp, List.mem_reverse] at h
  exact foldl_push_keeps (P := fun done => ∀ n ∈ done, IsName n) isName_push (no_slash_of_mem_splitOn p)
    (by simp) c h

/-- Where a path leads from a place. -/
def follow (place : List Text) (p : Text) : List Text :=
  ((p.splitOn slash).foldl (push true) place.reverse).reverse

theorem follow_nil (place : List Text) : follow place [] = place := by
  rw [follow, List.splitOn_nil, List.foldl_cons, List.foldl_nil, push_blank (Or.inl rfl), List.reverse_reverse]

theorem follow_append (place : List Text) (p q : Text) :
    follow place (p ++ slash :: q) = follow (follow place p) q := by
  rw [follow, List.splitOn_append_cons_self, List.foldl_append, follow, follow, List.reverse_reverse]

theorem follow_name (h : IsName c) : follow place c = place ++ [c] := by
  rw [follow, List.splitOn_eq_singleton h.no_slash, List.foldl_cons, List.foldl_nil, push_name h,
    List.reverse_cons, List.reverse_reverse]

theorem components_eq_follow (hp : isAbsolute p = true) : components p = follow [] p := by
  rw [components, hp, follow, List.reverse_nil]

theorem foldl_push_blank (h : ∀ c ∈ cs, IsBlank c) : cs.foldl (push rooted) done = done := by
  induction cs with
  | nil => rfl
  | cons c cs ih =>
      obtain ⟨hc, hcs⟩ := List.forall_mem_cons.1 h
      rw [List.foldl_cons, push_blank hc, ih hcs]

theorem foldl_reverse_push {start : List Text} (hr : rooted = true → start = []) (hc : slash ∉ c)
    (h : ∀ n ∈ done, Stays n) :
    (push rooted done c).reverse.foldl (push true) start =
      push true (done.reverse.foldl (push true) start) c := by
  rcases component_cases hc with hc | rfl | hc
  · rw [push_blank hc, push_blank hc]
  · cases done with
    | nil =>
        cases rooted with
        | true =>
            obtain rfl := hr rfl
            rfl
        | false => rfl
    | cons last rest =>
        rcases h last (by simp) with rfl | hlast
        · rw [push_dots_dots, List.reverse_cons, List.foldl_append]
          rfl
        · rw [push_dots_name hlast, List.reverse_cons, List.foldl_append, List.foldl_cons, List.foldl_nil,
            push_name hlast, push_dots_name hlast]
  · rw [push_name hc, List.reverse_cons, List.foldl_append]
    rfl

theorem foldl_reverse_foldl {start : List Text} (hr : rooted = true → start = [])
    (hcs : ∀ c ∈ cs, slash ∉ c) (h : ∀ n ∈ done, Stays n) :
    (cs.foldl (push rooted) done).reverse.foldl (push true) start =
      cs.foldl (push true) (done.reverse.foldl (push true) start) := by
  induction cs generalizing done with
  | nil => rfl
  | cons c cs ih =>
      obtain ⟨hc, hcs⟩ := List.forall_mem_cons.1 hcs
      rw [List.foldl_cons, ih hcs (stays_push hc h), foldl_reverse_push hr hc h, List.foldl_cons]

theorem foldl_components (hp : isAbsolute p = true → place = []) :
    ((components p).foldl (push true) place.reverse).reverse = follow place p := by
  have hplace : isAbsolute p = true → place.reverse = [] := fun h => by rw [hp h, List.reverse_nil]
  rw [components, foldl_reverse_foldl hplace (no_slash_of_mem_splitOn p) (by simp), List.reverse_nil, List.foldl_nil, follow]

theorem splitOn_intercalate_components (h : components p ≠ []) :
    ([slash].intercalate (components p)).splitOn slash = components p :=
  List.splitOn_intercalate slash (fun _ hc => (stays_of_mem_components hc).no_slash) h

theorem intercalate_components_ne_nil (h : components p ≠ []) : [slash].intercalate (components p) ≠ [] := by
  intro hnil
  have hsplit := splitOn_intercalate_components h
  rw [hnil, List.splitOn_nil] at hsplit
  have hmem : [] ∈ components p := by simp [← hsplit]
  exact (stays_of_mem_components hmem).ne_nil rfl

/-- A clean path has the components of the path, with nothing but blank ones around them. -/
theorem splitOn_clean (p : Text) :
    ∃ us vs, (clean p).splitOn slash = us ++ components p ++ vs ∧
      (∀ c ∈ us, IsBlank c) ∧ ∀ c ∈ vs, IsBlank c := by
  by_cases hnil : components p = []
  · rw [clean, hnil]
    cases isAbsolute p with
    | true => exact ⟨[[]], [[]], by decide, by simp [IsBlank], by simp [IsBlank]⟩
    | false => exact ⟨[Text.ofString "."], [], by decide, by simp [IsBlank], by simp⟩
  · have hsplit := splitOn_intercalate_components hnil
    rw [clean]
    cases isAbsolute p with
    | true =>
        refine ⟨[[]], [], ?_, by simp [IsBlank], by simp⟩
        have hcons := List.splitOn_append_cons_self (a := slash) [] ([slash].intercalate (components p))
        simpa [hsplit] using hcons
    | false =>
        refine ⟨[], [], ?_, by simp, by simp⟩
        simpa [intercalate_components_ne_nil hnil] using hsplit

theorem follow_clean (hp : isAbsolute p = true → place = []) : follow place (clean p) = follow place p := by
  obtain ⟨us, vs, hsplit, hus, hvs⟩ := splitOn_clean p
  rw [follow, hsplit, List.foldl_append, List.foldl_append, foldl_push_blank hus, foldl_push_blank hvs,
    foldl_components hp]

theorem isAbsolute_append (h : p ≠ []) (q : Text) : isAbsolute (p ++ q) = isAbsolute p := by
  cases p with
  | nil => exact absurd rfl h
  | cons b p => rfl

theorem isAbsolute_of_no_slash (h : slash ∉ p) : isAbsolute p = false := by
  cases p with
  | nil => rfl
  | cons b p =>
      have hb : b ≠ slash := fun he => h (by simp [he])
      simpa [isAbsolute] using hb

theorem isAbsolute_clean (p : Text) : isAbsolute (clean p) = isAbsolute p := by
  rw [clean]
  cases hp : isAbsolute p with
  | true => rfl
  | false =>
      cases hcs : components p with
      | nil => rfl
      | cons c cs =>
          have hc : Stays c := stays_of_mem_components (p := p) (by simp [hcs])
          have hne := intercalate_components_ne_nil (p := p) (by simp [hcs])
          rw [hcs] at hne
          rw [if_neg (by simp), if_neg hne]
          cases cs with
          | nil => rw [List.intercalate_singleton, isAbsolute_of_no_slash hc.no_slash]
          | cons d cs =>
              rw [List.intercalate_cons_cons, List.append_assoc, isAbsolute_append hc.ne_nil,
                isAbsolute_of_no_slash hc.no_slash]

theorem ne_nil_of_isAbsolute (h : isAbsolute p = true) : p ≠ [] := by
  rintro rfl
  simp [isAbsolute] at h

/-- The place that a path names, where it may start from the current directory. -/
def resolve (current p : Text) : List Text := components (absolute current p)

theorem join_pair (h : p ≠ []) (q : Text) : join [p, q] = clean (p ++ slash :: q) := by
  rw [join, List.dropWhile_cons_of_neg (by simpa using h)]
  simp [List.intercalate_cons_cons, List.intercalate_singleton]

theorem resolve_eq_follow (hcur : isAbsolute current = true) (p : Text) :
    resolve current p = follow (if isAbsolute p then [] else components current) p := by
  have hne := ne_nil_of_isAbsolute hcur
  rw [resolve, absolute]
  cases hp : isAbsolute p with
  | true =>
      rw [if_pos rfl, if_pos rfl, components_eq_follow (by rw [isAbsolute_clean, hp])]
      exact follow_clean fun _ => rfl
  | false =>
      rw [if_neg (by simp), if_neg (by simp), join_pair hne]
      have habs : isAbsolute (current ++ slash :: p) = true := by rw [isAbsolute_append hne, hcur]
      rw [components_eq_follow (by rw [isAbsolute_clean, habs]), follow_clean fun _ => rfl, follow_append,
        ← components_eq_follow hcur]

theorem isAbsolute_absolute (hcur : isAbsolute current = true) (p : Text) :
    isAbsolute (absolute current p) = true := by
  have hne := ne_nil_of_isAbsolute hcur
  rw [absolute]
  split
  next hp => rw [isAbsolute_clean, hp]
  next => rw [join_pair hne, isAbsolute_clean, isAbsolute_append hne, hcur]

def IsClean (p : Text) : Prop := ∃ q, isAbsolute q = true ∧ p = clean q

theorem isClean_join (hp : isAbsolute p = true) (q : Text) : IsClean (join [p, q]) := by
  have hne := ne_nil_of_isAbsolute hp
  refine ⟨p ++ slash :: q, ?_, join_pair hne q⟩
  rw [isAbsolute_append hne, hp]

theorem isClean_absolute (hcur : isAbsolute current = true) (p : Text) : IsClean (absolute current p) := by
  rw [absolute]
  split
  next hp => exact ⟨p, hp, rfl⟩
  next => exact isClean_join hcur p

theorem components_clean (hp : isAbsolute p = true) : components (clean p) = components p := by
  rw [components_eq_follow (by rw [isAbsolute_clean, hp]), follow_clean fun _ => rfl, components_eq_follow hp]

theorem IsClean.isAbsolute (h : IsClean p) : isAbsolute p = true := by
  obtain ⟨q, hq, rfl⟩ := h
  rw [isAbsolute_clean, hq]

theorem IsClean.eq_intercalate (h : IsClean p) : p = slash :: [slash].intercalate (components p) := by
  obtain ⟨q, hq, rfl⟩ := h
  rw [components_clean hq, clean, if_pos hq]

theorem IsClean.inj {q : Text} (hp : IsClean p) (hq : IsClean q) (h : components p = components q) : p = q := by
  rw [hp.eq_intercalate, h, ← hq.eq_intercalate]

theorem IsClean.resolve_eq (h : IsClean p) : resolve current p = components p := by
  rw [resolve, absolute, if_pos h.isAbsolute, components_clean h.isAbsolute]

theorem isName_of_mem_resolve (hcur : isAbsolute current = true) (h : c ∈ resolve current p) : IsName c :=
  isName_of_mem_components (isAbsolute_absolute hcur p) h

theorem resolve_clean (hcur : isAbsolute current = true) (p : Text) :
    resolve current (clean p) = resolve current p := by
  rw [resolve_eq_follow hcur, resolve_eq_follow hcur, isAbsolute_clean]
  exact follow_clean fun hp => if_pos hp

theorem resolve_append (hcur : isAbsolute current = true) (hp : p ≠ []) (q : Text) :
    resolve current (p ++ slash :: q) = follow (resolve current p) q := by
  rw [resolve_eq_follow hcur, resolve_eq_follow hcur, isAbsolute_append hp, follow_append]

def Forward (cs : List Text) : Prop := cs.Pairwise fun c d => IsName c → d ≠ Text.ofString ".."

theorem forward_push (hc : slash ∉ c) (hstays : ∀ n ∈ done, Stays n) (h : Forward done.reverse) :
    Forward (push rooted done c).reverse := by
  have hcons (d : Text) (hd : ∀ n ∈ done, IsName n → d ≠ Text.ofString "..") :
      Forward (d :: done).reverse := by
    rw [List.reverse_cons]
    refine List.pairwise_append.2 ⟨h, List.pairwise_singleton _ _, fun n hn e he => ?_⟩
    obtain rfl := List.mem_singleton.1 he
    exact hd n (List.mem_reverse.1 hn)
  rcases component_cases hc with hc | rfl | hc
  · rwa [push_blank hc]
  · cases done with
    | nil =>
        cases rooted with
        | true => exact h
        | false => exact List.pairwise_singleton _ _
    | cons last rest =>
        rw [Forward, List.reverse_cons, List.pairwise_append] at h
        rcases hstays last (by simp) with rfl | hlast
        · -- before a step back there are no names
          rw [push_dots_dots]
          refine hcons _ fun n hn hname => ?_
          rcases List.mem_cons.1 hn with rfl | hn
          · exact absurd rfl hname.ne_dots
          · exact absurd rfl (h.2.2 n (List.mem_reverse.2 hn) _ (by simp) hname)
        · rw [push_dots_name hlast]
          exact h.1
  · rw [push_name hc]
    exact hcons c fun _ _ _ => hc.ne_dots

theorem forward_components (p : Text) : Forward (components p) := by
  let P (done : List Text) : Prop := (∀ n ∈ done, Stays n) ∧ Forward done.reverse
  have hkept : P ((p.splitOn slash).foldl (push (isAbsolute p)) []) :=
    foldl_push_keeps (P := P) (fun hc h => ⟨stays_push hc h.1, forward_push hc h.1 h.2⟩)
      (no_slash_of_mem_splitOn p) ⟨by simp, List.Pairwise.nil⟩
  exact hkept.2

theorem IsBlank.not_isName (h : IsBlank c) : ¬ IsName c := by
  intro hname
  rcases h with rfl | rfl
  · exact hname.ne_nil rfl
  · exact hname.ne_dot rfl

theorem IsBlank.ne_dots (h : IsBlank c) : c ≠ Text.ofString ".." := by
  rcases h with rfl | rfl <;> decide

theorem forward_clean (p : Text) : Forward ((clean p).splitOn slash) := by
  obtain ⟨us, vs, hsplit, hus, hvs⟩ := splitOn_clean p
  have hblank (cs : List Text) (h : ∀ c ∈ cs, IsBlank c) : Forward cs :=
    List.pairwise_of_forall_mem_list fun c hc _ _ hname => absurd hname (h c hc).not_isName
  rw [hsplit]
  refine List.pairwise_append.2 ⟨List.pairwise_append.2 ⟨hblank us hus, forward_components p, ?_⟩,
    hblank vs hvs, ?_⟩
  · exact fun c hc _ _ hname => absurd hname (hus c hc).not_isName
  · exact fun _ _ d hd _ => (hvs d hd).ne_dots

theorem suffix_foldl (h : ∀ c ∈ cs, slash ∉ c ∧ c ≠ Text.ofString "..") :
    done <:+ cs.foldl (push true) done := by
  induction cs generalizing done with
  | nil => exact List.suffix_refl _
  | cons c cs ih =>
      obtain ⟨⟨hslash, hdots⟩, hcs⟩ := List.forall_mem_cons.1 h
      rw [List.foldl_cons]
      rcases component_cases hslash with hc | hc | hc
      · rw [push_blank hc]
        exact ih hcs
      · exact absurd hc hdots
      · rw [push_name hc]
        exact (List.suffix_cons c done).trans (ih hcs)

theorem prefix_follow (h : Text.ofString ".." ∉ q.splitOn slash) : place <+: follow place q := by
  rw [← List.reverse_suffix, follow, List.reverse_reverse]
  refine suffix_foldl fun c hc => ⟨Text.not_mem_of_mem_splitOn hc, ?_⟩
  rintro rfl
  exact h hc

theorem prefix_resolve_clean (hcur : isAbsolute current = true) {u v : Text}
    (hp : clean p = u ++ slash :: v) (hc : c ∈ u.splitOn slash) (hname : IsName c) :
    resolve current u <+: resolve current (clean p) := by
  have hforward := forward_clean p
  rw [hp, List.splitOn_append_cons_self] at hforward
  have hu : u ≠ [] := by
    rintro rfl
    rw [List.splitOn_nil, List.mem_singleton] at hc
    exact hname.ne_nil hc
  rw [hp, resolve_append hcur hu]
  refine prefix_follow fun hdots => ?_
  exact (List.pairwise_append.1 hforward).2.2 c hc _ hdots hname rfl

theorem slash_not_mem_lastPart (p : Text) : slash ∉ lastPart p := by
  intro h
  rw [lastPart, List.mem_reverse] at h
  simpa using List.mem_takeWhile_imp h

theorem dropWhile_slash_cases (t : Text) :
    t.dropWhile (· != slash) = [] ∨ ∃ u, t.dropWhile (· != slash) = slash :: u := by
  cases hd : t.dropWhile (· != slash) with
  | nil => exact Or.inl rfl
  | cons b u =>
      have hb := List.head?_dropWhile_not (· != slash) t
      rw [hd] at hb
      exact Or.inr ⟨u, by simpa using hb⟩

theorem lastPart_cases (p : Text) : p = lastPart p ∨ ∃ u, p = u ++ slash :: lastPart p := by
  have hsplit := List.takeWhile_append_dropWhile (p := (· != slash)) (l := p.reverse)
  rcases dropWhile_slash_cases p.reverse with hd | ⟨u, hd⟩
  · rw [hd, List.append_nil] at hsplit
    exact Or.inl (by rw [lastPart, hsplit, List.reverse_reverse])
  · have hp := congrArg List.reverse hsplit
    rw [hd, List.reverse_append, List.reverse_reverse, List.reverse_cons, ← lastPart, List.append_assoc] at hp
    exact Or.inr ⟨u.reverse, hp.symm⟩

theorem leadingPart_cases (p : Text) :
    (p = lastPart p ∧ leadingPart p = []) ∨ ∃ u, p = u ++ slash :: lastPart p ∧ leadingPart p = u ++ [slash] := by
  rcases lastPart_cases p with hp | ⟨u, hp⟩
  · exact Or.inl ⟨hp, by rw [leadingPart, ← hp, Nat.sub_self, List.take_zero]⟩
  · have hsplit : p = (u ++ [slash]) ++ lastPart p := by simpa using hp
    have hlen : p.length - (lastPart p).length = (u ++ [slash]).length := by
      have := congrArg List.length hsplit
      rw [List.length_append] at this
      omega
    refine Or.inr ⟨u, hp, ?_⟩
    rw [leadingPart, hlen]
    nth_rewrite 1 [hsplit]
    exact List.take_left

theorem resolve_eq_follow_lastPart (hcur : isAbsolute current = true) (p : Text) :
    resolve current p = follow (resolve current (leadingPart p)) (lastPart p) := by
  rcases leadingPart_cases p with ⟨hp, hleading⟩ | ⟨u, hp, hleading⟩
  · have hslash := slash_not_mem_lastPart p
    rw [← hp] at hslash
    rw [hleading, ← hp, resolve_eq_follow hcur, resolve_eq_follow hcur, isAbsolute_of_no_slash hslash]
    exact congrArg (follow · p) (follow_nil _).symm
  · have habs : isAbsolute (u ++ slash :: lastPart p) = isAbsolute (u ++ [slash]) := by cases u <;> rfl
    calc resolve current p = resolve current (u ++ slash :: lastPart p) := congrArg (resolve current) hp
      _ = follow (resolve current (u ++ [slash])) (lastPart p) := by
        rw [resolve_eq_follow hcur, resolve_eq_follow hcur, habs, follow_append, follow_append, follow_nil]
      _ = follow (resolve current (leadingPart p)) (lastPart p) := by rw [hleading]

theorem prefix_follow_component {own : List Text} {x : Text} (hplace : ∀ n ∈ place, IsName n) (hc : slash ∉ c)
    (h : own ++ [x] <+: place) : own <+: follow place c := by
  have hown : own <+: place := (List.prefix_append own [x]).trans h
  rw [follow, List.splitOn_eq_singleton hc, List.foldl_cons, List.foldl_nil]
  rcases component_cases hc with hc | rfl | hc
  · rwa [push_blank hc, List.reverse_reverse]
  · obtain ⟨rest, rfl⟩ := h
    rcases List.eq_nil_or_concat rest with rfl | ⟨rest, last, rfl⟩
    · rw [List.append_nil, List.reverse_append, List.reverse_singleton, List.singleton_append,
        push_dots_name (hplace x (by simp)), List.reverse_reverse]
    · rw [List.concat_eq_append, ← List.append_assoc, List.reverse_append, List.reverse_singleton,
        List.singleton_append, push_dots_name (hplace last (by simp)), List.reverse_reverse, List.append_assoc]
      exact List.prefix_append _ _
  · rw [push_name hc, List.reverse_cons, List.reverse_reverse]
    exact hown.trans (List.prefix_append _ _)

theorem lastPart_mem_splitOn (p : Text) : lastPart p ∈ p.splitOn slash := by
  have hlast := List.splitOn_eq_singleton (slash_not_mem_lastPart p)
  rcases lastPart_cases p with hp | ⟨u, hp⟩
  · have hsplit : p.splitOn slash = [lastPart p] := (congrArg (List.splitOn slash) hp).trans hlast
    rw [hsplit]
    exact List.mem_singleton_self _
  · have hsplit : p.splitOn slash = u.splitOn slash ++ [lastPart p] := by
      rw [← hlast, ← List.splitOn_append_cons_self, ← hp]
    rw [hsplit]
    exact List.mem_append_right _ (List.mem_singleton_self _)

end BuiltinCatalog.Path
