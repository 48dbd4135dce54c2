import BuiltinCatalog.Cache.Store
import BuiltinCatalog.Proofs.Cache.Image
import BuiltinCatalog.Proofs.Cache.Purity
import Mathlib.Data.Option.Basic
import Mathlib.Logic.Function.Basic

namespace BuiltinCatalog.Store

open Json (Dialect)

inductive Op where
  | put (path : Text) (entry : CacheEntry)
  | erase (path : Text)
  | clear
  | setSchema (version : Int) (hash : Text)
  | migrate (framework : Text)
  | reopen
  | reload
  deriving DecidableEq, Repr

/-- A store whose cache comes from the bytes of an image; nothing is kept of one that cannot be read. -/
def reload (s : Store) : Store := { cache := (Cache.ofImage? s.cache.image).getD {} }

def attempt (dialect : Dialect) (s : Store) : Op → Except CacheError Store
  | .put path e => s.put dialect path e
  | .erase path => s.erase path
  | .clear => s.clear
  | .setSchema version hash => s.setSchema version hash
  | .migrate framework => s.migrate dialect framework
  | .reopen => .ok s.close.reopen
  | .reload => .ok s.reload

def step (dialect : Dialect) (s : Store) (op : Op) : Store :=
  match s.attempt dialect op with
  | .ok s => s
  | .error _ => s

def run (dialect : Dialect) (ops : List Op) : Store := ops.foldl (step dialect) {}

def IsKey (p : Text) : Prop := p ≠ [] ∧ p.length ≤ Cache.maxKeyLength

instance (p : Text) : Decidable (IsKey p) := inferInstanceAs (Decidable (_ ∧ _))

/-- The bytes of the entry are not too many for a cache. -/
def IsStorable (dialect : Dialect) (e : CacheEntry) : Prop := (e.text dialect).length ≤ Cache.maxValueLength

instance (dialect : Dialect) (e : CacheEntry) : Decidable (IsStorable dialect e) :=
  inferInstanceAs (Decidable (_ ≤ _))

namespace Op

/-- Writes the entry of a path or drops it. -/
def Affects (dialect : Dialect) (p : Text) : Op → Prop
  | .put path e => path = p ∧ IsStorable dialect e
  | .erase path => path = p
  | .clear => True
  | _ => False

instance (dialect : Dialect) (p : Text) : (op : Op) → Decidable (op.Affects dialect p)
  | .put path e => inferInstanceAs (Decidable (path = p ∧ IsStorable dialect e))
  | .erase path => inferInstanceAs (Decidable (path = p))
  | .clear => .isTrue trivial
  | .setSchema _ _ | .migrate _ | .reopen | .reload => .isFalse not_false

end Op

/-- The entry was put at the path, and nothing was put there, erased or cleared since. -/
def LastPut (dialect : Dialect) (p : Text) (e : CacheEntry) (ops : List Op) : Prop :=
  ∃ before after, ops = before ++ .put p e :: after ∧ IsStorable dialect e ∧
    ∀ op ∈ after, ¬ op.Affects dialect p

abbrev View := Text → Option CacheEntry

def Op.update (dialect : Dialect) (view : View) : Op → View
  | .put path e => if IsKey path ∧ IsStorable dialect e then Function.update view path (some e) else view
  | .erase path => Function.update view path none
  | .clear => fun _ => none
  | _ => view

def view (dialect : Dialect) (ops : List Op) : View := ops.foldl (Op.update dialect) fun _ => none

structure Mirrors (dialect : Dialect) (s : Store) (view : View) : Prop where
  isOpen : s.isOpen = true
  ordered : s.cache.Ordered
  objects : ∀ p, s.cache.objects.lookup p = (view p).map (CacheEntry.text dialect)

variable {dialect : Dialect} {s s' : Store} {m : View} {p : Text} {e : CacheEntry} {ops : List Op} {op : Op}

theorem checkKey_eq_ok (h : IsKey p) : Cache.checkKey p = .ok () := by
  rw [Cache.checkKey, if_neg h.1, if_neg (Nat.not_lt.2 h.2)]

theorem checkKey_eq_error_iff {err : CacheError} :
    Cache.checkKey p = .error err ↔
      p = [] ∧ err = .keyRequired ∨ Cache.maxKeyLength < p.length ∧ err = .keyTooLarge := by
  unfold Cache.checkKey
  split_ifs with hnil hlong
  · subst hnil
    simp [eq_comm]
  · simp [hnil, hlong, eq_comm]
  · simp [hnil, hlong]

theorem isKey_of_checkKey (h : Cache.checkKey p = .ok ()) : IsKey p := by
  unfold Cache.checkKey at h
  split_ifs at h with hnil hlong
  exact ⟨hnil, Nat.not_lt.1 hlong⟩

theorem update_of_isOpen (h : s.isOpen = true) (change : Cache → Except CacheError Cache) :
    s.update change = (change s.cache).map fun c => { s with cache := c } := by
  rw [update, ask, if_pos h]
  cases change s.cache <;> rfl

theorem put_eq_ok (h : s.isOpen = true) (hp : IsKey p) (he : IsStorable dialect e) :
    s.put dialect p e = .ok
      { s with cache := { s.cache with objects := Keyed.insert p (e.text dialect) s.cache.objects } } := by
  have hvalue : Cache.checkValue (e.text dialect) = .ok () := if_neg (Nat.not_lt.2 he)
  rw [put, update_of_isOpen h, Cache.put, Cache.putText, checkKey_eq_ok hp, hvalue]
  rfl

theorem put_eq_error_iff {err : CacheError} (h : s.isOpen = true) :
    s.put dialect p e = .error err ↔
      p = [] ∧ err = .keyRequired ∨ Cache.maxKeyLength < p.length ∧ err = .keyTooLarge ∨
        IsKey p ∧ ¬ IsStorable dialect e ∧ err = .valueTooLarge := by
  have hput : s.put dialect p e = .error err ↔ s.cache.put dialect p e = .error err := by
    rw [put, update_of_isOpen h]
    cases s.cache.put dialect p e <;> simp [Except.map]
  have hkey : Cache.checkKey p = .ok () ↔ IsKey p := ⟨isKey_of_checkKey, checkKey_eq_ok⟩
  rw [hput, Cache.put_eq_error_iff, checkKey_eq_error_iff, hkey, Cache.checkValue_eq_error_iff, IsStorable, Nat.not_le,
    or_assoc]

theorem step_put_of_refused (h : s.isOpen = true) (hrefused : ¬ (IsKey p ∧ IsStorable dialect e)) :
    s.step dialect (.put p e) = s := by
  obtain ⟨err, herr⟩ : ∃ err, s.put dialect p e = .error err := by
    by_cases hnil : p = []
    · exact ⟨.keyRequired, (put_eq_error_iff h).2 (.inl ⟨hnil, rfl⟩)⟩
    · by_cases hlen : p.length ≤ Cache.maxKeyLength
      · have hlarge : ¬ IsStorable dialect e := fun he => hrefused ⟨⟨hnil, hlen⟩, he⟩
        exact ⟨.valueTooLarge, (put_eq_error_iff h).2 (.inr (.inr ⟨⟨hnil, hlen⟩, hlarge, rfl⟩))⟩
      · exact ⟨.keyTooLarge, (put_eq_error_iff h).2 (.inr (.inl ⟨Nat.not_le.1 hlen, rfl⟩))⟩
  rw [step, attempt, herr]

theorem Mirrors.of_objects (h : Mirrors dialect s m) (hopen : s'.isOpen = true)
    (hobjects : s'.cache.objects = s.cache.objects) : Mirrors dialect s' m where
  isOpen := hopen
  ordered := by
    rw [Cache.Ordered, Cache.paths, hobjects]
    exact h.ordered
  objects := by
    rw [hobjects]
    exact h.objects

theorem Mirrors.put (h : Mirrors dialect s m) (p : Text) (e : CacheEntry) :
    Mirrors dialect (s.step dialect (.put p e)) (Op.update dialect m (.put p e)) := by
  by_cases haccepted : IsKey p ∧ IsStorable dialect e
  · have hput := put_eq_ok (s := s) h.isOpen haccepted.1 haccepted.2
    rw [step, attempt, hput, Op.update, if_pos haccepted]
    refine ⟨h.isOpen, ?_, fun q => ?_⟩
    · rw [Cache.Ordered, Cache.paths, Keyed.keys_insert]
      exact Text.pairwise_insertInto h.ordered
    · rw [Keyed.lookup_insert, Function.update_apply]
      split_ifs
      · rfl
      · exact h.objects q
  · rw [step_put_of_refused h.isOpen haccepted, Op.update, if_neg haccepted]
    exact h

theorem Mirrors.erase (h : Mirrors dialect s m) (p : Text) :
    Mirrors dialect (s.step dialect (.erase p)) (Op.update dialect m (.erase p)) := by
  rw [step, attempt, Store.erase, update_of_isOpen h.isOpen]
  refine ⟨h.isOpen, Cache.ordered_erase h.ordered p, fun q => ?_⟩
  show (Keyed.erase p s.cache.objects).lookup q = _
  rw [Keyed.lookup_erase, Op.update, Function.update_apply]
  split_ifs
  · rfl
  · exact h.objects q

theorem Mirrors.setSchema (h : Mirrors dialect s m) (version : Int) (hash : Text) :
    Mirrors dialect (s.step dialect (.setSchema version hash)) m := by
  rw [step, attempt, Store.setSchema, update_of_isOpen h.isOpen]
  cases Cache.checkValue hash with
  | error => exact h
  | ok => exact h.of_objects h.isOpen rfl

theorem Mirrors.migrate (h : Mirrors dialect s m) (framework : Text) :
    Mirrors dialect (s.step dialect (.migrate framework)) m := by
  rw [step, attempt, Store.migrate, update_of_isOpen h.isOpen]
  cases hc : s.cache.migrate dialect framework Cache.noOutage with
  | error => exact h
  | ok c =>
      obtain rfl := Cache.migrate_eq_ok hc
      exact h.of_objects h.isOpen rfl

theorem Mirrors.reload (h : Mirrors dialect s m) : Mirrors dialect s.reload m := by
  have hcache : s.reload.cache = s.cache := by rw [Store.reload, Cache.ofImage?_image h.ordered, Option.getD_some]
  exact h.of_objects rfl (congrArg Cache.objects hcache)

theorem Mirrors.step (h : Mirrors dialect s m) (op : Op) :
    Mirrors dialect (s.step dialect op) (op.update dialect m) := by
  cases op with
  | put p e => exact h.put p e
  | erase p => exact h.erase p
  | clear =>
      rw [Store.step, attempt, Store.clear, update_of_isOpen h.isOpen]
      exact ⟨h.isOpen, List.Pairwise.nil, fun _ => rfl⟩
  | setSchema version hash => exact h.setSchema version hash
  | migrate framework => exact h.migrate framework
  | reopen => exact h.of_objects rfl rfl
  | reload => exact h.reload

theorem Mirrors.foldl (h : Mirrors dialect s m) (ops : List Op) :
    Mirrors dialect (ops.foldl (Store.step dialect) s) (ops.foldl (Op.update dialect) m) := by
  induction ops generalizing s m with
  | nil => exact h
  | cons op ops ih => exact ih (h.step op)

theorem mirrors_run (dialect : Dialect) (ops : List Op) : Mirrors dialect (run dialect ops) (view dialect ops) := by
  have hfresh : Mirrors dialect {} fun _ => none := ⟨rfl, List.Pairwise.nil, fun _ => rfl⟩
  exact hfresh.foldl ops

theorem Mirrors.get?_eq (h : Mirrors dialect s m) (p : Text) : s.get? p = .ok ((m p).map CacheEntry.scrub) := by
  rw [get?, ask, if_pos h.isOpen, Cache.get?, h.objects p]
  cases m p with
  | none => rfl
  | some e => simp [e.read?_text dialect]

theorem Mirrors.mem_paths_iff (h : Mirrors dialect s m) : p ∈ s.cache.paths ↔ ∃ e, s.get? p = .ok (some e) := by
  rw [Cache.paths, Keyed.mem_keys_iff, h.get?_eq, h.objects p]
  cases m p <;> simp

theorem lastPut_concat_iff : LastPut dialect p e (ops ++ [op]) ↔
    (op = .put p e ∧ IsStorable dialect e) ∨ LastPut dialect p e ops ∧ ¬ op.Affects dialect p := by
  constructor
  · rintro ⟨before, after, heq, he, hafter⟩
    rcases List.eq_nil_or_concat after with rfl | ⟨rest, last, rfl⟩
    · exact .inl ⟨List.append_inj_right' heq rfl |> List.singleton_inj.1, he⟩
    · rw [List.concat_eq_append, ← List.cons_append, ← List.append_assoc] at heq
      obtain ⟨rfl, hlast⟩ := List.append_inj' heq rfl
      obtain rfl := List.singleton_inj.1 hlast
      refine .inr ⟨⟨before, rest, rfl, he, fun o ho => hafter o ?_⟩, hafter op ?_⟩
      · simp [ho]
      · simp
  · rintro (⟨rfl, he⟩ | ⟨⟨before, after, rfl, he, hafter⟩, hop⟩)
    · exact ⟨ops, [], rfl, he, by simp⟩
    · refine ⟨before, after ++ [op], by simp, he, fun o ho => ?_⟩
      rcases List.mem_append.1 ho with ho | ho
      · exact hafter o ho
      · rwa [List.mem_singleton.1 ho]

theorem Op.update_of_not_affects (h : ¬ op.Affects dialect p) : op.update dialect m p = m p := by
  cases op with
  | put path e =>
      rw [Op.update]
      split_ifs with haccepted
      · exact Function.update_of_ne (fun heq => h ⟨heq.symm, haccepted.2⟩) _ _
      · rfl
  | erase path => exact Function.update_of_ne (Ne.symm h) _ _
  | clear => exact absurd trivial h
  | setSchema | migrate | reopen | reload => rfl

theorem view_eq_some_iff (hp : IsKey p) : view dialect ops p = some e ↔ LastPut dialect p e ops := by
  -- from the end of the history, as only the last operation on the path counts
  induction ops using List.reverseRecOn with
  | nil => simp [view, LastPut]
  | append_singleton ops op ih =>
      have hview : view dialect (ops ++ [op]) = op.update dialect (view dialect ops) := by
        rw [view, List.foldl_concat]
        rfl
      rw [hview, lastPut_concat_iff]
      by_cases hop : op.Affects dialect p
      · cases op with
        | put path e' =>
            obtain ⟨rfl, he'⟩ : path = p ∧ IsStorable dialect e' := hop
            simp only [Op.update, hp, he', and_self, if_true, Function.update_self, Option.some.injEq, Op.put.injEq,
              true_and, Op.Affects, not_true_eq_false, and_false, or_false]
            exact ⟨fun h => ⟨h, h ▸ he'⟩, And.left⟩
        | erase path =>
            obtain rfl : path = p := hop
            simp [Op.update, Op.Affects]
        | clear => simp [Op.update, Op.Affects]
        | setSchema | migrate | reopen | reload => exact absurd hop not_false
      · rw [Op.update_of_not_affects hop, ih]
        have hne : ¬ (op = .put p e ∧ IsStorable dialect e) := by
          rintro ⟨rfl, he⟩
          exact hop ⟨rfl, he⟩
        simp [hop, hne]

/-- However its encoder writes stray bytes, a store gives back the entry last put at a path, decoded from its
bytes, and lists the paths that have one. What cannot be stored is refused, for its key or for its size. -/
theorem run_recalls (dialect : Dialect) (ops : List Op) {p : Text} (hne : p ≠ [])
    (hlen : p.length ≤ Cache.maxKeyLength) :
    (∀ e, LastPut dialect p e ops → (run dialect ops).get? p = .ok (some e.scrub) ∧
      ∃ text, (run dialect ops).cache.objects.lookup p = some text ∧
        text = e.toJson.compact dialect ∧ CacheEntry.read? text = some e.scrub) ∧
    ((∀ e, ¬ LastPut dialect p e ops) → (run dialect ops).get? p = .ok none) ∧
    (∃ paths, (run dialect ops).paths = .ok paths ∧ paths.Pairwise (· < ·) ∧
      ∀ q, q ∈ paths ↔ ∃ e, (run dialect ops).get? q = .ok (some e)) ∧
    ∀ q e, (∀ err, (run dialect ops).put dialect q e = .error err ↔
        q = [] ∧ err = .keyRequired ∨ Cache.maxKeyLength < q.length ∧ err = .keyTooLarge ∨
          IsKey q ∧ ¬ IsStorable dialect e ∧ err = .valueTooLarge) ∧
      (¬ (IsKey q ∧ IsStorable dialect e) → run dialect (ops ++ [.put q e]) = run dialect ops) := by
  have hrun := mirrors_run dialect ops
  have hp : IsKey p := ⟨hne, hlen⟩
  refine ⟨fun e he => ?_, fun hnone => ?_, ?_, fun q e => ⟨?_, ?_⟩⟩
  · rw [hrun.get?_eq, hrun.objects, (view_eq_some_iff hp).2 he]
    exact ⟨rfl, _, rfl, rfl, e.read?_text dialect⟩
  · have hview : view dialect ops p = none := by
      rw [Option.eq_none_iff_forall_ne_some]
      exact fun e he => hnone e ((view_eq_some_iff hp).1 he)
    rw [hrun.get?_eq, hview]
    rfl
  · refine ⟨(run dialect ops).cache.paths, ?_, hrun.ordered, fun q => hrun.mem_paths_iff⟩
    rw [paths, ask, if_pos hrun.isOpen]
  · exact fun err => put_eq_error_iff hrun.isOpen
  · intro hrefused
    rw [run, List.foldl_concat, ← run]
    exact step_put_of_refused hrun.isOpen hrefused

namespace Sample

def entry : CacheEntry where
  contentHash := "\"<\u2028>"
  framework := "v8"
  object := ⟨[97, 255], some [{ name := "f", source := "\n", parameters := some [] }, { name := "g", source := "&" }]⟩
  copyrightLines := some []

def history : List Op := [
  .put "b.js" entry, .put "a.js" {}, .reload, .put "a.js" entry, .erase "b.js", .setSchema 7 "x", .reload,
  .migrate "v8", .put [] {}, .reopen]

theorem run_recalls_reloaded :
    LastPut .escaped "a.js" entry history ∧ (run .escaped history).get? "a.js" = .ok (some entry.scrub) ∧
      entry.scrub ≠ entry ∧ (run .escaped history).get? "b.js" = .ok none := by
  have hlast : LastPut .escaped "a.js" entry history :=
    ⟨history.take 3, history.drop 4, rfl, by decide +kernel, by decide +kernel⟩
  have hview : view .escaped history "b.js" = none := by decide +kernel
  have hnone (e : CacheEntry) : ¬ LastPut .escaped "b.js" e history := by
    intro he
    rw [(view_eq_some_iff (by decide)).2 he] at hview
    cases hview
  have ha : Text.ofString "a.js" ≠ [] ∧ (Text.ofString "a.js").length ≤ Cache.maxKeyLength := by decide
  have hb : Text.ofString "b.js" ≠ [] ∧ (Text.ofString "b.js").length ≤ Cache.maxKeyLength := by decide
  refine ⟨hlast, ?_, by decide +kernel, ?_⟩
  · exact ((run_recalls .escaped history ha.1 ha.2).1 entry hlast).1
  · exact (run_recalls .escaped history hb.1 hb.2).2.1 hnone

end Sample

end BuiltinCatalog.Store
