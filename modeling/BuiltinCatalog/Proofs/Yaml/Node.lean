import BuiltinCatalog.Proofs.Yaml.Scan
import BuiltinCatalog.Yaml.Node

namespace BuiltinCatalog.Yaml

namespace Reader

variable {α β : Type} {t : Token} {ts us : List Token} {fuel : Nat}

/-- A reader takes the given tokens from the front and changes nothing else. -/
def Takes (p : Reader α) (ts : List Token) (a : α) : Prop :=
  ∀ r rest, r.tokens = ts ++ rest → p.run r = some (a, { r with tokens := rest })

theorem takes_pure (a : α) : Takes (pure a) [] a := by
  rintro r rest h
  rw [StateT.run_pure, show rest = r.tokens from h.symm]
  rfl

theorem Takes.bind {p : Reader α} {q : α → Reader β} {a : α} {b : β} (hp : Takes p ts a) (hq : Takes (q a) us b) :
    Takes (p >>= q) (ts ++ us) b := by
  intro r rest h
  rw [List.append_assoc] at h
  rw [StateT.run_bind, hp r _ h]
  exact hq _ _ rfl

theorem Takes.map {p : Reader α} {a : α} (h : Takes p ts a) (f : α → β) :
    Takes (p >>= fun a => pure (f a)) ts (f a) := by
  have hbind : Takes (p >>= fun a => pure (f a)) (ts ++ []) (f a) := h.bind (takes_pure (f a))
  rwa [List.append_nil] at hbind

theorem peek_run {r : Reading} {rest : List Token} (h : r.tokens = t :: rest) : peek.run r = some (t, r) := by
  simp [peek, h]

theorem takes_peek {p : Token → Reader α} {a : α} (h : Takes (p t) (t :: ts) a) : Takes (peek >>= p) (t :: ts) a := by
  intro r rest hr
  rw [StateT.run_bind, peek_run hr]
  exact h r rest hr

theorem takes_skip (t : Token) : Takes skip [t] () := by
  intro r rest h
  simp [skip, h]

theorem takes_accept (t : Token) : Takes (accept t) [t] true := by
  refine takes_peek ?_
  rw [if_pos rfl]
  exact (takes_skip t).bind (takes_pure true)

theorem takes_reject {u : Token} {p : Bool → Reader α} {a : α} (h : Takes (p false) (t :: ts) a) (hne : t ≠ u) :
    Takes (accept u >>= p) (t :: ts) a := by
  intro r rest hr
  have haccept : (accept u).run r = some (false, r) := by
    rw [accept, StateT.run_bind, peek_run hr]
    simp [hne]
  rw [StateT.run_bind, haccept]
  exact h r rest hr

theorem takes_expect (t : Token) : Takes (expect t) [t] () := by
  have h : Takes (accept t >>= fun found => if !found then failure else pure ()) ([t] ++ []) () :=
    (takes_accept t).bind (takes_pure ())
  exact h

/-- The tokens that nodes start with, where they have neither an anchor nor a tag. -/
inductive StartsNode : Token → Prop
  | scalar (quoted : Bool) (text : Text) : StartsNode (.scalar quoted text)
  | openBracket : StartsNode .openBracket
  | sequenceStart : StartsNode .sequenceStart
  | mappingStart : StartsNode .mappingStart

theorem properties_run {r : Reading} {rest : List Token} (ht : StartsNode t) (h : r.tokens = t :: rest) :
    properties.run r = some ((none, none), r) := by
  rw [properties, StateT.run_bind, peek_run h]
  cases ht <;> rfl

theorem takes_node {n : Node} {flat : Bool} (ht : StartsNode t)
    (h : Takes (content true flat false [] fuel) (t :: ts) n) : Takes (node true flat (fuel + 1)) (t :: ts) n := by
  have hplain : Takes (properties >>= fun p => p.1.mapM register >>= fun number =>
      content true flat (p.1.isSome || p.2.isSome) (p.2.getD []) fuel >>= fun n =>
        number.forM (record · n) >>= fun _ => pure n) (t :: ts) n := by
    intro r rest hr
    have hcontent := h r rest hr
    rw [StateT.run_bind, properties_run ht hr]
    simp [hcontent]
  rw [node]
  refine takes_peek ?_
  cases ht <;> exact hplain

/-- Tokens that are read as a node, in steps that their number bounds. -/
structure Parses (ts : List Token) (n : Node) : Prop where
  starts : ∃ t us, ts = t :: us ∧ StartsNode t
  takes : ∀ flat fuel, 2 * ts.length + 1 ≤ fuel → Takes (content true flat false [] fuel) ts n

namespace Parses

variable {n k v : Node}

theorem node (h : Parses ts n) (flat : Bool) (hfuel : 2 * ts.length + 2 ≤ fuel) :
    Takes (Reader.node true flat fuel) ts n := by
  obtain ⟨fuel, rfl⟩ := Nat.exists_eq_add_one_of_ne_zero (Nat.ne_zero_of_lt hfuel)
  obtain ⟨t, us, rfl, ht⟩ := h.starts
  exact takes_node ht (h.takes flat fuel (by omega))

theorem part (h : Parses ts n) (hfuel : 2 * ts.length + 3 ≤ fuel) : Takes (Reader.part fuel) ts n := by
  obtain ⟨fuel, rfl⟩ := Nat.exists_eq_add_one_of_ne_zero (Nat.ne_zero_of_lt hfuel)
  have hnode : Takes (Reader.node true true fuel) ts n := h.node true (by omega)
  obtain ⟨t, us, rfl, ht⟩ := h.starts
  rw [Reader.part]
  refine takes_peek ?_
  cases ht <;> exact hnode

theorem scalar (quoted : Bool) (text : Text) : Parses [.scalar quoted text] (.scalar [] quoted text) where
  starts := ⟨_, _, rfl, .scalar quoted text⟩
  takes flat fuel hfuel := by
    obtain ⟨fuel, rfl⟩ := Nat.exists_eq_add_one_of_ne_zero (Nat.ne_zero_of_lt hfuel)
    rw [content]
    exact takes_peek ((takes_skip _).bind (takes_pure _))

theorem empty : Parses [.openBracket, .closeBracket] (.sequence []) where
  starts := ⟨_, _, rfl, .openBracket⟩
  takes flat fuel hfuel := by
    obtain ⟨fuel, rfl⟩ := Nat.exists_eq_add_of_le' (Nat.le_trans (show 2 ≤ 2 * 2 + 1 by decide) hfuel)
    have hitems : Takes (flowItems true (fuel + 1)) ([.closeBracket] ++ []) [] := by
      rw [flowItems]
      exact (takes_accept _).bind (takes_pure _)
    rw [content]
    exact takes_peek ((takes_skip .openBracket).bind (hitems.bind (takes_pure (Node.sequence []))))

end Parses

def itemTokens (xs : List (List Token × Node)) : List Token := xs.flatMap fun x => .entry :: x.1

theorem takes_items {xs : List (List Token × Node)} (h : ∀ x ∈ xs, Parses x.1 x.2)
    (hfuel : 2 * (itemTokens xs).length + 2 ≤ fuel) :
    Takes (items fuel) (itemTokens xs ++ [.blockEnd]) (xs.map Prod.snd) := by
  induction xs generalizing fuel with
  | nil =>
      obtain ⟨fuel, rfl⟩ := Nat.exists_eq_add_one_of_ne_zero (Nat.ne_zero_of_lt hfuel)
      rw [items]
      exact takes_reject ((takes_expect .blockEnd).bind (takes_pure [])) nofun
  | cons x xs ih =>
      obtain ⟨hx, hxs⟩ := List.forall_mem_cons.1 h
      rw [itemTokens, List.flatMap_cons, ← itemTokens] at hfuel ⊢
      rw [List.length_append, List.length_cons] at hfuel
      obtain ⟨fuel, rfl⟩ := Nat.exists_eq_add_one_of_ne_zero (Nat.ne_zero_of_lt hfuel)
      have hnode : Takes (Reader.node true false fuel) x.1 x.2 := hx.node false (by omega)
      have hrest : Takes (items fuel) (itemTokens xs ++ [.blockEnd]) (xs.map Prod.snd) := ih hxs (by omega)
      have hall : Takes (Reader.node true false fuel >>= fun item => items fuel >>= fun more => pure (item :: more))
          (x.1 ++ (itemTokens xs ++ [.blockEnd])) (x.2 :: xs.map Prod.snd) := hnode.bind (hrest.map _)
      obtain ⟨t, us, hx, ht⟩ := hx.starts
      rw [hx, List.cons_append] at hall
      rw [items, hx, List.append_assoc, List.cons_append, List.cons_append]
      refine (takes_accept .entry).bind (takes_peek ?_)
      cases ht <;> exact hall

def pairTokens (ps : List ((List Token × Node) × (List Token × Node))) : List Token :=
  ps.flatMap fun p => .key :: (p.1.1 ++ .value :: p.2.1)

theorem takes_pairs {ps : List ((List Token × Node) × (List Token × Node))}
    (h : ∀ p ∈ ps, Parses p.1.1 p.1.2 ∧ Parses p.2.1 p.2.2) (hfuel : 2 * (pairTokens ps).length + 2 ≤ fuel) :
    Takes (pairs fuel) (pairTokens ps ++ [.blockEnd]) (ps.map fun p => (p.1.2, p.2.2)) := by
  induction ps generalizing fuel with
  | nil =>
      obtain ⟨fuel, rfl⟩ := Nat.exists_eq_add_one_of_ne_zero (Nat.ne_zero_of_lt hfuel)
      rw [pairs]
      exact takes_reject ((takes_expect .blockEnd).bind (takes_pure [])) nofun
  | cons p ps ih =>
      obtain ⟨⟨hkey, hvalue⟩, hps⟩ := List.forall_mem_cons.1 h
      rw [pairTokens, List.flatMap_cons, ← pairTokens] at hfuel ⊢
      rw [List.length_append, List.length_cons, List.length_append, List.length_cons] at hfuel
      obtain ⟨fuel, rfl⟩ := Nat.exists_eq_add_one_of_ne_zero (Nat.ne_zero_of_lt hfuel)
      have hkey : Takes (Reader.part fuel) p.1.1 p.1.2 := hkey.part (by omega)
      have hvalue : Takes (Reader.part fuel) p.2.1 p.2.2 := hvalue.part (by omega)
      have hrest : Takes (pairs fuel) (pairTokens ps ++ [.blockEnd]) (ps.map fun p => (p.1.2, p.2.2)) :=
        ih hps (by omega)
      rw [pairs, List.append_assoc, List.cons_append, List.append_assoc, List.cons_append]
      exact (takes_accept .key).bind (hkey.bind ((takes_accept .value).bind (hvalue.bind (hrest.map _))))

namespace Parses

theorem sequence {xs : List (List Token × Node)} (h : ∀ x ∈ xs, Parses x.1 x.2) :
    Parses (.sequenceStart :: itemTokens xs ++ [.blockEnd]) (.sequence (xs.map Prod.snd)) where
  starts := ⟨_, _, rfl, .sequenceStart⟩
  takes flat fuel hfuel := by
    simp only [List.cons_append, List.length_cons, List.length_append, List.length_nil] at hfuel
    obtain ⟨fuel, rfl⟩ := Nat.exists_eq_add_one_of_ne_zero (Nat.ne_zero_of_lt hfuel)
    have hitems : Takes (items fuel) (itemTokens xs ++ [.blockEnd]) (xs.map Prod.snd) := takes_items h (by omega)
    rw [content]
    exact takes_peek ((takes_skip .sequenceStart).bind (hitems.map Node.sequence))

theorem mapping {ps : List ((List Token × Node) × (List Token × Node))}
    (h : ∀ p ∈ ps, Parses p.1.1 p.1.2 ∧ Parses p.2.1 p.2.2) :
    Parses (.mappingStart :: pairTokens ps ++ [.blockEnd]) (.mapping (ps.map fun p => (p.1.2, p.2.2))) where
  starts := ⟨_, _, rfl, .mappingStart⟩
  takes flat fuel hfuel := by
    simp only [List.cons_append, List.length_cons, List.length_append, List.length_nil] at hfuel
    obtain ⟨fuel, rfl⟩ := Nat.exists_eq_add_one_of_ne_zero (Nat.ne_zero_of_lt hfuel)
    have hpairs : Takes (pairs fuel) (pairTokens ps ++ [.blockEnd]) (ps.map fun p => (p.1.2, p.2.2)) :=
      takes_pairs h (by omega)
    rw [content]
    exact takes_peek ((takes_skip .mappingStart).bind (hpairs.map Node.mapping))

end Parses

theorem document_run {n : Node} (h : Parses ts n) (hfuel : 2 * ts.length + 2 ≤ fuel) :
    (document fuel).run { tokens := ts ++ [.streamEnd] } =
      some (some n, { tokens := [.streamEnd], handles := commonHandles }) := by
  have hbare : (do
      modify fun r => { r with handles := commonHandles }
      let root ← Reader.node true false fuel
      if (← peek) = .broken then failure
      return some root : Reader (Option Node)).run { tokens := ts ++ [.streamEnd] } =
        some (some n, { tokens := [.streamEnd], handles := commonHandles }) := by
    have hnode := h.node false hfuel { tokens := ts ++ [.streamEnd], handles := commonHandles } [.streamEnd] rfl
    have hpeek := peek_run (r := { tokens := [.streamEnd], handles := commonHandles }) rfl
    simp [hnode, hpeek]
  obtain ⟨t, us, rfl, ht⟩ := h.starts
  rw [document, StateT.run_bind, peek_run rfl]
  cases ht <;> exact hbare

end Reader

theorem Document.read?_eq_some {t : Text} {cs : List Char} {ts : List Token} {n : Node}
    (hchars : characters? t = some cs) (htokens : tokens (spots cs) = ts ++ [.streamEnd])
    (hparses : Reader.Parses ts n) :
    ∃ depth, Document.read? t = some ⟨some n, [], depth + 1⟩ := by
  have hlen : (ts ++ [Token.streamEnd]).length = ts.length + 1 := by simp
  refine ⟨4 * ts.length + 11, ?_⟩
  simp only [Document.read?, hchars, Option.bind_eq_bind, Option.bind_some, htokens, hlen]
  rw [Reader.document_run hparses (by omega)]
  rfl

end BuiltinCatalog.Yaml
