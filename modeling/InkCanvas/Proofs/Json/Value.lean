import InkCanvas.Proofs.Json.Spelling

/-! # Values survive being written

The tokens of a value are assembled to that value, whatever is open around it and whatever follows
(`Value.foldlM_tokens`). So each text that a printer writes spells the value it was given
(`Value.ofText?_compact`, `Value.ofText?_pretty`). -/

namespace InkCanvas.Json.Value

/-- A value may begin here, and what it is put into is open around it. -/
def Awaits (p : Progress) (stack : List Frame) : Prop :=
  ∀ t, t ≠ .closeArray → step? p t = begin? stack t

theorem awaits_value (stack : List Frame) : Awaits (.value, stack) stack := fun _ _ => rfl

theorem awaits_firstItem (stack : List Frame) : Awaits (.firstItem, stack) (.items [] :: stack) := by
  intro t ht
  cases t with
  | closeArray => exact absurd rfl ht
  | _ => rfl

theorem foldlM_cons {p q : Progress} {t : Token} (h : step? p t = some q) (ts : List Token) :
    (t :: ts).foldlM step? p = ts.foldlM step? q := by
  rw [List.foldlM_cons, h]
  rfl

-- What is open around a value stays as it is, so the stack is the same for every value of a list.
mutual

/-- The tokens of a value are assembled to it. -/
theorem foldlM_tokens : (v : Value) → {p : Progress} → {stack : List Frame} → Awaits p stack →
    (ts : List Token) → (v.tokens ++ ts).foldlM step? p = ts.foldlM step? (.after v, stack)
  | .null, _, _, hp, ts => foldlM_cons (hp .null nofun) ts
  | .bool b, _, _, hp, ts => foldlM_cons (hp (.bool b) nofun) ts
  | .num n, _, _, hp, ts => foldlM_cons (hp (.num n) nofun) ts
  | .str s, _, _, hp, ts => foldlM_cons (hp (.str s) nofun) ts
  | .array [], p, _, hp, ts => by
    change (Token.openArray :: .closeArray :: ts).foldlM step? p = _
    rw [foldlM_cons (hp .openArray nofun), foldlM_cons rfl]
  | .array (v :: rest), _, stack, hp, ts => by
    rw [tokens, List.cons_append, List.append_assoc, foldlM_cons (hp .openArray nofun)]
    exact foldlM_itemTokens (v :: rest) nofun (awaits_firstItem stack) ts
  | .object [], p, _, hp, ts => by
    change (Token.openObject :: .closeObject :: ts).foldlM step? p = _
    rw [foldlM_cons (hp .openObject nofun), foldlM_cons rfl]
  | .object (m :: rest), _, stack, hp, ts => by
    rw [tokens, List.cons_append, List.append_assoc, foldlM_cons (hp .openObject nofun)]
    exact foldlM_memberTokens (m :: rest) nofun [] stack ts

/-- The items still to come are added to those before them. -/
theorem foldlM_itemTokens : (items : List Value) → items ≠ [] → {p : Progress} →
    {before : List Value} → {stack : List Frame} → Awaits p (.items before :: stack) →
    (ts : List Token) → (itemTokens items ++ .closeArray :: ts).foldlM step? p
      = ts.foldlM step? (.after (.array (before.reverse ++ items)), stack)
  | [], hitems, _, _, _, _, _ => absurd rfl hitems
  | [v], _, _, before, stack, hp, ts => by
    rw [itemTokens, foldlM_tokens v hp, foldlM_cons rfl, List.reverse_cons]
  | v :: w :: rest, _, _, before, stack, hp, ts => by
    have htokens : itemTokens (v :: w :: rest) = v.tokens ++ .comma :: itemTokens (w :: rest) := rfl
    rw [htokens, List.append_assoc, foldlM_tokens v hp, List.cons_append, foldlM_cons rfl,
      foldlM_itemTokens (w :: rest) nofun (awaits_value _), List.reverse_cons, List.append_assoc]
    rfl

/-- The members still to come are added to those before them. -/
theorem foldlM_memberTokens : (members : List (Option String × Value)) → members ≠ [] →
    (before : List (Option String × Value)) → (stack : List Frame) → (ts : List Token) →
    (memberTokens members ++ .closeObject :: ts).foldlM step? (.name before, stack)
      = ts.foldlM step? (.after (.object (before.reverse ++ members)), stack)
  | [], hmembers, _, _, _ => absurd rfl hmembers
  | [(name, v)], _, before, stack, ts => by
    change (Token.str name :: .colon :: (v.tokens ++ .closeObject :: ts)).foldlM step? _ = _
    rw [foldlM_cons rfl, foldlM_cons rfl, foldlM_tokens v (awaits_value _), foldlM_cons rfl,
      List.reverse_cons]
  | (name, v) :: m :: rest, _, before, stack, ts => by
    have htokens : memberTokens ((name, v) :: m :: rest)
        = .str name :: .colon :: (v.tokens ++ .comma :: memberTokens (m :: rest)) := rfl
    rw [htokens, List.cons_append, List.cons_append, List.append_assoc, foldlM_cons rfl,
      foldlM_cons rfl, foldlM_tokens v (awaits_value _), List.cons_append, foldlM_cons rfl,
      foldlM_memberTokens (m :: rest) nofun, List.reverse_cons, List.append_assoc]
    rfl

end

theorem ofTokens?_tokens (v : Value) : ofTokens? v.tokens = some v := by
  rw [ofTokens?, ← List.append_nil v.tokens, foldlM_tokens v (awaits_value [])]
  rfl

/-- The compact text of a value spells it. -/
theorem ofText?_compact {v : Value} (hv : v.Writable) : ofText? v.compact = some v := by
  rw [ofText?, scan?_compact hv]
  exact ofTokens?_tokens v

/-- The text of a value over several lines spells it. -/
theorem ofText?_pretty {v : Value} (hv : v.Writable) : ofText? v.pretty = some v := by
  rw [ofText?, scan?_pretty hv]
  exact ofTokens?_tokens v

/-! ## What is written is writable -/

theorem writable_num {n : Numeral} (h : n.WellFormed) : (num n).Writable :=
  List.forall_mem_singleton.mpr h

theorem writable_ofNat (n : Nat) : (ofNat n).Writable := writable_num (Numeral.wellFormed_ofNat n)

theorem writable_ofFloat (x : Float) : (ofFloat x).Writable := by
  unfold ofFloat
  split
  · exact writable_num (Numeral.wellFormed_ofFloat x)
  · exact List.forall_mem_singleton.mpr trivial

theorem writable_ofString (s : String) : (ofString s).Writable := List.forall_mem_singleton.mpr rfl

theorem writable_array {items : List Value} (h : ∀ v ∈ items, v.Writable) : (array items).Writable := by
  have hitems : ∀ t ∈ itemTokens items, t.Writable := by
    induction items with
    | nil => exact List.forall_mem_nil _
    | cons v items ih =>
      obtain ⟨hv, hrest⟩ := List.forall_mem_cons.mp h
      cases items with
      | nil => exact hv
      | cons =>
        exact List.forall_mem_append.mpr ⟨hv, List.forall_mem_cons.mpr ⟨trivial, ih hrest⟩⟩
  exact List.forall_mem_cons.mpr
    ⟨trivial, List.forall_mem_append.mpr ⟨hitems, List.forall_mem_singleton.mpr trivial⟩⟩

theorem writable_object {members : List (Option String × Value)}
    (h : ∀ m ∈ members, m.1.isSome = true ∧ m.2.Writable) : (object members).Writable := by
  have hmembers : ∀ t ∈ memberTokens members, t.Writable := by
    induction members with
    | nil => exact List.forall_mem_nil _
    | cons m members ih =>
      obtain ⟨⟨hname, hm⟩, hrest⟩ := List.forall_mem_cons.mp h
      cases members with
      | nil => exact List.forall_mem_cons.mpr ⟨hname, List.forall_mem_cons.mpr ⟨trivial, hm⟩⟩
      | cons =>
        refine List.forall_mem_cons.mpr ⟨hname, List.forall_mem_cons.mpr ⟨trivial, ?_⟩⟩
        exact List.forall_mem_append.mpr ⟨hm, List.forall_mem_cons.mpr ⟨trivial, ih hrest⟩⟩
  exact List.forall_mem_cons.mpr
    ⟨trivial, List.forall_mem_append.mpr ⟨hmembers, List.forall_mem_singleton.mpr trivial⟩⟩

theorem writable_ofFields {fields : List (String × Value)} (h : ∀ m ∈ fields, m.2.Writable) :
    (ofFields fields).Writable :=
  writable_object (List.forall_mem_map.mpr fun m hm => ⟨rfl, h m hm⟩)

end InkCanvas.Json.Value
