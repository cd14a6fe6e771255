import InkCanvas.Json.Printer
import InkCanvas.Proofs.Json.Numeral
import InkCanvas.Proofs.Json.Text

/-! # Texts and their tokens

A text spells tokens if it has their texts in order, with blanks between them wherever one likes, as long
as no word follows another one directly (`Token.Spells`). Such a text is scanned to the tokens it spells
(`Token.Spells.scan?_eq`). Both printers spell the tokens of a value, the compact one (`Value.adds_compact`)
and the one that writes a line for each item and member (`Value.adds_prettyAt`). -/

namespace InkCanvas.Json

namespace Token

/-- The text of the token stands for it: a numeral has a form of JSON, and a string has a value. -/
def Writable : Token → Prop
  | .num n => n.WellFormed
  | .str s => s.isSome = true
  | _ => True

/-- A token that would take up the characters of a word behind it. -/
def isWord : Token → Bool
  | .null | .bool _ | .num _ => true
  | _ => false

/-- No word goes on here. -/
def EndsWord (cs : List Char) : Prop := ∀ c ∈ cs.head?, isWordChar c = false

/-! ## Single tokens -/

theorem ne_of_isWordChar {c : Char} (h : isWordChar c = true) : isBlank c = false ∧ c ≠ '"' := by
  constructor
  · cases hblank : isBlank c with
    | false => rfl
    | true =>
      simp only [isBlank, Bool.or_eq_true, beq_iff_eq] at hblank
      rcases hblank with ((rfl | rfl) | rfl) | rfl <;> cases h
  · rintro rfl
    cases h

theorem scan?_word (c : Char) (cs : List Char) {rest : List Char} {t : Token}
    (hword : (c :: cs).all isWordChar = true) (hrest : EndsWord rest)
    (h : ofWord? (c :: cs) = some t) : scan? (c :: cs ++ rest) = (scan? rest).map (t :: ·) := by
  obtain ⟨hc, hcs⟩ := List.forall_mem_cons.mp (List.all_eq_true.mp hword)
  obtain ⟨hblank, hquote⟩ := ne_of_isWordChar hc
  have htake : (cs ++ rest).takeWhile isWordChar = cs := by
    rw [List.takeWhile_append_of_pos hcs]
    cases rest with
    | nil => exact List.append_nil cs
    | cons x rest => rw [List.takeWhile_cons_of_neg (by simp [hrest x rfl]), List.append_nil]
  have hdrop : (cs ++ rest).dropWhile isWordChar = rest := by
    rw [List.dropWhile_append_of_pos hcs]
    cases rest with
    | nil => rfl
    | cons x rest => rw [List.dropWhile_cons_of_neg (by simp [hrest x rfl])]
  rw [List.cons_append, scan?]
  simp only [hblank, hquote, hc, htake, hdrop, h]
  rfl

theorem isWordChar_toChar (d : Digit) : isWordChar d.toChar = true := by
  decide +revert

theorem isWordChar_of_mem_chars {n : Numeral} {c : Char} (h : c ∈ n.chars) : isWordChar c = true := by
  have hdigits {ds : List Digit} {c : Char} (h : c ∈ ds.map Digit.toChar) : isWordChar c = true := by
    obtain ⟨d, -, rfl⟩ := List.mem_map.mp h
    exact isWordChar_toChar d
  obtain ⟨negative, whole, fraction, exponent⟩ := n
  simp only [Numeral.chars, List.mem_append] at h
  rcases h with hsign | hwhole | hfraction | hexponent
  · cases negative with
    | false => cases hsign
    | true => obtain rfl := List.mem_singleton.mp hsign; rfl
  · exact hdigits hwhole
  · split at hfraction
    · cases hfraction
    · rcases List.mem_cons.mp hfraction with rfl | hmem
      · rfl
      · exact hdigits hmem
  · rcases exponent with - | ⟨minus, ds⟩
    · cases hexponent
    · simp only [Numeral.exponentChars, List.mem_cons] at hexponent
      rcases hexponent with rfl | rfl | hmem
      · rfl
      · cases minus <;> rfl
      · exact hdigits hmem

theorem ofWord?_chars {n : Numeral} (h : n.WellFormed) : ofWord? n.chars = some (.num n) := by
  have hread := Numeral.ofChars?_chars h
  have hword (cs : List Char) (hcs : Numeral.ofChars? cs = none) : n.chars ≠ cs := by
    rintro rfl
    rw [hread] at hcs
    cases hcs
  rw [ofWord?, if_neg (hword _ (by decide)), if_neg (hword _ (by decide)),
    if_neg (hword _ (by decide)), hread]
  rfl

theorem scan?_blank {c : Char} (h : isBlank c = true) (cs : List Char) :
    scan? (c :: cs) = scan? cs := by
  rw [scan?, if_pos h]

theorem scan?_mark {c : Char} {t : Token} (hblank : isBlank c = false) (hquote : c ≠ '"')
    (hword : isWordChar c = false) (h : ofMark? c = some t) (rest : List Char) :
    scan? (c :: rest) = (scan? rest).map (t :: ·) := by
  rw [scan?]
  simp only [hblank, hquote, hword, h]
  rfl

theorem scan?_quoted (s : String) (rest : List Char) :
    scan? ((Text.quoted s).toList ++ rest) = (scan? rest).map (.str (some s) :: ·) := by
  have hchars : (Text.quoted s).toList ++ rest
      = '"' :: (s.toList.flatMap Text.written ++ '"' :: rest) := by
    simp [Text.quoted]
  rw [hchars, scan?, if_neg (by decide), if_pos rfl]
  split
  next h => rw [Text.pieces?_flatMap_written] at h; cases h
  next ps cs h =>
    rw [Text.pieces?_flatMap_written] at h
    obtain ⟨rfl, rfl⟩ := Prod.mk.inj (Option.some.inj h)
    rw [Text.chars?_map_ofChar, Option.map_some, String.ofList_toList]

/-- The text of a token is scanned to the token. -/
theorem scan?_text {t : Token} (ht : t.Writable) {rest : List Char}
    (hrest : t.isWord = true → EndsWord rest) :
    scan? (t.text.toList ++ rest) = (scan? rest).map (t :: ·) := by
  cases t with
  | null => exact scan?_word 'n' ['u', 'l', 'l'] rfl (hrest rfl) rfl
  | bool b =>
    cases b with
    | false => exact scan?_word 'f' ['a', 'l', 's', 'e'] rfl (hrest rfl) rfl
    | true => exact scan?_word 't' ['r', 'u', 'e'] rfl (hrest rfl) rfl
  | num n =>
    have hword := ofWord?_chars ht
    have hall := fun c => isWordChar_of_mem_chars (n := n) (c := c)
    change scan? (n.text.toList ++ rest) = _
    rw [Numeral.toList_text]
    cases hchars : n.chars with
    | nil =>
      rw [hchars] at hword
      cases hword
    | cons c cs =>
      rw [hchars] at hword hall
      exact scan?_word c cs (List.all_eq_true.mpr hall) (hrest rfl) hword
  | str s =>
    obtain ⟨s, rfl⟩ := Option.isSome_iff_exists.mp ht
    exact scan?_quoted s rest
  | openObject | closeObject | openArray | closeArray | colon | comma =>
    exact scan?_mark rfl (by decide) rfl rfl rest

/-! ## Texts -/

/-- The text has the texts of the tokens in order, with blanks wherever one likes, and no word runs into
what follows it. -/
inductive Spells : List Char → List Token → Prop
  | nil : Spells [] []
  | blank {c : Char} {cs : List Char} {ts : List Token} :
    isBlank c = true → Spells cs ts → Spells (c :: cs) ts
  | token {t : Token} {cs : List Char} {ts : List Token} :
    t.Writable → (t.isWord = true → EndsWord cs) → Spells cs ts →
      Spells (t.text.toList ++ cs) (t :: ts)

variable {cs : List Char} {ts : List Token}

theorem Spells.scan?_eq (h : Spells cs ts) : scan? cs = some ts := by
  induction h with
  | nil => rw [scan?]
  | blank hc _ ih => rw [scan?_blank hc, ih]
  | token ht hrest _ ih => rw [scan?_text ht hrest, ih]; rfl

theorem endsWord_text {t : Token} (h : t.isWord = false) : EndsWord (t.text.toList ++ cs) := by
  cases t with
  | str s =>
    intro c hc
    simp only [text, Text.quoted, String.toList_append] at hc
    obtain rfl := Option.mem_some.mp hc
    rfl
  | null | bool | num => cases h
  | _ =>
    rintro c ⟨⟩
    rfl

theorem endsWord_blanks {blanks : List Char} (hblanks : blanks.all isBlank = true)
    (h : EndsWord cs) : EndsWord (blanks ++ cs) := by
  cases blanks with
  | nil => exact h
  | cons c blanks =>
    rintro x ⟨⟩
    obtain ⟨hc, -⟩ := List.forall_mem_cons.mp (List.all_eq_true.mp hblanks)
    cases hword : isWordChar c with
    | false => rfl
    | true => rw [(ne_of_isWordChar hword).1] at hc; cases hc

theorem Spells.blanks {blanks : List Char} (hblanks : blanks.all isBlank = true)
    (h : Spells cs ts) : Spells (blanks ++ cs) ts := by
  induction blanks with
  | nil => exact h
  | cons c blanks ih =>
    obtain ⟨hc, hblanks⟩ := List.forall_mem_cons.mp (List.all_eq_true.mp hblanks)
    exact .blank hc (ih (List.all_eq_true.mpr hblanks))

/-- Wherever a text goes on without a word, the part in front of it adds the tokens. -/
def Adds (part : List Char) (tokens : List Token) : Prop :=
  ∀ cs ts, EndsWord cs → Spells cs ts → Spells (part ++ cs) (tokens ++ ts)

namespace Adds

variable {a b before after : List Char} {us vs : List Token}

theorem spells (h : Adds a us) : Spells a us := by
  simpa using h [] [] nofun .nil

theorem nil : Adds [] [] := fun _ _ _ h => h

theorem token {t : Token} (ht : t.Writable) : Adds t.text.toList [t] :=
  fun _ _ hcs h => .token ht (fun _ => hcs) h

theorem blanks (hbefore : before.all isBlank = true) (ha : Adds a us) : Adds (before ++ a) us := by
  intro cs ts hcs h
  rw [List.append_assoc]
  exact .blanks hbefore (ha cs ts hcs h)

/-- A token that is no word separates two parts, and there may be blanks on both sides of it. -/
theorem separated {t : Token} (ht : t.Writable) (hword : t.isWord = false)
    (hbefore : before.all isBlank = true) (hafter : after.all isBlank = true) (ha : Adds a us)
    (hb : Adds b vs) :
    Adds (a ++ (before ++ (t.text.toList ++ (after ++ b)))) (us ++ t :: vs) := by
  intro cs ts hcs h
  simp only [List.append_assoc, List.cons_append]
  have hback : Spells (t.text.toList ++ (after ++ (b ++ cs))) (t :: (vs ++ ts)) :=
    .token ht (fun hyes => absurd hyes (by simp [hword])) (.blanks hafter (hb cs ts hcs h))
  exact ha _ _ (endsWord_blanks hbefore (endsWord_text hword)) (.blanks hbefore hback)

/-- So does a token that is no word, without blanks. -/
theorem joined {t : Token} (ht : t.Writable) (hword : t.isWord = false) (ha : Adds a us)
    (hb : Adds b vs) : Adds (a ++ (t.text.toList ++ b)) (us ++ t :: vs) :=
  separated ht hword (List.all_nil ..) (List.all_nil ..) ha hb

end Adds

end Token

namespace Value

open Token

/-- Every numeral in the value has a form of JSON, and every string and name has a value. -/
def Writable (v : Value) : Prop := ∀ t ∈ v.tokens, t.Writable

/-! ## The compact printer -/

/-- The texts of tokens without blanks. -/
def chars (ts : List Token) : List Char := ts.flatMap (·.text.toList)

theorem toList_compact (v : Value) : v.compact.toList = chars v.tokens := by
  rw [compact, chars, String.toList_join, List.flatMap_map]

theorem adds_chars_singleton {t : Token} (ht : t.Writable) : Adds (chars [t]) [t] := by
  rw [chars, List.flatMap_singleton]
  exact .token ht

theorem adds_chars_joined (us : List Token) {t : Token} {vs : List Token} (ht : t.Writable)
    (hword : t.isWord = false) (hus : Adds (chars us) us) (hvs : Adds (chars vs) vs) :
    Adds (chars (us ++ t :: vs)) (us ++ t :: vs) := by
  simpa [chars] using Adds.joined ht hword hus hvs

-- In an array or an object every part is followed by a mark, so no part is joined to another word.
mutual

theorem adds_tokens : (v : Value) → v.Writable → Adds (chars v.tokens) v.tokens
  | .null, hv => adds_chars_singleton (hv .null (List.mem_singleton_self _))
  | .bool b, hv => adds_chars_singleton (hv (.bool b) (List.mem_singleton_self _))
  | .num n, hv => adds_chars_singleton (hv (.num n) (List.mem_singleton_self _))
  | .str s, hv => adds_chars_singleton (hv (.str s) (List.mem_singleton_self _))
  | .array items, hv => by
    have hitems := adds_itemTokens items fun t ht => hv t (by simp [tokens, ht])
    exact adds_chars_joined [] trivial rfl .nil (adds_chars_joined _ trivial rfl hitems .nil)
  | .object members, hv => by
    have hmembers := adds_memberTokens members fun t ht => hv t (by simp [tokens, ht])
    exact adds_chars_joined [] trivial rfl .nil (adds_chars_joined _ trivial rfl hmembers .nil)

theorem adds_itemTokens : (items : List Value) → (∀ t ∈ itemTokens items, t.Writable) →
    Adds (chars (itemTokens items)) (itemTokens items)
  | [], _ => .nil
  | [v], hitems => adds_tokens v hitems
  | v :: w :: rest, hitems => by
    have hv := adds_tokens v fun t ht => hitems t (by simp [itemTokens, ht])
    have hrest := adds_itemTokens (w :: rest) fun t ht => hitems t (by simp [itemTokens, ht])
    exact adds_chars_joined _ trivial rfl hv hrest

theorem adds_memberTokens : (members : List (Option String × Value)) →
    (∀ t ∈ memberTokens members, t.Writable) →
    Adds (chars (memberTokens members)) (memberTokens members)
  | [], _ => .nil
  | [(name, v)], hmembers => by
    have hname := hmembers (.str name) (List.mem_cons_self ..)
    have hv := adds_tokens v fun t ht => hmembers t (by simp [memberTokens, ht])
    exact adds_chars_joined [.str name] trivial rfl (adds_chars_singleton hname) hv
  | (name, v) :: m :: rest, hmembers => by
    have hname := hmembers (.str name) (by simp [memberTokens])
    have hv := adds_tokens v fun t ht => hmembers t (by simp [memberTokens, ht])
    have hrest := adds_memberTokens (m :: rest) fun t ht => hmembers t (by simp [memberTokens, ht])
    exact adds_chars_joined [.str name] trivial rfl (adds_chars_singleton hname)
      (adds_chars_joined _ trivial rfl hv hrest)

end

theorem adds_compact {v : Value} (hv : v.Writable) : Adds v.compact.toList v.tokens := by
  rw [toList_compact]
  exact adds_tokens v hv

theorem compact_empty_array : (array []).compact = "[]" := by
  decide

theorem compact_empty_object : (object []).compact = "\x7b\x7d" := by
  decide

/-! ## The printer with lines -/

theorem all_newLine (level : Nat) : (newLine level).toList.all isBlank = true := by
  simp [newLine, isBlank]

/-- The name of a member, the colon and the value. -/
theorem adds_member {name : Option String} {part : List Char} {us : List Token}
    (hname : (Token.str name).Writable) (h : Adds part us) (level : Nat) :
    Adds ((newLine level).toList ++ ((Token.str name).text.toList ++ ':' :: ' ' :: part))
      (.str name :: .colon :: us) := by
  refine .blanks (all_newLine level) ?_
  have hblank : [' '].all isBlank = true := rfl
  have := Adds.separated (t := .colon) trivial rfl (List.all_nil ..) hblank (.token hname) h
  simpa [Token.text] using this

mutual

theorem adds_prettyAt (level : Nat) : (v : Value) → v.Writable →
    Adds (v.prettyAt level).toList v.tokens
  | .null, hv | .bool _, hv | .num _, hv | .str _, hv => adds_compact hv
  -- Without items there are no lines.
  | .array [], hv => by
    rw [prettyAt, ← compact_empty_array]
    exact adds_compact hv
  | .object [], hv => by
    rw [prettyAt, ← compact_empty_object]
    exact adds_compact hv
  | .array (v :: rest), hv => by
    have hitems := adds_prettyItems (level + 1) (v :: rest) fun t ht => hv t (by simp [tokens, ht])
    have hclosed := Adds.separated (t := .closeArray) trivial rfl (all_newLine level) (List.all_nil ..)
      hitems .nil
    have := Adds.joined (t := .openArray) trivial rfl .nil hclosed
    simpa [prettyAt, tokens, Token.text] using this
  | .object (m :: rest), hv => by
    have hmembers := adds_prettyMembers (level + 1) (m :: rest) fun t ht => hv t (by simp [tokens, ht])
    have hclosed := Adds.separated (t := .closeObject) trivial rfl (all_newLine level) (List.all_nil ..)
      hmembers .nil
    have := Adds.joined (t := .openObject) trivial rfl .nil hclosed
    simpa [prettyAt, tokens, Token.text] using this

theorem adds_prettyItems (level : Nat) : (items : List Value) →
    (∀ t ∈ itemTokens items, t.Writable) → Adds (prettyItems level items).toList (itemTokens items)
  | [], _ => .nil
  | [v], hitems => by
    rw [prettyItems, String.toList_append]
    exact .blanks (all_newLine level) (adds_prettyAt level v hitems)
  | v :: w :: rest, hitems => by
    have hv := adds_prettyAt level v fun t ht => hitems t (by simp [itemTokens, ht])
    have hrest := adds_prettyItems level (w :: rest) fun t ht => hitems t (by simp [itemTokens, ht])
    have := Adds.joined (t := .comma) trivial rfl (.blanks (all_newLine level) hv) hrest
    simpa [prettyItems, itemTokens, Token.text] using this

theorem adds_prettyMembers (level : Nat) : (members : List (Option String × Value)) →
    (∀ t ∈ memberTokens members, t.Writable) →
    Adds (prettyMembers level members).toList (memberTokens members)
  | [], _ => .nil
  | [(name, v)], hmembers => by
    have hname := hmembers (.str name) (List.mem_cons_self ..)
    have hv := adds_prettyAt level v fun t ht => hmembers t (by simp [memberTokens, ht])
    simpa [prettyMembers, memberTokens] using adds_member hname hv level
  | (name, v) :: m :: rest, hmembers => by
    have hname := hmembers (.str name) (by simp [memberTokens])
    have hv := adds_prettyAt level v fun t ht => hmembers t (by simp [memberTokens, ht])
    have hrest := adds_prettyMembers level (m :: rest) fun t ht =>
      hmembers t (by simp [memberTokens, ht])
    have := Adds.joined (t := .comma) trivial rfl (adds_member hname hv level) hrest
    simpa [prettyMembers, memberTokens, Token.text] using this

end

/-! ## Scanning -/

/-- The compact text of a value is scanned to its tokens. -/
theorem scan?_compact {v : Value} (hv : v.Writable) : scan? v.compact.toList = some v.tokens :=
  (adds_compact hv).spells.scan?_eq

/-- So is the text over several lines. -/
theorem scan?_pretty {v : Value} (hv : v.Writable) : scan? v.pretty.toList = some v.tokens :=
  (adds_prettyAt 0 v hv).spells.scan?_eq

end Value

end InkCanvas.Json
