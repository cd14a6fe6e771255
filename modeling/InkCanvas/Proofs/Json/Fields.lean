import InkCanvas.Json.Printer
import InkCanvas.Json.Reader
import InkCanvas.Proofs.Json.Numeral

/-! # Records among other members

An object may hold the fields of a record in any order and members of other names besides
(`Fields.Scattered`). Only the fields are taken (`Fields.exists_ofMembers?_eq`), and each is found under its
name (`Fields.lookup_congr`). Behind a tag the other members have to be legible, or nothing is read at all
(`Tagged.exists_ofValue?_eq`). -/

namespace InkCanvas.Json

/-- All the names of a record have a value. -/
theorem Value.namedMembers?_map (members : Fields) :
    namedMembers? (members.map fun (name, v) => (some name, v)) = some members := by
  induction members with
  | nil => rfl
  | cons m members ih =>
    rw [namedMembers?] at ih ⊢
    rw [List.map_cons, List.mapM_cons, ih]
    rfl

namespace Fields

/-- The members are the fields and extra ones in some order, and no extra one has one of the names. -/
structure Scattered (names : List String) (fields extra members : Fields) : Prop where
  perm : members.Perm (fields ++ extra)
  unknown : ∀ m ∈ extra, m.1 ∉ names

variable {names : List String} {fields extra members f g : Fields} {name : String} {v : Value}

/-! ## Finding a field -/

theorem lookup_eq_some (hnodup : (f.map Prod.fst).Nodup) (h : (name, v) ∈ f) :
    f.lookup name = some v := by
  induction f with
  | nil => cases h
  | cons m f ih =>
    obtain ⟨hnew, hnodup⟩ := List.nodup_cons.mp hnodup
    rcases List.mem_cons.mp h with rfl | hmem
    · rw [List.lookup_cons, beq_self_eq_true]
    · have hne : name ≠ m.1 := fun heq => hnew (heq ▸ List.mem_map_of_mem hmem)
      rw [List.lookup_cons, beq_false_of_ne hne]
      exact ih hnodup hmem

theorem lookup_eq_none (h : ∀ v, (name, v) ∉ f) : f.lookup name = none := by
  rw [List.lookup_eq_none_iff]
  rintro ⟨other, v⟩ hmem
  have hne : name ≠ other := by
    rintro rfl
    exact h v hmem
  exact bne_iff_ne.mpr hne

theorem eq_of_mem {w : Value} (hnodup : (f.map Prod.fst).Nodup) (hv : (name, v) ∈ f)
    (hw : (name, w) ∈ f) : v = w :=
  Option.some.inj ((lookup_eq_some hnodup hv).symm.trans (lookup_eq_some hnodup hw))

/-- The order of the fields does not matter. -/
theorem lookup_congr (hperm : f.Perm g) (hnodup : (g.map Prod.fst).Nodup) (name : String) :
    f.lookup name = g.lookup name := by
  by_cases h : ∃ v, (name, v) ∈ g
  · obtain ⟨v, hv⟩ := h
    rw [lookup_eq_some hnodup hv,
      lookup_eq_some ((hperm.map Prod.fst).nodup_iff.mpr hnodup) (hperm.mem_iff.mpr hv)]
  · have hg : ∀ v, (name, v) ∉ g := not_exists.mp h
    rw [lookup_eq_none hg, lookup_eq_none fun v hv => hg v (hperm.mem_iff.mp hv)]

theorem get?_of_lookup {α : Type} {read? : Value → Option α} {x : α} (h : f.lookup name = some v)
    (hread : read? v = some x) : f.get? name read? = some x := by
  rw [get?, h, Option.bind_some, hread]

theorem getD?_of_lookup {α : Type} {read? : Value → Option α} {x : α} (d : α)
    (h : f.lookup name = some v) (hread : read? v = some x) : f.getD? name d read? = some x := by
  rw [getD?, h]
  exact hread

theorem getD?_of_lookup_eq_none {α : Type} (read? : Value → Option α) (d : α)
    (h : f.lookup name = none) : f.getD? name d read? = some d := by
  rw [getD?, h]

/-! ## Picking the fields -/

/-- The fields are taken out of the members, in some order. -/
theorem exists_ofMembers?_eq (h : Scattered names fields extra members)
    (hknown : ∀ m ∈ fields, m.1 ∈ names) (hnodup : (fields.map Prod.fst).Nodup) :
    ∃ f, ofMembers? names members = some f ∧ f.Perm fields := by
  have hperm : (members.filter fun m => names.contains m.1).Perm fields := by
    have hfields : fields.filter (fun m => names.contains m.1) = fields :=
      List.filter_eq_self.mpr fun m hm => List.contains_iff_mem.mpr (hknown m hm)
    have hextra : extra.filter (fun m => names.contains m.1) = [] := by
      rw [List.filter_eq_nil_iff]
      exact fun m hm hin => h.unknown m hm (List.contains_iff_mem.mp hin)
    have := h.perm.filter fun m => names.contains m.1
    rwa [List.filter_append, hfields, hextra, List.append_nil] at this
  exact ⟨_, if_pos ((hperm.map Prod.fst).nodup_iff.mpr hnodup), hperm⟩

/-- The fields of an object are taken out of its members, in some order. -/
theorem exists_ofValue?_eq (h : Scattered names fields extra members)
    (hknown : ∀ m ∈ fields, m.1 ∈ names) (hnodup : (fields.map Prod.fst).Nodup) :
    ∃ f, ofValue? names (.ofFields members) = some f ∧ f.Perm fields := by
  rw [Value.ofFields, ofValue?, Value.namedMembers?_map]
  exact exists_ofMembers?_eq h hknown hnodup

/-- A record with a single field. -/
theorem map_get?_of_lookup {α β : Type} {read? : Value → Option α} {x : α} (make : α → β)
    (hf : ofMembers? names members = some f) (h : f.lookup name = some v) (hread : read? v = some x) :
    (ofMembers? names members).bind (fun f => (f.get? name read?).map make) = some (make x) := by
  rw [hf, Option.bind_some, get?_of_lookup h hread, Option.map_some]

end Fields

namespace Tagged

variable {key tag : String} {names : List String} {fields extra members : Fields} {room : Nat}

/-- The tag is taken out of the members, if all others are legible. -/
theorem exists_ofValue?_eq
    (h : Fields.Scattered (key :: names) ((key, .ofString tag) :: fields) extra members)
    (hkey : ∀ m ∈ fields, m.1 ≠ key) (hlegible : ∀ m ∈ fields, m.2.isLegible (room - 1) = true) :
    ∃ rest, Fields.Scattered names fields extra rest ∧
      ofValue? key room (.ofFields members)
        = if extra.all (·.2.isLegible (room - 1)) then some (.named tag rest) else none := by
  have hother : ∀ m ∈ fields ++ extra, m.1 ≠ key := by
    refine List.forall_mem_append.mpr ⟨hkey, fun m hm heq => h.unknown m hm ?_⟩
    rw [heq]
    exact List.mem_cons_self
  have hpicked : members.filter (·.1 == key) = [(key, .ofString tag)] := by
    refine List.perm_singleton.mp ((h.perm.filter _).trans ?_)
    rw [List.cons_append, List.filter_cons_of_pos (by simp),
      List.filter_eq_nil_iff.mpr fun m hm => by simpa using hother m hm]
  have hrest : (members.filter (·.1 != key)).Perm (fields ++ extra) := by
    have := h.perm.filter (·.1 != key)
    rwa [List.cons_append, List.filter_cons_of_neg (by simp),
      List.filter_eq_self.mpr fun m hm => bne_iff_ne.mpr (hother m hm)] at this
  refine ⟨_, ⟨hrest, fun m hm hin => h.unknown m hm (List.mem_cons_of_mem _ hin)⟩, ?_⟩
  have hall : (members.filter (·.1 != key)).all (·.2.isLegible (room - 1))
      = extra.all (·.2.isLegible (room - 1)) := by
    rw [hrest.all_eq, List.all_append, List.all_eq_true.mpr hlegible, Bool.true_and]
  rw [Value.ofFields, ofValue?, Value.namedMembers?_map]
  simp only [Option.bind_eq_bind, Option.bind_some, hpicked, hall]
  split <;> simp [*, Value.ofString, Value.toString?]

end Tagged

end InkCanvas.Json
