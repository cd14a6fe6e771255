import InkCanvas.Proofs.Session.View
import InkCanvas.Proofs.Stored
import InkCanvas.Stored.Engine

/-! # Loading a configuration

What is loaded is valid, so it makes a session (`Config.validate_of_ofText`). A valid configuration is loaded
from an object that leaves out fields which are as in the standard configuration (`Config.Keeps`), in
whatever order and among whatever others: each field is found under its name or is the standard one
(`Config.Keeps.getD?_eq`). -/

namespace InkCanvas

open Json

theorem TouchMode.ofJson?_name (mode : TouchMode) : ofJson? (.ofString mode.name) = some mode := by
  cases mode <;> rfl

namespace Config

/-- The doubles in a configuration. -/
def floats (c : Config Float) : List Float :=
  [c.minScale, c.maxScale, c.eraserRadius, c.minSampleDistance, c.defaultWidth]

variable {c : Config Float} {kept extra members : Fields}

/-! ## The fields -/

theorem map_fst_toFields (c : Config Float) : c.toFields.map Prod.fst = fieldNames := rfl

theorem nodup_toFields : (c.toFields.map Prod.fst).Nodup := by
  rw [map_fst_toFields]
  decide

theorem writable_toJson : c.toJson.Writable := by
  apply Value.writable_ofFields
  simp [toFields, Value.writable_ofFloat, Value.writable_ofNat, Value.writable_ofString,
    Color.writable_toJson]

theorem isFinite_floats_standard : ∀ x ∈ (standard : Config Float).floats, x.isFinite = true := by
  decide +kernel

theorem readsBack_floats_standard :
    ∀ x ∈ (standard : Config Float).floats, Numeral.ReadsBack x := by
  decide +kernel

/-! ## Validity -/

theorem validate_eq_ok_iff : c.validate = .ok c ↔ c.fault? = none := by
  unfold validate
  cases c.fault? <;> simp

theorem Valid.isFinite_of_mem_floats (h : c.Valid) : ∀ x ∈ c.floats, x.isFinite = true := by
  have hradius := h.eraserRadius_pos
  have hwidth := h.defaultWidth_pos
  simp only [Scalar.isPositive, Bool.and_eq_true] at hradius hwidth
  simp only [floats, List.forall_mem_cons]
  exact ⟨h.finite_minScale, h.finite_maxScale, hradius.1, h.finite_minSampleDistance, hwidth.1,
    List.forall_mem_nil _⟩

theorem validate_of_ofText {t : String} (h : ofText t = .ok c) : c.validate = .ok c := by
  unfold ofText at h
  split at h
  next => cases h
  next d hd =>
    unfold validate at h
    split at h
    next => cases h
    next hfault =>
      obtain rfl := Except.ok.inj h
      exact validate_eq_ok_iff.mpr hfault

/-! ## Reading -/

/-- What an object has to hold of a configuration: some of its fields, and all that are not as in the
standard configuration. -/
structure Keeps (c : Config Float) (kept : Fields) : Prop where
  sublist : kept.Sublist c.toFields
  standard : ∀ m ∈ c.toFields, m ∉ kept → m ∈ (standard : Config Float).toFields

theorem Keeps.nodup (h : c.Keeps kept) : (kept.map Prod.fst).Nodup :=
  (h.sublist.map Prod.fst).nodup nodup_toFields

/-- A field that is kept is read, and one that is not is as in the standard configuration. -/
theorem Keeps.getD?_eq (h : c.Keeps kept) {f : Fields} (hf : f.Perm kept) {α : Type} (name : String)
    (field : Config Float → α) (store : α → Value) {read? : Value → Option α}
    (hmem : ∀ c : Config Float, (name, store (field c)) ∈ c.toFields)
    (hread : read? (store (field c)) = some (field c))
    (hstandard : read? (store (field Config.standard)) = some (field Config.standard)) :
    f.getD? name (field Config.standard) read? = some (field c) := by
  by_cases hkept : (name, store (field c)) ∈ kept
  · have hlookup : f.lookup name = some (store (field c)) := by
      rw [Fields.lookup_congr hf h.nodup, Fields.lookup_eq_some h.nodup hkept]
    exact Fields.getD?_of_lookup _ hlookup hread
  · have hlookup : f.lookup name = none := by
      rw [Fields.lookup_congr hf h.nodup]
      refine Fields.lookup_eq_none fun v hv => hkept ?_
      rwa [Fields.eq_of_mem nodup_toFields (hmem c) (h.sublist.subset hv)]
    -- The field is stored as the standard one is, so it is read as that one.
    have hstore := Fields.eq_of_mem nodup_toFields (h.standard _ (hmem c) hkept) (hmem Config.standard)
    have hfield : field c = field Config.standard := by
      rw [hstore, hstandard] at hread
      exact (Option.some.inj hread).symm
    rw [hfield]
    exact Fields.getD?_of_lookup_eq_none read? _ hlookup

theorem ofJson?_of_keeps (h : c.Keeps kept) (hfinite : ∀ x ∈ c.floats, x.isFinite = true)
    (hread : ∀ x ∈ c.floats, Numeral.ReadsBack x)
    (hscattered : Fields.Scattered fieldNames kept extra members) :
    ofJson? (.ofFields members) = some c := by
  have hknown : ∀ m ∈ kept, m.1 ∈ fieldNames := fun m hm =>
    map_fst_toFields c ▸ List.mem_map_of_mem (h.sublist.subset hm)
  obtain ⟨f, hf, hperm⟩ := Fields.exists_ofValue?_eq hscattered hknown h.nodup
  have hfloat (name : String) (field : Config Float → Float)
      (hfloats : ∀ c : Config Float, field c ∈ c.floats)
      (hmem : ∀ c : Config Float, (name, .ofFloat (field c)) ∈ c.toFields) :
      f.getD? name (field standard) Value.toFloat? = some (field c) :=
    h.getD?_eq hperm name field .ofFloat hmem
      (Value.toFloat?_ofFloat (hfinite _ (hfloats c)) (hread _ (hfloats c)))
      (Value.toFloat?_ofFloat (isFinite_floats_standard _ (hfloats standard))
        (readsBack_floats_standard _ (hfloats standard)))
  have hcount (name : String) (field : Config Float → UInt64)
      (hmem : ∀ c : Config Float, (name, .ofNat (field c).toNat) ∈ c.toFields) :
      f.getD? name (field standard) Value.toUInt64? = some (field c) :=
    h.getD?_eq hperm name field (fun n => .ofNat n.toNat) hmem (Value.toUInt64?_ofNat _)
      (Value.toUInt64?_ofNat _)
  have hminScale := hfloat "min_scale" minScale (by simp [floats]) (by simp [toFields])
  have hmaxScale := hfloat "max_scale" maxScale (by simp [floats]) (by simp [toFields])
  have hmaxStrokes := hcount "max_strokes" maxStrokes (by simp [toFields])
  have hmaxHistory := hcount "max_history" maxHistory (by simp [toFields])
  have hradius := hfloat "eraser_radius" eraserRadius (by simp [floats]) (by simp [toFields])
  have hdistance := hfloat "min_sample_distance" minSampleDistance (by simp [floats])
    (by simp [toFields])
  have htap := hcount "tap_max_duration_ms" tapMaxDuration (by simp [toFields])
  have hmode := h.getD?_eq hperm "touch_mode" touchMode (fun mode => .ofString mode.name)
    (by simp [toFields]) (TouchMode.ofJson?_name _) (TouchMode.ofJson?_name _)
  have hcolor := h.getD?_eq hperm "default_color" defaultColor Color.toJson (by simp [toFields])
    (Color.ofJson?_toJson _) (Color.ofJson?_toJson _)
  have hwidth := hfloat "default_width" defaultWidth (by simp [floats]) (by simp [toFields])
  rw [ofJson?, hf]
  simp only [Option.bind_eq_bind, Option.bind_some, hminScale, hmaxScale, hmaxStrokes, hmaxHistory,
    hradius, hdistance, htap, hmode, hcolor, hwidth]
  rfl

theorem keeps_toFields (c : Config Float) : c.Keeps c.toFields :=
  ⟨.refl _, fun _ hm hno => absurd hm hno⟩

theorem ofText_of_keeps (hvalid : c.validate = .ok c) (hread : ∀ x ∈ c.floats, Numeral.ReadsBack x)
    (h : c.Keeps kept) (hscattered : Fields.Scattered fieldNames kept extra members) {t : String}
    (ht : Value.ofText? t = some (.ofFields members)) : ofText t = .ok c := by
  have hfinite := (fault?_eq_none_iff.mp (validate_eq_ok_iff.mp hvalid)).isFinite_of_mem_floats
  rw [ofText, ht, Option.bind_some, ofJson?_of_keeps h hfinite hread hscattered]
  exact hvalid

/-- A configuration of a text is valid and makes a session whose scale is between its bounds. Every valid
configuration is loaded from its text, and from every text of an object that holds the fields in which it
is not as the standard configuration, any others of its fields, and any members of other names, in any
order. -/
theorem ofText_valid_and_lossless :
    (∀ (t : String) (c : Config Float), ofText t = .ok c → c.validate = .ok c ∧
      ∃ s, Session.ofConfig c = .ok s ∧ s.view.minScale = c.minScale ∧ s.view.maxScale = c.maxScale ∧
        s.view.minScale ≤ s.view.scale ∧ s.view.scale ≤ s.view.maxScale) ∧
    ∀ c : Config Float, c.validate = .ok c → (∀ x ∈ c.floats, Numeral.ReadsBack x) →
      ofText c.text = .ok c ∧
      ∀ (kept extra members : Fields) (t : String), c.Keeps kept →
        Fields.Scattered fieldNames kept extra members → Value.ofText? t = some (.ofFields members) →
          ofText t = .ok c := by
  refine ⟨fun t c h => ?_, fun c hvalid hread => ⟨?_, fun kept extra members t hkeeps hscattered =>
    ofText_of_keeps hvalid hread hkeeps hscattered⟩⟩
  · have hvalid := validate_of_ofText h
    have hsession : Session.ofConfig c = .ok (.build c) :=
      Session.ofConfig_eq_ok_iff.mpr ⟨validate_eq_ok_iff.mp hvalid, rfl⟩
    have hreachable : (Session.build c).Reachable := ⟨c, _, [], hsession, rfl⟩
    have hbounds := hreachable.withinBounds
    exact ⟨hvalid, _, hsession, rfl, rfl, hbounds.minScale_le_scale, hbounds.scale_le_maxScale⟩
  · exact ofText_of_keeps hvalid hread c.keeps_toFields
      ⟨.of_eq (List.append_nil _).symm, List.forall_mem_nil _⟩ (Value.ofText?_pretty writable_toJson)

/-- A text that names two fields and, between them, a number beyond the doubles. -/
theorem ofText_valid_and_lossless_of_two_fields :
    let c : Config Float := { standard with maxStrokes := 20, touchMode := .drawWithFinger }
    let t := "\x7b\"touch_mode\":\"draw_with_finger\",\"x\":1e+400,\"max_strokes\":20\x7d"
    ofText c.text = .ok c ∧ ofText t = .ok c ∧ ∃ s, Session.ofConfig c = .ok s := by
  intro c t
  let strokes : String × Value := ("max_strokes", .ofNat 20)
  let mode : String × Value := ("touch_mode", .ofString "draw_with_finger")
  let other : String × Value := ("x", .num ⟨false, [1], [], some (false, [4, 0, 0])⟩)
  have hvalid : c.validate = .ok c :=
    validate_eq_ok_iff.mpr (Option.isNone_iff_eq_none.mp (by decide +kernel))
  have hread : ∀ x ∈ c.floats, Numeral.ReadsBack x := by decide +kernel
  have hkeeps : c.Keeps [strokes, mode] := by
    have hcases : ∀ m ∈ c.toFields, m ∈ [strokes, mode] ∨ m ∈ (standard : Config Float).toFields := by
      simp [c, toFields, strokes, mode, TouchMode.name]
    have hsub : [strokes, mode].Sublist c.toFields :=
      .cons _ <| .cons _ <| .cons_cons _ <| .cons _ <| .cons _ <| .cons _ <| .cons _ <| .cons_cons _ <|
        List.nil_sublist _
    exact ⟨hsub, fun m hm hno => (hcases m hm).resolve_left hno⟩
  have hscattered : Fields.Scattered fieldNames [strokes, mode] [other] [mode, other, strokes] :=
    ⟨@List.perm_append_comm _ [mode, other] [strokes], by decide⟩
  have ht : Value.ofText? t = some (.ofFields [mode, other, strokes]) := by
    have htext : t = (Value.ofFields [mode, other, strokes]).compact := by decide +kernel
    rw [htext]
    refine Value.ofText?_compact (Value.writable_ofFields ?_)
    exact List.forall_mem_cons.mpr ⟨Value.writable_ofString _,
      List.forall_mem_cons.mpr ⟨Value.writable_num ⟨rfl, by simp⟩,
        List.forall_mem_singleton.mpr (Value.writable_ofNat 20)⟩⟩
  obtain ⟨haccepted, hloaded⟩ := ofText_valid_and_lossless
  obtain ⟨htext, hothers⟩ := hloaded c hvalid hread
  obtain ⟨-, s, hs, -⟩ := haccepted c.text c htext
  exact ⟨htext, hothers _ _ _ t hkeeps hscattered ht, s, hs⟩

end Config

end InkCanvas
