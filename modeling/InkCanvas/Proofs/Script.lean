import InkCanvas.Proofs.Stored
import InkCanvas.Script

/-! # Recorded sessions survive being stored

A step is told by every object that holds its members, in whatever order and among whatever others
(`Step.Among`). It is read from such an object if the other members are legible, and not at all if they are
not (`Step.ofJson?_of_among`). So a script is read from its own text and from every text that tells its
steps (`Script.ofText?_of_tells`). -/

namespace InkCanvas

open Json

namespace Step

/-- The doubles in a step. -/
def floats : Step → List Float
  | .input e => e.floats
  | .setWidth width => [width]
  | _ => []

/-- The names of the members, besides the tag, that a step of this kind may have. -/
def fieldNames : Step → List String
  | .input _ => Event.fieldNames
  | .setTool _ => ["tool"]
  | .setColor _ => ["color"]
  | .setWidth _ => ["width"]
  | .undo | .redo | .clear | .interrupt => []

/-- The members of an object hold the step in some order, and extra ones that mean nothing to it. -/
def Among (s : Step) (extra members : Fields) : Prop :=
  Fields.Scattered ("type" :: s.fieldNames) (("type", .ofString s.tag) :: s.toFields) extra members

variable {s : Step} {extra members : Fields}

theorem mem_fieldNames : ∀ m ∈ s.toFields, m.1 ∈ s.fieldNames := by
  cases s with
  | input e => exact Event.mem_fieldNames
  | setTool | setColor | setWidth => simp [toFields, fieldNames]
  | undo | redo | clear | interrupt => exact List.forall_mem_nil _

theorem nodup_toFields : (s.toFields.map Prod.fst).Nodup := by
  cases s with
  | input e => exact Event.nodup_toFields
  | setTool | setColor | setWidth => exact List.nodup_singleton _
  | undo | redo | clear | interrupt => exact List.nodup_nil

theorem type_notMem_fieldNames : "type" ∉ s.fieldNames := by
  cases s <;> simp [fieldNames, Event.fieldNames]

theorem isLegible_toFields (hfinite : ∀ x ∈ s.floats, x.isFinite = true)
    (hread : ∀ x ∈ s.floats, Numeral.ReadsBack x) {room : Nat} (hroom : 0 < room) :
    ∀ m ∈ s.toFields, m.2.isLegible room = true := by
  cases s with
  | input e => exact Event.isLegible_toFields hfinite hread room
  | setTool tool => exact List.forall_mem_singleton.mpr (Value.isLegible_ofString tool.name room)
  | setColor color => exact List.forall_mem_singleton.mpr (color.isLegible_toJson hroom)
  | setWidth width =>
    have hmem : width ∈ (setWidth width).floats := List.mem_singleton_self width
    exact List.forall_mem_singleton.mpr
      (Value.isLegible_ofFloat (hfinite width hmem) (hread width hmem) room)
  | undo | redo | clear | interrupt => exact List.forall_mem_nil _

theorem writable_toFields : ∀ m ∈ s.toFields, m.2.Writable := by
  cases s with
  | input e => exact Event.writable_toFields
  | setTool tool => exact List.forall_mem_singleton.mpr (Value.writable_ofString tool.name)
  | setColor color => exact List.forall_mem_singleton.mpr color.writable_toJson
  | setWidth width => exact List.forall_mem_singleton.mpr (Value.writable_ofFloat width)
  | undo | redo | clear | interrupt => exact List.forall_mem_nil _

/-- A step is read from an object that holds it, unless something the object holds besides is not
legible. -/
theorem ofJson?_of_among (hfinite : ∀ x ∈ s.floats, x.isFinite = true)
    (hread : ∀ x ∈ s.floats, Numeral.ReadsBack x) (h : s.Among extra members) {room : Nat}
    (hroom : 1 < room) : ofJson? room (.ofFields members)
      = if extra.all (·.2.isLegible (room - 1)) then some s else none := by
  have hkey : ∀ m ∈ s.toFields, m.1 ≠ "type" := fun m hm heq =>
    type_notMem_fieldNames (heq ▸ mem_fieldNames m hm)
  obtain ⟨rest, hrest, hread?⟩ := Tagged.exists_ofValue?_eq h hkey
    (isLegible_toFields hfinite hread (Nat.sub_pos_of_lt hroom))
  obtain ⟨f, hf, hperm⟩ := Fields.exists_ofMembers?_eq hrest mem_fieldNames nodup_toFields
  have hlookup := Fields.lookup_congr hperm nodup_toFields
  rw [ofJson?, hread?]
  split
  next =>
    -- Which fields are read shows only when the kind of step is known.
    cases s with
    | input e =>
      change (Fields.ofMembers? Event.fieldNames rest).bind
        (fun f => (Event.ofFields? .tagged f).map input) = _
      have hf : Fields.ofMembers? Event.fieldNames rest = some f := hf
      rw [hf, Option.bind_some, Event.ofFields?_congr hlookup, toFields,
        Event.ofFields?_toFields hfinite hread, Option.map_some]
    | setTool tool =>
      exact Fields.map_get?_of_lookup setTool hf (hlookup "tool") (Tool.ofJson?_name .tagged tool)
    | setColor color =>
      exact Fields.map_get?_of_lookup setColor hf (hlookup "color") color.ofJson?_toJson
    | setWidth width =>
      have hmem : width ∈ (setWidth width).floats := List.mem_singleton_self width
      exact Fields.map_get?_of_lookup setWidth hf (hlookup "width")
        (Value.toFloat?_ofFloat (hfinite width hmem) (hread width hmem))
    | undo | redo | clear | interrupt =>
      change (Fields.ofMembers? [] rest).map _ = _
      have hf : Fields.ofMembers? [] rest = some f := hf
      rw [hf]
      rfl
  next => rfl

end Step

/-- A step, and an object that holds it and extra members. -/
structure Restatement where
  step : Step
  /-- The members that mean nothing to the step. -/
  extra : Fields
  /-- All members of the object. -/
  members : Fields
  among : step.Among extra members

namespace Restatement

/-- The step as it is stored. -/
def plain (s : Step) : Restatement where
  step := s
  extra := []
  members := ("type", .ofString s.tag) :: s.toFields
  among := ⟨by rw [List.append_nil], List.forall_mem_nil _⟩

theorem map_step_plain (steps : List Step) : (steps.map plain).map (·.step) = steps := by
  rw [List.map_map]
  exact List.map_id steps

/-- The object. -/
def toJson (r : Restatement) : Value := .ofFields r.members

theorem writable_toJson {r : Restatement} (h : ∀ m ∈ r.extra, m.2.Writable) : r.toJson.Writable := by
  refine Value.writable_ofFields fun m hm => ?_
  have hmem := r.among.perm.mem_iff.mp hm
  rcases List.mem_append.mp hmem with hfield | hextra
  · rcases List.mem_cons.mp hfield with rfl | hfield
    · exact Value.writable_ofString r.step.tag
    · exact Step.writable_toFields m hfield
  · exact h m hextra

/-- The extra members are legible where they stand, in an object of an array. -/
def isLegible (r : Restatement) : Bool := r.extra.all (·.2.isLegible (nestingLimit - 2))

end Restatement

namespace Script

variable {steps : List Step} {rs : List Restatement}

theorem writable_toJson : (toJson steps).Writable := by
  refine Value.writable_array fun v hv => ?_
  obtain ⟨s, -, rfl⟩ := List.mem_map.mp hv
  exact Restatement.writable_toJson (r := .plain s) (List.forall_mem_nil _)

theorem ofJson?_map_toJson (hfinite : ∀ r ∈ rs, ∀ x ∈ r.step.floats, x.isFinite = true)
    (hread : ∀ r ∈ rs, ∀ x ∈ r.step.floats, Numeral.ReadsBack x) :
    ofJson? (.array (rs.map (·.toJson)))
      = if rs.all (·.isLegible) then some (rs.map (·.step)) else none := by
  change (rs.map (·.toJson)).mapM (Step.ofJson? (nestingLimit - 1)) = _
  induction rs with
  | nil => rfl
  | cons r rs ih =>
    obtain ⟨hfinite, hfinites⟩ := List.forall_mem_cons.mp hfinite
    obtain ⟨hread, hreads⟩ := List.forall_mem_cons.mp hread
    have hstep : Step.ofJson? (nestingLimit - 1) r.toJson = if r.isLegible then some r.step else none :=
      Step.ofJson?_of_among hfinite hread r.among (by decide)
    rw [List.map_cons, List.mapM_cons, hstep, ih hfinites hreads, List.all_cons]
    cases r.isLegible <;> cases rs.all (·.isLegible) <;> rfl

/-- The text spells an array of the objects. -/
def Tells (t : String) (rs : List Restatement) : Prop :=
  Value.ofText? t = some (.array (rs.map (·.toJson)))

theorem tells_text (steps : List Step) : Tells (text steps) (steps.map .plain) := by
  rw [Tells, text, Value.ofText?_compact writable_toJson, toJson, List.map_map]
  rfl

/-- A script is read back from its text, and from every text that tells its steps: the members of a step
may be in any order, and there may be others whose values are legible. With an extra member that is not
legible nothing is read. What is read is replayed in the same way as the script. -/
theorem ofText?_of_tells (hfinite : ∀ s ∈ steps, ∀ x ∈ s.floats, x.isFinite = true)
    (hread : ∀ s ∈ steps, ∀ x ∈ s.floats, Numeral.ReadsBack x) :
    (Tells (text steps) (steps.map .plain) ∧ ofText? (text steps) = some steps) ∧
    ∀ (t : String) (rs : List Restatement), Tells t rs → rs.map (·.step) = steps →
      ofText? t = (if rs.all (·.isLegible) then some steps else none) ∧
      ∀ reloaded, ofText? t = some reloaded → ∀ s : Session Float, s.replay reloaded = s.replay steps := by
  have hrestated (t : String) (rs : List Restatement) (ht : Tells t rs)
      (hsteps : rs.map (·.step) = steps) :
      ofText? t = if rs.all (·.isLegible) then some steps else none := by
    subst hsteps
    have htext : Value.ofText? t = some (.array (rs.map (·.toJson))) := ht
    rw [ofText?, htext, Option.bind_some]
    exact ofJson?_map_toJson (fun r hr => hfinite r.step (List.mem_map_of_mem hr))
      fun r hr => hread r.step (List.mem_map_of_mem hr)
  refine ⟨⟨tells_text steps, ?_⟩, fun t rs ht hsteps => ⟨hrestated t rs ht hsteps, ?_⟩⟩
  · have hplain : (steps.map Restatement.plain).all (·.isLegible) = true := by
      simp [Restatement.plain, Restatement.isLegible]
    rw [hrestated _ _ (tells_text steps) (Restatement.map_step_plain steps), if_pos hplain]
  · intro reloaded hreloaded s
    rw [hrestated t rs ht hsteps] at hreloaded
    split at hreloaded
    · rw [Option.some.inj hreloaded]
    · cases hreloaded

/-- A width, and a pen that goes down with the largest contact and time there are, told backwards and with
a note, and then the last step is undone. -/
theorem ofText?_of_tells_backwards :
    let down : Event Float :=
      ⟨18446744073709551615, .stylus, .start, ⟨1.5, -20⟩, 18446744073709551615, none⟩
    let steps : List Step := [.setWidth 0.25, .input down, .undo]
    let t := "[\x7b\"note\":null,\"width\":0.25,\"type\":\"set_width\"\x7d,"
      ++ "\x7b\"timestamp_ms\":18446744073709551615,\"screen_y\":-20.0,\"screen_x\":1.5,"
      ++ "\"phase\":\"start\",\"device\":\"stylus\",\"contact_id\":18446744073709551615,\"type\":\"input\"\x7d,"
      ++ "\x7b\"type\":\"undo\"\x7d]"
    ofText? (text steps) = some steps ∧ ofText? t = some steps := by
  intro down steps t
  let rs : List Restatement :=
    [⟨.setWidth 0.25, [("note", .null)], _, List.reverse_perm _, by decide⟩,
      ⟨.input down, [], _, (List.reverse_perm _).trans (.of_eq (List.append_nil _).symm), by decide⟩,
      .plain .undo]
  have hfinite : ∀ s ∈ steps, ∀ x ∈ s.floats, x.isFinite = true := by decide +kernel
  have hread : ∀ s ∈ steps, ∀ x ∈ s.floats, Numeral.ReadsBack x := by decide +kernel
  have hextra : ∀ r ∈ rs, ∀ m ∈ r.extra, m.2.Writable := by
    have hnull : Value.null.Writable := List.forall_mem_singleton.mpr trivial
    simp [rs, Restatement.plain, hnull]
  have hwritable : (Value.array (rs.map (·.toJson))).Writable :=
    Value.writable_array (List.forall_mem_map.mpr fun r hr => Restatement.writable_toJson (hextra r hr))
  have ht : t = (Value.array (rs.map (·.toJson))).compact := by decide +kernel
  have htells : Tells t rs := by
    rw [Tells, ht]
    exact Value.ofText?_compact hwritable
  obtain ⟨⟨-, htext⟩, hothers⟩ := ofText?_of_tells hfinite hread
  obtain ⟨hloaded, -⟩ := hothers t rs htells rfl
  exact ⟨htext, hloaded⟩

/-- A single undo, and beside it an extra member with a number beyond the doubles. -/
theorem ofText?_unknown_beyond_doubles :
    let extra : Fields := [("x", .num ⟨false, [1], [], some (false, [4, 0, 0])⟩)]
    let members : Fields := ("type", .ofString "undo") :: extra
    let t := "[\x7b\"type\":\"undo\",\"x\":1e+400\x7d]"
    ofText? (text [.undo]) = some [.undo] ∧ Step.undo.Among extra members ∧
      Value.ofText? t = some (.array [.ofFields members]) ∧ ofText? t = none := by
  intro extra members t
  have ht : t = (Value.array [.ofFields members]).compact := by decide +kernel
  have hwritable : (Value.array [.ofFields members]).Writable := by
    refine Value.writable_array (List.forall_mem_singleton.mpr (Value.writable_ofFields ?_))
    exact List.forall_mem_cons.mpr
      ⟨Value.writable_ofString _, List.forall_mem_singleton.mpr (Value.writable_num ⟨rfl, by simp⟩)⟩
  have hvalue : Value.ofText? t = some (.array [.ofFields members]) := by
    rw [ht]
    exact Value.ofText?_compact hwritable
  have hundo : ofText? (text [.undo]) = some [.undo] := by
    rw [ofText?, text, Value.ofText?_compact writable_toJson]
    rfl
  have hnone : (ofJson? (.array [.ofFields members])).isNone = true := by decide +kernel
  refine ⟨hundo, ⟨.refl _, by decide⟩, hvalue, ?_⟩
  rw [ofText?, hvalue]
  exact Option.isNone_iff_eq_none.mp hnone

end Script

end InkCanvas
