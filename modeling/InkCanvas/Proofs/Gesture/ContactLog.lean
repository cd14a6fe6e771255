import InkCanvas.Proofs.Gesture.Makers
import Mathlib.Data.List.Induction

/-! # The contacts as their log tells them

A log is a list of calls. By the log a contact is down from a press that was accepted until a release
of its number or a clearing, and its record is made of the press and of all that was reported about
its number since (`Contact.recorded`, `Contacts.logged`). The contacts that are kept are those of the
log, in the order of their presses, and they answer by its records (`Contacts.run_logged`). -/

namespace InkCanvas

variable {α : Type}

/-- A contact by the event that pressed it and the events that were reported of it later. -/
def Contact.recorded [Scalar α] (pressed : Event α) (later : List (Event α)) : Contact α where
  id := pressed.contact
  device := pressed.device
  start := pressed.pos
  pos := ((later.map Event.pos).filter Point.isFinite).getLastD pressed.pos
  startedAt := pressed.time
  updatedAt := (later.map Event.time).foldl max pressed.time

theorem Contact.follow_recorded [Scalar α] (pressed : Event α) (later : List (Event α))
    (e : Event α) : (recorded pressed later).follow e = recorded pressed (later ++ [e]) := by
  have hpos : ((recorded pressed later).follow e).pos = (recorded pressed (later ++ [e])).pos := by
    simp only [recorded, follow, List.map_append, List.map_singleton, List.filter_append]
    cases h : e.pos.isFinite <;> simp [h]
  have htime : ((recorded pressed later).follow e).updatedAt =
      (recorded pressed (later ++ [e])).updatedAt := by
    simp only [recorded, follow, List.map_append, List.map_singleton, List.foldl_concat]
  exact congrArg₂ (Contact.mk pressed.contact pressed.device pressed.pos · pressed.time ·) hpos htime

theorem Contact.updatedAt_le_follow [Scalar α] (c : Contact α) (e : Event α) :
    c.updatedAt ≤ (c.follow e).updatedAt := by
  change c.updatedAt ≤ if c.updatedAt ≤ e.time then e.time else c.updatedAt
  split
  next h => exact h
  next => exact UInt64.le_refl _

theorem Contact.startedAt_le_updatedAt_recorded [Scalar α] (pressed : Event α)
    (later : List (Event α)) :
    (recorded pressed later).startedAt ≤ (recorded pressed later).updatedAt := by
  induction later using List.reverseRecOn with
  | nil => exact UInt64.le_refl _
  | append_singleton later e ih =>
    rw [← follow_recorded]
    exact UInt64.le_trans ih (updatedAt_le_follow _ e)

namespace Contacts

/-! ## Calls -/

/-- What is done to the contacts. -/
inductive Call (α : Type) where
  | press (e : Event α)
  | update (e : Event α)
  | release (e : Event α)
  /-- All contacts are gone. -/
  | clear

namespace Call

/-- The call ends the contact with a number. -/
def ends (id : ContactId) : Call α → Bool
  | .release e => e.contact == id
  | .clear => true
  | .press _ | .update _ => false

/-- What the call reports of the contact with a number while it is down. -/
def report? (id : ContactId) : Call α → Option (Event α)
  | .update e | .release e => if e.contact == id then some e else .none
  | .press _ | .clear => .none

/-- What the call leaves of a contact. -/
def leaves [Scalar α] (call : Call α) (c : Contact α) : Option (Contact α) :=
  if call.ends c.id then .none else some ((call.report? c.id).elim c c.follow)

end Call

variable [Scalar α]

/-- The contact that a call answers with, and the contacts after it. -/
def answer? (t : Contacts α) : Call α → Option (Contact α × Contacts α)
  | .press e => t.press e
  | .update e => t.update e
  | .release e => t.release e
  | .clear => .none

/-- The contacts after a call. -/
def after (t : Contacts α) : Call α → Contacts α
  | .clear => none
  | call => ((t.answer? call).map Prod.snd).getD t

/-- The contacts after a log. -/
def run (calls : List (Call α)) : Contacts α := calls.foldl after none

theorem run_append_singleton (calls : List (Call α)) (call : Call α) :
    run (calls ++ [call]) = (run calls).after call := List.foldl_concat ..

/-- The contact that a call presses. -/
def pressed? (t : Contacts α) : Call α → Option (Contact α)
  | .press e => (t.press e).map Prod.fst
  | .update _ | .release _ | .clear => .none

omit [Scalar α] in
theorem ne_of_get?_eq_none {t : Contacts α} {id : ContactId} (h : t.get? id = .none)
    {c : Contact α} (hc : c ∈ t.down) : c.id ≠ id := by
  simpa using List.find?_eq_none.mp h c hc

/-- A call leaves of each contact what it leaves of it by itself, and adds the one that it presses. -/
theorem down_after (t : Contacts α) (call : Call α) :
    (t.after call).down = t.down.filterMap call.leaves ++ (t.pressed? call).toList := by
  cases call with
  | clear =>
    have hleaves : (Call.clear : Call α).leaves = fun _ => .none := rfl
    simp [after, pressed?, hleaves, none]
  | press e =>
    have hleaves : (Call.press e).leaves = some := rfl
    rw [hleaves, List.filterMap_some]
    simp only [after, answer?, pressed?, press]
    split <;> simp
  | update e =>
    have hleaves (c : Contact α) : (Call.update e).leaves c =
        some (if c.id == e.contact then c.follow e else c) := by
      simp only [Call.leaves, Call.ends, Call.report?, Bool.false_eq_true, if_false,
        Bool.beq_comm (a := c.id)]
      split <;> rfl
    simp only [pressed?, Option.toList_none, List.append_nil, funext hleaves,
      List.filterMap_eq_map']
    cases hget : t.get? e.contact with
    | some c => simp only [after, answer?, update, hget, Option.map_some, Option.getD_some]
    | none =>
      simp only [after, answer?, update, hget, Option.map_none, Option.getD_none]
      refine ((List.map_congr_left fun c hc => ?_).trans (List.map_id _)).symm
      rw [if_neg (by simpa using ne_of_get?_eq_none hget hc)]
      rfl
  | release e =>
    have hleaves : (Call.release e).leaves = Option.guard fun c => c.id != e.contact := by
      funext c
      by_cases hid : c.id = e.contact
      · simp [Call.leaves, Call.ends, Option.guard, hid]
      · simp [Call.leaves, Call.ends, Call.report?, Option.guard, hid, Ne.symm hid]
    simp only [pressed?, Option.toList_none, List.append_nil, hleaves, List.filterMap_eq_filter]
    cases hget : t.get? e.contact with
    | some c => simp only [after, answer?, release, hget, Option.map_some, Option.getD_some]
    | none =>
      simp only [after, answer?, release, hget, Option.map_none, Option.getD_none]
      refine (List.filter_eq_self.mpr fun c hc => ?_).symm
      simpa using ne_of_get?_eq_none hget hc

theorem pressed?_eq (t : Contacts α) (e : Event α) : t.pressed? (.press e) =
    if (t.press e).isSome then some (.recorded e []) else .none := by
  rcases h : t.press e with _ | ⟨c, contacts⟩
  · simp [pressed?, h]
  · simp only [pressed?, h, Option.map_some, Option.isSome_some, if_true]
    exact congrArg some (eq_ofEvent_of_press h)

/-! ## The log -/

/-- The contact that a call put down, if no later call ended it. -/
def held? (before later : List (Call α)) : Call α → Option (Contact α)
  | .press e =>
    if ((run before).press e).isSome && later.all (!·.ends e.contact) then
      some (.recorded e (later.filterMap (·.report? e.contact)))
    else
      .none
  | .update _ | .release _ | .clear => .none

/-- The contacts that the last calls of a log put down and that are held to its end. -/
def loggedAfter (before : List (Call α)) : List (Call α) → List (Contact α)
  | [] => []
  | call :: later => (held? before later call).toList ++ loggedAfter (before ++ [call]) later

/-- The contacts that are held to the end of a log, in the order of their presses. -/
def logged (calls : List (Call α)) : List (Contact α) := loggedAfter [] calls

theorem held?_append_singleton (before later : List (Call α)) (call last : Call α) :
    held? before (later ++ [last]) call = (held? before later call).bind last.leaves := by
  cases call with
  | update | release | clear => rfl
  | press e =>
    simp only [held?, List.all_append, List.all_cons, List.all_nil, Bool.and_true, ← Bool.and_assoc]
    cases ((run before).press e).isSome && later.all (!·.ends e.contact) with
    | false => rfl
    | true =>
      simp only [Bool.true_and, if_true, Option.bind_some, Call.leaves]
      change _ = if last.ends e.contact then _ else some ((last.report? e.contact).elim _ _)
      cases last.ends e.contact with
      | true => rfl
      | false =>
        simp only [Bool.not_false, if_true, Bool.false_eq_true, if_false, List.filterMap_append,
          List.filterMap_cons, List.filterMap_nil]
        cases last.report? e.contact with
        | none => simp
        | some report => exact congrArg some (Contact.follow_recorded e _ report).symm

theorem loggedAfter_append_singleton (before later : List (Call α)) (last : Call α) :
    loggedAfter before (later ++ [last]) = (loggedAfter before later).filterMap last.leaves ++
      ((run (before ++ later)).pressed? last).toList := by
  induction later generalizing before with
  | nil =>
    rw [List.append_nil]
    cases last with
    | press e => simp [loggedAfter, held?, pressed?_eq]
    | update | release | clear => rfl
  | cons call later ih =>
    have hheld : (held? before (later ++ [last]) call).toList =
        (held? before later call).toList.filterMap last.leaves := by
      rw [held?_append_singleton]
      cases held? before later call with
      | none => rfl
      | some c => cases h : last.leaves c <;> simp [h]
    rw [List.cons_append, loggedAfter, loggedAfter, hheld, ih, List.filterMap_append,
      List.append_assoc, List.append_assoc, List.singleton_append]

theorem down_run (calls : List (Call α)) : (run calls).down = logged calls := by
  induction calls using List.reverseRecOn with
  | nil => rfl
  | append_singleton calls last ih =>
    rw [run_append_singleton, down_after, ih]
    exact (loggedAfter_append_singleton [] calls last).symm

/-- The press was accepted, its contact was not ended since, and the events were reported of it. -/
def Holds (calls : List (Call α)) (pressed : Event α) (reported : List (Event α)) : Prop :=
  ∃ before later, calls = before ++ .press pressed :: later ∧
    ((run before).press pressed).isSome = true ∧
    (∀ call ∈ later, call.ends pressed.contact = false) ∧
    reported = later.filterMap (·.report? pressed.contact)

theorem held?_eq_some_iff {before later : List (Call α)} {call : Call α} {c : Contact α} :
    held? before later call = some c ↔ ∃ pressed, call = .press pressed ∧
      ((run before).press pressed).isSome = true ∧
      (∀ call ∈ later, call.ends pressed.contact = false) ∧
      c = .recorded pressed (later.filterMap (·.report? pressed.contact)) := by
  cases call with
  | update | release | clear => simp [held?]
  | press e =>
    simp only [held?, Option.ite_none_right_eq_some, Bool.and_eq_true, List.all_eq_true,
      Bool.not_eq_true', Option.some.injEq, Call.press.injEq, exists_eq_left', and_assoc,
      eq_comm (a := c)]

theorem mem_loggedAfter_iff {before later : List (Call α)} {c : Contact α} :
    c ∈ loggedAfter before later ↔ ∃ skipped call rest, later = skipped ++ call :: rest ∧
      held? (before ++ skipped) rest call = some c := by
  induction later generalizing before with
  | nil => simp [loggedAfter]
  | cons call later ih =>
    rw [loggedAfter, List.mem_append, Option.mem_toList, ih]
    constructor
    · rintro (hheld | ⟨skipped, call', rest, rfl, hheld⟩)
      · exact ⟨[], call, later, rfl, by rwa [List.append_nil]⟩
      · exact ⟨call :: skipped, call', rest, rfl, by rwa [← List.append_cons] at hheld⟩
    · rintro ⟨skipped, call', rest, heq, hheld⟩
      rcases List.cons_eq_append_iff.mp heq with ⟨rfl, h⟩ | ⟨skipped, rfl, rfl⟩
      · cases h
        exact .inl (by rwa [List.append_nil] at hheld)
      · exact .inr ⟨skipped, call', rest, rfl, by rwa [List.append_cons] at hheld⟩

theorem mem_down_run_iff {calls : List (Call α)} {c : Contact α} :
    c ∈ (run calls).down ↔ ∃ pressed reported, Holds calls pressed reported ∧
      c = .recorded pressed reported := by
  rw [down_run, logged, mem_loggedAfter_iff]
  simp only [List.nil_append, held?_eq_some_iff]
  constructor
  · rintro ⟨before, _, later, rfl, pressed, rfl, haccepted, hopen, rfl⟩
    exact ⟨pressed, _, ⟨before, later, rfl, haccepted, hopen, rfl⟩, rfl⟩
  · rintro ⟨pressed, _, ⟨before, later, rfl, haccepted, hopen, rfl⟩, rfl⟩
    exact ⟨before, _, later, rfl, pressed, rfl, haccepted, hopen, rfl⟩

/-! ## The answers -/

theorem sound_after {t : Contacts α} (h : t.Sound) (call : Call α) : (t.after call).Sound := by
  cases call with
  | clear => exact sound_none
  | press e =>
    cases hpress : t.press e with
    | none => simpa [after, answer?, hpress] using h
    | some answer => simpa [after, answer?, hpress] using h.press (c := answer.1) hpress
  | update e =>
    cases hupdate : t.update e with
    | none => simpa [after, answer?, hupdate] using h
    | some answer => simpa [after, answer?, hupdate] using h.update (c := answer.1) hupdate
  | release e =>
    cases hrelease : t.release e with
    | none => simpa [after, answer?, hrelease] using h
    | some answer => simpa [after, answer?, hrelease] using h.release (c := answer.1) hrelease

theorem sound_run (calls : List (Call α)) : (run calls).Sound := by
  induction calls using List.reverseRecOn with
  | nil => exact sound_none
  | append_singleton calls last ih =>
    rw [run_append_singleton]
    exact sound_after ih last

omit [Scalar α] in
theorem get?_eq_none_iff {t : Contacts α} {id : ContactId} :
    t.get? id = .none ↔ id ∉ t.down.map Contact.id := by
  simp [get?]

theorem press_eq_none_iff {t : Contacts α} {e : Event α} :
    t.press e = .none ↔ e.contact ∈ t.down.map Contact.id ∨ e.pos.isFinite = false := by
  have hfree : t.get? e.contact = .none ↔ e.contact ∉ t.down.map Contact.id := get?_eq_none_iff
  rw [press, ite_eq_right_iff]
  cases e.pos.isFinite <;> cases hget : t.get? e.contact <;> simp_all

theorem isFinite_of_press {t : Contacts α} {e : Event α} (h : (t.press e).isSome = true) :
    e.pos.isFinite = true := by
  by_contra hfinite
  rw [press_eq_none_iff.mpr (.inr (Bool.not_eq_true _ ▸ hfinite))] at h
  cases h

/-- A contact that is found has the record that the log tells of it, and one report more makes it the
record with that report. -/
theorem exists_holds_of_get? {calls : List (Call α)} {id : ContactId} {c : Contact α}
    (h : (run calls).get? id = some c) (e : Event α) : ∃ pressed reported, pressed.contact = id ∧
      Holds calls pressed reported ∧ c.follow e = .recorded pressed (reported ++ [e]) := by
  obtain ⟨hmem, hid⟩ := mem_of_get?_eq_some h
  obtain ⟨pressed, reported, hholds, rfl⟩ := mem_down_run_iff.mp hmem
  exact ⟨pressed, reported, hid, hholds, Contact.follow_recorded pressed reported e⟩

/-- After any log the contacts that are down are those that the log holds, in the order of their
presses, with different numbers, at finite positions and at times in order. A press is refused if and
only if the number is taken or the position is not finite, and any other event if and only if the
number is not down. What is not refused is answered by the record with the event in it. -/
theorem run_logged (calls : List (Call α)) :
    (run calls).down = logged calls ∧
    (∀ c, c ∈ (run calls).down ↔
      ∃ pressed reported, Holds calls pressed reported ∧ c = .recorded pressed reported) ∧
    ((run calls).down.map Contact.id).Nodup ∧
    (∀ c ∈ (run calls).down,
      c.start.isFinite = true ∧ c.pos.isFinite = true ∧ c.startedAt ≤ c.updatedAt) ∧
    ∀ e, ((run calls).press e = .none ↔
        e.contact ∈ (run calls).down.map Contact.id ∨ e.pos.isFinite = false) ∧
      (∀ c t, (run calls).press e = some (c, t) → c = .recorded e []) ∧
      ((run calls).update e = .none ↔ e.contact ∉ (run calls).down.map Contact.id) ∧
      (∀ c t, (run calls).update e = some (c, t) → ∃ pressed reported,
        pressed.contact = e.contact ∧ Holds calls pressed reported ∧
        c = .recorded pressed (reported ++ [e])) ∧
      ((run calls).release e = .none ↔ e.contact ∉ (run calls).down.map Contact.id) ∧
      ∀ c t, (run calls).release e = some (c, t) → ∃ pressed reported,
        pressed.contact = e.contact ∧ Holds calls pressed reported ∧
        c = .recorded pressed (reported ++ [e]) := by
  have hsound := sound_run calls
  refine ⟨down_run calls, fun c => mem_down_run_iff, hsound.nodup, fun c hc => ?_, fun e => ?_⟩
  · obtain ⟨pressed, reported, ⟨before, later, -, haccepted, -⟩, rfl⟩ := mem_down_run_iff.mp hc
    exact ⟨isFinite_of_press haccepted, hsound.finite _ hc, Contact.startedAt_le_updatedAt_recorded _ _⟩
  · refine ⟨press_eq_none_iff, fun c t h => eq_ofEvent_of_press h, ?_, fun c t h => ?_, ?_,
      fun c t h => ?_⟩
    · rw [update, Option.map_eq_none_iff, get?_eq_none_iff]
    · obtain ⟨d, hget, rfl⟩ := eq_follow_of_update h
      exact exists_holds_of_get? hget e
    · rw [release, Option.map_eq_none_iff, get?_eq_none_iff]
    · obtain ⟨d, hget, rfl⟩ := eq_follow_of_release h
      exact exists_holds_of_get? hget e

end Contacts
end InkCanvas
