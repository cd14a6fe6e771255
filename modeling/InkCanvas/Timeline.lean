/-! # A timeline with a cursor

A timeline holds the present state, the earlier states that can be taken back and the later ones
that can be taken up again. `Timeline.entries` lists all of them in order and `Timeline.cursor`
tells which one is the present.

* `Timeline.commit`: a new present; what was taken back is lost.
* `Timeline.undo?`, `Timeline.redo?`: one step back and one step forth, if there is one.
* `Timeline.commitCapped`: a commit to a list that keeps only its newest items. -/

namespace InkCanvas

/-- The present state among earlier and later ones. -/
structure Timeline (σ : Type) where
  /-- The earlier states, nearest first. -/
  past : List σ
  /-- The present state. -/
  present : σ
  /-- The later states, nearest first. -/
  future : List σ
  deriving DecidableEq

namespace Timeline

variable {σ : Type}

/-- The timeline of a single state. -/
def single (s : σ) : Timeline σ := ⟨[], s, []⟩

/-- All states, earliest first. -/
def entries (t : Timeline σ) : List σ := t.past.reverse ++ t.present :: t.future

/-- The place of the present state among the entries. -/
def cursor (t : Timeline σ) : Nat := t.past.length

/-- A past without its farthest state if it is deeper than `depth`. -/
def dropFarthest (depth : Nat) (past : List σ) : List σ :=
  if depth < past.length then past.dropLast else past

/-- A new present state. The former one is the nearest of the past, which loses one state if it is too
deep now, and nothing lies ahead any more. -/
def commit (t : Timeline σ) (depth : Nat) (s : σ) : Timeline σ :=
  ⟨dropFarthest depth (t.present :: t.past), s, []⟩

/-- One step back. -/
def undo? (t : Timeline σ) : Option (Timeline σ) :=
  match t.past with
  | [] => none
  | s :: past => some ⟨past, s, t.present :: t.future⟩

/-- One step forth. -/
def redo? (t : Timeline σ) : Option (Timeline σ) :=
  match t.future with
  | [] => none
  | s :: future => some ⟨t.present :: t.past, s, future⟩

/-- There is a step back. -/
def canUndo (t : Timeline σ) : Bool := !t.past.isEmpty

/-- There is a step forth. -/
def canRedo (t : Timeline σ) : Bool := !t.future.isEmpty

/-- The cursor points at the present state. -/
theorem getElem?_entries_cursor (t : Timeline σ) : t.entries[t.cursor]? = some t.present := by
  simp [entries, cursor]

/-- A step back moves the cursor and keeps all states. -/
theorem of_undo?_eq_some {t u : Timeline σ} (h : t.undo? = some u) :
    u.entries = t.entries ∧ t.cursor = u.cursor + 1 := by
  unfold undo? at h
  split at h
  · cases h
  next hp =>
    obtain rfl := Option.some.inj h
    simp [entries, cursor, hp]

/-- There is no step back from the first state, and only from there. -/
theorem undo?_eq_none_iff {t : Timeline σ} : t.undo? = none ↔ t.cursor = 0 := by
  unfold undo? cursor
  split <;> simp_all

/-- A step forth moves the cursor and keeps all states. -/
theorem of_redo?_eq_some {t u : Timeline σ} (h : t.redo? = some u) :
    u.entries = t.entries ∧ u.cursor = t.cursor + 1 := by
  unfold redo? at h
  split at h
  · cases h
  next hf =>
    obtain rfl := Option.some.inj h
    simp [entries, cursor, hf]

/-- There is no step forth from the last state, and only from there. -/
theorem redo?_eq_none_iff {t : Timeline σ} :
    t.redo? = none ↔ t.cursor + 1 = t.entries.length := by
  unfold redo? cursor entries
  split <;> simp_all

theorem dropFarthest_isPrefix (depth : Nat) (past : List σ) : dropFarthest depth past <+: past := by
  unfold dropFarthest
  split
  · exact List.dropLast_prefix past
  · exact List.prefix_refl past

theorem dropFarthest_succ_cons (depth : Nat) (s : σ) (past : List σ) :
    dropFarthest (depth + 1) (s :: past) = s :: dropFarthest depth past := by
  unfold dropFarthest
  rw [List.length_cons]
  by_cases hdeep : depth < past.length
  · have hne : past ≠ [] := List.ne_nil_of_length_pos (Nat.zero_lt_of_lt hdeep)
    rw [if_pos hdeep, if_pos (Nat.succ_lt_succ hdeep), List.dropLast_cons_of_ne_nil hne]
  · rw [if_neg hdeep, if_neg (by omega)]

/-- Where one state is too many at most, it is the only one to go. -/
theorem dropFarthest_eq_take {depth : Nat} {past : List σ} (h : past.length ≤ depth + 1) :
    dropFarthest depth past = past.take depth := by
  unfold dropFarthest
  split
  next hdeep =>
    have hdepth : past.length - 1 = depth := by omega
    rw [List.dropLast_eq_take, hdepth]
  next hroom => rw [List.take_of_length_le (Nat.le_of_not_lt hroom)]

/-- A new present state is the last one. -/
theorem entries_commit (t : Timeline σ) (depth : Nat) (s : σ) : (t.commit depth s).entries =
    (dropFarthest depth (t.present :: t.past)).reverse ++ [s] := rfl

/-- A past that keeps to the depth does so after a commit. -/
theorem cursor_commit_le {t : Timeline σ} {depth : Nat} (h : t.cursor ≤ depth) (s : σ) :
    (t.commit depth s).cursor ≤ depth := by
  have hone : (t.present :: t.past).length ≤ depth + 1 := Nat.succ_le_succ h
  change (dropFarthest depth (t.present :: t.past)).length ≤ depth
  rw [dropFarthest_eq_take hone]
  exact List.length_take_le ..

end Timeline

/-- How far a list exceeds a cap. -/
def excess {β : Type} (cap : Nat) (items : List β) : Nat := items.length - cap

/-- The newest items of a list that is kept oldest first, at most `cap` of them. -/
def newest {β : Type} (cap : Nat) (items : List β) : List β := items.drop (excess cap items)

/-- The newest items keep to the cap. -/
theorem length_newest_le {β : Type} (cap : Nat) (items : List β) :
    (newest cap items).length ≤ cap := by
  simp only [newest, excess, List.length_drop]
  omega

/-- A list within the cap keeps all of its items. -/
theorem newest_eq_self {β : Type} {cap : Nat} {items : List β} (h : items.length ≤ cap) :
    newest cap items = items := by
  simp [newest, excess, Nat.sub_eq_zero_of_le h]

/-- How much a canvas keeps. -/
structure Limits where
  /-- How many items the present state may hold. -/
  items : Nat
  /-- How many steps can be taken back. -/
  depth : Nat
  deriving DecidableEq

namespace Timeline

variable {β : Type}

/-- A new present list, without its oldest items if they exceed the cap, and how many those are. -/
def commitCapped (t : Timeline (List β)) (limits : Limits) (items : List β) :
    Timeline (List β) × Nat :=
  (t.commit limits.depth (newest limits.items items), excess limits.items items)

/-- The items of all states but the present one: first those of the past, earliest state first,
then those of the future, latest state first. -/
def others (t : Timeline (List β)) : List β := (t.past.reverse ++ t.future.reverse).flatten

end Timeline

end InkCanvas
