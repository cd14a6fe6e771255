import InkCanvas.Timeline

/-! # A history as a list with a cursor

A track is a list of states and the place of the present one. Going back and forth moves the cursor
and nothing else; a new state takes the place of all that lie after the cursor, and pushes out the
oldest if there is no room for it. A timeline does the same to its entries (`Timeline.track_undo?`,
`track_redo?`, `track_commit`). -/

namespace InkCanvas

/-- A list of states and the place of the present one. -/
@[ext]
structure Track (σ : Type) where
  /-- The states, oldest first. -/
  entries : List σ
  /-- The place of the present state. -/
  cursor : Nat
  /-- The present state is one of the list. -/
  cursor_lt : cursor < entries.length

namespace Track

variable {σ : Type}

/-- The cursor one place back, if it is not at the oldest state. -/
def back (t : Track σ) : Track σ :=
  ⟨t.entries, t.cursor - 1, Nat.lt_of_le_of_lt (Nat.sub_le ..) t.cursor_lt⟩

/-- The cursor one place forth, if it is not at the last state. -/
def forth (t : Track σ) : Track σ :=
  if h : t.cursor + 1 < t.entries.length then ⟨t.entries, t.cursor + 1, h⟩ else t

/-- The states up to the cursor, followed by a new one. -/
def followed (t : Track σ) (x : σ) : List σ := t.entries.take (t.cursor + 1) ++ [x]

theorem length_followed (t : Track σ) (x : σ) : (t.followed x).length = t.cursor + 2 := by
  have := t.cursor_lt
  simp only [followed, List.length_append, List.length_take, List.length_singleton]
  omega

/-- The states up to the cursor are followed by a new one, which is the present now; the oldest is
dropped exactly if there would be more than `room`. -/
def record (t : Track σ) (room : Nat) (x : σ) : Track σ :=
  if room < (t.followed x).length then
    ⟨(t.followed x).tail, t.cursor, by rw [List.length_tail, length_followed]; omega⟩
  else
    ⟨t.followed x, t.cursor + 1, by rw [length_followed]; omega⟩

end Track

namespace Timeline

variable {σ : Type} {t u : Timeline σ}

/-- The track of a timeline. -/
def track (t : Timeline σ) : Track σ := ⟨t.entries, t.cursor, by simp [entries, cursor]⟩

@[simp] theorem track_entries (t : Timeline σ) : t.track.entries = t.entries := rfl

@[simp] theorem track_cursor (t : Timeline σ) : t.track.cursor = t.cursor := rfl

theorem track_undo? (h : t.undo? = some u) : u.track = t.track.back := by
  obtain ⟨hentries, hcursor⟩ := of_undo?_eq_some h
  ext1
  · exact hentries
  · simp only [track, Track.back, hcursor, Nat.add_sub_cancel]

theorem track_redo? (h : t.redo? = some u) : u.track = t.track.forth := by
  obtain ⟨hentries, hcursor⟩ := of_redo?_eq_some h
  have hlt : t.cursor + 1 < t.entries.length := by
    rw [← hentries, ← hcursor]
    exact u.track.cursor_lt
  have hforth : t.track.forth = ⟨t.entries, t.cursor + 1, hlt⟩ := dif_pos hlt
  rw [hforth]
  exact Track.ext hentries hcursor

theorem back_track_of_eq_none (h : t.undo? = none) : t.track.back = t.track := by
  have hcursor := undo?_eq_none_iff.mp h
  ext1
  · rfl
  · simp only [Track.back, track_cursor, hcursor, Nat.zero_sub]

theorem forth_track_of_eq_none (h : t.redo? = none) : t.track.forth = t.track := by
  have hcursor := redo?_eq_none_iff.mp h
  exact dif_neg (by simp only [track_cursor, track_entries]; omega)

theorem followed_track (t : Timeline σ) (x : σ) :
    t.track.followed x = (t.present :: t.past).reverse ++ [x] := by
  have hlen : t.cursor + 1 = (t.past.reverse ++ [t.present]).length := by simp [cursor]
  have hsplit : t.entries = (t.past.reverse ++ [t.present]) ++ t.future := by simp [entries]
  simp only [Track.followed, track]
  rw [hlen, hsplit, List.take_left, List.reverse_cons]

theorem track_commit (t : Timeline σ) (depth : Nat) (x : σ) :
    (t.commit depth x).track = t.track.record (depth + 1) x := by
  have hlen : (t.track.followed x).length = t.cursor + 2 := t.track.length_followed x
  unfold Track.record
  by_cases hdeep : depth < t.cursor + 1
  · have hpast : dropFarthest depth (t.present :: t.past) = (t.present :: t.past).dropLast :=
      if_pos hdeep
    have hne : (t.present :: t.past).reverse ≠ [] := by simp
    rw [if_pos (by omega)]
    apply Track.ext
    · change (t.commit depth x).entries = (t.track.followed x).tail
      rw [entries_commit, followed_track, hpast, List.tail_append_of_ne_nil hne, List.tail_reverse]
    · change (dropFarthest depth (t.present :: t.past)).length = t.past.length
      rw [hpast, List.length_dropLast, List.length_cons, Nat.add_sub_cancel]
  · have hpast : dropFarthest depth (t.present :: t.past) = t.present :: t.past := if_neg hdeep
    rw [if_neg (by omega)]
    apply Track.ext
    · change (t.commit depth x).entries = t.track.followed x
      rw [entries_commit, followed_track, hpast]
    · change (dropFarthest depth (t.present :: t.past)).length = t.past.length + 1
      rw [hpast, List.length_cons]

/-- A new present state leaves no more entries than the depth allows, if the past kept to it. -/
theorem length_entries_commit_le {depth : Nat} (h : t.cursor ≤ depth) (x : σ) :
    (t.commit depth x).entries.length ≤ depth + 1 := by
  have hpast : (t.commit depth x).past.length ≤ depth := cursor_commit_le h x
  rw [entries, List.length_append, List.length_reverse]
  exact Nat.add_le_add_right hpast 1

end Timeline

end InkCanvas
