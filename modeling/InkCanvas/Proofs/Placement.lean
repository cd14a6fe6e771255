import InkCanvas.Proofs.Export
import InkCanvas.Proofs.Seen

/-! # Where the ink lies does not matter

If all ink is shifted, so is the rectangle around it. A viewport that is fitted to the one shows each
point where a viewport that is fitted to the other shows the shifted point
(`Viewport.toScreen_fit_shifted`). So an export of shifted strokes has the same marks and is painted
alike, and the rectangle around the ink is the same for every order of the strokes
(`Export.marks_of_shifted`). The positions are exact here: the picture is painted from a frame whose
positions are rounded first, by any function (`Export.pictureRounded`), and without rounding that is
the picture of the export itself (`Export.pictureRounded_id`). -/

namespace InkCanvas

variable {α β : Type}

/-! ## Shifted ink -/

section
variable [Scalar α]

def Rect.shifted (r : Rect α) (d : Point α) : Rect α :=
  ⟨r.x0 + d.x, r.y0 + d.y, r.x1 + d.x, r.y1 + d.y⟩

def Sample.shifted (s : Sample α) (d : Point α) : Sample α := { s with pos := s.pos + d }

/-- The stroke with each of its samples shifted. -/
def Stroke.shifted (s : Stroke α) (d : Point α) : Stroke α :=
  { s with first := s.first.shifted d, later := s.later.map (·.shifted d) }

theorem Stroke.positions_shifted (s : Stroke α) (d : Point α) :
    (s.shifted d).positions = s.positions.map (· + d) := by
  simp only [positions, samples, shifted, List.map_cons, List.map_map]
  rfl

end

namespace Rect

variable (r s : Rect ℝ) (d : Point ℝ)

theorem width_shifted : (r.shifted d).width = r.width := add_sub_add_right_eq_sub ..

theorem height_shifted : (r.shifted d).height = r.height := add_sub_add_right_eq_sub ..

theorem center_shifted : (r.shifted d).center = ⟨r.center.x + d.x, r.center.y + d.y⟩ := by
  simp only [center, shifted, Scalar.half_real, Point.mk.injEq]
  constructor <;> ring

theorem union_shifted : (r.shifted d).union (s.shifted d) = (r.union s).shifted d := by
  simp only [union, shifted, Scalar.min_real, Scalar.max_real, min_add_add_right, max_add_add_right]

theorem foldl_union_shifted (rects : List (Rect ℝ)) :
    (rects.map (·.shifted d)).foldl union (r.shifted d) = (rects.foldl union r).shifted d := by
  induction rects generalizing r with
  | nil => rfl
  | cons s rects ih => rw [List.map_cons, List.foldl_cons, union_shifted, ih, List.foldl_cons]

theorem inflate_shifted (x : ℝ) : (r.shifted d).inflate x = (r.inflate x).shifted d := by
  simp only [inflate, shifted, Rect.mk.injEq]
  refine ⟨?_, ?_, ?_, ?_⟩ <;> ring

end Rect

theorem Stroke.inkBounds_shifted (s : Stroke ℝ) (d : Point ℝ) :
    (s.shifted d).inkBounds = s.inkBounds.shifted d := by
  have hpoints : ((s.shifted d).later.map Sample.pos).map Rect.ofPoint =
      ((s.later.map Sample.pos).map Rect.ofPoint).map (·.shifted d) := by
    simp only [shifted, List.map_map]
    rfl
  have hbounds : (s.shifted d).bounds = s.bounds.shifted d := by
    rw [bounds_eq_foldl_union, bounds_eq_foldl_union, hpoints, ← Rect.foldl_union_shifted]
    rfl
  rw [inkBounds, hbounds, Rect.inflate_shifted]
  rfl

theorem contentBounds_shifted (strokes : List (Stroke ℝ)) (d : Point ℝ) :
    contentBounds (strokes.map (·.shifted d)) = (contentBounds strokes).map (·.shifted d) := by
  cases strokes with
  | nil => rfl
  | cons s strokes =>
    have hrects : (strokes.map (·.shifted d)).map Stroke.inkBounds =
        (strokes.map Stroke.inkBounds).map (·.shifted d) := by
      simp only [List.map_map, Function.comp_def, Stroke.inkBounds_shifted]
    simp only [List.map_cons, contentBounds, Option.map_some, hrects, Stroke.inkBounds_shifted,
      Rect.foldl_union_shifted]

/-! ## Shifted views -/

namespace Viewport

variable (r : Rect ℝ) (d : Point ℝ) (width height padding : ℝ)

theorem scale_fit_shifted :
    (initial.fit (r.shifted d) width height padding).scale =
      (initial.fit r width height padding).scale := by
  simp only [scale_fit_eq, fitScale, Rect.width_shifted, Rect.height_shifted]

theorem toScreen_fit_shifted (p : Point ℝ) :
    (initial.fit (r.shifted d) width height padding).toScreen (p + d) =
      (initial.fit r width height padding).toScreen p := by
  have hoffset (r : Rect ℝ) : (initial.fit r width height padding).offset = anchored r.center
      ⟨width / 2, height / 2⟩ (initial.fit r width height padding).scale := rfl
  have hsum : p + d = ⟨p.x + d.x, p.y + d.y⟩ := rfl
  simp only [toScreen, (withinBounds_fit _ width height padding).effectiveScale_eq, hoffset, anchored,
    scale_fit_shifted, Rect.center_shifted, hsum, Point.mk.injEq]
  constructor <;> ring

end Viewport

theorem Mark.resolve_shifted {v w : Viewport ℝ} (hv : v.WithinBounds) (hw : w.WithinBounds)
    (hscale : w.scale = v.scale) {d : Point ℝ} (hplace : ∀ p, w.toScreen (p + d) = v.toScreen p)
    (id : Option Nat) (s : Stroke ℝ) :
    resolve id (s.shifted d).path (s.shifted d) w = resolve id s.path s v := by
  have hplaces : (s.shifted d).positions.map w.toScreen = s.positions.map v.toScreen := by
    rw [Stroke.positions_shifted, List.map_map]
    exact List.map_congr_left fun p _ => hplace p
  have hpath : (s.shifted d).path.transformed w.transform w.scale =
      s.path.transformed v.transform v.scale := by
    rw [Stroke.path, Stroke.path, InkPath.transformed_through hw, InkPath.transformed_through hv,
      hplaces, hscale]
    rfl
  rw [resolve, resolve, hpath, hscale]
  rfl

/-! ## Rounded frames -/

section
variable (f : α → β)

def Point.convert (p : Point α) : Point β := ⟨f p.x, f p.y⟩

def PathStep.convert : PathStep α → PathStep β
  | .move p => .move (p.convert f)
  | .line p => .line (p.convert f)
  | .quad c p => .quad (c.convert f) (p.convert f)
  | .cubic c₁ c₂ p => .cubic (c₁.convert f) (c₂.convert f) (p.convert f)
  | .close => .close

def InkPath.convert : InkPath α → InkPath β
  | .empty => .empty
  | .dot center radius => .dot (center.convert f) (f radius)
  | .curve steps => .curve (steps.map (PathStep.convert f))

def Mark.convert (m : Mark α) : Mark β := ⟨m.id, m.path.convert f, m.color, f m.width, m.tool⟩

def Viewport.convert (v : Viewport α) : Viewport β :=
  ⟨f v.scale, v.offset.convert f, f v.minScale, f v.maxScale⟩

/-- The frame with each number in it converted. -/
def Frame.convert (frame : Frame α) : Frame β :=
  ⟨frame.strokes.map (Mark.convert f), frame.live.map (Mark.convert f), frame.view.convert f,
    frame.revision⟩

theorem Frame.marks_convert (frame : Frame α) :
    (frame.convert f).marks = frame.marks.map (Mark.convert f) := by
  simp only [marks, convert, List.map_append, Option.toList_map]

end

theorem Frame.convert_id (frame : Frame α) : frame.convert id = frame := by
  have hstep (step : PathStep α) : step.convert id = step := by cases step <;> rfl
  have hpath (path : InkPath α) : path.convert id = path := by
    cases path with
    | curve steps => exact congrArg InkPath.curve (List.map_id'' hstep steps)
    | empty | dot => rfl
  have hmark (m : Mark α) : m.convert id = m := by
    rw [Mark.convert, hpath]
    rfl
  have hmarks : (Mark.convert id : Mark α → Mark α) = id := funext hmark
  rw [convert, hmarks, List.map_id, Option.map_id]
  rfl

/-! ## Numbers of strokes -/

/-- The mark without the number of its stroke. -/
def Mark.unnumbered (m : Mark α) : Mark α := { m with id := none }

theorem Mark.unnumbered_inj {m n : Mark α} (hid : m.id = n.id) (h : m.unnumbered = n.unnumbered) :
    m = n := by
  cases m
  cases n
  obtain ⟨-, rfl, rfl, rfl, rfl⟩ := Mark.mk.inj h
  cases hid
  rfl

theorem Mark.map_unnumbered_inj {marks others : List (Mark α)}
    (hid : marks.map Mark.id = others.map Mark.id)
    (h : marks.map unnumbered = others.map unnumbered) : marks = others := by
  induction marks generalizing others with
  | nil => exact (List.map_eq_nil_iff.mp h.symm).symm
  | cons m marks ih =>
    obtain ⟨n, others, rfl, hn, hrest⟩ := List.map_eq_cons_iff.mp h.symm
    obtain ⟨hfirst, hlater⟩ := List.cons.inj hid
    rw [unnumbered_inj hfirst hn.symm, ih hlater hrest.symm]

/-- What is painted of a frame does not depend on the numbers of the strokes. -/
theorem Picture.ofFrame_convert_congr {f g : Frame α}
    (h : f.marks.map Mark.unnumbered = g.marks.map Mark.unnumbered) (round : α → Float)
    (width height : Nat) (background : Color) :
    ofFrame (f.convert round) width height background =
      ofFrame (g.convert round) width height background := by
  have hinks (f : Frame α) : ((f.convert round).marks.map fun m =>
      (Shape.ofPath m.path m.width, m.ink background)) =
      (f.marks.map Mark.unnumbered).map fun m =>
        (.ofPath (m.convert round).path (m.convert round).width, (m.convert round).ink background) := by
    rw [Frame.marks_convert, List.map_map, List.map_map]
    rfl
  rw [ofFrame, ofFrame, hinks f, hinks g, h]

/-- The viewport that an export fits to a rectangle. -/
def ExportOptions.viewOf [Scalar α] (o : ExportOptions α) (bounds : Rect α) : Viewport α :=
  Viewport.initial.fit bounds (Scalar.ofNat o.width.toNat) (Scalar.ofNat o.height.toNat) o.padding

namespace Export

/-- The picture of all strokes, from a frame that is rounded before it is painted. -/
def pictureRounded [Scalar α] (round : α → Float) (inks : List (Inked α)) (o : ExportOptions α) :
    Except RenderError Picture :=
  match frame? inks o with
  | none => .error .emptyCanvas
  | some frame =>
    Picture.ofFrame (frame.convert round) o.width.toNat o.height.toNat o.background

theorem pictureRounded_id (inks : List (Inked Float)) (o : ExportOptions Float) :
    pictureRounded id inks o = picture inks o := by
  unfold pictureRounded picture
  cases frame? inks o with
  | none => rfl
  | some frame => exact congrArg (Picture.ofFrame · _ _ _) frame.convert_id

/-! ## Exports -/

theorem exists_frame?_eq {inks : List (Inked ℝ)} {bounds : Rect ℝ}
    (h : contentBounds (inks.map Inked.stroke) = some bounds) (o : ExportOptions ℝ) :
    ∃ frame, frame? inks o = some frame ∧ frame.marks.map Mark.id = inks.map (fun ink => some ink.id) ∧
      frame.marks.map Mark.unnumbered =
        (inks.map Inked.stroke).map fun s => Mark.resolve none s.path s (o.viewOf bounds) := by
  have hframe : frame? inks o = some ⟨inks.map fun ink => Mark.resolve (some ink.id) ink.stroke.path
      ink.stroke (o.viewOf bounds), none, o.viewOf bounds, 0⟩ := by
    rw [frame?, view?, h]
    rfl
  refine ⟨_, hframe, ?_, ?_⟩
  all_goals
    simp only [Frame.marks, Option.toList_none, List.append_nil, List.map_map]
    rfl

/-- The rectangle around the ink is the same for every order of the strokes. -/
theorem contentBounds_perm {strokes others : List (Stroke ℝ)} (h : others.Perm strokes) :
    contentBounds others = contentBounds strokes := by
  have hwithin {l l' : List (Stroke ℝ)} {r r' : Rect ℝ} (hl : contentBounds l = some r)
      (hl' : contentBounds l' = some r') (hsub : l ⊆ l') : r.Within r' :=
    (contentBounds_within_iff hl).mpr fun s hs =>
      (contentBounds_within_iff hl').mp (.refl r') s (hsub hs)
  cases strokes with
  | nil => rw [h.eq_nil]
  | cons s strokes =>
    cases others with
    | nil => cases h.symm.eq_nil
    | cons t others =>
      exact congrArg some ((hwithin rfl rfl h.subset).antisymm (hwithin rfl rfl h.symm.subset))

/-- An export of shifted strokes has the same marks as one of the strokes themselves, but for the numbers
of the strokes if these are not the same. However the numbers in it are rounded, the same picture is
painted or the same size refused. The rectangle that is shown does not depend on the order of the
strokes. -/
theorem marks_of_shifted {inks moved : List (Inked ℝ)} (hne : inks ≠ []) (d : Point ℝ)
    (hmoved : moved.map Inked.stroke = inks.map fun ink => ink.stroke.shifted d)
    (o : ExportOptions ℝ) :
    (∃ frame shifted, frame? inks o = some frame ∧ frame? moved o = some shifted ∧
      shifted.marks.map Mark.unnumbered = frame.marks.map Mark.unnumbered ∧
      (moved.map Inked.id = inks.map Inked.id → shifted.marks = frame.marks)) ∧
    (∀ round : ℝ → Float, pictureRounded round moved o = pictureRounded round inks o) ∧
    ∀ others, others.Perm (inks.map Inked.stroke) →
      contentBounds others = contentBounds (inks.map Inked.stroke) := by
  obtain ⟨bounds, hbounds⟩ : ∃ bounds, contentBounds (inks.map Inked.stroke) = some bounds := by
    cases inks with
    | nil => exact absurd rfl hne
    | cons ink inks => exact ⟨_, rfl⟩
  have hstrokes : moved.map Inked.stroke = (inks.map Inked.stroke).map (·.shifted d) := by
    rw [hmoved, List.map_map]
    rfl
  have hshifted : contentBounds (moved.map Inked.stroke) = some (bounds.shifted d) := by
    rw [hstrokes, contentBounds_shifted, hbounds]
    rfl
  obtain ⟨frame, hframe, hids, hmarks⟩ := exists_frame?_eq hbounds o
  obtain ⟨frame', hframe', hids', hmarks'⟩ := exists_frame?_eq hshifted o
  have hsame : frame'.marks.map Mark.unnumbered = frame.marks.map Mark.unnumbered := by
    rw [hmarks, hmarks', hstrokes, List.map_map]
    exact List.map_congr_left fun s _ => Mark.resolve_shifted
      (Viewport.withinBounds_fit ..) (Viewport.withinBounds_fit ..)
      (Viewport.scale_fit_shifted bounds d ..) (Viewport.toScreen_fit_shifted bounds d _ _ _) none s
  refine ⟨⟨frame, frame', hframe, hframe', hsame, fun hnumbers => ?_⟩, fun round => ?_,
    fun others => contentBounds_perm⟩
  · have hnumbered := congrArg (List.map some) hnumbers
    rw [List.map_map, List.map_map] at hnumbered
    exact Mark.map_unnumbered_inj (hids'.trans (hnumbered.trans hids.symm)) hsame
  · rw [pictureRounded, pictureRounded, hframe, hframe']
    exact Picture.ofFrame_convert_congr hsame round ..

/-- A dot and a line, moved to where the line started before, under their own numbers and under others. -/
theorem marks_of_shifted_of_dot_and_line :
    let dot : Stroke ℝ := ⟨⟨⟨0, 0⟩, 0, none⟩, [], ⟨.black, 4⟩, .pen⟩
    let line : Stroke ℝ := ⟨⟨⟨10, 20⟩, 5, none⟩, [⟨⟨30, 20⟩, 9, none⟩], ⟨.black, 2⟩, .eraser⟩
    let inks : List (Inked ℝ) := [⟨1, dot⟩, ⟨2, line⟩]
    let moved (m n : Nat) : List (Inked ℝ) := [⟨m, dot.shifted ⟨10, 20⟩⟩, ⟨n, line.shifted ⟨10, 20⟩⟩]
    let o : ExportOptions ℝ := .standard
    (∃ frame shifted, frame? inks o = some frame ∧ frame? (moved 1 2) o = some shifted ∧
      shifted.marks = frame.marks ∧ frame.marks.map Mark.tool = [.pen, .eraser]) ∧
      pictureRounded (fun _ => 0) (moved 3 4) o = pictureRounded (fun _ => 0) inks o ∧
      contentBounds [line, dot] = contentBounds [dot, line] := by
  intro dot line inks moved o
  have hne : inks ≠ [] := List.cons_ne_nil _ _
  have hmoved (m n : Nat) :
      (moved m n).map Inked.stroke = inks.map fun ink => ink.stroke.shifted ⟨10, 20⟩ := rfl
  obtain ⟨⟨frame, shifted, hframe, hshifted, -, hmarks⟩, -, horder⟩ :=
    marks_of_shifted hne ⟨10, 20⟩ (hmoved 1 2) o
  obtain ⟨-, hpicture, -⟩ := marks_of_shifted hne ⟨10, 20⟩ (hmoved 3 4) o
  refine ⟨⟨frame, shifted, hframe, hshifted, hmarks rfl, ?_⟩, hpicture _,
    horder [line, dot] (.swap ..)⟩
  cases hframe
  rfl

end Export
end InkCanvas
