import InkCanvas.Proofs.Session.View

/-! # Moving the canvas and working on the ink

What a call to move or to scale the canvas does and reports depends on the viewport alone, and it
changes nothing but the viewport and the revision (`Session.exists_perform_eq_recast`). A call that
works on the ink neither looks at these two nor touches the viewport. So it makes no difference which
of the two comes first (`Session.perform_perform_comm`). -/

namespace InkCanvas
namespace Session

variable {α : Type} [Scalar α] {a v : Action α}

/-- A call to navigate does the same to all sessions with the same viewport. -/
theorem exists_perform_eq_recast (hv : v.navigates = true) (view : Viewport α) :
    ∃ w moves report, ∀ s : Session α, s.view = view →
      s.perform v = (s.recast id (fun _ => w) moves, report) := by
  have hstay {s : Session α} (hs : s.view = view) : s.recast id (fun _ => view) 0 = s := by
    subst hs
    simp only [recast, id, UInt64.add_zero]
  cases v with
  | pan delta =>
    cases h : view.pan delta with
    | ok w =>
      refine ⟨w, 1, .changed true, fun s hs => ?_⟩
      simp only [perform, pan, hs, h]
      rfl
    | error e =>
      refine ⟨view, 0, .changed false, fun s hs => ?_⟩
      simp only [perform, pan, hs, h, hstay hs]
      rfl
  | zoom factor anchor =>
    rcases h : view.zoomAt anchor factor with e | _ | w
    · refine ⟨view, 0, .changed false, fun s hs => ?_⟩
      simp only [perform, zoom, hs, h, hstay hs]
      rfl
    · refine ⟨view, 0, .changed false, fun s hs => ?_⟩
      simp only [perform, zoom, hs, h, hstay hs]
      rfl
    · refine ⟨w, 1, .changed true, fun s hs => ?_⟩
      simp only [perform, zoom, hs, h]
      rfl
  | resetView =>
    refine ⟨view.reset, 1, .done, fun s hs => ?_⟩
    simp only [perform, resetView, hs]
    rfl
  | _ => cases hv

/-- A call to navigate and one that works on the ink may change places: in both orders the session is
the same afterwards and both report the same. The one leaves alone all but the viewport and the
revision, the other leaves the viewport alone. -/
theorem perform_perform_comm (hv : v.navigates = true) (ha : a.navigates = false)
    (hevent : ∀ e, a ≠ .handle e) (hinterrupt : a ≠ .interrupt) (s : Session α) :
    ((s.perform v).1.perform a).1 = ((s.perform a).1.perform v).1 ∧
      ((s.perform v).1.perform a).2 = (s.perform a).2 ∧
      ((s.perform a).1.perform v).2 = (s.perform v).2 ∧
      (∃ view revision, (s.perform v).1 = { s with view, revision }) ∧
      (s.perform a).1.view = s.view := by
  obtain ⟨w, moves, report, hperform⟩ := exists_perform_eq_recast hv s.view
  have hview : (s.perform a).1.view = s.view := by
    rcases s.perform_view hevent with hview | ⟨hnavigates, -⟩
    · exact hview
    · rw [ha] at hnavigates
      cases hnavigates
  have hfirst : s.perform v = (s.recast id (fun _ => w) moves, report) := hperform s rfl
  have hlast : (s.perform a).1.perform v =
      ((s.perform a).1.recast id (fun _ => w) moves, report) := hperform _ hview
  have hafter := s.perform_recast id (fun _ => w) moves ha hevent hinterrupt
  rw [hlast, hfirst, hafter]
  exact ⟨rfl, rfl, rfl, ⟨w, s.revision + moves, rfl⟩, hview⟩

/-- The canvas is moved before or after a stroke is begun that commits the one before it. -/
theorem perform_perform_comm_of_second_stroke :
    let s := (build (Config.standard : Config Float)).run [.beginStroke ⟨⟨0, 0⟩, 0, none⟩]
    let v : Action Float := .pan ⟨3, 4⟩
    let a : Action Float := .beginStroke ⟨⟨5, 5⟩, 1, none⟩
    ((s.perform v).1.perform a).1 = ((s.perform a).1.perform v).1 ∧
      ((s.perform v).1.perform a).2 = .changed true ∧
      ((s.perform v).1.perform a).1.strokes.map Inked.id = [1] ∧
      ((s.perform v).1.perform a).1.revision = 4 := by
  intro s v a
  obtain ⟨hsession, hreport, -⟩ :=
    perform_perform_comm (v := v) (a := a) rfl rfl nofun nofun s
  refine ⟨hsession, ?_, by decide +kernel, by decide +kernel⟩
  rw [hreport]
  decide +kernel

end Session
end InkCanvas
